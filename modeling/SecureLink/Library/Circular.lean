import Mathlib.Data.List.Rotate

/-!
# Circular buffers

An array of fixed size that holds a queue from some cell on, around its end. A block is
copied in and out in up to two pieces, split where the array ends. Seen from the oldest
item, that is rotated, the array starts with the queue, and a copy of a block is one piece.
The arrays are lists: a copy that passes the end of one would make it longer.
-/
namespace SecureLink.Library.Circular

variable {α : Type*}

/-- Copy a block over the cells from `pos` on. -/
def blit (cells : List α) (pos : Nat) (block : List α) : List α :=
  cells.take pos ++ block ++ cells.drop (pos + block.length)

/-- The `n` cells from `pos` on. -/
def slice (cells : List α) (pos n : Nat) : List α := (cells.drop pos).take n

/-- Copy a block in at `pos`; what does not fit before the end goes to the front. -/
def copyIn (cap : Nat) (cells : List α) (pos : Nat) (block : List α) : List α :=
  let first := if cap - pos < block.length then cap - pos else block.length
  let cells := blit cells pos (block.take first)
  if block.length > first then blit cells 0 (block.drop first) else cells

/-- Copy `n` cells out from `pos`; what is not before the end comes from the front. -/
def copyOut (cap : Nat) (cells : List α) (pos n : Nat) : List α :=
  let first := if cap - pos < n then cap - pos else n
  if n > first then slice cells pos first ++ slice cells 0 (n - first) else slice cells pos first

/-! ## Copies in the rotated array -/

section Copies

variable {cells : List α} {pos : Nat}

theorem rotate_pos (inside : pos ≤ cells.length) :
    cells.rotate pos = cells.drop pos ++ cells.take pos :=
  List.rotate_eq_drop_append_take inside

/-- What two parts look like from their seam. -/
theorem rotate_parts {front back : List α} (here : front.length = pos) :
    (front ++ back).rotate pos = back ++ front := by
  rw [← here]
  exact List.rotate_append_length_eq front back

theorem slice_eq_rotate {n : Nat} (inside : pos + n ≤ cells.length) :
    slice cells pos n = (cells.rotate pos).take n := by
  rw [rotate_pos (by omega), List.take_append_of_le_length (by rw [List.length_drop]; omega)]
  rfl

theorem copyOut_eq_rotate {n : Nat} (inside : pos ≤ cells.length) (fits : n ≤ cells.length) :
    copyOut cells.length cells pos n = (cells.rotate pos).take n := by
  unfold copyOut
  by_cases wraps : cells.length - pos < n
  · have rest : slice cells 0 (n - (cells.length - pos)) =
        (cells.take pos).take (n - (cells.drop pos).length) := by
      rw [slice, List.drop_zero, List.length_drop, List.take_take, Nat.min_eq_left (by omega)]
    simp only [if_pos wraps]
    rw [rest, rotate_pos inside, List.take_append, slice,
      List.take_of_length_le (by rw [List.length_drop]),
      List.take_of_length_le (show (cells.drop pos).length ≤ n by rw [List.length_drop]; omega)]
  · simp only [if_neg wraps, gt_iff_lt, Nat.lt_irrefl, if_false]
    exact slice_eq_rotate (by omega)

theorem blit_length {block : List α} (inside : pos + block.length ≤ cells.length) :
    (blit cells pos block).length = cells.length := by
  simp only [blit, List.length_append, List.length_take, List.length_drop]
  omega

theorem rotate_blit {block : List α} (inside : pos + block.length ≤ cells.length) :
    (blit cells pos block).rotate pos = block ++ (cells.rotate pos).drop block.length := by
  have front : (cells.take pos).length = pos := by rw [List.length_take]; omega
  rw [blit, List.append_assoc, rotate_parts front, rotate_pos (by omega),
    List.drop_append_of_le_length (by rw [List.length_drop]; omega), List.drop_drop, List.append_assoc]

/-- A block that passes the end: what it leaves, read from the front. -/
theorem blit_wrapped {block : List α} (fits : block.length ≤ cells.length)
    (wraps : cells.length < pos + block.length) (inside : pos ≤ cells.length) :
    blit (blit cells pos (block.take (cells.length - pos))) 0 (block.drop (cells.length - pos)) =
      (block.drop (cells.length - pos) ++
        (cells.take pos).drop (block.length - (cells.length - pos))) ++
        block.take (cells.length - pos) := by
  have first : (block.take (cells.length - pos)).length = cells.length - pos := by
    rw [List.length_take]
    omega
  have filled : blit cells pos (block.take (cells.length - pos)) =
      cells.take pos ++ block.take (cells.length - pos) := by
    rw [blit, first, Nat.add_sub_cancel' inside, List.drop_length, List.append_nil]
  rw [filled, blit, List.take_zero, List.nil_append, Nat.zero_add, List.length_drop,
    List.drop_append_of_le_length (by rw [List.length_take]; omega), List.append_assoc]

/-- A block copied in replaces the first cells seen from where it starts. -/
theorem rotate_copyIn {block : List α} (fits : block.length ≤ cells.length)
    (inside : pos ≤ cells.length) :
    (copyIn cells.length cells pos block).length = cells.length ∧
    (copyIn cells.length cells pos block).rotate pos =
      block ++ (cells.rotate pos).drop block.length := by
  unfold copyIn
  by_cases wraps : cells.length - pos < block.length
  · simp only [if_pos wraps]
    rw [blit_wrapped fits (by omega) inside]
    have front : (block.drop (cells.length - pos) ++
        (cells.take pos).drop (block.length - (cells.length - pos))).length = pos := by
      simp only [List.length_append, List.length_drop, List.length_take]
      omega
    constructor
    · rw [List.length_append, front, List.length_take]
      omega
    · have spent : (cells.drop pos).drop block.length = [] := by
        apply List.drop_eq_nil_of_le
        rw [List.length_drop]
        omega
      rw [rotate_parts front, ← List.append_assoc, List.take_append_drop, rotate_pos inside,
        List.drop_append, spent, List.nil_append, List.length_drop]
  · simp only [if_neg wraps, gt_iff_lt, Nat.lt_irrefl, if_false, List.take_length]
    exact ⟨blit_length (by omega), rotate_blit (by omega)⟩

end Copies

/-! ## The queue in the array -/

/-- A queue of `used` items in an array of `cap` cells. The oldest is at `oldest`, the next one
will be put at `next`. -/
structure Represents (cap : Nat) (cells : List α) (oldest next used : Nat) (items : List α) :
    Prop where
  size : cells.length = cap
  inside : oldest < cap
  next_eq : next = (oldest + used) % cap
  fits : used ≤ cap
  items_eq : items = (cells.rotate oldest).take used

namespace Represents

variable {cap : Nat} {cells items : List α} {oldest next used : Nat}

theorem empty (size : cells.length = cap) (positive : 0 < cap) :
    Represents cap cells 0 0 0 [] where
  size := size
  inside := positive
  next_eq := (Nat.zero_mod cap).symm
  fits := Nat.zero_le cap
  items_eq := List.take_zero.symm

theorem length (h : Represents cap cells oldest next used items) : items.length = used := by
  rw [h.items_eq, List.length_take, List.length_rotate, h.size, Nat.min_eq_left h.fits]

theorem next_lt (h : Represents cap cells oldest next used items) : next < cap := by
  rw [h.next_eq]
  exact Nat.mod_lt _ (Nat.zero_lt_of_lt h.inside)

/-- The array seen from the next cell is the array seen from the oldest item, rotated on. -/
theorem rotate_next (h : Represents cap cells oldest next used items) (array : List α)
    (size : array.length = cap) : array.rotate next = (array.rotate oldest).rotate used := by
  rw [h.next_eq, ← size, List.rotate_mod, List.rotate_rotate]

theorem copyIn (h : Represents cap cells oldest next used items) {block : List α}
    (room : used + block.length ≤ cap) :
    Represents cap (copyIn cap cells next block) oldest ((next + block.length) % cap)
      (used + block.length) (items ++ block) := by
  have fits : block.length ≤ cells.length := by
    rw [h.size]
    omega
  have inside : next ≤ cells.length := by
    rw [h.size]
    exact Nat.le_of_lt h.next_lt
  obtain ⟨length, copied⟩ := rotate_copyIn fits inside
  rw [h.size] at length copied
  -- the queue, the block and the cells left over, seen from the oldest item
  have whole : (Circular.copyIn cap cells next block).rotate oldest =
      items ++ (block ++ (cells.rotate oldest).drop (used + block.length)) := by
    apply List.rotate_injective used
    change ((Circular.copyIn cap cells next block).rotate oldest).rotate used =
      (items ++ (block ++ (cells.rotate oldest).drop (used + block.length))).rotate used
    have rest : used ≤ (cells.rotate oldest).length := by
      rw [List.length_rotate, h.size]
      exact h.fits
    rw [← h.rotate_next _ length, copied, h.rotate_next cells h.size, rotate_parts h.length,
      rotate_pos rest, List.drop_append_of_le_length (by
        rw [List.length_drop, List.length_rotate, h.size]
        omega),
      List.drop_drop, ← h.items_eq, List.append_assoc]
  refine ⟨length, h.inside, ?_, room, ?_⟩
  · rw [h.next_eq, Nat.mod_add_mod, Nat.add_assoc]
  · rw [whole, ← List.append_assoc, List.take_left' (by rw [List.length_append, h.length])]

theorem copyOut (h : Represents cap cells oldest next used items) {n : Nat} (held : n ≤ used) :
    copyOut cap cells oldest n = items.take n := by
  have fits := h.fits
  have inside := h.inside
  rw [← h.size, copyOut_eq_rotate (by rw [h.size]; omega) (by rw [h.size]; omega), h.items_eq,
    List.take_take, Nat.min_eq_left held]

/-- Items in one piece. -/
theorem slice (h : Represents cap cells oldest next used items) {n : Nat} (held : n ≤ used)
    (straight : oldest + n ≤ cap) : slice cells oldest n = items.take n := by
  rw [slice_eq_rotate (by rw [h.size]; exact straight), h.items_eq, List.take_take,
    Nat.min_eq_left held]

theorem drop (h : Represents cap cells oldest next used items) {n : Nat} (held : n ≤ used) :
    Represents cap cells ((oldest + n) % cap) next (used - n) (items.drop n) where
  size := h.size
  inside := Nat.mod_lt _ (Nat.zero_lt_of_lt h.inside)
  next_eq := by rw [h.next_eq, Nat.mod_add_mod, Nat.add_assoc, Nat.add_sub_cancel' held]
  fits := Nat.le_trans (Nat.sub_le _ _) h.fits
  items_eq := by
    have fits := h.fits
    have length : (cells.rotate oldest).length = cap := by rw [List.length_rotate, h.size]
    rw [← h.size, List.rotate_mod, ← List.rotate_rotate, rotate_pos (by rw [length]; omega),
      List.take_append_of_le_length (by rw [List.length_drop, length]; omega), h.items_eq,
      List.drop_take]

end Represents

/-! ## Bounded queues -/

/-- A queue of at most `cap` items, the oldest first. -/
abbrev Fifo (α : Type*) (cap : Nat) := { items : List α // items.length ≤ cap }

namespace Fifo

variable {cap : Nat}

def empty : Fifo α cap := ⟨[], Nat.zero_le cap⟩

/-- Append as much of the block as there is room for. -/
def append (q : Fifo α cap) (block : List α) : Fifo α cap :=
  ⟨q.1 ++ block.take (cap - q.1.length), by
    have fits := q.2
    rw [List.length_append, List.length_take]
    omega⟩

def drop (q : Fifo α cap) (n : Nat) : Fifo α cap :=
  ⟨q.1.drop n, Nat.le_trans (by rw [List.length_drop]; exact Nat.sub_le _ _) q.2⟩

end Fifo

end SecureLink.Library.Circular
