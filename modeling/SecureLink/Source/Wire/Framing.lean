import SecureLink.Library.Incremental
import SecureLink.Source.Wire.Fields

/-!
# Length-prefixed frames

inc/framing.hpp:52-120 with the sizes of inc/constants.hpp. `next` also returns the frame it was
given to fill in, as it leaves it.
-/
namespace SecureLink.Source.Wire
open Library.BigEndian Library.Incremental

def maxFrameSize : Nat := 65536
def frameHeaderSize : Nat := 8

inductive FrameType where
  | kInvalid | kHandshakeHi | kHandshakeAck | kHandshakeFin | kData | kKeyUpdate | kCloseNotify
  | kPing | kPong
  deriving DecidableEq, Repr

namespace FrameType

/-- The octet of a type. -/
def code : FrameType → UInt8
  | kInvalid => 0
  | kHandshakeHi => 1
  | kHandshakeAck => 2
  | kHandshakeFin => 3
  | kData => 4
  | kKeyUpdate => 5
  | kCloseNotify => 6
  | kPing => 7
  | kPong => 8

/-- The cast of an octet, made where it is one of the codes. -/
def ofCode (octet : UInt8) : FrameType :=
  if octet = 1 then kHandshakeHi
  else if octet = 2 then kHandshakeAck
  else if octet = 3 then kHandshakeFin
  else if octet = 4 then kData
  else if octet = 5 then kKeyUpdate
  else if octet = 6 then kCloseNotify
  else if octet = 7 then kPing
  else if octet = 8 then kPong
  else kInvalid

theorem ofCode_code (t : FrameType) : ofCode t.code = t := by
  cases t <;> rfl

theorem code_le (t : FrameType) : t.code ≤ kPong.code := by
  cases t <;> decide

theorem code_eq_zero (t : FrameType) : t.code = 0 ↔ t = kInvalid := by
  cases t <;> decide

end FrameType

inductive ParseStatus where
  | kNeedMore | kReady | kErrorOversize | kErrorBadType | kErrorBadReserved
  deriving DecidableEq, Repr

structure Frame where
  type : FrameType := .kInvalid
  flags : UInt8 := 0
  payload : Bytes := []
  deriving DecidableEq, Repr

structure FrameParser where
  buf : Bytes := []
  maxFrame : Nat := maxFrameSize
  deriving DecidableEq, Repr

namespace FrameParser

def feed (p : FrameParser) (data : Bytes) : FrameParser := { p with buf := p.buf ++ data }

def next (p : FrameParser) (out : Frame) : FrameParser × Frame × ParseStatus :=
  if p.buf.length < frameHeaderSize then (p, out, .kNeedMore)
  else
    let length := unpackU32 p.buf
    let type := p.buf.getD 4 0
    let flags := p.buf.getD 5 0
    let rsv := unpackU16 (p.buf.drop 6)
    if rsv ≠ 0 then (p, out, .kErrorBadReserved)
    else if length.toNat > p.maxFrame then (p, out, .kErrorOversize)
    else if type = 0 ∨ type > FrameType.kPong.code then (p, out, .kErrorBadType)
    else
      let total := frameHeaderSize + length.toNat
      if p.buf.length < total then (p, out, .kNeedMore)
      else
        ({ p with buf := p.buf.drop total },
         { type := .ofCode type, flags, payload := (p.buf.drop frameHeaderSize).take length.toNat },
         .kReady)

def encode (type : FrameType) (flags : UInt8) (payload : Bytes) : Bytes :=
  packU32 (UInt32.ofNat payload.length) ++ ([type.code, flags, 0, 0] ++ payload)

/-- A call of `next` into a fresh frame. -/
def poll (p : FrameParser) : Front FrameParser Frame ParseStatus :=
  match p.next {} with
  | (_, _, .kNeedMore) => .more
  | (p, out, .kReady) => .item out p
  | (_, _, status) => .bad status

/-- Feed each chunk and call `next` until it asks for more, up to the first error. The frames
yielded, the error and the parser; `none` if a chunk takes more rounds. -/
def parse (rounds : Nat) (p : FrameParser) (chunks : List Bytes) :
    Option (Drained FrameParser Frame ParseStatus) :=
  drainChunks poll feed rounds p chunks

/-! ## One call -/

/-- What the checks of the header say. -/
def refusal (maxFrame : Nat) (buf : Bytes) : Option ParseStatus :=
  if unpackU16 (buf.drop 6) ≠ 0 then some .kErrorBadReserved
  else if (unpackU32 buf).toNat > maxFrame then some .kErrorOversize
  else if buf.getD 4 0 = 0 ∨ buf.getD 4 0 > FrameType.kPong.code then some .kErrorBadType
  else none

/-- The bytes of the frame at the front. -/
def total (buf : Bytes) : Nat := frameHeaderSize + (unpackU32 buf).toNat

def frontFrame (buf : Bytes) : Frame where
  type := .ofCode (buf.getD 4 0)
  flags := buf.getD 5 0
  payload := (buf.drop frameHeaderSize).take (unpackU32 buf).toNat

theorem next_short {p : FrameParser} (short : p.buf.length < frameHeaderSize) (out : Frame) :
    p.next out = (p, out, .kNeedMore) := by
  rw [next, if_pos short]

/-- With a whole header its checks decide; nothing else is said before the payload is there. -/
theorem next_long {p : FrameParser} (long : frameHeaderSize ≤ p.buf.length) (out : Frame) :
    p.next out = (refusal p.maxFrame p.buf).elim
      (if p.buf.length < total p.buf then (p, out, .kNeedMore)
        else ({ p with buf := p.buf.drop (total p.buf) }, frontFrame p.buf, .kReady))
      (fun e => (p, out, e)) := by
  have unfolded : total p.buf = frameHeaderSize + (unpackU32 p.buf).toNat := rfl
  simp only [next, refusal, if_neg (Nat.not_lt.mpr long), ← unfolded]
  by_cases incomplete : p.buf.length < total p.buf
  · simp only [if_pos incomplete]
    split_ifs <;> rfl
  · simp only [if_neg incomplete]
    split_ifs <;> rfl

theorem refusal_error {maxFrame : Nat} {buf : Bytes} {e : ParseStatus}
    (refused : refusal maxFrame buf = some e) : e ≠ .kNeedMore ∧ e ≠ .kReady := by
  simp only [refusal] at refused
  split_ifs at refused <;> cases refused <;> decide

theorem poll_short {p : FrameParser} (short : p.buf.length < frameHeaderSize) : p.poll = .more := by
  rw [poll, next_short short]

theorem poll_empty (maxFrame : Nat) : poll { maxFrame } = .more :=
  poll_short (Nat.zero_lt_succ _)

theorem poll_long {p : FrameParser} (long : frameHeaderSize ≤ p.buf.length) :
    p.poll = (refusal p.maxFrame p.buf).elim
      (if p.buf.length < total p.buf then .more
        else .item (frontFrame p.buf) { p with buf := p.buf.drop (total p.buf) }) .bad := by
  rw [poll, next_long long]
  cases refused : refusal p.maxFrame p.buf with
  | none =>
    simp only [Option.elim_none]
    split_ifs <;> rfl
  | some e =>
    obtain ⟨notMore, notReady⟩ := refusal_error refused
    cases e <;> first | rfl | contradiction

theorem poll_item {p next : FrameParser} {f : Frame} (front : p.poll = .item f next) :
    frameHeaderSize ≤ p.buf.length ∧ refusal p.maxFrame p.buf = none ∧
      total p.buf ≤ p.buf.length ∧ f = frontFrame p.buf ∧
      next = { p with buf := p.buf.drop (total p.buf) } := by
  rcases Nat.lt_or_ge p.buf.length frameHeaderSize with short | long
  · rw [poll_short short] at front
    cases front
  · rw [poll_long long] at front
    cases refused : refusal p.maxFrame p.buf with
    | some e => rw [refused] at front; cases front
    | none =>
      rw [refused, Option.elim_none] at front
      split_ifs at front with incomplete
      cases front
      exact ⟨long, rfl, Nat.not_lt.mp incomplete, rfl, rfl⟩

theorem poll_bad {p : FrameParser} {e : ParseStatus} (front : p.poll = .bad e) :
    frameHeaderSize ≤ p.buf.length ∧ refusal p.maxFrame p.buf = some e := by
  rcases Nat.lt_or_ge p.buf.length frameHeaderSize with short | long
  · rw [poll_short short] at front
    cases front
  · rw [poll_long long] at front
    cases refused : refusal p.maxFrame p.buf with
    | some e => rw [refused] at front; cases front; exact ⟨long, rfl⟩
    | none =>
      rw [refused, Option.elim_none] at front
      split_ifs at front

/-- Without a frame a call changes nothing. -/
theorem next_untouched {p : FrameParser} {out : Frame} (unready : (p.next out).2.2 ≠ .kReady) :
    (p.next out).1 = p ∧ (p.next out).2.1 = out := by
  rcases Nat.lt_or_ge p.buf.length frameHeaderSize with short | long
  · rw [next_short short]
    exact ⟨rfl, rfl⟩
  · rw [next_long long] at unready ⊢
    cases refused : refusal p.maxFrame p.buf with
    | some e => exact ⟨rfl, rfl⟩
    | none =>
      rw [refused, Option.elim_none] at unready
      rw [Option.elim_none]
      split_ifs at unready ⊢
      · exact ⟨rfl, rfl⟩
      · exact absurd rfl unready

/-! ## More input -/

/-- The header says the same with more bytes behind it. -/
theorem header_append {buf : Bytes} (long : frameHeaderSize ≤ buf.length) (maxFrame : Nat)
    (more : Bytes) :
    refusal maxFrame (buf ++ more) = refusal maxFrame buf ∧ total (buf ++ more) = total buf := by
  unfold frameHeaderSize at long
  have behind : (buf ++ more).drop 6 = buf.drop 6 ++ more := List.drop_append_of_le_length (by omega)
  have rsv : unpackU16 ((buf ++ more).drop 6) = unpackU16 (buf.drop 6) := by
    rw [behind, unpackU16_append (by rw [List.length_drop]; omega)]
  have length := unpackU32_append (show 4 ≤ buf.length by omega) more
  have type := List.getD_append buf more 0 4 (by omega)
  exact ⟨by simp only [refusal, rsv, length, type], by simp only [total, length]⟩

theorem frontFrame_append {buf : Bytes} (whole : total buf ≤ buf.length) (more : Bytes) :
    frontFrame (buf ++ more) = frontFrame buf := by
  unfold total frameHeaderSize at whole
  have behind : (buf ++ more).drop frameHeaderSize = buf.drop frameHeaderSize ++ more :=
    List.drop_append_of_le_length (by unfold frameHeaderSize; omega)
  have payload : ((buf ++ more).drop frameHeaderSize).take (unpackU32 buf).toNat =
      (buf.drop frameHeaderSize).take (unpackU32 buf).toNat := by
    rw [behind, List.take_append_of_le_length]
    rw [List.length_drop, frameHeaderSize]
    omega
  simp only [frontFrame, unpackU32_append (show 4 ≤ buf.length by omega) more, payload,
    List.getD_append buf more 0 4 (by omega), List.getD_append buf more 0 5 (by omega)]

theorem stable : Stable poll feed where
  item p f next more front := by
    obtain ⟨long, accepted, whole, rfl, rfl⟩ := poll_item front
    obtain ⟨sameRefusal, sameTotal⟩ := header_append long p.maxFrame more
    have longer : frameHeaderSize ≤ (p.feed more).buf.length := by
      simp only [feed, List.length_append]
      omega
    rw [poll_long longer]
    simp only [feed, sameRefusal, accepted, sameTotal, Option.elim_none, List.length_append]
    rw [if_neg (by omega), frontFrame_append whole, List.drop_append_of_le_length whole]
  bad p e more front := by
    obtain ⟨long, refused⟩ := poll_bad front
    have longer : frameHeaderSize ≤ (p.feed more).buf.length := by
      simp only [feed, List.length_append]
      omega
    rw [poll_long longer]
    simp only [feed, (header_append long p.maxFrame more).1, refused, Option.elim_some]
  push_nil p := by simp only [feed, List.append_nil]
  push_push p first second := by simp only [feed, List.append_assoc]

/-- The size of a parser is what it has buffered. -/
def buffered (p : FrameParser) : Nat := p.buf.length

theorem shrinks : Shrinks poll buffered := by
  intro p f next front
  obtain ⟨long, -, whole, -, rfl⟩ := poll_item front
  simp only [buffered, List.length_drop, total, frameHeaderSize] at *
  omega

theorem buffered_feed (p : FrameParser) (more : Bytes) : p.buffered ≤ (p.feed more).buffered := by
  simp only [buffered, feed, List.length_append]
  omega

/-! ## Encoded frames -/

/-- A frame that can be sent to a parser with this limit. -/
def Sendable (maxFrame : Nat) (f : Frame) : Prop :=
  f.type ≠ .kInvalid ∧ f.payload.length ≤ min maxFrame (2 ^ 32 - 1)

instance (maxFrame : Nat) (f : Frame) : Decidable (Sendable maxFrame f) :=
  inferInstanceAs (Decidable (_ ∧ _))

theorem poll_encode {maxFrame : Nat} {f : Frame} (sendable : Sendable maxFrame f) (rest : Bytes) :
    poll ⟨encode f.type f.flags f.payload ++ rest, maxFrame⟩ = .item f ⟨rest, maxFrame⟩ := by
  obtain ⟨named, small⟩ := sendable
  have bounds := Nat.le_min.mp small
  have length : (UInt32.ofNat f.payload.length).toNat = f.payload.length :=
    UInt32.toNat_ofNat_of_lt' (Nat.lt_of_le_of_lt bounds.2 (by decide))
  have atLength : unpackU32 (encode f.type f.flags f.payload ++ rest) =
      UInt32.ofNat f.payload.length := by
    rw [encode, List.append_assoc, unpackU32_pack]
  have rsv : unpackU16 ((encode f.type f.flags f.payload ++ rest).drop 6) = 0 :=
    unpackU16_pack 0 (f.payload ++ rest)
  have type : (encode f.type f.flags f.payload ++ rest).getD 4 0 = f.type.code := rfl
  have flags : (encode f.type f.flags f.payload ++ rest).getD 5 0 = f.flags := rfl
  have behind : (encode f.type f.flags f.payload ++ rest).drop frameHeaderSize =
      f.payload ++ rest := rfl
  have size : (encode f.type f.flags f.payload ++ rest).length =
      frameHeaderSize + f.payload.length + rest.length := by
    simp only [encode, List.length_append, length_packU32, List.length_cons, List.length_nil,
      frameHeaderSize]
    omega
  have code : ¬ (f.type.code = 0 ∨ f.type.code > FrameType.kPong.code) := by
    rw [f.type.code_eq_zero]
    exact not_or.mpr ⟨named, UInt8.not_lt.mpr f.type.code_le⟩
  have accepted : refusal maxFrame (encode f.type f.flags f.payload ++ rest) = none := by
    simp only [refusal, rsv, atLength, length, type]
    rw [if_neg (not_not_intro rfl), if_neg (Nat.not_lt.mpr bounds.1), if_neg code]
  have all : total (encode f.type f.flags f.payload ++ rest) =
      frameHeaderSize + f.payload.length := by rw [total, atLength, length]
  rw [poll_long (by simp only [size]; omega)]
  simp only [accepted, all, size, Option.elim_none]
  rw [if_neg (by omega), ← List.drop_drop, behind, List.drop_left, frontFrame, atLength, length,
    behind, type, flags, List.take_left, f.type.ofCode_code]

end FrameParser

end SecureLink.Source.Wire
