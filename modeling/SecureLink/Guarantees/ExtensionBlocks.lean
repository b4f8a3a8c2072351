import SecureLink.Source.Wire.Extensions

/-!
# Round trips of extension blocks

Extensions come back in the order in which they were added. The encoder never fails on the sum of
the lengths, because sixteen extensions of the largest size fit 16 bits, and the decoder never
skips one of them.
-/
namespace SecureLink.Guarantees.ExtensionBlocks
open Library.BigEndian Source.Wire

/-- A type and a body. -/
abbrev Addition := UInt16 × Bytes

/-- The extension is added; `none` if the call fails. -/
def add (e : SlExtensions) (a : Addition) : Option SlExtensions :=
  let result := slExtensionsAdd e a.1.toUInt32 (some a.2)
  if result.2 = 0 then some result.1 else none

/-- What an extension was added as. -/
def addition (x : SlExtension) : Addition := (x.type, x.body)

/-- The length of the block of some extensions. -/
def blockLen (additions : List Addition) : Nat := 2 + (additions.map fun a => 4 + a.2.length).sum

/-! ## Adding -/

theorem add_eq {e : SlExtensions} {a : Addition} (room : e.items.length < slExtMaxCount)
    (small : a.2.length ≤ slExtMaxBody) :
    ∃ e', add e a = some e' ∧ ∃ x, e'.items = e.items ++ [x] ∧ addition x = a := by
  obtain ⟨x, result, same⟩ : ∃ x, slExtensionsAdd e a.1.toUInt32 (some a.2) = (e.push x room, 0) ∧
      addition x = a := by
    rw [slExtensionsAdd, dif_neg (Nat.not_le.mpr room)]
    dsimp only
    rw [dif_neg (Nat.not_lt.mpr small)]
    exact ⟨_, rfl, Prod.ext (UInt16.toUInt16_toUInt32 a.1) rfl⟩
  exact ⟨e.push x room, by simp only [add, result, if_true], x, rfl, same⟩

theorem adds_eq {additions : List Addition} {e : SlExtensions}
    (room : e.items.length + additions.length ≤ slExtMaxCount)
    (small : ∀ a ∈ additions, a.2.length ≤ slExtMaxBody) :
    ∃ e', additions.foldlM add e = some e' ∧
      e'.items.map addition = e.items.map addition ++ additions := by
  induction additions generalizing e with
  | nil => exact ⟨e, rfl, by rw [List.append_nil]⟩
  | cons a rest ih =>
    rw [List.length_cons] at room
    obtain ⟨next, added, x, items, same⟩ :=
      add_eq (show e.items.length < slExtMaxCount by omega) (small a List.mem_cons_self)
    have length : next.items.length = e.items.length + 1 := by rw [items, List.length_append]; rfl
    obtain ⟨last, later, listed⟩ := ih (e := next) (by omega)
      (fun b member => small b (List.mem_cons_of_mem a member))
    refine ⟨last, ?_, ?_⟩
    · rw [List.foldlM_cons, added]
      exact later
    · rw [listed, items, List.map_append, List.map_singleton, same, List.append_assoc,
        List.singleton_append]

/-! ## Encoding -/

/-- One extension in the block. -/
def wire (x : SlExtension) : Bytes := extensionBytes x.type x.len x.body

theorem length_wire (x : SlExtension) : (wire x).length = 4 + x.len.toNat :=
  length_extensionBytes x.type x.used

theorem encodeLoop_eq (items : List SlExtension) (out : Bytes) :
    encodeLoop items out = out ++ items.flatMap wire := by
  induction items generalizing out with
  | nil => rw [encodeLoop, List.flatMap_nil, List.append_nil]
  | cons x rest ih => rw [encodeLoop, ih, List.flatMap_cons, List.append_assoc, wire, extensionBytes]

theorem length_flatMap_le (items : List SlExtension) :
    (items.flatMap wire).length ≤ items.length * (4 + slExtMaxBody) := by
  induction items with
  | nil => exact Nat.zero_le _
  | cons x rest ih =>
    have fits := x.fits
    rw [List.flatMap_cons, List.length_append, length_wire, List.length_cons, Nat.succ_mul]
    omega

/-- The sum does not leave 16 bits on the way. -/
theorem innerLoop_eq {items : List SlExtension} {inner : Nat}
    (short : inner + (items.flatMap wire).length ≤ 0xFFFF) :
    innerLoop items inner = some (inner + (items.flatMap wire).length) := by
  induction items generalizing inner with
  | nil => rfl
  | cons x rest ih =>
    rw [List.flatMap_cons, List.length_append, length_wire, ← Nat.add_assoc] at short
    rw [innerLoop, if_neg (by omega), ih short, List.flatMap_cons, List.length_append, length_wire,
      Nat.add_assoc]

theorem length_items_le (e : SlExtensions) : (e.items.flatMap wire).length ≤ 0xFFFF := by
  have total := length_flatMap_le e.items
  have few := Nat.mul_le_mul_right (4 + slExtMaxBody) e.few
  exact Nat.le_trans (Nat.le_trans total few) (by decide)

theorem slExtensionsEncode_eq {e : SlExtensions} {outCap : Nat}
    (room : 2 + (e.items.flatMap wire).length ≤ outCap) :
    slExtensionsEncode e outCap =
      some (packU16 (UInt16.ofNat (e.items.flatMap wire).length) ++ e.items.flatMap wire) := by
  have inner := @innerLoop_eq e.items 0 (by rw [Nat.zero_add]; exact length_items_le e)
  rw [Nat.zero_add] at inner
  rw [slExtensionsEncode, if_neg (by omega), inner]
  dsimp only
  rw [if_neg (Nat.not_lt.mpr room), encodeLoop_eq]

/-! ## Decoding -/

theorem keep_eq {out : SlExtensions} {x : SlExtension} {t L : UInt16} {body : Bytes}
    {used : body.length = L.toNat} (type : t = x.type) (len : L = x.len) (same : body = x.body)
    (room : out.items.length < slExtMaxCount) : keep out t L body used = out.push x room := by
  subst type len same
  rw [keep, dif_pos ⟨x.fits, room⟩]

/-- One round takes off the extension in front. -/
theorem decodeLoop_wire {x : SlExtension} {more : Bytes} {out : SlExtensions}
    (room : out.items.length < slExtMaxCount) :
    decodeLoop (wire x ++ more) out = decodeLoop more (out.push x room) := by
  obtain ⟨type, len, body, past, length⟩ := extension_fields x.type x.used more
  rw [← wire] at type len body past length
  have beyond : ¬ 4 + (unpackU16 ((wire x ++ more).drop 2)).toNat > (wire x ++ more).length := by
    rw [len]
    omega
  rw [decodeLoop, if_pos (by omega)]
  dsimp only
  rw [dif_neg beyond, keep_eq type len (by rw [len]; exact body), len, past]

theorem decodeLoop_eq {items : List SlExtension} {out : SlExtensions}
    (few : (out.items ++ items).length ≤ slExtMaxCount) :
    decodeLoop (items.flatMap wire) out = (⟨out.items ++ items, few⟩, 0) := by
  induction items generalizing out with
  | nil =>
    rw [List.flatMap_nil, decodeLoop, if_neg (by decide)]
    exact congrArg (·, 0) (SlExtensions.ext (List.append_nil _).symm)
  | cons x rest ih =>
    have room : out.items.length < slExtMaxCount := by
      rw [List.length_append, List.length_cons] at few
      omega
    have moved : (out.push x room).items ++ rest = out.items ++ x :: rest := by
      rw [SlExtensions.push, List.append_assoc, List.singleton_append]
    rw [List.flatMap_cons, decodeLoop_wire room, ih (by rw [moved]; exact few)]
    exact congrArg (·, 0) (SlExtensions.ext moved)

theorem slExtensionsDecode_eq (e : SlExtensions) (rest : Bytes) :
    slExtensionsDecode (packU16 (UInt16.ofNat (e.items.flatMap wire).length) ++ e.items.flatMap wire ++
      rest) = (e, 0) := by
  have small := length_items_le e
  have inner : (UInt16.ofNat (e.items.flatMap wire).length).toNat = (e.items.flatMap wire).length :=
    UInt16.toNat_ofNat_of_lt' (Nat.lt_of_le_of_lt small (by decide))
  have behind : (packU16 (UInt16.ofNat (e.items.flatMap wire).length) ++
      (e.items.flatMap wire ++ rest)).drop 2 = e.items.flatMap wire ++ rest :=
    List.drop_left' (length_packU16 _)
  have length : (packU16 (UInt16.ofNat (e.items.flatMap wire).length) ++
      (e.items.flatMap wire ++ rest)).length = 2 + ((e.items.flatMap wire).length + rest.length) := by
    rw [List.length_append, List.length_append, length_packU16]
  rw [List.append_assoc, slExtensionsDecode, if_neg (by omega)]
  dsimp only
  rw [unpackU16_pack, behind, inner, if_neg (by omega), List.take_left]
  exact @decodeLoop_eq e.items slExtensionsInit e.few

/-! ## Finding -/

theorem findLoop_addition (type : UInt16) (items : List SlExtension) :
    (findLoop type items).map addition = (items.map addition).find? fun a => a.1 == type := by
  induction items with
  | nil => rfl
  | cons x rest ih =>
    rw [findLoop, List.map_cons, List.find?_cons]
    cases same : x.type == type with
    | true => simp [addition, same]
    | false => simpa [addition, same] using ih

/-- The block has the length of what was added. -/
theorem blockLen_eq {additions : List Addition} {e : SlExtensions}
    (listed : e.items.map addition = additions) :
    blockLen additions = 2 + (e.items.flatMap wire).length := by
  rw [blockLen, ← listed, List.map_map, List.length_flatMap]
  refine congrArg (2 + List.sum ·) (List.map_congr_left fun x _ => ?_)
  rw [length_wire, ← x.used]
  rfl

/-- Any extensions within the limits can be added. Their block is encoded into every buffer that
holds it, and decoded, whatever follows, to the same list; a type finds the first that was added
with it. -/
theorem extensions_round_trip (additions : List Addition) (few : additions.length ≤ 16)
    (small : ∀ a ∈ additions, a.2.length ≤ 512) :
    ∃ e, additions.foldlM add slExtensionsInit = some e ∧ e.items.map addition = additions ∧
      (∀ outCap, blockLen additions ≤ outCap →
        ∃ block, slExtensionsEncode e outCap = some block ∧
          ∀ rest, slExtensionsDecode (block ++ rest) = (e, 0)) ∧
      ∀ type : UInt16, (slExtensionsFind e type.toUInt32).map addition =
        additions.find? fun a => a.1 == type := by
  obtain ⟨e, added, listed⟩ := adds_eq (e := slExtensionsInit)
    (show 0 + additions.length ≤ slExtMaxCount by rw [Nat.zero_add]; exact few) small
  rw [show slExtensionsInit.items.map addition = [] from rfl, List.nil_append] at listed
  refine ⟨e, added, listed, ?_, ?_⟩
  · intro outCap room
    rw [blockLen_eq listed] at room
    exact ⟨_, slExtensionsEncode_eq room, slExtensionsDecode_eq e⟩
  · intro type
    rw [slExtensionsFind, UInt16.toUInt16_toUInt32, findLoop_addition, listed]

/-- Two extensions of one type. -/
theorem first_version_found :
    ∃ e, [(1, [5]), (2, []), (1, [6, 7])].foldlM add slExtensionsInit = some e ∧
      (slExtensionsFind (slExtensionsDecode ((slExtensionsEncode e 100).getD [])).1 1).map addition =
        some (1, [5]) := by
  obtain ⟨e, added, listed, decoded, found⟩ :=
    extensions_round_trip [(1, [5]), (2, []), (1, [6, 7])] (by decide) (by decide)
  obtain ⟨block, encoded, back⟩ := decoded 100 (by decide)
  have same := back []
  rw [List.append_nil] at same
  refine ⟨e, added, ?_⟩
  rw [encoded, Option.getD_some, same]
  exact found 1

end SecureLink.Guarantees.ExtensionBlocks
