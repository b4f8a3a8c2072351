import SecureLink.Source.Wire.Fields

/-!
# Version and cipher lists

src/sl_version.c:5-66 and src/sl_cipher.c:5-79. Both handle their lists with the same code, here the
`shortList` functions. Of an array the entries in front of `count` are kept.
-/
namespace SecureLink.Source.Handshake
open Library.BigEndian Wire

/-- An array of 16-bit entries. -/
@[ext] structure ShortList (cap : Nat) where
  entries : List UInt16
  few : entries.length ≤ cap
  deriving DecidableEq

section ShortList
variable {cap : Nat}

def shortListInit : ShortList cap := ⟨[], Nat.zero_le _⟩

/-- The loop over the entries. -/
def shortListHasLoop (v : UInt16) : List UInt16 → Bool
  | [] => false
  | x :: rest => if x == v then true else shortListHasLoop v rest

def shortListHas (l : ShortList cap) (v : UInt16) : Bool := shortListHasLoop v l.entries

/-- The number is the one that is returned. -/
def shortListAdd (l : ShortList cap) (v : UInt16) : ShortList cap × Int :=
  if full : l.entries.length ≥ cap then (l, -1)
  else if shortListHasLoop v l.entries then (l, 0)
  else (⟨l.entries ++ [v], by
    rw [List.length_append]
    exact Nat.succ_le_of_lt (Nat.lt_of_not_le full)⟩, 0)

/-- The loop that writes the entries, with what is written so far. -/
def shortListEncodeLoop : List UInt16 → Bytes → Bytes
  | [], out => out
  | v :: rest, out => shortListEncodeLoop rest (out ++ [(v >>> 8).toUInt8, (v &&& 0xFF).toUInt8])

def shortListEncode (l : ShortList cap) (outCap : Nat) : Option Bytes :=
  let need := 1 + l.entries.length * 2
  if outCap < need then none
  else some (shortListEncodeLoop l.entries [UInt8.ofNat l.entries.length])

/-- The loop over the entries ahead. -/
def shortListDecodeLoop : Nat → Bytes → ShortList cap → ShortList cap
  | 0, _, out => out
  | left + 1, ahead, out => shortListDecodeLoop left (ahead.drop 2) (shortListAdd out (unpackU16 ahead)).1

/-- The list that is written, given what it was, and the number that is returned. -/
def shortListDecode (out : ShortList cap) (bytes : Bytes) : ShortList cap × Int :=
  match bytes with
  | [] => (out, -1)
  | count :: ahead =>
    if count.toNat > cap then (shortListInit, -1)
    else if bytes.length < 1 + count.toNat * 2 then (shortListInit, -1)
    else (shortListDecodeLoop count.toNat ahead shortListInit, 0)

end ShortList

/-! ## Versions -/

def slVersionListMax : Nat := 8

abbrev SlVersionList := ShortList slVersionListMax

def slVersionListInit : SlVersionList := shortListInit
def slVersionListAdd (l : SlVersionList) (version : UInt16) : SlVersionList × Int := shortListAdd l version
def slVersionListHas (l : SlVersionList) (version : UInt16) : Bool := shortListHas l version
def slVersionListEncode (l : SlVersionList) (outCap : Nat) : Option Bytes := shortListEncode l outCap
def slVersionListDecode (out : SlVersionList) (bytes : Bytes) : SlVersionList × Int :=
  shortListDecode out bytes

/-- The loop over the versions with the best so far. -/
def slVersionChooseLoop (b : SlVersionList) : List UInt16 → UInt16 → UInt16
  | [], best => best
  | v :: rest, best =>
    slVersionChooseLoop b rest (if slVersionListHas b v && v > best then v else best)

def slVersionChoose (a b : SlVersionList) : UInt16 := slVersionChooseLoop b a.entries 0

/-! ## Cipher suites -/

def slCipherAes256GcmSha256 : UInt16 := 0x0001
def slCipherListMax : Nat := 8

abbrev SlCipherList := ShortList slCipherListMax

def slCipherListInit : SlCipherList := shortListInit
def slCipherListAdd (l : SlCipherList) (suite : UInt16) : SlCipherList × Int := shortListAdd l suite
def slCipherListHas (l : SlCipherList) (suite : UInt16) : Bool := shortListHas l suite
def slCipherListEncode (l : SlCipherList) (outCap : Nat) : Option Bytes := shortListEncode l outCap
def slCipherListDecode (out : SlCipherList) (bytes : Bytes) : SlCipherList × Int :=
  shortListDecode out bytes

def slCipherIsSupported (suite : UInt16) : Bool := suite == slCipherAes256GcmSha256

/-- The loop over the suites of the server. -/
def slCipherChooseLoop (clientOffered : SlCipherList) : List UInt16 → UInt16
  | [] => 0
  | s :: rest =>
    if slCipherListHas clientOffered s && slCipherIsSupported s then s
    else slCipherChooseLoop clientOffered rest

def slCipherChoose (serverPref clientOffered : SlCipherList) : UInt16 :=
  slCipherChooseLoop clientOffered serverPref.entries

/-! ## The lists -/

section ShortList
variable {cap : Nat} {l : ShortList cap} {v : UInt16}

theorem shortListHasLoop_iff (v : UInt16) (entries : List UInt16) :
    shortListHasLoop v entries = true ↔ v ∈ entries := by
  induction entries with
  | nil => simp [shortListHasLoop]
  | cons x rest ih =>
    rw [shortListHasLoop, List.mem_cons, ← ih]
    by_cases same : (x == v) = true
    · rw [if_pos same]
      exact iff_of_true rfl (Or.inl (beq_iff_eq.mp same).symm)
    · rw [if_neg same]
      exact (or_iff_right fun is => same (beq_iff_eq.mpr is.symm)).symm

theorem shortListHas_iff : shortListHas l v = true ↔ v ∈ l.entries := shortListHasLoop_iff v l.entries

/-- A new entry goes behind the others as long as there is room. -/
theorem shortListAdd_new (room : l.entries.length < cap) (new : v ∉ l.entries) :
    (shortListAdd l v).1.entries = l.entries ++ [v] := by
  rw [shortListAdd, dif_neg (Nat.not_le.mpr room),
    if_neg fun has => new ((shortListHasLoop_iff v l.entries).mp has)]

/-- No entry is there twice. -/
theorem shortListAdd_nodup (distinct : l.entries.Nodup) : (shortListAdd l v).1.entries.Nodup := by
  rw [shortListAdd]
  split
  next => exact distinct
  next =>
    split
    next => exact distinct
    next new =>
      rw [shortListHasLoop_iff] at new
      exact List.nodup_append.mpr ⟨distinct, by simp, fun x member y same => by
        rw [List.mem_singleton.mp same]
        exact fun is => new (is ▸ member)⟩

/-- The entries on the wire. -/
def entriesWire (entries : List UInt16) : Bytes :=
  UInt8.ofNat entries.length :: entries.flatMap packU16

theorem length_entriesWire (entries : List UInt16) :
    (entriesWire entries).length = 1 + entries.length * 2 := by
  have sum : (entries.flatMap packU16).length = entries.length * 2 := by
    induction entries with
    | nil => rfl
    | cons v rest ih =>
      rw [List.flatMap_cons, List.length_append, ih, length_packU16, List.length_cons]
      omega
  rw [entriesWire, List.length_cons, sum, Nat.add_comm]

theorem packU16_masked (v : UInt16) : [(v >>> 8).toUInt8, (v &&& 0xFF).toUInt8] = packU16 v := by
  have low : (v &&& 0xFF).toUInt8 = v.toUInt8 := by
    apply UInt8.toNat_inj.mp
    have mask : v.toNat &&& 0xFF = v.toNat % 2 ^ 8 := Nat.and_two_pow_sub_one_eq_mod v.toNat 8
    rw [UInt16.toNat_toUInt8, UInt16.toNat_toUInt8, UInt16.toNat_and]
    exact (congrArg (· % 2 ^ 8) mask).trans (Nat.mod_mod _ _)
  rw [low, packU16]

theorem shortListEncodeLoop_eq (entries : List UInt16) (out : Bytes) :
    shortListEncodeLoop entries out = out ++ entries.flatMap packU16 := by
  induction entries generalizing out with
  | nil => rw [shortListEncodeLoop, List.flatMap_nil, List.append_nil]
  | cons v rest ih =>
    rw [shortListEncodeLoop, ih, packU16_masked, List.flatMap_cons, List.append_assoc]

theorem shortListEncode_eq (l : ShortList cap) (outCap : Nat) :
    shortListEncode l outCap =
      if 1 + l.entries.length * 2 ≤ outCap then some (entriesWire l.entries) else none := by
  rw [shortListEncode, shortListEncodeLoop_eq]
  by_cases room : 1 + l.entries.length * 2 ≤ outCap
  · rw [if_neg (Nat.not_lt.mpr room), if_pos room]
    rfl
  · rw [if_pos (Nat.lt_of_not_le room), if_neg room]

/-- Distinct entries are all added. -/
theorem shortListDecodeLoop_eq {entries : List UInt16} {out : ShortList cap} (rest : Bytes)
    (distinct : (out.entries ++ entries).Nodup) (few : (out.entries ++ entries).length ≤ cap) :
    shortListDecodeLoop entries.length (entries.flatMap packU16 ++ rest) out =
      ⟨out.entries ++ entries, few⟩ := by
  induction entries generalizing out with
  | nil => exact ShortList.ext (List.append_nil _).symm
  | cons v entries ih =>
    have room : out.entries.length < cap := by
      rw [List.length_append, List.length_cons] at few
      omega
    have new : v ∉ out.entries := fun member =>
      (List.nodup_append.mp distinct).2.2 v member v List.mem_cons_self rfl
    have added := shortListAdd_new room new
    have moved : (shortListAdd out v).1.entries ++ entries = out.entries ++ v :: entries := by
      rw [added, List.append_assoc, List.singleton_append]
    rw [List.length_cons, shortListDecodeLoop, List.flatMap_cons, List.append_assoc, unpackU16_pack,
      List.drop_left' (length_packU16 v),
      ih (by rw [moved]; exact distinct) (by rw [moved]; exact few)]
    exact ShortList.ext moved

/-- Distinct entries come back, whatever follows them. -/
theorem shortListDecode_wire {entries : List UInt16} (byte : cap < 256) (distinct : entries.Nodup)
    (few : entries.length ≤ cap) (out : ShortList cap) (rest : Bytes) :
    shortListDecode out (entriesWire entries ++ rest) = (⟨entries, few⟩, 0) := by
  have count : (UInt8.ofNat entries.length).toNat = entries.length :=
    UInt8.toNat_ofNat_of_lt' (Nat.lt_of_le_of_lt few byte)
  have length := length_entriesWire entries
  have whole : (entriesWire entries ++ rest).length = 1 + entries.length * 2 + rest.length := by
    rw [List.length_append, length]
  have fresh : ((shortListInit : ShortList cap).entries ++ entries).Nodup := distinct
  rw [entriesWire, List.cons_append] at whole
  rw [entriesWire, List.cons_append, shortListDecode, count, if_neg (Nat.not_lt.mpr few),
    if_neg (by rw [whole]; omega), shortListDecodeLoop_eq rest fresh few]
  rfl

end ShortList

end SecureLink.Source.Handshake
