import SecureLink.Source.Wire.Fields

/-!
# Extension blocks

src/sl_extensions.c:14-94. Of the array of an extension the bytes in use are kept, and of the array
of extensions those in front of `count`. The decoder walks with an index up to the end of the block;
here the index is the part of the block that still lies ahead.
-/
namespace SecureLink.Source.Wire
open Library.BigEndian

def slExtMaxCount : Nat := 16
def slExtMaxBody : Nat := 512

@[ext] structure SlExtension where
  type : UInt16
  len : UInt16
  body : Bytes
  used : body.length = len.toNat
  fits : len.toNat ≤ slExtMaxBody

@[ext] structure SlExtensions where
  items : List SlExtension
  few : items.length ≤ slExtMaxCount

namespace SlExtensions

/-- The next slot is taken. -/
def push (e : SlExtensions) (x : SlExtension) (room : e.items.length < slExtMaxCount) :
    SlExtensions :=
  ⟨e.items ++ [x], by rw [List.length_append]; exact room⟩

end SlExtensions

def slExtensionsInit : SlExtensions := ⟨[], Nat.zero_le _⟩

/-- A body is what the pointer and the length give; `none` is a null pointer with a length above
zero. The number is the one that is returned. -/
def slExtensionsAdd (e : SlExtensions) (type : UInt32) (body : Option Bytes) : SlExtensions × Int :=
  if full : e.items.length ≥ slExtMaxCount then (e, -1)
  else
    match body with
    | none => (e, -1)
    | some bytes =>
      if large : bytes.length > slExtMaxBody then (e, -1)
      else
        have length : (UInt16.ofNat bytes.length).toNat = bytes.length :=
          UInt16.toNat_ofNat_of_lt' (Nat.lt_of_le_of_lt (Nat.le_of_not_lt large) (by decide))
        (e.push
          { type := type.toUInt16
            len := UInt16.ofNat bytes.length
            body := bytes
            used := length.symm
            fits := by rw [length]; exact Nat.le_of_not_lt large } (Nat.lt_of_not_le full), 0)

/-- The loop over the extensions. -/
def findLoop (type : UInt16) : List SlExtension → Option SlExtension
  | [] => none
  | x :: rest => if x.type == type then some x else findLoop type rest

def slExtensionsFind (e : SlExtensions) (type : UInt32) : Option SlExtension :=
  findLoop type.toUInt16 e.items

/-- The loop that computes the inner length. -/
def innerLoop : List SlExtension → Nat → Option Nat
  | [], inner => some inner
  | x :: rest, inner =>
    if inner + (4 + x.len.toNat) > 0xFFFF then none else innerLoop rest (inner + (4 + x.len.toNat))

/-- The loop that writes, with what is written so far. -/
def encodeLoop : List SlExtension → Bytes → Bytes
  | [], out => out
  | x :: rest, out => encodeLoop rest (out ++ (packU16 x.type ++ (packU16 x.len ++ x.body)))

def slExtensionsEncode (e : SlExtensions) (outCap : Nat) : Option Bytes :=
  if outCap < 2 then none
  else
    match innerLoop e.items 0 with
    | none => none
    | some inner =>
      if outCap < 2 + inner then none
      else some (encodeLoop e.items (packU16 (UInt16.ofNat inner)))

/-- An extension that is too big, or one too many, is skipped. -/
def keep (out : SlExtensions) (type len : UInt16) (body : Bytes) (used : body.length = len.toNat) :
    SlExtensions :=
  if fits : len.toNat ≤ slExtMaxBody ∧ out.items.length < slExtMaxCount then
    out.push { type, len, body, used, fits := fits.1 } fits.2
  else out

def decodeLoop (ahead : Bytes) (out : SlExtensions) : SlExtensions × Int :=
  if 4 ≤ ahead.length then
    let t := unpackU16 ahead
    let L := unpackU16 (ahead.drop 2)
    if beyond : 4 + L.toNat > ahead.length then (out, -1)
    else
      have used : ((ahead.drop 4).take L.toNat).length = L.toNat := by
        rw [List.length_take, List.length_drop]
        omega
      decodeLoop (ahead.drop (4 + L.toNat)) (keep out t L ((ahead.drop 4).take L.toNat) used)
  else (out, 0)
termination_by ahead.length
decreasing_by
  rw [List.length_drop]
  omega

def slExtensionsDecode (bytes : Bytes) : SlExtensions × Int :=
  if bytes.length < 2 then (slExtensionsInit, -1)
  else
    let inner := unpackU16 bytes
    if inner.toNat + 2 > bytes.length then (slExtensionsInit, -1)
    else decodeLoop ((bytes.drop 2).take inner.toNat) slExtensionsInit

/-- Type, length and body of an extension. -/
def extensionBytes (t len : UInt16) (body : Bytes) : Bytes := packU16 t ++ (packU16 len ++ body)

theorem length_extensionBytes (t : UInt16) {L : UInt16} {body : Bytes} (used : body.length = L.toNat) :
    (extensionBytes t L body).length = 4 + L.toNat := by
  rw [extensionBytes, List.length_append, List.length_append, length_packU16, length_packU16, used,
    ← Nat.add_assoc]

/-- The fields of an extension in front of more bytes, and where those begin. -/
theorem extension_fields (t : UInt16) {L : UInt16} {body : Bytes} (used : body.length = L.toNat)
    (more : Bytes) :
    let bytes := extensionBytes t L body ++ more
    unpackU16 bytes = t ∧ unpackU16 (bytes.drop 2) = L ∧ (bytes.drop 4).take L.toNat = body ∧
      bytes.drop (4 + L.toNat) = more ∧ bytes.length = 4 + L.toNat + more.length := by
  intro bytes
  have header : bytes = (packU16 t ++ packU16 L) ++ (body ++ more) := by
    simp only [bytes, extensionBytes, List.append_assoc]
  have extension := length_extensionBytes t used
  refine ⟨?_, ?_, ?_, List.drop_left' extension, ?_⟩
  · rw [header, List.append_assoc, unpackU16_pack]
  · rw [header, List.append_assoc, List.drop_left' (length_packU16 _), unpackU16_pack]
  · have four : (packU16 t ++ packU16 L).length = 4 := rfl
    rw [header, List.drop_left' four, List.take_left' used]
  · rw [List.length_append, extension]

end SecureLink.Source.Wire
