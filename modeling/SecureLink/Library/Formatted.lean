import SecureLink.Library.Numerals

/-!
# Formatted output

A C++ output stream in the classic locale: what is written is padded on the left to the width,
which every output takes back to zero, and integers are written in the base that was set last.
-/
namespace SecureLink.Library.Formatted
open BigEndian Numerals

structure OStream where
  text : Bytes
  hex : Bool
  width : Nat
  fill : UInt8

namespace OStream

def new : OStream := ⟨[], false, 0, 0x20⟩

def put (os : OStream) (s : Bytes) : OStream :=
  { os with text := os.text ++ (List.replicate (os.width - s.length) os.fill ++ s), width := 0 }

/-- Several outputs in a row. -/
def puts (os : OStream) (parts : List Bytes) : OStream := parts.foldl put os

/-- An integer type of that many bits. In hexadecimal its bits are written. -/
def putInt (os : OStream) (bits : Nat) (z : Int) : OStream :=
  os.put (if os.hex then numeral 16 (z % 2 ^ bits).toNat else signedNumeral z)

def setBase (os : OStream) (hex : Bool) : OStream := { os with hex := hex }
def setw (os : OStream) (width : Nat) : OStream := { os with width := width }
def setfill (os : OStream) (fill : UInt8) : OStream := { os with fill := fill }

/-- Nothing is padded, and integers are decimal. -/
structure Ready (os : OStream) (text : Bytes) : Prop where
  decimal : os.hex = false
  plain : os.width = 0
  written : os.text = text

theorem ready_new : Ready new [] := ⟨rfl, rfl, rfl⟩

section Ready
variable {os : OStream} {text : Bytes} (ready : Ready os text)
include ready

theorem Ready.put (s : Bytes) : Ready (os.put s) (text ++ s) where
  decimal := ready.decimal
  plain := rfl
  written := by
    rw [OStream.put, ready.plain, Nat.zero_sub, ready.written]
    rfl

theorem Ready.putInt (bits : Nat) (z : Int) : Ready (os.putInt bits z) (text ++ signedNumeral z) := by
  rw [OStream.putInt, ready.decimal]
  exact ready.put _

theorem Ready.puts (parts : List Bytes) : Ready (os.puts parts) (text ++ parts.flatten) := by
  induction parts generalizing os text with
  | nil =>
    rw [List.flatten_nil, List.append_nil]
    exact ready
  | cons part parts ih =>
    rw [List.flatten_cons, ← List.append_assoc]
    exact ih (ready.put part)

end Ready

end OStream

end SecureLink.Library.Formatted
