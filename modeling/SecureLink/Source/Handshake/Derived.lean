import Mathlib.Data.List.TakeWhile
import SecureLink.Source.Handshake.Secret

/-!
# Keys after the handshake

The epochs of src/sl_rekey.c:41-49 and the exporter of src/sl_exporter.c:20-45. As in the key
schedule, zeroing of temporaries is not represented.
-/
namespace SecureLink.Source.Handshake
open Library.BigEndian

structure SlRekeyEpochs where
  localEpoch : UInt32 := 0
  peerEpoch : UInt32 := 0
  deriving DecidableEq, Repr

def slRekeyCheckPeerEpoch (e : SlRekeyEpochs) (incoming : UInt32) : SlRekeyEpochs × Int :=
  if incoming ≠ e.peerEpoch + 1 then (e, -1)
  else ({ e with peerEpoch := incoming }, 0)

theorem slRekeyCheckPeerEpoch_next (e : SlRekeyEpochs) :
    slRekeyCheckPeerEpoch e (e.peerEpoch + 1) = ({ e with peerEpoch := e.peerEpoch + 1 }, 0) :=
  if_neg (not_not.mpr rfl)

theorem slRekeyCheckPeerEpoch_other {e : SlRekeyEpochs} {incoming : UInt32}
    (other : incoming ≠ e.peerEpoch + 1) : slRekeyCheckPeerEpoch e incoming = (e, -1) :=
  if_pos other

section Exporter
variable (C : Crypto)

/-- The label is a C string; a missing context is an empty one. -/
def slExporterDerive (exporterSecret label context : Bytes) (outLen : Nat) : Option Bytes :=
  if outLen = 0 ∨ outLen > 255 * 32 then none
  else
    let h := label.takeWhile (· != 0)
    let h := if context.length > 0 then h ++ context else h
    slHkdfSha256 C exporterSecret [] (C.sha256 h).1 outLen

variable {C}

/-- The info block is the hash of label and context, one after the other. -/
theorem slExporterDerive_eq {secret label context : Bytes} {outLen : Nat} (nonempty : outLen ≠ 0)
    (fits : outLen ≤ 255 * 32) (noNul : 0 ∉ label) :
    slExporterDerive C secret label context outLen =
      slHkdfSha256 C secret [] (C.sha256 (label ++ context)).1 outLen := by
  have whole : label.takeWhile (· != 0) = label :=
    List.takeWhile_eq_self_iff.mpr fun c member => by
      simpa using ne_of_mem_of_not_mem member noNul
  have absorbed : (if context.length > 0 then label ++ context else label) = label ++ context := by
    cases context with
    | nil => simp
    | cons c rest => simp
  have valid : ¬ (outLen = 0 ∨ outLen > 255 * 32) := by omega
  rw [slExporterDerive, if_neg valid, whole]
  dsimp only
  rw [absorbed]

end Exporter

end SecureLink.Source.Handshake
