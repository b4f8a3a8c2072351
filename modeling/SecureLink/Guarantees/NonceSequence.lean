import SecureLink.Library.Runs
import SecureLink.Source.Record.Nonce

/-!
# Nonce sequence

A call of `sl_nonce_next` (src/sl_nonce.c:27-39) uses the counter and moves it on, or refuses at
the largest one. The counters used in a run increase, and a nonce determines its counter.
-/
namespace SecureLink.Guarantees.NonceSequence
open Library.BigEndian Library.Runs Source.Record

variable (iv : FixedBytes slAeadIvLen)

def maxSeq : UInt64 := UInt64.ofNat (2 ^ 64 - 1)

/-- One call: the counter afterwards and the nonce, if it succeeded. A failed call writes
neither. -/
def call (seq : UInt64) (_ : Unit) : UInt64 × Option Bytes :=
  ((slNonceNext iv seq).elim seq Prod.snd, (slNonceNext iv seq).map Prod.fst)

/-- The nonces of the successful calls of a run. -/
def nonces (start : UInt64) (calls : List Unit) : List Bytes :=
  (outputs (call iv) start calls).filterMap id

theorem call_max : call iv maxSeq () = (maxSeq, none) := by
  have refused : slNonceNext iv maxSeq = none := if_pos rfl
  rw [call, refused]
  rfl

theorem call_succ {seq : UInt64} (left : seq ≠ maxSeq) :
    call iv seq () = (seq + 1, some (slNonceBuild iv seq)) ∧ (seq + 1).toNat = seq.toNat + 1 := by
  constructor
  · have granted : slNonceNext iv seq = some (slNonceBuild iv seq, seq + 1) := if_neg left
    rw [call, granted]
    rfl
  · have small : seq.toNat + 1 < 2 ^ 64 := by
      have high := seq.toNat_lt
      have differs : seq.toNat ≠ 2 ^ 64 - 1 := fun same => left (UInt64.toNat_inj.mp same)
      omega
    rw [UInt64.toNat_add]
    exact Nat.mod_eq_of_lt small

/-- From the largest counter on, nothing happens any more. -/
theorem run_max (calls : List Unit) :
    run (call iv) maxSeq calls = maxSeq ∧ ∀ answer ∈ outputs (call iv) maxSeq calls, answer = none := by
  induction calls with
  | nil => exact ⟨rfl, by simp [outputs]⟩
  | cons c rest ih =>
    rw [run_cons, outputs, call_max]
    exact ⟨ih.1, List.forall_mem_cons.mpr ⟨rfl, ih.2⟩⟩

/-- The nonces of a run belong to different counters, none below the first. -/
theorem nonces_spec (start : UInt64) (calls : List Unit) :
    (nonces iv start calls).Nodup ∧
    ∀ nonce ∈ nonces iv start calls, ∃ seq, start.toNat ≤ seq.toNat ∧ nonce = slNonceBuild iv seq := by
  induction calls generalizing start with
  | nil => simp [nonces, outputs]
  | cons c rest ih =>
    by_cases last : start = maxSeq
    · subst last
      have same : nonces iv maxSeq (c :: rest) = nonces iv maxSeq rest := by
        rw [nonces, outputs, call_max]
        rfl
      rw [same]
      exact ih maxSeq
    · obtain ⟨answers, next⟩ := call_succ iv last
      obtain ⟨distinct, later⟩ := ih (start + 1)
      have split : nonces iv start (c :: rest) =
          slNonceBuild iv start :: nonces iv (start + 1) rest := by
        rw [nonces, outputs, answers]
        rfl
      rw [split]
      refine ⟨List.nodup_cons.mpr ⟨fun again => ?_, distinct⟩, List.forall_mem_cons.mpr ⟨?_, ?_⟩⟩
      · obtain ⟨seq, behind, same⟩ := later _ again
        obtain rfl := slNonceBuild_injective iv same
        omega
      · exact ⟨start, Nat.le_refl _, rfl⟩
      · intro nonce member
        obtain ⟨seq, behind, same⟩ := later nonce member
        exact ⟨seq, by omega, same⟩

/-- Over any run the nonces are different, as they are for any two counters, and a run that has
reached the largest counter stays there and returns no nonce. -/
theorem nonces_never_repeat (start : UInt64) (calls : List Unit) :
    (nonces iv start calls).Nodup ∧
    Function.Injective (slNonceBuild iv) ∧
    (run (call iv) start calls = maxSeq → ∀ later,
      run (call iv) start (calls ++ later) = maxSeq ∧
      ∀ answer ∈ outputs (call iv) (run (call iv) start calls) later, answer = none) := by
  refine ⟨(nonces_spec iv start calls).1, fun _ _ same => slNonceBuild_injective iv same,
    fun reached later => ?_⟩
  rw [run_append, reached]
  exact run_max iv later

end SecureLink.Guarantees.NonceSequence
