import SecureLink.Source.Handshake.Derived

/-!
# Separation of exported material

The exporter hashes label and context into the info block of the expand step, one after the
other and without a mark between them (src/sl_exporter.c:33-36). Over ideal primitives two pairs
are told apart exactly by what they concatenate to.
-/
namespace SecureLink.Guarantees.ExporterSeparation
open Library.BigEndian Source.Handshake

/-- With one secret and one length, different info blocks expand to different material. -/
def ExpandInjective (C : Crypto) : Prop :=
  ∀ (prk : Bytes) (outLen : Nat), 32 ≤ outLen → outLen ≤ 255 * hkdfHashLen →
    ∀ info other : FixedBytes slTranscriptLen,
      slHkdfExpandSha256 C prk info.1 outLen = slHkdfExpandSha256 C prk other.1 outLen → info = other

/-- What the exporter is assumed to rest on. No hash of fixed size is injective, so SHA-256 is
taken to have no collision among a set of inputs. -/
structure Ideal (C : Crypto) (hashed : Set Bytes) : Prop where
  answers : MacAnswers C
  expand : ExpandInjective C
  hash : Set.InjOn C.sha256 hashed

/-- Both derivations succeed, with different material. -/
def Separated (C : Crypto) (secret : Bytes) (outLen : Nat) (label context label' context' : Bytes) :
    Prop :=
  ∃ out ∈ slExporterDerive C secret label context outLen,
    ∃ out' ∈ slExporterDerive C secret label' context' outLen, out ≠ out'

section
variable {C : Crypto} {hashed : Set Bytes} (ideal : Ideal C hashed)
include ideal

/-- A derivation succeeds for every length that expand can fill. -/
theorem derive_answers (secret : Bytes) {label : Bytes} (context : Bytes) {outLen : Nat}
    (nonempty : outLen ≠ 0) (fits : outLen ≤ 255 * 32) (noNul : 0 ∉ label) :
    ∃ prk out, slHkdfExtractSha256 C secret [] = some prk ∧
      slHkdfExpandSha256 C prk (C.sha256 (label ++ context)).1 outLen = some out ∧
      slExporterDerive C secret label context outLen = some out := by
  obtain ⟨prk, extracted⟩ := slHkdfExtractSha256_answers ideal.answers secret []
  obtain ⟨out, expanded⟩ :=
    slHkdfExpandSha256_answers ideal.answers prk (C.sha256 (label ++ context)).1 fits
  refine ⟨prk, out, extracted, expanded, ?_⟩
  rw [slExporterDerive_eq nonempty fits noNul, slHkdfSha256, extracted]
  exact expanded

/-- Two pairs give different material exactly if they concatenate to different strings, for a
length that can be derived at all. -/
theorem exporter_separates_iff (secret : Bytes) {outLen : Nat} (long : 32 ≤ outLen)
    {label context label' context' : Bytes} (noNul : 0 ∉ label) (noNul' : 0 ∉ label')
    (member : label ++ context ∈ hashed) (member' : label' ++ context' ∈ hashed) :
    Separated C secret outLen label context label' context' ↔
      outLen ≤ 255 * 32 ∧ label ++ context ≠ label' ++ context' := by
  constructor
  · intro separated
    obtain ⟨out, derived, out', derived', differ⟩ := separated
    have fits : outLen ≤ 255 * 32 := by
      by_contra over'
      rw [slExporterDerive, if_pos (by omega)] at derived
      cases derived
    refine ⟨fits, ?_⟩
    intro same
    rw [slExporterDerive_eq (by omega) fits noNul] at derived
    rw [slExporterDerive_eq (by omega) fits noNul', ← same] at derived'
    exact differ (Option.some.inj (derived.symm.trans derived'))
  · intro cond
    obtain ⟨fits, differ⟩ := cond
    obtain ⟨prk, out, extracted, expanded, derived⟩ :=
      derive_answers ideal secret context (by omega) fits noNul
    obtain ⟨prk', out', extracted', expanded', derived'⟩ :=
      derive_answers ideal secret context' (by omega) fits noNul'
    obtain rfl := Option.some.inj (extracted.symm.trans extracted')
    refine ⟨out, derived, out', derived', ?_⟩
    rintro rfl
    have blocks := ideal.expand prk outLen long fits _ _ (expanded.trans expanded'.symm)
    exact differ (ideal.hash member member' blocks)

end

/-- Primitives that repeat their input, cut or padded to 32 bytes. -/
def echoed (data : Bytes) : FixedBytes 32 :=
  ⟨(data ++ List.replicate 32 0).take 32, by simp⟩

def echoCrypto : Crypto where
  Keypair := Unit
  sha256 := echoed
  hmacSha256 _ data := some (echoed data).1
  ecExportPubkey _ := none
  ecPointOnCurve _ := false
  ecdhComputeKey _ _ := none
  ed25519Verify _ _ _ := false

/-- The first block of the expanded material is the info block. -/
theorem echo_expand {prk okm : Bytes} {outLen : Nat} (long : 32 ≤ outLen)
    (fits : outLen ≤ 255 * hkdfHashLen) (info : FixedBytes slTranscriptLen)
    (expanded : slHkdfExpandSha256 echoCrypto prk info.1 outLen = some okm) : info.1 = okm.take 32 := by
  have block : (echoed ([] ++ info.1 ++ [1])).1 = info.1 := by
    simp only [echoed, List.nil_append, List.append_assoc]
    exact List.take_left' info.2
  rw [slHkdfExpandSha256, if_neg (Nat.not_lt.mpr fits)] at expanded
  obtain ⟨n, rfl⟩ : ∃ n, outLen = n + 1 := ⟨outLen - 1, by omega⟩
  unfold hkdfExpandLoop at expanded
  rw [if_neg (by simp)] at expanded
  have first : [] ++ (echoed ([] ++ info.1 ++ [1])).1.take (n + 1 - ([] : Bytes).length) <+: okm :=
    hkdfExpandLoop_extends expanded
  have whole : info.1.length ≤ n + 1 - ([] : Bytes).length := by
    rw [info.2]
    exact long
  rw [block, List.nil_append, List.take_of_length_le whole] at first
  have start := List.prefix_iff_eq_take.mp first
  rwa [info.2] at start

theorem echo_answers : MacAnswers echoCrypto :=
  fun _ data => ⟨(echoed data).1, rfl, (echoed data).2⟩

/-- Strings of one length up to 32 are told apart by their echoes. -/
theorem echo_ideal {size : Nat} (small : size ≤ 32) :
    Ideal echoCrypto { data | data.length = size } where
  answers := echo_answers
  expand := by
    intro prk outLen long fits info other same
    obtain ⟨okm, expanded⟩ := slHkdfExpandSha256_answers echo_answers prk info.1 fits
    apply Subtype.ext
    rw [echo_expand long fits info expanded, echo_expand long fits other (same ▸ expanded)]
  hash := by
    intro data sized data' sized' same
    have start : ∀ x : Bytes, x.length = size → (echoed x).1.take size = x := by
      intro x sized
      rw [echoed, List.take_take, Nat.min_eq_left small, List.take_left' sized]
    rw [← start data sized, ← start data' sized']
    exact congrArg (fun block : FixedBytes 32 => block.1.take size) same

theorem labels_separate :
    Separated echoCrypto (List.replicate 32 9) 32 (ascii "a") (ascii "bc") (ascii "b")
      (ascii "bc") := by
  have ideal : Ideal echoCrypto { data | data.length = 3 } := echo_ideal (by decide)
  apply (exporter_separates_iff ideal (List.replicate 32 9) (Nat.le_refl 32) (by decide)
    (by decide) rfl rfl).mpr
  exact ⟨by decide, by decide⟩

/-- A label that takes over the beginning of the context derives the same material. -/
theorem exporter_labels_collide :
    Ideal echoCrypto { data | data.length = 3 } ∧
    slExporterDerive echoCrypto (List.replicate 32 9) (ascii "a") (ascii "bc") 32 =
      some (ascii "abc" ++ List.replicate 29 0) ∧
    slExporterDerive echoCrypto (List.replicate 32 9) (ascii "ab") (ascii "c") 32 =
      some (ascii "abc" ++ List.replicate 29 0) ∧
    ascii "a" ≠ ascii "ab" :=
  ⟨echo_ideal (by decide), by decide +kernel, by decide +kernel, by decide⟩

end SecureLink.Guarantees.ExporterSeparation
