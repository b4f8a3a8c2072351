import SecureLink.Library.Substrings
import SecureLink.Source.Metrics.MetricsRegistry

/-!
# Which series are kept apart

A series is found by the text of its name and labels (src/metrics_registry.cpp:8-22). Two series
have the same counter exactly if their names and labels join to the same text, whatever is called
before, in between and afterwards. The text does not quote its delimiters: it tells series apart
whose names and labels are free of them.
-/
namespace SecureLink.Guarantees.SeriesIdentity
open Library.BigEndian Library.Runs Library.Substrings Source.Metrics Source.Metrics.MetricsRegistry

/-! ## The text of a series -/

def entryText (e : Bytes × Bytes) : Bytes := e.1 ++ equals :: e.2

theorem labelText_false (entries : List (Bytes × Bytes)) :
    labelText false entries = (entries.map entryText).flatMap (comma :: ·) := by
  induction entries with
  | nil => rfl
  | cons e rest ih =>
    rw [labelText, ih, List.map_cons, List.flatMap_cons, entryText]
    simp only [Bool.false_eq_true, if_false, List.append_assoc, List.cons_append, List.nil_append]

theorem labelText_true (entries : List (Bytes × Bytes)) :
    labelText true entries = [comma].intercalate (entries.map entryText) := by
  cases entries with
  | nil => rfl
  | cons e rest =>
    rw [labelText, labelText_false, List.map_cons, intercalate_cons, entryText]
    simp only [if_true, List.append_assoc, List.cons_append, List.nil_append]

theorem entryText_inj {e e' : Bytes × Bytes} (plain : equals ∉ e.1) (plain' : equals ∉ e'.1)
    (same : entryText e = entryText e') : e = e' := by
  obtain ⟨key, value⟩ := first_separator_unique plain plain' same
  exact Prod.ext key value

/-- A label whose text can be found again. -/
def PlainEntry (e : Bytes × Bytes) : Prop := equals ∉ e.1 ∧ comma ∉ e.1 ∧ comma ∉ e.2

instance (e : Bytes × Bytes) : Decidable (PlainEntry e) :=
  inferInstanceAs (Decidable (equals ∉ e.1 ∧ comma ∉ e.1 ∧ comma ∉ e.2))

theorem PlainEntry.comma_notMem {e : Bytes × Bytes} (plain : PlainEntry e) : comma ∉ entryText e := by
  intro member
  rcases List.mem_append.mp member with key | value
  · exact plain.2.1 key
  · rcases List.mem_cons.mp value with delimiter | value
    · exact absurd delimiter (by decide)
    · exact plain.2.2 value

theorem splitOn_labelText {entries : List (Bytes × Bytes)} (plain : ∀ e ∈ entries, PlainEntry e)
    (labelled : entries ≠ []) : (labelText true entries).splitOn comma = entries.map entryText := by
  rw [labelText_true]
  apply List.splitOn_intercalate
  · intro text member
    obtain ⟨e, inside, rfl⟩ := List.mem_map.mp member
    exact (plain e inside).comma_notMem
  · exact fun unlabelled => labelled (List.map_eq_nil_iff.mp unlabelled)

theorem labelText_eq_nil_iff (entries : List (Bytes × Bytes)) : labelText true entries = [] ↔ entries = [] := by
  cases entries with
  | nil => exact iff_of_true rfl rfl
  | cons e rest => simp [labelText]

theorem entries_inj {entries entries' : List (Bytes × Bytes)} (plain : ∀ e ∈ entries, PlainEntry e)
    (plain' : ∀ e ∈ entries', PlainEntry e) (same : entries.map entryText = entries'.map entryText) :
    entries = entries' := by
  induction entries generalizing entries' with
  | nil => exact (List.map_eq_nil_iff.mp same.symm).symm
  | cons e rest ih =>
    cases entries' with
    | nil => cases same
    | cons e' rest' =>
      obtain ⟨first, later⟩ := List.cons.inj same
      rw [List.forall_mem_cons] at plain plain'
      rw [entryText_inj plain.1.1 plain'.1.1 first, ih plain.2 plain'.2 later]

theorem labelText_inj {entries entries' : List (Bytes × Bytes)} (plain : ∀ e ∈ entries, PlainEntry e)
    (plain' : ∀ e ∈ entries', PlainEntry e) (same : labelText true entries = labelText true entries') :
    entries = entries' := by
  by_cases unlabelled : entries = []
  · rw [(labelText_eq_nil_iff entries).mpr unlabelled] at same
    rw [unlabelled, (labelText_eq_nil_iff entries').mp same.symm]
  · have labelled : entries' ≠ [] := by
      intro unlabelled'
      rw [(labelText_eq_nil_iff entries').mpr unlabelled'] at same
      exact unlabelled ((labelText_eq_nil_iff entries).mp same)
    apply entries_inj plain plain'
    rw [← splitOn_labelText plain unlabelled, ← splitOn_labelText plain' labelled, same]

/-- No delimiter where the next one is looked for. -/
def Plain (p : Bytes × LabelSet) : Prop := openBrace ∉ p.1 ∧ ∀ e ∈ p.2.entries, PlainEntry e

instance (p : Bytes × LabelSet) : Decidable (Plain p) :=
  inferInstanceAs (Decidable (openBrace ∉ p.1 ∧ ∀ e ∈ p.2.entries, PlainEntry e))

theorem makeKey_inj {p q : Bytes × LabelSet} (plain : Plain p) (plain' : Plain q)
    (same : makeKey p.1 p.2 = makeKey q.1 q.2) : p = q := by
  obtain ⟨name, labels⟩ := first_separator_unique plain.1 plain'.1 same
  have entries := labelText_inj plain.2 plain'.2 (List.append_cancel_right labels)
  exact Prod.ext name (LabelSet.ext entries)

/-- The name, a brace, and the labels as `key=value` with commas between them. -/
def seriesText (p : Bytes × LabelSet) : Bytes :=
  p.1 ++ openBrace :: [comma].intercalate (p.2.entries.map fun e => e.1 ++ equals :: e.2)

theorem makeKey_eq_iff (p q : Bytes × LabelSet) :
    makeKey p.1 p.2 = makeKey q.1 q.2 ↔ seriesText p = seriesText q := by
  have closed : ∀ p : Bytes × LabelSet, makeKey p.1 p.2 = seriesText p ++ [closeBrace] := by
    intro p
    rw [makeKey, labelText_true, seriesText, List.append_assoc]
    rfl
  rw [closed, closed, List.append_left_inj]

/-! ## Counters -/

/-- The counter of one series, and that of another one asked for later: they are different, and to
increment the first never changes what the second holds. -/
def Apart (before between after : List Call) (p q : Bytes × LabelSet) : Prop :=
  let first := (run step empty before).counter p.1 p.2
  let second := (run step first.1 between).counter q.1 q.2
  let r := run step second.1 after
  first.2 ≠ second.2 ∧ ∀ amount, (r.inc first.2 amount).value second.2 = r.value second.2

/-- Counters are kept apart exactly if the texts of their series differ. -/
theorem apart_iff (before between after : List Call) (p q : Bytes × LabelSet) :
    Apart before between after p q ↔ makeKey p.1 p.2 ≠ makeKey q.1 q.2 := by
  rw [Apart]
  set start := run step empty before
  set first := start.counter p.1 p.2
  set later := run step first.1 between
  set second := later.counter q.1 q.2
  have valid : second.1.Valid :=
    (valid_run ((valid_run valid_empty before).get .counter p.1 p.2) between).get .counter q.1 q.2
  have here : later.refAt .counter (makeKey p.1 p.2) = some first.2 :=
    refAt_run (refAt_get_self start .counter p.1 p.2) between
  constructor
  · rintro ⟨different, _⟩ same
    rw [same] at here
    have old : second = (later, first.2) := get_old here
    exact different (congrArg Prod.snd old).symm
  · intro different
    have one : second.1.refAt .counter (makeKey p.1 p.2) = some first.2 :=
      refAt_get_of_some here .counter q.1 q.2
    have two : second.1.refAt .counter (makeKey q.1 q.2) = some second.2 :=
      refAt_get_self later .counter q.1 q.2
    have refs : first.2 ≠ second.2 := by
      intro same
      rw [← same] at two
      exact different (valid.apart _ _ _ _ one two)
    refine ⟨refs, fun amount => ?_⟩
    rw [value_inc, if_neg refs]

/-- Two series are kept apart exactly if their names and labels join to different texts, as those
of different series without delimiters do. -/
theorem series_apart_iff (before between after : List Call) (p q : Bytes × LabelSet) (different : p ≠ q) :
    (Apart before between after p q ↔ seriesText p ≠ seriesText q) ∧
      (Plain p → Plain q → Apart before between after p q) := by
  rw [apart_iff]
  refine ⟨not_congr (makeKey_eq_iff p q), fun plain plain' same => ?_⟩
  exact different (makeKey_inj plain plain' same)

/-- The series of one peer. -/
def sent (peer : String) : Bytes × LabelSet :=
  (ascii "sent", ⟨[(ascii "peer", ascii peer)], List.pairwise_singleton _ _⟩)

/-- Two peers have counters of their own, also if one of them has a gauge already. -/
theorem peers_apart :
    Plain (sent "a") ∧ Plain (sent "b") ∧
      Apart [.gauge (sent "a").1 (sent "a").2] [] [] (sent "a") (sent "b") := by
  have plain : Plain (sent "a") ∧ Plain (sent "b") := by decide +kernel
  have apart := series_apart_iff [.gauge (sent "a").1 (sent "a").2] [] [] (sent "a") (sent "b") (by decide)
  exact ⟨plain.1, plain.2, apart.2 plain.1 plain.2⟩

/-- A value that holds the text of another label. -/
def embedded : Bytes × LabelSet := sent "a,port=1"

def listed : Bytes × LabelSet :=
  (ascii "sent", ⟨[(ascii "peer", ascii "a"), (ascii "port", ascii "1")], by decide⟩)

/-- Both have one counter: what one counts, the other shows. -/
theorem labels_collide :
    embedded ≠ listed ∧
      (let first := empty.counter embedded.1 embedded.2
       let second := first.1.counter listed.1 listed.2
       first.2 = second.2 ∧ second.1.value second.2 = some 0 ∧
         (second.1.inc first.2 1).value second.2 = some 1) := by
  decide +kernel

end SecureLink.Guarantees.SeriesIdentity
