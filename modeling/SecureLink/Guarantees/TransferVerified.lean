import SecureLink.Library.Runs
import SecureLink.Source.Transfer.FileReceiver

/-!
# Verification of a transfer

A receiver that reports a transfer complete should have verified it. `on_chunk` notes that the
hash is done before it compares the digests, so a transfer that ends with a mismatch is
reported complete as well; and for the largest chunk counts the resume map is too short, so
that a chunk behind it has no defined effect. Without these two events a complete transfer is
verified.
-/
namespace SecureLink.Guarantees.TransferVerified
open Library.BigEndian Library.Files Library.Runs Source.Transfer

/-- A receiver, unless its behaviour is no longer defined, and the chunks it accepted. -/
structure Session where
  receiver : Option FileReceiver := some {}
  accepted : List UInt32 := []

inductive Arrival where
  | metadata (wire : Bytes) (opened : Bool)
  | chunk (wire : Bytes) (io : TransferIo)

/-- The chunk that a call accepted. -/
def acceptedBy (r : FileReceiver) (wire : Bytes) (result : FileRxResult) : List UInt32 :=
  if result = .accepted ∨ result = .complete then
    ((checkChunk r.info wire).map (·.chunkIndex)).toList
  else []

def sessionStep (sha : Sha256) (s : Session) : Arrival → Session × Option FileRxResult
  | .metadata wire opened =>
    match s.receiver with
    | none => (s, none)
    | some r => ({ s with receiver := some (r.onMeta wire opened).1 }, some (r.onMeta wire opened).2)
  | .chunk wire io =>
    match s.receiver with
    | none => (s, none)
    | some r =>
      match r.onChunk sha wire io with
      | none => ({ s with receiver := none }, none)
      | some (r', result) =>
        ({ receiver := some r', accepted := s.accepted ++ acceptedBy r wire result }, some result)

/-- The receiver is defined, and if it reports the transfer complete then every chunk was
accepted and the file has the digest that was announced. -/
def Verified (sha : Sha256) (s : Session) : Prop :=
  ∃ r, s.receiver = some r ∧ (r.isComplete = true →
    (∀ i < r.info.totalChunks, i ∈ s.accepted) ∧ sha r.file = r.info.sha256)

/-- The chunk is the last one missing, and it can be written and the file read back. -/
def Completes (r : FileReceiver) (c : SlFileChunk) (io : TransferIo) : Prop :=
  slResumeMapHas r.resume c.chunkIndex = some false ∧
  r.resume.receivedChunks + 1 = r.info.totalChunks ∧
  (pwriteLoop io.writes r.file (chunkOffset r.info c.chunkIndex).toNat c.data).2 = true ∧
  io.reads = none

/-- A chunk that passes the checks has its octet in the resume map, and if it completes the file
then the file gets the digest that was announced. -/
def Genuine (sha : Sha256) (s : Session) : Arrival → Prop
  | .metadata _ _ => True
  | .chunk wire io => ∀ r c, s.receiver = some r → r.metaSet = true →
      checkChunk r.info wire = some c →
      r.resume.Covers c.chunkIndex ∧ (Completes r c io →
        sha (writeAt r.file (chunkOffset r.info c.chunkIndex).toNat c.data) = r.info.sha256)

/-- Before the metadata. -/
structure Waiting (r : FileReceiver) (accepted : List UInt32) : Prop where
  unset : r.metaSet = false
  unhashed : r.hashDone = false
  none : accepted = []

/-- During a transfer: what the map records was accepted, and a hash that is done matched. -/
structure Following (sha : Sha256) (r : FileReceiver) (accepted : List UInt32) : Prop where
  tracks : ∃ seen, r.Tracks seen ∧
    (r.hashDone = true ∨ slResumeMapComplete r.resume = false → ∀ i ∈ seen, i ∈ accepted)
  matched : r.hashDone = true → sha r.file = r.info.sha256

def Sound (sha : Sha256) (s : Session) : Prop :=
  ∃ r, s.receiver = some r ∧ (Waiting r s.accepted ∨ Following sha r s.accepted)

/-- Undefined, or full with another digest. -/
def Broken (sha : Sha256) (s : Session) : Prop :=
  s.receiver = none ∨ ∃ r seen, s.receiver = some r ∧ r.Tracks seen ∧
    slResumeMapComplete r.resume = true ∧ r.hashDone = true ∧ sha r.file ≠ r.info.sha256

variable {sha : Sha256}

theorem Sound.verified {s : Session} (h : Sound sha s) : Verified sha s := by
  obtain ⟨r, present, waiting | following⟩ := h
  · refine ⟨r, present, fun complete => ?_⟩
    simp [FileReceiver.isComplete, waiting.unset] at complete
  · obtain ⟨seen, tracks, known⟩ := following.tracks
    refine ⟨r, present, fun complete => ?_⟩
    simp only [FileReceiver.isComplete, Bool.and_eq_true] at complete
    obtain ⟨⟨_, full⟩, done⟩ := complete
    refine ⟨fun i hi => known (Or.inl done) i ?_, following.matched done⟩
    exact tracks.marks.complete_iff.mp full i (tracks.total ▸ hi)

theorem Broken.not_verified {s : Session} (h : Broken sha s) : ¬ Verified sha s := by
  rintro ⟨r, present, complete⟩
  rcases h with undefined | ⟨r', seen, present', tracks, full, done, differs⟩
  · rw [undefined] at present
    cases present
  · obtain rfl : r = r' := Option.some.inj (present.symm.trans present')
    exact differs (complete (by simp [FileReceiver.isComplete, tracks.isSet, full, done])).2

section Chunk

variable {r : FileReceiver} {accepted : List UInt32} {wire : Bytes} {io : TransferIo} {c : SlFileChunk}

theorem acceptedBy_checked (checked : checkChunk r.info wire = some c) (result : FileRxResult) :
    acceptedBy r wire result =
      if result = .accepted ∨ result = .complete then [c.chunkIndex] else [] := by
  simp only [acceptedBy, checked, Option.map_some, Option.toList_some]

/-- A chunk that passes the checks completes the file exactly if it is new, written, the last
one, and the file can be read back. -/
theorem completes_iff {seen : List UInt32} (tracks : r.Tracks seen)
    (checked : checkChunk r.info wire = some c) (inside : r.resume.Covers c.chunkIndex) :
    Completes r c io ↔ c.chunkIndex ∉ seen ∧ r.resume.receivedChunks + 1 = r.info.totalChunks ∧
      (pwriteLoop io.writes r.file (chunkOffset r.info c.chunkIndex).toNat c.data).2 = true ∧
      io.reads = none := by
  unfold Completes
  rw [tracks.has checked inside, Option.some.injEq, decide_eq_false_iff_not]

/-- A call that changes no more than the counters. -/
theorem Following.frame (h : Following sha r accepted) (stats : FileReceiverStats)
    (more : List UInt32) : Following sha { r with stats } (accepted ++ more) := by
  obtain ⟨seen, tracks, known⟩ := h.tracks
  refine ⟨⟨seen, tracks.frame r.file stats, fun when i hi => ?_⟩, h.matched⟩
  exact List.mem_append_left _ (known when i hi)

/-- A new chunk that was written. -/
theorem following_written {seen : List UInt32} (tracks : r.Tracks seen)
    (known : ∀ i ∈ seen, i ∈ accepted) (checked : checkChunk r.info wire = some c)
    (inside : r.resume.Covers c.chunkIndex) (new : c.chunkIndex ∉ seen)
    (stored : (pwriteLoop io.writes r.file (chunkOffset r.info c.chunkIndex).toNat c.data).2 = true)
    (digest : Completes r c io →
      sha (writeAt r.file (chunkOffset r.info c.chunkIndex).toNat c.data) = r.info.sha256) :
    ∃ r' result, r.onChunk sha wire io = some (r', result) ∧
      Following sha r' (accepted ++ acceptedBy r wire result) := by
  obtain ⟨file, written⟩ : ∃ file, pwriteLoop io.writes r.file
      (chunkOffset r.info c.chunkIndex).toNat c.data = (file, true) := ⟨_, Prod.ext rfl stored⟩
  obtain ⟨fresh, unhashed⟩ := tracks.fresh (tracks.missing checked new)
  obtain ⟨resume, stats, marks, total, _, step⟩ :=
    FileReceiver.onChunk_written sha tracks checked inside new written
  have recorded : ∀ i ∈ c.chunkIndex :: seen, i ∈ accepted ++ [c.chunkIndex] := by
    intro i hi
    rcases List.mem_cons.mp hi with rfl | old
    · simp
    · exact List.mem_append_left _ (known i old)
  by_cases full : slResumeMapComplete resume = true
  · rw [if_pos full] at step
    cases reads : io.reads with
    | some n =>
      -- the map is full, but reading back failed: the hash is never done
      rw [reads, FileReceiver.verify] at step
      refine ⟨_, _, step, ⟨c.chunkIndex :: seen,
        FileReceiver.tracks_full tracks.isSet marks total full, fun when => ?_⟩,
        fun done => absurd done (by simp [unhashed])⟩
      simp [unhashed, full] at when
    | none =>
      have matched : sha file = r.info.sha256 := by
        rw [pwriteLoop_all written]
        refine digest ((completes_iff tracks checked inside).mpr ⟨new, ?_, stored, reads⟩)
        rw [← tracks.total]
        exact (tracks.marks.complete_cons_iff marks (total.trans tracks.total.symm)).mp full
      rw [reads, FileReceiver.verify_fresh sha (by exact fresh), if_pos matched] at step
      refine ⟨_, _, step, ⟨c.chunkIndex :: seen,
        FileReceiver.tracks_full tracks.isSet marks total full, fun _ => ?_⟩, fun _ => matched⟩
      rw [acceptedBy_checked checked, if_pos (Or.inr rfl)]
      exact recorded
  · rw [if_neg full] at step
    refine ⟨_, _, step, ⟨c.chunkIndex :: seen,
      ⟨tracks.isSet, marks, total, fun _ => ⟨fresh, unhashed⟩⟩, fun _ => ?_⟩,
      fun done => absurd done (by simp [unhashed])⟩
    rw [acceptedBy_checked checked, if_pos (Or.inl rfl)]
    exact recorded

/-- A chunk in the map's range that does not complete the file with another digest. -/
theorem Following.chunk (h : Following sha r accepted) (checked : checkChunk r.info wire = some c)
    (inside : r.resume.Covers c.chunkIndex)
    (digest : Completes r c io →
      sha (writeAt r.file (chunkOffset r.info c.chunkIndex).toNat c.data) = r.info.sha256) :
    ∃ r' result, r.onChunk sha wire io = some (r', result) ∧
      Following sha r' (accepted ++ acceptedBy r wire result) := by
  obtain ⟨seen, tracks, known⟩ := h.tracks
  by_cases old : c.chunkIndex ∈ seen
  · exact ⟨_, _, FileReceiver.onChunk_duplicate sha tracks checked inside old, h.frame _ _⟩
  · have missing := tracks.missing checked old
    cases stored : (pwriteLoop io.writes r.file (chunkOffset r.info c.chunkIndex).toNat c.data).2 with
    | true => exact following_written tracks (known (Or.inr missing)) checked inside old stored digest
    | false =>
      refine ⟨_, _, FileReceiver.onChunk_unwritten sha tracks checked inside old
        (Prod.ext rfl stored), ⟨seen, tracks.frame _ r.stats, fun when i hi => ?_⟩,
        fun done => ?_⟩
      · exact List.mem_append_left _ (known when i hi)
      · exact absurd done (by simp [(tracks.fresh missing).2])

/-- A chunk behind the map, or one that completes the file with another digest. -/
theorem Following.spoiled (h : Following sha r accepted) (checked : checkChunk r.info wire = some c)
    (spoils : ¬ (r.resume.Covers c.chunkIndex ∧ (Completes r c io →
      sha (writeAt r.file (chunkOffset r.info c.chunkIndex).toNat c.data) = r.info.sha256))) :
    r.onChunk sha wire io = none ∨ ∃ r' seen, r.onChunk sha wire io = some (r', .hashMismatch) ∧
      r'.Tracks seen ∧ slResumeMapComplete r'.resume = true ∧ r'.hashDone = true ∧
      sha r'.file ≠ r'.info.sha256 := by
  obtain ⟨seen, tracks, _⟩ := h.tracks
  by_cases inside : r.resume.Covers c.chunkIndex
  · obtain ⟨completes, differs⟩ := Classical.not_imp.mp fun digest => spoils ⟨inside, digest⟩
    obtain ⟨new, last, stored, reads⟩ := (completes_iff tracks checked inside).mp completes
    obtain ⟨file, written⟩ : ∃ file, pwriteLoop io.writes r.file
        (chunkOffset r.info c.chunkIndex).toNat c.data = (file, true) := ⟨_, Prod.ext rfl stored⟩
    obtain ⟨resume, stats, marks, total, _, step⟩ :=
      FileReceiver.onChunk_written sha tracks checked inside new written
    have full : slResumeMapComplete resume = true := by
      rw [tracks.marks.complete_cons_iff marks (total.trans tracks.total.symm), last, tracks.total]
    rw [← pwriteLoop_all written] at differs
    have fresh := (tracks.fresh (tracks.missing checked new)).1
    rw [if_pos full, reads, FileReceiver.verify_fresh sha (by exact fresh), if_neg differs] at step
    exact Or.inr ⟨_, c.chunkIndex :: seen, step,
      FileReceiver.tracks_full tracks.isSet marks total full, full, rfl, differs⟩
  · exact Or.inl (FileReceiver.onChunk_undefined sha tracks checked inside)

end Chunk

theorem Sound.step {s : Session} (h : Sound sha s) {arrival : Arrival}
    (genuine : Genuine sha s arrival) : Sound sha (sessionStep sha s arrival).1 := by
  obtain ⟨r, present, state⟩ := h
  cases arrival with
  | metadata wire opened =>
    simp only [sessionStep, present]
    refine ⟨_, rfl, ?_⟩
    rcases r.onMeta_cases wire opened with same | ⟨unset, m, started⟩
    · rw [same]
      exact state
    · rw [started]
      rcases state with waiting | following
      · exact Or.inr ⟨⟨[], FileReceiver.tracks_start waiting.unhashed m, by simp⟩,
          fun done => absurd done (by simp [FileReceiver.start, waiting.unhashed])⟩
      · obtain ⟨_, tracks, _⟩ := following.tracks
        exact absurd tracks.isSet (by simp [unset])
  | chunk wire io =>
    simp only [sessionStep, present]
    rcases state with waiting | following
    · rw [FileReceiver.onChunk_unset sha waiting.unset]
      exact ⟨r, rfl, Or.inl ⟨waiting.unset, waiting.unhashed, by
        simp [acceptedBy, waiting.none]⟩⟩
    · obtain ⟨_, tracks, _⟩ := following.tracks
      cases checked : checkChunk r.info wire with
      | none =>
        rw [FileReceiver.onChunk_bad sha tracks.isSet checked]
        exact ⟨_, rfl, Or.inr (following.frame _ _)⟩
      | some c =>
        obtain ⟨inside, digest⟩ := genuine r c present tracks.isSet checked
        obtain ⟨r', result, step, next⟩ := following.chunk checked inside digest
        rw [step]
        exact ⟨r', rfl, Or.inr next⟩

theorem Sound.breaks {s : Session} (h : Sound sha s) {arrival : Arrival}
    (spoils : ¬ Genuine sha s arrival) : Broken sha (sessionStep sha s arrival).1 := by
  obtain ⟨r, present, state⟩ := h
  cases arrival with
  | metadata wire opened => exact absurd trivial spoils
  | chunk wire io =>
    simp only [Genuine, not_forall] at spoils
    obtain ⟨r', c, present', isSet, checked, spoils⟩ := spoils
    obtain rfl : r = r' := Option.some.inj (present.symm.trans present')
    rcases state with waiting | following
    · exact absurd isSet (by simp [waiting.unset])
    · simp only [sessionStep, present]
      rcases following.spoiled checked spoils with undefined | ⟨r', seen, step, rest⟩
      · rw [undefined]
        exact Or.inl rfl
      · rw [step]
        exact Or.inr ⟨r', seen, rfl, rest⟩

/-- Once the map is full nothing is written any more. -/
theorem Broken.stays {s : Session} (h : Broken sha s) (arrival : Arrival) :
    Broken sha (sessionStep sha s arrival).1 := by
  rcases h with undefined | ⟨r, seen, present, tracks, full, done, differs⟩
  · cases arrival <;> exact Or.inl (by simp [sessionStep, undefined])
  · cases arrival with
    | metadata wire opened =>
      simp only [sessionStep, present]
      rcases r.onMeta_cases wire opened with same | ⟨unset, _⟩
      · rw [same]
        exact Or.inr ⟨r, seen, rfl, tracks, full, done, differs⟩
      · exact absurd tracks.isSet (by simp [unset])
    | chunk wire io =>
      simp only [sessionStep, present]
      cases checked : checkChunk r.info wire with
      | none =>
        rw [FileReceiver.onChunk_bad sha tracks.isSet checked]
        exact Or.inr ⟨_, seen, rfl, tracks.frame r.file _, full, done, differs⟩
      | some c =>
        by_cases inside : r.resume.Covers c.chunkIndex
        · rw [FileReceiver.onChunk_duplicate sha tracks checked inside
            (tracks.marks.complete_iff.mp full _ (tracks.index checked))]
          exact Or.inr ⟨_, seen, rfl, tracks.frame r.file _, full, done, differs⟩
        · rw [FileReceiver.onChunk_undefined sha tracks checked inside]
          exact Or.inl rfl

/-- After every sequence of calls with any bytes, whatever the system calls do: a transfer that
is reported complete is verified exactly if every chunk so far was genuine. -/
theorem complete_transfer_verified_iff (sha : Sha256) (arrivals : List Arrival) :
    Verified sha (run (sessionStep sha) {} arrivals) ↔
      AllSteps (sessionStep sha) (Genuine sha) {} arrivals :=
  safe_run_iff (Sound sha) (Broken sha) (Verified sha) (fun _ h => h.verified)
    (fun _ h => h.not_verified) (fun _ _ h genuine => h.step genuine)
    (fun _ _ h spoils => h.breaks spoils) (fun _ arrival h => h.stays arrival)
    ⟨{}, rfl, Or.inl ⟨rfl, rfl, rfl⟩⟩

/-- A digest of zeros for everything, as a new receiver has it in its metadata. -/
def toySha : Sha256 := fun _ => FileReceiver.initial.info.sha256

def toyChunk : SlFileChunk where
  chunkIndex := 0
  dataLen := 1
  crc32c := 0
  flags := slFileChunkFlagLast
  data := [7]

def toyArrivals : List Arrival :=
  [.metadata ((slFileMetaPack (toyMeta 1 1) 83).getD []) true,
    .chunk ((slFileChunkPack toyChunk 17).getD []) { writes := [1], reads := none }]

/-- The chunk that completes the file is answered with a mismatch, and the transfer is reported
complete. -/
theorem mismatch_reported_complete :
    outputs (sessionStep toySha) {} toyArrivals = [some .accepted, some .hashMismatch] ∧
      ¬ Verified toySha (run (sessionStep toySha) {} toyArrivals) := by
  have ends : (run (sessionStep toySha) {} toyArrivals).receiver.map
      (fun r => (r.isComplete, decide (toySha r.file = r.info.sha256))) = some (true, false) := by
    decide +kernel
  refine ⟨by decide +kernel, ?_⟩
  rintro ⟨r, present, complete⟩
  rw [present, Option.map_some, Option.some.injEq, Prod.mk.injEq, decide_eq_false_iff_not] at ends
  exact ends.2 (complete ends.1).2

end SecureLink.Guarantees.TransferVerified
