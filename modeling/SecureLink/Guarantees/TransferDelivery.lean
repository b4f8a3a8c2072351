import SecureLink.Library.Runs
import SecureLink.Source.Transfer.FileSender

/-!
# Delivery of a file

A sender's messages reach a fresh receiver in any order, any number of times, and mixed with
octets that are no chunk of the file. As long as the transfer can begin, every chunk is
accepted at its first occurrence, the one that completes the set completes the transfer, and
the destination is then the source. The check of names lets `.` through, which is the
destination directory, and names of 256 octets, one more than a file system takes: these
transfers do not begin.
-/
namespace SecureLink.Guarantees.TransferDelivery
open Library.BigEndian Library.Files Library.Runs Source.Transfer

/-- What reaches the receiver: the sender's message of a chunk, or other octets. -/
inductive Item where
  | chunk (i : UInt32)
  | noise (wire : Bytes)

def wireOf (s : FileSender) : Item → Bytes
  | .chunk i => (s.messageOf i).getD []
  | .noise wire => wire

/-- Every read and every write transfers all of it. -/
def fullIo : TransferIo where
  writes := [slFileChunkMax.toNat]
  reads := none

def deliverStep (sha : Sha256) (s : FileSender) (receiver : Option FileReceiver) (item : Item) :
    Option FileReceiver × Option FileRxResult :=
  match receiver.bind fun r => r.onChunk sha (wireOf s item) fullIo with
  | none => (none, none)
  | some (r, result) => (some r, some result)

/-- The chunks that occurred, with those of one more item. -/
def occurred (seen : List UInt32) : Item → List UInt32
  | .chunk i => i :: seen
  | .noise _ => seen

/-- A first occurrence is accepted, or completes the set; a repetition is a duplicate; the rest
is rejected. -/
def expectedResult (totalChunks : UInt32) (seen : List UInt32) : Item → FileRxResult
  | .chunk i =>
    if i ∈ seen then .duplicate
    else if ∀ n < totalChunks.toNat, UInt32.ofNat n ∈ i :: seen then .complete
    else .accepted
  | .noise _ => .badChunk

def expectedResults (totalChunks : UInt32) : List UInt32 → List Item → List FileRxResult
  | _, [] => []
  | seen, item :: rest =>
    expectedResult totalChunks seen item :: expectedResults totalChunks (occurred seen item) rest

/-- The metadata begin the transfer, every item is answered as expected, and in the end the
destination is the source; `opened` is whether the destination can be opened. -/
structure Delivered (sha : Sha256) (s : FileSender) (metaWire : Bytes) (opened : Bool)
    (items : List Item) : Prop where
  accepted : (FileReceiver.initial.onMeta metaWire opened).2 = .accepted
  results : outputs (deliverStep sha s) (some (FileReceiver.initial.onMeta metaWire opened).1) items =
    (expectedResults s.info.totalChunks [] items).map some
  same : (run (deliverStep sha s) (some (FileReceiver.initial.onMeta metaWire opened).1) items).map
    (·.file) = some s.source

/-- The longest component of a path, `NAME_MAX`. -/
def nameMax : Nat := 255

/-- What `open` does for writing in the destination directory, of which `.` is the directory
itself. -/
structure OpensFiles (opens : Bytes → Bool) : Prop where
  directory : opens [dot] = false
  long : ∀ name, nameMax < name.length → opens name = false
  other : ∀ name, FileSender.ValidName name → name ≠ [dot] → name.length ≤ nameMax → opens name = true

/-- The octets are rejected as a bad chunk. -/
def Rejected (sha : Sha256) (m : SlFileMeta) (wire : Bytes) : Prop :=
  ((FileReceiver.initial.start m).onChunk sha wire fullIo).map Prod.snd = some .badChunk

theorem Rejected.checked {sha : Sha256} {m : SlFileMeta} {wire : Bytes} (h : Rejected sha m wire) :
    checkChunk m wire = none :=
  FileReceiver.onChunk_badChunk sha (FileReceiver.tracks_start rfl m) h

/-- An item of the transfer. -/
def Belongs (sha : Sha256) (s : FileSender) : Item → Prop
  | .chunk i => i < s.info.totalChunks
  | .noise wire => Rejected sha s.info wire

/-- The receiver has the chunks that occurred, in their places. -/
structure Receiving (s : FileSender) (r : FileReceiver) (seen : List UInt32) : Prop where
  tracks : ∃ marks, r.Tracks marks ∧ ∀ i, i ∈ marks ↔ i ∈ seen
  info : r.info = s.info
  covers : ∀ i < s.info.totalChunks, r.resume.Covers i
  length : r.file.length = s.source.length
  blocks : ∀ i ∈ seen, SameBlock r.file s.source s.chunkSize.toNat i.toNat

variable {sha : Sha256} {s : FileSender} {r : FileReceiver} {seen : List UInt32}

theorem receiving_start (h : s.Announces sha) (few : s.info.totalChunks.toNat ≤ 2 ^ 32 - 8) :
    Receiving s (FileReceiver.initial.start s.info) [] where
  tracks := ⟨[], FileReceiver.tracks_start rfl s.info, fun _ => Iff.rfl⟩
  info := rfl
  covers _ hi := SlResumeMap.covers_init few hi
  length := (List.length_replicate).trans h.size
  blocks := by simp

/-- All indices below a bound, as numbers. -/
theorem forall_lt_iff (total : UInt32) (p : UInt32 → Prop) :
    (∀ i < total, p i) ↔ ∀ n < total.toNat, p (UInt32.ofNat n) := by
  refine ⟨fun all n hn => all _ ?_, fun all i hi => ?_⟩
  · rw [UInt32.lt_iff_toNat_lt, UInt32.toNat_ofNat_of_lt' (Nat.lt_trans hn total.toNat_lt)]
    exact hn
  · have this := all i.toNat hi
    rwa [UInt32.ofNat_toNat] at this

/-- When all chunks occurred the file is complete. -/
theorem Receiving.same (h : Receiving s r seen) (announces : s.Announces sha)
    (all : ∀ i < s.info.totalChunks, i ∈ seen) : r.file = s.source := by
  refine eq_of_sameBlocks announces.positive h.length fun n hn => ?_
  have small : n < s.info.totalChunks.toNat := announces.chunks ▸ hn
  have value : (UInt32.ofNat n).toNat = n :=
    UInt32.toNat_ofNat_of_lt' (Nat.lt_trans small s.info.totalChunks.toNat_lt)
  have this := h.blocks (UInt32.ofNat n) ((forall_lt_iff _ _).mp all n small)
  rwa [value] at this

/-- The block of a chunk that had not occurred is put into its place. -/
theorem Receiving.placed (h : Receiving s r seen) (announces : s.Announces sha) {i : UInt32}
    (hi : i < s.info.totalChunks) {marks : List UInt32} (same : ∀ j, j ∈ marks ↔ j ∈ seen)
    {r' : FileReceiver} (tracks : r'.Tracks (i :: marks)) (info : r'.info = r.info)
    (bits : r'.resume.bits.length = r.resume.bits.length)
    (file : r'.file = writeAt r.file (i.toNat * s.chunkSize.toNat)
      (block s.source s.chunkSize.toNat i.toNat)) : Receiving s r' (i :: seen) := by
  have number : i.toNat < blockCount s.source.length s.chunkSize.toNat := announces.chunks ▸ hi
  refine ⟨⟨i :: marks, tracks, fun j => ?_⟩, info.trans h.info, fun j hj => ?_, ?_, fun j hj => ?_⟩
  · rw [List.mem_cons, List.mem_cons, same]
  · rw [SlResumeMap.Covers, bits]
    exact h.covers j hj
  · rw [file, length_writeAt (by rw [h.length]; exact block_inside announces.positive number),
      h.length]
  · rw [file]
    refine sameBlock_writeAt announces.positive h.length number ?_
    exact (List.mem_cons.mp hj).imp (congrArg UInt32.toNat) (h.blocks j)

/-- The sender's message of a chunk passes the checks. -/
theorem Receiving.checked (h : Receiving s r seen) (announces : s.Announces sha) {i : UInt32}
    (hi : i < s.info.totalChunks) :
    ∃ flags, checkChunk r.info (wireOf s (.chunk i)) = some (s.chunkAt i flags) := by
  obtain ⟨flags, wire, message, checked⟩ := announces.messageOf hi
  refine ⟨flags, ?_⟩
  rw [h.info, wireOf, message, Option.getD_some, checked]

/-- One write takes the whole block. -/
theorem Receiving.stored (h : Receiving s r seen) (announces : s.Announces sha) (i : UInt32) :
    pwriteLoop fullIo.writes r.file (chunkOffset r.info i).toNat
        (block s.source s.chunkSize.toNat i.toNat) =
      (writeAt r.file (i.toNat * s.chunkSize.toNat) (block s.source s.chunkSize.toNat i.toNat),
        true) := by
  have fits : (block s.source s.chunkSize.toNat i.toNat).length ≤ slFileChunkMax.toNat := by
    rw [length_block]
    exact Nat.le_trans (Nat.min_le_left _ _) announces.sizes.2
  rw [toNat_chunkOffset, h.info, announces.chunkSize]
  exact pwriteLoop_full [] r.file _ fits (by decide)

/-- A chunk that had not occurred is accepted, or completes the transfer. -/
theorem Receiving.new (h : Receiving s r seen) (announces : s.Announces sha) {i : UInt32}
    (hi : i < s.info.totalChunks) (new : i ∉ seen) :
    ∃ r', r.onChunk sha (wireOf s (.chunk i)) fullIo =
        some (r', expectedResult s.info.totalChunks seen (.chunk i)) ∧ Receiving s r' (i :: seen) := by
  obtain ⟨marks, tracks, same⟩ := h.tracks
  obtain ⟨flags, checked⟩ := h.checked announces hi
  have unmarked : i ∉ marks := fun marked => new ((same i).mp marked)
  obtain ⟨resume, stats, marked, total, bits, step⟩ :=
    FileReceiver.onChunk_written sha tracks checked (h.covers i hi) unmarked
      (h.stored announces i)
  obtain ⟨fresh, unhashed⟩ := tracks.fresh (tracks.missing checked unmarked)
  obtain ⟨mid, hmid⟩ : ∃ mid : FileReceiver, mid = { r with
    file := writeAt r.file (i.toNat * s.chunkSize.toNat) (block s.source s.chunkSize.toNat i.toNat)
    resume, stats } := ⟨_, rfl⟩
  have received : Receiving s mid (i :: seen) := by
    refine h.placed announces hi same ?_ (by rw [hmid]) (by rw [hmid]; exact bits) (by rw [hmid])
    rw [hmid]
    exact ⟨tracks.isSet, marked, total, fun _ => ⟨fresh, unhashed⟩⟩
  have full_iff : slResumeMapComplete resume = true ↔
      ∀ n < s.info.totalChunks.toNat, UInt32.ofNat n ∈ i :: seen := by
    rw [marked.complete_iff, total, h.info, forall_lt_iff]
    simp only [List.mem_cons, same, FileSender.chunkAt]
  rw [step, ← hmid, expectedResult, if_neg new]
  by_cases full : slResumeMapComplete resume = true
  · -- every block is in place, so the digest is the one announced
    have file := received.same announces ((forall_lt_iff _ _).mpr (full_iff.mp full))
    have digest : sha mid.file = mid.info.sha256 := by
      rw [file, received.info, announces.digest]
    have verified := FileReceiver.verify_fresh sha (r := mid) (by rw [hmid]; exact fresh)
    rw [if_pos digest] at verified
    rw [if_pos full, if_pos (full_iff.mp full), fullIo, verified]
    obtain ⟨marks', tracks', same'⟩ := received.tracks
    have complete : slResumeMapComplete mid.resume = true := by
      rw [hmid]
      exact full
    exact ⟨_, rfl, ⟨marks', FileReceiver.tracks_full tracks'.isSet tracks'.marks tracks'.total complete,
      same'⟩, received.info, received.covers, received.length, received.blocks⟩
  · rw [if_neg full, if_neg (fun all => full (full_iff.mpr all))]
    exact ⟨mid, rfl, received⟩

theorem Receiving.step (h : Receiving s r seen) (announces : s.Announces sha) {item : Item}
    (belongs : Belongs sha s item) :
    ∃ r', r.onChunk sha (wireOf s item) fullIo =
        some (r', expectedResult s.info.totalChunks seen item) ∧ Receiving s r' (occurred seen item) := by
  obtain ⟨marks, tracks, same⟩ := h.tracks
  cases item with
  | noise wire =>
    have bad : checkChunk r.info wire = none := h.info ▸ belongs.checked
    exact ⟨_, FileReceiver.onChunk_bad sha tracks.isSet bad,
      ⟨marks, tracks.frame r.file _, same⟩, h.info, h.covers, h.length, h.blocks⟩
  | chunk i =>
    by_cases old : i ∈ seen
    · obtain ⟨_, checked⟩ := h.checked announces belongs
      rw [FileReceiver.onChunk_duplicate sha tracks checked (h.covers i belongs)
        ((same i).mpr old), expectedResult, if_pos old]
      refine ⟨_, rfl, ⟨marks, tracks.frame r.file _, fun j => ?_⟩,
        h.info, h.covers, h.length, fun j hj => ?_⟩
      · rw [same, occurred, List.mem_cons]
        exact ⟨Or.inr, fun either => either.elim (fun here => here ▸ old) id⟩
      · rcases List.mem_cons.mp hj with rfl | known
        · exact h.blocks j old
        · exact h.blocks j known
    · exact h.new announces belongs old

/-- Over a whole sequence of items. -/
theorem Receiving.sequence (h : Receiving s r seen) (announces : s.Announces sha) {items : List Item}
    (belong : ∀ item ∈ items, Belongs sha s item) :
    outputs (deliverStep sha s) (some r) items =
        (expectedResults s.info.totalChunks seen items).map some ∧
      ∃ r', run (deliverStep sha s) (some r) items = some r' ∧
        Receiving s r' (items.foldl occurred seen) := by
  induction items generalizing r seen with
  | nil => exact ⟨rfl, r, rfl, h⟩
  | cons item rest ih =>
    obtain ⟨r', step, next⟩ := h.step announces (belong item (by simp))
    have moved : deliverStep sha s (some r) item =
        (some r', some (expectedResult s.info.totalChunks seen item)) := by
      simp only [deliverStep, Option.bind_some, step]
    obtain ⟨results, final⟩ := ih next fun item' later => belong item' (by simp [later])
    constructor
    · rw [outputs, moved, expectedResults, List.map_cons, results]
    · rw [run, moved]
      exact final

theorem mem_foldl_occurred {items : List Item} {i : UInt32} {seen : List UInt32}
    (known : i ∈ seen ∨ .chunk i ∈ items) : i ∈ items.foldl occurred seen := by
  induction items generalizing seen with
  | nil => simpa using known
  | cons item rest ih =>
    apply ih
    rcases known with old | member
    · cases item with
      | chunk j => exact Or.inl (List.mem_cons_of_mem j old)
      | noise wire => exact Or.inl old
    · rcases List.mem_cons.mp member with rfl | later
      · exact Or.inl List.mem_cons_self
      · exact Or.inr later

theorem OpensFiles.opens_iff {opens : Bytes → Bool} (posix : OpensFiles opens) {name : Bytes}
    (valid : FileSender.ValidName name) :
    opens name = true ↔ name ≠ [dot] ∧ name.length ≤ nameMax := by
  constructor
  · intro granted
    constructor
    · rintro rfl
      exact absurd (posix.directory.symm.trans granted) Bool.false_ne_true
    · by_contra long
      exact absurd ((posix.long name (Nat.not_le.mp long)).symm.trans granted) Bool.false_ne_true
  · intro allowed
    exact posix.other name valid allowed.1 allowed.2

/-- For every non-empty file, valid name and chunk size, with few enough chunks: the sender
opens and announces the file, and for every sequence of its chunks in which all occur, mixed
with octets that are rejected, the file is delivered exactly if its name is not `.` and is short
enough for a file. -/
theorem file_delivered_iff (sha : Sha256) {opens : Bytes → Bool} (posix : OpensFiles opens)
    (source name : Bytes) (chunkSize mode mtimeS : UInt32)
    (nonempty : source ≠ []) (valid : FileSender.ValidName name)
    (sizes : slFileChunkMin ≤ chunkSize ∧ chunkSize ≤ slFileChunkMax)
    (few : blockCount source.length chunkSize.toNat ≤ 2 ^ 32 - 8) :
    ∃ s metaWire,
      FileSender.openSource sha { source, wireName := name, chunkSize } mode mtimeS = some s ∧
      s.sendMeta = some metaWire ∧ s.source = source ∧
      ∀ items, (∀ wire, .noise wire ∈ items → Rejected sha s.info wire) →
        (∀ i : UInt32, .chunk i ∈ items ↔ i.toNat < blockCount source.length chunkSize.toNat) →
        (Delivered sha s metaWire (opens name) items ↔ name ≠ [dot] ∧ name.length ≤ nameMax) := by
  obtain ⟨s, opened, sameSource, sameName, sameSize, announces⟩ :=
    FileSender.openSource_announces sha (s := { source, wireName := name, chunkSize }) nonempty valid
      sizes (Nat.lt_of_le_of_lt few (by decide)) mode mtimeS
  dsimp only at sameSource sameName sameSize
  obtain ⟨metaWire, sent, unpacked⟩ := announces.sendMeta
  refine ⟨s, metaWire, opened, sent, sameSource, fun items noise chunks => ?_⟩
  have count := announces.chunks
  rw [sameSource, sameSize] at count
  have fits : FileReceiver.canTruncate s.info = true := by
    apply announces.canTruncate
    rw [sameSource, sameSize]
    exact Nat.lt_of_le_of_lt few (by decide)
  have started := FileReceiver.onMeta_unpacked (r := .initial) rfl unpacked fits (opens name)
  rw [← posix.opens_iff valid]
  have belong : ∀ item ∈ items, Belongs sha s item := by
    intro item member
    cases item with
    | chunk i =>
      have number := (chunks i).mp member
      rw [← count] at number
      exact number
    | noise wire => exact noise wire member
  cases granted : opens name with
  | false =>
    rw [granted] at started
    refine iff_of_false (fun delivered => ?_) Bool.false_ne_true
    have accepted := delivered.accepted
    rw [started] at accepted
    cases accepted
  | true =>
    rw [granted, if_pos rfl] at started
    refine iff_of_true ?_ rfl
    obtain ⟨results, r', final, received⟩ :=
      (receiving_start announces (by rw [count]; exact few)).sequence announces belong
    refine ⟨by rw [started], by rw [started]; exact results, ?_⟩
    rw [started, final, Option.map_some, received.same announces fun i hi => ?_]
    apply mem_foldl_occurred
    right
    rw [chunks, ← count]
    exact hi

/-- A directory that opens everything else. -/
def plainOpens (name : Bytes) : Bool := name != [dot] && name.length ≤ nameMax

theorem plainOpens_posix : OpensFiles plainOpens where
  directory := by decide
  long name long := by simp [plainOpens, Nat.not_le.mpr long]
  other name _ notDot short := by simp [plainOpens, notDot, short]

/-- A digest that tells only the length. -/
def toyDigest : Sha256 := fun content =>
  ⟨List.replicate 32 (UInt8.ofNat content.length), List.length_replicate⟩

/-- A file of two chunks, the second of a single octet. -/
def toySource : Bytes := List.replicate 1025 7

theorem toySource_chunks : blockCount toySource.length (1024 : UInt32).toNat = 2 := by
  have length : toySource.length = 1025 := List.length_replicate
  rw [length]
  rfl

/-- Rejected octets, the second chunk, the first one, and the second once more. -/
def toyItems : List Item := [.noise [], .chunk 1, .chunk 0, .chunk 1]

theorem toyItems_chunks (i : UInt32) :
    .chunk i ∈ toyItems ↔ i.toNat < blockCount toySource.length (1024 : UInt32).toNat := by
  have member : .chunk i ∈ toyItems ↔ i = 1 ∨ i = 0 := by
    simp only [toyItems, List.mem_cons, Item.chunk.injEq, List.not_mem_nil, reduceCtorEq]
    tauto
  have numbers : i = 1 ∨ i = 0 ↔ i.toNat = 1 ∨ i.toNat = 0 :=
    or_congr UInt32.toNat_inj.symm UInt32.toNat_inj.symm
  rw [toySource_chunks, member, numbers]
  omega

theorem toy_file_delivered :
    ∃ s metaWire,
      FileSender.openSource toyDigest { source := toySource, wireName := [0x61], chunkSize := 1024 }
        0x1A4 0 = some s ∧
      s.sendMeta = some metaWire ∧ Delivered toyDigest s metaWire (plainOpens [0x61]) toyItems := by
  have nonempty : toySource ≠ [] := List.ne_nil_of_length_pos (by
    rw [toySource, List.length_replicate]
    decide)
  obtain ⟨s, metaWire, opened, sent, _, delivers⟩ :=
    file_delivered_iff toyDigest plainOpens_posix toySource [0x61] 1024 0x1A4 0 nonempty
      ⟨by decide, by decide, by decide⟩ ⟨by decide, by decide⟩ (by rw [toySource_chunks]; decide)
  refine ⟨s, metaWire, opened, sent, (delivers toyItems (fun wire member => ?_)
    toyItems_chunks).mpr (by decide)⟩
  obtain rfl : wire = [] := by simpa [toyItems] using member
  rfl

/-- What the receiver answers to the metadata of a file of one octet under this name. -/
def answerTo (name : Bytes) : Option FileRxResult :=
  ((FileSender.openSource toyDigest { source := [7], wireName := name, chunkSize := 1024 }
    0x1A4 0).bind FileSender.sendMeta).map
    (fun metaWire => (FileReceiver.initial.onMeta metaWire (plainOpens name)).2)

/-- Transfers under the name `.` and under one of 256 octets are announced by the sender and refused
by the receiver. -/
theorem dot_not_delivered :
    OpensFiles plainOpens ∧ answerTo [dot] = some .ioError ∧
      answerTo (List.replicate 256 0x61) = some .ioError :=
  ⟨plainOpens_posix, by decide +kernel, by decide +kernel⟩

end SecureLink.Guarantees.TransferDelivery
