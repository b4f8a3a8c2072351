import SecureLink.Source.Record.RecvBuf

/-!
# Records out of a byte stream

The receive buffer yields the records of the stream it is pushed, whatever the chunks: after
every round of taking it holds less than one record, so the next chunk fits.
-/
namespace SecureLink.Guarantees.RecordReassembly
open Library.BigEndian Library.Incremental Source.Record

/-- The loop yields the records of the stream. It ends waiting, with what is not consumed in the
buffer, or by a refused call with the malformed header in front. -/
structure Reassembled (stream : Bytes) (r : Received) : Prop where
  records : r.records = (cut stream).items
  stop : r.stop = if (cut stream).error = none then .waiting else .takeFailed
  buffered : (cut stream).error = none → r.rb.buf = (cut stream).left
  malformed : (cut stream).error ≠ none →
    slRecordHeaderLen ≤ r.rb.buf.length ∧ slRecordPeekLen r.rb.buf = none ∧
    ∃ unread, r.rb.buf ++ unread = (cut stream).left

/-- Failed calls change nothing. -/
structure FailuresInert : Prop where
  push : ∀ rb data, (slRecvBufPush rb data).2 = -1 → (slRecvBufPush rb data).1 = rb
  take : ∀ rb outCap, (slRecvBufTake rb outCap).2.1 = -1 →
    (slRecvBufTake rb outCap).1 = rb ∧ (slRecvBufTake rb outCap).2.2 = none

/-- However a stream is cut, its records are yielded, in a buffer with room for one and a piece. -/
theorem any_chunking_reassembles {stream : Bytes} {chunks : List Bytes} {m largest cap outCap : Nat}
    {rb : SlRecvBuf} (pieces : chunks.flatten = stream) (small : ∀ chunk ∈ chunks, chunk.length ≤ m)
    (header : slRecordHeaderLen ≤ largest) (announces : AnnouncesAtMost largest stream)
    (space : m + largest ≤ cap) (room : largest ≤ outCap)
    (opened : slRecvBufInit cap true = some rb) :
    (∀ rounds > stream.length, ∃ r, receive outCap rounds rb chunks = some r ∧
      Reassembled stream r) ∧ FailuresInert := by
  have empty : rb.cap = cap ∧ rb.buf = [] := by
    simp only [slRecvBufInit, Option.ite_none_left_eq_some] at opened
    obtain ⟨-, -, opened⟩ := opened
    cases opened
    exact ⟨rfl, rfl⟩
  refine ⟨fun rounds enough => ?_, ?_⟩
  · have waiting : frontRecord rb.buf = .more := by
      rw [empty.2]
      rfl
    have all : rb.buf ++ chunks.flatten = stream := by rw [empty.2, pieces, List.nil_append]
    obtain ⟨d, unread, drained, whole, ends, clean⟩ := drainChunks_eq frontRecord_stable
      frontRecord_shrinks (fun s more => by simp) chunks waiting (all ▸ enough)
    obtain ⟨fits, received⟩ := receive_eq header room small rb (empty.1 ▸ space) (all ▸ announces)
      waiting drained
    rw [all] at whole
    have cutting : cut stream = { d with left := d.left ++ unread } := whole
    refine ⟨_, received, ?_, ?_, ?_, ?_⟩
    · rw [cutting]
    · rw [cutting, stopOf]
    · intro wellFormed
      rw [cutting] at wellFormed ⊢
      rw [clean wellFormed, List.append_nil]
    · intro some
      rw [cutting] at some
      obtain ⟨e, error⟩ := Option.ne_none_iff_exists'.mp some
      rw [error] at ends
      obtain ⟨long, peeked⟩ := frontRecord_refused ends
      exact ⟨long, peeked, unread, by rw [cutting]⟩
  · exact ⟨fun _ _ => slRecvBufPush_failed, fun _ _ failed => slRecvBufTake_failed (by omega)⟩

/-- The shortest record. -/
def shortest : Bytes := [23, 3, 1, 0, 16] ++ List.replicate 16 7

/-- A record in two chunks, the second of which goes on with a header of another version. -/
def stream : Bytes := shortest ++ [23, 3, 2, 0, 16]

theorem wrong_version_refused :
    ∃ rb r, slRecvBufInit (20 + (slRecordHeaderLen + slRecordMaxCiphertext)) true = some rb ∧
      receive (slRecordHeaderLen + slRecordMaxCiphertext) 64 rb [stream.take 9, stream.drop 9] =
        some r ∧
      r.records = [shortest] ∧ r.stop = .takeFailed ∧ r.rb.buf.length = 5 := by
  obtain ⟨r, received, done⟩ := (any_chunking_reassembles (m := 20)
    (show [stream.take 9, stream.drop 9].flatten = stream by decide) (by decide)
    (Nat.le_add_right _ _) (announcesAtMost_max stream) (Nat.le_refl _) (Nat.le_refl _) rfl).1 64
    (by decide)
  have malformed : (cut stream).error ≠ none := by decide
  obtain ⟨long, -, unread, left⟩ := done.malformed malformed
  have whole : (cut stream).left.length = 5 := by decide
  refine ⟨_, r, rfl, received, done.records.trans (by decide), done.stop.trans (by decide), ?_⟩
  rw [← left, List.length_append] at whole
  unfold slRecordHeaderLen at long
  omega

end SecureLink.Guarantees.RecordReassembly
