import SecureLink.Library.Runs
import SecureLink.Source.Streams.StreamFrame
import SecureLink.Source.Wire.Framing

/-!
# Frames come back as they were encoded

Two formats put frames one behind the other: the frames of a connection, which the parser
reads off a byte stream in whatever pieces it arrives, and the stream frames inside one
record. Neither decoder says anything of a frame that bytes behind it could change.
-/
namespace SecureLink.Guarantees.FrameDecoding
open Library.BigEndian Library.Incremental Library.Runs Source.Wire Source.Streams

/-! ## The frame parser -/

inductive ParserCall
  | feed (data : Bytes)
  | next (out : Frame)

def step (p : FrameParser) : ParserCall → FrameParser × Option ParseStatus
  | .feed data => (p.feed data, none)
  | .next out => ((p.next out).1, some (p.next out).2.2)

/-- Whatever is called from here on, every call of `next` reports `e` and changes nothing. -/
def Refuses (e : ParseStatus) (p : FrameParser) : Prop :=
  ∀ calls, AllSteps step (fun p call => ∀ out, call = .next out → p.next out = (p, out, e)) p calls

structure AnyFragmentation (maxFrame : Nat) : Prop where
  decoded : ∀ frames : List Frame, (∀ f ∈ frames, FrameParser.Sendable maxFrame f) →
    ∀ chunks : List Bytes,
      chunks.flatten = frames.flatMap (fun f => FrameParser.encode f.type f.flags f.payload) →
    ∀ rounds > chunks.flatten.length,
      FrameParser.parse rounds { maxFrame } chunks = some { items := frames, left := { maxFrame } }
  sameVerdict : ∀ first second : List Bytes, first.flatten = second.flatten →
    ∀ rounds > first.flatten.length, ∃ d d',
      FrameParser.parse rounds { maxFrame } first = some d ∧
      FrameParser.parse rounds { maxFrame } second = some d' ∧
      d.items = d'.items ∧ d.error = d'.error ∧
      ∀ e, d.error = some e → e ≠ .kNeedMore ∧ e ≠ .kReady ∧ Refuses e d.left
  untouched : ∀ (p : FrameParser) (out : Frame), (p.next out).2.2 ≠ .kReady →
    (p.next out).1 = p ∧ (p.next out).2.1 = out

theorem refuses_of_poll {p : FrameParser} {e : ParseStatus} (front : p.poll = .bad e) :
    Refuses e p := by
  have refused : ∀ p : FrameParser, p.poll = .bad e → ∀ out, p.next out = (p, out, e) := by
    intro p front out
    obtain ⟨long, refused⟩ := FrameParser.poll_bad front
    rw [FrameParser.next_long long, refused, Option.elim_some]
  intro calls
  refine allSteps_of_invariant (fun p => p.poll = .bad e) ?_ ?_ calls front
  · intro p call front
    cases call with
    | feed data => exact FrameParser.stable.bad p e data front
    | next out =>
      rw [step, refused p front out]
      exact front
  · intro p call front out _
    exact refused p front out

/-- Frames and verdict do not depend on how the bytes are cut. -/
theorem parser_any_fragmentation (maxFrame : Nat) : AnyFragmentation maxFrame where
  decoded frames sendable chunks encoded rounds enough := by
    have fed : ({ maxFrame } : FrameParser).feed chunks.flatten = ⟨chunks.flatten, maxFrame⟩ := rfl
    obtain ⟨d, unread, parsed, all, -, clean⟩ := drainChunks_eq FrameParser.stable
      FrameParser.shrinks FrameParser.buffered_feed chunks (FrameParser.poll_empty maxFrame) enough
    have items := drainAll_encoded FrameParser.shrinks (fun bytes => ⟨bytes, maxFrame⟩)
      (fun f member => FrameParser.poll_encode (sendable f member)) []
    rw [List.append_nil, drainAll_more (FrameParser.poll_empty maxFrame)] at items
    rw [fed, encoded, items] at all
    obtain ⟨sameItems, none, left⟩ : frames = d.items ∧ none = d.error ∧
        ({ maxFrame } : FrameParser) = d.left.feed unread := by
      simpa [Drained.after] using all
    rw [clean none.symm, FrameParser.stable.push_nil] at left
    rw [FrameParser.parse, parsed, sameItems, left]
    obtain ⟨_, _, _⟩ := d
    cases none
    rfl
  sameVerdict first second same rounds enough := by
    obtain ⟨d, d', parsed, parsed', items, error, ends⟩ := drainChunks_pieces FrameParser.stable
      FrameParser.shrinks FrameParser.buffered_feed same (FrameParser.poll_empty maxFrame) enough
    refine ⟨d, d', parsed, parsed', items, error, ?_⟩
    intro e stopped
    rw [stopped, Option.elim_some] at ends
    obtain ⟨notMore, notReady⟩ := FrameParser.refusal_error (FrameParser.poll_bad ends).2
    exact ⟨notMore, notReady, refuses_of_poll ends⟩
  untouched _ _ := FrameParser.next_untouched

example : FrameParser.parse 32 {}
    [[0, 0, 0, 2, 4], [1, 0, 0, 7], [8, 0, 0, 0, 0, 7, 0, 0, 0], [0, 0, 0, 0, 9, 0, 0, 0]] = some
      { items := [⟨.kData, 1, [7, 8]⟩, ⟨.kPing, 0, []⟩]
        error := some .kErrorBadType
        left := { buf := [0, 0, 0, 0, 9, 0, 0, 0] } } := by
  decide

/-! ## Stream frames -/

structure CanonicalFrames : Prop where
  packed : ∀ f : SlStreamFrame, f.Valid → ∀ outCap ≥ f.wire.length,
    slStreamFramePack f outCap = some f.wire
  recovered : ∀ frames : List SlStreamFrame, (∀ f ∈ frames, f.Valid) →
    ∀ rounds > (frames.flatMap SlStreamFrame.wire).length,
      unpackStreamFrames rounds (frames.flatMap SlStreamFrame.wire) =
        some { items := frames, left := [] }
  canonical : ∀ bytes f consumed, slStreamFrameUnpack bytes = some (f, consumed) →
    consumed ≤ bytes.length ∧
      ∀ outCap ≥ consumed, slStreamFramePack f outCap = some (bytes.take consumed)

/-- Packed frames come back, and what is unpacked packs to the same bytes. -/
theorem stream_frames_canonical : CanonicalFrames where
  packed f valid outCap room := slStreamFramePack_eq valid.2 room
  recovered frames valid rounds enough := unpackStreamFrames_wire valid enough
  canonical bytes f consumed accepted := by
    obtain ⟨valid, fits, wire⟩ := slStreamFrameUnpack_some accepted
    refine ⟨fits, fun outCap room => ?_⟩
    rw [← wire]
    apply slStreamFramePack_eq valid.2
    rw [wire, List.length_take]
    omega

end SecureLink.Guarantees.FrameDecoding
