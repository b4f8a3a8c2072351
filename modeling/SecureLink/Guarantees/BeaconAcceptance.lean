import SecureLink.Guarantees.RecordStream
import SecureLink.Guarantees.ReplayWindow
import SecureLink.Source.Beacon.BeaconServer

/-!
# Acceptance of beacons

Over every run of a server the replay guard of a client represents exactly the sequence
numbers accepted from that client, so none is accepted twice. Under an ideal AEAD an
accepted wire is one that was sealed under the server's key with the header it shows.
Every other wire at most counts a refusal.
-/
namespace SecureLink.Guarantees.BeaconAcceptance
open Library.BigEndian Library.Runs Source.Record Source.Beacon Source.Beacon.BeaconServer
open RecordStream ReplayWindow

/-- A call of `on_beacon`, with what the clocks read during it. -/
structure BeaconArrival where
  wire : Bytes
  nowWall : UInt64
  nowMono : UInt64

def BeaconArrival.header (i : BeaconArrival) : BeaconHeader := slBeaconUnpackHeader i.wire

section Run
variable (A : Aead)

/-- One call; the answer is whether it returned `kAccepted`. -/
def arrive (s : BeaconServer) (i : BeaconArrival) : BeaconServer × Bool :=
  let result := s.onBeacon A i.wire i.nowWall i.nowMono
  (result.1, result.2 == .accepted)

/-- The calls of a run on a new server that returned `kAccepted`. -/
def acceptedArrivals (cfg : BeaconServerConfig) (arrivals : List BeaconArrival) : List BeaconArrival :=
  accepted (arrive A) { cfg } arrivals

end Run

/-- The sequence numbers a list of calls shows for one client. -/
def sequencesOf (id : UInt64) (arrivals : List BeaconArrival) : List UInt64 :=
  (arrivals.filter fun i => i.header.clientId = id).map fun i => i.header.sequence

/-- The wire was sealed under the server's key, and whichever beacon was sealed to it had the
header fields it shows. -/
def SealedAs (A : Aead) (calls : List Sealed) (cfg : BeaconServerConfig) (wire : Bytes) : Prop :=
  ∃ call ∈ calls, call.key = cfg.key.1 ∧ call.aad = slBeaconPackHeader (slBeaconUnpackHeader wire) ∧
    wire = call.aad ++ call.ct ++ call.tag ∧
    ∀ iv b seq sent, slBeaconSeal A cfg.key iv b seq = some (sent, call) →
      sent = wire ∧ b.toBeaconHeader = slBeaconUnpackHeader wire

/-- Every client known before has the same window, times, counters of success and liveness. -/
def KeepsKnown (s s' : BeaconServer) : Prop :=
  ∀ id cs, s.clients.lookup id = some cs →
    ∃ cs', s'.clients.lookup id = some cs' ∧ progress cs' = progress cs

variable {A : Aead}

theorem keepsKnown_store {s : BeaconServer} {id : UInt64} {cs : ClientState}
    (same : progress cs = progress (s.client id)) : KeepsKnown s (s.store id cs) := by
  intro id' before known
  rw [lookup_store]
  split
  next here =>
    subst here
    exact ⟨cs, rfl, same.trans (progress_client known)⟩
  next => exact ⟨before, known, rfl⟩

theorem arrive_refused {s : BeaconServer} {i : BeaconArrival} (refused : (arrive A s i).2 = false) :
    KeepsKnown s (arrive A s i).1 := by
  simp only [arrive] at refused ⊢
  rcases s.onBeacon_cases A i.wire i.nowWall i.nowMono with
    same | ⟨cs, stored, same, _⟩ | ⟨opened, _, _, stored⟩
  · rw [same]
    exact fun id cs known => ⟨cs, known, rfl⟩
  · rw [stored]
    exact keepsKnown_store same
  · rw [stored] at refused
    cases refused

/-- The guard of every client represents what was accepted from it. -/
def Represented (s : BeaconServer) (log : List BeaconArrival) : Prop :=
  ∀ id, Records (s.client id).replay (sequencesOf id log)

theorem sequencesOf_append (id : UInt64) (log : List BeaconArrival) (i : BeaconArrival) :
    sequencesOf id (log ++ [i]) =
      if id = i.header.clientId then sequencesOf id log ++ [i.header.sequence]
      else sequencesOf id log := by
  unfold sequencesOf
  rw [List.filter_append, List.map_append]
  split
  next same => simp [same]
  next different => simp [Ne.symm different]

theorem Represented.arrive {s : BeaconServer} {log : List BeaconArrival} (h : Represented s log)
    (i : BeaconArrival) :
    Represented (arrive A s i).1 (if (arrive A s i).2 then log ++ [i] else log) := by
  unfold BeaconAcceptance.arrive
  rcases s.onBeacon_cases A i.wire i.nowWall i.nowMono with
    same | ⟨cs, stored, same, refused⟩ | ⟨opened, auth, fresh, stored⟩
  · rw [same]
    exact h
  · have answer : ((s.onBeacon A i.wire i.nowWall i.nowMono).2 == BeaconResult.accepted) = false :=
      beq_eq_false_iff_ne.mpr refused
    simp only [stored, answer]
    intro id
    rw [replay_store]
    split
    next here =>
      have kept : cs.replay = (s.client (slBeaconUnpackHeader i.wire).clientId).replay :=
        congrArg Progress.replay same
      rw [kept, here]
      exact h _
    next => exact h id
  · rw [stored]
    have number : opened.sequence = i.header.sequence :=
      congrArg BeaconHeader.sequence (slBeaconOpen_some auth).1
    intro id
    simp only [beq_self_eq_true, if_true]
    rw [replay_store, sequencesOf_append, BeaconArrival.header]
    split
    next here =>
      have step := (h (slBeaconUnpackHeader i.wire).clientId).step opened.sequence
      rw [fresh, if_pos rfl, number] at step
      rw [number, here]
      exact step
    next => exact h id

theorem represented_run (A : Aead) (cfg : BeaconServerConfig) (arrivals : List BeaconArrival) :
    Represented (run (arrive A) { cfg } arrivals) (acceptedArrivals A cfg arrivals) := by
  have kept : Represented (run (arrive A) { cfg } arrivals)
      ([] ++ accepted (arrive A) { cfg } arrivals) :=
    run_accepted_invariant Represented (fun _ _ i h => h.arrive i) arrivals (fun _ => records_fresh)
  exact kept

theorem arrive_cfg (A : Aead) (s : BeaconServer) (i : BeaconArrival) :
    (arrive A s i).1.cfg = s.cfg := by
  unfold arrive
  rcases s.onBeacon_cases A i.wire i.nowWall i.nowMono with
    same | ⟨cs, stored, _⟩ | ⟨opened, _, _, stored⟩
  · rw [same]
  · rw [stored]
    rfl
  · rw [stored]
    rfl

theorem arrive_accepted {calls : List Sealed} (ideal : IdealOn A calls) {s : BeaconServer}
    {i : BeaconArrival} (ok : (arrive A s i).2 = true) : SealedAs A calls s.cfg i.wire := by
  simp only [arrive, beq_iff_eq] at ok
  rcases s.onBeacon_cases A i.wire i.nowWall i.nowMono with
    same | ⟨_, _, _, refused⟩ | ⟨opened, auth, _, _⟩
  · rw [same] at ok
    cases ok
  · exact absurd ok refused
  · obtain ⟨_, ct, tag, pt, aeadOpened, wire, _⟩ := slBeaconOpen_some auth
    have logged := (ideal _ _ _ pt.1 ct tag).mp (congrArg (Option.map Subtype.val) aeadOpened)
    refine ⟨_, logged, rfl, rfl, wire, ?_⟩
    intro iv b seq sent made
    obtain ⟨_, header, bytes⟩ := slBeaconSeal_some made
    exact ⟨bytes.trans wire.symm, (slBeaconPackHeader_injective header).symm⟩

theorem accepted_sealed {calls : List Sealed} (ideal : IdealOn A calls) {s : BeaconServer}
    (arrivals : List BeaconArrival) :
    ∀ i ∈ accepted (arrive A) s arrivals, SealedAs A calls s.cfg i.wire := by
  induction arrivals generalizing s with
  | nil => simp [accepted]
  | cons first rest ih =>
    have later := ih (s := (arrive A s first).1)
    rw [arrive_cfg] at later
    intro i member
    unfold accepted at member
    split at member
    next ok =>
      rcases List.mem_cons.mp member with rfl | behind
      · exact arrive_accepted ideal ok
      · exact later i behind
    next => exact later i member

/-- Whatever wires arrive at a server and whatever its clocks read, with an AEAD that opens
exactly what was sealed: no sequence number of a client is accepted twice, an accepted wire
was sealed under the server's key with its header, and a call that does not accept changes
no client known before. -/
theorem beacons_accepted_at_most_once (A : Aead) (calls : List Sealed) (ideal : IdealOn A calls)
    (cfg : BeaconServerConfig) (arrivals : List BeaconArrival) :
    (∀ id, (sequencesOf id (acceptedArrivals A cfg arrivals)).Nodup) ∧
    (∀ i ∈ acceptedArrivals A cfg arrivals, SealedAs A calls cfg i.wire) ∧
    AllSteps (arrive A) (fun s i => (arrive A s i).2 = false → KeepsKnown s (arrive A s i).1)
      { cfg } arrivals := by
  refine ⟨fun id => (represented_run A cfg arrivals id).nodup, accepted_sealed ideal arrivals, ?_⟩
  have all : AllSteps (arrive A) (fun _ _ => True) ({ cfg } : BeaconServer) arrivals :=
    AllSteps.of_forall (fun _ _ => trivial) _
  exact all.mono fun s i _ => arrive_refused

def toyServerConfig : BeaconServerConfig where
  key := toyRecordKey
  staticIv := toyStaticIv

def toyBeacon : SlBeacon where
  clientId := 100
  sequence := 1
  timestampMs := 5000
  intervalMs := 1000
  payloadLen := 2
  flags := 0
  payload := [7, 8]

/-- The toy beacon on the wire, and the AEAD call behind it. -/
def toySealed : List (Bytes × Sealed) :=
  (slBeaconSeal (toyAead []) toyRecordKey toyStaticIv toyBeacon 1).toList

/-- The beacon arrives, then arrives again, then with a forged client id. -/
def toyArrivals : List BeaconArrival :=
  let wires := toySealed.map Prod.fst
  (wires ++ wires ++ wires.map (·.set 7 101)).map
    fun wire => { wire, nowWall := 5200, nowMono := 17 }

theorem beacons_accepted_at_most_once_toy :
    outputs (arrive (toyAead (toySealed.map Prod.snd))) { cfg := toyServerConfig } toyArrivals =
      [true, false, false] ∧
    (sequencesOf 100 (acceptedArrivals (toyAead (toySealed.map Prod.snd)) toyServerConfig
      toyArrivals)).Nodup :=
  ⟨by decide +kernel, (beacons_accepted_at_most_once (toyAead (toySealed.map Prod.snd))
    (toySealed.map Prod.snd) (toyAead_ideal (by decide +kernel)) toyServerConfig toyArrivals).1 100⟩

end SecureLink.Guarantees.BeaconAcceptance
