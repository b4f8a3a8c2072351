import SecureLink.Library.Table
import SecureLink.Source.Beacon.Beacon
import SecureLink.Source.Record.ReplayGuard

/-!
# Beacon server

src/beacon_server.cpp:11-86, each locked section as one step; the clocks are arguments. The scan
of `reap_stale` takes the reading it was preceded by. `snapshot` is a look-up in the table.
-/
namespace SecureLink.Source.Beacon
open Library.BigEndian Library.Table Record

/-- `constants::REPLAY_WINDOW_SIZE`, the default of the template. -/
def replayWindow : Window where
  size := 1024
  atLeast := by decide
  powerOfTwo := by decide

structure BeaconServerConfig where
  livenessTimeoutMs : UInt32 := 15000
  maxSkewMs : UInt32 := 30000
  key : FixedBytes slAeadKeyLen
  staticIv : FixedBytes slAeadIvLen

structure ClientState where
  clientId : UInt64 := 0
  beaconsReceived : UInt64 := 0
  replaysRejected : UInt64 := 0
  authFailures : UInt64 := 0
  skewRejections : UInt64 := 0
  lastSeq : UInt64 := 0
  lastSeenMonoMs : UInt64 := 0
  lastSeenWallMs : UInt64 := 0
  alive : Bool := false
  replay : ReplayGuard replayWindow := {}

inductive BeaconResult where
  | accepted | authFailed | replay | clockSkew | malformed
  deriving DecidableEq, Repr

structure BeaconServer where
  cfg : BeaconServerConfig
  clients : AList (fun _ : UInt64 => ClientState) := ∅

namespace BeaconServer

/-- `clients_[id]`, with the id filled in where it is still zero. -/
def client (s : BeaconServer) (id : UInt64) : ClientState :=
  let cs := (s.clients.lookup id).getD {}
  if cs.clientId = 0 then { cs with clientId := id } else cs

def store (s : BeaconServer) (id : UInt64) (cs : ClientState) : BeaconServer :=
  { s with clients := s.clients.insert id cs }

def skewOf (timestampMs nowWall : UInt64) : UInt64 :=
  if timestampMs > nowWall then timestampMs - nowWall else nowWall - timestampMs

def onBeacon (A : Aead) (s : BeaconServer) (wire : Bytes) (nowWall nowMono : UInt64) :
    BeaconServer × BeaconResult :=
  if wire.length < slBeaconHeaderLen + slAeadTagLen then (s, .malformed)
  else
    let peek := slBeaconUnpackHeader wire
    if !slBeaconValidate peek then (s, .malformed)
    else
      let cs := s.client peek.clientId
      if !cs.replay.wouldAccept peek.sequence then
        (s.store peek.clientId { cs with replaysRejected := cs.replaysRejected + 1 }, .replay)
      else
        match slBeaconOpen A s.cfg.key s.cfg.staticIv wire peek.sequence with
        | none =>
          (s.store peek.clientId { cs with authFailures := cs.authFailures + 1 }, .authFailed)
        | some opened =>
          if skewOf opened.timestampMs nowWall > s.cfg.maxSkewMs.toUInt64 then
            (s.store peek.clientId { cs with skewRejections := cs.skewRejections + 1 }, .clockSkew)
          else
            let checked := cs.replay.checkAndUpdate opened.sequence
            if !checked.2 then
              (s.store peek.clientId
                { cs with replay := checked.1, replaysRejected := cs.replaysRejected + 1 }, .replay)
            else
              (s.store peek.clientId
                { cs with
                  replay := checked.1
                  beaconsReceived := cs.beaconsReceived + 1
                  lastSeq := opened.sequence
                  lastSeenMonoMs := nowMono
                  lastSeenWallMs := opened.timestampMs
                  alive := true }, .accepted)

/-- The test of the scan, in 64-bit arithmetic. -/
def stale (cfg : BeaconServerConfig) (now : UInt64) (cs : ClientState) : Bool :=
  cs.alive && now - cs.lastSeenMonoMs > cfg.livenessTimeoutMs.toUInt64

/-- The locked scan of `reap_stale`, and how many clients it marked. -/
def reapScan (s : BeaconServer) (now : UInt64) : BeaconServer × Nat :=
  ({ s with
     clients := mapValues (fun _ cs => if stale s.cfg now cs then { cs with alive := false } else cs)
       s.clients },
    (s.clients.entries.filter fun e => stale s.cfg now e.2).length)

/-- What an accepted beacon changes in the state of its client. -/
structure Progress where
  replay : ReplayGuard replayWindow
  lastSeq : UInt64
  lastSeenMonoMs : UInt64
  lastSeenWallMs : UInt64
  alive : Bool
  beaconsReceived : UInt64

def progress (cs : ClientState) : Progress where
  replay := cs.replay
  lastSeq := cs.lastSeq
  lastSeenMonoMs := cs.lastSeenMonoMs
  lastSeenWallMs := cs.lastSeenWallMs
  alive := cs.alive
  beaconsReceived := cs.beaconsReceived

theorem progress_client {s : BeaconServer} {id : UInt64} {cs : ClientState}
    (known : s.clients.lookup id = some cs) : progress (s.client id) = progress cs := by
  unfold client
  rw [known, Option.getD_some]
  dsimp only
  split <;> rfl

theorem lookup_store (s : BeaconServer) (id id' : UInt64) (cs : ClientState) :
    (s.store id cs).clients.lookup id' = if id' = id then some cs else s.clients.lookup id' := by
  by_cases same : id' = id
  · subst same
    rw [if_pos rfl]
    exact AList.lookup_insert _
  · rw [if_neg same]
    exact AList.lookup_insert_ne same

theorem replay_client (s : BeaconServer) (id : UInt64) :
    (s.client id).replay = ((s.clients.lookup id).getD {}).replay := by
  unfold client
  dsimp only
  split <;> rfl

theorem replay_store (s : BeaconServer) (id id' : UInt64) (cs : ClientState) :
    ((s.store id cs).client id').replay = if id' = id then cs.replay else (s.client id').replay := by
  rw [replay_client, replay_client, lookup_store]
  split <;> rfl

/-- Everything `on_beacon` can do: nothing, count a refusal, or accept. -/
theorem onBeacon_cases (A : Aead) (s : BeaconServer) (wire : Bytes) (nowWall nowMono : UInt64) :
    (s.onBeacon A wire nowWall nowMono = (s, .malformed)) ∨
    (∃ cs, (s.onBeacon A wire nowWall nowMono).1 = s.store (slBeaconUnpackHeader wire).clientId cs ∧
      progress cs = progress (s.client (slBeaconUnpackHeader wire).clientId) ∧
      (s.onBeacon A wire nowWall nowMono).2 ≠ .accepted) ∨
    (∃ opened, slBeaconOpen A s.cfg.key s.cfg.staticIv wire (slBeaconUnpackHeader wire).sequence =
        some opened ∧
      let cs := s.client (slBeaconUnpackHeader wire).clientId
      (cs.replay.checkAndUpdate opened.sequence).2 = true ∧
      s.onBeacon A wire nowWall nowMono =
        (s.store (slBeaconUnpackHeader wire).clientId
          { cs with
            replay := (cs.replay.checkAndUpdate opened.sequence).1
            beaconsReceived := cs.beaconsReceived + 1
            lastSeq := opened.sequence
            lastSeenMonoMs := nowMono
            lastSeenWallMs := opened.timestampMs
            alive := true }, .accepted)) := by
  unfold onBeacon
  by_cases short : wire.length < slBeaconHeaderLen + slAeadTagLen
  · exact Or.inl (by rw [if_pos short])
  · rw [if_neg short]
    cases valid : slBeaconValidate (slBeaconUnpackHeader wire) with
    | false => exact Or.inl (by simp [valid])
    | true =>
      simp only [valid, Bool.not_true, Bool.false_eq_true, if_false]
      refine Or.inr ?_
      cases fresh : (s.client (slBeaconUnpackHeader wire).clientId).replay.wouldAccept
          (slBeaconUnpackHeader wire).sequence with
      | false =>
        simp only [Bool.not_false, if_true]
        exact Or.inl ⟨_, rfl, rfl, by simp⟩
      | true =>
        simp only [Bool.not_true, Bool.false_eq_true, if_false]
        cases auth : slBeaconOpen A s.cfg.key s.cfg.staticIv wire
            (slBeaconUnpackHeader wire).sequence with
        | none => exact Or.inl ⟨_, rfl, rfl, by simp⟩
        | some opened =>
          dsimp only
          by_cases skewed : skewOf opened.timestampMs nowWall > s.cfg.maxSkewMs.toUInt64
          · simp only [if_pos skewed]
            exact Or.inl ⟨_, rfl, rfl, by simp⟩
          · simp only [if_neg skewed]
            -- the second replay check sees the number the first one saw
            have same : opened.sequence = (slBeaconUnpackHeader wire).sequence :=
              congrArg BeaconHeader.sequence (slBeaconOpen_some auth).1
            have again : ((s.client (slBeaconUnpackHeader wire).clientId).replay.checkAndUpdate
                opened.sequence).2 = true := by
              rw [same, ← ReplayGuard.wouldAccept_eq]
              exact fresh
            refine Or.inr ⟨opened, rfl, again, ?_⟩
            simp only [again, Bool.not_true, Bool.false_eq_true, if_false]

theorem not_alive_of_unknown {s : BeaconServer} {id : UInt64} (unknown : s.clients.lookup id = none) :
    (s.client id).alive = false := by
  unfold client
  rw [unknown, Option.getD_none]
  rfl

/-- After `on_beacon` a client is alive through this beacon, or as it was before. -/
theorem onBeacon_alive (A : Aead) (s : BeaconServer) (wire : Bytes) (nowWall nowMono : UInt64)
    {id : UInt64} {cs : ClientState} (alive : cs.alive = true)
    (found : (s.onBeacon A wire nowWall nowMono).1.clients.lookup id = some cs) :
    ((s.onBeacon A wire nowWall nowMono).2 = .accepted ∧ id = (slBeaconUnpackHeader wire).clientId ∧
      cs.lastSeenMonoMs = nowMono) ∨
    (¬ ((s.onBeacon A wire nowWall nowMono).2 = .accepted ∧
        id = (slBeaconUnpackHeader wire).clientId) ∧
      ∃ before, s.clients.lookup id = some before ∧ before.alive = true ∧
        before.lastSeenMonoMs = cs.lastSeenMonoMs) := by
  rcases s.onBeacon_cases A wire nowWall nowMono with
    same | ⟨cs', stored, kept, refused⟩ | ⟨opened, _, _, stored⟩
  · rw [same] at found ⊢
    exact Or.inr ⟨by simp, cs, found, alive, rfl⟩
  · refine Or.inr ⟨fun h => refused h.1, ?_⟩
    rw [stored, lookup_store] at found
    split at found
    next here =>
      cases found
      cases known : s.clients.lookup id with
      | none =>
        have dead : cs.alive = false :=
          (congrArg Progress.alive kept).trans (not_alive_of_unknown (here ▸ known))
        rw [dead] at alive
        cases alive
      | some before =>
        have through : progress cs = progress before := kept.trans (progress_client (here ▸ known))
        exact ⟨before, rfl, (congrArg Progress.alive through).symm.trans alive,
          (congrArg Progress.lastSeenMonoMs through).symm⟩
    next => exact ⟨cs, found, alive, rfl⟩
  · rw [stored] at found ⊢
    simp only [lookup_store] at found
    split at found
    next here =>
      cases found
      exact Or.inl ⟨rfl, here, rfl⟩
    next other => exact Or.inr ⟨fun h => other h.2, cs, found, alive, rfl⟩

/-- `on_beacon` marks no client as dead. -/
theorem onBeacon_keeps_alive (A : Aead) (s : BeaconServer) (wire : Bytes) (nowWall nowMono : UInt64)
    {id : UInt64} {cs cs' : ClientState} (known : s.clients.lookup id = some cs)
    (alive : cs.alive = true)
    (found : (s.onBeacon A wire nowWall nowMono).1.clients.lookup id = some cs') :
    cs'.alive = true := by
  rcases s.onBeacon_cases A wire nowWall nowMono with
    same | ⟨stored, kept, through, _⟩ | ⟨opened, _, _, stored⟩
  · rw [same, known] at found
    cases found
    exact alive
  · rw [kept, lookup_store] at found
    split at found
    next here =>
      cases found
      have same : progress cs' = progress cs := through.trans (progress_client (here ▸ known))
      exact (congrArg Progress.alive same).trans alive
    next =>
      rw [known] at found
      cases found
      exact alive
  · rw [stored] at found
    simp only [lookup_store] at found
    split at found
    · cases found
      rfl
    · rw [known] at found
      cases found
      exact alive

theorem lookup_reapScan (s : BeaconServer) (now id : UInt64) :
    (s.reapScan now).1.clients.lookup id =
      (s.clients.lookup id).map fun cs =>
        if stale s.cfg now cs then { cs with alive := false } else cs :=
  lookup_mapValues _ _ _

end BeaconServer

end SecureLink.Source.Beacon
