import BitCord.Loop.System
import BitCord.Sample

/-!
# The status of the seeds

One connection to a seed serves every community that names it, but the table of seeds has one entry
for a peer, with the community of the first registration. When the connection is lost, the entry
decides which community is announced as disconnected and which one the reconnect loop will join. A
loop is cancelled when another one is started for the same address or a seed is dialled there.

`seed_status_accurate_iff` says when the status is right after each loss. Two communities with one
seed are enough for a wrong one (`shared_seed_status_wrong`).
-/

namespace BitCord

open Lib Lib.Run

def SeedPeerInfo.communityId (seed : SeedPeerInfo) : Option String :=
  seed.joinCommunity.map Prod.snd

/-- The gossip task with the event processor, the dials of seeds and the reconnect loops. -/
structure SeedNode where
  gossip : Gossip
  app : AppState
  /-- The dials of seeds that have not ended. -/
  dials : Dict Nat SeedPeerInfo
  nextDial : Nat
  /-- The entries of `seed_reconnect_cancels` that a dial made, by the text of the address. -/
  senders : Dict String Nat
  /-- The loops that are not cancelled, by the text of the address. -/
  loops : Dict String SeedPeerInfo
  /-- A record of the seed registrations over connections that exist, by community and peer. -/
  registered : List (String × String)

inductive SeedInput where
  /-- The command to dial a seed. -/
  | dial (target : SeedPeerInfo)
  | dialEnded (env : Env) (dial : Nat) (outcome : Outcome)
  /-- Another task made a connection. A loop that is cancelled while it connects is one. -/
  | register (env : Env) (reg : PeerRegistration)
  /-- An address of the node is discovered. -/
  | listen (env : Env) (addr : String)
  /-- The loop for an address reached a node with the key. -/
  | reconnected (env : Env) (addr : String) (nodePk : Key)
  /-- A message is published; the connections to the given peers are lost. -/
  | publish (env : Env) (topic : String) (data : Bytes) (dead : List String)

def GossipAction.event? : GossipAction → Option LoopEvent
  | .emit event => some event
  | _ => none

def GossipAction.loop? : GossipAction → Option SeedPeerInfo
  | .spawn (.reconnect seed) => some seed
  | _ => none

def TaskAction.registration? : TaskAction → Option PeerRegistration
  | .register reg => some reg
  | _ => none

def PeerRegistration.seedOf (reg : PeerRegistration) : List (String × String) :=
  if reg.isSeed then (reg.joinCommunity.map fun j => (j.2, reg.peerId)).toList else []

/-- The events of dials, losses and addresses. -/
def LoopEvent.aboutPeers : LoopEvent → Bool
  | .app (.peerConnected _ _) | .app (.lanPeerConnected _) | .app (.peerDisconnected _) => true
  | .app (.seedPeerConnected _ _) | .app (.seedPeerDisconnected _) => true
  | .app (.communityJoinFailed _ _) | .newListenAddr _ => true
  | _ => false

namespace SeedNode

section

variable (P : Prims) (cfg : LoopConfig) (env : Env)

/-- The end of a turn of the gossip task: its events are processed and its loops run, each with a
sender of its own. -/
def settle (s : SeedNode) (g : Gossip) : SeedNode :=
  let actions := g.actions.getD []
  let started := (actions.filterMap GossipAction.loop?).map fun seed =>
    (cfg.addrText seed.addr, seed)
  { s with
    gossip := g.act []
    app := (actions.filterMap GossipAction.event?).foldl
      (fun app e => app.processLoopEvent P cfg.expand env e) s.app
    senders := s.senders.eraseAll (started.map Prod.fst)
    loops := s.loops.insertAll started }

def takeRegistration (s : SeedNode) (reg : PeerRegistration) : SeedNode :=
  { s.settle P cfg env (s.gossip.register P reg) with registered := s.registered ++ reg.seedOf }

/-- What a dial does when it ends. Its loop runs if the sender of the dial is still stored; if not,
the loop is cancelled when it starts. -/
def takeAction (dial : Nat) (s : SeedNode) : TaskAction → SeedNode
  | .emit event => { s with app := s.app.processLoopEvent P cfg.expand env event }
  | .register reg => s.takeRegistration P cfg env reg
  | .spawn (.reconnect seed) =>
    if s.senders.lookup (cfg.addrText seed.addr) = some dial then
      { s with loops := s.loops.insert (cfg.addrText seed.addr) seed }
    else s
  | _ => s

/-- The peers that a publication drops. -/
def dropped (s : SeedNode) (dead : List String) : List String :=
  s.gossip.network.peers.filter fun p => dead.contains p

def publish (s : SeedNode) (topic : String) (data : Bytes) (dead : List String) : SeedNode :=
  { s.settle P cfg env (s.gossip.handleCommand (s.app.ownPk P) dead (.app (.publish topic data)))
    with registered := s.registered.filter fun e => !(s.dropped dead).contains e.2 }

end

variable (P : Prims) (cfg : LoopConfig)

def step (s : SeedNode) : SeedInput → SeedNode
  | .dial target =>
    { s with
      dials := s.dials.insert s.nextDial target
      nextDial := s.nextDial + 1
      senders := s.senders.insert (cfg.addrText target.addr) s.nextDial
      loops := s.loops.erase (cfg.addrText target.addr) }
  | .dialEnded env dial outcome =>
    match s.dials.lookup dial with
    | none => s
    | some target =>
      ((Task.dial true target).actions P cfg s.app.signingKey s.gossip.ownAddrs outcome).foldl
        (takeAction P cfg env dial) { s with dials := s.dials.erase dial }
  | .register env reg => s.takeRegistration P cfg env reg
  | .listen env addr =>
    s.settle P cfg env (s.gossip.handleCommand (s.app.ownPk P) [] (.addListenAddr addr))
  | .reconnected env addr nodePk =>
    match s.loops.lookup addr with
    | none => s
    | some seed =>
      (((Task.reconnect seed).actions P cfg s.app.signingKey s.gossip.ownAddrs
        (.connected nodePk none)).filterMap TaskAction.registration?).foldl
          (fun s reg => s.takeRegistration P cfg env reg) { s with loops := s.loops.erase addr }
  | .publish env topic data dead => s.publish P cfg env topic data dead

/-- The gossip task when it starts. -/
def start (app : AppState) (ownAddrs : List String) : SeedNode :=
  ⟨⟨⟨[], ∅⟩, ∅, ownAddrs, some []⟩, app, ∅, 0, ∅, ∅, []⟩

def OnlySeed (s : SeedNode) (communityId peer : String) : Prop :=
  (communityId, peer) ∈ s.registered ∧ ∀ q, (communityId, q) ∈ s.registered → q = peer

/-- A loop runs that will join the community. One for an address of the node stops. -/
def Rejoins (s : SeedNode) (communityId : String) : Prop :=
  ∃ addr seed, s.loops.lookup addr = some seed ∧ seed.communityId = some communityId ∧
    cfg.addrText seed.addr ∉ s.gossip.ownAddrs

/-- After a loss each community that had no other seed is disconnected, and a loop will join it. -/
def Accurate (s : SeedNode) : SeedInput → Prop
  | .publish env topic data dead =>
    let after := s.publish P cfg env topic data dead
    ∀ p ∈ s.dropped dead, ∀ c, s.OnlySeed c p →
      c ∉ after.app.seedConnected ∧ after.Rejoins cfg c
  | _ => True

def Listed (s : SeedNode) (peer communityId : String) : Prop :=
  ∃ seed, s.gossip.seedPeers.lookup peer = some seed ∧ seed.communityId = some communityId

/-- The loop that is started for the peer can connect and is not cancelled by one for a peer that is
lost after it. -/
def LoopStays (s : SeedNode) (dead : List String) (peer communityId : String) : Prop :=
  ∃ before after seed, s.dropped dead = before ++ peer :: after ∧
    s.gossip.seedPeers.lookup peer = some seed ∧ seed.communityId = some communityId ∧
    cfg.addrText seed.addr ∉ s.gossip.ownAddrs ∧
    ∀ q ∈ after, ∀ x, s.gossip.seedPeers.lookup q = some x →
      cfg.addrText x.addr ≠ cfg.addrText seed.addr

/-- A loop for the community runs and can connect, and none is started for its address. -/
def LoopRuns (s : SeedNode) (dead : List String) (communityId : String) : Prop :=
  ∃ addr seed, s.loops.lookup addr = some seed ∧ seed.communityId = some communityId ∧
    cfg.addrText seed.addr ∉ s.gossip.ownAddrs ∧
    ∀ q ∈ s.dropped dead, ∀ x, s.gossip.seedPeers.lookup q = some x → cfg.addrText x.addr ≠ addr

def Served (s : SeedNode) : SeedInput → Prop
  | .publish _ _ _ dead => ∀ p ∈ s.dropped dead, ∀ c, s.OnlySeed c p →
      (s.Listed p c ∨ c ∉ s.app.seedConnected) ∧
        (s.LoopStays cfg dead p c ∨ s.LoopRuns cfg dead c)
  | _ => True

end SeedNode

/-! ## The turns of the gossip task -/

variable {e : LoopEvent} (seedPeers : Dict String SeedPeerInfo) (id : String)

namespace Gossip

/-- What the gossip task does about a lost peer. -/
def dropActions (seedPeers : Dict String SeedPeerInfo) (id : String) : List GossipAction :=
  .emit (.app (.peerDisconnected id)) ::
    match seedPeers.lookup id with
    | some seed => (seed.communityId.toList.map fun c => .emit (.app (.seedPeerDisconnected c))) ++
        [.spawn (.reconnect seed)]
    | none => []

theorem dropPeer_snd (acc : Gossip × List GossipAction) (id : String) :
    (dropPeer acc id).2 = acc.2 ++ dropActions acc.1.seedPeers id := by
  unfold dropPeer dropActions SeedPeerInfo.communityId
  cases acc.1.seedPeers.lookup id <;> rfl

theorem ownAddrs_foldl_dropPeer (ids : List String) (acc : Gossip × List GossipAction) :
    (ids.foldl dropPeer acc).1.ownAddrs = acc.1.ownAddrs := by
  induction ids generalizing acc with
  | nil => rfl
  | cons id ids ih => exact ih (dropPeer acc id)

/-- Distinct peers are dropped one by one, each with its own entry. -/
theorem foldl_dropPeer {ids : List String} (hids : ids.Nodup) (acc : Gossip × List GossipAction) :
    (ids.foldl dropPeer acc).1.seedPeers = acc.1.seedPeers.eraseAll ids ∧
      (ids.foldl dropPeer acc).1.network.peers =
        acc.1.network.peers.filter (fun p => decide (p ∉ ids)) ∧
      (ids.foldl dropPeer acc).2 = acc.2 ++ ids.flatMap (dropActions acc.1.seedPeers) := by
  induction ids generalizing acc with
  | nil => simp [Dict.eraseAll]
  | cons id ids ih =>
    obtain ⟨hnot, hrest⟩ := List.nodup_cons.mp hids
    obtain ⟨hseeds, hpeers, hactions⟩ := ih hrest (dropPeer acc id)
    have herase : (dropPeer acc id).1.seedPeers = acc.1.seedPeers.erase id := rfl
    have hfilter : (dropPeer acc id).1.network.peers =
        acc.1.network.peers.filter fun p => decide (p ≠ id) := rfl
    have hsame : ids.flatMap (dropActions (acc.1.seedPeers.erase id)) =
        ids.flatMap (dropActions acc.1.seedPeers) := by
      refine List.flatMap_congr fun q hq => ?_
      have hne : q ≠ id := fun h => hnot (h ▸ hq)
      unfold dropActions
      rw [AList.lookup_erase_ne hne]
    rw [List.foldl_cons, hseeds, hpeers, hactions, herase, hfilter, dropPeer_snd, hsame]
    refine ⟨rfl, ?_, by simp⟩
    rw [List.filter_filter]
    refine List.filter_congr fun p _ => ?_
    simp [Bool.and_comm]

theorem loops_dropActions :
    (dropActions seedPeers id).filterMap GossipAction.loop? = (seedPeers.lookup id).toList := by
  unfold dropActions
  cases seedPeers.lookup id with
  | none => rfl
  | some seed =>
    dsimp only
    cases seed.communityId <;> rfl

theorem events_dropActions :
    (dropActions seedPeers id).filterMap GossipAction.event? =
      .app (.peerDisconnected id) :: (((seedPeers.lookup id).bind
        SeedPeerInfo.communityId).toList.map fun c => .app (.seedPeerDisconnected c)) := by
  unfold dropActions
  cases seedPeers.lookup id with
  | none => rfl
  | some seed =>
    rw [Option.bind_some]
    dsimp only
    cases seed.communityId <;> rfl

end Gossip

namespace AppState

variable {P : Prims} {expand : String → List String} {env : Env} {app : AppState}

theorem processLoopEvent_peerDisconnected (hblocked : app.blocked = false) (id : String) :
    app.processLoopEvent P expand env (.app (.peerDisconnected id)) =
      app.handlePeerDisconnected id := by
  show app.processEvent P env (.peerDisconnected id) = _
  simp [processEvent, hblocked]

theorem processLoopEvent_seedPeerDisconnected (hblocked : app.blocked = false) (c : String) :
    app.processLoopEvent P expand env (.app (.seedPeerDisconnected c)) =
      app.handleSeedPeerDisconnected c := by
  show app.processEvent P env (.seedPeerDisconnected c) = _
  simp [processEvent, hblocked]

/-- What the processor does about a lost peer. -/
theorem process_dropActions (P : Prims) (expand : String → List String) (env : Env)
    (seedPeers : Dict String SeedPeerInfo) (id : String) (hblocked : app.blocked = false) :
    let after := ((Gossip.dropActions seedPeers id).filterMap GossipAction.event?).foldl
      (fun app e => app.processLoopEvent P expand env e) app
    after.blocked = false ∧ ∀ c, c ∈ after.seedConnected ↔ c ∈ app.seedConnected ∧
      ∀ seed, seedPeers.lookup id = some seed → seed.communityId ≠ some c := by
  have hdisconnected : (app.handlePeerDisconnected id).blocked = false := hblocked
  rw [Gossip.events_dropActions, List.foldl_cons, processLoopEvent_peerDisconnected hblocked]
  cases hseed : seedPeers.lookup id with
  | none => exact ⟨hblocked, fun c => by simp [handlePeerDisconnected]⟩
  | some seed =>
    rw [Option.bind_some]
    cases hc : seed.communityId with
    | none => exact ⟨hblocked, fun c => by simp [handlePeerDisconnected, hc]⟩
    | some lost =>
      rw [Option.toList_some, List.map_singleton, List.foldl_cons, List.foldl_nil,
        processLoopEvent_seedPeerDisconnected hdisconnected]
      refine ⟨hblocked, fun c => ?_⟩
      show c ∈ app.seedConnected.filter (fun x => decide (x ≠ lost)) ↔ _
      rw [List.mem_filter, decide_eq_true_iff]
      refine and_congr_right fun _ => ⟨?_, fun h hlost => h seed rfl (hlost ▸ hc)⟩
      rintro hne _ ⟨⟩ heq
      exact hne (Option.some.inj (heq.symm.trans hc))

theorem process_drops (P : Prims) (expand : String → List String) (env : Env)
    (seedPeers : Dict String SeedPeerInfo) (ids : List String) (hblocked : app.blocked = false) :
    let after := ((ids.flatMap (Gossip.dropActions seedPeers)).filterMap
      GossipAction.event?).foldl (fun app e => app.processLoopEvent P expand env e) app
    after.blocked = false ∧ ∀ c, c ∈ after.seedConnected ↔ c ∈ app.seedConnected ∧
      ∀ id ∈ ids, ∀ seed, seedPeers.lookup id = some seed → seed.communityId ≠ some c := by
  induction ids generalizing app with
  | nil => simp [hblocked]
  | cons id ids ih =>
    obtain ⟨hblocked', hfirst⟩ := process_dropActions P expand env seedPeers id hblocked
    obtain ⟨hafter, hrest⟩ := ih hblocked'
    rw [List.flatMap_cons, List.filterMap_append, List.foldl_append]
    refine ⟨hafter, fun c => ?_⟩
    rw [hrest, hfirst, List.forall_mem_cons, and_assoc]

/-- The handlers of these events wait for no lock that the processor holds. -/
theorem blocked_processLoopEvent (P : Prims) (expand : String → List String) (env : Env)
    (he : e.aboutPeers = true) (hblocked : app.blocked = false) :
    (app.processLoopEvent P expand env e).blocked = false := by
  unfold processLoopEvent LoopEvent.toSwarm
  cases e with
  | app event =>
    dsimp only
    cases event with
    | messageReceived | manifestReceived | channelHistoryReceived | communityJoined |
      newListenAddr => cases he
    | _ =>
      simp [processEvent, hblocked, handlePeerConnected, handleLanPeerConnected,
        handlePeerDisconnected, handleSeedPeerConnected, handleSeedPeerDisconnected,
        removeCommunityLocal, emit]
  | newListenAddr addr => simp [processEvent, hblocked, handleNewListenAddr]
  | _ => exact hblocked

theorem blocked_peerEvent (P : Prims) (expand : String → List String) (env : Env)
    (reg : PeerRegistration) (hblocked : app.blocked = false) :
    ((Gossip.peerEvent reg).foldl (fun app e => app.processLoopEvent P expand env e) app).blocked =
      false := by
  have hevent : ∀ e : LoopEvent, e.aboutPeers = true →
      (app.processLoopEvent P expand env e).blocked = false :=
    fun _ he => blocked_processLoopEvent P expand env he hblocked
  unfold Gossip.peerEvent
  cases reg.isSeed <;> cases reg.joinCommunity
  · exact hevent (.app (.lanPeerConnected reg.peerId)) rfl
  · exact hevent (.app (.peerConnected reg.peerId _)) rfl
  · exact hblocked
  · exact hevent (.app (.seedPeerConnected _ reg.peerId)) rfl

theorem blocked_register (expand : String → List String) (env : Env) (g : Gossip)
    (reg : PeerRegistration) (hblocked : app.blocked = false) :
    ((((g.register P reg).actions.getD []).filterMap GossipAction.event?).foldl
      (fun app e => app.processLoopEvent P expand env e) app).blocked = false := by
  have hemit : ∀ events : List LoopEvent,
      (events.map GossipAction.emit).filterMap GossipAction.event? = events := by
    intro events
    rw [List.filterMap_map]
    exact List.filterMap_some
  have hevents : ((((Gossip.peerEvent reg).map .emit).filterMap GossipAction.event?).foldl
      (fun app e => app.processLoopEvent P expand env e) app).blocked = false := by
    rw [hemit]
    exact blocked_peerEvent P expand env reg hblocked
  unfold Gossip.register
  split
  · cases reg.isSeed
    · exact hblocked
    · exact hevents
  · exact hevents

end AppState

/-! ## Runs -/

namespace SeedNode

variable {P : Prims} {cfg : LoopConfig} {s : SeedNode}

/-- The processor runs, and every entry of the table of seeds comes from a registration over a
connection that exists. -/
structure Consistent (s : SeedNode) : Prop where
  running : s.app.blocked = false
  distinct : s.gossip.network.peers.Nodup
  listed : ∀ p c, s.Listed p c → (c, p) ∈ s.registered

theorem consistent_start {app : AppState} (h : app.blocked = false) (ownAddrs : List String) :
    (start app ownAddrs).Consistent where
  running := h
  distinct := List.nodup_nil
  listed := by
    rintro p c ⟨seed, hseed, -⟩
    cases hseed

theorem Consistent.takeRegistration (h : s.Consistent) (env : Env) (reg : PeerRegistration) :
    (s.takeRegistration P cfg env reg).Consistent where
  running := AppState.blocked_register cfg.expand env s.gossip reg h.running
  distinct := by
    show (s.gossip.register P reg).network.peers.Nodup
    unfold Gossip.register
    split
    · exact h.distinct
    · next hnew =>
      refine h.distinct.append (List.nodup_singleton _) (List.disjoint_singleton.mpr fun hmem => ?_)
      exact hnew (List.contains_iff_mem.mpr hmem)
  listed := by
    rintro p c ⟨seed, hseed, hc⟩
    have hregister : (s.gossip.register P reg).seedPeers.lookup p = some seed := hseed
    unfold Gossip.register at hregister
    split at hregister
    · exact List.mem_append_left _ (h.listed p c ⟨seed, hregister, hc⟩)
    · cases hseedOf : reg.isSeed with
      | false =>
        simp only [hseedOf, Bool.false_eq_true, if_false] at hregister
        exact List.mem_append_left _ (h.listed p c ⟨seed, hregister, hc⟩)
      | true =>
        simp only [hseedOf, if_true] at hregister
        have hlookup : (s.gossip.seedPeers.insert reg.peerId ⟨reg.addr, reg.joinCommunity,
            reg.joinCommunityPassword, reg.certFingerprint⟩).lookup p = some seed := hregister
        rw [Dict.lookup_insert_eq] at hlookup
        split at hlookup
        · next hp =>
          -- the entry is that of the registration
          obtain rfl := Option.some.inj hlookup
          obtain ⟨j, hj, rfl⟩ := Option.map_eq_some_iff.mp hc
          refine List.mem_append_right _ ?_
          have hj' : reg.joinCommunity = some j := hj
          simp [PeerRegistration.seedOf, hseedOf, hj', hp]
        · exact List.mem_append_left _ (h.listed p c ⟨seed, hlookup, hc⟩)

theorem nodup_dropped (h : s.Consistent) (dead : List String) : (s.dropped dead).Nodup :=
  h.distinct.filter _

variable (P cfg) in
/-- What a publication with losses leaves. -/
theorem publish_spec (h : s.Consistent) (env : Env) (topic : String) (data : Bytes)
    (dead : List String) :
    (s.publish P cfg env topic data dead).gossip.seedPeers =
        s.gossip.seedPeers.eraseAll (s.dropped dead) ∧
      (s.publish P cfg env topic data dead).gossip.network.peers.Sublist s.gossip.network.peers ∧
      (s.publish P cfg env topic data dead).app.blocked = false ∧
      (∀ c, c ∈ (s.publish P cfg env topic data dead).app.seedConnected ↔
        c ∈ s.app.seedConnected ∧ ∀ p ∈ s.dropped dead, ¬ s.Listed p c) ∧
      (s.publish P cfg env topic data dead).gossip.ownAddrs = s.gossip.ownAddrs ∧
      (s.publish P cfg env topic data dead).loops = s.loops.insertAll
        (((s.dropped dead).filterMap fun p => s.gossip.seedPeers.lookup p).map
          fun seed => (cfg.addrText seed.addr, seed)) := by
  obtain ⟨hseeds, hpeers, hactions⟩ := Gossip.foldl_dropPeer (nodup_dropped h dead) (s.gossip, [])
  rw [List.nil_append] at hactions
  obtain ⟨hblocked, hconnected⟩ :=
    AppState.process_drops P cfg.expand env s.gossip.seedPeers (s.dropped dead) h.running
  rw [← hactions] at hblocked hconnected
  refine ⟨hseeds, ?_, hblocked, fun c => (hconnected c).trans ?_,
    Gossip.ownAddrs_foldl_dropPeer (s.dropped dead) (s.gossip, []), ?_⟩
  · show ((s.dropped dead).foldl Gossip.dropPeer (s.gossip, [])).1.network.peers.Sublist _
    rw [hpeers]
    exact List.filter_sublist
  · refine and_congr_right fun _ => forall₂_congr fun p _ => ?_
    unfold Listed
    simp only [not_exists, not_and]
  · show s.loops.insertAll ((((s.dropped dead).foldl Gossip.dropPeer (s.gossip, [])).2.filterMap
      GossipAction.loop?).map _) = _
    rw [hactions, List.filterMap_flatMap]
    simp only [Gossip.loops_dropActions]
    rw [← List.filterMap_eq_flatMap_toList]

theorem Consistent.publish (h : s.Consistent) (env : Env) (topic : String) (data : Bytes)
    (dead : List String) : (s.publish P cfg env topic data dead).Consistent := by
  obtain ⟨hseeds, hpeers, hblocked, -, -, -⟩ := publish_spec P cfg h env topic data dead
  refine ⟨hblocked, h.distinct.sublist hpeers, ?_⟩
  rintro p c ⟨seed, hseed, hc⟩
  rw [hseeds, Dict.lookup_eraseAll] at hseed
  split at hseed
  · cases hseed
  · next hp =>
    refine List.mem_filter.mpr ⟨h.listed p c ⟨seed, hseed, hc⟩, ?_⟩
    simpa using hp

theorem aboutPeers_of_mem_actions (signingKey : Key) (ownAddrs : List String)
    (target : SeedPeerInfo) (outcome : Outcome)
    (he : TaskAction.emit e ∈ (Task.dial true target).actions P cfg signingKey ownAddrs outcome) :
    e.aboutPeers = true := by
  unfold Task.actions at he
  cases outcome with
  | connected nodePk joinError =>
    simp only [Task.dialed, List.mem_cons, reduceCtorEq, false_or] at he
    split at he
    · split at he
      · obtain rfl := TaskAction.emit.inj (List.mem_singleton.mp he)
        rfl
      · cases he
    · cases he
  | failed =>
    simp only [Task.dialFailed, Bool.not_true, Bool.false_eq_true, if_false] at he
    split at he
    · obtain ⟨c, -, hc⟩ := List.mem_map.mp he
      obtain rfl := TaskAction.emit.inj hc
      rfl
    · rcases List.mem_append.mp he with he | he
      · obtain ⟨c, -, hc⟩ := List.mem_map.mp he
        obtain rfl := TaskAction.emit.inj hc
        rfl
      · cases List.mem_singleton.mp he
  | notFound => cases he
  | answered response => cases he
  | found peers => cases he

theorem Consistent.takeAction (h : s.Consistent) (env : Env) (dial : Nat) {a : TaskAction}
    (ha : ∀ e, a = .emit e → e.aboutPeers = true) : (s.takeAction P cfg env dial a).Consistent := by
  unfold SeedNode.takeAction
  split
  · next event =>
    exact ⟨AppState.blocked_processLoopEvent P cfg.expand env (ha event rfl) h.running, h.distinct,
      h.listed⟩
  · next reg => exact h.takeRegistration env reg
  · split
    · exact ⟨h.running, h.distinct, h.listed⟩
    · exact h
  · exact h

theorem Consistent.takeActions (h : s.Consistent) (env : Env) (dial : Nat)
    {actions : List TaskAction} (hactions : ∀ e, .emit e ∈ actions → e.aboutPeers = true) :
    (actions.foldl (SeedNode.takeAction P cfg env dial) s).Consistent := by
  induction actions generalizing s with
  | nil => exact h
  | cons a actions ih =>
    refine ih (h.takeAction env dial fun e he => ?_) fun e he => ?_
    · exact hactions e (he ▸ List.mem_cons_self)
    · exact hactions e (List.mem_cons_of_mem a he)

theorem Consistent.listen (h : s.Consistent) (env : Env) (addr : String) :
    (s.step P cfg (.listen env addr)).Consistent where
  running := AppState.blocked_processLoopEvent P cfg.expand env (e := .newListenAddr addr) rfl
    h.running
  distinct := h.distinct
  listed := h.listed

theorem Consistent.step (h : s.Consistent) (i : SeedInput) : (s.step P cfg i).Consistent := by
  cases i with
  | dial target => exact ⟨h.running, h.distinct, h.listed⟩
  | dialEnded env dial outcome =>
    unfold SeedNode.step
    dsimp only
    split
    · exact h
    · next target _ =>
      have hdials : ({ s with dials := s.dials.erase dial } : SeedNode).Consistent :=
        ⟨h.running, h.distinct, h.listed⟩
      exact hdials.takeActions env dial fun e he =>
        aboutPeers_of_mem_actions s.app.signingKey s.gossip.ownAddrs target outcome he
  | register env reg => exact h.takeRegistration env reg
  | listen env addr => exact h.listen env addr
  | reconnected env addr nodePk =>
    unfold SeedNode.step
    dsimp only
    split
    · exact h
    · next seed _ =>
      have hloops : ({ s with loops := s.loops.erase addr } : SeedNode).Consistent :=
        ⟨h.running, h.distinct, h.listed⟩
      generalize ({ s with loops := s.loops.erase addr } : SeedNode) = t at hloops
      generalize ((Task.reconnect seed).actions P cfg s.app.signingKey s.gossip.ownAddrs
        (.connected nodePk none)).filterMap TaskAction.registration? = regs
      induction regs generalizing t with
      | nil => exact hloops
      | cons reg regs ih => exact ih _ (hloops.takeRegistration env reg)
  | publish env topic data dead => exact h.publish env topic data dead

/-- The loops for a community that run after a publication with losses. -/
theorem rejoins_publish_iff (h : s.Consistent) (env : Env) (topic : String) (data : Bytes)
    (dead : List String) (c : String) :
    (s.publish P cfg env topic data dead).Rejoins cfg c ↔
      (∃ p, s.LoopStays cfg dead p c) ∨ s.LoopRuns cfg dead c := by
  obtain ⟨-, -, -, -, hown, hloops⟩ := publish_spec P cfg h env topic data dead
  unfold Rejoins
  simp only [hown, hloops, Dict.lookup_insertAll_map_eq_some_iff fun x : SeedPeerInfo =>
    cfg.addrText x.addr]
  constructor
  · rintro ⟨addr, seed, ⟨before, after, hsplit, rfl, hafter⟩ | ⟨hnone, hlookup⟩, hc, hreach⟩
    · obtain ⟨ids, ids', hids, -, hrest⟩ := List.filterMap_eq_append_iff.mp hsplit
      obtain ⟨skipped, p, later, rfl, -, hp, rfl⟩ := List.filterMap_eq_cons_iff.mp hrest
      refine .inl ⟨p, ids ++ skipped, later, seed, by rw [hids, List.append_assoc], hp, hc,
        hreach, ?_⟩
      intro q hq x hx
      exact hafter x (List.mem_filterMap.mpr ⟨q, hq, hx⟩)
    · refine .inr ⟨addr, seed, hlookup, hc, hreach, fun q hq x hx => ?_⟩
      exact hnone x (List.mem_filterMap.mpr ⟨q, hq, hx⟩)
  · rintro (⟨p, before, after, seed, hsplit, hp, hc, hreach, hafter⟩ |
      ⟨addr, seed, hlookup, hc, hreach, hnone⟩)
    · refine ⟨_, seed, .inl ⟨before.filterMap fun q => s.gossip.seedPeers.lookup q,
        after.filterMap fun q => s.gossip.seedPeers.lookup q, ?_, rfl, ?_⟩, hc, hreach⟩
      · simp [hsplit, hp]
      · intro x hx
        obtain ⟨q, hq, hlookup⟩ := List.mem_filterMap.mp hx
        exact hafter q hq x hlookup
    · refine ⟨addr, seed, .inr ⟨fun x hx => ?_, hlookup⟩, hc, hreach⟩
      obtain ⟨q, hq, hlookup'⟩ := List.mem_filterMap.mp hx
      exact hnone q hq x hlookup'

theorem LoopStays.listed {dead : List String} {p c : String} (h : s.LoopStays cfg dead p c) :
    p ∈ s.dropped dead ∧ s.Listed p c := by
  obtain ⟨before, after, seed, hsplit, hp, hc, -, -⟩ := h
  exact ⟨hsplit ▸ List.mem_append_right _ List.mem_cons_self, seed, hp, hc⟩

/-- A community with no other seed is only in the entry of the peer. -/
theorem accurate_iff_served (h : s.Consistent) (i : SeedInput) :
    s.Accurate P cfg i ↔ s.Served cfg i := by
  cases i with
  | dial target => exact Iff.rfl
  | dialEnded env dial outcome => exact Iff.rfl
  | register env reg => exact Iff.rfl
  | listen env addr => exact Iff.rfl
  | reconnected env addr nodePk => exact Iff.rfl
  | publish env topic data dead =>
    obtain ⟨-, -, -, hconnected, -, -⟩ := publish_spec P cfg h env topic data dead
    refine forall₂_congr fun p hp => forall₂_congr fun c honly => and_congr ?_ ?_
    · rw [hconnected]
      have honlyEntry : ∀ q, s.Listed q c → q = p := fun q hq => honly.2 q (h.listed q c hq)
      constructor
      · intro hnot
        by_contra hneither
        obtain ⟨hunlisted, hin⟩ := not_or.mp hneither
        refine hnot ⟨not_not.mp hin, fun q hq hlisted => ?_⟩
        exact hunlisted (honlyEntry q hlisted ▸ hlisted)
      · rintro (hlisted | hout) ⟨hin, hall⟩
        · exact hall p hp hlisted
        · exact hout hin
    · rw [rejoins_publish_iff h env topic data dead c]
      refine or_congr ⟨?_, fun hstays => ⟨p, hstays⟩⟩ Iff.rfl
      rintro ⟨q, hstays⟩
      have hq : q = p := honly.2 q (h.listed q c hstays.listed.2)
      exact hq ▸ hstays

end SeedNode

/-- The status of the communities is right after every loss of a run if and only if, at each loss,
the table of seeds has the community for the peer or the community was disconnected, and the loop
that is started for it stays or one for it runs already and can connect. -/
theorem seed_status_accurate_iff (P : Prims) (cfg : LoopConfig) {app : AppState}
    (happ : app.blocked = false) (ownAddrs : List String) (inputs : List SeedInput) :
    Along (SeedNode.step P cfg) (SeedNode.Accurate P cfg) (SeedNode.start app ownAddrs) inputs ↔
      Along (SeedNode.step P cfg) (SeedNode.Served cfg) (SeedNode.start app ownAddrs) inputs := by
  have hconsistent : Along (SeedNode.step P cfg) (fun s _ => s.Consistent)
      (SeedNode.start app ownAddrs) inputs :=
    (along_of_forall (G := fun _ _ => True) fun _ _ _ => trivial).of_invariant
      (fun _ i hs _ => hs.step i) (SeedNode.consistent_start happ ownAddrs)
  exact along_congr (hconsistent.imp fun _ i hs => SeedNode.accurate_iff_served hs i)

namespace Sample

/-- All addresses have one text; there is no DHT and no server. -/
def seedConfig : LoopConfig := ⟨fun _ => [], fun _ => "127.0.0.1:9042", false, false⟩

def seedRegistration (communityId : String) : SeedInput :=
  .register env ⟨"07", 7, true, addr, some (5, communityId), none, 0⟩

def seedLoss : SeedInput := .publish env "" [] ["07"]

def seedNode (communities : List String) : SeedNode :=
  run (SeedNode.step (prims [] []) seedConfig) (SeedNode.start (app 30) [])
    (communities.map seedRegistration)

end Sample

open Sample in
/-- The only community of a seed. -/
theorem seed_status_single :
    (app 30).blocked = false ∧ Along (SeedNode.step (prims [] []) seedConfig)
      (SeedNode.Accurate (prims [] []) seedConfig) (SeedNode.start (app 30) [])
      [seedRegistration "first", seedLoss] := by
  refine ⟨rfl, (seed_status_accurate_iff (prims [] []) seedConfig rfl [] _).mpr
    ⟨trivial, ?_, trivial⟩⟩
  have hdropped : (seedNode ["first"]).dropped ["07"] = ["07"] := by decide +kernel
  have hregistered : (seedNode ["first"]).registered = [("first", "07")] := by decide +kernel
  have hentry : (seedNode ["first"]).gossip.seedPeers.lookup "07" =
      some ⟨addr, some (5, "first"), none, 0⟩ := AList.lookup_insert _
  intro p hp c honly
  have hc : (c, p) ∈ (seedNode ["first"]).registered := honly.1
  rw [hregistered, List.mem_singleton, Prod.mk.injEq] at hc
  obtain ⟨rfl, rfl⟩ := hc
  exact ⟨.inl ⟨_, hentry, rfl⟩, .inl ⟨[], [], _, hdropped, hentry, rfl, nofun, nofun⟩⟩

open Sample in
/-- The second community of a seed stays connected after the loss. -/
theorem shared_seed_status_wrong :
    (app 30).blocked = false ∧ ¬ Along (SeedNode.step (prims [] []) seedConfig)
      (SeedNode.Accurate (prims [] []) seedConfig) (SeedNode.start (app 30) [])
      [seedRegistration "first", seedRegistration "second", seedLoss] := by
  refine ⟨rfl, fun h => ?_⟩
  have hdropped : (seedNode ["first", "second"]).dropped ["07"] = ["07"] := by decide +kernel
  have hregistered : (seedNode ["first", "second"]).registered =
      [("first", "07"), ("second", "07")] := by decide +kernel
  have hconnected : "second" ∈ ((seedNode ["first", "second"]).publish (prims [] []) seedConfig env
      "" [] ["07"]).app.seedConnected := by decide +kernel
  have honly : (seedNode ["first", "second"]).OnlySeed "second" "07" := by
    unfold SeedNode.OnlySeed
    rw [hregistered]
    exact ⟨by decide, by simp⟩
  have hloss : (seedNode ["first", "second"]).Accurate (prims [] []) seedConfig seedLoss := h.2.2.1
  exact (hloss "07" (hdropped ▸ List.mem_singleton.mpr rfl) "second" honly).1 hconnected

end BitCord
