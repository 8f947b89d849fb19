import BitCord.CommunityPeers
import BitCord.Walks

/-!
# What lookups do to the DHT

`kademlia_lookup` caches what it finds (`kademliaLookup_caches`). Requests, answers and the start
fill the routing table, and every walk contacts the nearest nodes it knows (`walks_nearest_in_run`).
-/

namespace BitCord

open Lib Lib.Run DhtState

variable {P : Prims} {dht : DhtState} {w : Walk}

/-! ## Mailboxes -/

section

variable (instant : Nat) (target : Key)

/-- A lookup fills the routing table and caches the mailbox that it finds. -/
def DhtState.LookedUp (dht dht' : DhtState) (found : Option NodeAddr) : Prop :=
  ∃ table, dht' = found.elim { dht with routingTable := table }
    (addMailboxRecord { dht with routingTable := table } instant target)

variable {instant target} in
theorem DhtState.LookedUp.trans {s t u : DhtState} {found : Option NodeAddr}
    (h : LookedUp instant target s t none) (h' : LookedUp instant target t u found) :
    LookedUp instant target s u found := by
  obtain ⟨_, rfl⟩ := h
  exact h'

theorem lookedUp_readAnswers (answers : Key × NodeAddr → Option NodeResponse)
    (batch : List (Key × NodeAddr)) (w : Walk) :
    let r := w.readAnswers instant target answers batch
    LookedUp instant target w.dht r.1.dht r.2 := by
  induction batch generalizing w with
  | nil => exact ⟨w.dht.routingTable, rfl⟩
  | cons p batch ih =>
    unfold Walk.readAnswers
    cases mailboxOf (answers p) with
    | some addr => exact ⟨w.dht.routingTable, rfl⟩
    | none => exact LookedUp.trans (w.exists_dht_foldl_addPeer (closerPeers (answers p))) (ih _)

theorem lookedUp_lookupRounds (answers : Nat → Key × NodeAddr → Option NodeResponse)
    (fuel i : Nat) (w : Walk) :
    let r := w.lookupRounds instant target answers fuel i
    LookedUp instant target w.dht r.1.dht r.2 := by
  induction fuel generalizing i w with
  | zero => exact ⟨w.dht.routingTable, rfl⟩
  | succ fuel ih =>
    unfold Walk.lookupRounds
    split
    · exact ⟨w.dht.routingTable, rfl⟩
    · have hread := lookedUp_readAnswers instant target (answers i) w.batch w.drawn
      generalize w.drawn.readAnswers instant target (answers i) w.batch = r at hread ⊢
      obtain ⟨w', _ | addr⟩ := r
      · exact hread.trans (ih (i + 1) { w' with toVisit := byDistance target w'.toVisit })
      · exact hread

end

/-- `kademlia_lookup` caches the mailbox that it returns, and changes no other record. -/
theorem kademliaLookup_caches (instant : Nat)
    (findNode : Nat → Key × NodeAddr → Option NodeResponse) (dht : DhtState) (targetPk : Key) :
    let r := kademliaLookup instant findNode dht targetPk
    LookedUp instant targetPk dht r.1 r.2 := by
  unfold kademliaLookup
  split
  · exact ⟨dht.routingTable, rfl⟩
  · exact lookedUp_lookupRounds instant targetPk findNode walkRounds 0 (.start dht targetPk)

/-! ## The routing table -/

/-- The buckets are as calls of `add_peer` leave them. -/
def DhtState.Filled (dht : DhtState) : Prop :=
  ∃ added, ∀ i, KeptBucket dht.nodeId added i (dht.routingTable.get i)

namespace DhtState.Filled

theorem addPeer (h : dht.Filled) (id : Key) (addr : NodeAddr) : (dht.addPeer id addr).Filled := by
  obtain ⟨added, hkept⟩ := h
  exact ⟨_, (Kept.addPeer ⟨hkept⟩ id addr).buckets⟩

theorem map {o : Option DhtState} {f : DhtState → DhtState}
    (hf : ∀ dht, dht.Filled → (f dht).Filled) (h : ∀ dht ∈ o, dht.Filled) :
    ∀ dht ∈ o.map f, dht.Filled := by
  intro dht hdht
  obtain ⟨before, hbefore, rfl⟩ := Option.map_eq_some_iff.mp hdht
  exact hf before (h before hbefore)

theorem answered (h : w.dht.Filled) (peers : List (Key × NodeAddr)) :
    (peers.foldl Walk.addPeer w).dht.Filled := by
  induction peers generalizing w with
  | nil => exact h
  | cons p peers ih =>
    refine ih ?_
    unfold Walk.addPeer
    split
    · exact h
    · exact h.addPeer p.1 p.2

theorem rounds {target : Key} (h : w.dht.Filled)
    (answers : Nat → Key × NodeAddr → Option NodeResponse) (fuel i : Nat) :
    (w.rounds target answers fuel i).dht.Filled := by
  induction fuel generalizing i w with
  | zero => exact h
  | succ fuel ih =>
    unfold Walk.rounds Walk.round
    split
    · exact h
    · refine ih ?_ (i + 1)
      dsimp only
      rw [← List.foldl_flatMap]
      exact answered (w := w.drawn) h _

theorem load (nodePk : Key) (selfAddr : Option NodeAddr)
    (records : List (Key × CommunityPeerRecord)) : (load nodePk selfAddr records).Filled :=
  List.foldlRecOn records _ ⟨[], (kept_afterCalls nodePk selfAddr []).buckets⟩
    fun _ h e _ => h.addPeer e.2.nodePk e.2.addr

theorem mailbox (h : dht.Filled) (instant : Nat) (pk : Key) :
    (dht.announceMailbox instant pk).Filled := by
  unfold announceMailbox
  cases dht.selfAddr <;> exact h

theorem request {services : NodeServices} (h : ∀ dht ∈ services.dht, dht.Filled) (env : Env)
    (remote : NodeAddr) (session : ClientSession) (req : ClientRequest) :
    ∀ dht ∈ (dispatch P env remote ⟨session, services⟩ req).1.services.dht, dht.Filled := by
  cases req <;> simp only [dispatch, handleSendMessage, handleSendDm, handleStorePeerInfo]
  case joinCommunity cert communityId password =>
    split
    · exact h
    · rwa [dht_handleJoinCommunity]
  -- a request adds the client as a peer, or changes records at most
  all_goals repeat' split
  all_goals first
    | exact h
    | exact map (fun _ h => h) h
    | exact map (fun _ h => h.addPeer _ remote) h
    | exact map (fun _ h => h.mailbox _ _) h

theorem walked (h : dht.Filled) (env : Env) (answers : WalkAnswers) (peerId : Key) :
    (DhtNode.cacheFound env answers peerId dht).Filled := by
  have hwalk : (kademliaFindPeerInfo env answers dht peerId).1.Filled := by
    unfold kademliaFindPeerInfo
    split
    · exact h
    · exact rounds (w := .start dht peerId) h answers.findNode walkRounds 0
  unfold DhtNode.cacheFound
  generalize kademliaFindPeerInfo env answers dht peerId = r at hwalk ⊢
  obtain ⟨_, _ | _⟩ := r <;> exact hwalk

theorem step {n : DhtNode} (h : ∀ dht ∈ n.services.dht, dht.Filled) (i : PeersInput) :
    ∀ dht ∈ (n.peersStep P i).services.dht, dht.Filled := by
  cases i with
  | load nodePk selfAddr records =>
    rintro _ ⟨⟩
    exact load nodePk selfAddr records
  | announce => exact map (fun _ h => h) h
  | dht input =>
    cases input with
    | request env remote session req => exact request h env remote session req
    | findPeerInfo env peerId =>
      unfold DhtNode.peersStep DhtNode.step DhtNode.findPeerInfo
      dsimp only
      split <;> exact h
    | walked env lookup answers =>
      unfold DhtNode.peersStep DhtNode.step DhtNode.walked
      dsimp only
      split
      · exact map (fun _ h => h.walked env answers _) h
      · exact h
    | registerPeerInfo =>
      refine map (fun dht hdht => ?_) h
      cases dht.selfAddr <;> exact hdht
    | addKnownPeer nodePk addr => exact map (fun _ h => h.addPeer nodePk addr) h
    | _ => exact map (fun _ h => h) h

end DhtState.Filled

/-- The routing table has its invariant, and every walk contacts the nearest nodes it knows. -/
def DhtNode.WalksNearest (n : DhtNode) : Prop :=
  ∀ dht ∈ n.services.dht, dht.Routed ∧ ∀ target answers ends,
    NearestContacts target (dht.closestPeers target walkSeed) answers
      ((Walk.start dht target).contacts target answers ends walkRounds 0)

/-- It is so in every state after a start. -/
theorem walks_nearest_in_run (n : DhtNode) (nodePk : Key) (selfAddr : Option NodeAddr)
    (records : List (Key × CommunityPeerRecord)) (inputs : List PeersInput) :
    (run (DhtNode.peersStep P) n (.load nodePk selfAddr records :: inputs)).WalksNearest := by
  intro dht hdht
  have hany : Along (DhtNode.peersStep P) (fun _ _ => True)
      (n.peersStep P (.load nodePk selfAddr records)) inputs := along_of_forall fun _ _ _ => trivial
  obtain ⟨added, hkept⟩ := hany.invariant (I := fun n => ∀ dht ∈ n.services.dht, dht.Filled)
    (fun _ i h _ => Filled.step h i) (by rintro _ ⟨⟩; exact .load nodePk selfAddr records) dht hdht
  have hrouted : dht.Routed := Kept.routed ⟨hkept⟩
  exact ⟨hrouted, Walk.nearestContacts_start hrouted⟩

end BitCord
