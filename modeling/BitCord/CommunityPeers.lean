import BitCord.PeerInfo

/-!
# The lists of community peers

A node keeps for each community the peers that announced themselves. `announce_community_peer` keeps
a list at 20 records. `add_community_peer_record`, which serves the `StoreCommunityPeer` requests of
anyone and the start from disk, only appends (`communityPeers_bounded_iff`), so 21 requests without
any proof of identity are enough to break the bound (`list_overfilled`).
-/

namespace BitCord

open Lib Lib.Run

variable {nodes : List Key} {pk : Key} {n : DhtNode} {dht dht' : Option DhtState}
  {f : DhtState → DhtState}

/-! ## The lists -/

/-- A node is appended if it is not in the list. -/
def addNode (nodes : List Key) (pk : Key) : List Key := if pk ∈ nodes then nodes else nodes ++ [pk]

theorem nodup_addNode (h : nodes.Nodup) (pk : Key) : (addNode nodes pk).Nodup := by
  unfold addNode
  split
  · exact h
  · next hnew => exact h.append (List.nodup_singleton pk) (List.disjoint_singleton.mpr hnew)

theorem mem_addNode {pk' : Key} : pk' ∈ addNode nodes pk ↔ pk' ∈ nodes ∨ pk' = pk := by
  unfold addNode
  split
  · next h => simp +contextual [h]
  · simp

theorem length_addNode_le_iff {n : Nat} (h : nodes.length ≤ n) (pk : Key) :
    (addNode nodes pk).length ≤ n ↔ pk ∈ nodes ∨ nodes.length < n := by
  unfold addNode
  split
  · next hmem => simp [h, hmem]
  · next hmem => simp [hmem]

theorem nodup_foldl_addNode (h : nodes.Nodup) (pks : List Key) :
    (pks.foldl addNode nodes).Nodup := by
  induction pks generalizing nodes with
  | nil => exact h
  | cons pk pks ih => exact ih (nodup_addNode h pk)

theorem mem_foldl_addNode {pks : List Key} :
    pk ∈ pks.foldl addNode nodes ↔ pk ∈ nodes ∨ pk ∈ pks := by
  induction pks generalizing nodes with
  | nil => simp
  | cons pk' pks ih => rw [List.foldl_cons, ih, mem_addNode, List.mem_cons, or_assoc]

theorem length_foldl_addNode (pks : List Key) :
    (pks.foldl addNode []).length = pks.dedup.length := by
  refine ((List.perm_ext_iff_of_nodup (nodup_foldl_addNode List.nodup_nil pks)
    (List.nodup_dedup pks)).mpr fun pk => ?_).length_eq
  rw [mem_foldl_addNode, List.mem_dedup]
  simp

variable (nodePk : Key) (selfAddr : Option NodeAddr) (records : List (Key × CommunityPeerRecord))

namespace DhtState

def peersOf (dht : DhtState) (communityPk : Key) : List CommunityPeerRecord :=
  (dht.communityPeers.lookup communityPk).getD []

def nodesOf (dht : DhtState) (communityPk : Key) : List Key :=
  (dht.peersOf communityPk).map CommunityPeerRecord.nodePk

/-- The list of each community has at most 20 records, one for each node. -/
def PeersBounded (dht : DhtState) : Prop :=
  ∀ communityPk, (dht.peersOf communityPk).length ≤ bucketSize ∧ (dht.nodesOf communityPk).Nodup

theorem length_nodesOf (dht : DhtState) (communityPk : Key) :
    (dht.nodesOf communityPk).length = (dht.peersOf communityPk).length := List.length_map _

theorem peersOf_upsert (dht : DhtState) (communityPk c : Key)
    (f : List CommunityPeerRecord → List CommunityPeerRecord) :
    peersOf { dht with communityPeers := dht.communityPeers.upsert communityPk [] f } c =
      if c = communityPk then f (dht.peersOf communityPk) else dht.peersOf c := by
  unfold peersOf
  rw [Dict.lookup_upsert]
  split <;> rfl

theorem any_nodePk {list : List CommunityPeerRecord} :
    (list.any fun x => decide (x.nodePk = pk)) = true ↔
      pk ∈ list.map CommunityPeerRecord.nodePk := by
  simp

theorem nodesOf_addCommunityPeerRecord (dht : DhtState) (communityPk : Key)
    (r : CommunityPeerRecord) (c : Key) :
    (dht.addCommunityPeerRecord communityPk r).nodesOf c =
      if c = communityPk then addNode (dht.nodesOf communityPk) r.nodePk else dht.nodesOf c := by
  unfold nodesOf addCommunityPeerRecord
  rw [peersOf_upsert]
  split
  · unfold addNode
    split
    · next hany =>
      rw [if_pos (any_nodePk.mp hany)]
      exact map_updateFirst (fun x hx => (of_decide_eq_true hx).symm) _
    · next hany =>
      rw [if_neg fun hmem => hany (any_nodePk.mpr hmem), List.map_append, List.map_singleton]
  · rfl

/-- An announcement never makes a list too long. -/
theorem bounded_announceCommunityPeer {dht : DhtState} (h : dht.PeersBounded) (unixNow : UInt64)
    (communityPk nodePk : Key) (addr : NodeAddr) :
    (dht.announceCommunityPeer unixNow communityPk nodePk addr).PeersBounded := by
  intro c
  unfold nodesOf announceCommunityPeer
  rw [peersOf_upsert]
  split
  · obtain ⟨hsize, hnodup⟩ := h communityPk
    dsimp only
    split
    · refine ⟨(length_updateFirst _).trans_le hsize, ?_⟩
      rw [map_updateFirst]
      · exact hnodup
      · exact fun _ _ => rfl
    · next hany =>
      have hnew : nodePk ∉ dht.nodesOf communityPk := fun hmem => hany (any_nodePk.mpr hmem)
      have happend : ((dht.peersOf communityPk ++
          [(⟨nodePk, addr, unixNow⟩ : CommunityPeerRecord)]).map
            CommunityPeerRecord.nodePk).Nodup := by
        rw [List.map_append]
        exact hnodup.append (List.nodup_singleton nodePk) (List.disjoint_singleton.mpr hnew)
      split
      · -- the sort only reorders the list
        refine ⟨List.length_take_le _ _, ?_⟩
        rw [List.map_take]
        refine List.Nodup.sublist (List.take_sublist _ _) ?_
        exact ((List.mergeSort_perm _ _).map _).nodup_iff.mpr happend
      · next hlength => exact ⟨Nat.le_of_not_lt hlength, happend⟩
  · exact h c

/-- A request that stores a record keeps the bound exactly if the node is listed already or the list
has room. -/
theorem bounded_addCommunityPeerRecord_iff {dht : DhtState} (h : dht.PeersBounded)
    (communityPk : Key) (r : CommunityPeerRecord) :
    (dht.addCommunityPeerRecord communityPk r).PeersBounded ↔
      r.nodePk ∈ dht.nodesOf communityPk ∨ (dht.peersOf communityPk).length < bucketSize := by
  have hbound := length_addNode_le_iff (n := bucketSize)
    ((length_nodesOf dht communityPk).trans_le (h communityPk).1) r.nodePk
  rw [length_nodesOf] at hbound
  rw [← hbound]
  constructor
  · intro hafter
    have hlength := (hafter communityPk).1
    rwa [← length_nodesOf, nodesOf_addCommunityPeerRecord, if_pos rfl] at hlength
  · intro hlength c
    rw [← length_nodesOf, nodesOf_addCommunityPeerRecord]
    split
    · exact ⟨hlength, nodup_addNode (h communityPk).2 r.nodePk⟩
    · exact ⟨(length_nodesOf dht c).trans_le (h c).1, (h c).2⟩

def persistedNodes (records : List (Key × CommunityPeerRecord)) (communityPk : Key) : List Key :=
  (records.filter fun e => decide (e.1 = communityPk)).map fun e => e.2.nodePk

theorem nodesOf_load (c : Key) :
    (load nodePk selfAddr records).nodesOf c = (persistedNodes records c).foldl addNode [] := by
  have hadd : ∀ (dht : DhtState) (id : Key) (addr : NodeAddr),
      (dht.addPeer id addr).nodesOf c = dht.nodesOf c := by
    intro dht id addr
    obtain ⟨table, htable⟩ := dht.exists_addPeer_eq id addr
    rw [htable]
    rfl
  have hfold : ∀ dht : DhtState, (records.foldl (fun dht e =>
      (dht.addPeer e.2.nodePk e.2.addr).addCommunityPeerRecord e.1 e.2) dht).nodesOf c =
        (persistedNodes records c).foldl addNode (dht.nodesOf c) := by
    induction records with
    | nil => exact fun _ => rfl
    | cons e records ih =>
      intro dht
      rw [List.foldl_cons, ih, nodesOf_addCommunityPeerRecord]
      unfold persistedNodes
      by_cases he : e.1 = c
      · rw [if_pos he.symm, he, hadd]
        simp [he]
      · rw [if_neg fun h => he h.symm, hadd]
        simp [he]
  exact hfold (create nodePk selfAddr)

theorem bounded_load_iff :
    (load nodePk selfAddr records).PeersBounded ↔
      ∀ communityPk, (persistedNodes records communityPk).dedup.length ≤ bucketSize := by
  unfold PeersBounded
  simp only [← length_nodesOf, nodesOf_load, length_foldl_addNode,
    nodup_foldl_addNode List.nodup_nil, and_true]

end DhtState

/-! ## Steps that do not add records -/

/-- Every list is what is left of the list before. -/
def PeersShrink : Option DhtState → Option DhtState → Prop :=
  Option.Rel fun dht dht' => ∀ communityPk,
    (dht'.peersOf communityPk).Sublist (dht.peersOf communityPk)

namespace PeersShrink

theorem map
    (h : ∀ dht communityPk, ((f dht).peersOf communityPk).Sublist (dht.peersOf communityPk))
    (dht : Option DhtState) : PeersShrink dht (dht.map f) := by
  cases dht with
  | none => exact .none
  | some dht => exact .some (h dht)

/-- A step that only touches other parts of the DHT. -/
theorem map_of_eq (h : ∀ dht, (f dht).communityPeers = dht.communityPeers) (dht : Option DhtState) :
    PeersShrink dht (dht.map f) := by
  refine map (fun dht c => ?_) dht
  unfold DhtState.peersOf
  rw [h]

theorem of_eq (h : dht' = dht) : PeersShrink dht dht' := by
  subst h
  have hmap := map_of_eq (f := id) (fun _ => rfl) dht'
  rwa [Option.map_id] at hmap

theorem bounded (h : PeersShrink dht dht')
    (hdht : ∀ d, dht = some d → d.PeersBounded) : ∀ d, dht' = some d → d.PeersBounded := by
  cases h with
  | none => exact nofun
  | @some d d' hsub =>
    rintro _ ⟨⟩ c
    obtain ⟨hsize, hnodup⟩ := hdht d rfl c
    exact ⟨(hsub c).length_le.trans hsize, hnodup.sublist ((hsub c).map _)⟩

end PeersShrink

variable {P : Prims}

theorem communityPeers_addPeer (dht : DhtState) (id : Key) (addr : NodeAddr) :
    (dht.addPeer id addr).communityPeers = dht.communityPeers := by
  obtain ⟨table, htable⟩ := dht.exists_addPeer_eq id addr
  rw [htable]

theorem peersShrink_handleStorePeerInfo (env : Env) (c : Conn) (peerId ed25519Pk x25519Pk : Key)
    (addr : NodeAddr) (displayName : String) (sigR sigS : Key) :
    PeersShrink c.services.dht (handleStorePeerInfo P env c peerId ed25519Pk x25519Pk addr
      displayName sigR sigS).1.services.dht := by
  unfold handleStorePeerInfo
  split
  · exact .of_eq rfl
  · split
    · exact .of_eq rfl
    · split
      · exact .of_eq rfl
      · exact .map_of_eq (f := fun dht => dht.addPeerInfoRecord peerId _) (fun _ => rfl) _

theorem peersShrink_handleSendDm (env : Env) (c : Conn) (senderPk recipientPk : Key)
    (envelope : DmEnvelope) :
    PeersShrink c.services.dht
      (handleSendDm P env c senderPk recipientPk envelope).1.services.dht := by
  have hannounce : ∀ dht : DhtState,
      (dht.announceMailbox env.instant recipientPk).communityPeers = dht.communityPeers := by
    intro dht
    unfold DhtState.announceMailbox
    split <;> rfl
  unfold handleSendDm
  dsimp only
  split <;> exact .map_of_eq hannounce _

/-- Only one kind of request adds to the lists. -/
theorem peersShrink_request (env : Env) (remote : NodeAddr) (session : ClientSession)
    (services : NodeServices) {req : ClientRequest}
    (hreq : ∀ cpk nodePk addr, req ≠ .storeCommunityPeer cpk nodePk addr) :
    PeersShrink services.dht
      (dispatch P env remote ⟨session, services⟩ req).1.services.dht := by
  cases req
  case storeCommunityPeer cpk nodePk addr => exact absurd rfl (hreq cpk nodePk addr)
  case storePeerInfo =>
    exact peersShrink_handleStorePeerInfo env ⟨session, services⟩ _ _ _ _ _ _ _
  case authenticate pk sigR sigS nonce =>
    unfold dispatch
    dsimp only
    split
    · exact .map_of_eq (fun dht => communityPeers_addPeer dht pk remote) _
    · exact .of_eq rfl
  case sendDm recipientPk envelope =>
    unfold dispatch
    dsimp only
    split
    · exact .of_eq rfl
    · exact peersShrink_handleSendDm env ⟨session, services⟩ _ recipientPk envelope
  case storeDhtRecord userPk addr =>
    exact .map_of_eq (f := fun dht => dht.addMailboxRecord env.instant userPk addr)
      (fun _ => rfl) _
  case joinCommunity cert communityId password =>
    refine .of_eq ?_
    unfold dispatch
    dsimp only
    split
    · rfl
    · exact dht_handleJoinCommunity env ⟨session, services⟩ cert communityId password
  -- the other requests use the store only
  all_goals
    refine .of_eq ?_
    simp only [dispatch, handleSendMessage]
    repeat' split
    all_goals rfl

theorem DhtState.lookup_communityPeers_expireRecords (dht : DhtState) (instant : Nat)
    (unixNow : UInt64) (communityPk : Key) :
    (dht.expireRecords instant unixNow).communityPeers.lookup communityPk =
      ((dht.communityPeers.lookup communityPk).map fun list => list.filter fun r =>
        decide (unixNow.toNat - r.announcedAt.toNat < communityPeerTtlSecs)).filter
          fun list => !list.isEmpty := by
  unfold expireRecords
  rw [Dict.lookup_retain, Dict.lookup_mapVals]

theorem DhtState.peersOf_expireRecords (dht : DhtState) (instant : Nat) (unixNow : UInt64)
    (communityPk : Key) : (dht.expireRecords instant unixNow).peersOf communityPk =
      dht.lookupCommunityPeers unixNow communityPk := by
  unfold peersOf lookupCommunityPeers
  rw [lookup_communityPeers_expireRecords]
  cases dht.communityPeers.lookup communityPk with
  | none => rfl
  | some list =>
    rw [Option.map_some, Option.getD_some]
    cases list.filter fun r =>
        decide (unixNow.toNat - r.announcedAt.toNat < communityPeerTtlSecs) with
    | nil => rfl
    | cons r rest => rfl

theorem peersOf_expireRecords_sublist (dht : DhtState) (instant : Nat) (unixNow : UInt64)
    (communityPk : Key) :
    ((dht.expireRecords instant unixNow).peersOf communityPk).Sublist
      (dht.peersOf communityPk) := by
  rw [DhtState.peersOf_expireRecords]
  exact List.filter_sublist

/-! ## Runs -/

/-- What happens to the lists of a node: the inputs of the DHT, announcements and starts. -/
inductive PeersInput where
  | dht (input : DhtInput)
  | announce (unixNow : UInt64) (communityPk nodePk : Key) (addr : NodeAddr)
  | load (nodePk : Key) (selfAddr : Option NodeAddr) (records : List (Key × CommunityPeerRecord))

namespace DhtNode

variable (P) in
def peersStep (n : DhtNode) : PeersInput → DhtNode
  | .dht input => n.step P input
  | .announce unixNow communityPk nodePk addr =>
    n.mapDht fun dht => dht.announceCommunityPeer unixNow communityPk nodePk addr
  | .load nodePk selfAddr records =>
    { n with
      services := { n.services with dht := some (DhtState.load nodePk selfAddr records) }
      lookups := [] }

def PeersBounded (n : DhtNode) : Prop := ∀ dht, n.services.dht = some dht → dht.PeersBounded

/-- A `StoreCommunityPeer` request is for a node that is listed or for a list with room, and a start
finds at most 20 nodes for each community. -/
def Fits (n : DhtNode) : PeersInput → Prop
  | .dht (.request _ _ _ (.storeCommunityPeer communityPk nodePk _)) =>
    ∀ dht, n.services.dht = some dht → nodePk ∈ dht.nodesOf communityPk ∨
      (dht.peersOf communityPk).length < bucketSize
  | .load _ _ records => ∀ communityPk,
      (DhtState.persistedNodes records communityPk).dedup.length ≤ bucketSize
  | _ => True

theorem peersShrink_step (n : DhtNode) {i : DhtInput}
    (hi : ∀ env remote session cpk nodePk addr,
      i ≠ .request env remote session (.storeCommunityPeer cpk nodePk addr)) :
    PeersShrink n.services.dht (n.step P i).services.dht := by
  cases i with
  | request env remote session req =>
    exact peersShrink_request env remote session n.services fun cpk nodePk addr hreq =>
      hi env remote session cpk nodePk addr (congrArg _ hreq)
  | findPeerInfo env peerId =>
    refine .of_eq ?_
    unfold step findPeerInfo
    dsimp only
    split <;> rfl
  | walked env lookup answers =>
    unfold step walked
    dsimp only
    split
    · next peerId _ =>
      refine .map_of_eq (f := cacheFound env answers peerId) (fun dht => ?_) _
      -- the walk itself changes the routing table only
      obtain ⟨table, htable⟩ := exists_dht_kademliaFindPeerInfo env answers dht peerId
      have hwalk : (kademliaFindPeerInfo env answers dht peerId).1.communityPeers =
          dht.communityPeers := by rw [htable]
      unfold cacheFound
      generalize kademliaFindPeerInfo env answers dht peerId = result at hwalk ⊢
      obtain ⟨dht', found⟩ := result
      cases found <;> exact hwalk
    · exact .of_eq rfl
  | registerPeerInfo env displayName =>
    refine PeersShrink.map (fun dht c => ?_) n.services.dht
    cases dht.selfAddr <;> exact List.Sublist.refl _
  | updateSelfAddr addr =>
    exact .map_of_eq (f := fun dht => dht.setSelfAddr addr) (fun _ => rfl) _
  | addKnownPeer nodePk addr =>
    exact .map_of_eq (fun dht => communityPeers_addPeer dht nodePk addr) _
  | expire env =>
    exact .map (fun dht c => peersOf_expireRecords_sublist dht env.instant env.unixNow c) _

theorem bounded_mapDht_iff :
    (n.mapDht f).PeersBounded ↔ ∀ dht, n.services.dht = some dht → (f dht).PeersBounded := by
  constructor
  · intro h dht hdht
    exact h (f dht) (by rw [mapDht, hdht]; rfl)
  · intro h dht hdht
    obtain ⟨before, hbefore, rfl⟩ := Option.map_eq_some_iff.mp hdht
    exact h before hbefore

theorem bounded_peersStep_iff (hn : n.PeersBounded) (i : PeersInput) :
    (n.peersStep P i).PeersBounded ↔ n.Fits i := by
  cases i with
  | announce unixNow communityPk nodePk addr =>
    refine iff_of_true (bounded_mapDht_iff.mpr fun dht hdht => ?_) trivial
    exact DhtState.bounded_announceCommunityPeer (hn dht hdht) unixNow communityPk nodePk addr
  | load nodePk selfAddr records =>
    refine Iff.trans ?_ (DhtState.bounded_load_iff nodePk selfAddr records)
    exact ⟨fun h => h _ rfl, fun h dht hdht => Option.some.inj hdht ▸ h⟩
  | dht input =>
    by_cases hstore : ∃ env remote session cpk nodePk addr,
        input = .request env remote session (.storeCommunityPeer cpk nodePk addr)
    · obtain ⟨env, remote, session, cpk, nodePk, addr, rfl⟩ := hstore
      refine (bounded_mapDht_iff (f := fun dht =>
        dht.addCommunityPeerRecord cpk ⟨nodePk, addr, env.unixNow⟩)).trans ?_
      exact forall₂_congr fun dht hdht =>
        DhtState.bounded_addCommunityPeerRecord_iff (hn dht hdht) cpk _
    · have hother : ∀ env remote session cpk nodePk addr,
          input ≠ .request env remote session (.storeCommunityPeer cpk nodePk addr) :=
        fun env remote session cpk nodePk addr heq =>
          hstore ⟨env, remote, session, cpk, nodePk, addr, heq⟩
      refine iff_of_true ((peersShrink_step n hother).bounded hn) ?_
      unfold Fits
      split
      · next heq => exact absurd (PeersInput.dht.inj heq) (hother _ _ _ _ _ _)
      · next heq => cases heq
      · trivial

end DhtNode

/-- The lists of community peers are bounded in all states of a run if and only if every request
that stores a record is for a listed node or a list with room, and every start loads at most 20
nodes for a community. -/
theorem communityPeers_bounded_iff {n : DhtNode} (hn : n.PeersBounded) (inputs : List PeersInput) :
    (∀ pre, pre <+: inputs → (run (DhtNode.peersStep P) n pre).PeersBounded) ↔
      Along (DhtNode.peersStep P) DhtNode.Fits n inputs :=
  forall_prefix_iff_along (I := DhtNode.PeersBounded) (H := fun _ _ => True)
    (fun _ i _ hn => DhtNode.bounded_peersStep_iff hn i) hn (along_of_forall fun _ _ _ => trivial)

namespace Sample

def storePeer (pk : Key) : PeersInput :=
  .dht (.request env addr ClientSession.fresh (.storeCommunityPeer 9 pk addr))

/-- A start with one record, an announcement of the node itself and a request. -/
def peersRun : List PeersInput :=
  [.load 21 none [(9, ⟨31, addr, 0⟩)], .announce env.unixNow 9 21 addr, storePeer 32]

theorem bounded_dhtNode : dhtNode.PeersBounded := by
  rintro dht ⟨⟩ c
  unfold DhtState.nodesOf DhtState.peersOf
  rw [communityPeers_addPeer]
  exact ⟨Nat.zero_le _, List.nodup_nil⟩

end Sample

open Sample in
theorem communityPeers_bounded_sample :
    dhtNode.PeersBounded ∧
      ∀ pre, pre <+: peersRun →
        (run (DhtNode.peersStep (prims [] [])) dhtNode pre).PeersBounded := by
  refine ⟨bounded_dhtNode, (communityPeers_bounded_iff bounded_dhtNode peersRun).mpr
    ⟨fun c => ?_, trivial, fun dht hdht => .inr ?_, trivial⟩⟩
  · have hone : (DhtState.persistedNodes [(9, ⟨31, addr, 0⟩)] c).length ≤ 1 := by
      unfold DhtState.persistedNodes
      exact (List.length_map _).trans_le (List.length_filter_le _ _)
    exact ((List.dedup_sublist _).length_le.trans hone).trans (by decide)
  · have hlength : (run (DhtNode.peersStep (prims [] [])) dhtNode
        (peersRun.take 2)).services.dht.map (fun dht => (dht.peersOf 9).length) = some 2 := by
      decide +kernel
    have hdht' : (run (DhtNode.peersStep (prims [] [])) dhtNode
        (peersRun.take 2)).services.dht = some dht := hdht
    rw [hdht'] at hlength
    have hpeers : (dht.peersOf 9).length = 2 := Option.some.inj hlength
    rw [hpeers]
    decide

open Sample in
/-- Requests for 21 nodes make a list of 21 records. -/
theorem list_overfilled :
    dhtNode.PeersBounded ∧
      ¬ (run (DhtNode.peersStep (prims [] [])) dhtNode
        ((List.range 21).map fun k => storePeer (BitVec.ofNat 256 k))).PeersBounded := by
  refine ⟨bounded_dhtNode, fun hbounded => ?_⟩
  have hlength : (run (DhtNode.peersStep (prims [] [])) dhtNode ((List.range 21).map fun k =>
      storePeer (BitVec.ofNat 256 k))).services.dht.map (fun dht => (dht.peersOf 9).length) =
        some 21 := by
    decide +kernel
  obtain ⟨dht, hdht, hpeers⟩ := Option.map_eq_some_iff.mp hlength
  have hsize := (hbounded dht hdht 9).1
  rw [hpeers] at hsize
  exact absurd hsize (by decide)

end BitCord
