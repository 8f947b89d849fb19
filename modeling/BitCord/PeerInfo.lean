import BitCord.Kademlia
import BitCord.Lib.Run
import BitCord.Sample

/-!
# Records of other peers

A record of the DHT says under which X25519 key and at which address a user is reached. A
`StorePeerInfo` request is checked: the key with the hash of the peer id signed the pair. The record
that a walk finds is not: the answer to `FindPeerInfo` has no signature, and it is cached as it
comes (`peerInfos_authentic_iff`, `peerInfo_planted`).
-/

namespace BitCord

open Lib Lib.Run

variable {answers : WalkAnswers} {dht : DhtState} {f : DhtState → DhtState} {n : DhtNode}

variable {P : Prims} {Signed : Key → Bytes → Prop}

section

variable (P Signed)

/-- What the announcement of a peer signs. -/
def peerInfoBytes (peerId x25519Pk : Key) (addr : NodeAddr) : Bytes :=
  toBytes peerId ++ toBytes x25519Pk ++ P.encodeNodeAddr addr

/-- A key with the hash `peerId` signed the pair. -/
def SignedPeerInfo (peerId x25519Pk : Key) (addr : NodeAddr) : Prop :=
  ∃ pk, P.sha256 (toBytes pk) = peerId ∧ Signed pk (peerInfoBytes P peerId x25519Pk addr)

/-- The records about other peers are signed. -/
def DhtNode.Authentic (n : DhtNode) : Prop :=
  ∀ dht, n.services.dht = some dht → ∀ peerId r, dht.peerInfos.lookup peerId = some r →
    peerId ≠ n.ownPeerId P → SignedPeerInfo P Signed peerId r.x25519Pk r.addr

/-- The signature in a `StorePeerInfo` request is not forged: if it verifies under a key, then the
holder of the key made it. -/
def DhtInput.Unforged : DhtInput → Prop
  | .request _ _ _ (.storePeerInfo peerId ed25519Pk x25519Pk addr _ sigR sigS) =>
    P.verifyStrict ed25519Pk (peerInfoBytes P peerId x25519Pk addr) (sigR ++ sigS) = true →
      Signed ed25519Pk (peerInfoBytes P peerId x25519Pk addr)
  | _ => True

/-- The first node that answers the walk of a lookup with a record gives the pair. -/
def FirstAnswer (answers : WalkAnswers) (dht : DhtState) (peerId x25519Pk : Key)
    (addr : NodeAddr) : Prop :=
  ∃ before node after displayName,
    (Walk.ofLookup answers dht peerId).asked peerId answers.finished = before ++ node :: after ∧
    answers.findPeerInfo node = some (.peerInfo x25519Pk addr displayName) ∧
    ∀ p ∈ before, ∀ x a name, answers.findPeerInfo p ≠ some (.peerInfo x a name)

/-- If a lookup of another peer ends, then the first record in the answers is signed. -/
def DhtInput.Trusted (n : DhtNode) : DhtInput → Prop
  | .walked _ lookup answers => ∀ dht peerId, n.services.dht = some dht →
      n.lookups[lookup]? = some peerId → peerId ≠ n.ownPeerId P →
      ∀ x25519Pk addr, FirstAnswer answers dht peerId x25519Pk addr →
        SignedPeerInfo P Signed peerId x25519Pk addr
  | _ => True

end

/-! ## Walks -/

namespace Walk

@[simp] theorem peerInfos_addPeer (dht : DhtState) (id : Key) (addr : NodeAddr) :
    (dht.addPeer id addr).peerInfos = dht.peerInfos := by
  obtain ⟨table, htable⟩ := dht.exists_addPeer_eq id addr
  rw [htable]

/-- A walk that starts with an empty routing table asks nobody. -/
theorem asked_ofLookup_nil {peerId : Key} (h : dht.closestPeers peerId walkSeed = []) :
    (ofLookup answers dht peerId).asked peerId answers.finished = [] := by
  have hbatch : (start dht peerId).batch = [] := by
    unfold batch start
    rw [h]
    rfl
  have hstay : ofLookup answers dht peerId = start dht peerId := by
    unfold ofLookup walkRounds rounds
    rw [if_pos hbatch]
  rw [hstay]
  simp [asked, byDistance, start]

end Walk

theorem peerInfos_kademliaFindPeerInfo (env : Env) (answers : WalkAnswers) (dht : DhtState)
    (peerId : Key) : (kademliaFindPeerInfo env answers dht peerId).1.peerInfos = dht.peerInfos := by
  obtain ⟨table, htable⟩ := exists_dht_kademliaFindPeerInfo env answers dht peerId
  rw [htable]

variable {answer : Option NodeResponse}

theorem receivedPeerInfo_eq_some_iff {env : Env} {r : PeerInfoRecord} :
    receivedPeerInfo env answer = some r ↔
      answer = some (.peerInfo r.x25519Pk r.addr r.displayName) ∧ r.announcedAt = env.unixNow := by
  constructor
  · intro h
    unfold receivedPeerInfo at h
    split at h
    · cases h
      exact ⟨rfl, rfl⟩
    · cases h
  · rintro ⟨rfl, htime⟩
    cases r
    subst htime
    rfl

theorem receivedPeerInfo_eq_none_iff {env : Env} :
    receivedPeerInfo env answer = none ↔ ∀ x a name, answer ≠ some (.peerInfo x a name) := by
  constructor
  · rintro h x a name rfl
    cases h
  · intro h
    unfold receivedPeerInfo
    split
    · exact absurd rfl (h _ _ _)
    · rfl

/-- A walk finds a pair exactly if it is in the first record that an asked node answers. -/
theorem exists_found_iff (env : Env) {peerId x25519Pk : Key} {addr : NodeAddr} :
    (∃ r, (kademliaFindPeerInfo env answers dht peerId).2 = some r ∧ r.x25519Pk = x25519Pk ∧
      r.addr = addr) ↔ FirstAnswer answers dht peerId x25519Pk addr := by
  unfold kademliaFindPeerInfo FirstAnswer
  split
  · next hempty =>
    rw [Walk.asked_ofLookup_nil hempty]
    simp
  · simp only [List.findSome?_eq_some_iff, receivedPeerInfo_eq_some_iff,
      receivedPeerInfo_eq_none_iff]
    constructor
    · rintro ⟨r, ⟨before, node, after, hasked, ⟨hanswer, -⟩, hbefore⟩, rfl, rfl⟩
      exact ⟨before, node, after, r.displayName, hasked, hanswer, hbefore⟩
    · rintro ⟨before, node, after, displayName, hasked, hanswer, hbefore⟩
      exact ⟨⟨x25519Pk, addr, env.unixNow, displayName⟩,
        ⟨before, node, after, hasked, ⟨hanswer, rfl⟩, hbefore⟩, rfl, rfl⟩

/-! ## One step -/

/-- The table of records after a step: it has the record that was written, if one was, and else
only what was there. -/
structure TableStep (infos : Dict Key PeerInfoRecord) (written : Option (Key × PeerInfoRecord))
    (infos' : Dict Key PeerInfoRecord) : Prop where
  writes : ∀ peerId r, written = some (peerId, r) → infos'.lookup peerId = some r
  keeps : ∀ peerId r, infos'.lookup peerId = some r →
    written = some (peerId, r) ∨ infos.lookup peerId = some r

namespace TableStep

variable {infos infos' : Dict Key PeerInfoRecord}

theorem of_eq (h : infos' = infos) : TableStep infos none infos' := by
  subst h
  exact ⟨nofun, fun _ _ => .inr⟩

theorem insert (peerId : Key) (r : PeerInfoRecord) :
    TableStep infos (some (peerId, r)) (infos.insert peerId r) := by
  refine ⟨fun peerId' r' h => ?_, fun peerId' r' h => ?_⟩
  · cases h
    exact AList.lookup_insert infos
  · rw [Dict.lookup_insert_eq] at h
    split at h
    · next heq =>
      cases h
      rw [heq]
      exact .inl rfl
    · exact .inr h

theorem retain (p : Key → PeerInfoRecord → Bool) : TableStep infos none (infos.retain p) := by
  refine ⟨nofun, fun peerId r h => .inr ?_⟩
  rw [Dict.lookup_retain] at h
  exact (Option.filter_eq_some_iff.mp h).1

end TableStep

variable (P) in
/-- The record that a step writes. -/
def DhtInput.written (n : DhtNode) (dht : DhtState) : DhtInput → Option (Key × PeerInfoRecord)
  | .request env _ _ (.storePeerInfo peerId ed25519Pk x25519Pk addr displayName sigR sigS) =>
    if P.sha256 (toBytes ed25519Pk) = peerId ∧ P.vkValid ed25519Pk = true ∧
        P.verifyStrict ed25519Pk (peerInfoBytes P peerId x25519Pk addr) (sigR ++ sigS) = true then
      some (peerId, ⟨x25519Pk, addr, env.unixNow, String.ofList (displayName.toList.take 64)⟩)
    else none
  | .walked env lookup answers =>
    n.lookups[lookup]?.bind fun peerId =>
      (kademliaFindPeerInfo env answers dht peerId).2.map fun r => (peerId, r)
  | .registerPeerInfo env displayName =>
    dht.selfAddr.map fun addr =>
      (n.ownPeerId P, ⟨P.x25519PublicKeyBytes n.signingKey, addr, env.unixNow, displayName⟩)
  | _ => none

/-- The DHT of a node after a step, if it has one. -/
def DhtStep (written : DhtState → Option (Key × PeerInfoRecord)) :
    Option DhtState → Option DhtState → Prop :=
  Option.Rel fun dht dht' => TableStep dht.peerInfos (written dht) dht'.peerInfos

namespace DhtStep

theorem map {written : DhtState → Option (Key × PeerInfoRecord)}
    (h : ∀ dht, TableStep dht.peerInfos (written dht) (f dht).peerInfos) (dht : Option DhtState) :
    DhtStep written dht (dht.map f) := by
  cases dht with
  | none => exact .none
  | some dht => exact .some (h dht)

/-- A step that only touches other parts of the DHT. -/
theorem map_of_eq (h : ∀ dht, (f dht).peerInfos = dht.peerInfos)
    (dht : Option DhtState) : DhtStep (fun _ => none) dht (dht.map f) :=
  map (fun dht => .of_eq (h dht)) dht

theorem of_eq {dht dht' : Option DhtState} (h : dht' = dht) : DhtStep (fun _ => none) dht dht' := by
  subst h
  have hmap := map_of_eq (f := id) (fun _ => rfl) dht'
  rwa [Option.map_id] at hmap

theorem refl (dht : Option DhtState) : DhtStep (fun _ => none) dht dht := of_eq rfl

end DhtStep

theorem dhtStep_storePeerInfo (env : Env) (c : Conn) (peerId ed25519Pk x25519Pk : Key)
    (addr : NodeAddr) (displayName : String) (sigR sigS : Key) :
    DhtStep (fun _ => if P.sha256 (toBytes ed25519Pk) = peerId ∧ P.vkValid ed25519Pk = true ∧
        P.verifyStrict ed25519Pk (peerInfoBytes P peerId x25519Pk addr) (sigR ++ sigS) = true then
      some (peerId, ⟨x25519Pk, addr, env.unixNow, String.ofList (displayName.toList.take 64)⟩)
      else none) c.services.dht
      (handleStorePeerInfo P env c peerId ed25519Pk x25519Pk addr displayName
        sigR sigS).1.services.dht := by
  unfold handleStorePeerInfo peerInfoBytes
  by_cases hhash : P.sha256 (toBytes ed25519Pk) = peerId
  · cases hvalid : P.vkValid ed25519Pk with
    | false => simpa [hhash, hvalid] using DhtStep.refl c.services.dht
    | true =>
      cases hsig : P.verifyStrict ed25519Pk
          (toBytes peerId ++ toBytes x25519Pk ++ P.encodeNodeAddr addr) (sigR ++ sigS) with
      | false => simpa [hhash, hvalid, hsig] using DhtStep.refl c.services.dht
      | true =>
        rw [if_pos ⟨hhash, rfl, rfl⟩, if_neg (not_not_intro hhash)]
        exact DhtStep.map (fun dht => TableStep.insert _ _) c.services.dht
  · simpa [hhash] using DhtStep.refl c.services.dht

theorem dht_handleJoinCommunity (env : Env) (c : Conn) (cert : HostingCert)
    (communityId password : Option String) :
    (handleJoinCommunity P env c cert communityId password).1.services.dht = c.services.dht := by
  unfold handleJoinCommunity
  split
  · rfl
  · dsimp only
    split
    · rfl
    · cases communityId <;> rfl

theorem dhtStep_handleSendDm (env : Env) (c : Conn) (senderPk recipientPk : Key)
    (envelope : DmEnvelope) :
    DhtStep (fun _ => none) c.services.dht
      (handleSendDm P env c senderPk recipientPk envelope).1.services.dht := by
  have hannounce : ∀ dht : DhtState,
      (dht.announceMailbox env.instant recipientPk).peerInfos = dht.peerInfos := by
    intro dht
    unfold DhtState.announceMailbox
    split <;> rfl
  unfold handleSendDm
  dsimp only
  split <;> exact DhtStep.map_of_eq hannounce _

/-- A request writes a record only if it is a `StorePeerInfo` request that passes the checks. -/
theorem dhtStep_request (n : DhtNode) (env : Env) (remote : NodeAddr) (session : ClientSession)
    (req : ClientRequest) :
    DhtStep (fun dht => (DhtInput.request env remote session req).written P n dht) n.services.dht
      (dispatch P env remote ⟨session, n.services⟩ req).1.services.dht := by
  cases req
  case storePeerInfo =>
    exact dhtStep_storePeerInfo env ⟨session, n.services⟩ _ _ _ _ _ _ _
  case authenticate pk sigR sigS nonce =>
    unfold dispatch
    dsimp only
    split
    · exact DhtStep.map_of_eq (fun dht => Walk.peerInfos_addPeer dht pk remote) _
    · exact DhtStep.refl _
  case sendDm recipientPk envelope =>
    unfold dispatch
    dsimp only
    split
    · exact DhtStep.refl _
    · exact dhtStep_handleSendDm env ⟨session, n.services⟩ _ recipientPk envelope
  case storeDhtRecord userPk addr =>
    exact DhtStep.map_of_eq (f := fun dht => dht.addMailboxRecord env.instant userPk addr)
      (fun _ => rfl) _
  case storeCommunityPeer cpk nodePk addr =>
    exact DhtStep.map_of_eq
      (f := fun dht => dht.addCommunityPeerRecord cpk ⟨nodePk, addr, env.unixNow⟩) (fun _ => rfl) _
  case joinCommunity cert communityId password =>
    refine DhtStep.of_eq ?_
    unfold dispatch
    dsimp only
    split
    · rfl
    · exact dht_handleJoinCommunity env ⟨session, n.services⟩ cert communityId password
  -- the other requests use the store only
  all_goals
    refine DhtStep.of_eq ?_
    simp only [dispatch, handleSendMessage]
    repeat' split
    all_goals rfl

theorem dhtStep_step (n : DhtNode) (i : DhtInput) :
    DhtStep (fun dht => i.written P n dht) n.services.dht (n.step P i).services.dht := by
  cases i with
  | request env remote session req => exact dhtStep_request n env remote session req
  | findPeerInfo env peerId =>
    refine DhtStep.of_eq ?_
    unfold DhtNode.step DhtNode.findPeerInfo
    dsimp only
    split <;> rfl
  | walked env lookup answers =>
    unfold DhtNode.step DhtNode.walked DhtInput.written
    dsimp only
    cases n.lookups[lookup]? with
    | none => exact DhtStep.refl _
    | some peerId =>
      refine DhtStep.map (fun dht => ?_) _
      -- the walk itself changes the routing table only
      have hwalk := peerInfos_kademliaFindPeerInfo env answers dht peerId
      unfold DhtNode.cacheFound
      rw [Option.bind_some]
      generalize kademliaFindPeerInfo env answers dht peerId = result at hwalk ⊢
      obtain ⟨dht', found⟩ := result
      cases found with
      | none => exact TableStep.of_eq hwalk
      | some r =>
        rw [← hwalk]
        exact TableStep.insert _ _
  | registerPeerInfo env displayName =>
    refine DhtStep.map (fun dht => ?_) _
    unfold DhtInput.written
    dsimp only
    cases dht.selfAddr with
    | none => exact TableStep.of_eq rfl
    | some addr => exact TableStep.insert _ _
  | updateSelfAddr addr =>
    exact DhtStep.map_of_eq (f := fun dht => dht.setSelfAddr addr) (fun _ => rfl) _
  | addKnownPeer nodePk addr =>
    exact DhtStep.map_of_eq (fun dht => Walk.peerInfos_addPeer dht nodePk addr) _
  | expire env =>
    refine DhtStep.map (fun dht => ?_) _
    unfold DhtInput.written DhtState.expireRecords
    dsimp only
    exact TableStep.retain _

theorem ownPeerId_step (n : DhtNode) (i : DhtInput) : (n.step P i).ownPeerId P = n.ownPeerId P := by
  cases i with
  | findPeerInfo env peerId =>
    unfold DhtNode.step DhtNode.findPeerInfo
    dsimp only
    split <;> rfl
  | walked env lookup answers =>
    unfold DhtNode.step DhtNode.walked
    dsimp only
    split <;> rfl
  | _ => rfl

/-- A node stays authentic exactly if the record that a step writes is signed. -/
theorem authentic_step_iff_written (hn : n.Authentic P Signed) (i : DhtInput) :
    (n.step P i).Authentic P Signed ↔ ∀ dht, n.services.dht = some dht → ∀ peerId r,
      i.written P n dht = some (peerId, r) → peerId ≠ n.ownPeerId P →
        SignedPeerInfo P Signed peerId r.x25519Pk r.addr := by
  have hstep := dhtStep_step (P := P) n i
  unfold DhtNode.Authentic at hn ⊢
  rw [ownPeerId_step]
  generalize (n.step P i).services.dht = after at hstep ⊢
  generalize n.services.dht = before at hn hstep ⊢
  cases hstep with
  | none => simp
  | @some dht dht' htable =>
    constructor
    · rintro h _ ⟨⟩ peerId r hwritten hother
      exact h dht' rfl peerId r (htable.writes peerId r hwritten) hother
    · rintro h _ ⟨⟩ peerId r hlookup hother
      rcases htable.keeps peerId r hlookup with hwritten | hold
      · exact h dht rfl peerId r hwritten hother
      · exact hn dht rfl peerId r hold hother

/-- What a checked request writes is signed; what the node announces is its own record; so only the
end of a walk matters. -/
theorem authentic_step_iff {i : DhtInput} (hunforged : i.Unforged P Signed)
    (hn : n.Authentic P Signed) : (n.step P i).Authentic P Signed ↔ i.Trusted P Signed n := by
  rw [authentic_step_iff_written hn]
  cases i with
  | request env remote session req =>
    refine iff_of_true (fun dht _ peerId r hwritten _ => ?_) trivial
    unfold DhtInput.written at hwritten
    split at hwritten
    · next heq =>
      cases heq
      split at hwritten
      · next hchecks =>
        cases hwritten
        exact ⟨_, hchecks.1, hunforged hchecks.2.2⟩
      · cases hwritten
    all_goals simp_all
  | registerPeerInfo env displayName =>
    refine iff_of_true (fun dht _ peerId r hwritten hother => ?_) trivial
    obtain ⟨addr, -, heq⟩ := Option.map_eq_some_iff.mp hwritten
    cases heq
    exact absurd rfl hother
  | walked env lookup answers =>
    unfold DhtInput.written DhtInput.Trusted
    dsimp only
    refine forall_congr' fun dht => ?_
    constructor
    · intro h peerId hdht hlookup hother x25519Pk addr hfirst
      obtain ⟨r, hr, rfl, rfl⟩ := (exists_found_iff env).mpr hfirst
      refine h hdht peerId r ?_ hother
      rw [hlookup, Option.bind_some, hr]
      rfl
    · intro h hdht peerId r hwritten hother
      obtain ⟨peerId', hlookup, hfound⟩ := Option.bind_eq_some_iff.mp hwritten
      obtain ⟨r', hr, heq⟩ := Option.map_eq_some_iff.mp hfound
      cases heq
      exact h peerId hdht hlookup hother _ _ ((exists_found_iff env).mp ⟨r, hr, rfl, rfl⟩)
  | _ => exact iff_of_true (fun _ _ _ _ hwritten => nomatch hwritten) trivial

/-- The records about other peers are signed in all states of a run if and only if, at the end of
each walk for another peer, the first record in the answers is. Signatures are not forged. -/
theorem peerInfos_authentic_iff {n : DhtNode} {inputs : List DhtInput}
    (hn : n.Authentic P Signed) (hunforged : ∀ i ∈ inputs, i.Unforged P Signed) :
    (∀ pre, pre <+: inputs → (run (DhtNode.step P) n pre).Authentic P Signed) ↔
      Along (DhtNode.step P) (DhtInput.Trusted P Signed) n inputs :=
  forall_prefix_iff_along (fun _ _ hi hn => authentic_step_iff hi hn) hn
    (along_of_forall fun _ => hunforged)

namespace Sample

def wantedPeer : Key := ((prims [] []).userIdOf 31).bytes

/-- The node of the key 21 with one peer in its routing table. -/
def dhtNode : DhtNode :=
  ⟨20, { services 21 with dht := some ((DhtState.create 21 none).addPeer 99 addr) }, []⟩

theorem authentic_dhtNode (Signed : Key → Bytes → Prop) :
    dhtNode.Authentic (prims [] []) Signed := by
  intro dht hdht peerId r hlookup _
  cases hdht
  rw [Walk.peerInfos_addPeer] at hlookup
  cases hlookup

/-- Every asked node answers with the same record. -/
def answersWith (x25519Pk : Key) : WalkAnswers :=
  ⟨fun _ _ => none, fun _ => some (.peerInfo x25519Pk addr ""), fun _ => 0⟩

/-- The announcement of the user of the key 31. -/
def announcedKey : Key := (prims [] []).x25519PublicKeyBytes 30

def announcement : Bytes := peerInfoBytes (prims [] []) wantedPeer announcedKey addr

/-- The node looks the user up. While it waits, the user announces themselves, and then an answer
with the announced pair comes. -/
def announcedRun : List DhtInput :=
  [.findPeerInfo env wantedPeer,
    .request env addr ClientSession.fresh
      (.storePeerInfo wantedPeer 31 announcedKey addr "" 31 (mix announcement)),
    .walked env 0 (answersWith announcedKey)]

end Sample

open Sample in
/-- Both records are signed. -/
theorem peerInfos_authentic_announced :
    dhtNode.Authentic (prims [] []) (fun pk m => pk = 31 ∧ m = announcement) ∧
      ∀ pre, pre <+: announcedRun → (run (DhtNode.step (prims [] [])) dhtNode pre).Authentic
        (prims [] []) (fun pk m => pk = 31 ∧ m = announcement) := by
  refine ⟨authentic_dhtNode _, (peerInfos_authentic_iff (authentic_dhtNode _) ?_).mpr ?_⟩
  · intro i hi
    simp only [announcedRun, List.mem_cons, List.not_mem_nil, or_false] at hi
    rcases hi with rfl | rfl | rfl
    · trivial
    · exact fun _ => ⟨rfl, rfl⟩
    · trivial
  · refine ⟨trivial, trivial, ?_, trivial⟩
    intro dht peerId _ hlookup _ x25519Pk addr' hfirst
    obtain ⟨before, node, after, displayName, _, hanswer, _⟩ := hfirst
    obtain ⟨rfl, rfl, -⟩ := NodeResponse.peerInfo.inj (Option.some.inj hanswer)
    have hpeer : (run (DhtNode.step (prims [] [])) dhtNode (announcedRun.take 2)).lookups[0]? =
        some wantedPeer := by decide +kernel
    obtain rfl := Option.some.inj (hlookup.symm.trans hpeer)
    exact ⟨31, rfl, rfl, rfl⟩

namespace Sample

/-- A peer answers the lookup with a key of its own. -/
def plantedRun : List DhtInput := [.findPeerInfo env wantedPeer, .walked env 0 (answersWith 77)]

end Sample

open Sample in
/-- Nobody signed anything, and the node has a record for the user that it looked up. -/
theorem peerInfo_planted :
    dhtNode.Authentic (prims [] []) (fun _ _ => False) ∧
      (∀ i ∈ plantedRun, i.Unforged (prims [] []) (fun _ _ => False)) ∧
      ¬ (run (DhtNode.step (prims [] [])) dhtNode plantedRun).Authentic (prims [] [])
        (fun _ _ => False) := by
  refine ⟨authentic_dhtNode _, ?_, ?_⟩
  · intro i hi
    simp only [plantedRun, List.mem_cons, List.not_mem_nil, or_false] at hi
    rcases hi with rfl | rfl <;> trivial
  · have hplanted : ((run (DhtNode.step (prims [] [])) dhtNode plantedRun).services.dht.bind
        fun dht => dht.peerInfos.lookup wantedPeer) = some ⟨77, addr, env.unixNow, ""⟩ ∧
        wantedPeer ≠ (run (DhtNode.step (prims [] [])) dhtNode plantedRun).ownPeerId
          (prims [] []) := by
      decide +kernel
    intro hauthentic
    obtain ⟨dht, hdht, hlookup⟩ := Option.bind_eq_some_iff.mp hplanted.1
    obtain ⟨-, -, hsigned⟩ := hauthentic dht hdht _ _ hlookup hplanted.2
    exact hsigned

end BitCord
