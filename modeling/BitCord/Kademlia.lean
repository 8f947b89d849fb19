import BitCord.Session

/-!
# Lookups in the DHT

The walks of `kademlia_lookup`, `kademlia_find_community_peers` and `kademlia_find_peer_info`, and
the methods of `DhtHandle` on peer info. A walk asks nodes of the routing table for nodes that are
closer to its target, round by round, and then the closest ones for the record; a mailbox is part of
the answers to the first question. What the nodes answer is read from outside.
-/

namespace BitCord

open Lib

/-- Peers asked in one round, `ALPHA`. -/
def walkWidth : Nat := 3

/-- `MAX_ROUNDS`. -/
def walkRounds : Nat := 8

/-- Peers from which a walk starts and which it asks for the record, `K_SEED`. -/
def walkSeed : Nat := 20

/-- What the nodes answer during one walk. An answer is missing if the node cannot be reached, or if
the time of the lookup was up before it came. -/
structure WalkAnswers where
  /-- To `FindNode`, in each round. -/
  findNode : Nat → Key × NodeAddr → Option NodeResponse
  /-- To `FindPeerInfo`. -/
  findPeerInfo : Key × NodeAddr → Option NodeResponse
  /-- The time at which each of the queries for the record ends. -/
  finished : Nat → Nat

/-- `NodeClient::find_node`. -/
def closerPeers : Option NodeResponse → List (Key × NodeAddr)
  | some (.closestPeers peers _) => peers
  | _ => []

/-- `NodeClient::find_peer_info`. -/
def receivedPeerInfo (env : Env) : Option NodeResponse → Option PeerInfoRecord
  | some (.peerInfo x25519Pk addr displayName) => some ⟨x25519Pk, addr, env.unixNow, displayName⟩
  | _ => none

/-- The mailbox in an answer to `FindNode`. -/
def mailboxOf : Option NodeResponse → Option NodeAddr
  | some (.closestPeers _ mailbox) => mailbox
  | _ => none

/-- `NodeClient::find_community_peers`. -/
def receivedCommunityPeers : Option NodeResponse → List CommunityPeerRecord
  | some (.communityPeers records) => records
  | _ => []

/-- Peers in the order of their distance to a target, each id once. -/
def byDistance (target : Key) (peers : List (Key × NodeAddr)) : List (Key × NodeAddr) :=
  (peers.mergeSort fun a b =>
    decide (DhtState.distance target a.1 ≤ DhtState.distance target b.1)).destutter
    fun a b => a.1 ≠ b.1

/-- The state of a walk. -/
structure Walk where
  dht : DhtState
  toVisit : List (Key × NodeAddr)
  visited : List Key
  closestFound : List (Key × NodeAddr)

namespace Walk

def start (dht : DhtState) (target : Key) : Walk := ⟨dht, dht.closestPeers target walkSeed, [], []⟩

/-- A peer from an answer is kept for a later round, unless it was visited. -/
def addPeer (w : Walk) (peer : Key × NodeAddr) : Walk :=
  if w.visited.contains peer.1 then w
  else { w with dht := w.dht.addPeer peer.1 peer.2, toVisit := w.toVisit ++ [peer] }

/-- The peers that a round asks. -/
def batch (w : Walk) : List (Key × NodeAddr) :=
  (w.toVisit.take walkWidth).filter fun p => !w.visited.contains p.1

def drawn (w : Walk) : Walk :=
  { w with
    toVisit := w.toVisit.drop walkWidth
    visited := w.visited ++ w.batch.map Prod.fst
    closestFound := w.closestFound ++ w.batch }

def round (target : Key) (answers : Key × NodeAddr → Option NodeResponse) (w : Walk) : Walk :=
  let w := w.batch.foldl (fun w p => (closerPeers (answers p)).foldl addPeer w) w.drawn
  { w with toVisit := byDistance target w.toVisit }

/-- The rounds of a walk, from the round `i` on; it stops when a batch is empty. -/
def rounds (target : Key) (answers : Nat → Key × NodeAddr → Option NodeResponse) :
    Nat → Nat → Walk → Walk
  | 0, _, w => w
  | fuel + 1, i, w =>
    if w.batch = [] then w else rounds target answers fuel (i + 1) (w.round target (answers i))

/-- The walk of a lookup, up to the queries for the record. -/
def ofLookup (answers : WalkAnswers) (dht : DhtState) (target : Key) : Walk :=
  (start dht target).rounds target answers.findNode walkRounds 0

/-- The nodes that are asked for the record, in the order in which these queries end. -/
def asked (w : Walk) (target : Key) (finished : Nat → Nat) : List (Key × NodeAddr) :=
  let closest := (byDistance target w.closestFound).take walkSeed
  (closest.zipIdx.mergeSort fun a b => decide (finished a.2 ≤ finished b.2)).map Prod.fst

/-- The answers to a round of `kademlia_lookup` in the order of the batch: a mailbox is cached, and
the rest is not read. -/
def readAnswers (instant : Nat) (target : Key) (answers : Key × NodeAddr → Option NodeResponse) :
    List (Key × NodeAddr) → Walk → Walk × Option NodeAddr
  | [], w => (w, none)
  | p :: batch, w =>
    match mailboxOf (answers p) with
    | some addr => ({ w with dht := w.dht.addMailboxRecord instant target addr }, some addr)
    | none => readAnswers instant target answers batch ((closerPeers (answers p)).foldl addPeer w)

/-- The rounds of `kademlia_lookup`, from the round `i` on. -/
def lookupRounds (instant : Nat) (target : Key)
    (answers : Nat → Key × NodeAddr → Option NodeResponse) :
    Nat → Nat → Walk → Walk × Option NodeAddr
  | 0, _, w => (w, none)
  | fuel + 1, i, w =>
    if w.batch = [] then (w, none)
    else
      match readAnswers instant target (answers i) w.batch w.drawn with
      | (w, some addr) => (w, some addr)
      | (w, none) => lookupRounds instant target answers fuel (i + 1)
          { w with toVisit := byDistance target w.toVisit }

/-- The nodes that are asked for community peers. -/
def queried (w : Walk) (target : Key) : List (Key × NodeAddr) :=
  (byDistance target w.closestFound).take walkSeed

end Walk

/-! The records of the node stay as they are during a walk. -/

theorem DhtState.exists_addPeer_eq (dht : DhtState) (id : Key) (addr : NodeAddr) :
    ∃ table, dht.addPeer id addr = { dht with routingTable := table } := by
  unfold addPeer
  split
  · exact ⟨dht.routingTable, rfl⟩
  · split
    · exact ⟨dht.routingTable, rfl⟩
    · exact ⟨_, rfl⟩

variable (target : Key)

namespace Walk

theorem exists_dht_foldl_addPeer (peers : List (Key × NodeAddr)) (w : Walk) :
    ∃ table, (peers.foldl addPeer w).dht = { w.dht with routingTable := table } := by
  induction peers generalizing w with
  | nil => exact ⟨w.dht.routingTable, rfl⟩
  | cons p peers ih =>
    obtain ⟨table, htable⟩ := ih (w.addPeer p)
    refine ⟨table, ?_⟩
    rw [List.foldl_cons, htable]
    unfold addPeer
    split
    · rfl
    · obtain ⟨first, hfirst⟩ := w.dht.exists_addPeer_eq p.1 p.2
      show { w.dht.addPeer p.1 p.2 with routingTable := table } = _
      rw [hfirst]

theorem exists_dht_round (answers : Key × NodeAddr → Option NodeResponse) (w : Walk) :
    ∃ table, (w.round target answers).dht = { w.dht with routingTable := table } := by
  show ∃ table, (w.batch.foldl (fun w p => (closerPeers (answers p)).foldl addPeer w) w.drawn).dht =
    { w.dht with routingTable := table }
  rw [← List.foldl_flatMap]
  exact exists_dht_foldl_addPeer _ w.drawn

theorem exists_dht_rounds (answers : Nat → Key × NodeAddr → Option NodeResponse) (fuel i : Nat)
    (w : Walk) :
    ∃ table, (w.rounds target answers fuel i).dht = { w.dht with routingTable := table } := by
  induction fuel generalizing i w with
  | zero => exact ⟨w.dht.routingTable, rfl⟩
  | succ fuel ih =>
    unfold rounds
    split
    · exact ⟨w.dht.routingTable, rfl⟩
    · obtain ⟨table, htable⟩ := ih (i + 1) (w.round target (answers i))
      obtain ⟨first, hfirst⟩ := exists_dht_round target (answers i) w
      exact ⟨table, by rw [htable, hfirst]⟩

end Walk

/-- `kademlia_lookup`: the mailbox that the walk finds. -/
def kademliaLookup (instant : Nat) (findNode : Nat → Key × NodeAddr → Option NodeResponse)
    (dht : DhtState) (targetPk : Key) : DhtState × Option NodeAddr :=
  if dht.closestPeers targetPk walkSeed = [] then (dht, none)
  else
    let (w, mailbox) :=
      (Walk.start dht targetPk).lookupRounds instant targetPk findNode walkRounds 0
    (w.dht, mailbox)

/-- A record is taken if there is none for its node yet. The first list has the nodes seen so
far. -/
def mergeRecord (m : List Key × List CommunityPeerRecord) (r : CommunityPeerRecord) :
    List Key × List CommunityPeerRecord :=
  if m.1.contains r.nodePk then m else (m.1 ++ [r.nodePk], m.2 ++ [r])

/-- `kademlia_find_community_peers`: the records in the answers of the closest nodes that the walk
found, in the order of the nodes, and then those of the cache. -/
def kademliaFindCommunityPeers (unixNow : UInt64)
    (findNode : Nat → Key × NodeAddr → Option NodeResponse)
    (findCommunityPeers : Key × NodeAddr → Option NodeResponse) (dht : DhtState)
    (communityPk : Key) : DhtState × List CommunityPeerRecord :=
  let w := (Walk.start dht communityPk).rounds communityPk findNode walkRounds 0
  let cached := w.dht.lookupCommunityPeers unixNow communityPk
  let answered := (w.queried communityPk).foldl
    (fun m p => (receivedCommunityPeers (findCommunityPeers p)).foldl mergeRecord m) ([], [])
  (w.dht, (cached.foldl mergeRecord answered).2)

/-- `kademlia_find_peer_info`: the first record that comes is the result. -/
def kademliaFindPeerInfo (env : Env) (answers : WalkAnswers) (dht : DhtState) (peerId : Key) :
    DhtState × Option PeerInfoRecord :=
  if dht.closestPeers peerId walkSeed = [] then (dht, none)
  else
    let w := Walk.ofLookup answers dht peerId
    (w.dht, (w.asked peerId answers.finished).findSome? fun p =>
      receivedPeerInfo env (answers.findPeerInfo p))

theorem exists_dht_kademliaFindPeerInfo (env : Env) (answers : WalkAnswers) (dht : DhtState)
    (peerId : Key) : ∃ table,
      (kademliaFindPeerInfo env answers dht peerId).1 = { dht with routingTable := table } := by
  unfold kademliaFindPeerInfo
  split
  · exact ⟨dht.routingTable, rfl⟩
  · exact Walk.exists_dht_rounds peerId answers.findNode walkRounds 0 (Walk.start dht peerId)

/-! ## The handle -/

/-- What `DhtHandle::new` makes of the persisted records of community peers. -/
def DhtState.load (nodePk : Key) (selfAddr : Option NodeAddr)
    (records : List (Key × CommunityPeerRecord)) : DhtState :=
  records.foldl (fun dht e => (dht.addPeer e.2.nodePk e.2.addr).addCommunityPeerRecord e.1 e.2)
    (create nodePk selfAddr)

/-- A node with its lookups that are on their way, by the peer ids they are for. -/
structure DhtNode where
  signingKey : Key
  services : NodeServices
  lookups : List Key

/-- What happens to the DHT of a node. A lookup begins and ends in two steps, since the node does
other things while it waits for the answers. -/
inductive DhtInput where
  | request (env : Env) (remote : NodeAddr) (session : ClientSession) (req : ClientRequest)
  | findPeerInfo (env : Env) (peerId : Key)
  | walked (env : Env) (lookup : Nat) (answers : WalkAnswers)
  | registerPeerInfo (env : Env) (displayName : String)
  | updateSelfAddr (addr : NodeAddr)
  | addKnownPeer (nodePk : Key) (addr : NodeAddr)
  | expire (env : Env)

namespace DhtNode

variable (P : Prims)

def mapDht (n : DhtNode) (f : DhtState → DhtState) : DhtNode :=
  { n with services := { n.services with dht := n.services.dht.map f } }

def ownPeerId (n : DhtNode) : Key := (P.userIdOf (P.verifyingKey n.signingKey)).bytes

/-- `DhtHandle::find_peer_info`, up to the walk: a record in the cache ends the lookup. -/
def findPeerInfo (n : DhtNode) (env : Env) (peerId : Key) : DhtNode :=
  match n.services.dht.bind fun dht => dht.lookupPeerInfo env.unixNow peerId with
  | some _ => n
  | none => { n with lookups := n.lookups ++ [peerId] }

/-- The DHT after the walk of a lookup: what was found is cached. -/
def cacheFound (env : Env) (answers : WalkAnswers) (peerId : Key) (dht : DhtState) : DhtState :=
  match kademliaFindPeerInfo env answers dht peerId with
  | (dht, some r) => dht.addPeerInfoRecord peerId r
  | (dht, none) => dht

/-- The end of `DhtHandle::find_peer_info`. -/
def walked (n : DhtNode) (env : Env) (lookup : Nat) (answers : WalkAnswers) : DhtNode :=
  match n.lookups[lookup]? with
  | some peerId => { n.mapDht (cacheFound env answers peerId) with
      lookups := n.lookups.eraseIdx lookup }
  | none => n

/-- What `DhtHandle::register_peer_info` does to the DHT of the node itself. -/
def registerPeerInfo (n : DhtNode) (env : Env) (displayName : String) : DhtNode :=
  n.mapDht fun dht =>
    match dht.selfAddr with
    | none => dht
    | some addr => dht.announcePeerInfo env.unixNow (n.ownPeerId P)
        (P.x25519PublicKeyBytes n.signingKey) addr displayName

def step (n : DhtNode) : DhtInput → DhtNode
  | .request env remote session req =>
    { n with services := (dispatch P env remote ⟨session, n.services⟩ req).1.services }
  | .findPeerInfo env peerId => n.findPeerInfo env peerId
  | .walked env lookup answers => n.walked env lookup answers
  | .registerPeerInfo env displayName => n.registerPeerInfo P env displayName
  | .updateSelfAddr addr => n.mapDht fun dht => dht.setSelfAddr addr
  | .addKnownPeer nodePk addr => n.mapDht fun dht => dht.addPeer nodePk addr
  | .expire env => n.mapDht fun dht => dht.expireRecords env.instant env.unixNow

end DhtNode

end BitCord
