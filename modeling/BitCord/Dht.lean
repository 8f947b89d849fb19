import BitCord.Store

/-!
# The routing table and record caches

The in-memory state behind the public DHT requests: a Kademlia routing table of 256 buckets and
caches of mailbox, community peer and peer info records. Monotonic time is in nanoseconds, the
announcement times of records are in Unix seconds.
-/

namespace BitCord

open Lib

/-- Bucket capacity, `K`. -/
def bucketSize : Nat := 20

/-- `MAILBOX_TTL` in nanoseconds. -/
def mailboxTtl : Nat := 86400 * 1000000000

def communityPeerTtlSecs : Nat := 3600

def peerInfoTtlSecs : Nat := 86400

structure MailboxRecord where
  addr : NodeAddr
  expiresAt : Nat
  deriving DecidableEq

structure CommunityPeerRecord where
  nodePk : Key
  addr : NodeAddr
  announcedAt : UInt64
  deriving DecidableEq

structure PeerInfoRecord where
  x25519Pk : Key
  addr : NodeAddr
  announcedAt : UInt64
  displayName : String
  deriving DecidableEq

structure DhtState where
  nodeId : Key
  selfAddr : Option NodeAddr
  routingTable : Vector (List (Key × NodeAddr)) 256
  mailboxes : Dict Key MailboxRecord
  communityPeers : Dict Key (List CommunityPeerRecord)
  peerInfos : Dict Key PeerInfoRecord

namespace DhtState

def create (nodePk : Key) (selfAddr : Option NodeAddr) : DhtState :=
  ⟨nodePk, selfAddr, Vector.replicate 256 [], ∅, ∅, ∅⟩

/-- `NodeId::distance`, byte by byte. -/
def distance (a b : Key) : Bytes := (toBytes a).zipWith (fun x y => x ^^^ y) (toBytes b)

/-- `u8::leading_zeros`. -/
def leadingZeros (b : UInt8) : Nat := if b = 0 then 8 else 7 - b.toNat.log2

/-- `NodeId::bucket_index`: the first byte that is not zero and its leading zeros. -/
def bucketIndex (dist : Bytes) : Option (Fin 256) :=
  dist.zipIdx.findSome? fun e =>
    if e.1 ≠ 0 then some ⟨255 - (e.2 * 8 + leadingZeros e.1), by omega⟩ else none

/-- `KBucket::upsert`: a known peer moves to the end, a full bucket drops its oldest peer. -/
def upsert (bucket : List (Key × NodeAddr)) (id : Key) (addr : NodeAddr) :
    List (Key × NodeAddr) :=
  if bucket.any fun e => decide (e.1 = id) then
    bucket.eraseP (fun e => decide (e.1 = id)) ++ [(id, addr)]
  else if bucket.length ≥ bucketSize then bucket.drop 1 ++ [(id, addr)]
  else bucket ++ [(id, addr)]

/-- `DhtState::add_peer`. -/
def addPeer (dht : DhtState) (id : Key) (addr : NodeAddr) : DhtState :=
  if id = dht.nodeId then dht
  else
    match bucketIndex (distance dht.nodeId id) with
    | none => dht
    | some i =>
      { dht with
        routingTable := dht.routingTable.set i (upsert (dht.routingTable.get i) id addr) }

/-- `DhtState::closest_peers`: the known peers in the order of their distance. -/
def closestPeers (dht : DhtState) (target : Key) (count : Nat) : List (Key × NodeAddr) :=
  (dht.routingTable.toList.flatten.mergeSort
    fun a b => decide (distance target a.1 ≤ distance target b.1)).take count

/-- `DhtState::add_mailbox_record`. -/
def addMailboxRecord (dht : DhtState) (instant : Nat) (userPk : Key) (addr : NodeAddr) :
    DhtState :=
  { dht with mailboxes := dht.mailboxes.insert userPk ⟨addr, instant + mailboxTtl⟩ }

/-- `DhtState::announce_mailbox`. -/
def announceMailbox (dht : DhtState) (instant : Nat) (userPk : Key) : DhtState :=
  match dht.selfAddr with
  | some addr => dht.addMailboxRecord instant userPk addr
  | none => dht

/-- `DhtState::lookup_mailbox`. -/
def lookupMailbox (dht : DhtState) (instant : Nat) (userPk : Key) : Option NodeAddr :=
  match dht.mailboxes.lookup userPk with
  | some r => if r.expiresAt > instant then some r.addr else none
  | none => none

/-- `DhtState::announce_community_peer`: a list that gets too long keeps the records that were
announced last. -/
def announceCommunityPeer (dht : DhtState) (unixNow : UInt64) (communityPk nodePk : Key)
    (addr : NodeAddr) : DhtState :=
  { dht with
    communityPeers := dht.communityPeers.upsert communityPk [] fun list =>
      if list.any fun x => decide (x.nodePk = nodePk) then
        updateFirst (fun x => decide (x.nodePk = nodePk))
          (fun x => { x with addr, announcedAt := unixNow }) list
      else
        let list := list ++ [⟨nodePk, addr, unixNow⟩]
        if list.length > bucketSize then
          (list.mergeSort fun a b => decide (b.announcedAt ≤ a.announcedAt)).take bucketSize
        else list }

/-- `DhtState::add_community_peer_record`. -/
def addCommunityPeerRecord (dht : DhtState) (communityPk : Key) (r : CommunityPeerRecord) :
    DhtState :=
  { dht with
    communityPeers := dht.communityPeers.upsert communityPk [] fun list =>
      if list.any fun x => decide (x.nodePk = r.nodePk) then
        updateFirst (fun x => decide (x.nodePk = r.nodePk)) (fun _ => r) list
      else list ++ [r] }

/-- `DhtState::lookup_community_peers`. -/
def lookupCommunityPeers (dht : DhtState) (unixNow : UInt64) (communityPk : Key) :
    List CommunityPeerRecord :=
  ((dht.communityPeers.lookup communityPk).getD []).filter
    fun r => decide (unixNow.toNat - r.announcedAt.toNat < communityPeerTtlSecs)

/-- `DhtState::add_peer_info_record`. -/
def addPeerInfoRecord (dht : DhtState) (peerId : Key) (r : PeerInfoRecord) : DhtState :=
  { dht with peerInfos := dht.peerInfos.insert peerId r }

/-- `DhtState::announce_peer_info`. -/
def announcePeerInfo (dht : DhtState) (unixNow : UInt64) (peerId x25519Pk : Key) (addr : NodeAddr)
    (displayName : String) : DhtState :=
  { dht with peerInfos := dht.peerInfos.insert peerId ⟨x25519Pk, addr, unixNow, displayName⟩ }

/-- `DhtState::lookup_peer_info`. -/
def lookupPeerInfo (dht : DhtState) (unixNow : UInt64) (peerId : Key) : Option PeerInfoRecord :=
  match dht.peerInfos.lookup peerId with
  | some r => if unixNow.toNat - r.announcedAt.toNat < peerInfoTtlSecs then some r else none
  | none => none

/-- `DhtState::set_self_addr`. -/
def setSelfAddr (dht : DhtState) (addr : NodeAddr) : DhtState := { dht with selfAddr := some addr }

/-- `DhtState::expire_records`. -/
def expireRecords (dht : DhtState) (instant : Nat) (unixNow : UInt64) : DhtState :=
  let fresh (r : CommunityPeerRecord) : Bool :=
    decide (unixNow.toNat - r.announcedAt.toNat < communityPeerTtlSecs)
  { dht with
    mailboxes := dht.mailboxes.retain fun _ r => decide (r.expiresAt > instant)
    communityPeers := (dht.communityPeers.mapVals fun list => list.filter fresh).retain
      fun _ list => !list.isEmpty
    peerInfos := dht.peerInfos.retain fun _ r =>
      decide (unixNow.toNat - r.announcedAt.toNat < peerInfoTtlSecs) }

end DhtState

end BitCord
