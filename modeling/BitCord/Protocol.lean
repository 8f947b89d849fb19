import BitCord.Dht

/-!
# The wire protocol

The requests, responses and pushes of the QUIC protocol between a client and a node, and the
commands that the application layer gives to the network layer.
-/

namespace BitCord

open Lib

inductive ClientRequest where
  | authenticate (pk sigR sigS nonce : Key)
  | joinCommunity (cert : HostingCert) (communityId password : Option String)
  | sendMessage (communityPk : Key) (channelId : Ulid) (nonce : Nonce) (ciphertext : Bytes)
  | getMessages (communityPk : Key) (channelId : Ulid) (sinceSeq : UInt64)
  | sendDm (recipientPk : Key) (envelope : DmEnvelope)
  | getDms (sinceSeq : UInt64)
  | fetchManifest (communityPk : Key)
  | findNode (targetId : Key)
  | storeDhtRecord (userPk : Key) (addr : NodeAddr)
  | heartbeat
  | gossip (topic : String) (data : Bytes)
  | pushManifest (communityPk : Key) (manifest : SignedManifest)
      (channels : List ChannelManifest) (channelKeys : Dict String Bytes)
      (members : List MembershipRecord)
  | pushHistory (communityPk : Key) (channelId : Ulid) (entries : List LogEntry)
  | storeCommunityPeer (communityPk nodePk : Key) (addr : NodeAddr)
  | findCommunityPeers (communityPk : Key)
  | storePeerInfo (peerId ed25519Pk x25519Pk : Key) (addr : NodeAddr) (displayName : String)
      (sigR sigS : Key)
  | findPeerInfo (peerId : Key)

inductive NodeResponse where
  | authenticated (pk : Key)
  | messageAck (seq : UInt64)
  | messages (entries : List LogEntry)
  | dmAck (seq : UInt64)
  | dms (entries : List LogEntry)
  | manifest (manifest : SignedManifest) (channels : List ChannelManifest)
      (channelKeys : Dict String Bytes) (members : List MembershipRecord)
  | closestPeers (peers : List (Key × NodeAddr)) (mailbox : Option NodeAddr)
  | dhtAck
  | gossipAck
  | pushAck
  | communityPeerAck
  | communityPeers (records : List CommunityPeerRecord)
  | peerInfo (x25519Pk : Key) (addr : NodeAddr) (displayName : String)
  | peerInfoAck
  | error (code : UInt16) (msg : String)

def NodeResponse.isError : NodeResponse → Bool
  | .error _ _ => true
  | _ => false

inductive NodePush where
  | newMessage (channelId : Ulid) (entry : LogEntry)
  | newDm (entry : LogEntry) (recipientPk : Key)
  | presence (userPk : Key) (status : UInt8)
  | gossipMessage (topic source : String) (data : Bytes)

/-- A push with its community filter; `none` addresses all authenticated clients. -/
abbrev PushPayload := Option Key × NodePush

/-- Commands from the application layer to the network layer. -/
inductive NetworkCommand where
  | dial (addr : NodeAddr) (isSeed : Bool) (joinCommunity : Option (Key × String))
      (joinCommunityPassword : Option String) (certFingerprint : Key)
  | subscribe (topic : String)
  | unsubscribe (topic : String)
  | publish (topic : String) (data : Bytes)
  | fetchManifest (peerId communityId : String) (communityPk : Key)
  | fetchChannelHistory (peerId communityId : String) (communityPk : Key) (channelId : String)
      (sinceSeq : UInt64)
  | notifyCommunityJoined (communityPk : Key) (communityId : String)

/-- What a step reads from outside: the clocks and the random values it draws, by position. -/
structure Env where
  now : DateTime
  instant : Nat
  ulid : Nat → Ulid
  key : Nat → Key
  nonce : Nat → Nonce
  /-- The addresses of the network interfaces. -/
  interfaceIps : List IpAddr

/-- The environment after `n` random values were drawn. -/
def Env.skip (env : Env) (n : Nat) : Env :=
  { env with
    ulid := fun i => env.ulid (n + i)
    key := fun i => env.key (n + i)
    nonce := fun i => env.nonce (n + i) }

/-- The seconds since the Unix epoch, zero before it. -/
def Env.unixNow (env : Env) : UInt64 := UInt64.ofNat (env.now / 1000000000).toNat

end BitCord
