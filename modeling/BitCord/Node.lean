import BitCord.Rpc.Message

/-!
# A node

The event processor, the RPC server and the QUIC server of a node work on one store. An input is
an event of the network layer, an RPC call, a request on a QUIC connection, a new connection, or
a restart; a run is a list of inputs.
-/

namespace BitCord

open Lib

/-! ## Events of the network layer -/

/-- The events of the network layer, without those about direct messages and the DHT. The
addresses of `newListenAddr` are those that a wildcard address expands to. -/
inductive SwarmEvent where
  | peerConnected (peerId communityId : String)
  | lanPeerConnected (peerId : String)
  | peerDisconnected (peerId : String)
  | seedPeerConnected (communityId peerId : String)
  | seedPeerDisconnected (communityId : String)
  | messageReceived (topic : String) (data : Bytes) (source : Option String)
  | manifestReceived (m : ManifestReceived)
  | channelHistoryReceived (communityId channelId : String) (entries : List LogEntry)
  | communityJoined (communityPk : Key) (communityId : String)
  | communityJoinFailed (communityId reason : String)
  | newListenAddr (addrs : List String)

def communityTopicStart : String := "/bitcord/community/"

def isCommunityTopic (topic : String) : Bool :=
  communityTopicStart.toList.isPrefixOf topic.toList

theorem isChannelTopic_channelTopic (x : String) : isChannelTopic (channelTopic x) = true := by
  unfold isChannelTopic channelTopic channelTopicStart
  rw [List.isPrefixOf_iff_prefix, String.append_assoc, String.toList_append]
  exact List.prefix_append _ _

theorem isChannelTopic_communityTopic (c : String) : isChannelTopic (communityTopic c) = false := by
  unfold isChannelTopic communityTopic channelTopicStart
  rw [String.append_assoc, String.toList_append]
  rfl

theorem isCommunityTopic_communityTopic (c : String) :
    isCommunityTopic (communityTopic c) = true := by
  unfold isCommunityTopic communityTopic communityTopicStart
  rw [List.isPrefixOf_iff_prefix, String.append_assoc, String.toList_append]
  exact List.prefix_append _ _

/-- `is_publicly_routable`. -/
def isPubliclyRoutable (P : Prims) (addr : String) : Bool :=
  match (P.parseNodeAddr addr).map NodeAddr.ip with
  | some (.v4 ip) =>
    let a := (ip >>> 24).toNat
    let b := (ip >>> 16).toNat % 256
    !(a = 127 || a = 10 || (a = 172 && 16 ≤ b && b < 32) || (a = 192 && b = 168) ||
      (a = 169 && b = 254) || ip = 0)
  | _ => false

namespace AppState

section

variable (P : Prims)

/-- What the admin publishes to a new peer about one of its communities. -/
def republish (s : AppState) (communityId : String) (signed : SignedManifest) :
    List NetworkCommand :=
  if signed.manifest.publicKey = s.ownPk P then
    publishEvent P communityId (.manifestUpdate signed) ::
      ((signed.manifest.channelIds.filterMap fun ch => s.channels.lookup ch.text).map
        (publishChannel P communityId) ++
      (memberList s.toTables communityId).map fun r => publishEvent P communityId (.memberJoined r))
  else []

/-- `handle_peer_connected`. -/
def handlePeerConnected (s : AppState) (peerId communityId : String) : AppState :=
  let pk := communityPk? s.toTables communityId
  let isAdmin := pk.any fun k => decide (hexText k = peerId)
  let fetch := (pk.map fun k => NetworkCommand.fetchManifest peerId communityId k).toList
  let published := s.communities.entries.flatMap fun e => s.republish P e.1 e.2
  let connectedPeers := s.connectedPeers.upsert communityId [] fun list =>
    addPeer list peerId isAdmin
  ({ s with connectedPeers }).emit (fetch ++ published) []

/-- `handle_peer_disconnected`. -/
def handlePeerDisconnected (s : AppState) (peerId : String) : AppState :=
  { s with
    connectedPeers := s.connectedPeers.mapVals fun list =>
      list.filter fun p => decide (p.peerId ≠ peerId) }

/-- A peer on the local network is asked for every community. -/
def handleLanPeerConnected (s : AppState) (peerId : String) : AppState :=
  s.emit (s.communities.entries.map fun e =>
    .fetchManifest peerId e.1 e.2.manifest.publicKey) []

def handleSeedPeerConnected (s : AppState) (communityId peerId : String) : AppState :=
  let fetch := match communityPk? s.toTables communityId with
    | some pk => if peerId = "" then [] else [NetworkCommand.fetchManifest peerId communityId pk]
    | none => []
  ({ s with
    seedConnected :=
      if communityId ∈ s.seedConnected then s.seedConnected
      else s.seedConnected ++ [communityId] }).emit fetch [.seedStatusChanged communityId true]

def handleSeedPeerDisconnected (s : AppState) (communityId : String) : AppState :=
  ({ s with seedConnected := s.seedConnected.filter fun c => decide (c ≠ communityId) }).emit []
    [.seedStatusChanged communityId false]

/-- The first publicly routable address is kept as the address of the node. -/
def handleNewListenAddr (s : AppState) (addrs : List String) : AppState :=
  { s with
    actualListenAddrs := addrs.foldl
      (fun known a => if known.contains a then known else known ++ [a]) s.actualListenAddrs
    publicAddr := s.publicAddr.or (addrs.find? (isPubliclyRoutable P)) }

/-- One event of `process_swarm_events`. A processor that waits for its own lock takes no more
events. -/
def processEvent (env : Env) (s : AppState) (event : SwarmEvent) : AppState :=
  if s.blocked then s
  else
    match event with
    | .peerConnected peerId communityId => s.handlePeerConnected P peerId communityId
    | .lanPeerConnected peerId => s.handleLanPeerConnected peerId
    | .peerDisconnected peerId => s.handlePeerDisconnected peerId
    | .seedPeerConnected communityId peerId => s.handleSeedPeerConnected communityId peerId
    | .seedPeerDisconnected communityId => s.handleSeedPeerDisconnected communityId
    | .messageReceived topic data source =>
      if isChannelTopic topic then s.handleChannelMessage P false topic data
      else if isCommunityTopic topic then s.handleCommunityMessage P env data source
      else s
    | .manifestReceived m => s.handleManifestReceived P env m
    | .channelHistoryReceived communityId channelId entries =>
      s.handleChannelHistoryReceived P communityId channelId entries
    | .communityJoined communityPk communityId =>
      s.handleCommunityJoined env communityPk communityId
    | .communityJoinFailed communityId reason =>
      (s.removeCommunityLocal communityId).emit [] [.communityDeleted communityId 0 reason]
    | .newListenAddr addrs => s.handleNewListenAddr P addrs

end

end AppState

/-! ## RPC calls -/

/-- The RPC methods that change the modelled state. -/
inductive RpcCall where
  | communityCreate (p : CreateCommunityParams)
  | communityJoin (p : JoinCommunityParams)
  | communityLeave (communityId : String)
  | communityDelete (communityId : String)
  | communityUpdateManifest (p : UpdateManifestParams)
  | channelCreate (p : CreateChannelParams)
  | channelDelete (p : ChannelParams)
  | channelRotateKey (p : ChannelParams)
  | channelReorder (p : ReorderChannelsParams)
  | messageSend (p : SendMessageParams)
  | messageEdit (p : EditMessageParams)
  | messageDelete (p : DeleteMessageParams)
  | reactionAdd (p : ReactionParams)
  | reactionRemove (p : ReactionParams)
  | memberKick (p : KickBanParams)
  | memberBan (p : KickBanParams)
  | memberUpdateRole (p : UpdateRoleParams)
  | presenceHeartbeat (status : UserStatus)
  | identitySetDisplayName (name : String)

namespace AppState

/-- Handle one RPC call. -/
def rpc (P : Prims) (env : Env) (s : AppState) : RpcCall → RpcResult
  | .communityCreate p => s.communityCreate P env p
  | .communityJoin p => s.communityJoin P env p
  | .communityLeave communityId => s.communityLeave P env communityId
  | .communityDelete communityId => s.communityDelete P communityId
  | .communityUpdateManifest p => s.communityUpdateManifest P p
  | .channelCreate p => s.channelCreate P env p
  | .channelDelete p => s.channelDelete P p
  | .channelRotateKey p => s.channelRotateKey P env p
  | .channelReorder p => s.channelReorder P p
  | .messageSend p => s.messageSend P env p
  | .messageEdit p => s.messageEdit P env p
  | .messageDelete p => s.messageDelete P env p
  | .reactionAdd p => s.reactionAdd P env p
  | .reactionRemove p => s.reactionRemove P env p
  | .memberKick p => s.memberKick P env p
  | .memberBan p => s.memberBan P env p
  | .memberUpdateRole p => s.memberUpdateRole P env p
  | .presenceHeartbeat status => s.presenceHeartbeat P env status
  | .identitySetDisplayName name => s.identitySetDisplayName P name

end AppState

/-! ## The node -/

/-- A node: its application state and, for each QUIC connection, a session. -/
structure Node where
  app : AppState
  sessions : Nat → ClientSession
  dht : Option DhtState
  joinPassword : Option String
  quicPushes : List PushPayload

inductive NodeInput where
  | event (env : Env) (e : SwarmEvent)
  | rpc (env : Env) (call : RpcCall)
  | connect (conn : Nat)
  | request (conn : Nat) (env : Env) (remote : NodeAddr) (req : ClientRequest)
  /-- The DHT is built anew when the node starts. -/
  | restart (dht : Option DhtState)

namespace Node

variable (P : Prims)

/-- The connection as the QUIC server handles it. -/
def conn (n : Node) (store : NodeStore) (i : Nat) : Conn :=
  ⟨n.sessions i, store, n.dht, n.app.ownPk P, n.joinPassword, n.app.commands, n.quicPushes⟩

/-- A request on a connection; a node without a store has no QUIC server. -/
def handleRequest (n : Node) (i : Nat) (env : Env) (remote : NodeAddr) (req : ClientRequest) :
    Node :=
  match n.app.nodeStore with
  | none => n
  | some store =>
    let c := (dispatch P env remote (n.conn P store i) req).1
    { n with
      app := { n.app with nodeStore := some c.services.store, commands := c.services.commands }
      sessions := Function.update n.sessions i c.session
      dht := c.services.dht
      quicPushes := c.services.pushes }

def step (n : Node) : NodeInput → Node
  | .event env e => { n with app := n.app.processEvent P env e }
  | .rpc env call => { n with app := (n.app.rpc P env call).1 }
  | .connect i => { n with sessions := Function.update n.sessions i ClientSession.fresh }
  | .request i env remote req => n.handleRequest P i env remote req
  | .restart dht =>
    { n with
      app := n.app.restart P
      sessions := fun _ => ClientSession.fresh
      dht
      quicPushes := [] }

end Node

end BitCord
