import BitCord.Prims
import BitCord.Protocol

/-!
# Request handling of a node

A QUIC connection has a session: the key the client authenticated with and the communities it
joined. `dispatch` handles one request of the connection; requests of one connection are handled
one after the other. The services (store, DHT, push channel) are shared by all connections.
-/

namespace BitCord

open Lib

structure ClientSession where
  clientPk : Option Key
  joinedCommunities : List Key
  deriving DecidableEq

namespace ClientSession

def fresh : ClientSession := ⟨none, []⟩

def isAuthenticated (s : ClientSession) : Bool := s.clientPk.isSome

/-- The relay of `ConnectionHandler::run` sends the push on this connection. -/
def shouldSend (s : ClientSession) (payload : PushPayload) : Bool :=
  match payload.1 with
  | some cpk => s.joinedCommunities.contains cpk
  | none => s.isAuthenticated

end ClientSession

structure NodeServices where
  store : NodeStore
  dht : Option DhtState
  nodePk : Key
  joinPassword : Option String
  /-- The commands sent to the network layer, in order. -/
  commands : List NetworkCommand
  /-- The pushes broadcast to the connections, in order. -/
  pushes : List PushPayload

/-- A connection with the services it uses. -/
structure Conn where
  session : ClientSession
  services : NodeServices

namespace Conn

def push (c : Conn) (payload : PushPayload) : Conn :=
  { c with services := { c.services with pushes := c.services.pushes ++ [payload] } }

def withStore (c : Conn) (store : NodeStore) : Conn :=
  { c with services := { c.services with store } }

def mapDht (c : Conn) (f : DhtState → DhtState) : Conn :=
  { c with services := { c.services with dht := c.services.dht.map f } }

end Conn

def err (code : UInt16) (msg : String) : NodeResponse := .error code msg

variable {pk : Key} (env : Env) (c : Conn)

section

variable (P : Prims)

/-! ## Authentication -/

/-- `ConnectionHandler::handle_authenticate`: the client signs a nonce of its own choice. -/
def handleAuthenticate (pk sigR sigS nonce : Key) (session : ClientSession) (nodePk : Key) :
    ClientSession × NodeResponse :=
  if !P.vkValid pk then (session, err 400 "invalid public key")
  else if !P.verifyStrict pk (toBytes nonce) (sigR ++ sigS) then
    (session, err 401 "signature verification failed")
  else ({ session with clientPk := some pk }, .authenticated nodePk)

/-- The `Authenticate` request that `NodeClient::connect` sends, with the drawn nonce. -/
def connectRequest (sk nonce : Key) : ClientRequest :=
  let sig := P.sign sk (toBytes nonce)
  .authenticate (P.verifyingKey sk) (sig.extractLsb' 256 256) (sig.extractLsb' 0 256) nonce

/-! ## Joining a community -/

def isKnownMember (store : NodeStore) (communityPk : Key) (clientPk : Option Key) : Bool :=
  match store.meta? communityPk, clientPk with
  | some m, some pk => m.members.vals.any fun r => decide (r.publicKey = pk)
  | _, _ => false

def passwordAccepted (required provided : Option String) : Bool :=
  match required with
  | some r => decide (provided.getD "" = r)
  | none => true

/-- The checks of `handle_join_community`; `none` lets the client in. -/
def joinRefusal (env : Env) (c : Conn) (cert : HostingCert) (password : Option String) :
    Option NodeResponse :=
  if !P.vkValid cert.communityPk then some (err 400 "invalid community public key in cert")
  else if isKnownMember c.services.store cert.communityPk c.session.clientPk then none
  else if !passwordAccepted c.services.joinPassword password then
    some (err 403 "invalid node join password")
  else if cert.nodePk ≠ c.services.nodePk then
    some (err 403 "hosting cert node_pk does not match this node's identity")
  else
    match cert.verify P cert.communityPk env.unixNow with
    | .error e => some (err 403 ("not a member and hosting cert invalid: " ++ e.text))
    | .ok () => none

/-- Store the metadata of a community that is joined for the first time. -/
def storeJoined (store : NodeStore) (cert : HostingCert) : NodeStore :=
  match store.meta? cert.communityPk with
  | some _ => store
  | none => store.setCommunityMeta cert.communityPk ⟨cert, none, [], ∅, ∅⟩

/-- `ConnectionHandler::handle_join_community`. -/
def handleJoinCommunity (env : Env) (c : Conn) (cert : HostingCert)
    (communityId password : Option String) : Conn × NodeResponse :=
  match joinRefusal P env c cert password with
  | some resp => (c, resp)
  | none =>
    let c := c.withStore (storeJoined c.services.store cert)
    let resp := NodeResponse.authenticated c.services.nodePk
    if c.session.joinedCommunities.contains cert.communityPk then (c, resp)
    else
      let session := { c.session with
        joinedCommunities := c.session.joinedCommunities ++ [cert.communityPk] }
      let services := match communityId with
        | some id => { c.services with
            commands := c.services.commands ++ [.notifyCommunityJoined cert.communityPk id] }
        | none => c.services
      (⟨session, services⟩, resp)

/-! ## Messages -/

/-- `ConnectionHandler::handle_send_message`. -/
def handleSendMessage (env : Env) (c : Conn) (communityPk : Key) (channelId : Ulid)
    (nonce : Nonce) (ciphertext : Bytes) : Conn × NodeResponse :=
  let authorId := match c.session.clientPk with
    | some pk => hexText pk
    | none => ""
  let messageId := ulidText (env.ulid 0)
  let timestampMs := timestampMillis env.now
  let store := c.services.store
  let seq := store.nextSeq communityPk channelId
  let entry : LogEntry :=
    { seq, nonce, ciphertext, messageId, authorId, timestampMs, deleted := false }
  let c := c.withStore
    (store.appendMessage communityPk channelId nonce ciphertext messageId authorId timestampMs)
  (c.push (some communityPk, .newMessage channelId entry), .messageAck seq)

/-- Append the entries of a history batch; each gets the next number of the channel. -/
def appendHistory (store : NodeStore) (communityPk : Key) (channelId : Ulid)
    (entries : List LogEntry) : NodeStore :=
  entries.foldl (fun st e => st.appendMessage communityPk channelId e.nonce e.ciphertext
    e.messageId e.authorId e.timestampMs) store

/-- The first stored community that lists the channel. -/
def communityOfChannel (store : NodeStore) (channelId : Ulid) : Option Key :=
  store.allCommunities.find? fun cpk =>
    match store.meta? cpk with
    | some m => m.channels.any fun ch => decide (ch.id.ulid = channelId)
    | none => false

def channelTopicStart : String := "/bitcord/channel/"

def isChannelTopic (topic : String) : Bool :=
  channelTopicStart.toList.isPrefixOf topic.toList

/-- What a `Gossip` request writes to the store: a channel message, unless its channel is
unknown. -/
def persistGossip (store : NodeStore) (topic : String) (data : Bytes) : NodeStore :=
  if isChannelTopic topic then
    match P.decodeEvent data with
    | some (.newMessage msg) =>
      match communityOfChannel store msg.channelId.ulid with
      | some cpk => store.appendMessage cpk msg.channelId.ulid msg.nonce msg.ciphertext
          msg.id.text msg.authorId.text (timestampMillis msg.timestamp)
      | none => store
    | _ => store
  else store

/-! ## Manifests -/

/-- The requesting client's user and X25519 key, from its membership record. -/
def clientCrypto (m : CommunityMeta) (clientPk : Option Key) : Option (UserId × Key) :=
  clientPk.bind fun pk =>
    (m.members.vals.find? fun r => decide (r.publicKey = pk)).map
      fun r => (r.userId, r.x25519PublicKey)

def wrapForClient (env : Env) (keys : Dict String Bytes) (crypto : Option (UserId × Key))
    (ch : ChannelManifest) (draw : Nat) : ChannelManifest :=
  match crypto, (keys.lookup ch.id.text).bind (tryIntoArray 256) with
  | some (uid, x25519Pk), some key =>
    { ch with
      encryptedChannelKey := ch.encryptedChannelKey.insert uid
        (encryptForMember P key x25519Pk (env.key draw) (env.nonce draw)) }
  | _, _ => ch

/-- The `FetchManifest` request. -/
def handleFetchManifest (env : Env) (c : Conn) (communityPk : Key) : NodeResponse :=
  match c.services.store.getCommunityMeta communityPk with
  | .error e => err 500 e.text
  | .ok none => err 404 "community not found"
  | .ok (some m) =>
    match m.manifest with
    | none => err 404 "community manifest not found on this node"
    | some manifest =>
      let live := m.channels.filter fun ch => manifest.manifest.channelIds.contains ch.id
      let crypto := clientCrypto m c.session.clientPk
      let channels := live.zipIdx.map fun e => wrapForClient P env m.channelKeys crypto e.1 e.2
      .manifest manifest channels ∅ m.members.vals

/-- The metadata of a hosted community before anything is known about it. -/
def defaultMeta (communityPk nodePk : Key) : CommunityMeta :=
  ⟨⟨communityPk, nodePk, maxSeq, 0⟩, none, [], ∅, ∅⟩

/-- Membership records keyed by their users; a later record of a user replaces an earlier one. -/
def keyByUser (records : List MembershipRecord) : Dict String MembershipRecord :=
  Dict.insertAll (records.map fun r => (r.userId.text, r)) ∅

/-- What a `PushManifest` request writes to the store. -/
def pushManifestStore (store : NodeStore) (nodePk communityPk : Key) (manifest : SignedManifest)
    (channels : List ChannelManifest) (channelKeys : Dict String Bytes)
    (members : List MembershipRecord) : NodeStore :=
  let m := (store.meta? communityPk).getD (defaultMeta communityPk nodePk)
  store.setCommunityMeta communityPk
    { m with manifest := some manifest, channels, channelKeys, members := keyByUser members }

/-! ## The public DHT requests -/

/-- The `StorePeerInfo` request. -/
def handleStorePeerInfo (env : Env) (c : Conn) (peerId ed25519Pk x25519Pk : Key)
    (addr : NodeAddr) (displayName : String) (sigR sigS : Key) : Conn × NodeResponse :=
  if P.sha256 (toBytes ed25519Pk) ≠ peerId then
    (c, err 400 "peer_id does not match ed25519_pk")
  else if !P.vkValid ed25519Pk then (c, err 400 "invalid ed25519_pk")
  else if !P.verifyStrict ed25519Pk
      (toBytes peerId ++ toBytes x25519Pk ++ P.encodeNodeAddr addr) (sigR ++ sigS) then
    (c, err 400 "invalid peer info signature")
  else
    let displayName := String.ofList (displayName.toList.take 64)
    (c.mapDht fun dht => dht.addPeerInfoRecord peerId ⟨x25519Pk, addr, env.unixNow, displayName⟩,
      .peerInfoAck)

/-- The `FindPeerInfo` request. -/
def handleFindPeerInfo (env : Env) (c : Conn) (peerId : Key) : NodeResponse :=
  match c.services.dht.bind fun dht => dht.lookupPeerInfo env.unixNow peerId with
  | some r => .peerInfo r.x25519Pk r.addr r.displayName
  | none => err 404 "peer not found"

/-- The `FindNode` request. -/
def handleFindNode (env : Env) (c : Conn) (targetId : Key) : NodeResponse :=
  match c.services.dht with
  | some dht =>
    .closestPeers (dht.closestPeers targetId 20) (dht.lookupMailbox env.instant targetId)
  | none => .closestPeers [] none

/-! ## Direct messages -/

/-- The `SendDm` request of a client that authenticated as `senderPk`. -/
def handleSendDm (env : Env) (c : Conn) (senderPk recipientPk : Key) (envelope : DmEnvelope) :
    Conn × NodeResponse :=
  let (store, seq) := c.services.store.appendDm recipientPk (P.userIdOf senderPk)
    (P.encodeDmEnvelope envelope) (env.ulid 0) (timestampMillis env.now)
  let c := (c.withStore store).mapDht fun dht => dht.announceMailbox env.instant recipientPk
  let c := match store.getDms recipientPk seq with
    | .ok (entry :: _) => c.push (none, .newDm entry recipientPk)
    | _ => c
  (c, .dmAck seq)

/-! ## Dispatch -/

def notAuthenticated : NodeResponse := err 401 "not authenticated"

def notMember : NodeResponse := err 403 "not a member of this community on this session"

def notJoined : NodeResponse := err 403 "not authenticated or not joined to this community"

/-- `ConnectionHandler::dispatch`: handle one request from the address `remote`. -/
def dispatch (env : Env) (remote : NodeAddr) (c : Conn) : ClientRequest → Conn × NodeResponse
  | .authenticate pk sigR sigS nonce =>
    match handleAuthenticate P pk sigR sigS nonce c.session c.services.nodePk with
    | (session, .authenticated nodePk) =>
      (({ c with session }).mapDht fun dht => dht.addPeer pk remote, .authenticated nodePk)
    | (session, resp) => ({ c with session }, resp)
  | .joinCommunity cert communityId password =>
    if !c.session.isAuthenticated then (c, notAuthenticated)
    else handleJoinCommunity P env c cert communityId password
  | .sendMessage communityPk channelId nonce ciphertext =>
    if !c.session.isAuthenticated then (c, notAuthenticated)
    else if !c.session.joinedCommunities.contains communityPk then (c, notMember)
    else handleSendMessage env c communityPk channelId nonce ciphertext
  | .getMessages communityPk channelId sinceSeq =>
    if !c.session.isAuthenticated then (c, notAuthenticated)
    else if !c.session.joinedCommunities.contains communityPk then (c, notMember)
    else
      match c.services.store.getMessages communityPk channelId sinceSeq with
      | .ok entries => (c, .messages entries)
      | .error e => (c, err 500 e.text)
  | .sendDm recipientPk envelope =>
    match c.session.clientPk with
    | none => (c, notAuthenticated)
    | some senderPk => handleSendDm P env c senderPk recipientPk envelope
  | .getDms sinceSeq =>
    match c.session.clientPk with
    | none => (c, notAuthenticated)
    | some clientPk =>
      match c.services.store.getDms clientPk sinceSeq with
      | .ok entries => (c, .dms entries)
      | .error e => (c, err 500 e.text)
  | .fetchManifest communityPk =>
    if !c.session.isAuthenticated then (c, notAuthenticated)
    else (c, handleFetchManifest P env c communityPk)
  | .findNode targetId => (c, handleFindNode env c targetId)
  | .storeDhtRecord userPk addr =>
    (c.mapDht fun dht => dht.addMailboxRecord env.instant userPk addr, .dhtAck)
  | .heartbeat => (c, .authenticated c.services.nodePk)
  | .gossip topic data =>
    match c.session.clientPk with
    | none => (c, notAuthenticated)
    | some clientPk =>
      let c := c.withStore (persistGossip P c.services.store topic data)
      (c.push (none, .gossipMessage topic (hexText clientPk) data), .gossipAck)
  | .pushManifest communityPk manifest channels channelKeys members =>
    if c.session.isAuthenticated && c.session.joinedCommunities.contains communityPk then
      (c.withStore (pushManifestStore c.services.store c.services.nodePk communityPk manifest
        channels channelKeys members), .pushAck)
    else (c, notJoined)
  | .pushHistory communityPk channelId entries =>
    if c.session.isAuthenticated && c.session.joinedCommunities.contains communityPk then
      (c.withStore (appendHistory c.services.store communityPk channelId entries), .pushAck)
    else (c, notJoined)
  | .storeCommunityPeer communityPk nodePk addr =>
    (c.mapDht fun dht => dht.addCommunityPeerRecord communityPk ⟨nodePk, addr, env.unixNow⟩,
      .communityPeerAck)
  | .findCommunityPeers communityPk =>
    (c, .communityPeers ((c.services.dht.map fun dht =>
      dht.lookupCommunityPeers env.unixNow communityPk).getD []))
  | .storePeerInfo peerId ed25519Pk x25519Pk addr displayName sigR sigS =>
    handleStorePeerInfo P env c peerId ed25519Pk x25519Pk addr displayName sigR sigS
  | .findPeerInfo peerId => (c, handleFindPeerInfo env c peerId)

/-! ## What a request writes to the store -/

/-- The store after a request. Most requests only read it. -/
inductive StoreWrite (st : NodeStore) : ClientRequest → NodeStore → Prop
  | unchanged {req : ClientRequest} : StoreWrite st req st
  | join {cert : HostingCert} {communityId password : Option String} :
      StoreWrite st (.joinCommunity cert communityId password) (storeJoined st cert)
  | message {cpk : Key} {ch : Ulid} {nonce : Nonce} {ct : Bytes} {mid author : String} {ts : Int} :
      StoreWrite st (.sendMessage cpk ch nonce ct) (st.appendMessage cpk ch nonce ct mid author ts)
  | dm {recipientPk : Key} {envelope : DmEnvelope} {sender : UserId} {body : Bytes} {ulid : Ulid}
      {ts : Int} :
      StoreWrite st (.sendDm recipientPk envelope) (st.appendDm recipientPk sender body ulid ts).1
  | gossip {topic : String} {data : Bytes} :
      StoreWrite st (.gossip topic data) (persistGossip P st topic data)
  | manifest {nodePk cpk : Key} {manifest : SignedManifest} {channels : List ChannelManifest}
      {channelKeys : Dict String Bytes} {members : List MembershipRecord} :
      StoreWrite st (.pushManifest cpk manifest channels channelKeys members)
        (pushManifestStore st nodePk cpk manifest channels channelKeys members)
  | history {cpk : Key} {ch : Ulid} {entries : List LogEntry} :
      StoreWrite st (.pushHistory cpk ch entries) (appendHistory st cpk ch entries)

variable {P}

theorem storeWrite_handleJoinCommunity (cert : HostingCert) (communityId password : Option String) :
    StoreWrite P c.services.store (.joinCommunity cert communityId password)
      (handleJoinCommunity P env c cert communityId password).1.services.store := by
  unfold handleJoinCommunity
  split
  · exact .unchanged
  · dsimp only
    split
    · exact .join
    · cases communityId <;> exact .join

theorem storeWrite_handleSendDm (senderPk recipientPk : Key) (envelope : DmEnvelope) :
    StoreWrite P c.services.store (.sendDm recipientPk envelope)
      (handleSendDm P env c senderPk recipientPk envelope).1.services.store := by
  unfold handleSendDm
  dsimp only
  split <;> exact .dm

theorem storeWrite_dispatch (remote : NodeAddr) (c : Conn) (req : ClientRequest) :
    StoreWrite P c.services.store req (dispatch P env remote c req).1.services.store := by
  unfold dispatch
  cases req with
  | authenticate pk sigR sigS nonce =>
    dsimp only
    split <;> exact .unchanged
  | joinCommunity cert communityId password =>
    dsimp only
    split
    · exact .unchanged
    · exact storeWrite_handleJoinCommunity env c cert communityId password
  | sendMessage cpk ch nonce ct =>
    dsimp only
    split
    · exact .unchanged
    · split
      · exact .unchanged
      · exact .message
  | getMessages cpk ch sinceSeq =>
    dsimp only
    split
    · exact .unchanged
    · split
      · exact .unchanged
      · split <;> exact .unchanged
  | sendDm recipientPk envelope =>
    dsimp only
    split
    · exact .unchanged
    · exact storeWrite_handleSendDm env c _ recipientPk envelope
  | getDms sinceSeq =>
    dsimp only
    split
    · exact .unchanged
    · split <;> exact .unchanged
  | fetchManifest cpk =>
    dsimp only
    split <;> exact .unchanged
  | gossip topic data =>
    dsimp only
    split
    · exact .unchanged
    · exact .gossip
  | pushManifest cpk manifest channels channelKeys members =>
    dsimp only
    split
    · exact .manifest
    · exact .unchanged
  | pushHistory cpk ch entries =>
    dsimp only
    split
    · exact .history
    · exact .unchanged
  | storePeerInfo peerId ed25519Pk x25519Pk addr displayName sigR sigS =>
    dsimp only [handleStorePeerInfo]
    split
    · exact .unchanged
    · split
      · exact .unchanged
      · split <;> exact .unchanged
  | findNode targetId => exact .unchanged
  | storeDhtRecord userPk addr => exact .unchanged
  | heartbeat => exact .unchanged
  | storeCommunityPeer cpk nodePk addr => exact .unchanged
  | findCommunityPeers cpk => exact .unchanged
  | findPeerInfo peerId => exact .unchanged

/-! ## What a fetch hands out -/

def NodeStore.manifest? (st : NodeStore) (communityPk : Key) : Option SignedManifest :=
  (st.meta? communityPk).bind fun m => m.manifest

theorem handleFetchManifest_of_some {c : Conn} {signed : SignedManifest}
    (h : c.services.store.manifest? pk = some signed) :
    ∃ channels keys members,
      handleFetchManifest P env c pk = .manifest signed channels keys members := by
  obtain ⟨m, hm, hsigned⟩ := Option.bind_eq_some_iff.mp h
  unfold NodeStore.meta? at hm
  unfold handleFetchManifest
  split at hm
  · next heq =>
    subst hm
    rw [heq]
    dsimp only
    rw [hsigned]
    exact ⟨_, _, _, rfl⟩
  · cases hm

theorem handleFetchManifest_of_none {c : Conn} (h : c.services.store.manifest? pk = none) :
    ∃ code msg, handleFetchManifest P env c pk = .error code msg := by
  unfold NodeStore.manifest? NodeStore.meta? at h
  unfold handleFetchManifest
  cases hmeta : c.services.store.getCommunityMeta pk with
  | error e => exact ⟨_, _, rfl⟩
  | ok found =>
    cases found with
    | none => exact ⟨_, _, rfl⟩
    | some m =>
      rw [hmeta] at h
      have hnone : m.manifest = none := h
      dsimp only
      rw [hnone]
      exact ⟨_, _, rfl⟩

end

end BitCord
