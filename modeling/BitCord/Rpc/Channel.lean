import BitCord.Rpc.Community

/-!
# RPC methods on channels

The methods of `rpc_server/channel.rs` that change the state.
-/

namespace BitCord

open Lib

structure CreateChannelParams where
  communityId : String
  name : String
  kind : ChannelKind

/-- The parameters of `channel_delete` and `channel_rotate_key`. -/
structure ChannelParams where
  communityId : String
  channelId : String

structure ReorderChannelsParams where
  communityId : String
  channelIds : List String

/-- `channel_manifest_to_info`. -/
def ChannelManifest.info (m : ChannelManifest) : ChannelInfo :=
  ⟨m.id.text, m.communityId.text, m.name, m.kind, m.version, m.createdAt⟩

namespace AppState

/-- Put a manifest into the table of channels and into its file. -/
def putChannelEntry (s : AppState) (channelId : String) (ch : ChannelManifest) : AppState :=
  let channels := s.channels.insert channelId ch
  { s with channels, files := { s.files with channels } }

def putKey (s : AppState) (channelId : String) (key : Key) : AppState :=
  let ring := (KeyRing.of s.toTables).install channelId key
  { s with
    channelKeys := ring.keys
    previousChannelKeys := ring.previous
    files := { s.files with
      channelKeys := ring.keys
      previousChannelKeys :=
        if ring.rotated.isEmpty then s.files.previousChannelKeys else ring.previous } }

/-- Change the stored metadata of a community, if it is there. -/
def updateMeta (s : AppState) (communityPk : Key) (f : CommunityMeta → CommunityMeta) : AppState :=
  s.mapStore fun st =>
    match st.meta? communityPk with
    | some m => st.setCommunityMeta communityPk (f m)
    | none => st

section

variable (P : Prims)

def wrapForAll (env : Env) (s : AppState) (communityId : String) (key : Key) :
    Dict UserId Bytes :=
  Dict.insertAll ((memberList s.toTables communityId).zipIdx.map fun e =>
    (e.1.userId, encryptForMember P key e.1.x25519PublicKey (env.key e.2) (env.nonce e.2))) ∅

/-! ## Creating a channel -/

def newChannel (env : Env) (s : AppState) (p : CreateChannelParams) (id : CommunityId) :
    ChannelManifest :=
  { id := ⟨env.ulid 0⟩
    communityId := id
    name := p.name
    kind := p.kind
    encryptedChannelKey := wrapForAll P (env.skip 1) s p.communityId (env.key 0)
    createdAt := env.now
    version := 1 }

def resign (s : AppState) (m : CommunityManifest) (channelIds : List ChannelId) :
    SignedManifest :=
  ({ m with channelIds, version := m.version + 1 }).sign P s.signingKey

def storeChannelCreated (s : AppState) (communityId : String) (old : SignedManifest)
    (ch : ChannelManifest) (key : Key) : AppState :=
  let channelId := ch.id.text
  let signed := s.resign P old.manifest (old.manifest.channelIds ++ [ch.id])
  let channelKeys := s.channelKeys.insert channelId key
  let s := { s with channelKeys, files := { s.files with channelKeys } }
  let s := (s.putChannelEntry channelId ch).putCommunity communityId signed
  let s := s.updateMeta signed.manifest.publicKey fun m => { m with
    manifest := some signed
    channels := m.channels ++ [ch]
    channelKeys := m.channelKeys.insert channelId (toBytes key) }
  s.emit
    [publishEvent P communityId (.manifestUpdate signed), publishChannel P communityId ch,
      .subscribe (channelTopic channelId)]
    [.communityManifestUpdated communityId signed.manifest.version,
      .channelCreated channelId communityId ch.name]

/-- `channel_create`. -/
def channelCreate (env : Env) (s : AppState) (p : CreateChannelParams) : RpcResult :=
  if !validName p.name then (s, .error (invalidParams "name must be 1–100 characters"))
  else
    match s.communities.lookup p.communityId, parseUlid p.communityId with
    | none, _ => (s, .error (notFound "community not found"))
    | some _, none => (s, .error (invalidParams "invalid community_id"))
    | some old, some ulid =>
      let ch := s.newChannel P env p ⟨ulid⟩
      (s.storeChannelCreated P p.communityId old ch (env.key 0), .ok (.channel ch.info))

/-! ## Deleting a channel -/

/-- The tables after a channel and its key are removed. -/
def eraseChannel (s : AppState) (channelId : String) : AppState :=
  let channels := s.channels.erase channelId
  let channelKeys := s.channelKeys.erase channelId
  { s with channels, channelKeys, files := { s.files with channels, channelKeys } }

def storeChannelDeleted (s : AppState) (p : ChannelParams) (old : SignedManifest)
    (name : String) (ulid : Ulid) : AppState :=
  let signed := s.resign P old.manifest
    (old.manifest.channelIds.filter fun c => decide (c ≠ ⟨ulid⟩))
  let s := (s.putCommunity p.communityId signed).updateMeta signed.manifest.publicKey fun m =>
    { m with
      channels := m.channels.filter fun c => decide (c.id.text ≠ p.channelId)
      channelKeys := m.channelKeys.erase p.channelId }
  s.emit
    [.unsubscribe (channelTopic p.channelId), publishEvent P p.communityId (.manifestUpdate signed)]
    [.channelDeleted p.channelId p.communityId name]

/-- `channel_delete`: the channel is removed before its id is parsed. -/
def channelDelete (s : AppState) (p : ChannelParams) : RpcResult :=
  match s.seedRefusal p.communityId, s.channels.lookup p.channelId with
  | some e, _ => (s, .error e)
  | none, none => (s, .error (notFound "channel not found"))
  | none, some ch =>
    let s := s.eraseChannel p.channelId
    match s.communities.lookup p.communityId, parseUlid p.channelId with
    | none, _ => (s, .error (notFound "community not found"))
    | some _, none => (s, .error (invalidParams "invalid channel_id"))
    | some old, some ulid => (s.storeChannelDeleted P p old ch.name ulid, .ok .done)

/-! ## Rotating a channel key -/

/-- The channel manifest with a new key. The members are those of the named community, which the
channel need not belong to. -/
def rotatedChannel (env : Env) (s : AppState) (p : ChannelParams) (ch : ChannelManifest) :
    ChannelManifest :=
  { ch with
    version := ch.version + 1
    encryptedChannelKey := wrapForAll P (env.skip 1) s p.communityId (env.key 0) }

def storeRotation (s : AppState) (p : ChannelParams) (ch : ChannelManifest) (key : Key) :
    AppState :=
  match communityPk? s.toTables p.communityId with
  | some pk => s.updateMeta pk fun m => { m with
      channelKeys := m.channelKeys.insert p.channelId (toBytes key)
      channels := updateFirst (fun c => decide (c.id.text = p.channelId)) (fun _ => ch)
        m.channels }
  | none => s

/-- `channel_rotate_key`. -/
def channelRotateKey (env : Env) (s : AppState) (p : ChannelParams) : RpcResult :=
  match s.seedRefusal p.communityId, s.channels.lookup p.channelId with
  | some e, _ => (s, .error e)
  | none, none => (s, .error (notFound "channel not found"))
  | none, some ch =>
    let key := env.key 0
    let ch := s.rotatedChannel P env p ch
    let payload : ChannelKeyRotationPayload :=
      ⟨ch, toBytes (P.sign s.signingKey (P.encodeChannelManifest ch))⟩
    let s := ((s.putKey p.channelId key).putChannelEntry p.channelId ch).storeRotation p ch key
    (s.emit
      [.publish (channelTopic p.channelId) (P.encodeEvent (.channelKeyRotation payload)),
        publishChannel P p.communityId ch] [], .ok .done)

/-! ## Reordering channels -/

/-- The check of `channel_reorder` on each given channel. -/
def reorderRefusal (s : AppState) (p : ReorderChannelsParams) : Option RpcError :=
  p.channelIds.findSome? fun id =>
    match s.channels.lookup id with
    | some ch =>
      if ch.communityId.text = p.communityId then none
      else some (invalidParams ("channel " ++ id ++ " does not belong to community"))
    | none => some (notFound ("channel " ++ id ++ " not found"))

/-- Parse the given channel ids, or name the first that is not valid. -/
def parseOrder (ids : List String) : Except RpcError (List ChannelId) :=
  ids.mapM fun id =>
    match parseUlid id with
    | some ulid => .ok ⟨ulid⟩
    | none => .error (invalidParams ("invalid channel_id: " ++ id))

def storeReordered (s : AppState) (p : ReorderChannelsParams) (old : SignedManifest)
    (order : List ChannelId) : AppState :=
  let remaining := old.manifest.channelIds.filter fun c => !p.channelIds.contains c.text
  let signed := s.resign P old.manifest (order ++ remaining)
  ((s.putCommunity p.communityId signed).mapStore fun st => storeManifest st signed).emit
    [publishEvent P p.communityId (.manifestUpdate signed)]
    [.communityManifestUpdated p.communityId signed.manifest.version]

/-- `channel_reorder`. -/
def channelReorder (s : AppState) (p : ReorderChannelsParams) : RpcResult :=
  match (s.seedRefusal p.communityId).or (s.reorderRefusal p), parseOrder p.channelIds,
      s.communities.lookup p.communityId with
  | some e, _, _ => (s, .error e)
  | none, .error e, _ => (s, .error e)
  | none, .ok _, none => (s, .error (notFound "community not found"))
  | none, .ok order, some old => (s.storeReordered P p old order, .ok .done)

end

end AppState

end BitCord
