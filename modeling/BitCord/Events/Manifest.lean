import BitCord.Events.Channel

/-!
# Manifests fetched from a peer

`handle_manifest_received` in the phases of the source: the tables, the replay of the messages
that waited for a key, the store and the members, the admin's wrapping of keys, and the
announcement of the node itself.
-/

namespace BitCord

open Lib

/-- The answer of a peer to a `FetchManifest` request. -/
structure ManifestReceived where
  source : String
  manifest : SignedManifest
  channels : List ChannelManifest
  channelKeys : Dict String Bytes
  members : List MembershipRecord

namespace ManifestReceived

variable (m : ManifestReceived)

def communityId : String := m.manifest.manifest.id.text

def communityPk : Key := m.manifest.manifest.publicKey

def channelIds : List String := m.channels.map fun ch => ch.id.text

end ManifestReceived

namespace AppState

section

variable (P : Prims)

/-! ## Tables -/

def addPeer (peers : List PeerSummary) (peerId : String) (isAdmin : Bool) : List PeerSummary :=
  if peers.any fun p => decide (p.peerId = peerId) then peers else peers ++ [⟨peerId, isAdmin⟩]

/-- The channels with the received ones, without those of the community that its manifest does
not list. -/
def receiveChannels (channels : Dict String ChannelManifest) (m : ManifestReceived) :
    Dict String ChannelManifest :=
  let live := m.manifest.manifest.channelIds.map fun ch => ch.text
  (channels.insertAll (m.channels.map fun ch => (ch.id.text, ch))).retain fun id ch =>
    ch.communityId.text ≠ m.communityId || live.contains id

/-- Install the key of a received channel if it is wrapped for this node. -/
def unwrapStep (s : AppState) (ring : KeyRing) (ch : ChannelManifest) : KeyRing :=
  match s.unwrapOwn P ch with
  | some key => ring.install ch.id.text key
  | none => ring

/-- The channel keys after a received manifest: wrapped keys, except on the admin's node, then
plaintext keys of channels without a key. -/
def receiveKeys (s : AppState) (m : ManifestReceived) : KeyRing :=
  let ring := KeyRing.of s.toTables
  let ring := if m.communityPk = s.ownPk P then ring else m.channels.foldl (unwrapStep P s) ring
  { ring with keys := ring.keys.orInsertAll (keyEntries m.channelKeys) }

/-- The first part of `handle_manifest_received`: communities, peers, channels and keys. -/
def receiveTables (s : AppState) (m : ManifestReceived) : AppState :=
  let communities := s.communities.insert m.communityId m.manifest
  let channels := receiveChannels s.channels m
  let ring := s.receiveKeys P m
  { s with
    communities, channels
    channelKeys := ring.keys
    previousChannelKeys := ring.previous
    connectedPeers := s.connectedPeers.upsert m.communityId [] fun list =>
      addPeer list m.source (hexText m.communityPk = m.source)
    files := { s.files with
      communities, channels
      channelKeys := ring.keys
      previousChannelKeys :=
        if ring.rotated.isEmpty then s.files.previousChannelKeys else ring.previous } }

/-! ## Replay -/

/-- Handle a buffered message again, unless an earlier one blocked the processor. -/
def replayOne (s : AppState) (msg : String × Bytes) : AppState :=
  if s.blocked then s else s.handleChannelMessage P true msg.1 msg.2

/-- Replay what waited for the new key of a channel. -/
def replayChannel (s : AppState) (channelId : String) : AppState :=
  if s.blocked then s
  else
    match s.pendingRotation.lookup channelId with
    | some buffered =>
      buffered.foldl (replayOne P)
        { s with pendingRotation := s.pendingRotation.erase channelId }
    | none => s

def replay (s : AppState) (rotated : List String) : AppState :=
  rotated.foldl (replayChannel P) s

/-- The retry of a fetch that did not bring the key of a rotated channel. -/
def retryFetch (s : AppState) (m : ManifestReceived) (rotated : List String) :
    List NetworkCommand :=
  let stale := m.channelIds.any fun ch => decide (ch ∈ s.pendingRotation) && !rotated.contains ch
  if stale then
    (((s.peersOf m.communityId).find? fun p => decide (p.peerId ≠ m.source)).map fun p =>
      NetworkCommand.fetchManifest p.peerId m.communityId m.communityPk).toList
  else []

/-! ## Store and members -/

/-- The metadata that the store gets: it replaces what was there. -/
def receivedMeta (s : AppState) (m : ManifestReceived) : CommunityMeta :=
  let keys := m.channelIds.filterMap fun ch =>
    (s.channelKeys.lookup ch).map fun k => (ch, toBytes k)
  { defaultMeta m.communityPk (s.ownPk P) with
    manifest := some m.manifest
    channels := m.channels
    channelKeys := Dict.insertAll keys ∅
    members := keyByUser m.members }

/-- The received records replace those of the same users. Their signatures are not checked. -/
def receiveMembers (members : Dict String (Dict String MembershipRecord)) (m : ManifestReceived) :
    Dict String (Dict String MembershipRecord) :=
  if m.members.isEmpty then members
  else members.upsert m.communityId ∅ fun list =>
    Dict.insertAll (m.members.map fun r => (r.userId.text, r)) list

def receiveDmPeers (dmPeers : Dict String DmPeerInfo) (m : ManifestReceived) :
    Dict String DmPeerInfo :=
  dmPeers.orInsertAll (m.members.map fun r => (r.userId.text, ⟨r.displayName, r.x25519PublicKey⟩))

/-- The second part of `handle_manifest_received`: the store, the members and the DM peers. -/
def receiveMembership (s : AppState) (m : ManifestReceived) : AppState :=
  let members := receiveMembers s.members m
  let dmPeers := receiveDmPeers s.dmPeers m
  { s with
    members, dmPeers
    nodeStore := s.nodeStore.map fun st =>
      st.setCommunityMeta m.communityPk (s.receivedMeta P m)
    files := if m.members.isEmpty then s.files else { s.files with members, dmPeers } }

/-! ## Keys for members that joined while the admin was offline -/

/-- Wrap the key of a channel for one member, unless it has the key. The counter numbers the
random draws. -/
def wrapForMemberStep (env : Env) (key : Key) (acc : ChannelManifest × Nat)
    (record : MembershipRecord) : ChannelManifest × Nat :=
  if record.userId ∈ acc.1.encryptedChannelKey then acc
  else (wrapKey P env acc.2 key acc.1 record, acc.2 + 1)

/-- The state of the admin's loop over the received channels. -/
structure WrapLoop where
  channels : Dict String ChannelManifest
  published : List NetworkCommand
  draws : Nat

/-- Wrap the key of one channel for all members and publish the manifest if it changed. -/
def wrapChannelStep (env : Env) (s : AppState) (communityId : String)
    (acc : WrapLoop) (channelId : String) : WrapLoop :=
  match s.channelKeys.lookup channelId, acc.channels.lookup channelId with
  | some key, some ch =>
    let (ch, draws) := (memberList s.toTables communityId).foldl (wrapForMemberStep P env key)
      (ch, acc.draws)
    if draws = acc.draws then acc
    else
      { channels := acc.channels.insert channelId ch
        published := acc.published ++ [publishChannel P communityId ch]
        draws }
  | _, _ => acc

/-- The third part of `handle_manifest_received`: the admin wraps the channel keys for every
member. -/
def wrapForMembers (env : Env) (s : AppState) (m : ManifestReceived) : AppState :=
  if m.communityPk ≠ s.ownPk P then s
  else
    let done := m.channelIds.foldl (wrapChannelStep P env s m.communityId) ⟨s.channels, [], 0⟩
    { s with
      channels := done.channels
      files := { s.files with
        channels := if done.published.isEmpty then s.files.channels else done.channels }
      commands := s.commands ++ done.published }

/-! ## The node's own record -/

/-- The name of the node, or the start of a text in its place. -/
def ownDisplayName (s : AppState) (fallback : String) : String :=
  s.displayName.getD (String.ofList (fallback.toList.take 8))

/-- A record of the node itself, signed by it. -/
def ownRecord (s : AppState) (communityId : CommunityId) (fallback : String) (roles : List Role)
    (now : DateTime) : MembershipRecord :=
  { userId := s.ownUserId P
    communityId
    displayName := s.ownDisplayName fallback
    avatarCid := none
    joinedAt := now
    roles
    publicKey := s.ownPk P
    x25519PublicKey := P.x25519PublicKeyBytes s.signingKey
    signature := toBytes (P.sign s.signingKey
      (membershipBytes P (s.ownUserId P) communityId (s.ownDisplayName fallback) now roles)) }

/-- The roles under which the node announces itself: admin if the manifest says so, else the
roles it has. -/
def announcedRoles (s : AppState) (m : ManifestReceived) (existing : MembershipRecord) :
    List Role :=
  if m.manifest.manifest.adminIds.contains (s.ownUserId P) then [.admin] else existing.roles

def announceSelf (env : Env) (s : AppState) (m : ManifestReceived) : AppState :=
  match member? s.toTables m.communityId (s.peerId P) with
  | none => s
  | some existing =>
    let record := s.ownRecord P m.manifest.manifest.id (s.peerId P) (s.announcedRoles P m existing)
      env.now
    (s.handleMemberJoined P env record).emit
      [.publish (communityTopic m.communityId) (P.encodeEvent (.memberJoined record))] []

/-! ## The handler -/

/-- The peer that is asked for the history of a channel. -/
def historyPeer (s : AppState) (m : ManifestReceived) : String :=
  let list := s.peersOf m.communityId
  match (list.find? fun p => p.isAdmin).or
      ((list.find? fun p => decide (p.peerId ≠ m.source)).or list.head?) with
  | some p => p.peerId
  | none => m.source

/-- Announce the update, and fetch the history of the channels if no key was missing. -/
def finishManifest (s : AppState) (m : ManifestReceived) (needsKeyRefetch : Bool) : AppState :=
  let updated := PushEvent.communityManifestUpdated m.communityId m.manifest.manifest.version
  if needsKeyRefetch then s.emit [] [updated]
  else
    let syncable := m.channelIds.filter fun ch => decide (ch ∈ s.channelKeys)
    s.emit
      (syncable.map fun ch => .fetchChannelHistory (s.historyPeer m) m.communityId m.communityPk ch
        (s.sinceSeq m.communityPk ch))
      (updated :: syncable.map fun ch => .syncProgress ch false)

/-- The members and their keys, and the subscriptions to the topics. -/
def admitMembers (env : Env) (s : AppState) (m : ManifestReceived) (rotated : List String) :
    AppState :=
  let s := s.emit (s.retryFetch m rotated) []
  let s := (s.receiveMembership P m).wrapForMembers P env m
  s.emit ((m.channelIds.map fun ch => .subscribe (channelTopic ch)) ++
    [.subscribe (communityTopic m.communityId)]) []

/-- What follows the replay. -/
def settleManifest (env : Env) (s : AppState) (m : ManifestReceived) (rotated : List String)
    (needsKeyRefetch : Bool) : AppState :=
  let s := s.admitMembers P env m rotated
  let draws := m.channelIds.length * (memberList s.toTables m.communityId).length
  (s.announceSelf P (env.skip draws) m).finishManifest m needsKeyRefetch

/-- `handle_manifest_received`. -/
def handleManifestReceived (env : Env) (s : AppState) (m : ManifestReceived) : AppState :=
  if !m.manifest.verify P then s
  else
    let s := { s with
      pendingManifestSyncs :=
        if 0 < m.manifest.manifest.version then
          s.pendingManifestSyncs.filter fun id => decide (id ≠ m.communityId)
        else s.pendingManifestSyncs }
    if m.manifest.manifest.deleted then
      (s.removeCommunityLocal m.communityId).emit []
        [.communityDeleted m.communityId m.manifest.manifest.version ""]
    else
      let rotated := (s.receiveKeys P m).rotated
      let s := s.receiveTables P m
      let needsKeyRefetch := m.channelIds.any fun ch => decide (ch ∉ s.channelKeys)
      let s := s.replay P rotated
      if s.blocked then s else s.settleManifest P env m rotated needsKeyRefetch

end

end AppState

end BitCord
