import BitCord.Session
import BitCord.MessageLog

/-!
# The application state of a node

The tables of `AppState`, their files, and the operations that several handlers share. A handler
runs without interleaving, so a state change is a function from states to states; what it sends to
the network layer and to the frontends is appended to two outboxes. Writing a table to its file is
assumed to succeed.
-/

namespace BitCord

open Lib

structure DmPeerInfo where
  displayName : String
  x25519PublicKey : Key

/-- The tables that are persisted as files. -/
structure Tables where
  communities : Dict String SignedManifest
  channels : Dict String ChannelManifest
  channelKeys : Dict String Key
  previousChannelKeys : Dict String Key
  dmPeers : Dict String DmPeerInfo
  members : Dict String (Dict String MembershipRecord)
  bans : Dict String (List String)
  hostingPasswords : Dict String String
  seedFingerprints : Dict String Key

def Tables.empty : Tables := ⟨∅, ∅, ∅, ∅, ∅, ∅, ∅, ∅, ∅⟩

structure PeerSummary where
  peerId : String
  isAdmin : Bool

inductive UserStatus where
  | online
  | idle
  | doNotDisturb
  | invisible
  | offline
  deriving DecidableEq, Repr

/-- Events for the frontends of the node. -/
inductive PushEvent where
  | messageNew (messageId channelId communityId authorId : String) (authorName : Option String)
      (timestamp : DateTime)
  | messageEdited (messageId channelId communityId authorId : String)
      (authorName : Option String) (timestamp : DateTime) (body : Option String)
  | messageDeleted (messageId channelId communityId : String)
  | memberJoined (userId communityId displayName : String)
  | memberLeft (userId communityId displayName : String)
  | presenceChanged (userId status : String) (lastSeen : DateTime)
  | channelCreated (channelId communityId name : String)
  | channelDeleted (channelId communityId name : String)
  | communityManifestUpdated (communityId : String) (version : UInt64)
  | communityDeleted (communityId : String) (version : UInt64) (reason : String)
  /-- The progress is 0.0 when a sync starts and 1.0 when it is complete. -/
  | syncProgress (channelId : String) (complete : Bool)
  | channelHistorySynced (channelId communityId : String)
  | reactionUpdated (messageId channelId communityId : String)
      (reactions : List (String × List String))
  | memberRoleUpdated (userId communityId newRole : String)
  | seedStatusChanged (communityId : String) (connected : Bool)

structure AppState extends Tables where
  signingKey : Key
  displayName : Option String
  /-- The node runs in `GossipClient` mode, without a server of its own. -/
  gossipClient : Bool
  quicPort : UInt16
  messageLog : MessageLog
  nodeStore : Option NodeStore
  connectedPeers : Dict String (List PeerSummary)
  pendingManifestSyncs : List String
  presence : Dict String UserStatus
  seedConnected : List String
  publicAddr : Option String
  actualListenAddrs : List String
  /-- The messages buffered for each channel whose key is being rotated. -/
  pendingRotation : Dict String (List (String × Bytes))
  files : Tables
  commands : List NetworkCommand
  pushes : List PushEvent
  /-- The event processor waits for a lock that it holds itself. -/
  blocked : Bool

def communityTopic (communityId : String) : String :=
  "/bitcord/community/" ++ communityId ++ "/1.0.0"

def channelTopic (channelId : String) : String :=
  "/bitcord/channel/" ++ channelId ++ "/1.0.0"

namespace AppState

/-! ## Identity -/

section

variable (P : Prims) (s : AppState)

/-- The key of the node, also the key of every community that it creates. -/
def ownPk : Key := P.verifyingKey s.signingKey

def ownUserId : UserId := P.userIdOf (s.ownPk P)

/-- `AppState.peer_id`. -/
def peerId : String := (s.ownUserId P).text

end

/-! ## Outboxes -/

def emit (s : AppState) (commands : List NetworkCommand) (pushes : List PushEvent) : AppState :=
  { s with commands := s.commands ++ commands, pushes := s.pushes ++ pushes }

/-- Change the node store, if there is one. -/
def mapStore (s : AppState) (f : NodeStore → NodeStore) : AppState :=
  { s with nodeStore := s.nodeStore.map f }

/-! ## Lookups -/

def member? (s : Tables) (communityId userId : String) : Option MembershipRecord :=
  (s.members.lookup communityId).bind fun list => list.lookup userId

def memberList (s : Tables) (communityId : String) : List MembershipRecord :=
  match s.members.lookup communityId with
  | some list => list.vals
  | none => []

def communityPk? (s : Tables) (communityId : String) : Option Key :=
  (s.communities.lookup communityId).map fun signed => signed.manifest.publicKey

theorem communityPk?_of_lookup {t : Tables} {c : String} {signed : SignedManifest}
    (h : t.communities.lookup c = some signed) :
    communityPk? t c = some signed.manifest.publicKey := by
  unfold communityPk?
  rw [h]
  rfl

def banList (s : Tables) (communityId : String) : List String :=
  (s.bans.lookup communityId).getD []

def peersOf (s : AppState) (communityId : String) : List PeerSummary :=
  (s.connectedPeers.lookup communityId).getD []

/-- A peer to ask: the admin if connected, else the first. -/
def preferredPeer (s : AppState) (communityId : String) : Option String :=
  let list := s.peersOf communityId
  ((list.find? fun p => p.isAdmin).or list.head?).map fun p => p.peerId

/-! ## Removing a community -/

def channelIdsOf (s : Tables) (communityId : String) : List String :=
  (s.channels.vals.filter fun c => decide (c.communityId.text = communityId)).map
    fun c => c.id.text

/-- `remove_community_local`. -/
def removeCommunityLocal (s : AppState) (communityId : String) : AppState :=
  let channelIds := channelIdsOf s.toTables communityId
  let communities := s.communities.erase communityId
  let members := s.members.erase communityId
  let channels := s.channels.eraseAll channelIds
  let channelKeys := s.channelKeys.eraseAll channelIds
  let hostingPasswords := s.hostingPasswords.erase communityId
  let nodeStore := match communityPk? s.toTables communityId with
    | some pk => s.nodeStore.map fun st => st.removeCommunity pk
    | none => s.nodeStore
  { s with
    communities, members, channels, channelKeys, hostingPasswords, nodeStore
    files := { s.files with communities, members, channels, channelKeys, hostingPasswords }
    commands := s.commands ++ .unsubscribe (communityTopic communityId) ::
      channelIds.map fun ch => .unsubscribe (channelTopic ch) }

theorem nodeStore_removeCommunityLocal {s : AppState} {c : String} {pk : Key}
    (h : communityPk? s.toTables c = some pk) :
    (s.removeCommunityLocal c).nodeStore = s.nodeStore.map fun st => st.removeCommunity pk := by
  unfold removeCommunityLocal
  dsimp only
  rw [h]

/-! ## Restart -/

/-- Add the members of one community in the file to its stored metadata. -/
def mergeStep (t : Tables) (st : NodeStore) (e : (_ : String) × Dict String MembershipRecord) :
    NodeStore :=
  match communityPk? t e.1 with
  | none => st
  | some pk =>
    match st.meta? pk with
    | none => st
    | some m =>
      let merged := m.members.orInsertAll (e.2.vals.map fun r => (r.userId.text, r))
      if e.2.vals.any fun r => decide (r.userId.text ∉ m.members) then
        st.setCommunityMeta pk { m with members := merged }
      else st

/-- `AppState::new` adds the members from the file to the stored metadata of their community. -/
def mergeMembers (t : Tables) (st : NodeStore) : NodeStore :=
  t.members.entries.foldl (mergeStep t) st

/-- The 32-byte keys among stored key bytes. -/
def keyEntries (keys : Dict String Bytes) : List (String × Key) :=
  keys.entries.filterMap fun e => (tryIntoArray 256 e.2).map fun k => (e.1, k)

/-- Fill the tables from the stored metadata of one community. -/
def backPopulate (m : CommunityMeta) (t : Tables) : Tables :=
  match m.manifest with
  | none => t
  | some signed =>
    let id := signed.manifest.id.text
    { t with
      communities := t.communities.orInsert id signed
      channels := t.channels.orInsertAll (m.channels.map fun c => (c.id.text, c))
      channelKeys := t.channelKeys.orInsertAll (keyEntries m.channelKeys)
      members := t.members.upsert id ∅ fun list =>
        Dict.orInsertAll (m.members.entries.map fun e => (e.1, e.2)) list }

/-- Fill the tables from all stored metadata; what the files hold stays. -/
def backPopulateAll (st : NodeStore) (t : Tables) : Tables :=
  st.allCommunities.foldl (fun t cpk =>
    match st.meta? cpk with
    | some m => backPopulate m t
    | none => t) t

/-- Decrypt with the current key, else with the previous one. -/
def decryptEither (P : Prims) (key prev : Option Key) (nonce : Nonce) (ciphertext : Bytes) :
    Option Bytes :=
  (key.bind fun k => P.aeadOpen k nonce ciphertext).or
    (prev.bind fun k => P.aeadOpen k nonce ciphertext)

/-- Apply a reaction to the cache; any other content leaves it alone. -/
def applyReaction (log : MessageLog) (content : Option MessageContent) (userId : String) :
    MessageLog :=
  match content with
  | some (.reaction target emoji true) => log.react target emoji userId
  | some (.reaction target emoji false) => log.unreact target emoji userId
  | _ => log

@[simp] theorem entries_applyReaction (log : MessageLog) (content : Option MessageContent)
    (u ch : String) : (applyReaction log content u).entries ch = log.entries ch := by
  unfold applyReaction
  split <;> rfl

/-- Who reacted to a message after a content is applied: only its author may have changed, and it
reacts afterwards if the content adds a reaction. -/
theorem mem_reactors_applyReaction (log : MessageLog) (content : Option MessageContent)
    (author id emoji user : String) :
    user ∈ (applyReaction log content author).reactors id emoji ↔
      match content with
      | some (.reaction target emoji' isAdd) =>
        if target = id ∧ emoji' = emoji ∧ author = user then isAdd = true
        else user ∈ log.reactors id emoji
      | _ => user ∈ log.reactors id emoji := by
  cases content with
  | none => exact Iff.rfl
  | some c =>
    cases c with
    | reaction target emoji' isAdd =>
      by_cases h : id = target ∧ emoji = emoji'
      · obtain ⟨rfl, rfl⟩ := h
        cases isAdd with
        | true =>
          show user ∈ (log.react id emoji author).reactors id emoji ↔ _
          rw [MessageLog.reactors_react]
          by_cases hu : author = user
          · subst hu
            by_cases hmem : author ∈ log.reactors id emoji <;> simp [hmem]
          · by_cases hmem : author ∈ log.reactors id emoji <;> simp [hmem, hu, Ne.symm hu]
        | false =>
          show user ∈ (log.unreact id emoji author).reactors id emoji ↔ _
          rw [MessageLog.reactors_unreact]
          by_cases hu : author = user
          · subst hu
            simp
          · simp [hu, Ne.symm hu]
      · have hne : ¬ (target = id ∧ emoji' = emoji ∧ author = user) :=
          fun ⟨h₁, h₂, _⟩ => h ⟨h₁.symm, h₂.symm⟩
        cases isAdd <;> simp only [applyReaction, MessageLog.reactors_react,
          MessageLog.reactors_unreact, if_neg h, if_neg hne]
    | _ => exact Iff.rfl

/-- Load the stored history of one channel. -/
def loadChannel (P : Prims) (t : Tables) (st : NodeStore) (log : MessageLog) (channelId : String)
    (manifest : ChannelManifest) : MessageLog :=
  match parseUlid channelId, communityPk? t manifest.communityId.text with
  | some ulid, some pk =>
    match st.getMessages pk ulid 0 with
    | .ok entries =>
      entries.foldl (fun log e =>
        let plain := decryptEither P (t.channelKeys.lookup channelId)
          (t.previousChannelKeys.lookup channelId) e.nonce e.ciphertext
        (applyReaction log (plain.bind P.decodeContent) e.authorId).appendEntry channelId e) log
    | .error _ => log
  | _, _ => log

/-- The DM peers that the membership records provide. -/
def dmPeerEntries (t : Tables) : List (String × DmPeerInfo) :=
  (t.members.vals.flatMap fun list => list.vals).map
    fun r => (r.userId.text, ⟨r.displayName, r.x25519PublicKey⟩)

/-- `AppState::new` over the files and the node store of a stopped node. -/
def restart (P : Prims) (s : AppState) : AppState :=
  let store := s.nodeStore.map fun st => mergeMembers s.files st
  let tables := match store with
    | some st => backPopulateAll st s.files
    | none => s.files
  let log := match store with
    | some st => tables.channels.entries.foldl
        (fun log e => loadChannel P tables st log e.1 e.2) MessageLog.empty
    | none => MessageLog.empty
  { tables with
    dmPeers := tables.dmPeers.orInsertAll (dmPeerEntries tables)
    signingKey := s.signingKey
    displayName := s.displayName
    gossipClient := s.gossipClient
    quicPort := s.quicPort
    messageLog := log
    nodeStore := store
    connectedPeers := ∅
    pendingManifestSyncs := []
    presence := ∅
    seedConnected := []
    publicAddr := none
    actualListenAddrs := []
    pendingRotation := ∅
    files := s.files
    commands := []
    pushes := []
    blocked := false }

end AppState

end BitCord
