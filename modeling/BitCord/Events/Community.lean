import BitCord.State

/-!
# Gossip on community topics

The handlers of `community_handler.rs`. Each is one change of the application state; what it
computes for a field is a function of its own.
-/

namespace BitCord

open Lib

/-! ## What is signed -/

section

variable (P : Prims)

/-- The bytes that a member signs to announce itself. -/
def membershipBytes (userId : UserId) (communityId : CommunityId) (displayName : String)
    (joinedAt : DateTime) (roles : List Role) : Bytes :=
  toBytes userId.bytes ++ toBytes communityId.ulid ++ utf8 displayName ++
    toLeBytes (BitVec.ofInt 64 (timestampMillis joinedAt)) ++ P.encodeRoles roles

/-- The checks of `handle_member_joined`: the user is the one of the key, and the key signed the
record. -/
def MembershipRecord.selfSigned (r : MembershipRecord) : Bool :=
  P.vkValid r.publicKey && decide (r.userId = P.userIdOf r.publicKey) &&
    P.verifyBytes r.publicKey
      (membershipBytes P r.userId r.communityId r.displayName r.joinedAt r.roles) r.signature

/-- The bytes that are signed when a member leaves or is removed. -/
def memberLeftBytes (userId : UserId) (communityId : CommunityId) : Bytes :=
  toBytes userId.bytes ++ toBytes communityId.ulid ++ utf8 "leave"

/-- The bytes that an admin signs to change a role. -/
def roleUpdateBytes (userId : UserId) (communityId : CommunityId) (role : Role) : Bytes :=
  toBytes userId.bytes ++ toBytes communityId.ulid ++ P.encodeRole role ++ utf8 "role_update"

/-- The key of a member is valid and verifies the signature. -/
def MembershipRecord.signedBy (r : MembershipRecord) (msg sig : Bytes) : Bool :=
  P.vkValid r.publicKey && P.verifyBytes r.publicKey msg sig

end

def MembershipRecord.isAdmin (r : MembershipRecord) : Bool := r.roles.contains .admin

def MembershipRecord.isPrivileged (r : MembershipRecord) : Bool :=
  r.roles.any fun role => role = .admin || role = .moderator

/-! ## Channel keys -/

/-- The channel keys with the keys they replaced; `rotated` lists the channels whose key changed. -/
structure KeyRing where
  keys : Dict String Key
  previous : Dict String Key
  rotated : List String

namespace KeyRing

def of (t : Tables) : KeyRing := ⟨t.channelKeys, t.previousChannelKeys, []⟩

def install (ring : KeyRing) (channelId : String) (key : Key) : KeyRing :=
  match ring.keys.lookup channelId with
  | some old =>
    if old = key then { ring with keys := ring.keys.insert channelId key }
    else
      { keys := ring.keys.insert channelId key
        previous := ring.previous.insert channelId old
        rotated := ring.rotated ++ [channelId] }
  | none => { ring with keys := ring.keys.insert channelId key }

theorem lookup_install (ring : KeyRing) (x : String) (key : Key) (y : String) :
    (ring.install x key).keys.lookup y = if y = x then some key else ring.keys.lookup y := by
  unfold install
  split
  · split <;> exact Dict.lookup_insert_eq _ _ _ _
  · exact Dict.lookup_insert_eq _ _ _ _

/-- The key that is replaced becomes the previous one. -/
theorem previous_install {ring : KeyRing} {x : String} {key old : Key}
    (hold : ring.keys.lookup x = some old) (hne : old ≠ key) :
    (ring.install x key).previous.lookup x = some old := by
  unfold install
  rw [hold]
  dsimp only
  rw [if_neg hne]
  exact AList.lookup_insert _

/-- The keys `l` of the channel were installed one after the other. The first is the one that the
node had, and `before` is the one that it had before that. -/
structure Follows (ring : KeyRing) (x : String) (before : Option Key) (l : List Key) :
    Prop where
  keys : ring.keys.lookup x = l.getLast?
  previous : ring.previous.lookup x =
    (l.reverse.find? fun k => decide (some k ≠ l.getLast?)).or before
  rotated : x ∈ ring.rotated ↔ ∃ k ∈ l, ∃ k' ∈ l, k ≠ k'

theorem follows_of (t : Tables) (x : String) :
    (of t).Follows x (t.previousChannelKeys.lookup x) (t.channelKeys.lookup x).toList := by
  unfold of
  cases hx : t.channelKeys.lookup x with
  | none => exact ⟨hx, rfl, by simp⟩
  | some k => exact ⟨hx, by simp, by simp⟩

namespace Follows

variable {ring : KeyRing} {x : String} {before : Option Key} {l : List Key}

theorem install (h : ring.Follows x before l) (key : Key) :
    (ring.install x key).Follows x before (l ++ [key]) := by
  have hkeys : (ring.install x key).keys.lookup x = (l ++ [key]).getLast? := by
    rw [lookup_install, if_pos rfl, List.getLast?_concat]
  have hlast := h.keys
  rcases List.eq_nil_or_concat l with rfl | ⟨l', old, rfl⟩
  · -- the first key of the channel
    have hinstall : ring.install x key = { ring with keys := ring.keys.insert x key } := by
      unfold KeyRing.install
      rw [hlast]
      rfl
    rw [hinstall] at hkeys ⊢
    refine ⟨hkeys, h.previous.trans ?_, h.rotated.trans ?_⟩ <;> simp
  · rw [List.concat_eq_append] at h hlast hkeys ⊢
    rw [List.getLast?_concat] at hlast
    by_cases hsame : old = key
    · subst hsame
      have hinstall : ring.install x old = { ring with keys := ring.keys.insert x old } := by
        unfold KeyRing.install
        rw [hlast]
        exact if_pos rfl
      rw [hinstall] at hkeys ⊢
      refine ⟨hkeys, h.previous.trans ?_, h.rotated.trans ?_⟩
      · simp
      · simp
    · have hinstall : ring.install x key = ⟨ring.keys.insert x key, ring.previous.insert x old,
          ring.rotated ++ [x]⟩ := by
        unfold KeyRing.install
        rw [hlast]
        exact if_neg hsame
      rw [hinstall] at hkeys ⊢
      refine ⟨hkeys, (AList.lookup_insert _).trans ?_, ?_⟩
      · simp [hsame]
      · refine ⟨fun _ => ⟨old, by simp, key, by simp, hsame⟩, fun _ => by simp⟩

theorem install_ne (h : ring.Follows x before l) {y : String} (hy : y ≠ x) (key : Key) :
    (ring.install y key).Follows x before l := by
  refine ⟨?_, ?_, ?_⟩
  · rw [lookup_install, if_neg (Ne.symm hy), h.keys]
  all_goals unfold KeyRing.install
  · rw [← h.previous]
    split
    · split
      · rfl
      · exact AList.lookup_insert_ne (Ne.symm hy)
    · rfl
  · rw [← h.rotated]
    split
    · split
      · rfl
      · simp [Ne.symm hy]
    · rfl

end Follows

end KeyRing

def putChannel (channels : List ChannelManifest) (ch : ChannelManifest) : List ChannelManifest :=
  if channels.any fun c => decide (c.id = ch.id) then
    updateFirst (fun c => decide (c.id = ch.id)) (fun _ => ch) channels
  else channels ++ [ch]

theorem mem_putChannel {c ch : ChannelManifest} {channels : List ChannelManifest}
    (h : c ∈ putChannel channels ch) : c = ch ∨ c ∈ channels := by
  unfold putChannel at h
  split at h
  · rcases of_mem_updateFirst h with hold | ⟨_, -, -, hnew⟩
    · exact .inr hold
    · exact .inl hnew
  · rcases List.mem_append.mp h with h | h
    · exact .inr h
    · exact .inl (List.mem_singleton.mp h)

theorem self_mem_putChannel (channels : List ChannelManifest) (ch : ChannelManifest) :
    ch ∈ putChannel channels ch := by
  unfold putChannel
  split
  · next hany =>
    obtain ⟨c, hc⟩ := Option.isSome_iff_exists.mp
      (List.find?_isSome.mpr (List.any_eq_true.mp hany))
    obtain ⟨i, -, hi⟩ := exists_updateFirst_of_find? (f := fun _ => ch) hc
    exact List.mem_of_getElem? hi
  · exact List.mem_append_right channels List.mem_cons_self

namespace AppState

section

variable (P : Prims)

def unwrapOwn (s : AppState) (ch : ChannelManifest) : Option Key :=
  (ch.encryptedChannelKey.lookup (s.ownUserId P)).bind
    (decryptForSelf P (P.x25519Secret s.signingKey))

/-- The number from which the history of a channel is still missing. -/
def sinceSeq (s : AppState) (communityPk : Key) (channelId : String) : UInt64 :=
  match s.nodeStore, parseUlid channelId with
  | some st, some ulid => st.nextSeq communityPk ulid
  | _, _ => UInt64.ofNat (s.messageLog.entries channelId).length

/-! ## Channel manifests -/

def storeChannel (st : NodeStore) (communityPk : Key) (ch : ChannelManifest) : NodeStore :=
  match st.meta? communityPk with
  | some m => st.setCommunityMeta communityPk { m with channels := putChannel m.channels ch }
  | none => st

/-- The request for the history of a channel whose key arrived. -/
def catchUp (s : AppState) (communityId : String) (communityPk : Key) (channelId : String) :
    List NetworkCommand × List PushEvent :=
  match s.preferredPeer communityId with
  | some peer =>
    ([.fetchChannelHistory peer communityId communityPk channelId
        (s.sinceSeq communityPk channelId)], [.syncProgress channelId false])
  | none => ([], [])

/-- A `ChannelManifestBroadcast` on a community topic. -/
def handleChannelManifestBroadcast (s : AppState) (ch : ChannelManifest) : AppState :=
  let channelId := ch.id.text
  let communityId := ch.communityId.text
  match communityPk? s.toTables communityId with
  | none => s
  | some pk =>
    let channels := s.channels.insert channelId ch
    let stored := s.nodeStore.map fun st => storeChannel st pk ch
    match s.unwrapOwn P ch with
    | some key =>
      let ring := (KeyRing.of s.toTables).install channelId key
      let (commands, pushes) := s.catchUp communityId pk channelId
      { s with
        channels
        channelKeys := ring.keys
        previousChannelKeys := ring.previous
        nodeStore := stored
        files := { s.files with
          channels
          channelKeys := ring.keys
          previousChannelKeys :=
            if ring.rotated.isEmpty then s.files.previousChannelKeys else ring.previous }
        commands := s.commands ++ commands ++ [.subscribe (channelTopic channelId)]
        pushes := s.pushes ++ pushes }
    | none =>
      { s with
        channels
        nodeStore := stored
        files := { s.files with channels }
        commands := s.commands ++ [.subscribe (channelTopic channelId)] }

/-! ## Community manifests -/

def dialNewSeed (s : AppState) (old new : CommunityManifest) : List NetworkCommand :=
  let newSeed := new.seedNodes.headD ""
  if newSeed ≠ "" ∧ newSeed ≠ old.seedNodes.headD "" then
    match P.parseNodeAddr newSeed with
    | some addr => [.dial addr true (some (new.publicKey, new.id.text))
        (s.hostingPasswords.lookup new.id.text) ((s.seedFingerprints.lookup newSeed).getD 0)]
    | none => []
  else []

/-- Mark a community as waiting for its manifest. -/
def addPending (pending : List String) (communityId : String) : List String :=
  if pending.contains communityId then pending else pending ++ [communityId]

/-- The manifest in the stored metadata of the community that it names. -/
def storeManifest (st : NodeStore) (signed : SignedManifest) : NodeStore :=
  match st.meta? signed.manifest.publicKey with
  | some m => st.setCommunityMeta signed.manifest.publicKey { m with manifest := some signed }
  | none => st

/-- A newer manifest of a known community, not a tombstone, replaces the one in the table. -/
def applyManifestUpdate (s : AppState) (current : CommunityManifest) (new : SignedManifest)
    (source : Option String) : AppState :=
  let communityId := new.manifest.id.text
  let communities := s.communities.insert communityId new
  let added := new.manifest.channelIds.filter fun ch => !current.channelIds.contains ch
  let removed := (current.channelIds.filter fun ch => !new.manifest.channelIds.contains ch).map
    fun ch => ch.text
  let channels := s.channels.eraseAll removed
  let fetch := match source with
    | some src => [NetworkCommand.fetchManifest src communityId new.manifest.publicKey]
    | none => []
  { s with
    communities, channels
    nodeStore := s.nodeStore.map fun st => storeManifest st new
    pendingManifestSyncs := match source with
      | some _ => s.pendingManifestSyncs
      | none => addPending s.pendingManifestSyncs communityId
    files := { s.files with
      communities
      channels := if removed.isEmpty then s.files.channels else channels }
    commands := s.commands ++ added.map (fun ch => .subscribe (channelTopic ch.text)) ++
      removed.map (fun ch => .unsubscribe (channelTopic ch)) ++ fetch ++
      s.dialNewSeed P current new.manifest
    pushes := s.pushes ++ removed.map (fun ch => .channelDeleted ch communityId "") ++
      [.communityManifestUpdated communityId new.manifest.version] }

/-- A `ManifestUpdate` on a community topic. -/
def handleManifestUpdate (s : AppState) (new : SignedManifest) (source : Option String) :
    AppState :=
  let communityId := new.manifest.id.text
  if !new.verify P then s
  else
    match s.communities.lookup communityId with
    | none => s
    | some current =>
      if new.manifest.version ≤ current.manifest.version then s
      else if new.manifest.deleted then
        (s.removeCommunityLocal communityId).emit []
          [.communityDeleted communityId new.manifest.version ""]
      else s.applyManifestUpdate P current.manifest new source

/-! ## Members -/

/-- The metadata of a community with a record added to its members. -/
def storeMember (s : AppState) (record : MembershipRecord) : Option NodeStore :=
  match s.communities.lookup record.communityId.text with
  | none => s.nodeStore
  | some signed => s.nodeStore.map fun st =>
    let pk := signed.manifest.publicKey
    let m := (st.meta? pk).getD { defaultMeta pk (s.ownPk P) with manifest := some signed }
    st.setCommunityMeta pk { m with members := m.members.insert record.userId.text record }

def wrapKey (env : Env) (draw : Nat) (key : Key) (ch : ChannelManifest)
    (record : MembershipRecord) : ChannelManifest :=
  { ch with
    encryptedChannelKey := ch.encryptedChannelKey.insert record.userId
      (encryptForMember P key record.x25519PublicKey (env.key draw) (env.nonce draw)) }

def publishChannel (communityId : String) (ch : ChannelManifest) : NetworkCommand :=
  .publish (communityTopic communityId) (P.encodeEvent (.channelManifestBroadcast ch))

/-- Wrap the key of one channel for a new member and publish the manifest, unless the member has
the key or the node lacks it. -/
def wrapForJoinerStep (env : Env) (keys : Dict String Key) (record : MembershipRecord)
    (acc : Dict String ChannelManifest × List NetworkCommand) (channel : String × Nat) :
    Dict String ChannelManifest × List NetworkCommand :=
  match keys.lookup channel.1, acc.1.lookup channel.1 with
  | some key, some ch =>
    if record.userId ∈ ch.encryptedChannelKey then acc
    else
      let ch := wrapKey P env channel.2 key ch record
      (acc.1.insert channel.1 ch, acc.2 ++ [publishChannel P record.communityId.text ch])
  | _, _ => acc

/-- The channels after the admin wrapped the channel keys for a new member, with what it
publishes. Any other node does nothing. -/
def wrapForJoiner (env : Env) (s : AppState) (record : MembershipRecord) :
    Dict String ChannelManifest × List NetworkCommand :=
  match s.communities.lookup record.communityId.text with
  | some signed =>
    if signed.manifest.publicKey = s.ownPk P then
      (signed.manifest.channelIds.map fun ch => ch.text).zipIdx.foldl
        (wrapForJoinerStep P env s.channelKeys record) (s.channels, [])
    else (s.channels, [])
  | none => (s.channels, [])

/-- `handle_member_joined`. -/
def handleMemberJoined (env : Env) (s : AppState) (record : MembershipRecord) : AppState :=
  let communityId := record.communityId.text
  let userId := record.userId.text
  if !record.selfSigned P then s
  else if (banList s.toTables communityId).contains userId then s
  else
    let members := s.members.upsert communityId ∅ fun list => list.insert userId record
    let dmPeers := s.dmPeers.insert userId ⟨record.displayName, record.x25519PublicKey⟩
    let (channels, published) := wrapForJoiner P env s record
    { s with
      members, dmPeers, channels
      nodeStore := storeMember P s record
      files := { s.files with
        members, dmPeers
        channels := if published.isEmpty then s.files.channels else channels }
      commands := s.commands ++ published
      pushes := s.pushes ++ [.memberJoined userId communityId record.displayName] }

def unstoreMember (s : AppState) (communityId userId : String) : Option NodeStore :=
  match communityPk? s.toTables communityId with
  | none => s.nodeStore
  | some pk => s.nodeStore.map fun st =>
    match st.meta? pk with
    | some m => st.setCommunityMeta pk { m with members := m.members.erase userId }
    | none => st

/-- `handle_member_left`: the member itself, an admin or a moderator must have signed. -/
def handleMemberLeft (s : AppState) (payload : MemberLeftPayload) : AppState :=
  let communityId := payload.communityId.text
  let userId := payload.userId.text
  let msg := memberLeftBytes payload.userId payload.communityId
  let valid := (memberList s.toTables communityId).any fun r =>
    (decide (r.userId = payload.userId) || r.isPrivileged) && r.signedBy P msg payload.signature
  if !valid then s
  else
    match member? s.toTables communityId userId with
    | none => s
    | some removed =>
      let members := s.members.adjust communityId fun list => list.erase userId
      { s with
        members
        nodeStore := unstoreMember s communityId userId
        files := { s.files with members }
        pushes := s.pushes ++ [.memberLeft userId communityId removed.displayName] }

def Role.text : Role → String
  | .admin => "admin"
  | .moderator => "moderator"
  | .member => "member"

/-- `handle_member_role_updated`: an admin must have signed. -/
def handleMemberRoleUpdated (s : AppState) (payload : MemberRoleUpdatedPayload) : AppState :=
  let communityId := payload.communityId.text
  let userId := payload.userId.text
  let msg := roleUpdateBytes P payload.userId payload.communityId payload.newRole
  let valid := (memberList s.toTables communityId).any fun r =>
    r.isAdmin && r.signedBy P msg payload.signature
  if !valid then s
  else
    match member? s.toTables communityId userId with
    | none => s
    | some _ =>
      let members := s.members.adjust communityId fun list =>
        Dict.adjust userId (fun r => { r with roles := [payload.newRole] }) list
      { s with
        members
        files := { s.files with members }
        pushes := s.pushes ++ [.memberRoleUpdated userId communityId (Role.text payload.newRole)] }

/-! ## Presence -/

/-- The status that a heartbeat names; any other text means offline. -/
def statusOf (status : String) : UserStatus × String :=
  if status = "online" then (.online, "online")
  else if status = "idle" then (.idle, "idle")
  else if status = "do_not_disturb" then (.doNotDisturb, "do_not_disturb")
  else if status = "invisible" then (.invisible, "invisible")
  else (.offline, "offline")

def presenceBytes (hb : PresenceHeartbeatPayload) : Bytes :=
  toBytes hb.userId.bytes ++ utf8 hb.status ++
    toLeBytes (BitVec.ofInt 64 (timestampMillis hb.timestamp))

/-- A `PresenceHeartbeat`; a signature that has not 64 bytes is read as zeros. -/
def handlePresenceHeartbeat (s : AppState) (hb : PresenceHeartbeatPayload) : AppState :=
  let records := s.members.vals.flatMap fun list => list.vals
  match records.find? fun r => decide (r.userId = hb.userId) with
  | none => s
  | some r =>
    let sig := (tryIntoArray 512 hb.signature).getD 0
    if P.vkValid r.publicKey && P.verify r.publicKey (presenceBytes hb) sig then
      let (status, text) := statusOf hb.status
      { s with
        presence := s.presence.insert hb.userId.text status
        pushes := s.pushes ++ [.presenceChanged hb.userId.text text hb.timestamp] }
    else s

/-! ## Dispatch -/

/-- `handle_community_message`: the other events are not used on community topics. -/
def handleCommunityMessage (env : Env) (s : AppState) (data : Bytes) (source : Option String) :
    AppState :=
  match P.decodeEvent data with
  | some (.channelManifestBroadcast ch) => s.handleChannelManifestBroadcast P ch
  | some (.manifestUpdate signed) => s.handleManifestUpdate P signed source
  | some (.memberJoined record) => s.handleMemberJoined P env record
  | some (.memberLeft payload) => s.handleMemberLeft P payload
  | some (.memberRoleUpdated payload) => s.handleMemberRoleUpdated P payload
  | some (.presenceHeartbeat hb) => s.handlePresenceHeartbeat P hb
  | _ => s

end

/-! ## Joining as a hosting node -/

/-- The manifest that stands for a community whose manifest has not arrived. -/
def placeholder (id : CommunityId) (communityPk : Key) (now : DateTime) : SignedManifest :=
  ⟨{ id, name := "Syncing...", description := "", publicKey := communityPk, createdAt := now,
     adminIds := [], channelIds := [], seedNodes := [], version := 0, deleted := false },
    toBytes (0 : Signature)⟩

/-- `handle_community_joined`: a placeholder is not written to the file. -/
def handleCommunityJoined (env : Env) (s : AppState) (communityPk : Key) (communityId : String) :
    AppState :=
  let s := s.emit [.subscribe (communityTopic communityId)] []
  match s.nodeStore.bind fun st => st.meta? communityPk with
  | none => s
  | some m =>
    if communityId ∈ s.communities then s
    else
      match m.manifest with
      | some manifest =>
        let communities := s.communities.insert communityId manifest
        { s with communities, files := { s.files with communities } }
      | none =>
        let id : CommunityId := ⟨(parseUlid communityId).getD (env.ulid 0)⟩
        { s with
          communities := s.communities.insert communityId (placeholder id communityPk env.now)
          pendingManifestSyncs := addPending s.pendingManifestSyncs communityId }

end AppState

end BitCord
