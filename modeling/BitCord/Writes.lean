import BitCord.Node

/-!
# What events and calls write

A handler checks what it got and then writes once, or not at all. The writes are listed here, each
with what the checks have found and with the state that it leaves. What an event or a call leaves
alone, and what it can change, follows from the lists.
-/

namespace BitCord

open Lib

variable {s : AppState} {m : ManifestReceived} {c : String}

variable (replaying : Bool)

namespace AppState

/-! ## Connections, presence and outboxes -/

/-- The fields that no table, no file and no log depends on. -/
structure Aside where
  connectedPeers : Dict String (List PeerSummary)
  pendingManifestSyncs : List String
  presence : Dict String UserStatus
  seedConnected : List String
  publicAddr : Option String
  actualListenAddrs : List String
  commands : List NetworkCommand
  pushes : List PushEvent
  blocked : Bool

abbrev beside (s : AppState) (a : Aside) : AppState :=
  { s with
    connectedPeers := a.connectedPeers
    pendingManifestSyncs := a.pendingManifestSyncs
    presence := a.presence
    seedConnected := a.seedConnected
    publicAddr := a.publicAddr
    actualListenAddrs := a.actualListenAddrs
    commands := a.commands
    pushes := a.pushes
    blocked := a.blocked }

abbrev out (s : AppState) (commands : List NetworkCommand) (pushes : List PushEvent) : AppState :=
  { s with commands, pushes }

def aside (s : AppState) : Aside :=
  ⟨s.connectedPeers, s.pendingManifestSyncs, s.presence, s.seedConnected, s.publicAddr,
    s.actualListenAddrs, s.commands, s.pushes, s.blocked⟩

/-! ## Gossip on channel topics -/

/-- A rotation that the node takes: signed by the community that the new manifest names, and
newer than what the node has. -/
structure RotationTaken (P : Prims) (s : AppState) (pk : Key)
    (payload : ChannelKeyRotationPayload) : Prop where
  community : communityPk? s.toTables payload.newManifest.communityId.text = some pk
  verified : rotationVerified P pk payload = true
  newer : isNewerChannel s.toTables payload.newManifest = true

/-- Put a channel manifest into the table, its file and the stored metadata. -/
def putListed (s : AppState) (pk : Key) (ch : ChannelManifest) : AppState :=
  let channels := s.channels.insert ch.id.text ch
  { s with
    channels
    nodeStore := s.nodeStore.map fun st => storeChannel st pk ch
    files := { s.files with channels } }

/-- The writes of the handlers of channel topics. A handler that has to wait for a lock of its own
writes less and blocks. -/
inductive ChannelWrite (P : Prims) (replaying : Bool) (s : AppState) :
    NetworkEvent → AppState → Prop
  | logged {raw : RawMessage} {ch : ChannelManifest} {key : Key} {plaintext : Bytes}
      {pushes : List PushEvent} :
      s.channels.lookup raw.channelId.text = some ch →
      s.channelKeys.lookup raw.channelId.text = some key →
      decryptEither P (some key) (s.previousChannelKeys.lookup raw.channelId.text) raw.nonce
        raw.ciphertext = some plaintext →
      authorVerified P s.toTables ch.communityId.text raw = true →
      s.messageLog.getEntry raw.channelId.text raw.id.text = none →
      ChannelWrite P replaying s (.newMessage raw)
        { s with
          messageLog := logMessage s.messageLog raw (P.decodeContent plaintext)
          nodeStore := storeMessage s ch.communityId.text raw
          pushes }
  | buffered {raw : RawMessage} {topic : String} {data : Bytes} : replaying = false →
      P.decodeEvent data = some (.newMessage raw) →
      ChannelWrite P replaying s (.newMessage raw)
        { s with
          pendingRotation := s.pendingRotation.adjust raw.channelId.text fun buf =>
            buf ++ [(topic, data)] }
  | stalled {raw : RawMessage} : replaying = true →
      ChannelWrite P replaying s (.newMessage raw) { s with blocked := true }
  | edited {payload : EditMessagePayload} {pushes : List PushEvent} :
      isAuthor s.messageLog payload.channelId.text payload.messageId.text payload.authorId.text =
        true →
      ChannelWrite P replaying s (.editMessage payload)
        { s with
          messageLog := s.messageLog.edit payload.channelId.text payload.messageId.text
            payload.newNonce payload.newCiphertext
          pushes }
  | deleted {payload : DeleteMessagePayload} {pushes : List PushEvent} :
      isAuthor s.messageLog payload.channelId.text payload.messageId.text payload.authorId.text =
        true →
      ChannelWrite P replaying s (.deleteMessage payload)
        { s with
          messageLog := s.messageLog.tombstone payload.channelId.text payload.messageId.text
          pushes }
  | rotated {payload : ChannelKeyRotationPayload} {pk : Key} {commands : List NetworkCommand} :
      replaying = false → RotationTaken P s pk payload →
      ChannelWrite P replaying s (.channelKeyRotation payload)
        (({ s with
          pendingRotation := s.pendingRotation.orInsert payload.newManifest.id.text [] }).putListed
            pk payload.newManifest |>.out commands s.pushes)
  | rotationStalled {payload : ChannelKeyRotationPayload} {pk : Key} : replaying = true →
      RotationTaken P s pk payload →
      ChannelWrite P replaying s (.channelKeyRotation payload)
        (({ s with blocked := true }).putListed pk payload.newManifest)

section

variable {P : Prims}

theorem handleNewMessage_write (s : AppState) (topic : String) {data : Bytes} {raw : RawMessage}
    (hd : P.decodeEvent data = some (.newMessage raw)) :
    s.handleNewMessage P replaying topic data raw = s ∨
      ChannelWrite P replaying s (.newMessage raw)
        (s.handleNewMessage P replaying topic data raw) := by
  rcases handleNewMessage_cases (P := P) replaying s topic data raw with
    h | ⟨ch, key, plaintext, hch, hkey, hopen, h⟩ | h
  · exact .inl h
  · rw [h]
    rcases acceptMessage_cases (P := P) s ch.communityId.text raw plaintext with
      h | ⟨hauthor, hnew, pushes, h⟩
    · exact .inl h
    · rw [h]
      exact .inr (.logged hch hkey hopen hauthor hnew)
  · rw [h]
    cases replaying with
    | true => exact .inr (.stalled rfl)
    | false => exact .inr (.buffered rfl hd)

theorem handleChannelKeyRotation_write (s : AppState) (payload : ChannelKeyRotationPayload) :
    s.handleChannelKeyRotation P replaying payload = s ∨
      ChannelWrite P replaying s (.channelKeyRotation payload)
        (s.handleChannelKeyRotation P replaying payload) := by
  unfold handleChannelKeyRotation
  dsimp only
  split
  · exact .inl rfl
  · next pk hpk =>
    split
    · exact .inl rfl
    · next hverified =>
      split
      · exact .inl rfl
      · next hnewer =>
        have htaken : RotationTaken P s pk payload :=
          ⟨hpk, by simpa using hverified, by simpa using hnewer⟩
        cases replaying with
        | true => exact .inr (.rotationStalled rfl htaken)
        | false => exact .inr (.rotated rfl htaken)

theorem handleEditMessage_write (s : AppState) (payload : EditMessagePayload) :
    s.handleEditMessage P payload = s ∨
      ChannelWrite P replaying s (.editMessage payload) (s.handleEditMessage P payload) := by
  unfold handleEditMessage
  dsimp only
  split
  · exact .inl rfl
  · next hauthor =>
    have hauthor : isAuthor s.messageLog payload.channelId.text payload.messageId.text
        payload.authorId.text = true := by simpa using hauthor
    split
    · exact .inr (.edited hauthor)
    · exact .inr (.edited hauthor)

theorem handleDeleteMessage_write (s : AppState) (payload : DeleteMessagePayload) :
    s.handleDeleteMessage payload = s ∨
      ChannelWrite P replaying s (.deleteMessage payload) (s.handleDeleteMessage payload) := by
  unfold handleDeleteMessage
  dsimp only
  split
  · exact .inl rfl
  · next hauthor =>
    have hauthor : isAuthor s.messageLog payload.channelId.text payload.messageId.text
        payload.authorId.text = true := by simpa using hauthor
    split
    · exact .inr (.deleted hauthor)
    · exact .inr (.deleted hauthor)

theorem handleChannelMessage_write (s : AppState) (topic : String) (data : Bytes) :
    s.handleChannelMessage P replaying topic data = s ∨
      ∃ ev, P.decodeEvent data = some ev ∧
        ChannelWrite P replaying s ev (s.handleChannelMessage P replaying topic data) := by
  unfold handleChannelMessage
  split
  · next raw hd => exact (handleNewMessage_write replaying s topic hd).imp_right (⟨_, hd, ·⟩)
  · next payload hd =>
    exact (handleChannelKeyRotation_write replaying s payload).imp_right (⟨_, hd, ·⟩)
  · next payload hd => exact (handleEditMessage_write replaying s payload).imp_right (⟨_, hd, ·⟩)
  · next payload hd => exact (handleDeleteMessage_write replaying s payload).imp_right (⟨_, hd, ·⟩)
  · exact .inl rfl

end

/-! ## Gossip on community topics -/

section

variable (P : Prims)

/-- `handle_member_joined` takes the record in. -/
def JoinAccepted (s : AppState) (r : MembershipRecord) : Prop :=
  r.selfSigned P = true ∧ r.userId.text ∉ banList s.toTables r.communityId.text

def RoleSigned (s : AppState) (payload : MemberRoleUpdatedPayload) : Prop :=
  ∃ a ∈ memberList s.toTables payload.communityId.text, a.isAdmin = true ∧
    a.signedBy P (roleUpdateBytes P payload.userId payload.communityId payload.newRole)
      payload.signature = true

end

end AppState

open AppState

section

variable (P : Prims) (s : AppState)

/-- `handle_member_left` accepts the signature: the member itself, an admin or a moderator. -/
def LeftAccepted (payload : MemberLeftPayload) : Prop :=
  ∃ r ∈ memberList s.toTables payload.communityId.text,
    (r.userId = payload.userId ∨ r.isPrivileged = true) ∧
      r.signedBy P (memberLeftBytes payload.userId payload.communityId) payload.signature = true

/-- A manifest update verifies and is newer than the manifest of its community. -/
structure NewerUpdate (new current : SignedManifest) : Prop where
  verified : new.verify P = true
  known : s.communities.lookup new.manifest.id.text = some current
  newer : current.manifest.version < new.manifest.version

end

variable (env : Env)

namespace AppState

/-- Put a table of members in the place of the one that the node has, and into its file. -/
def putMembers (s : AppState) (members : Dict String (Dict String MembershipRecord)) : AppState :=
  { s with members, files := { s.files with members } }

def putBans (s : AppState) (bans : Dict String (List String)) : AppState :=
  { s with bans, files := { s.files with bans } }

/-- The tables, the files and the store with a record that is taken in. -/
def putJoined (P : Prims) (env : Env) (s : AppState) (record : MembershipRecord) : AppState :=
  let members := s.members.upsert record.communityId.text ∅ fun list =>
    list.insert record.userId.text record
  let dmPeers := s.dmPeers.insert record.userId.text ⟨record.displayName, record.x25519PublicKey⟩
  let (channels, published) := wrapForJoiner P env s record
  { s with
    members, dmPeers, channels
    nodeStore := storeMember P s record
    files := { s.files with
      members, dmPeers
      channels := if published.isEmpty then s.files.channels else channels } }

/-- The writes of the handlers of community topics. -/
inductive CommunityWrite (P : Prims) (env : Env) (s : AppState) : NetworkEvent → AppState → Prop
  | listed {ch : ChannelManifest} {pk : Key} {commands : List NetworkCommand} :
      communityPk? s.toTables ch.communityId.text = some pk → s.unwrapOwn P ch = none →
      CommunityWrite P env s (.channelManifestBroadcast ch)
        ((s.putListed pk ch).out commands s.pushes)
  | keyed {ch : ChannelManifest} {pk key : Key} {commands : List NetworkCommand}
      {pushes : List PushEvent} :
      communityPk? s.toTables ch.communityId.text = some pk → s.unwrapOwn P ch = some key →
      CommunityWrite P env s (.channelManifestBroadcast ch)
        (((s.putListed pk ch).putKey ch.id.text key).out commands pushes)
  | removed {new current : SignedManifest} {commands : List NetworkCommand}
      {pushes : List PushEvent} : NewerUpdate P s new current → new.manifest.deleted = true →
      CommunityWrite P env s (.manifestUpdate new)
        ((s.removeCommunityLocal new.manifest.id.text).out commands pushes)
  | updated {new current : SignedManifest} {source : Option String} :
      NewerUpdate P s new current → new.manifest.deleted = false →
      CommunityWrite P env s (.manifestUpdate new)
        (s.applyManifestUpdate P current.manifest new source)
  | joined {record : MembershipRecord} {commands : List NetworkCommand}
      {pushes : List PushEvent} : JoinAccepted P s record →
      CommunityWrite P env s (.memberJoined record)
        ((s.putJoined P env record).out commands pushes)
  | left {payload : MemberLeftPayload} {removed : MembershipRecord} {pushes : List PushEvent} :
      LeftAccepted P s payload →
      member? s.toTables payload.communityId.text payload.userId.text = some removed →
      CommunityWrite P env s (.memberLeft payload)
        (({ s with
          nodeStore := unstoreMember s payload.communityId.text payload.userId.text }).putMembers
            (s.members.adjust payload.communityId.text fun list =>
              list.erase payload.userId.text) |>.out s.commands pushes)
  | roleUpdated {payload : MemberRoleUpdatedPayload} {old : MembershipRecord}
      {pushes : List PushEvent} : RoleSigned P s payload →
      member? s.toTables payload.communityId.text payload.userId.text = some old →
      CommunityWrite P env s (.memberRoleUpdated payload)
        ((s.putMembers (s.members.adjust payload.communityId.text fun list =>
          Dict.adjust payload.userId.text (fun r => { r with roles := [payload.newRole] })
            list)).out s.commands pushes)
  | present {hb : PresenceHeartbeatPayload} {presence : Dict String UserStatus}
      {pushes : List PushEvent} :
      CommunityWrite P env s (.presenceHeartbeat hb) { s with presence, pushes }

section

variable {P : Prims}

theorem handleChannelManifestBroadcast_write (s : AppState) (ch : ChannelManifest) :
    s.handleChannelManifestBroadcast P ch = s ∨
      CommunityWrite P env s (.channelManifestBroadcast ch)
        (s.handleChannelManifestBroadcast P ch) := by
  unfold handleChannelManifestBroadcast
  dsimp only
  split
  · exact .inl rfl
  · next pk hpk =>
    split
    · next key hkey => exact .inr (.keyed hpk hkey)
    · next hkey => exact .inr (.listed hpk hkey)

theorem handleManifestUpdate_write (s : AppState) (new : SignedManifest) (source : Option String) :
    s.handleManifestUpdate P new source = s ∨
      CommunityWrite P env s (.manifestUpdate new) (s.handleManifestUpdate P new source) := by
  unfold handleManifestUpdate
  dsimp only
  split
  · exact .inl rfl
  · next hverify =>
    split
    · exact .inl rfl
    · next current hcurrent =>
      split
      · exact .inl rfl
      · next hversion =>
        have hnewer : NewerUpdate P s new current :=
          ⟨by simpa using hverify, hcurrent, UInt64.not_le.mp hversion⟩
        split
        · next hdeleted => exact .inr (.removed hnewer hdeleted)
        · next hlive => exact .inr (.updated hnewer (by simpa using hlive))

theorem handleMemberJoined_write (s : AppState) (record : MembershipRecord) :
    s.handleMemberJoined P env record = s ∨
      CommunityWrite P env s (.memberJoined record) (s.handleMemberJoined P env record) := by
  unfold handleMemberJoined
  dsimp only
  split
  · exact .inl rfl
  · next hsigned =>
    split
    · exact .inl rfl
    · next hbanned => exact .inr (.joined ⟨by simpa using hsigned, by simpa using hbanned⟩)

theorem handleMemberLeft_write (s : AppState) (payload : MemberLeftPayload) :
    s.handleMemberLeft P payload = s ∨
      CommunityWrite P env s (.memberLeft payload) (s.handleMemberLeft P payload) := by
  unfold handleMemberLeft
  dsimp only
  split
  · exact .inl rfl
  · next hvalid =>
    split
    · exact .inl rfl
    · next removed hremoved =>
      exact .inr (.left (by simpa [LeftAccepted, List.any_eq_true] using hvalid) hremoved)

theorem handleMemberRoleUpdated_write (s : AppState) (payload : MemberRoleUpdatedPayload) :
    s.handleMemberRoleUpdated P payload = s ∨
      CommunityWrite P env s (.memberRoleUpdated payload)
        (s.handleMemberRoleUpdated P payload) := by
  unfold handleMemberRoleUpdated
  dsimp only
  split
  · exact .inl rfl
  · next hvalid =>
    split
    · exact .inl rfl
    · next old hold =>
      exact .inr (.roleUpdated (by simpa [RoleSigned, List.any_eq_true] using hvalid) hold)

theorem handlePresenceHeartbeat_write (s : AppState) (hb : PresenceHeartbeatPayload) :
    s.handlePresenceHeartbeat P hb = s ∨
      CommunityWrite P env s (.presenceHeartbeat hb) (s.handlePresenceHeartbeat P hb) := by
  unfold handlePresenceHeartbeat
  dsimp only
  split
  · exact .inl rfl
  · split
    · exact .inr .present
    · exact .inl rfl

theorem handleCommunityMessage_write (s : AppState) (data : Bytes) (source : Option String) :
    s.handleCommunityMessage P env data source = s ∨
      ∃ ev, P.decodeEvent data = some ev ∧
        CommunityWrite P env s ev (s.handleCommunityMessage P env data source) := by
  unfold handleCommunityMessage
  split
  · next ch hd => exact (handleChannelManifestBroadcast_write env s ch).imp_right (⟨_, hd, ·⟩)
  · next new hd => exact (handleManifestUpdate_write env s new source).imp_right (⟨_, hd, ·⟩)
  · next record hd => exact (handleMemberJoined_write env s record).imp_right (⟨_, hd, ·⟩)
  · next payload hd => exact (handleMemberLeft_write env s payload).imp_right (⟨_, hd, ·⟩)
  · next payload hd => exact (handleMemberRoleUpdated_write env s payload).imp_right (⟨_, hd, ·⟩)
  · next hb hd => exact (handlePresenceHeartbeat_write env s hb).imp_right (⟨_, hd, ·⟩)
  · exact .inl rfl

end

/-! ## Fetched manifests -/

section

variable {P : Prims} {R : AppState → AppState → Prop}

variable (P) in
/-- The event waits in a buffer for the key of a channel. -/
def Awaits (s : AppState) (ev : NetworkEvent) : Prop :=
  ∃ x buf, s.pendingRotation.lookup x = some buf ∧ ∃ msg ∈ buf, P.decodeEvent msg.2 = some ev

/-- What relates the states around each write of a message that waits, and around an emptied
buffer, relates the states around a replay. -/
theorem replay_rel (hrefl : ∀ s, R s s) (htrans : ∀ {s t u}, R s t → R t u → R s u)
    (hwrite : ∀ {t ev t'}, s.Awaits P ev → ChannelWrite P true t ev t' → R t t')
    (herase : ∀ s x, R s { s with pendingRotation := s.pendingRotation.erase x })
    (rotated : List String) : R s (s.replay P rotated) := by
  -- a replay buffers nothing, so all that it handles was there at its start
  have hone : ∀ t msg, (∀ ev, P.decodeEvent msg.2 = some ev → s.Awaits P ev) →
      R t (t.replayOne P msg) ∧ (t.replayOne P msg).pendingRotation = t.pendingRotation := by
    intro t msg hmsg
    unfold replayOne
    split
    · exact ⟨hrefl t, rfl⟩
    · rcases handleChannelMessage_write (P := P) true t msg.1 msg.2 with h | ⟨ev, hd, h⟩
      · rw [h]
        exact ⟨hrefl t, rfl⟩
      · refine ⟨hwrite (hmsg ev hd) h, ?_⟩
        generalize t.handleChannelMessage P true msg.1 msg.2 = t' at h
        cases h with
        | buffered h => cases h
        | rotated h => cases h
        | _ => rfl
  have hbuffer : ∀ (msgs : List (String × Bytes)) t,
      (∀ msg ∈ msgs, ∀ ev, P.decodeEvent msg.2 = some ev → s.Awaits P ev) →
      R t (msgs.foldl (replayOne P) t) ∧
        (msgs.foldl (replayOne P) t).pendingRotation = t.pendingRotation := by
    intro msgs
    induction msgs with
    | nil => exact fun t _ => ⟨hrefl t, rfl⟩
    | cons msg msgs ih =>
      intro t hmsgs
      have hfirst := hone t msg (hmsgs msg List.mem_cons_self)
      have hrest := ih (t.replayOne P msg) fun m hm => hmsgs m (List.mem_cons_of_mem msg hm)
      exact ⟨htrans hfirst.1 hrest.1, hrest.2.trans hfirst.2⟩
  have hchannels : ∀ (l : List String) t,
      (∀ x buf, t.pendingRotation.lookup x = some buf → s.pendingRotation.lookup x = some buf) →
      R t (l.foldl (replayChannel P) t) := by
    intro l
    induction l with
    | nil => exact fun t _ => hrefl t
    | cons x l ih =>
      intro t ht
      have hfirst : R t (t.replayChannel P x) ∧ ∀ y buf,
          (t.replayChannel P x).pendingRotation.lookup y = some buf →
            s.pendingRotation.lookup y = some buf := by
        unfold replayChannel
        split
        · exact ⟨hrefl t, ht⟩
        · split
          · next buf hbuf =>
            obtain ⟨hrel, hpending⟩ := hbuffer buf
              { t with pendingRotation := t.pendingRotation.erase x }
              fun msg hmsg ev hd => ⟨x, buf, ht x buf hbuf, msg, hmsg, hd⟩
            refine ⟨htrans (herase t x) hrel, fun y b hy => ?_⟩
            rw [hpending, Dict.lookup_erase_eq] at hy
            split at hy
            · cases hy
            · exact ht y b hy
          · exact ⟨hrefl t, ht⟩
      exact htrans hfirst.1 (ih _ hfirst.2)
  exact hchannels rotated s fun _ _ h => h

variable (P) in
def wrapLoop (env : Env) (s : AppState) (m : ManifestReceived) : WrapLoop :=
  m.channelIds.foldl (wrapChannelStep P env s m.communityId) ⟨s.channels, [], 0⟩

def putWrapped (s : AppState) (done : WrapLoop) : AppState :=
  { s with
    channels := done.channels
    files := { s.files with
      channels := if done.published.isEmpty then s.files.channels else done.channels }
    commands := s.commands ++ done.published }

/-- What relates the states around each part that follows the replay relates those around the
whole. -/
theorem settleManifest_rel
    (hout : ∀ s commands pushes, R s (s.out commands pushes))
    (htrans : ∀ {s t u}, R s t → R t u → R s u) (hmembers : ∀ s, R s (s.receiveMembership P m))
    (hwrap : ∀ env s, m.communityPk = s.ownPk P → R s (s.putWrapped (wrapLoop P env s m)))
    (hjoined : ∀ {env s roles s'}, CommunityWrite P env s (.memberJoined
      (s.ownRecord P m.manifest.manifest.id (s.peerId P) roles env.now)) s' → R s s')
    (env : Env) (s : AppState) (rotated : List String) (needsKeyRefetch : Bool) :
    R s (s.settleManifest P env m rotated needsKeyRefetch) := by
  have hrefl : ∀ s, R s s := fun s => hout s s.commands s.pushes
  have hwrapped : ∀ t : AppState, R t (t.wrapForMembers P env m) := by
    intro t
    unfold wrapForMembers
    split
    · exact hrefl t
    · next hpk => exact hwrap env t (not_not.mp hpk)
  have hadmitted : R s (s.admitMembers P env m rotated) :=
    htrans (hout s _ _) (htrans (hmembers _) (htrans (hwrapped _) (hout _ _ _)))
  have hself : ∀ env t, R t (t.announceSelf P env m) := by
    intro env t
    unfold announceSelf
    split
    · exact hrefl t
    · refine htrans ?_ (hout _ _ _)
      rcases handleMemberJoined_write (P := P) env t _ with h | h
      · rw [h]
        exact hrefl t
      · exact hjoined h
  unfold settleManifest finishManifest
  dsimp only
  split <;> exact htrans hadmitted (htrans (hself _ _) (hout _ _ _))

end

/-! ## Events -/

section

variable (P : Prims)

/-- The state in which `handle_manifest_received` takes the members in: the other tables are
received and the buffered messages replayed. -/
def afterReplay (s : AppState) (m : ManifestReceived) : AppState :=
  let s' := { s with
    pendingManifestSyncs :=
      if 0 < m.manifest.manifest.version then
        s.pendingManifestSyncs.filter fun id => decide (id ≠ m.communityId)
      else s.pendingManifestSyncs }
  (s'.receiveTables P m).replay P (s.receiveKeys P m).rotated

/-- What one event writes. -/
inductive EventWrite (env : Env) (s : AppState) : SwarmEvent → AppState → Prop
  | aside {e : SwarmEvent} {a : Aside} : EventWrite env s e (s.beside a)
  | channel {topic : String} {data : Bytes} {source : Option String} {ev : NetworkEvent}
      {s' : AppState} : s.blocked = false → isChannelTopic topic = true →
      P.decodeEvent data = some ev → ChannelWrite P false s ev s' →
      EventWrite env s (.messageReceived topic data source) s'
  | community {topic : String} {data : Bytes} {source : Option String} {ev : NetworkEvent}
      {s' : AppState} : s.blocked = false → isChannelTopic topic = false →
      isCommunityTopic topic = true → P.decodeEvent data = some ev →
      CommunityWrite P env s ev s' → EventWrite env s (.messageReceived topic data source) s'
  | tombstone {m : ManifestReceived} {a : Aside} : s.blocked = false →
      m.manifest.verify P = true → m.manifest.manifest.deleted = true →
      EventWrite env s (.manifestReceived m) ((s.removeCommunityLocal m.communityId).beside a)
  | stalled {m : ManifestReceived} : s.blocked = false → m.manifest.verify P = true →
      m.manifest.manifest.deleted = false → (s.afterReplay P m).blocked = true →
      EventWrite env s (.manifestReceived m) (s.afterReplay P m)
  | received {m : ManifestReceived} : s.blocked = false → m.manifest.verify P = true →
      m.manifest.manifest.deleted = false → (s.afterReplay P m).blocked = false →
      EventWrite env s (.manifestReceived m)
        ((s.afterReplay P m).settleManifest P env m (s.receiveKeys P m).rotated
          (m.channelIds.any fun ch => decide (ch ∉ (s.receiveKeys P m).keys)))
  | history {c ch : String} {entries : List LogEntry} : s.blocked = false →
      EventWrite env s (.channelHistoryReceived c ch entries)
        (s.handleChannelHistoryReceived P c ch entries)
  | hosted {pk : Key} {c : String} {stored : CommunityMeta} {manifest : SignedManifest}
      {a : Aside} :
      s.blocked = false → (s.nodeStore.bind fun st => st.meta? pk) = some stored →
      c ∉ s.communities → stored.manifest = some manifest →
      EventWrite env s (.communityJoined pk c) ((s.putCommunity c manifest).beside a)
  | awaited {pk : Key} {c : String} {stored : CommunityMeta} {a : Aside} :
      s.blocked = false → (s.nodeStore.bind fun st => st.meta? pk) = some stored →
      c ∉ s.communities → stored.manifest = none →
      EventWrite env s (.communityJoined pk c) (({ s with
        communities := s.communities.insert c
          (placeholder ⟨(parseUlid c).getD (env.ulid 0)⟩ pk env.now) }).beside a)
  | failed {c reason : String} {a : Aside} : s.blocked = false →
      EventWrite env s (.communityJoinFailed c reason) ((s.removeCommunityLocal c).beside a)

variable {P}

theorem handleManifestReceived_of_live (hverify : m.manifest.verify P = true)
    (hlive : m.manifest.manifest.deleted = false) :
    s.handleManifestReceived P env m =
      if (s.afterReplay P m).blocked then s.afterReplay P m
      else (s.afterReplay P m).settleManifest P env m (s.receiveKeys P m).rotated
        (m.channelIds.any fun ch => decide (ch ∉ (s.receiveKeys P m).keys)) := by
  unfold handleManifestReceived
  rw [hverify, hlive, if_neg (by decide), if_neg (by decide)]
  rfl

theorem afterReplay_rel {R : AppState → AppState → Prop} (haside : ∀ s a, R s (s.beside a))
    (htrans : ∀ {s t u}, R s t → R t u → R s u)
    (hwrite : ∀ {t ev t'}, s.Awaits P ev → ChannelWrite P true t ev t' → R t t')
    (herase : ∀ s x, R s { s with pendingRotation := s.pendingRotation.erase x })
    (m : ManifestReceived) : R (s.receiveTables P m) (s.afterReplay P m) := by
  refine htrans (haside _ { (s.receiveTables P m).aside with pendingManifestSyncs := _ })
    (replay_rel (fun s => haside s s.aside) htrans ?_ herase _)
  exact hwrite

theorem handleManifestReceived_write (hs : s.blocked = false) (m : ManifestReceived) :
    EventWrite P env s (.manifestReceived m) (s.handleManifestReceived P env m) := by
  cases hverify : m.manifest.verify P with
  | false =>
    have hignored : s.handleManifestReceived P env m = s := by
      unfold handleManifestReceived
      rw [hverify]
      rfl
    rw [hignored]
    exact .aside (a := s.aside)
  | true =>
    cases hdeleted : m.manifest.manifest.deleted with
    | true =>
      have hremoved : s.handleManifestReceived P env m =
          (s.removeCommunityLocal m.communityId).beside
            (s.handleManifestReceived P env m).aside := by
        unfold handleManifestReceived
        rw [hverify, hdeleted]
        rfl
      rw [hremoved]
      exact .tombstone hs hverify hdeleted
    | false =>
      rw [handleManifestReceived_of_live env hverify hdeleted]
      cases hblocked : (s.afterReplay P m).blocked with
      | true => exact .stalled hs hverify hdeleted hblocked
      | false => exact .received hs hverify hdeleted hblocked

theorem handleCommunityJoined_write (hs : s.blocked = false) (pk : Key) (c : String) :
    EventWrite P env s (.communityJoined pk c) (s.handleCommunityJoined env pk c) := by
  unfold handleCommunityJoined
  dsimp only
  split
  · exact .aside (a := (s.emit _ _).aside)
  · next stored hstored =>
    split
    · exact .aside (a := (s.emit _ _).aside)
    · next hc =>
      split
      · next manifest hmanifest => exact .hosted (a := (s.emit _ _).aside) hs hstored hc hmanifest
      · next hmanifest =>
        exact .awaited (a := { (s.emit _ _).aside with pendingManifestSyncs := _ }) hs hstored hc
          hmanifest

theorem processEvent_write (s : AppState) (e : SwarmEvent) :
    EventWrite P env s e (s.processEvent P env e) := by
  unfold processEvent
  split
  · exact .aside (a := s.aside)
  · next hs =>
    have hs : s.blocked = false := by simpa using hs
    cases e with
    | messageReceived topic data source =>
      dsimp only
      split
      · next htopic =>
        rcases handleChannelMessage_write (P := P) false s topic data with h | ⟨ev, hd, h⟩
        · rw [h]
          exact .aside (a := s.aside)
        · exact .channel hs htopic hd h
      · next htopic =>
        split
        · next hcommunity =>
          rcases handleCommunityMessage_write (P := P) env s data source with h | ⟨ev, hd, h⟩
          · rw [h]
            exact .aside (a := s.aside)
          · exact .community hs (by simpa using htopic) hcommunity hd h
        · exact .aside (a := s.aside)
    | manifestReceived m => exact handleManifestReceived_write env hs m
    | channelHistoryReceived c ch entries => exact .history hs
    | communityJoined pk c => exact handleCommunityJoined_write env hs pk c
    | communityJoinFailed c reason =>
      exact .failed (a := ((s.removeCommunityLocal c).emit _ _).aside) hs
    | peerConnected peerId c => exact .aside (a := (s.handlePeerConnected P peerId c).aside)
    | lanPeerConnected peerId => exact .aside (a := (s.handleLanPeerConnected peerId).aside)
    | peerDisconnected peerId => exact .aside (a := (s.handlePeerDisconnected peerId).aside)
    | seedPeerConnected c peerId => exact .aside (a := (s.handleSeedPeerConnected c peerId).aside)
    | seedPeerDisconnected c => exact .aside (a := (s.handleSeedPeerDisconnected c).aside)
    | newListenAddr addrs => exact .aside (a := (s.handleNewListenAddr P addrs).aside)

end

/-! ## Calls -/

section

variable (P : Prims)

/-- The manifest that `community_update_manifest` signs. -/
def updatedBy (s : AppState) (old : CommunityManifest) (p : UpdateManifestParams) :
    SignedManifest :=
  ({ old with
    name := p.name.getD old.name
    description := p.description.getD old.description
    seedNodes := p.seedNodes.getD old.seedNodes
    version := old.version + 1 }).sign P s.signingKey

/-- The text message that `message_send` makes. -/
def sentMessage (env : Env) (s : AppState) (p : SendMessageParams) (key : Key) (ulid : Ulid) :
    RawMessage :=
  s.ownMessage P env ulid key (.text p.body [] ((p.replyTo.bind parseUlid).map MessageId.mk) none)

def reactionMessage (isAdd : Bool) (env : Env) (s : AppState) (p : ReactionParams) (key : Key)
    (ulid : Ulid) : RawMessage :=
  s.ownMessage P env ulid key (.reaction p.messageId p.emoji isAdd)

def putOwn (s : AppState) (channelId communityId : String) (raw : RawMessage) : AppState :=
  { s with
    messageLog := logOwn s.messageLog channelId raw
    nodeStore := storeMessage s communityId raw }

def putReaction (isAdd : Bool) (s : AppState) (p : ReactionParams) (raw : RawMessage) : AppState :=
  { s with
    messageLog := applyReaction (logOwn s.messageLog p.channelId raw)
      (some (.reaction p.messageId p.emoji isAdd)) (s.peerId P)
    nodeStore := storeMessage s p.communityId raw }

/-- The checks of `reaction_add` and `reaction_remove`. -/
structure ReactionChecked (s : AppState) (p : ReactionParams) (key : Key) (ulid : Ulid) : Prop where
  refusal : s.seedRefusal p.communityId = none
  key : s.channelKeys.lookup p.channelId = some key
  known : s.messageLog.getEntry p.channelId p.messageId ≠ none
  parsed : parseUlid p.channelId = some ulid

/-- What a call writes. -/
inductive CallWrite (env : Env) (s : AppState) : RpcCall → AppState → Prop
  | refused {call : RpcCall} : CallWrite env s call s
  | created {p : CreateCommunityParams} {t : AppState} {fp : Key} : validName p.name = true →
      (t = s ∨ t = s.pinSeeds p.seedNodes fp) →
      CallWrite env s (.communityCreate p) (t.storeCreated P env p fp)
  | invited {p : JoinCommunityParams} {invite : InvitePayload} {ulid : Ulid} {t : AppState}
      {commands : List NetworkCommand} {pushes : List PushEvent} :
      (P.base64UrlDecode p.invite).bind P.decodeInvite = some invite →
      InviteChecked P s invite ulid →
      (t = s.storeInvited P env ⟨ulid⟩ ((parseHexArray 256 invite.publicKeyHex).getD 0) invite
          p.hostingPassword ∨
        ∃ fp, t = (s.storeInvited P env ⟨ulid⟩ ((parseHexArray 256 invite.publicKeyHex).getD 0)
          invite p.hostingPassword).pinSeeds invite.seedNodes fp) →
      CallWrite env s (.communityJoin p) (t.out commands pushes)
  | left {c : String} {commands : List NetworkCommand} {pushes : List PushEvent} :
      c ∈ s.communities →
      CallWrite env s (.communityLeave c) ((s.removeCommunityLocal c).out commands pushes)
  | deleted {c : String} {signed : SignedManifest} {commands : List NetworkCommand}
      {pushes : List PushEvent} :
      s.communities.lookup c = some signed → s.isManifestAdmin P signed.manifest = true →
      CallWrite env s (.communityDelete c) ((s.removeCommunityLocal c).out commands pushes)
  | updated {p : UpdateManifestParams} {signed : SignedManifest} {t : AppState}
      {commands : List NetworkCommand} {pushes : List PushEvent} :
      s.updateRefusal p = none → s.communities.lookup p.communityId = some signed →
      s.isManifestAdmin P signed.manifest = true →
      (t = s.putCommunity p.communityId (s.updatedBy P signed.manifest p) ∨
        ∃ fp, t = (s.putCommunity p.communityId (s.updatedBy P signed.manifest p)).pinSeeds
          (s.updatedBy P signed.manifest p).manifest.seedNodes fp) →
      CallWrite env s (.communityUpdateManifest p) (t.out commands pushes)
  | channelCreated {p : CreateChannelParams} {old : SignedManifest} {ulid : Ulid} :
      validName p.name = true → s.communities.lookup p.communityId = some old →
      parseUlid p.communityId = some ulid →
      CallWrite env s (.channelCreate p) (s.storeChannelCreated P p.communityId old
        (s.newChannel P env p ⟨ulid⟩) (env.key 0))
  | channelErased {p : ChannelParams} {ch : ChannelManifest} :
      s.seedRefusal p.communityId = none → s.channels.lookup p.channelId = some ch →
      parseUlid p.channelId = none →
      CallWrite env s (.channelDelete p) (s.eraseChannel p.channelId)
  | channelDeleted {p : ChannelParams} {ch : ChannelManifest} {old : SignedManifest} {ulid : Ulid} :
      s.seedRefusal p.communityId = none → s.channels.lookup p.channelId = some ch →
      s.communities.lookup p.communityId = some old → parseUlid p.channelId = some ulid →
      CallWrite env s (.channelDelete p)
        ((s.eraseChannel p.channelId).storeChannelDeleted P p old ch.name ulid)
  | rotated {p : ChannelParams} {ch : ChannelManifest} {commands : List NetworkCommand}
      {pushes : List PushEvent} :
      s.seedRefusal p.communityId = none → s.channels.lookup p.channelId = some ch →
      CallWrite env s (.channelRotateKey p)
        ((((s.putKey p.channelId (env.key 0)).putChannelEntry p.channelId
          (s.rotatedChannel P env p ch)).storeRotation p (s.rotatedChannel P env p ch)
            (env.key 0)).out commands pushes)
  | reordered {p : ReorderChannelsParams} {old : SignedManifest} {order : List ChannelId} :
      s.seedRefusal p.communityId = none → s.reorderRefusal p = none →
      parseOrder p.channelIds = .ok order → s.communities.lookup p.communityId = some old →
      CallWrite env s (.channelReorder p) (s.storeReordered P p old order)
  | sent {p : SendMessageParams} {key : Key} {ulid : Ulid} {commands : List NetworkCommand}
      {pushes : List PushEvent} :
      s.seedRefusal p.communityId = none →
      s.announcementRefusal P p.communityId p.channelId = none →
      s.channelKeys.lookup p.channelId = some key → parseUlid p.channelId = some ulid →
      CallWrite env s (.messageSend p)
        ((s.putOwn p.channelId p.communityId (s.sentMessage P env p key ulid)).out commands pushes)
  | edited {p : EditMessageParams} {key : Key} {commands : List NetworkCommand}
      {pushes : List PushEvent} :
      s.channelKeys.lookup p.channelId = some key →
      s.authorRefusal P p.channelId p.messageId "only the author can edit a message" = none →
      CallWrite env s (.messageEdit p) (({ s with
        messageLog := s.messageLog.edit p.channelId p.messageId (env.nonce 0)
          (P.aeadSeal key (env.nonce 0) (P.encodeContent (s.editedContent P env p key))) }).out
          commands pushes)
  | tombstoned {p : DeleteMessageParams} {commands : List NetworkCommand}
      {pushes : List PushEvent} :
      s.authorRefusal P p.channelId p.messageId "only the author can delete a message" = none →
      CallWrite env s (.messageDelete p) (({ s with
        messageLog := s.messageLog.tombstone p.channelId p.messageId }).out commands pushes)
  | reactionAdded {p : ReactionParams} {key : Key} {ulid : Ulid} {commands : List NetworkCommand}
      {pushes : List PushEvent} : ReactionChecked s p key ulid →
      CallWrite env s (.reactionAdd p)
        ((s.putReaction P true p (s.reactionMessage P true env p key ulid)).out commands pushes)
  | reactionRemoved {p : ReactionParams} {key : Key} {ulid : Ulid}
      {commands : List NetworkCommand} {pushes : List PushEvent} : ReactionChecked s p key ulid →
      CallWrite env s (.reactionRemove p)
        ((s.putReaction P false p (s.reactionMessage P false env p key ulid)).out commands pushes)
  | expelled {p : KickBanParams} {removed : MembershipRecord} :
      s.callerRefusal P p.communityId MembershipRecord.isPrivileged
        "insufficient permissions: moderator or admin required" = none →
      member? s.toTables p.communityId p.userId = some removed →
      CallWrite env s (.memberKick p) (s.expel P env p.communityId p.userId removed)
  | banned {p : KickBanParams} {removed : MembershipRecord} :
      s.callerRefusal P p.communityId MembershipRecord.isAdmin
        "insufficient permissions: admin required" = none →
      member? s.toTables p.communityId p.userId = some removed →
      CallWrite env s (.memberBan p)
        ((s.expel P env p.communityId p.userId removed).putBans
          (s.bans.upsert p.communityId [] fun list => list ++ [p.userId]))
  | roleUpdated {p : UpdateRoleParams} {target : MembershipRecord} :
      s.callerRefusal P p.communityId MembershipRecord.isAdmin
        "insufficient permissions: admin required" = none →
      member? s.toTables p.communityId p.userId = some target →
      s.isCreator p.communityId target = false →
      CallWrite env s (.memberUpdateRole p) (s.storeRole P env p)
  | present {status : UserStatus} {a : Aside} :
      CallWrite env s (.presenceHeartbeat status) (s.beside a)
  | renamed {name : String} {commands : List NetworkCommand} {pushes : List PushEvent} :
      CallWrite env s (.identitySetDisplayName name)
        (({ s with displayName := some name }).putMembers
          (renameSelf s.members (s.peerId P) name) |>.out commands pushes)

variable {P}

theorem communityJoin_write (s : AppState) (p : JoinCommunityParams) :
    CallWrite P env s (.communityJoin p) (s.communityJoin P env p).1 := by
  rcases communityJoin_cases (P := P) env s p with ⟨e, heq⟩ | ⟨invite, hinvite, heq⟩
  · rw [heq]
    exact .refused
  · rw [heq]
    rcases joinInvite_cases (P := P) env s invite p.hostingPassword with ⟨e, heq⟩ |
      ⟨ulid, stored, hchecked, hstored, ⟨e, -, heq⟩ | ⟨fp, t, r, -, ⟨-, rfl⟩ | ⟨-, rfl⟩, heq⟩⟩
    · rw [heq]
      exact .refused
    · rw [heq]
      exact .invited (t := stored) hinvite hchecked (.inl hstored)
    · rw [heq]
      exact .invited (t := t) hinvite hchecked (.inl hstored)
    · rw [heq]
      exact .invited (t := stored.pinSeeds _ _) hinvite hchecked (.inr ⟨fp, hstored ▸ rfl⟩)

/-- The tombstone is in the table only for as long as the call runs. -/
theorem removeCommunityLocal_tombstone {t : AppState} {signed tombstone : SignedManifest}
    {commands : List NetworkCommand} (hsigned : s.communities.lookup c = some signed)
    (hkey : tombstone.manifest.publicKey = signed.manifest.publicKey)
    (ht : t = ({ s with communities := s.communities.insert c tombstone }).emit commands []) :
    t.removeCommunityLocal c = (s.removeCommunityLocal c).out (t.removeCommunityLocal c).commands
      (t.removeCommunityLocal c).pushes := by
  have herase : (s.communities.insert c tombstone).erase c = s.communities.erase c :=
    AList.ext (List.kerase_cons_eq rfl)
  have hpk : communityPk? t.toTables c = communityPk? s.toTables c := by
    rw [ht]
    unfold communityPk? emit
    rw [hsigned, AList.lookup_insert]
    exact congrArg some hkey
  unfold removeCommunityLocal
  dsimp only
  rw [hpk, ht]
  dsimp only [emit]
  rw [herase]
  rfl

theorem communityDelete_write (s : AppState) (c : String) :
    CallWrite P env s (.communityDelete c) (s.communityDelete P c).1 := by
  unfold communityDelete
  split
  · exact .refused
  · next signed hsigned =>
    split
    · exact .refused
    · next hadmin =>
      dsimp only
      rw [removeCommunityLocal_tombstone hsigned (by rfl) rfl]
      exact .deleted hsigned (by simpa using hadmin)

theorem communityUpdateManifest_write (s : AppState) (p : UpdateManifestParams) :
    CallWrite P env s (.communityUpdateManifest p) (s.communityUpdateManifest P p).1 := by
  unfold communityUpdateManifest
  split
  · exact .refused
  · exact .refused
  · next signed hrefusal hsigned =>
    split
    · exact .refused
    · next hadmin =>
      have hadmin : s.isManifestAdmin P signed.manifest = true := by simpa using hadmin
      dsimp only
      split
      · split
        · exact .updated (t := s.putCommunity _ _) hrefusal hsigned hadmin (.inl rfl)
        · exact .updated (t := (s.putCommunity _ _).pinSeeds _ _) hrefusal hsigned hadmin
            (.inr ⟨_, rfl⟩)
      · exact .updated (t := s.putCommunity _ _) hrefusal hsigned hadmin (.inl rfl)

theorem channelCreate_write (s : AppState) (p : CreateChannelParams) :
    CallWrite P env s (.channelCreate p) (s.channelCreate P env p).1 := by
  unfold channelCreate
  split
  · exact .refused
  · next hname =>
    split
    · exact .refused
    · exact .refused
    · next old ulid hold hulid => exact .channelCreated (by simpa using hname) hold hulid

theorem lookup_of_seedRefusal (h : s.seedRefusal c = none) :
    ∃ signed, s.communities.lookup c = some signed := by
  unfold seedRefusal at h
  split at h
  · cases h
  · next signed hsigned => exact ⟨signed, hsigned⟩

theorem channelDelete_write (s : AppState) (p : ChannelParams) :
    CallWrite P env s (.channelDelete p) (s.channelDelete P p).1 := by
  unfold channelDelete
  split
  · exact .refused
  · exact .refused
  · next ch hrefusal hch =>
    dsimp only
    split
    · next hnone =>
      obtain ⟨signed, hsigned⟩ := lookup_of_seedRefusal hrefusal
      cases hsigned.symm.trans hnone
    · next hulid => exact .channelErased hrefusal hch hulid
    · next old ulid hold hulid => exact .channelDeleted hrefusal hch hold hulid

theorem channelRotateKey_write (s : AppState) (p : ChannelParams) :
    CallWrite P env s (.channelRotateKey p) (s.channelRotateKey P env p).1 := by
  unfold channelRotateKey
  split
  · exact .refused
  · exact .refused
  · next ch hrefusal hch => exact .rotated hrefusal hch

theorem channelReorder_write (s : AppState) (p : ReorderChannelsParams) :
    CallWrite P env s (.channelReorder p) (s.channelReorder P p).1 := by
  unfold channelReorder
  split
  · exact .refused
  · exact .refused
  · exact .refused
  · next order old hrefusal horder hold =>
    obtain ⟨hseed, hchannels⟩ := Option.or_eq_none_iff.mp hrefusal
    exact .reordered hseed hchannels horder hold

theorem messageSend_write (s : AppState) (p : SendMessageParams) :
    CallWrite P env s (.messageSend p) (s.messageSend P env p).1 := by
  unfold messageSend
  split
  · exact .refused
  · split
    · exact .refused
    · exact .refused
    · exact .refused
    · next key ulid hrefusal hkey hulid =>
      obtain ⟨hseed, hannounce⟩ := Option.or_eq_none_iff.mp hrefusal
      exact .sent hseed hannounce hkey hulid

theorem messageEdit_write (s : AppState) (p : EditMessageParams) :
    CallWrite P env s (.messageEdit p) (s.messageEdit P env p).1 := by
  unfold messageEdit
  split
  · exact .refused
  · split
    · exact .refused
    · exact .refused
    · exact .refused
    · next key _ hkey hauthor =>
      unfold editOwn
      dsimp only
      split <;> exact .edited hkey hauthor

theorem messageDelete_write (s : AppState) (p : DeleteMessageParams) :
    CallWrite P env s (.messageDelete p) (s.messageDelete P env p).1 := by
  unfold messageDelete
  split
  · exact .refused
  · next hrefusal =>
    have hauthor := (Option.or_eq_none_iff.mp hrefusal).2
    dsimp only
    split <;> exact .tombstoned hauthor

/-- A reaction is refused, or it is logged with the message that it is sent as. -/
theorem reaction_write (isAdd : Bool) (env : Env) (s : AppState) (p : ReactionParams) :
    (s.reaction P isAdd env p).1 = s ∨ ∃ key ulid commands pushes, ReactionChecked s p key ulid ∧
      (s.reaction P isAdd env p).1 =
        (s.putReaction P isAdd p (s.reactionMessage P isAdd env p key ulid)).out commands
          pushes := by
  unfold reaction
  split
  · exact .inl rfl
  · exact .inl rfl
  · exact .inl rfl
  · exact .inl rfl
  · next key e ulid hseed hkey he hulid =>
    exact .inr ⟨key, ulid, _, _, ⟨hseed, hkey, by rw [he]; simp, hulid⟩, rfl⟩

theorem memberUpdateRole_write (s : AppState) (p : UpdateRoleParams) :
    CallWrite P env s (.memberUpdateRole p) (s.memberUpdateRole P env p).1 := by
  unfold memberUpdateRole
  split
  · exact .refused
  · exact .refused
  · next target hcaller htarget =>
    split
    · exact .refused
    · next hcreator => exact .roleUpdated hcaller htarget (by simpa using hcreator)

theorem rpc_write (s : AppState) (call : RpcCall) :
    CallWrite P env s call (s.rpc P env call).1 := by
  cases call with
  | communityCreate p =>
    dsimp only [rpc]
    rcases communityCreate_cases (P := P) env s p with ⟨e, heq⟩ | ⟨hname, t, fp, ht, heq⟩
    · rw [heq]
      exact .refused
    · rw [heq]
      exact .created hname ht
  | communityJoin p => exact communityJoin_write env s p
  | communityLeave c =>
    dsimp only [rpc, communityLeave]
    split
    · next hc => exact .left hc
    · exact .refused
  | communityDelete c => exact communityDelete_write env s c
  | communityUpdateManifest p => exact communityUpdateManifest_write env s p
  | channelCreate p => exact channelCreate_write env s p
  | channelDelete p => exact channelDelete_write env s p
  | channelRotateKey p => exact channelRotateKey_write env s p
  | channelReorder p => exact channelReorder_write env s p
  | messageSend p => exact messageSend_write env s p
  | messageEdit p => exact messageEdit_write env s p
  | messageDelete p => exact messageDelete_write env s p
  | reactionAdd p =>
    dsimp only [rpc, reactionAdd]
    rcases reaction_write (P := P) true env s p with h | ⟨key, ulid, commands, pushes, hp, h⟩
    · rw [h]
      exact .refused
    · rw [h]
      exact .reactionAdded hp
  | reactionRemove p =>
    dsimp only [rpc, reactionRemove]
    rcases reaction_write (P := P) false env s p with h | ⟨key, ulid, commands, pushes, hp, h⟩
    · rw [h]
      exact .refused
    · rw [h]
      exact .reactionRemoved hp
  | memberKick p =>
    dsimp only [rpc, memberKick]
    split
    · exact .refused
    · exact .refused
    · next removed hcaller hremoved => exact .expelled hcaller hremoved
  | memberBan p =>
    dsimp only [rpc, memberBan]
    split
    · exact .refused
    · exact .refused
    · next removed hcaller hremoved => exact .banned hcaller hremoved
  | memberUpdateRole p => exact memberUpdateRole_write env s p
  | presenceHeartbeat status =>
    exact .present (a := (s.presenceHeartbeat P env status).1.aside)
  | identitySetDisplayName name =>
    dsimp only [rpc, identitySetDisplayName]
    split
    · exact .refused
    · exact .renamed

end

end AppState

end BitCord
