import BitCord.Rpc.Channel

/-!
# RPC methods on messages and members

The methods of `rpc_server/message.rs` and `rpc_server/identity.rs` that change the modelled
state, and `message_get_history`, which reads it.
-/

namespace BitCord

open Lib

structure SendMessageParams where
  communityId : String
  channelId : String
  body : String
  replyTo : Option String

structure EditMessageParams where
  communityId : String
  channelId : String
  messageId : String
  body : String

structure DeleteMessageParams where
  communityId : String
  channelId : String
  messageId : String

structure ReactionParams where
  communityId : String
  channelId : String
  messageId : String
  emoji : String

structure GetHistoryParams where
  communityId : String
  channelId : String
  /-- The first message of the last page; `message_get_history` does not read it. -/
  before : Option String
  limit : Option UInt32

structure KickBanParams where
  communityId : String
  userId : String

structure UpdateRoleParams where
  communityId : String
  userId : String
  role : Role

def editBytes (messageId : MessageId) (channelId : ChannelId) (newCiphertext : Bytes) : Bytes :=
  toBytes messageId.ulid ++ toBytes channelId.ulid ++ newCiphertext

def deleteBytes (messageId : MessageId) (channelId : ChannelId) : Bytes :=
  toBytes messageId.ulid ++ toBytes channelId.ulid ++ utf8 "delete"

namespace AppState

section

variable (P : Prims)

/-! ## Roles of the caller -/

/-- The check that the node itself has a role in a community that satisfies `p`. -/
def callerRefusal (s : AppState) (communityId : String) (p : MembershipRecord → Bool)
    (msg : String) : Option RpcError :=
  match s.members.lookup communityId with
  | none => some (notFound "community not found")
  | some list =>
    match list.lookup (s.peerId P) with
    | none => some (forbidden "not a member of this community")
    | some caller => if p caller then none else some (forbidden msg)

/-! ## Sending -/

def announcementRefusal (s : AppState) (communityId channelId : String) : Option RpcError :=
  match s.channels.lookup channelId with
  | some ch =>
    if ch.kind = .announcement then
      s.callerRefusal P communityId MembershipRecord.isPrivileged
        "only admins and moderators can post in announcement channels"
    else none
  | none => none

def ownMessage (env : Env) (s : AppState) (ulid : Ulid) (key : Key) (content : MessageContent) :
    RawMessage :=
  RawMessage.create P ⟨env.ulid 0⟩ ⟨ulid⟩ s.signingKey env.now
    (P.aeadSeal key (env.nonce 0) (P.encodeContent content)) (env.nonce 0)

def logOwn (log : MessageLog) (channelId : String) (raw : RawMessage) : MessageLog :=
  log.append channelId raw.id.text raw.authorId.text (timestampMillis raw.timestamp) raw.nonce
    raw.ciphertext

/-- `message_send` once the checks passed. -/
def sendText (env : Env) (s : AppState) (p : SendMessageParams) (key : Key) (ulid : Ulid) :
    RpcResult :=
  let replyTo := (p.replyTo.bind parseUlid).map MessageId.mk
  let raw := s.ownMessage P env ulid key (.text p.body [] replyTo none)
  let authorName := (member? s.toTables p.communityId raw.authorId.text).map
    fun r => r.displayName
  ({ s with
      messageLog := logOwn s.messageLog p.channelId raw
      nodeStore := storeMessage s p.communityId raw
      commands := s.commands ++
        [.publish (channelTopic p.channelId) (P.encodeEvent (.newMessage raw))]
      pushes := s.pushes ++ [.messageNew raw.id.text p.channelId p.communityId raw.authorId.text
        authorName raw.timestamp] },
    .ok (.message ⟨raw.id.text, p.channelId, p.communityId, raw.authorId.text, raw.timestamp,
      p.body, replyTo.map fun r => r.text, none, false, []⟩))

/-- `message_send`. -/
def messageSend (env : Env) (s : AppState) (p : SendMessageParams) : RpcResult :=
  if p.body = "" then (s, .error (invalidParams "body must not be empty"))
  else
    match (s.seedRefusal p.communityId).or (s.announcementRefusal P p.communityId p.channelId),
        s.channelKeys.lookup p.channelId, parseUlid p.channelId with
    | some e, _, _ => (s, .error e)
    | none, none, _ => (s, .error (notFound "channel not found"))
    | none, some _, none => (s, .error (invalidParams "invalid channel_id"))
    | none, some key, some ulid => s.sendText P env p key ulid

/-! ## Editing and deleting -/

/-- The check that a message exists and is the node's own. -/
def authorRefusal (s : AppState) (channelId messageId msg : String) : Option RpcError :=
  match s.messageLog.getEntry channelId messageId with
  | none => some (notFound "message not found")
  | some e => if e.authorId = s.peerId P then none else some (forbidden msg)

/-- The content of an edited message keeps what the old text replied to and attached. -/
def editedContent (env : Env) (s : AppState) (p : EditMessageParams) (key : Key) :
    MessageContent :=
  let plain := (s.messageLog.getEntry p.channelId p.messageId).bind fun e =>
    P.aeadOpen key e.nonce e.ciphertext
  match plain.bind P.decodeContent with
  | some (.text _ attachments replyTo _) => .text p.body attachments replyTo (some env.now)
  | _ => .text p.body [] none (some env.now)

/-- `message_edit` once the checks passed; the log changes before the ids are parsed. -/
def editOwn (env : Env) (s : AppState) (p : EditMessageParams) (key : Key) : RpcResult :=
  let nonce := env.nonce 0
  let ciphertext := P.aeadSeal key nonce (P.encodeContent (s.editedContent P env p key))
  let s := { s with messageLog := s.messageLog.edit p.channelId p.messageId nonce ciphertext }
  match parseUlid p.messageId, parseUlid p.channelId with
  | none, _ => (s, .error (invalidParams "invalid message_id"))
  | some _, none => (s, .error (invalidParams "invalid channel_id"))
  | some mid, some cid =>
    let payload : EditMessagePayload :=
      ⟨⟨mid⟩, ⟨cid⟩, s.ownUserId P, ciphertext, nonce,
        toBytes (P.sign s.signingKey (editBytes ⟨mid⟩ ⟨cid⟩ ciphertext)), env.now⟩
    let authorName := (member? s.toTables p.communityId (s.peerId P)).map fun r => r.displayName
    (s.emit [.publish (channelTopic p.channelId) (P.encodeEvent (.editMessage payload))]
      [.messageEdited p.messageId p.channelId p.communityId (s.peerId P) authorName env.now
        (some p.body)], .ok .done)

/-- `message_edit`. -/
def messageEdit (env : Env) (s : AppState) (p : EditMessageParams) : RpcResult :=
  if p.body = "" then (s, .error (invalidParams "body must not be empty"))
  else
    match s.seedRefusal p.communityId, s.channelKeys.lookup p.channelId,
        s.authorRefusal P p.channelId p.messageId "only the author can edit a message" with
    | some e, _, _ => (s, .error e)
    | none, none, _ => (s, .error (notFound "channel not found"))
    | none, some _, some e => (s, .error e)
    | none, some key, none => s.editOwn P env p key

/-- `message_delete`; the log changes before the ids are parsed. -/
def messageDelete (env : Env) (s : AppState) (p : DeleteMessageParams) : RpcResult :=
  match (s.seedRefusal p.communityId).or
      (s.authorRefusal P p.channelId p.messageId "only the author can delete a message") with
  | some e => (s, .error e)
  | none =>
    let s := { s with messageLog := s.messageLog.tombstone p.channelId p.messageId }
    match parseUlid p.messageId, parseUlid p.channelId with
    | none, _ => (s, .error (invalidParams "invalid message_id"))
    | some _, none => (s, .error (invalidParams "invalid channel_id"))
    | some mid, some cid =>
      let payload : DeleteMessagePayload :=
        ⟨⟨mid⟩, ⟨cid⟩, s.ownUserId P,
          toBytes (P.sign s.signingKey (deleteBytes ⟨mid⟩ ⟨cid⟩)), env.now⟩
      (s.emit [.publish (channelTopic p.channelId) (P.encodeEvent (.deleteMessage payload))]
        [.messageDeleted p.messageId p.channelId p.communityId], .ok .done)

/-! ## History -/

/-- What `message_get_history` shows for an entry. A reaction is not shown; a deleted message and
one that opens under neither key are shown without their text. -/
def historyInfo (s : AppState) (p : GetHistoryParams) (e : LogEntry) : Option MessageInfo :=
  let plain := decryptEither P (s.channelKeys.lookup p.channelId)
    (s.previousChannelKeys.lookup p.channelId) e.nonce e.ciphertext
  let info := MessageInfo.mk e.messageId p.channelId p.communityId e.authorId
    ((timestampMillisOpt e.timestampMs).getD 0)
  let reactions := s.messageLog.getReactions e.messageId
  match if e.deleted then none else plain.bind P.decodeContent with
  | some (.reaction _ _ _) => none
  | some (.text body _ replyTo editedAt) =>
    some (info body (replyTo.map fun r => r.text) editedAt e.deleted reactions)
  | _ => some (info "" none none e.deleted reactions)

/-- `message_get_history`: the last entries of the channel, 50 if no limit is given and never more
than 200. -/
def messageGetHistory (s : AppState) (p : GetHistoryParams) : Except RpcError (List MessageInfo) :=
  let limit := min (p.limit.getD 50).toNat 200
  match s.channels.lookup p.channelId with
  | none => .error (notFound "channel not found")
  | some _ =>
    let since := UInt64.ofNat ((s.messageLog.len p.channelId).toNat - limit)
    .ok ((s.messageLog.getSince p.channelId since).filterMap (s.historyInfo P p))

/-! ## Reactions -/

/-- `reaction_add` and `reaction_remove`. -/
def reaction (isAdd : Bool) (env : Env) (s : AppState) (p : ReactionParams) : RpcResult :=
  match s.seedRefusal p.communityId, s.channelKeys.lookup p.channelId,
      s.messageLog.getEntry p.channelId p.messageId, parseUlid p.channelId with
  | some e, _, _, _ => (s, .error e)
  | none, none, _, _ => (s, .error (notFound "channel not found"))
  | none, some _, none, _ => (s, .error (notFound "message not found"))
  | none, some _, some _, none => (s, .error (invalidParams "invalid channel_id"))
  | none, some key, some _, some ulid =>
    let content := MessageContent.reaction p.messageId p.emoji isAdd
    let raw := s.ownMessage P env ulid key content
    let log := applyReaction (logOwn s.messageLog p.channelId raw) (some content) (s.peerId P)
    ({ s with
        messageLog := log
        nodeStore := storeMessage s p.communityId raw
        commands := s.commands ++
          [.publish (channelTopic p.channelId) (P.encodeEvent (.newMessage raw))]
        pushes := s.pushes ++ [.reactionUpdated p.messageId p.channelId p.communityId
          (log.getReactions p.messageId)] }, .ok .done)

def reactionAdd (env : Env) (s : AppState) (p : ReactionParams) : RpcResult :=
  s.reaction P true env p

def reactionRemove (env : Env) (s : AppState) (p : ReactionParams) : RpcResult :=
  s.reaction P false env p

/-! ## Members -/

/-- Remove a member from the table and publish that it left. The store keeps its record. -/
def expel (env : Env) (s : AppState) (communityId userId : String) (removed : MembershipRecord) :
    AppState :=
  let members := s.members.adjust communityId fun list => list.erase userId
  ({ s with members, files := { s.files with members } }).emit
    (s.publishLeft P env communityId ⟨hexUserBytes userId⟩)
    [.memberLeft userId communityId removed.displayName]

/-- `member_kick`. -/
def memberKick (env : Env) (s : AppState) (p : KickBanParams) : RpcResult :=
  match s.callerRefusal P p.communityId MembershipRecord.isPrivileged
      "insufficient permissions: moderator or admin required",
      member? s.toTables p.communityId p.userId with
  | some e, _ => (s, .error e)
  | none, none => (s, .error (notFound "member not found"))
  | none, some removed => (s.expel P env p.communityId p.userId removed, .ok .done)

/-- `member_ban`. -/
def memberBan (env : Env) (s : AppState) (p : KickBanParams) : RpcResult :=
  match s.callerRefusal P p.communityId MembershipRecord.isAdmin
      "insufficient permissions: admin required",
      member? s.toTables p.communityId p.userId with
  | some e, _ => (s, .error e)
  | none, none => (s, .error (notFound "member not found"))
  | none, some removed =>
    let s := s.expel P env p.communityId p.userId removed
    let bans := s.bans.upsert p.communityId [] fun list => list ++ [p.userId]
    ({ s with bans, files := { s.files with bans } }, .ok .done)

def isCreator (s : AppState) (communityId : String) (record : MembershipRecord) : Bool :=
  decide (communityPk? s.toTables communityId = some record.publicKey)

def storeRole (env : Env) (s : AppState) (p : UpdateRoleParams) : AppState :=
  let members := s.members.adjust p.communityId fun list =>
    Dict.adjust p.userId (fun r => { r with roles := [p.role] }) list
  let published := match parseUlid p.communityId with
    | some ulid =>
      let user : UserId := ⟨hexUserBytes p.userId⟩
      [publishEvent P p.communityId (.memberRoleUpdated ⟨user, ⟨ulid⟩, p.role, env.now,
        toBytes (P.sign s.signingKey (roleUpdateBytes P user ⟨ulid⟩ p.role))⟩)]
    | none => []
  ({ s with members, files := { s.files with members } }).emit published
    [.memberRoleUpdated p.userId p.communityId (Role.text p.role)]

/-- `member_update_role`. -/
def memberUpdateRole (env : Env) (s : AppState) (p : UpdateRoleParams) : RpcResult :=
  match s.callerRefusal P p.communityId MembershipRecord.isAdmin
      "insufficient permissions: admin required",
      member? s.toTables p.communityId p.userId with
  | some e, _ => (s, .error e)
  | none, none => (s, .error (notFound "member not found"))
  | none, some target =>
    if s.isCreator p.communityId target then
      (s, .error (forbidden "cannot change the role of the community creator"))
    else (s.storeRole P env p, .ok .done)

/-! ## Identity -/

def UserStatus.text : UserStatus → String
  | .online => "online"
  | .idle => "idle"
  | .doNotDisturb => "do_not_disturb"
  | .invisible => "invisible"
  | .offline => "offline"

/-- `presence_heartbeat`. -/
def presenceHeartbeat (env : Env) (s : AppState) (status : UserStatus) : RpcResult :=
  let unsigned : PresenceHeartbeatPayload := ⟨s.ownUserId P, UserStatus.text status, env.now, []⟩
  let payload := { unsigned with
    signature := toBytes (P.sign s.signingKey (presenceBytes unsigned)) }
  (({ s with presence := s.presence.insert (s.peerId P) status }).emit
    (s.communities.keys.map fun c => publishEvent P c (.presenceHeartbeat payload))
    [.presenceChanged (s.peerId P) (UserStatus.text status) env.now], .ok .done)

def renameSelf (members : Dict String (Dict String MembershipRecord)) (self name : String) :
    Dict String (Dict String MembershipRecord) :=
  members.mapVals fun list => Dict.adjust self (fun r => { r with displayName := name }) list

/-- The records of the node, each with its community. -/
def ownRecords (members : Dict String (Dict String MembershipRecord)) (self : String) :
    List (String × MembershipRecord) :=
  members.entries.filterMap fun e => (AList.lookup self e.2).map fun r => (e.1, r)

/-- `identity_set_display_name`: the records keep their signatures. -/
def identitySetDisplayName (s : AppState) (name : String) : RpcResult :=
  if name = "" ∨ 64 < name.utf8ByteSize then
    (s, .error (invalidParams "display_name must be 1–64 characters"))
  else
    let self := s.peerId P
    let members := renameSelf s.members self name
    let records := ownRecords members self
    let s := { s with
      members
      displayName := some name
      files := { s.files with members } }
    (s.emit (records.map fun e => publishEvent P e.1 (.memberJoined e.2))
      (records.map fun e => .memberJoined self e.1 e.2.displayName), .ok .done)

end

end AppState

end BitCord
