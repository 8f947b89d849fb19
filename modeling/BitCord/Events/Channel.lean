import BitCord.Events.Community

/-!
# Gossip on channel topics

The handlers of `channel_handler.rs`. While `handle_manifest_received` replays buffered messages
it holds the lock of the buffer; a handler that then asks for the lock waits for ever, which the
flag `replaying` and the field `blocked` record.
-/

namespace BitCord

open Lib

variable (s : AppState) (c : String) (raw : RawMessage) (plaintext : Bytes)

namespace AppState

section

variable (P : Prims)

/-! ## New messages -/

/-- The checks of a new message against the record of its author. -/
def authorVerified (s : Tables) (communityId : String) (raw : RawMessage) : Bool :=
  match member? s communityId raw.authorId.text with
  | some r => P.vkValid r.publicKey && raw.verify P r.publicKey
  | none => false

/-- Keep a message that cannot be decrypted while the key of its channel is rotated. -/
def bufferMessage (s : AppState) (replaying : Bool) (channelId topic : String) (data : Bytes) :
    AppState :=
  if replaying then { s with blocked := true }
  else
    { s with
      pendingRotation := s.pendingRotation.adjust channelId fun buf => buf ++ [(topic, data)] }

/-- What the frontends are told about a new message. -/
def newMessagePush (s : AppState) (log : MessageLog) (communityId : String) (raw : RawMessage)
    (content : Option MessageContent) : PushEvent :=
  match content with
  | some (.reaction target _ _) =>
    .reactionUpdated target raw.channelId.text communityId (log.getReactions target)
  | _ =>
    .messageNew raw.id.text raw.channelId.text communityId raw.authorId.text
      ((member? s.toTables communityId raw.authorId.text).map fun r => r.displayName)
      raw.timestamp

/-- The log with a new message, whose reaction is applied first. -/
def logMessage (log : MessageLog) (raw : RawMessage) (content : Option MessageContent) :
    MessageLog :=
  (applyReaction log content raw.authorId.text).append raw.channelId.text raw.id.text
    raw.authorId.text (timestampMillis raw.timestamp) raw.nonce raw.ciphertext

/-- The store with a new message, under the key of its community. -/
def storeMessage (s : AppState) (communityId : String) (raw : RawMessage) : Option NodeStore :=
  match communityPk? s.toTables communityId with
  | some pk => s.nodeStore.map fun st => st.appendMessage pk raw.channelId.ulid raw.nonce
      raw.ciphertext raw.id.text raw.authorId.text (timestampMillis raw.timestamp)
  | none => s.nodeStore

/-- A decrypted message is appended if its author signed it and its id is new. -/
def acceptMessage (s : AppState) (communityId : String) (raw : RawMessage) (plaintext : Bytes) :
    AppState :=
  if !authorVerified P s.toTables communityId raw then s
  else if (s.messageLog.getEntry raw.channelId.text raw.id.text).isSome then s
  else
    let content := P.decodeContent plaintext
    let log := logMessage s.messageLog raw content
    { s with
      messageLog := log
      nodeStore := storeMessage s communityId raw
      pushes := s.pushes ++ [s.newMessagePush log communityId raw content] }

/-- A `NewMessage` on a channel topic. -/
def handleNewMessage (replaying : Bool) (s : AppState) (topic : String) (data : Bytes)
    (raw : RawMessage) : AppState :=
  let channelId := raw.channelId.text
  match s.channels.lookup channelId, s.channelKeys.lookup channelId with
  | some ch, some key =>
    match decryptEither P (some key) (s.previousChannelKeys.lookup channelId) raw.nonce
        raw.ciphertext with
    | some plaintext => s.acceptMessage P ch.communityId.text raw plaintext
    | none => s.bufferMessage replaying channelId topic data
  | _, _ => s

/-! ## Edits and deletions -/

def isAuthor (log : MessageLog) (channelId messageId authorId : String) : Bool :=
  match log.getEntry channelId messageId with
  | some e => decide (e.authorId = authorId)
  | none => false

def editedBody (s : AppState) (payload : EditMessagePayload) : Option String :=
  let plain := (s.channelKeys.lookup payload.channelId.text).bind fun key =>
    P.aeadOpen key payload.newNonce payload.newCiphertext
  match plain.bind P.decodeContent with
  | some (.text body _ _ _) => some body
  | _ => none

/-- `handle_edit_message`. -/
def handleEditMessage (s : AppState) (payload : EditMessagePayload) : AppState :=
  let channelId := payload.channelId.text
  let messageId := payload.messageId.text
  let authorId := payload.authorId.text
  if !isAuthor s.messageLog channelId messageId authorId then s
  else
    let log := s.messageLog.edit channelId messageId payload.newNonce payload.newCiphertext
    match s.channels.lookup channelId with
    | none => { s with messageLog := log }
    | some ch =>
      let communityId := ch.communityId.text
      let authorName := (member? s.toTables communityId authorId).map fun r => r.displayName
      { s with
        messageLog := log
        pushes := s.pushes ++ [.messageEdited messageId channelId communityId authorId authorName
          payload.timestamp (s.editedBody P payload)] }

/-- `handle_delete_message`. -/
def handleDeleteMessage (s : AppState) (payload : DeleteMessagePayload) : AppState :=
  let channelId := payload.channelId.text
  let messageId := payload.messageId.text
  if !isAuthor s.messageLog channelId messageId payload.authorId.text then s
  else
    let log := s.messageLog.tombstone channelId messageId
    match s.channels.lookup channelId with
    | none => { s with messageLog := log }
    | some ch =>
      { s with
        messageLog := log
        pushes := s.pushes ++ [.messageDeleted messageId channelId ch.communityId.text] }

/-! ## Key rotation -/

/-- The rotation is signed by the community that its manifest names. -/
def rotationVerified (communityPk : Key) (payload : ChannelKeyRotationPayload) : Bool :=
  P.vkValid communityPk &&
    P.verifyBytes communityPk (P.encodeChannelManifest payload.newManifest) payload.signature

def isNewerChannel (t : Tables) (ch : ChannelManifest) : Bool :=
  match t.channels.lookup ch.id.text with
  | some current => decide (current.version < ch.version)
  | none => false

/-- `handle_channel_key_rotation`. -/
def handleChannelKeyRotation (replaying : Bool) (s : AppState)
    (payload : ChannelKeyRotationPayload) : AppState :=
  let ch := payload.newManifest
  let channelId := ch.id.text
  let communityId := ch.communityId.text
  match communityPk? s.toTables communityId with
  | none => s
  | some pk =>
    if !rotationVerified P pk payload then s
    else if !isNewerChannel s.toTables ch then s
    else
      let channels := s.channels.insert channelId ch
      let s := { s with
        channels
        nodeStore := s.nodeStore.map fun st => storeChannel st pk ch
        files := { s.files with channels } }
      if replaying then { s with blocked := true }
      else
        { s with
          pendingRotation := s.pendingRotation.orInsert channelId []
          commands := s.commands ++ ((s.preferredPeer communityId).map fun peer =>
            NetworkCommand.fetchManifest peer communityId pk).toList }

/-! ## Dispatch -/

/-- `handle_channel_message`: the other events are not used on channel topics. -/
def handleChannelMessage (replaying : Bool) (s : AppState) (topic : String) (data : Bytes) :
    AppState :=
  match P.decodeEvent data with
  | some (.newMessage raw) => s.handleNewMessage P replaying topic data raw
  | some (.channelKeyRotation payload) => s.handleChannelKeyRotation P replaying payload
  | some (.editMessage payload) => s.handleEditMessage P payload
  | some (.deleteMessage payload) => s.handleDeleteMessage payload
  | _ => s

/-! ## History -/

/-- Add one entry of a history batch to the log and to the store, unless its id is known. -/
def integrateEntry (key communityPk : Option Key) (channelId : String) (ulid : Ulid)
    (acc : MessageLog × Option NodeStore) (e : LogEntry) : MessageLog × Option NodeStore :=
  if (acc.1.getEntry channelId e.messageId).isSome then acc
  else
    let plain := key.bind fun k => P.aeadOpen k e.nonce e.ciphertext
    let log := applyReaction acc.1 (plain.bind P.decodeContent) e.authorId
    (log.appendEntry channelId e,
      match communityPk with
      | some pk => acc.2.map fun st => st.appendMessage pk ulid e.nonce e.ciphertext e.messageId
          e.authorId e.timestampMs
      | none => acc.2)

def integrateHistory (s : AppState) (communityId channelId : String) (entries : List LogEntry) :
    MessageLog × Option NodeStore :=
  match parseUlid channelId with
  | some ulid =>
    entries.foldl (integrateEntry P (s.channelKeys.lookup channelId)
      (communityPk? s.toTables communityId) channelId ulid) (s.messageLog, s.nodeStore)
  | none => (s.messageLog, s.nodeStore)

/-- `handle_channel_history_received`. -/
def handleChannelHistoryReceived (s : AppState) (communityId channelId : String)
    (entries : List LogEntry) : AppState :=
  let (log, store) := s.integrateHistory P communityId channelId entries
  { s with
    messageLog := log
    nodeStore := store
    pushes := s.pushes ++
      [.syncProgress channelId true, .channelHistorySynced channelId communityId] }

end

/-! ## What the message handlers can do -/

/-- Nothing but the log, the store and the pushes differs. -/
def MessageFrame (s s' : AppState) : Prop :=
  ∃ log store pushes, s' = { s with messageLog := log, nodeStore := store, pushes := pushes }

namespace MessageFrame

variable {s s' : AppState}

theorem refl (s : AppState) : MessageFrame s s := ⟨s.messageLog, s.nodeStore, s.pushes, rfl⟩

theorem toTables (h : MessageFrame s s') : s'.toTables = s.toTables := by
  obtain ⟨log, store, pushes, rfl⟩ := h
  rfl

theorem commands (h : MessageFrame s s') : s'.commands = s.commands := by
  obtain ⟨log, store, pushes, rfl⟩ := h
  rfl

theorem pendingRotation (h : MessageFrame s s') : s'.pendingRotation = s.pendingRotation := by
  obtain ⟨log, store, pushes, rfl⟩ := h
  rfl

end MessageFrame

section

variable {P : Prims}

/-- A message is ignored, or it is a new one of a member and is logged and stored. -/
theorem acceptMessage_cases :
    s.acceptMessage P c raw plaintext = s ∨
      authorVerified P s.toTables c raw = true ∧
        s.messageLog.getEntry raw.channelId.text raw.id.text = none ∧
        ∃ pushes, s.acceptMessage P c raw plaintext =
          { s with
            messageLog := logMessage s.messageLog raw (P.decodeContent plaintext)
            nodeStore := storeMessage s c raw
            pushes } := by
  unfold acceptMessage
  split
  · exact .inl rfl
  · next hauthor =>
    split
    · exact .inl rfl
    · next hnew =>
      exact .inr ⟨by simpa using hauthor, by simpa using hnew, _, rfl⟩

theorem acceptMessage_messageFrame : MessageFrame s (s.acceptMessage P c raw plaintext) := by
  rcases acceptMessage_cases (P := P) s c raw plaintext with h | ⟨-, -, pushes, h⟩
  · rw [h]
    exact .refl s
  · exact ⟨_, _, pushes, h⟩

/-- A message of an unknown channel is ignored, one that opens is accepted, and any other waits for
a key. -/
theorem handleNewMessage_cases (replaying : Bool) (s : AppState) (topic : String) (data : Bytes)
    (raw : RawMessage) :
    s.handleNewMessage P replaying topic data raw = s ∨
      (∃ ch key plaintext, s.channels.lookup raw.channelId.text = some ch ∧
        s.channelKeys.lookup raw.channelId.text = some key ∧
        decryptEither P (some key) (s.previousChannelKeys.lookup raw.channelId.text) raw.nonce
          raw.ciphertext = some plaintext ∧
        s.handleNewMessage P replaying topic data raw =
          s.acceptMessage P ch.communityId.text raw plaintext) ∨
      s.handleNewMessage P replaying topic data raw =
        s.bufferMessage replaying raw.channelId.text topic data := by
  unfold handleNewMessage
  dsimp only
  split
  · next ch key hch hkey =>
    split
    · next plaintext hopen => exact .inr (.inl ⟨ch, key, plaintext, hch, hkey, hopen, rfl⟩)
    · exact .inr (.inr rfl)
  · exact .inl rfl

theorem handleEditMessage_messageFrame (payload : EditMessagePayload) :
    MessageFrame s (s.handleEditMessage P payload) := by
  unfold handleEditMessage
  dsimp only
  split
  · exact .refl s
  · split <;> exact ⟨_, _, _, rfl⟩

theorem handleDeleteMessage_messageFrame (payload : DeleteMessagePayload) :
    MessageFrame s (s.handleDeleteMessage payload) := by
  unfold handleDeleteMessage
  dsimp only
  split
  · exact .refl s
  · split <;> exact ⟨_, _, _, rfl⟩

end

end AppState

end BitCord
