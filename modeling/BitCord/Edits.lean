import BitCord.Authenticity

/-!
# Edits and deletions

The author of a message signs what changes it. The two handlers compare the author that the
payload names with the author of the entry and do not look at the signature
(`change_authorised_iff`).
-/

namespace BitCord

open Lib AppState

/-- What changes an entry of the log: the payload of an `EditMessage` or of a
`DeleteMessage`. -/
inductive Change where
  | edit (payload : EditMessagePayload)
  | delete (payload : DeleteMessagePayload)

namespace Change

def event : Change → NetworkEvent
  | edit p => .editMessage p
  | delete p => .deleteMessage p

def messageId : Change → MessageId
  | edit p => p.messageId
  | delete p => p.messageId

def channelId : Change → ChannelId
  | edit p => p.channelId
  | delete p => p.channelId

def authorId : Change → UserId
  | edit p => p.authorId
  | delete p => p.authorId

def signature : Change → Bytes
  | edit p => p.signature
  | delete p => p.signature

/-- What `message_edit` and `message_delete` sign. -/
def signedBytes : Change → Bytes
  | edit p => editBytes p.messageId p.channelId p.newCiphertext
  | delete p => deleteBytes p.messageId p.channelId

def apply : Change → LogEntry → LogEntry
  | edit p, e => { e with nonce := p.newNonce, ciphertext := p.newCiphertext }
  | delete _, e => { e with deleted := true }

end Change

/-- The contents or the deletion mark of the entry differ. -/
def LogEntry.Altered (e e' : LogEntry) : Prop :=
  e'.nonce ≠ e.nonce ∨ e'.ciphertext ≠ e.ciphertext ∨ e'.deleted ≠ e.deleted

variable {e e' : LogEntry} {change : Change} {data : Bytes} (s : AppState)

theorem LogEntry.Altered.ne (h : e.Altered e') : e' ≠ e := by
  rintro rfl
  rcases h with h | h | h <;> exact h rfl

section

variable (P : Prims)

def SignedByAuthor (t : Tables) (change : Change) (ch authorId : String) : Prop :=
  ∃ r, memberOfChannel t ch authorId = some r ∧
    r.signedBy P change.signedBytes change.signature = true

def ChangeAuthorised (change : Change) (replaying : Bool) (s : AppState) (topic : String)
    (data : Bytes) : Prop :=
  ∀ (ch : String) (i : Nat) (e e' : LogEntry), (s.messageLog.entries ch)[i]? = some e →
    ((s.handleChannelMessage P replaying topic data).messageLog.entries ch)[i]? = some e' →
    e.Altered e' → SignedByAuthor P s.toTables change ch e.authorId

variable {P}

theorem messageLog_handleEditMessage (p : EditMessagePayload) :
    (s.handleEditMessage P p).messageLog =
      if isAuthor s.messageLog p.channelId.text p.messageId.text p.authorId.text then
        s.messageLog.updateEntry p.channelId.text p.messageId.text (Change.edit p).apply
      else s.messageLog := by
  unfold handleEditMessage
  dsimp only
  cases isAuthor s.messageLog p.channelId.text p.messageId.text p.authorId.text with
  | false => rfl
  | true => cases s.channels.lookup p.channelId.text <;> rfl

theorem messageLog_handleDeleteMessage (p : DeleteMessagePayload) :
    (s.handleDeleteMessage p).messageLog =
      if isAuthor s.messageLog p.channelId.text p.messageId.text p.authorId.text then
        s.messageLog.updateEntry p.channelId.text p.messageId.text (Change.delete p).apply
      else s.messageLog := by
  unfold handleDeleteMessage
  dsimp only
  cases isAuthor s.messageLog p.channelId.text p.messageId.text p.authorId.text with
  | false => rfl
  | true => cases s.channels.lookup p.channelId.text <;> rfl

theorem messageLog_handleChannelKeyRotation (replaying : Bool) (s : AppState)
    (payload : ChannelKeyRotationPayload) :
    (s.handleChannelKeyRotation P replaying payload).messageLog = s.messageLog := by
  unfold handleChannelKeyRotation
  dsimp only
  split
  · rfl
  · split
    · rfl
    · split
      · rfl
      · split <;> rfl

/-- Both handlers update the entry if it has the author that the payload names. -/
theorem messageLog_handleChannelMessage_of_change (hd : P.decodeEvent data = some change.event)
    (replaying : Bool) (s : AppState) (topic : String) :
    (s.handleChannelMessage P replaying topic data).messageLog =
      if isAuthor s.messageLog change.channelId.text change.messageId.text
          change.authorId.text then
        s.messageLog.updateEntry change.channelId.text change.messageId.text change.apply
      else s.messageLog := by
  unfold handleChannelMessage
  rw [hd]
  cases change with
  | edit p => exact messageLog_handleEditMessage s p
  | delete p => exact messageLog_handleDeleteMessage s p

theorem isAuthor_eq_true_iff {log : MessageLog} {ch mid author : String} :
    isAuthor log ch mid author = true ↔
      ∃ e, log.getEntry ch mid = some e ∧ e.authorId = author := by
  unfold isAuthor
  cases log.getEntry ch mid with
  | none => simp
  | some e => simp

/-- An altered entry is the one that the payload names, with the author that it names. -/
theorem getEntry_of_altered {replaying : Bool} {s : AppState} {topic : String}
    (hd : P.decodeEvent data = some change.event) {ch : String} {i : Nat}
    (he : (s.messageLog.entries ch)[i]? = some e)
    (he' : ((s.handleChannelMessage P replaying topic data).messageLog.entries ch)[i]? = some e')
    (halt : e.Altered e') :
    ch = change.channelId.text ∧
      s.messageLog.getEntry change.channelId.text change.messageId.text = some e ∧
      e.authorId = change.authorId.text ∧ e' = change.apply e := by
  rw [messageLog_handleChannelMessage_of_change hd] at he'
  split at he'
  · next hauthor =>
    rw [MessageLog.entries_updateEntry] at he'
    split at he'
    · next hch =>
      subst hch
      obtain ⟨hfind, happ⟩ := find?_of_updateFirst_ne he he' halt.ne
      obtain ⟨e₀, hget, hname⟩ := isAuthor_eq_true_iff.mp hauthor
      have he₀ : e₀ = e := Option.some.inj (hget.symm.trans hfind)
      subst he₀
      exact ⟨rfl, hfind, hname, happ⟩
    · exact absurd (Option.some.inj (he'.symm.trans he)) halt.ne
  · exact absurd (Option.some.inj (he'.symm.trans he)) halt.ne

/-- An edit or a deletion alters only what its author signed if and only if it is signed by the
author it names, unless it alters nothing: the named entry has another author, or already is as
the payload says. -/
theorem change_authorised_iff {change : Change} {replaying : Bool} {s : AppState} {topic : String}
    {data : Bytes} (hd : P.decodeEvent data = some change.event) :
    ChangeAuthorised P change replaying s topic data ↔
      ∀ e, s.messageLog.getEntry change.channelId.text change.messageId.text = some e →
        e.authorId = change.authorId.text → e.Altered (change.apply e) →
        SignedByAuthor P s.toTables change change.channelId.text change.authorId.text := by
  constructor
  · intro h e hget hauthor halt
    obtain ⟨i, hi, hi'⟩ := exists_updateFirst_of_find? (f := change.apply) hget
    rw [← hauthor]
    refine h change.channelId.text i e (change.apply e) hi ?_ halt
    rw [messageLog_handleChannelMessage_of_change hd,
      if_pos (isAuthor_eq_true_iff.mpr ⟨e, hget, hauthor⟩), MessageLog.entries_updateEntry,
      if_pos rfl]
    exact hi'
  · intro h ch i e e' he he' halt
    obtain ⟨rfl, hget, hauthor, rfl⟩ := getEntry_of_altered hd he he' halt
    rw [hauthor]
    exact h e hget hauthor halt

end

/-! ## Evaluations -/

namespace Sample

def messageApp : AppState :=
  { channelNode.app with
    messageLog := MessageLog.empty.append channel.id.text message.id.text message.authorId.text 0
      message.nonce message.ciphertext }

def deletion (signature : Bytes) : DeleteMessagePayload :=
  ⟨message.id, channel.id, message.authorId, signature, 0⟩

def deletionSignature (sk : Key) : Bytes :=
  toBytes ((prims [] []).sign sk (deleteBytes message.id channel.id))

end Sample

open Sample in
/-- Anyone deletes the message of a member, without a signature. -/
theorem unsigned_deletion_applied :
    let P := prims [.deleteMessage (deletion [])] []
    P.decodeEvent [0] = some (Change.delete (deletion [])).event ∧
      ¬ ChangeAuthorised P (.delete (deletion [])) false messageApp
        (channelTopic channel.id.text) [0] := by
  refine ⟨rfl, fun h => ?_⟩
  have hgone := h channel.id.text 0
    ⟨0, 3, message.ciphertext, message.id.text, message.authorId.text, 0, false⟩
    ⟨0, 3, message.ciphertext, message.id.text, message.authorId.text, 0, true⟩
    (by decide +kernel) (by decide +kernel) (.inr (.inr (by decide)))
  obtain ⟨r, -, hsig⟩ := hgone
  -- an empty signature verifies under no key
  have hver : Prims.verifyBytes (prims [.deleteMessage (deletion [])] []) r.publicKey
      (deleteBytes message.id channel.id) [] = true := verifyBytes_of_signedBy hsig
  cases hver

open Sample in
theorem change_authorised_signed :
    let p := deletion (deletionSignature 20)
    let P := prims [.deleteMessage p] []
    (messageApp.handleChannelMessage P false "" [0]).messageLog.getEntry channel.id.text
        message.id.text =
        some ⟨0, 3, message.ciphertext, message.id.text, message.authorId.text, 0, true⟩ ∧
      ChangeAuthorised P (.delete p) false messageApp "" [0] := by
  refine ⟨by decide +kernel, (change_authorised_iff rfl).mpr fun e _ _ _ => ?_⟩
  exact ⟨record 20 [.member], by decide +kernel, by decide +kernel⟩

end BitCord
