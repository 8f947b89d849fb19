import BitCord.Network

/-!
# Direct messages received

`DmEnvelope::open` and `handle_dm_received`. The entry of a received message comes from the mailbox
node, with the author that this node noted; the envelope inside names the key of its sender.
-/

namespace BitCord

open Lib

/-- The library functions on direct messages: the postcard encodings of payload and envelope, the
check of UTF-8 and the calendar. -/
structure DmCodec where
  encodeDmPayload : DmPayload → Bytes
  decodeDmPayload : Bytes → Option DmPayload
  decodeDmEnvelope : Bytes → Option DmEnvelope
  fromUtf8 : Bytes → Option String
  fromTimestampMillis : Int → Option DateTime

/-- What is encoded is decoded back. -/
structure DmCodec.Lawful (P : Prims) (codec : DmCodec) : Prop where
  payload : ∀ p, codec.decodeDmPayload (codec.encodeDmPayload p) = some p
  envelope : ∀ e, codec.decodeDmEnvelope (P.encodeDmEnvelope e) = some e

/-- `DmEnvelope::open`. -/
def DmEnvelope.open (P : Prims) (e : DmEnvelope) (recipientSk : Key) : Option Bytes :=
  let key := dmKey P e.ephemPk (P.diffieHellman recipientSk e.ephemPk)
    (P.diffieHellman recipientSk e.senderPk)
  P.aeadOpen key e.nonce e.ciphertext

theorem DmEnvelope.open_seal {P : Prims} (hP : P.Lawful) (senderSk recipientSk ephemSk : Key)
    (nonce : Nonce) (plaintext : Bytes) :
    (DmEnvelope.«seal» P senderSk (P.x25519Public recipientSk) ephemSk nonce plaintext).open P
      recipientSk = some plaintext := by
  unfold DmEnvelope.open DmEnvelope.«seal»
  dsimp only
  -- each of the two shared secrets is the same on both sides
  rw [hP.diffieHellman_comm recipientSk ephemSk, hP.diffieHellman_comm recipientSk senderSk,
    hP.aeadOpen_seal]

structure DmText where
  body : String
  replyTo : Option String
  id : Option String

variable {msg : DmMessageInfo} {ev : DmReceived}

section

variable (P : Prims) (codec : DmCodec)

/-- What an opened message says. Envelopes of older clients hold a plain text. -/
def readDm (plaintext : Bytes) : Option DmText :=
  match codec.decodeDmPayload plaintext with
  | some p => some ⟨p.body, p.replyTo, if p.id = "" then none else some p.id⟩
  | none => (codec.fromUtf8 plaintext).map fun body => ⟨body, none, none⟩

/-- The message of an entry, with what it says. Its author is the one that the entry names. -/
def dmInfo (env : Env) (entry : LogEntry) (text : DmText) : DmMessageInfo :=
  { id := text.id.getD entry.messageId
    peerId := entry.authorId
    authorId := entry.authorId
    timestamp := (codec.fromTimestampMillis entry.timestampMs).getD env.now
    body := text.body
    replyTo := text.replyTo
    editedAt := none }

def dmMessage (env : Env) (sk : Key) (ev : DmReceived) : Option DmMessageInfo :=
  if ev.recipientPk ≠ P.x25519PublicKeyBytes sk then none
  else do
    let envelope ← codec.decodeDmEnvelope ev.entry.ciphertext
    let plaintext ← envelope.open P (P.x25519Secret sk)
    let text ← readDm codec plaintext
    some (dmInfo codec env ev.entry text)

namespace DmNode

/-- The messages exchanged with a peer. -/
def conversation (n : DmNode) (peerId : String) : List DmMessageInfo :=
  (n.dms.lookup peerId).getD []

/-- The message that a received entry adds: one with a known id is dropped. -/
def newDm (env : Env) (n : DmNode) (ev : DmReceived) : Option DmMessageInfo :=
  (dmMessage P codec env n.app.signingKey ev).filter fun msg =>
    !(n.conversation ev.entry.authorId).any fun m => decide (m.id = msg.id)

/-- `handle_dm_received`. -/
def handleDmReceived (env : Env) (n : DmNode) (ev : DmReceived) : DmNode :=
  match n.newDm P codec env ev with
  | some msg =>
    let n := n.pushDm ev.entry.authorId msg
    { n with dmPushes := n.dmPushes ++ [msg] }
  | none => n

end DmNode

variable {P codec}

theorem dmMessage_eq_some_iff {env : Env} {sk : Key} :
    dmMessage P codec env sk ev = some msg ↔
      ev.recipientPk = P.x25519PublicKeyBytes sk ∧ ∃ envelope plaintext text,
        codec.decodeDmEnvelope ev.entry.ciphertext = some envelope ∧
        envelope.open P (P.x25519Secret sk) = some plaintext ∧
        readDm codec plaintext = some text ∧ dmInfo codec env ev.entry text = msg := by
  unfold dmMessage
  by_cases h : ev.recipientPk = P.x25519PublicKeyBytes sk
  · rw [if_neg (not_not_intro h)]
    simp only [Option.bind_eq_bind, Option.bind_eq_some_iff, Option.some.injEq]
    constructor
    · rintro ⟨envelope, hdecode, plaintext, hopen, text, hread, hmsg⟩
      exact ⟨h, envelope, plaintext, text, hdecode, hopen, hread, hmsg⟩
    · rintro ⟨-, envelope, plaintext, text, hdecode, hopen, hread, hmsg⟩
      exact ⟨envelope, hdecode, plaintext, hopen, text, hread, hmsg⟩
  · rw [if_pos h]
    simp [h]

namespace DmNode

theorem newDm_eq_some_iff {env : Env} {n : DmNode} :
    n.newDm P codec env ev = some msg ↔ dmMessage P codec env n.app.signingKey ev = some msg ∧
      ∀ m ∈ n.conversation ev.entry.authorId, m.id ≠ msg.id := by
  unfold newDm
  rw [Option.filter_eq_some_iff]
  simp

variable (env : Env) (n : DmNode)

theorem conversation_pushDm (peerId peerId' : String) (msg : DmMessageInfo) :
    (n.pushDm peerId msg).conversation peerId' =
      if peerId' = peerId then n.conversation peerId ++ [msg] else n.conversation peerId' := by
  unfold conversation pushDm
  dsimp only
  rw [Dict.lookup_upsert]
  by_cases h : peerId' = peerId
  · rw [if_pos h, if_pos h]
    rfl
  · rw [if_neg h, if_neg h]

/-- A received entry adds at most its message, to the conversation with its author. -/
theorem conversation_handleDmReceived (ev : DmReceived) (peerId : String) :
    (n.handleDmReceived P codec env ev).conversation peerId =
      if peerId = ev.entry.authorId then
        n.conversation peerId ++ (n.newDm P codec env ev).toList
      else n.conversation peerId := by
  unfold handleDmReceived
  cases n.newDm P codec env ev with
  | none => simp
  | some msg =>
    have hpush := conversation_pushDm n ev.entry.authorId peerId msg
    by_cases h : peerId = ev.entry.authorId
    · subst h
      rw [if_pos rfl] at hpush ⊢
      exact hpush
    · rw [if_neg h] at hpush ⊢
      exact hpush

theorem signingKey_handleDmReceived (ev : DmReceived) :
    (n.handleDmReceived P codec env ev).app.signingKey = n.app.signingKey := by
  unfold handleDmReceived
  cases n.newDm P codec env ev <;> rfl

end DmNode

end

end BitCord
