import BitCord.Sample

/-!
# Delivery of channel messages

What `message_send` publishes on one node is what `handle_channel_message` appends on another, as
long as the other node knows the channel, its key and the author.
-/

namespace BitCord

open Lib AppState

variable {plaintext : Bytes} {s : AppState} {p : SendMessageParams} {c : String}

section

variable {P : Prims}

/-- A message that its author created verifies under the key of the author. -/
theorem verify_create (hP : P.Lawful) (id : MessageId) (channelId : ChannelId) (sk : Key)
    (timestamp : DateTime) (ciphertext : Bytes) (nonce : Nonce) :
    (RawMessage.create P id channelId sk timestamp ciphertext nonce).verify P (P.verifyingKey sk) =
      true := by
  unfold RawMessage.verify RawMessage.create Prims.verifyBytes
  dsimp only
  rw [tryIntoArray_toBytes (by decide)]
  exact hP.verify_sign sk _

/-- What the receiver decrypts: the current key opens the message, or it fails and the previous
key opens it. -/
theorem decryptEither_seal (hP : P.Lawful) {key current : Key} {prev : Option Key} {nonce : Nonce}
    (hkey : current = key ∨ prev = some key)
    (hwrong : current ≠ key → P.aeadOpen current nonce (P.aeadSeal key nonce plaintext) = none) :
    decryptEither P (some current) prev nonce (P.aeadSeal key nonce plaintext) =
      some plaintext := by
  unfold decryptEither
  rw [Option.bind_some]
  by_cases hsame : current = key
  · rw [hsame, hP.aeadOpen_seal, Option.some_or]
  · have hprev : prev = some key := hkey.resolve_left hsame
    rw [hwrong hsame, Option.none_or, hprev, Option.bind_some, hP.aeadOpen_seal]

/-! ## Sending -/

/-- The content that `message_send` encrypts. -/
def sentContent (p : SendMessageParams) : MessageContent :=
  .text p.body [] ((p.replyTo.bind parseUlid).map MessageId.mk) none

/-- The entry of a message in a log, with the number it gets there. -/
def entryOf (raw : RawMessage) (seq : UInt64) : LogEntry :=
  ⟨seq, raw.nonce, raw.ciphertext, raw.id.text, raw.authorId.text, timestampMillis raw.timestamp,
    false⟩

theorem messageSend_ok {env : Env} {reply : RpcReply}
    (hok : (s.messageSend P env p).2 = .ok reply) : ∃ key ulid,
      s.channelKeys.lookup p.channelId = some key ∧ parseUlid p.channelId = some ulid ∧
      s.messageSend P env p = s.sendText P env p key ulid := by
  unfold messageSend at hok ⊢
  split at hok
  · cases hok
  · next hbody =>
    rw [if_neg hbody]
    split at hok
    · cases hok
    · cases hok
    · cases hok
    · next key ulid hrefusal hkey hulid => exact ⟨key, ulid, hkey, hulid, rfl⟩

/-! ## Receiving -/

/-- The receiver is ready for a message of `sender`: it knows the channel and a key for it, it has
the record of the author, and the message is new to it. A current key that is not the key of the
message does not open it. -/
structure Ready (P : Prims) (sender : AppState) (key : Key) (raw : RawMessage) (c : String)
    (s : AppState) : Prop where
  channel : ∃ ch, s.channels.lookup raw.channelId.text = some ch ∧ ch.communityId.text = c
  keys : ∃ current, s.channelKeys.lookup raw.channelId.text = some current ∧
    (current = key ∨ s.previousChannelKeys.lookup raw.channelId.text = some key) ∧
    (current ≠ key → P.aeadOpen current raw.nonce raw.ciphertext = none)
  author : ∃ r, member? s.toTables c (sender.peerId P) = some r ∧
    r.publicKey = P.verifyingKey sender.signingKey
  fresh : s.messageLog.getEntry raw.channelId.text raw.id.text = none

/-- The two entries are of the same message; their numbers may differ. -/
structure SameMessage (e e' : LogEntry) : Prop where
  messageId : e.messageId = e'.messageId
  authorId : e.authorId = e'.authorId
  timestampMs : e.timestampMs = e'.timestampMs
  nonce : e.nonce = e'.nonce
  ciphertext : e.ciphertext = e'.ciphertext

/-- The receiver's log has one entry more: that of the message, from which it reads the content. -/
structure Accepted (P : Prims) (channelId : String) (own : LogEntry) (content : MessageContent)
    (s s' : AppState) : Prop where
  appended : ∃ e, s'.messageLog.entries channelId = s.messageLog.entries channelId ++ [e] ∧
    SameMessage e own ∧
    (decryptEither P (s'.channelKeys.lookup channelId) (s'.previousChannelKeys.lookup channelId)
      e.nonce e.ciphertext).bind P.decodeContent = some content
  others : ∀ x, x ≠ channelId → s'.messageLog.entries x = s.messageLog.entries x

theorem acceptMessage_text {raw : RawMessage}
    {body : String} {attachments : List AttachmentRef} {replyTo : Option MessageId}
    {editedAt : Option DateTime} (hauthor : authorVerified P s.toTables c raw = true)
    (hfresh : s.messageLog.getEntry raw.channelId.text raw.id.text = none)
    (hcontent : P.decodeContent plaintext = some (.text body attachments replyTo editedAt)) :
    (s.acceptMessage P c raw plaintext).messageLog =
      s.messageLog.append raw.channelId.text raw.id.text raw.authorId.text
        (timestampMillis raw.timestamp) raw.nonce raw.ciphertext := by
  unfold acceptMessage
  rw [hauthor, hfresh, hcontent]
  rfl

theorem accepted_of_ready (hP : P.Lawful) {env : Env} {sender : AppState} {ulid : Ulid}
    {key : Key} {seq : UInt64} (replaying : Bool) (topic : String) (data : Bytes)
    (hcontent : P.decodeContent (P.encodeContent (sentContent p)) = some (sentContent p))
    (hready : Ready P sender key (sender.ownMessage P env ulid key (sentContent p)) c s) :
    Accepted P (ChannelId.mk ulid).text
      (entryOf (sender.ownMessage P env ulid key (sentContent p)) seq) (sentContent p) s
      (s.handleNewMessage P replaying topic data
        (sender.ownMessage P env ulid key (sentContent p))) := by
  obtain ⟨⟨ch, hch, hc⟩, ⟨current, hcurrent, hkey, hwrong⟩, ⟨r, hr, hpk⟩, hfresh⟩ := hready
  generalize hraw : sender.ownMessage P env ulid key (sentContent p) = raw at *
  have hid : (ChannelId.mk ulid).text = raw.channelId.text := by rw [← hraw]; rfl
  have hsealed : raw.ciphertext = P.aeadSeal key raw.nonce (P.encodeContent (sentContent p)) := by
    rw [← hraw]
    rfl
  have hopen : decryptEither P (some current) (s.previousChannelKeys.lookup raw.channelId.text)
      raw.nonce raw.ciphertext = some (P.encodeContent (sentContent p)) := by
    rw [hsealed] at hwrong ⊢
    exact decryptEither_seal hP hkey hwrong
  have hauthor : authorVerified P s.toTables c raw = true := by
    have hname : raw.authorId.text = sender.peerId P := by rw [← hraw]; rfl
    unfold authorVerified
    rw [hname, hr]
    dsimp only
    rw [hpk, hP.vkValid_verifyingKey, Bool.true_and, ← hraw]
    exact verify_create hP _ _ _ _ _ _
  have hstep : s.handleNewMessage P replaying topic data raw =
      s.acceptMessage P c raw (P.encodeContent (sentContent p)) := by
    unfold handleNewMessage
    dsimp only
    rw [hch, hcurrent]
    dsimp only
    rw [hopen, hc]
  have hlog := acceptMessage_text hauthor hfresh hcontent
  have htables := (acceptMessage_messageFrame (P := P) s c raw
    (P.encodeContent (sentContent p))).toTables
  rw [hstep, hid]
  constructor
  · refine ⟨entryOf raw (UInt64.ofNat (s.messageLog.entries raw.channelId.text).length), ?_,
      ⟨rfl, rfl, rfl, rfl, rfl⟩, ?_⟩
    · rw [hlog, MessageLog.entries_append, if_pos rfl]
      rfl
    · rw [htables, hcurrent]
      show (decryptEither P (some current) _ raw.nonce raw.ciphertext).bind _ = _
      rw [hopen, Option.bind_some, hcontent]
  · intro x hx
    rw [hlog, MessageLog.entries_append, if_neg hx]

/-- What a successful `message_send` publishes is appended by every node that is ready for it, as
the entry that the sender itself has, and the receiver reads what was sent. -/
theorem honest_message_accepted (hP : P.Lawful) {env : Env} {sender : AppState}
    {p : SendMessageParams} {reply : RpcReply} (hok : (sender.messageSend P env p).2 = .ok reply) :
    ∃ key ulid, sender.channelKeys.lookup p.channelId = some key ∧
      parseUlid p.channelId = some ulid ∧
      let raw := sender.ownMessage P env ulid key (sentContent p)
      let data := P.encodeEvent (.newMessage raw)
      (sender.messageSend P env p).1.commands =
        sender.commands ++ [.publish (channelTopic p.channelId) data] ∧
      ∃ own, (sender.messageSend P env p).1.messageLog.entries p.channelId =
          sender.messageLog.entries p.channelId ++ [own] ∧
        ∀ c s replaying topic, P.decodeEvent data = some (.newMessage raw) →
          P.decodeContent (P.encodeContent (sentContent p)) = some (sentContent p) →
          Ready P sender key raw c s →
          Accepted P (ChannelId.mk ulid).text own (sentContent p) s
            (s.handleChannelMessage P replaying topic data) := by
  obtain ⟨key, ulid, hkey, hulid, hsend⟩ := messageSend_ok hok
  refine ⟨key, ulid, hkey, hulid, ?_,
    entryOf (sender.ownMessage P env ulid key (sentContent p))
      (UInt64.ofNat (sender.messageLog.entries p.channelId).length), ?_, ?_⟩
  · rw [hsend]
    rfl
  · rw [hsend]
    show (logOwn sender.messageLog p.channelId _).entries p.channelId = _
    unfold logOwn
    rw [MessageLog.entries_append, if_pos rfl]
    rfl
  · intro c s replaying topic hevent hcontent hready
    unfold handleChannelMessage
    rw [hevent]
    exact accepted_of_ready hP replaying topic _ hcontent hready

end

/-! ## A message after a rotation -/

namespace Sample

def greeting : SendMessageParams := ⟨community.text, channel.id.text, "hello", none⟩

/-- The node of the author, which has not seen the rotation. -/
def author : AppState := withChannel (withCommunity (app 20) 30) channel 70

def receiver : AppState :=
  { withChannel (withMembers (withCommunity (app 30) 30) [record 20 [.member]]) channel 71 with
    previousChannelKeys := (∅ : Dict String Key).insert channel.id.text 70 }

def greetingMessage : RawMessage :=
  author.ownMessage (prims [] [sentContent greeting]) env 7 70 (sentContent greeting)

theorem decode_encodeEvent (ev : NetworkEvent) (contents : List MessageContent) :
    (prims [ev] contents).decodeEvent ((prims [ev] contents).encodeEvent ev) = some ev := by
  simp [prims]

theorem decode_encodeContent (events : List NetworkEvent) (content : MessageContent) :
    (prims events [content]).decodeContent ((prims events [content]).encodeContent content) =
      some content := by
  simp [prims]

def greetingPrims : Prims := prims [.newMessage greetingMessage] [sentContent greeting]

theorem greeting_sent : ∃ reply, (author.messageSend greetingPrims env greeting).2 = .ok reply := by
  have hkey : author.channelKeys.lookup greeting.channelId = some 70 := AList.lookup_insert _
  have hulid : parseUlid greeting.channelId = some 7 := parseUlid_ulidText 7
  have hrefusal : (author.seedRefusal greeting.communityId).or
      (author.announcementRefusal greetingPrims greeting.communityId greeting.channelId) =
        none := by
    decide +kernel
  unfold messageSend
  rw [if_neg (by decide), hrefusal, hkey, hulid]
  exact ⟨_, rfl⟩

theorem ready_greeting :
    Ready greetingPrims author 70 greetingMessage community.text receiver where
  channel := ⟨channel, AList.lookup_insert _, rfl⟩
  keys := by
    refine ⟨71, AList.lookup_insert _, .inr (AList.lookup_insert _), fun _ => ?_⟩
    decide +kernel
  author := by
    have hrecord : (member? receiver.toTables community.text (author.peerId greetingPrims)).map
        (fun r => r.publicKey) = some (greetingPrims.verifyingKey author.signingKey) := by
      decide +kernel
    obtain ⟨r, hr, hpk⟩ := Option.map_eq_some_iff.mp hrecord
    exact ⟨r, hr, hpk⟩
  fresh := by decide +kernel

end Sample

open Sample in
theorem honest_message_accepted_rotated :
    ∃ own, (author.messageSend greetingPrims env greeting).1.messageLog.entries channel.id.text =
        [own] ∧
      Accepted greetingPrims channel.id.text own (sentContent greeting) receiver
        (receiver.handleChannelMessage greetingPrims false (channelTopic channel.id.text)
          (greetingPrims.encodeEvent (.newMessage greetingMessage))) := by
  obtain ⟨reply, hok⟩ := greeting_sent
  obtain ⟨key, ulid, hkey, hulid, -, own, hlog, haccept⟩ :=
    honest_message_accepted (prims_lawful _ _) hok
  have hkey' : author.channelKeys.lookup greeting.channelId = some 70 := AList.lookup_insert _
  have hulid' : parseUlid greeting.channelId = some 7 := by decide +kernel
  obtain rfl : (70 : Key) = key := Option.some.inj (hkey'.symm.trans hkey)
  obtain rfl : (7 : Ulid) = ulid := Option.some.inj (hulid'.symm.trans hulid)
  refine ⟨own, hlog, ?_⟩
  exact haccept community.text receiver false (channelTopic channel.id.text)
    (decode_encodeEvent (.newMessage greetingMessage) _) (decode_encodeContent _ _) ready_greeting

end BitCord
