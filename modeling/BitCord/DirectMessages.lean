import BitCord.Events.Dm
import BitCord.Mailbox

/-!
# Direct messages from end to end

What the recipient makes of an entry that a mailbox node hands over. A message comes out as
`dm_send` sealed it, once, however often it is delivered (`dm_survives`). Its author is the one that
the mailbox node noted, which is never compared with the key under which the envelope was sealed
(`dm_author_iff`, `dm_author_forged`).
-/

namespace BitCord

open Lib Lib.Run

variable {n : DmNode} {ev : DmReceived} {m msg : DmMessageInfo}

variable {P : Prims} {codec : DmCodec}

/-! ## The author of a message -/

variable (P codec) in
/-- Handling the entry stores a message by the author. -/
def StoresDm (env : Env) (n : DmNode) (ev : DmReceived) (author : String) : Prop :=
  ∃ msg, (n.handleDmReceived P codec env ev).conversation author = n.conversation author ++ [msg] ∧
    msg.authorId = author

variable (codec) in
def SealedUnder (ev : DmReceived) (x25519Pk : Key) : Prop :=
  ∃ envelope, codec.decodeDmEnvelope ev.entry.ciphertext = some envelope ∧
    envelope.senderPk = x25519Pk

variable (P codec) in
/-- The node takes the envelope: it is for the node, can be opened and read, and its message is not
in the conversation with the author of the entry. -/
structure TakesDm (n : DmNode) (ev : DmReceived) (envelope : DmEnvelope) : Prop where
  addressed : ev.recipientPk = P.x25519PublicKeyBytes n.app.signingKey
  decoded : codec.decodeDmEnvelope ev.entry.ciphertext = some envelope
  opens : ∃ plaintext text,
    envelope.open P (P.x25519Secret n.app.signingKey) = some plaintext ∧
    readDm codec plaintext = some text ∧
    ∀ m ∈ n.conversation ev.entry.authorId, m.id ≠ text.id.getD ev.entry.messageId

theorem exists_newDm_iff (env : Env) :
    (∃ msg, n.newDm P codec env ev = some msg) ↔ ∃ envelope, TakesDm P codec n ev envelope := by
  simp only [DmNode.newDm_eq_some_iff, dmMessage_eq_some_iff]
  constructor
  · rintro ⟨msg, ⟨hrecipient, envelope, plaintext, text, hdecode, hopen, hread, rfl⟩, hnew⟩
    exact ⟨envelope, hrecipient, hdecode, plaintext, text, hopen, hread, hnew⟩
  · rintro ⟨envelope, hrecipient, hdecode, plaintext, text, hopen, hread, hnew⟩
    exact ⟨dmInfo codec env ev.entry text,
      ⟨hrecipient, envelope, plaintext, text, hdecode, hopen, hread, rfl⟩, hnew⟩

theorem authorId_newDm {env : Env}
    (h : n.newDm P codec env ev = some msg) : msg.authorId = ev.entry.authorId := by
  obtain ⟨-, -, -, text, -, -, -, rfl⟩ :=
    dmMessage_eq_some_iff.mp (DmNode.newDm_eq_some_iff.mp h).1
  rfl

/-- A message by an author is stored exactly if the entry names the author and the node takes its
envelope. -/
theorem storesDm_iff {env : Env} {author : String} :
    StoresDm P codec env n ev author ↔
      ev.entry.authorId = author ∧ ∃ envelope, TakesDm P codec n ev envelope := by
  unfold StoresDm
  rw [← exists_newDm_iff env]
  simp only [DmNode.conversation_handleDmReceived]
  constructor
  · rintro ⟨msg, hconv, -⟩
    split at hconv
    · next heq =>
      rw [List.append_cancel_left_eq] at hconv
      exact ⟨heq.symm, msg, Option.toList_eq_singleton_iff.mp hconv⟩
    · simp at hconv
  · rintro ⟨rfl, msg, hmsg⟩
    refine ⟨msg, ?_, authorId_newDm hmsg⟩
    rw [if_pos rfl, hmsg, Option.toList_some]

/-- A message that is stored under the name of a user was sealed under the key of this user if and
only if this holds of the envelopes that the node takes from entries that name the user. -/
theorem dm_author_iff (env : Env) (n : DmNode) (ev : DmReceived) (sk : Key) :
    (StoresDm P codec env n ev (P.userIdOf (P.verifyingKey sk)).text →
      SealedUnder codec ev (P.x25519PublicKeyBytes sk)) ↔
    ∀ envelope, TakesDm P codec n ev envelope →
      ev.entry.authorId = (P.userIdOf (P.verifyingKey sk)).text →
      envelope.senderPk = P.x25519PublicKeyBytes sk := by
  rw [storesDm_iff]
  constructor
  · intro h envelope htakes hauthor
    obtain ⟨envelope', hdecoded, hsender⟩ := h ⟨hauthor, envelope, htakes⟩
    cases htakes.decoded.symm.trans hdecoded
    exact hsender
  · rintro h ⟨hauthor, envelope, htakes⟩
    exact ⟨envelope, htakes.decoded, h envelope htakes hauthor⟩

/-! ## A message that arrives -/

section

variable {size : Stored LogEntry → Nat} {skR : Key}

def Deposit.entry (d : Deposit P codec.encodeDmPayload size skR) : LogEntry :=
  { seq := d.seq
    nonce := 0
    ciphertext := P.encodeDmEnvelope d.cmd.envelope
    messageId := ulidText (d.mailEnv.ulid 0)
    authorId := d.sender.app.peerId P
    timestampMs := timestampMillis d.mailEnv.now
    deleted := false }

/-- It is what the mailbox has under the number of the acknowledgement. -/
theorem Deposit.mailAt_entry (d : Deposit P codec.encodeDmPayload size skR) :
    NodeStore.mailAt d.cmd.recipientX25519Pk d.seq
      (dispatch P d.mailEnv d.remote d.conn d.request).1.services.store = some d.entry := by
  have hstore : (dispatch P d.mailEnv d.remote d.conn d.request).1.services.store =
      d.conn.services.store.apply size d.op := by
    rw [d.request_eq]
    exact store_dispatch_sendDm d.session _ _
  have hack : NodeResponse.dmAck (d.conn.services.store.nextMailSeq d.cmd.recipientX25519Pk) =
      .dmAck d.seq := by
    rw [← d.acked, d.request_eq]
    unfold dispatch
    dsimp only
    rw [d.session]
    rfl
  have hseq := NodeResponse.dmAck.inj hack
  rw [hstore, NodeStore.mailAt_apply]
  unfold Deposit.op NodeStore.mailWrite
  dsimp only
  rw [if_pos ⟨rfl, hseq⟩]
  rfl

variable {env : Env}

/-- What `dm_send` returns and sends: a message with a new id, sealed for the key that was found. -/
theorem sealed_of_dmSend {dht : Option DhtAnswers} {p : SendDmParams}
    {encodeDmPayload : DmPayload → Bytes} {cmd : SendDm}
    (hmsg : (dmSend P encodeDmPayload env dht n p).2 = .ok msg)
    (hsent : (dmSend P encodeDmPayload env dht n p).1.dmCommands = n.dmCommands ++ [cmd]) :
    msg.id = ulidText (env.ulid 0) ∧
      cmd.envelope = .«seal» P (P.x25519Secret n.app.signingKey) cmd.recipientX25519Pk (env.key 0)
        (env.nonce 0) (encodeDmPayload ⟨p.body, p.replyTo, msg.id⟩) := by
  unfold dmSend at hmsg hsent
  by_cases hbody : p.body = ""
  · rw [if_pos hbody] at hmsg
    cases hmsg
  · rw [if_neg hbody] at hmsg hsent
    dsimp only at hmsg hsent
    have hmsg := Except.ok.inj hmsg
    subst hmsg
    refine ⟨rfl, ?_⟩
    split at hsent
    · have hcmd := List.append_cancel_left hsent
      rw [← (List.cons.inj hcmd).1]
      rfl
    · have hcmd := List.append_cancel_left hsent
      rw [← (List.cons.inj hcmd).1]
      rfl
    · -- no key of the recipient is known, and nothing is sent
      have hlen := congrArg List.length hsent
      rw [List.length_append, List.length_singleton] at hlen
      exact absurd hlen (Nat.ne_of_lt (Nat.lt_succ_self _))

theorem ulidText_ne_empty (u : Ulid) : ulidText u ≠ "" := by
  intro h
  have hparse := parseUlid_ulidText u
  rw [h] at hparse
  cases hparse

/-- A message is what the sender of a deposit wrote. -/
structure Deposit.Says (d : Deposit P codec.encodeDmPayload size skR) (m : DmMessageInfo) :
    Prop where
  body : m.body = d.params.body
  replyTo : m.replyTo = d.params.replyTo
  author : m.authorId = d.sender.app.peerId P

/-- The recipient reads the message as it was written. -/
theorem Deposit.dmMessage_envelope (hP : P.Lawful) (hcodec : codec.Lawful P)
    (d : Deposit P codec.encodeDmPayload size skR)
    (hkey : d.cmd.recipientX25519Pk = P.x25519PublicKeyBytes skR)
    (hmsg : (dmSend P codec.encodeDmPayload d.env d.dht d.sender d.params).2 = .ok msg)
    (hrecipient : ev.recipientPk = P.x25519PublicKeyBytes skR)
    (henvelope : codec.decodeDmEnvelope ev.entry.ciphertext = some d.cmd.envelope) :
    dmMessage P codec env skR ev =
      some (dmInfo codec env ev.entry ⟨d.params.body, d.params.replyTo, some msg.id⟩) := by
  obtain ⟨hid, hsealed⟩ := sealed_of_dmSend hmsg d.sent
  rw [dmMessage_eq_some_iff]
  refine ⟨hrecipient, d.cmd.envelope,
    codec.encodeDmPayload ⟨d.params.body, d.params.replyTo, msg.id⟩, _, henvelope, ?_, ?_, rfl⟩
  · rw [hsealed, hkey]
    exact DmEnvelope.open_seal hP _ _ _ _ _
  · unfold readDm
    rw [hcodec.payload]
    dsimp only
    -- the id of a sent message is a ULID, so it is never taken for a missing one
    rw [if_neg (by rw [hid]; exact ulidText_ne_empty _)]

/-- Whatever entry the envelope comes in, it says what the sender wrote. -/
theorem Deposit.says_of_dmMessage (hP : P.Lawful) (hcodec : codec.Lawful P)
    (d : Deposit P codec.encodeDmPayload size skR)
    (hkey : d.cmd.recipientX25519Pk = P.x25519PublicKeyBytes skR)
    (hmsg : (dmSend P codec.encodeDmPayload d.env d.dht d.sender d.params).2 = .ok msg)
    (hread : dmMessage P codec env skR ev = some m)
    (henvelope : codec.decodeDmEnvelope ev.entry.ciphertext = some d.cmd.envelope)
    (hauthor : ev.entry.authorId = d.sender.app.peerId P) : d.Says m := by
  have hrecipient := (dmMessage_eq_some_iff.mp hread).1
  rw [d.dmMessage_envelope hP hcodec hkey hmsg hrecipient henvelope] at hread
  have hm := Option.some.inj hread
  subst hm
  exact ⟨rfl, rfl, hauthor⟩

end

/-! ## Repeated deliveries -/

section

variable (P codec)

/-- A node that handles received entries one after the other. -/
def receiveStep (n : DmNode) (i : Env × DmReceived) : DmNode := n.handleDmReceived P codec i.1 i.2

def withId (n : DmNode) (peerId id : String) : List DmMessageInfo :=
  (n.conversation peerId).filter fun m => decide (m.id = id)

end

/-- An entry adds at most one message with an id: its own, if there was none. -/
theorem withId_handleDmReceived (env : Env) (n : DmNode) (ev : DmReceived) (peerId id : String) :
    withId (n.handleDmReceived P codec env ev) peerId id = withId n peerId id ∨
      withId n peerId id = [] ∧ ∃ m, ev.entry.authorId = peerId ∧
        dmMessage P codec env n.app.signingKey ev = some m ∧ m.id = id ∧
        withId (n.handleDmReceived P codec env ev) peerId id = [m] := by
  unfold withId
  rw [DmNode.conversation_handleDmReceived]
  by_cases hpeer : peerId = ev.entry.authorId
  · rw [if_pos hpeer]
    cases hnew : n.newDm P codec env ev with
    | none =>
      rw [Option.toList_none, List.append_nil]
      exact .inl rfl
    | some m =>
      obtain ⟨hread, hfresh⟩ := DmNode.newDm_eq_some_iff.mp hnew
      rw [Option.toList_some, List.filter_append, List.filter_singleton]
      by_cases hid : m.id = id
      · have hempty : (n.conversation peerId).filter (fun m => decide (m.id = id)) = [] := by
          rw [List.filter_eq_nil_iff, ← hid, hpeer]
          simpa using hfresh
        rw [decide_eq_true hid, hempty]
        exact .inr ⟨rfl, m, hpeer.symm, hread, hid, rfl⟩
      · rw [decide_eq_false hid]
        exact .inl (List.append_nil _)
  · rw [if_neg hpeer]
    exact .inl rfl

/-- An entry that can be read leaves a message with its id. -/
theorem withId_ne_nil {env : Env}
    {peerId id : String} (hread : dmMessage P codec env n.app.signingKey ev = some m)
    (hauthor : ev.entry.authorId = peerId) (hid : m.id = id) :
    withId (n.handleDmReceived P codec env ev) peerId id ≠ [] := by
  subst hauthor hid
  unfold withId
  rw [DmNode.conversation_handleDmReceived, if_pos rfl, Ne, List.filter_eq_nil_iff]
  intro hnone
  have hfresh : ∀ x ∈ n.conversation ev.entry.authorId, x.id ≠ m.id := fun x hx =>
    of_decide_eq_false (Bool.eq_false_iff.mpr (hnone x (List.mem_append_left _ hx)))
  have hnew : n.newDm P codec env ev = some m := DmNode.newDm_eq_some_iff.mpr ⟨hread, hfresh⟩
  rw [hnew] at hnone
  exact hnone m (List.mem_append_right _ (List.mem_singleton_self m)) (decide_eq_true rfl)

section

variable {size : Stored LogEntry → Nat} {skR : Key}

/-- The recipient has the message once it has handled the entry. -/
theorem Deposit.withId_entry (hP : P.Lawful) (hcodec : codec.Lawful P)
    (d : Deposit P codec.encodeDmPayload size skR)
    (hkey : d.cmd.recipientX25519Pk = P.x25519PublicKeyBytes skR)
    (hmsg : (dmSend P codec.encodeDmPayload d.env d.dht d.sender d.params).2 = .ok msg)
    (env : Env) (hsk : n.app.signingKey = skR) :
    withId (n.handleDmReceived P codec env ⟨d.entry, P.x25519PublicKeyBytes skR⟩)
      (d.sender.app.peerId P) msg.id ≠ [] := by
  subst hsk
  have hauthor : d.entry.authorId = d.sender.app.peerId P := rfl
  have henvelope : codec.decodeDmEnvelope d.entry.ciphertext = some d.cmd.envelope :=
    hcodec.envelope _
  generalize d.entry = entry at hauthor henvelope ⊢
  have hread : dmMessage P codec env n.app.signingKey
      ⟨entry, P.x25519PublicKeyBytes n.app.signingKey⟩ =
      some (dmInfo codec env entry ⟨d.params.body, d.params.replyTo, some msg.id⟩) :=
    d.dmMessage_envelope hP hcodec hkey hmsg rfl henvelope
  exact withId_ne_nil hread hauthor rfl

/-- The entry that the node stored for a message brings it to the recipient: among any entries that
the recipient handles, as often as this one is among them, the conversation with the sender has
exactly one message with the id that `dm_send` returned, and it is as it was written. The id is
unique: it is not in the conversation before, and no other envelope in the name of the sender has
it. -/
theorem dm_survives (hP : P.Lawful) (hcodec : codec.Lawful P)
    (d : Deposit P codec.encodeDmPayload size skR)
    (hkey : d.cmd.recipientX25519Pk = P.x25519PublicKeyBytes skR) {msg : DmMessageInfo}
    (hmsg : (dmSend P codec.encodeDmPayload d.env d.dht d.sender d.params).2 = .ok msg) :
    ∃ entry, NodeStore.mailAt d.cmd.recipientX25519Pk d.seq
        (dispatch P d.mailEnv d.remote d.conn d.request).1.services.store = some entry ∧
      ∀ (receiver : DmNode) (events : List (Env × DmReceived)),
        receiver.app.signingKey = skR →
        (∀ m ∈ receiver.conversation (d.sender.app.peerId P), m.id ≠ msg.id) →
        (∀ i ∈ events, i.2.entry.authorId = d.sender.app.peerId P →
          ∀ m, dmMessage P codec i.1 skR i.2 = some m → m.id = msg.id →
            codec.decodeDmEnvelope i.2.entry.ciphertext = some d.cmd.envelope) →
        (∃ i ∈ events, i.2 = ⟨entry, P.x25519PublicKeyBytes skR⟩) →
        ∃ m, withId (run (receiveStep P codec) receiver events) (d.sender.app.peerId P) msg.id =
          [m] ∧ d.Says m := by
  refine ⟨d.entry, d.mailAt_entry, fun receiver events hreceiver hnew hunique hdelivered => ?_⟩
  -- the message is there and right, or the entry was not yet handled
  have hend := invariant_of_history (receiveStep P codec) (s := receiver)
    (I := fun past n => (∀ i ∈ past, i ∈ events) → n.app.signingKey = skR ∧
      ((∃ m, withId n (d.sender.app.peerId P) msg.id = [m] ∧ d.Says m) ∨
        withId n (d.sender.app.peerId P) msg.id = [] ∧
          ∀ i ∈ past, i.2 ≠ ⟨d.entry, P.x25519PublicKeyBytes skR⟩))
    (fun _ => ⟨hreceiver, .inr ⟨?_, by simp⟩⟩) (fun past i ih hpast => ?_) events (fun _ h => h)
  · obtain ⟨-, hsays | ⟨-, hnone⟩⟩ := hend
    · exact hsays
    · obtain ⟨i, hi, heq⟩ := hdelivered
      exact absurd heq (hnone i hi)
  · unfold withId
    simpa using hnew
  · obtain ⟨hsk, hbefore⟩ := ih fun j hj => hpast j (List.mem_append_left _ hj)
    have hi : i ∈ events := hpast i (List.mem_append_right _ (List.mem_singleton_self i))
    generalize run (receiveStep P codec) receiver past = n at hsk hbefore ⊢
    refine ⟨(DmNode.signingKey_handleDmReceived i.1 n i.2).trans hsk, ?_⟩
    rcases withId_handleDmReceived (P := P) i.1 n i.2 (d.sender.app.peerId P) msg.id with
      hsame | ⟨-, m, hauthor, hread, hid, hm⟩
    · unfold receiveStep
      rw [hsame]
      refine hbefore.imp_right fun ⟨hempty, hnone⟩ => ⟨hempty, fun j hj hentry => ?_⟩
      rcases List.mem_append.mp hj with hj | hj
      · exact hnone j hj hentry
      · -- the entry itself would have left its message
        rw [List.mem_singleton.mp hj] at hentry
        rw [← hsame, hentry] at hempty
        exact d.withId_entry hP hcodec hkey hmsg i.1 hsk hempty
    · rw [hsk] at hread
      exact .inl ⟨m, hm, d.says_of_dmMessage hP hcodec hkey hmsg hread
        (hunique i hi hauthor m hread hid) hauthor⟩

end

namespace Sample

/-! ## A message and its delivery -/

/-- A payload as its texts, the answered message last. -/
def readDmPayload (b : Bytes) : Option DmPayload :=
  match (readTexts b).map String.ofList with
  | body :: id :: replyTo => some ⟨body, replyTo.head?, id⟩
  | _ => none

def readDmEnvelope (b : Bytes) : Option DmEnvelope := do
  let senderPk ← tryIntoArray 256 (b.take 32)
  let ephemPk ← tryIntoArray 256 ((b.drop 32).take 32)
  let nonce ← tryIntoArray 192 ((b.drop 64).take 24)
  some ⟨senderPk, ephemPk, nonce, b.drop 88⟩

/-- The encodings of the sample. -/
def dmCodec : DmCodec where
  encodeDmPayload p := textsBytes ([p.body, p.id] ++ p.replyTo.toList)
  decodeDmPayload := readDmPayload
  decodeDmEnvelope := readDmEnvelope
  fromUtf8 b := String.fromUTF8? ⟨b.toArray⟩
  fromTimestampMillis ms := some (ms * 1000000)

theorem dmCodec_lawful (events : List NetworkEvent) (contents : List MessageContent) :
    dmCodec.Lawful (prims events contents) where
  payload p := by
    have hid : String.ofList ∘ String.toList = id := funext fun _ => String.ofList_toList
    show readDmPayload (textsBytes ([p.body, p.id] ++ p.replyTo.toList)) = some p
    unfold readDmPayload
    rw [readTexts_textsBytes, List.map_map, hid, List.map_id]
    cases p with
    | mk body replyTo id => cases replyTo <;> rfl
  envelope e := by
    show readDmEnvelope (toBytes e.senderPk ++ toBytes e.ephemPk ++ toBytes e.nonce ++
      e.ciphertext) = some e
    have hsender : (toBytes e.senderPk).length = 32 := length_toBytes _
    have hephem : (toBytes e.ephemPk).length = 32 := length_toBytes _
    have hnonce : (toBytes e.nonce).length = 24 := length_toBytes _
    have hkeys : (toBytes e.senderPk ++ toBytes e.ephemPk).length = 64 := by
      rw [List.length_append, hsender, hephem]
    have hheader : (toBytes e.senderPk ++ toBytes e.ephemPk ++ toBytes e.nonce).length = 88 := by
      rw [List.length_append, hkeys, hnonce]
    unfold readDmEnvelope
    rw [List.drop_left' hheader, List.append_assoc _ (toBytes e.nonce), List.drop_left' hkeys,
      List.take_left' hnonce, List.append_assoc, List.take_left' hsender,
      List.drop_left' hsender, List.take_left' hephem, tryIntoArray_toBytes (by decide),
      tryIntoArray_toBytes (by decide), tryIntoArray_toBytes (by decide)]
    rfl

def letterCmd : SendDm :=
  dmCommand (prims [] []) dmCodec.encodeDmPayload env (some dhtAnswers) correspondent.app dmParams
    (ulidText (env.ulid 0)) ((prims [] []).x25519PublicKeyBytes 20) none

theorem letterCmd_sent : (dmSend (prims [] []) dmCodec.encodeDmPayload env (some dhtAnswers)
    correspondent dmParams).1.dmCommands = correspondent.dmCommands ++ [letterCmd] := by
  decide +kernel

/-- The user of the key 31 writes to the user of the key 21, and a node takes the message. -/
def sentLetter : Deposit (prims [] []) dmCodec.encodeDmPayload storedLen 20 where
  sender := correspondent
  env := env
  dht := some dhtAnswers
  params := dmParams
  addressed := dmParams_addressed
  cmd := letterCmd
  sent := letterCmd_sent
  net := ⟨[], ∅⟩
  target := .address addr
  request := .sendDm letterCmd.recipientX25519Pk letterCmd.envelope
  routed := rfl
  key := none
  before := []
  conn := mailConn (NodeStore.create none) 31
  stored := mailConn_stored
  session := mailConn_session
  mailEnv := env
  remote := addr
  seq := 0
  acked := rfl

/-- The user of the key 21, who knows the user of the key 31 as a member of a community. -/
def addressee : DmNode :=
  ⟨withMembers (withCommunity (app 20) 30) [record 30 [.admin]], ∅, ∅, [], []⟩

def letterDelivery : Env × DmReceived :=
  (env, ⟨sentLetter.entry, (prims [] []).x25519PublicKeyBytes 20⟩)

end Sample

open Sample in
/-- A letter that is delivered twice is there once. -/
theorem dm_survives_letter : ∃ m,
    withId (run (receiveStep (prims [] []) dmCodec) addressee [letterDelivery, letterDelivery])
      (correspondent.app.peerId (prims [] [])) (ulidText (env.ulid 0)) = [m] ∧
      sentLetter.Says m := by
  have hmsg : (dmSend (prims [] []) dmCodec.encodeDmPayload sentLetter.env sentLetter.dht
      sentLetter.sender sentLetter.params).2 = .ok ⟨ulidText (env.ulid 0), dmParams.peerId,
        correspondent.app.peerId (prims [] []), env.now, "hello", none, none⟩ := rfl
  obtain ⟨entry, hentry, hsurvives⟩ := dm_survives (prims_lawful [] []) (dmCodec_lawful [] [])
    sentLetter rfl hmsg
  cases hentry.symm.trans sentLetter.mailAt_entry
  refine hsurvives addressee [letterDelivery, letterDelivery] rfl ?_ ?_
    ⟨letterDelivery, List.mem_cons_self, rfl⟩
  · intro m hm
    cases hm
  · intro i hi _ m _ _
    have hdelivery : i = letterDelivery := by simpa using hi
    rw [hdelivery]
    exact (dmCodec_lawful [] []).envelope _

namespace Sample

def foreignEnvelope : DmEnvelope :=
  .«seal» (prims [] []) ((prims [] []).x25519Secret 40) ((prims [] []).x25519PublicKeyBytes 20)
    (env.key 0) (env.nonce 0) (dmCodec.encodeDmPayload ⟨"forged", none, ulidText 9⟩)

/-- The mailbox node hands it over as a message of the user of the key 31. -/
def forgedDelivery : DmReceived :=
  ⟨{ sentLetter.entry with ciphertext := (prims [] []).encodeDmEnvelope foreignEnvelope },
    (prims [] []).x25519PublicKeyBytes 20⟩

end Sample

open Sample in
/-- The recipient knows the key of the user and stores a message in their name that another user
sealed. -/
theorem dm_author_forged :
    addressee.knownX25519Pk ((prims [] []).userIdOf ((prims [] []).verifyingKey 30)).text =
        some ((prims [] []).x25519PublicKeyBytes 30) ∧
      StoresDm (prims [] []) dmCodec env addressee forgedDelivery
        ((prims [] []).userIdOf ((prims [] []).verifyingKey 30)).text ∧
      ¬ SealedUnder dmCodec forgedDelivery ((prims [] []).x25519PublicKeyBytes 30) := by
  have hdecoded : dmCodec.decodeDmEnvelope forgedDelivery.entry.ciphertext =
      some foreignEnvelope := (dmCodec_lawful [] []).envelope _
  refine ⟨by decide +kernel, storesDm_iff.mpr ⟨rfl, foreignEnvelope, rfl, hdecoded, ?_⟩, ?_⟩
  · refine ⟨_, ⟨"forged", none, some (ulidText 9)⟩,
      DmEnvelope.open_seal (prims_lawful [] []) _ _ _ _ _, ?_, ?_⟩
    · unfold readDm
      rw [(dmCodec_lawful [] []).payload]
      exact congrArg (fun id => some (DmText.mk "forged" none id)) (if_neg (by decide))
    · intro m hm
      cases hm
  · rintro ⟨envelope, hdecode, hsender⟩
    rw [← Option.some.inj (hdecoded.symm.trans hdecode)] at hsender
    have hother : foreignEnvelope.senderPk ≠ (prims [] []).x25519PublicKeyBytes 30 := by
      decide +kernel
    exact hother hsender

end BitCord
