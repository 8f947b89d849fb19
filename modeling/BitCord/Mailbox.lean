import BitCord.ChannelLog
import BitCord.Network
import BitCord.Sample

/-!
# Delivery of direct messages through a mailbox

A node keeps envelopes in mailboxes, one per key. `dm_send` names the mailbox by the X25519 key of
the recipient, and `FetchMailbox` reads the mailbox of the key with which the recipient
authenticated, its Ed25519 key (`mailbox_delivers_iff`).
-/

namespace BitCord

open Lib Lib.Run

variable {pk : Key} {st : NodeStore}

variable (size : Stored LogEntry → Nat)

namespace NodeStore

/-! ## Keys -/

theorem mailKey_inj {pk' : Key} {seq seq' : UInt64} (h : mailKey pk seq = mailKey pk' seq') :
    pk = pk' ∧ seq = seq' := by
  have hnat := congrArg BitVec.toNat h
  rw [mailKey_toNat, mailKey_toNat] at hnat
  have hs := seq.toNat_lt
  have hs' := seq'.toNat_lt
  have hpk : pk.toNat = pk'.toNat := by omega
  have hseq : seq.toNat = seq'.toNat := by omega
  exact ⟨BitVec.eq_of_toNat_eq hpk, UInt64.toNat.inj hseq⟩

/-- The keys in the range of a mailbox are the keys of its numbers. -/
theorem mem_mailRange {e : MailKey × Stored LogEntry} :
    e ∈ st.mailRange pk 0 ↔ ∃ seq, e.1 = mailKey pk seq ∧ st.mail.get e.1 = some e.2 := by
  unfold mailRange
  rw [OrdMap.mem_range, OrdMap.get_eq_some_iff]
  constructor
  · rintro ⟨hmem, hlo, hhi⟩
    refine ⟨.ofBitVec (e.1.truncate 64), ?_, hmem⟩
    apply BitVec.eq_of_toNat_eq
    have hmax : maxSeq.toNat = 2 ^ 64 - 1 := rfl
    have hzero : (0 : UInt64).toNat = 0 := rfl
    have hseq : (UInt64.ofBitVec (e.1.truncate 64)).toNat = e.1.toNat % 2 ^ 64 := by simp
    rw [BitVec.le_def, mailKey_toNat] at hlo hhi
    rw [mailKey_toNat, hseq]
    omega
  · rintro ⟨seq, hkey, hmem⟩
    have hmax : maxSeq.toNat = 2 ^ 64 - 1 := rfl
    have hzero : (0 : UInt64).toNat = 0 := rfl
    have hs := seq.toNat_lt
    refine ⟨hmem, ?_, ?_⟩
    · rw [hkey, BitVec.le_def, mailKey_toNat, mailKey_toNat]
      omega
    · rw [hkey, BitVec.le_def, mailKey_toNat, mailKey_toNat]
      omega

/-! ## Contents -/

/-- The entry under a number of a mailbox. -/
def mailAt (pk : Key) (seq : UInt64) (st : NodeStore) : Option LogEntry :=
  (st.mail.get (mailKey pk seq)).bind fun v => v.value

/-- The entry that an operation puts under the number of the mailbox. -/
def mailWrite (pk : Key) (seq : UInt64) (st : NodeStore) : StoreOp → Option LogEntry
  | .appendDm rpk author envelope mid ts =>
    if rpk = pk ∧ st.nextMailSeq pk = seq then
      some ⟨seq, 0, envelope, ulidText mid, author.text, ts, false⟩
    else none
  | _ => none

theorem mail_enforceRetention (st : NodeStore) (cpk : Key) (ch : Ulid) (maxBytes : UInt64) :
    (st.enforceRetention size cpk ch maxBytes).mail = st.mail := by
  unfold enforceRetention
  dsimp only
  split <;> rfl

theorem mailAt_apply (pk : Key) (seq : UInt64) (st : NodeStore) (op : StoreOp) :
    mailAt pk seq (st.apply size op) = (mailWrite pk seq st op).or (mailAt pk seq st) := by
  cases op with
  | appendDm rpk author envelope mid ts =>
    unfold mailAt apply appendDm mailWrite
    dsimp only
    rw [OrdMap.get_insert]
    by_cases hpk : rpk = pk ∧ st.nextMailSeq pk = seq
    · obtain ⟨rfl, rfl⟩ := hpk
      rw [if_pos rfl, if_pos ⟨rfl, rfl⟩, Option.some_or]
      rfl
    · have hkey : ¬ mailKey pk seq = mailKey rpk (st.nextMailSeq rpk) := by
        intro heq
        obtain ⟨rfl, rfl⟩ := mailKey_inj heq
        exact hpk ⟨rfl, rfl⟩
      rw [if_neg hkey, if_neg hpk, Option.none_or]
  | retain cpk ch maxBytes =>
    unfold mailAt apply
    rw [mail_enforceRetention]
    rfl
  | append | remove | setMeta => rfl

/-- Every value of the mailboxes opens under the key of the store. -/
def MailReadable (st : NodeStore) : Prop :=
  ∀ k v, st.mail.get k = some v → v.sealedUnder = st.key ∧ v.value.isSome

theorem MailReadable.apply {size : Stored LogEntry → Nat} (h : MailReadable st)
    (op : StoreOp) : MailReadable (st.apply size op) := by
  intro k v hv
  rw [key_apply]
  cases op with
  | appendDm rpk author envelope mid ts =>
    unfold NodeStore.apply appendDm at hv
    dsimp only at hv
    rw [OrdMap.get_insert] at hv
    split at hv
    · cases hv
      exact ⟨rfl, rfl⟩
    · exact h k v hv
  | retain cpk ch maxBytes =>
    unfold NodeStore.apply at hv
    rw [mail_enforceRetention] at hv
    exact h k v hv
  | append | remove | setMeta => exact h k v hv

/-- `get_dms` returns the values of the mailbox, in the order of their numbers. -/
theorem MailReadable.getDms_eq (h : MailReadable st) (pk : Key) :
    st.getDms pk 0 = .ok ((st.mailRange pk 0).filterMap fun e => e.2.value) := by
  have hread : ∀ e ∈ st.mailRange pk 0, ∃ entry, e.2.value = some entry ∧
      st.read "decode LogEntry" e.2 = .ok entry := by
    intro e he
    obtain ⟨seq, hkey, hget⟩ := mem_mailRange.mp he
    obtain ⟨hsealed, hsome⟩ := h _ _ hget
    obtain ⟨entry, hentry⟩ := Option.isSome_iff_exists.mp hsome
    refine ⟨entry, hentry, ?_⟩
    unfold read
    rw [if_pos hsealed, hentry]
  unfold getDms
  revert hread
  generalize st.mailRange pk 0 = l
  intro hread
  induction l with
  | nil => rfl
  | cons e l ih =>
    obtain ⟨entry, hvalue, hok⟩ := hread e List.mem_cons_self
    rw [List.mapM_cons, hok, ih fun e' he' => hread e' (List.mem_cons_of_mem e he'),
      List.filterMap_cons, hvalue]
    rfl

theorem MailReadable.mem_getDms (h : MailReadable st) {l : List LogEntry}
    (hl : st.getDms pk 0 = .ok l) {e : LogEntry} : e ∈ l ↔ ∃ seq, mailAt pk seq st = some e := by
  obtain rfl : _ = l := Except.ok.inj ((h.getDms_eq pk).symm.trans hl)
  rw [List.mem_filterMap]
  constructor
  · rintro ⟨x, hx, hvalue⟩
    obtain ⟨seq, hkey, hget⟩ := mem_mailRange.mp hx
    refine ⟨seq, ?_⟩
    rw [mailAt, ← hkey, hget]
    exact hvalue
  · rintro ⟨seq, hat⟩
    obtain ⟨v, hv, hvalue⟩ := Option.bind_eq_some_iff.mp hat
    exact ⟨(mailKey pk seq, v), mem_mailRange.mpr ⟨seq, rfl, hv⟩, hvalue⟩

end NodeStore

open NodeStore

/-! ## Runs of the mailbox node -/

section

variable (size : Stored LogEntry → Nat)

/-- An operation of the run put the envelope into the mailbox of the key, under a number that no
later operation used again. -/
def KeptFor (pk : Key) (envelope : Bytes) (st : NodeStore) (ops : List StoreOp) : Prop :=
  ∃ pre author mid ts post, ops = pre ++ .appendDm pk author envelope mid ts :: post ∧
    let op := StoreOp.appendDm pk author envelope mid ts
    let seq := (run (NodeStore.apply size) st pre).nextMailSeq pk
    Along (NodeStore.apply size) (fun st op => mailWrite pk seq st op = none)
      (run (NodeStore.apply size) st (pre ++ [op])) post

variable {size}

variable {key : Option Key}

theorem mailReadable_run (ops : List StoreOp) :
    MailReadable (run (NodeStore.apply size) (NodeStore.create key) ops) := by
  have hstart : MailReadable (NodeStore.create key) := by
    intro k v hv
    cases hv
  have halong : Along (NodeStore.apply size) (fun _ _ => True) (NodeStore.create key) ops :=
    along_of_forall fun _ _ _ => trivial
  exact halong.invariant (fun st op h _ => h.apply op) hstart

/-- The mailbox of a key holds the envelopes that were put into it. -/
theorem mailAt_run_iff {ops : List StoreOp} {envelope : Bytes} :
    (∃ seq e, mailAt pk seq (run (NodeStore.apply size) (NodeStore.create key) ops) = some e ∧
      e.ciphertext = envelope) ↔ KeptFor size pk envelope (NodeStore.create key) ops := by
  constructor
  · rintro ⟨seq, e, hat, rfl⟩
    rcases (get_run_eq_some_iff (mailAt_apply size pk seq)).mp hat with
      ⟨hstart, -⟩ | ⟨pre, op, post, rfl, hwrite, hkept⟩
    · cases hstart
    · cases op with
      | appendDm rpk author envelope mid ts =>
        obtain ⟨⟨rfl, rfl⟩, hentry⟩ := Option.ite_none_right_eq_some.mp hwrite
        cases hentry
        exact ⟨pre, author, mid, ts, post, rfl, hkept⟩
      | append | retain | remove | setMeta => cases hwrite
  · rintro ⟨pre, author, mid, ts, post, rfl, hkept⟩
    refine ⟨_, _, (get_run_eq_some_iff (mailAt_apply size pk _)).mpr (.inr
      ⟨pre, _, post, rfl, if_pos ⟨rfl, rfl⟩, hkept⟩), rfl⟩

end

/-! ## A message from sender to recipient -/

/-- A direct message that a mailbox node has acknowledged: the call of the sender, the request that
the network layer makes of it, and the node, whose store the operations `before` made. -/
structure Deposit (P : Prims) (encodeDmPayload : DmPayload → Bytes) (size : Stored LogEntry → Nat)
    (recipientSk : Key) where
  sender : DmNode
  env : Env
  dht : Option DhtAnswers
  params : SendDmParams
  addressed : params.peerId = (P.userIdOf (P.verifyingKey recipientSk)).text
  cmd : SendDm
  sent : (dmSend P encodeDmPayload env dht sender params).1.dmCommands = sender.dmCommands ++ [cmd]
  net : Network
  target : Target
  request : ClientRequest
  routed : net.sendDm cmd = some (target, request)
  key : Option Key
  before : List StoreOp
  conn : Conn
  stored : conn.services.store = run (NodeStore.apply size) (NodeStore.create key) before
  session : conn.session.clientPk = some (P.verifyingKey sender.app.signingKey)
  mailEnv : Env
  remote : NodeAddr
  seq : UInt64
  acked : (dispatch P mailEnv remote conn request).2 = .dmAck seq

section

variable {P : Prims} {encodeDmPayload : DmPayload → Bytes} {size : Stored LogEntry → Nat}
  {recipientSk : Key}

/-- The operation by which the node stored the message. -/
def Deposit.op (d : Deposit P encodeDmPayload size recipientSk) : StoreOp :=
  .appendDm d.cmd.recipientX25519Pk (P.userIdOf (P.verifyingKey d.sender.app.signingKey))
    (P.encodeDmEnvelope d.cmd.envelope) (d.mailEnv.ulid 0) (timestampMillis d.mailEnv.now)

/-- A later `FetchMailbox` of the recipient at the same node, after the operations `after`. -/
structure Fetch (d : Deposit P encodeDmPayload size recipientSk) where
  after : List StoreOp
  conn : Conn
  stored : conn.services.store = run (NodeStore.apply size)
    (dispatch P d.mailEnv d.remote d.conn d.request).1.services.store after
  session : conn.session.clientPk = some (P.verifyingKey recipientSk)
  net : Network
  peerId : String
  request : ClientRequest
  routed : net.fetchMailbox peerId = some request
  env : Env
  remote : NodeAddr

namespace Fetch

variable {d : Deposit P encodeDmPayload size recipientSk}

def events (f : Fetch d) : List DmReceived :=
  mailboxEvents P recipientSk (dispatch P f.env f.remote f.conn f.request).2

def Delivers (f : Fetch d) : Prop :=
  ∃ ev ∈ f.events, ev.entry.ciphertext = P.encodeDmEnvelope d.cmd.envelope

end Fetch

theorem Deposit.request_eq (d : Deposit P encodeDmPayload size recipientSk) :
    d.request = .sendDm d.cmd.recipientX25519Pk d.cmd.envelope := by
  have hrouted := d.routed
  unfold Network.sendDm at hrouted
  dsimp only at hrouted
  split at hrouted
  · exact (Prod.mk.inj (Option.some.inj hrouted)).2.symm
  · obtain ⟨addr, -, heq⟩ := Option.map_eq_some_iff.mp hrouted
    exact (Prod.mk.inj heq).2.symm

/-- `SendDm` puts the envelope into the mailbox of the key that the request names. -/
theorem store_dispatch_sendDm {env : Env} {remote : NodeAddr} {c : Conn} {senderPk : Key}
    (h : c.session.clientPk = some senderPk) (rpk : Key) (envelope : DmEnvelope) :
    (dispatch P env remote c (.sendDm rpk envelope)).1.services.store =
      c.services.store.apply size (.appendDm rpk (P.userIdOf senderPk)
        (P.encodeDmEnvelope envelope) (env.ulid 0) (timestampMillis env.now)) := by
  unfold dispatch
  dsimp only
  rw [h]
  unfold handleSendDm Conn.push Conn.mapDht Conn.withStore
  dsimp only
  split <;> rfl

theorem Fetch.store_eq {d : Deposit P encodeDmPayload size recipientSk} (f : Fetch d) :
    f.conn.services.store = run (NodeStore.apply size) (NodeStore.create d.key)
      (d.before ++ d.op :: f.after) := by
  have hput : (dispatch P d.mailEnv d.remote d.conn d.request).1.services.store =
      d.conn.services.store.apply size d.op := by
    rw [d.request_eq]
    exact store_dispatch_sendDm d.session _ _
  rw [f.stored, hput, d.stored]
  simp [run, List.foldl_append]

theorem Fetch.request_eq {d : Deposit P encodeDmPayload size recipientSk} (f : Fetch d) :
    f.request = .getDms 0 := by
  have hrouted := f.routed
  unfold Network.fetchMailbox at hrouted
  split at hrouted
  · exact (Option.some.inj hrouted).symm
  · cases hrouted

/-- A fetch returns the envelope if and only if the node stored it for the Ed25519 key of the
recipient; the operation of the deposit is for the key that `dm_send` found. -/
theorem mailbox_delivers_iff {d : Deposit P encodeDmPayload size recipientSk} (f : Fetch d) :
    f.Delivers ↔ KeptFor size (P.verifyingKey recipientSk) (P.encodeDmEnvelope d.cmd.envelope)
      (NodeStore.create d.key) (d.before ++ d.op :: f.after) := by
  have hreadable : MailReadable f.conn.services.store := by
    rw [f.store_eq]
    exact mailReadable_run _
  have hdms := hreadable.getDms_eq (P.verifyingKey recipientSk)
  have hevents : f.events = ((f.conn.services.store.mailRange (P.verifyingKey recipientSk)
      0).filterMap fun e => e.2.value).map fun e => ⟨e, P.x25519PublicKeyBytes recipientSk⟩ := by
    unfold Fetch.events dispatch
    rw [f.request_eq]
    dsimp only
    rw [f.session]
    dsimp only
    rw [hdms]
    rfl
  rw [← mailAt_run_iff, ← f.store_eq]
  unfold Fetch.Delivers
  rw [hevents]
  constructor
  · rintro ⟨ev, hev, hcarries⟩
    obtain ⟨e, he, rfl⟩ := List.mem_map.mp hev
    obtain ⟨seq, hat⟩ := (hreadable.mem_getDms hdms).mp he
    exact ⟨seq, e, hat, hcarries⟩
  · rintro ⟨seq, e, hat, hcarries⟩
    exact ⟨_, List.mem_map.mpr ⟨e, (hreadable.mem_getDms hdms).mpr ⟨seq, hat⟩, rfl⟩, hcarries⟩

end

/-! ## A message that is not found -/

namespace Sample

/-- The user of the key 31 writes to the user of the key 21, a member of the same community. -/
def correspondent : DmNode :=
  ⟨withMembers (withCommunity (app 30) 30) [record 20 [.member]], ∅, ∅, [], []⟩

def dmParams : SendDmParams := ⟨((prims [] []).userIdOf 21).text, "hello", none⟩

/-- The DHT knows a mailbox node for every key. -/
def dhtAnswers : DhtAnswers := ⟨fun _ => none, fun _ => [addr]⟩

def encodeDmPayload (p : DmPayload) : Bytes := utf8 p.body

/-- The command that `dm_send` issues, for the X25519 key in the record. -/
def dmCmd : SendDm :=
  dmCommand (prims [] []) encodeDmPayload env (some dhtAnswers) correspondent.app dmParams
    (ulidText (env.ulid 0)) ((prims [] []).x25519PublicKeyBytes 20) none

/-- The mailbox node, on a connection that is authenticated with a key. -/
def mailConn (store : NodeStore) (pk : Key) : Conn :=
  ⟨⟨some pk, []⟩, { services 99 with store }⟩

theorem dmParams_addressed :
    dmParams.peerId = ((prims [] []).userIdOf ((prims [] []).verifyingKey 20)).text := rfl

theorem mailConn_stored : (mailConn (NodeStore.create none) 31).services.store =
    run (NodeStore.apply storedLen) (NodeStore.create none) [] := rfl

theorem mailConn_session : (mailConn (NodeStore.create none) 31).session.clientPk =
    some ((prims [] []).verifyingKey correspondent.app.signingKey) := rfl

def deposit : Deposit (prims [] []) encodeDmPayload storedLen 20 where
  sender := correspondent
  env := env
  dht := some dhtAnswers
  params := dmParams
  addressed := dmParams_addressed
  cmd := dmCmd
  sent := by decide +kernel
  net := ⟨[], ∅⟩
  target := .address addr
  request := .sendDm dmCmd.recipientX25519Pk dmCmd.envelope
  routed := rfl
  key := none
  before := []
  conn := mailConn (NodeStore.create none) 31
  stored := mailConn_stored
  session := mailConn_session
  mailEnv := env
  remote := addr
  seq := 0
  acked := rfl

/-- The recipient fetches its mailbox right after the acknowledgement. -/
def fetchDeposit : Fetch deposit where
  after := []
  conn := mailConn (dispatch (prims [] []) env addr (mailConn (NodeStore.create none) 31)
    deposit.request).1.services.store 21
  stored := rfl
  session := rfl
  net := ⟨["99"], ∅⟩
  peerId := "99"
  request := .getDms 0
  routed := rfl
  env := env
  remote := addr

end Sample

open Sample in
/-- The node acknowledges the message, and the recipient finds an empty mailbox. -/
theorem dm_not_delivered : ¬ fetchDeposit.Delivers := by
  have hevents : fetchDeposit.events = [] := by decide +kernel
  unfold Fetch.Delivers
  rw [hevents]
  simp

end BitCord
