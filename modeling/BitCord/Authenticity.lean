import BitCord.Roles

/-!
# Authenticity of the logs

Messages reach the log of a channel by gossip and by history batches, and the log in the node
store also by two QUIC requests. Only the gossip handler of the event processor verifies the
signature of the author; `logs_authentic` says what the other three paths would have to bring.
-/

namespace BitCord

open Lib Lib.Run AppState

variable {Signed : Key → Bytes → Prop} {k cpk : Key} {ch : Ulid} {e : LogEntry} {s s' : AppState}
  {ev : NetworkEvent} {c : String} {raw : RawMessage} {seq : UInt64} {r : MembershipRecord}
  {st : NodeStore} {remote : NodeAddr} {req : ClientRequest} {n : Node}

def RawMessage.signable (raw : RawMessage) : Bytes :=
  RawMessage.signableBytes raw.id raw.channelId raw.timestamp raw.ciphertext

theorem RawMessage.verify_eq (P : Prims) (raw : RawMessage) (k : Key) :
    raw.verify P k = P.verifyBytes k raw.signable raw.signature := rfl

/-- No signature of a message in the data is forged: whoever's key it verifies under signed the
message. -/
def Unforged (P : Prims) (Signed : Key → Bytes → Prop) (data : Bytes) : Prop :=
  ∀ raw k, P.decodeEvent data = some (.newMessage raw) → raw.verify P k = true →
    Signed k raw.signable

/-- The entry has these contents. -/
def LogEntry.Has (e : LogEntry) (messageId authorId : String) (timestampMs : Int)
    (ciphertext : Bytes) : Prop :=
  e.messageId = messageId ∧ e.authorId = authorId ∧ e.timestampMs = timestampMs ∧
    e.ciphertext = ciphertext

def AuthenticEntry (Signed : Key → Bytes → Prop) (k : Key) (ch : String) (e : LogEntry) : Prop :=
  ∃ raw : RawMessage, Signed k raw.signable ∧
    raw.id.text = e.messageId ∧ raw.channelId.text = ch ∧
    timestampMillis raw.timestamp = e.timestampMs ∧ raw.ciphertext = e.ciphertext

theorem AuthenticEntry.congr {ch : String} {e' : LogEntry} (h : AuthenticEntry Signed k ch e')
    (hsame : e.Has e'.messageId e'.authorId e'.timestampMs e'.ciphertext) :
    AuthenticEntry Signed k ch e := by
  obtain ⟨raw, hsig, hid, hch, hts, hct⟩ := h
  obtain ⟨hid', -, hts', hct'⟩ := hsame
  exact ⟨raw, hsig, hid.trans hid'.symm, hch, hts.trans hts'.symm, hct.trans hct'.symm⟩

namespace AppState

def memberOfChannel (t : Tables) (ch u : String) : Option MembershipRecord :=
  (t.channels.lookup ch).bind fun c => member? t c.communityId.text u

def storeEntry (s : AppState) (cpk : Key) (ch : Ulid) (seq : UInt64) : Option LogEntry :=
  s.nodeStore.bind fun st => st.entryAt cpk ch seq

/-- The entry is new in the log of the channel, or in the one that the store has of it. -/
inductive Added (s s' : AppState) : String → LogEntry → Prop
  | log {ch : String} {e : LogEntry} :
      e ∈ (s'.messageLog.entries ch).drop (s.messageLog.entries ch).length → Added s s' ch e
  | store {cpk : Key} {ch : Ulid} {seq : UInt64} {e : LogEntry} :
      s'.storeEntry cpk ch seq = some e → s.storeEntry cpk ch seq ≠ some e →
      Added s s' (ulidText ch) e

def AddsAuthentic (Signed : Key → Bytes → Prop) (s s' : AppState) : Prop :=
  ∀ ch e, Added s s' ch e → ∀ r, memberOfChannel s.toTables ch e.authorId = some r →
    AuthenticEntry Signed r.publicKey ch e

/-! ## Steps that add nothing -/

structure NothingAdded (s s' : AppState) : Prop where
  log : ∀ ch, (s'.messageLog.entries ch).length ≤ (s.messageLog.entries ch).length
  store : ∀ cpk ch seq e, s'.storeEntry cpk ch seq = some e → s.storeEntry cpk ch seq = some e

theorem NothingAdded.addsAuthentic (h : NothingAdded s s') : AddsAuthentic Signed s s' := by
  intro ch e hadd r _
  cases hadd with
  | log hmem =>
    rw [List.drop_eq_nil_of_le (h.log ch)] at hmem
    cases hmem
  | store hnew hold => exact absurd (h.store _ _ _ e hnew) hold

theorem NothingAdded.refl (s : AppState) : NothingAdded s s :=
  ⟨fun _ => Nat.le_refl _, fun _ _ _ _ h => h⟩

/-- The log entries are those of before, and so are those in the store. -/
theorem NothingAdded.of_log
    (hlog : ∀ ch, (s'.messageLog.entries ch).length = (s.messageLog.entries ch).length)
    (hstore : SameLogs s.nodeStore s'.nodeStore) : NothingAdded s s' :=
  ⟨fun ch => (hlog ch).le, fun cpk ch seq _ h => (hstore.entryAt cpk ch seq).symm.trans h⟩

theorem AddsAuthentic.of_log
    (hlog : ∀ ch, (s'.messageLog.entries ch).length = (s.messageLog.entries ch).length)
    (hstore : SameLogs s.nodeStore s'.nodeStore) : AddsAuthentic Signed s s' :=
  (NothingAdded.of_log hlog hstore).addsAuthentic

variable {batch : List LogEntry} {env : Env}

section

variable {P : Prims}

/-- Gossip on a community topic adds no entry to a log. -/
theorem CommunityWrite.addsNothing (hw : CommunityWrite P env s ev s') : NothingAdded s s' := by
  refine ⟨fun ch => ?_, fun cpk ch seq e h => hw.of_entryAt h⟩
  cases hw <;> exact Nat.le_refl _

/-! ## Gossip on channel topics -/

theorem length_entries_updateEntry (log : MessageLog) (ch mid : String)
    (f : LogEntry → LogEntry) (ch' : String) :
    ((log.updateEntry ch mid f).entries ch').length = (log.entries ch').length := by
  rw [MessageLog.entries_updateEntry]
  split
  · next h => rw [length_updateFirst, h]
  · rfl

/-- The entry that a new message becomes in the log. -/
theorem entries_logMessage (log : MessageLog) (raw : RawMessage)
    (content : Option MessageContent) (ch : String) :
    ∃ added, (logMessage log raw content).entries ch = log.entries ch ++ added ∧
      ∀ e ∈ added, ch = raw.channelId.text ∧
        e.Has raw.id.text raw.authorId.text (timestampMillis raw.timestamp) raw.ciphertext := by
  unfold logMessage
  rw [MessageLog.entries_append, entries_applyReaction, entries_applyReaction]
  by_cases hch : ch = raw.channelId.text
  · rw [if_pos hch, hch]
    refine ⟨_, rfl, fun e he => ?_⟩
    rw [List.mem_singleton.mp he]
    exact ⟨rfl, rfl, rfl, rfl, rfl⟩
  · rw [if_neg hch]
    exact ⟨[], (List.append_nil _).symm, fun e he => by cases he⟩

theorem of_storeEntry_storeMessage (hs : s'.nodeStore = storeMessage s c raw)
    (h : s'.storeEntry cpk ch seq = some e) :
    s.storeEntry cpk ch seq = some e ∨
      (ch = raw.channelId.ulid ∧
        e.Has raw.id.text raw.authorId.text (timestampMillis raw.timestamp) raw.ciphertext) := by
  unfold storeEntry at h ⊢
  rw [hs] at h
  unfold storeMessage at h
  split at h
  · cases hst : s.nodeStore with
    | none =>
      rw [hst] at h
      cases h
    | some st =>
      rw [hst] at h
      rcases NodeStore.of_entryAt_appendMessage h with hold | ⟨-, hch, rfl⟩
      · exact .inl hold
      · exact .inr ⟨hch, rfl, rfl, rfl, rfl⟩
  · exact .inl h

/-- A verified signature over the message makes its entry authentic. -/
theorem authenticEntry_of_has (hsig : Signed k raw.signable)
    (he : e.Has raw.id.text raw.authorId.text (timestampMillis raw.timestamp) raw.ciphertext) :
    AuthenticEntry Signed k raw.channelId.text e :=
  ⟨raw, hsig, he.1.symm, rfl, he.2.2.1.symm, he.2.2.2.symm⟩

theorem verify_of_authorVerified {t : Tables} (h : authorVerified P t c raw = true)
    (hr : member? t c raw.authorId.text = some r) : raw.verify P r.publicKey = true := by
  unfold authorVerified at h
  rw [hr] at h
  exact (Bool.and_eq_true _ _ ▸ h).2

/-- The gossip handler of the event processor adds only what the author signed. -/
theorem ChannelWrite.addsAuthentic (hw : ChannelWrite P false s ev s')
    (hunf : ∀ raw k, ev = .newMessage raw → raw.verify P k = true → Signed k raw.signable) :
    AddsAuthentic Signed s s' := by
  cases hw with
  | @logged raw ch key plaintext pushes hch _ _ hver =>
    intro x e hadd r hr
    -- whatever is added has the contents of the message
    have hhas : x = raw.channelId.text ∧ e.Has raw.id.text raw.authorId.text
        (timestampMillis raw.timestamp) raw.ciphertext := by
      cases hadd with
      | log hmem =>
        obtain ⟨added, heq, hall⟩ :=
          entries_logMessage s.messageLog raw (P.decodeContent plaintext) x
        dsimp only at hmem
        rw [heq, List.drop_left] at hmem
        exact hall e hmem
      | store hnew hold =>
        rcases of_storeEntry_storeMessage rfl hnew with h | ⟨rfl, h⟩
        · exact absurd h hold
        · exact ⟨rfl, h⟩
    obtain ⟨rfl, hhas⟩ := hhas
    have hmem : member? s.toTables ch.communityId.text raw.authorId.text = some r := by
      rw [memberOfChannel, hch, Option.bind_some, hhas.2.1] at hr
      exact hr
    exact authenticEntry_of_has (hunf raw _ rfl (verify_of_authorVerified hver hmem)) hhas
  | edited => exact .of_log (length_entries_updateEntry _ _ _ _) rfl
  | deleted => exact .of_log (length_entries_updateEntry _ _ _ _) rfl
  | rotated => exact .of_log (fun _ => rfl) (sameLogs_updateMeta s _ _)
  | rotationStalled h => cases h
  | _ => exact .of_log (fun _ => rfl) rfl

/-! ## History batches -/

theorem entries_foldl_integrateEntry (key pk : Option Key) (ch : String) (ulid : Ulid)
    (batch : List LogEntry) (acc : MessageLog × Option NodeStore) (x : String) :
    ∃ added, (batch.foldl (integrateEntry P key pk ch ulid) acc).1.entries x =
        acc.1.entries x ++ added ∧ ∀ e ∈ added, x = ch ∧ e ∈ batch := by
  induction batch generalizing acc with
  | nil => exact ⟨[], (List.append_nil _).symm, fun e he => by cases he⟩
  | cons e₀ batch ih =>
    obtain ⟨added, heq, hall⟩ := ih (integrateEntry P key pk ch ulid acc e₀)
    have hstep : ∃ first, (integrateEntry P key pk ch ulid acc e₀).1.entries x =
        acc.1.entries x ++ first ∧ ∀ e ∈ first, x = ch ∧ e = e₀ := by
      unfold integrateEntry
      split
      · exact ⟨[], (List.append_nil _).symm, fun e he => by cases he⟩
      · dsimp only
        rw [MessageLog.entries_appendEntry, entries_applyReaction, entries_applyReaction]
        by_cases hx : x = ch
        · rw [if_pos hx, hx]
          exact ⟨[e₀], rfl, fun e he => ⟨rfl, List.mem_singleton.mp he⟩⟩
        · rw [if_neg hx]
          exact ⟨[], (List.append_nil _).symm, fun e he => by cases he⟩
    obtain ⟨first, hfirst, hone⟩ := hstep
    refine ⟨first ++ added, ?_, fun e he => ?_⟩
    · rw [List.foldl_cons, heq, hfirst, List.append_assoc]
    · rcases List.mem_append.mp he with he | he
      · obtain ⟨hx, rfl⟩ := hone e he
        exact ⟨hx, List.mem_cons_self⟩
      · obtain ⟨hx, hmem⟩ := hall e he
        exact ⟨hx, List.mem_cons_of_mem e₀ hmem⟩

/-- A history batch appends messages of the batch to the store. -/
theorem of_entryAt_foldl_integrateEntry {key pk : Option Key} {ch : String} {ulid : Ulid}
    {acc : MessageLog × Option NodeStore} {x : Ulid}
    (h : ((batch.foldl (integrateEntry P key pk ch ulid) acc).2.bind
      fun st => st.entryAt cpk x seq) = some e) :
    (acc.2.bind fun st => st.entryAt cpk x seq) = some e ∨
      (x = ulid ∧ ∃ e₀ ∈ batch,
        e.Has e₀.messageId e₀.authorId e₀.timestampMs e₀.ciphertext) := by
  induction batch generalizing acc with
  | nil => exact .inl h
  | cons e₀ batch ih =>
    rcases ih h with hold | ⟨hx, e₁, hmem, hhas⟩
    · unfold integrateEntry at hold
      split at hold
      · exact .inl hold
      · dsimp only at hold
        split at hold
        · cases hst : acc.2 with
          | none =>
            rw [hst] at hold
            cases hold
          | some st =>
            rw [hst] at hold
            rcases NodeStore.of_entryAt_appendMessage hold with hold | ⟨-, hx, rfl⟩
            · exact .inl hold
            · exact .inr ⟨hx, e₀, List.mem_cons_self, rfl, rfl, rfl, rfl⟩
        · exact .inl hold
    · exact .inr ⟨hx, e₁, List.mem_cons_of_mem e₀ hmem, hhas⟩

/-- The texts under which a history batch of a channel is stored. -/
def HistoryChannel (ch x : String) : Prop :=
  x = ch ∨ ∃ ulid, parseUlid ch = some ulid ∧ x = ulidText ulid

theorem added_handleChannelHistoryReceived {ch x : String}
    (h : Added s (s.handleChannelHistoryReceived P c ch batch) x e) :
    HistoryChannel ch x ∧ ∃ e₀ ∈ batch,
      e.Has e₀.messageId e₀.authorId e₀.timestampMs e₀.ciphertext := by
  cases hp : parseUlid ch with
  | none =>
    have hnone : s.integrateHistory P c ch batch = (s.messageLog, s.nodeStore) := by
      unfold integrateHistory
      rw [hp]
    have hnothing : NothingAdded s (s.handleChannelHistoryReceived P c ch batch) := by
      unfold handleChannelHistoryReceived
      rw [hnone]
      exact .of_log (fun _ => rfl) rfl
    cases h with
    | log hmem =>
      rw [List.drop_eq_nil_of_le (hnothing.log x)] at hmem
      cases hmem
    | store hnew hold => exact absurd (hnothing.store _ _ _ e hnew) hold
  | some ulid =>
    have hsome : s.integrateHistory P c ch batch = batch.foldl (integrateEntry P
        (s.channelKeys.lookup ch) (communityPk? s.toTables c) ch ulid)
        (s.messageLog, s.nodeStore) := by
      unfold integrateHistory
      rw [hp]
    cases h with
    | log hmem =>
      obtain ⟨added, heq, hall⟩ := entries_foldl_integrateEntry (P := P)
        (s.channelKeys.lookup ch) (communityPk? s.toTables c) ch ulid batch
        (s.messageLog, s.nodeStore) x
      have hlog : (s.handleChannelHistoryReceived P c ch batch).messageLog.entries x =
          s.messageLog.entries x ++ added := by
        rw [← heq, ← hsome]
        rfl
      rw [hlog, List.drop_left] at hmem
      obtain ⟨hx, hmem⟩ := hall e hmem
      exact ⟨.inl hx, e, hmem, rfl, rfl, rfl, rfl⟩
    | store hnew hold =>
      unfold storeEntry handleChannelHistoryReceived at hnew
      dsimp only at hnew
      rw [hsome] at hnew
      rcases of_entryAt_foldl_integrateEntry hnew with h | ⟨hx, hmem⟩
      · exact absurd h hold
      · exact ⟨.inr ⟨ulid, hp, by rw [hx]⟩, hmem⟩

/-! ## Requests -/

/-- The request brings a message with the contents of the entry to the store. -/
inductive RequestBrings (P : Prims) (ch : Ulid) (e : LogEntry) : ClientRequest → Prop
  | gossip {topic : String} {data : Bytes} {raw : RawMessage} :
      P.decodeEvent data = some (.newMessage raw) → raw.channelId.ulid = ch →
      e.Has raw.id.text raw.authorId.text (timestampMillis raw.timestamp) raw.ciphertext →
      RequestBrings P ch e (.gossip topic data)
  | history {cpk : Key} {entries : List LogEntry} {e₀ : LogEntry} :
      e₀ ∈ entries → e.Has e₀.messageId e₀.authorId e₀.timestampMs e₀.ciphertext →
      RequestBrings P ch e (.pushHistory cpk ch entries)

theorem of_entryAt_persistGossip {topic : String} {data : Bytes}
    (h : (persistGossip P st topic data).entryAt cpk ch seq = some e) :
    st.entryAt cpk ch seq = some e ∨ RequestBrings P ch e (.gossip topic data) := by
  unfold persistGossip at h
  split at h
  · split at h
    · next raw hd =>
      split at h
      · rcases NodeStore.of_entryAt_appendMessage h with hold | ⟨-, hch, rfl⟩
        · exact .inl hold
        · exact .inr (.gossip hd hch.symm ⟨rfl, rfl, rfl, rfl⟩)
      · exact .inl h
    · exact .inl h
  · exact .inl h

theorem of_entryAt_appendHistory {cpk' : Key} {ch' : Ulid} {entries : List LogEntry}
    (h : (appendHistory st cpk ch entries).entryAt cpk' ch' seq = some e) :
    st.entryAt cpk' ch' seq = some e ∨ RequestBrings P ch' e (.pushHistory cpk ch entries) := by
  induction entries generalizing st with
  | nil => exact .inl h
  | cons e₀ entries ih =>
    rcases ih h with hold | hnew
    · rcases NodeStore.of_entryAt_appendMessage hold with hold | ⟨-, rfl, rfl⟩
      · exact .inl hold
      · exact .inr (.history List.mem_cons_self ⟨rfl, rfl, rfl, rfl⟩)
    · cases hnew with
      | history hmem hhas => exact .inr (.history (List.mem_cons_of_mem e₀ hmem) hhas)

theorem of_entryAt_dispatch {c : Conn}
    (hreq : ∀ cpk ch nonce ct, req ≠ .sendMessage cpk ch nonce ct)
    (h : (dispatch P env remote c req).1.services.store.entryAt cpk ch seq = some e) :
    c.services.store.entryAt cpk ch seq = some e ∨ RequestBrings P ch e req := by
  have hwrite := storeWrite_dispatch (P := P) env remote c req
  generalize (dispatch P env remote c req).1.services.store = st at h hwrite
  cases hwrite with
  | unchanged => exact .inl h
  | message => exact absurd rfl (hreq _ _ _ _)
  | gossip => exact of_entryAt_persistGossip h
  | history => exact of_entryAt_appendHistory h
  | join =>
    unfold storeJoined at h
    split at h <;> exact .inl h
  | dm => exact .inl h
  | manifest => exact .inl h

end

end AppState

/-! ## Runs -/

/-- The inputs of a run: gossip and history batches for the event processor, and the requests of
other nodes except `SendMessage`, which adds messages in the name of the client. -/
inductive NetworkInput : NodeInput → Prop
  | gossip {env : Env} {topic : String} {data : Bytes} {source : Option String} :
      NetworkInput (.event env (.messageReceived topic data source))
  | history {env : Env} {c ch : String} {batch : List LogEntry} :
      NetworkInput (.event env (.channelHistoryReceived c ch batch))
  | connect {conn : Nat} : NetworkInput (.connect conn)
  | request {conn : Nat} {env : Env} {remote : NodeAddr} {req : ClientRequest} :
      (∀ cpk ch nonce ct, req ≠ .sendMessage cpk ch nonce ct) →
      NetworkInput (.request conn env remote req)

def NodeInput.gossiped? : NodeInput → Option Bytes
  | .event _ (.messageReceived _ data _) => some data
  | .request _ _ _ (.gossip _ data) => some data
  | _ => none

section

variable (P : Prims) (Signed : Key → Bytes → Prop)

/-- Every entry that the run adds in the name of a member is a message that the member signed. -/
def LogsAuthentic (n : Node) (is : List NodeInput) : Prop :=
  ∀ pre i post, is = pre ++ i :: post →
    AddsAuthentic Signed (run (Node.step P) n pre).app
      (Node.step P (run (Node.step P) n pre) i).app

/-- The entries in the name of members of the channel are messages that they signed. -/
def AuthenticBatch (t : Tables) (ch : String) (batch : List LogEntry) : Prop :=
  ∀ e ∈ batch, ∀ r, memberOfChannel t ch e.authorId = some r →
    AuthenticEntry Signed r.publicKey ch e

/-- The condition on one input: what comes in unverified is what the members signed. -/
structure Attested (n : Node) (i : NodeInput) : Prop where
  history : ∀ env c ch batch, i = .event env (.channelHistoryReceived c ch batch) →
    ∀ x, HistoryChannel ch x → AuthenticBatch Signed n.app.toTables x batch
  pushHistory : ∀ conn env remote cpk ch batch,
    i = .request conn env remote (.pushHistory cpk ch batch) →
    AuthenticBatch Signed n.app.toTables (ulidText ch) batch
  gossip : ∀ conn env remote topic data raw,
    i = .request conn env remote (.gossip topic data) →
    P.decodeEvent data = some (.newMessage raw) →
    ∀ r, memberOfChannel n.app.toTables raw.channelId.text raw.authorId.text = some r →
      raw.verify P r.publicKey = true

variable {P Signed}

theorem authentic_of_requestBrings {conn : Nat} {env : Env}
    (hunf : ∀ data, (NodeInput.request conn env remote req).gossiped? = some data →
      Unforged P Signed data)
    (h : Attested P Signed n (.request conn env remote req)) (hb : RequestBrings P ch e req)
    (hr : memberOfChannel n.app.toTables (ulidText ch) e.authorId = some r) :
    AuthenticEntry Signed r.publicKey (ulidText ch) e := by
  cases hb with
  | gossip hd hch hhas =>
    subst hch
    rw [hhas.2.1] at hr
    have hver := h.gossip _ _ _ _ _ _ rfl hd r hr
    exact authenticEntry_of_has (hunf _ rfl _ _ hd hver) hhas
  | history hmem hhas =>
    rw [hhas.2.1] at hr
    exact (h.pushHistory _ _ _ _ _ _ rfl _ hmem r hr).congr hhas

theorem handleRequest_addsAuthentic {conn : Nat} {env : Env}
    (hreq : ∀ cpk ch nonce ct, req ≠ .sendMessage cpk ch nonce ct)
    (hunf : ∀ data, (NodeInput.request conn env remote req).gossiped? = some data →
      Unforged P Signed data)
    (h : Attested P Signed n (.request conn env remote req)) :
    AddsAuthentic Signed n.app (n.handleRequest P conn env remote req).app := by
  unfold Node.handleRequest
  cases hst : n.app.nodeStore with
  | none => exact (NothingAdded.refl n.app).addsAuthentic
  | some st =>
    intro x e hadd r hr
    cases hadd with
    | log hmem =>
      rw [List.drop_eq_nil_of_le (Nat.le_refl _)] at hmem
      cases hmem
    | store hnew hold =>
      rcases of_entryAt_dispatch hreq hnew with hkept | hbrings
      · refine absurd ?_ hold
        rw [storeEntry, hst]
        exact hkept
      · exact authentic_of_requestBrings hunf h hbrings hr

theorem processEvent_history_addsAuthentic {env : Env} {ch : String} {batch : List LogEntry}
    (h : Attested P Signed n (.event env (.channelHistoryReceived c ch batch))) :
    AddsAuthentic Signed n.app (n.app.handleChannelHistoryReceived P c ch batch) := by
  intro x e hadd r hr
  obtain ⟨hx, e₀, hmem, hhas⟩ := added_handleChannelHistoryReceived hadd
  rw [hhas.2.1] at hr
  exact (h.history _ _ _ _ rfl x hx e₀ hmem r hr).congr hhas

theorem step_addsAuthentic {i : NodeInput} (hin : NetworkInput i)
    (hunf : ∀ data, i.gossiped? = some data → Unforged P Signed data)
    (h : Attested P Signed n i) : AddsAuthentic Signed n.app (Node.step P n i).app := by
  cases hin with
  | @gossip env topic data source =>
    have hw := processEvent_write (P := P) env n.app (.messageReceived topic data source)
    change AddsAuthentic Signed n.app
      (n.app.processEvent P env (.messageReceived topic data source))
    generalize n.app.processEvent P env (.messageReceived topic data source) = s' at hw ⊢
    cases hw with
    | aside => exact .of_log (fun _ => rfl) rfl
    | channel _ _ hd hw =>
      exact hw.addsAuthentic fun raw k hev hver => hunf data rfl raw k (hev ▸ hd) hver
    | community _ _ _ _ hw => exact hw.addsNothing.addsAuthentic
  | history =>
    unfold Node.step processEvent
    dsimp only
    split
    · exact (NothingAdded.refl n.app).addsAuthentic
    · exact processEvent_history_addsAuthentic h
  | connect => exact (NothingAdded.refl n.app).addsAuthentic
  | request hreq => exact handleRequest_addsAuthentic hreq hunf h

/-- In a run of attested inputs the logs gain no entry of a member that the member did not
sign. -/
theorem logs_authentic {n : Node} {is : List NodeInput} (hin : ∀ i ∈ is, NetworkInput i)
    (hunf : ∀ i ∈ is, ∀ data, i.gossiped? = some data → Unforged P Signed data)
    (h : Along (Node.step P) (Attested P Signed) n is) : LogsAuthentic P Signed n is := by
  rintro pre i post rfl
  have hmem : i ∈ pre ++ i :: post := List.mem_append_right pre List.mem_cons_self
  exact step_addsAuthentic (hin i hmem) (hunf i hmem) h.at_split

end

/-! ## Evaluations -/

namespace Sample

def channelNode : Node := node (withChannel (withMembers (app 30) [record 20 [.member]]) channel 70)

def forgedEntry : LogEntry :=
  ⟨0, 0, [1], ulidText 9, (record 20 [.member]).userId.text, 0, false⟩

def forgedHistory : NodeInput :=
  .event env (.channelHistoryReceived community.text channel.id.text [forgedEntry])

end Sample

open Sample in
/-- Nobody signs anything, and a history batch adds an entry of a member. -/
theorem forged_history_added :
    let P := prims [] []
    (∀ i ∈ [forgedHistory], NetworkInput i ∧
        ∀ data, i.gossiped? = some data → Unforged P (fun _ _ => False) data) ∧
      ¬ LogsAuthentic P (fun _ _ => False) channelNode [forgedHistory] := by
  refine ⟨fun i hi => ?_, fun h => ?_⟩
  · rw [List.mem_singleton.mp hi]
    exact ⟨.history, fun data hdata => by cases hdata⟩
  · have hadded : Added channelNode.app (Node.step (prims [] []) channelNode forgedHistory).app
        channel.id.text forgedEntry := .log (by decide +kernel)
    obtain ⟨raw, hsig, -⟩ := h [] forgedHistory [] rfl _ _ hadded (record 20 [.member])
      (by decide +kernel)
    exact hsig

namespace Sample

def message : RawMessage :=
  RawMessage.create (prims [] []) ⟨9⟩ channel.id 20 0 (aeadSeal 70 3 [0]) 3

/-- The member signed this message and nothing else. -/
def SignedMessage (k : Key) (m : Bytes) : Prop := k = 21 ∧ m = message.signable

def messageGossip : NodeInput :=
  .event env (.messageReceived (channelTopic channel.id.text) [0] none)

theorem unforged_message : Unforged (prims [.newMessage message] []) SignedMessage [0] := by
  intro raw k hd hver
  have hraw : message = raw := NetworkEvent.newMessage.inj (Option.some.inj hd)
  subst hraw
  have hsig : tryIntoArray 512 message.signature = some ((21 : Key) ++ mix message.signable) := by
    decide +kernel
  rw [RawMessage.verify_eq, Prims.verifyBytes, hsig] at hver
  exact ⟨eq_of_verify hver, rfl⟩

end Sample

open Sample in
theorem logs_authentic_message :
    let P := prims [.newMessage message] []
    Added channelNode.app (Node.step P channelNode messageGossip).app channel.id.text
        ⟨0, 3, message.ciphertext, message.id.text, message.authorId.text, 0, false⟩ ∧
      LogsAuthentic P SignedMessage channelNode [messageGossip] := by
  refine ⟨.log (by decide +kernel), logs_authentic (fun i hi => ?_) (fun i hi data hdata => ?_)
    ⟨⟨?_, ?_, ?_⟩, trivial⟩⟩
  · rw [List.mem_singleton.mp hi]
    exact .gossip
  · rw [List.mem_singleton.mp hi] at hdata
    cases hdata
    exact unforged_message
  · intro env c ch batch hi
    cases hi
  · intro conn env remote cpk ch batch hi
    cases hi
  · intro conn env remote topic data raw hi
    cases hi

end BitCord
