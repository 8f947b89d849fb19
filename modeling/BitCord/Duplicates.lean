import BitCord.CatchUp
import BitCord.Hosting
import BitCord.Isolation
import BitCord.Persistence.Reload

/-!
# Messages that are stored twice

The event processor, the RPC server and the QUIC server of a node append messages to one store.
The event processor skips a message whose id is in the message log, which it and the RPC server
fill; the QUIC server skips none and does not write the log. So a message that two clients gossip to
the node is stored twice (`gossiped_twice`). `messages_stored_once` states for every run what keeps
the ids of every stored log distinct.
-/

namespace BitCord

open Lib Lib.Run AppState

variable {st : NodeStore} {s : AppState} {raw : RawMessage} {ev : NetworkEvent} {c x : String}
  {n : Node}

/-! ## Ids in a store -/

/-- The entries of the store of a node that may have none. -/
def entryIn (o : Option NodeStore) (cpk : Key) (ch : Ulid) (seq : UInt64) : Option LogEntry :=
  o.bind fun st => st.entryAt cpk ch seq

/-- The stored log of a channel has a message with this id. -/
def HasMessage (o : Option NodeStore) (cpk : Key) (ch : Ulid) (id : String) : Prop :=
  ∃ seq e, entryIn o cpk ch seq = some e ∧ e.messageId = id

/-- No two entries of one log have the same id. -/
def NoDuplicates (o : Option NodeStore) : Prop :=
  ∀ cpk ch a b ea eb, entryIn o cpk ch a = some ea → entryIn o cpk ch b = some eb →
    ea.messageId = eb.messageId → a = b

/-- Every entry of the second store is one of the first. -/
def NoEntryAdded (o o' : Option NodeStore) : Prop :=
  ∀ cpk ch seq e, entryIn o' cpk ch seq = some e → entryIn o cpk ch seq = some e

section

variable {o o' o'' : Option NodeStore} {cpk cpk' : Key} {ch ch' : Ulid} {id mid author : String}
  {nonce : Nonce} {ct : Bytes} {ts : Int}

theorem NoEntryAdded.refl (o : Option NodeStore) : NoEntryAdded o o := fun _ _ _ _ h => h

theorem NoEntryAdded.map {f : NodeStore → NodeStore}
    (hf : ∀ st cpk ch seq e, (f st).entryAt cpk ch seq = some e → st.entryAt cpk ch seq = some e) :
    NoEntryAdded o (o.map f) := by
  intro cpk ch seq e h
  cases o with
  | none => exact h
  | some st => exact hf st cpk ch seq e h

theorem AppState.SameLogs.noEntryAdded (h : SameLogs o o') : NoEntryAdded o o' :=
  fun cpk ch seq _ he => (h.entryAt cpk ch seq).symm.trans he

theorem NoEntryAdded.hasMessage (h : NoEntryAdded o o') (hm : HasMessage o' cpk ch id) :
    HasMessage o cpk ch id := by
  obtain ⟨seq, e, he, hid⟩ := hm
  exact ⟨seq, e, h cpk ch seq e he, hid⟩

theorem NoDuplicates.of_noEntryAdded (h : NoDuplicates o) (hsub : NoEntryAdded o o') :
    NoDuplicates o' :=
  fun cpk ch a b ea eb ha hb hid => h cpk ch a b ea eb (hsub _ _ _ _ ha) (hsub _ _ _ _ hb) hid

/-- After an append, an entry is an old one, or it has the new id and the next number. -/
theorem of_entryIn_append {seq : UInt64} {e : LogEntry}
    (h : entryIn (o.map fun st => st.appendMessage cpk ch nonce ct mid author ts) cpk' ch' seq =
      some e) :
    entryIn o cpk' ch' seq = some e ∨
      (cpk' = cpk ∧ ch' = ch) ∧ e.messageId = mid ∧
        ∃ st, o = some st ∧ seq = st.nextSeq cpk ch := by
  cases o with
  | none => exact .inl h
  | some st =>
    show st.entryAt cpk' ch' seq = some e ∨ _
    have hat : (st.appendMessage cpk ch nonce ct mid author ts).entryAt cpk' ch' seq = some e := h
    unfold NodeStore.entryAt NodeStore.appendMessage at hat
    rw [OrdMap.get_insert] at hat
    split at hat
    · next hkey =>
      have hseq := congrArg NodeStore.seqOf hkey
      rw [NodeStore.seqOf_logKey, NodeStore.seqOf_logKey] at hseq
      exact .inr ⟨NodeStore.logKey_inj hkey, (congrArg LogEntry.messageId
        (Option.some.inj hat)).symm, st, rfl, hseq⟩
    · exact .inl hat

theorem of_hasMessage_append
    (h : HasMessage (o.map fun st => st.appendMessage cpk ch nonce ct mid author ts) cpk' ch' id) :
    HasMessage o cpk' ch' id ∨ (cpk' = cpk ∧ ch' = ch) ∧ id = mid := by
  obtain ⟨seq, e, he, hid⟩ := h
  rcases of_entryIn_append he with hold | ⟨hlog, hmid, -⟩
  · exact .inl ⟨seq, e, hold, hid⟩
  · exact .inr ⟨hlog, hid.symm.trans hmid⟩

/-- An append of an id that the log does not have makes no duplicate. -/
theorem NoDuplicates.append (h : NoDuplicates o) (hnew : ¬ HasMessage o cpk ch mid) :
    NoDuplicates (o.map fun st => st.appendMessage cpk ch nonce ct mid author ts) := by
  intro cpk' ch' a b ea eb ha hb hid
  rcases of_entryIn_append ha with hola | ⟨⟨rfl, rfl⟩, hmida, st, hst, hseqa⟩
  · rcases of_entryIn_append hb with holb | ⟨⟨rfl, rfl⟩, hmidb, -⟩
    · exact h cpk' ch' a b ea eb hola holb hid
    · exact absurd ⟨a, ea, hola, hid.trans hmidb⟩ hnew
  · rcases of_entryIn_append hb with holb | ⟨-, -, st', hst', hseqb⟩
    · exact absurd ⟨b, eb, holb, hid.symm.trans hmida⟩ hnew
    · rw [hst] at hst'
      rw [hseqa, hseqb, Option.some.inj hst']

/-- The messages of a log without duplicates have distinct ids. -/
theorem nodup_getMessages {l : List LogEntry} (h : NoDuplicates (some st))
    (hl : st.getMessages cpk ch 0 = .ok l) : (l.map fun e => e.messageId).Nodup := by
  have hsorted := OrdMap.sorted_range st.log (logKey cpk ch 0) (logKey cpk ch maxSeq)
  refine List.pairwise_map.mpr (pairwise_of_mapM_ok hl (List.Pairwise.and_mem.mp hsorted) ?_)
  intro x x' e e' hx hread hread' hid
  -- each entry stands under the key of its number
  have hat : ∀ y ∈ st.channelRange cpk ch 0, ∀ d, st.read "decode LogEntry" y.2 = .ok d →
      entryIn (some st) cpk ch (NodeStore.seqOf y.1) = some d := by
    intro y hy d hd
    show st.entryAt cpk ch (NodeStore.seqOf y.1) = some d
    rw [NodeStore.entryAt, ← NodeStore.mem_channelRange hy, OrdMap.get_of_mem_range hy]
    exact NodeStore.value_of_read hd
  have hseq := h cpk ch _ _ e e' (hat x hx.1 e hread) (hat x' hx.2.1 e' hread') hid
  have hkey : x.1 = x'.1 := by
    rw [NodeStore.mem_channelRange hx.1, NodeStore.mem_channelRange hx.2.1, hseq]
  exact absurd hkey hx.2.2.ne

/-- The log that a restart rebuilds from a store without duplicates has every id once. -/
theorem nodup_messageLog_restart (P : Prims) (h : NoDuplicates s.nodeStore)
    (x : String) : (((s.restart P).messageLog.entries x).map fun e => e.messageId).Nodup := by
  cases hst : s.nodeStore with
  | none =>
    have hempty : (s.restart P).messageLog = MessageLog.empty := by
      simp only [restart, hst, Option.map_none]
    rw [hempty]
    exact List.nodup_nil
  | some st =>
    rw [hst] at h
    rw [messageLog_restart hst, entries_reload]
    unfold storedEntries
    split
    · split
      · next l hl => exact nodup_getMessages h hl
      · exact List.nodup_nil
    · exact List.nodup_nil

end

/-! ## The event processor -/

def AppState.logs (s : AppState) : MessageLog × Option NodeStore := (s.messageLog, s.nodeStore)

/-- The store has the message, and the log in which the event processor looks for it does not. -/
def Missed (acc : MessageLog × Option NodeStore) (cpk : Key) (x : String) (ulid : Ulid)
    (id : String) : Prop :=
  HasMessage acc.2 cpk ulid id ∧ ¬ Knows acc.1 x id

/-- No id leaves the message log, and the store gains no entry. -/
structure LogsKept (acc acc' : MessageLog × Option NodeStore) : Prop where
  known : ∀ x id, Knows acc.1 x id → Knows acc'.1 x id
  store : NoEntryAdded acc.2 acc'.2

/-- What the event processor makes of a message: nothing is written, or the message was not in the
log, is there now and is stored under the key of its community. -/
inductive Logged (pk : Option Key) (x : String) (ulid : Ulid) (id : String)
    (acc acc' : MessageLog × Option NodeStore) : Prop
  | kept : LogsKept acc acc' → Logged pk x ulid id acc acc'
  | appended {cpk : Key} {nonce : Nonce} {ct : Bytes} {author : String} {ts : Int} :
      (∀ y i, Knows acc.1 y i → Knows acc'.1 y i) → ¬ Knows acc.1 x id → Knows acc'.1 x id →
      pk = some cpk →
      acc'.2 = acc.2.map (fun st => st.appendMessage cpk ulid nonce ct id author ts) →
      Logged pk x ulid id acc acc'

section

variable {acc acc' : MessageLog × Option NodeStore} {pk : Option Key} {cpk : Key} {x x' : String}
  {ulid ulid' : Ulid} {id id' : String}

theorem LogsKept.refl (acc : MessageLog × Option NodeStore) : LogsKept acc acc :=
  ⟨fun _ _ h => h, .refl _⟩

theorem LogsKept.not_missed (h : LogsKept acc acc') (hm : ¬ Missed acc cpk x ulid id) :
    ¬ Missed acc' cpk x ulid id :=
  fun hm' => hm ⟨h.store.hasMessage hm'.1, fun hk => hm'.2 (h.known x id hk)⟩

/-- A message that the store does not have without the log knowing it makes no duplicate. -/
theorem Logged.noDuplicates (h : Logged pk x ulid id acc acc') (hd : NoDuplicates acc.2)
    (hm : ∀ cpk, pk = some cpk → ¬ Missed acc cpk x ulid id) : NoDuplicates acc'.2 := by
  cases h with
  | kept hkept => exact hd.of_noEntryAdded hkept.store
  | appended _ hnew _ hpk hstore =>
    rw [hstore]
    exact hd.append fun hhas => hm _ hpk ⟨hhas, hnew⟩

/-- What the log knows of the other messages stays so. -/
theorem Logged.not_missed (h : Logged pk x ulid id acc acc') (hx : ulid' = ulid → x' = x)
    (hm : ¬ Missed acc cpk x' ulid' id') : ¬ Missed acc' cpk x' ulid' id' := by
  cases h with
  | kept hkept => exact hkept.not_missed hm
  | appended hknown _ hnow _ hstore =>
    rintro ⟨hhas, hunknown⟩
    rw [hstore] at hhas
    rcases of_hasMessage_append hhas with hold | ⟨⟨-, hulid⟩, rfl⟩
    · exact hm ⟨hold, fun hk => hunknown (hknown x' id' hk)⟩
    · rw [hx hulid] at hunknown
      exact hunknown hnow

end

variable {batch : List LogEntry} (log : MessageLog)

section

variable {P : Prims}

theorem knows_updateEntry {f : LogEntry → LogEntry} (hf : ∀ e, (f e).messageId = e.messageId)
    (log : MessageLog) (ch mid x id : String) :
    Knows (log.updateEntry ch mid f) x id ↔ Knows log x id := by
  have hids : ((log.updateEntry ch mid f).entries x).map LogEntry.messageId =
      (log.entries x).map LogEntry.messageId := by
    rw [MessageLog.entries_updateEntry]
    split
    · next hx => rw [map_updateFirst fun e _ => hf e, hx]
    · rfl
  have hmem : ∀ log : MessageLog, Knows log x id ↔ id ∈ (log.entries x).map LogEntry.messageId :=
    fun log => List.mem_map.symm
  rw [hmem, hmem, hids]

theorem knows_edit (ch mid : String) (nonce : Nonce) (ct : Bytes) (x id : String)
    (h : Knows log x id) : Knows (log.edit ch mid nonce ct) x id := by
  unfold MessageLog.edit
  refine (knows_updateEntry (fun e => ?_) log ch mid x id).mpr h
  rfl

theorem knows_tombstone (ch mid x id : String) (h : Knows log x id) :
    Knows (log.tombstone ch mid) x id := by
  unfold MessageLog.tombstone
  refine (knows_updateEntry (fun e => ?_) log ch mid x id).mpr h
  rfl

theorem knows_logMessage {log : MessageLog} (content : Option MessageContent)
    {y i : String} (h : Knows log y i) : Knows (logMessage log raw content) y i := by
  obtain ⟨e, he, hid⟩ := h
  obtain ⟨added, heq, -⟩ := entries_logMessage log raw content y
  exact ⟨e, by rw [heq]; exact List.mem_append_left added he, hid⟩

/-- The event processor looks for no message but a new one. -/
theorem AppState.ChannelWrite.logsKept {replaying : Bool} {s' : AppState}
    (hw : ChannelWrite P replaying s ev s') :
    LogsKept s.logs s'.logs ∨ ∃ raw, ev = .newMessage raw ∧
      Logged (homePk s.toTables raw.channelId.text) raw.channelId.text raw.channelId.ulid
        raw.id.text s.logs s'.logs := by
  cases hw with
  | @logged raw ch key plaintext pushes hch _ _ _ hnew =>
    have hknown : ∀ y i, Knows s.messageLog y i →
        Knows (logMessage s.messageLog raw (P.decodeContent plaintext)) y i :=
      fun _ _ => knows_logMessage _
    refine .inr ⟨raw, rfl, ?_⟩
    rw [homePk, hch]
    show Logged (communityPk? s.toTables ch.communityId.text) _ _ _ _ _
    cases hpk : communityPk? s.toTables ch.communityId.text with
    | none =>
      refine .kept ⟨hknown, ?_⟩
      show NoEntryAdded s.nodeStore (storeMessage s ch.communityId.text raw)
      unfold storeMessage
      rw [hpk]
      exact .refl _
    | some cpk =>
      refine .appended hknown (fun hk => ?_) ?_ rfl (storeMessage_of_pk hpk raw)
      · have hsome := isSome_getEntry_iff.mpr hk
        rw [show s.logs.1 = s.messageLog from rfl, hnew] at hsome
        cases hsome
      · show Knows (logMessage s.messageLog raw (P.decodeContent plaintext)) _ _
        unfold logMessage Knows
        rw [MessageLog.entries_append, if_pos rfl]
        exact ⟨_, List.mem_append_right _ (List.mem_singleton_self _), rfl⟩
  | edited => exact .inl ⟨knows_edit _ _ _ _ _, .refl _⟩
  | deleted => exact .inl ⟨knows_tombstone _ _ _, .refl _⟩
  | rotated => exact .inl ⟨fun _ _ h => h, (sameLogs_updateMeta s _ _).noEntryAdded⟩
  | rotationStalled => exact .inl ⟨fun _ _ h => h, (sameLogs_updateMeta s _ _).noEntryAdded⟩
  | _ => exact .inl (.refl _)

theorem integrateEntry_logged (key pk : Option Key) (x : String) (ulid : Ulid)
    (acc : MessageLog × Option NodeStore) (e : LogEntry) :
    Logged pk x ulid e.messageId acc (integrateEntry P key pk x ulid acc e) := by
  unfold integrateEntry
  split
  · exact .kept (.refl acc)
  · next hnew =>
    have hentries : ∀ y, ((applyReaction acc.1 ((key.bind fun k => P.aeadOpen k e.nonce
        e.ciphertext).bind P.decodeContent) e.authorId).appendEntry x e).entries y =
          acc.1.entries y ++ if y = x then [e] else [] := by
      intro y
      rw [MessageLog.entries_appendEntry, entries_applyReaction, entries_applyReaction]
      split
      · next hy => rw [hy]
      · rw [List.append_nil]
    have hknown : ∀ y i, Knows acc.1 y i → Knows ((applyReaction acc.1 ((key.bind fun k =>
        P.aeadOpen k e.nonce e.ciphertext).bind P.decodeContent) e.authorId).appendEntry x e)
          y i := by
      rintro y i ⟨e', he', hid⟩
      exact ⟨e', by rw [hentries]; exact List.mem_append_left _ he', hid⟩
    cases pk with
    | none => exact .kept ⟨hknown, .refl _⟩
    | some cpk =>
      refine .appended hknown (fun hk => hnew (isSome_getEntry_iff.mpr hk)) ⟨e, ?_, rfl⟩ rfl rfl
      show e ∈ MessageLog.entries _ _
      rw [hentries, if_pos rfl]
      exact List.mem_append_right _ (List.mem_singleton_self e)

/-- A history batch makes no duplicate, also where it repeats an entry. -/
theorem foldl_integrateEntry_noDuplicates {key pk : Option Key} {ulid : Ulid}
    {acc : MessageLog × Option NodeStore} (hd : NoDuplicates acc.2)
    (hm : ∀ cpk, pk = some cpk → ∀ e ∈ batch, ¬ Missed acc cpk x ulid e.messageId) :
    NoDuplicates (batch.foldl (integrateEntry P key pk x ulid) acc).2 := by
  induction batch generalizing acc with
  | nil => exact hd
  | cons e batch ih =>
    have hlogged := integrateEntry_logged (P := P) key pk x ulid acc e
    refine ih (hlogged.noDuplicates hd fun cpk hpk => hm cpk hpk e List.mem_cons_self) ?_
    intro cpk hpk e' he'
    exact hlogged.not_missed (fun _ => rfl) (hm cpk hpk e' (List.mem_cons_of_mem e he'))

theorem handleChannelHistoryReceived_noDuplicates (hd : NoDuplicates s.nodeStore)
    (hm : ∀ cpk ulid, communityPk? s.toTables c = some cpk → parseUlid x = some ulid →
      ∀ e ∈ batch, ¬ Missed s.logs cpk x ulid e.messageId) :
    NoDuplicates (s.handleChannelHistoryReceived P c x batch).nodeStore := by
  show NoDuplicates (s.integrateHistory P c x batch).2
  unfold integrateHistory
  split
  · next ulid hulid =>
    exact foldl_integrateEntry_noDuplicates hd fun cpk hpk => hm cpk ulid hpk hulid
  · exact hd

end

/-! ## Fetched manifests -/

/-- The store has no duplicates, and no message that waits for a key makes one. -/
structure ReplaySafe (P : Prims) (s t : AppState) : Prop where
  noDuplicates : NoDuplicates t.nodeStore
  notMissed : ∀ raw, s.Awaits P (.newMessage raw) →
    ∀ cpk, ¬ Missed t.logs cpk raw.channelId.text raw.channelId.ulid raw.id.text

section

variable {P : Prims}

theorem AppState.ChannelWrite.replaySafe {t t' : AppState} (hw : ChannelWrite P true t ev t')
    (hev : s.Awaits P ev) (h : ReplaySafe P s t) : ReplaySafe P s t' := by
  rcases hw.logsKept with hkept | ⟨raw, rfl, hlog⟩
  · exact ⟨h.noDuplicates.of_noEntryAdded hkept.store,
      fun raw hraw cpk => hkept.not_missed (h.notMissed raw hraw cpk)⟩
  · exact ⟨hlog.noDuplicates h.noDuplicates fun cpk _ => h.notMissed raw hev cpk,
      fun raw' hraw' cpk => hlog.not_missed (fun hulid => congrArg ulidText hulid)
        (h.notMissed raw' hraw' cpk)⟩

theorem afterReplay_noDuplicates (h : ReplaySafe P s s) (m : ManifestReceived) :
    NoDuplicates (s.afterReplay P m).nodeStore :=
  (afterReplay_rel (R := fun t t' => ReplaySafe P s t → ReplaySafe P s t')
    (fun _ _ ht => ⟨ht.noDuplicates, ht.notMissed⟩) (fun h h' ht => h' (h ht))
    (fun hev hw => hw.replaySafe hev) (fun _ _ ht => ⟨ht.noDuplicates, ht.notMissed⟩) m
    ⟨h.noDuplicates, h.notMissed⟩).noDuplicates

/-! ## RPC calls -/

theorem removeCommunityLocal_noEntryAdded (s : AppState) (c : String) :
    NoEntryAdded s.nodeStore (s.removeCommunityLocal c).nodeStore :=
  fun _ _ _ _ => of_entryAt_removeCommunityLocal

theorem nodeStore_putPassword (s : AppState) (c : String) (password : Option String) :
    (s.putPassword c password).nodeStore = s.nodeStore := by
  cases password <;> rfl

theorem sameLogs_storeCreated (env : Env) (s : AppState) (p : CreateCommunityParams) (fp : Key) :
    SameLogs s.nodeStore (s.storeCreated P env p fp).nodeStore := by
  show SameLogs s.nodeStore (((s.putCommunity _ _).putPassword _ _).nodeStore.map _)
  rw [nodeStore_putPassword]
  exact Option.map_map _ _ _

theorem nodeStore_storeInvited (env : Env) (s : AppState) (id : CommunityId) (pk : Key)
    (invite : InvitePayload) (password : Option String) :
    (s.storeInvited P env id pk invite password).nodeStore = s.nodeStore := by
  show ((s.putCommunity _ _).putPassword _ _).nodeStore = _
  rw [nodeStore_putPassword]
  rfl

theorem sameLogs_storeRotation (s : AppState) (p : ChannelParams) (ch : ChannelManifest)
    (key : Key) : SameLogs s.nodeStore (s.storeRotation p ch key).nodeStore := by
  unfold storeRotation
  split
  · exact sameLogs_updateMeta _ _ _
  · rfl

/-- The RPC calls that append a message of the node. -/
def RpcCall.sends : RpcCall → Bool
  | .messageSend _ | .reactionAdd _ | .reactionRemove _ => true
  | _ => false

theorem storeMessage_noDuplicates (hd : NoDuplicates s.nodeStore)
    (hnew : ∀ cpk ch, ¬ HasMessage s.nodeStore cpk ch raw.id.text) :
    NoDuplicates (storeMessage s c raw) := by
  unfold storeMessage
  split
  · exact hd.append (hnew _ _)
  · exact hd

/-- A call makes no duplicate if the id that it draws is new. -/
theorem rpc_noDuplicates {env : Env} {call : RpcCall} (hd : NoDuplicates s.nodeStore)
    (hnew : call.sends = true → ∀ cpk ch, ¬ HasMessage s.nodeStore cpk ch (ulidText (env.ulid 0))) :
    NoDuplicates (s.rpc P env call).1.nodeStore := by
  have hw := rpc_write (P := P) env s call
  generalize (s.rpc P env call).1 = s' at hw ⊢
  have hsame : ∀ {s' : AppState}, SameLogs s.nodeStore s'.nodeStore → NoDuplicates s'.nodeStore :=
    fun h => hd.of_noEntryAdded h.noEntryAdded
  cases hw with
  | created _ ht => rcases ht with rfl | rfl <;> exact hsame (sameLogs_storeCreated env _ _ _)
  | invited _ _ ht =>
    rcases ht with rfl | ⟨fp, rfl⟩ <;>
      exact hsame (congrArg _ (nodeStore_storeInvited (P := P) env s _ _ _ _))
  | left => exact hd.of_noEntryAdded (removeCommunityLocal_noEntryAdded s _)
  | deleted => exact hd.of_noEntryAdded (removeCommunityLocal_noEntryAdded s _)
  | updated _ _ _ ht => rcases ht with rfl | ⟨fp, rfl⟩ <;> exact hd
  | channelCreated => exact hsame (sameLogs_updateMeta _ _ _)
  | channelDeleted => exact hsame (sameLogs_updateMeta _ _ _)
  | rotated => exact hsame (sameLogs_storeRotation _ _ _ _)
  | reordered => exact hsame (sameLogs_updateMeta _ _ _)
  | sent => exact storeMessage_noDuplicates hd (hnew rfl)
  | reactionAdded => exact storeMessage_noDuplicates hd (hnew rfl)
  | reactionRemoved => exact storeMessage_noDuplicates hd (hnew rfl)
  | _ => exact hd

end

/-! ## Requests -/

section

variable {P : Prims}

/-- A batch of distinct ids that the log does not have makes no duplicate. -/
theorem appendHistory_noDuplicates {cpk : Key} {ch : Ulid} {entries : List LogEntry}
    (hd : NoDuplicates (some st)) (hnodup : (entries.map fun e => e.messageId).Nodup)
    (hnew : ∀ e ∈ entries, ¬ HasMessage (some st) cpk ch e.messageId) :
    NoDuplicates (some (appendHistory st cpk ch entries)) := by
  induction entries generalizing st with
  | nil => exact hd
  | cons e entries ih =>
    rw [List.map_cons, List.nodup_cons] at hnodup
    have hfirst : NoDuplicates (some (st.appendMessage cpk ch e.nonce e.ciphertext e.messageId
        e.authorId e.timestampMs)) := hd.append (hnew e List.mem_cons_self)
    refine ih hfirst hnodup.2 fun e' he' hhas => ?_
    rcases of_hasMessage_append (o := some st) hhas with hold | ⟨-, hid⟩
    · exact hnew e' (List.mem_cons_of_mem e he') hold
    · exact hnodup.1 (List.mem_map.mpr ⟨e', he', hid⟩)

theorem persistGossip_noDuplicates {topic : String} {data : Bytes}
    (hd : NoDuplicates (some st))
    (hnew : isChannelTopic topic = true → ∀ raw cpk, P.decodeEvent data = some (.newMessage raw) →
      communityOfChannel st raw.channelId.ulid = some cpk →
      ¬ HasMessage (some st) cpk raw.channelId.ulid raw.id.text) :
    NoDuplicates (some (persistGossip P st topic data)) := by
  unfold persistGossip
  split
  · next htopic =>
    split
    · next raw hraw =>
      split
      · next cpk hcpk => exact hd.append (hnew htopic raw cpk hraw hcpk)
      · exact hd
    · exact hd
  · exact hd

end

/-! ## Runs -/

section

variable (P : Prims)

/-- The condition on one input. A request that is let in brings only messages that the log of the
channel does not have, the event processor gets no message that the store has and the message log
lacks, and the id of a message that is made here is new. -/
def BringsNew (n : Node) : NodeInput → Prop
  | .event _ (.messageReceived topic data _) =>
    isChannelTopic topic = true → ∀ raw cpk, P.decodeEvent data = some (.newMessage raw) →
      homePk n.app.toTables raw.channelId.text = some cpk →
      ¬ Missed n.app.logs cpk raw.channelId.text raw.channelId.ulid raw.id.text
  | .event _ (.channelHistoryReceived c x entries) =>
    ∀ cpk ulid, communityPk? n.app.toTables c = some cpk → parseUlid x = some ulid →
      ∀ e ∈ entries, ¬ Missed n.app.logs cpk x ulid e.messageId
  | .event _ (.manifestReceived m) =>
    -- the messages that wait for a key are handled again
    m.manifest.verify P = true → m.manifest.manifest.deleted = false →
      ∀ y buf, n.app.pendingRotation.lookup y = some buf → ∀ msg ∈ buf, ∀ raw,
        P.decodeEvent msg.2 = some (.newMessage raw) →
        ∀ cpk, ¬ Missed n.app.logs cpk raw.channelId.text raw.channelId.ulid raw.id.text
  | .rpc env call =>
    call.sends = true → ∀ cpk ch, ¬ HasMessage n.app.nodeStore cpk ch (ulidText (env.ulid 0))
  | .request i env _ (.sendMessage cpk ch _ _) =>
    (n.sessions i).mayPush cpk = true →
      ¬ HasMessage n.app.nodeStore cpk ch (ulidText (env.ulid 0))
  | .request i _ _ (.gossip topic data) =>
    (n.sessions i).clientPk.isSome = true → isChannelTopic topic = true →
      ∀ st raw cpk, n.app.nodeStore = some st → P.decodeEvent data = some (.newMessage raw) →
        communityOfChannel st raw.channelId.ulid = some cpk →
        ¬ HasMessage n.app.nodeStore cpk raw.channelId.ulid raw.id.text
  | .request i _ _ (.pushHistory cpk ch entries) =>
    (n.sessions i).mayPush cpk = true →
      (entries.map fun e => e.messageId).Nodup ∧
        ∀ e ∈ entries, ¬ HasMessage n.app.nodeStore cpk ch e.messageId
  | _ => True

variable {P}

theorem handleRequest_noDuplicates {i : Nat} {env : Env} {remote : NodeAddr} {req : ClientRequest}
    (hd : NoDuplicates n.app.nodeStore) (hnew : BringsNew P n (.request i env remote req)) :
    NoDuplicates (n.handleRequest P i env remote req).app.nodeStore := by
  unfold Node.handleRequest
  cases hst : n.app.nodeStore with
  | none => exact hd
  | some st =>
    dsimp only
    rw [hst] at hd
    have hwrite := storeWrite_dispatch (P := P) env remote (n.conn P st i) req
    cases req with
    | sendMessage cpk ch nonce ct =>
      unfold dispatch
      dsimp only
      split
      · exact hd
      · next hauth =>
        split
        · exact hd
        · next hjoined =>
          have hmay : (n.conn P st i).session.mayPush cpk = true := by
            rw [ClientSession.mayPush, Bool.and_eq_true]
            exact ⟨by simpa using hauth, by simpa using hjoined⟩
          have hhas := hnew hmay
          rw [hst] at hhas
          exact hd.append hhas
    | gossip topic data =>
      unfold dispatch
      dsimp only
      split
      · exact hd
      · next clientPk hpk =>
        refine persistGossip_noDuplicates hd fun htopic raw cpk hraw hcpk => ?_
        have hhas := hnew (Option.isSome_iff_exists.mpr ⟨clientPk, hpk⟩) htopic st raw cpk hst hraw
          hcpk
        rwa [hst] at hhas
    | pushHistory cpk ch entries =>
      unfold dispatch
      dsimp only
      split
      · next hmay =>
        obtain ⟨hnodup, hhas⟩ := hnew hmay
        rw [hst] at hhas
        exact appendHistory_noDuplicates hd hnodup hhas
      · exact hd
    | joinCommunity cert communityId password =>
      generalize (dispatch P env remote (n.conn P st i) _).1.services.store = st' at hwrite ⊢
      cases hwrite with
      | unchanged => exact hd
      | join =>
        unfold storeJoined
        split <;> exact hd
    | _ =>
      generalize (dispatch P env remote (n.conn P st i) _).1.services.store = st' at hwrite ⊢
      cases hwrite <;> exact hd

theorem processEvent_noDuplicates {env : Env} {e : SwarmEvent}
    (hd : NoDuplicates n.app.nodeStore) (hnew : BringsNew P n (.event env e)) :
    NoDuplicates (n.app.processEvent P env e).nodeStore := by
  have hw := processEvent_write (P := P) env n.app e
  generalize n.app.processEvent P env e = s' at hw ⊢
  have hreplay : ∀ {m}, m.manifest.verify P = true → m.manifest.manifest.deleted = false →
      e = .manifestReceived m → NoDuplicates (n.app.afterReplay P m).nodeStore := by
    rintro m hverify hlive rfl
    refine afterReplay_noDuplicates ⟨hd, ?_⟩ m
    rintro raw ⟨y, buf, hy, msg, hmsg, hraw⟩ cpk
    exact hnew hverify hlive y buf hy msg hmsg raw hraw cpk
  cases hw with
  | channel _ htopic hdata hw =>
    rcases hw.logsKept with hkept | ⟨raw, rfl, hlog⟩
    · exact hd.of_noEntryAdded hkept.store
    · exact hlog.noDuplicates hd fun cpk hpk => hnew htopic raw cpk hdata hpk
  | community _ _ _ _ hw => exact hd.of_noEntryAdded fun _ _ _ _ => hw.of_entryAt
  | tombstone => exact hd.of_noEntryAdded (removeCommunityLocal_noEntryAdded n.app _)
  | failed => exact hd.of_noEntryAdded (removeCommunityLocal_noEntryAdded n.app _)
  | stalled _ hverify hlive => exact hreplay hverify hlive rfl
  | received _ hverify hlive =>
    exact (hreplay hverify hlive rfl).of_noEntryAdded
      (sameLogs_settleManifest env _ _ _ _).noEntryAdded
  | history => exact handleChannelHistoryReceived_noDuplicates hd hnew
  | _ => exact hd

theorem restart_noEntryAdded (s : AppState) : NoEntryAdded s.nodeStore (s.restart P).nodeStore := by
  refine NoEntryAdded.map fun st cpk ch seq e h => ?_
  refine List.foldlRecOn (motive := fun st' : NodeStore => st'.entryAt cpk ch seq = some e →
    st.entryAt cpk ch seq = some e) _ _ id ?_ h
  intro st' hst' row _ hrow
  refine hst' ?_
  unfold mergeStep at hrow
  split at hrow
  · exact hrow
  · split at hrow
    · exact hrow
    · dsimp only at hrow
      split at hrow <;> exact hrow

/-- One input that brings only new messages keeps the ids distinct. -/
theorem step_noDuplicates {i : NodeInput} (hd : NoDuplicates n.app.nodeStore)
    (hnew : BringsNew P n i) : NoDuplicates (Node.step P n i).app.nodeStore := by
  cases i with
  | event env e => exact processEvent_noDuplicates hd hnew
  | rpc env call => exact rpc_noDuplicates hd hnew
  | connect i => exact hd
  | request i env remote req => exact handleRequest_noDuplicates hd hnew
  | restart dht => exact hd.of_noEntryAdded (restart_noEntryAdded n.app)

/-- In a run whose inputs bring only new messages, no state has two entries of one log with the
same id, and neither has the message log that the next start rebuilds. -/
theorem messages_stored_once {n : Node} {is : List NodeInput} (hd : NoDuplicates n.app.nodeStore)
    (h : Along (Node.step P) (BringsNew P) n is) {pre : List NodeInput} (hpre : pre <+: is) :
    NoDuplicates (run (Node.step P) n pre).app.nodeStore ∧
      ∀ x, ((((run (Node.step P) n pre).app.restart P).messageLog.entries x).map
        fun e => e.messageId).Nodup := by
  have hreached : NoDuplicates (run (Node.step P) n pre).app.nodeStore :=
    h.invariant_reached (I := fun n => NoDuplicates n.app.nodeStore)
      (fun _ _ hd hnew => step_noDuplicates hd hnew) hd hpre
  exact ⟨hreached, nodup_messageLog_restart P hreached⟩

end

/-! ## Evaluations -/

namespace Sample

/-- The functions for runs in which the message of the member is sent. -/
def messagePrims : Prims := prims [.newMessage message] []

def clientJoins (conn : Nat) (sk : Key) : List NodeInput :=
  [.connect conn, .request conn env addr (connectRequest messagePrims sk 77)]

def clientGossips (conn : Nat) : NodeInput :=
  .request conn env addr (.gossip (channelTopic channel.id.text) [0])

/-- The author and another client gossip the message to the node. -/
def gossipedTwice : List NodeInput :=
  clientJoins 0 20 ++ clientJoins 1 40 ++ [clientGossips 0, clientGossips 1]

theorem not_hasMessage_keyed (cpk : Key) (ch : Ulid) (id : String) :
    ¬ HasMessage keyed.nodeStore cpk ch id := by
  rintro ⟨seq, e, he, -⟩
  cases he

theorem noDuplicates_keyed : NoDuplicates (node keyed).app.nodeStore := by
  intro cpk ch a b ea eb ha
  cases ha

def reloadedIds (is : List NodeInput) : List String :=
  (((run (Node.step messagePrims) (node keyed) is).app.restart messagePrims).messageLog.entries
    channel.id.text).map fun e => e.messageId

end Sample

open Sample in
/-- The member signed the message, and two clients bring it. It is stored twice, and the log has it
twice after a restart. -/
theorem gossiped_twice :
    authorVerified messagePrims keyed.toTables community.text message = true ∧
    NoDuplicates (node keyed).app.nodeStore ∧
    ¬ NoDuplicates (run (Node.step messagePrims) (node keyed) gossipedTwice).app.nodeStore ∧
    reloadedIds gossipedTwice = [message.id.text, message.id.text] := by
  have hids : reloadedIds gossipedTwice = [message.id.text, message.id.text] := by decide +kernel
  refine ⟨by decide +kernel, noDuplicates_keyed, fun h => ?_, hids⟩
  have hnodup := nodup_messageLog_restart messagePrims h channel.id.text
  have htwice : ([message.id.text, message.id.text] : List String).Nodup := hids ▸ hnodup
  exact absurd htwice (by decide)

namespace Sample

def messageEntry : LogEntry :=
  ⟨0, message.nonce, message.ciphertext, message.id.text, message.authorId.text, 0, false⟩

/-- The message comes from two peers, and then in a history batch that has it twice. -/
def deliveries : List NodeInput :=
  [messageGossip, messageGossip,
    .event env (.channelHistoryReceived community.text channel.id.text
      [messageEntry, messageEntry])]

end Sample

open Sample in
/-- The event processor stores the message once. -/
theorem messages_stored_once_deliveries :
    (NoDuplicates (run (Node.step messagePrims) (node keyed) deliveries).app.nodeStore ∧
      ∀ x, ((((run (Node.step messagePrims) (node keyed) deliveries).app.restart
        messagePrims).messageLog.entries x).map fun e => e.messageId).Nodup) ∧
    reloadedIds deliveries = [message.id.text] := by
  have hnew : Along (Node.step messagePrims) (BringsNew messagePrims) (node keyed) deliveries := by
    refine ⟨fun _ raw cpk _ _ hm => not_hasMessage_keyed _ _ _ hm.1,
      fun _ raw cpk hraw _ hm => ?_, fun cpk ulid _ _ e he hm => ?_, trivial⟩
    · have hraw' : message = raw := NetworkEvent.newMessage.inj (Option.some.inj hraw)
      subst hraw'
      exact hm.2 (isSome_getEntry_iff.mp (by decide +kernel))
    · have he' : e = messageEntry := by simpa using he
      subst he'
      exact hm.2 (isSome_getEntry_iff.mp (by decide +kernel))
  exact ⟨messages_stored_once noDuplicates_keyed hnew (List.prefix_refl _), by decide +kernel⟩

end BitCord
