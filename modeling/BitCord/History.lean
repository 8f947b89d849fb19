import BitCord.Delivery
import BitCord.Persistence.Reload

/-!
# The channel history over a restart

A message that a node sends or accepts is appended to the log in memory and to the node store, and
a restart loads the log from the store. Edits and deletions change the log in memory only, so a
restart undoes them (`deletion_undone`, `restart_keeps_history`).
-/

namespace BitCord

open Lib Lib.Run AppState

variable {c x topic : String} {e : LogEntry} {s s' : AppState} {ulid : Ulid} {pk : Key}
  {p : ReactionParams} {reply : RpcReply} {isAdd : Bool} {raw : RawMessage} {data : Bytes}
  {ch old : ChannelManifest}

/-- What is kept of an entry: everything but its number. -/
def LogEntry.core (e : LogEntry) : String × String × Int × Nonce × Bytes × Bool :=
  (e.messageId, e.authorId, e.timestampMs, e.nonce, e.ciphertext, e.deleted)

/-- The two nodes have the same messages in every channel and the same reactions to every
message. -/
structure SameHistory (s s' : AppState) : Prop where
  entries : ∀ x, (s'.messageLog.entries x).map LogEntry.core =
    (s.messageLog.entries x).map LogEntry.core
  reactions : ∀ id, s'.messageLog.getReactions id = s.messageLog.getReactions id

variable {batch : List LogEntry}

section

variable {P : Prims} {t : Tables} {st : NodeStore}

/-! ## Log and store in step -/

/-- Only entries of the channel `home` react to the message. -/
def ReactedIn (P : Prims) (t : Tables) (log : MessageLog) (home id : String) : Prop :=
  ∀ y, y ≠ home → ∀ e ∈ log.entries y, ¬ Targets id (contentOf P t y e)

/-- The log in memory has the stored entries, and its reactions are those of the entries. -/
structure Agrees (P : Prims) (t : Tables) (st : NodeStore) (log : MessageLog) : Prop where
  entries : ∀ x, (log.entries x).map LogEntry.core = (storedEntries t st x).map LogEntry.core
  reactions : ∀ id, ∃ home, ReactedIn P t log home id ∧
    log.reactions.lookup id =
      ((log.entries home).foldl (loadEntry P t home) MessageLog.empty).reactions.lookup id

theorem contentOf_eq_of_core {e' : LogEntry} (h : e'.core = e.core) :
    contentOf P t x e' = contentOf P t x e := by
  simp only [LogEntry.core, Prod.mk.injEq] at h
  unfold contentOf
  rw [h.2.2.2.1, h.2.2.2.2.1]

/-- The reactions of loaded entries do not depend on the numbers of the entries. -/
theorem lookup_foldl_loadEntry_core {id : String} {l l' : List LogEntry}
    (h : l'.map LogEntry.core = l.map LogEntry.core) (log : MessageLog) :
    (l'.foldl (loadEntry P t x) log).reactions.lookup id =
      (l.foldl (loadEntry P t x) log).reactions.lookup id := by
  induction l generalizing l' log with
  | nil =>
    rw [List.map_eq_nil_iff.mp h]
  | cons e l ih =>
    obtain ⟨e', l'', rfl, he, hl⟩ := List.map_eq_cons_iff.mp h
    have hauthor : e'.authorId = e.authorId := by
      simp only [LogEntry.core, Prod.mk.injEq] at he
      exact he.2.1
    rw [List.foldl_cons, List.foldl_cons, ih hl]
    refine lookup_foldl_loadEntry_congr x l ?_
    show (applyReaction log (contentOf P t x e') e'.authorId).reactions.lookup id =
      (applyReaction log (contentOf P t x e) e.authorId).reactions.lookup id
    rw [contentOf_eq_of_core he, hauthor]

theorem Agrees.lookup_reload {log : MessageLog} (h : Agrees P t st log) (id : String) :
    (reload P t st).reactions.lookup id = log.reactions.lookup id := by
  obtain ⟨home, honly, hcell⟩ := h.reactions id
  have hlocal : ∀ y, y ≠ home → ∀ e ∈ storedEntries t st y,
      ¬ Targets id (contentOf P t y e) := by
    intro y hy e he
    have hmem : e.core ∈ (log.entries y).map LogEntry.core := by
      rw [h.entries]
      exact List.mem_map_of_mem he
    obtain ⟨e', he', hcore⟩ := List.mem_map.mp hmem
    rw [← contentOf_eq_of_core hcore]
    exact honly y hy e' he'
  rw [AppState.lookup_reload hlocal, hcell]
  exact lookup_foldl_loadEntry_core (h.entries home).symm _

/-- The node has a store, and a restart finds the tables and the log that the node has. -/
structure InStep (P : Prims) (s : AppState) (st : NodeStore) : Prop where
  store : s.nodeStore = some st
  tables : SameTables (loadedTables s.files st) s.toTables
  log : Agrees P s.toTables st s.messageLog

theorem InStep.sameHistory_restart (h : InStep P s st) : SameHistory s (s.restart P) := by
  have hlog : (s.restart P).messageLog = reload P s.toTables st := by
    rw [messageLog_restart h.store]
    exact (reload_congr h.tables ⟨fun _ _ _ => rfl, rfl, rfl, rfl⟩).symm
  constructor
  · intro x
    rw [hlog, entries_reload]
    exact (h.log.entries x).symm
  · intro id
    unfold MessageLog.getReactions
    rw [hlog, h.log.lookup_reload id]

/-- A node that was just started is in step, if no message has reactions from two channels. -/
theorem inStep_restart (hst : s.nodeStore = some st)
    (honly : ∀ id, ∃ home, ReactedIn P (s.restart P).toTables (s.restart P).messageLog home id) :
    InStep P (s.restart P) (mergeMembers s.files st) := by
  have htables : SameTables (loadedTables s.files (mergeMembers s.files st))
      (s.restart P).toTables := by
    have hfill := backPopulateAll_eq (mergeMembers s.files st) s.files
    unfold restart
    rw [hst]
    exact ⟨hfill.communities, hfill.channels, hfill.channelKeys, hfill.previousChannelKeys⟩
  have hlog : (s.restart P).messageLog =
      reload P (s.restart P).toTables (mergeMembers s.files st) := by
    have hmerge := mergeMembers_sameChannels s.files st
    rw [messageLog_restart hst, ← loadedTables_congr hmerge]
    exact (reload_congr htables hmerge).symm
  refine ⟨by unfold restart; rw [hst]; rfl, htables, ?_, ?_⟩
  · intro x
    rw [hlog, entries_reload]
  · intro id
    obtain ⟨home, hhome⟩ := honly id
    refine ⟨home, hhome, ?_⟩
    have hlocal : ∀ y, y ≠ home →
        ∀ e ∈ storedEntries (s.restart P).toTables (mergeMembers s.files st) y,
          ¬ Targets id (contentOf P (s.restart P).toTables y e) := by
      intro y hy e he
      rw [← entries_reload (P := P), ← hlog] at he
      exact hhome y hy e he
    rw [hlog, entries_reload]
    exact lookup_reload hlocal

/-! ## Recording a message -/

/-- The number of the next entry of a channel, before it is cut to 64 bits. -/
def nextNat (st : NodeStore) (pk : Key) (ulid : Ulid) : Nat :=
  match st.lastSeq pk ulid with
  | some last => last.toNat + 1
  | none => 0

/-- A restart finds what is stored for the channel, under this text only, and there is room for
`n` more entries. -/
structure Rooted (t : Tables) (st : NodeStore) (x : String) (ulid : Ulid) (pk : Key) (n : Nat) :
    Prop where
  parsed : parseUlid x = some ulid
  home : homePk t x = some pk
  sole : ∀ y ∈ t.channels, parseUlid y = some ulid → y = x
  readable : ∃ l, st.getMessages pk ulid 0 = .ok l
  room : nextNat st pk ulid + n ≤ 2 ^ 64

namespace Rooted

variable {x : String} {ulid : Ulid} {pk : Key} {n : Nat}

theorem lastSeq_ne (h : Rooted t st x ulid pk (n + 1)) : st.lastSeq pk ulid ≠ some maxSeq := by
  intro hlast
  have hroom := h.room
  have hmax : maxSeq.toNat = 2 ^ 64 - 1 := rfl
  rw [nextNat, hlast] at hroom
  dsimp only at hroom
  omega

theorem of_succ (h : Rooted t st x ulid pk (n + 1)) : Rooted t st x ulid pk n :=
  ⟨h.parsed, h.home, h.sole, h.readable, (Nat.le_succ _).trans h.room⟩

/-- The entries that a restart loads after the append. -/
theorem storedEntries_append (h : Rooted t st x ulid pk (n + 1)) (nonce : Nonce) (ct : Bytes)
    (mid author : String) (ts : Int) (y : String) :
    storedEntries t (st.appendMessage pk ulid nonce ct mid author ts) y =
      if y = x then
        storedEntries t st x ++ [⟨st.nextSeq pk ulid, nonce, ct, mid, author, ts, false⟩]
      else storedEntries t st y := by
  split
  · next hy =>
    subst hy
    obtain ⟨l, hl⟩ := h.readable
    unfold storedEntries
    rw [h.parsed, h.home]
    dsimp only
    rw [NodeStore.getMessages_appendMessage_self hl h.lastSeq_ne, hl]
  · next hy =>
    unfold storedEntries
    cases hulid : parseUlid y with
    | none => rfl
    | some ulid' =>
      cases hpk : homePk t y with
      | none => rfl
      | some pk' =>
        have hmem : y ∈ t.channels := by
          obtain ⟨ch, hch, -⟩ := Option.bind_eq_some_iff.mp hpk
          exact AList.lookup_isSome.mp (by rw [hch]; rfl)
        have hne : ¬ (pk = pk' ∧ ulid = ulid') := by
          rintro ⟨-, rfl⟩
          exact hy (h.sole y hmem hulid)
        dsimp only
        rw [NodeStore.getMessages_appendMessage_of_ne st nonce ct mid author ts 0 hne]

theorem append (h : Rooted t st x ulid pk (n + 1)) (nonce : Nonce) (ct : Bytes)
    (mid author : String) (ts : Int) :
    Rooted t (st.appendMessage pk ulid nonce ct mid author ts) x ulid pk n where
  parsed := h.parsed
  home := h.home
  sole := h.sole
  readable := by
    obtain ⟨l, hl⟩ := h.readable
    exact ⟨_, NodeStore.getMessages_appendMessage_self hl h.lastSeq_ne nonce ct mid author ts⟩
  room := by
    have hroom := h.room
    have hlt := (st.nextSeq pk ulid).toNat_lt
    have hle : (st.nextSeq pk ulid).toNat ≤ nextNat st pk ulid := by
      unfold NodeStore.nextSeq nextNat
      cases st.lastSeq pk ulid with
      | none => exact le_refl _
      | some last =>
        dsimp only
        rw [UInt64.toNat_add, UInt64.toNat_one]
        exact Nat.mod_le _ _
    unfold nextNat
    rw [lastSeq_appendMessage_self nonce ct mid author ts h.lastSeq_ne]
    dsimp only
    omega

end Rooted

/-- A new entry is appended to the log and to the store, and the log applies its content. -/
theorem Agrees.record {log log' : MessageLog} {n : Nat}
    (h : Agrees P t st log) (hroot : Rooted t st x ulid pk (n + 1))
    (hkept : e.deleted = false)
    (hentries : ∀ y, log'.entries y = if y = x then log.entries x ++ [e] else log.entries y)
    (hreact : ∀ id, log'.reactions.lookup id =
      (applyReaction log (contentOf P t x e) e.authorId).reactions.lookup id)
    (hlocal : ∀ id, Targets id (contentOf P t x e) → ReactedIn P t log x id) :
    Agrees P t (st.appendMessage pk ulid e.nonce e.ciphertext e.messageId e.authorId e.timestampMs)
      log' := by
  constructor
  · intro y
    rw [hentries, hroot.storedEntries_append]
    split
    · rw [List.map_append, List.map_append, h.entries x]
      simp [LogEntry.core, hkept]
    · exact h.entries y
  · intro id
    obtain ⟨home, honly, hcell⟩ := h.reactions id
    by_cases htargets : Targets id (contentOf P t x e)
    · -- the channel of the entry is then the only one with reactions to the message
      have hx := hlocal id htargets
      refine ⟨x, fun y hy e' he' => ?_, ?_⟩
      · rw [hentries, if_neg hy] at he'
        exact hx y hy e' he'
      · have hbefore : log.reactions.lookup id =
            ((log.entries x).foldl (loadEntry P t x) MessageLog.empty).reactions.lookup id := by
          by_cases hhome : x = home
          · rw [hhome]
            exact hcell
          · rw [hcell, lookup_foldl_loadEntry_of_local (hx home (Ne.symm hhome)),
              lookup_foldl_loadEntry_of_local (honly x hhome)]
        rw [hreact, hentries, if_pos rfl, List.foldl_append]
        exact lookup_applyReaction_congr hbefore _ _
    · refine ⟨home, fun y hy e' he' => ?_, ?_⟩
      · rw [hentries] at he'
        split at he'
        · next hyx =>
          subst hyx
          rcases List.mem_append.mp he' with hold | hnew
          · exact honly y hy e' hold
          · rw [List.mem_singleton.mp hnew]
            exact htargets
        · exact honly y hy e' he'
      · rw [hreact, lookup_applyReaction_of_not_targets htargets, hcell, hentries]
        split
        · next hhome =>
          rw [← hhome, List.foldl_append]
          exact (lookup_applyReaction_of_not_targets (hhome ▸ htargets) _ _).symm
        · rfl

/-- The step appends the entry to its channel, in the log and in the store of the community `c`,
and changes nothing else that a restart loads. -/
structure Records (P : Prims) (s s' : AppState) (c x : String) (ulid : Ulid) (e : LogEntry) :
    Prop where
  tables : s'.toTables = s.toTables
  files : s'.files = s.files
  kept : e.deleted = false
  entries : ∀ y, s'.messageLog.entries y =
    if y = x then s.messageLog.entries x ++ [e] else s.messageLog.entries y
  reactions : ∀ id, s'.messageLog.reactions.lookup id =
    (applyReaction s.messageLog (contentOf P s.toTables x e) e.authorId).reactions.lookup id
  store : ∀ pk, communityPk? s.toTables c = some pk →
    s'.nodeStore = s.nodeStore.map fun st =>
      st.appendMessage pk ulid e.nonce e.ciphertext e.messageId e.authorId e.timestampMs

/-- The call names the community under whose key a restart looks for the channel. -/
def Stores (s : AppState) (c x : String) (n : Nat) : Prop :=
  ∃ st ulid pk, s.nodeStore = some st ∧ communityPk? s.toTables c = some pk ∧
    Rooted s.toTables st x ulid pk n

theorem InStep.record
    (h : InStep P s st) (hrec : Records P s s' c x ulid e) (hulid : parseUlid x = some ulid)
    (hstores : Stores s c x 1)
    (hlocal : ∀ id, Targets id (contentOf P s.toTables x e) →
      ReactedIn P s.toTables s.messageLog x id) :
    ∃ st', InStep P s' st' := by
  obtain ⟨st₀, ulid', pk, hst₀, hpk, hroot⟩ := hstores
  obtain rfl : st = st₀ := Option.some.inj (h.store.symm.trans hst₀)
  obtain rfl : ulid = ulid' := Option.some.inj (hulid.symm.trans hroot.parsed)
  refine ⟨st.appendMessage pk ulid e.nonce e.ciphertext e.messageId e.authorId e.timestampMs,
    ?_, ?_, ?_⟩
  · rw [hrec.store pk hpk, h.store, Option.map_some]
  · rw [hrec.files, hrec.tables]
    exact h.tables
  · rw [hrec.tables]
    exact h.log.record hroot hrec.kept hrec.entries hrec.reactions hlocal

/-! ## The node's own messages -/

/-- The content is decoded from its own encoding. -/
def Codes (P : Prims) (content : MessageContent) : Prop :=
  P.decodeContent (P.encodeContent content) = some content

/-- A restart reads from the entry of an own message what was sent. -/
theorem contentOf_ownMessage (hP : P.Lawful) (env : Env) (ulid : Ulid) (seq : UInt64)
    {key : Key} {content : MessageContent}
    (hkey : s.channelKeys.lookup x = some key) (hcodes : Codes P content) :
    contentOf P s.toTables x (entryOf (s.ownMessage P env ulid key content) seq) =
      some content := by
  unfold contentOf entryOf ownMessage RawMessage.create
  dsimp only
  rw [hkey, decryptEither_seal hP (.inl rfl) (fun h => absurd rfl h), Option.bind_some]
  exact hcodes

theorem not_targets_sentContent (id : String) (p : SendMessageParams) :
    ¬ Targets id (some (sentContent p)) := by
  rintro ⟨emoji, isAdd, h⟩
  cases h

variable {env : Env}

theorem messageSend_records (hP : P.Lawful) {p : SendMessageParams}
    (hok : (s.messageSend P env p).2 = .ok reply) (hcodes : Codes P (sentContent p)) :
    ∃ ulid e, parseUlid p.channelId = some ulid ∧
      contentOf P s.toTables p.channelId e = some (sentContent p) ∧
      Records P s (s.messageSend P env p).1 p.communityId p.channelId ulid e := by
  obtain ⟨key, ulid, hkey, hulid, hsend⟩ := messageSend_ok hok
  have hcontent := contentOf_ownMessage hP env ulid
    (UInt64.ofNat (s.messageLog.entries p.channelId).length) hkey hcodes
  refine ⟨ulid, _, hulid, hcontent, ?_⟩
  rw [hsend]
  refine ⟨rfl, rfl, rfl, fun y => ?_, fun id => ?_, fun pk hpk => ?_⟩
  · exact MessageLog.entries_append _ _ _ _ _ _ _ _
  · rw [hcontent, lookup_applyReaction_of_not_targets (not_targets_sentContent id p)]
    rfl
  · show storeMessage s p.communityId _ = _
    unfold storeMessage
    rw [hpk]
    rfl

/-- The entry of a reaction of this node. -/
theorem reaction_ok (hok : (s.reaction P isAdd env p).2 = .ok reply) :
    ∃ key ulid, s.channelKeys.lookup p.channelId = some key ∧
      parseUlid p.channelId = some ulid ∧
      let raw := s.ownMessage P env ulid key (.reaction p.messageId p.emoji isAdd)
      ∃ commands pushes, (s.reaction P isAdd env p).1 =
        { s with
          messageLog := applyReaction (logOwn s.messageLog p.channelId raw)
            (some (.reaction p.messageId p.emoji isAdd)) (s.peerId P)
          nodeStore := storeMessage s p.communityId raw
          commands, pushes } := by
  unfold reaction at hok ⊢
  split at hok
  · cases hok
  · cases hok
  · cases hok
  · cases hok
  · next key entry ulid hseed hkey hentry hulid =>
    exact ⟨key, ulid, hkey, hulid, _, _, rfl⟩

theorem reaction_records (hP : P.Lawful) (hok : (s.reaction P isAdd env p).2 = .ok reply)
    (hcodes : Codes P (.reaction p.messageId p.emoji isAdd)) :
    ∃ ulid e, parseUlid p.channelId = some ulid ∧
      contentOf P s.toTables p.channelId e = some (.reaction p.messageId p.emoji isAdd) ∧
      Records P s (s.reaction P isAdd env p).1 p.communityId p.channelId ulid e := by
  obtain ⟨key, ulid, hkey, hulid, commands, pushes, hstate⟩ := reaction_ok hok
  have hcontent := contentOf_ownMessage hP env ulid
    (UInt64.ofNat (s.messageLog.entries p.channelId).length) hkey hcodes
  refine ⟨ulid, _, hulid, hcontent, ?_⟩
  rw [hstate]
  refine ⟨rfl, rfl, rfl, fun y => ?_, fun id => ?_, fun pk hpk => ?_⟩
  · rw [entries_applyReaction]
    exact MessageLog.entries_append _ _ _ _ _ _ _ _
  · have hlog : (logOwn s.messageLog p.channelId (s.ownMessage P env ulid key
        (.reaction p.messageId p.emoji isAdd))).reactions.lookup id =
          s.messageLog.reactions.lookup id := rfl
    rw [hcontent]
    exact lookup_applyReaction_congr hlog _ _
  · show storeMessage s p.communityId _ = _
    unfold storeMessage
    rw [hpk]
    rfl

/-! ## Messages of others -/

/-- An accepted message is recorded; any other changes neither log, store nor tables. -/
theorem acceptMessage_records {plaintext : Bytes}
    (hopen : decryptEither P (s.channelKeys.lookup raw.channelId.text)
      (s.previousChannelKeys.lookup raw.channelId.text) raw.nonce raw.ciphertext =
        some plaintext) :
    s.acceptMessage P c raw plaintext = s ∨
      ∃ e, contentOf P s.toTables raw.channelId.text e = P.decodeContent plaintext ∧
        Records P s (s.acceptMessage P c raw plaintext) c raw.channelId.text raw.channelId.ulid
          e := by
  rcases acceptMessage_cases (P := P) s c raw plaintext with h | ⟨-, -, pushes, h⟩
  · exact .inl h
  · rw [h]
    refine .inr ⟨entryOf raw
      (UInt64.ofNat (s.messageLog.entries raw.channelId.text).length), ?_, ?_⟩
    · unfold contentOf entryOf
      dsimp only
      rw [hopen, Option.bind_some]
    · refine ⟨rfl, rfl, rfl, fun y => ?_, fun id => ?_, fun pk hpk => ?_⟩
      · show (logMessage s.messageLog raw (P.decodeContent plaintext)).entries y = _
        unfold logMessage
        rw [MessageLog.entries_append, entries_applyReaction, entries_applyReaction]
        rfl
      · unfold contentOf entryOf
        dsimp only
        rw [hopen, Option.bind_some]
        rfl
      · show storeMessage s c raw = _
        unfold storeMessage
        rw [hpk]
        rfl

theorem handleNewMessage_inStep {replaying : Bool}
    (h : InStep P s st)
    (hdurable : ∀ ch, s.channels.lookup raw.channelId.text = some ch →
      Stores s ch.communityId.text raw.channelId.text 1 ∧
      ∀ id, Targets id (contentOf P s.toTables raw.channelId.text (entryOf raw 0)) →
        ReactedIn P s.toTables s.messageLog raw.channelId.text id) :
    ∃ st', InStep P (s.handleNewMessage P replaying topic data raw) st' := by
  rcases handleNewMessage_cases (P := P) replaying s topic data raw with
    hsame | ⟨ch, key, plaintext, hch, hkey, hopen, haccept⟩ | hbuffer
  · rw [hsame]
    exact ⟨st, h⟩
  · obtain ⟨hstores, hlocal⟩ := hdurable ch hch
    rw [← hkey] at hopen
    rw [haccept]
    rcases acceptMessage_records (c := ch.communityId.text) hopen with hsame | ⟨e, he, hrec⟩
    · exact ⟨st, by rw [hsame]; exact h⟩
    · refine h.record hrec (parseUlid_ulidText raw.channelId.ulid) hstores fun id hid =>
        hlocal id ?_
      rw [he] at hid
      have hcontent : contentOf P s.toTables raw.channelId.text (entryOf raw 0) =
          P.decodeContent plaintext := by
        unfold contentOf entryOf
        dsimp only
        rw [hopen, Option.bind_some]
      rw [hcontent]
      exact hid
  · rw [hbuffer]
    unfold bufferMessage
    split <;> exact ⟨st, h.store, h.tables, h.log⟩

/-! ## Edits and deletions -/

theorem authorRefusal_of_not_author {mid : String}
    (h : isAuthor s.messageLog x mid (s.peerId P) = false) (msg : String) :
    ∃ e, s.authorRefusal P x mid msg = some e := by
  unfold isAuthor at h
  unfold authorRefusal
  cases hentry : s.messageLog.getEntry x mid with
  | none => exact ⟨_, rfl⟩
  | some e =>
    rw [hentry] at h
    dsimp only
    rw [if_neg (of_decide_eq_false h)]
    exact ⟨_, rfl⟩

theorem messageEdit_of_not_author {p : EditMessageParams}
    (h : isAuthor s.messageLog p.channelId p.messageId (s.peerId P) = false) :
    (s.messageEdit P env p).1 = s := by
  obtain ⟨e, he⟩ := authorRefusal_of_not_author h "only the author can edit a message"
  unfold messageEdit
  split
  · rfl
  · split
    · rfl
    · rfl
    · rfl
    · next hrefusal =>
      rw [he] at hrefusal
      cases hrefusal

theorem messageDelete_of_not_author {p : DeleteMessageParams}
    (h : isAuthor s.messageLog p.channelId p.messageId (s.peerId P) = false) :
    (s.messageDelete P env p).1 = s := by
  obtain ⟨e, he⟩ := authorRefusal_of_not_author h "only the author can delete a message"
  unfold messageDelete
  split
  · rfl
  · next hrefusal =>
    rw [he] at hrefusal
    cases hseed : s.seedRefusal p.communityId with
    | none =>
      rw [hseed] at hrefusal
      cases hrefusal
    | some err =>
      rw [hseed] at hrefusal
      cases hrefusal

theorem handleEditMessage_of_not_author {payload : EditMessagePayload}
    (h : isAuthor s.messageLog payload.channelId.text payload.messageId.text
      payload.authorId.text = false) :
    s.handleEditMessage P payload = s := by
  unfold handleEditMessage
  dsimp only
  rw [h]
  rfl

theorem handleDeleteMessage_of_not_author {payload : DeleteMessagePayload}
    (h : isAuthor s.messageLog payload.channelId.text payload.messageId.text
      payload.authorId.text = false) :
    s.handleDeleteMessage payload = s := by
  unfold handleDeleteMessage
  dsimp only
  rw [h]
  rfl

/-! ## Key rotation -/

theorem storeChannel_eq (st : NodeStore) (ch : ChannelManifest) (pk : Key) :
    storeChannel st pk ch = st ∨ ∃ m, st.meta? pk = some m ∧
      storeChannel st pk ch =
        st.setCommunityMeta pk { m with channels := putChannel m.channels ch } := by
  unfold storeChannel
  cases st.meta? pk with
  | none => exact .inl rfl
  | some m => exact .inr ⟨m, rfl, rfl⟩

theorem getMessages_storeChannel (ch : ChannelManifest) (pk cpk : Key) (ulid : Ulid)
    (since : UInt64) :
    (storeChannel st pk ch).getMessages cpk ulid since = st.getMessages cpk ulid since := by
  rcases storeChannel_eq st ch pk with heq | ⟨m, -, heq⟩
  · rw [heq]
  · rw [heq]
    rfl

/-- A stored channel is a new one for the channel table of the metadata only. -/
theorem metaEntries_storeChannel {α : Type}
    {f : SignedManifest → CommunityMeta → List (String × α)} (ch : ChannelManifest) (pk : Key)
    (hf : ∀ signed m channels, f signed { m with channels } = f signed m) :
    (storeChannel st pk ch).metaEntries f = st.metaEntries f := by
  rcases storeChannel_eq st ch pk with heq | ⟨m, hm, heq⟩
  · rw [heq]
  · rw [heq]
    refine NodeStore.metaEntries_setCommunityMeta hm ?_
    unfold NodeStore.provided
    dsimp only
    split
    · next signed hsigned => exact hf signed m _
    · rfl

theorem mem_metaEntries_storeChannel
    (h : x ∈ ((storeChannel st pk ch).metaEntries channelEntries).map Prod.fst) :
    x = ch.id.text ∨ x ∈ (st.metaEntries channelEntries).map Prod.fst := by
  rcases storeChannel_eq st ch pk with heq | ⟨m, hm, heq⟩
  · rw [heq] at h
    exact .inr h
  · rw [heq] at h
    obtain ⟨entry, hentry, rfl⟩ := List.mem_map.mp h
    obtain ⟨cpk, hcpk, m', hm', hprovided⟩ := NodeStore.mem_metaEntries.mp hentry
    rw [NodeStore.allCommunities_setCommunityMeta hm] at hcpk
    rw [NodeStore.meta?_setCommunityMeta] at hm'
    split at hm'
    · next hsame =>
      obtain rfl := Option.some.inj hm'
      unfold NodeStore.provided at hprovided
      dsimp only at hprovided
      cases hsigned : m.manifest with
      | none =>
        rw [hsigned] at hprovided
        cases hprovided
      | some signed =>
        rw [hsigned] at hprovided
        obtain ⟨c, hc, rfl⟩ := List.mem_map.mp hprovided
        rcases mem_putChannel hc with rfl | hold
        · exact .inl rfl
        · refine .inr (List.mem_map_of_mem (NodeStore.mem_metaEntries.mpr
            ⟨pk, hsame ▸ hcpk, m, hm, ?_⟩))
          unfold NodeStore.provided
          rw [hsigned]
          exact List.mem_map_of_mem hold
    · exact .inr (List.mem_map_of_mem (NodeStore.mem_metaEntries.mpr
        ⟨cpk, hcpk, m', hm', hprovided⟩))

/-- A channel that stays in its community is still found under the key of that community. -/
theorem homePk_insert (hold : t.channels.lookup ch.id.text = some old)
    (hcommunity : old.communityId = ch.communityId) (x : String) :
    homePk { t with channels := t.channels.insert ch.id.text ch } x = homePk t x := by
  unfold homePk
  dsimp only
  rw [Dict.lookup_insert_eq]
  split
  · next hx =>
    rw [hx, hold, Option.bind_some, Option.bind_some, hcommunity]
    rfl
  · rfl

/-- A rotation that leaves the channel in its community leaves the history where it is. -/
theorem InStep.rotate (h : InStep P s st) (hold : s.channels.lookup ch.id.text = some old)
    (hcommunity : old.communityId = ch.communityId)
    (htables : s'.toTables = { s.toTables with channels := s.channels.insert ch.id.text ch })
    (hfiles : s'.files = { s.files with channels := s.channels.insert ch.id.text ch })
    (hstore : s'.nodeStore = s.nodeStore.map fun st => storeChannel st pk ch)
    (hlog : s'.messageLog = s.messageLog) :
    InStep P s' (storeChannel st pk ch) where
  store := by rw [hstore, h.store, Option.map_some]
  tables := by
    rw [htables, hfiles]
    refine ⟨?_, ?_, ?_, h.tables.previousChannelKeys⟩
    · show s.communities = s.files.communities.orInsertAll _
      rw [metaEntries_storeChannel ch pk fun _ _ _ => rfl]
      exact h.tables.communities
    · refine (Dict.orInsertAll_of_forall_mem fun x hx => ?_).symm
      rw [AList.mem_insert]
      rcases mem_metaEntries_storeChannel hx with hnew | hmem
      · exact .inl hnew
      · -- the file had it or was filled with it, and the table is the filled file
        refine .inr ?_
        rw [h.tables.channels]
        exact Dict.mem_orInsertAll.mpr (.inl hmem)
    · show s.channelKeys = s.files.channelKeys.orInsertAll _
      rw [metaEntries_storeChannel ch pk fun _ _ _ => rfl]
      exact h.tables.channelKeys
  log := by
    have hstored : ∀ x, storedEntries s'.toTables (storeChannel st pk ch) x =
        storedEntries s.toTables st x := by
      intro x
      unfold storedEntries
      rw [htables]
      simp only [homePk_insert hold hcommunity, getMessages_storeChannel]
    rw [hlog]
    refine ⟨fun x => (h.log.entries x).trans (by rw [hstored]), ?_⟩
    rw [htables]
    exact h.log.reactions

theorem handleChannelKeyRotation_inStep {payload : ChannelKeyRotationPayload}
    (h : InStep P s st)
    (hcommunity : ∀ old, s.channels.lookup payload.newManifest.id.text = some old →
      old.communityId = payload.newManifest.communityId) :
    ∃ st', InStep P (s.handleChannelKeyRotation P false payload) st' := by
  unfold handleChannelKeyRotation
  dsimp only
  split
  · exact ⟨st, h⟩
  · split
    · exact ⟨st, h⟩
    · split
      · exact ⟨st, h⟩
      · next hnewer =>
        cases hold : s.channels.lookup payload.newManifest.id.text with
        | none =>
          unfold isNewerChannel at hnewer
          rw [hold] at hnewer
          exact absurd rfl hnewer
        | some old =>
          exact ⟨_, h.rotate hold (hcommunity old hold) rfl rfl rfl rfl⟩

/-! ## History batches -/

/-- An entry of a batch that a restart reads as it is integrated: it is not deleted, and if it is a
reaction then the current key opens it and no other channel has reactions to the message. -/
structure Loadable (P : Prims) (s : AppState) (x : String) (e : LogEntry) : Prop where
  kept : e.deleted = false
  opened : ∀ id, Targets id (contentOf P s.toTables x e) →
    ((s.channelKeys.lookup x).bind fun k => P.aeadOpen k e.nonce e.ciphertext).isSome
  only : ∀ id, Targets id (contentOf P s.toTables x e) →
    ReactedIn P s.toTables s.messageLog x id

/-- The current key alone gives the same reactions. -/
theorem Loadable.lookup_applyReaction (h : Loadable P s x e) (log : MessageLog) (id : String) :
    (applyReaction log (((s.channelKeys.lookup x).bind fun k =>
        P.aeadOpen k e.nonce e.ciphertext).bind P.decodeContent) e.authorId).reactions.lookup id =
      (applyReaction log (contentOf P s.toTables x e) e.authorId).reactions.lookup id := by
  cases hopen : (s.channelKeys.lookup x).bind fun k => P.aeadOpen k e.nonce e.ciphertext with
  | some plain =>
    unfold contentOf decryptEither
    rw [hopen, Option.some_or]
  | none =>
    have hnot : ¬ Targets id (contentOf P s.toTables x e) := by
      intro htargets
      have hsome := h.opened id htargets
      rw [hopen] at hsome
      cases hsome
    rw [lookup_applyReaction_of_not_targets hnot]
    rfl

/-- What a batch keeps: the log and the store stay in step, and the tables are still found. -/
theorem foldl_integrateEntry_agrees {log : MessageLog} (hbatch : ∀ e ∈ batch, Loadable P s x e)
    (hothers : ∀ y, y ≠ x → log.entries y = s.messageLog.entries y)
    (hlog : Agrees P s.toTables st log) (hroot : Rooted s.toTables st x ulid pk batch.length) :
    ∃ st' log', batch.foldl (integrateEntry P (s.channelKeys.lookup x) (some pk) x ulid)
        (log, some st) = (log', some st') ∧ Agrees P s.toTables st' log' ∧
      ∀ files, loadedTables files st' = loadedTables files st := by
  induction batch generalizing log st with
  | nil => exact ⟨st, log, rfl, hlog, fun _ => rfl⟩
  | cons e batch ih =>
    have hlater : ∀ e' ∈ batch, Loadable P s x e' :=
      fun e' he' => hbatch e' (List.mem_cons_of_mem e he')
    have hload := hbatch e List.mem_cons_self
    rw [List.foldl_cons]
    by_cases hknown : (log.getEntry x e.messageId).isSome
    · rw [integrateEntry, if_pos hknown]
      exact ih hlater hothers hlog hroot.of_succ
    · generalize hplain : (s.channelKeys.lookup x).bind
        (fun k => P.aeadOpen k e.nonce e.ciphertext) = plain
      have hstep : integrateEntry P (s.channelKeys.lookup x) (some pk) x ulid (log, some st) e =
          ((applyReaction log (plain.bind P.decodeContent) e.authorId).appendEntry x e,
            some (st.appendMessage pk ulid e.nonce e.ciphertext e.messageId e.authorId
              e.timestampMs)) := by
        rw [integrateEntry, if_neg hknown, hplain]
        rfl
      generalize hlog₁ :
        (applyReaction log (plain.bind P.decodeContent) e.authorId).appendEntry x e = log₁ at hstep
      have hentries : ∀ y, log₁.entries y =
          if y = x then log.entries x ++ [e] else log.entries y := by
        intro y
        rw [← hlog₁, MessageLog.entries_appendEntry, entries_applyReaction, entries_applyReaction]
      have hreact : ∀ id, log₁.reactions.lookup id =
          (applyReaction log (contentOf P s.toTables x e) e.authorId).reactions.lookup id := by
        intro id
        rw [← hload.lookup_applyReaction log id, ← hlog₁, hplain]
        rfl
      have hagrees₁ := hlog.record hroot hload.kept hentries hreact fun id hid y hy e' he' =>
        hload.only id hid y hy e' (hothers y hy ▸ he')
      have hothers₁ : ∀ y, y ≠ x → log₁.entries y = s.messageLog.entries y := by
        intro y hy
        rw [hentries, if_neg hy]
        exact hothers y hy
      obtain ⟨st', log', hfold, hagrees, htables⟩ := ih hlater hothers₁ hagrees₁
        (hroot.append e.nonce e.ciphertext e.messageId e.authorId e.timestampMs)
      rw [hstep]
      exact ⟨st', log', hfold, hagrees, htables⟩

theorem handleChannelHistoryReceived_inStep (h : InStep P s st)
    (hbatch : ∀ e ∈ batch, Stores s c x batch.length ∧ Loadable P s x e) :
    ∃ st', InStep P (s.handleChannelHistoryReceived P c x batch) st' := by
  cases batch with
  | nil =>
    refine ⟨st, ?_⟩
    have hnothing : s.integrateHistory P c x [] = (s.messageLog, s.nodeStore) := by
      unfold integrateHistory
      cases parseUlid x <;> rfl
    unfold handleChannelHistoryReceived
    rw [hnothing]
    exact ⟨h.store, h.tables, h.log⟩
  | cons e batch =>
    obtain ⟨st₀, ulid, pk, hst₀, hpk, hroot⟩ := (hbatch e List.mem_cons_self).1
    obtain rfl : st = st₀ := Option.some.inj (h.store.symm.trans hst₀)
    obtain ⟨st', log', hfold, hagrees, htables⟩ := foldl_integrateEntry_agrees
      (fun e' he' => (hbatch e' he').2) (fun _ _ => rfl) h.log hroot
    have hintegrate : s.integrateHistory P c x (e :: batch) = (log', some st') := by
      unfold integrateHistory
      rw [hroot.parsed]
      dsimp only
      rw [hpk, h.store]
      exact hfold
    refine ⟨st', ?_⟩
    unfold handleChannelHistoryReceived
    rw [hintegrate]
    exact ⟨rfl, (htables s.files).symm ▸ h.tables, hagrees⟩

end

/-! ## Runs -/

/-- The inputs that change the history of channels. -/
inductive HistoryInput where
  | send (p : SendMessageParams)
  | edit (p : EditMessageParams)
  | delete (p : DeleteMessageParams)
  | react (isAdd : Bool) (p : ReactionParams)
  | gossip (topic : String) (data : Bytes)
  | history (communityId channelId : String) (entries : List LogEntry)

section

variable (P : Prims)

def historyStep (s : AppState) (i : Env × HistoryInput) : AppState :=
  match i.2 with
  | .send p => (s.messageSend P i.1 p).1
  | .edit p => (s.messageEdit P i.1 p).1
  | .delete p => (s.messageDelete P i.1 p).1
  | .react true p => (s.reactionAdd P i.1 p).1
  | .react false p => (s.reactionRemove P i.1 p).1
  | .gossip topic data => s.handleChannelMessage P false topic data
  | .history c x entries => s.handleChannelHistoryReceived P c x entries

/-- The event on a channel topic leaves nothing in the log that is not in the store: a message goes
to a channel that a restart finds, no entry is edited or deleted, and a rotation does not move the
channel to another community. -/
def DurableEvent (s : AppState) : Option NetworkEvent → Prop
  | some (.newMessage raw) => ∀ ch, s.channels.lookup raw.channelId.text = some ch →
    Stores s ch.communityId.text raw.channelId.text 1 ∧
    ∀ id, Targets id (contentOf P s.toTables raw.channelId.text (entryOf raw 0)) →
      ReactedIn P s.toTables s.messageLog raw.channelId.text id
  | some (.editMessage payload) => isAuthor s.messageLog payload.channelId.text
    payload.messageId.text payload.authorId.text = false
  | some (.deleteMessage payload) => isAuthor s.messageLog payload.channelId.text
    payload.messageId.text payload.authorId.text = false
  | some (.channelKeyRotation payload) => ∀ old,
    s.channels.lookup payload.newManifest.id.text = some old →
      old.communityId = payload.newManifest.communityId
  | _ => True

/-- The input leaves nothing in the log that is not in the store. -/
def Durable (s : AppState) (i : Env × HistoryInput) : Prop :=
  match i.2 with
  | .send p => ∀ reply, (s.messageSend P i.1 p).2 = .ok reply →
    Stores s p.communityId p.channelId 1 ∧ Codes P (sentContent p)
  | .edit p => isAuthor s.messageLog p.channelId p.messageId (s.peerId P) = false
  | .delete p => isAuthor s.messageLog p.channelId p.messageId (s.peerId P) = false
  | .react isAdd p => ∀ reply, (s.reaction P isAdd i.1 p).2 = .ok reply →
    Stores s p.communityId p.channelId 1 ∧ Codes P (.reaction p.messageId p.emoji isAdd) ∧
    ReactedIn P s.toTables s.messageLog p.channelId p.messageId
  | .gossip _ data => DurableEvent P s (P.decodeEvent data)
  | .history c x entries => ∀ e ∈ entries, Stores s c x entries.length ∧ Loadable P s x e

end

section

variable {P : Prims} {st : NodeStore}

theorem handleChannelMessage_inStep
    (h : InStep P s st) (hdurable : DurableEvent P s (P.decodeEvent data)) :
    ∃ st', InStep P (s.handleChannelMessage P false topic data) st' := by
  unfold handleChannelMessage
  split
  · next raw hraw =>
    rw [hraw] at hdurable
    exact handleNewMessage_inStep h hdurable
  · next payload hpayload =>
    rw [hpayload] at hdurable
    exact handleChannelKeyRotation_inStep h hdurable
  · next payload hpayload =>
    rw [hpayload] at hdurable
    rw [handleEditMessage_of_not_author hdurable]
    exact ⟨st, h⟩
  · next payload hpayload =>
    rw [hpayload] at hdurable
    rw [handleDeleteMessage_of_not_author hdurable]
    exact ⟨st, h⟩
  · exact ⟨st, h⟩

/-- A call that fails changes nothing. -/
theorem messageSend_error {env : Env} {p : SendMessageParams} {err : RpcError}
    (herr : (s.messageSend P env p).2 = .error err) : (s.messageSend P env p).1 = s := by
  unfold messageSend at herr ⊢
  split
  · rfl
  · next hbody =>
    rw [if_neg hbody] at herr
    split
    · rfl
    · rfl
    · rfl
    · next hrefusal hkey hulid =>
      rw [hrefusal, hkey, hulid] at herr
      cases herr

theorem reaction_error {env : Env} {err : RpcError}
    (herr : (s.reaction P isAdd env p).2 = .error err) : (s.reaction P isAdd env p).1 = s := by
  unfold reaction at herr ⊢
  split
  · rfl
  · rfl
  · rfl
  · rfl
  · next hseed hkey hentry hulid =>
    rw [hseed, hkey, hentry, hulid] at herr
    cases herr

theorem reaction_inStep (hP : P.Lawful) {env : Env}
    (h : InStep P s st)
    (hdurable : ∀ reply, (s.reaction P isAdd env p).2 = .ok reply →
      Stores s p.communityId p.channelId 1 ∧ Codes P (.reaction p.messageId p.emoji isAdd) ∧
      ReactedIn P s.toTables s.messageLog p.channelId p.messageId) :
    ∃ st', InStep P (s.reaction P isAdd env p).1 st' := by
  cases hresult : (s.reaction P isAdd env p).2 with
  | error err => exact ⟨st, by rw [reaction_error hresult]; exact h⟩
  | ok reply =>
    obtain ⟨hstores, hcodes, honly⟩ := hdurable reply hresult
    obtain ⟨ulid, e, hulid, hcontent, hrec⟩ := reaction_records hP hresult hcodes
    refine h.record hrec hulid hstores fun id hid => ?_
    rw [hcontent] at hid
    obtain ⟨emoji, isAdd', heq⟩ := hid
    cases heq
    exact honly

/-- A durable step keeps the log and the store together. -/
theorem historyStep_inStep (hP : P.Lawful) {i : Env × HistoryInput}
    (h : InStep P s st) (hdurable : Durable P s i) : ∃ st', InStep P (historyStep P s i) st' := by
  obtain ⟨env, input⟩ := i
  cases input with
  | send p =>
    show ∃ st', InStep P (s.messageSend P env p).1 st'
    cases hresult : (s.messageSend P env p).2 with
    | error err => exact ⟨st, by rw [messageSend_error hresult]; exact h⟩
    | ok reply =>
      obtain ⟨hstores, hcodes⟩ := hdurable reply hresult
      obtain ⟨ulid, e, hulid, hcontent, hrec⟩ := messageSend_records hP hresult hcodes
      refine h.record hrec hulid hstores fun id hid => ?_
      rw [hcontent] at hid
      exact absurd hid (not_targets_sentContent id p)
  | edit p =>
    show ∃ st', InStep P (s.messageEdit P env p).1 st'
    rw [messageEdit_of_not_author hdurable]
    exact ⟨st, h⟩
  | delete p =>
    show ∃ st', InStep P (s.messageDelete P env p).1 st'
    rw [messageDelete_of_not_author hdurable]
    exact ⟨st, h⟩
  | react isAdd p => cases isAdd <;> exact reaction_inStep hP h hdurable
  | gossip topic data => exact handleChannelMessage_inStep h hdurable
  | history c x entries => exact handleChannelHistoryReceived_inStep h hdurable

/-- In every state that durable steps reach, a restart finds the same messages in every channel and
the same reactions to every message. -/
theorem restart_keeps_history (hP : P.Lawful) {s : AppState} {is : List (Env × HistoryInput)}
    (hstart : InStep P s st) (hrun : Along (historyStep P) (Durable P) s is)
    {pre : List (Env × HistoryInput)} (hpre : pre <+: is) :
    SameHistory (run (historyStep P) s pre) ((run (historyStep P) s pre).restart P) := by
  have hinv : ∃ st', InStep P (run (historyStep P) s pre) st' :=
    hrun.invariant_reached (I := fun s => ∃ st', InStep P s st')
      (fun s i ⟨st', h⟩ hi => historyStep_inStep hP h hi) ⟨st, hstart⟩ hpre
  obtain ⟨st', h⟩ := hinv
  exact h.sameHistory_restart

end

/-! ## A message that is sent and deleted -/

namespace Sample

def saved : AppState := { author with files := author.toTables }

def started : AppState := saved.restart greetingPrims

def sendGreeting : Env × HistoryInput := (env, .send greeting)

def deleteGreeting : Env × HistoryInput :=
  (env, .delete ⟨community.text, channel.id.text, ulidText 1000⟩)

theorem entries_started (x : String) : started.messageLog.entries x = [] := by
  have hlog : started.messageLog = reload greetingPrims
      (loadedTables author.toTables (NodeStore.create none)) (NodeStore.create none) :=
    messageLog_restart rfl
  rw [hlog, entries_reload]
  unfold storedEntries
  split <;> rfl

theorem started_inStep : InStep greetingPrims started (NodeStore.create none) := by
  have hnone : ∀ y e, e ∉ started.messageLog.entries y := by
    intro y e he
    rw [entries_started] at he
    cases he
  exact inStep_restart rfl fun id => ⟨"", fun y _ e he => absurd he (hnone y e)⟩

theorem stores_started : Stores started community.text channel.id.text 1 := by
  refine ⟨NodeStore.create none, 7, 31, rfl, ?_, ?_, ?_, ?_, ?_, ?_⟩
  · decide +kernel
  · exact parseUlid_ulidText 7
  · decide +kernel
  · intro y hy _
    have hchannels : started.channels = (∅ : Dict String _).insert channel.id.text channel := rfl
    rw [hchannels, AList.mem_insert] at hy
    exact hy.resolve_right (AList.notMem_empty y)
  · exact ⟨[], rfl⟩
  · decide +kernel

end Sample

open Sample in
theorem restart_keeps_history_greeting :
    ((run (historyStep greetingPrims) started [sendGreeting]).messageLog.entries
      channel.id.text).length = 1 ∧
    SameHistory (run (historyStep greetingPrims) started [sendGreeting])
      (AppState.restart greetingPrims
        (run (historyStep greetingPrims) started [sendGreeting])) := by
  have hrun : Along (historyStep greetingPrims) (Durable greetingPrims) started [sendGreeting] :=
    ⟨fun _ _ => ⟨stores_started, decode_encodeContent _ _⟩, trivial⟩
  refine ⟨by decide +kernel, ?_⟩
  exact restart_keeps_history (prims_lawful _ _) started_inStep hrun (List.prefix_refl _)

open Sample in
/-- After a restart the message is no longer deleted. -/
theorem deletion_undone :
    ¬ SameHistory (run (historyStep greetingPrims) started [sendGreeting, deleteGreeting])
      (AppState.restart greetingPrims
        (run (historyStep greetingPrims) started [sendGreeting, deleteGreeting])) := by
  intro h
  have hdeleted := congrArg (List.map fun core => core.2.2.2.2.2) (h.entries channel.id.text)
  rw [List.map_map, List.map_map] at hdeleted
  exact absurd hdeleted (by decide +kernel)

end BitCord
