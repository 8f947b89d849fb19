import BitCord.CatchUp
import BitCord.History
import BitCord.Replicas

/-!
# The log of a running node

Calls, messages and history batches change the message log in three ways: an entry with a new id is
appended, the first entry with an id gets another text, or it is marked as deleted (`LogChange`).
So in a run without a restart the log of a channel is only ever extended (`live_log_append_only`).
The node generates the ids of its own messages and does not look for them in the log, so they have
to be new.
-/

namespace BitCord

open Lib Lib.Run AppState

/-- What identifies an entry: everything but its content and the deletion mark. -/
def LogEntry.head (e : LogEntry) : UInt64 × String × String × Int :=
  (e.seq, e.messageId, e.authorId, e.timestampMs)

/-- No channel has two entries with the same id. -/
def NoRepeats (log : MessageLog) : Prop := ∀ x, UniqueIds x log

/-- The entries of each channel are still there, in the same places, and those that were deleted
still are. -/
structure AppendOnly (log log' : MessageLog) : Prop where
  heads : ∀ x, (log.entries x).map LogEntry.head <+: (log'.entries x).map LogEntry.head
  deleted : ∀ x (i : Nat) e e', (log.entries x)[i]? = some e → (log'.entries x)[i]? = some e' →
    e.deleted = true → e'.deleted = true

/-! ## Changes of the log -/

/-- A change of the log, up to reactions. -/
inductive LogChange (log log' : MessageLog) : Prop
  | append (x : String) (e : LogEntry) (fresh : ¬ Knows log x e.messageId)
      (entries : ∀ y, log'.entries y = if y = x then log.entries x ++ [e] else log.entries y)
  | update (x mid : String) (f : LogEntry → LogEntry) (head : ∀ e, (f e).head = e.head)
      (deleted : ∀ e, e.deleted = true → (f e).deleted = true)
      (entries : ∀ y, log'.entries y = (log.updateEntry x mid f).entries y)

def LogChanges : MessageLog → MessageLog → Prop := Relation.ReflTransGen LogChange

section

variable {log log' log'' : MessageLog}

theorem AppendOnly.refl (log : MessageLog) : AppendOnly log log where
  heads _ := List.prefix_refl _
  deleted x i e e' he he' h := by
    cases he.symm.trans he'
    exact h

theorem AppendOnly.trans (h : AppendOnly log log') (h' : AppendOnly log' log'') :
    AppendOnly log log'' where
  heads x := (h.heads x).trans (h'.heads x)
  deleted x i e e'' he he'' hdel := by
    -- the log in between has an entry in this place, since it is not shorter
    have hlen : (log.entries x).length ≤ (log'.entries x).length := by
      simpa using (h.heads x).length_le
    obtain ⟨hi, -⟩ := List.getElem?_eq_some_iff.mp he
    have hmid : (log'.entries x)[i]? = some (log'.entries x)[i] :=
      List.getElem?_eq_getElem (hi.trans_le hlen)
    exact h'.deleted x i _ e'' hmid he'' (h.deleted x i e _ he hmid hdel)

namespace LogChange

theorem appendOnly (h : LogChange log log') : AppendOnly log log' := by
  cases h with
  | append x e fresh hentries =>
    have hstart : ∀ y, log.entries y <+: log'.entries y := by
      intro y
      rw [hentries]
      split
      · next hy =>
        rw [hy]
        exact List.prefix_append _ _
      · exact List.prefix_refl _
    refine ⟨fun y => (hstart y).map _, fun y i a a' ha ha' hdel => ?_⟩
    obtain ⟨rest, hrest⟩ := hstart y
    obtain ⟨hi, -⟩ := List.getElem?_eq_some_iff.mp ha
    rw [← hrest, List.getElem?_append_left hi] at ha'
    cases ha.symm.trans ha'
    exact hdel
  | update x mid f hhead hdeleted hentries =>
    refine ⟨fun y => ?_, fun y i a a' ha ha' hdel => ?_⟩
    · rw [hentries, MessageLog.entries_updateEntry]
      split
      · next hy =>
        rw [map_updateFirst fun e _ => hhead e, hy]
      · exact List.prefix_refl _
    · rw [hentries, MessageLog.entries_updateEntry] at ha'
      by_cases hsame : a' = a
      · rw [hsame]
        exact hdel
      · split at ha'
        · next hy =>
          rw [hy] at ha
          rw [(find?_of_updateFirst_ne ha ha' hsame).2]
          exact hdeleted a hdel
        · exact absurd (Option.some.inj (ha'.symm.trans ha)) hsame

theorem noRepeats (h : LogChange log log') (hu : NoRepeats log) : NoRepeats log' := by
  intro y
  unfold UniqueIds
  cases h with
  | append x e fresh hentries =>
    rw [hentries]
    split
    · rw [List.map_append, List.nodup_append]
      refine ⟨hu x, List.nodup_singleton _, fun mid hmid mid' hmid' heq => ?_⟩
      obtain ⟨a, ha, rfl⟩ := List.mem_map.mp hmid
      rw [List.map_singleton, List.mem_singleton] at hmid'
      exact fresh ⟨a, ha, heq.trans hmid'⟩
    · exact hu y
  | update x mid f hhead hdeleted hentries =>
    have hid : ∀ e, (f e).messageId = e.messageId := fun e =>
      congrArg (fun head => head.2.1) (hhead e)
    rw [hentries, MessageLog.entries_updateEntry]
    split
    · rw [map_updateFirst fun e _ => hid e]
      exact hu x
    · exact hu y

end LogChange

theorem LogChanges.appendOnly (h : LogChanges log log') : AppendOnly log log' := by
  induction h with
  | refl => exact .refl log
  | tail _ hchange ih => exact ih.trans hchange.appendOnly

theorem LogChanges.noRepeats (h : LogChanges log log') (hu : NoRepeats log) : NoRepeats log' := by
  induction h with
  | refl => exact hu
  | tail _ hchange ih => exact hchange.noRepeats ih

end

/-! ## Calls, messages and history batches -/

variable (s : AppState)

section

variable {P : Prims}

variable (log : MessageLog) (x mid : String)

theorem LogChange.of_edit (nonce : Nonce) (ct : Bytes) : LogChange log (log.edit x mid nonce ct) :=
  .update x mid (fun e => { e with nonce, ciphertext := ct }) (fun _ => rfl) (fun _ h => h)
    fun _ => rfl

theorem LogChange.of_tombstone : LogChange log (log.tombstone x mid) :=
  .update x mid (fun e => { e with deleted := true }) (fun _ => rfl) (fun _ _ => rfl) fun _ => rfl

/-- The entry of a message is appended, whatever happens to the reactions. -/
theorem LogChange.of_message {log log' : MessageLog} {x : String} (raw : RawMessage)
    (hnew : ¬ Knows log x raw.id.text)
    (hentries : ∀ y, log'.entries y = (logOwn log x raw).entries y) : LogChange log log' := by
  refine .append x (entryOf raw (UInt64.ofNat (log.entries x).length)) hnew fun y => ?_
  rw [hentries]
  exact MessageLog.entries_append log x _ _ _ _ _ y

theorem logChanges_messageSend {env : Env} {s : AppState} {p : SendMessageParams}
    (hnew : ¬ Knows s.messageLog p.channelId (MessageId.mk (env.ulid 0)).text) :
    LogChanges s.messageLog (s.messageSend P env p).1.messageLog := by
  cases hresult : (s.messageSend P env p).2 with
  | error err =>
    rw [messageSend_error hresult]
    exact .refl
  | ok reply =>
    obtain ⟨key, ulid, -, -, hsend⟩ := messageSend_ok hresult
    have hlog : (s.messageSend P env p).1.messageLog = logOwn s.messageLog p.channelId
        (s.ownMessage P env ulid key (sentContent p)) := by
      rw [hsend]
      rfl
    have hchange : LogChange s.messageLog (s.messageSend P env p).1.messageLog :=
      .of_message (s.ownMessage P env ulid key (sentContent p)) hnew fun y => by rw [hlog]
    exact .single hchange

theorem logChanges_reaction {isAdd : Bool} {env : Env} {s : AppState} {p : ReactionParams}
    (hnew : ¬ Knows s.messageLog p.channelId (MessageId.mk (env.ulid 0)).text) :
    LogChanges s.messageLog (s.reaction P isAdd env p).1.messageLog := by
  cases hresult : (s.reaction P isAdd env p).2 with
  | error err =>
    rw [reaction_error hresult]
    exact .refl
  | ok reply =>
    obtain ⟨key, ulid, -, -, commands, pushes, hstate⟩ := reaction_ok hresult
    have hlog : ∀ y, (s.reaction P isAdd env p).1.messageLog.entries y =
        (logOwn s.messageLog p.channelId (s.ownMessage P env ulid key
          (.reaction p.messageId p.emoji isAdd))).entries y := by
      intro y
      rw [hstate]
      exact entries_applyReaction _ _ _ y
    have hchange : LogChange s.messageLog (s.reaction P isAdd env p).1.messageLog :=
      .of_message (s.ownMessage P env ulid key (.reaction p.messageId p.emoji isAdd)) hnew hlog
    exact .single hchange

theorem logChanges_messageEdit (env : Env) (s : AppState) (p : EditMessageParams) :
    LogChanges s.messageLog (s.messageEdit P env p).1.messageLog := by
  unfold messageEdit
  split
  · exact .refl
  · split
    · exact .refl
    · exact .refl
    · exact .refl
    · unfold editOwn
      dsimp only
      split <;> exact .single (.of_edit _ _ _ _ _)

theorem logChanges_messageDelete (env : Env) (s : AppState) (p : DeleteMessageParams) :
    LogChanges s.messageLog (s.messageDelete P env p).1.messageLog := by
  unfold messageDelete
  split
  · exact .refl
  · dsimp only
    split <;> exact .single (.of_tombstone _ _ _)

theorem logChanges_acceptMessage (c : String) (raw : RawMessage) (plaintext : Bytes) :
    LogChanges s.messageLog (s.acceptMessage P c raw plaintext).messageLog := by
  rcases acceptMessage_cases (P := P) s c raw plaintext with h | ⟨-, hnew, pushes, h⟩
  · rw [h]
    exact .refl
  · rw [h]
    have hunknown : ¬ Knows s.messageLog raw.channelId.text raw.id.text := by
      intro hknows
      have hsome := isSome_getEntry_iff.mpr hknows
      rw [hnew] at hsome
      cases hsome
    have hchange : LogChange s.messageLog
        (logMessage s.messageLog raw (P.decodeContent plaintext)) := by
      refine .of_message raw hunknown fun y => ?_
      unfold logMessage logOwn
      rw [MessageLog.entries_append, MessageLog.entries_append, entries_applyReaction,
        entries_applyReaction]
    exact .single hchange

theorem logChanges_handleChannelMessage (replaying : Bool) (s : AppState) (topic : String)
    (data : Bytes) :
    LogChanges s.messageLog (s.handleChannelMessage P replaying topic data).messageLog := by
  have hof : ∀ change : Change, P.decodeEvent data = some change.event → LogChanges s.messageLog
      (s.handleChannelMessage P replaying topic data).messageLog := by
    intro change hd
    rw [messageLog_handleChannelMessage_of_change hd]
    split
    · cases change with
      | edit payload => exact .single (.of_edit _ _ _ _ _)
      | delete payload => exact .single (.of_tombstone _ _ _)
    · exact .refl
  cases hd : P.decodeEvent data with
  | none =>
    unfold handleChannelMessage
    rw [hd]
    exact .refl
  | some event =>
    cases event with
    | editMessage payload => exact hof (.edit payload) hd
    | deleteMessage payload => exact hof (.delete payload) hd
    | newMessage raw =>
      unfold handleChannelMessage
      rw [hd]
      dsimp only
      rcases handleNewMessage_cases (P := P) replaying s topic data raw with
        h | ⟨ch, key, plaintext, -, -, -, h⟩ | h
      · rw [h]
        exact .refl
      · rw [h]
        exact logChanges_acceptMessage s ch.communityId.text raw plaintext
      · rw [h]
        unfold bufferMessage
        split <;> exact .refl
    | channelKeyRotation payload =>
      unfold handleChannelMessage
      rw [hd]
      dsimp only
      rw [messageLog_handleChannelKeyRotation]
      exact .refl
    | _ =>
      unfold handleChannelMessage
      rw [hd]
      exact .refl

/-- A batch may repeat an id: each entry is looked for in the log that has those before it. -/
theorem logChanges_foldl_integrateEntry (key pk : Option Key) (x : String) (ulid : Ulid)
    (batch : List LogEntry) (acc : MessageLog × Option NodeStore) :
    LogChanges acc.1 (batch.foldl (integrateEntry P key pk x ulid) acc).1 := by
  induction batch generalizing acc with
  | nil => exact .refl
  | cons e batch ih =>
    refine Relation.ReflTransGen.trans ?_ (ih _)
    unfold integrateEntry
    split
    · exact .refl
    · next hnew =>
      refine .single (.append x e (fun hknows => hnew (isSome_getEntry_iff.mpr hknows))
        fun y => ?_)
      exact (MessageLog.entries_appendEntry _ _ _ _).trans (by
        rw [entries_applyReaction, entries_applyReaction])

theorem logChanges_handleChannelHistoryReceived (c x : String) (batch : List LogEntry) :
    LogChanges s.messageLog (s.handleChannelHistoryReceived P c x batch).messageLog := by
  show LogChanges s.messageLog (s.integrateHistory P c x batch).1
  unfold integrateHistory
  split
  · exact logChanges_foldl_integrateEntry _ _ _ _ batch (s.messageLog, s.nodeStore)
  · exact .refl

/-! ## Runs -/

/-- A call that makes a message generates an id that the log of the channel does not have. -/
def FreshId (s : AppState) (i : Env × HistoryInput) : Prop :=
  match i.2 with
  | .send p => ¬ Knows s.messageLog p.channelId (MessageId.mk (i.1.ulid 0)).text
  | .react _ p => ¬ Knows s.messageLog p.channelId (MessageId.mk (i.1.ulid 0)).text
  | _ => True

theorem logChanges_historyStep {s : AppState} {i : Env × HistoryInput} (h : FreshId s i) :
    LogChanges s.messageLog (historyStep P s i).messageLog := by
  obtain ⟨env, input⟩ := i
  cases input with
  | send p => exact logChanges_messageSend h
  | edit p => exact logChanges_messageEdit env s p
  | delete p => exact logChanges_messageDelete env s p
  | react isAdd p => cases isAdd <;> exact logChanges_reaction h
  | gossip topic data => exact logChanges_handleChannelMessage false s topic data
  | history c x batch => exact logChanges_handleChannelHistoryReceived s c x batch

/-- In every run without a restart each step leaves every channel without a repeated id, extends
what identifies its entries, and takes no deletion back. -/
theorem live_log_append_only {s : AppState} {is : List (Env × HistoryInput)}
    (hstart : NoRepeats s.messageLog) (hfresh : Along (historyStep P) FreshId s is) :
    Along (historyStep P) (fun s i => NoRepeats (historyStep P s i).messageLog ∧
      AppendOnly s.messageLog (historyStep P s i).messageLog) s is := by
  have hinv : Along (historyStep P) (fun s _ => NoRepeats s.messageLog) s is :=
    hfresh.of_invariant (I := fun s => NoRepeats s.messageLog)
      (fun s i hs hi => (logChanges_historyStep hi).noRepeats hs) hstart
  refine (hinv.and hfresh).imp fun s i h => ?_
  have hchanges := logChanges_historyStep (P := P) h.2
  exact ⟨hchanges.noRepeats h.1, hchanges.appendOnly⟩

end

open Sample in
/-- A message is sent and deleted, and then comes again in a history batch. -/
theorem live_log_append_only_greeting :
    ((run (historyStep greetingPrims) started [sendGreeting, deleteGreeting]).messageLog.entries
        channel.id.text).map (fun e => (e.messageId, e.deleted)) = [(ulidText 1000, true)] ∧
      Along (historyStep greetingPrims)
        (fun s i => NoRepeats (historyStep greetingPrims s i).messageLog ∧
          AppendOnly s.messageLog (historyStep greetingPrims s i).messageLog)
        started [sendGreeting, deleteGreeting, (env, .history community.text channel.id.text
          [entryOf greetingMessage 0])] := by
  have hnone : ∀ x id, ¬ Knows started.messageLog x id := by
    rintro x id ⟨e, he, -⟩
    rw [entries_started] at he
    cases he
  refine ⟨by decide +kernel, live_log_append_only (fun x => ?_)
    ⟨hnone _ _, trivial, trivial, trivial⟩⟩
  unfold UniqueIds
  rw [entries_started]
  exact List.nodup_nil

end BitCord
