import BitCord.Delivery
import BitCord.Edits

/-!
# Replicas of a channel

Two nodes get the same messages, edits and deletions of a channel in different orders. The handlers
apply what arrives at once: an edit or a deletion of a message that is not there is discarded, a
later edit replaces an earlier one, and a reaction replaces the one before it
(`replicas_converge_iff`).
-/

namespace BitCord

open Lib Lib.Run AppState

variable {x mid : String} {raw : RawMessage} {ch : ChannelId} {data : Bytes} {ev : NetworkEvent}
  {t t' : Tables}

/-! ## Operations on a log -/

variable (c : Change) (e : LogEntry) (s : AppState)

namespace Change

def Of (c : Change) (mid author : String) : Prop :=
  c.messageId.text = mid ∧ c.authorId.text = author

instance (c : Change) (mid author : String) : Decidable (c.Of mid author) :=
  inferInstanceAs (Decidable (_ ∧ _))

def newText : Change → Option Bytes
  | edit p => some p.newCiphertext
  | delete _ => none

def isDelete : Change → Bool
  | edit _ => false
  | delete _ => true

theorem messageId_apply : (c.apply e).messageId = e.messageId := by
  cases c <;> rfl

theorem authorId_apply : (c.apply e).authorId = e.authorId := by
  cases c <;> rfl

theorem ciphertext_apply : (c.apply e).ciphertext = c.newText.getD e.ciphertext := by
  cases c <;> rfl

theorem deleted_apply : (c.apply e).deleted = (e.deleted || c.isDelete) := by
  cases c with
  | edit p => exact (Bool.or_false _).symm
  | delete p => exact (Bool.or_true _).symm

end Change

/-- What an event does to the log of its channel: an admitted message with its content, or a
change of a message. -/
inductive ChannelOp where
  | post (raw : RawMessage) (content : Option MessageContent)
  | change (c : Change)

def applyOp (x : String) (log : MessageLog) : ChannelOp → MessageLog
  | .post raw content =>
    if (log.getEntry x raw.id.text).isSome then log
    else (applyReaction log content raw.authorId.text).append x raw.id.text raw.authorId.text
      (timestampMillis raw.timestamp) raw.nonce raw.ciphertext
  | .change c =>
    if isAuthor log x c.messageId.text c.authorId.text then
      log.updateEntry x c.messageId.text c.apply
    else log

theorem getEntry_applyReaction (log : MessageLog) (content : Option MessageContent)
    (user x mid : String) :
    (applyReaction log content user).getEntry x mid = log.getEntry x mid := by
  unfold MessageLog.getEntry
  rw [entries_applyReaction]

/-- A post is entered unless its id is known. -/
theorem getEntry_post (x : String) (log : MessageLog) (raw : RawMessage)
    (content : Option MessageContent) (mid : String) :
    (applyOp x log (.post raw content)).getEntry x mid =
      (log.getEntry x mid).or (if mid = raw.id.text then
        some (entryOf raw (UInt64.ofNat (log.entries x).length)) else none) := by
  show (if (log.getEntry x raw.id.text).isSome then log else _).getEntry x mid = _
  split
  · next hknown =>
    by_cases hmid : mid = raw.id.text
    · subst hmid
      obtain ⟨e, he⟩ := Option.isSome_iff_exists.mp hknown
      rw [he, Option.some_or]
    · rw [if_neg hmid, Option.or_none]
  · rw [MessageLog.getEntry_append, getEntry_applyReaction, entries_applyReaction]
    rfl

/-- A change is made if the message is there and has the author that the change names. -/
theorem getEntry_change (x : String) (log : MessageLog) (c : Change) (mid : String) :
    (applyOp x log (.change c)).getEntry x mid =
      (log.getEntry x mid).map fun e => if c.Of mid e.authorId then c.apply e else e := by
  show (if isAuthor log x c.messageId.text c.authorId.text then _ else log).getEntry x mid = _
  have hupdate := MessageLog.getEntry_updateEntry c.messageId_apply log x c.messageId.text mid
  cases hget : log.getEntry x mid with
  | none =>
    rw [hget, Option.map_none, ite_self] at hupdate
    split
    · rw [hupdate, Option.map_none]
    · rw [hget, Option.map_none]
  | some e =>
    rw [hget] at hupdate
    rw [Option.map_some]
    by_cases hof : c.Of mid e.authorId
    · obtain ⟨rfl, hauthor⟩ := hof
      have hyes := isAuthor_eq_true_iff.mpr ⟨e, hget, hauthor.symm⟩
      rw [if_pos hyes, hupdate, if_pos rfl, Option.map_some, if_pos ⟨rfl, hauthor⟩]
    · rw [if_neg hof]
      split
      · next hyes =>
        -- the author is right, so the message is another one
        have hmid : mid ≠ c.messageId.text := by
          rintro rfl
          obtain ⟨e', he', hauthor⟩ := isAuthor_eq_true_iff.mp hyes
          rw [hget] at he'
          exact hof ⟨rfl, by rw [Option.some.inj he', hauthor]⟩
        rw [hupdate, if_neg hmid]
      · exact hget

/-! ## The messages of a replica -/

/-- What replicas should agree on of an entry. -/
def LogEntry.summary (e : LogEntry) : String × String × Bytes × Bool :=
  (e.messageId, e.authorId, e.ciphertext, e.deleted)

/-- The author, the ciphertext and the deletion mark of a message. -/
def view (x : String) (log : MessageLog) (mid : String) : Option (String × Bytes × Bool) :=
  (log.getEntry x mid).map fun e => (e.authorId, e.ciphertext, e.deleted)

/-- The ciphertext to which an operation edits a message of the author. -/
def editOf (mid author : String) : ChannelOp → Option Bytes
  | .change c => if c.Of mid author then c.newText else none
  | .post _ _ => none

/-- The operation deletes a message of the author. -/
def deletes (mid author : String) : ChannelOp → Bool
  | .change c => if c.Of mid author then c.isDelete else false
  | .post _ _ => false

/-- What an operation makes of a message that is there. -/
def amend (mid : String) (m : String × Bytes × Bool) (op : ChannelOp) : String × Bytes × Bool :=
  (m.1, (editOf mid m.1 op).getD m.2.1, m.2.2 || deletes mid m.1 op)

/-- The message that an operation posts, if it has this id. -/
def posted (mid : String) : ChannelOp → Option (String × Bytes × Bool)
  | .post raw _ =>
    if mid = raw.id.text then some (raw.authorId.text, raw.ciphertext, false) else none
  | .change _ => none

/-- What an operation does to one message. -/
def viewStep (mid : String) (v : Option (String × Bytes × Bool)) (op : ChannelOp) :
    Option (String × Bytes × Bool) :=
  (v.or (posted mid op)).map fun m => amend mid m op

theorem amend_post (mid : String) (m : String × Bytes × Bool) (raw : RawMessage)
    (content : Option MessageContent) : amend mid m (.post raw content) = m := by
  unfold amend
  rw [editOf, deletes, Option.getD_none, Bool.or_false]

theorem amend_change (mid : String) (e : LogEntry) (c : Change) :
    amend mid (e.authorId, e.ciphertext, e.deleted) (.change c) =
      if c.Of mid e.authorId then
        ((c.apply e).authorId, (c.apply e).ciphertext, (c.apply e).deleted)
      else (e.authorId, e.ciphertext, e.deleted) := by
  unfold amend editOf deletes
  dsimp only
  split
  · rw [c.authorId_apply, c.ciphertext_apply, c.deleted_apply]
  · rw [Option.getD_none, Bool.or_false]

/-- A message depends on what it was and on the operations alone. -/
theorem view_applyOp (x : String) (log : MessageLog) (op : ChannelOp) (mid : String) :
    view x (applyOp x log op) mid = viewStep mid (view x log mid) op := by
  unfold view viewStep
  cases op with
  | post raw content =>
    rw [getEntry_post]
    simp only [amend_post, Option.map_id_fun', posted]
    cases log.getEntry x mid with
    | some e => simp only [Option.some_or, Option.map_some, id]
    | none =>
      rw [Option.none_or, Option.map_none, Option.none_or]
      by_cases hmid : mid = raw.id.text
      · rw [if_pos hmid, if_pos hmid]
        rfl
      · rw [if_neg hmid, if_neg hmid]
        rfl
  | change c =>
    rw [getEntry_change, posted, Option.or_none, Option.map_map, Option.map_map]
    refine Option.map_congr fun e _ => ?_
    rw [Function.comp_apply, Function.comp_apply, amend_change]
    by_cases hof : c.Of mid e.authorId
    · rw [if_pos hof, if_pos hof]
    · rw [if_neg hof, if_neg hof]

/-! ## Messages after a sequence of operations -/

def firstPost (mid : String) : List ChannelOp → Option (RawMessage × List ChannelOp)
  | [] => none
  | .post raw _ :: ops => if mid = raw.id.text then some (raw, ops) else firstPost mid ops
  | .change _ :: ops => firstPost mid ops

/-- The text of a message after operations that follow it: that of the last edit by its author. -/
def textAfter (raw : RawMessage) (ops : List ChannelOp) : Bytes :=
  ((ops.filterMap (editOf raw.id.text raw.authorId.text)).getLast?).getD raw.ciphertext

/-- Its author deletes the message in operations that follow it. -/
def deletedAfter (raw : RawMessage) (ops : List ChannelOp) : Bool :=
  ops.any (deletes raw.id.text raw.authorId.text)

/-- Operations after the post change the text and the mark. -/
theorem foldl_viewStep_some (mid author : String) (ct : Bytes) (deleted : Bool)
    (ops : List ChannelOp) :
    ops.foldl (viewStep mid) (some (author, ct, deleted)) =
      some (author, ((ops.filterMap (editOf mid author)).getLast?).getD ct,
        deleted || ops.any (deletes mid author)) := by
  induction ops generalizing ct deleted with
  | nil => rw [List.foldl_nil, List.any_nil, Bool.or_false]; rfl
  | cons op ops ih =>
    have hstep : viewStep mid (some (author, ct, deleted)) op =
        some (author, (editOf mid author op).getD ct, deleted || deletes mid author op) := rfl
    rw [List.foldl_cons, hstep, ih, List.any_cons, Bool.or_assoc]
    cases hedit : editOf mid author op with
    | none => rw [List.filterMap_cons_none hedit, Option.getD_none]
    | some ct' =>
      rw [List.filterMap_cons_some hedit, List.getLast?_cons, Option.getD_some, Option.getD_some]

/-- What a replica has of a message: nothing without a post, else the first post with the edits and
deletions that follow it. What comes before the post is lost. -/
theorem foldl_viewStep_none (mid : String) (ops : List ChannelOp) :
    ops.foldl (viewStep mid) none = (firstPost mid ops).map fun p =>
      (p.1.authorId.text, textAfter p.1 p.2, deletedAfter p.1 p.2) := by
  induction ops with
  | nil => rfl
  | cons op ops ih =>
    rw [List.foldl_cons]
    cases op with
    | post raw content =>
      have hstep : viewStep mid none (.post raw content) = posted mid (.post raw content) := by
        unfold viewStep
        simp only [amend_post, Option.map_id_fun', Option.none_or, id]
      rw [hstep, posted, firstPost]
      by_cases hmid : mid = raw.id.text
      · subst hmid
        rw [if_pos rfl, if_pos rfl, foldl_viewStep_some, Bool.false_or]
        rfl
      · rw [if_neg hmid, if_neg hmid]
        exact ih
    | change c => exact ih

def posts (ops : List ChannelOp) : List RawMessage :=
  ops.filterMap fun
    | .post raw _ => some raw
    | .change _ => none

/-- The messages have different ids. -/
def DistinctIds (ops : List ChannelOp) : Prop := ((posts ops).map fun raw => raw.id.text).Nodup

theorem mem_posts_of_firstPost {ops suffix : List ChannelOp}
    (h : firstPost mid ops = some (raw, suffix)) : raw ∈ posts ops ∧ raw.id.text = mid := by
  induction ops with
  | nil => cases h
  | cons op ops ih =>
    cases op with
    | post raw' content =>
      rw [firstPost] at h
      split at h
      · next hmid =>
        cases h
        exact ⟨List.mem_cons_self, hmid.symm⟩
      · obtain ⟨hmem, hid⟩ := ih h
        exact ⟨List.mem_cons_of_mem _ hmem, hid⟩
    | change c => exact ih h

theorem exists_firstPost {ops : List ChannelOp} (h : raw ∈ posts ops) :
    ∃ p, firstPost raw.id.text ops = some p := by
  induction ops with
  | nil => cases h
  | cons op ops ih =>
    cases op with
    | post raw' content =>
      rw [firstPost]
      split
      · exact ⟨_, rfl⟩
      · next hid =>
        rcases List.mem_cons.mp h with rfl | h
        · exact absurd rfl hid
        · exact ih h
    | change c => exact ih h

/-- What is delivered after a message. -/
def after (raw : RawMessage) (ops : List ChannelOp) : List ChannelOp :=
  ((firstPost raw.id.text ops).map Prod.snd).getD []

/-- Where the ids differ, the first post of the id of a message is the message. -/
theorem firstPost_eq {ops : List ChannelOp} (hdistinct : DistinctIds ops)
    (h : raw ∈ posts ops) : firstPost raw.id.text ops = some (raw, after raw ops) := by
  obtain ⟨⟨raw', suffix⟩, hfirst⟩ := exists_firstPost h
  obtain ⟨hmem, hid⟩ := mem_posts_of_firstPost hfirst
  obtain rfl : raw' = raw := List.inj_on_of_nodup_map hdistinct hmem h hid
  rw [after, hfirst]
  rfl

/-- The replicas have the same messages if and only if each message has the same last edit and is
deleted in both or in neither. -/
theorem foldl_viewStep_eq_iff {ops ops' : List ChannelOp} (hdistinct : DistinctIds ops)
    (hperm : ops.Perm ops') :
    (∀ mid, ops'.foldl (viewStep mid) none = ops.foldl (viewStep mid) none) ↔
      ∀ raw ∈ posts ops, textAfter raw (after raw ops') = textAfter raw (after raw ops) ∧
        deletedAfter raw (after raw ops') = deletedAfter raw (after raw ops) := by
  have hposts : (posts ops).Perm (posts ops') := hperm.filterMap _
  have hdistinct' : DistinctIds ops' := (hposts.map _).nodup_iff.mp hdistinct
  constructor
  · intro h raw hraw
    have hview := h raw.id.text
    rw [foldl_viewStep_none, foldl_viewStep_none, firstPost_eq hdistinct hraw,
      firstPost_eq hdistinct' (hposts.mem_iff.mp hraw)] at hview
    have hpair := Option.some.inj hview
    exact ⟨congrArg (fun m => m.2.1) hpair, congrArg (fun m => m.2.2) hpair⟩
  · intro h mid
    rw [foldl_viewStep_none, foldl_viewStep_none]
    cases hfirst : firstPost mid ops with
    | some p =>
      obtain ⟨hraw, rfl⟩ := mem_posts_of_firstPost hfirst
      obtain ⟨htext, hdeleted⟩ := h p.1 hraw
      rw [← hfirst, firstPost_eq hdistinct hraw, firstPost_eq hdistinct' (hposts.mem_iff.mp hraw),
        Option.map_some, Option.map_some, htext, hdeleted]
    | none =>
      cases hfirst' : firstPost mid ops' with
      | none => rfl
      | some p =>
        obtain ⟨hraw, rfl⟩ := mem_posts_of_firstPost hfirst'
        obtain ⟨q, hq⟩ := exists_firstPost (hposts.mem_iff.mpr hraw)
        rw [hfirst] at hq
        cases hq

/-! ## Reactions after a sequence of operations -/

/-- The reaction of a user to a message that an operation brings: added or removed. -/
def reactionOf (mid emoji user : String) : ChannelOp → Option Bool
  | .post raw (some (.reaction target emoji' isAdd)) =>
    if target = mid ∧ emoji' = emoji ∧ raw.authorId.text = user then some isAdd else none
  | _ => none

def reactsLast (mid emoji user : String) (ops : List ChannelOp) : Bool :=
  ((ops.filterMap (reactionOf mid emoji user)).getLast?).getD false

def FreshOp (x : String) (log : MessageLog) (op : ChannelOp) : Prop :=
  ∀ raw content, op = .post raw content → view x log raw.id.text = none

theorem mem_reactors_applyOp {log : MessageLog} {op : ChannelOp}
    (hfresh : FreshOp x log op) (mid emoji user : String) :
    decide (user ∈ (applyOp x log op).reactors mid emoji) =
      (reactionOf mid emoji user op).getD (decide (user ∈ log.reactors mid emoji)) := by
  cases op with
  | change c =>
    show decide (user ∈ (if isAuthor log x _ _ then _ else log).reactors mid emoji) = _
    split
    · rfl
    · rfl
  | post raw content =>
    have hnone : (log.getEntry x raw.id.text).isSome = false := by
      have hview := hfresh raw content rfl
      rw [view, Option.map_eq_none_iff] at hview
      rw [hview]
      rfl
    have hlog : (applyOp x log (.post raw content)).reactors mid emoji =
        (applyReaction log content raw.authorId.text).reactors mid emoji := by
      unfold applyOp
      dsimp only
      rw [hnone]
      rfl
    rw [hlog, Bool.eq_iff_iff, decide_eq_true_iff, mem_reactors_applyReaction]
    unfold reactionOf
    cases content with
    | none => exact decide_eq_true_iff.symm
    | some c =>
      cases c with
      | reaction target emoji' isAdd =>
        dsimp only
        by_cases h : target = mid ∧ emoji' = emoji ∧ raw.authorId.text = user
        · rw [if_pos h, if_pos h, Option.getD_some]
        · rw [if_neg h, if_neg h, Option.getD_none, decide_eq_true_iff]
      | _ => exact decide_eq_true_iff.symm

/-- Where the ids differ and none is known, every post has a new id when it is applied. -/
theorem along_freshOp {log : MessageLog} {ops : List ChannelOp}
    (hdistinct : DistinctIds ops) (hnew : ∀ raw ∈ posts ops, view x log raw.id.text = none) :
    Along (applyOp x) (FreshOp x) log ops := by
  induction ops generalizing log with
  | nil => trivial
  | cons op ops ih =>
    cases op with
    | post raw content =>
      obtain ⟨hfirst, hrest⟩ := List.nodup_cons.mp hdistinct
      refine ⟨fun raw' content' heq => ?_, ih hrest fun raw' hraw' => ?_⟩
      · cases heq
        exact hnew raw List.mem_cons_self
      · have hne : ¬ raw'.id.text = raw.id.text := by
          intro heq
          exact hfirst (List.mem_map.mpr ⟨raw', hraw', heq⟩)
        rw [view_applyOp, viewStep, hnew raw' (List.mem_cons_of_mem _ hraw'), posted, if_neg hne]
        rfl
    | change c =>
      refine ⟨fun raw' content' heq => ?_, ih hdistinct fun raw' hraw' => ?_⟩
      · cases heq
      · rw [view_applyOp, viewStep, hnew raw' hraw', posted]
        rfl

theorem mem_reactors_run {log : MessageLog} {ops : List ChannelOp}
    (hfresh : Along (applyOp x) (FreshOp x) log ops)
    (hnone : ∀ mid emoji, log.reactors mid emoji = []) (mid emoji user : String) :
    user ∈ (run (applyOp x) log ops).reactors mid emoji ↔ reactsLast mid emoji user ops = true := by
  have hstep : ∀ log op, FreshOp x log op →
      decide (user ∈ (applyOp x log op).reactors mid emoji) =
        (reactionOf mid emoji user op).getD (decide (user ∈ log.reactors mid emoji)) :=
    fun log op hop => mem_reactors_applyOp hop mid emoji user
  have hlast := Along.get_run_eq_getLast
    (fun log : MessageLog => decide (user ∈ log.reactors mid emoji)) hstep hfresh
  have hinit : decide (user ∈ log.reactors mid emoji) = false := by
    rw [hnone]
    exact decide_eq_false List.not_mem_nil
  rw [hinit] at hlast
  rw [← decide_eq_true_iff (p := user ∈ (run (applyOp x) log ops).reactors mid emoji), hlast,
    reactsLast]

/-! ## Replicas -/

/-- The entries of the channel have different ids. -/
def UniqueIds (x : String) (log : MessageLog) : Prop :=
  ((log.entries x).map LogEntry.messageId).Nodup

theorem uniqueIds_applyOp {log : MessageLog} (h : UniqueIds x log) (op : ChannelOp) :
    UniqueIds x (applyOp x log op) := by
  unfold UniqueIds at h ⊢
  cases op with
  | post raw content =>
    unfold applyOp
    dsimp only
    split
    · exact h
    · next hunknown =>
      rw [MessageLog.entries_append, if_pos rfl, entries_applyReaction, List.map_append,
        List.nodup_append]
      refine ⟨h, List.nodup_singleton _, ?_⟩
      intro mid hmid mid' hmid' heq
      obtain ⟨e, he, rfl⟩ := List.mem_map.mp hmid
      rw [List.map_singleton, List.mem_singleton] at hmid'
      refine hunknown (List.find?_isSome.mpr ⟨e, he, ?_⟩)
      exact decide_eq_true (heq.trans hmid')
  | change c =>
    unfold applyOp
    dsimp only
    split
    · rw [MessageLog.entries_updateEntry, if_pos rfl,
        map_updateFirst fun e _ => c.messageId_apply e]
      exact h
    · exact h

/-- Where the ids differ, the messages of a replica are its views. -/
theorem mem_summaries_iff {log : MessageLog} (h : UniqueIds x log)
    {m : String × String × Bytes × Bool} :
    m ∈ (log.entries x).map LogEntry.summary ↔ view x log m.1 = some m.2 := by
  unfold view MessageLog.getEntry
  constructor
  · intro hm
    obtain ⟨e, he, rfl⟩ := List.mem_map.mp hm
    have hsome : ((log.entries x).find? fun e' => decide (e'.messageId = e.messageId)).isSome :=
      List.find?_isSome.mpr ⟨e, he, decide_eq_true rfl⟩
    obtain ⟨e', hfind⟩ := Option.isSome_iff_exists.mp hsome
    have hid : e'.messageId = e.messageId := by
      have hp := List.find?_some hfind
      exact of_decide_eq_true hp
    obtain rfl : e' = e := List.inj_on_of_nodup_map h (List.mem_of_find?_eq_some hfind) he hid
    show Option.map _ ((log.entries x).find? fun e'' => decide (e''.messageId = e'.messageId)) = _
    rw [hfind]
    rfl
  · intro hview
    obtain ⟨e, hfind, hm⟩ := Option.map_eq_some_iff.mp hview
    have hid : e.messageId = m.1 := by
      have hp := List.find?_some hfind
      exact of_decide_eq_true hp
    refine List.mem_map.mpr ⟨e, List.mem_of_find?_eq_some hfind, ?_⟩
    unfold LogEntry.summary
    rw [hid, hm]

/-- The two replicas have the same messages and the same reacting users. -/
structure SameReplica (x : String) (log log' : MessageLog) : Prop where
  messages : ∀ m, m ∈ (log'.entries x).map LogEntry.summary ↔
    m ∈ (log.entries x).map LogEntry.summary
  reactors : ∀ mid emoji user, user ∈ log'.reactors mid emoji ↔ user ∈ log.reactors mid emoji

/-- The two orders agree on the last edit and on the deletion of every message after it was
delivered, and on the last reaction of every user. -/
structure OrdersAgree (ops ops' : List ChannelOp) : Prop where
  text : ∀ raw ∈ posts ops, textAfter raw (after raw ops') = textAfter raw (after raw ops)
  deleted : ∀ raw ∈ posts ops, deletedAfter raw (after raw ops') = deletedAfter raw (after raw ops)
  reactions : ∀ mid emoji user,
    reactsLast mid emoji user ops' = reactsLast mid emoji user ops

/-- The log of a node that has nothing of the channel. -/
structure EmptyLog (x : String) (log : MessageLog) : Prop where
  entries : log.entries x = []
  reactors : ∀ mid emoji, log.reactors mid emoji = []

theorem view_run {log : MessageLog} (hempty : EmptyLog x log) (ops : List ChannelOp)
    (mid : String) : view x (run (applyOp x) log ops) mid = ops.foldl (viewStep mid) none := by
  have hinit : view x log mid = none := by
    unfold view MessageLog.getEntry
    rw [hempty.entries]
    rfl
  rw [← hinit]
  unfold run
  exact (List.foldl_hom (view x · mid) fun log op => (view_applyOp x log op mid).symm).symm

theorem uniqueIds_run {log : MessageLog} (hempty : EmptyLog x log)
    (ops : List ChannelOp) : UniqueIds x (run (applyOp x) log ops) := by
  refine List.foldlRecOn (motive := UniqueIds x) _ _ ?_ fun log h op _ => uniqueIds_applyOp h op
  unfold UniqueIds
  rw [hempty.entries]
  exact List.nodup_nil

theorem sameReplica_run_iff {log log' : MessageLog} (hempty : EmptyLog x log)
    (hempty' : EmptyLog x log') {ops ops' : List ChannelOp} (hdistinct : DistinctIds ops)
    (hperm : ops.Perm ops') :
    SameReplica x (run (applyOp x) log ops) (run (applyOp x) log' ops') ↔ OrdersAgree ops ops' := by
  have hdistinct' : DistinctIds ops' :=
    ((hperm.filterMap _).map _).nodup_iff.mp hdistinct
  have hnew : ∀ {log : MessageLog}, EmptyLog x log → ∀ (raw : RawMessage),
      view x log raw.id.text = none := fun h raw => view_run h [] raw.id.text
  have hreact : ∀ mid emoji user,
      (user ∈ (run (applyOp x) log' ops').reactors mid emoji ↔
        user ∈ (run (applyOp x) log ops).reactors mid emoji) ↔
      reactsLast mid emoji user ops' = reactsLast mid emoji user ops := by
    intro mid emoji user
    rw [mem_reactors_run (along_freshOp hdistinct fun raw _ => hnew hempty raw) hempty.reactors,
      mem_reactors_run (along_freshOp hdistinct' fun raw _ => hnew hempty' raw) hempty'.reactors]
    exact Bool.eq_iff_iff.symm
  have hmessages : (∀ m, m ∈ ((run (applyOp x) log' ops').entries x).map LogEntry.summary ↔
      m ∈ ((run (applyOp x) log ops).entries x).map LogEntry.summary) ↔
      ∀ mid, ops'.foldl (viewStep mid) none = ops.foldl (viewStep mid) none := by
    simp only [mem_summaries_iff (uniqueIds_run hempty ops),
      mem_summaries_iff (uniqueIds_run hempty' ops'), view_run hempty, view_run hempty']
    constructor
    · intro h mid
      exact Option.ext fun v => h (mid, v)
    · intro h m
      rw [h]
  have hviews := foldl_viewStep_eq_iff hdistinct hperm
  constructor
  · rintro ⟨hm, hr⟩
    have hall := hviews.mp (hmessages.mp hm)
    exact ⟨fun raw h => (hall raw h).1, fun raw h => (hall raw h).2,
      fun mid emoji user => (hreact mid emoji user).mp (hr mid emoji user)⟩
  · rintro ⟨htext, hdeleted, hr⟩
    exact ⟨hmessages.mpr (hviews.mpr fun raw h => ⟨htext raw h, hdeleted raw h⟩),
      fun mid emoji user => (hreact mid emoji user).mpr (hr mid emoji user)⟩

/-! ## Two nodes -/

section

variable (P : Prims)

/-- The content of a message that the node admits: it has the channel and a key that opens the
message, and a member signed it. -/
def admitted (t : Tables) (raw : RawMessage) : Option (Option MessageContent) :=
  match t.channels.lookup raw.channelId.text, t.channelKeys.lookup raw.channelId.text with
  | some ch, some key =>
    (decryptEither P (some key) (t.previousChannelKeys.lookup raw.channelId.text) raw.nonce
      raw.ciphertext).bind fun plain =>
        if authorVerified P t ch.communityId.text raw then some (P.decodeContent plain) else none
  | _, _ => none

/-- What the bytes of an event do to the log of a node with these tables. -/
def opOf (t : Tables) (data : Bytes) : Option ChannelOp :=
  match P.decodeEvent data with
  | some (.newMessage raw) => (admitted P t raw).map (ChannelOp.post raw)
  | some (.editMessage payload) => some (.change (.edit payload))
  | some (.deleteMessage payload) => some (.change (.delete payload))
  | _ => none

def messageIdOf (data : Bytes) : Option String :=
  match P.decodeEvent data with
  | some (.newMessage raw) => some raw.id.text
  | _ => none

def OfChannel (ch : ChannelId) : NetworkEvent → Prop
  | .newMessage raw => raw.channelId = ch
  | .editMessage payload => payload.channelId = ch
  | .deleteMessage payload => payload.channelId = ch
  | _ => False

/-- The node gets the bytes of an event on the topic of the channel. -/
def deliver (x : String) (s : AppState) (data : Bytes) : AppState :=
  s.handleChannelMessage P false (channelTopic x) data

end

section

variable {P : Prims}

theorem acceptMessage_log (c : String) (raw : RawMessage) (plaintext : Bytes) :
    (s.acceptMessage P c raw plaintext).messageLog =
      if authorVerified P s.toTables c raw then
        applyOp raw.channelId.text s.messageLog (.post raw (P.decodeContent plaintext))
      else s.messageLog := by
  unfold acceptMessage applyOp
  dsimp only
  cases authorVerified P s.toTables c raw with
  | false => rfl
  | true => cases (s.messageLog.getEntry raw.channelId.text raw.id.text).isSome <;> rfl

theorem handleNewMessage_log (topic : String) (data : Bytes) (raw : RawMessage) :
    (s.handleNewMessage P false topic data raw).messageLog =
      run (applyOp raw.channelId.text) s.messageLog
        ((admitted P s.toTables raw).map (ChannelOp.post raw)).toList := by
  unfold handleNewMessage admitted
  dsimp only
  cases s.channels.lookup raw.channelId.text with
  | none => rfl
  | some ch =>
    cases s.channelKeys.lookup raw.channelId.text with
    | none => rfl
    | some key =>
      dsimp only
      cases decryptEither P (some key) (s.previousChannelKeys.lookup raw.channelId.text) raw.nonce
        raw.ciphertext with
      | none => rfl
      | some plaintext =>
        dsimp only
        rw [acceptMessage_log, Option.bind_some]
        cases authorVerified P s.toTables ch.communityId.text raw <;> rfl

theorem toTables_deliver (hev : P.decodeEvent data = some ev) (hof : OfChannel ch ev)
    (s : AppState) : (deliver P ch.text s data).toTables = s.toTables := by
  unfold deliver handleChannelMessage
  rw [hev]
  cases ev with
  | newMessage raw =>
    dsimp only
    rcases handleNewMessage_cases (P := P) false s (channelTopic ch.text) data raw with
      h | ⟨ch', key, plaintext, -, -, -, h⟩ | h
    · rw [h]
    · rw [h]
      exact (acceptMessage_messageFrame s _ raw plaintext).toTables
    · rw [h]
      rfl
  | editMessage payload => exact (handleEditMessage_messageFrame s payload).toTables
  | deleteMessage payload => exact (handleDeleteMessage_messageFrame s payload).toTables
  | _ => exact absurd hof id

theorem messageLog_deliver
    (hev : P.decodeEvent data = some ev) (hof : OfChannel ch ev) (s : AppState) :
    (deliver P ch.text s data).messageLog =
      run (applyOp ch.text) s.messageLog (opOf P s.toTables data).toList := by
  unfold opOf
  rw [hev]
  cases ev with
  | newMessage raw =>
    obtain rfl : raw.channelId = ch := hof
    have hlog : (deliver P raw.channelId.text s data).messageLog =
        (s.handleNewMessage P false (channelTopic raw.channelId.text) data raw).messageLog := by
      unfold deliver handleChannelMessage
      rw [hev]
    rw [hlog, handleNewMessage_log]
  | editMessage payload =>
    obtain rfl : payload.channelId = ch := hof
    have hev' : P.decodeEvent data = some (Change.edit payload).event := hev
    exact messageLog_handleChannelMessage_of_change hev' false s _
  | deleteMessage payload =>
    obtain rfl : payload.channelId = ch := hof
    have hev' : P.decodeEvent data = some (Change.delete payload).event := hev
    exact messageLog_handleChannelMessage_of_change hev' false s _
  | _ => exact absurd hof id

/-- The log after a delivery of all events is that of their operations in the same order. -/
theorem messageLog_run {order : List Bytes}
    (hevents : ∀ data ∈ order, ∃ ev, P.decodeEvent data = some ev ∧ OfChannel ch ev)
    (s : AppState) :
    (run (deliver P ch.text) s order).messageLog =
      run (applyOp ch.text) s.messageLog (order.filterMap (opOf P s.toTables)) := by
  induction order generalizing s with
  | nil => rfl
  | cons data order ih =>
    obtain ⟨ev, hev, hof⟩ := hevents data List.mem_cons_self
    rw [run_cons, ih fun data' h => hevents data' (List.mem_cons_of_mem data h),
      toTables_deliver hev hof, messageLog_deliver hev hof]
    cases hop : opOf P s.toTables data with
    | none =>
      rw [List.filterMap_cons_none hop]
      rfl
    | some op =>
      rw [List.filterMap_cons_some hop]
      rfl

theorem messageIdOf_of_post {content : Option MessageContent}
    (h : opOf P t data = some (.post raw content)) : messageIdOf P data = some raw.id.text := by
  unfold opOf at h
  unfold messageIdOf
  split at h
  · next raw' hev =>
    obtain ⟨content', -, hpost⟩ := Option.map_eq_some_iff.mp h
    cases hpost
    rw [hev]
  · cases h
  · cases h
  · cases h

theorem ids_sublist (t : Tables) (order : List Bytes) :
    ((posts (order.filterMap (opOf P t))).map fun raw => raw.id.text).Sublist
      (order.filterMap (messageIdOf P)) := by
  induction order with
  | nil => exact .slnil
  | cons data order ih =>
    have htail := ih.trans ((List.sublist_cons_self data order).filterMap (messageIdOf P))
    cases hop : opOf P t data with
    | none =>
      rw [List.filterMap_cons_none hop]
      exact htail
    | some op =>
      rw [List.filterMap_cons_some hop]
      cases op with
      | post raw content =>
        rw [List.filterMap_cons_some (messageIdOf_of_post hop)]
        exact ih.cons_cons _
      | change c => exact htail

/-- The tables agree on what decides about a message of the channel: the community, the keys and
the members. -/
structure SameChannelTables (x : String) (t t' : Tables) : Prop where
  community : (t'.channels.lookup x).map ChannelManifest.communityId =
    (t.channels.lookup x).map ChannelManifest.communityId
  key : t'.channelKeys.lookup x = t.channelKeys.lookup x
  previousKey : t'.previousChannelKeys.lookup x = t.previousChannelKeys.lookup x
  members : t'.members = t.members

theorem admitted_congr
    (h : SameChannelTables raw.channelId.text t t') : admitted P t' raw = admitted P t raw := by
  have hcommunity := h.community
  unfold admitted
  rw [h.key, h.previousKey]
  cases hch : t.channels.lookup raw.channelId.text with
  | none =>
    rw [hch, Option.map_none, Option.map_eq_none_iff] at hcommunity
    rw [hcommunity]
  | some ch =>
    rw [hch, Option.map_some, Option.map_eq_some_iff] at hcommunity
    obtain ⟨ch', hch', hid⟩ := hcommunity
    rw [hch']
    cases t.channelKeys.lookup raw.channelId.text with
    | none => rfl
    | some key =>
      dsimp only
      unfold authorVerified member?
      rw [hid, h.members]

theorem opOf_congr (h : SameChannelTables ch.text t t') (hev : P.decodeEvent data = some ev)
    (hof : OfChannel ch ev) : opOf P t' data = opOf P t data := by
  unfold opOf
  rw [hev]
  cases ev with
  | newMessage raw =>
    obtain rfl : raw.channelId = ch := hof
    dsimp only
    rw [admitted_congr h]
  | _ => rfl

end

/-- Two nodes with the same keys and members and empty logs, and two orders in which they get the
same events of a channel. -/
structure Deliveries (P : Prims) where
  channel : ChannelId
  first : AppState
  second : AppState
  order : List Bytes
  order' : List Bytes
  perm : order.Perm order'
  events : ∀ data ∈ order, ∃ ev, P.decodeEvent data = some ev ∧ OfChannel channel ev
  ids : (order.filterMap (messageIdOf P)).Nodup
  same : SameChannelTables channel.text first.toTables second.toTables
  empty : EmptyLog channel.text first.messageLog
  empty' : EmptyLog channel.text second.messageLog

namespace Deliveries

variable {P : Prims} (d : Deliveries P)

def log : MessageLog := (run (deliver P d.channel.text) d.first d.order).messageLog

def log' : MessageLog := (run (deliver P d.channel.text) d.second d.order').messageLog

def ops : List ChannelOp := d.order.filterMap (opOf P d.first.toTables)

def ops' : List ChannelOp := d.order'.filterMap (opOf P d.first.toTables)

theorem log_eq : d.log = run (applyOp d.channel.text) d.first.messageLog d.ops :=
  messageLog_run d.events d.first

theorem log'_eq : d.log' = run (applyOp d.channel.text) d.second.messageLog d.ops' := by
  have hevents : ∀ data ∈ d.order', ∃ ev, P.decodeEvent data = some ev ∧ OfChannel d.channel ev :=
    fun data h => d.events data (d.perm.mem_iff.mpr h)
  have hops : d.order'.filterMap (opOf P d.second.toTables) = d.ops' := by
    refine List.filterMap_congr fun data h => ?_
    obtain ⟨ev, hev, hof⟩ := hevents data h
    exact opOf_congr d.same hev hof
  unfold log'
  rw [messageLog_run hevents, hops]

theorem ops_perm : d.ops.Perm d.ops' := d.perm.filterMap _

theorem distinctIds_ops : DistinctIds d.ops :=
  d.ids.sublist (ids_sublist d.first.toTables d.order)

/-- The two nodes end with the same messages and reacting users if and only if the two orders
agree. -/
theorem replicas_converge_iff :
    SameReplica d.channel.text d.log d.log' ↔ OrdersAgree d.ops d.ops' := by
  rw [log_eq, log'_eq]
  exact sameReplica_run_iff d.empty d.empty' d.distinctIds_ops d.ops_perm

end Deliveries

/-! ## Evaluations -/

namespace Sample

def greetingDeletion : DeleteMessagePayload :=
  ⟨greetingMessage.id, channel.id, greetingMessage.authorId,
    toBytes ((prims [] []).sign author.signingKey (deleteBytes greetingMessage.id channel.id)),
    env.now⟩

def overtakePrims : Prims :=
  prims [.newMessage greetingMessage, .deleteMessage greetingDeletion] [sentContent greeting]

def published : List Bytes :=
  let s := (author.messageSend overtakePrims env greeting).1
  let s := (s.messageDelete overtakePrims env
    ⟨community.text, channel.id.text, greetingMessage.id.text⟩).1
  s.commands.filterMap fun
    | .publish _ data => some data
    | _ => none

def reader (sk : Key) : AppState :=
  withChannel (withMembers (withCommunity (app sk) 30) [record 20 [.member]]) channel 70

/-- The second node gets the deletion before the message. -/
def overtaken : Deliveries overtakePrims where
  channel := channel.id
  first := reader 30
  second := reader 40
  order := [[0], [1]]
  order' := [[1], [0]]
  perm := List.Perm.swap _ _ _
  events := by
    intro data hdata
    rcases List.mem_pair.mp hdata with rfl | rfl
    · exact ⟨.newMessage greetingMessage, rfl, rfl⟩
    · exact ⟨.deleteMessage greetingDeletion, rfl, rfl⟩
  ids := by decide +kernel
  same := ⟨rfl, rfl, rfl, rfl⟩
  empty := ⟨rfl, fun _ _ => rfl⟩
  empty' := ⟨rfl, fun _ _ => rfl⟩

end Sample

open Sample in
/-- A deletion that overtakes its message is lost. -/
theorem overtaken_deletion_lost :
    published = overtaken.order ∧
      ¬ SameReplica overtaken.channel.text overtaken.log overtaken.log' := by
  refine ⟨by decide +kernel, fun h => ?_⟩
  have hmessages := h.messages
    (greetingMessage.id.text, greetingMessage.authorId.text, greetingMessage.ciphertext, true)
  exact absurd hmessages (by decide +kernel)

end BitCord
