import BitCord.Lib.LastWins
import BitCord.MessageLog
import Mathlib.Data.String.Basic

/-!
# Reactions

The users who reacted to a message with an emoji are a list in a map of maps, and an emoji that
loses its last user is dropped. Each such list follows the calls about its message and emoji like a
set where the last operation wins (`reactors_run`, `reactions_last_wins`).
-/

namespace BitCord

open Lib Lib.Run

/-- A call of `react`, or of `unreact` if `isAdd` is false. -/
structure ReactionOp where
  messageId : String
  emoji : String
  userId : String
  isAdd : Bool

namespace ReactionOp

def apply (log : MessageLog) (op : ReactionOp) : MessageLog :=
  if op.isAdd then log.react op.messageId op.emoji op.userId
  else log.unreact op.messageId op.emoji op.userId

/-- The user and what it does, if the call is about this message and this emoji. -/
def on (m e : String) (op : ReactionOp) : Option (String × Bool) :=
  if m = op.messageId ∧ e = op.emoji then some (op.userId, op.isAdd) else none

end ReactionOp

/-- The calls about a message and an emoji. -/
def opsOn (m e : String) (ops : List ReactionOp) : List (String × Bool) :=
  ops.filterMap (ReactionOp.on m e)

variable {u : String} (ops : List ReactionOp)

namespace MessageLog

variable {log : MessageLog} {m e : String}

/-! ## The users of one emoji -/

theorem reactors_apply (log : MessageLog) (op : ReactionOp) (m e : String) :
    (op.apply log).reactors m e =
      ((op.on m e).map fun o => toggle (log.reactors m e) o).getD (log.reactors m e) := by
  have hiff : (op.apply log).reactors m e = if m = op.messageId ∧ e = op.emoji then
      toggle (log.reactors op.messageId op.emoji) (op.userId, op.isAdd)
      else log.reactors m e := by
    unfold ReactionOp.apply
    cases op.isAdd with
    | true => exact reactors_react log op.messageId op.emoji op.userId m e
    | false => exact reactors_unreact log op.messageId op.emoji op.userId m e
  rw [hiff]
  unfold ReactionOp.on
  split
  · next h =>
    rw [h.1, h.2]
    rfl
  · rfl

/-- The list of users is run by the calls about it. -/
theorem reactors_run (m e : String) :
    (run ReactionOp.apply empty ops).reactors m e = run toggle [] (opsOn m e ops) := by
  refine invariant_of_history ReactionOp.apply
    (I := fun ops log => log.reactors m e = run toggle [] (opsOn m e ops)) rfl
    (fun ops op h => ?_) ops
  unfold opsOn at h ⊢
  rw [reactors_apply, h, List.filterMap_append]
  cases hop : op.on m e with
  | none => simp [hop]
  | some o => simp [hop, run_append]

/-! ## Emojis without users -/

def NoEmptyGroups (log : MessageLog) : Prop :=
  ∀ m byEmoji, log.reactions.lookup m = some byEmoji →
    ∀ e users, AList.lookup e byEmoji = some users → users ≠ []

theorem NoEmptyGroups.react (h : NoEmptyGroups log) (m e u : String) :
    NoEmptyGroups (log.react m e u) := by
  intro m' byEmoji' hm e' users he
  unfold MessageLog.react at hm
  rw [Dict.lookup_upsert] at hm
  split at hm
  · cases hm
    rw [Dict.lookup_upsert] at he
    split at he
    · cases he
      split
      · next hmem => exact List.ne_nil_of_mem hmem
      · simp
    · -- the other emojis of the message are as before
      cases hold : log.reactions.lookup m with
      | none =>
        rw [hold] at he
        cases he
      | some byEmoji =>
        rw [hold] at he
        exact h m byEmoji hold e' users he
  · exact h m' byEmoji' hm e' users he

theorem NoEmptyGroups.unreact (h : NoEmptyGroups log) (m e u : String) :
    NoEmptyGroups (log.unreact m e u) := by
  intro m' byEmoji' hm e' users he
  unfold MessageLog.unreact at hm
  rw [Dict.lookup_adjust] at hm
  split at hm
  · obtain ⟨byEmoji, hold, rfl⟩ := Option.map_eq_some_iff.mp hm
    have hgroup := h m byEmoji hold
    cases hlist : byEmoji.lookup e with
    | none =>
      rw [hlist] at he
      exact hgroup e' users he
    | some list =>
      rw [hlist] at he
      dsimp only at he
      split at he
      · rw [Dict.lookup_erase_eq] at he
        split at he
        · cases he
        · exact hgroup e' users he
      · next hrest =>
        rw [Dict.lookup_insert_eq] at he
        split at he
        · cases he
          exact fun hnil => hrest (List.isEmpty_iff.mpr hnil)
        · exact hgroup e' users he
  · exact h m' byEmoji' hm e' users he

theorem noEmptyGroups_run : NoEmptyGroups (run ReactionOp.apply empty ops) := by
  refine invariant_of_history ReactionOp.apply (I := fun _ log => NoEmptyGroups log)
    (fun _ _ hm => ?_) (fun _ op h => ?_) ops
  · cases hm
  · unfold ReactionOp.apply
    split
    · exact h.react _ _ _
    · exact h.unreact _ _ _

/-- What is shown is every emoji that has users, with its users. -/
theorem NoEmptyGroups.mem_getReactions (h : NoEmptyGroups log) {users : List String} :
    (e, users) ∈ log.getReactions m ↔ log.reactors m e = users ∧ users ≠ [] := by
  unfold getReactions reactors
  cases hm : log.reactions.lookup m with
  | none =>
    refine iff_of_false List.not_mem_nil fun hc => hc.2 ?_
    exact hc.1.symm
  | some byEmoji =>
    dsimp only
    rw [List.mem_mergeSort, List.mem_map, Option.getD_some]
    constructor
    · rintro ⟨⟨e', users'⟩, hmem, heq⟩
      cases heq
      have hlookup : AList.lookup e' byEmoji = some users' := AList.mem_lookup_iff.mpr hmem
      rw [hlookup]
      exact ⟨rfl, h m byEmoji hm e' users' hlookup⟩
    · rintro ⟨heq, hne⟩
      cases hlookup : AList.lookup e byEmoji with
      | none =>
        rw [hlookup] at heq
        exact absurd heq.symm hne
      | some users' =>
        rw [hlookup] at heq
        cases heq
        exact ⟨⟨e, users'⟩, AList.mem_lookup_iff.mp hlookup, rfl⟩

/-- The emojis are shown in their order, each once. -/
theorem sorted_getReactions (log : MessageLog) (m : String) :
    ((log.getReactions m).map Prod.fst).Pairwise (· < ·) := by
  unfold getReactions
  cases log.reactions.lookup m with
  | none => exact .nil
  | some byEmoji =>
    dsimp only
    set l := byEmoji.entries.map fun g => (g.1, g.2) with hl
    have hsorted : (l.mergeSort fun a b => decide (a.1 ≤ b.1)).Pairwise
        fun a b => decide (a.1 ≤ b.1) = true := by
      refine List.pairwise_mergeSort (fun a b c hab hbc => ?_) (fun a b => ?_) l
      · rw [decide_eq_true_iff] at *
        exact hab.trans hbc
      · rw [Bool.or_eq_true, decide_eq_true_iff, decide_eq_true_iff]
        exact le_total _ _
    have hkeys : (l.map Prod.fst).Nodup := by
      rw [hl, List.map_map]
      exact byEmoji.nodupKeys
    have hdistinct : ((l.mergeSort fun a b => decide (a.1 ≤ b.1)).map Prod.fst).Nodup :=
      ((List.mergeSort_perm l _).map _).nodup_iff.mpr hkeys
    refine List.pairwise_map.mpr ?_
    refine (hsorted.and (List.pairwise_map.mp hdistinct)).imp fun h => ?_
    exact lt_of_le_of_ne (of_decide_eq_true h.1) h.2

/-! ## Answers -/

theorem reactAnswer_eq_true_iff : log.reactAnswer m e u = true ↔ u ∉ log.reactors m e := by
  unfold reactAnswer
  split
  · next h => exact iff_of_false (by decide) fun hnot => hnot h
  · next h => exact iff_of_true rfl h

theorem unreactAnswer_eq_true_iff : log.unreactAnswer m e u = true ↔ u ∈ log.reactors m e := by
  unfold unreactAnswer reactors
  cases log.reactions.lookup m with
  | none => simp
  | some byEmoji =>
    cases hlist : byEmoji.lookup e with
    | none => simp [hlist]
    | some users => simp [hlist, List.length_filter_lt_length_iff_exists]

end MessageLog

/-- After any calls, `get_reactions` shows exactly the emojis that the last call of some user about
them reacts with, in their order, and with each the users whose last call does, in the order in
which they began to. A reaction is new if the last call of the user about it is not one, and there
is one to remove if it is. -/
theorem reactions_last_wins (ops : List ReactionOp) :
    let log := run ReactionOp.apply MessageLog.empty ops
    (∀ m, ((log.getReactions m).map Prod.fst).Pairwise (· < ·) ∧
      (∀ e, e ∈ (log.getReactions m).map Prod.fst ↔ ∃ u, LastAdds (opsOn m e ops) u) ∧
      ∀ e users, (e, users) ∈ log.getReactions m → users.Nodup ∧
        (∀ u, u ∈ users ↔ LastAdds (opsOn m e ops) u) ∧
        users.Pairwise (JoinedBefore (opsOn m e ops))) ∧
    ∀ m e u, (log.reactAnswer m e u = true ↔ ¬ LastAdds (opsOn m e ops) u) ∧
      (log.unreactAnswer m e u = true ↔ LastAdds (opsOn m e ops) u) := by
  intro log
  have hgroups : log.NoEmptyGroups := MessageLog.noEmptyGroups_run ops
  have hlist : ∀ m e, Enumerates (opsOn m e ops) (log.reactors m e) := by
    intro m e
    rw [MessageLog.reactors_run]
    exact enumerates_run _
  refine ⟨fun m => ⟨log.sorted_getReactions m, fun e => ?_, fun e users hshown => ?_⟩,
    fun m e u => ?_⟩
  · rw [List.mem_map]
    constructor
    · rintro ⟨⟨e', users⟩, hshown, rfl⟩
      obtain ⟨rfl, hne⟩ := hgroups.mem_getReactions.mp hshown
      obtain ⟨u, hu⟩ := List.exists_mem_of_ne_nil _ hne
      exact ⟨u, ((hlist m e').mem u).mp hu⟩
    · rintro ⟨u, hlast⟩
      have hu := ((hlist m e).mem u).mpr hlast
      exact ⟨_, hgroups.mem_getReactions.mpr ⟨rfl, List.ne_nil_of_mem hu⟩, rfl⟩
  · obtain ⟨rfl, -⟩ := hgroups.mem_getReactions.mp hshown
    exact ⟨(hlist m e).nodup, (hlist m e).mem, (hlist m e).order⟩
  · rw [MessageLog.reactAnswer_eq_true_iff, MessageLog.unreactAnswer_eq_true_iff,
      (hlist m e).mem u]
    exact ⟨Iff.rfl, Iff.rfl⟩

end BitCord
