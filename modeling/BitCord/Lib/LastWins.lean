import BitCord.Lib.Run
import Mathlib.Data.List.Nodup

/-!
# Sets where the last operation wins

A set is kept as a list: an element that is added goes to the end unless it is there, and a removal
takes it out. After any operations the list has the elements whose last operation added them, each
once, in the order in which they last came in (`enumerates_run`).
-/

namespace Lib

open Run

variable {α : Type*} [DecidableEq α]

/-- Add the element if the operation says `true`, else remove it. -/
def toggle (l : List α) (op : α × Bool) : List α :=
  if op.2 then if op.1 ∈ l then l else l ++ [op.1]
  else l.filter fun a => decide (a ≠ op.1)

/-- The last operation on `a` adds it. -/
def LastAdds (ops : List (α × Bool)) (a : α) : Prop :=
  (ops.filter fun op => decide (op.1 = a)).getLast? = some (a, true)

/-- Operation `i` adds `a`, which was not there before, and no later operation removes it. -/
def JoinedAt (ops : List (α × Bool)) (a : α) (i : Nat) : Prop :=
  ∃ before after, ops = before ++ (a, true) :: after ∧ before.length = i ∧
    ¬ LastAdds before a ∧ (a, false) ∉ after

/-- `a` came in before `b` and both have been there since. -/
def JoinedBefore (ops : List (α × Bool)) (a b : α) : Prop :=
  ∃ i j, JoinedAt ops a i ∧ JoinedAt ops b j ∧ i < j

/-- The list has the elements whose last operation added them, in the order in which they came. -/
structure Enumerates (ops : List (α × Bool)) (l : List α) : Prop where
  mem : ∀ a, a ∈ l ↔ LastAdds ops a
  nodup : l.Nodup
  joined : ∀ a ∈ l, ∃ i < ops.length, JoinedAt ops a i
  order : l.Pairwise (JoinedBefore ops)

variable {ops : List (α × Bool)} {a b : α} {l : List α}

theorem lastAdds_concat {op : α × Bool} :
    LastAdds (ops ++ [op]) a ↔ if op.1 = a then op.2 = true else LastAdds ops a := by
  unfold LastAdds
  rw [List.filter_append]
  split
  · next h =>
    have hlast : [op].filter (fun op => decide (op.1 = a)) = [op] := by simp [h]
    rw [hlast, List.getLast?_concat, Option.some.injEq, ← h]
    exact ⟨fun heq => congrArg Prod.snd heq, fun heq => Prod.ext rfl heq⟩
  · next h =>
    have hnone : [op].filter (fun op => decide (op.1 = a)) = [] := by simp [h]
    rw [hnone, List.append_nil]

theorem JoinedAt.concat {i : Nat} {op : α × Bool} (h : JoinedAt ops a i) (hop : op ≠ (a, false)) :
    JoinedAt (ops ++ [op]) a i := by
  obtain ⟨before, after, rfl, hlen, hnew, hkept⟩ := h
  refine ⟨before, after ++ [op], by simp, hlen, hnew, fun hmem => ?_⟩
  rcases List.mem_append.mp hmem with hafter | hlast
  · exact hkept hafter
  · exact hop (List.mem_singleton.mp hlast).symm

theorem JoinedBefore.concat {op : α × Bool} (h : JoinedBefore ops a b) (ha : op ≠ (a, false))
    (hb : op ≠ (b, false)) : JoinedBefore (ops ++ [op]) a b := by
  obtain ⟨i, j, hi, hj, hlt⟩ := h
  exact ⟨i, j, hi.concat ha, hj.concat hb, hlt⟩

/-- An element that was not there comes in with the last operation. -/
theorem joinedAt_length (h : ¬ LastAdds ops a) : JoinedAt (ops ++ [(a, true)]) a ops.length :=
  ⟨ops, [], rfl, rfl, h, List.not_mem_nil⟩

namespace Enumerates

theorem nil : Enumerates ([] : List (α × Bool)) [] where
  mem a := by simp [LastAdds]
  nodup := List.nodup_nil
  joined := nofun
  order := .nil

/-- An element that is there stays in its place. -/
theorem add_again (h : Enumerates ops l) (ha : a ∈ l) : Enumerates (ops ++ [(a, true)]) l where
  mem b := by
    rw [lastAdds_concat]
    split
    · next hb => exact iff_of_true (hb ▸ ha) rfl
    · exact h.mem b
  nodup := h.nodup
  joined b hb := by
    obtain ⟨i, hi, hjoined⟩ := h.joined b hb
    exact ⟨i, Nat.lt_trans hi (by simp), hjoined.concat (by simp)⟩
  order := h.order.imp fun hab => hab.concat (by simp) (by simp)

/-- An element that is not there goes to the end. -/
theorem add_new (h : Enumerates ops l) (ha : a ∉ l) :
    Enumerates (ops ++ [(a, true)]) (l ++ [a]) where
  mem b := by
    rw [lastAdds_concat, List.mem_append, List.mem_singleton]
    split
    · next hb => exact iff_of_true (.inr hb.symm) rfl
    · next hb => rw [or_iff_left (Ne.symm hb), h.mem b]
  nodup := List.nodup_append.mpr ⟨h.nodup, List.nodup_singleton a, fun b hb c hc heq => by
    rw [heq, List.mem_singleton.mp hc] at hb
    exact ha hb⟩
  joined b hb := by
    rcases List.mem_append.mp hb with hold | hnew
    · obtain ⟨i, hi, hjoined⟩ := h.joined b hold
      exact ⟨i, Nat.lt_trans hi (by simp), hjoined.concat (by simp)⟩
    · rw [List.mem_singleton.mp hnew]
      exact ⟨ops.length, by simp, joinedAt_length fun hlast => ha ((h.mem a).mpr hlast)⟩
  order := by
    refine List.pairwise_append.mpr ⟨?_, List.pairwise_singleton _ _, fun b hb c hc => ?_⟩
    · exact h.order.imp fun hab => hab.concat (by simp) (by simp)
    · rw [List.mem_singleton.mp hc]
      obtain ⟨i, hi, hjoined⟩ := h.joined b hb
      exact ⟨i, ops.length, hjoined.concat (by simp),
        joinedAt_length fun hlast => ha ((h.mem a).mpr hlast), hi⟩

/-- The others keep their places when an element goes. -/
theorem remove (h : Enumerates ops l) (a : α) :
    Enumerates (ops ++ [(a, false)]) (l.filter fun b => decide (b ≠ a)) where
  mem b := by
    rw [lastAdds_concat, List.mem_filter, decide_eq_true_iff]
    split
    · next hb => exact iff_of_false (fun hmem => hmem.2 hb.symm) (by simp)
    · next hb => rw [and_iff_left (Ne.symm hb), h.mem b]
  nodup := h.nodup.filter _
  joined b hb := by
    obtain ⟨hmem, hne⟩ := List.mem_filter.mp hb
    obtain ⟨i, hi, hjoined⟩ := h.joined b hmem
    refine ⟨i, Nat.lt_trans hi (by simp), hjoined.concat fun heq => ?_⟩
    exact of_decide_eq_true hne (congrArg Prod.fst heq).symm
  order := by
    have hne : ∀ b ∈ l.filter (fun b => decide (b ≠ a)), ((a, false) : α × Bool) ≠ (b, false) := by
      intro b hb heq
      exact of_decide_eq_true (List.mem_filter.mp hb).2 (congrArg Prod.fst heq).symm
    exact (h.order.filter _).imp_of_mem fun hb hc hbc => hbc.concat (hne _ hb) (hne _ hc)

/-- What one operation does to the list. -/
theorem step (h : Enumerates ops l) (op : α × Bool) : Enumerates (ops ++ [op]) (toggle l op) := by
  obtain ⟨a, add⟩ := op
  cases add with
  | true =>
    unfold toggle
    by_cases ha : a ∈ l
    · rw [if_pos rfl, if_pos ha]
      exact h.add_again ha
    · rw [if_pos rfl, if_neg ha]
      exact h.add_new ha
  | false => exact h.remove a

end Enumerates

/-- What the list is after any operations. -/
theorem enumerates_run (ops : List (α × Bool)) : Enumerates ops (run toggle [] ops) :=
  invariant_of_history toggle (I := Enumerates) .nil (fun _ op h => h.step op) ops

end Lib
