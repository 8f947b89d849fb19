import Mathlib.Algebra.Order.Ring.Nat
import Mathlib.Algebra.Order.BigOperators.Group.List

/-!
# Logs that forget their oldest entries

A log with a limit on its total size drops entries from its front until the rest fits. The newest
entry stays as long as it fits on its own. Logs that are kept apart by a key fit together when their
number times the limit does.
-/

namespace Lib

variable {α : Type*} (size : α → Nat) (limit : Nat)

/-- The entries that are left when the oldest ones are dropped until the total fits the limit. -/
def keepNewest : List α → List α
  | [] => []
  | a :: l => if ((a :: l).map size).sum ≤ limit then a :: l else keepNewest l

variable {size limit}

variable {l : List α}

theorem keepNewest_of_le (h : (l.map size).sum ≤ limit) : keepNewest size limit l = l := by
  cases l with
  | nil => rfl
  | cons a l => exact if_pos h

theorem keepNewest_cons_of_lt {a : α} (h : ¬ ((a :: l).map size).sum ≤ limit) :
    keepNewest size limit (a :: l) = keepNewest size limit l :=
  if_neg h

/-- The newest entry stays as long as it fits on its own. -/
theorem getLast?_keepNewest (h : ∀ a, l.getLast? = some a → size a ≤ limit) :
    (keepNewest size limit l).getLast? = l.getLast? := by
  induction l with
  | nil => rfl
  | cons a l ih =>
    unfold keepNewest
    split
    · rfl
    · next hbig =>
      cases l with
      | nil =>
        -- the only entry would have to be dropped, but it fits
        have hfits := h a rfl
        simp at hbig
        omega
      | cons b l =>
        rw [List.getLast?_cons_cons] at h ⊢
        exact ih h

theorem sum_keepNewest_le (l : List α) : ((keepNewest size limit l).map size).sum ≤ limit := by
  induction l with
  | nil => exact Nat.zero_le limit
  | cons a l ih =>
    unfold keepNewest
    split
    · next hfits => exact hfits
    · exact ih

/-- Entries in groups that all fit a limit fit the limit times the number of groups. -/
theorem sum_le_of_groups {κ : Type*} [DecidableEq κ] {f : α → κ} {ks : List κ}
    (hl : ∀ a ∈ l, f a ∈ ks)
    (hks : ∀ k ∈ ks, ((l.filter fun a => decide (f a = k)).map size).sum ≤ limit) :
    (l.map size).sum ≤ ks.length * limit := by
  induction ks generalizing l with
  | nil =>
    rw [List.eq_nil_iff_forall_not_mem.mpr fun a ha => List.not_mem_nil (hl a ha)]
    exact Nat.zero_le _
  | cons k ks ih =>
    -- the group of the first key is split off
    have hsplit := (List.filter_append_perm (fun a => decide (f a = k)) l).map size
    have hsum := hsplit.sum_eq
    rw [List.map_append, List.sum_append] at hsum
    have hfirst := hks k List.mem_cons_self
    have hrest : ((l.filter fun a => !decide (f a = k)).map size).sum ≤ ks.length * limit := by
      refine ih (fun a ha => ?_) fun k' hk' => ?_
      · obtain ⟨hmem, hne⟩ := List.mem_filter.mp ha
        exact (List.mem_cons.mp (hl a hmem)).resolve_left (by simpa using hne)
      · have hsub :
            ((l.filter fun a => !decide (f a = k)).filter fun a => decide (f a = k')).Sublist
              (l.filter fun a => decide (f a = k')) := List.filter_sublist.filter _
        exact ((hsub.map size).sum_le_sum fun _ _ => Nat.zero_le _).trans
          (hks k' (List.mem_cons_of_mem k hk'))
    rw [List.length_cons, Nat.succ_mul]
    omega

theorem keepNewest_map {β : Type*} (f : β → α) (l : List β) :
    keepNewest size limit (l.map f) = (keepNewest (fun b => size (f b)) limit l).map f := by
  induction l with
  | nil => rfl
  | cons b l ih =>
    rw [List.map_cons, keepNewest, keepNewest, ih, ← List.map_cons, List.map_map]
    split
    · next h =>
      rw [if_pos (by simpa [Function.comp_def] using h)]
    · next h =>
      rw [if_neg (by simpa [Function.comp_def] using h)]

end Lib
