import Mathlib.Data.List.Destutter
import Mathlib.Data.List.Perm.Basic
import Mathlib.Order.Lattice

/-!
# The nearest elements of a list

Elements are compared by the distance of their keys, and the distance determines the key. Sorting
then brings elements with one key together, so that removing neighbours with equal keys removes all
repetitions, and the first `n` elements are the `n` nearest ones.
-/

namespace Lib

variable {α κ δ : Type*} [LinearOrder δ]

/-- The list `r` has the `n` elements of `l` with the least distances, in the order of the
distances. -/
structure Nearest (d : α → δ) (n : Nat) (l r : List α) : Prop where
  length : r.length = min n l.length
  mem : ∀ x ∈ r, x ∈ l
  increasing : r.Pairwise fun a b => d a < d b
  rest : ∀ x ∈ l, x ∉ r → ∀ y ∈ r, d y < d x

/-- The first elements of a sorted list are the nearest. -/
theorem nearest_take {d : α → δ} {s l : List α} (hs : s.Pairwise fun a b => d a < d b)
    (hperm : s.Perm l) (n : Nat) : Nearest d n l (s.take n) where
  length := by rw [List.length_take, hperm.length_eq]
  mem x hx := hperm.mem_iff.mp (List.mem_of_mem_take hx)
  increasing := hs.sublist (List.take_sublist n s)
  rest := by
    intro x hx hnot y hy
    have hsplit : (s.take n ++ s.drop n).Pairwise fun a b => d a < d b := by
      rwa [List.take_append_drop]
    have hdrop : x ∈ s.drop n := by
      have hmem : x ∈ s.take n ++ s.drop n := by
        rw [List.take_append_drop]
        exact hperm.mem_iff.mpr hx
      exact (List.mem_append.mp hmem).resolve_left hnot
    exact (List.pairwise_append.mp hsplit).2.2 y hy x hdrop

/-- A sorted list whose neighbours differ is increasing. -/
theorem pairwise_lt_of_isChain_ne {d : α → δ} {s : List α} (hle : s.Pairwise fun a b => d a ≤ d b)
    (hne : s.IsChain fun a b => d a ≠ d b) : s.Pairwise fun a b => d a < d b := by
  induction s with
  | nil => exact .nil
  | cons a s ih =>
    obtain ⟨hfirst, hrest⟩ := List.pairwise_cons.mp hle
    refine List.pairwise_cons.mpr ⟨fun b hb => ?_, ih hrest hne.tail⟩
    cases s with
    | nil => cases hb
    | cons c s =>
      -- `a` is below its neighbour, which is not above any later element
      have hac : d a < d c :=
        lt_of_le_of_ne (hfirst c List.mem_cons_self) (hne.rel_head? rfl)
      rcases List.mem_cons.mp hb with rfl | hlater
      · exact hac
      · exact hac.trans_le ((List.pairwise_cons.mp hrest).1 b hlater)

/-! ## Sorting by distance -/

variable {l : List α} {k : κ} {x : α}

section

variable (key : α → κ) (d : κ → δ)

/-- A stable sort by the distance of the keys. -/
def sortNear (l : List α) : List α := l.mergeSort fun a b => decide (d (key a) ≤ d (key b))

/-- The same with each key once. -/
def dedupNear [DecidableEq κ] (l : List α) : List α :=
  (sortNear key d l).destutter fun a b => key a ≠ key b

theorem sortNear_perm (l : List α) : (sortNear key d l).Perm l := List.mergeSort_perm l _

theorem pairwise_sortNear (l : List α) :
    (sortNear key d l).Pairwise fun a b => d (key a) ≤ d (key b) := by
  have htrans : ∀ a b c : α, decide (d (key a) ≤ d (key b)) = true →
      decide (d (key b) ≤ d (key c)) = true → decide (d (key a) ≤ d (key c)) = true := by
    intro a b c hab hbc
    exact decide_eq_true ((of_decide_eq_true hab).trans (of_decide_eq_true hbc))
  have htotal : ∀ a b : α,
      (decide (d (key a) ≤ d (key b)) || decide (d (key b) ≤ d (key a))) = true := by
    intro a b
    rcases le_total (d (key a)) (d (key b)) with h | h
    · rw [decide_eq_true h, Bool.true_or]
    · rw [decide_eq_true h, Bool.or_true]
  exact (List.pairwise_mergeSort htrans htotal l).imp fun h => of_decide_eq_true h

variable {key d}

/-- Distinct keys have distinct distances, so a sorted list without repetitions is increasing. -/
theorem pairwise_lt_sortNear (hd : Function.Injective d) (h : (l.map key).Nodup) :
    (sortNear key d l).Pairwise fun a b => d (key a) < d (key b) := by
  have hne : (sortNear key d l).Pairwise fun a b => key a ≠ key b := by
    have hnodup : ((sortNear key d l).map key).Nodup :=
      ((sortNear_perm key d l).map key).nodup_iff.mpr h
    exact List.pairwise_map.mp hnodup
  refine ((pairwise_sortNear key d l).and hne).imp fun hab => ?_
  exact lt_of_le_of_ne hab.1 fun heq => hab.2 (hd heq)

/-- The nearest elements of a list without repetitions. -/
theorem nearest_take_sortNear (hd : Function.Injective d) (h : (l.map key).Nodup) (n : Nat) :
    Nearest (fun a => d (key a)) n l ((sortNear key d l).take n) :=
  nearest_take (pairwise_lt_sortNear hd h) (sortNear_perm key d l) n

/-! ## Removing repetitions -/

variable [DecidableEq κ]

theorem exists_mem_destutter'_of_mem {l : List α} {a x : α} (hx : x ∈ a :: l) :
    ∃ y ∈ l.destutter' (fun a b => key a ≠ key b) a, key y = key x := by
  induction l generalizing a x with
  | nil => exact ⟨a, List.mem_singleton.mpr rfl, by rw [List.mem_singleton.mp hx]⟩
  | cons b l ih =>
    by_cases hab : key a ≠ key b
    · rw [List.destutter'_cons_pos l hab]
      rcases List.mem_cons.mp hx with rfl | hrest
      · exact ⟨x, List.mem_cons_self, rfl⟩
      · obtain ⟨y, hy, hkey⟩ := ih hrest
        exact ⟨y, List.mem_cons_of_mem a hy, hkey⟩
    · -- `b` has the key of the running element, which stays
      rw [List.destutter'_cons_neg l hab]
      rcases List.mem_cons.mp hx with rfl | hrest
      · exact ih List.mem_cons_self
      · rcases List.mem_cons.mp hrest with rfl | hlater
        · obtain ⟨y, hy, hkey⟩ := ih (a := a) List.mem_cons_self
          exact ⟨y, hy, hkey.trans (not_not.mp hab)⟩
        · exact ih (List.mem_cons_of_mem a hlater)

/-- Nothing is lost from a list when it loses its repetitions. -/
theorem mem_destutter_ne {l : List κ} : k ∈ l.destutter (· ≠ ·) ↔ k ∈ l := by
  refine ⟨fun h => (List.destutter_sublist _ _).subset h, fun h => ?_⟩
  cases l with
  | nil => cases h
  | cons a l =>
    have hkept : ∃ y ∈ l.destutter' (fun a b => a ≠ b) a, y = k :=
      @exists_mem_destutter'_of_mem κ κ id _ l a k h
    obtain ⟨y, hy, rfl⟩ := hkept
    exact hy

/-- In a sorted list equal elements are neighbours, so that no repetition stays. -/
theorem nodup_destutter_ne (hd : Function.Injective d) {l : List κ}
    (h : l.Pairwise fun a b => d a ≤ d b) : (l.destutter (· ≠ ·)).Nodup := by
  have hle : (l.destutter (· ≠ ·)).Pairwise fun a b => d a ≤ d b :=
    h.sublist (List.destutter_sublist _ _)
  have hne : (l.destutter (· ≠ ·)).IsChain fun a b => d a ≠ d b :=
    (List.isChain_destutter _ _).imp fun _ _ hab heq => hab (hd heq)
  exact (pairwise_lt_of_isChain_ne hle hne).imp fun hlt heq => hlt.ne (congrArg d heq)

theorem mem_of_mem_dedupNear (h : x ∈ dedupNear key d l) : x ∈ l :=
  (sortNear_perm key d l).mem_iff.mp ((List.destutter_sublist _ _).subset h)

theorem exists_mem_dedupNear_of_mem (h : x ∈ l) : ∃ y ∈ dedupNear key d l, key y = key x := by
  have hsorted : x ∈ sortNear key d l := (sortNear_perm key d l).mem_iff.mpr h
  unfold dedupNear
  cases hl : sortNear key d l with
  | nil =>
    rw [hl] at hsorted
    cases hsorted
  | cons a rest =>
    rw [hl] at hsorted
    exact exists_mem_destutter'_of_mem hsorted

theorem mem_map_dedupNear : k ∈ (dedupNear key d l).map key ↔ k ∈ l.map key := by
  constructor
  · intro h
    obtain ⟨x, hx, rfl⟩ := List.mem_map.mp h
    exact List.mem_map_of_mem (mem_of_mem_dedupNear hx)
  · intro h
    obtain ⟨x, hx, rfl⟩ := List.mem_map.mp h
    have hkept : ∃ y ∈ dedupNear key d l, key y = key x := exists_mem_dedupNear_of_mem hx
    obtain ⟨y, hy, hkey⟩ := hkept
    exact hkey ▸ List.mem_map_of_mem hy

/-- After the sort, equal keys are neighbours: the result is increasing. -/
theorem pairwise_lt_dedupNear (hd : Function.Injective d) (l : List α) :
    (dedupNear key d l).Pairwise fun a b => d (key a) < d (key b) := by
  have hle : (dedupNear key d l).Pairwise fun a b => d (key a) ≤ d (key b) :=
    (pairwise_sortNear key d l).sublist (List.destutter_sublist _ _)
  have hne : (dedupNear key d l).IsChain fun a b => d (key a) ≠ d (key b) :=
    (List.isChain_destutter _ _).imp fun _ _ hab heq => hab (hd heq)
  exact pairwise_lt_of_isChain_ne hle hne

/-- Where no key is repeated, nothing is removed. -/
theorem dedupNear_eq_sortNear (h : (l.map key).Nodup) : dedupNear key d l = sortNear key d l := by
  have hnodup : ((sortNear key d l).map key).Nodup :=
    ((sortNear_perm key d l).map key).nodup_iff.mpr h
  exact List.destutter_of_isChain _ _ (List.pairwise_map.mp hnodup).isChain

end

end Lib
