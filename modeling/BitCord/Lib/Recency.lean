import Mathlib.Data.List.Nodup

/-!
# Bounded lists by recency

A list of at most `cap` entries with distinct keys. An entry that is added goes to the end. If its
key is there already, the old entry goes; if the list is full, the first entry goes, which is the
one that was added or refreshed the longest ago.
-/

namespace Lib

variable {κ α : Type*}

/-- The last time that `k` was added is before the last time that `k'` was. -/
def Older (added : List κ) (k k' : κ) : Prop :=
  ∃ before after, added = before ++ after ∧ k ∈ before ∧ k ∉ after ∧ k' ∈ after

variable {added : List κ}

theorem Older.concat {k k' x : κ} (h : Older added k k') (hne : k ≠ x) :
    Older (added ++ [x]) k k' := by
  obtain ⟨before, after, rfl, hk, hnot, hk'⟩ := h
  refine ⟨before, after ++ [x], List.append_assoc _ _ _, hk, ?_, List.mem_append_left _ hk'⟩
  intro hmem
  rcases List.mem_append.mp hmem with hafter | hlast
  · exact hnot hafter
  · exact hne (List.mem_singleton.mp hlast)

/-- What is added now is newer than all that was added before. -/
theorem older_concat_self {k x : κ} (hk : k ∈ added) (hne : k ≠ x) : Older (added ++ [x]) k x :=
  ⟨added, [x], rfl, hk, fun h => hne (List.mem_singleton.mp h), List.mem_singleton.mpr rfl⟩

/-- The entries stand in the order in which their keys were added last. -/
def InOrderOf (added : List κ) (l : List (κ × α)) : Prop :=
  (∀ e ∈ l, e.1 ∈ added) ∧ l.Pairwise fun e e' => Older added e.1 e'.1

theorem InOrderOf.concat {l : List (κ × α)} (h : InOrderOf added l) {x : κ}
    (hx : ∀ e ∈ l, e.1 ≠ x) : InOrderOf (added ++ [x]) l :=
  ⟨fun e he => List.mem_append_left _ (h.1 e he),
    h.2.imp_of_mem fun he _ hold => hold.concat (hx _ he)⟩

variable [DecidableEq κ]

/-- What stays of a list when an entry with the key `k` is added. -/
def keptFor (cap : Nat) (l : List (κ × α)) (k : κ) : List (κ × α) :=
  if l.any fun e => decide (e.1 = k) then l.eraseP fun e => decide (e.1 = k)
  else if l.length ≥ cap then l.drop 1
  else l

/-- The list after an entry was added. -/
def touch (cap : Nat) (l : List (κ × α)) (k : κ) (a : α) : List (κ × α) :=
  keptFor cap l k ++ [(k, a)]

variable {cap : Nat} {l : List (κ × α)} {k : κ}

theorem keptFor_sublist (cap : Nat) (l : List (κ × α)) (k : κ) : (keptFor cap l k).Sublist l := by
  unfold keptFor
  split
  · exact List.eraseP_sublist
  · split
    · exact List.drop_sublist 1 l
    · exact List.Sublist.refl l

theorem key_ne_of_mem_keptFor (hnodup : (l.map Prod.fst).Nodup) {e : κ × α}
    (he : e ∈ keptFor cap l k) : e.1 ≠ k := by
  unfold keptFor at he
  split at he
  · -- the erased entry was the only one with the key
    next hany =>
    rintro rfl
    obtain ⟨x, hx, hkey⟩ := List.any_eq_true.mp hany
    obtain ⟨y, before, after, hbefore, hy, hl, herase⟩ :=
      List.exists_of_eraseP (p := fun x => decide (x.1 = e.1)) hx hkey
    rw [herase] at he
    rw [hl, List.map_append, List.map_cons, of_decide_eq_true hy] at hnodup
    have hmem : e.1 ∈ before.map Prod.fst ++ after.map Prod.fst := by
      rw [← List.map_append]
      exact List.mem_map_of_mem he
    exact (List.nodup_cons.mp (List.nodup_middle.mp hnodup)).1 hmem
  · next hany =>
    have hl : e ∈ l := by
      split at he
      · exact List.mem_of_mem_drop he
      · exact he
    intro hkey
    exact hany (List.any_eq_true.mpr ⟨e, hl, decide_eq_true hkey⟩)

/-- All other entries stay, or the first entry goes, which is the oldest. -/
theorem InOrderOf.keptFor (h : InOrderOf added l) (cap : Nat) (k : κ) :
    (∀ e ∈ l, e.1 ≠ k → e ∈ keptFor cap l k) ∨
      ∃ old rest, l = old :: rest ∧ keptFor cap l k = rest ∧ ∀ e ∈ rest, Older added old.1 e.1 := by
  unfold Lib.keptFor
  split
  · refine .inl fun e he hne => (List.mem_eraseP_of_neg ?_).mpr he
    exact fun hkey => hne (of_decide_eq_true hkey)
  · split
    · cases l with
      | nil => exact .inl fun _ he _ => he
      | cons old rest => exact .inr ⟨old, rest, rfl, rfl, (List.pairwise_cons.mp h.2).1⟩
    · exact .inl fun _ he _ => he

theorem length_touch_le (hcap : 0 < cap) (h : l.length ≤ cap) (k : κ) (a : α) :
    (touch cap l k a).length ≤ cap := by
  unfold touch keptFor
  rw [List.length_append, List.length_singleton]
  split
  · next hany =>
    obtain ⟨x, hx, hkey⟩ := List.any_eq_true.mp hany
    have hlength := List.length_eraseP_of_mem hx (p := fun e => decide (e.1 = k)) hkey
    have hpos : 0 < l.length := List.length_pos_of_mem hx
    omega
  · split
    · rw [List.length_drop]
      omega
    · omega

theorem nodup_touch (hnodup : (l.map Prod.fst).Nodup) (k : κ) (a : α) :
    ((touch cap l k a).map Prod.fst).Nodup := by
  unfold touch
  rw [List.map_append, List.map_singleton]
  refine List.Nodup.append ((keptFor_sublist cap l k).map Prod.fst |>.nodup hnodup)
    (List.nodup_singleton k) ?_
  intro x hx hlast
  obtain ⟨e, he, rfl⟩ := List.mem_map.mp hx
  exact key_ne_of_mem_keptFor hnodup he (List.mem_singleton.mp hlast)

theorem InOrderOf.touch (h : InOrderOf added l) (hnodup : (l.map Prod.fst).Nodup) (k : κ) (a : α) :
    InOrderOf (added ++ [k]) (touch cap l k a) := by
  have hsub := keptFor_sublist cap l k
  constructor
  · intro e he
    rcases List.mem_append.mp he with hkept | hlast
    · exact List.mem_append_left _ (h.1 e (hsub.subset hkept))
    · rw [List.mem_singleton.mp hlast]
      exact List.mem_append_right _ (List.mem_singleton.mpr rfl)
  · refine List.pairwise_append.mpr ⟨?_, List.pairwise_singleton _ _, ?_⟩
    · exact (h.2.sublist hsub).imp_of_mem fun he _ hold =>
        hold.concat (key_ne_of_mem_keptFor hnodup he)
    · intro e he e' he'
      rw [List.mem_singleton.mp he']
      exact older_concat_self (h.1 e (hsub.subset he)) (key_ne_of_mem_keptFor hnodup he)

end Lib
