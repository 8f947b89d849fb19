import Mathlib.Order.Lattice
import Mathlib.Data.List.Basic

/-!
# Ordered key-value tables

An embedded key-value store keeps its entries in key order and answers point and range queries.
The table here is the list of its entries, strictly sorted by key; the sortedness is a field, so
every operation keeps it.
-/

namespace Lib

/-- A table with keys `κ` in ascending order. -/
structure OrdMap (κ α : Type) [LinearOrder κ] where
  entries : List (κ × α)
  sorted : entries.Pairwise fun a b => a.1 < b.1

namespace OrdMap

variable {κ α : Type} [LinearOrder κ]

def empty : OrdMap κ α := ⟨[], List.Pairwise.nil⟩

/-- Put `(k, a)` at its place, replacing an entry of the same key. -/
def insertEntry (k : κ) (a : α) : List (κ × α) → List (κ × α)
  | [] => [(k, a)]
  | e :: l =>
    if k < e.1 then (k, a) :: e :: l
    else if k = e.1 then (k, a) :: l
    else e :: insertEntry k a l

variable {e : κ × α} {k : κ} {lo hi : κ} {l : List (κ × α)} {p : κ → Bool} (m : OrdMap κ α) (a : α)

theorem mem_insertEntry {a : α} (h : e ∈ insertEntry k a l) : e = (k, a) ∨ e ∈ l := by
  induction l with
  | nil => exact .inl (List.mem_singleton.mp h)
  | cons e' l ih =>
    unfold insertEntry at h
    split at h
    · exact List.mem_cons.mp h
    · split at h
      · rcases List.mem_cons.mp h with h | h
        · exact .inl h
        · exact .inr (List.mem_cons_of_mem e' h)
      · rcases List.mem_cons.mp h with h | h
        · exact .inr (by rw [h]; exact List.mem_cons_self)
        · exact (ih h).imp_right (List.mem_cons_of_mem e')

theorem sorted_insertEntry (k : κ) (a : α) (hl : l.Pairwise fun a b => a.1 < b.1) :
    (insertEntry k a l).Pairwise fun a b => a.1 < b.1 := by
  induction l with
  | nil => exact List.pairwise_singleton _ _
  | cons e l ih =>
    obtain ⟨hhead, htail⟩ := List.pairwise_cons.mp hl
    unfold insertEntry
    split
    · next hlt =>
      refine List.pairwise_cons.mpr ⟨fun x hx => ?_, hl⟩
      rcases List.mem_cons.mp hx with rfl | hx
      · exact hlt
      · exact hlt.trans (hhead x hx)
    · split
      · next heq =>
        exact List.pairwise_cons.mpr ⟨fun x hx => heq ▸ hhead x hx, htail⟩
      · next hnlt hne =>
        refine List.pairwise_cons.mpr ⟨fun x hx => ?_, ih htail⟩
        rcases mem_insertEntry hx with rfl | hx
        · exact lt_of_le_of_ne (not_lt.mp hnlt) (Ne.symm hne)
        · exact hhead x hx

/-- Write the value of one key. -/
def insert (m : OrdMap κ α) (k : κ) (a : α) : OrdMap κ α :=
  ⟨insertEntry k a m.entries, sorted_insertEntry k a m.sorted⟩

/-- Keep the entries whose key satisfies `p`. -/
def keep (m : OrdMap κ α) (p : κ → Bool) : OrdMap κ α :=
  ⟨m.entries.filter fun e => p e.1, m.sorted.sublist List.filter_sublist⟩

/-- Remove one key. -/
def erase (m : OrdMap κ α) (k : κ) : OrdMap κ α :=
  m.keep fun k' => !decide (k' = k)

/-- Remove the keys of a closed range. -/
def eraseRange (m : OrdMap κ α) (lo hi : κ) : OrdMap κ α :=
  m.keep fun k => !(decide (lo ≤ k) && decide (k ≤ hi))

/-- The value of one key. -/
def get (m : OrdMap κ α) (k : κ) : Option α :=
  (m.entries.find? fun e => decide (e.1 = k)).map Prod.snd

/-- The entries of a closed range, in key order. -/
def range (m : OrdMap κ α) (lo hi : κ) : List (κ × α) :=
  m.entries.filter fun e => decide (lo ≤ e.1) && decide (e.1 ≤ hi)

/-! ## Entries -/

theorem mem_insert {m : OrdMap κ α} {a : α} :
    e ∈ (m.insert k a).entries ↔ e = (k, a) ∨ e ∈ m.entries ∧ e.1 ≠ k := by
  obtain ⟨l, hl⟩ := m
  show e ∈ insertEntry k a l ↔ _
  induction l with
  | nil => simp [insertEntry]
  | cons e' l ih =>
    obtain ⟨hhead, htail⟩ := List.pairwise_cons.mp hl
    have ih := ih htail
    unfold insertEntry
    split
    · next hlt =>
      -- every old key is larger than the new one
      have hne : ∀ x ∈ e' :: l, x.1 ≠ k := by
        intro x hx
        rcases List.mem_cons.mp hx with rfl | hx
        · exact hlt.ne'
        · exact (hlt.trans (hhead x hx)).ne'
      rw [List.mem_cons]
      exact or_congr_right ⟨fun h => ⟨h, hne e h⟩, And.left⟩
    · split
      · next heq =>
        have hne : ∀ x ∈ l, x.1 ≠ k := fun x hx => heq ▸ (hhead x hx).ne'
        rw [List.mem_cons, List.mem_cons]
        refine or_congr_right ⟨fun h => ⟨.inr h, hne e h⟩, fun ⟨h, hk⟩ => ?_⟩
        exact h.resolve_left fun he => hk (he ▸ heq.symm)
      · next hne =>
        rw [List.mem_cons, ih, List.mem_cons]
        constructor
        · rintro (rfl | h | h)
          · exact .inr ⟨.inl rfl, Ne.symm hne⟩
          · exact .inl h
          · exact .inr ⟨.inr h.1, h.2⟩
        · rintro (h | ⟨h | h, hk⟩)
          · exact .inr (.inl h)
          · exact .inl h
          · exact .inr (.inr ⟨h, hk⟩)

theorem mem_keep {m : OrdMap κ α} : e ∈ (m.keep p).entries ↔ e ∈ m.entries ∧ p e.1 = true :=
  List.mem_filter

/-- The keys determine the values. -/
theorem eq_of_mem {m : OrdMap κ α} {a b : α} (ha : (k, a) ∈ m.entries) (hb : (k, b) ∈ m.entries) :
    a = b := by
  obtain ⟨l, hl⟩ := m
  induction l with
  | nil => cases ha
  | cons e l ih =>
    obtain ⟨hhead, htail⟩ := List.pairwise_cons.mp hl
    rcases List.mem_cons.mp ha with rfl | ha' <;> rcases List.mem_cons.mp hb with hb' | hb'
    · exact (congrArg Prod.snd hb').symm
    · exact absurd (hhead (k, b) hb') (lt_irrefl k)
    · subst hb'
      exact absurd (hhead (k, a) ha') (lt_irrefl k)
    · exact ih htail ha' hb'

theorem get_eq_some_iff {m : OrdMap κ α} {a : α} : m.get k = some a ↔ (k, a) ∈ m.entries := by
  unfold get
  constructor
  · intro h
    obtain ⟨⟨k', a'⟩, hfind, rfl⟩ := Option.map_eq_some_iff.mp h
    have hk : k' = k := by simpa using List.find?_some hfind
    exact hk ▸ List.mem_of_find?_eq_some hfind
  · intro h
    cases hfind : m.entries.find? fun e => decide (e.1 = k) with
    | none =>
      have := List.find?_eq_none.mp hfind (k, a) h
      simp at this
    | some e =>
      obtain ⟨k', a'⟩ := e
      have hk : k' = k := by simpa using List.find?_some hfind
      subst hk
      exact congrArg some (eq_of_mem (List.mem_of_find?_eq_some hfind) h)

/-! ## Point queries -/

theorem get_insert (k k' : κ) (a : α) :
    (m.insert k a).get k' = if k' = k then some a else m.get k' := by
  apply Option.ext
  intro b
  rw [get_eq_some_iff, mem_insert]
  by_cases hk : k' = k
  · simp [hk, eq_comm]
  · simp [hk, get_eq_some_iff]

/-- A key that is there keeps its place. -/
theorem keys_insert_of_get {b : α} (h : m.get k = some b) :
    (m.insert k a).entries.map Prod.fst = m.entries.map Prod.fst := by
  have hk : k ∈ m.entries.map Prod.fst :=
    List.mem_map.mpr ⟨(k, b), get_eq_some_iff.mp h, rfl⟩
  obtain ⟨l, hl⟩ := m
  show (insertEntry k a l).map Prod.fst = l.map Prod.fst
  replace hk : k ∈ l.map Prod.fst := hk
  clear h
  induction l with
  | nil => cases hk
  | cons e l ih =>
    rw [List.pairwise_cons] at hl
    unfold insertEntry
    split
    · next hlt =>
      -- a key below the first one is in no sorted list
      rcases List.mem_cons.mp hk with rfl | hk
      · exact absurd hlt (lt_irrefl _)
      · obtain ⟨e', he', rfl⟩ := List.mem_map.mp hk
        exact absurd (hlt.trans (hl.1 e' he')) (lt_irrefl _)
    · split
      · next heq => rw [List.map_cons, List.map_cons, heq]
      · next hne =>
        have hk' : k ∈ l.map Prod.fst := (List.mem_cons.mp hk).resolve_left hne
        rw [List.map_cons, List.map_cons, ih hl.2 hk']

theorem get_keep (p : κ → Bool) (k : κ) : (m.keep p).get k = if p k then m.get k else none := by
  apply Option.ext
  intro b
  rw [get_eq_some_iff, mem_keep]
  by_cases hp : p k = true <;> simp [hp, get_eq_some_iff]

/-! ## Range queries -/

theorem range_insert_of_notMem {k lo hi : κ} (hk : ¬ (lo ≤ k ∧ k ≤ hi)) :
    (m.insert k a).range lo hi = m.range lo hi := by
  obtain ⟨l, hl⟩ := m
  show (insertEntry k a l).filter _ = l.filter _
  have hnot : (decide (lo ≤ k) && decide (k ≤ hi)) = false := by simpa using hk
  induction l with
  | nil => simp [insertEntry, hnot]
  | cons e l ih =>
    unfold insertEntry
    split
    · rw [List.filter_cons, hnot]
      rfl
    · split
      · next heq =>
        rw [List.filter_cons, List.filter_cons, hnot, ← heq, hnot]
        rfl
      · rw [List.filter_cons, List.filter_cons, ih (List.pairwise_cons.mp hl).2]

theorem range_keep_of_forall (hp : ∀ k, lo ≤ k → k ≤ hi → p k = true) :
    (m.keep p).range lo hi = m.range lo hi := by
  show (m.entries.filter _).filter _ = m.entries.filter _
  rw [List.filter_filter]
  apply List.filter_congr
  intro e _
  by_cases h : lo ≤ e.1 ∧ e.1 ≤ hi
  · simp [h.1, h.2, hp e.1 h.1 h.2]
  · have hnot : (decide (lo ≤ e.1) && decide (e.1 ≤ hi)) = false := by simpa using h
    rw [hnot]
    rfl

theorem mem_range {m : OrdMap κ α} : e ∈ m.range lo hi ↔ e ∈ m.entries ∧ lo ≤ e.1 ∧ e.1 ≤ hi := by
  unfold range
  rw [List.mem_filter, Bool.and_eq_true, decide_eq_true_iff, decide_eq_true_iff]

theorem sorted_range (lo hi : κ) : (m.range lo hi).Pairwise fun a b => a.1 < b.1 :=
  m.sorted.sublist List.filter_sublist

/-- Lists in key order are equal when they have the same members. -/
theorem eq_of_sorted {l l' : List (κ × α)} (hl : l.Pairwise fun a b => a.1 < b.1)
    (hl' : l'.Pairwise fun a b => a.1 < b.1) (h : ∀ e, e ∈ l ↔ e ∈ l') : l = l' := by
  have hnodup : ∀ {l : List (κ × α)}, (l.Pairwise fun a b => a.1 < b.1) → l.Nodup :=
    fun hs => hs.imp fun hlt heq => hlt.ne (congrArg Prod.fst heq)
  have hperm : l.Perm l' := (List.perm_ext_iff_of_nodup (hnodup hl) (hnodup hl')).mpr h
  exact hperm.eq_of_pairwise (fun a b _ _ hab hba => absurd hba hab.asymm) hl hl'

/-- A key above all the keys of the range goes to its end. -/
theorem range_insert_of_forall_lt {k lo hi : κ} (hlo : lo ≤ k) (hhi : k ≤ hi)
    (hlt : ∀ e ∈ m.range lo hi, e.1 < k) :
    (m.insert k a).range lo hi = m.range lo hi ++ [(k, a)] := by
  apply eq_of_sorted (sorted_range _ lo hi)
  · rw [List.pairwise_append]
    refine ⟨sorted_range m lo hi, List.pairwise_singleton _ _, fun e he x hx => ?_⟩
    rw [List.mem_singleton.mp hx]
    exact hlt e he
  · intro e
    rw [mem_range, mem_insert, List.mem_append, List.mem_singleton, mem_range]
    constructor
    · rintro ⟨rfl | ⟨hmem, -⟩, hbounds⟩
      · exact .inr rfl
      · exact .inl ⟨hmem, hbounds⟩
    · rintro (⟨hmem, hbounds⟩ | rfl)
      · exact ⟨.inr ⟨hmem, (hlt e (mem_range.mpr ⟨hmem, hbounds⟩)).ne⟩, hbounds⟩
      · exact ⟨.inl rfl, hlo, hhi⟩

theorem range_keep (p : κ → Bool) (lo hi : κ) :
    (m.keep p).range lo hi = (m.range lo hi).filter fun e => p e.1 := by
  show (m.entries.filter _).filter _ = (m.entries.filter _).filter _
  exact List.filter_comm _ _ _

/-- A range that starts later is a part of the range. -/
theorem range_eq_filter {lo lo' hi : κ} (h : lo ≤ lo') :
    m.range lo' hi = (m.range lo hi).filter fun e => decide (lo' ≤ e.1) := by
  unfold range
  rw [List.filter_filter]
  apply List.filter_congr
  intro e _
  by_cases hlo' : lo' ≤ e.1
  · simp [hlo', h.trans hlo']
  · simp [hlo']

theorem get_of_mem_range {m : OrdMap κ α} (h : e ∈ m.range lo hi) : m.get e.1 = some e.2 :=
  get_eq_some_iff.mpr (mem_range.mp h).1

end OrdMap

end Lib
