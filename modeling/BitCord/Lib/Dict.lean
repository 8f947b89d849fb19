import Mathlib.Data.List.AList
import Mathlib.Data.List.Induction

/-!
# Hash maps

A hash map is an association list without repeated keys (Mathlib's `AList`); the order of its
entries stands for the iteration order, about which a program may assume nothing. This module
adds the operations that programs use on hash maps and that `AList` lacks, each with the lemma
that says what a lookup gives after it.
-/

namespace Lib

/-- Change the first element of a list that satisfies `p`. -/
def updateFirst {α : Type} (p : α → Bool) (f : α → α) : List α → List α
  | [] => []
  | a :: l => if p a then f a :: l else a :: updateFirst p f l

section

variable {α : Type} {p : α → Bool} {f : α → α}

theorem length_updateFirst (l : List α) : (updateFirst p f l).length = l.length := by
  induction l with
  | nil => rfl
  | cons a l ih =>
    unfold updateFirst
    split
    · rfl
    · exact congrArg Nat.succ ih

/-- The element that changes is the first one that satisfies `p`. -/
theorem find?_of_updateFirst_ne {l : List α} {i : Nat} {a b : α} (ha : l[i]? = some a)
    (hb : (updateFirst p f l)[i]? = some b) (hne : b ≠ a) : l.find? p = some a ∧ b = f a := by
  induction l generalizing i with
  | nil => cases ha
  | cons c l ih =>
    unfold updateFirst at hb
    cases hp : p c with
    | true =>
      rw [if_pos hp] at hb
      cases i with
      | zero =>
        cases Option.some.inj ha
        rw [List.find?_cons_of_pos hp]
        exact ⟨rfl, (Option.some.inj hb).symm⟩
      | succ i => exact absurd (Option.some.inj (hb.symm.trans ha)) hne
    | false =>
      rw [if_neg (by rw [hp]; decide)] at hb
      rw [List.find?_cons_of_neg (by rw [hp]; decide)]
      cases i with
      | zero => exact absurd (Option.some.inj (hb.symm.trans ha)) hne
      | succ i => exact ih ha hb

variable {q : α → Bool} {a : α}

theorem exists_updateFirst_of_find? {l : List α} (h : l.find? p = some a) :
    ∃ i : Nat, l[i]? = some a ∧ (updateFirst p f l)[i]? = some (f a) := by
  induction l with
  | nil => cases h
  | cons c l ih =>
    unfold updateFirst
    cases hp : p c with
    | true =>
      rw [List.find?_cons_of_pos hp] at h
      cases h
      exact ⟨0, rfl, rfl⟩
    | false =>
      rw [List.find?_cons_of_neg (by rw [hp]; decide)] at h
      obtain ⟨i, hi, hi'⟩ := ih h
      exact ⟨i + 1, hi, hi'⟩

theorem of_mem_updateFirst {l : List α} {b : α} (h : b ∈ updateFirst p f l) :
    b ∈ l ∨ ∃ a ∈ l, p a = true ∧ b = f a := by
  induction l with
  | nil => cases h
  | cons a l ih =>
    unfold updateFirst at h
    split at h
    · next hp =>
      rcases List.mem_cons.mp h with rfl | h
      · exact .inr ⟨a, List.mem_cons_self, hp, rfl⟩
      · exact .inl (List.mem_cons_of_mem a h)
    · rcases List.mem_cons.mp h with rfl | h
      · exact .inl List.mem_cons_self
      · rcases ih h with h | ⟨a', ha', hb⟩
        · exact .inl (List.mem_cons_of_mem a h)
        · exact .inr ⟨a', List.mem_cons_of_mem a ha', hb⟩

/-- A change that keeps what `q` looks at is seen by `find? q` if it is made where `q` looks. -/
theorem find?_updateFirst (hf : ∀ a, q (f a) = q a) (l : List α) :
    (updateFirst q f l).find? q = (l.find? q).map f := by
  induction l with
  | nil => rfl
  | cons a l ih =>
    unfold updateFirst
    cases hq : q a with
    | true =>
      rw [if_pos rfl, List.find?_cons_of_pos ((hf a).trans hq), List.find?_cons_of_pos hq]
      rfl
    | false =>
      rw [if_neg (by decide), List.find?_cons_of_neg (by rw [hq]; decide),
        List.find?_cons_of_neg (by rw [hq]; decide), ih]

theorem find?_updateFirst_of_disjoint (hf : ∀ a, q (f a) = q a)
    (hpq : ∀ a, p a = true → q a = false) (l : List α) :
    (updateFirst p f l).find? q = l.find? q := by
  induction l with
  | nil => rfl
  | cons a l ih =>
    unfold updateFirst
    split
    · next hp =>
      have hq := hpq a hp
      rw [List.find?_cons_of_neg (by rw [hf, hq]; decide),
        List.find?_cons_of_neg (by rw [hq]; decide)]
    · rw [List.find?_cons, List.find?_cons, ih]

theorem map_updateFirst {β : Type} {g : α → β} (hf : ∀ a, p a = true → g (f a) = g a)
    (l : List α) : (updateFirst p f l).map g = l.map g := by
  induction l with
  | nil => rfl
  | cons a l ih =>
    unfold updateFirst
    split
    · next hp => rw [List.map_cons, List.map_cons, hf a hp]
    · rw [List.map_cons, List.map_cons, ih]

/-- Where one element satisfies `p`, it is replaced in place. -/
theorem updateFirst_append {l l' : List α} (hl : ∀ b ∈ l, p b = false) (ha : p a = true) :
    updateFirst p f (l ++ a :: l') = l ++ f a :: l' := by
  induction l with
  | nil => rw [List.nil_append, updateFirst, if_pos ha, List.nil_append]
  | cons b l ih =>
    have hb : ¬ p b = true := by
      rw [hl b List.mem_cons_self]
      decide
    rw [List.cons_append, updateFirst, if_neg hb, List.cons_append,
      ih fun b' hb' => hl b' (List.mem_cons_of_mem b hb')]

end

/-- A hash map from `κ` to `α`. -/
abbrev Dict (κ α : Type) := AList (fun _ : κ => α)

namespace Dict

variable {κ α : Type} [DecidableEq κ]

/-- The values, in iteration order. -/
def vals (d : Dict κ α) : List α := d.entries.map Sigma.snd

/-- Keep the entries that satisfy `p`. -/
def retain (p : κ → α → Bool) (d : Dict κ α) : Dict κ α :=
  ⟨d.entries.filter fun e => p e.1 e.2, d.nodupKeys.sublist List.filter_sublist⟩

/-- Change the value at `k` in place, if there is one. -/
def adjust (k : κ) (f : α → α) (d : Dict κ α) : Dict κ α :=
  match d.lookup k with
  | some a => d.insert k (f a)
  | none => d

/-- Change the value at `k`, starting from `dflt` if there is none. -/
def upsert (k : κ) (dflt : α) (f : α → α) (d : Dict κ α) : Dict κ α :=
  d.insert k (f ((d.lookup k).getD dflt))

/-- Insert `a` at `k` unless `k` is present. -/
def orInsert (k : κ) (a : α) (d : Dict κ α) : Dict κ α :=
  if k ∈ d then d else d.insert k a

/-- Change every value. -/
def mapVals (f : α → α) (d : Dict κ α) : Dict κ α :=
  ⟨d.entries.map fun e => ⟨e.1, f e.2⟩, by
    have hkeys : (d.entries.map fun e => (⟨e.1, f e.2⟩ : Sigma fun _ : κ => α)).keys =
        d.entries.keys := by simp [List.keys, Function.comp_def]
    rw [List.NodupKeys, hkeys]
    exact d.nodupKeys⟩

/-- Insert a list of entries from left to right; a later entry replaces an earlier one. -/
def insertAll (l : List (κ × α)) (d : Dict κ α) : Dict κ α :=
  l.foldl (fun d e => d.insert e.1 e.2) d

/-- Insert a list of entries from left to right, keeping what is already there. -/
def orInsertAll (l : List (κ × α)) (d : Dict κ α) : Dict κ α :=
  l.foldl (fun d e => orInsert e.1 e.2 d) d

/-- Remove a list of keys. -/
def eraseAll (ks : List κ) (d : Dict κ α) : Dict κ α :=
  ks.foldl (fun d k => d.erase k) d

/-! ## Lookups -/

theorem lookup_insert_eq (d : Dict κ α) (k k' : κ) (a : α) :
    (d.insert k a).lookup k' = if k' = k then some a else d.lookup k' := by
  by_cases h : k' = k
  · subst h
    simp
  · rw [if_neg h, AList.lookup_insert_ne h]

theorem lookup_erase_eq (d : Dict κ α) (k k' : κ) :
    (d.erase k).lookup k' = if k' = k then none else d.lookup k' := by
  by_cases h : k' = k
  · subst h
    simp
  · rw [if_neg h, AList.lookup_erase_ne h]

theorem lookup_eq_some_iff (d : Dict κ α) (k : κ) (a : α) :
    d.lookup k = some a ↔ ⟨k, a⟩ ∈ d.entries :=
  AList.mem_lookup_iff

variable {d : Dict κ α} {l : List (κ × α)} {k : κ} {a : α} {ks : List κ} (e : κ × α)

theorem mem_vals : a ∈ d.vals ↔ ∃ k, d.lookup k = some a := by
  unfold vals
  rw [List.mem_map]
  constructor
  · rintro ⟨⟨k, b⟩, hmem, rfl⟩
    exact ⟨k, (lookup_eq_some_iff d k b).mpr hmem⟩
  · rintro ⟨k, hk⟩
    exact ⟨⟨k, a⟩, (lookup_eq_some_iff d k a).mp hk, rfl⟩

theorem lookup_retain (p : κ → α → Bool) (d : Dict κ α) (k : κ) :
    (d.retain p).lookup k = (d.lookup k).filter (p k) := by
  apply Option.ext
  intro a
  rw [lookup_eq_some_iff, Option.filter_eq_some_iff, lookup_eq_some_iff]
  simp [retain]

theorem lookup_adjust (k k' : κ) (f : α → α) (d : Dict κ α) :
    (d.adjust k f).lookup k' = if k' = k then (d.lookup k).map f else d.lookup k' := by
  unfold adjust
  cases hk : d.lookup k with
  | none =>
    by_cases h : k' = k
    · subst h
      simp [hk]
    · rw [if_neg h]
  | some a => rw [lookup_insert_eq]; rfl

theorem lookup_mapVals (f : α → α) (d : Dict κ α) (k : κ) :
    (d.mapVals f).lookup k = (d.lookup k).map f := by
  apply Option.ext
  intro a
  rw [lookup_eq_some_iff, Option.map_eq_some_iff]
  constructor
  · intro h
    obtain ⟨⟨k', b⟩, hb, he⟩ := List.mem_map.mp h
    obtain ⟨rfl, hval⟩ := Sigma.mk.inj_iff.mp he
    exact ⟨b, (lookup_eq_some_iff d _ b).mpr hb, eq_of_heq hval⟩
  · rintro ⟨b, hb, rfl⟩
    exact List.mem_map.mpr ⟨⟨k, b⟩, (lookup_eq_some_iff d k b).mp hb, rfl⟩

theorem lookup_upsert (k k' : κ) (dflt : α) (f : α → α) (d : Dict κ α) :
    (d.upsert k dflt f).lookup k' =
      if k' = k then some (f ((d.lookup k).getD dflt)) else d.lookup k' :=
  lookup_insert_eq d k k' _

theorem lookup_orInsert (k k' : κ) (a : α) (d : Dict κ α) :
    (d.orInsert k a).lookup k' = if k' = k then some ((d.lookup k).getD a) else d.lookup k' := by
  unfold orInsert
  by_cases hk : k ∈ d
  · rw [if_pos hk]
    by_cases h : k' = k
    · subst h
      obtain ⟨b, hb⟩ := Option.isSome_iff_exists.mp (AList.lookup_isSome.mpr hk)
      simp [hb]
    · rw [if_neg h]
  · rw [if_neg hk, lookup_insert_eq, AList.lookup_eq_none.mpr hk]
    rfl

theorem lookup_eraseAll (ks : List κ) (d : Dict κ α) (k : κ) :
    (d.eraseAll ks).lookup k = if k ∈ ks then none else d.lookup k := by
  induction ks generalizing d with
  | nil => simp [eraseAll]
  | cons k' ks ih =>
    have hstep : d.eraseAll (k' :: ks) = eraseAll ks (AList.erase k' d) := rfl
    rw [hstep, ih, lookup_erase_eq]
    by_cases h : k = k' <;> by_cases hm : k ∈ ks <;> simp [h, hm]

theorem mem_eraseAll : k ∈ d.eraseAll ks ↔ k ∉ ks ∧ k ∈ d := by
  rw [← AList.lookup_isSome, ← AList.lookup_isSome, lookup_eraseAll]
  by_cases h : k ∈ ks <;> simp [h]

/-- Replacing a value adds no key. -/
theorem mem_insert_of_lookup (h : d.lookup k = some a) (b : α) {k' : κ} :
    k' ∈ AList.insert k b d ↔ k' ∈ d := by
  rw [AList.mem_insert, or_iff_right_iff_imp]
  rintro rfl
  exact AList.lookup_isSome.mp (by rw [h]; rfl)

theorem erase_eq_self_iff : AList.erase k d = d ↔ k ∉ d := by
  constructor
  · intro h
    rw [← AList.lookup_eq_none, ← h, lookup_erase_eq, if_pos rfl]
  · intro h
    exact AList.ext (List.kerase_of_notMem_keys h)

theorem eraseAll_eq_self_iff : d.eraseAll ks = d ↔ ∀ k ∈ ks, k ∉ d := by
  constructor
  · intro h k hk
    rw [← AList.lookup_eq_none, ← h, lookup_eraseAll, if_pos hk]
  · intro h
    induction ks with
    | nil => rfl
    | cons k ks ih =>
      have hstep : d.eraseAll (k :: ks) = eraseAll ks (AList.erase k d) := rfl
      rw [hstep, erase_eq_self_iff.mpr (h k List.mem_cons_self)]
      exact ih fun k' hk' => h k' (List.mem_cons_of_mem k hk')

theorem insertAll_cons (l : List (κ × α)) (d : Dict κ α) :
    d.insertAll (e :: l) = insertAll l (AList.insert e.1 e.2 d) := rfl

theorem of_lookup_insertAll (h : (d.insertAll l).lookup k = some a) :
    (k, a) ∈ l ∨ d.lookup k = some a := by
  induction l generalizing d with
  | nil => exact .inr h
  | cons e l ih =>
    rw [insertAll_cons] at h
    rcases ih h with hl | hd
    · exact .inl (List.mem_cons_of_mem e hl)
    · rw [lookup_insert_eq] at hd
      split at hd
      · next hk =>
        cases hd
        exact .inl (by rw [hk]; exact List.mem_cons_self)
      · exact .inr hd

theorem mem_insertAll : k ∈ d.insertAll l ↔ k ∈ l.map Prod.fst ∨ k ∈ d := by
  induction l generalizing d with
  | nil => simp [insertAll]
  | cons e l ih =>
    rw [insertAll_cons, ih, AList.mem_insert, List.map_cons, List.mem_cons]
    tauto

/-- After a list is inserted, a key has the last value that the list has for it. -/
theorem lookup_insertAll_map {β : Type} (f : β → κ) (g : β → α) (l : List β) (d : Dict κ α)
    (k : κ) :
    (d.insertAll (l.map fun b => (f b, g b))).lookup k =
      ((l.reverse.find? fun b => decide (f b = k)).map g).or (d.lookup k) := by
  induction l using List.reverseRecOn with
  | nil => rfl
  | append_singleton l b ih =>
    have hstep : d.insertAll ((l ++ [b]).map fun b => (f b, g b)) =
        (d.insertAll (l.map fun b => (f b, g b))).insert (f b) (g b) := by
      unfold insertAll
      rw [List.map_append, List.foldl_append]
      rfl
    rw [hstep, lookup_insert_eq, ih, List.reverse_append, List.reverse_singleton,
      List.singleton_append, List.find?_cons]
    by_cases hk : k = f b
    · simp [hk]
    · simp [hk, Ne.symm hk]

/-- After values are inserted under a key of their own, a key has the last of them or, if there is
none, the value from before. -/
theorem lookup_insertAll_map_eq_some_iff (f : α → κ) {l : List α} :
    (d.insertAll (l.map fun b => (f b, b))).lookup k = some a ↔
      (∃ before after, l = before ++ a :: after ∧ f a = k ∧ ∀ b ∈ after, f b ≠ k) ∨
        ((∀ b ∈ l, f b ≠ k) ∧ d.lookup k = some a) := by
  have hmap := lookup_insertAll_map f id l d k
  simp only [id_eq] at hmap
  rw [hmap, Option.map_id, id_eq, Option.or_eq_some_iff, List.find?_eq_some_iff_append]
  refine or_congr ⟨?_, ?_⟩ (and_congr_left' (by simp))
  · rintro ⟨hk, later, earlier, hl, hlater⟩
    refine ⟨earlier.reverse, later.reverse, ?_, of_decide_eq_true hk, fun b hb => ?_⟩
    · rw [← List.reverse_reverse l, hl]
      simp
    · simpa using hlater b (List.mem_reverse.mp hb)
  · rintro ⟨before, after, rfl, hk, hafter⟩
    refine ⟨decide_eq_true hk, after.reverse, before.reverse, by simp, fun b hb => ?_⟩
    simpa using hafter b (List.mem_reverse.mp hb)

theorem orInsertAll_cons (l : List (κ × α)) (d : Dict κ α) :
    d.orInsertAll (e :: l) = (d.orInsert e.1 e.2).orInsertAll l := rfl

theorem orInsertAll_append (l l' : List (κ × α)) (d : Dict κ α) :
    d.orInsertAll (l ++ l') = (d.orInsertAll l).orInsertAll l' :=
  List.foldl_append

theorem mem_orInsert {k k' : κ} : k' ∈ d.orInsert k a ↔ k' = k ∨ k' ∈ d := by
  rw [← AList.lookup_isSome, ← AList.lookup_isSome, lookup_orInsert]
  by_cases h : k' = k <;> simp [h]

theorem mem_orInsertAll : k ∈ d.orInsertAll l ↔ k ∈ l.map Prod.fst ∨ k ∈ d := by
  induction l generalizing d with
  | nil => simp [orInsertAll]
  | cons e l ih =>
    rw [orInsertAll_cons, ih, mem_orInsert, List.map_cons, List.mem_cons]
    tauto

/-- Where every key is there already, nothing is inserted. -/
theorem orInsertAll_of_forall_mem (h : ∀ k ∈ l.map Prod.fst, k ∈ d) : d.orInsertAll l = d := by
  induction l with
  | nil => rfl
  | cons e l ih =>
    have hmem : e.1 ∈ d := h e.1 List.mem_cons_self
    rw [orInsertAll_cons, orInsert, if_pos hmem]
    exact ih fun k hk => h k (List.mem_cons_of_mem _ hk)

/-- After the missing entries of a list are inserted, a key has its value or the first one that
the list has for it. -/
theorem lookup_orInsertAll (l : List (κ × α)) (d : Dict κ α) (k : κ) :
    (d.orInsertAll l).lookup k =
      (d.lookup k).or ((l.find? fun e => decide (e.1 = k)).map Prod.snd) := by
  induction l generalizing d with
  | nil => simp [orInsertAll]
  | cons e l ih =>
    rw [orInsertAll_cons, ih, lookup_orInsert, List.find?_cons]
    by_cases hk : k = e.1
    · subst hk
      cases d.lookup e.1 <;> simp
    · simp [hk, Ne.symm hk]

/-- An entry that is there stays. -/
theorem lookup_orInsertAll_of_some (h : d.lookup k = some a) :
    (d.orInsertAll l).lookup k = some a := by
  rw [lookup_orInsertAll, h, Option.some_or]

theorem of_lookup_orInsertAll (h : (d.orInsertAll l).lookup k = some a) :
    (k, a) ∈ l ∨ d.lookup k = some a := by
  rw [lookup_orInsertAll, Option.or_eq_some_iff] at h
  rcases h with hd | ⟨-, hl⟩
  · exact .inr hd
  · obtain ⟨e, he, rfl⟩ := Option.map_eq_some_iff.mp hl
    have hk := List.find?_some (p := fun e : κ × α => decide (e.1 = k)) he
    rw [← of_decide_eq_true hk]
    exact .inl (List.mem_of_find?_eq_some he)

end Dict

end Lib
