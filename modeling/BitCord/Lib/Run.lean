import Mathlib.Data.List.Basic
import Mathlib.Data.List.Induction

/-!
# Runs of a step function

A system is a step function on states and inputs, and a run is a list of inputs. The rules here
are the only inductions over runs: an invariant kept by every step that meets a condition holds
in every state of a run whose steps all meet it, and a property that becomes true in a run becomes
true at one of its steps.
-/

namespace Lib.Run

variable {σ ι : Type*} (step : σ → ι → σ)

/-- The state after the inputs `is`. -/
def run (s : σ) (is : List ι) : σ := is.foldl step s

/-- Every step of the run from `s` meets `G` in the state where it is taken. -/
def Along (G : σ → ι → Prop) : σ → List ι → Prop
  | _, [] => True
  | s, i :: is => G s i ∧ Along G (step s i) is

@[simp] theorem run_nil (s : σ) : run step s [] = s := rfl

@[simp] theorem run_cons (s : σ) (i : ι) (is : List ι) :
    run step s (i :: is) = run step (step s i) is := rfl

variable {step} {G : σ → ι → Prop}

theorem run_append (s : σ) (is js : List ι) :
    run step s (is ++ js) = run step (run step s is) js := List.foldl_append

theorem run_concat (s : σ) (is : List ι) (i : ι) :
    run step s (is ++ [i]) = step (run step s is) i := run_append s is [i]

variable {is : List ι} {s : σ} {α : Type*}

theorem along_append {is js : List ι} :
    Along step G s (is ++ js) ↔ Along step G s is ∧ Along step G (run step s is) js := by
  induction is generalizing s with
  | nil => simp [Along]
  | cons i is ih => simp [Along, ih, and_assoc]

theorem Along.of_prefix {is pre : List ι} (h : Along step G s is) (hp : pre <+: is) :
    Along step G s pre := by
  obtain ⟨post, rfl⟩ := hp
  exact (along_append.mp h).1

/-- A step of the run meets the condition in the state where it is taken. -/
theorem Along.at_split {i : ι} {pre post : List ι} (h : Along step G s (pre ++ i :: post)) :
    G (run step s pre) i :=
  (along_append.mp h).2.1

theorem Along.imp {H : σ → ι → Prop} (h : Along step G s is) (hGH : ∀ s i, G s i → H s i) :
    Along step H s is := by
  induction is generalizing s with
  | nil => trivial
  | cons i is ih => exact ⟨hGH s i h.1, ih h.2⟩

theorem along_and {H : σ → ι → Prop} :
    Along step (fun s i => G s i ∧ H s i) s is ↔ Along step G s is ∧ Along step H s is := by
  induction is generalizing s with
  | nil => simp [Along]
  | cons i is ih => simp only [Along, ih, and_and_and_comm]

theorem Along.and {H : σ → ι → Prop} (h : Along step G s is) (h' : Along step H s is) :
    Along step (fun s i => G s i ∧ H s i) s is :=
  along_and.mpr ⟨h, h'⟩

/-- An invariant kept by the steps that meet `G` holds at the end of a run of such steps. -/
theorem Along.invariant {I : σ → Prop} (hstep : ∀ s i, I s → G s i → I (step s i)) (hs : I s)
    (h : Along step G s is) : I (run step s is) := by
  induction is generalizing s with
  | nil => exact hs
  | cons i is ih => exact ih (hstep s i hs h.1) h.2

theorem Along.invariant_reached {I : σ → Prop} (hstep : ∀ s i, I s → G s i → I (step s i))
    {is pre : List ι} (hs : I s) (h : Along step G s is) (hp : pre <+: is) : I (run step s pre) :=
  (h.of_prefix hp).invariant hstep hs

/-- An invariant holds in the state of every step. -/
theorem Along.of_invariant {I : σ → Prop} (hstep : ∀ s i, I s → G s i → I (step s i)) (hs : I s)
    (h : Along step G s is) : Along step (fun s _ => I s) s is := by
  induction is generalizing s with
  | nil => trivial
  | cons i is ih => exact ⟨hs, ih (hstep s i hs h.1) h.2⟩

/-- A property that follows from an inductive invariant holds in every state of a run if and only
if all its steps meet the condition, where the condition keeps the invariant and is necessary for
the property. -/
theorem forall_prefix_iff_along_of_inductive {I J : σ → Prop} {H : σ → ι → Prop}
    (himp : ∀ s, J s → I s) (hkeep : ∀ s i, H s i → J s → G s i → J (step s i))
    (hneed : ∀ s i, H s i → J s → I (step s i) → G s i) (hs : J s) (h : Along step H s is) :
    (∀ pre, pre <+: is → I (run step s pre)) ↔ Along step G s is := by
  induction is generalizing s with
  | nil =>
    refine ⟨fun _ => trivial, fun _ pre hpre => ?_⟩
    rw [List.prefix_nil.mp hpre]
    exact himp s hs
  | cons i is ih =>
    constructor
    · intro hall
      have hg : G s i := hneed s i h.1 hs (hall [i] (List.prefix_append [i] is))
      refine ⟨hg, (ih (hkeep s i h.1 hs hg) h.2).mp fun pre hpre => ?_⟩
      exact hall (i :: pre) ((List.prefix_cons_inj i).mpr hpre)
    · rintro ⟨hg, hrest⟩ pre hpre
      cases pre with
      | nil => exact himp s hs
      | cons j pre =>
        obtain ⟨rfl, htail⟩ := List.cons_prefix_cons.mp hpre
        exact (ih (hkeep s j h.1 hs hg) h.2).mpr hrest pre htail

/-- Where the condition says exactly when a step keeps the invariant, a run keeps it in every state
if and only if all its steps meet the condition. -/
theorem forall_prefix_iff_along {I : σ → Prop} {H : σ → ι → Prop}
    (hstep : ∀ s i, H s i → I s → (I (step s i) ↔ G s i)) (hs : I s) (h : Along step H s is) :
    (∀ pre, pre <+: is → I (run step s pre)) ↔ Along step G s is :=
  forall_prefix_iff_along_of_inductive (fun _ h => h) (fun s i hh hi => (hstep s i hh hi).mpr)
    (fun s i hh hi => (hstep s i hh hi).mp) hs h

/-- A relation between two systems that every step keeps relates the ends of their runs. -/
theorem Along.simulates {τ : Type*} {f : τ → ι → τ} {R : σ → τ → Prop}
    (hstep : ∀ s t i, R s t → G s i → R (step s i) (f t i)) {t : τ} (hs : R s t)
    (h : Along step G s is) : R (run step s is) (run f t is) := by
  induction is generalizing s t with
  | nil => exact hs
  | cons i is ih => exact ih (hstep s t i hs h.1) h.2

/-- A condition met by every input in every state is met along every run. -/
theorem along_of_forall (h : ∀ s, ∀ i ∈ is, G s i) : Along step G s is := by
  induction is generalizing s with
  | nil => trivial
  | cons i is ih =>
    exact ⟨h s i List.mem_cons_self, ih fun s j hj => h s j (List.mem_cons_of_mem i hj)⟩

/-- A run meets the condition exactly when each of its steps does. -/
theorem along_iff_forall_split :
    Along step G s is ↔ ∀ pre i post, is = pre ++ i :: post → G (run step s pre) i := by
  constructor
  · rintro h pre i post rfl
    exact h.at_split
  · intro h
    induction is generalizing s with
    | nil => trivial
    | cons i is ih =>
      refine ⟨h [] i is rfl, ih fun pre j post he => ?_⟩
      exact h (i :: pre) j post (by rw [he, List.cons_append])

/-- A run meets a family of conditions if and only if it meets each of them. -/
theorem along_forall_iff {α : Sort*} {H : α → σ → ι → Prop} :
    Along step (fun s i => ∀ a, H a s i) s is ↔ ∀ a, Along step (H a) s is := by
  induction is generalizing s with
  | nil => simp [Along]
  | cons i is ih => simp only [Along, ih, forall_and]

/-- Conditions that agree at every step of a run agree on the run. -/
theorem along_congr {H : σ → ι → Prop} (h : Along step (fun s i => G s i ↔ H s i) s is) :
    Along step G s is ↔ Along step H s is := by
  induction is generalizing s with
  | nil => exact Iff.rfl
  | cons i is ih => exact and_congr h.1 (ih h.2)

/-- A property that holds at the end of a run and not at its start becomes true at a step, and
that step meets the condition. -/
theorem Along.exists_crossing {P : σ → Prop} (h : Along step G s is) (hs : ¬ P s)
    (he : P (run step s is)) :
    ∃ pre i post, is = pre ++ i :: post ∧ ¬ P (run step s pre) ∧
      P (step (run step s pre) i) ∧ G (run step s pre) i := by
  induction is generalizing s with
  | nil => exact absurd he hs
  | cons i is ih =>
    by_cases hi : P (step s i)
    · exact ⟨[], i, is, rfl, hs, hi, h.1⟩
    · obtain ⟨pre, j, post, rfl, hn, hj, hg⟩ := ih h.2 hi he
      exact ⟨i :: pre, j, post, rfl, hn, hj, hg⟩

/-! ## Histories -/

variable (step) in
/-- An invariant of the state and the inputs so far, which every further input keeps, holds at the
end of every run. -/
theorem invariant_of_history {I : List ι → σ → Prop} (hs : I [] s)
    (hstep : ∀ is i, I is (run step s is) → I (is ++ [i]) (step (run step s is) i)) (is : List ι) :
    I is (run step s is) := by
  induction is using List.reverseRecOn with
  | nil => exact hs
  | append_singleton is i ih =>
    rw [run_concat]
    exact hstep is i ih

/-! ## Values that must not go back -/

variable (step) in
/-- Over every stretch of the run in which `f` has a value throughout, its first value is related
to its last. -/
def RelatedWhile {α : Type*} (r : α → α → Prop) (f : σ → Option α) (s : σ) (is : List ι) : Prop :=
  ∀ pre mid post, is = pre ++ mid ++ post →
    (∀ k, k <+: mid → (f (run step s (pre ++ k))).isSome = true) →
    ∀ a b, f (run step s pre) = some a → f (run step s (pre ++ mid)) = some b → r a b

/-- A preorder holds over such stretches exactly when it holds over the single steps. -/
theorem relatedWhile_iff_along {r : α → α → Prop} (hrefl : ∀ a, r a a)
    (htrans : ∀ {a b c}, r a b → r b c → r a c) {f : σ → Option α} :
    RelatedWhile step r f s is ↔
      Along step (fun s i => ∀ a b, f s = some a → f (step s i) = some b → r a b) s is := by
  rw [along_iff_forall_split]
  constructor
  · intro h pre i post he a b ha hb
    have hstep : run step s (pre ++ [i]) = step (run step s pre) i := run_concat s pre i
    refine h pre [i] post (by rw [he, List.append_assoc]; rfl) ?_ a b ha (by rw [hstep, hb])
    intro k hk
    rcases List.prefix_concat_iff.mp (show k <+: [] ++ [i] from hk) with rfl | hnil
    · rw [List.nil_append, hstep, hb]
      rfl
    · rw [List.prefix_nil.mp hnil, List.append_nil, ha]
      rfl
  · intro h pre mid
    induction mid using List.reverseRecOn with
    | nil =>
      intro post he _ a b ha hb
      rw [List.append_nil, ha] at hb
      cases hb
      exact hrefl a
    | append_singleton mid i ih =>
      intro post he hmid a b ha hb
      -- the value before the last step links the two parts
      obtain ⟨c, hc⟩ := Option.isSome_iff_exists.mp (hmid mid (List.prefix_append mid [i]))
      have hfirst : r a c := by
        refine ih (i :: post) (by rw [he]; simp) ?_ a c ha hc
        exact fun k hk => hmid k (hk.trans (List.prefix_append mid [i]))
      have hstep : run step s (pre ++ (mid ++ [i])) = step (run step s (pre ++ mid)) i := by
        rw [← List.append_assoc, run_concat]
      rw [hstep] at hb
      exact htrans hfirst (h (pre ++ mid) i post (by rw [he]; simp) c b hc hb)

/-! ## The last write -/

/-- Where a step either writes a value or leaves it, the value at the end of a run is the one that
was last written. -/
theorem get_run_eq_some_iff {get : σ → Option α} {write : σ → ι → Option α}
    (hstep : ∀ s i, get (step s i) = (write s i).or (get s)) {a : α} :
    get (run step s is) = some a ↔
      (get s = some a ∧ Along step (fun s i => write s i = none) s is) ∨
        ∃ pre i post, is = pre ++ i :: post ∧ write (run step s pre) i = some a ∧
          Along step (fun s i => write s i = none) (run step s (pre ++ [i])) post := by
  induction is generalizing s with
  | nil => simp [Along]
  | cons i is ih =>
    rw [run_cons, ih, hstep]
    constructor
    · rintro (⟨hget, hnone⟩ | ⟨pre, j, post, rfl, hwrite, hnone⟩)
      · cases hw : write s i with
        | none =>
          rw [hw, Option.none_or] at hget
          exact .inl ⟨hget, hw, hnone⟩
        | some b =>
          rw [hw, Option.some_or] at hget
          exact .inr ⟨[], i, is, rfl, hw.trans hget, hnone⟩
      · exact .inr ⟨i :: pre, j, post, rfl, hwrite, hnone⟩
    · rintro (⟨hget, hw, hnone⟩ | ⟨pre, j, post, heq, hwrite, hnone⟩)
      · refine .inl ⟨?_, hnone⟩
        rw [hw, Option.none_or, hget]
      · cases pre with
        | nil =>
          obtain ⟨rfl, rfl⟩ := List.cons.inj heq
          refine .inl ⟨?_, hnone⟩
          rw [show write s i = some a from hwrite, Option.some_or]
        | cons k pre =>
          obtain ⟨rfl, rfl⟩ := List.cons.inj heq
          exact .inr ⟨pre, j, post, rfl, hwrite, hnone⟩

/-- The same where what is written does not depend on the state. -/
theorem Along.get_run_eq_getLast (get : σ → α) {write : ι → Option α}
    (hstep : ∀ s i, G s i → get (step s i) = (write i).getD (get s)) (h : Along step G s is) :
    get (run step s is) = ((is.filterMap write).getLast?).getD (get s) := by
  induction is generalizing s with
  | nil => rfl
  | cons i is ih =>
    rw [run_cons, ih h.2, hstep s i h.1]
    cases hw : write i with
    | none => rw [List.filterMap_cons_none hw, Option.getD_none]
    | some a =>
      rw [List.filterMap_cons_some hw, Option.getD_some, List.getLast?_cons, Option.getD_some]

/-! ## Outputs -/

variable (step) in
/-- What the steps of a run put out, where `out` is the output of one step. -/
def outputs {β : Type*} (out : σ → ι → List β) : σ → List ι → List β
  | _, [] => []
  | s, i :: is => out s i ++ outputs out (step s i) is

/-- Everything a run puts out has a property exactly when all its steps put out only such
values. -/
theorem forall_mem_outputs_iff {β : Type*} {out : σ → ι → List β} {p : β → Prop} :
    (∀ b ∈ outputs step out s is, p b) ↔ Along step (fun s i => ∀ b ∈ out s i, p b) s is := by
  induction is generalizing s with
  | nil => simp [outputs, Along]
  | cons i is ih => rw [outputs, List.forall_mem_append, ih, Along]

theorem get_run_eq_append {α β : Type*} (get : σ → List α) {out : σ → ι → List β}
    {read : β → Option α} (hstep : ∀ s i, get (step s i) = get s ++ (out s i).filterMap read)
    (s : σ) (is : List ι) :
    get (run step s is) = get s ++ (outputs step out s is).filterMap read := by
  induction is generalizing s with
  | nil => simp [outputs]
  | cons i is ih => rw [run_cons, ih, hstep, outputs, List.filterMap_append, List.append_assoc]

end Lib.Run
