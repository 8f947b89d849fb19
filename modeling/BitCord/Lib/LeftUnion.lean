import BitCord.Lib.Dict

/-!
# Left-biased unions

A partial function is extended by values that some source provides: where it has a value it keeps
it, and elsewhere it gets one of the provided values, if there is one. Several sources may provide
different values for a key; which one is taken is left open.
-/

namespace Lib

variable {κ α : Type*}

/-- `new` has the values of `old`, and a provided value where `old` has none and one is provided. -/
structure LeftUnion (old new : κ → Option α) (provides : κ → α → Prop) : Prop where
  kept : ∀ k a, old k = some a → new k = some a
  added : ∀ k a, old k = none → new k = some a → provides k a
  complete : ∀ k a, provides k a → (new k).isSome = true

namespace LeftUnion

variable {f g h : κ → Option α} {p q : κ → α → Prop}

/-- Nothing is provided. -/
theorem refl (f : κ → Option α) : LeftUnion f f fun _ _ => False where
  kept _ _ ha := ha
  added k a hnone ha := by
    rw [hnone] at ha
    cases ha
  complete _ _ := False.elim

theorem isSome_of_isSome (hp : LeftUnion f g p) {k : κ} (hk : (f k).isSome = true) :
    (g k).isSome = true := by
  obtain ⟨a, ha⟩ := Option.isSome_iff_exists.mp hk
  exact Option.isSome_iff_exists.mpr ⟨a, hp.kept k a ha⟩

/-- Two sources one after the other. -/
theorem trans (hp : LeftUnion f g p) (hq : LeftUnion g h q) :
    LeftUnion f h fun k a => p k a ∨ q k a where
  kept k a ha := hq.kept k a (hp.kept k a ha)
  added k a hnone ha := by
    cases hg : g k with
    | none => exact .inr (hq.added k a hg ha)
    | some b =>
      -- the second source does not replace what the first one gave
      have hb : h k = some b := hq.kept k b hg
      rw [ha] at hb
      cases hb
      exact .inl (hp.added k a hnone hg)
  complete k a ha := by
    rcases ha with hfirst | hsecond
    · exact hq.isSome_of_isSome (hp.complete k a hfirst)
    · exact hq.complete k a hsecond

theorem congr (hp : LeftUnion f g p) (hpq : ∀ k a, p k a ↔ q k a) : LeftUnion f g q where
  kept := hp.kept
  added k a hnone ha := (hpq k a).mp (hp.added k a hnone ha)
  complete k a ha := hp.complete k a ((hpq k a).mpr ha)

theorem isSome_iff (hp : LeftUnion f g p) (k : κ) :
    (g k).isSome = true ↔ (f k).isSome = true ∨ ∃ a, p k a := by
  constructor
  · intro hk
    obtain ⟨a, ha⟩ := Option.isSome_iff_exists.mp hk
    cases hf : f k with
    | none => exact .inr ⟨a, hp.added k a hf ha⟩
    | some b => exact .inl rfl
  · rintro (hk | ⟨a, ha⟩)
    · exact hp.isSome_of_isSome hk
    · exact hp.complete k a ha

end LeftUnion

/-- The missing entries of a list are inserted into a hash map. -/
theorem leftUnion_orInsertAll {κ α : Type} [DecidableEq κ] (l : List (κ × α)) (d : Dict κ α) :
    LeftUnion (fun k => d.lookup k) (fun k => (d.orInsertAll l).lookup k)
      fun k a => (k, a) ∈ l where
  kept k a ha := Dict.lookup_orInsertAll_of_some ha
  added k a hnone ha := by
    rcases Dict.of_lookup_orInsertAll ha with hmem | hold
    · exact hmem
    · rw [hnone] at hold
      cases hold
  complete k a ha := by
    rw [AList.lookup_isSome, Dict.mem_orInsertAll]
    exact .inl (List.mem_map.mpr ⟨(k, a), ha, rfl⟩)

end Lib
