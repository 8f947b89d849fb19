import Mathlib.Data.List.AList
import Mathlib.Data.Prod.Basic

/-!
# Prefix codes

An encoding is a prefix code if a text that starts with the code of a value determines the value
and the rest of the text. Codes that are written one after the other, and lists that are written
after their length, are prefix codes again, so a format that is put together in this way can be
read back without separators.
-/

namespace Lib

section

variable {α β γ : Type}

/-- A text that starts with a code determines the value and the rest of the text. -/
def PrefixCode (enc : α → List γ) : Prop :=
  ∀ ⦃a b : α⦄ ⦃xs ys : List γ⦄, enc a ++ xs = enc b ++ ys → a = b ∧ xs = ys

namespace PrefixCode

variable {enc : α → List γ} {enc' : β → List γ}

/-- Codes one after the other. -/
theorem append (h : PrefixCode enc) (h' : PrefixCode enc') :
    PrefixCode fun p : α × β => enc p.1 ++ enc' p.2 := by
  rintro ⟨a, b⟩ ⟨a', b'⟩ xs ys heq
  dsimp only at heq
  rw [List.append_assoc, List.append_assoc] at heq
  obtain ⟨rfl, hrest⟩ := h heq
  obtain ⟨rfl, htail⟩ := h' hrest
  exact ⟨rfl, htail⟩

/-- The code of a part that determines the whole. -/
theorem comp (h : PrefixCode enc) {f : β → α} (hf : Function.Injective f) :
    PrefixCode fun b => enc (f b) := by
  intro b b' xs ys heq
  obtain ⟨hb, hrest⟩ := h heq
  exact ⟨hf hb, hrest⟩

/-- Two lists of one length are written alike only if they are the same, in the same order. -/
theorem flatMap_inj (h : PrefixCode enc) {l l' : List α} (hlen : l.length = l'.length)
    {xs ys : List γ} (heq : l.flatMap enc ++ xs = l'.flatMap enc ++ ys) : l = l' ∧ xs = ys := by
  induction l generalizing l' with
  | nil =>
    rw [List.length_nil, eq_comm, List.length_eq_zero_iff] at hlen
    subst hlen
    exact ⟨rfl, heq⟩
  | cons a l ih =>
    cases l' with
    | nil => cases hlen
    | cons a' l' =>
      rw [List.flatMap_cons, List.flatMap_cons, List.append_assoc, List.append_assoc] at heq
      obtain ⟨rfl, hrest⟩ := h heq
      obtain ⟨rfl, htail⟩ := ih (Nat.succ.inj hlen) hrest
      exact ⟨rfl, htail⟩

theorem counted {count : Nat → List γ} (hcount : PrefixCode count) (h : PrefixCode enc) :
    PrefixCode fun l : List α => count l.length ++ l.flatMap enc := by
  intro l l' xs ys heq
  dsimp only at heq
  rw [List.append_assoc, List.append_assoc] at heq
  obtain ⟨hlen, hrest⟩ := hcount heq
  exact h.flatMap_inj hlen hrest

end PrefixCode

/-- Letters are a prefix code of themselves. -/
theorem prefixCode_singleton : PrefixCode fun a : α => [a] := by
  intro a b xs ys heq
  exact List.cons.inj heq

end

end Lib
