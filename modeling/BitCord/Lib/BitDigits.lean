import Mathlib.Data.Nat.Bitwise
import BitCord.Lib.Digits

/-!
# Digits in a base that is a power of two

Each digit then stands for a group of bits: the exclusive or of two numbers is taken digit by digit,
and the highest bit of a number is the highest bit of its first digit that is not zero.
-/

namespace Lib

theorem fixedDigits_xor (k len n m : Nat) :
    fixedDigits (2 ^ k) len (n ^^^ m) =
      (fixedDigits (2 ^ k) len n).zipWith (fun x y => x ^^^ y) (fixedDigits (2 ^ k) len m) := by
  induction len generalizing n m with
  | zero => rfl
  | succ len ih =>
    have hlength : (fixedDigits (2 ^ k) len (n / 2 ^ k)).length =
        (fixedDigits (2 ^ k) len (m / 2 ^ k)).length := by simp
    simp only [fixedDigits]
    rw [Nat.xor_div_two_pow, Nat.xor_mod_two_pow, ih, List.zipWith_append hlength,
      List.zipWith_cons_cons, List.zipWith_nil_left]

theorem ofFixedDigits_cons (b d : Nat) (ds : List Nat) :
    ofFixedDigits b (d :: ds) = d * b ^ ds.length + ofFixedDigits b ds := by
  induction ds using List.reverseRecOn with
  | nil => simp [ofFixedDigits]
  | append_singleton ds x ih =>
    have hread : ∀ l : List Nat, ofFixedDigits b (l ++ [x]) = ofFixedDigits b l * b + x := by
      intro l
      simp [ofFixedDigits, List.foldl_append]
    rw [← List.cons_append, hread, hread, ih, List.length_append, List.length_singleton, pow_succ]
    ring

variable {ds : List Nat}

theorem ofFixedDigits_lt {b : Nat} (h : ∀ d ∈ ds, d < b) : ofFixedDigits b ds < b ^ ds.length := by
  induction ds with
  | nil => simp [ofFixedDigits]
  | cons d ds ih =>
    have hrest := ih fun x hx => h x (List.mem_cons_of_mem d hx)
    have hd : d + 1 ≤ b := h d List.mem_cons_self
    calc ofFixedDigits b (d :: ds)
        = d * b ^ ds.length + ofFixedDigits b ds := ofFixedDigits_cons b d ds
      _ < d * b ^ ds.length + b ^ ds.length := Nat.add_lt_add_left hrest _
      _ = (d + 1) * b ^ ds.length := by ring
      _ ≤ b * b ^ ds.length := Nat.mul_le_mul_right _ hd
      _ = b ^ (d :: ds).length := by rw [List.length_cons, pow_succ']

/-- The highest bit of a number whose first digit is not zero. -/
theorem log2_ofFixedDigits_cons {k d : Nat} (hd : d ≠ 0) (h : ∀ x ∈ ds, x < 2 ^ k) :
    (ofFixedDigits (2 ^ k) (d :: ds)).log2 = k * ds.length + d.log2 := by
  have hrest := ofFixedDigits_lt h
  rw [← pow_mul] at hrest
  rw [ofFixedDigits_cons, ← pow_mul]
  have hlow : 2 ^ d.log2 * 2 ^ (k * ds.length) ≤ d * 2 ^ (k * ds.length) :=
    Nat.mul_le_mul_right _ (Nat.log2_self_le hd)
  have hhigh : (d + 1) * 2 ^ (k * ds.length) ≤ 2 ^ (d.log2 + 1) * 2 ^ (k * ds.length) :=
    Nat.mul_le_mul_right _ Nat.lt_log2_self
  have hpos : 0 < 2 ^ d.log2 * 2 ^ (k * ds.length) := by positivity
  refine (Nat.log2_eq_iff (by omega)).mpr ⟨?_, ?_⟩
  · rw [pow_add, Nat.mul_comm]
    omega
  · rw [show k * ds.length + d.log2 + 1 = (d.log2 + 1) + k * ds.length by ring, pow_add]
    rw [Nat.add_mul, Nat.one_mul] at hhigh
    omega

end Lib
