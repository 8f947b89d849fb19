import Mathlib.Data.Nat.Digits.Lemmas

/-!
# Numbers written with a fixed number of digits

Byte arrays, hexadecimal texts and base 32 identifiers are all a number written with a fixed
number of digits, most significant first. The digits determine the number as long as it is in
range, and the same holds for the text made by mapping the digits to characters.
-/

namespace Lib

/-- The `len` lowest digits of `n` in base `b`, most significant first. -/
def fixedDigits (b : Nat) : Nat → Nat → List Nat
  | 0, _ => []
  | len + 1, n => fixedDigits b len (n / b) ++ [n % b]

/-- The number that a digit list denotes, most significant digit first. -/
def ofFixedDigits (b : Nat) (ds : List Nat) : Nat :=
  ds.foldl (fun acc d => acc * b + d) 0

@[simp] theorem length_fixedDigits (b len n : Nat) : (fixedDigits b len n).length = len := by
  induction len generalizing n with
  | zero => rfl
  | succ len ih => simp [fixedDigits, ih]

variable {α : Type*} {b : Nat} {ds : List Nat}

theorem fixedDigits_lt (hb : 0 < b) {len n d : Nat} (h : d ∈ fixedDigits b len n) : d < b := by
  induction len generalizing n with
  | zero => cases h
  | succ len ih =>
    rcases List.mem_append.mp h with h | h
    · exact ih h
    · rw [List.mem_singleton.mp h]
      exact Nat.mod_lt n hb

/-- Reading the digits back gives the number modulo the range of the digit string. -/
theorem ofFixedDigits_fixedDigits (b len n : Nat) :
    ofFixedDigits b (fixedDigits b len n) = n % b ^ len := by
  induction len generalizing n with
  | zero => simp [fixedDigits, ofFixedDigits, Nat.mod_one]
  | succ len ih =>
    have hread : ofFixedDigits b (fixedDigits b len (n / b) ++ [n % b]) =
        ofFixedDigits b (fixedDigits b len (n / b)) * b + n % b := by
      simp [ofFixedDigits, List.foldl_append]
    rw [fixedDigits, hread, ih, pow_succ', Nat.mod_mul]
    ring

/-- A list of digits is the digits of the number that it denotes. -/
theorem fixedDigits_ofFixedDigits (h : ∀ d ∈ ds, d < b) :
    fixedDigits b ds.length (ofFixedDigits b ds) = ds := by
  induction ds using List.reverseRecOn with
  | nil => rfl
  | append_singleton ds d ih =>
    have hd : d < b := h d (by simp)
    have hread : ofFixedDigits b (ds ++ [d]) = ofFixedDigits b ds * b + d := by
      simp [ofFixedDigits, List.foldl_append]
    have hquot : (ofFixedDigits b ds * b + d) / b = ofFixedDigits b ds := by
      rw [Nat.mul_comm, Nat.mul_add_div (by omega), Nat.div_eq_of_lt hd, Nat.add_zero]
    have hrem : (ofFixedDigits b ds * b + d) % b = d := by
      rw [Nat.mul_comm, Nat.mul_add_mod, Nat.mod_eq_of_lt hd]
    rw [List.length_append, List.length_singleton, fixedDigits, hread, hquot, hrem,
      ih fun d' hd' => h d' (List.mem_append_left _ hd')]

theorem fixedDigits_inj {b len n m : Nat} (hn : n < b ^ len) (hm : m < b ^ len)
    (h : fixedDigits b len n = fixedDigits b len m) : n = m := by
  have hread := congrArg (ofFixedDigits b) h
  rwa [ofFixedDigits_fixedDigits, ofFixedDigits_fixedDigits, Nat.mod_eq_of_lt hn,
    Nat.mod_eq_of_lt hm] at hread

variable {f : Nat → α} {g : α → Nat}

/-- A text made from the digits by a map with a left inverse determines the digits. -/
theorem map_fixedDigits_inj {b len n m : Nat} (hb : 0 < b) (hg : ∀ d < b, g (f d) = d)
    (hn : n < b ^ len) (hm : m < b ^ len)
    (h : (fixedDigits b len n).map f = (fixedDigits b len m).map f) : n = m := by
  have hread : ∀ n, ((fixedDigits b len n).map f).map g = fixedDigits b len n := by
    intro n
    rw [List.map_map]
    conv_rhs => rw [← List.map_id (fixedDigits b len n)]
    exact List.map_congr_left fun d hd => hg d (fixedDigits_lt hb hd)
  refine fixedDigits_inj hn hm ?_
  rw [← hread n, h, hread m]

/-! ## Order and concatenation -/

theorem concat_lt_concat_iff [LT α] {l l' : List α} {a a' : α} (h : l.length = l'.length) :
    l ++ [a] < l' ++ [a'] ↔ l < l' ∨ (l = l' ∧ a < a') := by
  induction l generalizing l' with
  | nil =>
    cases l' with
    | nil => simp [List.cons_lt_cons_iff]
    | cons x l' => cases h
  | cons y l ih =>
    cases l' with
    | nil => cases h
    | cons x l' =>
      rw [List.cons_append, List.cons_append, List.cons_lt_cons_iff, List.cons_lt_cons_iff,
        ih (Nat.succ.inj h), List.cons.injEq]
      constructor
      · rintro (hlt | ⟨rfl, hlt | ⟨rfl, hlt⟩⟩)
        · exact .inl (.inl hlt)
        · exact .inl (.inr ⟨rfl, hlt⟩)
        · exact .inr ⟨⟨rfl, rfl⟩, hlt⟩
      · rintro ((hlt | ⟨rfl, hlt⟩) | ⟨⟨rfl, rfl⟩, hlt⟩)
        · exact .inl hlt
        · exact .inr ⟨rfl, .inl hlt⟩
        · exact .inr ⟨rfl, .inr ⟨rfl, hlt⟩⟩

/-- Texts made from the digits by a map that keeps their order are in the order of the numbers. -/
theorem map_fixedDigits_lt_iff [LT α] {b len n m : Nat} (hb : 0 < b) (hg : ∀ d < b, g (f d) = d)
    (hf : ∀ x < b, ∀ y < b, f x < f y ↔ x < y) (hn : n < b ^ len) (hm : m < b ^ len) :
    (fixedDigits b len n).map f < (fixedDigits b len m).map f ↔ n < m := by
  induction len generalizing n m with
  | zero =>
    simp only [pow_zero, Nat.lt_one_iff] at hn hm
    simp [fixedDigits, hn, hm]
  | succ len ih =>
    have hn' : n / b < b ^ len := Nat.div_lt_of_lt_mul (by rwa [← pow_succ'])
    have hm' : m / b < b ^ len := Nat.div_lt_of_lt_mul (by rwa [← pow_succ'])
    have heq : (fixedDigits b len (n / b)).map f = (fixedDigits b len (m / b)).map f ↔
        n / b = m / b :=
      ⟨map_fixedDigits_inj hb hg hn' hm', fun h => by rw [h]⟩
    rw [fixedDigits, fixedDigits, List.map_append, List.map_append, List.map_singleton,
      List.map_singleton, concat_lt_concat_iff (by simp), ih hn' hm', heq,
      hf _ (Nat.mod_lt n hb) _ (Nat.mod_lt m hb)]
    -- the quotients decide, and the remainders where the quotients are equal
    have hdn := Nat.div_add_mod n b
    have hdm := Nat.div_add_mod m b
    have hrn := Nat.mod_lt n hb
    have hrm := Nat.mod_lt m hb
    constructor
    · rintro (hlt | ⟨hquot, hlt⟩)
      · have hmul : b * (n / b + 1) ≤ b * (m / b) := Nat.mul_le_mul_left b hlt
        rw [Nat.mul_add] at hmul
        omega
      · rw [hquot] at hdn
        omega
    · intro hlt
      rcases Nat.lt_or_ge (n / b) (m / b) with hquot | hquot
      · exact .inl hquot
      · have hle : n / b ≤ m / b := Nat.div_le_div_right hlt.le
        have hsame : n / b = m / b := Nat.le_antisymm hle hquot
        rw [hsame] at hdn
        exact .inr ⟨hsame, by omega⟩

/-! ## Pairs of digits -/

/-- The digits in base `b * b` of a list of digits in base `b`, two digits each. -/
def pairDigits (b : Nat) : List Nat → List Nat
  | x :: y :: rest => (x * b + y) :: pairDigits b rest
  | _ => []

theorem ofFixedDigits_pairDigits (h : 2 ∣ ds.length) :
    ofFixedDigits (b * b) (pairDigits b ds) = ofFixedDigits b ds := by
  have hfold : ∀ acc, (pairDigits b ds).foldl (fun acc d => acc * (b * b) + d) acc =
      ds.foldl (fun acc d => acc * b + d) acc := by
    induction ds using pairDigits.induct with
    | case1 x y rest ih =>
      intro acc
      rw [List.length_cons, List.length_cons] at h
      rw [pairDigits, List.foldl_cons, List.foldl_cons, List.foldl_cons, ih (by omega)]
      congr 1
      ring
    | case2 ds hshort =>
      intro acc
      match ds with
      | [] => rfl
      | [x] => simp at h
      | x :: y :: rest => exact absurd rfl (hshort x y rest)
  exact hfold 0

end Lib
