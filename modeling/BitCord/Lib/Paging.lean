import Mathlib.Algebra.Order.Floor.Div

/-!
# Reading a list page by page

A client that reads a list from its end asks for the last elements, and then again and again for
those before the first element that it got, until it gets none. If the answers are the right parts
of the list, the pages are a partition of it (`exists_pages`). A server that does not look at the
position gives the same page for ever (`pages_const_iff`).
-/

namespace Lib.Paging

variable {α κ : Type*}

/-- The last elements of a list before a position, at most `limit` of them. -/
def lastBefore (l : List α) (limit pos : Nat) : List α := (l.take pos).drop (pos - limit)

/-- The pages that a client gets, in the order of its requests, up to the empty one. -/
inductive Pages (get : Option κ → List α) (key : α → κ) : Option κ → List (List α) → Prop
  | done {before : Option κ} : get before = [] → Pages get key before []
  | next {before : Option κ} {a : α} {rest : List α} {pages : List (List α)} :
      get before = a :: rest → Pages get key (some (key a)) pages →
      Pages get key before ((a :: rest) :: pages)

theorem take_append_lastBefore (l : List α) (limit pos : Nat) :
    l.take (pos - limit) ++ lastBefore l limit pos = l.take pos := by
  have htake : l.take (pos - limit) = (l.take pos).take (pos - limit) := by
    rw [List.take_take, Nat.min_eq_left (Nat.sub_le pos limit)]
  rw [htake, lastBefore, List.take_append_drop]

variable {limit pos : Nat} {l : List α}

/-- A page begins where the next one ends. -/
theorem lastBefore_eq_cons (hlimit : 0 < limit) (hpos : 0 < pos) (hle : pos ≤ l.length) :
    ∃ h : pos - limit < l.length, ∃ rest, lastBefore l limit pos = l[pos - limit] :: rest := by
  have hlt : pos - limit < (l.take pos).length := by
    rw [List.length_take, Nat.min_eq_left hle]
    omega
  refine ⟨by omega, (l.take pos).drop (pos - limit + 1), ?_⟩
  rw [lastBefore, List.drop_eq_getElem_cons hlt, List.getElem_take]

/-- One page more for each step back by `limit`. -/
theorem ceilDiv_eq_succ (hlimit : 0 < limit) (hpos : 0 < pos) :
    pos ⌈/⌉ limit = (pos - limit) ⌈/⌉ limit + 1 := by
  rw [Nat.ceilDiv_eq_add_pred_div, Nat.ceilDiv_eq_add_pred_div]
  rcases Nat.lt_or_ge pos limit with hlt | hge
  · rw [Nat.sub_eq_zero_of_le hlt.le, Nat.zero_add, Nat.div_eq_of_lt (Nat.sub_lt hlimit one_pos)]
    exact Nat.div_eq_of_lt_le (by omega) (by omega)
  · have hsum : pos + limit - 1 = (pos - limit + limit - 1) + limit := by omega
    rw [hsum, Nat.add_div_right _ hlimit]

variable {get : Option κ → List α} {key : α → κ}

/-- Where each answer has the last elements before the position of the key, the pages are a
partition of the list, from its end. -/
theorem exists_pages {limit : Nat} (hlimit : 0 < limit)
    (hlast : get none = lastBefore l limit l.length)
    (hbefore : ∀ i (h : i < l.length), get (some (key l[i])) = lastBefore l limit i) :
    ∃ pages, Pages get key none pages ∧ pages.length = l.length ⌈/⌉ limit ∧
      pages.reverse.flatten = l := by
  have hfrom : ∀ pos before, pos ≤ l.length → get before = lastBefore l limit pos →
      ∃ pages, Pages get key before pages ∧ pages.length = pos ⌈/⌉ limit ∧
        pages.reverse.flatten = l.take pos := by
    intro pos
    -- each request goes back by `limit` positions
    induction pos using Nat.strongRecOn with
    | ind pos ih =>
      intro before hle hget
      rcases Nat.eq_zero_or_pos pos with rfl | hpos
      · exact ⟨[], .done (by rw [hget]; simp [lastBefore]), by simp, by simp⟩
      · obtain ⟨hlt, rest, hpage⟩ := lastBefore_eq_cons hlimit hpos hle
        obtain ⟨pages, hpages, hcount, hflat⟩ :=
          ih (pos - limit) (by omega) _ (by omega) (hbefore (pos - limit) hlt)
        refine ⟨_ :: pages, .next (hget.trans hpage) hpages, ?_, ?_⟩
        · rw [List.length_cons, hcount, ceilDiv_eq_succ hlimit hpos]
        · rw [List.reverse_cons, List.flatten_append, hflat, List.flatten_singleton, ← hpage,
            take_append_lastBefore]
  obtain ⟨pages, hpages, hcount, hflat⟩ := hfrom l.length none le_rfl hlast
  exact ⟨pages, hpages, hcount, hflat.trans List.take_length⟩

/-- A server that gives the same page to every request is read to the end only if the page is
empty. -/
theorem pages_const_iff {page : List α} (hget : ∀ before, get before = page) {before : Option κ}
    {pages : List (List α)} : Pages get key before pages ↔ page = [] ∧ pages = [] := by
  constructor
  · intro h
    induction h with
    | done hempty => exact ⟨(hget _).symm.trans hempty, rfl⟩
    | next hcons _ ih =>
      rw [hget, ih.1] at hcons
      cases hcons
  · rintro ⟨rfl, rfl⟩
    exact .done (hget before)

end Lib.Paging
