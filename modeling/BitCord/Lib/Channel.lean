import Mathlib.Data.List.Basic

/-!
# Bounded channels

A channel holds at most `cap` values. On a full channel a sender waits, so `send` has no result;
`recv` takes the oldest value. A waiting sender can only be let through by a receive: a send is the
one operation after which a channel can be full, and it fills the channel exactly when it takes the
last place.
-/

namespace Lib

structure Chan (α : Type*) (cap : Nat) where
  items : List α
  bounded : items.length ≤ cap

namespace Chan

variable {α : Type*} {cap : Nat}

def empty : Chan α cap := ⟨[], Nat.zero_le cap⟩

def Full (c : Chan α cap) : Prop := c.items.length = cap

/-- One more value fills the channel. -/
def LastPlace (c : Chan α cap) : Prop := c.items.length + 1 = cap

instance (c : Chan α cap) : Decidable c.Full := inferInstanceAs (Decidable (_ = _))

instance (c : Chan α cap) : Decidable c.LastPlace := inferInstanceAs (Decidable (_ = _))

def send (c : Chan α cap) (a : α) : Option (Chan α cap) :=
  if h : c.items.length < cap then
    some ⟨c.items ++ [a], by rw [List.length_append]; exact h⟩
  else none

def recv (c : Chan α cap) : Option (α × Chan α cap) :=
  c.items.head?.map fun a =>
    (a, ⟨c.items.tail, Nat.le_trans (by rw [List.length_tail]; exact Nat.sub_le _ _) c.bounded⟩)

variable {c d : Chan α cap} {a : α}

theorem LastPlace.not_full (h : c.LastPlace) : ¬ c.Full := by
  unfold LastPlace at h
  unfold Full
  omega

theorem send_of_full (h : c.Full) (a : α) : c.send a = none :=
  dif_neg (Nat.not_lt.mpr (Nat.le_of_eq h.symm))

theorem exists_send (h : ¬ c.Full) (a : α) : ∃ d, c.send a = some d ∧ d.items = c.items ++ [a] :=
  ⟨_, dif_pos (Nat.lt_of_le_of_ne c.bounded h), rfl⟩

theorem of_send (h : c.send a = some d) : ¬ c.Full ∧ d.items = c.items ++ [a] := by
  have hnot : ¬ c.Full := fun hfull => by rw [send_of_full hfull] at h; cases h
  obtain ⟨d', hd', hitems⟩ := exists_send hnot a
  obtain rfl : d' = d := Option.some.inj (hd'.symm.trans h)
  exact ⟨hnot, hitems⟩

theorem full_iff_of_send (h : c.send a = some d) : d.Full ↔ c.LastPlace := by
  unfold Full LastPlace
  rw [(of_send h).2, List.length_append]
  rfl

/-- A send waits at a full channel, or it fills the channel if it takes the last place. -/
theorem send_cases (c : Chan α cap) (a : α) :
    c.send a = none ∧ c.Full ∧ ¬ c.LastPlace ∨
      ∃ d, c.send a = some d ∧ ¬ c.Full ∧ (d.Full ↔ c.LastPlace) := by
  by_cases hfull : c.Full
  · exact .inl ⟨send_of_full hfull a, hfull, fun hlast => hlast.not_full hfull⟩
  · obtain ⟨d, hd, -⟩ := exists_send hfull a
    exact .inr ⟨d, hd, hfull, full_iff_of_send hd⟩

theorem recv_eq_none : c.recv = none ↔ c.items = [] :=
  Option.map_eq_none_iff.trans List.head?_eq_none_iff

theorem items_of_recv (h : c.recv = some (a, d)) : c.items = a :: d.items := by
  obtain ⟨b, hb, heq⟩ := Option.map_eq_some_iff.mp h
  obtain ⟨rfl, rfl⟩ := Prod.mk.inj heq
  exact List.eq_cons_of_mem_head? hb

theorem not_full_of_recv (h : c.recv = some (a, d)) : ¬ d.Full := by
  have hbound := c.bounded
  rw [items_of_recv h, List.length_cons] at hbound
  unfold Full
  omega

end Chan

end Lib
