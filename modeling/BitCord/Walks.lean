import Mathlib.Algebra.Order.BigOperators.Group.List
import BitCord.Kademlia
import BitCord.Routing

/-!
# The walks through the DHT

The nodes that a walk contacts, round by round, for arbitrary answers. The walk keeps the ids that
it knows in two parts, those that it has contacted and those that wait (`WalkState.known`). The
waiting list is sorted and has each id once, so its first three entries are the nearest ids that
were not contacted (`walks_contact_nearest`). A walk is followed to its end here; the time limit of
a lookup is set by its caller. `communityPeers_merged` is what `kademlia_find_community_peers`
returns.
-/

namespace BitCord

open Lib

variable {id pk : Key} {dht : DhtState} {r : CommunityPeerRecord}
open DhtState (xorDistance xorDistance_injective distance_le_iff)

variable {target : Key} {seeds : List (Key × NodeAddr)}
  {answers : Nat → Key × NodeAddr → Option NodeResponse}

theorem byDistance_eq (target : Key) (peers : List (Key × NodeAddr)) :
    byDistance target peers = dedupNear Prod.fst (xorDistance target) peers := by
  unfold byDistance dedupNear sortNear
  simp only [distance_le_iff]

/-! ## What a walk knows -/

def returnedIds (answers : Nat → Key × NodeAddr → Option NodeResponse)
    (past : List (List (Key × NodeAddr))) : List Key :=
  past.zipIdx.flatMap fun round => round.1.flatMap fun p =>
    (closerPeers (answers round.2 p)).map Prod.fst

/-- The ids that a walk knows after the given rounds. -/
def knownIds (seeds : List (Key × NodeAddr))
    (answers : Nat → Key × NodeAddr → Option NodeResponse)
    (past : List (List (Key × NodeAddr))) : List Key :=
  seeds.map Prod.fst ++ returnedIds answers past

/-- The ids that were contacted in the given rounds. -/
def contactedIds (past : List (List (Key × NodeAddr))) : List Key := past.flatten.map Prod.fst

/-- The ids that a walk knows and has not contacted. -/
def openIds (seeds : List (Key × NodeAddr))
    (answers : Nat → Key × NodeAddr → Option NodeResponse)
    (past : List (List (Key × NodeAddr))) : List Key :=
  (knownIds seeds answers past).dedup.filter fun id => !(contactedIds past).contains id

theorem mem_openIds {past : List (List (Key × NodeAddr))} :
    id ∈ openIds seeds answers past ↔
      id ∈ knownIds seeds answers past ∧ id ∉ contactedIds past := by
  simp [openIds]

theorem knownIds_concat (seeds : List (Key × NodeAddr))
    (answers : Nat → Key × NodeAddr → Option NodeResponse)
    (past : List (List (Key × NodeAddr))) (batch : List (Key × NodeAddr)) :
    knownIds seeds answers (past ++ [batch]) = knownIds seeds answers past ++
      (batch.flatMap fun p => closerPeers (answers past.length p)).map Prod.fst := by
  unfold knownIds returnedIds
  simp [List.zipIdx_append, List.map_flatMap]

theorem contactedIds_concat (past : List (List (Key × NodeAddr))) (batch : List (Key × NodeAddr)) :
    contactedIds (past ++ [batch]) = contactedIds past ++ batch.map Prod.fst := by
  simp [contactedIds]

/-! ## One round -/

namespace Walk

theorem foldl_addPeer (peers : List (Key × NodeAddr)) (w : Walk) :
    (peers.foldl addPeer w).visited = w.visited ∧
      (peers.foldl addPeer w).closestFound = w.closestFound ∧
      (peers.foldl addPeer w).toVisit =
        w.toVisit ++ peers.filter fun p => !w.visited.contains p.1 := by
  induction peers generalizing w with
  | nil => simp
  | cons p peers ih =>
    obtain ⟨hvisited, hfound, htoVisit⟩ := ih (w.addPeer p)
    rw [List.foldl_cons, hvisited, hfound, htoVisit]
    unfold addPeer
    cases hp : w.visited.contains p.1 with
    | true => simp only [if_true, List.filter_cons, hp, Bool.not_true, Bool.false_eq_true,
        if_false, and_self]
    | false => simp only [Bool.false_eq_true, if_false, List.filter_cons, hp, Bool.not_false,
        if_true, List.append_assoc, List.singleton_append, and_self]

theorem foldl_answers (read : Key × NodeAddr → List (Key × NodeAddr))
    (batch : List (Key × NodeAddr)) (w : Walk) :
    (batch.foldl (fun w p => (read p).foldl addPeer w) w).visited = w.visited ∧
      (batch.foldl (fun w p => (read p).foldl addPeer w) w).closestFound = w.closestFound ∧
      (batch.foldl (fun w p => (read p).foldl addPeer w) w).toVisit =
        w.toVisit ++ (batch.flatMap read).filter fun p => !w.visited.contains p.1 := by
  rw [← List.foldl_flatMap]
  exact foldl_addPeer (batch.flatMap read) w

end Walk

/-- The state of a walk before a round, with the rounds it has made. -/
structure WalkState (target : Key) (seeds : List (Key × NodeAddr))
    (answers : Nat → Key × NodeAddr → Option NodeResponse) (past : List (List (Key × NodeAddr)))
    (w : Walk) : Prop where
  visited : w.visited = contactedIds past
  found : w.closestFound = past.flatten
  sorted : w.toVisit.Pairwise fun a b => xorDistance target a.1 < xorDistance target b.1
  waits : ∀ p ∈ w.toVisit, p.1 ∉ w.visited
  known : ∀ id, id ∈ knownIds seeds answers past ↔ id ∈ w.visited ∨ id ∈ w.toVisit.map Prod.fst
  distinct : (contactedIds past).Nodup

namespace WalkState

variable {past : List (List (Key × NodeAddr))} {w : Walk}

section

variable (h : WalkState target seeds answers past w)

include h

theorem batch_eq : w.batch = w.toVisit.take walkWidth := by
  unfold Walk.batch
  refine List.filter_eq_self.mpr fun p hp => ?_
  have hp' := h.waits p (List.mem_of_mem_take hp)
  simp [hp']

theorem sorted_ids :
    (w.toVisit.map Prod.fst).Pairwise fun a b => xorDistance target a < xorDistance target b :=
  List.pairwise_map.mpr h.sorted

theorem nodup_toVisit : (w.toVisit.map Prod.fst).Nodup :=
  h.sorted_ids.imp fun hlt heq => by
    rw [heq] at hlt
    exact lt_irrefl _ hlt

theorem mem_toVisit : id ∈ w.toVisit.map Prod.fst ↔ id ∈ openIds seeds answers past := by
  rw [mem_openIds, h.known, ← h.visited]
  constructor
  · intro hid
    obtain ⟨p, hp, rfl⟩ := List.mem_map.mp hid
    exact ⟨.inr hid, h.waits p hp⟩
  · rintro ⟨hknown, hnot⟩
    exact hknown.resolve_left hnot

theorem nearest_batch :
    Nearest (xorDistance target) walkWidth (openIds seeds answers past)
      (w.batch.map Prod.fst) := by
  have hperm : (w.toVisit.map Prod.fst).Perm (openIds seeds answers past) :=
    (List.perm_ext_iff_of_nodup h.nodup_toVisit ((List.nodup_dedup _).filter _)).mpr
      fun _ => h.mem_toVisit
  rw [h.batch_eq, List.map_take]
  exact nearest_take h.sorted_ids hperm walkWidth

theorem batch_not_mem_drop
    (hid : id ∈ w.batch.map Prod.fst) : id ∉ (w.toVisit.drop walkWidth).map Prod.fst := by
  have hnodup := h.nodup_toVisit
  rw [← List.take_append_drop walkWidth w.toVisit, List.map_append] at hnodup
  rw [h.batch_eq] at hid
  exact fun hdrop => (List.disjoint_of_nodup_append hnodup) hid hdrop

theorem mem_batch_or_drop :
    id ∈ w.toVisit.map Prod.fst ↔
      id ∈ w.batch.map Prod.fst ∨ id ∈ (w.toVisit.drop walkWidth).map Prod.fst := by
  rw [h.batch_eq, ← List.mem_append, ← List.map_append, List.take_append_drop]

end

/-- The ids that wait after a round. -/
theorem mem_toVisit_round (w : Walk) (target : Key)
    (answer : Key × NodeAddr → Option NodeResponse) :
    id ∈ (w.round target answer).toVisit.map Prod.fst ↔
      id ∈ (w.toVisit.drop walkWidth).map Prod.fst ∨
        (id ∈ (w.batch.flatMap fun p => closerPeers (answer p)).map Prod.fst ∧
          id ∉ w.drawn.visited) := by
  show id ∈ (byDistance target _).map Prod.fst ↔ _
  rw [byDistance_eq, mem_map_dedupNear,
    (Walk.foldl_answers (fun p => closerPeers (answer p)) w.batch w.drawn).2.2]
  simp only [List.map_append, List.mem_append, List.mem_map, List.mem_filter, List.contains_eq_mem,
    Bool.not_eq_true', decide_eq_false_iff_not]
  refine or_congr Iff.rfl ⟨?_, ?_⟩
  · rintro ⟨p, ⟨hp, hnot⟩, rfl⟩
    exact ⟨⟨p, hp, rfl⟩, hnot⟩
  · rintro ⟨⟨p, hp, rfl⟩, hnot⟩
    exact ⟨p, ⟨hp, hnot⟩, rfl⟩

theorem round (h : WalkState target seeds answers past w) :
    WalkState target seeds answers (past ++ [w.batch])
      (w.round target (answers past.length)) := by
  obtain ⟨hvisited, hfound, -⟩ :=
    Walk.foldl_answers (fun p => closerPeers (answers past.length p)) w.batch w.drawn
  have hcontacted : (w.round target (answers past.length)).visited =
      w.visited ++ w.batch.map Prod.fst := hvisited
  have hbatch : ∀ id ∈ w.batch.map Prod.fst, id ∉ w.visited := by
    intro id hid
    obtain ⟨p, hp, rfl⟩ := List.mem_map.mp hid
    rw [h.batch_eq] at hp
    exact h.waits p (List.mem_of_mem_take hp)
  constructor
  case visited => rw [hcontacted, contactedIds_concat, h.visited]
  case found =>
    show (w.batch.foldl _ w.drawn).closestFound = _
    rw [hfound, List.flatten_append, List.flatten_singleton, ← h.found]
    rfl
  case sorted =>
    show (byDistance target _).Pairwise _
    rw [byDistance_eq]
    exact pairwise_lt_dedupNear (xorDistance_injective target) _
  case waits =>
    intro p hp
    rw [hcontacted]
    rcases (mem_toVisit_round w target _).mp (List.mem_map_of_mem hp) with hdrop | ⟨_, hnot⟩
    · intro hmem
      rcases List.mem_append.mp hmem with hold | hnew
      · obtain ⟨q, hq, hqp⟩ := List.mem_map.mp hdrop
        exact h.waits q (List.mem_of_mem_drop hq) (hqp ▸ hold)
      · exact h.batch_not_mem_drop hnew hdrop
    · exact hnot
  case known =>
    intro id
    rw [knownIds_concat, List.mem_append, h.known, mem_toVisit_round, hcontacted,
      List.mem_append, h.mem_batch_or_drop]
    have hdrawn : id ∈ w.drawn.visited ↔ id ∈ w.visited ∨ id ∈ w.batch.map Prod.fst :=
      List.mem_append
    rw [hdrawn]
    tauto
  case distinct =>
    rw [contactedIds_concat, ← h.visited]
    refine List.Nodup.append (h.visited ▸ h.distinct) ?_ fun id hold hnew => hbatch id hnew hold
    rw [h.batch_eq, List.map_take]
    exact h.nodup_toVisit.sublist (List.take_sublist _ _)

theorem start (h : dht.Routed) (target : Key)
    (answers : Nat → Key × NodeAddr → Option NodeResponse) :
    WalkState target (dht.closestPeers target walkSeed) answers [] (Walk.start dht target) where
  visited := rfl
  found := rfl
  sorted := (h.nearest_closestPeers target walkSeed).increasing
  waits _ _ := List.not_mem_nil
  known id := by simp [knownIds, returnedIds, Walk.start]
  distinct := List.nodup_nil

end WalkState

/-! ## Whole walks -/

/-- What a walk contacts in each round, from the round `i` on, where some answers may end it. -/
def Walk.contacts (target : Key) (answers : Nat → Key × NodeAddr → Option NodeResponse)
    (ends : Option NodeResponse → Bool) : Nat → Nat → Walk → List (List (Key × NodeAddr))
  | 0, _, _ => []
  | fuel + 1, i, w =>
    if w.batch = [] then []
    else w.batch ::
      if w.batch.any fun p => ends (answers i p) then []
      else contacts target answers ends fuel (i + 1) (w.round target (answers i))

namespace Walk

theorem closestFound_round (w : Walk) (target : Key)
    (answer : Key × NodeAddr → Option NodeResponse) :
    (w.round target answer).closestFound = w.closestFound ++ w.batch :=
  (foldl_answers (fun p => closerPeers (answer p)) w.batch w.drawn).2.1

/-- The walk of `kademlia_find_community_peers` and `kademlia_find_peer_info`. -/
theorem closestFound_rounds (fuel i : Nat) (w : Walk) :
    (w.rounds target answers fuel i).closestFound =
      w.closestFound ++ (w.contacts target answers (fun _ => false) fuel i).flatten := by
  induction fuel generalizing i w with
  | zero => simp [rounds, contacts]
  | succ fuel ih =>
    unfold rounds contacts
    split
    · simp
    · simp [ih, closestFound_round]

variable {answer : Key × NodeAddr → Option NodeResponse} {batch : List (Key × NodeAddr)}

theorem readAnswers_of_none {instant : Nat} (h : ∀ p ∈ batch, mailboxOf (answer p) = none)
    (w : Walk) :
    readAnswers instant target answer batch w =
      (batch.foldl (fun w p => (closerPeers (answer p)).foldl addPeer w) w, none) := by
  induction batch generalizing w with
  | nil => rfl
  | cons p batch ih =>
    have hp := h p List.mem_cons_self
    simp only [readAnswers, hp, List.foldl_cons]
    exact ih (fun q hq => h q (List.mem_cons_of_mem p hq)) _

theorem readAnswers_of_isSome (instant : Nat) (target : Key)
    (h : ∃ p ∈ batch, (mailboxOf (answer p)).isSome = true) (w : Walk) :
    ∃ w' addr, readAnswers instant target answer batch w = (w', some addr) ∧
      w'.closestFound = w.closestFound := by
  induction batch generalizing w with
  | nil => simp at h
  | cons p batch ih =>
    unfold readAnswers
    cases hp : mailboxOf (answer p) with
    | some addr => exact ⟨_, addr, rfl, rfl⟩
    | none =>
      have hrest : ∃ q ∈ batch, (mailboxOf (answer q)).isSome = true := by
        simpa [hp] using h
      obtain ⟨w', addr, hread, hfound⟩ := ih hrest ((closerPeers (answer p)).foldl addPeer w)
      exact ⟨w', addr, hread, hfound.trans (foldl_addPeer _ w).2.1⟩

theorem closestFound_lookupRounds (instant fuel i : Nat) (w : Walk) :
    (w.lookupRounds instant target answers fuel i).1.closestFound = w.closestFound ++
      (w.contacts target answers (fun r => (mailboxOf r).isSome) fuel i).flatten := by
  induction fuel generalizing i w with
  | zero => simp [lookupRounds, contacts]
  | succ fuel ih =>
    unfold lookupRounds contacts
    split
    · simp
    · by_cases hmailbox : ∃ p ∈ w.batch, (mailboxOf (answers i p)).isSome = true
      · obtain ⟨w', addr, hread, hfound⟩ :=
          readAnswers_of_isSome instant target hmailbox w.drawn
        rw [hread, if_pos (List.any_eq_true.mpr hmailbox)]
        simpa [drawn] using hfound
      · have hnone : ∀ p ∈ w.batch, mailboxOf (answers i p) = none := by simpa using hmailbox
        rw [readAnswers_of_none hnone, if_neg (by simpa using hmailbox)]
        have hround := ih (i + 1) (w.round target (answers i))
        rw [closestFound_round, List.append_assoc] at hround
        rw [List.flatten_cons]
        exact hround

end Walk

namespace WalkState

variable {past : List (List (Key × NodeAddr))} {w : Walk} {ends : Option NodeResponse → Bool}

theorem nodup_contacts (h : WalkState target seeds answers past w) (fuel : Nat) :
    (contactedIds (past ++ w.contacts target answers ends fuel past.length)).Nodup := by
  induction fuel generalizing past w with
  | zero => simpa [Walk.contacts] using h.distinct
  | succ fuel ih =>
    unfold Walk.contacts
    split
    · simpa using h.distinct
    · split
      · exact h.round.distinct
      · have hrest := ih h.round
        rwa [List.length_append, List.length_singleton, List.append_assoc] at hrest

theorem nearest_contacts (h : WalkState target seeds answers past w) (fuel : Nat)
    {pre rest : List (List (Key × NodeAddr))} {batch : List (Key × NodeAddr)}
    (hsplit : w.contacts target answers ends fuel past.length = pre ++ batch :: rest) :
    Nearest (xorDistance target) walkWidth (openIds seeds answers (past ++ pre))
      (batch.map Prod.fst) := by
  induction fuel generalizing past w pre with
  | zero => simp [Walk.contacts] at hsplit
  | succ fuel ih =>
    unfold Walk.contacts at hsplit
    split at hsplit
    · simp at hsplit
    · cases pre with
      | nil =>
        obtain ⟨rfl, -⟩ := List.cons.inj hsplit
        simpa using h.nearest_batch
      | cons first pre =>
        obtain ⟨rfl, hrest⟩ := List.cons.inj hsplit
        split at hrest
        · simp at hrest
        · have htail : (w.round target (answers past.length)).contacts target answers ends fuel
              (past ++ [w.batch]).length = pre ++ batch :: rest := by simpa using hrest
          simpa using ih h.round htail

theorem length_contacts_le (fuel i : Nat) (w : Walk) :
    (w.contacts target answers ends fuel i).length ≤ fuel := by
  induction fuel generalizing i w with
  | zero => simp [Walk.contacts]
  | succ fuel ih =>
    unfold Walk.contacts
    split
    · simp
    · split
      · simp
      · simpa using ih (i + 1) (w.round target (answers i))

/-- A walk with a round to spare has contacted all that it knows, or the last round ended it. -/
theorem ended_contacts (h : WalkState target seeds answers past w) (fuel : Nat)
    (hlt : (w.contacts target answers ends fuel past.length).length < fuel) :
    openIds seeds answers (past ++ w.contacts target answers ends fuel past.length) = [] ∨
      ∃ pre batch, past ++ w.contacts target answers ends fuel past.length = pre ++ [batch] ∧
        ∃ p ∈ batch, ends (answers pre.length p) = true := by
  induction fuel generalizing past w with
  | zero => simp at hlt
  | succ fuel ih =>
    unfold Walk.contacts at hlt ⊢
    split at hlt
    · next hbatch =>
      rw [if_pos hbatch, List.append_nil]
      have hlength := h.nearest_batch.length
      rw [hbatch] at hlength
      refine .inl (List.eq_nil_of_length_eq_zero ?_)
      simp only [List.map_nil, List.length_nil, walkWidth] at hlength
      omega
    · next hbatch =>
      rw [if_neg hbatch]
      split at hlt
      · next hends =>
        rw [if_pos hends]
        exact .inr ⟨past, w.batch, rfl, List.any_eq_true.mp hends⟩
      · next hends =>
        rw [if_neg hends]
        have hrest := ih h.round (by simpa using hlt)
        simpa using hrest

end WalkState

/-- The contacts of a walk that starts with `seeds`: no id twice, and in each round the nearest of
the ids that are open. -/
structure NearestContacts (target : Key) (seeds : List (Key × NodeAddr))
    (answers : Nat → Key × NodeAddr → Option NodeResponse)
    (contacts : List (List (Key × NodeAddr))) : Prop where
  distinct : (contactedIds contacts).Nodup
  nearest : ∀ past batch rest, contacts = past ++ batch :: rest →
    Nearest (xorDistance target) walkWidth (openIds seeds answers past) (batch.map Prod.fst)
  few : (contactedIds contacts).length ≤ 24

theorem length_contactedIds_le {contacts : List (List (Key × NodeAddr))} {n : Nat}
    (h : ∀ batch ∈ contacts, batch.length ≤ n) :
    (contactedIds contacts).length ≤ contacts.length * n := by
  have hsum : (contacts.map List.length).sum ≤ (contacts.map List.length).length • n := by
    refine List.sum_le_card_nsmul _ _ fun k hk => ?_
    obtain ⟨batch, hbatch, rfl⟩ := List.mem_map.mp hk
    exact h batch hbatch
  rw [contactedIds, List.length_map, List.length_flatten]
  simpa using hsum

theorem Walk.nearestContacts_start (h : dht.Routed) (target : Key)
    (answers : Nat → Key × NodeAddr → Option NodeResponse) (ends : Option NodeResponse → Bool) :
    NearestContacts target (dht.closestPeers target walkSeed) answers
      ((start dht target).contacts target answers ends walkRounds 0) := by
  have hstart := WalkState.start h target answers
  refine ⟨hstart.nodup_contacts walkRounds, ?_, ?_⟩
  · intro past batch rest hsplit
    exact hstart.nearest_contacts walkRounds hsplit
  · have hrounds : ((start dht target).contacts target answers ends walkRounds 0).length ≤ 8 :=
      WalkState.length_contacts_le walkRounds 0 _
    have hwidth : ∀ batch ∈ (start dht target).contacts target answers ends walkRounds 0,
        batch.length ≤ 3 := by
      intro batch hbatch
      obtain ⟨past, rest, hsplit⟩ := List.append_of_mem hbatch
      have hlength := (hstart.nearest_contacts walkRounds hsplit).length
      rw [List.length_map] at hlength
      exact hlength ▸ Nat.min_le_left _ _
    have hle := length_contactedIds_le hwidth
    omega

/-- Each round of a walk contacts the nearest ids that it knows and has not contacted, and a walk of
fewer than eight rounds has contacted all ids that it knows. A mailbox ends `kademlia_lookup` after
the round that has it in an answer. -/
theorem walks_contact_nearest (nodePk : Key) (selfAddr : Option NodeAddr)
    (calls : List (Key × NodeAddr)) (target : Key)
    (answers : Nat → Key × NodeAddr → Option NodeResponse) (instant : Nat) :
    let dht := DhtState.afterCalls nodePk selfAddr calls
    let seeds := dht.closestPeers target walkSeed
    let walk := Walk.start dht target
    (∃ contacts,
      (walk.rounds target answers walkRounds 0).closestFound = contacts.flatten ∧
      NearestContacts target seeds answers contacts ∧
      (contacts.length < walkRounds → openIds seeds answers contacts = [])) ∧
    (∃ contacts,
      (walk.lookupRounds instant target answers walkRounds 0).1.closestFound = contacts.flatten ∧
      NearestContacts target seeds answers contacts ∧
      (contacts.length < walkRounds → openIds seeds answers contacts = [] ∨
        ∃ past batch, contacts = past ++ [batch] ∧
          ∃ p ∈ batch, (mailboxOf (answers past.length p)).isSome = true)) := by
  intro dht seeds walk
  have hrouted : dht.Routed := (DhtState.kept_afterCalls nodePk selfAddr calls).routed
  have hstart := WalkState.start hrouted target answers
  refine ⟨⟨_, Walk.closestFound_rounds walkRounds 0 walk,
    Walk.nearestContacts_start hrouted target answers _, fun hlt => ?_⟩,
    ⟨_, Walk.closestFound_lookupRounds instant walkRounds 0 walk,
    Walk.nearestContacts_start hrouted target answers _, hstart.ended_contacts walkRounds⟩⟩
  rcases hstart.ended_contacts walkRounds hlt with hall | ⟨_, _, _, _, _, hfalse⟩
  · exact hall
  · cases hfalse

/-! ## Community peers -/

/-- The records taken so far from a list: for each node in it the first one. -/
structure Merged (records : List CommunityPeerRecord)
    (m : List Key × List CommunityPeerRecord) : Prop where
  seen : m.1 = m.2.map CommunityPeerRecord.nodePk
  distinct : (m.2.map CommunityPeerRecord.nodePk).Nodup
  first : ∀ pk, m.2.find? (fun r => decide (r.nodePk = pk)) =
    records.find? fun r => decide (r.nodePk = pk)

namespace Merged

variable {records : List CommunityPeerRecord} {m : List Key × List CommunityPeerRecord}

theorem nil : Merged [] ([], []) := ⟨rfl, List.nodup_nil, fun _ => rfl⟩

theorem mergeRecord (h : Merged records m) (r : CommunityPeerRecord) :
    Merged (records ++ [r]) (mergeRecord m r) := by
  unfold BitCord.mergeRecord
  split
  · -- a record for the node comes earlier in the list
    next hseen =>
    refine ⟨h.seen, h.distinct, fun pk => ?_⟩
    rw [h.first, List.find?_append, ← h.first]
    cases hfind : m.2.find? fun x => decide (x.nodePk = pk) with
    | some x => rfl
    | none =>
      have hne : ¬ r.nodePk = pk := by
        rintro rfl
        rw [h.seen] at hseen
        obtain ⟨x, hx, hpk⟩ := List.mem_map.mp (List.contains_iff_mem.mp hseen)
        exact List.find?_eq_none.mp hfind x hx (decide_eq_true hpk)
      simp [hne]
  · next hseen =>
    have hnew : r.nodePk ∉ m.2.map CommunityPeerRecord.nodePk := by
      rw [← h.seen]
      exact fun hmem => hseen (List.contains_iff_mem.mpr hmem)
    refine ⟨by simp [h.seen], ?_, fun pk => ?_⟩
    · rw [List.map_append, List.map_singleton]
      exact h.distinct.append (List.nodup_singleton _) (List.disjoint_singleton.mpr hnew)
    · rw [List.find?_append, List.find?_append, h.first]

theorem foldl (h : Merged records m) (rs : List CommunityPeerRecord) :
    Merged (records ++ rs) (rs.foldl BitCord.mergeRecord m) := by
  induction rs generalizing records m with
  | nil => simpa using h
  | cons r rs ih => simpa using ih (h.mergeRecord r)

theorem mem_iff (h : Merged records m) :
    pk ∈ m.2.map CommunityPeerRecord.nodePk ↔ pk ∈ records.map CommunityPeerRecord.nodePk := by
  have hread : ∀ l : List CommunityPeerRecord, pk ∈ l.map CommunityPeerRecord.nodePk ↔
      (l.find? fun r => decide (r.nodePk = pk)).isSome = true := by
    intro l
    simp [List.find?_isSome]
  rw [hread, hread, h.first]

theorem find_eq (h : Merged records m) (hr : r ∈ m.2) :
    records.find? (fun x => decide (x.nodePk = r.nodePk)) = some r := by
  rw [← h.first]
  cases hfind : m.2.find? fun x => decide (x.nodePk = r.nodePk) with
  | none => exact absurd (decide_eq_true rfl) (List.find?_eq_none.mp hfind r hr)
  | some x =>
    have hpk : x.nodePk = r.nodePk := by simpa using List.find?_some hfind
    rw [List.inj_on_of_nodup_map h.distinct (List.mem_of_find?_eq_some hfind) hr hpk]

end Merged

theorem mem_lookupCommunityPeers {unixNow : UInt64} {communityPk : Key} :
    r ∈ dht.lookupCommunityPeers unixNow communityPk ↔
      ∃ list, dht.communityPeers.lookup communityPk = some list ∧ r ∈ list ∧
        unixNow.toNat - r.announcedAt.toNat < communityPeerTtlSecs := by
  unfold DhtState.lookupCommunityPeers
  cases dht.communityPeers.lookup communityPk <;> simp

/-- In a list of answers that are in the order of distances, the first record for a node is in the
nearest answer that has one. -/
theorem find_flatMap_of_nearest {peers : List (Key × NodeAddr)}
    {answer : Key × NodeAddr → List CommunityPeerRecord}
    (hsorted : peers.Pairwise fun a b => xorDistance target a.1 < xorDistance target b.1)
    {p : Key × NodeAddr} (hp : p ∈ peers)
    (hnearer : ∀ q ∈ peers, xorDistance target q.1 < xorDistance target p.1 →
      pk ∉ (answer q).map CommunityPeerRecord.nodePk)
    (hpk : pk ∈ (answer p).map CommunityPeerRecord.nodePk)
    (rest : List CommunityPeerRecord) :
    (peers.flatMap answer ++ rest).find? (fun r => decide (r.nodePk = pk)) =
      (answer p).find? fun r => decide (r.nodePk = pk) := by
  obtain ⟨before, after, rfl⟩ := List.append_of_mem hp
  have hbefore : ∀ q ∈ before, (answer q).find? (fun r => decide (r.nodePk = pk)) = none := by
    intro q hq
    have hlt := (List.pairwise_append.mp hsorted).2.2 q hq p List.mem_cons_self
    have hnot := hnearer q (List.mem_append_left _ hq) hlt
    refine List.find?_eq_none.mpr fun r hr heq => hnot ?_
    exact List.mem_map.mpr ⟨r, hr, of_decide_eq_true heq⟩
  obtain ⟨r, hr, hrpk⟩ := List.mem_map.mp hpk
  have hsome : ((answer p).find? fun r => decide (r.nodePk = pk)).isSome = true :=
    List.find?_isSome.mpr ⟨r, hr, decide_eq_true hrpk⟩
  obtain ⟨x, hx⟩ := Option.isSome_iff_exists.mp hsome
  have hnone : (before.flatMap answer).find? (fun r => decide (r.nodePk = pk)) = none := by
    rw [List.find?_flatMap]
    exact List.findSome?_eq_none_iff.mpr hbefore
  rw [List.flatMap_append, List.flatMap_cons, List.find?_append, List.find?_append,
    List.find?_append, hnone, hx]
  rfl

/-- The nodes that are asked for community peers. -/
theorem nearest_queried {w : Walk} (h : (w.closestFound.map Prod.fst).Nodup) (target : Key) :
    Nearest (fun p => xorDistance target p.1) walkSeed w.closestFound (w.queried target) := by
  unfold Walk.queried
  rw [byDistance_eq, dedupNear_eq_sortNear h]
  exact nearest_take_sortNear (xorDistance_injective target) h walkSeed

/-- What `kademlia_find_community_peers` returns: one record for each node that occurs in an answer
or in an unexpired record of the cache, and if it occurs in answers, then the first record for it in
the nearest of them. The nodes that are asked are the nearest of those that the walk contacted. -/
theorem communityPeers_merged (nodePk : Key) (selfAddr : Option NodeAddr)
    (calls : List (Key × NodeAddr)) (cache : Dict Key (List CommunityPeerRecord))
    (findNode : Nat → Key × NodeAddr → Option NodeResponse)
    (findCommunityPeers : Key × NodeAddr → Option NodeResponse) (unixNow : UInt64)
    (communityPk : Key) :
    let dht := { DhtState.afterCalls nodePk selfAddr calls with communityPeers := cache }
    let walk := (Walk.start dht communityPk).rounds communityPk findNode walkRounds 0
    let queried := walk.queried communityPk
    let answer := fun p => receivedCommunityPeers (findCommunityPeers p)
    let result :=
      (kademliaFindCommunityPeers unixNow findNode findCommunityPeers dht communityPk).2
    (result.map CommunityPeerRecord.nodePk).Nodup ∧
      (∀ pk, pk ∈ result.map CommunityPeerRecord.nodePk ↔
        (∃ p ∈ queried, pk ∈ (answer p).map CommunityPeerRecord.nodePk) ∨
        ∃ list, cache.lookup communityPk = some list ∧ ∃ r ∈ list, r.nodePk = pk ∧
          unixNow.toNat - r.announcedAt.toNat < communityPeerTtlSecs) ∧
      (∀ r ∈ result, ∀ p ∈ queried, r.nodePk ∈ (answer p).map CommunityPeerRecord.nodePk →
        (∀ q ∈ queried, xorDistance communityPk q.1 < xorDistance communityPk p.1 →
          r.nodePk ∉ (answer q).map CommunityPeerRecord.nodePk) →
        (answer p).find? (fun x => decide (x.nodePk = r.nodePk)) = some r) ∧
      Nearest (fun p => xorDistance communityPk p.1) walkSeed walk.closestFound queried := by
  intro dht walk queried answer result
  have hrouted : dht.Routed := by
    have hcalls := (DhtState.kept_afterCalls nodePk selfAddr calls).routed
    exact ⟨hcalls.size, hcalls.place, hcalls.distinct⟩
  have hcontacted : (walk.closestFound.map Prod.fst).Nodup := by
    rw [Walk.closestFound_rounds]
    exact (Walk.nearestContacts_start hrouted communityPk findNode fun _ => false).distinct
  have hnearest := nearest_queried hcontacted communityPk
  have hcache : walk.dht.communityPeers = cache := by
    obtain ⟨table, htable⟩ := Walk.exists_dht_rounds communityPk findNode walkRounds 0
      (Walk.start dht communityPk)
    exact congrArg DhtState.communityPeers htable
  have hmerged := Merged.nil.foldl (queried.flatMap answer)
  rw [List.foldl_flatMap] at hmerged
  replace hmerged := hmerged.foldl (walk.dht.lookupCommunityPeers unixNow communityPk)
  rw [List.nil_append] at hmerged
  refine ⟨hmerged.distinct, fun pk => ?_, fun r hr p hp hpk hnearer => ?_, hnearest⟩
  · refine hmerged.mem_iff.trans ?_
    rw [List.map_append, List.mem_append, List.map_flatMap, List.mem_flatMap]
    refine or_congr Iff.rfl ?_
    simp only [List.mem_map, mem_lookupCommunityPeers, hcache]
    constructor
    · rintro ⟨r, ⟨list, hlist, hr, hfresh⟩, hpk⟩
      exact ⟨list, hlist, r, hr, hpk, hfresh⟩
    · rintro ⟨list, hlist, r, hr, hpk, hfresh⟩
      exact ⟨r, ⟨list, hlist, hr, hfresh⟩, hpk⟩
  · rw [← find_flatMap_of_nearest hnearest.increasing hp hnearer hpk]
    exact hmerged.find_eq hr

end BitCord
