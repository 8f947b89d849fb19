import BitCord.Persistence.Events

/-!
# A restart and the members

`AppState::new` adds the members of the file to the stored metadata, and then fills the tables from
the metadata. A record that a restart adds to the one was in the other.
-/

namespace BitCord

open Lib

variable {t : Tables} {st : NodeStore} {pk : Key} {c v : String} {r : MembershipRecord}
  {s : AppState}

namespace AppState

/-! ## Restart -/

theorem of_recordAt_mergeStep {e : (_ : String) × Dict String MembershipRecord}
    (h : (mergeStep t st e).recordAt pk v = some r) :
    st.recordAt pk v = some r ∨
      (communityPk? t e.1 = some pk ∧ r ∈ e.2.vals ∧ r.userId.text = v) := by
  unfold mergeStep at h
  split at h
  · exact .inl h
  · next pk' hpk' =>
    split at h
    · exact .inl h
    · next m hm =>
      dsimp only at h
      split at h
      · rw [recordAt_setCommunityMeta] at h
        split at h
        · next hpk =>
          subst hpk
          rcases Dict.of_lookup_orInsertAll h with hmem | hold
          · -- the merge keys a record by the id inside it, not by the key of the table
            obtain ⟨r', hr', heq⟩ := List.mem_map.mp hmem
            obtain ⟨hv, rfl⟩ := Prod.mk.inj heq
            exact .inr ⟨hpk', hr', hv⟩
          · rw [NodeStore.recordAt, hm]
            exact .inl hold
        · exact .inl h
      · exact .inl h

theorem of_recordAt_mergeSteps {l : List ((_ : String) × Dict String MembershipRecord)}
    (hl : ∀ e ∈ l, e ∈ t.members.entries) (h : (l.foldl (mergeStep t) st).recordAt pk v = some r) :
    st.recordAt pk v = some r ∨
      ∃ c v', communityPk? t c = some pk ∧ recordIn t.members c v' = some r ∧
        r.userId.text = v := by
  -- induction on the entries that are left, for every store reached so far
  induction l generalizing st with
  | nil => exact .inl h
  | cons e l ih =>
    rcases ih (fun e' he' => hl e' (List.mem_cons_of_mem e he')) h with hfirst | hlater
    · rcases of_recordAt_mergeStep hfirst with hold | ⟨hpk, hmem, hv⟩
      · exact .inl hold
      · obtain ⟨v', hv'⟩ := Dict.mem_vals.mp hmem
        have hlist : t.members.lookup e.1 = some e.2 :=
          (Dict.lookup_eq_some_iff _ _ _).mpr (hl e List.mem_cons_self)
        refine .inr ⟨e.1, v', hpk, ?_, hv⟩
        rw [recordIn, hlist]
        exact hv'
    · exact .inr hlater

/-- At a restart the store gains records of communities that have the same key. -/
theorem of_recordAt_mergeMembers (h : (mergeMembers t st).recordAt pk v = some r) :
    st.recordAt pk v = some r ∨
      ∃ c v', communityPk? t c = some pk ∧ recordIn t.members c v' = some r ∧
        r.userId.text = v := by
  exact of_recordAt_mergeSteps (fun _ he => he) h

/-- The metadata of a community that list a record for a user. -/
structure Listed (st : NodeStore) (cpk : Key) (c v : String) (r : MembershipRecord) : Prop where
  names : ∃ m signed, st.meta? cpk = some m ∧ m.manifest = some signed ∧
    signed.manifest.id.text = c
  record : st.recordAt cpk v = some r

theorem of_recordIn_backPopulate {m : CommunityMeta}
    (h : recordIn (backPopulate m t).members c v = some r) :
    recordIn t.members c v = some r ∨
      ((∃ signed, m.manifest = some signed ∧ signed.manifest.id.text = c) ∧
        m.members.lookup v = some r) := by
  unfold backPopulate at h
  split at h
  · exact .inl h
  · next signed hsigned =>
    dsimp only at h
    unfold recordIn at h
    rw [Dict.lookup_upsert] at h
    split at h
    · next hc =>
      rw [Option.bind_some] at h
      rcases Dict.of_lookup_orInsertAll h with hmem | hold
      · obtain ⟨e, he, heq⟩ := List.mem_map.mp hmem
        obtain ⟨rfl, rfl⟩ := Prod.mk.inj heq
        exact .inr ⟨⟨signed, hsigned, hc.symm⟩, (Dict.lookup_eq_some_iff _ _ _).mpr he⟩
      · rw [lookup_getD_empty, ← hc] at hold
        exact .inl hold
    · exact .inl h

/-- At a restart the table gains the records of the metadata that name the community. -/
theorem of_recordIn_backPopulateAll (h : recordIn (backPopulateAll st t).members c v = some r) :
    recordIn t.members c v = some r ∨ ∃ cpk, Listed st cpk c v r := by
  unfold backPopulateAll at h
  generalize st.allCommunities = l at h
  induction l generalizing t with
  | nil => exact .inl h
  | cons cpk l ih =>
    rcases ih h with hfirst | hlater
    · dsimp only at hfirst
      cases hm : st.meta? cpk with
      | none =>
        rw [hm] at hfirst
        exact .inl hfirst
      | some m =>
        rw [hm] at hfirst
        rcases of_recordIn_backPopulate hfirst with hold | ⟨⟨signed, hsigned, hc⟩, hr⟩
        · exact .inl hold
        · refine .inr ⟨cpk, ⟨m, signed, hm, hsigned, hc⟩, ?_⟩
          rw [NodeStore.recordAt, hm]
          exact hr
    · exact .inr hlater

section

variable {P : Prims}

theorem of_storedIn_restart (h : (s.restart P).storedIn pk v = some r) :
    s.storedIn pk v = some r ∨
      ∃ c v', communityPk? s.files c = some pk ∧ recordIn s.files.members c v' = some r ∧
        r.userId.text = v := by
  obtain ⟨st, hst, hr⟩ := of_storedIn_map (f := mergeMembers s.files) rfl h
  rcases of_recordAt_mergeMembers hr with hold | hnew
  · exact .inl (storedIn_of_recordAt hst hold)
  · exact .inr hnew

theorem of_recordIn_restart (h : recordIn (s.restart P).members c v = some r) :
    recordIn s.files.members c v = some r ∨
      ∃ st cpk, s.nodeStore = some st ∧ Listed (mergeMembers s.files st) cpk c v r := by
  cases hst : s.nodeStore with
  | none =>
    unfold restart at h
    rw [hst] at h
    exact .inl h
  | some st =>
    unfold restart at h
    rw [hst] at h
    rcases of_recordIn_backPopulateAll h with hold | ⟨cpk, hlisted⟩
    · exact .inl hold
    · exact .inr ⟨st, cpk, rfl, hlisted⟩

theorem bans_backPopulateAll (st : NodeStore) (t : Tables) :
    (backPopulateAll st t).bans = t.bans := by
  unfold backPopulateAll
  generalize st.allCommunities = l
  induction l generalizing t with
  | nil => rfl
  | cons cpk l ih =>
    refine (ih _).trans ?_
    dsimp only
    split
    · unfold backPopulate
      split <;> rfl
    · rfl

/-- The bans come from their file. -/
theorem bans_restart (s : AppState) : (s.restart P).bans = s.files.bans := by
  unfold restart
  cases s.nodeStore with
  | none => rfl
  | some st => exact bans_backPopulateAll _ _

end

end AppState

end BitCord
