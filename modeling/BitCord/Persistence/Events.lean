import BitCord.Membership

/-!
# What is saved of the members

The records of the members are kept in memory, in a file, and in the metadata of the node store. The
file follows the table in memory with every change, the metadata are written by other events than
the table, and a restart mixes the file and the metadata. These modules say for every input where a
record in each of the three can come from; this one is about events.
-/

namespace BitCord

open Lib

variable {s t u s' : AppState} {ev : NetworkEvent} {pk : Key} {c v : String} {r : MembershipRecord}

variable {env : Env}

namespace AppState

/-! ## The files -/

def FileFollows (s s' : AppState) : Prop :=
  s'.files.members = s'.members ∨ (s'.files.members = s.files.members ∧ s'.members = s.members)

theorem FileFollows.trans (h : FileFollows s t) (h' : FileFollows t u) : FileFollows s u := by
  rcases h' with hsaved | ⟨hfile', hmem'⟩
  · exact .inl hsaved
  · rcases h with hsaved | ⟨hfile, hmem⟩
    · exact .inl (hfile'.trans (hsaved.trans hmem'.symm))
    · exact .inr ⟨hfile'.trans hfile, hmem'.trans hmem⟩

/-- The identity and the bans stay, and the file of the members follows the table. -/
structure Saves (s s' : AppState) : Prop where
  signingKey : s'.signingKey = s.signingKey
  bans : s'.bans = s.bans
  fileBans : s'.files.bans = s.files.bans
  members : FileFollows s s'

namespace Saves

theorem trans (h : Saves s t) (h' : Saves t u) : Saves s u where
  signingKey := h'.signingKey.trans h.signingKey
  bans := h'.bans.trans h.bans
  fileBans := h'.fileBans.trans h.fileBans
  members := h.members.trans h'.members

/-- Neither the members nor the bans change. -/
theorem of_eq (hkey : s'.signingKey = s.signingKey) (hbans : s'.bans = s.bans)
    (hfile : s'.files.bans = s.files.bans) (hmem : s'.members = s.members)
    (hmemFile : s'.files.members = s.files.members) : Saves s s' :=
  ⟨hkey, hbans, hfile, .inr ⟨hmemFile, hmem⟩⟩

end Saves

theorem ChannelFrame.saves (h : ChannelFrame s s') : Saves s s' :=
  .of_eq h.signingKey h.bans (by rw [h.files]) h.members (by rw [h.files])

section

variable {P : Prims}

theorem CommunityWrite.saves (h : CommunityWrite P env s ev s') : Saves s s' := by
  cases h with
  | removed => exact ⟨rfl, rfl, rfl, .inl rfl⟩
  | joined => exact ⟨rfl, rfl, rfl, .inl rfl⟩
  | left => exact ⟨rfl, rfl, rfl, .inl rfl⟩
  | roleUpdated => exact ⟨rfl, rfl, rfl, .inl rfl⟩
  | _ => exact .of_eq rfl rfl rfl rfl rfl

theorem receiveMembership_saves (s : AppState) (m : ManifestReceived) :
    Saves s (s.receiveMembership P m) := by
  unfold receiveMembership receiveMembers
  dsimp only
  split
  · exact .of_eq rfl rfl rfl rfl rfl
  · exact ⟨rfl, rfl, rfl, .inl rfl⟩

theorem settleManifest_saves (env : Env) (s : AppState) (m : ManifestReceived)
    (rotated : List String) (b : Bool) : Saves s (s.settleManifest P env m rotated b) :=
  settleManifest_rel (fun _ _ _ => .of_eq rfl rfl rfl rfl rfl) .trans
    (fun s => receiveMembership_saves s m) (fun _ _ _ => .of_eq rfl rfl rfl rfl rfl)
    CommunityWrite.saves env s rotated b

/-- No event changes the bans, and the file follows the table. -/
theorem processEvent_saves (env : Env) (s : AppState) (e : SwarmEvent) :
    Saves s (s.processEvent P env e) := by
  have hw := processEvent_write (P := P) env s e
  generalize s.processEvent P env e = s' at hw
  have htables : ∀ m, Saves s (s.receiveTables P m) := fun _ => .of_eq rfl rfl rfl rfl rfl
  cases hw with
  | channel _ _ _ hw => exact hw.frame.saves
  | community _ _ _ _ hw => exact hw.saves
  | tombstone => exact ⟨rfl, rfl, rfl, .inl rfl⟩
  | failed => exact ⟨rfl, rfl, rfl, .inl rfl⟩
  | @stalled m => exact (htables m).trans (afterReplay_frame s m).saves
  | @received m =>
    exact ((htables m).trans (afterReplay_frame s m).saves).trans
      (settleManifest_saves env _ m _ _)
  | _ => exact .of_eq rfl rfl rfl rfl rfl

end

end AppState

/-! ## The stored metadata -/

/-- The record that the store has for a user under the key of a community. -/
def NodeStore.recordAt (st : NodeStore) (pk : Key) (v : String) : Option MembershipRecord :=
  (st.meta? pk).bind fun m => m.members.lookup v

namespace AppState

def storedIn (s : AppState) (pk : Key) (v : String) : Option MembershipRecord :=
  s.nodeStore.bind fun st => st.recordAt pk v

theorem storedIn_eq (s : AppState) (pk : Key) (v : String) :
    s.storedIn pk v = (s.storedMeta? pk).bind fun m => m.members.lookup v := by
  unfold storedIn storedMeta? NodeStore.recordAt
  cases s.nodeStore <;> rfl

/-- The members alone decide. -/
theorem storedIn_congr
    (h : (s'.storedMeta? pk).map (fun m => m.members) = (s.storedMeta? pk).map fun m => m.members)
    (v : String) : s'.storedIn pk v = s.storedIn pk v := by
  have hbind : ∀ t : AppState, t.storedIn pk v =
      ((t.storedMeta? pk).map fun m => m.members).bind fun d => d.lookup v := by
    intro t
    rw [storedIn_eq, Option.bind_map]
    rfl
  rw [hbind, hbind, h]

theorem ChannelFrame.storedIn (h : ChannelFrame s s') (pk : Key) (v : String) :
    s'.storedIn pk v = s.storedIn pk v := by
  have hmembers : ∀ t : AppState, (t.storedMeta? pk).map (fun m => m.members) =
      (AppState.metaView t pk).map Prod.snd := by
    intro t
    rw [AppState.metaView, Option.map_map]
    rfl
  refine storedIn_congr ?_ v
  rw [hmembers, hmembers, h.metaView]

/-- After a change of the store, a record comes from the changed store. -/
theorem of_storedIn_map {f : NodeStore → NodeStore} (hs : s'.nodeStore = s.nodeStore.map f)
    (h : s'.storedIn pk v = some r) :
    ∃ st, s.nodeStore = some st ∧ (f st).recordAt pk v = some r := by
  unfold storedIn at h
  rw [hs] at h
  cases hst : s.nodeStore with
  | none =>
    rw [hst] at h
    cases h
  | some st =>
    rw [hst] at h
    exact ⟨st, rfl, h⟩

theorem storedIn_of_recordAt {st : NodeStore} (hst : s.nodeStore = some st)
    (h : st.recordAt pk v = some r) : s.storedIn pk v = some r := by
  rw [storedIn, hst]
  exact h

theorem recordAt_setCommunityMeta (st : NodeStore) (pk' : Key) (m : CommunityMeta) (pk : Key)
    (v : String) :
    (st.setCommunityMeta pk' m).recordAt pk v =
      if pk = pk' then m.members.lookup v else st.recordAt pk v := by
  unfold NodeStore.recordAt
  rw [NodeStore.meta?_setCommunityMeta]
  split <;> rfl

theorem of_storedIn_removeCommunityLocal (h : (s.removeCommunityLocal c).storedIn pk v = some r) :
    s.storedIn pk v = some r := by
  rw [storedIn_eq, storedMeta?_removeCommunityLocal] at h
  split at h
  · cases h
  · rwa [storedIn_eq]

section

variable {P : Prims}

/-- An accepted record goes into the metadata of its community. -/
theorem of_storedIn_storeMember {record : MembershipRecord}
    (hs : s'.nodeStore = storeMember P s record) (h : s'.storedIn pk v = some r) :
    s.storedIn pk v = some r ∨ (r = record ∧ v = record.userId.text) := by
  cases hknown : s.communities.lookup record.communityId.text with
  | none =>
    rw [storeMember_of_unknown hknown] at hs
    rw [storedIn, hs] at h
    exact .inl h
  | some signed =>
    rw [storedIn_eq, storedMeta?, hs, storedMeta?_storeMember hknown] at h
    split at h
    · obtain ⟨m, hm, hr⟩ := Option.bind_eq_some_iff.mp h
      obtain ⟨st, -, rfl⟩ := Option.map_eq_some_iff.mp hm
      dsimp only [joinedMeta] at hr
      rw [Dict.lookup_insert_eq] at hr
      split at hr
      · next hv => exact .inr ⟨(Option.some.inj hr).symm, hv⟩
      · refine .inl ?_
        rw [storedIn_eq]
        cases hm : s.storedMeta? pk with
        | none =>
          rw [hm] at hr
          cases hr
        | some m =>
          rw [hm] at hr
          exact hr
    · exact .inl (by rwa [storedIn_eq])

theorem of_storedIn_unstoreMember {u : String} (hs : s'.nodeStore = unstoreMember s c u)
    (h : s'.storedIn pk v = some r) : s.storedIn pk v = some r := by
  rw [storedIn_eq, storedMeta?, hs, storedMeta?_unstoreMember] at h
  rw [storedIn_eq]
  split at h
  · obtain ⟨m, hm, hr⟩ := Option.bind_eq_some_iff.mp h
    obtain ⟨old, hold, rfl⟩ := Option.map_eq_some_iff.mp hm
    rw [hold]
    dsimp only at hr
    rw [Dict.lookup_erase_eq] at hr
    split at hr
    · cases hr
    · exact hr
  · exact h

/-- The record is one that the node makes of itself. -/
def OwnRecord (P : Prims) (s : AppState) (v : String) (r : MembershipRecord) : Prop :=
  v = s.peerId P ∧ r.userId = s.ownUserId P ∧ r.publicKey = s.ownPk P

theorem OwnRecord.congr
    (h : OwnRecord P t v r) (hkey : t.signingKey = s.signingKey) : OwnRecord P s v r := by
  unfold OwnRecord peerId ownUserId ownPk at h ⊢
  rwa [hkey] at h

variable (P) in
/-- Where a record in the stored metadata comes from after an event. -/
inductive StoredOrigin (s : AppState) (pk : Key) (v : String) (r : MembershipRecord) :
    SwarmEvent → Prop
  | kept {e : SwarmEvent} : s.storedIn pk v = some r → StoredOrigin s pk v r e
  | joined {topic : String} {data : Bytes} {source : Option String} :
      P.decodeEvent data = some (.memberJoined r) → JoinAccepted P s r → v = r.userId.text →
      StoredOrigin s pk v r (.messageReceived topic data source)
  | received {m : ManifestReceived} :
      m.manifest.verify P = true → m.communityPk = pk → r ∈ m.members → r.userId.text = v →
      StoredOrigin s pk v r (.manifestReceived m)
  | announced {m : ManifestReceived} : OwnRecord P s v r →
      StoredOrigin s pk v r (.manifestReceived m)

theorem CommunityWrite.stored {topic : String} {data : Bytes} {source : Option String}
    (hd : P.decodeEvent data = some ev) (hw : CommunityWrite P env s ev s')
    (h : s'.storedIn pk v = some r) :
    StoredOrigin P s pk v r (.messageReceived topic data source) := by
  have hlisted : ∀ cpk ch, (s.putListed cpk ch).storedIn pk v = s.storedIn pk v := fun cpk ch =>
    storedIn_congr ((metaUpdated_putListed s cpk ch).map_eq (fun _ => rfl) pk) v
  cases hw with
  | listed => exact .kept ((hlisted _ _).symm.trans h)
  | keyed => exact .kept ((hlisted _ _).symm.trans h)
  | removed => exact .kept (of_storedIn_removeCommunityLocal h)
  | updated =>
    rw [storedIn_congr ((metaUpdated_applyManifestUpdate s _ _ _).map_eq (fun _ => rfl) pk)] at h
    exact .kept h
  | joined hacc =>
    rcases of_storedIn_storeMember rfl h with hold | ⟨rfl, hv⟩
    · exact .kept hold
    · exact .joined hd hacc hv
  | left => exact .kept (of_storedIn_unstoreMember rfl h)
  | _ => exact .kept h

theorem of_lookup_keyByUser {records : List MembershipRecord}
    (h : (keyByUser records).lookup v = some r) : r ∈ records ∧ r.userId.text = v := by
  rcases Dict.of_lookup_insertAll h with hmem | hempty
  · obtain ⟨r', hr', heq⟩ := List.mem_map.mp hmem
    obtain ⟨hv, rfl⟩ := Prod.mk.inj heq
    exact ⟨hr', hv⟩
  · cases hempty

theorem of_storedIn_settleManifest {m : ManifestReceived} {rotated : List String} {b : Bool}
    (h : (s.settleManifest P env m rotated b).storedIn pk v = some r) :
    s.storedIn pk v = some r ∨ (m.communityPk = pk ∧ r ∈ m.members ∧ r.userId.text = v) ∨
      OwnRecord P s v r := by
  let Follows (s t : AppState) : Prop := t.signingKey = s.signingKey ∧
    (t.storedIn pk v = some r → s.storedIn pk v = some r ∨
      (m.communityPk = pk ∧ r ∈ m.members ∧ r.userId.text = v) ∨ OwnRecord P s v r)
  have htrans : ∀ {s t u}, Follows s t → Follows t u → Follows s u := by
    intro s t u hst htu
    refine ⟨htu.1.trans hst.1, fun hu => ?_⟩
    rcases htu.2 hu with hold | hnew | hown
    · exact hst.2 hold
    · exact .inr (.inl hnew)
    · exact .inr (.inr (hown.congr hst.1))
  have hmembers : ∀ s, Follows s (s.receiveMembership P m) := by
    intro s
    refine ⟨rfl, fun hr => ?_⟩
    rw [storedIn_eq, storedMeta?_receiveMembership] at hr
    split at hr
    · next hpk =>
      -- the metadata are replaced as a whole, so their members are those of the manifest
      obtain ⟨m', hm', hr⟩ := Option.bind_eq_some_iff.mp hr
      obtain ⟨st, -, rfl⟩ := Option.map_eq_some_iff.mp hm'
      exact .inr (.inl ⟨hpk.symm, of_lookup_keyByUser hr⟩)
    · exact .inl (by rwa [storedIn_eq])
  have hjoined : ∀ {env : Env} {s : AppState} {roles s'}, CommunityWrite P env s (.memberJoined
      (s.ownRecord P m.manifest.manifest.id (s.peerId P) roles env.now)) s' → Follows s s' := by
    intro env s roles s' hw
    cases hw with
    | joined =>
      refine ⟨rfl, fun hr => ?_⟩
      rcases of_storedIn_storeMember rfl hr with hold | ⟨rfl, hv⟩
      · exact .inl hold
      · exact .inr (.inr ⟨hv, rfl, rfl⟩)
  exact (settleManifest_rel (R := Follows) (fun _ _ _ => ⟨rfl, .inl⟩) htrans hmembers
    (fun _ _ _ => ⟨rfl, .inl⟩) hjoined env s rotated b).2 h

theorem stored_processEvent {e : SwarmEvent} (h : (s.processEvent P env e).storedIn pk v = some r) :
    StoredOrigin P s pk v r e := by
  have hw := processEvent_write (P := P) env s e
  generalize s.processEvent P env e = s' at h hw
  have hreplay : ∀ m, (s.afterReplay P m).storedIn pk v = s.storedIn pk v := fun m =>
    (afterReplay_frame (P := P) s m).storedIn pk v
  cases hw with
  | channel _ _ _ hw =>
    rw [hw.frame.storedIn] at h
    exact .kept h
  | community _ _ _ hd hw => exact hw.stored hd h
  | tombstone => exact .kept (of_storedIn_removeCommunityLocal h)
  | failed => exact .kept (of_storedIn_removeCommunityLocal h)
  | stalled =>
    rw [hreplay] at h
    exact .kept h
  | @received m _ hv =>
    rcases of_storedIn_settleManifest h with hold | ⟨hpk, hr, hv'⟩ | hown
    · rw [hreplay] at hold
      exact .kept hold
    · exact .received hv hpk hr hv'
    · exact .announced (hown.congr (afterReplay_frame s m).signingKey)
  | history =>
    rw [storedIn_eq, storedMeta?_handleChannelHistoryReceived, ← storedIn_eq] at h
    exact .kept h
  | _ => exact .kept h

end

end AppState

end BitCord
