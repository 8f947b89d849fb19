import BitCord.Lib.Run
import BitCord.Metadata

/-!
# Where the records of members come from

The table of members is written by gossip, by fetched manifests, by RPC calls and at a restart.
For each input this module says once which records can be in the table afterwards; the results
about roles, bans and revocation use nothing else about these writers.
-/

namespace BitCord

open Lib

variable {c u c' u' self : String} {r : MembershipRecord} {m : ManifestReceived} {s t s' : AppState}
  {ev : NetworkEvent} {e : SwarmEvent}

variable {env : Env}

namespace AppState

/-! ## The table -/

abbrev MemberTable := Dict String (Dict String MembershipRecord)

def recordIn (t : MemberTable) (c u : String) : Option MembershipRecord :=
  (t.lookup c).bind fun list => list.lookup u

theorem lookup_getD_empty (t : MemberTable) (c u : String) :
    ((t.lookup c).getD ∅).lookup u = recordIn t c u := by
  unfold recordIn
  cases t.lookup c with
  | none => exact AList.lookup_empty u
  | some list => rfl

theorem recordIn_insert (t : MemberTable) (c u : String) (r : MembershipRecord) (c' u' : String) :
    recordIn (t.upsert c ∅ fun list => list.insert u r) c' u' =
      if c' = c ∧ u' = u then some r else recordIn t c' u' := by
  unfold recordIn
  rw [Dict.lookup_upsert]
  by_cases hc : c' = c
  · subst hc
    rw [if_pos rfl, Option.bind_some, Dict.lookup_insert_eq, lookup_getD_empty]
    simp [recordIn]
  · simp [hc]

theorem of_recordIn_insert {t : MemberTable} {r' : MembershipRecord}
    (h : recordIn (t.upsert c ∅ fun list => list.insert u r) c' u' = some r') :
    recordIn t c' u' = some r' ∨ (r' = r ∧ c = c' ∧ u = u') := by
  rw [recordIn_insert] at h
  split at h
  · next heq => exact .inr ⟨(Option.some.inj h).symm, heq.1.symm, heq.2.symm⟩
  · exact .inl h

theorem of_recordIn_erase {t : MemberTable}
    (h : recordIn (t.erase c) c' u = some r) : recordIn t c' u = some r := by
  unfold recordIn at h ⊢
  rw [Dict.lookup_erase_eq] at h
  split at h
  · cases h
  · exact h

/-- After a user is removed, its record is gone and nothing else changes. -/
theorem recordIn_remove (t : MemberTable) (c u c' u' : String) :
    recordIn (t.adjust c fun list => list.erase u) c' u' =
      if c' = c ∧ u' = u then none else recordIn t c' u' := by
  unfold recordIn
  rw [Dict.lookup_adjust]
  by_cases hc : c' = c
  · subst hc
    cases t.lookup c' with
    | none => simp
    | some list => simp [Dict.lookup_erase_eq]
  · simp [hc]

theorem of_recordIn_remove {t : MemberTable}
    (h : recordIn (t.adjust c fun list => list.erase u) c' u' = some r) :
    recordIn t c' u' = some r ∧ ¬ (c' = c ∧ u' = u) := by
  rw [recordIn_remove] at h
  split at h
  · cases h
  · next hne => exact ⟨h, hne⟩

/-- A record is changed in place. -/
theorem recordIn_adjust (t : MemberTable) (c u : String) (f : MembershipRecord → MembershipRecord)
    (c' u' : String) :
    recordIn (t.adjust c fun list => Dict.adjust u f list) c' u' =
      if c' = c ∧ u' = u then (recordIn t c' u').map f else recordIn t c' u' := by
  unfold recordIn
  rw [Dict.lookup_adjust]
  by_cases hc : c' = c
  · subst hc
    cases t.lookup c' with
    | none => simp
    | some list =>
      rw [if_pos rfl, Option.map_some, Option.bind_some, Option.bind_some, Dict.lookup_adjust]
      by_cases hu : u' = u
      · subst hu
        rw [if_pos rfl, if_pos ⟨rfl, rfl⟩]
      · rw [if_neg hu, if_neg fun heq => hu heq.2]
  · rw [if_neg hc, if_neg fun heq => hc heq.1]

theorem of_recordIn_adjust {t : MemberTable} {f : MembershipRecord → MembershipRecord}
    (h : recordIn (t.adjust c fun list => Dict.adjust u f list) c' u' = some r) :
    recordIn t c' u' = some r ∨
      (c' = c ∧ u' = u ∧ ∃ old, recordIn t c' u' = some old ∧ r = f old) := by
  rw [recordIn_adjust] at h
  split at h
  · next heq =>
    obtain ⟨old, hold, rfl⟩ := Option.map_eq_some_iff.mp h
    exact .inr ⟨heq.1, heq.2, old, hold, rfl⟩
  · exact .inl h

theorem recordIn_renameSelf (t : MemberTable) (self name c u : String) :
    recordIn (renameSelf t self name) c u =
      if u = self then (recordIn t c u).map fun r => { r with displayName := name }
      else recordIn t c u := by
  unfold recordIn renameSelf
  rw [Dict.lookup_mapVals]
  cases t.lookup c with
  | none => split <;> rfl
  | some list =>
    rw [Option.map_some, Option.bind_some, Dict.lookup_adjust]
    split
    · next hu => rw [hu]; rfl
    · rfl

theorem of_recordIn_renameSelf {t : MemberTable} {name : String}
    (h : recordIn (renameSelf t self name) c u = some r) :
    recordIn t c u = some r ∨
      ∃ old, u = self ∧ recordIn t c u = some old ∧ r = { old with displayName := name } := by
  rw [recordIn_renameSelf] at h
  split at h
  · next hu =>
    obtain ⟨old, hold, rfl⟩ := Option.map_eq_some_iff.mp h
    exact .inr ⟨old, hu, hold, rfl⟩
  · exact .inl h

theorem recordIn_of_mem_ownRecords {t : MemberTable}
    (h : (c, r) ∈ ownRecords t self) : recordIn t c self = some r := by
  obtain ⟨e, he, hr⟩ := List.mem_filterMap.mp h
  obtain ⟨r', hr', heq⟩ := Option.map_eq_some_iff.mp hr
  obtain ⟨rfl, rfl⟩ := Prod.mk.inj heq
  unfold recordIn
  rw [AList.mem_lookup_iff.mpr he]
  exact hr'

/-- After a manifest is received, a record is an old one or a received one. -/
theorem of_recordIn_receiveMembers {t : MemberTable}
    (h : recordIn (receiveMembers t m) c u = some r) :
    recordIn t c u = some r ∨ (m.communityId = c ∧ r ∈ m.members ∧ r.userId.text = u) := by
  unfold receiveMembers at h
  split at h
  · exact .inl h
  · unfold recordIn at h
    rw [Dict.lookup_upsert] at h
    by_cases hc : c = m.communityId
    · rw [if_pos hc, Option.bind_some] at h
      rcases Dict.of_lookup_insertAll h with hmem | hold
      · obtain ⟨r', hr', heq⟩ := List.mem_map.mp hmem
        obtain ⟨hu, rfl⟩ := Prod.mk.inj heq
        exact .inr ⟨hc.symm, hr', hu⟩
      · rw [lookup_getD_empty, ← hc] at hold
        exact .inl hold
    · rw [if_neg hc] at h
      exact .inl h

/-! ## What gossip on channel topics leaves alone -/

def metaView (s : AppState) (pk : Key) :
    Option (Option SignedManifest × Dict String MembershipRecord) :=
  (s.nodeStore.bind fun st => st.meta? pk).map fun m => (m.manifest, m.members)

/-- The part of the state that no handler of a channel topic writes. -/
structure ChannelFrame (s s' : AppState) : Prop where
  communities : s'.communities = s.communities
  channelKeys : s'.channelKeys = s.channelKeys
  previousChannelKeys : s'.previousChannelKeys = s.previousChannelKeys
  members : s'.members = s.members
  bans : s'.bans = s.bans
  signingKey : s'.signingKey = s.signingKey
  displayName : s'.displayName = s.displayName
  files : s'.files = { s.files with channels := s'.files.channels }
  metaView : ∀ pk, s'.metaView pk = s.metaView pk

namespace ChannelFrame

theorem trans {u : AppState} (h : ChannelFrame s t) (h' : ChannelFrame t u) :
    ChannelFrame s u where
  communities := h'.communities.trans h.communities
  channelKeys := h'.channelKeys.trans h.channelKeys
  previousChannelKeys := h'.previousChannelKeys.trans h.previousChannelKeys
  members := h'.members.trans h.members
  bans := h'.bans.trans h.bans
  signingKey := h'.signingKey.trans h.signingKey
  displayName := h'.displayName.trans h.displayName
  files := by rw [h'.files, h.files]
  metaView := fun pk => (h'.metaView pk).trans (h.metaView pk)

end ChannelFrame

theorem metaView_storeMessage (s : AppState) (c : String) (raw : RawMessage) (pk : Key) :
    ({ s with nodeStore := storeMessage s c raw }).metaView pk = s.metaView pk :=
  congrArg _ (storedMeta?_storeMessage s c raw pk)

theorem metaView_putListed (s : AppState) (cpk : Key) (ch : ChannelManifest) (pk : Key) :
    (s.putListed cpk ch).metaView pk = s.metaView pk :=
  (metaUpdated_putListed s cpk ch).map_eq (fun _ => rfl) pk

section

variable {P : Prims}

theorem ChannelWrite.frame {replaying : Bool}
    (h : ChannelWrite P replaying s ev s') : ChannelFrame s s' := by
  cases h with
  | logged => exact ⟨rfl, rfl, rfl, rfl, rfl, rfl, rfl, rfl, metaView_storeMessage s _ _⟩
  | rotated => exact ⟨rfl, rfl, rfl, rfl, rfl, rfl, rfl, rfl, metaView_putListed s _ _⟩
  | rotationStalled => exact ⟨rfl, rfl, rfl, rfl, rfl, rfl, rfl, rfl, metaView_putListed s _ _⟩
  | _ => exact ⟨rfl, rfl, rfl, rfl, rfl, rfl, rfl, rfl, fun _ => rfl⟩

/-- After the replay the rest of the state is as the first part of the handler left it. -/
theorem afterReplay_frame (s : AppState) (m : ManifestReceived) :
    ChannelFrame (s.receiveTables P m) (s.afterReplay P m) :=
  afterReplay_rel (fun _ _ => ⟨rfl, rfl, rfl, rfl, rfl, rfl, rfl, rfl, fun _ => rfl⟩) .trans
    (fun _ => ChannelWrite.frame)
    (fun _ _ => ⟨rfl, rfl, rfl, rfl, rfl, rfl, rfl, rfl, fun _ => rfl⟩) m

end

/-! ## Gossip -/

section

variable {P : Prims}

theorem handleMemberJoined_of_not (h : ¬ JoinAccepted P s r) :
    s.handleMemberJoined P env r = s := by
  unfold handleMemberJoined
  by_cases hsig : r.selfSigned P = true
  · have hban : r.userId.text ∈ banList s.toTables r.communityId.text :=
      not_not.mp fun hn => h ⟨hsig, hn⟩
    simp [hsig, hban]
  · simp [hsig]

theorem members_handleMemberJoined (h : JoinAccepted P s r) :
    (s.handleMemberJoined P env r).members =
      s.members.upsert r.communityId.text ∅ fun list => list.insert r.userId.text r := by
  unfold handleMemberJoined
  simp [h.1, h.2]

theorem channels_handleMemberJoined_of (h : JoinAccepted P s r) :
    (s.handleMemberJoined P env r).channels = (wrapForJoiner P env s r).1 := by
  unfold handleMemberJoined
  simp [h.1, h.2]

theorem of_recordIn_handleMemberJoined {joined : MembershipRecord}
    (h : recordIn (s.handleMemberJoined P env joined).members c u = some r) :
    recordIn s.members c u = some r ∨
      (r = joined ∧ JoinAccepted P s joined ∧ joined.communityId.text = c ∧
        joined.userId.text = u) := by
  have hw := handleMemberJoined_write (P := P) env s joined
  generalize s.handleMemberJoined P env joined = s' at h hw
  rcases hw with rfl | hw
  · exact .inl h
  · cases hw with
    | joined hacc => exact (of_recordIn_insert h).imp_right fun ⟨hr, heq⟩ => ⟨hr, hacc, heq⟩

/-! ## Events -/

variable (P) in
/-- Where a record in the table can come from when an event is handled. -/
inductive EventOrigin (env : Env) (s : AppState) (c u : String) (r : MembershipRecord) :
    SwarmEvent → Prop
  | kept {e : SwarmEvent} : recordIn s.members c u = some r → EventOrigin env s c u r e
  | joined {topic : String} {data : Bytes} {source : Option String} :
      P.decodeEvent data = some (.memberJoined r) → JoinAccepted P s r →
      r.communityId.text = c → r.userId.text = u →
      EventOrigin env s c u r (.messageReceived topic data source)
  | roleUpdated {topic : String} {data : Bytes} {source : Option String}
      {payload : MemberRoleUpdatedPayload} {old : MembershipRecord} :
      P.decodeEvent data = some (.memberRoleUpdated payload) → RoleSigned P s payload →
      payload.communityId.text = c → payload.userId.text = u →
      recordIn s.members c u = some old → r = { old with roles := [payload.newRole] } →
      EventOrigin env s c u r (.messageReceived topic data source)
  | received {m : ManifestReceived} :
      m.manifest.verify P = true → m.communityId = c → r ∈ m.members → r.userId.text = u →
      EventOrigin env s c u r (.manifestReceived m)
  /-- The node announces itself with the roles it has, or as an admin if the manifest says so. -/
  | announced {m : ManifestReceived} {existing : MembershipRecord} :
      m.manifest.verify P = true → m.communityId = c → u = s.peerId P →
      (recordIn s.members c u = some existing ∨
        (existing ∈ m.members ∧ existing.userId.text = u)) →
      u ∉ banList s.toTables c →
      r = s.ownRecord P m.manifest.manifest.id (s.peerId P) (s.announcedRoles P m existing)
        env.now →
      EventOrigin env s c u r (.manifestReceived m)

theorem CommunityWrite.origin {topic : String} {data : Bytes} {source : Option String}
    (hd : P.decodeEvent data = some ev) (hw : CommunityWrite P env s ev s')
    (h : recordIn s'.members c u = some r) :
    EventOrigin P env s c u r (.messageReceived topic data source) := by
  cases hw with
  | joined hacc =>
    rcases of_recordIn_insert h with hold | ⟨rfl, hc, hu⟩
    · exact .kept hold
    · exact .joined hd hacc hc hu
  | left => exact .kept (of_recordIn_remove h).1
  | roleUpdated hsig =>
    rcases of_recordIn_adjust h with hold | ⟨hc, hu, old, hold, hr⟩
    · exact .kept hold
    · exact .roleUpdated hd hsig hc.symm hu.symm hold hr
  | removed => exact .kept (of_recordIn_erase h)
  | _ => exact .kept h

/-- The table and the identity of the node after the received members are taken in. -/
structure Admitted (s t : AppState) (m : ManifestReceived) : Prop where
  members : t.members = receiveMembers s.members m
  bans : t.bans = s.bans
  signingKey : t.signingKey = s.signingKey
  displayName : t.displayName = s.displayName

theorem admitted_admitMembers (env : Env) (s : AppState) (m : ManifestReceived)
    (rotated : List String) : Admitted s (s.admitMembers P env m rotated) m := by
  unfold admitMembers wrapForMembers
  dsimp only
  split <;> exact ⟨rfl, rfl, rfl, rfl⟩

theorem of_recordIn_announceSelf (h : recordIn (s.announceSelf P env m).members c u = some r) :
    recordIn s.members c u = some r ∨
      ∃ existing, recordIn s.members c u = some existing ∧ m.communityId = c ∧ u = s.peerId P ∧
        u ∉ banList s.toTables c ∧
        r = s.ownRecord P m.manifest.manifest.id (s.peerId P) (s.announcedRoles P m existing)
          env.now := by
  unfold announceSelf at h
  split at h
  · exact .inl h
  · next existing hex =>
    rcases of_recordIn_handleMemberJoined h with hold | ⟨rfl, hacc, hc, hu⟩
    · exact .inl hold
    · have hc' : m.communityId = c := hc
      have hu' : s.peerId P = u := hu
      subst hc' hu'
      exact .inr ⟨existing, hex, rfl, rfl, hacc.2, rfl⟩

/-- The record that a node makes of itself is validly signed. -/
theorem selfSigned_ownRecord (hP : P.Lawful) (s : AppState) (id : CommunityId) (fallback : String)
    (roles : List Role) (now : DateTime) :
    (s.ownRecord P id fallback roles now).selfSigned P = true := by
  unfold MembershipRecord.selfSigned Prims.verifyBytes ownRecord
  dsimp only
  rw [tryIntoArray_toBytes (by decide), Bool.and_eq_true, Bool.and_eq_true]
  exact ⟨⟨hP.vkValid_verifyingKey _, decide_eq_true rfl⟩, hP.verify_sign _ _⟩

/-- The announced record depends on the identity of the node and on nothing else of its state. -/
theorem ownRecord_congr (hkey : t.signingKey = s.signingKey)
    (hname : t.displayName = s.displayName) (m : ManifestReceived) (existing : MembershipRecord)
    (now : DateTime) :
    t.ownRecord P m.manifest.manifest.id (t.peerId P) (t.announcedRoles P m existing) now =
      s.ownRecord P m.manifest.manifest.id (s.peerId P) (s.announcedRoles P m existing) now := by
  unfold ownRecord announcedRoles ownDisplayName peerId ownUserId ownPk
  rw [hkey, hname]

theorem peerId_congr (hkey : t.signingKey = s.signingKey) : t.peerId P = s.peerId P := by
  unfold peerId ownUserId ownPk
  rw [hkey]

theorem members_finishManifest (s : AppState) (m : ManifestReceived) (b : Bool) :
    (s.finishManifest m b).members = s.members := by
  unfold finishManifest
  cases b <;> rfl

theorem origin_settleManifest {rotated : List String} {b : Bool} (hv : m.manifest.verify P = true)
    (h : recordIn (s.settleManifest P env m rotated b).members c u = some r) :
    EventOrigin P env s c u r (.manifestReceived m) := by
  unfold settleManifest at h
  dsimp only at h
  rw [members_finishManifest] at h
  have hadm := admitted_admitMembers (P := P) env s m rotated
  have hself : (s.admitMembers P env m rotated).peerId P = s.peerId P :=
    peerId_congr hadm.signingKey
  rcases of_recordIn_announceSelf h with hold | ⟨existing, hex, hc, hu, hban, hr⟩
  · rw [hadm.members] at hold
    rcases of_recordIn_receiveMembers hold with hkept | ⟨hc, hr, hu⟩
    · exact .kept hkept
    · exact .received hv hc hr hu
  · rw [hadm.members] at hex
    have hknown : recordIn s.members c u = some existing ∨
        (existing ∈ m.members ∧ existing.userId.text = u) := by
      rcases of_recordIn_receiveMembers hex with hkept | ⟨-, hr, hu⟩
      · exact .inl hkept
      · exact .inr ⟨hr, hu⟩
    refine .announced hv hc (hu.trans hself) hknown ?_ ?_
    · simpa only [banList, hadm.bans] using hban
    · exact hr.trans (ownRecord_congr hadm.signingKey hadm.displayName m existing env.now)

/-- An origin stays one when the state before the event differs in other tables. -/
theorem EventOrigin.of_same (h : EventOrigin P env t c u r e) (hm : ∃ m, e = .manifestReceived m)
    (hmem : t.members = s.members) (hban : t.bans = s.bans) (hkey : t.signingKey = s.signingKey)
    (hname : t.displayName = s.displayName) : EventOrigin P env s c u r e := by
  have hself : t.peerId P = s.peerId P := peerId_congr hkey
  cases h with
  | kept h => exact .kept (by rw [← hmem]; exact h)
  | joined => obtain ⟨_, hm⟩ := hm; cases hm
  | roleUpdated => obtain ⟨_, hm⟩ := hm; cases hm
  | received hv hc hr hu => exact .received hv hc hr hu
  | announced hv hc hu hold hb hr =>
    refine .announced hv hc (hu.trans hself) (by rw [← hmem]; exact hold) ?_ ?_
    · simpa only [banList, hban] using hb
    · exact hr.trans (ownRecord_congr hkey hname _ _ env.now)

/-- Every record in the table after an event has one of the five origins. -/
theorem origin_processEvent (h : recordIn (s.processEvent P env e).members c u = some r) :
    EventOrigin P env s c u r e := by
  have hw := processEvent_write (P := P) env s e
  generalize s.processEvent P env e = s' at h hw
  cases hw with
  | channel _ _ _ hw =>
    rw [hw.frame.members] at h
    exact .kept h
  | community _ _ _ hd hw => exact hw.origin hd h
  | tombstone => exact .kept (of_recordIn_erase h)
  | failed => exact .kept (of_recordIn_erase h)
  | @stalled m =>
    rw [(afterReplay_frame s m).members] at h
    exact .kept h
  | @received m _ hv =>
    have hframe := afterReplay_frame (P := P) s m
    exact (origin_settleManifest hv h).of_same ⟨m, rfl⟩ hframe.members hframe.bans
      hframe.signingKey hframe.displayName
  | _ => exact .kept h

end

end AppState

end BitCord
