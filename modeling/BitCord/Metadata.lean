import BitCord.Writes

/-!
# What the node store has

The node store has metadata of each community and the logs of the channels. The writes change the
metadata of one community at a time, and few of them touch the logs.
-/

namespace BitCord

open Lib

variable {e : LogEntry} {cpk : Key} {ch : Ulid}

variable {record : MembershipRecord} {seq : UInt64}

namespace AppState

def storedMeta? (s : AppState) (pk : Key) : Option CommunityMeta :=
  s.nodeStore.bind fun st => st.meta? pk

/-- The metadata of one community change, if they are there. -/
structure MetaUpdated (pk : Key) (f : CommunityMeta → CommunityMeta) (s s' : AppState) : Prop where
  changed : s'.storedMeta? pk = (s.storedMeta? pk).map f
  others : ∀ pk' ≠ pk, s'.storedMeta? pk' = s.storedMeta? pk'

section

variable {s s' : AppState} {pk : Key} {f : CommunityMeta → CommunityMeta}

theorem storedMeta?_congr (h : s'.nodeStore = s.nodeStore) : s'.storedMeta? = s.storedMeta? := by
  unfold storedMeta?
  rw [h]

theorem storedMeta?_updateMeta (s : AppState) (pk : Key) (f : CommunityMeta → CommunityMeta) :
    (s.updateMeta pk f).storedMeta? pk = (s.storedMeta? pk).map f := by
  unfold storedMeta? updateMeta mapStore
  cases s.nodeStore with
  | none => rfl
  | some st =>
    dsimp only [Option.map_some, Option.bind_some]
    cases hm : st.meta? pk with
    | none => exact hm
    | some m =>
      dsimp only
      rw [NodeStore.meta?_setCommunityMeta, if_pos rfl]
      rfl

theorem storedMeta?_updateMeta_of_ne (s : AppState) {pk pk' : Key} (h : pk' ≠ pk)
    (f : CommunityMeta → CommunityMeta) :
    (s.updateMeta pk f).storedMeta? pk' = s.storedMeta? pk' := by
  unfold storedMeta? updateMeta mapStore
  cases s.nodeStore with
  | none => rfl
  | some st =>
    dsimp only [Option.map_some, Option.bind_some]
    cases st.meta? pk with
    | none => rfl
    | some m => exact (NodeStore.meta?_setCommunityMeta st pk pk' _).trans (if_neg h)

theorem metaUpdated_of_store (h : s'.nodeStore = (s.updateMeta pk f).nodeStore) :
    MetaUpdated pk f s s' := by
  have hstored := storedMeta?_congr h
  exact ⟨hstored ▸ storedMeta?_updateMeta s pk f,
    fun pk' hne => hstored ▸ storedMeta?_updateMeta_of_ne s hne f⟩

/-- What is read of the metadata and does not change with them. -/
theorem MetaUpdated.map_eq {β : Type} {g : CommunityMeta → β} (h : MetaUpdated pk f s s')
    (hf : ∀ m, g (f m) = g m) (pk' : Key) :
    (s'.storedMeta? pk').map g = (s.storedMeta? pk').map g := by
  by_cases hpk : pk' = pk
  · rw [hpk, h.changed, Option.map_map]
    exact congrArg (fun g => (s.storedMeta? pk).map g) (funext hf)
  · rw [h.others pk' hpk]

end

/-! ## The writes -/

section

variable {s : AppState} {P : Prims}

theorem storedMeta?_storeMessage (s : AppState) (c : String) (raw : RawMessage) (pk : Key) :
    ((storeMessage s c raw).bind fun st => st.meta? pk) = s.storedMeta? pk := by
  unfold storeMessage storedMeta?
  cases communityPk? s.toTables c with
  | none => rfl
  | some cpk => cases s.nodeStore <;> rfl

theorem metaUpdated_putListed (s : AppState) (pk : Key) (ch : ChannelManifest) :
    MetaUpdated pk (fun m => { m with channels := putChannel m.channels ch }) s
      (s.putListed pk ch) :=
  metaUpdated_of_store rfl

theorem metaUpdated_applyManifestUpdate (s : AppState) (current : CommunityManifest)
    (new : SignedManifest) (source : Option String) :
    MetaUpdated new.manifest.publicKey (fun m => { m with manifest := some new }) s
      (s.applyManifestUpdate P current new source) :=
  metaUpdated_of_store rfl

theorem storedMeta?_removeCommunityLocal (s : AppState) (c : String) (pk : Key) :
    (s.removeCommunityLocal c).storedMeta? pk =
      if communityPk? s.toTables c = some pk then none else s.storedMeta? pk := by
  unfold storedMeta? removeCommunityLocal
  dsimp only
  cases communityPk? s.toTables c with
  | none => rfl
  | some cpk =>
    cases s.nodeStore with
    | none => exact (ite_self none).symm
    | some st =>
      refine (NodeStore.meta?_removeCommunity st cpk pk).trans ?_
      simp only [Option.some.injEq, eq_comm]
      rfl

/-- A user who leaves is taken out of the metadata of the community, if the node knows it. -/
theorem storedMeta?_unstoreMember (s : AppState) (c u : String) (pk : Key) :
    ((unstoreMember s c u).bind fun st => st.meta? pk) =
      if communityPk? s.toTables c = some pk then
        (s.storedMeta? pk).map fun m => { m with members := m.members.erase u }
      else s.storedMeta? pk := by
  unfold unstoreMember
  cases communityPk? s.toTables c with
  | none => rfl
  | some cpk =>
    let f (m : CommunityMeta) := { m with members := m.members.erase u }
    have h : MetaUpdated cpk f s (s.updateMeta cpk f) := metaUpdated_of_store rfl
    by_cases hpk : cpk = pk
    · rw [if_pos (congrArg some hpk), ← hpk]
      exact h.changed
    · rw [if_neg fun heq => hpk (Option.some.inj heq)]
      exact h.others pk (Ne.symm hpk)

variable (P) in
/-- The metadata with a new member; if there are none, they are made from the manifest. -/
def joinedMeta (s : AppState) (signed : SignedManifest) (record : MembershipRecord)
    (old : Option CommunityMeta) : CommunityMeta :=
  let m := old.getD
    { defaultMeta signed.manifest.publicKey (s.ownPk P) with manifest := some signed }
  { m with members := m.members.insert record.userId.text record }

theorem storedMeta?_storeMember {signed : SignedManifest}
    (h : s.communities.lookup record.communityId.text = some signed) (pk : Key) :
    ((storeMember P s record).bind fun st => st.meta? pk) =
      if pk = signed.manifest.publicKey then
        s.nodeStore.map fun _ => joinedMeta P s signed record (s.storedMeta? pk)
      else s.storedMeta? pk := by
  unfold storeMember storedMeta?
  rw [h]
  cases s.nodeStore with
  | none => exact (ite_self none).symm
  | some st =>
    refine (NodeStore.meta?_setCommunityMeta st _ pk _).trans ?_
    by_cases hpk : pk = signed.manifest.publicKey
    · rw [if_pos hpk, if_pos hpk, hpk]
      rfl
    · rw [if_neg hpk, if_neg hpk]
      rfl

theorem storeMember_of_unknown (h : s.communities.lookup record.communityId.text = none) :
    storeMember P s record = s.nodeStore := by
  unfold storeMember
  rw [h]

theorem storedMeta?_receiveMembership (s : AppState) (m : ManifestReceived) (pk : Key) :
    (s.receiveMembership P m).storedMeta? pk =
      if pk = m.communityPk then s.nodeStore.map fun _ => s.receivedMeta P m
      else s.storedMeta? pk := by
  unfold storedMeta? receiveMembership
  dsimp only
  cases s.nodeStore with
  | none => exact (ite_self none).symm
  | some st => exact NodeStore.meta?_setCommunityMeta st _ pk _

theorem storedMeta?_handleChannelHistoryReceived (s : AppState) (c ch : String)
    (entries : List LogEntry) (pk : Key) :
    (s.handleChannelHistoryReceived P c ch entries).storedMeta? pk = s.storedMeta? pk := by
  have hbatch : ∀ (key cpk : Option Key) (ulid : Ulid) (acc : MessageLog × Option NodeStore),
      ((entries.foldl (integrateEntry P key cpk ch ulid) acc).2.bind fun st => st.meta? pk) =
        acc.2.bind fun st => st.meta? pk := by
    intro key cpk ulid
    induction entries with
    | nil => exact fun acc => rfl
    | cons e entries ih =>
      intro acc
      refine (ih _).trans ?_
      unfold integrateEntry
      split
      · rfl
      · dsimp only
        split
        · cases acc.2 <;> rfl
        · rfl
  have hs : (s.handleChannelHistoryReceived P c ch entries).nodeStore =
      (s.integrateHistory P c ch entries).2 := rfl
  rw [storedMeta?, hs, integrateHistory]
  split
  · exact hbatch _ _ _ (s.messageLog, s.nodeStore)
  · rfl

end

/-! ## The stored logs -/

def SameLogs (o o' : Option NodeStore) : Prop :=
  o'.map (fun st => st.log) = o.map fun st => st.log

section

variable {s : AppState} {P : Prims}

theorem SameLogs.entryAt {o o' : Option NodeStore} (h : SameLogs o o') (cpk : Key) (ch : Ulid)
    (seq : UInt64) :
    (o'.bind fun st => st.entryAt cpk ch seq) = o.bind fun st => st.entryAt cpk ch seq := by
  have hlog : ∀ o : Option NodeStore, (o.bind fun st => st.entryAt cpk ch seq) =
      (o.map fun st => st.log).bind fun l => (l.get (logKey cpk ch seq)).bind fun v => v.value := by
    intro o
    cases o <;> rfl
  rw [hlog, hlog, h]

theorem sameLogs_updateMeta (s : AppState) (pk : Key) (f : CommunityMeta → CommunityMeta) :
    SameLogs s.nodeStore (s.updateMeta pk f).nodeStore := by
  unfold SameLogs updateMeta mapStore
  rw [Option.map_map]
  refine congrArg (fun g => s.nodeStore.map g) (funext fun st => ?_)
  dsimp only [Function.comp]
  cases st.meta? pk <;> rfl

theorem sameLogs_unstoreMember (s : AppState) (c u : String) :
    SameLogs s.nodeStore (unstoreMember s c u) := by
  unfold unstoreMember
  cases communityPk? s.toTables c with
  | none => rfl
  | some pk => exact sameLogs_updateMeta s pk fun m => { m with members := m.members.erase u }

theorem sameLogs_storeMember (s : AppState) (record : MembershipRecord) :
    SameLogs s.nodeStore (storeMember P s record) := by
  unfold SameLogs storeMember
  cases s.communities.lookup record.communityId.text with
  | none => rfl
  | some signed => exact Option.map_map _ _ _

theorem sameLogs_receiveMembership (s : AppState) (m : ManifestReceived) :
    SameLogs s.nodeStore (s.receiveMembership P m).nodeStore :=
  Option.map_map _ _ _

/-- What follows the replay of a fetched manifest writes no message. -/
theorem sameLogs_settleManifest (env : Env) (s : AppState) (m : ManifestReceived)
    (rotated : List String) (b : Bool) :
    SameLogs s.nodeStore (s.settleManifest P env m rotated b).nodeStore := by
  refine settleManifest_rel (R := fun s t => SameLogs s.nodeStore t.nodeStore) (fun _ _ _ => rfl)
    (fun h h' => Eq.trans h' h) (fun s => sameLogs_receiveMembership s m) (fun _ _ _ => rfl)
    (fun hw => ?_) env s rotated b
  cases hw with
  | joined => exact sameLogs_storeMember _ _

theorem of_entryAt_removeCommunityLocal {c : String}
    (h : ((s.removeCommunityLocal c).nodeStore.bind fun st => st.entryAt cpk ch seq) = some e) :
    (s.nodeStore.bind fun st => st.entryAt cpk ch seq) = some e := by
  unfold removeCommunityLocal at h
  dsimp only at h
  cases hpk : communityPk? s.toTables c with
  | none =>
    rw [hpk] at h
    exact h
  | some pk =>
    rw [hpk] at h
    cases hst : s.nodeStore with
    | none =>
      rw [hst] at h
      cases h
    | some st =>
      rw [hst] at h
      exact NodeStore.of_entryAt_removeCommunity h

/-- Gossip on a community topic brings no entry into a stored log. -/
theorem CommunityWrite.of_entryAt {env : Env} {s' : AppState} {ev : NetworkEvent}
    (hw : CommunityWrite P env s ev s')
    (h : (s'.nodeStore.bind fun st => st.entryAt cpk ch seq) = some e) :
    (s.nodeStore.bind fun st => st.entryAt cpk ch seq) = some e := by
  cases hw with
  | listed => exact ((sameLogs_updateMeta s _ _).entryAt cpk ch seq).symm.trans h
  | keyed => exact ((sameLogs_updateMeta s _ _).entryAt cpk ch seq).symm.trans h
  | removed => exact of_entryAt_removeCommunityLocal h
  | updated => exact ((sameLogs_updateMeta s _ _).entryAt cpk ch seq).symm.trans h
  | joined => exact ((sameLogs_storeMember s _).entryAt cpk ch seq).symm.trans h
  | left => exact ((sameLogs_unstoreMember s _ _).entryAt cpk ch seq).symm.trans h
  | _ => exact h

end

end AppState

end BitCord
