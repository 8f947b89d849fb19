import BitCord.Lib.LeftUnion
import BitCord.Persistence.Reload
import BitCord.Persistence.Restart

/-!
# What a start loads

`AppState::new` reads the tables from their files, adds the members of the files to the stored
metadata of their communities, and then fills the tables from the metadata that have a manifest, so
each table is a left-biased union (`startup_left_biased`). Two metadata may provide different values
for a key; which of them is taken is left open.
-/

namespace BitCord

open Lib AppState

/-- Stored metadata with a manifest satisfy `p`. -/
def MetaHas (st : NodeStore) (p : SignedManifest → CommunityMeta → Prop) : Prop :=
  ∃ cpk m signed, st.meta? cpk = some m ∧ m.manifest = some signed ∧ p signed m

theorem NodeStore.mem_allCommunities {st : NodeStore} {cpk : Key} {m : CommunityMeta}
    (h : st.meta? cpk = some m) : cpk ∈ st.allCommunities := by
  unfold NodeStore.meta? NodeStore.getCommunityMeta at h
  cases hget : st.metas.get cpk with
  | none =>
    rw [hget] at h
    cases h
  | some v => exact List.mem_map.mpr ⟨(cpk, v), OrdMap.get_eq_some_iff.mp hget, rfl⟩

namespace AppState

variable {κ α : Type}

variable {f : Tables → κ → Option α}

/-- The loop over the communities, said of the step for one of them. -/
theorem leftUnion_foldl_backPopulate {provides : SignedManifest → CommunityMeta → κ → α → Prop}
    (hstep : ∀ m signed t, m.manifest = some signed →
      LeftUnion (f t) (f (backPopulate m t)) (provides signed m))
    (st : NodeStore) {step : Tables → Key → Tables}
    (hsome : ∀ t cpk m, st.meta? cpk = some m → step t cpk = backPopulate m t)
    (hnone : ∀ t cpk, st.meta? cpk = none → step t cpk = t) (l : List Key) (t : Tables) :
    LeftUnion (f t) (f (l.foldl step t)) fun k a =>
      ∃ cpk ∈ l, ∃ m signed, st.meta? cpk = some m ∧ m.manifest = some signed ∧
        provides signed m k a := by
  induction l generalizing t with
  | nil => exact (LeftUnion.refl _).congr fun k a => by simp
  | cons cpk l ih =>
    rw [List.foldl_cons]
    cases hm : st.meta? cpk with
    | none =>
      rw [hnone t cpk hm]
      exact (ih t).congr fun k a => by simp [hm]
    | some m =>
      rw [hsome t cpk m hm]
      cases hman : m.manifest with
      | none =>
        have hsame : backPopulate m t = t := by
          unfold backPopulate
          rw [hman]
        rw [hsame]
        exact (ih t).congr fun k a => by simp [hm, hman]
      | some signed =>
        refine ((hstep m signed t hman).trans (ih _)).congr fun k a => ?_
        simp [hm, hman]

/-- Where one manifest fills a part of the tables, all metadata do. -/
theorem leftUnion_backPopulateAll {provides : SignedManifest → CommunityMeta → κ → α → Prop}
    (hstep : ∀ m signed t, m.manifest = some signed →
      LeftUnion (f t) (f (backPopulate m t)) (provides signed m))
    (st : NodeStore) (t : Tables) :
    LeftUnion (f t) (f (backPopulateAll st t))
      fun k a => MetaHas st fun signed m => provides signed m k a := by
  unfold backPopulateAll
  refine (leftUnion_foldl_backPopulate hstep st (fun t cpk m hm => ?_) (fun t cpk hm => ?_)
    st.allCommunities t).congr fun k a => ?_
  · rw [hm]
  · rw [hm]
  · constructor
    · rintro ⟨cpk, -, m, signed, hm, hman, hprov⟩
      exact ⟨cpk, m, signed, hm, hman, hprov⟩
    · rintro ⟨cpk, m, signed, hm, hman, hprov⟩
      exact ⟨cpk, NodeStore.mem_allCommunities hm, m, signed, hm, hman, hprov⟩

/-! ## Tables -/

section

variable {m : CommunityMeta} {signed : SignedManifest} (t : Tables)

theorem leftUnion_communities (h : m.manifest = some signed) :
    LeftUnion (fun c => t.communities.lookup c) (fun c => (backPopulate m t).communities.lookup c)
      fun c signed' => signed = signed' ∧ signed.manifest.id.text = c := by
  have hone : (backPopulate m t).communities =
      t.communities.orInsertAll [(signed.manifest.id.text, signed)] := by
    unfold backPopulate
    rw [h]
    rfl
  rw [hone]
  refine (leftUnion_orInsertAll _ _).congr fun c signed' => ?_
  rw [List.mem_singleton, Prod.mk.injEq]
  exact ⟨fun h => ⟨h.2.symm, h.1.symm⟩, fun h => ⟨h.2.symm, h.1.symm⟩⟩

theorem leftUnion_channels (h : m.manifest = some signed) :
    LeftUnion (fun x => t.channels.lookup x) (fun x => (backPopulate m t).channels.lookup x)
      fun x ch => ch ∈ m.channels ∧ ch.id.text = x := by
  have hall : (backPopulate m t).channels =
      t.channels.orInsertAll (m.channels.map fun c => (c.id.text, c)) := by
    unfold backPopulate
    rw [h]
  rw [hall]
  refine (leftUnion_orInsertAll _ _).congr fun x ch => ?_
  rw [List.mem_map]
  constructor
  · rintro ⟨ch', hmem, heq⟩
    obtain ⟨hx, rfl⟩ := Prod.mk.inj heq
    exact ⟨hmem, hx⟩
  · rintro ⟨hmem, hx⟩
    exact ⟨ch, hmem, by rw [hx]⟩

theorem mem_keyEntries_iff {keys : Dict String Bytes} {x : String} {k : Key} :
    (x, k) ∈ keyEntries keys ↔
      ∃ bytes, keys.lookup x = some bytes ∧ tryIntoArray 256 bytes = some k := by
  unfold keyEntries
  rw [List.mem_filterMap]
  constructor
  · rintro ⟨⟨y, bytes⟩, hmem, hk⟩
    obtain ⟨k', hk', heq⟩ := Option.map_eq_some_iff.mp hk
    cases heq
    exact ⟨bytes, (Dict.lookup_eq_some_iff _ _ _).mpr hmem, hk'⟩
  · rintro ⟨bytes, hlookup, hk⟩
    refine ⟨⟨x, bytes⟩, (Dict.lookup_eq_some_iff _ _ _).mp hlookup, ?_⟩
    rw [hk]
    rfl

theorem leftUnion_channelKeys (h : m.manifest = some signed) :
    LeftUnion (fun x => t.channelKeys.lookup x)
      (fun x => (backPopulate m t).channelKeys.lookup x)
      fun x k => ∃ bytes, m.channelKeys.lookup x = some bytes ∧
        tryIntoArray 256 bytes = some k := by
  have hall : (backPopulate m t).channelKeys =
      t.channelKeys.orInsertAll (keyEntries m.channelKeys) := by
    unfold backPopulate
    rw [h]
  rw [hall]
  exact (leftUnion_orInsertAll _ _).congr fun _ _ => mem_keyEntries_iff

theorem lookup_members_backPopulate (h : m.manifest = some signed) (c : String) :
    (backPopulate m t).members.lookup c =
      if c = signed.manifest.id.text then
        some (((t.members.lookup c).getD ∅).orInsertAll (m.members.entries.map fun e => (e.1, e.2)))
      else t.members.lookup c := by
  unfold backPopulate
  rw [h]
  dsimp only
  rw [Dict.lookup_upsert]
  split
  · next hc => rw [hc]
  · rfl

theorem leftUnion_memberLists (h : m.manifest = some signed) :
    LeftUnion (fun c => (t.members.lookup c).map fun _ => ())
      (fun c => ((backPopulate m t).members.lookup c).map fun _ => ())
      fun c _ => signed.manifest.id.text = c where
  kept c u hc := by
    rw [lookup_members_backPopulate t h]
    split
    · rfl
    · exact hc
  added c u hnone hc := by
    rw [lookup_members_backPopulate t h] at hc
    split at hc
    · next heq => exact heq.symm
    · rw [hnone] at hc
      cases hc
  complete c u hc := by
    rw [lookup_members_backPopulate t h, if_pos hc.symm]
    rfl

theorem leftUnion_members (h : m.manifest = some signed) :
    LeftUnion (fun k : String × String => recordIn t.members k.1 k.2)
      (fun k => recordIn (backPopulate m t).members k.1 k.2)
      fun k r => signed.manifest.id.text = k.1 ∧ m.members.lookup k.2 = some r := by
  have hrecord : ∀ k : String × String, recordIn (backPopulate m t).members k.1 k.2 =
      if k.1 = signed.manifest.id.text then
        (((t.members.lookup k.1).getD ∅).orInsertAll
          (m.members.entries.map fun e => (e.1, e.2))).lookup k.2
      else recordIn t.members k.1 k.2 := by
    intro k
    rw [recordIn, lookup_members_backPopulate t h]
    split <;> rfl
  refine ⟨fun k r hr => ?_, fun k r hnone hr => ?_, fun k r hr => ?_⟩
  · rw [hrecord]
    split
    · exact Dict.lookup_orInsertAll_of_some ((lookup_getD_empty _ _ _).trans hr)
    · exact hr
  · rw [hrecord] at hr
    split at hr
    · next hc =>
      rcases Dict.of_lookup_orInsertAll hr with hmem | hold
      · obtain ⟨e, he, heq⟩ := List.mem_map.mp hmem
        obtain ⟨hu, rfl⟩ := Prod.mk.inj heq
        exact ⟨hc.symm, (Dict.lookup_eq_some_iff _ _ _).mpr (hu ▸ he)⟩
      · rw [lookup_getD_empty, hnone] at hold
        cases hold
    · rw [hnone] at hr
      cases hr
  · rw [hrecord, if_pos hr.1.symm, AList.lookup_isSome, Dict.mem_orInsertAll, List.mem_map]
    exact .inl ⟨(k.2, r), List.mem_map.mpr
      ⟨⟨k.2, r⟩, (Dict.lookup_eq_some_iff _ _ _).mp hr.2, rfl⟩, rfl⟩

end

end AppState

/-! ## Start -/

/-- What a start loads from the files of the tables and a store. The metadata are those that the
merge of the members leaves. -/
structure StartsFrom (files : Tables) (st : NodeStore) (s : AppState) : Prop where
  communities : LeftUnion (fun c => files.communities.lookup c) (fun c => s.communities.lookup c)
    fun c signed => MetaHas (mergeMembers files st) fun signed' _ =>
      signed' = signed ∧ signed'.manifest.id.text = c
  channels : LeftUnion (fun x => files.channels.lookup x) (fun x => s.channels.lookup x)
    fun x ch => MetaHas (mergeMembers files st) fun _ m => ch ∈ m.channels ∧ ch.id.text = x
  channelKeys : LeftUnion (fun x => files.channelKeys.lookup x) (fun x => s.channelKeys.lookup x)
    fun x k => MetaHas (mergeMembers files st) fun _ m =>
      ∃ bytes, m.channelKeys.lookup x = some bytes ∧ tryIntoArray 256 bytes = some k
  /-- The record of a user in a community. -/
  members : LeftUnion (fun k : String × String => recordIn files.members k.1 k.2)
    (fun k => recordIn s.members k.1 k.2)
    fun k r => MetaHas (mergeMembers files st) fun signed m =>
      signed.manifest.id.text = k.1 ∧ m.members.lookup k.2 = some r
  memberLists : ∀ c, c ∈ s.members ↔ c ∈ files.members ∨
    MetaHas (mergeMembers files st) fun signed _ => signed.manifest.id.text = c
  messages : ∀ x ch pk ulid, s.channels.lookup x = some ch →
    communityPk? s.toTables ch.communityId.text = some pk → parseUlid x = some ulid →
    s.messageLog.entries x = ((st.getMessages pk ulid 0).toOption).getD []

theorem entries_restart (P : Prims) (s : AppState) (st : NodeStore) {x : String}
    {ch : ChannelManifest} {pk : Key} {ulid : Ulid}
    (hch : (backPopulateAll (mergeMembers s.files st) s.files).channels.lookup x = some ch)
    (hpk : communityPk? (backPopulateAll (mergeMembers s.files st) s.files)
      ch.communityId.text = some pk) (hulid : parseUlid x = some ulid) :
    (restart P { s with nodeStore := some st }).messageLog.entries x =
      ((st.getMessages pk ulid 0).toOption).getD [] := by
  have htables := sameTables_backPopulateAll s.files st
  have hhome : homePk (loadedTables s.files st) x = some pk := by
    unfold communityPk? at hpk
    unfold homePk communityPk?
    rw [← htables.channels, ← htables.communities, hch, Option.bind_some, hpk]
  rw [messageLog_restart rfl, entries_reload]
  unfold storedEntries
  rw [hulid, hhome]
  dsimp only
  cases st.getMessages pk ulid 0 with
  | ok entries => rfl
  | error err => rfl

/-- For all files and every store, a start loads what the files have and, where they have nothing,
what stored metadata with a manifest provide, and the whole stored history of each channel. -/
theorem startup_left_biased (P : Prims) (s : AppState) (st : NodeStore) :
    StartsFrom s.files st (restart P { s with nodeStore := some st }) where
  communities := leftUnion_backPopulateAll (f := fun t c => t.communities.lookup c)
    (fun _ _ t h => leftUnion_communities t h) _ _
  channels := leftUnion_backPopulateAll (f := fun t x => t.channels.lookup x)
    (fun _ _ t h => leftUnion_channels t h) _ _
  channelKeys := leftUnion_backPopulateAll (f := fun t x => t.channelKeys.lookup x)
    (fun _ _ t h => leftUnion_channelKeys t h) _ _
  members := leftUnion_backPopulateAll
    (f := fun t (k : String × String) => recordIn t.members k.1 k.2)
    (fun _ _ t h => leftUnion_members t h) _ _
  memberLists c := by
    have hunion := leftUnion_backPopulateAll
      (f := fun t c => (t.members.lookup c).map fun _ => ())
      (fun _ _ t h => leftUnion_memberLists t h) (mergeMembers s.files st) s.files
    have hkeys := hunion.isSome_iff c
    rw [Option.isSome_map, Option.isSome_map, AList.lookup_isSome, AList.lookup_isSome] at hkeys
    exact hkeys.trans (or_congr_right ⟨fun ⟨_, h⟩ => h, fun h => ⟨(), h⟩⟩)
  messages _ _ _ _ hch hpk hulid := entries_restart P s st hch hpk hulid

end BitCord
