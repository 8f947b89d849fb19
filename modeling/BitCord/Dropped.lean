import BitCord.Hosting
import BitCord.Removal
import BitCord.SeedSync

/-!
# Channels that a manifest dropped

A node that gets a manifest without one of its channels removes the channel from the table and from
the file of the table. A `ManifestUpdate` leaves the copy in the stored metadata of the community,
and the next start puts every channel of the stored metadata back that the file does not have
(`dropped_channel_returns`, `dropped_stays_gone_iff`).
-/

namespace BitCord

open Lib Lib.Run AppState

/-! ## What a restart finds in the store -/

/-- The metadata have a copy of the channel. -/
def CommunityMeta.Names (m : CommunityMeta) (x : String) : Prop :=
  x ∈ m.channels.map fun ch => ch.id.text

/-- A restart loads the channel from the metadata: it skips those without a manifest. -/
def CommunityMeta.Offers (m : CommunityMeta) (x : String) : Prop :=
  m.manifest.isSome = true ∧ m.Names x

namespace NodeStore

def OffersAt (st : NodeStore) (pk : Key) (x : String) : Prop :=
  ∃ m, st.meta? pk = some m ∧ m.Offers x

variable {st st' : NodeStore} {pk pk' : Key} {m : CommunityMeta} {x : String}

theorem offersAt_of_meta? (h : st.meta? pk = some m) : st.OffersAt pk x ↔ m.Offers x := by
  constructor
  · rintro ⟨m', hm', hoffers⟩
    cases h.symm.trans hm'
    exact hoffers
  · exact fun hoffers => ⟨m, h, hoffers⟩

theorem offersAt_congr (h : st'.meta? pk = st.meta? pk) : st'.OffersAt pk x ↔ st.OffersAt pk x := by
  unfold OffersAt
  rw [h]

theorem offersAt_setCommunityMeta :
    (st.setCommunityMeta pk' m).OffersAt pk x ↔
      if pk = pk' then m.Offers x else st.OffersAt pk x := by
  split
  · next h =>
    refine offersAt_of_meta? ?_
    rw [meta?_setCommunityMeta, if_pos h]
  · next h =>
    refine offersAt_congr ?_
    rw [meta?_setCommunityMeta, if_neg h]

theorem offersAt_setCommunityMeta_of (h : m.Offers x ↔ st.OffersAt pk' x) :
    (st.setCommunityMeta pk' m).OffersAt pk x ↔ st.OffersAt pk x := by
  rw [offersAt_setCommunityMeta]
  split
  · next hpk =>
    rw [hpk]
    exact h
  · exact Iff.rfl

theorem offersAt_removeCommunity :
    (st.removeCommunity pk').OffersAt pk x ↔ pk ≠ pk' ∧ st.OffersAt pk x := by
  unfold OffersAt
  rw [meta?_removeCommunity]
  split
  · next h => exact ⟨fun ⟨_, hm, _⟩ => (by cases hm), fun hne => absurd h hne.1⟩
  · next h => exact (and_iff_right h).symm

theorem offersAt_storeChannel {ch : ChannelManifest} (hx : ch.id.text ≠ x) :
    (storeChannel st pk' ch).OffersAt pk x ↔ st.OffersAt pk x := by
  have hnames : ∀ channels : List ChannelManifest,
      x ∈ (putChannel channels ch).map (fun c => c.id.text) ↔
        x ∈ channels.map fun c => c.id.text := by
    intro channels
    unfold putChannel
    split
    · rw [map_updateFirst fun c hc => by rw [of_decide_eq_true hc]]
    · rw [List.map_append, List.mem_append]
      exact or_iff_left fun h => hx (List.mem_singleton.mp h).symm
  unfold storeChannel
  split
  · next m hm =>
    refine offersAt_setCommunityMeta_of ?_
    rw [offersAt_of_meta? hm]
    exact and_congr_right fun _ => hnames m.channels
  · exact Iff.rfl

theorem offersAt_mergeMembers (t : Tables) :
    (mergeMembers t st).OffersAt pk x ↔ st.OffersAt pk x := by
  refine List.foldlRecOn (motive := fun st' : NodeStore => st'.OffersAt pk x ↔ st.OffersAt pk x)
    _ _ Iff.rfl fun st' h e _ => Iff.trans ?_ h
  unfold mergeStep
  split
  · exact Iff.rfl
  · split
    · exact Iff.rfl
    · next m hm =>
      dsimp only
      split
      · exact offersAt_setCommunityMeta_of (offersAt_of_meta? hm).symm
      · exact Iff.rfl

end NodeStore

namespace AppState

def NamesAt (s : AppState) (pk : Key) (x : String) : Prop :=
  ∃ m, s.storedMeta? pk = some m ∧ m.Names x

def OffersAt (s : AppState) (pk : Key) (x : String) : Prop :=
  ∃ m, s.storedMeta? pk = some m ∧ m.Offers x

/-- The store offers the channel to the next start. -/
def Offers (s : AppState) (x : String) : Prop := ∃ pk, s.OffersAt pk x

/-- The store offers the channel for another community than that of the key. -/
def OffersBeside (s : AppState) (pk : Option Key) (x : String) : Prop :=
  ∃ pk', some pk' ≠ pk ∧ s.OffersAt pk' x

section

variable {P : Prims} {s s' t : AppState} {pk : Key} {x : String}

theorem offersAt_iff_store : s.OffersAt pk x ↔ ∃ st, s.nodeStore = some st ∧ st.OffersAt pk x := by
  unfold OffersAt NodeStore.OffersAt storedMeta?
  cases s.nodeStore with
  | none => exact ⟨fun ⟨_, h, _⟩ => (by cases h), fun ⟨_, h, _⟩ => (by cases h)⟩
  | some st => exact ⟨fun hm => ⟨st, rfl, hm⟩, fun ⟨_, h, hm⟩ => (by cases h; exact hm)⟩

/-- After a change of the store, it is the changed store that offers the channel. -/
theorem offersAt_map {f : NodeStore → NodeStore} (h : s'.nodeStore = s.nodeStore.map f) :
    s'.OffersAt pk x ↔ ∃ st, s.nodeStore = some st ∧ (f st).OffersAt pk x := by
  rw [offersAt_iff_store, h]
  constructor
  · rintro ⟨st', hst', hoffers⟩
    obtain ⟨st, hst, rfl⟩ := Option.map_eq_some_iff.mp hst'
    exact ⟨st, hst, hoffers⟩
  · rintro ⟨st, hst, hoffers⟩
    exact ⟨f st, by rw [hst]; rfl, hoffers⟩

theorem mem_channels_restart : x ∈ (s.restart P).channels ↔ s.Offers x ∨ x ∈ s.files.channels := by
  unfold Offers
  simp only [offersAt_iff_store]
  cases hst : s.nodeStore with
  | none =>
    rw [(sameTables_restart_none hst).channels]
    simp
  | some st =>
    rw [(sameTables_restart hst).channels]
    refine Dict.mem_orInsertAll.trans (or_congr_left ?_)
    rw [exists_mem_metaEntries]
    unfold channelEntries
    simp only [List.map_map, Function.comp_def]
    constructor
    · rintro ⟨pk, m, signed, hm, hsigned, hx⟩
      exact ⟨pk, st, rfl, m, hm, by rw [hsigned]; rfl, hx⟩
    · rintro ⟨pk, st', hst', m, hm, hsome, hx⟩
      cases hst'
      obtain ⟨signed, hsigned⟩ := Option.isSome_iff_exists.mp hsome
      exact ⟨pk, m, signed, hm, hsigned, hx⟩

end

end AppState

/-! ## The channels and their file -/

/-- The file of the channels was written from the table, or the ids in both are as they were. -/
def ChannelsFollow (s s' : AppState) : Prop :=
  (∀ x, x ∈ s'.files.channels ↔ x ∈ s'.channels) ∨
    ∀ x, (x ∈ s'.channels ↔ x ∈ s.channels) ∧ (x ∈ s'.files.channels ↔ x ∈ s.files.channels)

namespace ChannelsFollow

variable {s s' t : AppState} {x : String}

theorem refl (s : AppState) : ChannelsFollow s s := .inr fun _ => ⟨Iff.rfl, Iff.rfl⟩

theorem trans (h : ChannelsFollow s t) (h' : ChannelsFollow t s') : ChannelsFollow s s' := by
  rcases h' with hsaved | hsame'
  · exact .inl hsaved
  · rcases h with hsaved | hsame
    · exact .inl fun x => (hsame' x).2.trans ((hsaved x).trans (hsame' x).1.symm)
    · exact .inr fun x => ⟨(hsame' x).1.trans (hsame x).1, (hsame' x).2.trans (hsame x).2⟩

theorem saved (h : s'.files.channels = s'.channels) : ChannelsFollow s s' :=
  .inl fun x => by rw [h]

theorem of_eq (hchannels : s'.channels = s.channels)
    (hfile : s'.files.channels = s.files.channels) : ChannelsFollow s s' :=
  .inr fun x => by rw [hchannels, hfile]; exact ⟨Iff.rfl, Iff.rfl⟩

theorem notMem_file (h : ChannelsFollow s s') (hgone : x ∉ s'.channels)
    (hx : x ∈ s.channels ∨ x ∉ s.files.channels) : x ∉ s'.files.channels := by
  rcases h with hsaved | hsame
  · exact fun hfile => hgone ((hsaved x).mp hfile)
  · rcases hx with hx | hx
    · exact absurd ((hsame x).1.mpr hx) hgone
    · exact fun hfile => hx ((hsame x).2.mp hfile)

theorem mem_file (h : ChannelsFollow s s') (hnew : x ∉ s.channels) (hx : x ∈ s'.channels) :
    x ∈ s'.files.channels := by
  rcases h with hsaved | hsame
  · exact (hsaved x).mpr hx
  · exact absurd ((hsame x).1.mp hx) hnew

/-- The file is written if something is published. -/
theorem of_published {published : List NetworkCommand}
    (hchannels : ∀ x, x ∈ s'.channels ↔ x ∈ s.channels)
    (hfile : s'.files.channels = if published.isEmpty then s.files.channels else s'.channels) :
    ChannelsFollow s s' := by
  split at hfile
  · exact .inr fun x => ⟨hchannels x, by rw [hfile]⟩
  · exact .saved hfile

end ChannelsFollow

section

variable {P : Prims} {env : Env} {s s' : AppState} {ev : NetworkEvent} {x : String}

theorem AppState.ChannelWrite.follow {replaying : Bool} (h : ChannelWrite P replaying s ev s') :
    ChannelsFollow s s' := by
  cases h with
  | rotated _ _ => exact .saved rfl
  | rotationStalled _ _ => exact .saved rfl
  | _ => exact .of_eq rfl rfl

/-- The file is written exactly if a channel is removed. -/
theorem follow_applyManifestUpdate (current : CommunityManifest) (new : SignedManifest)
    (source : Option String) : ChannelsFollow s (s.applyManifestUpdate P current new source) := by
  obtain ⟨removed, hchannels, hfile⟩ : ∃ removed : List String,
      (s.applyManifestUpdate P current new source).channels = s.channels.eraseAll removed ∧
        (s.applyManifestUpdate P current new source).files.channels =
          if removed.isEmpty then s.files.channels else s.channels.eraseAll removed :=
    ⟨_, rfl, rfl⟩
  cases removed with
  | nil => exact .of_eq hchannels hfile
  | cons y removed => exact .saved (hfile.trans hchannels.symm)

theorem AppState.CommunityWrite.follow (h : CommunityWrite P env s ev s') :
    ChannelsFollow s s' := by
  cases h with
  | listed _ _ => exact .saved rfl
  | keyed _ _ => exact .saved rfl
  | removed _ _ => exact .saved rfl
  | updated _ _ => exact follow_applyManifestUpdate _ _ _
  | @joined r commands pushes _ => exact .of_published (fun x => mem_wrapForJoiner env s r) rfl
  | _ => exact .of_eq rfl rfl

theorem mem_wrapLoop (env : Env) (s : AppState) (m : ManifestReceived) :
    x ∈ (wrapLoop P env s m).channels ↔ x ∈ s.channels := by
  have hloop : ∀ (l : List String) (acc : WrapLoop),
      x ∈ (l.foldl (wrapChannelStep P env s m.communityId) acc).channels ↔ x ∈ acc.channels := by
    intro l
    induction l with
    | nil => exact fun acc => Iff.rfl
    | cons y l ih =>
      intro acc
      rw [List.foldl_cons, ih]
      unfold wrapChannelStep
      split
      · next key ch _ hch =>
        dsimp only
        split
        · exact Iff.rfl
        · exact Dict.mem_insert_of_lookup hch _
      · exact Iff.rfl
  exact hloop m.channelIds ⟨s.channels, [], 0⟩

theorem mem_channels_settleManifest (env : Env) (s : AppState) (m : ManifestReceived)
    (rotated : List String) (b : Bool) :
    x ∈ (s.settleManifest P env m rotated b).channels ↔ x ∈ s.channels := by
  refine settleManifest_rel (R := fun s t => x ∈ t.channels ↔ x ∈ s.channels)
    (fun _ _ _ => Iff.rfl) (fun h h' => h'.trans h) (fun _ => Iff.rfl)
    (fun env s _ => mem_wrapLoop env s m) (fun h => ?_) env s rotated b
  cases h
  exact mem_wrapForJoiner _ _ _

theorem follow_settleManifest (env : Env) (s : AppState) (m : ManifestReceived)
    (rotated : List String) (b : Bool) : ChannelsFollow s (s.settleManifest P env m rotated b) := by
  refine settleManifest_rel (R := ChannelsFollow) (fun _ _ _ => .of_eq rfl rfl) .trans
    (fun s => ?_) (fun env s _ => .of_published (fun x => mem_wrapLoop env s m) rfl)
    (fun h => h.follow) env s rotated b
  unfold receiveMembership
  cases m.members.isEmpty <;> exact .of_eq rfl rfl

/-- The file is written with the tables, and follows them from there. -/
theorem follow_afterReplay (s : AppState) (m : ManifestReceived) :
    ChannelsFollow s (s.afterReplay P m) :=
  ChannelsFollow.trans (t := s.receiveTables P m) (.saved rfl)
    (afterReplay_rel (fun _ _ => .of_eq rfl rfl) .trans (fun _ h => h.follow)
      (fun _ _ => .of_eq rfl rfl) m)

theorem follow_processEvent (env : Env) (s : AppState) (e : SwarmEvent) :
    ChannelsFollow s (s.processEvent P env e) := by
  have hw := processEvent_write (P := P) env s e
  generalize s.processEvent P env e = t at hw ⊢
  cases hw with
  | channel _ _ _ h => exact h.follow
  | community _ _ _ _ h => exact h.follow
  | tombstone _ _ _ => exact .saved rfl
  | failed _ => exact .saved rfl
  | @stalled m _ _ _ _ => exact follow_afterReplay s m
  | @received m _ _ _ _ =>
    exact (follow_afterReplay s m).trans (follow_settleManifest env _ m _ _)
  | _ => exact .of_eq rfl rfl

theorem channels_storeCreated (env : Env) (s : AppState) (p : CreateCommunityParams) (fp : Key) :
    (s.storeCreated P env p fp).channels = s.channels ∧
      (s.storeCreated P env p fp).files.channels = s.files.channels := by
  unfold storeCreated putPassword
  cases p.hostingPassword <;> exact ⟨rfl, rfl⟩

theorem channels_storeInvited (env : Env) (s : AppState) (id : CommunityId) (pk : Key)
    (invite : InvitePayload) (password : Option String) :
    (s.storeInvited P env id pk invite password).channels = s.channels ∧
      (s.storeInvited P env id pk invite password).files.channels = s.files.channels := by
  unfold storeInvited putPassword
  cases password <;> exact ⟨rfl, rfl⟩

theorem follow_rpc (env : Env) (s : AppState) (call : RpcCall) :
    ChannelsFollow s (s.rpc P env call).1 := by
  have hw := rpc_write (P := P) env s call
  generalize (s.rpc P env call).1 = t at hw ⊢
  cases hw with
  | created _ ht =>
    obtain ⟨hchannels, hfile⟩ := channels_storeCreated (P := P) env _ _ _
    rcases ht with rfl | rfl <;> exact .of_eq hchannels hfile
  | invited _ _ ht =>
    obtain ⟨hchannels, hfile⟩ := channels_storeInvited (P := P) env s _ _ _ _
    rcases ht with rfl | ⟨fp, rfl⟩ <;> exact .of_eq hchannels hfile
  | updated _ _ _ ht => rcases ht with rfl | ⟨fp, rfl⟩ <;> exact .of_eq rfl rfl
  | left _ => exact .saved rfl
  | deleted _ _ => exact .saved rfl
  | channelCreated _ _ _ => exact .saved rfl
  | channelErased _ _ _ => exact .saved rfl
  | channelDeleted _ _ _ _ => exact .saved rfl
  | rotated _ _ =>
    unfold storeRotation
    split <;> exact .saved rfl
  | _ => exact .of_eq rfl rfl

end

/-! ## What the store offers -/

/-- The store offers the channel for the same communities. -/
def SameOffers (x : String) (s s' : AppState) : Prop := ∀ pk, s'.OffersAt pk x ↔ s.OffersAt pk x

/-- The store offers the channel for no other communities. -/
def FewerOffers (x : String) (s s' : AppState) : Prop := ∀ pk, s'.OffersAt pk x → s.OffersAt pk x

section

variable {P : Prims} {s s' t : AppState} {x : String} {ev : NetworkEvent}

namespace SameOffers

theorem refl (s : AppState) : SameOffers x s s := fun _ => Iff.rfl

theorem trans (h : SameOffers x s t) (h' : SameOffers x t s') : SameOffers x s s' :=
  fun pk => (h' pk).trans (h pk)

theorem offers_iff (h : SameOffers x s s') : s'.Offers x ↔ s.Offers x := exists_congr h

theorem of_storedMeta? (h : ∀ pk, s'.storedMeta? pk = s.storedMeta? pk) : SameOffers x s s' := by
  intro pk
  unfold AppState.OffersAt
  rw [h pk]

theorem of_store (h : s'.nodeStore = s.nodeStore) : SameOffers x s s' :=
  .of_storedMeta? fun pk => congrArg (fun o : Option NodeStore => o.bind fun st => st.meta? pk) h

theorem of_map {f : NodeStore → NodeStore} (h : s'.nodeStore = s.nodeStore.map f)
    (hf : ∀ st pk, (f st).OffersAt pk x ↔ st.OffersAt pk x) : SameOffers x s s' := by
  intro pk
  rw [offersAt_map h, offersAt_iff_store]
  exact exists_congr fun st => and_congr_right fun _ => hf st pk

end SameOffers

theorem FewerOffers.not_offers (h : FewerOffers x s s') (hx : ¬ s.Offers x) : ¬ s'.Offers x :=
  fun ⟨pk, hoffers⟩ => hx ⟨pk, h pk hoffers⟩

/-! ### Gossip -/

/-- A rotation changes only the copy of a channel that the node has. -/
theorem AppState.ChannelWrite.sameOffers {replaying : Bool}
    (h : ChannelWrite P replaying s ev s') (hx : x ∉ s.channels) : SameOffers x s s' := by
  have htaken : ∀ {pk : Key} {payload : ChannelKeyRotationPayload},
      RotationTaken P s pk payload → payload.newManifest.id.text ≠ x := by
    rintro pk payload htaken rfl
    have hnewer := htaken.newer
    unfold isNewerChannel at hnewer
    rw [AList.lookup_eq_none.mpr hx] at hnewer
    cases hnewer
  cases h with
  | @logged raw ch _ _ _ _ _ _ _ _ =>
    exact .of_storedMeta? fun pk => storedMeta?_storeMessage s ch.communityId.text raw pk
  | rotated _ hrotation =>
    exact .of_map rfl fun st pk => NodeStore.offersAt_storeChannel (htaken hrotation)
  | rotationStalled _ hrotation =>
    exact .of_map rfl fun st pk => NodeStore.offersAt_storeChannel (htaken hrotation)
  | _ => exact .of_store rfl

theorem AppState.ChannelWrite.isSome_store {replaying : Bool}
    (h : ChannelWrite P replaying s ev s') : s'.nodeStore.isSome = s.nodeStore.isSome := by
  cases h with
  | @logged raw ch _ _ _ _ _ _ _ _ =>
    unfold storeMessage
    cases communityPk? s.toTables ch.communityId.text with
    | none => rfl
    | some pk => exact Option.isSome_map
  | rotated _ _ => exact Option.isSome_map
  | rotationStalled _ _ => exact Option.isSome_map
  | _ => rfl

/-- What a replay does to a channel: to its copy only if the node has it. -/
structure ReplayFrame (x : String) (s s' : AppState) : Prop where
  channel : x ∈ s'.channels ↔ x ∈ s.channels
  isSome : s'.nodeStore.isSome = s.nodeStore.isSome
  offers : x ∉ s.channels → SameOffers x s s'

theorem replayFrame_afterReplay (s : AppState) (m : ManifestReceived) :
    ReplayFrame x (s.receiveTables P m) (s.afterReplay P m) :=
  afterReplay_rel (R := ReplayFrame x) (fun _ _ => ⟨Iff.rfl, rfl, fun _ => .of_store rfl⟩)
    (fun h h' => ⟨h'.channel.trans h.channel, h'.isSome.trans h.isSome,
      fun hx => (h.offers hx).trans (h'.offers fun ht => hx (h.channel.mp ht))⟩)
    (fun _ h => ⟨h.mem_channels, h.isSome_store, h.sameOffers⟩)
    (fun _ _ => ⟨Iff.rfl, rfl, fun _ => .of_store rfl⟩) m

/-- A record joins metadata as they are, or new ones without a channel. -/
theorem offers_storeMember (s : AppState) (r : MembershipRecord) :
    SameOffers x s { s with nodeStore := storeMember P s r } := by
  unfold storeMember
  cases s.communities.lookup r.communityId.text with
  | none => exact .of_store rfl
  | some signed =>
    refine .of_map rfl fun st pk => NodeStore.offersAt_setCommunityMeta_of ?_
    cases hm : st.meta? signed.manifest.publicKey with
    | none =>
      refine iff_of_false (fun h => ?_) fun h => ?_
      · exact absurd h.2 (List.not_mem_nil)
      · obtain ⟨m, hm', -⟩ := h
        cases hm.symm.trans hm'
    | some m => exact (NodeStore.offersAt_of_meta? hm).symm

theorem offers_unstoreMember (s : AppState) (c u : String) :
    SameOffers x s { s with nodeStore := unstoreMember s c u } := by
  unfold unstoreMember
  cases communityPk? s.toTables c with
  | none => exact .of_store rfl
  | some pk' =>
    refine .of_map rfl fun st pk => ?_
    cases hm : st.meta? pk' with
    | none => exact Iff.rfl
    | some m => exact NodeStore.offersAt_setCommunityMeta_of (NodeStore.offersAt_of_meta? hm).symm

variable {env : Env}

/-- Of the community messages only a manifest update removes a channel or changes its copy: the
channel of a broadcast is in the table afterwards. -/
theorem AppState.CommunityWrite.sameOffers (h : CommunityWrite P env s ev s')
    (hev : ∀ new, ev ≠ .manifestUpdate new) (hgone : x ∉ s'.channels) :
    x ∉ s.channels ∧ SameOffers x s s' := by
  have hinsert : ∀ {y : String} {ch : ChannelManifest}, x ∉ s.channels.insert y ch →
      x ∉ s.channels ∧ y ≠ x := fun hgone =>
    ⟨fun hx => hgone ((AList.mem_insert _).mpr (.inr hx)),
      fun hid => hgone ((AList.mem_insert _).mpr (.inl hid.symm))⟩
  cases h with
  | listed _ _ =>
    obtain ⟨hx, hne⟩ := hinsert hgone
    exact ⟨hx, .of_map rfl fun st pk => NodeStore.offersAt_storeChannel hne⟩
  | keyed _ _ =>
    obtain ⟨hx, hne⟩ := hinsert hgone
    exact ⟨hx, .of_map rfl fun st pk => NodeStore.offersAt_storeChannel hne⟩
  | removed _ _ => exact absurd rfl (hev _)
  | updated _ _ => exact absurd rfl (hev _)
  | @joined r _ _ _ =>
    exact ⟨fun hx => hgone ((mem_wrapForJoiner env s r).mpr hx), offers_storeMember s r⟩
  | left _ _ => exact ⟨hgone, offers_unstoreMember s _ _⟩
  | roleUpdated _ _ => exact ⟨hgone, .of_store rfl⟩
  | present => exact ⟨hgone, .of_store rfl⟩

/-! ### Community manifests -/

theorem offers_removeCommunityLocal (c : String) :
    (s.removeCommunityLocal c).Offers x ↔ s.OffersBeside (communityPk? s.toTables c) x := by
  refine exists_congr fun pk => ?_
  cases hpk : communityPk? s.toTables c with
  | none =>
    have hstore : (s.removeCommunityLocal c).nodeStore = s.nodeStore := by
      unfold removeCommunityLocal
      dsimp only
      rw [hpk]
    rw [SameOffers.of_store hstore pk]
    exact (and_iff_right (Option.some_ne_none pk)).symm
  | some pk' =>
    rw [offersAt_map (nodeStore_removeCommunityLocal hpk), offersAt_iff_store]
    simp only [NodeStore.offersAt_removeCommunity, ne_eq, Option.some.injEq]
    constructor
    · exact fun ⟨st, hst, hne, hoffers⟩ => ⟨hne, st, hst, hoffers⟩
    · exact fun ⟨hne, st, hst, hoffers⟩ => ⟨st, hst, hne, hoffers⟩

theorem not_offers_removeCommunityLocal (c : String) (hx : ¬ s.Offers x) :
    ¬ (s.removeCommunityLocal c).Offers x := by
  intro hoffers
  obtain ⟨pk, -, hpk⟩ := (offers_removeCommunityLocal c).mp hoffers
  exact hx ⟨pk, hpk⟩

theorem AppState.MetaUpdated.offersAt_iff {pk : Key} {f : CommunityMeta → CommunityMeta}
    (h : MetaUpdated pk f s s') (pk' : Key) :
    s'.OffersAt pk' x ↔
      if pk' = pk then ∃ m, s.storedMeta? pk = some m ∧ (f m).Offers x else s.OffersAt pk' x := by
  unfold AppState.OffersAt
  split
  · next hpk =>
    rw [hpk, h.changed]
    constructor
    · rintro ⟨m', hm', hoffers⟩
      obtain ⟨m, hm, rfl⟩ := Option.map_eq_some_iff.mp hm'
      exact ⟨m, hm, hoffers⟩
    · rintro ⟨m, hm, hoffers⟩
      exact ⟨f m, by rw [hm]; rfl, hoffers⟩
  · next hne => rw [h.others pk' hne]

/-- Metadata that get a manifest offer the channels that they have. -/
theorem AppState.MetaUpdated.offers_iff {pk : Key} {f : CommunityMeta → CommunityMeta}
    (h : MetaUpdated pk f s s') (hf : ∀ m, (f m).Offers x ↔ m.Names x) :
    s'.Offers x ↔ s.Offers x ∨ s.NamesAt pk x := by
  constructor
  · rintro ⟨pk', hoffers⟩
    rw [h.offersAt_iff] at hoffers
    split at hoffers
    · obtain ⟨m, hm, hoffers⟩ := hoffers
      exact .inr ⟨m, hm, (hf m).mp hoffers⟩
    · exact .inl ⟨pk', hoffers⟩
  · have hnamed : s.NamesAt pk x → s'.Offers x := by
      rintro ⟨m, hm, hnames⟩
      refine ⟨pk, (h.offersAt_iff pk).mpr ?_⟩
      rw [if_pos rfl]
      exact ⟨m, hm, (hf m).mpr hnames⟩
    rintro (⟨pk', hoffers⟩ | hnames)
    · by_cases hpk : pk' = pk
      · subst hpk
        obtain ⟨m, hm, hoffers⟩ := hoffers
        exact hnamed ⟨m, hm, hoffers.2⟩
      · refine ⟨pk', (h.offersAt_iff pk').mpr ?_⟩
        rw [if_neg hpk]
        exact hoffers
    · exact hnamed hnames

/-- The new manifest is stored with the old channels. -/
theorem offers_applyManifestUpdate (current : CommunityManifest) (new : SignedManifest)
    (source : Option String) :
    (s.applyManifestUpdate P current new source).Offers x ↔
      s.Offers x ∨ s.NamesAt new.manifest.publicKey x :=
  MetaUpdated.offers_iff (f := fun m => { m with manifest := some new }) (metaUpdated_of_store rfl)
    fun _ => and_iff_right rfl

/-- The metadata of a response replace those of its community. -/
theorem offers_settleManifest (env : Env) (s : AppState) (m : ManifestReceived)
    (rotated : List String) (b : Bool) :
    (s.settleManifest P env m rotated b).Offers x ↔
      s.nodeStore.isSome = true ∧ x ∈ m.channelIds ∨ s.OffersBeside (some m.communityPk) x := by
  have hadmitted : (s.admitMembers P env m rotated).nodeStore =
      s.nodeStore.map fun st => st.setCommunityMeta m.communityPk (s.receivedMeta P m) := by
    unfold admitMembers wrapForMembers
    dsimp only
    split <;> rfl
  have hself : ∀ (env : Env) (t : AppState), SameOffers x t (t.announceSelf P env m) := by
    intro env t
    unfold announceSelf
    split
    · exact .refl t
    · dsimp only
      refine SameOffers.trans ?_ (.of_store rfl)
      rcases handleMemberJoined_write (P := P) env t _ with h | h
      · rw [h]
        exact .refl t
      · generalize t.handleMemberJoined P env _ = t' at h ⊢
        cases h
        exact offers_storeMember t _
  have hsettled : SameOffers x (s.admitMembers P env m rotated)
      (s.settleManifest P env m rotated b) := by
    unfold settleManifest finishManifest
    dsimp only
    split <;> exact (hself _ _).trans (.of_store rfl)
  rw [hsettled.offers_iff]
  constructor
  · rintro ⟨pk, hoffers⟩
    obtain ⟨st, hst, hoffers⟩ := (offersAt_map hadmitted).mp hoffers
    rw [NodeStore.offersAt_setCommunityMeta] at hoffers
    split at hoffers
    · exact .inl ⟨by rw [hst]; rfl, hoffers.2⟩
    · next hne =>
      exact .inr ⟨pk, fun h => hne (Option.some.inj h), offersAt_iff_store.mpr ⟨st, hst, hoffers⟩⟩
  · rintro (⟨hsome, hx⟩ | ⟨pk, hne, hoffers⟩)
    · obtain ⟨st, hst⟩ := Option.isSome_iff_exists.mp hsome
      refine ⟨m.communityPk, (offersAt_map hadmitted).mpr ⟨st, hst, ?_⟩⟩
      rw [NodeStore.offersAt_setCommunityMeta, if_pos rfl]
      exact ⟨rfl, hx⟩
    · obtain ⟨st, hst, hoffers⟩ := offersAt_iff_store.mp hoffers
      refine ⟨pk, (offersAt_map hadmitted).mpr ⟨st, hst, ?_⟩⟩
      rw [NodeStore.offersAt_setCommunityMeta, if_neg fun h => hne (congrArg some h)]
      exact hoffers

theorem handleManifestUpdate_of_newer {new current : SignedManifest} (source : Option String)
    (h : NewerUpdate P s new current) :
    ∃ commands pushes, s.handleManifestUpdate P new source =
      if new.manifest.deleted then
        (s.removeCommunityLocal new.manifest.id.text).out commands pushes
      else s.applyManifestUpdate P current.manifest new source := by
  unfold handleManifestUpdate
  dsimp only
  rw [h.verified, h.known]
  dsimp only
  rw [if_neg (by decide), if_neg (UInt64.not_le.mpr h.newer)]
  split
  · exact ⟨_, _, rfl⟩
  · exact ⟨[], [], rfl⟩

theorem offers_removed {new current : SignedManifest} (h : NewerUpdate P s new current) :
    (s.removeCommunityLocal new.manifest.id.text).Offers x ↔
      s.OffersBeside (some current.manifest.publicKey) x := by
  rw [offers_removeCommunityLocal, communityPk?_of_lookup h.known]

/-- What the store offers after a response of a peer, of a channel that it removes or that was not
offered. -/
theorem offers_handleManifestReceived {m : ManifestReceived} (hs : s.blocked = false)
    (hx : ¬ s.Offers x ∨ x ∈ s.channels) (hgone : x ∉ (s.handleManifestReceived P env m).channels) :
    (s.handleManifestReceived P env m).Offers x ↔
      m.manifest.verify P = true ∧
        if m.manifest.manifest.deleted then
          s.OffersBeside (communityPk? s.toTables m.communityId) x
        else s.Stalls P m ∧ s.Offers x ∨
          ¬ s.Stalls P m ∧ (s.nodeStore.isSome = true ∧ x ∈ m.channelIds ∨
            s.OffersBeside (some m.communityPk) x) := by
  cases hverify : m.manifest.verify P with
  | false =>
    have hignored : s.handleManifestReceived P env m = s := by
      unfold handleManifestReceived
      rw [hverify]
      rfl
    rw [hignored] at hgone ⊢
    exact iff_of_false (hx.resolve_right hgone) fun h => by cases h.1
  | true =>
    refine Iff.trans ?_ (and_iff_right rfl).symm
    cases hdeleted : m.manifest.manifest.deleted with
    | true =>
      unfold handleManifestReceived
      rw [hverify, hdeleted]
      exact offers_removeCommunityLocal m.communityId
    | false =>
      rw [handleManifestReceived_of_live env hverify hdeleted] at hgone ⊢
      have hreplayed := replayFrame_afterReplay (P := P) (x := x) s m
      have hoffers : x ∉ (s.afterReplay P m).channels → SameOffers x s (s.afterReplay P m) := by
        intro hx'
        exact SameOffers.trans (.of_store rfl)
          (hreplayed.offers fun ht => hx' (hreplayed.channel.mpr ht))
      rcases afterReplay_spec (P := P) hs m with ⟨hstalls, hb⟩ | ⟨hstalls, hb, -⟩
      · rw [if_pos hb] at hgone ⊢
        rw [(hoffers hgone).offers_iff]
        exact ⟨fun h => .inl ⟨hstalls, h⟩, fun h => (h.resolve_right fun h' => h'.1 hstalls).2⟩
      · rw [if_neg (by rw [hb]; decide)] at hgone ⊢
        rw [mem_channels_settleManifest] at hgone
        have hbeside : (s.afterReplay P m).OffersBeside (some m.communityPk) x ↔
            s.OffersBeside (some m.communityPk) x :=
          exists_congr fun pk => and_congr_right fun _ => hoffers hgone pk
        rw [offers_settleManifest, hreplayed.isSome, hbeside]
        exact ⟨fun h => .inr ⟨hstalls, h⟩, fun h => (h.resolve_left fun h' => hstalls h'.1).2⟩

/-! ### Calls -/

/-- The metadata of a new community have no channel. -/
theorem fewer_storeCreated (env : Env) (s : AppState) (p : CreateCommunityParams) (fp : Key) :
    FewerOffers x s (s.storeCreated P env p fp) := by
  intro pk hoffers
  have hstore : ∃ pk' m, CommunityMeta.channels m = [] ∧
      (s.storeCreated P env p fp).nodeStore =
        s.nodeStore.map fun st => st.setCommunityMeta pk' m := by
    unfold storeCreated putPassword
    cases p.hostingPassword <;> exact ⟨_, newMeta P _ _ _, rfl, rfl⟩
  obtain ⟨pk', m, hnone, hstore⟩ := hstore
  obtain ⟨st, hst, hoffers⟩ := (offersAt_map hstore).mp hoffers
  rw [NodeStore.offersAt_setCommunityMeta] at hoffers
  split at hoffers
  · have hx := hoffers.2
    unfold CommunityMeta.Names at hx
    rw [hnone] at hx
    cases hx
  · exact offersAt_iff_store.mpr ⟨st, hst, hoffers⟩

theorem fewer_storeChannelDeleted (s : AppState) (p : ChannelParams) (old : SignedManifest)
    (name : String) (ulid : Ulid) :
    FewerOffers x s (storeChannelDeleted P (s.eraseChannel p.channelId) p old name ulid) := by
  intro pk hoffers
  have hupdated : MetaUpdated old.manifest.publicKey (fun m =>
      { m with
        channels := m.channels.filter fun c => decide (c.id.text ≠ p.channelId)
        channelKeys := m.channelKeys.erase p.channelId }) s
      (storeChannelDeleted P (s.eraseChannel p.channelId) p old name ulid) :=
    metaUpdated_of_store rfl
  rw [hupdated.offersAt_iff pk] at hoffers
  split at hoffers
  · next hpk =>
    obtain ⟨m, hm, hsome, hnames⟩ := hoffers
    obtain ⟨ch, hch, hid⟩ := List.mem_map.mp hnames
    exact ⟨m, hpk ▸ hm, hsome, List.mem_map.mpr ⟨ch, List.mem_of_mem_filter hch, hid⟩⟩
  · exact hoffers

theorem offers_storeChannelCreated {c : String} {old : SignedManifest} {ch : ChannelManifest}
    {key : Key} (hx : x ≠ ch.id.text) :
    (s.storeChannelCreated P c old ch key).Offers x ↔
      s.Offers x ∨ s.NamesAt old.manifest.publicKey x := by
  refine MetaUpdated.offers_iff (metaUpdated_of_store rfl) fun m => (and_iff_right rfl).trans ?_
  unfold CommunityMeta.Names
  rw [List.map_append, List.mem_append]
  exact or_iff_left fun h => hx (List.mem_singleton.mp h)

theorem offers_storeReordered (p : ReorderChannelsParams) (old : SignedManifest)
    (order : List ChannelId) :
    (s.storeReordered P p old order).Offers x ↔
      s.Offers x ∨ s.NamesAt old.manifest.publicKey x :=
  MetaUpdated.offers_iff (metaUpdated_of_store rfl) fun _ => and_iff_right rfl

/-- A rotation puts the manifest of the table in the place of the stored copy with its id. -/
theorem mem_map_updateFirst {l : List ChannelManifest} {ch : ChannelManifest} {y : String}
    (hx : x ∉ l.map fun c => c.id.text) :
    x ∈ (updateFirst (fun c => decide (c.id.text = y)) (fun _ => ch) l).map (fun c => c.id.text) ↔
      ch.id.text = x ∧ y ∈ l.map fun c => c.id.text := by
  constructor
  · intro h
    obtain ⟨c, hc, rfl⟩ := List.mem_map.mp h
    rcases of_mem_updateFirst hc with hold | ⟨a, ha, hid, rfl⟩
    · exact absurd (List.mem_map.mpr ⟨c, hold, rfl⟩) hx
    · exact ⟨rfl, List.mem_map.mpr ⟨a, ha, of_decide_eq_true hid⟩⟩
  · rintro ⟨rfl, h⟩
    obtain ⟨a, ha, hid⟩ := List.mem_map.mp h
    have hfound : (l.find? fun c => decide (c.id.text = y)).isSome = true :=
      List.find?_isSome.mpr ⟨a, ha, decide_eq_true hid⟩
    obtain ⟨c, hc⟩ := Option.isSome_iff_exists.mp hfound
    obtain ⟨i, -, hi⟩ := exists_updateFirst_of_find? (f := fun _ => ch) hc
    exact List.mem_map.mpr ⟨ch, List.mem_of_getElem? hi, rfl⟩

theorem offers_rotated {p : ChannelParams} {ch : ChannelManifest}
    (ht : t = ((s.putKey p.channelId (env.key 0)).putChannelEntry p.channelId
      (s.rotatedChannel P env p ch)).storeRotation p (s.rotatedChannel P env p ch) (env.key 0))
    (hx : ¬ s.Offers x) :
    t.Offers x ↔ ch.id.text = x ∧ ∃ pk, communityPk? s.toTables p.communityId = some pk ∧
      s.OffersAt pk p.channelId := by
  have hrotated := congrArg AppState.nodeStore ht
  have hkeys : communityPk? ((s.putKey p.channelId (env.key 0)).putChannelEntry p.channelId
      (s.rotatedChannel P env p ch)).toTables p.communityId =
        communityPk? s.toTables p.communityId := rfl
  unfold storeRotation at hrotated
  rw [hkeys] at hrotated
  cases hpk : communityPk? s.toTables p.communityId with
  | none =>
    rw [hpk] at hrotated
    refine iff_of_false ?_ fun ⟨_, pk, h, _⟩ => by cases h
    exact fun h => hx ((SameOffers.of_store (s := s) hrotated).offers_iff.mp h)
  | some pk =>
    rw [hpk] at hrotated
    have hupdated : MetaUpdated pk (fun m =>
        { m with
          channelKeys := m.channelKeys.insert p.channelId (toBytes (env.key 0))
          channels := updateFirst (fun c => decide (c.id.text = p.channelId))
            (fun _ => s.rotatedChannel P env p ch) m.channels }) s t :=
      metaUpdated_of_store hrotated
    constructor
    · rintro ⟨pk', hoffers⟩
      rw [hupdated.offersAt_iff] at hoffers
      split at hoffers
      · obtain ⟨m, hm, hsome, hnames⟩ := hoffers
        have hnot : ¬ m.Names x := fun h => hx ⟨pk, m, hm, hsome, h⟩
        obtain ⟨hid, hlisted⟩ := (mem_map_updateFirst hnot).mp hnames
        exact ⟨hid, pk, rfl, m, hm, hsome, hlisted⟩
      · exact absurd ⟨pk', hoffers⟩ hx
    · rintro ⟨hid, pk', hpk', m, hm, hsome, hlisted⟩
      cases hpk'
      have hnot : ¬ m.Names x := fun h => hx ⟨pk, m, hm, hsome, h⟩
      refine ⟨pk, (hupdated.offersAt_iff pk).mpr ?_⟩
      rw [if_pos rfl]
      exact ⟨m, hm, hsome, (mem_map_updateFirst hnot).mpr ⟨hid, hlisted⟩⟩

/-! ### Requests -/

variable {st st' : NodeStore} {pk cpk : Key} {n : Node} {conn : Nat} {remote : NodeAddr}
  {channels : List ChannelManifest} {channelKeys : Dict String Bytes}
  {members : List MembershipRecord}

theorem meta?_congr (h : st'.getCommunityMeta pk = st.getCommunityMeta pk) :
    st'.meta? pk = st.meta? pk := by
  unfold NodeStore.meta?
  rw [h]

theorem offersAt_storeJoined {cert : HostingCert} :
    (storeJoined st cert).OffersAt pk x ↔ st.OffersAt pk x := by
  unfold storeJoined
  cases hm : st.meta? cert.communityPk with
  | some m => exact Iff.rfl
  | none =>
    refine NodeStore.offersAt_setCommunityMeta_of (iff_of_false (fun h => by cases h.1) ?_)
    rintro ⟨m, hm', -⟩
    cases hm.symm.trans hm'

theorem offers_handleRequest {req : ClientRequest}
    (hreq : ∀ cpk manifest channels channelKeys members,
      req ≠ .pushManifest cpk manifest channels channelKeys members) :
    SameOffers x n.app (n.handleRequest P conn env remote req).app := by
  cases hst : n.app.nodeStore with
  | none =>
    unfold Node.handleRequest
    rw [hst]
    exact .refl n.app
  | some st =>
    intro pk
    have hstore : (n.handleRequest P conn env remote req).app.nodeStore =
        some (dispatch P env remote (n.conn P st conn) req).1.services.store :=
      Node.nodeStore_handleRequest hst
    have hwrite := storeWrite_dispatch (P := P) env remote (n.conn P st conn) req
    have hoffers : (dispatch P env remote (n.conn P st conn) req).1.services.store.OffersAt pk x ↔
        st.OffersAt pk x := by
      generalize (dispatch P env remote (n.conn P st conn) req).1.services.store = st' at hwrite ⊢
      cases hwrite with
      | unchanged => exact Iff.rfl
      | join => exact offersAt_storeJoined
      | message => exact Iff.rfl
      | dm => exact Iff.rfl
      | gossip =>
        exact NodeStore.offersAt_congr (meta?_congr (getCommunityMeta_persistGossip st _ _ pk))
      | history =>
        exact NodeStore.offersAt_congr (meta?_congr (getCommunityMeta_appendHistory st _ _ _ pk))
      | manifest => exact absurd rfl (hreq _ _ _ _ _)
    rw [offersAt_iff_store, offersAt_iff_store, hstore, hst]
    constructor
    · rintro ⟨st', hst', h⟩
      cases hst'
      exact ⟨st, rfl, hoffers.mp h⟩
    · rintro ⟨st', hst', h⟩
      cases hst'
      exact ⟨_, rfl, hoffers.mpr h⟩

theorem offersAt_pushManifestStore {nodePk : Key} {manifest : SignedManifest} :
    (pushManifestStore st nodePk cpk manifest channels channelKeys members).OffersAt pk x ↔
      if pk = cpk then x ∈ channels.map fun ch => ch.id.text else st.OffersAt pk x := by
  unfold pushManifestStore
  rw [NodeStore.offersAt_setCommunityMeta]
  split
  · exact and_iff_right rfl
  · exact Iff.rfl

/-- A `PushManifest` that is accepted replaces the metadata of its community. -/
theorem offers_pushManifest {manifest : SignedManifest} (hx : ¬ n.app.Offers x) :
    (n.handleRequest P conn env remote
        (.pushManifest cpk manifest channels channelKeys members)).app.Offers x ↔
      n.app.nodeStore.isSome = true ∧ (n.sessions conn).mayPush cpk = true ∧
        x ∈ channels.map fun ch => ch.id.text := by
  cases hst : n.app.nodeStore with
  | none =>
    unfold Node.handleRequest
    rw [hst]
    exact iff_of_false hx fun h => by cases h.1
  | some st =>
    refine Iff.trans ?_ (and_iff_right rfl).symm
    have hstore : (n.handleRequest P conn env remote
          (.pushManifest cpk manifest channels channelKeys members)).app.nodeStore =
        some (if (n.sessions conn).mayPush cpk then
          pushManifestStore st (n.app.ownPk P) cpk manifest channels channelKeys members
        else st) := by
      rw [Node.nodeStore_handleRequest hst, store_dispatch_pushManifest]
      rfl
    have hold : ∀ pk, ¬ st.OffersAt pk x := fun pk h => hx ⟨pk, offersAt_iff_store.mpr ⟨st, hst, h⟩⟩
    unfold AppState.Offers
    simp only [offersAt_iff_store, hstore]
    cases (n.sessions conn).mayPush cpk with
    | false =>
      refine iff_of_false ?_ fun h => by cases h.1
      rintro ⟨pk, st', hst', h⟩
      cases hst'
      exact hold pk h
    | true =>
      refine Iff.trans ?_ (and_iff_right rfl).symm
      constructor
      · rintro ⟨pk, st', hst', h⟩
        cases hst'
        rw [if_pos rfl, offersAt_pushManifestStore] at h
        split at h
        · exact h
        · exact absurd h (hold pk)
      · intro h
        refine ⟨cpk, _, rfl, ?_⟩
        rw [if_pos rfl, offersAt_pushManifestStore, if_pos rfl]
        exact h

end

/-! ## Runs -/

/-- The node does not have the channel, and will not have it after a restart. -/
structure Gone (s : AppState) (x : String) : Prop where
  table : x ∉ s.channels
  file : x ∉ s.files.channels
  store : ¬ s.Offers x

section

variable (P : Prims)

/-- The input puts the channel into the table: a broadcast or a response brings it, or a call
creates it. -/
def PutsBack (n : Node) (x : String) : NodeInput → Prop
  | .event _ e => (installed? P x n.app e).isSome = true
  | .rpc env (.channelCreate p) =>
    ∃ old ulid, validName p.name = true ∧ n.app.communities.lookup p.communityId = some old ∧
      parseUlid p.communityId = some ulid ∧ (n.app.newChannel P env p ⟨ulid⟩).id.text = x
  | _ => False

/-- The input may drop the channel: it carries a manifest, and the node has the channel. -/
def MayDrop (n : Node) (x : String) : NodeInput → Prop
  | .event _ e => (carriedManifest P e).isSome = true ∧ x ∈ n.app.channels
  | _ => False

/-- The input leaves metadata with a manifest in the store that have a copy of the channel, although
the channel is not in the table afterwards. -/
def LeavesCopy (n : Node) (x : String) : NodeInput → Prop
  | .event _ (.messageReceived topic data _) =>
    -- a manifest update keeps all copies, and its manifest completes metadata that had none
    n.app.blocked = false ∧ isChannelTopic topic = false ∧ isCommunityTopic topic = true ∧
      ∃ new current, P.decodeEvent data = some (.manifestUpdate new) ∧
        NewerUpdate P n.app new current ∧
          if new.manifest.deleted then n.app.OffersBeside (some current.manifest.publicKey) x
          else n.app.Offers x ∨ n.app.NamesAt new.manifest.publicKey x
  | .event _ (.manifestReceived m) =>
    -- a response replaces the metadata of its community by the channels that it brings
    n.app.blocked = false ∧ m.manifest.verify P = true ∧
      if m.manifest.manifest.deleted then
        n.app.OffersBeside (communityPk? n.app.toTables m.communityId) x
      else n.app.Stalls P m ∧ n.app.Offers x ∨
        ¬ n.app.Stalls P m ∧ (n.app.nodeStore.isSome = true ∧ x ∈ m.channelIds ∨
          n.app.OffersBeside (some m.communityPk) x)
  | .rpc _ (.channelCreate p) =>
    ∃ old ulid, validName p.name = true ∧ n.app.communities.lookup p.communityId = some old ∧
      parseUlid p.communityId = some ulid ∧ n.app.NamesAt old.manifest.publicKey x
  | .rpc _ (.channelReorder p) =>
    ∃ old order, (n.app.seedRefusal p.communityId).or (n.app.reorderRefusal p) = none ∧
      parseOrder p.channelIds = .ok order ∧ n.app.communities.lookup p.communityId = some old ∧
      n.app.NamesAt old.manifest.publicKey x
  | .rpc _ (.channelRotateKey p) =>
    ∃ ch, n.app.seedRefusal p.communityId = none ∧
      n.app.channels.lookup p.channelId = some ch ∧ ch.id.text = x ∧
      ∃ pk, communityPk? n.app.toTables p.communityId = some pk ∧ n.app.OffersAt pk p.channelId
  | .request conn _ _ (.pushManifest cpk _ channels _ _) =>
    n.app.nodeStore.isSome = true ∧ (n.sessions conn).mayPush cpk = true ∧
      x ∈ channels.map fun ch => ch.id.text
  | _ => False

end

section

variable {P : Prims} {n : Node} {i : NodeInput} {x : String} {e : SwarmEvent} {call : RpcCall}

/-! ### Inputs that put a channel into the table -/

theorem AppState.ChannelKept.mem {s s' : AppState} (h : ChannelKept s s' x)
    (hx : x ∈ s'.channels) : x ∈ s.channels := by
  obtain ⟨ch', hch'⟩ := Option.isSome_iff_exists.mp (AList.lookup_isSome.mpr hx)
  obtain ⟨ch, hch, -⟩ := h.channel ch' hch'
  exact AList.lookup_isSome.mp (by rw [hch]; rfl)

theorem mem_channels_received {s : AppState} {m : ManifestReceived} (env : Env)
    (h : s.Takes P m) : x ∈ (s.processEvent P env (.manifestReceived m)).channels ↔
      (((m.channel? x).or (s.channels.lookup x)).filter (m.keeps x)).isSome = true := by
  rw [← lookup_receiveChannels, AList.lookup_isSome, processEvent_received env m h.1,
    handleManifestReceived_of_live env h.2.1 h.2.2]
  refine Iff.trans ?_ (replayFrame_afterReplay (P := P) s m).channel
  split
  · exact Iff.rfl
  · exact mem_channels_settleManifest env _ m _ _

theorem mem_event_of_putsBack {env : Env} (h : PutsBack P n x (.event env e)) :
    x ∈ (n.app.processEvent P env e).channels := by
  obtain ⟨ch, hch⟩ := Option.isSome_iff_exists.mp h
  cases e with
  | messageReceived topic data source =>
    refine AList.lookup_isSome.mp (Option.isSome_iff_exists.mpr ⟨ch, ?_⟩)
    exact (broadcast?_eq_some env source hch).1
  | manifestReceived m =>
    by_cases htakes : n.app.Takes P m
    · rw [installed?, if_pos htakes] at hch
      obtain ⟨hlast, -⟩ := Option.filter_eq_some_iff.mp hch
      rw [mem_channels_received env htakes, hlast, Option.some_or, ← hlast, hch]
      rfl
    · rw [installed?, if_neg htakes] at hch
      cases hch
  | _ => cases hch

theorem putsBack_of_mem_event {env : Env} (hx : x ∉ n.app.channels)
    (h : x ∈ (n.app.processEvent P env e).channels) : PutsBack P n x (.event env e) := by
  have hw := processEvent_write (P := P) env n.app e
  have hresponse : ∀ {m}, e = .manifestReceived m → n.app.Takes P m →
      PutsBack P n x (.event env e) := by
    rintro m rfl htakes
    rw [mem_channels_received env htakes, AList.lookup_eq_none.mpr hx, Option.or_none] at h
    show (installed? P x n.app (.manifestReceived m)).isSome = true
    rw [installed?, if_pos htakes]
    exact h
  generalize n.app.processEvent P env e = t at hw h
  cases hw with
  | channel _ _ _ hw => exact absurd (hw.mem_channels.mp h) hx
  | @community topic data source ev _ hb htopic hcommunity hd hw =>
    by_contra hnot
    refine hx ((hw.kept ?_).mem h)
    rintro ch rfl hknown hid
    refine absurd ?_ hnot
    show (broadcast? P x n.app topic data).isSome = true
    simp [broadcast?, hb, htopic, hcommunity, hd, hknown, hid]
  | tombstone _ _ _ => exact absurd ((removeCommunityLocal_kept n.app _ x).mem h) hx
  | failed _ => exact absurd ((removeCommunityLocal_kept n.app _ x).mem h) hx
  | stalled hb hverify hlive _ => exact hresponse rfl ⟨hb, hverify, hlive⟩
  | received hb hverify hlive _ => exact hresponse rfl ⟨hb, hverify, hlive⟩
  | _ => exact absurd h hx

theorem putsBack_of_mem_rpc {env : Env} (hx : x ∉ n.app.channels)
    (h : x ∈ (n.app.rpc P env call).1.channels) : PutsBack P n x (.rpc env call) := by
  have hw := rpc_write (P := P) env n.app call
  generalize (n.app.rpc P env call).1 = t at hw h
  cases hw with
  | created _ ht =>
    rw [(channels_storeCreated env _ _ _).1] at h
    rcases ht with rfl | rfl <;> exact absurd h hx
  | invited _ _ ht =>
    obtain ⟨hchannels, -⟩ := channels_storeInvited (P := P) env n.app _ _ _ _
    rcases ht with rfl | ⟨fp, rfl⟩ <;> exact absurd ((congrArg (x ∈ ·) hchannels).mp h) hx
  | updated _ _ _ ht => rcases ht with rfl | ⟨fp, rfl⟩ <;> exact absurd h hx
  | left _ => exact absurd ((removeCommunityLocal_kept n.app _ x).mem h) hx
  | deleted _ _ => exact absurd ((removeCommunityLocal_kept n.app _ x).mem h) hx
  | @channelCreated p old ulid hname hold hulid =>
    rcases (AList.mem_insert _).mp h with rfl | h
    · exact ⟨old, ulid, hname, hold, hulid, rfl⟩
    · exact absurd h hx
  | channelErased _ _ _ => exact absurd (AList.mem_erase.mp h).2 hx
  | channelDeleted _ _ _ _ => exact absurd (AList.mem_erase.mp h).2 hx
  | rotated _ hch =>
    have hkept : x ∈ (storeRotation _ _ _ _).channels := h
    rw [channels_storeRotation] at hkept
    exact absurd ((Dict.mem_insert_of_lookup hch _).mp hkept) hx
  | _ => exact absurd h hx

theorem rpc_channelCreate {s : AppState} {env : Env} {p : CreateChannelParams}
    {old : SignedManifest} {ulid : Ulid} (hname : validName p.name = true)
    (hold : s.communities.lookup p.communityId = some old)
    (hulid : parseUlid p.communityId = some ulid) :
    (s.rpc P env (.channelCreate p)).1 =
      s.storeChannelCreated P p.communityId old (s.newChannel P env p ⟨ulid⟩) (env.key 0) := by
  dsimp only [rpc, channelCreate]
  rw [hname, hold, hulid]
  rfl

theorem mem_of_putsBack (h : PutsBack P n x i) : x ∈ (n.step P i).app.channels := by
  cases i with
  | event env e => exact mem_event_of_putsBack h
  | rpc env call =>
    cases call with
    | channelCreate p =>
      obtain ⟨old, ulid, hname, hold, hulid, rfl⟩ := h
      change _ ∈ (n.app.rpc P env (.channelCreate p)).1.channels
      rw [rpc_channelCreate hname hold hulid]
      exact (AList.mem_insert _).mpr (.inl rfl)
    | _ => cases h
  | _ => cases h

theorem mem_step_iff (hx : Gone n.app x) :
    x ∈ (n.step P i).app.channels ↔ PutsBack P n x i := by
  constructor
  · intro h
    cases i with
    | event env e => exact putsBack_of_mem_event hx.table h
    | rpc env call => exact putsBack_of_mem_rpc hx.table h
    | connect conn => exact hx.table h
    | request conn env remote req =>
      change x ∈ (n.handleRequest P conn env remote req).app.channels at h
      unfold Node.handleRequest at h
      cases hst : n.app.nodeStore <;> rw [hst] at h <;> exact hx.table h
    | restart dht => exact ((mem_channels_restart.mp h).elim hx.store hx.file).elim
  · exact mem_of_putsBack

/-! ### Inputs that leave a copy -/

theorem leavesCopy_of_event {env : Env}
    (hx : ¬ n.app.Offers x ∨ MayDrop P n x (.event env e))
    (hgone : x ∉ (n.app.processEvent P env e).channels)
    (h : (n.app.processEvent P env e).Offers x) : LeavesCopy P n x (.event env e) := by
  have hw := processEvent_write (P := P) env n.app e
  generalize hprocessed : n.app.processEvent P env e = t at hw h hgone
  have hsame : SameOffers x n.app t → x ∉ n.app.channels → LeavesCopy P n x (.event env e) :=
    fun hsame hnot => (hx.elim (fun hx => hx (hsame.offers_iff.mp h)) fun hx => hnot hx.2).elim
  have hresponse : ∀ {m}, e = .manifestReceived m → n.app.blocked = false →
      LeavesCopy P n x (.event env e) := by
    rintro m rfl hb
    rw [← hprocessed, processEvent_received env m hb] at h hgone
    exact ⟨hb, (offers_handleManifestReceived hb (hx.imp_right fun h => h.2) hgone).mp h⟩
  clear hprocessed
  cases hw with
  | aside => exact hsame (.of_store rfl) hgone
  | channel _ _ _ hw =>
    have hnot := fun hx => hgone (hw.mem_channels.mpr hx)
    exact hsame (hw.sameOffers hnot) hnot
  | @community _ _ _ ev _ hs htopic hcommunity hd hw =>
    cases ev with
    | manifestUpdate new =>
      cases hw with
      | @removed _ current _ _ hnewer hdeleted =>
        refine ⟨hs, htopic, hcommunity, new, current, hd, hnewer, ?_⟩
        rw [hdeleted]
        exact (offers_removed hnewer).mp h
      | @updated _ current _ hnewer hlive =>
        refine ⟨hs, htopic, hcommunity, new, current, hd, hnewer, ?_⟩
        rw [hlive]
        exact (offers_applyManifestUpdate _ _ _).mp h
    | _ =>
      obtain ⟨hnot, hw⟩ := hw.sameOffers (fun _ heq => by cases heq) hgone
      exact hsame hw hnot
  | tombstone hs _ _ => exact hresponse rfl hs
  | stalled hs _ _ _ => exact hresponse rfl hs
  | received hs _ _ _ => exact hresponse rfl hs
  | history _ =>
    exact hsame (.of_storedMeta? fun pk => storedMeta?_handleChannelHistoryReceived _ _ _ _ pk)
      hgone
  | hosted _ _ _ _ => exact hsame (.of_store rfl) hgone
  | awaited _ _ _ _ => exact hsame (.of_store rfl) hgone
  | failed _ =>
    refine absurd h (not_offers_removeCommunityLocal _ (hx.resolve_right fun h => ?_))
    cases h.1

theorem offers_event_iff {env : Env}
    (hx : ¬ n.app.Offers x ∨ MayDrop P n x (.event env e))
    (hgone : x ∉ (n.app.processEvent P env e).channels) :
    (n.app.processEvent P env e).Offers x ↔ LeavesCopy P n x (.event env e) := by
  refine ⟨leavesCopy_of_event hx hgone, fun h => ?_⟩
  cases e with
  | messageReceived topic data source =>
    obtain ⟨hb, htopic, hcommunity, new, current, hd, hnewer, h⟩ := h
    have hhandled : n.app.processEvent P env (.messageReceived topic data source) =
        n.app.handleManifestUpdate P new source := by
      unfold processEvent handleCommunityMessage
      rw [hb, if_neg (by decide)]
      dsimp only
      rw [htopic, if_neg (by decide), hcommunity, if_pos rfl, hd]
    obtain ⟨commands, pushes, hupdated⟩ := handleManifestUpdate_of_newer source hnewer
    rw [hhandled, hupdated]
    split at h
    · next hdeleted =>
      rw [if_pos hdeleted]
      exact (offers_removed hnewer).mpr h
    · next hlive =>
      rw [if_neg hlive]
      exact (offers_applyManifestUpdate _ _ _).mpr h
  | manifestReceived m =>
    obtain ⟨hb, h⟩ := h
    rw [processEvent_received env m hb] at hgone ⊢
    exact (offers_handleManifestReceived hb (hx.imp_right fun h => h.2) hgone).mpr h
  | _ => cases h

/-! ### Calls that leave a copy -/

theorem leavesCopy_of_rpc {env : Env} (hx : ¬ n.app.Offers x)
    (hgone : x ∉ (n.app.rpc P env call).1.channels) (h : (n.app.rpc P env call).1.Offers x) :
    LeavesCopy P n x (.rpc env call) := by
  have hw := rpc_write (P := P) env n.app call
  generalize (n.app.rpc P env call).1 = t at hw h hgone
  have hsame : SameOffers x n.app t → LeavesCopy P n x (.rpc env call) :=
    fun hsame => absurd (hsame.offers_iff.mp h) hx
  cases hw with
  | @created p t fp _ ht =>
    rcases ht with rfl | rfl <;> exact absurd h ((fewer_storeCreated env _ p fp).not_offers hx)
  | @invited p _ _ _ _ _ _ _ ht =>
    refine hsame (.of_store ?_)
    rcases ht with rfl | ⟨fp, rfl⟩ <;> unfold storeInvited putPassword <;>
      cases p.hostingPassword <;> rfl
  | left _ => exact absurd h (not_offers_removeCommunityLocal _ hx)
  | deleted _ _ => exact absurd h (not_offers_removeCommunityLocal _ hx)
  | updated _ _ _ ht => rcases ht with rfl | ⟨fp, rfl⟩ <;> exact hsame (.of_store rfl)
  | @channelCreated p old ulid hname hold hulid =>
    have hne : x ≠ (n.app.newChannel P env p ⟨ulid⟩).id.text := by
      rintro rfl
      exact hgone ((AList.mem_insert _).mpr (.inl rfl))
    exact ⟨old, ulid, hname, hold, hulid, ((offers_storeChannelCreated hne).mp h).resolve_left hx⟩
  | channelDeleted _ _ _ _ =>
    exact absurd h ((fewer_storeChannelDeleted n.app _ _ _ _).not_offers hx)
  | @rotated p ch _ _ hseed hch => exact ⟨ch, hseed, hch, (offers_rotated rfl hx).mp h⟩
  | @reordered p old order hseed hreorder horder hold =>
    exact ⟨old, order, Option.or_eq_none_iff.mpr ⟨hseed, hreorder⟩, horder, hold,
      ((offers_storeReordered p old order).mp h).resolve_left hx⟩
  | sent _ _ _ _ => exact hsame (.of_storedMeta? fun pk => storedMeta?_storeMessage n.app _ _ pk)
  | reactionAdded _ =>
    exact hsame (.of_storedMeta? fun pk => storedMeta?_storeMessage n.app _ _ pk)
  | reactionRemoved _ =>
    exact hsame (.of_storedMeta? fun pk => storedMeta?_storeMessage n.app _ _ pk)
  | _ => exact hsame (.of_store rfl)

theorem offers_rpc_iff {env : Env} (hx : ¬ n.app.Offers x)
    (hgone : x ∉ (n.app.rpc P env call).1.channels) :
    (n.app.rpc P env call).1.Offers x ↔ LeavesCopy P n x (.rpc env call) := by
  refine ⟨leavesCopy_of_rpc hx hgone, fun h => ?_⟩
  cases call with
  | channelCreate p =>
    obtain ⟨old, ulid, hname, hold, hulid, h⟩ := h
    rw [rpc_channelCreate hname hold hulid] at hgone ⊢
    refine (offers_storeChannelCreated ?_).mpr (.inr h)
    rintro rfl
    exact hgone ((AList.mem_insert _).mpr (.inl rfl))
  | channelReorder p =>
    obtain ⟨old, order, hrefusal, horder, hold, h⟩ := h
    have hreordered : (n.app.rpc P env (.channelReorder p)).1 =
        n.app.storeReordered P p old order := by
      dsimp only [rpc, channelReorder]
      rw [hrefusal, horder, hold]
    rw [hreordered]
    exact (offers_storeReordered p old order).mpr (.inr h)
  | channelRotateKey p =>
    obtain ⟨ch, hseed, hch, h⟩ := h
    have hrotated := (offers_rotated (t := ((n.app.putKey p.channelId (env.key 0)).putChannelEntry
      p.channelId (n.app.rotatedChannel P env p ch)).storeRotation p
        (n.app.rotatedChannel P env p ch) (env.key 0)) rfl hx).mpr h
    dsimp only [rpc, channelRotateKey]
    rw [hseed, hch]
    exact hrotated
  | _ => cases h

/-! ### Steps -/

theorem offers_request_iff {conn : Nat} {env : Env} {remote : NodeAddr} {req : ClientRequest}
    (hx : ¬ n.app.Offers x) :
    (n.handleRequest P conn env remote req).app.Offers x ↔
      LeavesCopy P n x (.request conn env remote req) := by
  cases req with
  | pushManifest cpk manifest channels channelKeys members => exact offers_pushManifest hx
  | _ =>
    refine iff_of_false (fun h => hx ?_) id
    exact (offers_handleRequest fun _ _ _ _ _ heq => by cases heq).offers_iff.mp h

theorem offers_restart : SameOffers x n.app (n.app.restart P) :=
  .of_map rfl fun _ _ => NodeStore.offersAt_mergeMembers n.app.files

/-- What the store offers after a step, of a channel that it did not offer or that the step
drops. -/
theorem offers_step_iff (hgone : x ∉ (n.step P i).app.channels)
    (hx : ¬ n.app.Offers x ∨ MayDrop P n x i) :
    (n.step P i).app.Offers x ↔ LeavesCopy P n x i := by
  cases i with
  | event env e => exact offers_event_iff hx hgone
  | rpc env call => exact offers_rpc_iff (hx.resolve_right id) hgone
  | connect conn => exact iff_of_false (hx.resolve_right id) id
  | request conn env remote req => exact offers_request_iff (hx.resolve_right id)
  | restart dht =>
    exact iff_of_false (fun h => hx.resolve_right id (offers_restart.offers_iff.mp h)) id

theorem follow_step (hi : ∀ dht, i ≠ .restart dht) : ChannelsFollow n.app (n.step P i).app := by
  cases i with
  | event env e => exact follow_processEvent env n.app e
  | rpc env call => exact follow_rpc env n.app call
  | connect conn => exact .refl n.app
  | request conn env remote req =>
    show ChannelsFollow n.app (n.handleRequest P conn env remote req).app
    unfold Node.handleRequest
    cases n.app.nodeStore <;> exact .of_eq rfl rfl
  | restart dht => exact absurd rfl (hi dht)

end

/-- A node, with the channels that a manifest removed from its table, each with the community of
the manifest, as long as no later manifest of the community lists it. -/
structure Drops where
  node : Node
  dropped : List (String × String)

section

variable (P : Prims)

def NodeInput.carried : NodeInput → Option SignedManifest
  | .event _ e => carriedManifest P e
  | .request _ _ _ (.pushManifest _ manifest _ _ _) => some manifest
  | _ => none

def droppedBy (n : Node) (i : NodeInput) : List (String × String) :=
  match i with
  | .event _ e =>
    match carriedManifest P e with
    | some signed =>
      (n.app.channels.keys.filter fun x => decide (x ∉ (n.step P i).app.channels)).map
        fun x => (signed.manifest.id.text, x)
    | none => []
  | _ => []

/-- The input carries a valid manifest of the community that lists the channel, or the node has
one afterwards. -/
def listedAgain (n : Node) (i : NodeInput) (d : String × String) : Bool :=
  ((i.carried P).any fun signed => signed.verify P && decide (signed.manifest.id.text = d.1) &&
    decide (signed.manifest.Lists d.2)) ||
  ((n.step P i).app.communities.lookup d.1).any fun signed => decide (signed.manifest.Lists d.2)

def Drops.step (t : Drops) (i : NodeInput) : Drops :=
  ⟨t.node.step P i,
    (t.dropped.filter fun d => !listedAgain P t.node i d) ++ droppedBy P t.node i⟩

def Drops.StayGone (t : Drops) : Prop :=
  ∀ d ∈ t.dropped, d.2 ∉ (t.node.app.restart P).channels

/-- The condition on one input: it puts no dropped channel into the table, and leaves no copy of
one in the store. -/
def KeepsGone (t : Drops) (i : NodeInput) : Prop :=
  ∀ d ∈ (t.step P i).dropped, ¬ PutsBack P t.node d.2 i ∧ ¬ LeavesCopy P t.node d.2 i

end

section

variable {P : Prims} {n : Node} {i : NodeInput} {x : String} {s : AppState} {d : String × String}

theorem Gone.notMem_restart (h : Gone s x) : x ∉ (s.restart P).channels :=
  fun hx => (mem_channels_restart.mp hx).elim h.store h.file

theorem MayDrop.mem (h : MayDrop P n x i) : x ∈ n.app.channels := by
  cases i with
  | event env e => exact h.2
  | _ => cases h

theorem of_mem_droppedBy (h : d ∈ droppedBy P n i) :
    d.2 ∉ (n.step P i).app.channels ∧ MayDrop P n d.2 i := by
  cases i with
  | event env e =>
    unfold droppedBy at h
    dsimp only at h
    cases hcarried : carriedManifest P e with
    | none =>
      rw [hcarried] at h
      cases h
    | some signed =>
      rw [hcarried] at h
      obtain ⟨y, hy, rfl⟩ := List.mem_map.mp h
      obtain ⟨hmem, hgone⟩ := List.mem_filter.mp hy
      exact ⟨of_decide_eq_true hgone, by rw [hcarried]; rfl, hmem⟩
  | _ => cases h

/-- A step keeps a channel away, or drops it for good, exactly if it neither puts it into the table
nor leaves a copy. -/
theorem gone_step_iff (hx : Gone n.app x ∨ x ∉ (n.step P i).app.channels ∧ MayDrop P n x i) :
    Gone (n.step P i).app x ↔ ¬ PutsBack P n x i ∧ ¬ LeavesCopy P n x i := by
  have htable : x ∈ (n.step P i).app.channels ↔ PutsBack P n x i := by
    rcases hx with hx | hx
    · exact mem_step_iff hx
    · exact iff_of_false hx.1 fun h => hx.1 (mem_of_putsBack h)
  rw [← htable]
  have hoffers (hgone : x ∉ (n.step P i).app.channels) :
      (n.step P i).app.Offers x ↔ LeavesCopy P n x i :=
    offers_step_iff hgone (hx.imp (fun h => h.store) fun h => h.2)
  constructor
  · exact fun h => ⟨h.table, fun hcopy => h.store ((hoffers h.table).mpr hcopy)⟩
  · rintro ⟨hgone, hcopy⟩
    refine ⟨hgone, ?_, fun h => hcopy ((hoffers hgone).mp h)⟩
    by_cases hi : ∃ dht, i = .restart dht
    · obtain ⟨dht, rfl⟩ := hi
      exact (hx.resolve_right fun h => h.2).file
    · refine (follow_step fun dht heq => hi ⟨dht, heq⟩).notMem_file hgone ?_
      rcases hx with hx | ⟨-, hdrop⟩
      · exact .inr hx.file
      · exact .inl hdrop.mem

/-- A channel that comes back into the table is there after a restart too. -/
theorem notMem_step_of_notMem_restart (hx : Gone n.app x)
    (hrestart : x ∉ ((n.step P i).app.restart P).channels) : x ∉ (n.step P i).app.channels := by
  by_cases hi : ∃ dht, i = .restart dht
  · obtain ⟨dht, rfl⟩ := hi
    exact hx.notMem_restart
  · intro hmem
    refine hrestart (mem_channels_restart.mpr (.inr ?_))
    exact (follow_step fun dht heq => hi ⟨dht, heq⟩).mem_file hx.table hmem

theorem gone_of_notMem_restart (htable : x ∉ s.channels)
    (h : x ∉ (s.restart P).channels) : Gone s x := by
  rw [mem_channels_restart, not_or] at h
  exact ⟨htable, h.2, h.1⟩

theorem of_mem_dropped_step {t : Drops} (ht : ∀ d ∈ t.dropped, Gone t.node.app d.2)
    (h : d ∈ (t.step P i).dropped) :
    Gone t.node.app d.2 ∨ d.2 ∉ (t.node.step P i).app.channels ∧ MayDrop P t.node d.2 i := by
  rcases List.mem_append.mp h with h | h
  · exact .inl (ht d (List.mem_of_mem_filter h))
  · exact .inr (of_mem_droppedBy h)

end

/-- In every run of a node, no channel that a manifest removed from the table is there after a
restart, until a later manifest of the community lists it, if and only if no input puts such a
channel back into the table, and none leaves metadata with a manifest in the store that have a copy
of it. -/
theorem dropped_stays_gone_iff (P : Prims) (n : Node) (is : List NodeInput) :
    (∀ pre, pre <+: is → (run (Drops.step P) ⟨n, []⟩ pre).StayGone P) ↔
      Along (Drops.step P) (KeepsGone P) ⟨n, []⟩ is := by
  refine forall_prefix_iff_along_of_inductive (H := fun _ _ => True)
    (J := fun t : Drops => ∀ d ∈ t.dropped, Gone t.node.app d.2)
    (fun t ht d hd => (ht d hd).notMem_restart) ?_ ?_ (fun d hd => by cases hd)
    (along_of_forall fun _ _ _ => trivial)
  · intro t i _ ht hkeeps d hd
    exact (gone_step_iff (of_mem_dropped_step ht hd)).mpr (hkeeps d hd)
  · intro t i _ ht hstay d hd
    have hx := of_mem_dropped_step ht hd
    have htable : d.2 ∉ (t.node.step P i).app.channels := by
      rcases hx with hx | hx
      · exact notMem_step_of_notMem_restart hx (hstay d hd)
      · exact hx.1
    exact (gone_step_iff hx).mp (gone_of_notMem_restart htable (hstay d hd))

/-! ## A channel that comes back -/

namespace Sample

/-- A node with a store that has no community yet. -/
def newNode : Node := node { app 20 with nodeStore := some (NodeStore.create none) }

/-- The answer of a peer while the community has one channel. -/
def listingResponse : ManifestReceived where
  source := ""
  manifest := listing
  channels := [channel]
  channelKeys := ∅
  members := []

def droppingPrims : Prims := prims [.manifestUpdate dropping] []

/-- The node fetches the manifest, and later gets the update without the channel. -/
def fetchAndDrop : List NodeInput :=
  [.event env (.manifestReceived listingResponse), .event (gossipEvent 0).1 (gossipEvent 0).2]

end Sample

open Sample in
/-- A manifest update removes the channel of a fetched manifest, and the next start brings it
back. -/
theorem dropped_channel_returns :
    (run (Drops.step droppingPrims) ⟨newNode, []⟩ fetchAndDrop).dropped =
        [(community.text, channel.id.text)] ∧
      channel.id.text ∉ (run (Node.step droppingPrims) newNode fetchAndDrop).app.channels ∧
      ¬ (run (Drops.step droppingPrims) ⟨newNode, []⟩ fetchAndDrop).StayGone droppingPrims := by
  refine ⟨by decide +kernel, by decide +kernel, fun h => ?_⟩
  exact h (community.text, channel.id.text) (by decide +kernel) (by decide +kernel)

end BitCord
