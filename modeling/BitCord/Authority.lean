import BitCord.Authenticity

/-!
# Authority over communities and channels

A community is its key, and only the holder of the key may change its channels. The node takes
the key of a community from the manifest it verifies with it, and it takes channel manifests and
channel keys from broadcasts and from fetched manifests that nobody signed
(`community_key_pinned`, `channel_authority`).
-/

namespace BitCord

open Lib Lib.Run AppState

variable {d : Dict String ChannelManifest} {c x : String} {ch ch₀ : ChannelManifest}
  {s t u s' : AppState} {ev : NetworkEvent} {i : Env × SwarmEvent} {signed : SignedManifest}
  {k pk : Key} {channels : List ChannelManifest}

/-- What a member of the community relies on in a channel manifest, besides the wrapped keys. -/
def ChannelManifest.core (ch : ChannelManifest) : CommunityId × ChannelKind × UInt64 :=
  (ch.communityId, ch.kind, ch.version)

/-- The events of a run: gossip and fetched manifests. -/
inductive ManifestEvent : SwarmEvent → Prop
  | gossip {topic : String} {data : Bytes} {source : Option String} :
      ManifestEvent (.messageReceived topic data source)
  | received {m : ManifestReceived} : ManifestEvent (.manifestReceived m)

namespace AppState

/-- The channels of `d'` are those of `d`, up to wrapped keys. -/
def SameCores (d d' : Dict String ChannelManifest) : Prop :=
  ∀ x ch', d'.lookup x = some ch' → ∃ ch, d.lookup x = some ch ∧ ch'.core = ch.core

theorem SameCores.refl (d : Dict String ChannelManifest) : SameCores d d :=
  fun _ ch h => ⟨ch, h, rfl⟩

theorem SameCores.trans {d' d'' : Dict String ChannelManifest} (h : SameCores d d')
    (h' : SameCores d' d'') : SameCores d d'' := by
  intro x ch'' hx
  obtain ⟨ch', hx', hcore'⟩ := h' x ch'' hx
  obtain ⟨ch, hx, hcore⟩ := h x ch' hx'
  exact ⟨ch, hx, hcore'.trans hcore⟩

theorem SameCores.insert {ch' : ChannelManifest}
    (hx : d.lookup x = some ch) (hcore : ch'.core = ch.core) : SameCores d (d.insert x ch') := by
  intro y ch₁ hy
  rw [Dict.lookup_insert_eq] at hy
  split at hy
  · next h =>
    subst h
    cases hy
    exact ⟨ch, hx, hcore⟩
  · exact ⟨ch₁, hy, rfl⟩

/-! ## Channels and their keys -/

/-- The channel is as before, or gone, and so is its key. -/
structure ChannelKept (s s' : AppState) (x : String) : Prop where
  channel : ∀ ch', s'.channels.lookup x = some ch' →
    ∃ ch, s.channels.lookup x = some ch ∧ ch'.core = ch.core
  key : ∀ k, s'.channelKeys.lookup x = some k → s.channelKeys.lookup x = some k

theorem ChannelKept.trans (h : ChannelKept s t x) (h' : ChannelKept t u x) : ChannelKept s u x := by
  refine ⟨fun ch'' hx => ?_, fun k hk => h.key k (h'.key k hk)⟩
  obtain ⟨ch', hx', hcore'⟩ := h'.channel ch'' hx
  obtain ⟨ch, hx, hcore⟩ := h.channel ch' hx'
  exact ⟨ch, hx, hcore'.trans hcore⟩

theorem SameCores.kept (h : SameCores s.channels s'.channels)
    (hkeys : s'.channelKeys = s.channelKeys) (x : String) : ChannelKept s s' x :=
  ⟨h x, fun k hk => by rw [← hkeys]; exact hk⟩

/-- Neither the table of channels nor that of keys changes. -/
theorem ChannelKept.of_eq (hchannels : s'.channels = s.channels)
    (hkeys : s'.channelKeys = s.channelKeys) (x : String) : ChannelKept s s' x :=
  SameCores.kept (by rw [hchannels]; exact .refl s.channels) hkeys x

theorem removeCommunityLocal_kept (s : AppState) (c x : String) :
    ChannelKept s (s.removeCommunityLocal c) x := by
  refine ⟨fun ch h => ?_, fun k h => ?_⟩
  · have herase : (s.channels.eraseAll (channelIdsOf s.toTables c)).lookup x = some ch := h
    rw [Dict.lookup_eraseAll] at herase
    split at herase
    · cases herase
    · exact ⟨ch, herase, rfl⟩
  · have herase : (s.channelKeys.eraseAll (channelIdsOf s.toTables c)).lookup x = some k := h
    rw [Dict.lookup_eraseAll] at herase
    split at herase
    · cases herase
    · exact herase

section

variable {P : Prims}

/-! ### Wrapping keys -/

theorem sameCores_wrapForJoinerStep (env : Env) (keys : Dict String Key)
    (record : MembershipRecord) (acc : Dict String ChannelManifest × List NetworkCommand)
    (channel : String × Nat) :
    SameCores acc.1 (wrapForJoinerStep P env keys record acc channel).1 := by
  unfold wrapForJoinerStep
  split
  · next key ch _ hch =>
    split
    · exact .refl acc.1
    · exact .insert hch rfl
  · exact .refl acc.1

theorem sameCores_wrapForJoiner (env : Env) (s : AppState) (record : MembershipRecord) :
    SameCores s.channels (wrapForJoiner P env s record).1 := by
  unfold wrapForJoiner
  split
  · split
    · next signed _ _ =>
      -- the loop over the channels of the manifest
      generalize (signed.manifest.channelIds.map fun ch => ch.text).zipIdx = l
      have hloop : ∀ acc : Dict String ChannelManifest × List NetworkCommand,
          SameCores acc.1 (l.foldl (wrapForJoinerStep P env s.channelKeys record) acc).1 := by
        induction l with
        | nil => exact fun acc => .refl acc.1
        | cons channel l ih =>
          intro acc
          exact (sameCores_wrapForJoinerStep env _ record acc channel).trans (ih _)
      exact hloop (s.channels, [])
    · exact .refl s.channels
  · exact .refl s.channels

theorem core_foldl_wrapForMemberStep (env : Env) (key : Key) (records : List MembershipRecord)
    (acc : ChannelManifest × Nat) :
    (records.foldl (wrapForMemberStep P env key) acc).1.core = acc.1.core := by
  induction records generalizing acc with
  | nil => rfl
  | cons record records ih =>
    have hstep : (wrapForMemberStep P env key acc record).1.core = acc.1.core := by
      unfold wrapForMemberStep
      split <;> rfl
    exact (ih _).trans hstep

theorem sameCores_wrapChannelStep (env : Env) (s : AppState) (c : String) (acc : WrapLoop)
    (x : String) : SameCores acc.channels (wrapChannelStep P env s c acc x).channels := by
  unfold wrapChannelStep
  split
  · next key ch _ hch =>
    dsimp only
    split
    · exact .refl acc.channels
    · exact .insert hch (core_foldl_wrapForMemberStep env key _ (ch, acc.draws))
  · exact .refl acc.channels

theorem sameCores_wrapLoop (env : Env) (s : AppState) (m : ManifestReceived) :
    SameCores s.channels (wrapLoop P env s m).channels := by
  have hloop : ∀ (l : List String) (acc : WrapLoop),
      SameCores acc.channels (l.foldl (wrapChannelStep P env s m.communityId) acc).channels := by
    intro l
    induction l with
    | nil => exact fun acc => .refl acc.channels
    | cons x l ih => exact fun acc => (sameCores_wrapChannelStep env s _ acc x).trans (ih _)
  exact hloop m.channelIds ⟨s.channels, [], 0⟩

/-- The communities, the keys and what waits are the same, and channels differ in their wrapped
keys only. -/
structure Quiet (s s' : AppState) : Prop where
  communities : s'.communities = s.communities
  channels : SameCores s.channels s'.channels
  channelKeys : s'.channelKeys = s.channelKeys
  pendingRotation : s'.pendingRotation = s.pendingRotation

theorem Quiet.trans (h : Quiet s t) (h' : Quiet t u) : Quiet s u where
  communities := h'.communities.trans h.communities
  channels := h.channels.trans h'.channels
  channelKeys := h'.channelKeys.trans h.channelKeys
  pendingRotation := h'.pendingRotation.trans h.pendingRotation

theorem Quiet.kept (h : Quiet s s') (x : String) : ChannelKept s s' x :=
  h.channels.kept h.channelKeys x

theorem settleManifest_quiet (env : Env) (s : AppState) (m : ManifestReceived)
    (rotated : List String) (b : Bool) : Quiet s (s.settleManifest P env m rotated b) := by
  refine settleManifest_rel (fun s _ _ => ⟨rfl, .refl s.channels, rfl, rfl⟩) .trans
    (fun s => ⟨rfl, .refl s.channels, rfl, rfl⟩)
    (fun env s _ => ⟨rfl, sameCores_wrapLoop env s m, rfl, rfl⟩) ?_ env s rotated b
  intro env s roles s' h
  cases h with
  | joined => exact ⟨rfl, sameCores_wrapForJoiner env s _, rfl, rfl⟩

/-! ### Buffered messages -/

/-- Only new messages wait for the key of their channel. -/
def OnlyMessagesBuffered (P : Prims) (s : AppState) : Prop :=
  ∀ x buf, s.pendingRotation.lookup x = some buf → ∀ msg ∈ buf,
    ∃ raw, P.decodeEvent msg.2 = some (.newMessage raw)

theorem OnlyMessagesBuffered.of_sub (h : OnlyMessagesBuffered P s)
    (hsub : ∀ x buf, s'.pendingRotation.lookup x = some buf →
      s.pendingRotation.lookup x = some buf) : OnlyMessagesBuffered P s' :=
  fun x buf hx => h x buf (hsub x buf hx)

/-- Of what comes on a channel topic only new messages wait. -/
theorem ChannelWrite.onlyMessagesBuffered (hw : ChannelWrite P false s ev s')
    (h : OnlyMessagesBuffered P s) : OnlyMessagesBuffered P s' := by
  cases hw with
  | @buffered raw topic data _ hd =>
    intro x buf hx msg hmsg
    rw [Dict.lookup_adjust] at hx
    split at hx
    · obtain ⟨old, hold, rfl⟩ := Option.map_eq_some_iff.mp hx
      rcases List.mem_append.mp hmsg with hmsg | hmsg
      · exact h _ old hold msg hmsg
      · rw [List.mem_singleton.mp hmsg]
        exact ⟨raw, hd⟩
    · exact h x buf hx msg hmsg
  | @rotated payload =>
    intro x buf hx msg hmsg
    have hx : (s.pendingRotation.orInsert payload.newManifest.id.text []).lookup x = some buf := hx
    rw [Dict.lookup_orInsert] at hx
    split at hx
    · cases hold : s.pendingRotation.lookup payload.newManifest.id.text with
      | none =>
        rw [hold] at hx
        cases hx
        cases hmsg
      | some old =>
        rw [hold] at hx
        cases hx
        exact h _ old hold msg hmsg
    · exact h x buf hx msg hmsg
  | _ => exact h

/-- The tables are the same, and nothing more is buffered. -/
structure TablesKept (s s' : AppState) : Prop where
  toTables : s'.toTables = s.toTables
  pendingRotation : ∀ x buf, s'.pendingRotation.lookup x = some buf →
    s.pendingRotation.lookup x = some buf

theorem TablesKept.trans (h : TablesKept s t) (h' : TablesKept t u) : TablesKept s u :=
  ⟨h'.toTables.trans h.toTables,
    fun x buf hx => h.pendingRotation x buf (h'.pendingRotation x buf hx)⟩

/-- The replay of new messages changes no table. -/
theorem afterReplay_tablesKept (m : ManifestReceived)
    (hbuf : OnlyMessagesBuffered P s) : TablesKept (s.receiveTables P m) (s.afterReplay P m) := by
  refine afterReplay_rel (fun _ _ => ⟨rfl, fun _ _ h => h⟩) .trans ?_ ?_ m
  · rintro t ev t' ⟨x, buf, hx, msg, hmsg, hd⟩ hw
    obtain ⟨raw, hraw⟩ := hbuf x buf hx msg hmsg
    cases hd.symm.trans hraw
    cases hw with
    | buffered h => cases h
    | logged => exact ⟨rfl, fun _ _ h => h⟩
    | stalled => exact ⟨rfl, fun _ _ h => h⟩
  · refine fun t x => ⟨rfl, fun y buf hy => ?_⟩
    dsimp only at hy
    rw [Dict.lookup_erase_eq] at hy
    split at hy
    · cases hy
    · exact hy

/-- Gossip and fetched manifests buffer new messages only. -/
theorem eventStep_buffered (hin : ManifestEvent i.2)
    (h : OnlyMessagesBuffered P s) : OnlyMessagesBuffered P (eventStep P s i) := by
  obtain ⟨env, e⟩ := i
  have hreplay : ∀ m, OnlyMessagesBuffered P (s.afterReplay P m) := fun m =>
    h.of_sub (afterReplay_tablesKept m h).pendingRotation
  have hw := processEvent_write (P := P) env s e
  change OnlyMessagesBuffered P (s.processEvent P env e)
  generalize s.processEvent P env e = s' at hw
  cases hw with
  | channel _ _ _ hw => exact hw.onlyMessagesBuffered h
  | community _ _ _ _ hw => cases hw <;> exact h
  | @stalled m => exact hreplay m
  | @received m =>
    exact (hreplay m).of_sub fun x buf hx => by
      rw [← (settleManifest_quiet env _ m _ _).pendingRotation]
      exact hx
  | _ => exact h

/-! ## The table of communities -/

/-- A `ManifestUpdate` that the node takes: signed by the key in it, newer than the manifest of
the community it names, and not a tombstone. -/
structure UpdateTaken (P : Prims) (s : AppState) (new : SignedManifest) : Prop where
  verified : new.verify P = true
  newer : ∃ current, s.communities.lookup new.manifest.id.text = some current ∧
    current.manifest.version < new.manifest.version
  live : new.manifest.deleted = false

/-- The table of communities after a manifest is taken: a tombstone removes its community. -/
def takeManifest (communities : Dict String SignedManifest) (new : SignedManifest) :
    Dict String SignedManifest :=
  if new.manifest.deleted then communities.erase new.manifest.id.text
  else communities.insert new.manifest.id.text new

theorem lookup_takeManifest (communities : Dict String SignedManifest) (new : SignedManifest)
    (c : String) :
    (takeManifest communities new).lookup c =
      if c = new.manifest.id.text then
        if new.manifest.deleted then none else some new
      else communities.lookup c := by
  unfold takeManifest
  cases new.manifest.deleted with
  | true => exact Dict.lookup_erase_eq communities _ c
  | false => exact Dict.lookup_insert_eq communities _ c new

theorem of_lookup_takeManifest {communities : Dict String SignedManifest} {new : SignedManifest}
    (h : (takeManifest communities new).lookup c = some signed) :
    communities.lookup c = some signed ∨
      (new.manifest.deleted = false ∧ new.manifest.id.text = c ∧ new = signed) := by
  rw [lookup_takeManifest] at h
  split at h
  · next hc =>
    cases hdel : new.manifest.deleted with
    | true => rw [hdel] at h; cases h
    | false =>
      rw [hdel] at h
      exact .inr ⟨rfl, hc.symm, Option.some.inj h⟩
  · exact .inl h

/-- Gossip on a community topic leaves the table of communities alone, or is a `ManifestUpdate`
that is taken. -/
theorem CommunityWrite.communities {env : Env} (hw : CommunityWrite P env s ev s') :
    s'.communities = s.communities ∨
      ∃ new current, ev = .manifestUpdate new ∧ NewerUpdate P s new current ∧
        s'.communities = takeManifest s.communities new := by
  cases hw with
  | @removed new current _ _ hnewer hdeleted =>
    exact .inr ⟨new, current, rfl, hnewer, (if_pos hdeleted).symm⟩
  | @updated new current _ hnewer hlive =>
    exact .inr ⟨new, current, rfl, hnewer, (if_neg (by rw [hlive]; decide)).symm⟩
  | _ => exact .inl rfl

theorem communities_gossip (env : Env) (s : AppState) (topic : String) (data : Bytes)
    (source : Option String) :
    (s.processEvent P env (.messageReceived topic data source)).communities = s.communities ∨
      ∃ new current, P.decodeEvent data = some (.manifestUpdate new) ∧
        NewerUpdate P s new current ∧
        (s.processEvent P env (.messageReceived topic data source)).communities =
          takeManifest s.communities new := by
  have hw := processEvent_write (P := P) env s (.messageReceived topic data source)
  generalize s.processEvent P env (.messageReceived topic data source) = s' at hw
  cases hw with
  | aside => exact .inl rfl
  | channel _ _ _ hw => exact .inl hw.frame.communities
  | community _ _ _ hd hw =>
    refine hw.communities.imp_right ?_
    rintro ⟨new, current, rfl, h⟩
    exact ⟨new, current, hd, h⟩

/-- A fetched manifest is taken if it verifies. The replay changes no table of communities,
whatever is buffered. -/
theorem communities_handleManifestReceived (env : Env) (s : AppState) (m : ManifestReceived) :
    (s.handleManifestReceived P env m).communities =
      if m.manifest.verify P then takeManifest s.communities m.manifest else s.communities := by
  unfold takeManifest
  cases hverify : m.manifest.verify P with
  | false =>
    unfold handleManifestReceived
    rw [hverify]
    rfl
  | true =>
    rw [if_pos rfl]
    cases hdeleted : m.manifest.manifest.deleted with
    | true =>
      unfold handleManifestReceived
      rw [hverify, hdeleted]
      rfl
    | false =>
      have htable : (s.afterReplay P m).communities =
          s.communities.insert m.communityId m.manifest := (afterReplay_frame s m).communities
      rw [handleManifestReceived_of_live env hverify hdeleted]
      split
      · exact htable
      · exact (settleManifest_quiet env _ m _ _).communities.trans htable

/-! ## The tables of channels and keys -/

/-- The manifest says of the channel what the node knows, and wraps for it no key or the key it
has. -/
def Repeats (P : Prims) (s : AppState) (ch₀ ch : ChannelManifest) : Prop :=
  ch.core = ch₀.core ∧
    (s.unwrapOwn P ch = none ∨ s.unwrapOwn P ch = s.channelKeys.lookup ch.id.text)

theorem CommunityWrite.kept {env : Env}
    (hw : CommunityWrite P env s ev s')
    (h : ∀ ch, ev = .channelManifestBroadcast ch →
      (communityPk? s.toTables ch.communityId.text).isSome = true → ch.id.text = x →
      ∃ ch₀, s.channels.lookup x = some ch₀ ∧ Repeats P s ch₀ ch) : ChannelKept s s' x := by
  have hlisted : ∀ {ch pk}, ev = .channelManifestBroadcast ch →
      communityPk? s.toTables ch.communityId.text = some pk →
      ∀ ch', (s.channels.insert ch.id.text ch).lookup x = some ch' →
        ∃ ch, s.channels.lookup x = some ch ∧ ch'.core = ch.core := by
    intro ch pk hev hpk ch' hch'
    rw [Dict.lookup_insert_eq] at hch'
    split at hch'
    · next heq =>
      cases hch'
      obtain ⟨ch₀, hch₀, hrep⟩ := h ch hev (by rw [hpk]; rfl) heq.symm
      exact ⟨ch₀, hch₀, hrep.1⟩
    · exact ⟨ch', hch', rfl⟩
  cases hw with
  | listed hpk => exact ⟨hlisted rfl hpk, fun _ hk => hk⟩
  | @keyed ch _ key _ _ hpk hkey =>
    refine ⟨hlisted rfl hpk, fun k hk => ?_⟩
    have hk : ((KeyRing.of s.toTables).install ch.id.text key).keys.lookup x = some k := hk
    rw [KeyRing.lookup_install] at hk
    split at hk
    · next heq =>
      obtain ⟨ch₀, -, -, hnone | hsame⟩ := h ch rfl (by rw [hpk]; rfl) heq.symm
      · cases hkey.symm.trans hnone
      · rw [heq, ← hsame, hkey]
        exact hk
    · exact hk
  | removed =>
    exact ⟨(removeCommunityLocal_kept s _ x).channel, (removeCommunityLocal_kept s _ x).key⟩
  | updated =>
    refine ⟨fun ch hch => ⟨ch, ?_, rfl⟩, fun _ hk => hk⟩
    unfold applyManifestUpdate at hch
    dsimp only at hch
    rw [Dict.lookup_eraseAll] at hch
    split at hch
    · cases hch
    · exact hch
  | @joined record => exact ⟨sameCores_wrapForJoiner env s record x, fun _ hk => hk⟩
  | _ => exact ⟨fun ch hch => ⟨ch, hch, rfl⟩, fun _ hk => hk⟩

/-- A message on the topic of a channel leaves a channel alone, or is a rotation of it. -/
theorem ChannelWrite.kept (hw : ChannelWrite P false s ev s') (x : String) :
    ChannelKept s s' x ∨ ∃ payload pk, ev = .channelKeyRotation payload ∧
      payload.newManifest.id.text = x ∧ RotationTaken P s pk payload ∧
      s'.channels = s.channels.insert x payload.newManifest ∧ s'.channelKeys = s.channelKeys := by
  cases hw with
  | @rotated payload pk _ _ htaken =>
    by_cases heq : payload.newManifest.id.text = x
    · exact .inr ⟨payload, pk, rfl, heq, htaken, by rw [← heq]; rfl, rfl⟩
    · refine .inl ⟨fun ch (hch : AList.lookup x (s.channels.insert _ _) = some ch) => ?_,
        fun _ hk => hk⟩
      rw [Dict.lookup_insert_eq, if_neg (Ne.symm heq)] at hch
      exact ⟨ch, hch, rfl⟩
  | rotationStalled h => cases h
  | _ => exact .inl ⟨fun ch hch => ⟨ch, hch, rfl⟩, fun _ hk => hk⟩

theorem tables_handleChannelKeyRotation
    {payload : ChannelKeyRotationPayload} (h : RotationTaken P s pk payload) :
    (s.handleChannelKeyRotation P false payload).channels =
        s.channels.insert payload.newManifest.id.text payload.newManifest ∧
      (s.handleChannelKeyRotation P false payload).channelKeys = s.channelKeys := by
  unfold handleChannelKeyRotation
  dsimp only
  rw [h.community]
  dsimp only
  rw [h.verified, h.newer]
  exact ⟨rfl, rfl⟩

/-! ## Wrapped keys of a fetched manifest -/

variable (P) in
/-- The keys of the channel that the manifests have wrapped for this node, in their order. -/
def openedKeys (s : AppState) (channels : List ChannelManifest) (x : String) : List Key :=
  channels.filterMap fun ch => if ch.id.text = x then s.unwrapOwn P ch else none

theorem mem_openedKeys :
    k ∈ s.openedKeys P channels x ↔
      ∃ ch ∈ channels, ch.id.text = x ∧ s.unwrapOwn P ch = some k := by
  unfold openedKeys
  rw [List.mem_filterMap]
  refine exists_congr fun ch => and_congr_right fun _ => ?_
  split
  · next hid => exact (and_iff_right hid).symm
  · next hid => exact ⟨fun h => (by cases h), fun h => absurd h.1 hid⟩

theorem follows_foldl_unwrapStep (s : AppState) (channels : List ChannelManifest) (x : String) :
    (channels.foldl (unwrapStep P s) (KeyRing.of s.toTables)).Follows x
      (s.previousChannelKeys.lookup x)
      ((s.channelKeys.lookup x).toList ++ s.openedKeys P channels x) := by
  induction channels using List.reverseRecOn with
  | nil =>
    rw [openedKeys, List.filterMap_nil, List.append_nil]
    exact KeyRing.follows_of s.toTables x
  | append_singleton channels ch ih =>
    have hopened : s.openedKeys P (channels ++ [ch]) x = s.openedKeys P channels x ++
        (if ch.id.text = x then s.unwrapOwn P ch else none).toList := by
      unfold openedKeys
      rw [List.filterMap_append]
      cases h : (if ch.id.text = x then s.unwrapOwn P ch else none) <;>
        simp [h]
    rw [List.foldl_append, List.foldl_cons, List.foldl_nil, hopened, ← List.append_assoc,
      unwrapStep]
    cases hkey : s.unwrapOwn P ch with
    | none => simpa using ih
    | some key =>
      dsimp only
      split
      · next hid =>
        subst hid
        exact ih.install key
      · next hid =>
        rw [Option.toList_none, List.append_nil]
        exact ih.install_ne hid key

theorem lookup_foldl_unwrapStep (s : AppState) (channels : List ChannelManifest) (x : String) :
    (channels.foldl (unwrapStep P s) (KeyRing.of s.toTables)).keys.lookup x =
      (s.openedKeys P channels x).getLast?.or (s.channelKeys.lookup x) := by
  rw [(follows_foldl_unwrapStep s channels x).keys, List.getLast?_append]
  cases s.channelKeys.lookup x <;> rfl

/-- The unwrapped keys of a fetched manifest repeat the key of the channel. -/
theorem lookup_foldl_unwrapStep_of_same
    (h : ∀ ch ∈ channels, ch.id.text = x →
      s.unwrapOwn P ch = none ∨ s.unwrapOwn P ch = s.channelKeys.lookup x) :
    (channels.foldl (unwrapStep P s) (KeyRing.of s.toTables)).keys.lookup x =
      s.channelKeys.lookup x := by
  rw [lookup_foldl_unwrapStep]
  cases hlast : (s.openedKeys P channels x).getLast? with
  | none => rfl
  | some k =>
    obtain ⟨ch, hch, hid, hk⟩ := mem_openedKeys.mp (List.mem_of_getLast? hlast)
    rcases h ch hch hid with hnone | hsame
    · rw [hk] at hnone
      cases hnone
    · rw [← hsame, hk]
      rfl

theorem mem_keyEntries {keys : Dict String Bytes} (h : (x, k) ∈ keyEntries keys) : x ∈ keys := by
  obtain ⟨e, hmem, he⟩ := List.mem_filterMap.mp h
  obtain ⟨k', -, hpair⟩ := Option.map_eq_some_iff.mp he
  rw [← (Prod.mk.inj hpair).1]
  exact AList.mem_keys.mpr (List.mem_keys_of_mem hmem)

/-- The condition on a fetched manifest for one channel that the node has. -/
structure RepeatsReceived (P : Prims) (s : AppState) (m : ManifestReceived) (x : String)
    (ch₀ : ChannelManifest) : Prop where
  channels : ∀ ch ∈ m.channels, ch.id.text = x → Repeats P s ch₀ ch
  /-- A plaintext key is installed only if the channel has none. -/
  plain : s.channelKeys.lookup x = none → x ∉ m.channelKeys

theorem receiveTables_kept {m : ManifestReceived} (hx : s.channels.lookup x = some ch₀)
    (h : RepeatsReceived P s m x ch₀) : ChannelKept s (s.receiveTables P m) x := by
  refine ⟨fun ch' hch' => ?_, fun k hk => ?_⟩
  · have hlook : (receiveChannels s.channels m).lookup x = some ch' := hch'
    unfold receiveChannels at hlook
    dsimp only at hlook
    rw [Dict.lookup_retain] at hlook
    rcases Dict.of_lookup_insertAll (Option.filter_eq_some_iff.mp hlook).1 with hmem | hold
    · obtain ⟨ch, hch, heq⟩ := List.mem_map.mp hmem
      obtain ⟨hid, rfl⟩ := Prod.mk.inj heq
      exact ⟨ch₀, hx, (h.channels ch hch hid).1⟩
    · exact ⟨ch', hold, rfl⟩
  · have hlook : (s.receiveKeys P m).keys.lookup x = some k := hk
    unfold receiveKeys at hlook
    dsimp only at hlook
    -- the wrapped keys leave the key of the channel as it is
    have hring : (if m.communityPk = s.ownPk P then KeyRing.of s.toTables
        else m.channels.foldl (unwrapStep P s) (KeyRing.of s.toTables)).keys.lookup x =
        s.channelKeys.lookup x := by
      split
      · rfl
      · refine lookup_foldl_unwrapStep_of_same fun ch hch hid => ?_
        rw [← hid]
        exact (h.channels ch hch hid).2
    cases hkey : s.channelKeys.lookup x with
    | some k₀ =>
      rw [Dict.lookup_orInsertAll_of_some (hring.trans hkey)] at hlook
      exact hlook
    | none =>
      rcases Dict.of_lookup_orInsertAll hlook with hmem | hold
      · exact absurd (mem_keyEntries hmem) (h.plain hkey)
      · rw [hring, hkey] at hold
        cases hold

end

end AppState

/-! ## The key of a community -/

section

variable (P : Prims)

/-- The key that the table has for a community stays, as long as it has the community. -/
def KeyPinned (pk : Key) (c : String) (s : AppState) (is : List (Env × SwarmEvent)) : Prop :=
  communityPk? s.toTables c = some pk → pk ≠ 0 →
    ∀ pre, pre <+: is → ∀ k, communityPk? (run (eventStep P) s pre).toTables c = some k → k = pk

/-- The condition on one event: a manifest of the community that the node takes carries the
key. -/
structure CarriesKey (pk : Key) (c : String) (s : AppState) (i : Env × SwarmEvent) : Prop where
  update : ∀ topic data source new, i.2 = .messageReceived topic data source →
    P.decodeEvent data = some (.manifestUpdate new) → UpdateTaken P s new →
    new.manifest.id.text = c → new.manifest.publicKey = pk
  received : ∀ m, i.2 = .manifestReceived m → m.manifest.verify P = true →
    m.manifest.manifest.deleted = false → m.communityId = c → m.communityPk = pk

variable {P}

theorem key_eventStep (hin : ManifestEvent i.2) (hi : CarriesKey P pk c s i)
    (hs : ∀ signed, s.communities.lookup c = some signed → signed.manifest.publicKey = pk)
    (h : (eventStep P s i).communities.lookup c = some signed) :
    signed.manifest.publicKey = pk := by
  obtain ⟨env, e⟩ := i
  cases hin with
  | @gossip topic data source =>
    change (s.processEvent P env _).communities.lookup c = some signed at h
    rcases communities_gossip (P := P) env s topic data source with
      hold | ⟨new, current, hd, hnewer, htable⟩
    · exact hs signed (hold ▸ h)
    · rw [htable] at h
      rcases of_lookup_takeManifest h with hold | ⟨hlive, hc, rfl⟩
      · exact hs signed hold
      · exact hi.update _ _ _ new rfl hd
          ⟨hnewer.verified, ⟨current, hnewer.known, hnewer.newer⟩, hlive⟩ hc
  | @received m =>
    change (if s.blocked then s else s.handleManifestReceived P env m).communities.lookup c = _ at h
    split at h
    · exact hs signed h
    · rw [communities_handleManifestReceived] at h
      split at h
      · next hv =>
        rcases of_lookup_takeManifest h with hold | ⟨hlive, hc, rfl⟩
        · exact hs signed hold
        · exact hi.received _ rfl hv hlive hc
      · exact hs signed h

/-- In a run of events whose manifests of the community all carry its key, the table never has
another key for it. -/
theorem community_key_pinned {pk : Key} {c : String} {s : AppState}
    {is : List (Env × SwarmEvent)} (hin : ∀ i ∈ is, ManifestEvent i.2)
    (h : Along (eventStep P) (CarriesKey P pk c) s is) : KeyPinned P pk c s is := by
  intro hpk _ pre hpre k hk
  have hstart : ∀ signed, s.communities.lookup c = some signed →
      signed.manifest.publicKey = pk := by
    intro signed hs
    rw [communityPk?, hs] at hpk
    exact Option.some.inj hpk
  have hboth : Along (eventStep P)
      (fun t i => ManifestEvent i.2 ∧ CarriesKey P pk c t i) s is :=
    (along_of_forall fun _ => hin).and h
  have hend := hboth.invariant_reached (I := fun t : AppState =>
    ∀ signed, t.communities.lookup c = some signed → signed.manifest.publicKey = pk)
    (fun t i ht hi signed hsigned => key_eventStep hi.1 hi.2 ht hsigned) hstart hpre
  obtain ⟨signed, hsigned, rfl⟩ := Option.map_eq_some_iff.mp hk
  exact hend signed hsigned

/-! ## The channels of a community -/

variable (P) in
/-- The event carries a manifest of the channel with a signature under the key. -/
inductive CoveredBy (pk : Key) (x : String) : SwarmEvent → Prop
  | rotation {topic : String} {data : Bytes} {source : Option String}
      {payload : ChannelKeyRotationPayload} :
      P.decodeEvent data = some (.channelKeyRotation payload) → payload.newManifest.id.text = x →
      P.verifyBytes pk (P.encodeChannelManifest payload.newManifest) payload.signature = true →
      CoveredBy pk x (.messageReceived topic data source)

def ChannelChanged (s s' : AppState) (x : String) (ch : ChannelManifest) : Prop :=
  (∃ ch', s'.channels.lookup x = some ch' ∧
    (ch'.communityId ≠ ch.communityId ∨ ch'.kind ≠ ch.kind ∨ ch'.version ≠ ch.version)) ∨
  ∃ k, s'.channelKeys.lookup x = some k ∧ s.channelKeys.lookup x ≠ some k

variable (P) in
/-- Whenever a channel that the node has changes, the event carries a manifest of it that the
community of the channel signed. -/
def ChannelsAuthorised (s : AppState) (is : List (Env × SwarmEvent)) : Prop :=
  ∀ pre i post, is = pre ++ i :: post →
    ∀ x ch, (run (eventStep P) s pre).channels.lookup x = some ch →
      ChannelChanged (run (eventStep P) s pre) (eventStep P (run (eventStep P) s pre) i) x ch →
      ∃ pk, communityPk? (run (eventStep P) s pre).toTables ch.communityId.text = some pk ∧
        CoveredBy P pk x i.2

variable (P) in
/-- The condition on one event: what nobody signed repeats what the node has of its channels, and
a rotation is signed by the community of the channel. -/
structure ChannelsRepeated (s : AppState) (i : Env × SwarmEvent) : Prop where
  broadcast : ∀ topic data source ch ch₀, i.2 = .messageReceived topic data source →
    P.decodeEvent data = some (.channelManifestBroadcast ch) →
    (communityPk? s.toTables ch.communityId.text).isSome →
    s.channels.lookup ch.id.text = some ch₀ → Repeats P s ch₀ ch
  received : ∀ m, i.2 = .manifestReceived m → m.manifest.verify P = true →
    m.manifest.manifest.deleted = false →
    ∀ x ch₀, s.channels.lookup x = some ch₀ → RepeatsReceived P s m x ch₀
  rotation : ∀ topic data source payload pk ch₀, i.2 = .messageReceived topic data source →
    P.decodeEvent data = some (.channelKeyRotation payload) → RotationTaken P s pk payload →
    s.channels.lookup payload.newManifest.id.text = some ch₀ →
    communityPk? s.toTables ch₀.communityId.text = some pk

theorem AppState.ChannelKept.not_changed
    (h : ChannelKept s s' x) (hx : s.channels.lookup x = some ch) : ¬ ChannelChanged s s' x ch := by
  rintro (⟨ch', hx', hne⟩ | ⟨k, hk, hne⟩)
  · obtain ⟨ch₁, hx₁, hcore⟩ := h.channel ch' hx'
    have hch : ch₁ = ch := Option.some.inj (hx₁.symm.trans hx)
    subst hch
    obtain ⟨hcom, hrest⟩ := Prod.mk.inj hcore
    obtain ⟨hkind, hver⟩ := Prod.mk.inj hrest
    rcases hne with hne | hne | hne
    · exact hne hcom
    · exact hne hkind
    · exact hne hver
  · exact hne (h.key k hk)

/-- An event leaves a channel of the node alone, or is a rotation of it. -/
theorem kept_or_rotation (hin : ManifestEvent i.2) (hbuf : OnlyMessagesBuffered P s)
    (h : ChannelsRepeated P s i) (hx : s.channels.lookup x = some ch₀) :
    ChannelKept s (eventStep P s i) x ∨
      ∃ topic data source payload pk, i.2 = .messageReceived topic data source ∧
        P.decodeEvent data = some (.channelKeyRotation payload) ∧
        payload.newManifest.id.text = x ∧ RotationTaken P s pk payload := by
  obtain ⟨env, e⟩ := i
  have hw := processEvent_write (P := P) env s e
  change ChannelKept s (s.processEvent P env e) x ∨ _
  generalize s.processEvent P env e = s' at hw
  have hreplay : ∀ m, e = .manifestReceived m → m.manifest.verify P = true →
      m.manifest.manifest.deleted = false → ChannelKept s (s.afterReplay P m) x := by
    rintro m rfl hv hdel
    refine (receiveTables_kept hx (h.received m rfl hv hdel x ch₀ hx)).trans ?_
    have htables := (afterReplay_tablesKept m hbuf).toTables
    exact .of_eq (congrArg Tables.channels htables) (congrArg Tables.channelKeys htables) x
  cases hin with
  | gossip =>
    cases hw with
    | aside => exact .inl ⟨fun ch hch => ⟨ch, hch, rfl⟩, fun _ hk => hk⟩
    | channel _ _ hd hw =>
      rcases hw.kept x with hkept | ⟨payload, pk, rfl, hid, htaken, -⟩
      · exact .inl hkept
      · exact .inr ⟨_, _, _, payload, pk, rfl, hd, hid, htaken⟩
    | community _ _ _ hd hw =>
      refine .inl (hw.kept ?_)
      rintro ch rfl hpk rfl
      exact ⟨ch₀, hx, h.broadcast _ _ _ ch ch₀ rfl hd hpk hx⟩
  | @received m =>
    left
    cases hw with
    | aside => exact ⟨fun ch hch => ⟨ch, hch, rfl⟩, fun _ hk => hk⟩
    | tombstone =>
      exact ⟨(removeCommunityLocal_kept s _ x).channel, (removeCommunityLocal_kept s _ x).key⟩
    | stalled _ hv hdel => exact hreplay _ rfl hv hdel
    | received _ hv hdel =>
      exact (hreplay m rfl hv hdel).trans ((settleManifest_quiet env _ m _ _).kept x)

/-- In a run of events that repeat what the node has of its channels, a channel changes only by a
rotation that its community signed. -/
theorem channel_authority {s : AppState} {is : List (Env × SwarmEvent)}
    (hin : ∀ i ∈ is, ManifestEvent i.2) (hbuf : OnlyMessagesBuffered P s)
    (h : Along (eventStep P) (ChannelsRepeated P) s is) : ChannelsAuthorised P s is := by
  rintro pre i post rfl x ch hx hchanged
  have hbuf' : OnlyMessagesBuffered P (run (eventStep P) s pre) :=
    Along.invariant_reached (G := fun _ j => ManifestEvent j.2)
      (fun t j ht hj => eventStep_buffered hj ht) hbuf (along_of_forall fun _ => hin)
      (List.prefix_append pre (i :: post))
  have hi : ManifestEvent i.2 := hin i (List.mem_append_right pre List.mem_cons_self)
  have hcond := h.at_split
  rcases kept_or_rotation hi hbuf' hcond hx with
    hkept | ⟨topic, data, source, payload, pk, he, hd, rfl, htaken⟩
  · exact absurd hchanged (hkept.not_changed hx)
  · refine ⟨pk, hcond.rotation topic data source payload pk ch he hd htaken hx, ?_⟩
    rw [he]
    exact .rotation hd rfl (Bool.and_eq_true _ _ ▸ htaken.verified).2

end

/-! ## Evaluations -/

open Sample in
/-- Anyone replaces the key of a community by a newer manifest under a key of its own. -/
theorem key_replaced :
    ¬ KeyPinned (prims [.manifestUpdate (manifest 40 2)] []) 11 community.text
      (withCommunity (app 30) 10) [gossipEvent 0] := by
  intro h
  have hkey := h (by decide +kernel) (by decide) [gossipEvent 0] (List.prefix_refl _) 41
    (by decide +kernel)
  exact absurd hkey (by decide)

open Sample in
theorem community_key_pinned_update :
    let P := prims [.manifestUpdate (manifest 10 2)] []
    let s := withCommunity (app 30) 10
    (eventStep P s (gossipEvent 0)).communities.lookup community.text = some (manifest 10 2) ∧
      KeyPinned P 11 community.text s [gossipEvent 0] := by
  refine ⟨by decide +kernel, community_key_pinned (fun i hi => ?_) ⟨⟨?_, ?_⟩, trivial⟩⟩
  · rw [List.mem_singleton.mp hi]
    exact .gossip
  · intro topic data source new he hd _ _
    cases he
    have hnew : manifest 10 2 = new := NetworkEvent.manifestUpdate.inj (Option.some.inj hd)
    rw [← hnew]
    rfl
  · intro m he
    cases he

namespace Sample

/-- A node that knows a channel of a community of which another node has the key. -/
def channelApp : AppState := withChannel (withCommunity (app 30) 10) channel 70

def forgedChannel : ChannelManifest := wrapKey (prims [] []) env 0 99 channel (record 30 [])

end Sample

open Sample in
/-- A broadcast that nobody signed installs another key for a channel. -/
theorem channel_key_replaced :
    let P := prims [.channelManifestBroadcast forgedChannel] []
    (∀ i ∈ [gossipEvent 0], ManifestEvent i.2) ∧ OnlyMessagesBuffered P channelApp ∧
      communityPk? channelApp.toTables community.text ≠ some (channelApp.ownPk P) ∧
      ¬ ChannelsAuthorised P channelApp [gossipEvent 0] := by
  refine ⟨fun i hi => ?_, fun x buf hx => (by cases hx), by decide +kernel, fun h => ?_⟩
  · rw [List.mem_singleton.mp hi]
    exact .gossip
  · obtain ⟨pk, -, hcovered⟩ := h [] (gossipEvent 0) [] rfl channel.id.text channel
      (AList.lookup_insert _) (.inr ⟨99, by decide +kernel, by decide +kernel⟩)
    cases hcovered with
    | rotation hd => cases Option.some.inj hd

namespace Sample

def signedRotation : ChannelKeyRotationPayload :=
  let new := { channel with version := 2 }
  ⟨new, toBytes ((prims [] []).sign 10 ((prims [] []).encodeChannelManifest new))⟩

def rotationEvent : Env × SwarmEvent :=
  (env, .messageReceived (channelTopic channel.id.text) [0] none)

end Sample

open Sample in
theorem channel_authority_rotation :
    let P := prims [.channelKeyRotation signedRotation] []
    ((eventStep P channelApp rotationEvent).channels.lookup channel.id.text).map
        ChannelManifest.version = some 2 ∧
      ChannelsAuthorised P channelApp [rotationEvent] := by
  refine ⟨by decide +kernel, channel_authority (fun i hi => ?_) (fun x buf hx => (by cases hx))
    ⟨⟨?_, ?_, ?_⟩, trivial⟩⟩
  · rw [List.mem_singleton.mp hi]
    exact .gossip
  · intro topic data source ch ch₀ he hd
    cases he
    cases Option.some.inj hd
  · intro m he
    cases he
  · intro topic data source payload pk ch₀ he hd htaken hch
    cases he
    have hp : signedRotation = payload := NetworkEvent.channelKeyRotation.inj (Option.some.inj hd)
    subst hp
    have hlook : channelApp.channels.lookup signedRotation.newManifest.id.text = some channel :=
      AList.lookup_insert _
    have hch' : channel = ch₀ := Option.some.inj (hlook.symm.trans hch)
    subst hch'
    exact htaken.community

end BitCord
