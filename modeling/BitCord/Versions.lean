import BitCord.Authority

/-!
# Versions

The admin counts up the version of a community manifest and that of a channel manifest with every
change. A manifest reaches a member twice, pushed as gossip and fetched from a peer, in any order.
Gossip of a community manifest is compared with the version that the node has; a fetched manifest is
not (`stale_manifest_taken`, `versions_hold_iff`). The manifest of a channel is installed without a
comparison either way, and its key with it (`repeated_broadcast_installed`, `channel_holds_iff`).
-/

namespace BitCord

open Lib Lib.Run AppState

variable {c topic : String} {s : AppState} {i : Env × SwarmEvent} {data : Bytes}
  {source : Option String} {m : ManifestReceived} {ch : ChannelManifest}
  {channels : List ChannelManifest}

/-! ## Community manifests -/

def communityVersion (c : String) (s : AppState) : Option UInt64 :=
  (s.communities.lookup c).map fun signed => signed.manifest.version

section

variable (P : Prims)

def carriedManifest : SwarmEvent → Option SignedManifest
  | .messageReceived _ data _ =>
    match P.decodeEvent data with
    | some (.manifestUpdate signed) => some signed
    | _ => none
  | .manifestReceived m => some m.manifest
  | _ => none

def NewerTombstone (v : UInt64) (e : SwarmEvent) : Prop :=
  ∃ t, carriedManifest P e = some t ∧ t.manifest.deleted = true ∧ v < t.manifest.version

/-- While the node has the community, its version does not go back, and what removes it is a
tombstone with a greater version. -/
structure VersionsHold (c : String) (s : AppState) (is : List (Env × SwarmEvent)) : Prop where
  monotone : RelatedWhile (eventStep P) (· ≤ ·) (communityVersion c) s is
  removed : ∀ pre i post, is = pre ++ i :: post → ∀ v,
    communityVersion c (run (eventStep P) s pre) = some v →
    communityVersion c (eventStep P (run (eventStep P) s pre) i) = none → NewerTombstone P v i.2

/-- A fetched manifest of the community that the node is going to take is not older than the one
it has; a tombstone is newer. -/
def NotStale (c : String) (s : AppState) (i : Env × SwarmEvent) : Prop :=
  ∀ m, i.2 = .manifestReceived m → s.blocked = false → m.manifest.verify P = true →
    m.communityId = c → ∀ v, communityVersion c s = some v →
      v ≤ m.manifest.manifest.version ∧
        (m.manifest.manifest.deleted = true → v < m.manifest.manifest.version)

/-- What a step must do: `VersionsHold` for one event. -/
def VersionStep (c : String) (s : AppState) (i : Env × SwarmEvent) : Prop :=
  (∀ v w, communityVersion c s = some v → communityVersion c (eventStep P s i) = some w → v ≤ w) ∧
    ∀ v, communityVersion c s = some v → communityVersion c (eventStep P s i) = none →
      NewerTombstone P v i.2

variable {P}

theorem versionStep_of_same
    (h : communityVersion c (eventStep P s i) = communityVersion c s) : VersionStep P c s i := by
  rw [VersionStep, h]
  constructor
  · intro v w hv hw
    rw [hv] at hw
    cases hw
    exact UInt64.le_refl v
  · intro v hv hnone
    rw [hv] at hnone
    cases hnone

theorem communityVersion_of_taken {s' : AppState} {new : SignedManifest}
    (h : s'.communities = takeManifest s.communities new) :
    communityVersion c s' =
      if c = new.manifest.id.text then
        if new.manifest.deleted then none else some new.manifest.version
      else communityVersion c s := by
  unfold communityVersion
  rw [h, lookup_takeManifest]
  split
  · cases new.manifest.deleted <;> rfl
  · rfl

/-- Taking a manifest is a step as it must be exactly when the manifest is not older than the one
of its community, and newer if it is a tombstone. -/
theorem versionStep_iff_of_taken
    {new : SignedManifest} (hcarried : carriedManifest P i.2 = some new)
    (h : (eventStep P s i).communities = takeManifest s.communities new) :
    VersionStep P c s i ↔ (new.manifest.id.text = c → ∀ v, communityVersion c s = some v →
      v ≤ new.manifest.version ∧ (new.manifest.deleted = true → v < new.manifest.version)) := by
  have hafter := communityVersion_of_taken (c := c) h
  by_cases hc : c = new.manifest.id.text
  · rw [if_pos hc] at hafter
    unfold VersionStep
    rw [hafter]
    cases hdel : new.manifest.deleted with
    | true =>
      constructor
      · rintro ⟨-, hremoved⟩ - v hv
        obtain ⟨t, ht, -, hlt⟩ := hremoved v hv rfl
        rw [hcarried] at ht
        cases ht
        exact ⟨UInt64.le_of_lt hlt, fun _ => hlt⟩
      · intro hnew
        refine ⟨fun v w _ hw => (Option.some_ne_none w hw.symm).elim, fun v hv _ => ?_⟩
        exact ⟨new, hcarried, hdel, (hnew hc.symm v hv).2 rfl⟩
    | false =>
      constructor
      · rintro ⟨hle, -⟩ - v hv
        exact ⟨hle v _ hv rfl, fun h => by cases h⟩
      · intro hnew
        refine ⟨fun v w hv hw => ?_, fun v _ hnone => by cases hnone⟩
        cases hw
        exact (hnew hc.symm v hv).1
  · rw [if_neg hc] at hafter
    exact iff_of_true (versionStep_of_same hafter) fun h => absurd h.symm hc

/-- Gossip never takes a version back. -/
theorem versionStep_gossip {env : Env} :
    VersionStep P c s (env, .messageReceived topic data source) := by
  rcases communities_gossip (P := P) env s topic data source with
    hold | ⟨new, current, hd, hnewer, htable⟩
  · refine versionStep_of_same ?_
    rw [communityVersion, eventStep, hold, communityVersion]
  · change (eventStep P s (env, _)).communities = _ at htable
    refine (versionStep_iff_of_taken ?_ htable).mpr ?_
    · simp only [carriedManifest, hd]
    · rintro rfl v hv
      rw [communityVersion, hnewer.known] at hv
      cases hv
      exact ⟨UInt64.le_of_lt hnewer.newer, fun _ => hnewer.newer⟩

theorem versionStep_received_iff {env : Env} :
    VersionStep P c s (env, .manifestReceived m) ↔ NotStale P c s (env, .manifestReceived m) := by
  have hstep : eventStep P s (env, .manifestReceived m) =
      if s.blocked then s else s.handleManifestReceived P env m := rfl
  unfold NotStale
  cases hblocked : s.blocked with
  | true =>
    rw [hblocked, if_pos rfl] at hstep
    exact iff_of_true (versionStep_of_same (by rw [hstep])) fun _ _ h => by cases h
  | false =>
    rw [hblocked, if_neg (by decide)] at hstep
    have htable := communities_handleManifestReceived (P := P) env s m
    rw [← hstep] at htable
    cases hverify : m.manifest.verify P with
    | false =>
      rw [hverify, if_neg (by decide)] at htable
      refine iff_of_true (versionStep_of_same ?_) ?_
      · rw [communityVersion, htable, communityVersion]
      · rintro m' he - hv
        cases he
        rw [hverify] at hv
        cases hv
    | true =>
      rw [hverify, if_pos rfl] at htable
      rw [versionStep_iff_of_taken rfl htable]
      constructor
      · rintro hnew m' he - -
        cases he
        exact hnew
      · intro hnew
        exact hnew m rfl rfl hverify

theorem versionStep_iff (hin : ManifestEvent i.2) : VersionStep P c s i ↔ NotStale P c s i := by
  obtain ⟨env, e⟩ := i
  cases hin with
  | gossip => exact iff_of_true versionStep_gossip fun m he => by cases he
  | received => exact versionStep_received_iff

/-- In a run of gossip and fetched manifests, the version of a community never goes back and only
newer tombstones remove it exactly when no fetched manifest is stale. -/
theorem versions_hold_iff {c : String} {s : AppState} {is : List (Env × SwarmEvent)}
    (hin : ∀ i ∈ is, ManifestEvent i.2) :
    VersionsHold P c s is ↔ Along (eventStep P) (NotStale P c) s is := by
  have hsteps : VersionsHold P c s is ↔ Along (eventStep P) (VersionStep P c) s is := by
    unfold VersionStep
    rw [along_and, ← relatedWhile_iff_along UInt64.le_refl UInt64.le_trans, along_iff_forall_split]
    exact ⟨fun h => ⟨h.monotone, h.removed⟩, fun h => ⟨h.1, h.2⟩⟩
  rw [hsteps]
  exact along_congr (along_of_forall fun s i hi => versionStep_iff (hin i hi))

end

namespace Sample

/-- The node knows the first version of the manifest. The second arrives as gossip, and then the
answer to an earlier request brings the first again. -/
def staleRun : List (Env × SwarmEvent) :=
  [gossipEvent 0, (env, .manifestReceived ⟨"", manifest 30 1, [], ∅, []⟩)]

/-- The version goes back from 2 to 1. -/
theorem stale_manifest_taken :
    ¬ VersionsHold (prims [.manifestUpdate (manifest 30 2)] []) community.text
      (withCommunity (app 1) 30) staleRun := by
  intro h
  obtain ⟨-, hstep, -⟩ := (relatedWhile_iff_along UInt64.le_refl UInt64.le_trans).mp h.monotone
  exact absurd (hstep 2 1 (by decide +kernel) (by decide +kernel)) (by decide)

/-- A fetched manifest with the next version keeps the versions in order. -/
theorem next_manifest_taken :
    VersionsHold (prims [] []) community.text (withCommunity (app 1) 30)
      [(env, .manifestReceived ⟨"", manifest 30 2, [], ∅, []⟩)] := by
  refine (versions_hold_iff ?_).mpr ⟨?_, trivial⟩
  · intro i hi
    rw [List.mem_singleton.mp hi]
    exact .received
  · intro m he _ _ _ v hv
    cases he
    have h1 : communityVersion community.text (withCommunity (app 1) 30) = some 1 := by
      decide +kernel
    rw [h1] at hv
    cases hv
    exact ⟨by decide +kernel, fun _ => by decide +kernel⟩

end Sample

/-! ## What a response carries -/

namespace ManifestReceived

variable (m : ManifestReceived)

/-- The manifest of a channel in the response: the last one with this id. -/
def channel? (x : String) : Option ChannelManifest :=
  m.channels.reverse.find? fun ch => decide (ch.id.text = x)

/-- The plaintext key of a channel in the response. -/
def plainKey? (x : String) : Option Key := (m.channelKeys.lookup x).bind (tryIntoArray 256)

def listedIds : List String := m.manifest.manifest.channelIds.map fun ch => ch.text

/-- The test of the handler on the table of channels: channels of the community that its manifest
does not list are dropped. -/
def keeps (x : String) (ch : ChannelManifest) : Bool :=
  ch.communityId.text ≠ m.communityId || m.listedIds.contains x

end ManifestReceived

/-- The key of a channel that the response has wrapped for this node: the last one that opens. -/
def AppState.unwrapped? (P : Prims) (s : AppState) (m : ManifestReceived) (x : String) :
    Option Key :=
  (s.openedKeys P m.channels x).getLast?

section

variable {P : Prims} {s : AppState} {m : ManifestReceived}

theorem lookup_receiveChannels (d : Dict String ChannelManifest) (m : ManifestReceived)
    (x : String) :
    (receiveChannels d m).lookup x = ((m.channel? x).or (d.lookup x)).filter (m.keeps x) := by
  unfold receiveChannels
  rw [Dict.lookup_retain, Dict.lookup_insertAll_map]
  show Option.filter _ (Option.or (Option.map id _) _) = _
  rw [Option.map_id_fun, id]
  rfl

theorem find?_keyEntries (keys : Dict String Bytes) (x : String) :
    ((keyEntries keys).find? fun e => decide (e.1 = x)).map Prod.snd =
      (keys.lookup x).bind (tryIntoArray 256) := by
  obtain ⟨l, hl⟩ := keys
  show ((List.filterMap _ l).find? _).map _ = (l.dlookup x).bind _
  induction l with
  | nil => rfl
  | cons e l ih =>
    obtain ⟨hnot, hrest⟩ := List.nodupKeys_cons.mp hl
    rw [List.filterMap_cons]
    by_cases hx : e.1 = x
    · subst hx
      rw [List.dlookup_cons_eq, Option.bind_some]
      cases hk : tryIntoArray 256 e.2 with
      | some k => simp
      | none =>
        simp only [Option.map_none]
        rw [ih hrest, List.dlookup_eq_none.mpr hnot, Option.bind_none]
    · rw [List.dlookup_cons_ne _ _ (Ne.symm hx), ← ih hrest]
      cases hk : tryIntoArray 256 e.2 with
      | some k => simp [hx]
      | none => rfl

/-- The key of a channel after the response: an unwrapped one, except on the admin's node, else
the one that the node has, else a plaintext one. -/
theorem lookup_receiveKeys (s : AppState) (m : ManifestReceived) (x : String) :
    (s.receiveKeys P m).keys.lookup x =
      (if m.communityPk = s.ownPk P then s.channelKeys.lookup x
        else (s.unwrapped? P m x).or (s.channelKeys.lookup x)).or (m.plainKey? x) := by
  unfold receiveKeys
  dsimp only
  rw [Dict.lookup_orInsertAll, find?_keyEntries]
  split
  · rfl
  · rw [lookup_foldl_unwrapStep]
    rfl

end

/-! ## Channel manifests -/

def channelVersion (x : String) (s : AppState) : Option UInt64 :=
  (s.channels.lookup x).map fun ch => ch.version

def keyVersion (versionOf : Key → UInt64) (x : String) (s : AppState) : Option UInt64 :=
  (s.channelKeys.lookup x).map versionOf

section

variable (P : Prims) (versionOf : Key → UInt64) (x : String)

/-- While the node has the channel its version does not go back, and while it has a key of it the
version of the key does not. -/
structure ChannelHolds (s : AppState) (is : List (Env × SwarmEvent)) : Prop where
  versions : RelatedWhile (eventStep P) (· ≤ ·) (channelVersion x) s is
  keys : RelatedWhile (eventStep P) (· ≤ ·) (keyVersion versionOf x) s is

/-- The manifest of the channel in a broadcast that the node handles. -/
def broadcast? (s : AppState) (topic : String) (data : Bytes) : Option ChannelManifest :=
  if s.blocked = false ∧ isChannelTopic topic = false ∧ isCommunityTopic topic = true then
    match P.decodeEvent data with
    | some (.channelManifestBroadcast ch) =>
      if ch.id.text = x ∧ (communityPk? s.toTables ch.communityId.text).isSome = true then some ch
      else none
    | _ => none
  else none

/-- The node takes the manifest of a response. -/
def AppState.Takes (s : AppState) (m : ManifestReceived) : Prop :=
  s.blocked = false ∧ m.manifest.verify P = true ∧ m.manifest.manifest.deleted = false

instance (s : AppState) (m : ManifestReceived) : Decidable (s.Takes P m) := by
  unfold AppState.Takes
  infer_instance

/-- The manifest of the channel that the event puts into the table without a comparison: it is
broadcast, or the last one in a fetched manifest and not dropped again. -/
def installed? (s : AppState) : SwarmEvent → Option ChannelManifest
  | .messageReceived topic data _ => broadcast? P x s topic data
  | .manifestReceived m => if s.Takes P m then (m.channel? x).filter (m.keeps x) else none
  | _ => none

/-- The key of the channel that the event puts into the table without a comparison: the one that
the node opens in the broadcast, or the last one that it opens in a fetched manifest. -/
def installedKey? (s : AppState) : SwarmEvent → Option Key
  | .messageReceived topic data _ => (broadcast? P x s topic data).bind fun ch => s.unwrapOwn P ch
  | .manifestReceived m => if s.Takes P m then s.unwrapped? P m x else none
  | _ => none

/-- Fetched manifests are those of the communities of other nodes. -/
def NotAdmin (s : AppState) (i : Env × SwarmEvent) : Prop :=
  ∀ m, i.2 = .manifestReceived m → m.communityPk ≠ s.ownPk P

/-- A manifest that is installed for the channel is not older than the one that the node has, and a
key that is installed is not of a lower version than the one that it has. -/
structure NotOlder (s : AppState) (i : Env × SwarmEvent) : Prop where
  manifest : ∀ ch ∈ installed? P x s i.2, ∀ v ∈ channelVersion x s, v ≤ ch.version
  key : ∀ k ∈ installedKey? P x s i.2, ∀ v ∈ keyVersion versionOf x s, v ≤ versionOf k

/-- `ChannelHolds` for one event. -/
def ChannelStep (s : AppState) (i : Env × SwarmEvent) : Prop :=
  (∀ v w, channelVersion x s = some v → channelVersion x (eventStep P s i) = some w → v ≤ w) ∧
    ∀ v w, keyVersion versionOf x s = some v →
      keyVersion versionOf x (eventStep P s i) = some w → v ≤ w

variable {P versionOf x}

theorem channelStep_of_kept
    (h : ChannelKept s (eventStep P s i) x) : ChannelStep P versionOf x s i := by
  constructor
  · intro v w hv hw
    obtain ⟨ch', hch', rfl⟩ := Option.map_eq_some_iff.mp hw
    obtain ⟨ch, hch, hcore⟩ := h.channel ch' hch'
    rw [channelVersion, hch] at hv
    cases hv
    rw [show ch'.version = ch.version from congrArg (fun core => core.2.2) hcore]
    exact UInt64.le_refl _
  · intro v w hv hw
    obtain ⟨k, hk, rfl⟩ := Option.map_eq_some_iff.mp hw
    rw [keyVersion, h.key k hk] at hv
    cases hv
    exact UInt64.le_refl _

theorem le_iff_of_installed {α : Type} {f : α → UInt64} {a b : Option UInt64} {o : Option α}
    (hsome : ∀ x, o = some x → b = some (f x))
    (hnone : o = none → ∀ v w, a = some v → b = some w → v ≤ w) :
    (∀ v w, a = some v → b = some w → v ≤ w) ↔ ∀ x, o = some x → ∀ v, a = some v → v ≤ f x := by
  constructor
  · intro h x hx v hv
    exact h v _ hv (hsome x hx)
  · intro h
    cases ho : o with
    | none => exact hnone ho
    | some x =>
      intro v w hv hw
      cases (hsome x ho).symm.trans hw
      exact h x ho v hv

/-- What is installed decides whether the step is in order, if all else is. -/
theorem channelStep_iff_notOlder
    (hchannel : ∀ ch, installed? P x s i.2 = some ch →
      (eventStep P s i).channels.lookup x = some ch)
    (hkept : installed? P x s i.2 = none → ∀ v w, channelVersion x s = some v →
      channelVersion x (eventStep P s i) = some w → v ≤ w)
    (hkey : ∀ k, s.channelKeys.lookup x = some k → (eventStep P s i).channelKeys.lookup x =
      (installedKey? P x s i.2).or (some k))
    (hnew : ∀ k, installedKey? P x s i.2 = some k →
      (eventStep P s i).channelKeys.lookup x = some k) :
    ChannelStep P versionOf x s i ↔ NotOlder P versionOf x s i := by
  have hversions := le_iff_of_installed (f := ChannelManifest.version) (fun ch hch => by
    rw [channelVersion, hchannel ch hch, Option.map_some]) hkept
  have hkeys := le_iff_of_installed (f := versionOf) (a := keyVersion versionOf x s)
    (b := keyVersion versionOf x (eventStep P s i)) (o := installedKey? P x s i.2)
    (fun k hk => by rw [keyVersion, hnew k hk, Option.map_some]) (fun hnone v w hv hw => by
      obtain ⟨k, hk, rfl⟩ := Option.map_eq_some_iff.mp hv
      rw [keyVersion, hkey k hk, hnone] at hw
      cases hw
      exact UInt64.le_refl _)
  exact ⟨fun h => ⟨hversions.mp h.1, hkeys.mp h.2⟩,
    fun h => ⟨hversions.mpr h.manifest, hkeys.mpr h.key⟩⟩

/-! ### Fetched manifests -/

/-- On a node that is not the admin, the members that a fetched manifest brings change no channel
manifest. -/
theorem channels_settleManifest {env : Env} {rotated : List String} {b : Bool}
    (hpk : m.communityPk ≠ s.ownPk P) (hc : s.communities.lookup m.communityId = some m.manifest) :
    (s.settleManifest P env m rotated b).channels = s.channels := by
  have hrel := settleManifest_rel (P := P) (m := m) (R := fun s t : AppState =>
    m.communityPk ≠ s.ownPk P → s.communities.lookup m.communityId = some m.manifest →
      t.channels = s.channels ∧ t.signingKey = s.signingKey ∧ t.communities = s.communities)
    (fun _ _ _ _ _ => ⟨rfl, rfl, rfl⟩) ?_ (fun _ _ _ => ⟨rfl, rfl, rfl⟩)
    (fun _ _ h hpk _ => absurd h hpk) ?_ env s rotated b
  · exact (hrel hpk hc).1
  · intro s t u h h' hpk hc
    obtain ⟨hch, hkey, hcomm⟩ := h hpk hc
    obtain ⟨hch', hkey', hcomm'⟩ := h' (by rw [ownPk, hkey]; exact hpk) (by rw [hcomm]; exact hc)
    exact ⟨hch'.trans hch, hkey'.trans hkey, hcomm'.trans hcomm⟩
  · intro env s roles s' hw hpk hc
    cases hw with
    | joined =>
      have hwrap : wrapForJoiner P env s (s.ownRecord P m.manifest.manifest.id (s.peerId P) roles
          env.now) = (s.channels, []) := by
        have hc : s.communities.lookup (s.ownRecord P m.manifest.manifest.id (s.peerId P) roles
            env.now).communityId.text = some m.manifest := hc
        unfold wrapForJoiner
        rw [hc]
        exact if_neg hpk
      exact ⟨congrArg Prod.fst hwrap, rfl, rfl⟩

theorem tables_afterReplay (m : ManifestReceived) (hbuf : OnlyMessagesBuffered P s) :
    (s.afterReplay P m).toTables = (s.receiveTables P m).toTables :=
  (afterReplay_tablesKept m hbuf).toTables

theorem signingKey_afterReplay (s : AppState) (m : ManifestReceived) :
    (s.afterReplay P m).signingKey = s.signingKey :=
  (afterReplay_frame s m).signingKey

theorem ownPk_afterReplay (s : AppState) (m : ManifestReceived) :
    (s.afterReplay P m).ownPk P = s.ownPk P :=
  congrArg P.verifyingKey (signingKey_afterReplay s m)

theorem lookup_communities_afterReplay (m : ManifestReceived) (hbuf : OnlyMessagesBuffered P s) :
    (s.afterReplay P m).communities.lookup m.communityId = some m.manifest := by
  rw [congrArg Tables.communities (tables_afterReplay m hbuf)]
  exact AList.lookup_insert _

theorem channelKeys_handleManifestReceived (env : Env) (hbuf : OnlyMessagesBuffered P s)
    (hverify : m.manifest.verify P = true) (hlive : m.manifest.manifest.deleted = false) :
    (s.handleManifestReceived P env m).channelKeys = (s.receiveKeys P m).keys := by
  have hkeys : (s.afterReplay P m).channelKeys = (s.receiveKeys P m).keys :=
    congrArg Tables.channelKeys (tables_afterReplay m hbuf)
  rw [handleManifestReceived_of_live env hverify hlive]
  split
  · exact hkeys
  · rw [(settleManifest_quiet env _ m _ _).channelKeys, hkeys]

theorem tables_handleManifestReceived (env : Env) (hbuf : OnlyMessagesBuffered P s)
    (hverify : m.manifest.verify P = true) (hlive : m.manifest.manifest.deleted = false)
    (hpk : m.communityPk ≠ s.ownPk P) (x : String) :
    (s.handleManifestReceived P env m).channels.lookup x =
        ((m.channel? x).or (s.channels.lookup x)).filter (m.keeps x) ∧
      (s.handleManifestReceived P env m).channelKeys.lookup x =
        ((s.unwrapped? P m x).or (s.channelKeys.lookup x)).or (m.plainKey? x) := by
  constructor
  · have hchannels : (s.afterReplay P m).channels = receiveChannels s.channels m :=
      congrArg Tables.channels (tables_afterReplay m hbuf)
    rw [← lookup_receiveChannels, handleManifestReceived_of_live env hverify hlive]
    split
    · rw [hchannels]
    · rw [channels_settleManifest _ (lookup_communities_afterReplay m hbuf), hchannels]
      rw [ownPk_afterReplay]
      exact hpk
  · rw [channelKeys_handleManifestReceived env hbuf hverify hlive, lookup_receiveKeys, if_neg hpk]

/-- A response that is not taken changes no table or removes its community. -/
theorem processEvent_of_not_takes (env : Env) (h : ¬ s.Takes P m) : ∃ a,
    s.processEvent P env (.manifestReceived m) = s.beside a ∨
      s.processEvent P env (.manifestReceived m) =
        (s.removeCommunityLocal m.communityId).beside a := by
  have hw := processEvent_write (P := P) env s (.manifestReceived m)
  generalize s.processEvent P env (.manifestReceived m) = s' at hw ⊢
  cases hw with
  | aside => exact ⟨_, .inl rfl⟩
  | tombstone _ _ _ => exact ⟨_, .inr rfl⟩
  | stalled hblocked hverify hlive _ => exact absurd ⟨hblocked, hverify, hlive⟩ h
  | received hblocked hverify hlive _ => exact absurd ⟨hblocked, hverify, hlive⟩ h

theorem received_kept {env : Env} (h : ¬ s.Takes P m) :
    ChannelKept s (eventStep P s (env, .manifestReceived m)) x := by
  unfold eventStep
  obtain ⟨a, heq | heq⟩ := processEvent_of_not_takes env h <;> rw [heq]
  · exact ⟨fun ch hch => ⟨ch, hch, rfl⟩, fun _ hk => hk⟩
  · exact ⟨(removeCommunityLocal_kept s _ x).channel, (removeCommunityLocal_kept s _ x).key⟩

theorem channelStep_received_iff {env : Env} (hbuf : OnlyMessagesBuffered P s)
    (hpk : m.communityPk ≠ s.ownPk P) :
    ChannelStep P versionOf x s (env, .manifestReceived m) ↔
      NotOlder P versionOf x s (env, .manifestReceived m) := by
  by_cases htakes : s.Takes P m
  · have hinstalled : installed? P x s (.manifestReceived m) =
        (m.channel? x).filter (m.keeps x) := if_pos htakes
    have hopened : installedKey? P x s (.manifestReceived m) = s.unwrapped? P m x := if_pos htakes
    obtain ⟨hblocked, hverify, hlive⟩ := htakes
    have hstep : eventStep P s (env, .manifestReceived m) = s.handleManifestReceived P env m :=
      if_neg (by rw [hblocked]; decide)
    obtain ⟨hchannels, hkeys⟩ := tables_handleManifestReceived env hbuf hverify hlive hpk x
    refine channelStep_iff_notOlder ?_ ?_ ?_ ?_ <;> dsimp only <;> rw [hstep]
    · intro ch hch
      obtain ⟨hlast, hkeeps⟩ := Option.filter_eq_some_iff.mp (hinstalled ▸ hch)
      rw [hchannels, hlast, Option.some_or]
      exact Option.filter_eq_some_iff.mpr ⟨rfl, hkeeps⟩
    · intro hnone v w hv hw
      rw [hinstalled] at hnone
      rw [channelVersion, hchannels] at hw
      cases hlast : m.channel? x with
      | none =>
        rw [hlast, Option.none_or] at hw
        obtain ⟨ch, hch, rfl⟩ := Option.map_eq_some_iff.mp hw
        rw [channelVersion, (Option.filter_eq_some_iff.mp hch).1] at hv
        cases hv
        exact UInt64.le_refl _
      | some ch =>
        rw [hlast, Option.some_or, ← hlast, hnone] at hw
        cases hw
    · intro k hk
      rw [hkeys, hopened, hk]
      cases s.unwrapped? P m x <;> rfl
    · intro k hk
      rw [hkeys, ← hopened, hk]
      rfl
  · -- a response that is not taken installs nothing
    refine iff_of_true (channelStep_of_kept (received_kept htakes)) ⟨fun ch hch => ?_,
      fun k hk => ?_⟩
    · rw [installed?, if_neg htakes] at hch
      cases hch
    · rw [installedKey?, if_neg htakes] at hk
      cases hk

/-! ### Gossip -/

/-- A rotation that is taken is newer than what the node has, and changes no key. -/
theorem rotation_channelStep {pk : Key} {payload : ChannelKeyRotationPayload}
    (htaken : RotationTaken P s pk payload) (hid : payload.newManifest.id.text = x)
    (hchannels : (eventStep P s i).channels = s.channels.insert x payload.newManifest)
    (hkeys : (eventStep P s i).channelKeys = s.channelKeys) : ChannelStep P versionOf x s i := by
  constructor
  · intro v w hv hw
    rw [channelVersion, hchannels, AList.lookup_insert] at hw
    cases hw
    obtain ⟨current, hcurrent, rfl⟩ := Option.map_eq_some_iff.mp hv
    have hnewer := htaken.newer
    unfold isNewerChannel at hnewer
    rw [hid, hcurrent] at hnewer
    exact UInt64.le_of_lt (of_decide_eq_true hnewer)
  · intro v w hv hw
    rw [keyVersion, hkeys] at hw
    rw [keyVersion, hw] at hv
    cases hv
    exact UInt64.le_refl v

theorem gossip_channelStep {env : Env} (h : broadcast? P x s topic data = none) :
    ChannelStep P versionOf x s (env, .messageReceived topic data source) := by
  have hw := processEvent_write (P := P) env s (.messageReceived topic data source)
  generalize hs' : s.processEvent P env (.messageReceived topic data source) = s' at hw
  have hstep : eventStep P s (env, .messageReceived topic data source) = s' := hs'
  cases hw with
  | aside =>
    refine channelStep_of_kept ?_
    rw [hstep]
    exact ⟨fun ch hch => ⟨ch, hch, rfl⟩, fun _ hk => hk⟩
  | channel _ _ _ hw =>
    rcases hw.kept x with hkept | ⟨payload, pk, -, hid, htaken, hchannels, hkeys⟩
    · exact channelStep_of_kept (hstep ▸ hkept)
    · exact rotation_channelStep htaken hid (hstep ▸ hchannels) (hstep ▸ hkeys)
  | community hblocked hchannel hcommunity hd hw =>
    refine channelStep_of_kept (hstep ▸ hw.kept ?_)
    rintro ch rfl hknown hid
    simp [broadcast?, hblocked, hchannel, hcommunity, hd, hknown, hid] at h

theorem processEvent_broadcast (env : Env) (source : Option String)
    (h : broadcast? P x s topic data = some ch) :
    s.processEvent P env (.messageReceived topic data source) =
        s.handleChannelManifestBroadcast P ch ∧ ch.id.text = x ∧
      (communityPk? s.toTables ch.communityId.text).isSome = true := by
  unfold broadcast? at h
  split at h
  · next hhandled =>
    obtain ⟨hblocked, hchannel, hcommunity⟩ := hhandled
    split at h
    · next ch' hd =>
      split at h
      · next hknown =>
        cases h
        unfold processEvent handleCommunityMessage
        dsimp only
        rw [if_neg (by rw [hblocked]; decide), if_neg (by rw [hchannel]; decide), if_pos hcommunity,
          hd]
        exact ⟨rfl, hknown⟩
      · cases h
    · cases h
  · cases h

/-- A broadcast that is handled installs its manifest and the key that the node opens in it. -/
theorem broadcast?_eq_some (env : Env) (source : Option String)
    (h : broadcast? P x s topic data = some ch) :
    (eventStep P s (env, .messageReceived topic data source)).channels.lookup x = some ch ∧
      (eventStep P s (env, .messageReceived topic data source)).channelKeys.lookup x =
        (s.unwrapOwn P ch).or (s.channelKeys.lookup x) := by
  obtain ⟨hstep, rfl, hknown⟩ := processEvent_broadcast env source h
  obtain ⟨pk, hpk⟩ := Option.isSome_iff_exists.mp hknown
  unfold eventStep
  rw [hstep]
  unfold handleChannelManifestBroadcast
  dsimp only
  rw [hpk]
  cases s.unwrapOwn P ch with
  | none => exact ⟨AList.lookup_insert _, rfl⟩
  | some key =>
    refine ⟨AList.lookup_insert _, ?_⟩
    dsimp only
    rw [KeyRing.lookup_install, if_pos rfl]
    rfl

theorem channelStep_gossip_iff {env : Env} :
    ChannelStep P versionOf x s (env, .messageReceived topic data source) ↔
      NotOlder P versionOf x s (env, .messageReceived topic data source) := by
  cases hb : broadcast? P x s topic data with
  | none =>
    refine iff_of_true (gossip_channelStep hb) ⟨fun ch hch => ?_, fun k hk => ?_⟩
    · cases hb.symm.trans hch
    · rw [installedKey?, hb] at hk
      cases hk
  | some ch =>
    obtain ⟨hchannel, hkeys⟩ := broadcast?_eq_some env source hb
    have hopened : installedKey? P x s (.messageReceived topic data source) = s.unwrapOwn P ch := by
      rw [installedKey?, hb, Option.bind_some]
    refine channelStep_iff_notOlder (fun ch' hch' => ?_) (fun hnone => ?_) (fun k hk => ?_)
      fun k hk => ?_
    · rw [hchannel]
      exact hb.symm.trans hch'
    · cases hb.symm.trans hnone
    · rw [hkeys, hk, hopened]
    · rw [hkeys, ← hopened, hk]
      rfl

/-- In a run of gossip and fetched manifests at a node that is not the admin, a channel and its key
never go back exactly when no manifest older than the one that the node has is installed, and no key
of a lower version than the one that it has. Versions of keys are those of any table of keys. -/
theorem channel_holds_iff {s : AppState} {is : List (Env × SwarmEvent)}
    (hin : ∀ i ∈ is, ManifestEvent i.2) (hbuf : OnlyMessagesBuffered P s)
    (hadmin : Along (eventStep P) (NotAdmin P) s is) :
    ChannelHolds P versionOf x s is ↔ Along (eventStep P) (NotOlder P versionOf x) s is := by
  have hsteps : ChannelHolds P versionOf x s is ↔
      Along (eventStep P) (ChannelStep P versionOf x) s is := by
    unfold ChannelStep
    rw [along_and, ← relatedWhile_iff_along UInt64.le_refl UInt64.le_trans,
      ← relatedWhile_iff_along UInt64.le_refl UInt64.le_trans]
    exact ⟨fun h => ⟨h.versions, h.keys⟩, fun h => ⟨h.1, h.2⟩⟩
  have hevents : Along (eventStep P) (fun _ i => ManifestEvent i.2) s is :=
    along_of_forall fun _ => hin
  have hbuffered : Along (eventStep P) (fun t _ => OnlyMessagesBuffered P t) s is :=
    hevents.of_invariant (fun t i ht hi => eventStep_buffered hi ht) hbuf
  rw [hsteps]
  refine along_congr ?_
  refine (along_and.mpr ⟨hevents, along_and.mpr ⟨hbuffered, hadmin⟩⟩).imp ?_
  rintro t ⟨env, e⟩ ⟨hevent, hbuf, hadmin⟩
  cases hevent with
  | gossip => exact channelStep_gossip_iff
  | received => exact channelStep_received_iff hbuf (hadmin _ rfl)

end

namespace Sample

def channelAt (v : UInt64) : ChannelManifest :=
  let P := prims [] []
  { channel with
    version := v
    encryptedChannelKey := Dict.insertAll [((app 10).ownUserId P,
      encryptForMember P (BitVec.ofNat 256 (500 + v.toNat)) (P.x25519PublicKeyBytes 10) 3 4)] ∅ }

/-- The versions of the keys in these manifests. -/
def keyVersionAt (k : Key) : UInt64 := UInt64.ofNat (k.toNat - 500)

/-- The functions for a run in which the first two versions of the channel are broadcast. -/
def channelPrims : Prims :=
  prims [.channelManifestBroadcast (channelAt 1), .channelManifestBroadcast (channelAt 2)] []

theorem notAdmin_gossip {is : List UInt8} :
    Along (eventStep channelPrims) (NotAdmin channelPrims) s (is.map gossipEvent) := by
  refine along_of_forall fun t i hi m hm => ?_
  obtain ⟨j, -, rfl⟩ := List.mem_map.mp hi
  cases hm

/-- A member of the community, which knows no channel yet. -/
def memberNode : AppState := withCommunity (app 10) 30

/-- The version of the channel and that of its key after broadcasts. -/
def versionsAfter (is : List UInt8) : Option UInt64 × Option UInt64 :=
  let s := run (eventStep channelPrims) memberNode (is.map gossipEvent)
  (channelVersion channel.id.text s, keyVersion keyVersionAt channel.id.text s)

/-- A repeated broadcast takes the channel and its key back from version 2 to version 1. -/
theorem repeated_broadcast_installed :
    versionsAfter [1] = (some 2, some 2) ∧ versionsAfter [1, 0] = (some 1, some 1) ∧
      ¬ ChannelHolds channelPrims keyVersionAt channel.id.text memberNode
        ([1, 0].map gossipEvent) := by
  refine ⟨by decide +kernel, by decide +kernel, fun h => ?_⟩
  obtain ⟨-, hstep, -⟩ := (relatedWhile_iff_along UInt64.le_refl UInt64.le_trans).mp h.versions
  exact absurd (hstep 2 1 (by decide +kernel) (by decide +kernel)) (by decide)

theorem forall_le_of_all {α : Type} {f : α → UInt64} {o : Option α} {old : Option UInt64}
    (h : (o.all fun a => old.all fun v => v ≤ f a) = true) : ∀ a ∈ o, ∀ v ∈ old, v ≤ f a := by
  rintro a rfl v rfl
  exact of_decide_eq_true h

/-- Broadcasts in the order of their versions. -/
theorem broadcasts_in_order :
    ChannelHolds channelPrims keyVersionAt channel.id.text memberNode
      ([0, 1].map gossipEvent) := by
  refine (channel_holds_iff ?_ ?_ notAdmin_gossip).mpr ⟨⟨?_, ?_⟩, ⟨?_, ?_⟩, trivial⟩
  · intro i hi
    obtain ⟨j, -, rfl⟩ := List.mem_map.mp hi
    exact .gossip
  · intro x buf hx
    cases hx
  all_goals exact forall_le_of_all (by decide +kernel)

end Sample

end BitCord
