import BitCord.KeyDistribution
import BitCord.Persistence.Startup
import BitCord.Replay
import BitCord.Serving

/-!
# Removed channels

A channel leaves the table when it is deleted, when a newer manifest of its community no longer
lists it, or together with its community (`community_removed_exactly`). No removal looks at the
table of previous keys, and the handler of `ManifestUpdate` leaves the current key too
(`removed_channel_keeps_key`, `removed_keys_gone_iff`).
-/

namespace BitCord

open Lib Lib.Run AppState

variable {t : Tables} {c x y : String} {s s' : AppState} {replaying : Bool} {ev : NetworkEvent}
  {ring : KeyRing} {m : ManifestReceived} {st : NodeStore} {call : RpcCall} {e : SwarmEvent}

/-! ## Removing a community -/

def ChannelOf (t : Tables) (c x : String) : Prop :=
  ∃ ch, t.channels.lookup x = some ch ∧ ch.communityId.text = c

/-- The tables `t'` have no entry of the community `c`, and every other entry as in `t`. -/
structure WithoutCommunity (c : String) (t t' : Tables) : Prop where
  communities : ∀ d, t'.communities.lookup d = if d = c then none else t.communities.lookup d
  members : ∀ d, t'.members.lookup d = if d = c then none else t.members.lookup d
  hostingPasswords : ∀ d, t'.hostingPasswords.lookup d =
    if d = c then none else t.hostingPasswords.lookup d
  channels : ∀ x, ChannelOf t c x → t'.channels.lookup x = none
  otherChannels : ∀ x, ¬ ChannelOf t c x → t'.channels.lookup x = t.channels.lookup x
  channelKeys : ∀ x, ChannelOf t c x → t'.channelKeys.lookup x = none
  otherKeys : ∀ x, ¬ ChannelOf t c x → t'.channelKeys.lookup x = t.channelKeys.lookup x

theorem mem_channelIdsOf (h : ∀ x ch, t.channels.lookup x = some ch → ch.id.text = x) :
    x ∈ channelIdsOf t c ↔ ChannelOf t c x := by
  unfold channelIdsOf
  simp only [List.mem_map, List.mem_filter, Dict.mem_vals, decide_eq_true_iff]
  constructor
  · rintro ⟨ch, ⟨⟨y, hy⟩, hc⟩, hx⟩
    have hkey : x = y := hx.symm.trans (h y ch hy)
    exact ⟨ch, by rw [hkey, hy], hc⟩
  · rintro ⟨ch, hx, hc⟩
    exact ⟨ch, ⟨⟨x, hx⟩, hc⟩, h x ch hx⟩

/-- What a removal leaves of a table of channels or of their keys. -/
theorem lookup_eraseAll_channelIdsOf {α : Type}
    (h : ∀ x ch, t.channels.lookup x = some ch → ch.id.text = x) (d : Dict String α)
    (c x : String) :
    (ChannelOf t c x → (d.eraseAll (channelIdsOf t c)).lookup x = none) ∧
      (¬ ChannelOf t c x → (d.eraseAll (channelIdsOf t c)).lookup x = d.lookup x) := by
  rw [Dict.lookup_eraseAll, ← mem_channelIdsOf h]
  exact ⟨fun hx => if_pos hx, fun hx => if_neg hx⟩

/-- In every state that has each channel under its own id, `remove_community_local` removes exactly
the entries of the community from the five tables, in memory and in the files. -/
theorem community_removed_exactly (s : AppState)
    (h : ∀ x ch, s.channels.lookup x = some ch → ch.id.text = x) (c : String) :
    WithoutCommunity c s.toTables (s.removeCommunityLocal c).toTables ∧
      WithoutCommunity c s.toTables (s.removeCommunityLocal c).files := by
  have hchannels := lookup_eraseAll_channelIdsOf (t := s.toTables) h s.channels c
  have hkeys := lookup_eraseAll_channelIdsOf (t := s.toTables) h s.channelKeys c
  constructor
  all_goals exact {
    communities := fun d => Dict.lookup_erase_eq _ _ _
    members := fun d => Dict.lookup_erase_eq _ _ _
    hostingPasswords := fun d => Dict.lookup_erase_eq _ _ _
    channels := fun x => (hchannels x).1
    otherChannels := fun x => (hchannels x).2
    channelKeys := fun x => (hkeys x).1
    otherKeys := fun x => (hkeys x).2 }

namespace Sample

def sideCommunity : CommunityId := ⟨6⟩

def sideChannel : ChannelManifest := ⟨⟨8⟩, sideCommunity, "side", .text, ∅, 0, 1⟩

def sideBySide : AppState :=
  withChannel (withChannel (withCommunity (app 20) 30) channel 70) sideChannel 80

theorem ownIds_withChannel (h : ∀ x ch, s.channels.lookup x = some ch → ch.id.text = x)
    (ch : ChannelManifest) (key : Key) :
    ∀ x ch', (withChannel s ch key).channels.lookup x = some ch' → ch'.id.text = x := by
  intro x ch' hx
  have hinsert : (s.channels.insert ch.id.text ch).lookup x = some ch' := hx
  rw [Dict.lookup_insert_eq] at hinsert
  split at hinsert
  · next heq =>
    cases hinsert
    exact heq.symm
  · exact h x ch' hinsert

end Sample

open Sample in
theorem community_removed_exactly_side :
    WithoutCommunity community.text sideBySide.toTables
        (sideBySide.removeCommunityLocal community.text).toTables ∧
      channel.id.text ∉ (sideBySide.removeCommunityLocal community.text).channelKeys ∧
      sideChannel.id.text ∈ (sideBySide.removeCommunityLocal community.text).channelKeys := by
  refine ⟨(community_removed_exactly sideBySide ?_ community.text).1, by decide, by decide⟩
  exact ownIds_withChannel (ownIds_withChannel (fun _ _ h => by cases h) _ _) _ _

/-! ## Keys of channels -/

/-- A previous key of the channel is in the table or in its file. -/
def HasPrevious (s : AppState) (x : String) : Prop :=
  x ∈ s.previousChannelKeys ∨ x ∈ s.files.previousChannelKeys

/-- A key of the channel is in one of the two tables of keys or in one of their files. -/
def HasKey (s : AppState) (x : String) : Prop :=
  x ∈ s.channelKeys ∨ x ∈ s.files.channelKeys ∨ HasPrevious s x

/-- The tables of keys and their files are the same. -/
structure KeysKept (s s' : AppState) : Prop where
  channelKeys : s'.channelKeys = s.channelKeys
  previousChannelKeys : s'.previousChannelKeys = s.previousChannelKeys
  fileKeys : s'.files.channelKeys = s.files.channelKeys
  filePrevious : s'.files.previousChannelKeys = s.files.previousChannelKeys

namespace KeysKept

theorem trans {t u : AppState} (h : KeysKept s t) (h' : KeysKept t u) : KeysKept s u where
  channelKeys := h'.channelKeys.trans h.channelKeys
  previousChannelKeys := h'.previousChannelKeys.trans h.previousChannelKeys
  fileKeys := h'.fileKeys.trans h.fileKeys
  filePrevious := h'.filePrevious.trans h.filePrevious

theorem hasKey_iff (h : KeysKept s s') (x : String) : HasKey s' x ↔ HasKey s x := by
  unfold HasKey HasPrevious
  rw [h.channelKeys, h.previousChannelKeys, h.fileKeys, h.filePrevious]

end KeysKept

section

variable {P : Prims} {env : Env} {s : AppState}

/-! ### Writes that leave the keys alone -/

theorem keysKept_storeCreated (s : AppState) (p : CreateCommunityParams) (fp : Key) :
    KeysKept s (s.storeCreated P env p fp) := by
  unfold storeCreated putPassword
  cases p.hostingPassword <;> exact ⟨rfl, rfl, rfl, rfl⟩

theorem keysKept_storeInvited (s : AppState) (id : CommunityId) (pk : Key) (invite : InvitePayload)
    (password : Option String) : KeysKept s (s.storeInvited P env id pk invite password) := by
  unfold storeInvited putPassword
  cases password <;> exact ⟨rfl, rfl, rfl, rfl⟩

theorem keysKept_storeRotation (s : AppState) (p : ChannelParams) (ch : ChannelManifest)
    (key : Key) : KeysKept s (s.storeRotation p ch key) := by
  unfold storeRotation
  split <;> exact ⟨rfl, rfl, rfl, rfl⟩

theorem AppState.ChannelWrite.keysKept (h : ChannelWrite P replaying s ev s') : KeysKept s s' := by
  cases h <;> exact ⟨rfl, rfl, rfl, rfl⟩

/-! ### The channels after gossip -/

theorem mem_wrapForJoiner (env : Env) (s : AppState) (r : MembershipRecord) :
    x ∈ (wrapForJoiner P env s r).1 ↔ x ∈ s.channels := by
  have hloop : ∀ (l : List (String × Nat))
      (acc : Dict String ChannelManifest × List NetworkCommand),
      x ∈ (l.foldl (wrapForJoinerStep P env s.channelKeys r) acc).1 ↔ x ∈ acc.1 := by
    intro l
    induction l with
    | nil => exact fun acc => Iff.rfl
    | cons channel l ih =>
      intro acc
      rw [List.foldl_cons, ih]
      unfold wrapForJoinerStep
      split
      · next key ch _ hch =>
        split
        · exact Iff.rfl
        · exact Dict.mem_insert_of_lookup hch _
      · exact Iff.rfl
  unfold wrapForJoiner
  split
  · split
    · exact hloop _ _
    · exact Iff.rfl
  · exact Iff.rfl

/-- A message on a channel topic neither adds nor removes a channel: a rotation is for one that the
node has. -/
theorem AppState.ChannelWrite.mem_channels
    (h : ChannelWrite P replaying s ev s') : x ∈ s'.channels ↔ x ∈ s.channels := by
  have htaken : ∀ {pk : Key} {payload : ChannelKeyRotationPayload},
      RotationTaken P s pk payload →
      (x ∈ s.channels.insert payload.newManifest.id.text payload.newManifest ↔
        x ∈ s.channels) := by
    intro pk payload htaken
    have hnewer := htaken.newer
    unfold isNewerChannel at hnewer
    split at hnewer
    · next current hcurrent => exact Dict.mem_insert_of_lookup hcurrent _
    · cases hnewer
  cases h with
  | rotated _ hrotation => exact htaken hrotation
  | rotationStalled _ hrotation => exact htaken hrotation
  | _ => exact Iff.rfl

/-! ### What removals leave -/

theorem hasKey_removeCommunityLocal (s : AppState) (c x : String) :
    HasKey (s.removeCommunityLocal c) x ↔
      (x ∉ channelIdsOf s.toTables c ∧ x ∈ s.channelKeys) ∨ HasPrevious s x := by
  have hkeys : x ∈ s.channelKeys.eraseAll (channelIdsOf s.toTables c) ↔
      x ∉ channelIdsOf s.toTables c ∧ x ∈ s.channelKeys := Dict.mem_eraseAll
  show _ ∨ _ ∨ HasPrevious s x ↔ _
  rw [← or_assoc, ← hkeys]
  exact or_congr_left or_self_iff

theorem hasKey_of_removeCommunityLocal (h : HasKey (s.removeCommunityLocal c) x) : HasKey s x := by
  rcases (hasKey_removeCommunityLocal s c x).mp h with h | h
  · exact .inl h.2
  · exact .inr (.inr h)

theorem hasKey_removed_community (hx : x ∈ s.channels)
    (hgone : x ∉ (s.removeCommunityLocal c).channels) :
    HasKey (s.removeCommunityLocal c) x ↔ HasPrevious s x := by
  have hid : x ∈ channelIdsOf s.toTables c := by
    by_contra hid
    exact hgone (Dict.mem_eraseAll.mpr ⟨hid, hx⟩)
  rw [hasKey_removeCommunityLocal]
  exact or_iff_right fun h => h.1 hid

theorem hasKey_eraseChannel (s : AppState) (y x : String) :
    HasKey (s.eraseChannel y) x ↔ (x ≠ y ∧ x ∈ s.channelKeys) ∨ HasPrevious s x := by
  have hkeys : x ∈ s.channelKeys.erase y ↔ x ≠ y ∧ x ∈ s.channelKeys := AList.mem_erase
  show _ ∨ _ ∨ HasPrevious s x ↔ _
  rw [← or_assoc, ← hkeys]
  exact or_congr_left or_self_iff

theorem hasKey_of_eraseChannel (h : HasKey (s.eraseChannel y) x) : HasKey s x := by
  rcases (hasKey_eraseChannel s y x).mp h with h | h
  · exact .inl h.2
  · exact .inr (.inr h)

/-! ### What installs keys -/

theorem mem_keys_install {key : Key} : x ∈ (ring.install y key).keys ↔ x = y ∨ x ∈ ring.keys := by
  rw [← AList.lookup_isSome, ← AList.lookup_isSome, KeyRing.lookup_install]
  by_cases h : x = y <;> simp [h]

theorem of_mem_previous_install {key : Key}
    (h : x ∈ (ring.install y key).previous) : x = y ∨ x ∈ ring.previous := by
  unfold KeyRing.install at h
  split at h
  · split at h
    · exact .inr h
    · exact (AList.mem_insert _).mp h
  · exact .inr h

theorem hasKey_of_putKey {key : Key} (h : HasKey (s.putKey y key) x) : x = y ∨ HasKey s x := by
  have hkeys : x ∈ ((KeyRing.of s.toTables).install y key).keys → x = y ∨ HasKey s x :=
    fun hx => (mem_keys_install.mp hx).imp_right .inl
  have hprevious : x ∈ ((KeyRing.of s.toTables).install y key).previous → x = y ∨ HasKey s x :=
    fun hx => (of_mem_previous_install hx).imp_right fun h => .inr (.inr (.inl h))
  rcases h with h | h | h | h
  · exact hkeys h
  · exact hkeys h
  · exact hprevious h
  · have hfile : x ∈ (if ((KeyRing.of s.toTables).install y key).rotated.isEmpty then
        s.files.previousChannelKeys else ((KeyRing.of s.toTables).install y key).previous) := h
    split at hfile
    · exact .inr (.inr (.inr (.inr hfile)))
    · exact hprevious hfile

theorem hasKey_of_storeChannelCreated {old : SignedManifest} {ch : ChannelManifest} {key : Key}
    (h : HasKey (s.storeChannelCreated P c old ch key) x) : x = ch.id.text ∨ HasKey s x := by
  have hkeys : x ∈ s.channelKeys.insert ch.id.text key → x = ch.id.text ∨ HasKey s x :=
    fun hx => ((AList.mem_insert _).mp hx).imp_right .inl
  rcases h with h | h | h
  · exact hkeys h
  · exact hkeys h
  · exact .inr (.inr (.inr h))

theorem keysKept_settleManifest (env : Env) (s : AppState) (m : ManifestReceived)
    (rotated : List String) (b : Bool) : KeysKept s (s.settleManifest P env m rotated b) := by
  refine settleManifest_rel (R := KeysKept) (fun _ _ _ => ⟨rfl, rfl, rfl, rfl⟩) .trans
    (fun s => ?_) (fun _ _ _ => ⟨rfl, rfl, rfl, rfl⟩) (fun h => ?_) env s rotated b
  · unfold receiveMembership
    cases m.members.isEmpty <;> exact ⟨rfl, rfl, rfl, rfl⟩
  · cases h
    exact ⟨rfl, rfl, rfl, rfl⟩

theorem keysKept_afterReplay (s : AppState) (m : ManifestReceived) :
    KeysKept (s.receiveTables P m) (s.afterReplay P m) :=
  afterReplay_rel (fun _ _ => ⟨rfl, rfl, rfl, rfl⟩) .trans (fun _ h => h.keysKept)
    (fun _ _ => ⟨rfl, rfl, rfl, rfl⟩) m

/-- The keys after a response are those that its first part installs. -/
theorem keysKept_handleManifestReceived (env : Env)
    (hverify : m.manifest.verify P = true) (hlive : m.manifest.manifest.deleted = false) :
    KeysKept (s.receiveTables P m) (s.handleManifestReceived P env m) := by
  rw [handleManifestReceived_of_live env hverify hlive]
  split
  · exact keysKept_afterReplay s m
  · exact (keysKept_afterReplay s m).trans (keysKept_settleManifest env _ m _ _)

variable (P s) in
/-- The node has a key of the channel, or the response brings one: wrapped for the node, or in
plaintext. -/
def KeyArrives (m : ManifestReceived) (x : String) : Prop :=
  s.successiveKeys P m x ≠ [] ∨ (m.plainKey? x).isSome = true

theorem mem_channelKeys_receiveTables :
    x ∈ (s.receiveTables P m).channelKeys ↔ KeyArrives P s m x := by
  have hlookup : (s.receiveTables P m).channelKeys.lookup x =
      (s.successiveKeys P m x).getLast?.or (m.plainKey? x) :=
    congrFun (congrArg View.key (view_receiveTables s m)) x
  rw [← AList.lookup_isSome, hlookup, Option.isSome_or, Bool.or_eq_true, List.getLast?_isSome]
  rfl

/-- A key that a response replaces was the node's own or came with the response. -/
theorem of_mem_previous_receiveKeys
    (h : x ∈ (s.receiveKeys P m).previous) : x ∈ s.previousChannelKeys ∨ KeyArrives P s m x := by
  have hlookup : (s.receiveKeys P m).previous.lookup x =
      ((s.successiveKeys P m x).reverse.find? fun k =>
        decide (some k ≠ (s.successiveKeys P m x).getLast?)).or (s.previousChannelKeys.lookup x) :=
    (follows_receiveRing s m x).previous
  rw [← AList.lookup_isSome, hlookup, Option.isSome_or, Bool.or_eq_true] at h
  rcases h with h | h
  · refine .inr (.inl fun hnil => ?_)
    rw [hnil] at h
    cases h
  · exact .inl (AList.lookup_isSome.mp h)

theorem hasKey_receiveTables (hx : ¬ HasKey s x) :
    HasKey (s.receiveTables P m) x ↔ KeyArrives P s m x := by
  have hprevious : x ∈ (s.receiveKeys P m).previous → KeyArrives P s m x := fun h =>
    (of_mem_previous_receiveKeys h).resolve_left fun hold => hx (.inr (.inr (.inl hold)))
  constructor
  · rintro (h | h | h | h)
    · exact mem_channelKeys_receiveTables.mp h
    · exact mem_channelKeys_receiveTables.mp h
    · exact hprevious h
    · have hfile : x ∈ (if (s.receiveKeys P m).rotated.isEmpty then s.files.previousChannelKeys
          else (s.receiveKeys P m).previous) := h
      split at hfile
      · exact absurd (.inr (.inr (.inr hfile))) hx
      · exact hprevious hfile
  · intro h
    exact .inl (mem_channelKeys_receiveTables.mpr h)

/-! ### What a restart loads -/

theorem exists_mem_metaEntries {α : Type} {f : SignedManifest → CommunityMeta → List (String × α)} :
    x ∈ (st.metaEntries f).map Prod.fst ↔
      MetaHas st fun signed m => x ∈ (f signed m).map Prod.fst := by
  constructor
  · intro h
    obtain ⟨e, he, hx⟩ := List.mem_map.mp h
    obtain ⟨cpk, -, m, hm, hprovided⟩ := NodeStore.mem_metaEntries.mp he
    unfold NodeStore.provided at hprovided
    cases hman : m.manifest with
    | none =>
      rw [hman] at hprovided
      cases hprovided
    | some signed =>
      rw [hman] at hprovided
      exact ⟨cpk, m, signed, hm, hman, List.mem_map.mpr ⟨e, hprovided, hx⟩⟩
  · rintro ⟨cpk, m, signed, hm, hman, h⟩
    obtain ⟨e, he, hx⟩ := List.mem_map.mp h
    refine List.mem_map.mpr ⟨e, NodeStore.mem_metaEntries.mpr
      ⟨cpk, NodeStore.mem_allCommunities hm, m, hm, ?_⟩, hx⟩
    unfold NodeStore.provided
    rw [hman]
    exact he

/-- The stored metadata of a community, with a manifest, have a key of the channel. -/
def StoreHasKey (s : AppState) (x : String) : Prop :=
  ∃ st, s.nodeStore = some st ∧ MetaHas st fun _ m => x ∈ (keyEntries m.channelKeys).map Prod.fst

theorem sameTables_restart (hst : s.nodeStore = some st) :
    SameTables (loadedTables s.files st) (s.restart P).toTables := by
  obtain ⟨hc, hch, hk, hp⟩ := sameTables_backPopulateAll s.files st
  unfold restart
  rw [hst]
  exact ⟨hc, hch, hk, hp⟩

theorem sameTables_restart_none (hst : s.nodeStore = none) :
    SameTables s.files (s.restart P).toTables := by
  unfold restart
  rw [hst]
  exact ⟨rfl, rfl, rfl, rfl⟩

theorem mem_channelKeys_restart :
    x ∈ (s.restart P).channelKeys ↔ StoreHasKey s x ∨ x ∈ s.files.channelKeys := by
  unfold StoreHasKey
  cases hst : s.nodeStore with
  | none =>
    rw [(sameTables_restart_none hst).channelKeys]
    simp
  | some st =>
    rw [(sameTables_restart hst).channelKeys]
    refine Dict.mem_orInsertAll.trans (or_congr_left ?_)
    rw [exists_mem_metaEntries]
    simp [storedKeys]

theorem previousChannelKeys_restart :
    (s.restart P).previousChannelKeys = s.files.previousChannelKeys := by
  cases hst : s.nodeStore with
  | none => exact (sameTables_restart_none hst).previousChannelKeys
  | some st => exact (sameTables_restart hst).previousChannelKeys

theorem hasKey_restart (hx : ¬ HasKey s x) : HasKey (s.restart P) x ↔ StoreHasKey s x := by
  unfold HasKey HasPrevious at hx ⊢
  rw [previousChannelKeys_restart, mem_channelKeys_restart]
  have hfiles : (s.restart P).files = s.files := rfl
  rw [hfiles]
  tauto

end

/-! ## The keys of removed channels -/

/-- A node, with the channels that were removed from its table and have not come back. -/
structure Removals where
  node : Node
  removed : List String

/-- The input can remove channels by a deletion, by a `ManifestUpdate` or together with their
community. -/
def NodeInput.removesChannels : NodeInput → Bool
  | .rpc _ (.channelDelete _) => true
  | .rpc _ (.communityLeave _) => true
  | .rpc _ (.communityDelete _) => true
  | .event _ (.communityJoinFailed _ _) => true
  | .event _ (.messageReceived _ _ _) => true
  | .event _ (.manifestReceived m) => m.manifest.manifest.deleted
  | _ => false

section

variable (P : Prims)

def removedBy (n : Node) (i : NodeInput) : List String :=
  if i.removesChannels then
    n.app.channels.keys.filter fun x => decide (x ∉ (n.step P i).app.channels)
  else []

def Removals.step (t : Removals) (i : NodeInput) : Removals :=
  let node := t.node.step P i
  ⟨node, (t.removed ++ removedBy P t.node i).filter fun x => decide (x ∉ node.app.channels)⟩

/-- No key of a removed channel is left. -/
def Removals.KeysGone (t : Removals) : Prop := ∀ x ∈ t.removed, ¬ HasKey t.node.app x

def isTombstone (data : Bytes) : Bool :=
  match P.decodeEvent data with
  | some (.manifestUpdate new) => new.manifest.deleted
  | _ => false

/-- What the removal of a channel leaves: its previous key and, where a `ManifestUpdate` replaces
the manifest, its key too. -/
def LeavesKey (s : AppState) : NodeInput → String → Prop
  | .event _ (.messageReceived _ data _), x =>
    if isTombstone P data then HasPrevious s x else HasKey s x
  | _, x => HasPrevious s x

/-- The input installs a key whether or not the node has the channel: a manifest response, or a
restart that finds a key in the store. -/
def BringsKey (s : AppState) : NodeInput → String → Prop
  | .event _ (.manifestReceived m), x =>
    s.blocked = false ∧ m.manifest.verify P = true ∧ m.manifest.manifest.deleted = false ∧
      KeyArrives P s m x
  | .restart _, x => StoreHasKey s x
  | _, _ => False

/-- The condition on one input: what it removes had no key that it leaves, and it brings no key of
a channel that is gone. -/
def TakesKeys (t : Removals) (i : NodeInput) : Prop :=
  (∀ x ∈ removedBy P t.node i, ¬ LeavesKey P t.node.app i x) ∧
    ∀ x ∈ t.removed, x ∉ (t.node.step P i).app.channels → ¬ BringsKey P t.node.app i x

end

section

variable {P : Prims} {n : Node} {i : NodeInput} {x : String}

/-! ### Keys that arrive -/

theorem hasKey_of_rpc {env : Env}
    (h : HasKey (s.rpc P env call).1 x) : HasKey s x ∨ x ∈ (s.rpc P env call).1.channels := by
  have hw := rpc_write (P := P) env s call
  generalize (s.rpc P env call).1 = t at h hw ⊢
  cases hw with
  | created _ ht =>
    have hkept := ((keysKept_storeCreated _ _ _).hasKey_iff x).mp h
    rcases ht with rfl | rfl <;> exact .inl hkept
  | invited _ _ ht =>
    rcases ht with rfl | ⟨fp, rfl⟩ <;>
      exact .inl (((keysKept_storeInvited (P := P) s _ _ _ _).hasKey_iff x).mp h)
  | left _ => exact .inl (hasKey_of_removeCommunityLocal h)
  | deleted _ _ => exact .inl (hasKey_of_removeCommunityLocal h)
  | updated _ _ _ ht => rcases ht with rfl | ⟨fp, rfl⟩ <;> exact .inl h
  | channelCreated _ _ _ =>
    rcases hasKey_of_storeChannelCreated h with rfl | h
    · exact .inr ((AList.mem_insert _).mpr (.inl rfl))
    · exact .inl h
  | channelErased _ _ _ => exact .inl (hasKey_of_eraseChannel h)
  | channelDeleted _ _ _ _ => exact .inl (hasKey_of_eraseChannel h)
  | @rotated p ch commands pushes _ _ =>
    have hkept := ((keysKept_storeRotation _ p _ _).hasKey_iff x).mp h
    rcases hasKey_of_putKey hkept with rfl | h
    · refine .inr ?_
      rw [channels_storeRotation]
      exact (AList.mem_insert _).mpr (.inl rfl)
    · exact .inl h
  | _ => exact .inl h

theorem AppState.CommunityWrite.hasKey {env : Env}
    (hw : CommunityWrite P env s ev s') (h : HasKey s' x) : HasKey s x ∨ x ∈ s'.channels := by
  cases hw with
  | keyed _ _ =>
    rcases hasKey_of_putKey h with rfl | h
    · exact .inr ((AList.mem_insert _).mpr (.inl rfl))
    · exact .inl h
  | removed _ _ => exact .inl (hasKey_of_removeCommunityLocal h)
  | _ => exact .inl h

theorem hasKey_of_processEvent {env : Env} (h : HasKey (s.processEvent P env e) x) :
    HasKey s x ∨ x ∈ (s.processEvent P env e).channels ∨ BringsKey P s (.event env e) x := by
  by_cases hold : HasKey s x
  · exact .inl hold
  · have hw := processEvent_write (P := P) env s e
    generalize s.processEvent P env e = t at h hw ⊢
    cases hw with
    | channel _ _ _ hw => exact .inl ((hw.keysKept.hasKey_iff x).mp h)
    | community _ _ _ _ hw => exact (hw.hasKey h).imp_right .inl
    | tombstone _ _ _ => exact .inl (hasKey_of_removeCommunityLocal h)
    | failed _ => exact .inl (hasKey_of_removeCommunityLocal h)
    | @stalled m hs hverify hlive _ =>
      have hkey := ((keysKept_afterReplay s m).hasKey_iff x).mp h
      exact .inr (.inr ⟨hs, hverify, hlive, (hasKey_receiveTables hold).mp hkey⟩)
    | @received m hs hverify hlive _ =>
      have hkey := ((keysKept_afterReplay s m).hasKey_iff x).mp
        (((keysKept_settleManifest env _ m _ _).hasKey_iff x).mp h)
      exact .inr (.inr ⟨hs, hverify, hlive, (hasKey_receiveTables hold).mp hkey⟩)
    | _ => exact .inl h

theorem app_handleRequest_hasKey {conn : Nat} {env : Env} {remote : NodeAddr}
    {req : ClientRequest} :
    HasKey (n.handleRequest P conn env remote req).app x ↔ HasKey n.app x := by
  unfold Node.handleRequest
  cases n.app.nodeStore <;> exact Iff.rfl

theorem hasKey_step_iff (hold : ¬ HasKey n.app x) (hgone : x ∉ (n.step P i).app.channels) :
    HasKey (n.step P i).app x ↔ BringsKey P n.app i x := by
  constructor
  · intro h
    cases i with
    | event env e =>
      rcases hasKey_of_processEvent h with h | h | h
      · exact absurd h hold
      · exact absurd h hgone
      · exact h
    | rpc env call =>
      rcases hasKey_of_rpc h with h | h
      · exact absurd h hold
      · exact absurd h hgone
    | connect conn => exact absurd h hold
    | request conn env remote req => exact absurd (app_handleRequest_hasKey.mp h) hold
    | restart dht => exact (hasKey_restart hold).mp h
  · intro h
    cases i with
    | restart dht => exact (hasKey_restart hold).mpr h
    | event env e =>
      cases e with
      | manifestReceived m =>
        obtain ⟨hblocked, hverify, hlive, harrives⟩ := h
        change HasKey (n.app.processEvent P env (.manifestReceived m)) x
        rw [processEvent_received env m hblocked,
          (keysKept_handleManifestReceived env hverify hlive).hasKey_iff x]
        exact (hasKey_receiveTables hold).mpr harrives
      | _ => cases h
    | _ => cases h

/-! ### Keys that stay -/

theorem mem_removedBy : x ∈ removedBy P n i ↔
    i.removesChannels = true ∧ x ∈ n.app.channels ∧ x ∉ (n.step P i).app.channels := by
  unfold removedBy
  split
  · next h =>
    simp only [List.mem_filter, AList.mem_keys, decide_eq_true_iff]
    exact (and_iff_right h).symm
  · next h => exact ⟨fun hx => (by cases hx), fun hx => absurd hx.1 h⟩

theorem AppState.CommunityWrite.hasKey_removed {env : Env}
    {data : Bytes} (hw : CommunityWrite P env s ev s') (hd : P.decodeEvent data = some ev)
    (hx : x ∈ s.channels) (hgone : x ∉ s'.channels) :
    HasKey s' x ↔ if isTombstone P data then HasPrevious s x else HasKey s x := by
  have hinsert : ∀ (y : String) (ch : ChannelManifest), x ∈ s.channels.insert y ch :=
    fun y ch => (AList.mem_insert _).mpr (.inr hx)
  unfold isTombstone
  rw [hd]
  cases hw with
  | listed _ _ => exact absurd (hinsert _ _) hgone
  | keyed _ _ => exact absurd (hinsert _ _) hgone
  | removed _ hdeleted =>
    rw [if_pos hdeleted]
    exact hasKey_removed_community hx hgone
  | updated _ hlive =>
    rw [if_neg (fun h => by cases hlive.symm.trans h)]
    exact Iff.rfl
  | @joined r commands pushes _ => exact absurd ((mem_wrapForJoiner env s r).mpr hx) hgone
  | left _ _ => exact absurd hx hgone
  | roleUpdated _ _ => exact absurd hx hgone
  | present => exact absurd hx hgone

theorem hasKey_removed_event {env : Env}
    (hremoves : (NodeInput.event env e).removesChannels = true) (hx : x ∈ s.channels)
    (hgone : x ∉ (s.processEvent P env e).channels) :
    HasKey (s.processEvent P env e) x ↔ LeavesKey P s (.event env e) x := by
  have hw := processEvent_write (P := P) env s e
  generalize s.processEvent P env e = t at hgone hw ⊢
  cases hw with
  | aside => exact absurd hx hgone
  | channel _ _ _ hw => exact absurd (hw.mem_channels.mpr hx) hgone
  | community _ _ _ hd hw => exact hw.hasKey_removed hd hx hgone
  | tombstone _ _ _ => exact hasKey_removed_community hx hgone
  | failed _ => exact hasKey_removed_community hx hgone
  | stalled _ _ hlive _ => cases hlive.symm.trans hremoves
  | received _ _ hlive _ => cases hlive.symm.trans hremoves
  | _ => cases hremoves

theorem hasKey_removed_rpc {env : Env}
    (hremoves : (NodeInput.rpc env call).removesChannels = true) (hx : x ∈ s.channels)
    (hgone : x ∉ (s.rpc P env call).1.channels) :
    HasKey (s.rpc P env call).1 x ↔ HasPrevious s x := by
  have herased : ∀ y, x ∉ s.channels.erase y → (HasKey (s.eraseChannel y) x ↔ HasPrevious s x) := by
    intro y hgone
    rw [hasKey_eraseChannel]
    exact or_iff_right fun h => hgone (AList.mem_erase.mpr ⟨h.1, hx⟩)
  have hw := rpc_write (P := P) env s call
  generalize (s.rpc P env call).1 = t at hgone hw ⊢
  cases hw with
  | refused => exact absurd hx hgone
  | left _ => exact hasKey_removed_community hx hgone
  | deleted _ _ => exact hasKey_removed_community hx hgone
  | channelErased _ _ _ => exact herased _ hgone
  | channelDeleted _ _ _ _ => exact herased _ hgone
  | _ => cases hremoves

theorem hasKey_removedBy_iff (h : x ∈ removedBy P n i) :
    HasKey (n.step P i).app x ↔ LeavesKey P n.app i x := by
  obtain ⟨hremoves, hx, hgone⟩ := mem_removedBy.mp h
  cases i with
  | event env e => exact hasKey_removed_event hremoves hx hgone
  | rpc env call => exact hasKey_removed_rpc hremoves hx hgone
  | _ => cases hremoves

theorem keysGone_step_iff {t : Removals} (h : t.KeysGone) :
    (t.step P i).KeysGone ↔ TakesKeys P t i := by
  have hmem : ∀ x, x ∈ (t.step P i).removed ↔
      (x ∈ t.removed ∨ x ∈ removedBy P t.node i) ∧ x ∉ (t.node.step P i).app.channels := by
    intro x
    unfold Removals.step
    simp only [List.mem_filter, List.mem_append, decide_eq_true_iff]
  constructor
  · intro hgone
    refine ⟨fun x hx => ?_, fun x hx hout => ?_⟩
    · have hout := (mem_removedBy.mp hx).2.2
      rw [← hasKey_removedBy_iff hx]
      exact hgone x ((hmem x).mpr ⟨.inr hx, hout⟩)
    · rw [← hasKey_step_iff (h x hx) hout]
      exact hgone x ((hmem x).mpr ⟨.inl hx, hout⟩)
  · rintro ⟨hnew, hold⟩ x hx
    obtain ⟨hx | hx, hout⟩ := (hmem x).mp hx
    · exact fun hkey => hold x hx hout ((hasKey_step_iff (h x hx) hout).mp hkey)
    · exact fun hkey => hnew x hx ((hasKey_removedBy_iff hx).mp hkey)

end

/-- In every run of a node, no removed channel ever has a key in the tables or in the files, if and
only if no input removes a channel whose key it leaves, and none brings a key of a removed
channel. -/
theorem removed_keys_gone_iff (P : Prims) (n : Node) (is : List NodeInput) :
    (∀ pre, pre <+: is → (run (Removals.step P) ⟨n, []⟩ pre).KeysGone) ↔
      Along (Removals.step P) (TakesKeys P) ⟨n, []⟩ is :=
  forall_prefix_iff_along (H := fun _ _ => True) (fun _ _ _ h => keysGone_step_iff h)
    (fun _ hx => by cases hx) (along_of_forall fun _ _ _ => trivial)

/-! ## Keys of channels that are gone -/

namespace Sample

def listing : SignedManifest :=
  (CommunityManifest.mk community "" "" 31 0 [] [channel.id] [] 1 false).sign (prims [] []) 30

/-- The next manifest, without the channel. -/
def dropping : SignedManifest :=
  (CommunityManifest.mk community "" "" 31 0 [] [] [] 2 false).sign (prims [] []) 30

def listingMember : AppState :=
  { withChannel (app 20) channel 70 with
    communities := Dict.insertAll [(community.text, listing)] ∅ }

def createAndDelete : List NodeInput :=
  let p : ChannelParams := ⟨createdId, (ChannelId.mk ((env.skip 1).ulid 0)).text⟩
  [.rpc env (.communityCreate (createParams "name")),
    .rpc (env.skip 1) (.channelCreate ⟨createdId, "general", .text⟩),
    .rpc (env.skip 2) (.channelRotateKey p), .rpc env (.channelDelete p)]

end Sample

open Sample in
/-- The key of a channel stays at a member whose manifest update no longer lists it, and the
previous key of a channel that was rotated once stays at the admin who deletes it. -/
theorem removed_channel_keeps_key :
    ¬ (run (Removals.step (prims [.manifestUpdate dropping] [])) ⟨node listingMember, []⟩
        [.event (gossipEvent 0).1 (gossipEvent 0).2]).KeysGone ∧
      ¬ (run (Removals.step (prims [] [])) ⟨node (app 30), []⟩ createAndDelete).KeysGone := by
  constructor
  · intro h
    exact h channel.id.text (by decide +kernel) (.inl (by decide +kernel))
  · intro h
    exact h (ChannelId.mk ((env.skip 1).ulid 0)).text (by decide +kernel)
      (.inr (.inr (.inl (by decide +kernel))))

end BitCord
