import BitCord.Replay

/-!
# Manifest fetches of a key rotation

The admin of a community announces a new channel key twice: as a `ChannelKeyRotation` on the topic
of the channel and as a `ChannelManifestBroadcast` on the topic of the community. A node that takes
the rotation marks the channel as waiting and fetches a manifest. While the mark is there, each
fetched manifest makes the node fetch another one, until one replaces the key.

If the broadcast comes before the answer to the fetch, no answer replaces the key any more, and the
node fetches for as long as its peers answer (`fetches_unbounded`, `fetches_bounded_iff`).
-/

namespace BitCord

open Lib Lib.Run AppState

variable {s : AppState} {p source : String}

/-! ## The peers that are asked -/

def askedPeer : NetworkCommand → Option String
  | .fetchManifest peerId _ _ => some peerId
  | _ => none

section

variable {P : Prims}

theorem ignoresRoutine_askedPeer : IgnoresRoutine P askedPeer := by
  rintro cmd (_ | _ | _) <;> rfl

theorem settleManifest_asked (env : Env) (s : AppState) (m : ManifestReceived)
    (rotated : List String) (b : Bool) :
    Issues askedPeer s (s.settleManifest P env m rotated b)
      ((s.retryFetch m rotated).filterMap askedPeer) := by
  obtain ⟨t, own, hown, -, hissues⟩ :=
    settleManifest_issues (P := P) ignoresRoutine_askedPeer env s m rotated b
  have hself : own.filterMap askedPeer = [] := by
    rcases hown with rfl | ⟨_, _, _, rfl⟩ <;> rfl
  have hhistory : (historyFetches t m b).filterMap askedPeer = [] := by
    refine List.filterMap_eq_nil_iff.mpr fun cmd hcmd => ?_
    obtain ⟨ch, -, rfl⟩ := of_mem_historyFetches hcmd
    rfl
  rw [hself, hhistory, List.append_nil, List.append_nil] at hissues
  exact hissues

theorem filterMap_retryFetch (s : AppState) (m : ManifestReceived) (rotated : List String) :
    (s.retryFetch m rotated).filterMap askedPeer =
      if ∃ x ∈ m.channelIds, x ∈ s.pendingRotation ∧ x ∉ rotated then
        (((s.peersOf m.communityId).find? fun p => decide (p.peerId ≠ m.source)).map
          fun p => p.peerId).toList
      else [] := by
  have hstale : (m.channelIds.any fun ch =>
      decide (ch ∈ s.pendingRotation) && !rotated.contains ch) = true ↔
        ∃ x ∈ m.channelIds, x ∈ s.pendingRotation ∧ x ∉ rotated := by
    simp
  unfold retryFetch
  dsimp only
  split
  · next h =>
    rw [if_pos (hstale.mp h)]
    cases (s.peersOf m.communityId).find? fun p => decide (p.peerId ≠ m.source) <;> rfl
  · next h =>
    rw [if_neg (fun h' => h (hstale.mpr h'))]
    rfl

theorem connectedPeers_replay (s : AppState) (rotated : List String) :
    (s.replay P rotated).connectedPeers = s.connectedPeers :=
  replay_rel (R := fun s t => t.connectedPeers = s.connectedPeers) (fun _ => rfl)
    (fun h h' => h'.trans h) (fun _ h => by cases h <;> rfl) (fun _ _ => rfl) rotated

end

/-! ## One rotation at a node -/

/-- The answer of an honest peer of the community that has the new key of the channel `x`: it has
the key wrapped for the node. -/
structure HonestAnswer (P : Prims) (s : AppState) (communityId x : String) (pk key : Key)
    (m : ManifestReceived) : Prop where
  verified : m.manifest.verify P = true
  live : m.manifest.manifest.deleted = false
  community : m.communityId = communityId
  communityPk : m.communityPk = pk
  served : x ∈ m.channelIds
  wrapped : ∀ ch ∈ m.channels, ch.id.text = x → s.unwrapOwn P ch = some key

/-- A key rotation as a node meets it: the state of the node before, the two messages of
`channel_rotate_key`, and what the peers of the node answer. -/
structure KeyRotation (P : Prims) where
  start : AppState
  payload : ChannelKeyRotationPayload
  rotationData : Bytes
  broadcastData : Bytes
  communityPk : Key
  key : Key
  /-- What the peers answer. It may change in the course of time. -/
  answers : ManifestReceived → Prop
  running : start.blocked = false
  rotation_decodes : P.decodeEvent rotationData = some (.channelKeyRotation payload)
  broadcast_decodes :
    P.decodeEvent broadcastData = some (.channelManifestBroadcast payload.newManifest)
  /-- If the new manifest wraps a key for the node, it is the new key. -/
  wrapped : ∀ k, start.unwrapOwn P payload.newManifest = some k → k = key
  honest : ∀ m, answers m →
    HonestAnswer P start payload.newManifest.communityId.text payload.newManifest.id.text
      communityPk key m
  /-- No other rotation is under way. -/
  idle : ∀ m, answers m → ∀ x ∈ m.channelIds, x ∉ start.pendingRotation
  /-- Every connected peer of the community answers. -/
  answering : ∀ p ∈ start.peersOf payload.newManifest.communityId.text,
    ∃ m, answers m ∧ m.source = p.peerId

/-- What the node handles. The two messages may come from anyone. -/
inductive RotationStep where
  | rotation (source : Option String)
  | broadcast (source : Option String)
  | answer (m : ManifestReceived)

/-- The node in the course of a rotation. -/
structure RotationState where
  app : AppState
  /-- The rotation has been handled. -/
  rotated : Bool
  /-- The broadcast has been handled. -/
  announced : Bool
  /-- The peers whose answer is outstanding. -/
  asked : List String
  /-- How many manifests have been fetched. -/
  fetches : Nat

variable {i : Env × RotationStep} {σ : RotationState}

namespace KeyRotation

variable {P : Prims} (x : KeyRotation P)

def channelId : String := x.payload.newManifest.id.text

def communityId : String := x.payload.newManifest.communityId.text

def init : RotationState := ⟨x.start, false, false, [], 0⟩

def event : RotationStep → SwarmEvent
  | .rotation source => .messageReceived (channelTopic x.channelId) x.rotationData source
  | .broadcast source => .messageReceived (communityTopic x.communityId) x.broadcastData source
  | .answer m => .manifestReceived m

/-- The peers whose answer is still outstanding when the event is taken from the queue. -/
def outstanding (asked : List String) : RotationStep → List String
  | .answer m => asked.erase m.source
  | _ => asked

def step (σ : RotationState) (i : Env × RotationStep) : RotationState :=
  let app := σ.app.processEvent P i.1 (x.event i.2)
  let new := (app.commands.drop σ.app.commands.length).filterMap askedPeer
  { app
    rotated := σ.rotated || match i.2 with | .rotation _ => true | _ => false
    announced := σ.announced || match i.2 with | .broadcast _ => true | _ => false
    asked := outstanding σ.asked i.2 ++ new
    fetches := σ.fetches + new.length }

/-- Each of the two messages comes once, and an answer only after a request. -/
def Enabled (σ : RotationState) (i : Env × RotationStep) : Prop :=
  match i.2 with
  | .rotation _ => σ.rotated = false
  | .broadcast _ => σ.announced = false
  | .answer m => x.answers m ∧ m.source ∈ σ.asked

/-- An order in which the events of the rotation are handled. -/
def Order (l : List (Env × RotationStep)) : Prop := Along x.step x.Enabled x.init l

/-- The number of manifests that the node fetches in an order. -/
def fetches (l : List (Env × RotationStep)) : Nat := (run x.step x.init l).fetches

/-! ### The conditions -/

def Accepted (s : AppState) : Prop := ∃ pk, RotationTaken P s pk x.payload

def OnePeer : Prop :=
  ∀ p ∈ x.start.peersOf x.communityId, ∀ q ∈ x.start.peersOf x.communityId, p.peerId = q.peerId

/-- An answer replaces the key of the channel: the node has an older one, and it is not the admin,
who takes no wrapped keys. -/
def Replaceable (s : AppState) : Prop :=
  x.communityPk ≠ x.start.ownPk P ∧
    ∃ old, s.channelKeys.lookup x.channelId = some old ∧ old ≠ x.key

def IsPeer (peerId : String) : Prop := ∃ p ∈ x.start.peersOf x.communityId, p.peerId = peerId

/-- The broadcast brings the node no key. -/
def NotWrapped : Prop := x.start.unwrapOwn P x.payload.newManifest = none

/-- The broadcast is not handled while an answer is outstanding. -/
def Unhurried (σ : RotationState) (i : Env × RotationStep) : Prop :=
  ∀ source, i.2 = .broadcast source → σ.asked = []

/-! ### The two messages -/

theorem step_of_issues {l : List String}
    (h : Issues askedPeer σ.app (σ.app.processEvent P i.1 (x.event i.2)) l) :
    (x.step σ i).asked = outstanding σ.asked i.2 ++ l ∧
      (x.step σ i).fetches = σ.fetches + l.length := by
  unfold step
  dsimp only
  rw [h.filterMap_drop]
  exact ⟨rfl, rfl⟩

theorem processEvent_rotation (hs : s.blocked = false) (env : Env) (source : Option String) :
    s.processEvent P env (x.event (.rotation source)) =
      s.handleChannelKeyRotation P false x.payload := by
  unfold processEvent event
  rw [if_neg (by rw [hs]; decide)]
  dsimp only
  rw [if_pos (isChannelTopic_channelTopic _)]
  unfold handleChannelMessage
  rw [x.rotation_decodes]

theorem processEvent_broadcast (hs : s.blocked = false) (env : Env) (source : Option String) :
    s.processEvent P env (x.event (.broadcast source)) =
      s.handleChannelManifestBroadcast P x.payload.newManifest := by
  unfold processEvent event
  rw [if_neg (by rw [hs]; decide)]
  dsimp only
  rw [if_neg (by rw [isChannelTopic_communityTopic]; decide),
    if_pos (isCommunityTopic_communityTopic _)]
  unfold handleCommunityMessage
  rw [x.broadcast_decodes]

theorem handleRotation_of_not (h : ¬ x.Accepted s) :
    s.handleChannelKeyRotation P false x.payload = s := by
  unfold handleChannelKeyRotation
  dsimp only
  split
  · rfl
  · next pk hpk =>
    split
    · rfl
    · next hverified =>
      split
      · rfl
      · next hnewer =>
        exact absurd ⟨pk, hpk, by simpa using hverified, by simpa using hnewer⟩ h

/-- What holds of the node throughout: it runs, its peers are the same, and among the channels that
the peers serve only the rotated one is marked, with no message waiting. -/
structure Ready (s : AppState) : Prop where
  blocked : s.blocked = false
  signingKey : s.signingKey = x.start.signingKey
  peers : s.peersOf x.communityId = x.start.peersOf x.communityId
  waiting : ∀ m, x.answers m → ∀ y ∈ m.channelIds, ∀ buf, s.pendingRotation.lookup y = some buf →
    y = x.channelId ∧ buf = []

theorem ready_start : x.Ready x.start where
  blocked := x.running
  signingKey := rfl
  peers := rfl
  waiting m hm y hy buf hbuf := by
    rw [AList.lookup_eq_none.mpr (x.idle m hm y hy)] at hbuf
    cases hbuf

variable {x} in
theorem Ready.ownPk (h : x.Ready s) : s.ownPk P = x.start.ownPk P :=
  congrArg P.verifyingKey h.signingKey

variable {x} in
theorem Ready.unwrapOwn (h : x.Ready s) (ch : ChannelManifest) :
    s.unwrapOwn P ch = x.start.unwrapOwn P ch := by
  unfold AppState.unwrapOwn ownUserId AppState.ownPk
  rw [h.signingKey]

theorem rotation_spec (h : x.Ready s) (haccepted : x.Accepted s) :
    x.Ready (s.handleChannelKeyRotation P false x.payload) ∧
      x.channelId ∈ (s.handleChannelKeyRotation P false x.payload).pendingRotation ∧
      (s.handleChannelKeyRotation P false x.payload).channelKeys = s.channelKeys ∧
      Issues askedPeer s (s.handleChannelKeyRotation P false x.payload)
        (x.start.preferredPeer x.communityId).toList := by
  obtain ⟨pk, htaken⟩ := haccepted
  have hpreferred : s.preferredPeer x.communityId = x.start.preferredPeer x.communityId := by
    unfold preferredPeer
    rw [h.peers]
  unfold handleChannelKeyRotation
  dsimp only
  rw [htaken.community]
  dsimp only
  rw [htaken.verified, htaken.newer, if_neg (by decide), if_neg (by decide), if_neg (by decide)]
  refine ⟨⟨h.blocked, h.signingKey, h.peers, ?_⟩, ?_, rfl, _, rfl, ?_⟩
  · intro m hm y hy buf hbuf
    rw [Dict.lookup_orInsert] at hbuf
    split at hbuf
    · next heq =>
      refine ⟨heq, ?_⟩
      rw [← heq] at hbuf
      cases hold : s.pendingRotation.lookup y with
      | none =>
        rw [hold] at hbuf
        exact (Option.some.inj hbuf).symm
      | some old =>
        rw [hold] at hbuf
        rw [← Option.some.inj hbuf]
        exact (h.waiting m hm y hy old hold).2
    · exact h.waiting m hm y hy buf hbuf
  · exact Dict.mem_orInsert.mpr (.inl rfl)
  · rw [← hpreferred]
    cases hpeer : s.preferredPeer x.communityId with
    | none =>
      show (((s.preferredPeer x.communityId).map _).toList).filterMap _ = _
      rw [hpeer]
      rfl
    | some peer =>
      show (((s.preferredPeer x.communityId).map _).toList).filterMap _ = _
      rw [hpeer]
      rfl

/-- The broadcast asks no peer and leaves the mark, and the rotation is not newer afterwards. -/
theorem broadcast_spec (h : x.Ready s) :
    x.Ready (s.handleChannelManifestBroadcast P x.payload.newManifest) ∧
      (s.handleChannelManifestBroadcast P x.payload.newManifest).pendingRotation =
        s.pendingRotation ∧
      ¬ x.Accepted (s.handleChannelManifestBroadcast P x.payload.newManifest) ∧
      Issues askedPeer s (s.handleChannelManifestBroadcast P x.payload.newManifest) [] := by
  have hnot : ∀ t : AppState,
      t.channels.lookup x.channelId = some x.payload.newManifest → ¬ x.Accepted t := by
    rintro t ht ⟨pk, htaken⟩
    have hnewer := htaken.newer
    unfold isNewerChannel at hnewer
    rw [show t.channels.lookup x.payload.newManifest.id.text = _ from ht] at hnewer
    exact absurd (of_decide_eq_true hnewer) (UInt64.lt_irrefl _)
  have hinsert : (s.channels.insert x.channelId x.payload.newManifest).lookup x.channelId =
      some x.payload.newManifest := AList.lookup_insert _
  unfold handleChannelManifestBroadcast
  dsimp only
  split
  · next hunknown =>
    refine ⟨h, rfl, ?_, .of_eq rfl⟩
    rintro ⟨pk, htaken⟩
    exact absurd (htaken.community.symm.trans hunknown) (by simp)
  · next pk _ =>
    split
    · refine ⟨⟨h.blocked, h.signingKey, h.peers, h.waiting⟩, rfl, hnot _ hinsert, ?_⟩
      refine ⟨_, List.append_assoc _ _ _, ?_⟩
      unfold catchUp
      split <;> rfl
    · exact ⟨⟨h.blocked, h.signingKey, h.peers, h.waiting⟩, rfl, hnot _ hinsert, _, rfl, rfl⟩

theorem lookup_broadcast {pk : Key} (hpk : communityPk? s.toTables x.communityId = some pk) :
    (s.handleChannelManifestBroadcast P x.payload.newManifest).channelKeys.lookup x.channelId =
      (s.unwrapOwn P x.payload.newManifest).or (s.channelKeys.lookup x.channelId) := by
  unfold handleChannelManifestBroadcast
  dsimp only
  rw [show communityPk? s.toTables x.payload.newManifest.communityId.text = _ from hpk]
  cases hkey : s.unwrapOwn P x.payload.newManifest with
  | none => rfl
  | some key =>
    show ((KeyRing.of s.toTables).install x.channelId key).keys.lookup x.channelId = _
    rw [KeyRing.lookup_install, if_pos rfl, Option.some_or]

theorem channelKeys_broadcast_of_notWrapped (h : x.Ready s) (hnot : x.NotWrapped) :
    (s.handleChannelManifestBroadcast P x.payload.newManifest).channelKeys = s.channelKeys := by
  have hunwrap : s.unwrapOwn P x.payload.newManifest = none := (h.unwrapOwn _).trans hnot
  unfold handleChannelManifestBroadcast
  dsimp only
  split
  · rfl
  · rw [hunwrap]

/-! ### The answers -/

section

variable {x} {s : AppState} {m : ManifestReceived}

theorem Ready.mem_openedKeys_iff (h : x.Ready s) (hm : x.answers m) {k : Key} :
    k ∈ s.openedKeys P m.channels x.channelId ↔ k = x.key := by
  rw [mem_openedKeys]
  constructor
  · rintro ⟨ch, hch, hid, hk⟩
    rw [h.unwrapOwn, (x.honest m hm).wrapped ch hch hid] at hk
    exact (Option.some.inj hk).symm
  · rintro rfl
    obtain ⟨ch, hch, hid⟩ := List.mem_map.mp (x.honest m hm).served
    exact ⟨ch, hch, hid, (h.unwrapOwn ch).trans ((x.honest m hm).wrapped ch hch hid)⟩

/-- An answer replaces the key of the rotated channel exactly when it can be replaced. -/
theorem Ready.replacesKey_iff (h : x.Ready s) (hm : x.answers m) :
    s.ReplacesKey P m x.channelId ↔ x.Replaceable s := by
  unfold ReplacesKey successiveKeys Replaceable
  rw [(x.honest m hm).communityPk, h.ownPk]
  by_cases hadmin : x.communityPk = x.start.ownPk P
  · rw [if_pos hadmin, List.append_nil]
    refine ⟨?_, fun h => absurd hadmin h.1⟩
    rintro ⟨k, hk, k', hk', hne⟩
    rw [Option.mem_toList] at hk hk'
    exact absurd (Option.some.inj (hk.symm.trans hk')) hne
  · rw [if_neg hadmin]
    simp only [List.mem_append, Option.mem_toList, h.mem_openedKeys_iff hm]
    constructor
    · rintro ⟨k, hk | rfl, k', hk' | rfl, hne⟩
      · exact absurd (Option.some.inj (hk.symm.trans hk')) hne
      · exact ⟨hadmin, k, hk, hne⟩
      · exact ⟨hadmin, k', hk', Ne.symm hne⟩
      · exact absurd rfl hne
    · rintro ⟨-, old, hold, hne⟩
      exact ⟨old, .inl hold, x.key, .inr rfl, hne⟩

theorem mem_channelIds_of_replacesKey {y : String} (h : s.ReplacesKey P m y) :
    y ∈ m.channelIds := by
  obtain ⟨k, hk, k', hk', hne⟩ := h
  have hopened : ∀ k, k ∈ (if m.communityPk = s.ownPk P then [] else s.openedKeys P m.channels y) →
      y ∈ m.channelIds := by
    intro k hk
    split at hk
    · cases hk
    · obtain ⟨ch, hch, hid, -⟩ := mem_openedKeys.mp hk
      exact List.mem_map.mpr ⟨ch, hch, hid⟩
  rcases List.mem_append.mp hk with hk | hk
  · rcases List.mem_append.mp hk' with hk' | hk'
    · rw [Option.mem_toList] at hk hk'
      exact absurd (Option.some.inj (hk.symm.trans hk')) hne
    · exact hopened k' hk'
  · exact hopened k hk

theorem Ready.not_stalls (h : x.Ready s) (hm : x.answers m) : ¬ s.Stalls P m := by
  rintro ⟨y, hreplaces, buf, hbuf, msg, hmsg, -⟩
  rw [(h.waiting m hm y (mem_channelIds_of_replacesKey hreplaces) buf hbuf).2] at hmsg
  cases hmsg

theorem addPeer_of_mem {peers : List PeerSummary} {peerId : String} {isAdmin : Bool}
    (h : ∃ p ∈ peers, p.peerId = peerId) : addPeer peers peerId isAdmin = peers := by
  obtain ⟨p, hp, hid⟩ := h
  unfold addPeer
  exact if_pos (List.any_eq_true.mpr ⟨p, hp, decide_eq_true hid⟩)

theorem connectedPeers_afterReplay (s : AppState) (m : ManifestReceived) :
    (s.afterReplay P m).connectedPeers = s.connectedPeers.upsert m.communityId [] fun list =>
      addPeer list m.source (hexText m.communityPk = m.source) := by
  unfold AppState.afterReplay
  dsimp only
  rw [connectedPeers_replay]
  rfl

/-- The state in which the members of an answer are taken in. -/
theorem Ready.afterReplay (h : x.Ready s) (hm : x.answers m) (hpeer : x.IsPeer m.source) :
    (s.afterReplay P m).blocked = false ∧
      (s.afterReplay P m).signingKey = s.signingKey ∧
      (s.afterReplay P m).peersOf x.communityId = s.peersOf x.communityId ∧
      (s.afterReplay P m).channelKeys = (s.receiveKeys P m).keys ∧
      (∀ y, (s.afterReplay P m).pendingRotation.lookup y =
        if y ∈ (s.receiveKeys P m).rotated then none else s.pendingRotation.lookup y) ∧
      (s.afterReplay P m).commands = s.commands := by
  rcases afterReplay_spec (P := P) h.blocked m with ⟨hstalls, -⟩ | ⟨-, hfree, htables⟩
  · exact absurd hstalls (h.not_stalls hm)
  · have hpeers : (s.afterReplay P m).peersOf x.communityId = s.peersOf x.communityId := by
      unfold peersOf
      rw [connectedPeers_afterReplay, (x.honest m hm).community, Dict.lookup_upsert]
      rw [show x.payload.newManifest.communityId.text = x.communityId from rfl, if_pos rfl,
        Option.getD_some]
      refine addPeer_of_mem ?_
      show ∃ p ∈ s.peersOf x.communityId, p.peerId = m.source
      rw [h.peers]
      exact hpeer
    refine ⟨hfree, signingKey_afterReplay s m, hpeers, congrArg Tables.channelKeys htables, ?_, ?_⟩
    · exact pendingRotation_afterReplay h.blocked hfree
    · exact commands_afterReplay s m

theorem Ready.handleManifestReceived_eq (h : x.Ready s) (hm : x.answers m)
    (hpeer : x.IsPeer m.source) (env : Env) :
    ∃ b, s.handleManifestReceived P env m =
      (s.afterReplay P m).settleManifest P env m (s.receiveKeys P m).rotated b := by
  have hfree : ¬ (s.afterReplay P m).blocked = true := by
    rw [(h.afterReplay hm hpeer).1]
    decide
  exact ⟨_, (handleManifestReceived_of_live env (x.honest m hm).verified
    (x.honest m hm).live).trans (if_neg hfree)⟩

/-- After an answer the key of the channel cannot be replaced by another one. -/
theorem Ready.not_replaceable_receiveKeys (h : x.Ready s) (hm : x.answers m) :
    x.communityPk = x.start.ownPk P ∨
      (s.receiveKeys P m).keys.lookup x.channelId = some x.key := by
  by_cases hadmin : x.communityPk = x.start.ownPk P
  · exact .inl hadmin
  · refine .inr ?_
    rw [lookup_receiveKeys, (x.honest m hm).communityPk, h.ownPk, if_neg hadmin]
    have hunwrapped : s.unwrapped? P m x.channelId = some x.key := by
      have hmem := (h.mem_openedKeys_iff hm).mpr rfl
      unfold unwrapped?
      cases hlast : (s.openedKeys P m.channels x.channelId).getLast? with
      | none =>
        rw [List.getLast?_eq_none_iff.mp hlast] at hmem
        cases hmem
      | some k => rw [(h.mem_openedKeys_iff hm).mp (List.mem_of_getLast? hlast)]
    rw [hunwrapped, Option.some_or, Option.some_or]

theorem Ready.answer (h : x.Ready s) (hm : x.answers m) (hpeer : x.IsPeer m.source) (env : Env) :
    x.Ready (s.handleManifestReceived P env m) ∧
      ¬ x.Replaceable (s.handleManifestReceived P env m) := by
  obtain ⟨hfree, hsigning, hpeers, hkeys, hpending, -⟩ := h.afterReplay hm hpeer
  obtain ⟨b, heq⟩ := h.handleManifestReceived_eq hm hpeer env
  have hframe := settleManifest_membersFrame (P := P) env (s.afterReplay P m) m
    (s.receiveKeys P m).rotated b
  rw [← heq] at hframe
  refine ⟨⟨hframe.blocked.trans hfree, (hframe.signingKey.trans hsigning).trans h.signingKey, ?_,
    ?_⟩, ?_⟩
  · unfold peersOf at hpeers ⊢
    rw [hframe.connectedPeers, hpeers]
    exact h.peers
  · intro m' hm' y hy buf hbuf
    rw [hframe.pendingRotation, hpending] at hbuf
    split at hbuf
    · cases hbuf
    · exact h.waiting m' hm' y hy buf hbuf
  · rintro ⟨hadmin, old, hold, hne⟩
    rw [hframe.channelKeys, hkeys] at hold
    rcases h.not_replaceable_receiveKeys hm with hown | hkey
    · exact hadmin hown
    · exact hne (Option.some.inj (hold.symm.trans hkey))

/-- The answers that make the node ask again: those that find the channel marked and leave its key
as it is. -/
theorem Ready.answer_asks_iff (h : x.Ready s) (hm : x.answers m) (hpeer : x.IsPeer m.source) :
    (∃ y ∈ m.channelIds, y ∈ (s.afterReplay P m).pendingRotation ∧
        y ∉ (s.receiveKeys P m).rotated) ↔
      x.channelId ∈ s.pendingRotation ∧ ¬ x.Replaceable s := by
  obtain ⟨-, -, -, -, hpending, -⟩ := h.afterReplay hm hpeer
  have hmem : ∀ y, y ∉ (s.receiveKeys P m).rotated →
      (y ∈ (s.afterReplay P m).pendingRotation ↔ y ∈ s.pendingRotation) := by
    intro y hy
    rw [← AList.lookup_isSome, ← AList.lookup_isSome, hpending, if_neg hy]
  constructor
  · rintro ⟨y, hy, hmarked, hnot⟩
    rw [hmem y hnot] at hmarked
    obtain ⟨buf, hbuf⟩ := Option.isSome_iff_exists.mp (AList.lookup_isSome.mpr hmarked)
    obtain ⟨rfl, -⟩ := h.waiting m hm y hy buf hbuf
    refine ⟨hmarked, fun hreplaceable => hnot ?_⟩
    exact mem_rotated_receiveKeys.mpr ((h.replacesKey_iff hm).mpr hreplaceable)
  · rintro ⟨hmarked, hnot⟩
    have hrotated : x.channelId ∉ (s.receiveKeys P m).rotated := fun hmem =>
      hnot ((h.replacesKey_iff hm).mp (mem_rotated_receiveKeys.mp hmem))
    exact ⟨x.channelId, (x.honest m hm).served, (hmem _ hrotated).mpr hmarked, hrotated⟩

/-- A peer other than the one that answered. -/
def otherPeer (x : KeyRotation P) (source : String) : Option String :=
  ((x.start.peersOf x.communityId).find? fun p => decide (p.peerId ≠ source)).map fun p => p.peerId

theorem Ready.answer_issues (h : x.Ready s) (hm : x.answers m) (hpeer : x.IsPeer m.source)
    (env : Env) :
    (x.channelId ∈ s.pendingRotation ∧ ¬ x.Replaceable s →
        x.channelId ∈ (s.handleManifestReceived P env m).pendingRotation ∧
          Issues askedPeer s (s.handleManifestReceived P env m) (x.otherPeer m.source).toList) ∧
      (¬ (x.channelId ∈ s.pendingRotation ∧ ¬ x.Replaceable s) →
        Issues askedPeer s (s.handleManifestReceived P env m) []) := by
  obtain ⟨-, -, hpeers, -, hpending, hcommands⟩ := h.afterReplay hm hpeer
  obtain ⟨b, heq⟩ := h.handleManifestReceived_eq hm hpeer env
  have hbefore : Issues askedPeer s (s.afterReplay P m) [] := .of_eq hcommands
  have hissues := hbefore.trans
    (settleManifest_asked (P := P) env (s.afterReplay P m) m (s.receiveKeys P m).rotated b)
  rw [← heq, filterMap_retryFetch, List.nil_append] at hissues
  constructor
  · rintro ⟨hmarked, hnot⟩
    rw [if_pos ((h.answer_asks_iff hm hpeer).mpr ⟨hmarked, hnot⟩)] at hissues
    constructor
    · have hframe := settleManifest_membersFrame (P := P) env (s.afterReplay P m) m
        (s.receiveKeys P m).rotated b
      have hrotated : x.channelId ∉ (s.receiveKeys P m).rotated := fun hmem =>
        hnot ((h.replacesKey_iff hm).mp (mem_rotated_receiveKeys.mp hmem))
      rw [heq, hframe.pendingRotation, ← AList.lookup_isSome, hpending, if_neg hrotated]
      exact AList.lookup_isSome.mpr hmarked
    · have hcommunity : m.communityId = x.communityId := (x.honest m hm).community
      rw [hcommunity, hpeers, h.peers] at hissues
      exact hissues
  · intro hnot
    rw [if_neg fun h' => hnot ((h.answer_asks_iff hm hpeer).mp h')] at hissues
    exact hissues

end

/-! ### The course of a rotation -/

/-- The answer of one peer is outstanding, and the channel is marked. -/
structure Waiting (σ : RotationState) (n : Nat) : Prop where
  ready : x.Ready σ.app
  rotated : σ.rotated = true
  asked : ∃ p, x.IsPeer p ∧ σ.asked = [p]
  fetches : σ.fetches = n
  marked : x.channelId ∈ σ.app.pendingRotation

/-- No answer is outstanding, and the node will not ask any more. -/
structure Done (σ : RotationState) (n : Nat) : Prop where
  ready : x.Ready σ.app
  asked : σ.asked = []
  fetches : σ.fetches = n
  settled : σ.rotated = true ∨ (σ.announced = true ∧ ¬ x.Accepted σ.app)

theorem isPeer_of_preferredPeer
    (h : x.start.preferredPeer x.communityId = some p) : x.IsPeer p := by
  obtain ⟨q, hq, hid⟩ := Option.map_eq_some_iff.mp h
  refine ⟨q, ?_, hid⟩
  rcases Option.or_eq_some_iff.mp hq with hfind | ⟨-, hhead⟩
  · exact List.mem_of_find?_eq_some hfind
  · exact List.mem_of_mem_head? hhead

theorem isPeer_of_otherPeer (h : x.otherPeer source = some p) : x.IsPeer p := by
  obtain ⟨q, hq, hid⟩ := Option.map_eq_some_iff.mp h
  exact ⟨q, List.mem_of_find?_eq_some hq, hid⟩

/-- There is no other peer than the one that answered exactly when all are one. -/
theorem otherPeer_eq_none_iff (hpeer : x.IsPeer source) :
    x.otherPeer source = none ↔ x.OnePeer := by
  unfold otherPeer
  rw [Option.map_eq_none_iff, List.find?_eq_none]
  simp only [decide_eq_true_eq, not_not]
  constructor
  · intro h p hp q hq
    exact (h p hp).trans (h q hq).symm
  · rintro hone p hp
    obtain ⟨q, hq, rfl⟩ := hpeer
    exact hone p hp q hq

section

variable {x} {σ : RotationState} {n : Nat} (env : Env)

theorem Done.step (h : x.Done σ n) (hi : x.Enabled σ i) : x.Done (x.step σ i) n := by
  obtain ⟨env, i⟩ := i
  cases i with
  | rotation source =>
    have hnot : ¬ x.Accepted σ.app := by
      rcases h.settled with hrotated | ⟨-, hnot⟩
      · exact absurd (hrotated.symm.trans hi) (by decide)
      · exact hnot
    have happ : (x.step σ (env, .rotation source)).app = σ.app :=
      (x.processEvent_rotation h.ready.blocked env source).trans (x.handleRotation_of_not hnot)
    obtain ⟨hasked, hfetches⟩ := x.step_of_issues (i := (env, .rotation source))
      (l := []) (.of_eq (congrArg AppState.commands happ))
    refine ⟨happ ▸ h.ready, hasked.trans ?_, hfetches.trans h.fetches, .inl ?_⟩
    · exact (List.append_nil _).trans h.asked
    · exact Bool.or_true _
  | broadcast source =>
    obtain ⟨hready, -, hnot, hissues⟩ := x.broadcast_spec h.ready
    rw [← x.processEvent_broadcast h.ready.blocked env source] at hready hnot hissues
    obtain ⟨hasked, hfetches⟩ := x.step_of_issues (i := (env, .broadcast source)) hissues
    refine ⟨hready, hasked.trans ?_, hfetches.trans h.fetches, .inr ⟨Bool.or_true _, hnot⟩⟩
    exact (List.append_nil _).trans h.asked
  | answer m =>
    have hmem := hi.2
    rw [h.asked] at hmem
    cases hmem

/-- The first event is the broadcast: the rotation will not be newer. -/
theorem init_broadcast (source : Option String) :
    x.Done (x.step x.init (env, .broadcast source)) 0 := by
  obtain ⟨hready, -, hnot, hissues⟩ := x.broadcast_spec x.ready_start
  rw [← x.processEvent_broadcast x.running env source] at hready hnot hissues
  obtain ⟨hasked, hfetches⟩ := x.step_of_issues (σ := x.init)
    (i := (env, .broadcast source)) hissues
  exact ⟨hready, hasked, hfetches, .inr ⟨rfl, hnot⟩⟩

theorem init_rotation_of_not (hnot : ¬ x.Accepted x.start) (source : Option String) :
    x.Done (x.step x.init (env, .rotation source)) 0 := by
  have happ : (x.step x.init (env, .rotation source)).app = x.start :=
    (x.processEvent_rotation x.running env source).trans (x.handleRotation_of_not hnot)
  obtain ⟨hasked, hfetches⟩ := x.step_of_issues (σ := x.init) (i := (env, .rotation source))
    (l := []) (.of_eq (congrArg AppState.commands happ))
  exact ⟨happ ▸ x.ready_start, hasked, hfetches, .inl rfl⟩

/-- The first event is a rotation that the node takes: it asks a peer, if there is one. -/
theorem init_rotation (haccepted : x.Accepted x.start) (source : Option String) :
    (x.step x.init (env, .rotation source)).app.channelKeys = x.start.channelKeys ∧
      (x.step x.init (env, .rotation source)).announced = false ∧
      (x.Done (x.step x.init (env, .rotation source)) 0 ∧ x.OnePeer ∨
        x.Waiting (x.step x.init (env, .rotation source)) 1) := by
  obtain ⟨hready, hmarked, hkeys, hissues⟩ := x.rotation_spec x.ready_start haccepted
  rw [← x.processEvent_rotation x.running env source] at hready hmarked hkeys hissues
  obtain ⟨hasked, hfetches⟩ := x.step_of_issues (σ := x.init)
    (i := (env, .rotation source)) hissues
  refine ⟨hkeys, rfl, ?_⟩
  cases hpeer : x.start.preferredPeer x.communityId with
  | none =>
    rw [hpeer] at hasked hfetches
    refine .inl ⟨⟨hready, hasked, hfetches, .inl rfl⟩, ?_⟩
    have hnil : x.start.peersOf x.communityId = [] := by
      unfold preferredPeer at hpeer
      rw [Option.map_eq_none_iff, Option.or_eq_none_iff, List.head?_eq_none_iff] at hpeer
      exact hpeer.2
    intro p hp
    rw [hnil] at hp
    cases hp
  | some p =>
    rw [hpeer] at hasked hfetches
    exact .inr ⟨hready, rfl, ⟨p, x.isPeer_of_preferredPeer hpeer, hasked⟩, hfetches, hmarked⟩

theorem Waiting.broadcast (h : x.Waiting σ n) (source : Option String) :
    x.Waiting (x.step σ (env, .broadcast source)) n := by
  obtain ⟨hready, hpending, -, hissues⟩ := x.broadcast_spec h.ready
  rw [← x.processEvent_broadcast h.ready.blocked env source] at hready hpending hissues
  obtain ⟨hasked, hfetches⟩ := x.step_of_issues (i := (env, .broadcast source)) hissues
  obtain ⟨p, hp, hσ⟩ := h.asked
  refine ⟨hready, ?_, ⟨p, hp, hasked.trans ((List.append_nil _).trans hσ)⟩,
    hfetches.trans h.fetches, ?_⟩
  · exact Bool.or_eq_true_iff.mpr (.inl h.rotated)
  · show x.channelId ∈ (σ.app.processEvent P env (x.event (.broadcast source))).pendingRotation
    rw [hpending]
    exact h.marked

theorem processEvent_answer (h : x.Waiting σ n) (m : ManifestReceived) :
    σ.app.processEvent P env (x.event (.answer m)) = σ.app.handleManifestReceived P env m :=
  processEvent_received env m h.ready.blocked

/-- The answer that is outstanding arrives. If it leaves the key as it is, the node asks another
peer. -/
theorem Waiting.answer (h : x.Waiting σ n) {m : ManifestReceived}
    (hi : x.Enabled σ (env, .answer m)) :
    ¬ x.Replaceable (x.step σ (env, .answer m)).app ∧
      (x.Done (x.step σ (env, .answer m)) n ∧ (x.Replaceable σ.app ∨ x.OnePeer) ∨
        x.Waiting (x.step σ (env, .answer m)) (n + 1) ∧ ¬ x.Replaceable σ.app ∧ ¬ x.OnePeer) := by
  obtain ⟨hm, hsource⟩ := hi
  obtain ⟨p, hp, hσ⟩ := h.asked
  have hpm : m.source = p := by
    rw [hσ] at hsource
    exact List.mem_singleton.mp hsource
  have hpeer : x.IsPeer m.source := hpm ▸ hp
  obtain ⟨hready, hkeys⟩ := h.ready.answer hm hpeer env
  obtain ⟨hagain, hnone⟩ := h.ready.answer_issues hm hpeer env
  rw [← processEvent_answer env h m] at hready hkeys hagain hnone
  have hrest : outstanding σ.asked (.answer m) = [] := by
    show σ.asked.erase m.source = []
    rw [hσ, hpm]
    exact List.erase_cons_head p []
  have hrotated : (x.step σ (env, .answer m)).rotated = true :=
    Bool.or_eq_true_iff.mpr (.inl h.rotated)
  refine ⟨hkeys, ?_⟩
  by_cases hreplaceable : x.Replaceable σ.app
  · obtain ⟨hasked, hfetches⟩ := x.step_of_issues (i := (env, .answer m))
      (hnone fun h' => h'.2 hreplaceable)
    rw [hrest] at hasked
    exact .inl ⟨⟨hready, hasked, hfetches.trans h.fetches, .inl hrotated⟩, .inl hreplaceable⟩
  · obtain ⟨hmarked, hissues⟩ := hagain ⟨h.marked, hreplaceable⟩
    obtain ⟨hasked, hfetches⟩ := x.step_of_issues (i := (env, .answer m)) hissues
    rw [hrest] at hasked
    rw [h.fetches] at hfetches
    cases hother : x.otherPeer m.source with
    | none =>
      rw [hother] at hasked hfetches
      exact .inl ⟨⟨hready, hasked, hfetches, .inl hrotated⟩,
        .inr ((x.otherPeer_eq_none_iff hpeer).mp hother)⟩
    | some q =>
      rw [hother] at hasked hfetches
      refine .inr ⟨⟨hready, hrotated, ⟨q, x.isPeer_of_otherPeer hother, hasked⟩, hfetches,
        hmarked⟩, hreplaceable, fun hone => ?_⟩
      rw [(x.otherPeer_eq_none_iff hpeer).mpr hone] at hother
      cases hother

end

/-! ### The number of fetches -/

/-- Why the fetches end at a step: the rotation is not taken, there is nobody else to ask, or the
key is one that the answer replaces. -/
def Settles (σ : RotationState) (i : Env × RotationStep) : Prop :=
  ¬ x.Accepted x.start ∨ x.OnePeer ∨
    (x.Replaceable x.start ∧ (x.NotWrapped ∨ Unhurried σ i))

/-- What holds after each event while the steps settle. -/
def Bounded (σ : RotationState) : Prop :=
  σ = x.init ∨ (∃ n ≤ 1, x.Done σ n) ∨
    (x.Waiting σ 1 ∧ x.Accepted x.start ∧ (x.OnePeer ∨ x.Replaceable σ.app))

variable {x} in
theorem Bounded.fetches_le (h : x.Bounded σ) : σ.fetches ≤ 1 := by
  rcases h with rfl | ⟨n, hn, hdone⟩ | ⟨hwaiting, -, -⟩
  · exact Nat.zero_le 1
  · exact hdone.fetches.symm ▸ hn
  · exact hwaiting.fetches.le

theorem bounded_init_step (hi : x.Enabled x.init i) (hsettles : x.Settles x.init i) :
    x.Bounded (x.step x.init i) := by
  obtain ⟨env, i⟩ := i
  cases i with
  | rotation source =>
    by_cases haccepted : x.Accepted x.start
    · obtain ⟨hkeys, -, ⟨hdone, -⟩ | hwaiting⟩ := init_rotation (x := x) env haccepted source
      · exact .inr (.inl ⟨0, Nat.zero_le 1, hdone⟩)
      · refine .inr (.inr ⟨hwaiting, haccepted, ?_⟩)
        rcases hsettles with hnot | hone | ⟨⟨hadmin, hold⟩, -⟩
        · exact absurd haccepted hnot
        · exact .inl hone
        · exact .inr ⟨hadmin, hkeys.symm ▸ hold⟩
    · exact .inr (.inl ⟨0, Nat.zero_le 1, init_rotation_of_not env haccepted source⟩)
  | broadcast source => exact .inr (.inl ⟨0, Nat.zero_le 1, init_broadcast env source⟩)
  | answer m => exact absurd hi.2 List.not_mem_nil

theorem bounded_step (σ : RotationState) (i : Env × RotationStep) (h : x.Bounded σ)
    (hi : x.Enabled σ i ∧ x.Settles σ i) : x.Bounded (x.step σ i) := by
  obtain ⟨hi, hsettles⟩ := hi
  rcases h with rfl | ⟨n, hn, hdone⟩ | ⟨hwaiting, haccepted, hstop⟩
  · exact x.bounded_init_step hi hsettles
  · exact .inr (.inl ⟨n, hn, hdone.step hi⟩)
  · obtain ⟨env, i⟩ := i
    cases i with
    | rotation source => exact absurd (hwaiting.rotated.symm.trans hi) (by decide)
    | broadcast source =>
      refine .inr (.inr ⟨hwaiting.broadcast env source, haccepted, ?_⟩)
      obtain ⟨p, -, hasked⟩ := hwaiting.asked
      rcases hsettles with hnot | hone | ⟨-, hnot | hunhurried⟩
      · exact absurd haccepted hnot
      · exact .inl hone
      · -- the broadcast has no key for the node, so the old one is still there
        refine hstop.imp_right fun ⟨hadmin, hold⟩ => ⟨hadmin, ?_⟩
        show ∃ old, (σ.app.processEvent P env (x.event (.broadcast source))).channelKeys.lookup
          x.channelId = some old ∧ old ≠ x.key
        rw [x.processEvent_broadcast hwaiting.ready.blocked env source,
          x.channelKeys_broadcast_of_notWrapped hwaiting.ready hnot]
        exact hold
      · have hnil := hunhurried source rfl
        rw [hasked] at hnil
        cases hnil
    | answer m =>
      obtain ⟨-, ⟨hdone, -⟩ | ⟨-, hnot, hpeers⟩⟩ := hwaiting.answer env hi
      · exact .inr (.inl ⟨1, le_rfl, hdone⟩)
      · rcases hstop with hone | hreplaceable
        · exact absurd hone hpeers
        · exact absurd hreplaceable hnot

theorem fetches_le_one {l : List (Env × RotationStep)} (horder : x.Order l)
    (hsettles : Along x.step x.Settles x.init l) : x.fetches l ≤ 1 :=
  ((horder.and hsettles).invariant x.bounded_step (.inl rfl)).fetches_le

/-- After the rotation and the broadcast an answer is outstanding that will not replace the key. -/
theorem waiting_after_broadcast (haccepted : x.Accepted x.start) (hpeers : ¬ x.OnePeer)
    (hkey : ¬ (x.Replaceable x.start ∧ x.NotWrapped)) (env : Env) :
    x.Order [(env, .rotation none), (env, .broadcast none)] ∧
      x.Waiting (run x.step x.init [(env, .rotation none), (env, .broadcast none)]) 1 ∧
      ¬ x.Replaceable (run x.step x.init [(env, .rotation none), (env, .broadcast none)]).app := by
  obtain ⟨hkeys, hannounced, ⟨-, hone⟩ | hwaiting⟩ := init_rotation (x := x) env haccepted none
  · exact absurd hone hpeers
  · refine ⟨⟨rfl, hannounced, trivial⟩, hwaiting.broadcast env none, ?_⟩
    rintro ⟨hadmin, old, hold, hne⟩
    have happ : (x.step x.init (env, .rotation none)).app =
        x.start.handleChannelKeyRotation P false x.payload :=
      x.processEvent_rotation x.running env none
    have hbroadcast : (run x.step x.init [(env, .rotation none), (env, .broadcast none)]).app =
        (x.step x.init (env, .rotation none)).app.handleChannelManifestBroadcast P
          x.payload.newManifest :=
      x.processEvent_broadcast hwaiting.ready.blocked env none
    rw [hbroadcast] at hold
    by_cases hwrapped : x.NotWrapped
    · rw [x.channelKeys_broadcast_of_notWrapped hwaiting.ready hwrapped, hkeys] at hold
      exact hkey ⟨⟨hadmin, old, hold, hne⟩, hwrapped⟩
    · obtain ⟨k, hk⟩ := Option.ne_none_iff_exists'.mp hwrapped
      obtain ⟨pk, htaken⟩ := haccepted
      have hknown : communityPk? (x.step x.init (env, .rotation none)).app.toTables x.communityId =
          some pk := by
        have hsame : (x.start.handleChannelKeyRotation P false x.payload).communities =
            x.start.communities := by
          rcases handleChannelKeyRotation_write (P := P) false x.start x.payload with h | h
          · rw [h]
          · generalize x.start.handleChannelKeyRotation P false x.payload = t at h ⊢
            cases h <;> rfl
        unfold communityPk?
        rw [happ, hsame]
        exact htaken.community
      rw [x.lookup_broadcast hknown, hwaiting.ready.unwrapOwn, hk, Option.some_or] at hold
      exact hne ((Option.some.inj hold).symm.trans (x.wrapped k hk))

/-- While the peers answer, the node fetches one manifest after the other. -/
theorem fetches_unbounded (haccepted : x.Accepted x.start) (hpeers : ¬ x.OnePeer)
    (hkey : ¬ (x.Replaceable x.start ∧ x.NotWrapped)) (env : Env) (n : Nat) :
    ∃ l, x.Order l ∧ x.Waiting (run x.step x.init l) (n + 1) ∧
      ¬ x.Replaceable (run x.step x.init l).app := by
  induction n with
  | zero => exact ⟨_, x.waiting_after_broadcast haccepted hpeers hkey env⟩
  | succ n ih =>
    obtain ⟨l, horder, hwaiting, hnot⟩ := ih
    -- the peer that is asked answers, and another one is asked
    obtain ⟨p, ⟨q, hq, rfl⟩, hasked⟩ := hwaiting.asked
    obtain ⟨m, hm, hsource⟩ := x.answering q hq
    have hi : x.Enabled (run x.step x.init l) (env, .answer m) := by
      refine ⟨hm, ?_⟩
      rw [hasked, hsource]
      exact List.mem_singleton_self _
    refine ⟨l ++ [(env, .answer m)], along_append.mpr ⟨horder, hi, trivial⟩, ?_⟩
    rw [run_append]
    obtain ⟨hkeys, ⟨-, hreplaceable | hone⟩ | ⟨hnext, -, -⟩⟩ := hwaiting.answer env hi
    · exact absurd hreplaceable hnot
    · exact absurd hone hpeers
    · exact ⟨hnext, hkeys⟩

/-- The number of manifests that the node fetches because of a rotation is bounded over all orders
if and only if the node does not take the rotation, or has no two peers to ask, or the broadcast
has no key for it and the answer replaces the key that it has. Where the answer replaces the key,
one manifest is fetched in every order in which the broadcast does not come between the request and
the answer. -/
theorem fetches_bounded_iff (P : Prims) (x : KeyRotation P) :
    ((∃ N, ∀ l, x.Order l → x.fetches l ≤ N) ↔
        ¬ x.Accepted x.start ∨ x.OnePeer ∨ (x.Replaceable x.start ∧ x.NotWrapped)) ∧
      (x.Replaceable x.start → ∀ l, x.Order l → Along x.step Unhurried x.init l →
        x.fetches l ≤ 1) := by
  refine ⟨⟨?_, fun h => ⟨1, fun l horder => x.fetches_le_one horder ?_⟩⟩, ?_⟩
  · rintro ⟨N, hbound⟩
    by_contra hnot
    push Not at hnot
    obtain ⟨haccepted, hpeers, hkey⟩ := hnot
    obtain ⟨l, horder, hwaiting, -⟩ :=
      x.fetches_unbounded haccepted hpeers (not_and.mpr hkey) Sample.env N
    have hle := hbound l horder
    unfold fetches at hle
    rw [hwaiting.fetches] at hle
    exact absurd hle (Nat.not_succ_le_self N)
  · exact along_of_forall fun σ i _ => h.imp_right (Or.imp_right (And.imp_right .inl))
  · intro hreplaceable l horder hunhurried
    exact x.fetches_le_one horder
      (hunhurried.imp fun σ i h => .inr (.inr ⟨hreplaceable, .inr h⟩))

end KeyRotation

/-! ## A rotation whose fetches do not end -/

namespace Sample

def rekeyPrims : Prims := prims [.channelKeyRotation rekeying, .channelManifestBroadcast rekeyed] []

/-- A member with the first key of the channel that is connected to the admin and to one more
peer. -/
def connectedMember : AppState :=
  { waitingMember with
    connectedPeers := Dict.insertAll [(community.text, [⟨"admin", true⟩, ⟨"peer", false⟩])] ∅ }

theorem unwrapOwn_rekeyed : connectedMember.unwrapOwn rekeyPrims rekeyed = some 71 := by
  decide +kernel

/-- The admin gives the channel the key 71, and both peers answer with it. -/
def refetching : KeyRotation rekeyPrims where
  start := connectedMember
  payload := rekeying
  rotationData := [0]
  broadcastData := [1]
  communityPk := 31
  key := 71
  answers m := ∃ source, m = { rekeyedResponse with source }
  running := rfl
  rotation_decodes := rfl
  broadcast_decodes := rfl
  wrapped k hk := (Option.some.inj (hk.symm.trans unwrapOwn_rekeyed))
  honest := by
    rintro m ⟨source, rfl⟩
    refine ⟨?_, rfl, rfl, rfl, List.mem_singleton.mpr rfl, ?_⟩
    · show rekeyedResponse.manifest.verify rekeyPrims = true
      decide +kernel
    · rintro ch hch -
      rw [List.mem_singleton.mp hch]
      exact unwrapOwn_rekeyed
  idle m _ y _ := AList.notMem_empty y
  answering p _ := ⟨_, ⟨p.peerId, rfl⟩, rfl⟩

theorem refetching_accepted : refetching.Accepted refetching.start := by
  refine ⟨31, ⟨?_, ?_, ?_⟩⟩ <;> decide +kernel

theorem refetching_peers : ¬ refetching.OnePeer := by
  intro hone
  have hpeers : connectedMember.peersOf community.text = [⟨"admin", true⟩, ⟨"peer", false⟩] := rfl
  have hsame : "admin" = "peer" :=
    hone ⟨"admin", true⟩ (hpeers ▸ List.mem_cons_self) ⟨"peer", false⟩
      (hpeers ▸ List.mem_cons_of_mem _ List.mem_cons_self)
  exact absurd hsame (by decide)

def unhurriedRun : List (Env × RotationStep) :=
  [(env, .rotation none), (env, .answer { rekeyedResponse with source := "admin" }),
    (env, .broadcast none)]

end Sample

open Sample in
/-- Two honest peers that both have the new key are asked in turn without end. -/
theorem rotation_fetches_forever : ¬ ∃ N, ∀ l, refetching.Order l → refetching.fetches l ≤ N := by
  rintro ⟨N, hbound⟩
  have hwrapped : ¬ refetching.NotWrapped := by
    unfold KeyRotation.NotWrapped
    rw [show refetching.start.unwrapOwn rekeyPrims refetching.payload.newManifest = some 71 from
      unwrapOwn_rekeyed]
    exact fun h => by cases h
  obtain ⟨l, horder, hwaiting, -⟩ := refetching.fetches_unbounded refetching_accepted
    refetching_peers (fun h => hwrapped h.2) env N
  have hle := hbound l horder
  unfold KeyRotation.fetches at hle
  rw [hwaiting.fetches] at hle
  exact absurd hle (Nat.not_succ_le_self N)

open Sample in
/-- If the answer comes before the broadcast, the same member fetches one manifest. -/
theorem rotation_fetches_once :
    refetching.Order unhurriedRun ∧ refetching.fetches unhurriedRun ≤ 1 := by
  have hasked : (refetching.step refetching.init (env, .rotation none)).asked = ["admin"] := by
    decide +kernel
  have hafter : (run refetching.step refetching.init
      [(env, .rotation none), (env, .answer { rekeyedResponse with source := "admin" })]).asked =
        [] := by
    decide +kernel
  have horder : refetching.Order unhurriedRun := by
    refine ⟨rfl, ⟨⟨"admin", rfl⟩, ?_⟩, rfl, trivial⟩
    rw [hasked]
    exact List.mem_singleton_self _
  have hreplaceable : refetching.Replaceable refetching.start := by
    refine ⟨?_, 70, ?_, ?_⟩ <;> decide +kernel
  refine ⟨horder, (KeyRotation.fetches_bounded_iff rekeyPrims refetching).2 hreplaceable _ horder
    ⟨?_, ?_, ?_, trivial⟩⟩
  · exact fun source h => by cases h
  · exact fun source h => by cases h
  · exact fun _ _ => hafter

end BitCord
