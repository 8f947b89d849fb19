import BitCord.CatchUp
import BitCord.Versions

/-!
# Buffered messages

While the key of a channel is rotated, messages that no key opens wait in a buffer. When a
manifest response replaces the key, `handle_manifest_received` takes the lock of the buffer and
handles what waited once more. The handlers that it calls take the same lock when a message does
not open, or when a key rotation is taken, and the lock is not reentrant: the event processor then
waits for itself and handles no further event (`undecryptable_message_blocks`,
`replay_never_waits_iff`).
-/

namespace BitCord

open Lib Lib.Run AppState

variable {s : AppState} {m : ManifestReceived} {data : Bytes}

/-! ## What the replay meets -/

/-- What the handlers of a buffered message read: the keys of the communities, and the manifests
and the keys of the channels. -/
structure View where
  communityPk : String → Option Key
  channel : String → Option ChannelManifest
  key : String → Option Key
  previousKey : String → Option Key

def Tables.view (t : Tables) : View where
  communityPk := communityPk? t
  channel x := t.channels.lookup x
  key x := t.channelKeys.lookup x
  previousKey x := t.previousChannelKeys.lookup x

variable (rotated : List String)

section

variable (P : Prims)

/-- The handler of the message takes the lock of the buffer: the message is a new one of a known
channel that neither key opens, or a rotation that the community signed and that is newer than the
channel. -/
def asksLock (v : View) (data : Bytes) : Bool :=
  match P.decodeEvent data with
  | some (.newMessage raw) =>
    match v.channel raw.channelId.text, v.key raw.channelId.text with
    | some _, some key =>
      (decryptEither P (some key) (v.previousKey raw.channelId.text) raw.nonce
        raw.ciphertext).isNone
    | _, _ => false
  | some (.channelKeyRotation payload) =>
    match v.communityPk payload.newManifest.communityId.text,
        v.channel payload.newManifest.id.text with
    | some pk, some current =>
      rotationVerified P pk payload && decide (current.version < payload.newManifest.version)
    | _, _ => false
  | _ => false

/-- The keys that the channel has one after the other: the one that the node has, then those that
the response has wrapped for it. The admin takes no wrapped keys. -/
def AppState.successiveKeys (s : AppState) (m : ManifestReceived) (x : String) : List Key :=
  (s.channelKeys.lookup x).toList ++
    if m.communityPk = s.ownPk P then [] else s.openedKeys P m.channels x

/-- The response replaces the key of the channel. -/
def AppState.ReplacesKey (s : AppState) (m : ManifestReceived) (x : String) : Prop :=
  ∃ k ∈ s.successiveKeys P m x, ∃ k' ∈ s.successiveKeys P m x, k ≠ k'

/-- What the handlers read once the node has taken in the manifest, the channels and the keys of
the response. -/
def AppState.viewWith (s : AppState) (m : ManifestReceived) : View where
  communityPk c := if c = m.communityId then some m.communityPk else communityPk? s.toTables c
  channel x := ((m.channel? x).or (s.channels.lookup x)).filter (m.keeps x)
  key x := (s.successiveKeys P m x).getLast?.or (m.plainKey? x)
  previousKey x :=
    ((s.successiveKeys P m x).reverse.find? fun k =>
      decide (some k ≠ (s.successiveKeys P m x).getLast?)).or (s.previousChannelKeys.lookup x)

/-- The response replaces the key of a channel, and among the messages that wait for it is one
whose handler takes the lock of the buffer. -/
def AppState.Stalls (s : AppState) (m : ManifestReceived) : Prop :=
  ∃ x, s.ReplacesKey P m x ∧ ∃ buf, s.pendingRotation.lookup x = some buf ∧
    ∃ msg ∈ buf, asksLock P (s.viewWith P m) msg.2 = true

variable {P}

/-! ## The tables after the response -/

theorem follows_receiveRing (s : AppState) (m : ManifestReceived) (x : String) :
    (if m.communityPk = s.ownPk P then KeyRing.of s.toTables
      else m.channels.foldl (unwrapStep P s) (KeyRing.of s.toTables)).Follows x
      (s.previousChannelKeys.lookup x) (s.successiveKeys P m x) := by
  unfold successiveKeys
  split
  · rw [List.append_nil]
    exact KeyRing.follows_of s.toTables x
  · exact follows_foldl_unwrapStep s m.channels x

theorem mem_rotated_receiveKeys {x : String} :
    x ∈ (s.receiveKeys P m).rotated ↔ s.ReplacesKey P m x :=
  (follows_receiveRing s m x).rotated

theorem view_receiveTables (s : AppState) (m : ManifestReceived) :
    (s.receiveTables P m).toTables.view = s.viewWith P m := by
  have hcommunity : communityPk? (s.receiveTables P m).toTables = (s.viewWith P m).communityPk := by
    funext c
    show ((s.communities.insert m.communityId m.manifest).lookup c).map _ = _
    rw [Dict.lookup_insert_eq]
    unfold viewWith
    dsimp only
    split <;> rfl
  have hchannel : (fun x => (s.receiveTables P m).channels.lookup x) =
      (s.viewWith P m).channel :=
    funext fun x => lookup_receiveChannels s.channels m x
  have hkey : (fun x => (s.receiveTables P m).channelKeys.lookup x) = (s.viewWith P m).key := by
    funext x
    show ((s.receiveKeys P m).keys).lookup x = _
    unfold receiveKeys
    dsimp only
    rw [Dict.lookup_orInsertAll, find?_keyEntries, (follows_receiveRing s m x).keys]
    rfl
  have hprevious : (fun x => (s.receiveTables P m).previousChannelKeys.lookup x) =
      (s.viewWith P m).previousKey :=
    funext fun x => (follows_receiveRing s m x).previous
  unfold Tables.view
  rw [hcommunity, hchannel, hkey, hprevious]

/-! ## Handling a buffered message again -/

theorem blocked_handleNewMessage {raw : RawMessage}
    (topic : String) (hraw : P.decodeEvent data = some (.newMessage raw)) (hs : s.blocked = false) :
    (s.handleNewMessage P true topic data raw).blocked = asksLock P s.toTables.view data ∧
      (s.handleNewMessage P true topic data raw).toTables = s.toTables := by
  have hasks : asksLock P s.toTables.view data =
      match s.channels.lookup raw.channelId.text, s.channelKeys.lookup raw.channelId.text with
      | some _, some key =>
        (decryptEither P (some key) (s.previousChannelKeys.lookup raw.channelId.text) raw.nonce
          raw.ciphertext).isNone
      | _, _ => false := by
    unfold asksLock
    rw [hraw]
    rfl
  rw [hasks]
  unfold handleNewMessage
  dsimp only
  cases s.channels.lookup raw.channelId.text with
  | none => exact ⟨hs, rfl⟩
  | some ch =>
    cases s.channelKeys.lookup raw.channelId.text with
    | none => exact ⟨hs, rfl⟩
    | some key =>
      dsimp only
      cases decryptEither P (some key) (s.previousChannelKeys.lookup raw.channelId.text) raw.nonce
          raw.ciphertext with
      | none => exact ⟨rfl, rfl⟩
      | some plaintext =>
        obtain ⟨log, store, pushes, h⟩ :=
          acceptMessage_messageFrame (P := P) s ch.communityId.text raw plaintext
        dsimp only
        rw [h]
        exact ⟨hs, rfl⟩

theorem blocked_handleChannelKeyRotation {payload : ChannelKeyRotationPayload}
    (hpayload : P.decodeEvent data = some (.channelKeyRotation payload)) (hs : s.blocked = false) :
    (s.handleChannelKeyRotation P true payload).blocked = asksLock P s.toTables.view data ∧
      (asksLock P s.toTables.view data = false →
        (s.handleChannelKeyRotation P true payload).toTables = s.toTables) := by
  have hasks : asksLock P s.toTables.view data =
      match communityPk? s.toTables payload.newManifest.communityId.text,
        s.channels.lookup payload.newManifest.id.text with
      | some pk, some current =>
        rotationVerified P pk payload && decide (current.version < payload.newManifest.version)
      | _, _ => false := by
    unfold asksLock
    rw [hpayload]
    rfl
  rw [hasks]
  unfold handleChannelKeyRotation isNewerChannel
  dsimp only
  cases communityPk? s.toTables payload.newManifest.communityId.text with
  | none => exact ⟨hs, fun _ => rfl⟩
  | some pk =>
    dsimp only
    cases s.channels.lookup payload.newManifest.id.text with
    | none =>
      cases rotationVerified P pk payload <;> exact ⟨hs, fun _ => rfl⟩
    | some current =>
      dsimp only
      cases rotationVerified P pk payload with
      | false => exact ⟨hs, fun _ => rfl⟩
      | true =>
        by_cases hnewer : current.version < payload.newManifest.version
        · simp [hnewer]
        · simp [hnewer, hs]

/-- A message that is handled again stops the processor if it asks for the lock, and otherwise it
leaves the tables as they are. -/
theorem replayOne_spec (hs : s.blocked = false) (msg : String × Bytes) :
    (s.replayOne P msg).blocked = asksLock P s.toTables.view msg.2 ∧
      (asksLock P s.toTables.view msg.2 = false →
        (s.replayOne P msg).toTables = s.toTables) := by
  unfold replayOne
  rw [if_neg (by rw [hs]; decide)]
  unfold handleChannelMessage
  split
  · next raw hraw =>
    obtain ⟨hblocked, htables⟩ := blocked_handleNewMessage msg.1 hraw hs
    exact ⟨hblocked, fun _ => htables⟩
  · next payload hpayload => exact blocked_handleChannelKeyRotation hpayload hs
  · next payload hpayload =>
    obtain ⟨log, store, pushes, h⟩ := handleEditMessage_messageFrame (P := P) s payload
    have hasks : asksLock P s.toTables.view msg.2 = false := by
      unfold asksLock
      rw [hpayload]
    rw [h, hasks]
    exact ⟨hs, fun _ => rfl⟩
  · next payload hpayload =>
    obtain ⟨log, store, pushes, h⟩ := handleDeleteMessage_messageFrame s payload
    have hasks : asksLock P s.toTables.view msg.2 = false := by
      unfold asksLock
      rw [hpayload]
    rw [h, hasks]
    exact ⟨hs, fun _ => rfl⟩
  · next hnew hrotation hedit hdelete =>
    have hasks : asksLock P s.toTables.view msg.2 = false := by
      unfold asksLock
      split
      · next raw hraw => exact absurd hraw (hnew raw)
      · next payload hpayload => exact absurd hpayload (hrotation payload)
      · rfl
    rw [hasks]
    exact ⟨hs, fun _ => rfl⟩

/-! ## The loops -/

/-- The processor runs, and the tables are the same. -/
structure Undisturbed (s s' : AppState) : Prop where
  blocked : s'.blocked = false
  toTables : s'.toTables = s.toTables

theorem blocked_replayOne_of_blocked (hs : s.blocked = true)
    (msg : String × Bytes) : (s.replayOne P msg).blocked = true := by
  unfold replayOne
  rw [if_pos hs]
  exact hs

/-- Messages that are handled again stop the processor if one of them asks for the lock, and
otherwise nothing is disturbed. -/
theorem foldl_replayOne_spec (buf : List (String × Bytes)) (hs : s.blocked = false) :
    ((buf.foldl (replayOne P) s).blocked = true ∧
        ∃ msg ∈ buf, asksLock P s.toTables.view msg.2 = true) ∨
      (Undisturbed s (buf.foldl (replayOne P) s) ∧
        ∀ msg ∈ buf, asksLock P s.toTables.view msg.2 = false) := by
  induction buf generalizing s with
  | nil => exact .inr ⟨⟨hs, rfl⟩, fun msg h => absurd h List.not_mem_nil⟩
  | cons msg buf ih =>
    rw [List.foldl_cons]
    obtain ⟨hblocked, htables⟩ := replayOne_spec (P := P) hs msg
    cases hasks : asksLock P s.toTables.view msg.2 with
    | true =>
      rw [hasks] at hblocked
      refine .inl ⟨?_, msg, List.mem_cons_self, hasks⟩
      exact List.foldlRecOn (motive := fun t : AppState => t.blocked = true) _ _ hblocked
        fun t ht msg' _ => blocked_replayOne_of_blocked ht msg'
    | false =>
      rw [hasks] at hblocked
      have hsame := htables hasks
      rcases ih hblocked with ⟨hb, msg', hmem, hask⟩ | ⟨hkept, hnone⟩
      · rw [hsame] at hask
        exact .inl ⟨hb, msg', List.mem_cons_of_mem msg hmem, hask⟩
      · rw [hsame] at hnone
        exact .inr ⟨⟨hkept.blocked, hkept.toTables.trans hsame⟩,
          List.forall_mem_cons.mpr ⟨hasks, hnone⟩⟩

/-- What waits for the channel, when the channel is replayed. -/
def waiting (s : AppState) (x : String) : List (String × Bytes) :=
  (s.pendingRotation.lookup x).getD []

/-- Unless the processor stops, what waits for the other channels still waits. -/
theorem pendingRotation_replayChannel (hs : s.blocked = false) (x y : String) :
    (s.replayChannel P x).pendingRotation.lookup y =
      if y = x then none else s.pendingRotation.lookup y := by
  unfold replayChannel
  rw [if_neg (by rw [hs]; decide)]
  cases hbuf : s.pendingRotation.lookup x with
  | none =>
    dsimp only
    split
    · next heq => rw [heq, hbuf]
    · rfl
  | some buf =>
    have hfold : (buf.foldl (replayOne P)
        { s with pendingRotation := s.pendingRotation.erase x }).pendingRotation =
          s.pendingRotation.erase x := by
      refine List.foldlRecOn (motive := fun t : AppState =>
        t.pendingRotation = s.pendingRotation.erase x) _ _ rfl ?_
      intro t ht msg _
      unfold replayOne
      split
      · exact ht
      · rw [pendingRotation_handleChannelMessage_replaying, ht]
    dsimp only
    rw [hfold, Dict.lookup_erase_eq]

theorem replayChannel_spec (hs : s.blocked = false) (x : String) :
    ((s.replayChannel P x).blocked = true ∧
        ∃ msg ∈ waiting s x, asksLock P s.toTables.view msg.2 = true) ∨
      (Undisturbed s (s.replayChannel P x) ∧
        ∀ msg ∈ waiting s x, asksLock P s.toTables.view msg.2 = false) := by
  unfold replayChannel waiting
  rw [if_neg (by rw [hs]; decide)]
  cases s.pendingRotation.lookup x with
  | none => exact .inr ⟨⟨hs, rfl⟩, fun msg h => absurd h List.not_mem_nil⟩
  | some buf =>
    rcases foldl_replayOne_spec (P := P) buf
        (s := { s with pendingRotation := s.pendingRotation.erase x }) hs with
      hstopped | ⟨hkept, hnone⟩
    · exact .inl hstopped
    · exact .inr ⟨⟨hkept.blocked, hkept.toTables⟩, hnone⟩

theorem blocked_replayChannel_of_blocked (hs : s.blocked = true) (x : String) :
    (s.replayChannel P x).blocked = true := by
  unfold replayChannel
  rw [if_pos hs]
  exact hs

variable (env : Env)

theorem replay_spec (hs : s.blocked = false) :
    ((s.replay P rotated).blocked = true ∧
        ∃ x ∈ rotated, ∃ msg ∈ waiting s x, asksLock P s.toTables.view msg.2 = true) ∨
      (Undisturbed s (s.replay P rotated) ∧
        ∀ x ∈ rotated, ∀ msg ∈ waiting s x, asksLock P s.toTables.view msg.2 = false) := by
  unfold replay
  induction rotated generalizing s with
  | nil => exact .inr ⟨⟨hs, rfl⟩, fun x h => absurd h List.not_mem_nil⟩
  | cons x rotated ih =>
    rw [List.foldl_cons]
    rcases replayChannel_spec (P := P) hs x with ⟨hb, msg, hmem, hask⟩ | ⟨hkept, hnone⟩
    · refine .inl ⟨?_, x, List.mem_cons_self, msg, hmem, hask⟩
      exact List.foldlRecOn (motive := fun t : AppState => t.blocked = true) _ _ hb
        fun t ht y _ => blocked_replayChannel_of_blocked ht y
    · -- the channels that come later still have what waits for them, unless they are this one
      have hwaiting : ∀ y, waiting (s.replayChannel P x) y = if y = x then [] else waiting s y := by
        intro y
        unfold waiting
        rw [pendingRotation_replayChannel hs]
        split <;> rfl
      rcases ih hkept.blocked with ⟨hb, y, hy, msg, hmem, hask⟩ | ⟨hkept', hnone'⟩
      · rw [hwaiting] at hmem
        rw [hkept.toTables] at hask
        split at hmem
        · exact absurd hmem List.not_mem_nil
        · exact .inl ⟨hb, y, List.mem_cons_of_mem x hy, msg, hmem, hask⟩
      · rw [hkept.toTables] at hnone'
        refine .inr ⟨⟨hkept'.blocked, hkept'.toTables.trans hkept.toTables⟩,
          List.forall_mem_cons.mpr ⟨hnone, fun y hy msg hmem => ?_⟩⟩
        by_cases hyx : y = x
        · subst hyx
          exact hnone msg hmem
        · refine hnone' y hy msg ?_
          rw [hwaiting, if_neg hyx]
          exact hmem

/-- If the processor runs after the replay, nothing waits any more for the channels whose key was
replaced, and what waits for the others still does. -/
theorem pendingRotation_replay (hs : s.blocked = false)
    (hfree : (s.replay P rotated).blocked = false) (y : String) :
    (s.replay P rotated).pendingRotation.lookup y =
      if y ∈ rotated then none else s.pendingRotation.lookup y := by
  unfold replay at hfree ⊢
  induction rotated generalizing s with
  | nil => rfl
  | cons x rotated ih =>
    rw [List.foldl_cons] at hfree ⊢
    have hx : (s.replayChannel P x).blocked = false := by
      refine Bool.eq_false_iff.mpr fun hblocked => ?_
      have hstays := List.foldlRecOn (motive := fun t : AppState => t.blocked = true) rotated
        (replayChannel P) hblocked fun t ht y _ => blocked_replayChannel_of_blocked ht y
      exact absurd (hstays.symm.trans hfree) (by decide)
    rw [ih hx hfree, pendingRotation_replayChannel hs]
    by_cases hyx : y = x
    · simp [hyx]
    · simp [hyx]

/-! ## The response -/

theorem stalls_iff :
    s.Stalls P m ↔ ∃ x ∈ (s.receiveKeys P m).rotated, ∃ msg ∈ waiting s x,
      asksLock P (s.receiveTables P m).toTables.view msg.2 = true := by
  unfold Stalls waiting
  rw [view_receiveTables]
  refine exists_congr fun x => ?_
  rw [mem_rotated_receiveKeys]
  refine and_congr_right fun _ => ?_
  cases s.pendingRotation.lookup x with
  | none => simp
  | some buf => simp

/-- The state in which the replay starts. -/
theorem exists_replay (s : AppState) (m : ManifestReceived) : ∃ t : AppState,
    s.afterReplay P m = t.replay P (s.receiveKeys P m).rotated ∧ t.blocked = s.blocked ∧
      t.toTables = (s.receiveTables P m).toTables ∧ waiting t = waiting s ∧
      t.messageLog = s.messageLog :=
  ⟨_, rfl, rfl, rfl, rfl, rfl⟩

/-- A response stops the processor if it stalls, and otherwise the replay leaves the received
tables as they are. -/
theorem afterReplay_spec (hs : s.blocked = false) (m : ManifestReceived) :
    (s.Stalls P m ∧ (s.afterReplay P m).blocked = true) ∨
      (¬ s.Stalls P m ∧ (s.afterReplay P m).blocked = false ∧
        (s.afterReplay P m).toTables = (s.receiveTables P m).toTables) := by
  rw [stalls_iff]
  obtain ⟨t, ht, hblocked, htables, hwaiting, -⟩ := exists_replay (P := P) s m
  rw [ht, ← htables, ← hwaiting]
  rcases replay_spec (P := P) (s.receiveKeys P m).rotated (hblocked.trans hs) with
    ⟨hb, h⟩ | ⟨hkept, h⟩
  · exact .inl ⟨h, hb⟩
  · refine .inr ⟨?_, hkept.blocked, hkept.toTables⟩
    rintro ⟨x, hx, msg, hmem, hask⟩
    rw [h x hx msg hmem] at hask
    cases hask

/-- What waits after the replay of a response that does not stop the processor. -/
theorem pendingRotation_afterReplay
    (hs : s.blocked = false) (hfree : (s.afterReplay P m).blocked = false) (y : String) :
    (s.afterReplay P m).pendingRotation.lookup y =
      if y ∈ (s.receiveKeys P m).rotated then none else s.pendingRotation.lookup y := by
  unfold afterReplay at hfree ⊢
  dsimp only at hfree ⊢
  rw [pendingRotation_replay _ (by exact hs) hfree]
  rfl

/-- What the handling of the members in a response leaves as it is. -/
structure MembersFrame (s s' : AppState) : Prop where
  blocked : s'.blocked = s.blocked
  signingKey : s'.signingKey = s.signingKey
  channelKeys : s'.channelKeys = s.channelKeys
  pendingRotation : s'.pendingRotation = s.pendingRotation
  connectedPeers : s'.connectedPeers = s.connectedPeers
  messageLog : s'.messageLog = s.messageLog

theorem MembersFrame.trans {t u : AppState} (h : MembersFrame s t) (h' : MembersFrame t u) :
    MembersFrame s u where
  blocked := h'.blocked.trans h.blocked
  signingKey := h'.signingKey.trans h.signingKey
  channelKeys := h'.channelKeys.trans h.channelKeys
  pendingRotation := h'.pendingRotation.trans h.pendingRotation
  connectedPeers := h'.connectedPeers.trans h.connectedPeers
  messageLog := h'.messageLog.trans h.messageLog

theorem settleManifest_membersFrame (s : AppState) (m : ManifestReceived) (rotated : List String)
    (b : Bool) : MembersFrame s (s.settleManifest P env m rotated b) := by
  refine settleManifest_rel (fun _ _ _ => ⟨rfl, rfl, rfl, rfl, rfl, rfl⟩) .trans
    (fun _ => ⟨rfl, rfl, rfl, rfl, rfl, rfl⟩) (fun _ _ _ => ⟨rfl, rfl, rfl, rfl, rfl, rfl⟩)
    (fun hw => ?_) env s rotated b
  cases hw with
  | joined => exact ⟨rfl, rfl, rfl, rfl, rfl, rfl⟩

theorem processEvent_received (m : ManifestReceived) (hs : s.blocked = false) :
    s.processEvent P env (.manifestReceived m) = s.handleManifestReceived P env m := by
  unfold processEvent
  rw [if_neg (by rw [hs]; decide)]

/-- A response stops a running event processor if and only if it is taken and stalls. -/
theorem blocked_processEvent_received (m : ManifestReceived) (hs : s.blocked = false) :
    (s.processEvent P env (.manifestReceived m)).blocked = true ↔
      m.manifest.verify P = true ∧ m.manifest.manifest.deleted = false ∧ s.Stalls P m := by
  rw [processEvent_received env m hs]
  by_cases htaken : m.manifest.verify P = true ∧ m.manifest.manifest.deleted = false
  · obtain ⟨hverify, hlive⟩ := htaken
    rw [handleManifestReceived_of_live env hverify hlive]
    rcases afterReplay_spec (P := P) hs m with ⟨hstall, hb⟩ | ⟨hstall, hb, -⟩
    · rw [if_pos hb]
      exact ⟨fun _ => ⟨hverify, hlive, hstall⟩, fun _ => hb⟩
    · rw [if_neg (by rw [hb]; decide), (settleManifest_membersFrame env _ m _ _).blocked, hb]
      exact ⟨fun h => absurd h (by decide), fun h => absurd h.2.2 hstall⟩
  · have hsame : (s.handleManifestReceived P env m).blocked = s.blocked := by
      unfold handleManifestReceived
      cases hverify : m.manifest.verify P with
      | false => rfl
      | true =>
        cases hdeleted : m.manifest.manifest.deleted with
        | false => exact absurd ⟨hverify, hdeleted⟩ htaken
        | true => rfl
    rw [hsame, hs]
    exact ⟨fun h => absurd h (by decide), fun h => absurd ⟨h.1, h.2.1⟩ htaken⟩

/-- A running event processor survives a manifest response if and only if no message that the
response replays asks for the lock of the buffer. -/
theorem replay_never_waits_iff (P : Prims) (env : Env) (s : AppState) (m : ManifestReceived) :
    (s.blocked = false → (s.processEvent P env (.manifestReceived m)).blocked = false) ↔
      (s.blocked = false → m.manifest.verify P = true → m.manifest.manifest.deleted = false →
        ¬ s.Stalls P m) := by
  refine forall_congr' fun hs => ?_
  rw [Bool.eq_false_iff, Ne, blocked_processEvent_received env m hs]
  constructor
  · intro h hverify hlive hstall
    exact h ⟨hverify, hlive, hstall⟩
  · rintro h ⟨hverify, hlive, hstall⟩
    exact h hverify hlive hstall

end

/-! ## A message that stops the processor -/

namespace Sample

def rekeyed : ChannelManifest :=
  { wrapKey (prims [] []) env 0 71 channel (record 20 [.member]) with version := 2 }

def rekeying : ChannelKeyRotationPayload :=
  ⟨rekeyed, toBytes ((prims [] []).sign 30 ((prims [] []).encodeChannelManifest rekeyed))⟩

/-- A message that no key opens. Nobody has signed it. -/
def garbage : RawMessage := ⟨⟨1⟩, channel.id, ⟨0⟩, 0, [], 0, []⟩

def bufferPrims : Prims := prims [.channelKeyRotation rekeying, .newMessage garbage] []

def waitingMember : AppState := withChannel (withCommunity (app 20) 30) channel 70

def rekeyedResponse : ManifestReceived where
  manifest :=
    (CommunityManifest.mk community "" "" 31 0 [] [channel.id] [] 1 false).sign (prims [] []) 30
  source := "peer"
  channels := [rekeyed]
  channelKeys := ∅
  members := []

/-- The rotation, the message, and the response that the rotation makes the member ask for. -/
def bufferRun : List (Env × SwarmEvent) :=
  [(env, .messageReceived (channelTopic channel.id.text) [0] none),
    (env, .messageReceived (channelTopic channel.id.text) [1] none)]

end Sample

open Sample in
/-- One message that nobody signed, sent during a rotation, stops the event processor of a member
for good when the response with the new key arrives. -/
theorem undecryptable_message_blocks :
    (run (eventStep bufferPrims) waitingMember bufferRun).blocked = false ∧
      ((run (eventStep bufferPrims) waitingMember bufferRun).processEvent bufferPrims env
        (.manifestReceived rekeyedResponse)).blocked = true := by
  decide +kernel

end BitCord
