import BitCord.Confinement
import BitCord.Duplicates
import BitCord.Edits

/-!
# Messages that wait for a key

Messages that come before the key of a rotated channel wait in a buffer. Two handlers install keys:
the one of manifest responses, which replays what waits for the channels whose key it replaced, and
the one of channel manifests that are broadcast, which replays nothing (`message_stranded`,
`none_stranded_iff`).
-/

namespace BitCord

open Lib Lib.Run AppState

variable {s : AppState} {c x id : String} {raw : RawMessage}

/-! ## Replay and the log -/

section

variable (P : Prims)

/-- With these tables of channels and keys, and with the members of `t`, a replayed message gets an
entry with the id in the log of the channel. -/
def TakesIn (v : View) (t : Tables) (data : Bytes) (x id : String) : Prop :=
  ∃ raw ch key, P.decodeEvent data = some (.newMessage raw) ∧ raw.channelId.text = x ∧
    raw.id.text = id ∧ v.channel x = some ch ∧ v.key x = some key ∧
    (decryptEither P (some key) (v.previousKey x) raw.nonce raw.ciphertext).isSome = true ∧
    authorVerified P t ch.communityId.text raw = true

variable {P}

theorem knows_acceptMessage {plaintext : Bytes} :
    Knows (s.acceptMessage P c raw plaintext).messageLog x id ↔
      Knows s.messageLog x id ∨
        (authorVerified P s.toTables c raw = true ∧ raw.channelId.text = x ∧ raw.id.text = id) := by
  unfold acceptMessage
  cases hverified : authorVerified P s.toTables c raw with
  | false => simp
  | true =>
    cases hknown : (s.messageLog.getEntry raw.channelId.text raw.id.text).isSome with
    | true =>
      have hknows := isSome_getEntry_iff.mp hknown
      refine ⟨.inl, ?_⟩
      rintro (h | ⟨-, rfl, rfl⟩)
      · exact h
      · exact hknows
    | false =>
      show Knows (logMessage s.messageLog raw (P.decodeContent plaintext)) x id ↔ _
      unfold logMessage Knows
      rw [MessageLog.entries_append, entries_applyReaction, entries_applyReaction]
      by_cases hx : x = raw.channelId.text
      · rw [if_pos hx, hx]
        simp [or_and_right, exists_or]
      · rw [if_neg hx]
        simp [Ne.symm hx]

theorem knows_handleNewMessage_replaying {topic : String} {data : Bytes}
    (hraw : P.decodeEvent data = some (.newMessage raw)) :
    Knows (s.handleNewMessage P true topic data raw).messageLog x id ↔
      Knows s.messageLog x id ∨ TakesIn P s.toTables.view s.toTables data x id := by
  have htakes : TakesIn P s.toTables.view s.toTables data x id ↔
      raw.channelId.text = x ∧ raw.id.text = id ∧ ∃ ch key, s.channels.lookup x = some ch ∧
        s.channelKeys.lookup x = some key ∧
        (decryptEither P (some key) (s.previousChannelKeys.lookup x) raw.nonce
          raw.ciphertext).isSome = true ∧
        authorVerified P s.toTables ch.communityId.text raw = true := by
    constructor
    · rintro ⟨raw', ch, key, hraw', hx, hid, h⟩
      cases hraw.symm.trans hraw'
      exact ⟨hx, hid, ch, key, h⟩
    · rintro ⟨hx, hid, ch, key, h⟩
      exact ⟨raw, ch, key, hraw, hx, hid, h⟩
  rw [htakes]
  unfold handleNewMessage
  dsimp only
  cases hch : s.channels.lookup raw.channelId.text with
  | none =>
    refine ⟨.inl, fun h => h.resolve_right ?_⟩
    rintro ⟨rfl, -, ch, -, hlook, -⟩
    rw [hch] at hlook
    cases hlook
  | some ch =>
    cases hkey : s.channelKeys.lookup raw.channelId.text with
    | none =>
      refine ⟨.inl, fun h => h.resolve_right ?_⟩
      rintro ⟨rfl, -, -, key, -, hlook, -⟩
      rw [hkey] at hlook
      cases hlook
    | some key =>
      dsimp only
      cases hopen : decryptEither P (some key) (s.previousChannelKeys.lookup raw.channelId.text)
          raw.nonce raw.ciphertext with
      | none =>
        refine ⟨.inl, fun h => h.resolve_right ?_⟩
        rintro ⟨rfl, -, ch', key', -, hlook, hsome, -⟩
        rw [hkey] at hlook
        cases hlook
        rw [hopen] at hsome
        cases hsome
      | some plaintext =>
        dsimp only
        rw [knows_acceptMessage]
        refine or_congr_right ⟨?_, ?_⟩
        · rintro ⟨hverified, rfl, rfl⟩
          exact ⟨rfl, rfl, ch, key, hch, hkey, by rw [hopen]; rfl, hverified⟩
        · rintro ⟨rfl, rfl, ch', key', hlook, -, -, hverified⟩
          rw [hch] at hlook
          cases hlook
          exact ⟨hverified, rfl, rfl⟩

theorem knows_replayOne (hs : s.blocked = false) (msg : String × Bytes) :
    Knows (s.replayOne P msg).messageLog x id ↔
      Knows s.messageLog x id ∨ TakesIn P s.toTables.view s.toTables msg.2 x id := by
  have hother : (∀ raw, P.decodeEvent msg.2 ≠ some (.newMessage raw)) →
      ¬ TakesIn P s.toTables.view s.toTables msg.2 x id :=
    fun hnot ⟨raw, _, _, hraw, _⟩ => hnot raw hraw
  have hchange : ∀ change : Change, P.decodeEvent msg.2 = some change.event →
      (Knows (s.handleChannelMessage P true msg.1 msg.2).messageLog x id ↔
        Knows s.messageLog x id) := by
    intro change hd
    have hid : ∀ e, (change.apply e).messageId = e.messageId := by
      intro e
      cases change <;> rfl
    rw [messageLog_handleChannelMessage_of_change hd]
    split
    · exact knows_updateEntry hid _ _ _ _ _
    · exact Iff.rfl
  have hstep : s.replayOne P msg = s.handleChannelMessage P true msg.1 msg.2 := by
    unfold replayOne
    rw [if_neg (by rw [hs]; decide)]
  rw [hstep]
  cases hd : P.decodeEvent msg.2 with
  | none =>
    rw [or_iff_left (hother (by simp [hd]))]
    unfold handleChannelMessage
    rw [hd]
  | some e =>
    cases e with
    | newMessage raw =>
      have hhandle : s.handleChannelMessage P true msg.1 msg.2 =
          s.handleNewMessage P true msg.1 msg.2 raw := by
        unfold handleChannelMessage
        rw [hd]
      rw [hhandle]
      exact knows_handleNewMessage_replaying hd
    | editMessage p =>
      rw [or_iff_left (hother (by simp [hd]))]
      exact hchange (.edit p) hd
    | deleteMessage p =>
      rw [or_iff_left (hother (by simp [hd]))]
      exact hchange (.delete p) hd
    | channelKeyRotation payload =>
      rw [or_iff_left (hother (by simp [hd]))]
      unfold handleChannelMessage
      rw [hd]
      dsimp only
      rw [messageLog_handleChannelKeyRotation]
    | _ =>
      rw [or_iff_left (hother (by simp [hd]))]
      unfold handleChannelMessage
      rw [hd]

/-- While no message asks for the lock of the buffer, the tables stay and each message adds to the
logs what it would add alone. -/
theorem knows_foldl_replayOne (buf : List (String × Bytes)) (hs : s.blocked = false)
    (hfree : ∀ msg ∈ buf, asksLock P s.toTables.view msg.2 = false) :
    Knows (buf.foldl (replayOne P) s).messageLog x id ↔
      Knows s.messageLog x id ∨
        ∃ msg ∈ buf, TakesIn P s.toTables.view s.toTables msg.2 x id := by
  induction buf generalizing s with
  | nil => simp
  | cons msg buf ih =>
    obtain ⟨hasks, hrest⟩ := List.forall_mem_cons.mp hfree
    obtain ⟨hblocked, htables⟩ := replayOne_spec (P := P) hs msg
    rw [hasks] at hblocked
    have hsame := htables hasks
    rw [List.foldl_cons, ih hblocked (hsame.symm ▸ hrest), hsame, knows_replayOne hs, or_assoc]
    simp only [List.mem_cons, or_and_right, exists_or, exists_eq_left]

theorem knows_replayChannel (hs : s.blocked = false) (y : String)
    (hfree : ∀ msg ∈ waiting s y, asksLock P s.toTables.view msg.2 = false) :
    Knows (s.replayChannel P y).messageLog x id ↔
      Knows s.messageLog x id ∨
        ∃ msg ∈ waiting s y, TakesIn P s.toTables.view s.toTables msg.2 x id := by
  unfold replayChannel waiting at *
  rw [if_neg (by rw [hs]; decide)]
  cases hbuf : s.pendingRotation.lookup y with
  | none => simp
  | some buf =>
    rw [hbuf] at hfree
    exact knows_foldl_replayOne (s := { s with pendingRotation := s.pendingRotation.erase y }) buf
      hs hfree

/-- After a replay that does not stop the processor, the logs have what they had and what the
messages that waited add. -/
theorem knows_replay (rotated : List String) (hs : s.blocked = false)
    (hfree : ∀ y ∈ rotated, ∀ msg ∈ waiting s y, asksLock P s.toTables.view msg.2 = false) :
    Knows (s.replay P rotated).messageLog x id ↔
      Knows s.messageLog x id ∨ ∃ y ∈ rotated, ∃ msg ∈ waiting s y,
        TakesIn P s.toTables.view s.toTables msg.2 x id := by
  unfold replay
  induction rotated generalizing s with
  | nil => simp
  | cons y rotated ih =>
    obtain ⟨hy, hrest⟩ := List.forall_mem_cons.mp hfree
    rw [List.foldl_cons]
    rcases replayChannel_spec (P := P) hs y with ⟨-, msg, hmem, hask⟩ | ⟨hkept, -⟩
    · exact absurd ((hy msg hmem).symm.trans hask) (by decide)
    · have hwaiting : ∀ z, waiting (s.replayChannel P y) z = if z = y then [] else waiting s z := by
        intro z
        unfold waiting
        rw [pendingRotation_replayChannel hs]
        split <;> rfl
      have hfree' : ∀ z ∈ rotated, ∀ msg ∈ waiting (s.replayChannel P y) z,
          asksLock P (s.replayChannel P y).toTables.view msg.2 = false := by
        intro z hz msg hmsg
        rw [hwaiting] at hmsg
        split at hmsg
        · cases hmsg
        · rw [hkept.toTables]
          exact hrest z hz msg hmsg
      rw [ih hkept.blocked hfree', hkept.toTables, knows_replayChannel hs y hy, or_assoc]
      refine or_congr_right ⟨?_, ?_⟩
      · rintro (⟨msg, hmsg, htakes⟩ | ⟨z, hz, msg, hmsg, htakes⟩)
        · exact ⟨y, List.mem_cons_self, msg, hmsg, htakes⟩
        · rw [hwaiting] at hmsg
          split at hmsg
          · cases hmsg
          · exact ⟨z, List.mem_cons_of_mem y hz, msg, hmsg, htakes⟩
      · rintro ⟨z, hz, msg, hmsg, htakes⟩
        by_cases hzy : z = y
        · subst hzy
          exact .inl ⟨msg, hmsg, htakes⟩
        · refine .inr ⟨z, (List.mem_cons.mp hz).resolve_left hzy, msg, ?_, htakes⟩
          rw [hwaiting, if_neg hzy]
          exact hmsg

end

/-! ## Delivery -/

section

variable (P : Prims)

/-- The author of the message is a member of the community of its channel and signed it. -/
def Vouched (t : Tables) (raw : RawMessage) : Prop :=
  ∃ ch, t.channels.lookup raw.channelId.text = some ch ∧
    authorVerified P t ch.communityId.text raw = true

/-- A message of the channel waits in its buffer that the key opens. -/
structure WaitsFor (s : AppState) (x : String) (key : Key) (msg : String × Bytes)
    (raw : RawMessage) : Prop where
  buffered : msg ∈ waiting s x
  decoded : P.decodeEvent msg.2 = some (.newMessage raw)
  channel : raw.channelId.text = x
  opens : (P.aeadOpen key raw.nonce raw.ciphertext).isSome = true

/-- What waits for a key that the step from `s` to `s'` installs leaves the buffer, and what a
member signed gets its entry in the log. It does not matter whether the author is known as a member
before or after the step. -/
def Delivers (s s' : AppState) : Prop :=
  ∀ x key, s.channelKeys.lookup x ≠ some key → s'.channelKeys.lookup x = some key →
    ∀ msg raw, WaitsFor P s x key msg raw → msg ∉ waiting s' x ∧
      (Vouched P s.toTables raw ∨ Vouched P s'.toTables raw →
        Knows s'.messageLog x raw.id.text)

/-- When the event has been handled, nothing is left behind whose key it installed. -/
def NoneStranded (s : AppState) (i : Env × SwarmEvent) : Prop :=
  (eventStep P s i).blocked = false → Delivers P s (eventStep P s i)

/-! ### The conditions -/

def BroadcastDelivers (s : AppState) (ch : ChannelManifest) : Prop :=
  (communityPk? s.toTables ch.communityId.text).isSome = true →
    ∀ key, s.unwrapOwn P ch = some key → s.channelKeys.lookup ch.id.text ≠ some key →
      ∀ msg raw, ¬ WaitsFor P s ch.id.text key msg raw

/-- The key under which a user of a community signs once the members of a response are taken in. The
node announces itself anew. -/
def SignsAfter (s : AppState) (m : ManifestReceived) (c u : String) (k : Key) : Prop :=
  (Announces P s m ∧ c = m.communityId ∧ u = s.peerId P ∧ k = s.ownPk P) ∨
    (¬ (Announces P s m ∧ c = m.communityId ∧ u = s.peerId P) ∧
      ∃ r : MembershipRecord, (if c = m.communityId then (m.record? u).or (recordIn s.members c u)
        else recordIn s.members c u) = some r ∧ r.publicKey = k)

/-- The author of the message is a member with the members of the response. -/
def VouchedWith (s : AppState) (m : ManifestReceived) (raw : RawMessage) : Prop :=
  ∃ ch, (s.viewWith P m).channel raw.channelId.text = some ch ∧
    ∃ k, SignsAfter P s m ch.communityId.text raw.authorId.text k ∧
      P.vkValid k = true ∧ raw.verify P k = true

/-- A message that the response replays gets an entry with the id. -/
def Replayed (s : AppState) (m : ManifestReceived) (x id : String) : Prop :=
  ∃ y, s.ReplacesKey P m y ∧ ∃ msg ∈ waiting s y,
    TakesIn P (s.viewWith P m) s.toTables msg.2 x id

/-- A response delivers what waits for the keys that it installs: it replaces a key and does not
install a first one, and what a member signed is replayed with the members that the node has. -/
def ResponseDelivers (s : AppState) (m : ManifestReceived) : Prop :=
  m.manifest.verify P = true → m.manifest.manifest.deleted = false → ¬ s.Stalls P m →
    ∀ x key, s.channelKeys.lookup x ≠ some key → (s.viewWith P m).key x = some key →
      ∀ msg raw, WaitsFor P s x key msg raw → s.ReplacesKey P m x ∧
        (Vouched P s.toTables raw ∨ VouchedWith P s m raw →
          Knows s.messageLog x raw.id.text ∨ Replayed P s m x raw.id.text)

def EventDelivers (s : AppState) (i : Env × SwarmEvent) : Prop :=
  s.blocked = false →
    match i.2 with
    | .messageReceived topic data _ =>
      isChannelTopic topic = false → isCommunityTopic topic = true →
        ∀ ch, P.decodeEvent data = some (.channelManifestBroadcast ch) → BroadcastDelivers P s ch
    | .manifestReceived m => ResponseDelivers P s m
    | _ => True

variable {P}

/-! ### Broadcasts -/

theorem delivers_of_key_kept {s' : AppState}
    (h : ∀ x k, s'.channelKeys.lookup x = some k → s.channelKeys.lookup x = some k) :
    Delivers P s s' :=
  fun x key hbefore hafter => absurd (h x key hafter) hbefore

theorem pendingRotation_broadcast (s : AppState) (ch : ChannelManifest) :
    (s.handleChannelManifestBroadcast P ch).pendingRotation = s.pendingRotation := by
  unfold handleChannelManifestBroadcast
  dsimp only
  split
  · rfl
  · split <;> rfl

theorem blocked_broadcast (s : AppState) (ch : ChannelManifest) :
    (s.handleChannelManifestBroadcast P ch).blocked = s.blocked := by
  unfold handleChannelManifestBroadcast
  dsimp only
  split
  · rfl
  · split <;> rfl

/-- A broadcast leaves everything in the buffer. -/
theorem delivers_broadcast_iff (s : AppState) (ch : ChannelManifest) :
    Delivers P s (s.handleChannelManifestBroadcast P ch) ↔ BroadcastDelivers P s ch := by
  have hwaiting : ∀ x, waiting (s.handleChannelManifestBroadcast P ch) x = waiting s x := by
    intro x
    unfold waiting
    rw [pendingRotation_broadcast]
  cases hpk : communityPk? s.toTables ch.communityId.text with
  | none =>
    have hignored : s.handleChannelManifestBroadcast P ch = s := by
      unfold handleChannelManifestBroadcast
      dsimp only
      rw [hpk]
    rw [hignored]
    refine iff_of_true (delivers_of_key_kept fun x k hk => hk) fun h => ?_
    rw [hpk] at h
    cases h
  | some pk =>
    cases hkey : s.unwrapOwn P ch with
    | none =>
      have hkeys : (s.handleChannelManifestBroadcast P ch).channelKeys = s.channelKeys := by
        unfold handleChannelManifestBroadcast
        dsimp only
        rw [hpk, hkey]
      refine iff_of_true (delivers_of_key_kept fun x k hk => ?_) fun _ key h => ?_
      · rw [hkeys] at hk
        exact hk
      · rw [hkey] at h
        cases h
    | some key =>
      have hkeys : ∀ x, (s.handleChannelManifestBroadcast P ch).channelKeys.lookup x =
          if x = ch.id.text then some key else s.channelKeys.lookup x := by
        intro x
        unfold handleChannelManifestBroadcast
        dsimp only
        rw [hpk, hkey]
        exact KeyRing.lookup_install _ _ _ _
      constructor
      · intro h _ key' hkey' hbefore msg raw hwaits
        rw [hkey] at hkey'
        cases hkey'
        have hafter := hkeys ch.id.text
        rw [if_pos rfl] at hafter
        refine (h _ key hbefore hafter msg raw hwaits).1 ?_
        rw [hwaiting]
        exact hwaits.buffered
      · intro h x key' hbefore hafter msg raw hwaits
        rw [hkeys] at hafter
        split at hafter
        · next hx =>
          subst hx
          cases hafter
          exact absurd hwaits (h (by rw [hpk]; rfl) key hkey hbefore msg raw)
        · exact absurd hafter hbefore

theorem channelKeys_handleChannelMessage (s : AppState) (topic : String) (data : Bytes) :
    (s.handleChannelMessage P false topic data).channelKeys = s.channelKeys := by
  rcases handleChannelMessage_write (P := P) false s topic data with h | ⟨ev, -, h⟩
  · rw [h]
  · generalize s.handleChannelMessage P false topic data = t at h ⊢
    cases h <;> rfl

theorem noneStranded_gossip_iff (env : Env) (hs : s.blocked = false)
    (topic : String) (data : Bytes) (source : Option String) :
    NoneStranded P s (env, .messageReceived topic data source) ↔
      EventDelivers P s (env, .messageReceived topic data source) := by
  have hstep : eventStep P s (env, .messageReceived topic data source) =
      if isChannelTopic topic then s.handleChannelMessage P false topic data
      else if isCommunityTopic topic then s.handleCommunityMessage P env data source
      else s := if_neg (by rw [hs]; decide)
  cases hchannel : isChannelTopic topic with
  | true =>
    rw [hchannel, if_pos rfl] at hstep
    refine iff_of_true (fun _ => delivers_of_key_kept fun x k hk => ?_) fun _ h => ?_
    · rw [hstep, channelKeys_handleChannelMessage] at hk
      exact hk
    · exact absurd (hchannel.symm.trans h) (by decide)
  | false =>
    rw [hchannel, if_neg (by decide)] at hstep
    cases hcommunity : isCommunityTopic topic with
    | false =>
      rw [hcommunity, if_neg (by decide)] at hstep
      refine iff_of_true (fun _ => delivers_of_key_kept fun x k hk => ?_) fun _ _ h => ?_
      · rw [hstep] at hk
        exact hk
      · exact absurd (hcommunity.symm.trans h) (by decide)
    | true =>
      rw [hcommunity, if_pos rfl] at hstep
      by_cases hbroadcast : ∃ ch, P.decodeEvent data = some (.channelManifestBroadcast ch)
      · obtain ⟨ch, hd⟩ := hbroadcast
        have hhandle : s.handleCommunityMessage P env data source =
            s.handleChannelManifestBroadcast P ch := by
          unfold handleCommunityMessage
          rw [hd]
        rw [hhandle] at hstep
        unfold NoneStranded EventDelivers
        rw [hstep, blocked_broadcast, delivers_broadcast_iff]
        constructor
        · intro h _ _ _ ch' hd'
          cases hd.symm.trans hd'
          exact h hs
        · exact fun h _ => h hs hchannel hcommunity ch hd
      · refine iff_of_true (fun _ => delivers_of_key_kept fun x k hk => ?_) fun _ _ _ ch hd => ?_
        · rw [hstep] at hk
          rcases handleCommunityMessage_write (P := P) env s data source with h | ⟨ev, hd, h⟩
          · rw [h] at hk
            exact hk
          · refine (h.kept (x := x) fun ch hev => ?_).key k hk
            exact absurd ⟨ch, hev ▸ hd⟩ hbroadcast
        · exact absurd ⟨ch, hd⟩ hbroadcast

/-! ### Responses -/

variable {s : AppState} {m : ManifestReceived}

/-- The member check of a message reads the key of the record only. -/
theorem authorVerified_iff {t : Tables} :
    authorVerified P t c raw = true ↔ ∃ r, recordIn t.members c raw.authorId.text = some r ∧
      P.vkValid r.publicKey = true ∧ raw.verify P r.publicKey = true := by
  unfold authorVerified
  rw [show member? t c raw.authorId.text = recordIn t.members c raw.authorId.text from rfl]
  cases recordIn t.members c raw.authorId.text with
  | none => simp
  | some r => simp

/-- What the node has when the members of a response are taken in. -/
theorem afterReplay_of_not_stalls (hs : s.blocked = false) (hstalls : ¬ s.Stalls P m) :
    (s.afterReplay P m).blocked = false ∧
      (s.afterReplay P m).toTables = (s.receiveTables P m).toTables := by
  rcases afterReplay_spec (P := P) hs m with ⟨h, -⟩ | ⟨-, hfree, htables⟩
  · exact absurd h hstalls
  · exact ⟨hfree, htables⟩

theorem knows_afterReplay (hs : s.blocked = false) (hstalls : ¬ s.Stalls P m) :
    Knows (s.afterReplay P m).messageLog x id ↔
      Knows s.messageLog x id ∨ Replayed P s m x id := by
  rw [stalls_iff] at hstalls
  push Not at hstalls
  unfold Replayed
  obtain ⟨t, ht, hblocked, htables, hwaiting, hlog⟩ := exists_replay (P := P) s m
  rw [ht, knows_replay _ (hblocked.trans hs), hlog, htables, hwaiting, view_receiveTables]
  · simp only [mem_rotated_receiveKeys]
    rfl
  · rw [htables, hwaiting]
    exact fun y hy msg hmsg => Bool.eq_false_iff.mpr (hstalls y hy msg hmsg)

theorem exists_member_settleManifest_iff (hP : P.Lawful) (env : Env) (hs : s.blocked = false)
    (hstalls : ¬ s.Stalls P m) (rotated : List String) (b : Bool) {u : String} {Q : Key → Prop} :
    (∃ r, recordIn ((s.afterReplay P m).settleManifest P env m rotated b).members c u = some r ∧
        Q r.publicKey) ↔ ∃ k, SignsAfter P s m c u k ∧ Q k := by
  obtain ⟨-, htables⟩ := afterReplay_of_not_stalls (P := P) hs hstalls
  have hmembers : (s.afterReplay P m).members = s.members := by
    rw [htables]
    rfl
  have hself : (s.afterReplay P m).peerId P = s.peerId P :=
    peerId_congr (signingKey_afterReplay s m)
  unfold SignsAfter
  by_cases hannounces : Announces P s m
  · obtain ⟨r, -, hpk, heq⟩ := members_settleManifest_of env hP rotated b
      ((announces_afterReplay htables).mpr hannounces)
    rw [heq, recordIn_insert, recordIn_receiveMembers, hmembers, hself]
    rw [ownPk_afterReplay] at hpk
    by_cases hown : c = m.communityId ∧ u = s.peerId P
    · rw [if_pos hown]
      constructor
      · rintro ⟨r', hr', hQ⟩
        cases hr'
        exact ⟨_, .inl ⟨hannounces, hown.1, hown.2, hpk⟩, hQ⟩
      · rintro ⟨k, ⟨-, -, -, rfl⟩ | ⟨hnot, -⟩, hQ⟩
        · exact ⟨r, rfl, hpk.symm ▸ hQ⟩
        · exact absurd ⟨hannounces, hown⟩ hnot
    · rw [if_neg hown]
      constructor
      · rintro ⟨r', hr', hQ⟩
        exact ⟨_, .inr ⟨fun h => hown h.2, r', hr', rfl⟩, hQ⟩
      · rintro ⟨k, ⟨-, hc, hu, -⟩ | ⟨-, r', hr', rfl⟩, hQ⟩
        · exact absurd ⟨hc, hu⟩ hown
        · exact ⟨r', hr', hQ⟩
  · rw [members_settleManifest_of_not hP rotated b
      (mt (announces_afterReplay htables).mp hannounces), recordIn_receiveMembers, hmembers]
    constructor
    · rintro ⟨r', hr', hQ⟩
      exact ⟨_, .inr ⟨fun h => hannounces h.1, r', hr', rfl⟩, hQ⟩
    · rintro ⟨k, ⟨h, -⟩ | ⟨-, r', hr', rfl⟩, hQ⟩
      · exact absurd h hannounces
      · exact ⟨r', hr', hQ⟩

theorem exists_channel_settleManifest_iff (hP : P.Lawful) (env : Env) (hs : s.blocked = false)
    (hstalls : ¬ s.Stalls P m) (rotated : List String) (b : Bool) {Q : CommunityId → Prop} :
    (∃ ch, ((s.afterReplay P m).settleManifest P env m rotated b).channels.lookup x = some ch ∧
        Q ch.communityId) ↔
      ∃ ch, (s.viewWith P m).channel x = some ch ∧ Q ch.communityId := by
  obtain ⟨-, htables⟩ := afterReplay_of_not_stalls (P := P) hs hstalls
  have hcommunity : (s.afterReplay P m).communities.lookup m.communityId = some m.manifest := by
    rw [congrArg Tables.communities htables]
    exact AList.lookup_insert _
  have hview : (s.viewWith P m).channel x = (s.afterReplay P m).channels.lookup x := by
    rw [← view_receiveTables, ← htables]
    rfl
  have hrel : Option.Rel (RowWidened P env _) _ _ :=
    widened_settleManifest hP rotated b hcommunity x
  rw [hview]
  generalize (s.afterReplay P m).channels.lookup x = before at hrel ⊢
  generalize ((s.afterReplay P m).settleManifest P env m rotated b).channels.lookup x = after
    at hrel ⊢
  cases hrel with
  | none => exact Iff.rfl
  | @some ch ch' hrow =>
    have hsame : ch'.communityId = ch.communityId := by rw [hrow.fields]
    simp [hsame]

theorem vouched_settleManifest_iff (hP : P.Lawful) (env : Env) (hs : s.blocked = false)
    (hstalls : ¬ s.Stalls P m) (rotated : List String) (b : Bool) (raw : RawMessage) :
    Vouched P ((s.afterReplay P m).settleManifest P env m rotated b).toTables raw ↔
      VouchedWith P s m raw := by
  have hmember := fun c : CommunityId => exists_member_settleManifest_iff hP env hs hstalls
    rotated b (c := c.text) (u := raw.authorId.text)
    (Q := fun k => P.vkValid k = true ∧ raw.verify P k = true)
  unfold Vouched VouchedWith
  simp only [authorVerified_iff, hmember]
  exact exists_channel_settleManifest_iff hP env hs hstalls rotated b
    (Q := fun c => ∃ k, SignsAfter P s m c.text raw.authorId.text k ∧ P.vkValid k = true ∧
      raw.verify P k = true)

/-- A response that does not stop the processor leaves nothing behind exactly when it delivers. -/
theorem delivers_received_iff (hP : P.Lawful) (env : Env) (hs : s.blocked = false)
    (hverify : m.manifest.verify P = true) (hlive : m.manifest.manifest.deleted = false)
    (hstalls : ¬ s.Stalls P m) :
    Delivers P s (s.handleManifestReceived P env m) ↔ ResponseDelivers P s m := by
  obtain ⟨hfree, htables⟩ := afterReplay_of_not_stalls (P := P) hs hstalls
  have heq := handleManifestReceived_of_live (P := P) env (s := s) hverify hlive
  rw [if_neg (by rw [hfree]; decide)] at heq
  rw [heq]
  generalize (m.channelIds.any fun ch => decide (ch ∉ (s.receiveKeys P m).keys)) = b
  have hframe := settleManifest_membersFrame (P := P) env (s.afterReplay P m) m
    (s.receiveKeys P m).rotated b
  have hvouched := vouched_settleManifest_iff hP env hs hstalls (s.receiveKeys P m).rotated b
  generalize (s.afterReplay P m).settleManifest P env m (s.receiveKeys P m).rotated b = s'
    at hframe hvouched ⊢
  have hkeys : ∀ x, s'.channelKeys.lookup x = (s.viewWith P m).key x := by
    intro x
    rw [hframe.channelKeys, ← view_receiveTables, ← htables]
    rfl
  have hlog : ∀ x id, Knows s'.messageLog x id ↔ Knows s.messageLog x id ∨ Replayed P s m x id := by
    intro x id
    rw [hframe.messageLog]
    exact knows_afterReplay hs hstalls
  have hpending : ∀ x, s'.pendingRotation.lookup x =
      if x ∈ (s.receiveKeys P m).rotated then none else s.pendingRotation.lookup x := by
    intro x
    rw [hframe.pendingRotation]
    exact pendingRotation_afterReplay hs hfree x
  have hgone : ∀ x msg, msg ∈ waiting s x →
      (msg ∉ waiting s' x ↔ s.ReplacesKey P m x) := by
    intro x msg hmsg
    unfold waiting at hmsg ⊢
    rw [hpending, ← mem_rotated_receiveKeys]
    split
    · next hrotated => exact iff_of_true List.not_mem_nil hrotated
    · next hnot => exact iff_of_false (fun h => h hmsg) hnot
  unfold Delivers ResponseDelivers
  simp only [hkeys, hlog, hvouched]
  constructor
  · intro h _ _ _ x key hbefore hafter msg raw hwaits
    obtain ⟨hnot, hentry⟩ := h x key hbefore hafter msg raw hwaits
    exact ⟨(hgone x msg hwaits.buffered).mp hnot, hentry⟩
  · intro h x key hbefore hafter msg raw hwaits
    obtain ⟨hreplaces, hentry⟩ := h hverify hlive hstalls x key hbefore hafter msg raw hwaits
    exact ⟨(hgone x msg hwaits.buffered).mpr hreplaces, hentry⟩

theorem noneStranded_received_iff (hP : P.Lawful) (env : Env) (hs : s.blocked = false)
    (m : ManifestReceived) :
    NoneStranded P s (env, .manifestReceived m) ↔ EventDelivers P s (env, .manifestReceived m) := by
  have hstep : eventStep P s (env, .manifestReceived m) = s.handleManifestReceived P env m :=
    processEvent_received env m hs
  have hstops := blocked_processEvent_received (P := P) env m hs
  rw [processEvent_received env m hs] at hstops
  unfold NoneStranded EventDelivers
  rw [hstep]
  by_cases htaken : m.manifest.verify P = true ∧ m.manifest.manifest.deleted = false ∧
      ¬ s.Stalls P m
  · obtain ⟨hverify, hlive, hstalls⟩ := htaken
    have hfree : (s.handleManifestReceived P env m).blocked = false :=
      Bool.eq_false_iff.mpr fun h => hstalls (hstops.mp h).2.2
    rw [delivers_received_iff hP env hs hverify hlive hstalls]
    exact ⟨fun h _ => h hfree, fun h _ => h hs⟩
  · refine iff_of_true (fun hfree => delivers_of_key_kept fun x k hk => ?_) fun _ hv hl hst => ?_
    · by_cases hverify : m.manifest.verify P = true
      · by_cases hlive : m.manifest.manifest.deleted = false
        · have hstalls : s.Stalls P m := by
            by_contra hnot
            exact htaken ⟨hverify, hlive, hnot⟩
          exact absurd ((hstops.mpr ⟨hverify, hlive, hstalls⟩).symm.trans hfree) (by decide)
        · unfold handleManifestReceived at hk
          rw [hverify, Bool.eq_true_of_not_eq_false hlive] at hk
          exact (removeCommunityLocal_kept s m.communityId x).key k hk
      · unfold handleManifestReceived at hk
        rw [Bool.eq_false_of_not_eq_true hverify] at hk
        exact hk
    · exact absurd ⟨hv, hl, hst⟩ htaken

/-! ### Runs -/

theorem key_kept_processEvent {env : Env} {e : SwarmEvent}
    (hgossip : ∀ topic data source, e ≠ .messageReceived topic data source)
    (hreceived : ∀ m, e ≠ .manifestReceived m) {k : Key}
    (hk : (s.processEvent P env e).channelKeys.lookup x = some k) :
    s.channelKeys.lookup x = some k := by
  unfold processEvent at hk
  split at hk
  · exact hk
  · cases e with
    | messageReceived topic data source => exact absurd rfl (hgossip topic data source)
    | manifestReceived m => exact absurd rfl (hreceived m)
    | communityJoinFailed c reason => exact (removeCommunityLocal_kept s c x).key k hk
    | communityJoined pk c =>
      dsimp only at hk
      unfold handleCommunityJoined at hk
      dsimp only at hk
      split at hk
      · exact hk
      · split at hk
        · exact hk
        · split at hk <;> exact hk
    | _ => exact hk

/-- A run leaves no message behind whose key an event installed if and only if all its events
deliver: no message waits for a key that a broadcast installs, and a response replaces the keys for
which messages wait and has no member whose message is refused because the node does not know the
member yet. -/
theorem none_stranded_iff (P : Prims) (hP : P.Lawful) (s : AppState) (l : List (Env × SwarmEvent)) :
    Along (eventStep P) (NoneStranded P) s l ↔ Along (eventStep P) (EventDelivers P) s l := by
  refine along_congr (along_of_forall fun s i _ => ?_)
  obtain ⟨env, e⟩ := i
  cases hs : s.blocked with
  | true =>
    have hstep : eventStep P s (env, e) = s := if_pos hs
    refine iff_of_true (fun h => ?_) fun h => absurd (h.symm.trans hs) (by decide)
    rw [hstep, hs] at h
    cases h
  | false =>
    cases e with
    | messageReceived topic data source => exact noneStranded_gossip_iff env hs topic data source
    | manifestReceived m => exact noneStranded_received_iff hP env hs m
    | _ =>
      refine iff_of_true (fun _ => delivers_of_key_kept fun x k hk => ?_) fun _ => trivial
      exact key_kept_processEvent (fun _ _ _ h => by cases h) (fun _ h => by cases h) hk

end

/-! ## A message that stays behind -/

namespace Sample

/-- A message of the admin under the new key. -/
def earlyMessage : RawMessage :=
  RawMessage.create (prims [] []) ⟨9⟩ channel.id 30 0 (aeadSeal 71 3 [0]) 3

def strandedPrims : Prims :=
  prims [.channelKeyRotation rekeying, .newMessage earlyMessage, .channelManifestBroadcast rekeyed]
    []

/-- A member with the first key of the channel that knows the admin as a member. -/
def informedMember : AppState :=
  withMembers waitingMember [record 20 [.member], record 30 [.admin]]

def channelGossip (i : UInt8) : Env × SwarmEvent :=
  (env, .messageReceived (channelTopic channel.id.text) [i] none)

/-- The rotation and the message. -/
def bufferingRun : List (Env × SwarmEvent) := [channelGossip 0, channelGossip 1]

/-- The member when the rotation and the message have come. -/
def bufferingMember : AppState := run (eventStep strandedPrims) informedMember bufferingRun

theorem pendingRotation_bufferingMember : bufferingMember.pendingRotation.entries =
    [⟨channel.id.text, [(channelTopic channel.id.text, [1])]⟩] := by
  decide +kernel

theorem waiting_bufferingMember (x : String) : waiting bufferingMember x =
    if x = channel.id.text then [(channelTopic channel.id.text, [1])] else [] := by
  unfold waiting AList.lookup
  rw [pendingRotation_bufferingMember]
  by_cases hx : x = channel.id.text
  · subst hx
    rw [List.dlookup_cons_eq, if_pos rfl]
    rfl
  · rw [List.dlookup_cons_ne _ _ hx, if_neg hx]
    rfl

theorem early_waits : WaitsFor strandedPrims bufferingMember channel.id.text 71
    (channelTopic channel.id.text, [1]) earlyMessage := by
  refine ⟨?_, rfl, rfl, ?_⟩
  · rw [waiting_bufferingMember, if_pos rfl]
    exact List.mem_singleton_self _
  · decide +kernel

/-- The response replaces the key, and the message passes the checks of the replay. -/
theorem response_replays :
    bufferingMember.successiveKeys strandedPrims rekeyedResponse channel.id.text = [70, 71] ∧
      ((bufferingMember.viewWith strandedPrims rekeyedResponse).channel channel.id.text).map
        (fun ch => ch.communityId) = some community ∧
      (bufferingMember.viewWith strandedPrims rekeyedResponse).key channel.id.text = some 71 ∧
      (decryptEither strandedPrims (some 71)
        ((bufferingMember.viewWith strandedPrims rekeyedResponse).previousKey channel.id.text)
        earlyMessage.nonce earlyMessage.ciphertext).isSome = true ∧
      authorVerified strandedPrims bufferingMember.toTables community.text earlyMessage = true := by
  decide +kernel

end Sample

open Sample in
/-- The rotation, a message under the new key, and the broadcast with that key: the message of the
admin stays in the buffer. -/
theorem message_stranded :
    ¬ Along (eventStep strandedPrims) (NoneStranded strandedPrims) informedMember
      (bufferingRun ++ [gossipEvent 2]) := by
  intro hall
  have hnone : NoneStranded strandedPrims bufferingMember (gossipEvent 2) :=
    (along_append.mp hall).2.1
  obtain ⟨hbefore, hfree, hafter, hbuffered⟩ :
      bufferingMember.channelKeys.lookup channel.id.text ≠ some 71 ∧
        (eventStep strandedPrims bufferingMember (gossipEvent 2)).blocked = false ∧
        (eventStep strandedPrims bufferingMember (gossipEvent 2)).channelKeys.lookup
          channel.id.text = some 71 ∧
        (channelTopic channel.id.text, [1]) ∈
          waiting (eventStep strandedPrims bufferingMember (gossipEvent 2)) channel.id.text := by
    decide +kernel
  have hdelivers := hnone hfree
  obtain ⟨hgone, -⟩ := hdelivers channel.id.text 71 hbefore hafter _ _ early_waits
  exact hgone hbuffered

open Sample in
/-- With a manifest response in place of the broadcast nothing stays behind. -/
theorem message_replayed :
    Along (eventStep strandedPrims) (NoneStranded strandedPrims) informedMember
      (bufferingRun ++ [(env, .manifestReceived rekeyedResponse)]) := by
  have htopic : isChannelTopic (channelTopic channel.id.text) = true :=
    isChannelTopic_channelTopic channel.id.text
  have hgossip : ∀ (s : AppState) (i : UInt8), EventDelivers strandedPrims s (channelGossip i) :=
    fun s i _ h => absurd (htopic.symm.trans h) (by decide)
  have hresponse : ResponseDelivers strandedPrims bufferingMember rekeyedResponse := by
    intro _ _ _ x key _ hkey msg raw hwaits
    have hmem := hwaits.buffered
    rw [waiting_bufferingMember] at hmem
    split at hmem
    · next hx =>
      subst hx
      rw [List.mem_singleton.mp hmem] at hwaits
      have hdecoded := early_waits.decoded.symm.trans hwaits.decoded
      obtain rfl := NetworkEvent.newMessage.inj (Option.some.inj hdecoded)
      obtain ⟨hkeys, hview, hnew, hopens, hsigned⟩ := response_replays
      have hreplaces :
          bufferingMember.ReplacesKey strandedPrims rekeyedResponse channel.id.text := by
        unfold ReplacesKey
        rw [hkeys]
        exact ⟨70, by decide, 71, by decide, by decide⟩
      refine ⟨hreplaces, fun _ => .inr ⟨_, hreplaces, _, early_waits.buffered, ?_⟩⟩
      obtain ⟨ch, hch, hcommunity⟩ := Option.map_eq_some_iff.mp hview
      exact ⟨earlyMessage, ch, 71, early_waits.decoded, rfl, rfl, hch, hnew, hopens,
        hcommunity.symm ▸ hsigned⟩
    · cases hmem
  refine (none_stranded_iff strandedPrims (prims_lawful _ _) _ _).mpr (along_append.mpr
    ⟨along_of_forall fun s i hi => ?_, fun _ => hresponse, trivial⟩)
  rcases List.mem_cons.mp hi with rfl | hi
  · exact hgossip s 0
  · rw [List.mem_singleton.mp hi]
    exact hgossip s 1

end BitCord
