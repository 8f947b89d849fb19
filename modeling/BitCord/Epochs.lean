import BitCord.History
import BitCord.Removal

/-!
# Messages of earlier keys

A channel has a current key and the one that it replaced, and `message_get_history` reads an entry
with the one or else with the other. `message_edit` reads it with the current key only: after one
rotation an edit drops what an older message replied to and attached (`edit_drops_reply`,
`edit_keeps_rest_iff`).

The key that a rotation replaces takes the place of the one before, so messages of that key are no
longer read (`second_rotation_hides`, `stays_readable_iff`).
-/

namespace BitCord

open Lib Lib.Run AppState

/-! ## Editing -/

variable {p : EditMessageParams} {e : LogEntry}

section

variable {P : Prims} {env : Env} {s : AppState}

/-- A call of `message_edit` that succeeds replaces the content of the entry under the current
key. -/
theorem messageEdit_ok {reply : RpcReply}
    (hentry : s.messageLog.getEntry p.channelId p.messageId = some e)
    (hok : (s.messageEdit P env p).2 = .ok reply) :
    ∃ key, s.channelKeys.lookup p.channelId = some key ∧
      (s.messageEdit P env p).1.toTables = s.toTables ∧
      (s.messageEdit P env p).1.messageLog.getEntry p.channelId p.messageId =
        some { e with
          nonce := env.nonce 0
          ciphertext := P.aeadSeal key (env.nonce 0)
            (P.encodeContent (s.editedContent P env p key)) } := by
  unfold messageEdit at hok ⊢
  split at hok
  · cases hok
  · next hbody =>
    rw [if_neg hbody]
    cases hseed : s.seedRefusal p.communityId with
    | some err =>
      rw [hseed] at hok
      cases hok
    | none =>
      rw [hseed] at hok
      cases hkey : s.channelKeys.lookup p.channelId with
      | none =>
        rw [hkey] at hok
        cases hok
      | some key =>
        rw [hkey] at hok
        cases hauthor : s.authorRefusal P p.channelId p.messageId
            "only the author can edit a message" with
        | some err =>
          rw [hauthor] at hok
          cases hok
        | none =>
          refine ⟨key, rfl, ?_⟩
          have hedited := s.messageLog.getEntry_edit p.channelId p.messageId (env.nonce 0)
            (P.aeadSeal key (env.nonce 0) (P.encodeContent (s.editedContent P env p key)))
          rw [hentry, Option.map_some] at hedited
          dsimp only
          unfold editOwn
          dsimp only
          split <;> exact ⟨rfl, hedited⟩

/-- What an edit writes: it keeps the rest of a text that the current key opens. -/
theorem editedContent_eq (env : Env) {key : Key} {body : String} {a : List AttachmentRef}
    {r : Option MessageId} {at' : Option DateTime}
    (hentry : s.messageLog.getEntry p.channelId p.messageId = some e)
    (hkey : s.channelKeys.lookup p.channelId = some key)
    (htext : contentOf P s.toTables p.channelId e = some (.text body a r at')) :
    s.editedContent P env p key =
      if (P.aeadOpen key e.nonce e.ciphertext).isSome then .text p.body a r (some env.now)
      else .text p.body [] none (some env.now) := by
  unfold contentOf decryptEither at htext
  rw [hkey, Option.bind_some] at htext
  unfold editedContent
  rw [hentry, Option.bind_some]
  cases hopen : P.aeadOpen key e.nonce e.ciphertext with
  | none => rfl
  | some plain =>
    rw [hopen, Option.some_or] at htext
    dsimp only
    rw [htext]
    rfl

end

/-- For every state and every message whose entry reads as a text under the current or else the
previous key, a call of `message_edit` that succeeds keeps what the text replied to and attached if
and only if the current key opens the entry, or there is nothing to keep. The call succeeds for
messages of the node itself only, and it does not matter whether the message is deleted. -/
theorem edit_keeps_rest_iff {P : Prims} (hP : P.Lawful) (env : Env) (s : AppState)
    (p : EditMessageParams) {e : LogEntry} {body : String} {a : List AttachmentRef}
    {r : Option MessageId} {edited : Option DateTime} {reply : RpcReply}
    (hentry : s.messageLog.getEntry p.channelId p.messageId = some e)
    (htext : contentOf P s.toTables p.channelId e = some (.text body a r edited))
    (hok : (s.messageEdit P env p).2 = .ok reply)
    (hcodes : Codes P (.text p.body a r (some env.now)))
    (hbare : Codes P (.text p.body [] none (some env.now))) :
    (∃ e' edited', (s.messageEdit P env p).1.messageLog.getEntry p.channelId p.messageId = some e' ∧
        contentOf P (s.messageEdit P env p).1.toTables p.channelId e' =
          some (.text p.body a r edited')) ↔
      (∃ key, s.channelKeys.lookup p.channelId = some key ∧
          (P.aeadOpen key e.nonce e.ciphertext).isSome = true) ∨ a = [] ∧ r = none := by
  obtain ⟨key, hkey, htables, hedited⟩ := messageEdit_ok hentry hok
  have hwritten : ∀ c, s.editedContent P env p key = c → Codes P c →
      contentOf P s.toTables p.channelId { e with
        nonce := env.nonce 0
        ciphertext := P.aeadSeal key (env.nonce 0)
          (P.encodeContent (s.editedContent P env p key)) } = some c := by
    rintro c rfl hc
    unfold contentOf
    rw [hkey, decryptEither_seal hP (.inl rfl) (fun h => absurd rfl h), Option.bind_some]
    exact hc
  have hcontent := editedContent_eq env hentry hkey htext
  rw [htables, hedited]
  by_cases hopen : (P.aeadOpen key e.nonce e.ciphertext).isSome = true
  · rw [if_pos hopen] at hcontent
    exact ⟨fun _ => .inl ⟨key, hkey, hopen⟩, fun _ => ⟨_, _, rfl, hwritten _ hcontent hcodes⟩⟩
  · rw [if_neg hopen] at hcontent
    have hbareContent := hwritten _ hcontent hbare
    constructor
    · rintro ⟨e', edited', he', hsame⟩
      cases he'
      rw [hbareContent] at hsame
      cases hsame
      exact .inr ⟨rfl, rfl⟩
    · rintro (⟨key', hkey', hopen'⟩ | ⟨rfl, rfl⟩)
      · rw [hkey] at hkey'
        cases hkey'
        exact absurd hopen' hopen
      · exact ⟨_, _, rfl, hbareContent⟩

namespace Sample

/-- A reply, and its edit with and without what it replies to. -/
def replyContents : List MessageContent :=
  [.text "hi" [] (some ⟨1⟩) none, .text "new" [] (some ⟨1⟩) (some env.now),
    .text "new" [] none (some env.now)]

def replyPrims : Prims := prims [] replyContents

def replier : AppState :=
  ((withChannel (withCommunity (app 20) 30) channel 70).messageSend replyPrims env
    ⟨community.text, channel.id.text, "hi", some (MessageId.mk 1).text⟩).1

def replyEntry : LogEntry :=
  ⟨0, env.nonce 0, replyPrims.aeadSeal 70 (env.nonce 0) [0], (MessageId.mk (env.ulid 0)).text,
    (app 20).peerId replyPrims, 1700000000000, false⟩

def replyEdit : EditMessageParams :=
  ⟨community.text, channel.id.text, (MessageId.mk (env.ulid 0)).text, "new"⟩

def readReply (s : AppState) : Option MessageContent :=
  (s.messageLog.getEntry channel.id.text (MessageId.mk (env.ulid 0)).text).bind
    (contentOf replyPrims s.toTables channel.id.text)

def rotatedReplier : AppState :=
  (replier.channelRotateKey replyPrims (env.skip 1) ⟨community.text, channel.id.text⟩).1

end Sample

open Sample in
/-- An edit under the key of the message keeps what it replies to. -/
theorem edit_keeps_rest_iff_fresh :
    ∃ e' edited', (replier.messageEdit replyPrims env replyEdit).1.messageLog.getEntry
        replyEdit.channelId replyEdit.messageId = some e' ∧
      contentOf replyPrims (replier.messageEdit replyPrims env replyEdit).1.toTables
        replyEdit.channelId e' = some (.text replyEdit.body [] (some ⟨1⟩) edited') := by
  have hentry : replier.messageLog.getEntry replyEdit.channelId replyEdit.messageId =
      some replyEntry := by decide +kernel
  have htext : contentOf replyPrims replier.toTables replyEdit.channelId replyEntry =
      some (.text "hi" [] (some ⟨1⟩) none) := by decide +kernel
  obtain ⟨reply, hok⟩ := exists_ok_of_isSome (r := (replier.messageEdit replyPrims env replyEdit).2)
    (by decide +kernel)
  have hlawful : replyPrims.Lawful := prims_lawful _ _
  refine (edit_keeps_rest_iff hlawful env replier replyEdit hentry htext hok
    (by unfold Codes; decide +kernel) (by unfold Codes; decide +kernel)).mpr (.inl ⟨70, ?_, ?_⟩)
  · decide +kernel
  · decide +kernel

open Sample in
/-- After one rotation the reply is still shown as one, and an edit makes it a message that replies
to nothing. -/
theorem edit_drops_reply :
    readReply rotatedReplier = some (.text "hi" [] (some ⟨1⟩) none) ∧
      (rotatedReplier.messageEdit replyPrims env replyEdit).2.toOption.isSome = true ∧
      readReply (rotatedReplier.messageEdit replyPrims env replyEdit).1 =
        some (.text "new" [] none (some env.now)) := by
  decide +kernel

/-! ## The two keys of a channel -/

/-- The key of a channel and the one that it replaced. -/
structure KeySlots where
  current : Option Key
  previous : Option Key

/-- A key takes the place of another one, which takes that of the one before. -/
def KeySlots.install (slots : KeySlots) (key : Key) : KeySlots where
  current := some key
  previous := if slots.current = some key then slots.previous else slots.current.or slots.previous

def KeyRing.slots (ring : KeyRing) (x : String) : KeySlots :=
  ⟨ring.keys.lookup x, ring.previous.lookup x⟩

def Tables.slots (t : Tables) (x : String) : KeySlots := (KeyRing.of t).slots x

theorem KeyRing.slots_install (ring : KeyRing) (y : String) (key : Key) (x : String) :
    (ring.install y key).slots x =
      if y = x then (ring.slots x).install key else ring.slots x := by
  by_cases hy : y = x
  · subst hy
    rw [if_pos rfl]
    unfold slots KeyRing.install KeySlots.install
    cases ring.keys.lookup y with
    | none => simp
    | some old => by_cases hsame : old = key <;> simp [hsame]
  · have hx : x ≠ y := Ne.symm hy
    rw [if_neg hy]
    unfold slots KeyRing.install
    cases ring.keys.lookup y with
    | none => simp [hx]
    | some old => by_cases hsame : old = key <;> simp [hsame, hx]

theorem KeysKept.slots_eq {s s' : AppState} (h : KeysKept s s') (x : String) :
    s'.toTables.slots x = s.toTables.slots x := by
  unfold Tables.slots KeyRing.slots KeyRing.of
  rw [h.channelKeys, h.previousChannelKeys]

theorem slots_putKey (s : AppState) (y : String) (key : Key) (x : String) :
    (s.putKey y key).toTables.slots x =
      if y = x then (s.toTables.slots x).install key else s.toTables.slots x :=
  (KeyRing.of s.toTables).slots_install y key x

theorem isSome_current_foldl_install (l : List Key) (slots : KeySlots) :
    (l.foldl KeySlots.install slots).current.isSome = (slots.current.isSome || !l.isEmpty) := by
  induction l generalizing slots with
  | nil => simp
  | cons key l ih =>
    rw [List.foldl_cons, ih]
    simp [KeySlots.install]

/-! ## Keys that a response installs -/

section

variable (P : Prims) (s : AppState) (m : ManifestReceived) (x : String)

def responseKeys : List Key :=
  if m.communityPk = s.ownPk P then [] else s.openedKeys P m.channels x

/-- The keys that a response installs: those that the node opens, or else a plaintext key if the
channel has none. -/
def arrivingKeys : List Key :=
  if (s.channelKeys.lookup x).isNone && (responseKeys P s m x).isEmpty then
    (m.plainKey? x).toList
  else responseKeys P s m x

end

section

variable {P : Prims} {s : AppState} {m : ManifestReceived} {x : String}

theorem slots_foldl_unwrapStep (channels : List ChannelManifest) (ring : KeyRing) :
    (channels.foldl (unwrapStep P s) ring).slots x =
      (s.openedKeys P channels x).foldl KeySlots.install (ring.slots x) := by
  induction channels generalizing ring with
  | nil => rfl
  | cons ch channels ih =>
    rw [List.foldl_cons, ih]
    unfold unwrapStep openedKeys
    cases hkey : s.unwrapOwn P ch with
    | none => simp [hkey]
    | some key =>
      by_cases hid : ch.id.text = x
      · simp [hkey, hid, KeyRing.slots_install]
      · simp [hid, KeyRing.slots_install]

/-- A response first installs the keys that the node opens, and fills in a plaintext key if the
channel then has none. -/
theorem slots_receiveKeys {slots : KeySlots}
    (hslots : slots = (responseKeys P s m x).foldl KeySlots.install (s.toTables.slots x)) :
    (s.receiveTables P m).toTables.slots x =
      ⟨slots.current.or (m.plainKey? x), slots.previous⟩ := by
  have hring : (if m.communityPk = s.ownPk P then KeyRing.of s.toTables
      else m.channels.foldl (unwrapStep P s) (KeyRing.of s.toTables)).slots x = slots := by
    rw [hslots]
    unfold responseKeys
    split
    · rfl
    · exact slots_foldl_unwrapStep m.channels _
  rw [← hring]
  show KeySlots.mk ((s.receiveKeys P m).keys.lookup x) _ = _
  unfold receiveKeys
  dsimp only
  rw [Dict.lookup_orInsertAll, find?_keyEntries]
  rfl

theorem slots_receiveTables :
    (s.receiveTables P m).toTables.slots x =
      (arrivingKeys P s m x).foldl KeySlots.install (s.toTables.slots x) := by
  have hcurrent : (s.toTables.slots x).current = s.channelKeys.lookup x := rfl
  rw [slots_receiveKeys rfl]
  unfold arrivingKeys
  split
  · next hnone =>
    -- the channel has no key yet
    rw [Bool.and_eq_true, Option.isNone_iff_eq_none, List.isEmpty_iff] at hnone
    rw [hnone.2, List.foldl_nil, hcurrent, hnone.1, Option.none_or]
    cases hplain : m.plainKey? x with
    | none =>
      rw [Option.toList_none, List.foldl_nil, ← hnone.1]
      rfl
    | some key =>
      rw [Option.toList_some, List.foldl_cons, List.foldl_nil]
      unfold KeySlots.install
      rw [hcurrent, hnone.1]
      simp
  · next hsome =>
    -- the channel has a key once those that the node opens are installed
    have hkey : ((responseKeys P s m x).foldl KeySlots.install
        (s.toTables.slots x)).current.isSome = true := by
      rw [isSome_current_foldl_install, hcurrent]
      cases hk : s.channelKeys.lookup x with
      | none =>
        rw [hk] at hsome
        simpa using hsome
      | some k => rfl
    obtain ⟨key, hkey⟩ := Option.isSome_iff_exists.mp hkey
    rw [hkey, Option.some_or, ← hkey]

end

/-! ## What is shown -/

/-- What happens at a member that reads a channel: it sends messages and rotates keys, it gets
gossip, and it gets manifest responses. -/
inductive ReaderInput where
  | send (env : Env) (p : SendMessageParams)
  | rotate (env : Env) (p : ChannelParams)
  | gossip (env : Env) (topic : String) (data : Bytes) (source : Option String)
  | response (env : Env) (m : ManifestReceived)

def textBody : Option MessageContent → String
  | some (.text body _ _ _) => body
  | _ => ""

/-- The entries that `message_get_history` reads. -/
def historyWindow (s : AppState) (p : GetHistoryParams) : List LogEntry :=
  s.messageLog.getSince p.channelId
    (UInt64.ofNat ((s.messageLog.len p.channelId).toNat - min (p.limit.getD 50).toNat 200))

/-- The node knows the channel, and `message_get_history` reads the entry. -/
def InHistory (p : GetHistoryParams) (e : LogEntry) (s : AppState) : Prop :=
  p.channelId ∈ s.channels ∧ e ∈ historyWindow s p

instance (p : GetHistoryParams) (e : LogEntry) (s : AppState) : Decidable (InHistory p e s) :=
  inferInstanceAs (Decidable (_ ∧ _))

section

variable (P : Prims)

def readerStep (s : AppState) : ReaderInput → AppState
  | .send env p => (s.messageSend P env p).1
  | .rotate env p => (s.channelRotateKey P env p).1
  | .gossip env topic data source => s.processEvent P env (.messageReceived topic data source)
  | .response env m => s.processEvent P env (.manifestReceived m)

/-- The body that `message_get_history` shows for an entry that it reads. -/
def shownBody (p : GetHistoryParams) (e : LogEntry) (s : AppState) : Option String :=
  if InHistory p e s then some (((s.historyInfo P p e).map fun info => info.body).getD "") else none

/-- The key that a rotation by the node itself installs. -/
def rotationKeys (s : AppState) (env : Env) (p : ChannelParams) (x : String) : List Key :=
  if p.channelId = x ∧ s.seedRefusal p.communityId = none ∧ p.channelId ∈ s.channels then
    [env.key 0]
  else []

def installedKeys (s : AppState) (x : String) : ReaderInput → List Key
  | .send _ _ => []
  | .rotate env p => rotationKeys s env p x
  | .gossip _ topic data source =>
    (installedKey? P x s (.messageReceived topic data source)).toList
  | .response _ m => if s.Takes P m then arrivingKeys P s m x else []

/-- The key that opens the entry: the current one is tried first. -/
def KeySlots.opener (slots : KeySlots) (e : LogEntry) : Option Key :=
  (slots.current.toList ++ slots.previous.toList).find? fun k =>
    (P.aeadOpen k e.nonce e.ciphertext).isSome

def textUnder (e : LogEntry) (k : Key) : String :=
  textBody ((P.aeadOpen k e.nonce e.ciphertext).bind P.decodeContent)

/-- The body of an entry under two keys; a deleted message has none. -/
def KeySlots.bodyOf (slots : KeySlots) (e : LogEntry) : String :=
  if e.deleted then "" else ((slots.opener P e).map (textUnder P e)).getD ""

/-- The condition on one input: if a key of the channel opens a text, then of the two keys that are
left when the keys of the input are installed, the one that opens the entry shows the same text. -/
def KeepsReadable (s : AppState) (i : ReaderInput) : Prop :=
  ∀ p e, InHistory p e s → InHistory p e (readerStep P s i) → e.deleted = false →
    ∀ k ∈ (s.toTables.slots p.channelId).opener P e, textUnder P e k ≠ "" →
      ∃ k' ∈ ((installedKeys P s p.channelId i).foldl KeySlots.install
          (s.toTables.slots p.channelId)).opener P e, textUnder P e k' = textUnder P e k

end

section

variable {P : Prims} {s : AppState} {x : String}

theorem textBody_decryptEither (slots : KeySlots) (e : LogEntry) :
    textBody ((decryptEither P slots.current slots.previous e.nonce e.ciphertext).bind
      P.decodeContent) = ((slots.opener P e).map (textUnder P e)).getD "" := by
  obtain ⟨current, previous⟩ := slots
  unfold KeySlots.opener textUnder decryptEither
  have hprevious : ∀ o : Option Key,
      textBody ((o.bind fun k => P.aeadOpen k e.nonce e.ciphertext).bind P.decodeContent) =
        ((o.toList.find? fun k => (P.aeadOpen k e.nonce e.ciphertext).isSome).map fun k =>
          textBody ((P.aeadOpen k e.nonce e.ciphertext).bind P.decodeContent)).getD "" := by
    intro o
    cases o with
    | none => rfl
    | some k => cases hk : P.aeadOpen k e.nonce e.ciphertext <;> simp [hk, textBody]
  cases current with
  | none => exact hprevious previous
  | some k =>
    cases hk : P.aeadOpen k e.nonce e.ciphertext with
    | none => simpa [hk] using hprevious previous
    | some plain => simp [hk]

theorem body_historyInfo (p : GetHistoryParams) (e : LogEntry) :
    ((s.historyInfo P p e).map fun info => info.body).getD "" =
      (s.toTables.slots p.channelId).bodyOf P e := by
  unfold historyInfo KeySlots.bodyOf
  dsimp only
  cases e.deleted with
  | true => rfl
  | false =>
    rw [← textBody_decryptEither, if_neg (by decide)]
    show _ = textBody ((decryptEither P (s.channelKeys.lookup p.channelId)
      (s.previousChannelKeys.lookup p.channelId) e.nonce e.ciphertext).bind P.decodeContent)
    cases (decryptEither P (s.channelKeys.lookup p.channelId)
        (s.previousChannelKeys.lookup p.channelId) e.nonce e.ciphertext).bind P.decodeContent with
    | none => rfl
    | some content =>
      cases content with
      | text body a r edited => rfl
      | reaction target emoji isAdd => rfl

/-- A removal leaves the keys of the channels that it leaves. -/
theorem slots_removeCommunityLocal {c : String} (hx : x ∈ (s.removeCommunityLocal c).channels) :
    (s.removeCommunityLocal c).toTables.slots x = s.toTables.slots x := by
  have hid : x ∉ channelIdsOf s.toTables c := (Dict.mem_eraseAll.mp hx).1
  have hkey : (s.channelKeys.eraseAll (channelIdsOf s.toTables c)).lookup x =
      s.channelKeys.lookup x := by
    rw [Dict.lookup_eraseAll, if_neg hid]
  show KeySlots.mk _ _ = KeySlots.mk _ _
  exact congrArg (fun k => KeySlots.mk k (s.previousChannelKeys.lookup x)) hkey

theorem slots_putChannelEntry (y : String) (ch : ChannelManifest) :
    (s.putChannelEntry y ch).toTables.slots x = s.toTables.slots x := rfl

theorem slots_channelRotateKey (env : Env) (p : ChannelParams) :
    (s.channelRotateKey P env p).1.toTables.slots x =
      (rotationKeys s env p x).foldl KeySlots.install (s.toTables.slots x) := by
  unfold rotationKeys channelRotateKey
  split
  · next e hseed =>
    rw [if_neg fun h => by cases hseed.symm.trans h.2.1]
    rfl
  · next hch =>
    rw [if_neg fun h => AList.lookup_eq_none.mp hch h.2.2]
    rfl
  · next ch hseed hch =>
    have hmem : p.channelId ∈ s.channels := AList.lookup_isSome.mp (by rw [hch]; rfl)
    refine ((keysKept_storeRotation _ p _ _).slots_eq x).trans ?_
    rw [slots_putChannelEntry, slots_putKey]
    by_cases hx : p.channelId = x
    · rw [if_pos hx, if_pos ⟨hx, hseed, hmem⟩]
      rfl
    · rw [if_neg hx, if_neg fun h => hx h.1]
      rfl

theorem slots_handleChannelManifestBroadcast {ch : ChannelManifest}
    (hknown : (communityPk? s.toTables ch.communityId.text).isSome = true) :
    (s.handleChannelManifestBroadcast P ch).toTables.slots ch.id.text =
      (s.unwrapOwn P ch).toList.foldl KeySlots.install (s.toTables.slots ch.id.text) := by
  obtain ⟨pk, hpk⟩ := Option.isSome_iff_exists.mp hknown
  unfold handleChannelManifestBroadcast
  dsimp only
  rw [hpk]
  cases s.unwrapOwn P ch with
  | none => rfl
  | some key => exact (slots_putKey _ _ _ _).trans (if_pos rfl)

theorem AppState.CommunityWrite.slots {env : Env} {s' : AppState} {ev : NetworkEvent}
    (h : CommunityWrite P env s ev s')
    (hev : ∀ ch pk, ev = .channelManifestBroadcast ch →
      communityPk? s.toTables ch.communityId.text = some pk → ch.id.text ≠ x)
    (hx : x ∈ s'.channels) : s'.toTables.slots x = s.toTables.slots x := by
  cases h with
  | keyed hpk _ => exact (slots_putKey _ _ _ _).trans (if_neg (hev _ _ rfl hpk))
  | removed _ _ => exact slots_removeCommunityLocal hx
  | _ => rfl

theorem slots_gossip {env : Env} {topic : String} {data : Bytes} {source : Option String}
    (hx : x ∈ (s.processEvent P env (.messageReceived topic data source)).channels) :
    (s.processEvent P env (.messageReceived topic data source)).toTables.slots x =
      (installedKey? P x s (.messageReceived topic data source)).toList.foldl KeySlots.install
        (s.toTables.slots x) := by
  rw [installedKey?]
  cases hb : broadcast? P x s topic data with
  | some ch =>
    obtain ⟨hstep, rfl, hknown⟩ := processEvent_broadcast env source hb
    rw [hstep]
    exact slots_handleChannelManifestBroadcast hknown
  | none =>
    have hw := processEvent_write (P := P) env s (.messageReceived topic data source)
    generalize s.processEvent P env (.messageReceived topic data source) = s' at hw hx ⊢
    cases hw with
    | aside => rfl
    | channel _ _ _ hw => exact hw.keysKept.slots_eq x
    | community hs htopic hcommunity hd hw =>
      refine hw.slots ?_ hx
      rintro ch pk rfl hpk rfl
      simp [broadcast?, hs, htopic, hcommunity, hd, hpk] at hb

theorem slots_response {env : Env} {m : ManifestReceived}
    (hx : x ∈ (s.processEvent P env (.manifestReceived m)).channels) :
    (s.processEvent P env (.manifestReceived m)).toTables.slots x =
      (if s.Takes P m then arrivingKeys P s m x else []).foldl KeySlots.install
        (s.toTables.slots x) := by
  by_cases htakes : s.Takes P m
  · rw [if_pos htakes]
    obtain ⟨hblocked, hverify, hlive⟩ := htakes
    rw [processEvent_received env m hblocked,
      (keysKept_handleManifestReceived env hverify hlive).slots_eq, slots_receiveTables]
  · rw [if_neg htakes]
    obtain ⟨a, heq | heq⟩ := processEvent_of_not_takes env htakes <;> rw [heq] at hx ⊢
    · rfl
    · exact slots_removeCommunityLocal hx

variable {i : ReaderInput}

theorem slots_readerStep (hx : x ∈ (readerStep P s i).channels) :
    (readerStep P s i).toTables.slots x =
      (installedKeys P s x i).foldl KeySlots.install (s.toTables.slots x) := by
  cases i with
  | send env p =>
    have hw := messageSend_write (P := P) env s p
    show (s.messageSend P env p).1.toTables.slots x = _
    generalize (s.messageSend P env p).1 = t at hw ⊢
    cases hw <;> rfl
  | rotate env p => exact slots_channelRotateKey env p
  | gossip env topic data source => exact slots_gossip hx
  | response env m => exact slots_response hx

/-! ## Runs -/

/-- A body that is shown stays as it is; an empty one may be one that no key opens. -/
def KeepsBody (a b : String) : Prop := a ≠ "" → b = a

theorem KeepsBody.refl (a : String) : KeepsBody a a := fun _ => rfl

theorem KeepsBody.trans {a b c : String} (hab : KeepsBody a b) (hbc : KeepsBody b c) :
    KeepsBody a c := by
  intro ha
  have hb := hab ha
  rw [hbc (hb ▸ ha), hb]

theorem bodyOf_kept_iff {slots slots' : KeySlots} {e : LogEntry} :
    (slots.bodyOf P e ≠ "" → slots'.bodyOf P e = slots.bodyOf P e) ↔
      (e.deleted = false → ∀ k ∈ slots.opener P e, textUnder P e k ≠ "" →
        ∃ k' ∈ slots'.opener P e, textUnder P e k' = textUnder P e k) := by
  unfold KeySlots.bodyOf
  cases e.deleted with
  | true => exact iff_of_true (fun h => absurd rfl h) fun h => by cases h
  | false =>
    cases slots.opener P e with
    | none => exact iff_of_true (fun h => absurd rfl h) fun _ k hk => by cases hk
    | some k =>
      cases slots'.opener P e with
      | none =>
        constructor
        · rintro h - k' hk' hne
          cases hk'
          exact absurd (h hne).symm hne
        · intro h hne
          obtain ⟨k', hk', -⟩ := h rfl k rfl hne
          cases hk'
      | some k' => simp

theorem keepsReadable_iff :
    KeepsReadable P s i ↔ ∀ p e a b, shownBody P p e s = some a →
      shownBody P p e (readerStep P s i) = some b → KeepsBody a b := by
  unfold KeepsReadable shownBody
  refine forall_congr' fun p => forall_congr' fun e => ?_
  constructor
  · intro h a b ha hb hne
    split at ha
    · next hbefore =>
      split at hb
      · next hafter =>
        cases ha
        cases hb
        rw [body_historyInfo] at hne
        rw [body_historyInfo, body_historyInfo, slots_readerStep hafter.1]
        exact bodyOf_kept_iff.mpr (h hbefore hafter) hne
      · cases hb
    · cases ha
  · intro h hbefore hafter
    have hsame := h _ _ (if_pos hbefore) (if_pos hafter)
    rw [body_historyInfo, body_historyInfo, slots_readerStep hafter.1] at hsame
    exact bodyOf_kept_iff.mp hsame

end

/-- In every run of a member, each body that `message_get_history` shows for an entry is shown as
long as the node has the channel and the call reads the entry, if and only if at every input, of
the two keys that are left when its keys are installed, the one that opens the entry shows the text
that the entry had under the key that opened it before. -/
theorem stays_readable_iff (P : Prims) (s : AppState) (is : List ReaderInput) :
    (∀ p e, RelatedWhile (readerStep P) KeepsBody (shownBody P p e) s is) ↔
      Along (readerStep P) (KeepsReadable P) s is := by
  have hstep : Along (readerStep P) (KeepsReadable P) s is ↔ Along (readerStep P)
      (fun s i => ∀ p e a b, shownBody P p e s = some a →
        shownBody P p e (readerStep P s i) = some b → KeepsBody a b) s is :=
    along_congr (along_of_forall fun _ _ _ => keepsReadable_iff)
  rw [hstep, along_forall_iff]
  refine forall_congr' fun p => ?_
  rw [along_forall_iff]
  exact forall_congr' fun e => relatedWhile_iff_along KeepsBody.refl KeepsBody.trans

namespace Sample

def shownBodies (s : AppState) : Option (List String) :=
  (s.messageGetHistory replyPrims ⟨community.text, channel.id.text, none, none⟩).toOption.map
    fun infos => infos.map fun info => info.body

/-- The member rotates the key of the channel. -/
def rotateAgain (n : Nat) : ReaderInput := .rotate (env.skip n) ⟨community.text, channel.id.text⟩

end Sample

open Sample in
/-- A message is shown with its body after one rotation and with an empty one after the second. -/
theorem second_rotation_hides :
    shownBodies replier = some ["hi"] ∧
      shownBodies (run (readerStep replyPrims) replier [rotateAgain 1]) = some ["hi"] ∧
      shownBodies (run (readerStep replyPrims) replier [rotateAgain 1, rotateAgain 2]) =
        some [""] := by
  decide +kernel

end BitCord
