import BitCord.Authority
import BitCord.KeyDistribution
import BitCord.Lib.Postcard

/-!
# Genuine key rotations

The admin signs the postcard encoding of the new channel manifest, which holds the wrapped keys in
a hash map, in the order in which the admin's node iterates over it. The receiving node checks the
signature against its own encoding of what it read. A postcard encoding determines the order of the
entries (`entries_eq_of_encode_eq`), so a genuine rotation is installed exactly when the two nodes
iterate over the map in the same order.
-/

namespace BitCord

open Lib Lib.Postcard Lib.Run AppState

/-! ## The encoding that is signed -/

variable {m m' : ChannelManifest} {κ α : Type}

variable {encValue : α → Bytes} {encKey : κ → Bytes}

namespace Postcard

/-- A byte vector: its length and the bytes. -/
def encodeBytes (b : Bytes) : Bytes := writeVarint b.length ++ b

def encodeStr (s : String) : Bytes := encodeBytes (utf8 s)

/-- Identifiers are written as their texts. -/
def encodeUserId (u : UserId) : Bytes := encodeStr u.text

/-- A hash map: its length and the entries, in the order of iteration. -/
def encodeMap {κ α : Type} (encKey : κ → Bytes) (encValue : α → Bytes) (d : Dict κ α) : Bytes :=
  writeVarint d.entries.length ++ d.entries.flatMap fun e => encKey e.1 ++ encValue e.2

/-- The number of the variant. -/
def encodeKind : ChannelKind → Bytes
  | .text => writeVarint 0
  | .announcement => writeVarint 1
  | .voice => writeVarint 2

/-- The fields of a channel manifest in their order. The text of a point in time is that of the
time library. -/
def encodeChannelManifest (timeText : DateTime → String) (m : ChannelManifest) : Bytes :=
  encodeStr m.id.text ++ encodeStr m.communityId.text ++ encodeStr m.name ++ encodeKind m.kind ++
    encodeMap encodeUserId encodeBytes m.encryptedChannelKey ++
    encodeStr (timeText m.createdAt) ++ writeVarint m.version.toNat

theorem prefixCode_encodeBytes : PrefixCode encodeBytes := by
  intro a b xs ys h
  have hcounted := prefixCode_writeVarint.counted (prefixCode_singleton (α := UInt8))
  refine hcounted ?_
  simpa [encodeBytes] using h

theorem prefixCode_encodeUserId : PrefixCode encodeUserId :=
  prefixCode_encodeBytes.comp (utf8_injective.comp UserId.text_injective)

/-- Entries of a map, one after the other. -/
theorem prefixCode_entry (hkey : PrefixCode encKey) (hvalue : PrefixCode encValue) :
    PrefixCode fun e : (_ : κ) × α => encKey e.1 ++ encValue e.2 := by
  have hpair : Function.Injective fun e : (_ : κ) × α => (e.1, e.2) := by
    rintro ⟨k, v⟩ ⟨k', v'⟩ h
    cases h
    rfl
  exact (hkey.append hvalue).comp hpair

/-- The encoding of a map determines the order of its entries. -/
theorem entries_eq_of_encodeMap_eq (hkey : PrefixCode encKey) (hvalue : PrefixCode encValue)
    {d d' : Dict κ α} (h : encodeMap encKey encValue d = encodeMap encKey encValue d') :
    d.entries = d'.entries := by
  have hcode := prefixCode_writeVarint.counted (prefixCode_entry hkey hvalue)
  exact (hcode (congrArg (· ++ []) h)).1

end Postcard

/-! ## What is sent, and what arrives -/

/-- The same manifest with the wrapped keys in another order. -/
structure ChannelManifest.Reordered (m m' : ChannelManifest) : Prop where
  fields : m' = { m with encryptedChannelKey := m'.encryptedChannelKey }
  entries : m.encryptedChannelKey.entries.Perm m'.encryptedChannelKey.entries

theorem ChannelManifest.Reordered.eq (h : m.Reordered m')
    (hentries : m'.encryptedChannelKey.entries = m.encryptedChannelKey.entries) : m' = m := by
  rw [h.fields, AList.ext hentries]

/-- The manifest read into a map that iterates in the opposite order. -/
def ChannelManifest.reversed (m : ChannelManifest) : ChannelManifest :=
  { m with
    encryptedChannelKey := ⟨m.encryptedChannelKey.entries.reverse,
      (List.perm_nodupKeys (List.reverse_perm _)).mpr m.encryptedChannelKey.nodupKeys⟩ }

theorem ChannelManifest.reordered_reversed (m : ChannelManifest) : m.Reordered m.reversed :=
  ⟨rfl, (List.reverse_perm _).symm⟩

theorem ChannelManifest.Reordered.refl (m : ChannelManifest) : m.Reordered m := ⟨rfl, .refl _⟩

/-- With at most one wrapped key there is only one order. -/
theorem ChannelManifest.Reordered.eq_of_length_le_one (h : m.Reordered m')
    (hone : m.encryptedChannelKey.entries.length ≤ 1) : m' = m := by
  refine h.eq ?_
  rcases Nat.le_one_iff_eq_zero_or_eq_one.mp hone with hzero | hone
  · have hnil := List.length_eq_zero_iff.mp hzero
    rw [hnil]
    exact List.perm_nil.mp (hnil ▸ h.entries.symm)
  · obtain ⟨e, he⟩ := List.length_eq_one_iff.mp hone
    rw [he]
    exact List.perm_singleton.mp (he ▸ h.entries.symm)

/-- A manifest that is encoded alike after its wrapped keys were put into another order is the
same manifest: the order did not change. -/
theorem ChannelManifest.Reordered.entries_eq_of_encode_eq {timeText : DateTime → String}
    (h : m.Reordered m')
    (hencode : Postcard.encodeChannelManifest timeText m' =
      Postcard.encodeChannelManifest timeText m) :
    m'.encryptedChannelKey.entries = m.encryptedChannelKey.entries := by
  rw [h.fields] at hencode
  unfold Postcard.encodeChannelManifest at hencode
  -- all fields but the map are the same on both sides
  have hmap := List.append_cancel_left (List.append_cancel_right (List.append_cancel_right hencode))
  exact Postcard.entries_eq_of_encodeMap_eq Postcard.prefixCode_encodeUserId
    Postcard.prefixCode_encodeBytes hmap

section

variable (P : Prims)

def AppState.sentRotation (s : AppState) (m : ChannelManifest) : ChannelKeyRotationPayload :=
  ⟨m, toBytes (P.sign s.signingKey (P.encodeChannelManifest m))⟩

/-- A call of `channel_rotate_key` makes the manifest and publishes the rotation event. -/
structure RotationSent (s : AppState) (env : Env) (p : ChannelParams) (m : ChannelManifest)
    (topic : String) (data : Bytes) : Prop where
  manifest : (s.channels.lookup p.channelId).map (s.rotatedChannel P env p) = some m
  published : ∃ broadcast, (s.channelRotateKey P env p).1.commands =
    s.commands ++ [.publish topic data, broadcast]

/-- The bytes of the event arrive at a node that has the community with the key of the sender and
the channel in an older version. The node reads the map into one with an order of its own. -/
structure RotationArrives (s : AppState) (m : ChannelManifest) (data : Bytes) (r : AppState)
    (received : ChannelManifest) : Prop where
  reordered : m.Reordered received
  decoded : P.decodeEvent data =
    some (.channelKeyRotation ⟨received, (s.sentRotation P m).signature⟩)
  community : communityPk? r.toTables m.communityId.text = some (s.ownPk P)
  older : ∃ current, r.channels.lookup m.id.text = some current ∧ current.version < m.version
  running : r.blocked = false

/-- The signature of the manifest verifies no other encoding of it. -/
def UnforgedOrders (s : AppState) (m : ChannelManifest) : Prop :=
  ∀ m', m.Reordered m' →
    P.verify (s.ownPk P) (P.encodeChannelManifest m')
      (P.sign s.signingKey (P.encodeChannelManifest m)) = true →
    P.encodeChannelManifest m' = P.encodeChannelManifest m

end

/-- The node has the manifest of the channel, in some order of the wrapped keys. -/
def HasChannel (s : AppState) (m : ChannelManifest) : Prop :=
  ∃ m', s.channels.lookup m.id.text = some m' ∧ m.Reordered m'

/-! ## Genuine rotations -/

section

variable {P : Prims} {s r : AppState} {env : Env} {p : ChannelParams} {m received : ChannelManifest}
  {topic : String} {data : Bytes}

theorem commands_storeRotation (s : AppState) (p : ChannelParams) (ch : ChannelManifest)
    (key : Key) : (s.storeRotation p ch key).commands = s.commands := by
  unfold storeRotation
  split <;> rfl

theorem rotationSent {old : ChannelManifest} (hold : s.channels.lookup p.channelId = some old)
    (hseed : s.seedRefusal p.communityId = none) :
    RotationSent P s env p (s.rotatedChannel P env p old) (channelTopic p.channelId)
      (P.encodeEvent (.channelKeyRotation (s.sentRotation P (s.rotatedChannel P env p old)))) := by
  refine ⟨by rw [hold]; rfl, publishChannel P p.communityId (s.rotatedChannel P env p old), ?_⟩
  unfold channelRotateKey
  rw [hold, hseed]
  dsimp only [emit]
  rw [commands_storeRotation]
  rfl

/-- What a successful call publishes first. -/
theorem RotationSent.event (h : RotationSent P s env p m topic data) :
    topic = channelTopic p.channelId ∧
      data = P.encodeEvent (.channelKeyRotation (s.sentRotation P m)) := by
  obtain ⟨old, hold, rfl⟩ := Option.map_eq_some_iff.mp h.manifest
  obtain ⟨broadcast, hsent⟩ := h.published
  unfold channelRotateKey at hsent
  rw [hold] at hsent
  cases hseed : s.seedRefusal p.communityId with
  | some e =>
    rw [hseed] at hsent
    simp at hsent
  | none =>
    rw [hseed] at hsent
    dsimp only [emit] at hsent
    rw [commands_storeRotation] at hsent
    have hevents := List.append_cancel_left hsent
    obtain ⟨rfl, rfl⟩ := NetworkCommand.publish.inj (List.cons.inj hevents).1
    exact ⟨rfl, rfl⟩

theorem rotationVerified_iff :
    rotationVerified P (s.ownPk P) ⟨received, (s.sentRotation P m).signature⟩ = true ↔
      P.vkValid (s.ownPk P) = true ∧ P.verify (s.ownPk P) (P.encodeChannelManifest received)
        (P.sign s.signingKey (P.encodeChannelManifest m)) = true := by
  unfold rotationVerified Prims.verifyBytes sentRotation
  rw [tryIntoArray_toBytes (by decide), Bool.and_eq_true]

theorem RotationArrives.newer (h : RotationArrives P s m data r received) :
    isNewerChannel r.toTables received = true := by
  obtain ⟨current, hcurrent, hversion⟩ := h.older
  unfold isNewerChannel
  rw [h.reordered.fields]
  dsimp only
  rw [hcurrent]
  exact decide_eq_true hversion

theorem RotationArrives.step (h : RotationArrives P s m data r received) (env : Env)
    (source : Option String) :
    eventStep P r (env, .messageReceived (channelTopic p.channelId) data source) =
      r.handleChannelKeyRotation P false ⟨received, (s.sentRotation P m).signature⟩ := by
  show r.processEvent P env _ = _
  unfold processEvent handleChannelMessage
  dsimp only
  rw [h.running, isChannelTopic_channelTopic, h.decoded]
  rfl

/-- A genuine rotation is installed exactly when the receiving node iterates over the wrapped keys
in the order of the admin's node. -/
theorem genuine_rotation_installed_iff {timeText : DateTime → String} {env' : Env}
    {source : Option String} (hP : P.Lawful)
    (hpostcard : P.encodeChannelManifest = Postcard.encodeChannelManifest timeText)
    (hsent : RotationSent P s env p m topic data) (hunforged : UnforgedOrders P s m)
    (harrives : RotationArrives P s m data r received) :
    HasChannel (eventStep P r (env', .messageReceived topic data source)) m ↔
      received.encryptedChannelKey.entries = m.encryptedChannelKey.entries := by
  obtain ⟨rfl, -⟩ := hsent.event
  rw [harrives.step]
  constructor
  · rintro ⟨m', hm', hreordered⟩
    have htaken : ChannelKept r (r.handleChannelKeyRotation P false
        ⟨received, (s.sentRotation P m).signature⟩) m.id.text ∨
        ∃ pk, RotationTaken P r pk ⟨received, (s.sentRotation P m).signature⟩ := by
      rcases handleChannelKeyRotation_write (P := P) false r _ with h | h
      · rw [h]
        exact .inl (.of_eq rfl rfl _)
      · rcases h.kept m.id.text with hkept | ⟨payload, pk, hev, -, htaken, -⟩
        · exact .inl hkept
        · cases hev
          exact .inr ⟨pk, htaken⟩
    rcases htaken with hkept | ⟨pk, htaken⟩
    · -- the manifest that the node had is an older one
      obtain ⟨current, hcurrent, hcore⟩ := hkept.channel m' hm'
      obtain ⟨current', hcurrent', hversion⟩ := harrives.older
      rw [hcurrent] at hcurrent'
      cases hcurrent'
      have hsame : m'.version = current.version := congrArg (fun core => core.2.2) hcore
      rw [hreordered.fields] at hsame
      exact absurd (hsame ▸ hversion) (UInt64.lt_irrefl _)
    · -- the node took it, so the signature verifies the order that it read
      have hpk : communityPk? r.toTables received.communityId.text = some pk := htaken.community
      rw [harrives.reordered.fields] at hpk
      cases harrives.community.symm.trans hpk
      have hverify := (rotationVerified_iff.mp htaken.verified).2
      have hencode := hunforged received harrives.reordered hverify
      rw [hpostcard] at hencode
      exact harrives.reordered.entries_eq_of_encode_eq hencode
  · intro hentries
    have heq : received = m := harrives.reordered.eq hentries
    subst heq
    have htaken : RotationTaken P r (s.ownPk P) ⟨received, (s.sentRotation P received).signature⟩ :=
      ⟨harrives.community,
        rotationVerified_iff.mpr ⟨hP.vkValid_verifyingKey _, hP.verify_sign _ _⟩, harrives.newer⟩
    refine ⟨received, ?_, .refl received⟩
    rw [(tables_handleChannelKeyRotation htaken).1, AList.lookup_insert]

end

namespace Sample

def adminNode (records : List MembershipRecord) : AppState :=
  withChannel (withMembers (withCommunity (app 30) 30) records) channel 70

/-- A member that has the channel in its first version. -/
def olderNode : AppState := withChannel (withCommunity (app 10) 30) channel 70

/-- The manifest with the key that the admin's node draws. -/
def newManifest (records : List MembershipRecord) : ChannelManifest :=
  (adminNode records).rotatedChannel (prims [] []) env rotateParams channel

def timeText (_ : DateTime) : String := "1970-01-01T00:00:00Z"

/-- The functions for a run in which a rotation is sent and read into another manifest. -/
def orderPrims (sent received : ChannelManifest) : Prims :=
  { prims [] [] with
    encodeChannelManifest := Postcard.encodeChannelManifest timeText
    encodeEvent := fun
      | .channelKeyRotation _ => [0]
      | _ => [1]
    decodeEvent := fun _ => some (.channelKeyRotation ⟨received,
      toBytes ((prims [] []).sign 30 (Postcard.encodeChannelManifest timeText sent))⟩) }

theorem orderPrims_lawful (sent received : ChannelManifest) : (orderPrims sent received).Lawful :=
  have h := prims_lawful [] []
  ⟨h.1, h.2, h.3, h.4, h.5, h.6⟩

theorem encryptForMember_orderPrims (sent received : ChannelManifest) :
    encryptForMember (orderPrims sent received) = encryptForMember (prims [] []) := by
  unfold encryptForMember
  dsimp only [orderPrims]

theorem newManifest_sent (records : List MembershipRecord) (received : ChannelManifest) :
    RotationSent (orderPrims (newManifest records) received) (adminNode records) env rotateParams
      (newManifest records) (channelTopic channel.id.text) [0] := by
  have hseed : (withCommunity (app 30) 30).seedRefusal community.text = none := by decide +kernel
  have hsent : RotationSent (orderPrims (newManifest records) received) (adminNode records) env
      rotateParams _ _ _ := rotationSent (AList.lookup_insert _) hseed
  have hmanifest : (adminNode records).rotatedChannel (orderPrims (newManifest records) received)
      env rotateParams channel = newManifest records := by
    unfold newManifest rotatedChannel wrapForAll
    rw [encryptForMember_orderPrims]
  rw [hmanifest] at hsent
  exact hsent

theorem newManifest_arrives {records : List MembershipRecord} {received : ChannelManifest}
    (h : (newManifest records).Reordered received) :
    RotationArrives (orderPrims (newManifest records) received) (adminNode records)
      (newManifest records) [0] olderNode received where
  reordered := h
  decoded := by
    unfold sentRotation
    dsimp only [orderPrims]
    rfl
  community := by
    have hknown : communityPk? olderNode.toTables community.text = some 31 := by decide +kernel
    exact hknown
  older := ⟨channel, AList.lookup_insert _, show (1 : UInt64) < 2 by decide⟩
  running := rfl

/-- In a community with two members, a node that reads the map in the other order refuses the
rotation. -/
theorem genuine_rotation_refused :
    let sent := newManifest [record 10 [.member], record 20 [.member]]
    let P := orderPrims sent sent.reversed
    let admin := adminNode [record 10 [.member], record 20 [.member]]
    RotationSent P admin env rotateParams sent (channelTopic channel.id.text) [0] ∧
    RotationArrives P admin sent [0] olderNode sent.reversed ∧
    ¬ HasChannel (eventStep P olderNode
      (env, .messageReceived (channelTopic channel.id.text) [0] none)) sent := by
  intro sent P admin
  refine ⟨newManifest_sent _ _, newManifest_arrives sent.reordered_reversed, ?_⟩
  rintro ⟨m, hm, hreordered⟩
  have hold : ((eventStep P olderNode
      (env, .messageReceived (channelTopic channel.id.text) [0] none)).channels.lookup
        channel.id.text).map (fun ch => ch.version) = some 1 := by decide +kernel
  have hlookup : (eventStep P olderNode
      (env, .messageReceived (channelTopic channel.id.text) [0] none)).channels.lookup
        channel.id.text = some m := hm
  rw [hlookup, hreordered.fields] at hold
  cases (show some (2 : UInt64) = some 1 from hold)

/-- With one member there is one order, and the rotation is installed. -/
theorem genuine_rotation_installed :
    HasChannel (eventStep (orderPrims (newManifest [record 20 [.member]])
      (newManifest [record 20 [.member]])) olderNode
      (env, .messageReceived (channelTopic channel.id.text) [0] none))
      (newManifest [record 20 [.member]]) := by
  have hone : (newManifest [record 20 [.member]]).encryptedChannelKey.entries.length ≤ 1 := by
    decide +kernel
  refine (genuine_rotation_installed_iff (orderPrims_lawful _ _) rfl (newManifest_sent _ _) ?_
    (newManifest_arrives (.refl _))).mpr rfl
  intro m' hm' _
  rw [hm'.eq_of_length_le_one hone]

end Sample

end BitCord
