import BitCord.Authority
import BitCord.KeyDistribution

/-!
# What a hosting node keeps of a community

A node that hosts communities keeps the manifest of each with its metadata. `PushManifest` stores
the manifest that the client sends. It asks only that the client joined the community in this
session, and neither verifies the manifest nor compares its key (`forged_manifest_stored`,
`hosted_manifests_authentic_iff`).

A member that hosts the community keeps its channel keys as well, and wraps them for the clients
that fetch the manifest. The handlers of the broadcast and of the rotation store the manifest only,
so the stored key is the one of the manifest exactly as long as no rotation arrives
(`stored_keys_match_iff`).
-/

namespace BitCord

open Lib Lib.Run AppState

variable {st : NodeStore} {pk cpk : Key} {m : CommunityMeta} {remote : NodeAddr}
  {req : ClientRequest} {n : Node} {i : Env × SwarmEvent}

section

variable (P : Prims)

/-- The manifest verifies, and it is one of the community with this key. -/
def SignedManifest.AuthenticFor (signed : SignedManifest) (cpk : Key) : Prop :=
  signed.verify P = true ∧ signed.manifest.publicKey = cpk

def CommunityMeta.Authentic (m : CommunityMeta) (cpk : Key) : Prop :=
  ∀ signed, m.manifest = some signed → signed.AuthenticFor P cpk

/-- All metadata that `get_community_meta` returns are authentic. -/
def NodeStore.Authentic (st : NodeStore) : Prop :=
  ∀ cpk m, st.getCommunityMeta cpk = .ok (some m) → m.Authentic P cpk

def Node.AuthenticStore (n : Node) : Prop :=
  ∀ st, n.app.nodeStore = some st → st.Authentic P

end

def ClientSession.mayPush (session : ClientSession) (cpk : Key) : Bool :=
  session.isAuthenticated && session.joinedCommunities.contains cpk

/-- A new connection, or a request on a connection. -/
def NodeInput.isServed : NodeInput → Bool
  | .connect _ => true
  | .request .. => true
  | _ => false

/-- If the input is a `PushManifest` that is accepted, then its manifest is authentic. -/
def AuthenticPush (P : Prims) (n : Node) : NodeInput → Prop
  | .request i _ _ (.pushManifest cpk manifest _ _ _) =>
    n.app.nodeStore.isSome = true → (n.sessions i).mayPush cpk = true →
      manifest.AuthenticFor P cpk
  | _ => True

/-! ## The metadata after a request -/

@[simp] theorem getCommunityMeta_appendHistory (st : NodeStore) (cpk : Key) (ch : Ulid)
    (entries : List LogEntry) (pk : Key) :
    (appendHistory st cpk ch entries).getCommunityMeta pk = st.getCommunityMeta pk := by
  induction entries generalizing st with
  | nil => rfl
  | cons e entries ih => exact ih _

section

variable {P : Prims}

@[simp] theorem getCommunityMeta_persistGossip (st : NodeStore) (topic : String) (data : Bytes)
    (pk : Key) : (persistGossip P st topic data).getCommunityMeta pk = st.getCommunityMeta pk := by
  unfold persistGossip
  split
  · split
    · split <;> rfl
    · rfl
  · rfl

theorem NodeStore.getCommunityMeta_of_meta?
    (h : st.meta? pk = some m) : st.getCommunityMeta pk = .ok (some m) := by
  unfold meta? at h
  split at h
  case h_1 m' hm => rw [hm, h]
  case h_2 => cases h

theorem NodeStore.authentic_create (key : Option Key) : (NodeStore.create key).Authentic P := by
  intro cpk m h
  cases h

/-- Storing metadata keeps the store authentic exactly when they are authentic. -/
theorem NodeStore.authentic_setCommunityMeta
    (hst : st.Authentic P) : (st.setCommunityMeta cpk m).Authentic P ↔ m.Authentic P cpk := by
  constructor
  · intro h
    refine h cpk m ?_
    rw [getCommunityMeta_setCommunityMeta, if_pos rfl]
  · intro hm cpk' m' h
    rw [getCommunityMeta_setCommunityMeta] at h
    split at h
    case isTrue heq =>
      cases h
      rwa [heq]
    case isFalse => exact hst cpk' m' h

theorem NodeStore.Authentic.of_same_metas {st' : NodeStore} (hst : st.Authentic P)
    (h : ∀ pk, st'.getCommunityMeta pk = st.getCommunityMeta pk) : st'.Authentic P :=
  fun cpk m hm => hst cpk m ((h cpk).symm.trans hm)

theorem NodeStore.Authentic.storeJoined (hst : st.Authentic P)
    (cert : HostingCert) : (storeJoined st cert).Authentic P := by
  unfold BitCord.storeJoined
  cases st.meta? cert.communityPk with
  | some m => exact hst
  | none =>
    rw [authentic_setCommunityMeta hst]
    intro signed h
    cases h

theorem authentic_pushManifestStore {nodePk : Key} {manifest : SignedManifest}
    {channels : List ChannelManifest} {channelKeys : Dict String Bytes}
    {members : List MembershipRecord} (hst : st.Authentic P) :
    (pushManifestStore st nodePk cpk manifest channels channelKeys members).Authentic P ↔
      manifest.AuthenticFor P cpk := by
  unfold pushManifestStore
  rw [NodeStore.authentic_setCommunityMeta hst]
  constructor
  · intro h
    exact h manifest rfl
  · intro h signed hsigned
    cases hsigned
    exact h

theorem NodeStore.Authentic.dispatch {env : Env} {c : Conn}
    (hc : c.services.store.Authentic P)
    (hreq : ∀ cpk manifest channels channelKeys members,
      req ≠ .pushManifest cpk manifest channels channelKeys members) :
    (dispatch P env remote c req).1.services.store.Authentic P := by
  have hwrite := storeWrite_dispatch (P := P) env remote c req
  generalize (BitCord.dispatch P env remote c req).1.services.store = st at hwrite ⊢
  cases hwrite with
  | unchanged => exact hc
  | join => exact hc.storeJoined _
  | message => exact hc
  | dm => exact hc
  | gossip => exact hc.of_same_metas fun pk => getCommunityMeta_persistGossip _ _ _ pk
  | history => exact hc.of_same_metas fun pk => getCommunityMeta_appendHistory _ _ _ _ pk
  | manifest => exact absurd rfl (hreq _ _ _ _ _)

theorem store_dispatch_pushManifest (env : Env) (remote : NodeAddr) (c : Conn) (cpk : Key)
    (manifest : SignedManifest) (channels : List ChannelManifest) (channelKeys : Dict String Bytes)
    (members : List MembershipRecord) :
    (dispatch P env remote c
        (.pushManifest cpk manifest channels channelKeys members)).1.services.store
      = if c.session.mayPush cpk then
          pushManifestStore c.services.store c.services.nodePk cpk manifest channels channelKeys
            members
        else c.services.store := by
  unfold dispatch ClientSession.mayPush
  dsimp only
  split <;> rfl

/-! ## Runs -/

theorem Node.nodeStore_handleRequest {i : Nat} {env : Env} (hst : n.app.nodeStore = some st) :
    (n.handleRequest P i env remote req).app.nodeStore =
      some (dispatch P env remote (n.conn P st i) req).1.services.store := by
  unfold handleRequest
  rw [hst]

theorem authenticPush_of_ne {conn : Nat} {env : Env}
    (hreq : ∀ cpk manifest channels channelKeys members,
      req ≠ .pushManifest cpk manifest channels channelKeys members) :
    AuthenticPush P n (.request conn env remote req) := by
  cases req
  case pushManifest => exact absurd rfl (hreq _ _ _ _ _)
  all_goals trivial

/-- A request keeps the store authentic exactly when it is no accepted push of a manifest that is
not authentic. -/
theorem authenticStore_request_iff {conn : Nat} {env : Env} (hstore : n.app.nodeStore = some st)
    (hst : st.Authentic P) :
    (dispatch P env remote (n.conn P st conn) req).1.services.store.Authentic P ↔
      AuthenticPush P n (.request conn env remote req) := by
  by_cases hreq : ∃ cpk manifest channels channelKeys members,
      req = .pushManifest cpk manifest channels channelKeys members
  · obtain ⟨cpk, manifest, channels, channelKeys, members, rfl⟩ := hreq
    rw [store_dispatch_pushManifest]
    show _ ↔ (n.app.nodeStore.isSome = true → (n.sessions conn).mayPush cpk = true → _)
    rw [hstore]
    show (ite ((n.sessions conn).mayPush cpk = true) _ st).Authentic P ↔ _
    split
    case isTrue hmay =>
      show (pushManifestStore st _ cpk manifest channels channelKeys members).Authentic P ↔ _
      rw [authentic_pushManifestStore hst]
      exact ⟨fun h _ _ => h, fun h => h rfl hmay⟩
    case isFalse hmay => exact iff_of_true hst fun _ h => absurd h hmay
  · have hne : ∀ cpk manifest channels channelKeys members,
        req ≠ .pushManifest cpk manifest channels channelKeys members :=
      fun cpk manifest channels channelKeys members h =>
        hreq ⟨cpk, manifest, channels, channelKeys, members, h⟩
    exact iff_of_true (NodeStore.Authentic.dispatch hst hne) (authenticPush_of_ne hne)

/-- A served input keeps the store authentic exactly when it is no accepted push of a manifest
that is not authentic. -/
theorem authenticStore_step_iff {i : NodeInput} (hi : i.isServed = true)
    (hn : n.AuthenticStore P) : (n.step P i).AuthenticStore P ↔ AuthenticPush P n i := by
  cases i with
  | event env e => cases hi
  | rpc env call => cases hi
  | restart dht => cases hi
  | connect conn => exact iff_of_true hn trivial
  | request conn env remote req =>
    cases hstore : n.app.nodeStore with
    | none =>
      have hstep : n.step P (.request conn env remote req) = n := by
        show n.handleRequest P conn env remote req = n
        unfold Node.handleRequest
        rw [hstore]
      rw [hstep]
      refine iff_of_true hn ?_
      cases req
      case pushManifest => exact fun h => by rw [hstore] at h; cases h
      all_goals trivial
    | some st =>
      rw [← authenticStore_request_iff hstore (hn st hstore)]
      unfold Node.AuthenticStore
      rw [show (n.step P (.request conn env remote req)).app.nodeStore = _ from
        Node.nodeStore_handleRequest hstore]
      exact ⟨fun h => h _ rfl, fun h st' hst' => Option.some.inj hst' ▸ h⟩

/-- Over a run of connections and requests from an empty store, all metadata that the store returns
at any time are authentic exactly when every `PushManifest` that is accepted carries a manifest
that verifies and has the key of the community. -/
theorem hosted_manifests_authentic_iff {n : Node} {key : Option Key} {is : List NodeInput}
    (hempty : n.app.nodeStore = some (NodeStore.create key)) (his : ∀ i ∈ is, i.isServed = true) :
    (∀ pre, pre <+: is → (run (Node.step P) n pre).AuthenticStore P) ↔
      Along (Node.step P) (AuthenticPush P) n is := by
  have hn : n.AuthenticStore P := by
    intro st hst
    rw [hempty] at hst
    cases hst
    exact NodeStore.authentic_create key
  exact forall_prefix_iff_along (fun n i hi hn => authenticStore_step_iff hi hn) hn
    (along_of_forall fun _ i hi => his i hi)

end

namespace Sample

def pushRun (manifest : SignedManifest) : List NodeInput :=
  [.connect 0,
    .request 0 env addr (connectRequest (prims [] []) 20 77),
    .request 0 env addr (.joinCommunity (HostingCert.new (prims [] []) 5 2 maxSeq) none none),
    .request 0 env addr (.pushManifest 6 manifest [] ∅ [])]

def storedManifest (manifest : SignedManifest) : Option SignedManifest :=
  (run (Node.step (prims [] [])) (node (app 1)) (pushRun manifest)).app.nodeStore.bind fun st =>
    (st.meta? 6).bind fun m => m.manifest

def forgedManifest : SignedManifest := { manifest 5 9 with signature := [] }

/-- A manifest that nobody signed is stored for the community. -/
theorem forged_manifest_stored :
    ¬ ∀ pre, pre <+: pushRun forgedManifest →
      (run (Node.step (prims [] [])) (node (app 1)) pre).AuthenticStore (prims [] []) := by
  intro h
  have hstored : storedManifest forgedManifest = some forgedManifest := by decide +kernel
  obtain ⟨st, hst, hm⟩ := Option.bind_eq_some_iff.mp hstored
  obtain ⟨m, hm, hsigned⟩ := Option.bind_eq_some_iff.mp hm
  have hverify := (h _ (List.prefix_refl _) st hst 6 m (NodeStore.getCommunityMeta_of_meta? hm)
    forgedManifest hsigned).1
  exact absurd hverify (by decide +kernel)

/-- The admin's manifest is accepted, and the store stays authentic. -/
theorem genuine_manifest_stored :
    storedManifest (manifest 5 9) = some (manifest 5 9) ∧
      ∀ pre, pre <+: pushRun (manifest 5 9) →
        (run (Node.step (prims [] [])) (node (app 1)) pre).AuthenticStore (prims [] []) := by
  refine ⟨by decide +kernel, (hosted_manifests_authentic_iff rfl (by decide)).mpr ?_⟩
  refine ⟨trivial, trivial, trivial, fun _ _ => ?_, trivial⟩
  exact ⟨by decide +kernel, by decide +kernel⟩

end Sample

/-! ## The key that is served with a manifest -/

/-- For every manifest of a channel in the stored metadata, the stored key of the channel is the
key of the manifest's version. -/
def StoredKeysMatch (keyOf : UInt64 → Key) (pk : Key) (x : String) (s : AppState) : Prop :=
  ∀ st m, s.nodeStore = some st → st.meta? pk = some m → ∀ ch ∈ m.channels, ch.id.text = x →
    m.channelKeys.lookup x = some (toBytes (keyOf ch.version))

variable (s : AppState)

section

variable (P : Prims)

/-- The gossip that a rotation causes: the rotation itself and the broadcast of the manifest. -/
inductive RotationGossip : SwarmEvent → Prop
  | rotation {topic : String} {data : Bytes} {source : Option String}
      {payload : ChannelKeyRotationPayload} :
      P.decodeEvent data = some (.channelKeyRotation payload) →
      RotationGossip (.messageReceived topic data source)
  | broadcast {topic : String} {data : Bytes} {source : Option String} {ch : ChannelManifest} :
      P.decodeEvent data = some (.channelManifestBroadcast ch) →
      RotationGossip (.messageReceived topic data source)

/-- The manifest of a rotation or broadcast that the node stores, with the key of its community. -/
def storedChannel (s : AppState) : SwarmEvent → Option (Key × ChannelManifest)
  | .messageReceived topic data _ =>
    if s.blocked then none
    else
      match P.decodeEvent data with
      | some (.channelKeyRotation payload) =>
        if isChannelTopic topic then
          ((communityPk? s.toTables payload.newManifest.communityId.text).filter fun pk =>
            rotationVerified P pk payload && isNewerChannel s.toTables payload.newManifest).map
              fun pk => (pk, payload.newManifest)
        else none
      | some (.channelManifestBroadcast ch) =>
        if !isChannelTopic topic && isCommunityTopic topic then
          (communityPk? s.toTables ch.communityId.text).map fun pk => (pk, ch)
        else none
      | _ => none
  | _ => none

/-- A manifest of the channel that the node stores is one whose key is stored already. -/
def KeyStored (keyOf : UInt64 → Key) (pk : Key) (x : String) (s : AppState)
    (i : Env × SwarmEvent) : Prop :=
  ∀ ch, storedChannel P s i.2 = some (pk, ch) → ch.id.text = x →
    ∀ st m, s.nodeStore = some st → st.meta? pk = some m →
      m.channelKeys.lookup x = some (toBytes (keyOf ch.version))

variable {P}

theorem meta?_storeChannel (st : NodeStore) (pk pk' : Key) (ch : ChannelManifest) :
    (storeChannel st pk' ch).meta? pk =
      if pk = pk' then (st.meta? pk).map fun m => { m with channels := putChannel m.channels ch }
      else st.meta? pk := by
  unfold storeChannel
  cases hm : st.meta? pk' with
  | none =>
    dsimp only
    split
    · next heq => rw [heq, hm]; rfl
    · rfl
  | some m =>
    dsimp only
    rw [NodeStore.meta?_setCommunityMeta]
    split
    · next heq => rw [heq, hm]; rfl
    · rfl

def storeStored (stored : Option (Key × ChannelManifest)) (store : Option NodeStore) :
    Option NodeStore :=
  match stored with
  | some (pk, ch) => store.map fun st => storeChannel st pk ch
  | none => store

theorem nodeStore_handleChannelKeyRotation (payload : ChannelKeyRotationPayload) :
    (s.handleChannelKeyRotation P false payload).nodeStore =
      storeStored (((communityPk? s.toTables payload.newManifest.communityId.text).filter fun pk =>
        rotationVerified P pk payload && isNewerChannel s.toTables payload.newManifest).map
          fun pk => (pk, payload.newManifest)) s.nodeStore := by
  unfold handleChannelKeyRotation
  dsimp only
  cases communityPk? s.toTables payload.newManifest.communityId.text with
  | none => rfl
  | some pk =>
    rw [Option.filter_some]
    dsimp only
    cases rotationVerified P pk payload <;>
      cases isNewerChannel s.toTables payload.newManifest <;> rfl

theorem nodeStore_handleChannelManifestBroadcast (ch : ChannelManifest) :
    (s.handleChannelManifestBroadcast P ch).nodeStore =
      storeStored ((communityPk? s.toTables ch.communityId.text).map fun pk => (pk, ch))
        s.nodeStore := by
  unfold handleChannelManifestBroadcast
  dsimp only
  cases communityPk? s.toTables ch.communityId.text with
  | none => rfl
  | some pk => cases s.unwrapOwn P ch <;> rfl

/-- A rotation or broadcast stores its manifest, or nothing. -/
theorem nodeStore_rotationGossip (hin : RotationGossip P i.2) :
    (eventStep P s i).nodeStore = storeStored (storedChannel P s i.2) s.nodeStore := by
  obtain ⟨env, e⟩ := i
  unfold eventStep processEvent
  cases hin with
  | @rotation topic data source payload hd =>
    unfold storedChannel
    dsimp only
    rw [hd]
    cases s.blocked with
    | true => rfl
    | false =>
      cases isChannelTopic topic with
      | true =>
        simp only [Bool.false_eq_true, if_false, if_true, handleChannelMessage, hd]
        exact nodeStore_handleChannelKeyRotation s payload
      | false =>
        simp only [Bool.false_eq_true, if_false, handleCommunityMessage, hd, ite_self]
        rfl
  | @broadcast topic data source ch hd =>
    unfold storedChannel
    dsimp only
    rw [hd]
    cases s.blocked with
    | true => rfl
    | false =>
      cases isChannelTopic topic with
      | true =>
        simp only [Bool.false_eq_true, if_false, if_true, handleChannelMessage, hd]
        rfl
      | false =>
        cases isCommunityTopic topic with
        | true =>
          simp only [Bool.false_eq_true, if_false, if_true, handleCommunityMessage, hd]
          exact nodeStore_handleChannelManifestBroadcast s ch
        | false => rfl

theorem storedKeysMatch_step_iff {keyOf : UInt64 → Key} {x : String} {s : AppState}
    (hin : RotationGossip P i.2) (hs : StoredKeysMatch keyOf pk x s) :
    StoredKeysMatch keyOf pk x (eventStep P s i) ↔ KeyStored P keyOf pk x s i := by
  have hstore := nodeStore_rotationGossip s hin
  unfold KeyStored
  cases hstored : storedChannel P s i.2 with
  | none =>
    rw [hstored] at hstore
    refine iff_of_true ?_ fun ch h => by cases h
    unfold StoredKeysMatch
    rw [hstore]
    exact hs
  | some stored =>
    obtain ⟨pk', ch⟩ := stored
    rw [hstored] at hstore
    constructor
    · intro hmatch ch' hch' hx st m hst hm
      cases hch'
      refine hmatch (storeChannel st pk ch) { m with channels := putChannel m.channels ch } ?_ ?_
        ch (self_mem_putChannel m.channels ch) hx
      · rw [hstore, hst]
        rfl
      · rw [meta?_storeChannel, if_pos rfl, hm, Option.map_some]
    · intro hkey st' m' hst' hm' c hc hx
      rw [hstore] at hst'
      obtain ⟨st, hst, rfl⟩ := Option.map_eq_some_iff.mp hst'
      rw [meta?_storeChannel] at hm'
      split at hm'
      · next heq =>
        subst heq
        obtain ⟨m, hm, rfl⟩ := Option.map_eq_some_iff.mp hm'
        rcases mem_putChannel hc with rfl | hold
        · exact hkey c rfl hx st m hst hm
        · exact hs st m hst hm c hold hx
      · exact hs st m' hst hm' c hc hx

/-- Over a run of rotations and broadcasts of channels, the stored key is the key of the stored
manifest at all times exactly when every manifest that is stored is one whose key is stored
already. -/
theorem stored_keys_match_iff {keyOf : UInt64 → Key} {pk : Key} {x : String} {s : AppState}
    {is : List (Env × SwarmEvent)} (hin : ∀ i ∈ is, RotationGossip P i.2)
    (hs : StoredKeysMatch keyOf pk x s) :
    (∀ pre, pre <+: is → StoredKeysMatch keyOf pk x (run (eventStep P) s pre)) ↔
      Along (eventStep P) (KeyStored P keyOf pk x) s is :=
  forall_prefix_iff_along (fun _ _ hi hs => storedKeysMatch_step_iff hi hs) hs
    (along_of_forall fun _ i hi => hin i hi)

end

namespace Sample

def rotated : ChannelManifest := keyed.rotatedChannel (prims [] []) env rotateParams channel

def rotation : ChannelKeyRotationPayload :=
  ⟨rotated, toBytes ((prims [] []).sign 30 ((prims [] []).encodeChannelManifest rotated))⟩

/-- The functions for a run in which the two events of the rotation are sent. -/
def rotationPrims : Prims :=
  prims [.channelKeyRotation rotation, .channelManifestBroadcast rotated] []

/-- A member that hosts the community, with the first version of the channel and its key. -/
def relay : AppState :=
  { withChannel (withCommunity (app 10) 30) channel 70 with nodeStore := some metaStore }

/-- The key of each version of the channel: the rotation drew the second. -/
def rotationKey (v : UInt64) : Key := if v = 1 then 70 else env.key 0

def rotationRun : List (Env × SwarmEvent) :=
  [(env, .messageReceived (channelTopic channel.id.text) [0] none), gossipEvent 1]

theorem encode_rotation : rotationPrims.encodeEvent (.channelKeyRotation rotation) = [0] := by
  show [UInt8.ofNat (List.idxOf _ (_ :: _))] = [0]
  rw [List.idxOf_cons_self]
  rfl

theorem encode_rotated : rotationPrims.encodeEvent (.channelManifestBroadcast rotated) = [1] := by
  show [UInt8.ofNat (List.idxOf _ (_ :: _ :: _))] = [1]
  rw [List.idxOf_cons_ne _ (by simp), List.idxOf_cons_self]
  rfl

/-- The admin publishes the two events. -/
theorem rotation_published :
    (keyed.channelRotateKey rotationPrims env rotateParams).1.commands =
      [.publish (channelTopic channel.id.text) [0],
        .publish (communityTopic community.text) [1]] := by
  have hlookup : keyed.channels.lookup channel.id.text = some channel := AList.lookup_insert _
  have hseed : keyed.seedRefusal community.text = none := by decide +kernel
  rw [← encode_rotation, ← encode_rotated]
  unfold channelRotateKey rotateParams
  rw [hlookup, hseed]
  unfold storeRotation
  dsimp only
  split <;> rfl

def storedChannelKey (s : AppState) : Option (String × UInt64 × Option Bytes) :=
  s.nodeStore.bind fun st => (st.meta? 31).bind fun m => m.channels.head?.map fun ch =>
    (ch.id.text, ch.version, m.channelKeys.lookup channel.id.text)

/-- The two events of a rotation give the hosting member the second version of the channel, and
leave it the key of the first. -/
theorem hosted_key_not_rotated :
    (keyed.channelRotateKey rotationPrims env rotateParams).1.commands =
      [.publish (channelTopic channel.id.text) [0],
        .publish (communityTopic community.text) [1]] ∧
    ¬ ∀ pre, pre <+: rotationRun →
      StoredKeysMatch rotationKey 31 channel.id.text (run (eventStep rotationPrims) relay pre) := by
  refine ⟨rotation_published, fun h => ?_⟩
  have hstored : storedChannelKey (run (eventStep rotationPrims) relay rotationRun) =
      some (channel.id.text, 2, some (toBytes (70 : Key))) := by decide +kernel
  obtain ⟨st, hst, hm⟩ := Option.bind_eq_some_iff.mp hstored
  obtain ⟨m, hm, hch⟩ := Option.bind_eq_some_iff.mp hm
  obtain ⟨ch, hch, hpair⟩ := Option.map_eq_some_iff.mp hch
  obtain ⟨hid, hpair⟩ := Prod.mk.inj hpair
  obtain ⟨hversion, hkey⟩ := Prod.mk.inj hpair
  have hmatch := h rotationRun (List.prefix_refl _) st m hst hm ch (List.mem_of_mem_head? hch) hid
  rw [hkey, hversion] at hmatch
  exact absurd hmatch (by decide +kernel)

theorem meta_relay (hst : relay.nodeStore = some st)
    (hm : st.meta? 31 = some m) : m = storedMeta := by
  cases hst
  rw [metaStore, NodeStore.meta?_setCommunityMeta, if_pos rfl] at hm
  exact (Option.some.inj hm).symm

/-- A broadcast of the version that the hosting member has keeps its key the right one. -/
theorem hosted_key_of_same_version :
    storedMeta.channelKeys.lookup channel.id.text =
        some (toBytes (rotationKey channel.version)) ∧
      ∀ pre, pre <+: [gossipEvent 0] →
        StoredKeysMatch rotationKey 31 channel.id.text
          (run (eventStep (prims [.channelManifestBroadcast channel] [])) relay pre) := by
  have hkey : storedMeta.channelKeys.lookup channel.id.text =
      some (toBytes (rotationKey channel.version)) := by decide +kernel
  refine ⟨hkey, (stored_keys_match_iff ?_ ?_).mpr ⟨?_, trivial⟩⟩
  · intro i hi
    rw [List.mem_singleton.mp hi]
    exact .broadcast rfl
  · intro st m hst hm ch hch _
    rw [meta_relay hst hm] at hch ⊢
    rw [List.mem_singleton.mp hch]
    exact hkey
  · intro ch hch _ st m hst hm
    have hstored : (storedChannel (prims [.channelManifestBroadcast channel] []) relay
        (gossipEvent 0).2).map (fun e => e.2.version) = some channel.version := by decide +kernel
    rw [hch, Option.map_some] at hstored
    rw [meta_relay hst hm, Option.some.inj hstored]
    exact hkey

end Sample

end BitCord
