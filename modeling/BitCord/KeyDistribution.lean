import BitCord.Membership
import BitCord.Sample

/-!
# Who gets a channel key

`channel_create` and `channel_rotate_key` wrap a channel key for every member of the community and
put the wraps into the manifest of the channel (`key_distribution_exact`). `FetchManifest` wraps it
for the client that asks, if the stored metadata list the client as a member
(`fetchManifest_response`).
-/

namespace BitCord

open Lib AppState

variable {c : String} {r : MembershipRecord} {s : AppState} {uid : UserId} {ch : ChannelManifest}
  {p : ChannelParams} {reply : RpcReply} {m : CommunityMeta} {pk : Key}

theorem mem_memberList {t : Tables} :
    r ∈ memberList t c ↔ ∃ v, recordIn t.members c v = some r := by
  unfold memberList recordIn
  cases t.members.lookup c with
  | none => simp
  | some list => exact Dict.mem_vals

section

variable {P : Prims}

/-! ## Wrapping for all members -/

variable {env : Env}

theorem mem_wrapForAll_iff {key : Key} :
    uid ∈ wrapForAll P env s c key ↔
      ∃ v r, recordIn s.members c v = some r ∧ r.userId = uid := by
  have hids : (((memberList s.toTables c).zipIdx.map fun e => (e.1.userId, encryptForMember P key
      e.1.x25519PublicKey (env.key e.2) (env.nonce e.2))).map Prod.fst) =
      (memberList s.toTables c).map fun r => r.userId := by
    conv_rhs => rw [← List.zipIdx_map_fst 0 (memberList s.toTables c)]
    rw [List.map_map, List.map_map]
    rfl
  have hkeys : uid ∈ wrapForAll P env s c key ↔ ∃ r ∈ memberList s.toTables c, r.userId = uid := by
    unfold wrapForAll
    rw [Dict.mem_insertAll, hids, List.mem_map]
    simp
  rw [hkeys]
  constructor
  · rintro ⟨r, hr, hu⟩
    obtain ⟨v, hv⟩ := mem_memberList.mp hr
    exact ⟨v, r, hv, hu⟩
  · rintro ⟨v, r, hv, hu⟩
    exact ⟨r, mem_memberList.mpr ⟨v, hv⟩, hu⟩

theorem of_lookup_wrapForAll {key : Key} {w : Bytes}
    (h : (wrapForAll P env s c key).lookup uid = some w) :
    ∃ r ∈ memberList s.toTables c, r.userId = uid ∧
      ∃ ephemSk nonce, w = encryptForMember P key r.x25519PublicKey ephemSk nonce := by
  rcases Dict.of_lookup_insertAll h with hmem | hempty
  · obtain ⟨⟨r, i⟩, hr, heq⟩ := List.mem_map.mp hmem
    obtain ⟨rfl, rfl⟩ := Prod.mk.inj heq
    exact ⟨r, List.fst_mem_of_mem_zipIdx hr, rfl, _, _, rfl⟩
  · cases hempty

/-- The manifest of a channel wraps the key that the node has for it: for the users who have a
record, and so that the owner of a record opens it. -/
structure Distributed (P : Prims) (s : AppState) (c channelId : String) (s' : AppState)
    (ch : ChannelManifest) : Prop where
  manifest : s'.channels.lookup channelId = some ch
  wrapped : ∀ u, u ∈ ch.encryptedChannelKey ↔
    ∃ v r, recordIn s.members c v = some r ∧ r.userId = u
  opened : ∀ u r, (memberList s.toTables c).filter (fun r => decide (r.userId = u)) = [r] →
    ∀ x, P.x25519Public x = r.x25519PublicKey →
      ∃ w key, ch.encryptedChannelKey.lookup u = some w ∧
        s'.channelKeys.lookup channelId = some key ∧ decryptForSelf P x w = some key

/-- The wrap for a user with one record opens under the secret of that record. -/
theorem opens_wrapForAll (hP : P.Lawful) (htag : P.TagLength) {key : Key} {u : UserId}
    (hsingle : (memberList s.toTables c).filter (fun r => decide (r.userId = u)) = [r]) {x : Key}
    (hx : P.x25519Public x = r.x25519PublicKey) :
    ∃ w, (wrapForAll P env s c key).lookup u = some w ∧ decryptForSelf P x w = some key := by
  have hone : ∀ r', r' ∈ memberList s.toTables c ∧ r'.userId = u ↔ r' = r := by
    intro r'
    have hfilter : r' ∈ (memberList s.toTables c).filter (fun r => decide (r.userId = u)) ↔
        r' ∈ [r] := by rw [hsingle]
    rwa [List.mem_filter, decide_eq_true_iff, List.mem_singleton] at hfilter
  obtain ⟨hr, hu⟩ := (hone r).mpr rfl
  obtain ⟨v, hv⟩ := mem_memberList.mp hr
  have hmem : u ∈ wrapForAll P env s c key := mem_wrapForAll_iff.mpr ⟨v, r, hv, hu⟩
  obtain ⟨w, hw⟩ := Option.isSome_iff_exists.mp (AList.lookup_isSome.mpr hmem)
  obtain ⟨r', hr', hu', ephemSk, nonce, heq⟩ := of_lookup_wrapForAll hw
  -- the record that the wrap was made for is the only one of the user
  rw [(hone r').mp ⟨hr', hu'⟩] at heq
  refine ⟨w, hw, ?_⟩
  rw [heq]
  exact decryptForSelf_encryptForMember hP htag hx key ephemSk nonce

theorem Distributed.of_wrapForAll (hP : P.Lawful) (htag : P.TagLength) {env : Env} {s' : AppState}
    {channelId : String} {key : Key} (hch : s'.channels.lookup channelId = some ch)
    (hwraps : ch.encryptedChannelKey = wrapForAll P env s c key)
    (hkey : s'.channelKeys.lookup channelId = some key) : Distributed P s c channelId s' ch where
  manifest := hch
  wrapped := by
    intro u
    rw [hwraps]
    exact mem_wrapForAll_iff
  opened := by
    intro u r hsingle x hx
    obtain ⟨w, hw, hopen⟩ := opens_wrapForAll hP htag hsingle hx
    rw [← hwraps] at hw
    exact ⟨w, key, hw, hkey, hopen⟩

/-! ## Creating a channel and rotating its key -/

theorem channelCreate_ok {p : CreateChannelParams} (hok : (s.channelCreate P env p).2 = .ok reply) :
    ∃ old ulid,
      s.communities.lookup p.communityId = some old ∧ parseUlid p.communityId = some ulid ∧
      s.channelCreate P env p =
        (s.storeChannelCreated P p.communityId old (s.newChannel P env p ⟨ulid⟩) (env.key 0),
          .ok (.channel (s.newChannel P env p ⟨ulid⟩).info)) := by
  unfold channelCreate at hok ⊢
  split at hok
  · cases hok
  · next hname =>
    rw [if_neg hname]
    split at hok
    · cases hok
    · cases hok
    · next old ulid hold hulid => exact ⟨old, ulid, hold, hulid, rfl⟩

/-- The state in which `channel_rotate_key` leaves the node, up to what it sends. -/
def rotated (P : Prims) (env : Env) (s : AppState) (p : ChannelParams) (ch : ChannelManifest) :
    AppState :=
  ((s.putKey p.channelId (env.key 0)).putChannelEntry p.channelId
    (s.rotatedChannel P env p ch)).storeRotation p (s.rotatedChannel P env p ch) (env.key 0)

theorem channelRotateKey_ok (hok : (s.channelRotateKey P env p).2 = .ok reply) :
    ∃ ch signed commands,
      s.channels.lookup p.channelId = some ch ∧ s.communities.lookup p.communityId = some signed ∧
      (s.channelRotateKey P env p).1 = (rotated P env s p ch).emit commands [] := by
  unfold channelRotateKey at hok ⊢
  split at hok
  · cases hok
  · cases hok
  · next ch hseed hch =>
    have hknown : ∃ signed, s.communities.lookup p.communityId = some signed := by
      unfold seedRefusal at hseed
      split at hseed
      · cases hseed
      · next signed hsigned => exact ⟨signed, hsigned⟩
    obtain ⟨signed, hsigned⟩ := hknown
    exact ⟨ch, signed, _, hch, hsigned, rfl⟩

@[simp] theorem channels_storeRotation (s : AppState) (p : ChannelParams) (ch : ChannelManifest)
    (key : Key) : (s.storeRotation p ch key).channels = s.channels := by
  unfold storeRotation
  split <;> rfl

@[simp] theorem channelKeys_storeRotation (s : AppState) (p : ChannelParams)
    (ch : ChannelManifest) (key : Key) :
    (s.storeRotation p ch key).channelKeys = s.channelKeys := by
  unfold storeRotation
  split <;> rfl

@[simp] theorem previousChannelKeys_storeRotation (s : AppState) (p : ChannelParams)
    (ch : ChannelManifest) (key : Key) :
    (s.storeRotation p ch key).previousChannelKeys = s.previousChannelKeys := by
  unfold storeRotation
  split <;> rfl

theorem lookup_channelKeys_rotated (s : AppState) (p : ChannelParams) (ch : ChannelManifest) :
    (rotated P env s p ch).channelKeys.lookup p.channelId = some (env.key 0) := by
  unfold rotated
  rw [channelKeys_storeRotation]
  show ((KeyRing.of s.toTables).install p.channelId (env.key 0)).keys.lookup p.channelId = _
  rw [KeyRing.lookup_install, if_pos rfl]

/-- The metadata of the community list the channel once, in the place of `old`. -/
structure ListedOnce (m : CommunityMeta) (channelId : String) (before : List ChannelManifest)
    (old : ChannelManifest) (after : List ChannelManifest) : Prop where
  channels : m.channels = before ++ old :: after
  listed : old.id.text = channelId
  once : ∀ ch ∈ before ++ after, ch.id.text ≠ channelId

/-- What a rotation does besides distributing the new key. -/
structure Rotated (s : AppState) (c channelId : String) (old : ChannelManifest) (s' : AppState)
    (ch : ChannelManifest) : Prop where
  version : ch.version = old.version + 1
  previous : ∀ key, s.channelKeys.lookup channelId = some key →
    s'.previousChannelKeys.lookup channelId = some key
  stored : ∀ signed st m before entry after, s.communities.lookup c = some signed →
    s.nodeStore = some st → st.getCommunityMeta signed.manifest.publicKey = .ok (some m) →
    ListedOnce m channelId before entry after →
      ∃ st' m' key, s'.nodeStore = some st' ∧
        st'.getCommunityMeta signed.manifest.publicKey = .ok (some m') ∧
        m'.channels = before ++ ch :: after ∧ s'.channelKeys.lookup channelId = some key ∧
        m'.channelKeys.lookup channelId = some (toBytes key)

/-- The metadata of the community after the rotation. -/
def rotatedMeta (m : CommunityMeta) (channelId : String) (ch : ChannelManifest) (key : Key) :
    CommunityMeta :=
  { m with
    channelKeys := m.channelKeys.insert channelId (toBytes key)
    channels := updateFirst (fun c => decide (c.id.text = channelId)) (fun _ => ch) m.channels }

theorem nodeStore_rotated {signed : SignedManifest} {st : NodeStore}
    (hsigned : s.communities.lookup p.communityId = some signed) (hst : s.nodeStore = some st)
    (hm : st.getCommunityMeta signed.manifest.publicKey = .ok (some m)) :
    (rotated P env s p ch).nodeStore = some (st.setCommunityMeta signed.manifest.publicKey
      (rotatedMeta m p.channelId (s.rotatedChannel P env p ch) (env.key 0))) := by
  have hpk : communityPk? ((s.putKey p.channelId (env.key 0)).putChannelEntry p.channelId
      (s.rotatedChannel P env p ch)).toTables p.communityId = some signed.manifest.publicKey := by
    unfold communityPk?
    show (s.communities.lookup p.communityId).map _ = _
    rw [hsigned]
    rfl
  have hmeta : st.meta? signed.manifest.publicKey = some m := by
    unfold NodeStore.meta?
    rw [hm]
  unfold rotated storeRotation
  rw [hpk]
  show s.nodeStore.map _ = _
  rw [hst, Option.map_some]
  dsimp only
  rw [hmeta]
  rfl

theorem Rotated.of_rotated {env : Env} {old : ChannelManifest}
    (hfresh : s.channelKeys.lookup p.channelId ≠ some (env.key 0))
    (commands : List NetworkCommand) :
    Rotated s p.communityId p.channelId old ((rotated P env s p old).emit commands [])
      (s.rotatedChannel P env p old) where
  version := rfl
  previous := by
    intro key hkey
    have hne : key ≠ env.key 0 := by
      rintro rfl
      exact hfresh hkey
    have hring : ((KeyRing.of s.toTables).install p.channelId (env.key 0)).previous.lookup
        p.channelId = some key := KeyRing.previous_install hkey hne
    unfold emit rotated
    rw [previousChannelKeys_storeRotation]
    exact hring
  stored := by
    intro signed st m before entry after hsigned hst hm hlisted
    refine ⟨_, rotatedMeta m p.channelId (s.rotatedChannel P env p old) (env.key 0), env.key 0,
      nodeStore_rotated hsigned hst hm, ?_, ?_, ?_, AList.lookup_insert _⟩
    · rw [NodeStore.getCommunityMeta_setCommunityMeta, if_pos rfl]
    · have hbefore : ∀ ch ∈ before, decide (ch.id.text = p.channelId) = false := by
        intro ch hch
        exact decide_eq_false (hlisted.once ch (List.mem_append_left _ hch))
      unfold rotatedMeta
      rw [hlisted.channels]
      exact updateFirst_append hbefore (decide_eq_true hlisted.listed)
    · exact lookup_channelKeys_rotated s p old

/-- The manifest that `channel_create` and `channel_rotate_key` leave wraps the key of the channel
exactly for the members of the community; a rotation also bumps the version, keeps the old key and
updates the store. -/
theorem key_distribution_exact (hP : P.Lawful) (htag : P.TagLength) (env : Env) (s : AppState) :
    (∀ p reply, (s.channelCreate P env p).2 = .ok reply →
      ∃ ch, reply = .channel ch.info ∧
        Distributed P s p.communityId ch.id.text (s.channelCreate P env p).1 ch) ∧
    (∀ p reply old, (s.channelRotateKey P env p).2 = .ok reply →
      s.channels.lookup p.channelId = some old →
      s.channelKeys.lookup p.channelId ≠ some (env.key 0) →
      ∃ ch, Distributed P s p.communityId p.channelId (s.channelRotateKey P env p).1 ch ∧
        Rotated s p.communityId p.channelId old (s.channelRotateKey P env p).1 ch) := by
  constructor
  · intro p reply hok
    obtain ⟨old, ulid, _, _, heq⟩ := channelCreate_ok hok
    rw [heq] at hok ⊢
    refine ⟨s.newChannel P env p ⟨ulid⟩, (Except.ok.inj hok).symm, ?_⟩
    refine Distributed.of_wrapForAll hP htag ?_ rfl ?_
    · show (s.channels.insert _ _).lookup _ = _
      exact AList.lookup_insert _
    · show (s.channelKeys.insert _ _).lookup _ = _
      exact AList.lookup_insert _
  · intro p reply old hok hold hfresh
    obtain ⟨ch, signed, commands, hch, hsigned, heq⟩ := channelRotateKey_ok hok
    obtain rfl : ch = old := Option.some.inj (hch.symm.trans hold)
    rw [heq]
    refine ⟨s.rotatedChannel P env p ch, ?_, Rotated.of_rotated hfresh commands⟩
    refine Distributed.of_wrapForAll hP htag ?_ rfl (lookup_channelKeys_rotated s p ch)
    unfold emit rotated
    rw [channels_storeRotation]
    exact AList.lookup_insert _

/-! ## Fetching a manifest -/

theorem forall₂_map_zipIdx {α β : Type} {R : α → β → Prop} {f : α × Nat → β}
    (h : ∀ a i, R a (f (a, i))) (l : List α) (n : Nat) : List.Forall₂ R l ((l.zipIdx n).map f) := by
  induction l generalizing n with
  | nil => exact .nil
  | cons a l ih => exact .cons (h a n) (ih (n + 1))

/-- The stored channels that the stored manifest lists, in stored order. -/
def liveChannels (m : CommunityMeta) (signed : SignedManifest) : List ChannelManifest :=
  m.channels.filter fun ch => signed.manifest.channelIds.contains ch.id

/-- What the member with the record `r` is served for a stored channel. -/
structure ServedTo (P : Prims) (m : CommunityMeta) (r : MembershipRecord)
    (stored served : ChannelManifest) : Prop where
  wrapped : ∀ bytes, m.channelKeys.lookup stored.id.text = some bytes → bytes.length = 32 →
    ∃ w, served = { stored with
        encryptedChannelKey := stored.encryptedChannelKey.insert r.userId w } ∧
      ∀ x, P.x25519Public x = r.x25519PublicKey →
        ∃ key, decryptForSelf P x w = some key ∧ toBytes key = bytes
  unchanged : (∀ bytes, m.channelKeys.lookup stored.id.text = some bytes → bytes.length ≠ 32) →
    served = stored

theorem servedTo_wrapForClient (hP : P.Lawful) (htag : P.TagLength) (env : Env) (m : CommunityMeta)
    (r : MembershipRecord) (ch : ChannelManifest) (draw : Nat) :
    ServedTo P m r ch
      (wrapForClient P env m.channelKeys (some (r.userId, r.x25519PublicKey)) ch draw) where
  wrapped := by
    intro bytes hbytes hlen
    obtain ⟨key, hkey⟩ := exists_tryIntoArray (w := 256) (b := bytes) (by omega)
    unfold wrapForClient
    rw [hbytes, Option.bind_some, hkey]
    refine ⟨_, rfl, fun x hx => ⟨key, ?_, toBytes_of_tryIntoArray hkey⟩⟩
    exact decryptForSelf_encryptForMember hP htag hx key _ _
  unchanged := by
    intro hnone
    have hkey : (m.channelKeys.lookup ch.id.text).bind (tryIntoArray 256) = none := by
      cases hbytes : m.channelKeys.lookup ch.id.text with
      | none => rfl
      | some bytes =>
        have hlen := hnone bytes hbytes
        exact if_neg (by omega)
    unfold wrapForClient
    rw [hkey]

theorem clientCrypto_of_not_member
    (h : ∀ r ∈ m.members.vals, r.publicKey ≠ pk) : clientCrypto m (some pk) = none := by
  unfold clientCrypto
  rw [Option.bind_some, Option.map_eq_none_iff, List.find?_eq_none]
  intro r hr
  simpa using h r hr

/-- A member's keys are those of the first record with its public key. -/
theorem clientCrypto_of_member (h : ∃ r ∈ m.members.vals, r.publicKey = pk) :
    ∃ r ∈ m.members.vals, r.publicKey = pk ∧
      clientCrypto m (some pk) = some (r.userId, r.x25519PublicKey) := by
  obtain ⟨r₀, hr₀, hpk₀⟩ := h
  have hfound : (m.members.vals.find? fun r => decide (r.publicKey = pk)).isSome := by
    rw [List.find?_isSome]
    exact ⟨r₀, hr₀, decide_eq_true hpk₀⟩
  obtain ⟨r, hr⟩ := Option.isSome_iff_exists.mp hfound
  have hown := List.find?_some hr
  refine ⟨r, List.mem_of_find?_eq_some hr, of_decide_eq_true hown, ?_⟩
  unfold clientCrypto
  rw [Option.bind_some, hr, Option.map_some]

/-- The response to `FetchManifest` has no plaintext keys. Its channels are the live ones in stored
order; a client without a record gets them as they are stored, and a member gets in each one the
stored key, wrapped for it. -/
theorem fetchManifest_response (hP : P.Lawful) (htag : P.TagLength) {env : Env}
    {remote : NodeAddr} {c : Conn} {communityPk pk : Key} {m : CommunityMeta}
    {signed : SignedManifest} (hpk : c.session.clientPk = some pk)
    (hstored : c.services.store.getCommunityMeta communityPk = .ok (some m))
    (hmanifest : m.manifest = some signed) :
    ∃ channels, dispatch P env remote c (.fetchManifest communityPk) =
        (c, .manifest signed channels ∅ m.members.vals) ∧
      ((∀ r ∈ m.members.vals, r.publicKey ≠ pk) → channels = liveChannels m signed) ∧
      ((∃ r ∈ m.members.vals, r.publicKey = pk) →
        ∃ r ∈ m.members.vals, r.publicKey = pk ∧
          List.Forall₂ (ServedTo P m r) (liveChannels m signed) channels) := by
  have hresponse : dispatch P env remote c (.fetchManifest communityPk) =
      (c, .manifest signed ((liveChannels m signed).zipIdx.map fun e =>
        wrapForClient P env m.channelKeys (clientCrypto m (some pk)) e.1 e.2) ∅
          m.members.vals) := by
    have hauth : c.session.isAuthenticated = true := by
      unfold ClientSession.isAuthenticated
      rw [hpk]
      rfl
    unfold dispatch handleFetchManifest
    dsimp only
    rw [hauth, hstored, hpk]
    dsimp only
    rw [hmanifest]
    rfl
  refine ⟨_, hresponse, ?_, ?_⟩
  · intro hnone
    rw [clientCrypto_of_not_member hnone]
    exact List.zipIdx_map_fst 0 (liveChannels m signed)
  · intro hmember
    obtain ⟨r, hr, hown, hcrypto⟩ := clientCrypto_of_member hmember
    refine ⟨r, hr, hown, ?_⟩
    rw [hcrypto]
    exact forall₂_map_zipIdx (fun ch i => servedTo_wrapForClient hP htag env m r ch i) _ 0

end

/-! ## A rotation and a fetch -/

namespace Sample

theorem prims_tagLength (events : List NetworkEvent) (contents : List MessageContent) :
    (prims events contents).TagLength := by
  intro k n m
  show (m ++ toBytes _).length = _
  rw [List.length_append, length_toBytes]

def hosted : SignedManifest :=
  ⟨{ (manifest 30 1).manifest with channelIds := [channel.id] }, []⟩

def storedMeta : CommunityMeta :=
  ⟨⟨31, 31, 0, 0⟩, some hosted, [channel],
    (∅ : Dict String Bytes).insert channel.id.text (toBytes (70 : Key)),
    keyByUser [record 20 [.member]]⟩

def metaStore : NodeStore := (NodeStore.create none).setCommunityMeta 31 storedMeta

theorem getCommunityMeta_metaStore : metaStore.getCommunityMeta 31 = .ok (some storedMeta) := by
  rw [metaStore, NodeStore.getCommunityMeta_setCommunityMeta, if_pos rfl]

def keyed : AppState :=
  { withChannel (withMembers (withCommunity (app 30) 30) [record 20 [.member]]) channel 70 with
    nodeStore := some metaStore }

def rotateParams : ChannelParams := ⟨community.text, channel.id.text⟩

/-- A session that is authenticated with a key. -/
def fetching (pk : Key) : Conn := ⟨⟨some pk, []⟩, { services 31 with store := metaStore }⟩

end Sample

open Sample in
/-- The new key is stored, and the member opens it. -/
theorem key_distribution_exact_keyed :
    ∃ ch, Distributed (prims [] []) keyed community.text channel.id.text
        (keyed.channelRotateKey (prims [] []) env rotateParams).1 ch ∧
      Rotated keyed community.text channel.id.text channel
        (keyed.channelRotateKey (prims [] []) env rotateParams).1 ch := by
  have hok : (keyed.channelRotateKey (prims [] []) env rotateParams).2 = .ok .done := by
    have hlookup : (keyed.channels.lookup channel.id.text) = some channel := AList.lookup_insert _
    have hseed : keyed.seedRefusal community.text = none := by decide +kernel
    unfold channelRotateKey rotateParams
    rw [hlookup, hseed]
  refine (key_distribution_exact (prims_lawful [] []) (prims_tagLength [] []) env keyed).2
    rotateParams .done channel hok (AList.lookup_insert _) ?_
  decide +kernel

open Sample in
theorem fetchManifest_response_member :
    (∃ r ∈ storedMeta.members.vals, r.publicKey = 21) ∧
    ∃ channels, dispatch (prims [] []) env addr (fetching 21) (.fetchManifest 31) =
        (fetching 21, .manifest hosted channels ∅ storedMeta.members.vals) ∧
      ∃ r ∈ storedMeta.members.vals, r.publicKey = 21 ∧
        List.Forall₂ (ServedTo (prims [] []) storedMeta r) (liveChannels storedMeta hosted)
          channels := by
  have hmember : ∃ r ∈ storedMeta.members.vals, r.publicKey = 21 := by decide +kernel
  obtain ⟨channels, hresponse, -, hserved⟩ := fetchManifest_response (prims_lawful [] [])
    (prims_tagLength [] []) (show (fetching 21).session.clientPk = some 21 from rfl)
    getCommunityMeta_metaStore rfl
  exact ⟨hmember, channels, hresponse, hserved hmember⟩

end BitCord
