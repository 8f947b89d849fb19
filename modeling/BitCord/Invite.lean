import Mathlib.Data.String.Basic
import BitCord.Lib.Run
import BitCord.Sample

/-!
# Joining by an invite

`community_join` takes the zero key where the text of the key is not a key, and checks the signature
only if the key is not zero. So an invite without a key needs no signature at all
(`unsigned_invite_accepted`). The parser of both texts also takes a plus sign for the first digit of
a byte. Apart from these two, an accepted invite is signed by the key in it, and the community is
stored under that key (`communityJoin_authentic_iff`).

Invites of the creator of a community round-trip (`invite_round_trip`).
-/

namespace BitCord

open Lib Lib.Run

variable {invite : InvitePayload} {s t s' : AppState} {c : String} {fp pk : Key}
  {password : Option String} {reply : RpcReply} {p : JoinCommunityParams} {w : Nat}
  {m : CommunityManifest} {id : CommunityId}

section

variable (P : Prims)

def decodedInvite (text : String) : Option InvitePayload :=
  (P.base64UrlDecode text).bind P.decodeInvite

/-- The key that `community_join` reads from an invite. -/
def InvitePayload.key (invite : InvitePayload) : Key :=
  (parseHexArray 256 invite.publicKeyHex).getD 0

/-- The signature in the invite is hexadecimal and verifies under the key in it. -/
def InvitePayload.SignedBy (invite : InvitePayload) (key : Key) : Prop :=
  ∃ sig : Signature, IsHexOf invite.sigHex sig ∧ P.vkValid key = true ∧
    P.verify key (P.encodeInvite invite.toInviteSigningPayload) sig = true

def AppState.HoldsUnder (s : AppState) (invite : InvitePayload) (key : Key) : Prop :=
  ∃ ulid signed, parseUlid invite.communityId = some ulid ∧
    s.communities.lookup (CommunityId.mk ulid).text = some signed ∧
    signed.manifest.publicKey = key

/-- The invite carries the hexadecimal text of a key and a signature by that key over the rest,
and the node holds the community under that key. -/
def InviteAuthentic (invite : InvitePayload) (s : AppState) : Prop :=
  ∃ key : Key, IsHexOf invite.publicKeyHex key ∧ invite.SignedBy P key ∧ s.HoldsUnder invite key

/-- The invite names a key, and if that is the zero key then it is signed under it. -/
def InvitePayload.Keyed (invite : InvitePayload) : Prop :=
  ∃ key, parseHexArray 256 invite.publicKeyHex = some key ∧
    (key = 0 → AppState.inviteSigned P 0 invite = true)

end

namespace AppState

variable {P : Prims}

theorem inviteSigned_iff {key : Key} (hplus : '+' ∉ invite.sigHex.toList) :
    inviteSigned P key invite = true ↔ invite.SignedBy P key := by
  have hhex : ∀ sig : Signature, IsHexOf invite.sigHex sig ↔
      parseHexArray 512 invite.sigHex = some sig := by
    intro sig
    rw [isHexOf_iff (by decide), and_iff_left hplus]
  unfold inviteSigned InvitePayload.SignedBy
  cases hsig : parseHexArray 512 invite.sigHex with
  | none =>
    constructor
    · intro h
      cases h
    · rintro ⟨sig, hsig', -⟩
      rw [hhex, hsig] at hsig'
      cases hsig'
  | some sig =>
    show (_ && _) = true ↔ _
    rw [Bool.and_eq_true]
    constructor
    · intro h
      exact ⟨sig, (hhex sig).mpr hsig, h⟩
    · rintro ⟨sig', hsig', h⟩
      rw [hhex, hsig] at hsig'
      cases hsig'
      exact h

/-- An invite that is not refused is signed under its key, unless that is zero. -/
theorem inviteSigned_of_inviteRefusal (h : s.inviteRefusal P c pk invite = none) (hpk : pk ≠ 0) :
    inviteSigned P pk invite = true := by
  unfold inviteRefusal at h
  split at h
  · cases h
  split at h
  · cases h
  split at h
  · cases h
  split at h
  · cases h
  split at h
  · cases h
  split at h
  · cases h
  · rename_i hsigned
    rw [not_and, Bool.not_eq_true', Bool.not_eq_false] at hsigned
    exact hsigned hpk

theorem not_mem_of_inviteRefusal
    (h : s.inviteRefusal P c pk invite = none) : c ∉ s.communities := by
  intro hmem
  unfold inviteRefusal at h
  rw [if_pos hmem] at h
  cases h

variable (env : Env)

@[simp] theorem communities_storeInvited (s : AppState) (id : CommunityId) (pk : Key)
    (invite : InvitePayload) (password : Option String) :
    (s.storeInvited P env id pk invite password).communities =
      s.communities.insert id.text (inviteManifest env id pk invite) := by
  unfold storeInvited putPassword
  cases password <;> rfl

@[simp] theorem seedFingerprints_storeInvited (s : AppState) (id : CommunityId) (pk : Key)
    (invite : InvitePayload) (password : Option String) :
    (s.storeInvited P env id pk invite password).seedFingerprints = s.seedFingerprints := by
  unfold storeInvited putPassword
  cases password <;> rfl

/-- What the node stores for an accepted invite with a fingerprint. -/
structure Joins (env : Env) (s s' : AppState) (id : CommunityId) (invite : InvitePayload)
    (fp : Key) : Prop where
  communities : s'.communities =
    s.communities.insert id.text (inviteManifest env id invite.key invite)
  seedFingerprints : s'.seedFingerprints =
    if fp = 0 then s.seedFingerprints
    else s.seedFingerprints.insertAll (invite.seedNodes.map fun a => (a, fp))

/-- An invite that passes the checks is accepted. -/
theorem joinInvite_of {ulid : Ulid} (password : Option String) (hname : invite.name ≠ "")
    (hulid : parseUlid invite.communityId = some ulid)
    (hrefusal : s.inviteRefusal P (CommunityId.mk ulid).text invite.key invite = none)
    (hfp : inviteFingerprint invite = .ok fp) :
    (∃ reply, (s.joinInvite P env invite password).2 = .ok reply) ∧
      Joins env s (s.joinInvite P env invite password).1 ⟨ulid⟩ invite fp := by
  have hkey : (parseHexArray 256 invite.publicKeyHex).getD 0 = invite.key := rfl
  unfold joinInvite
  rw [if_neg hname, hulid, hkey]
  dsimp only
  rw [hrefusal, hfp]
  refine ⟨⟨_, rfl⟩, ?_⟩
  dsimp only
  split
  · next hzero =>
    exact ⟨communities_storeInvited env s ⟨ulid⟩ invite.key invite password,
      (seedFingerprints_storeInvited env s ⟨ulid⟩ invite.key invite password).trans
        (if_pos hzero).symm⟩
  · next hzero =>
    refine ⟨communities_storeInvited (P := P) env s ⟨ulid⟩ invite.key invite password, ?_⟩
    rw [if_neg hzero]
    show (s.storeInvited P env ⟨ulid⟩ invite.key invite password).seedFingerprints.insertAll _ = _
    rw [seedFingerprints_storeInvited]

/-- An accepted invite passed the checks. -/
theorem of_joinInvite_ok {env : Env} (h : (s.joinInvite P env invite password).2 = .ok reply) :
    invite.name ≠ "" ∧ ∃ ulid fp, parseUlid invite.communityId = some ulid ∧
      s.inviteRefusal P (CommunityId.mk ulid).text invite.key invite = none ∧
      inviteFingerprint invite = .ok fp ∧
      Joins env s (s.joinInvite P env invite password).1 ⟨ulid⟩ invite fp := by
  rcases joinInvite_cases (P := P) env s invite password with
    ⟨e, heq⟩ | ⟨ulid, stored, hchecked, -, ⟨e, -, heq⟩ | ⟨fp, t, r, hfp, -, -⟩⟩
  · rw [heq] at h
    cases h
  · rw [heq] at h
    cases h
  · exact ⟨hchecked.name, ulid, fp, hchecked.communityId, hchecked.refusal, hfp,
      (joinInvite_of env password hchecked.name hchecked.communityId hchecked.refusal hfp).2⟩

/-- What an accepted invite passed, and what is stored for it. -/
theorem joinInvite_ok {env : Env} (h : (s.joinInvite P env invite password).2 = .ok reply) :
    (invite.key ≠ 0 → inviteSigned P invite.key invite = true) ∧
      (s.joinInvite P env invite password).1.HoldsUnder invite invite.key := by
  obtain ⟨-, ulid, fp, hulid, hrefusal, -, hjoins⟩ := of_joinInvite_ok h
  refine ⟨inviteSigned_of_inviteRefusal hrefusal, ulid,
    inviteManifest env ⟨ulid⟩ invite.key invite, hulid, ?_, rfl⟩
  rw [hjoins.communities, AList.lookup_insert]

theorem communityJoin_eq {env : Env} (hinvite : decodedInvite P p.invite = some invite) :
    s.communityJoin P env p = s.joinInvite P env invite p.hostingPassword := by
  obtain ⟨decoded, hdecoded, hinvite⟩ := Option.bind_eq_some_iff.mp hinvite
  unfold communityJoin
  rw [hdecoded]
  dsimp only
  rw [hinvite]

/-- An accepted invite is authentic exactly when both its texts are without a plus sign and it
names a key that is not zero, or the zero key with a signature. -/
theorem communityJoin_authentic_iff {env : Env} {s : AppState} {p : JoinCommunityParams}
    {invite : InvitePayload} {reply : RpcReply} (hinvite : decodedInvite P p.invite = some invite)
    (hok : (s.communityJoin P env p).2 = .ok reply) :
    InviteAuthentic P invite (s.communityJoin P env p).1 ↔
      '+' ∉ invite.publicKeyHex.toList ∧ '+' ∉ invite.sigHex.toList ∧ invite.Keyed P := by
  rw [communityJoin_eq hinvite] at hok ⊢
  obtain ⟨hsigned, hholds⟩ := joinInvite_ok hok
  constructor
  · rintro ⟨key, hhex, hby, -⟩
    have hsig : '+' ∉ invite.sigHex.toList := by
      obtain ⟨sig, hsig, -⟩ := hby
      exact ((isHexOf_iff (by decide)).mp hsig).2
    obtain ⟨hparsed, hplus⟩ := (isHexOf_iff (by decide)).mp hhex
    refine ⟨hplus, hsig, key, hparsed, ?_⟩
    rintro rfl
    exact (inviteSigned_iff hsig).mpr hby
  · rintro ⟨hplus, hsig, key, hparsed, hzero⟩
    have hkey : invite.key = key := by
      unfold InvitePayload.key
      rw [hparsed, Option.getD_some]
    rw [hkey] at hsigned hholds
    have hby : inviteSigned P key invite = true := by
      rcases eq_or_ne key 0 with rfl | hne
      · exact hzero rfl
      · exact hsigned hne
    exact ⟨key, (isHexOf_iff (by decide)).mpr ⟨hparsed, hplus⟩, (inviteSigned_iff hsig).mp hby,
      hholds⟩

end AppState

/-! ## Round trip -/

/-- The documented behaviour of the libraries: what is encoded is decoded again, and no certificate
has the zero fingerprint. -/
structure AppState.InviteCodec.Lawful (codec : AppState.InviteCodec) (P : Prims) : Prop where
  decode_encode : ∀ invite, P.decodeInvite (codec.encodeInviteJson invite) = some invite
  base64_encode : ∀ b, P.base64UrlDecode (codec.base64UrlEncode b) = some b
  tlsFingerprint_ne_zero : ∀ sk, codec.tlsFingerprint sk ≠ .ok 0

theorem AppState.InviteCodec.Lawful.decodedInvite_encode {codec : AppState.InviteCodec} {P : Prims}
    (hcodec : codec.Lawful P) (invite : InvitePayload) :
    decodedInvite P (codec.base64UrlEncode (codec.encodeInviteJson invite)) = some invite := by
  unfold decodedInvite
  rw [hcodec.base64_encode, Option.bind_some, hcodec.decode_encode]

/-! ### Hexadecimal texts -/

theorem utf8Size_digitChar (d : Nat) : (digitChar hexAlphabet d).utf8Size = 1 := by
  unfold digitChar
  by_cases hd : d < 16
  · have hall : ∀ d < 16, (hexAlphabet.getD d '0').utf8Size = 1 := by decide
    exact hall d hd
  · have hlen : hexAlphabet.length ≤ d := Nat.not_lt.mp hd
    rw [List.getD_eq_getElem?_getD, List.getElem?_eq_none hlen]
    rfl

theorem utf8ByteSize_bytesToHex (v : BitVec w) : (bytesToHex v).utf8ByteSize = w / 4 := by
  have hlen : ∀ ds : List Nat, String.utf8Len (ds.map (digitChar hexAlphabet)) = ds.length := by
    intro ds
    induction ds with
    | nil => rfl
    | cons d ds ih =>
      rw [List.map_cons, String.utf8Len_cons, ih, utf8Size_digitChar, List.length_cons]
  unfold bytesToHex
  rw [String.utf8ByteSize_ofList, hlen, length_fixedDigits]

/-- Slices of a text of single bytes end between characters. -/
theorem hexSlicesPanic_of_ascii {cs : List Char} (hcs : ∀ c ∈ cs, c.utf8Size = 1)
    (hlen : 2 ∣ cs.length) : hexSlicesPanic cs = false := by
  induction cs using hexPairs.induct with
  | case1 a b rest ih =>
    rw [List.length_cons, List.length_cons] at hlen
    have hrest := ih (fun c hc => hcs c (by simp [hc])) (by omega)
    rw [hexSlicesPanic, if_pos (hcs a (by simp)), if_pos (hcs b (by simp)), hrest, Bool.and_false]
  | case2 cs hshort =>
    rcases cs with _ | ⟨x, _ | ⟨y, rest⟩⟩
    · rfl
    · simp at hlen
    · exact absurd rfl (hshort x y rest)

theorem parseHexPanics_bytesToHex (hw : 8 ∣ w) (len : Nat) (v : BitVec w) :
    parseHexPanics len (bytesToHex v) = false := by
  unfold parseHexPanics bytesToHex
  rw [String.toList_ofList, hexSlicesPanic_of_ascii, Bool.and_false]
  · intro c hc
    obtain ⟨d, -, rfl⟩ := List.mem_map.mp hc
    exact utf8Size_digitChar d
  · rw [List.length_map, length_fixedDigits]
    omega

theorem parseHexArray_bytesToHex (hw : 8 ∣ w) (v : BitVec w) :
    parseHexArray w (bytesToHex v) = some v :=
  ((isHexOf_iff hw).mp (isHexOf_bytesToHex hw v)).1

namespace AppState

variable {P : Prims}

/-! ### The invite of an admin -/

theorem key_signedInvite (s : AppState) (c : String) (m : CommunityManifest) (fp : Key) :
    (s.signedInvite P c m fp).key = m.publicKey := by
  unfold InvitePayload.key signedInvite inviteSigningPayload
  dsimp only
  rw [parseHexArray_bytesToHex (by decide), Option.getD_some]

theorem inviteFingerprint_of
    (h : invite.certFingerprintHex = bytesToHex fp) : inviteFingerprint invite = .ok fp := by
  unfold inviteFingerprint parseFingerprintHex
  rw [h, parseHexPanics_bytesToHex (by decide), utf8ByteSize_bytesToHex,
    parseHexArray_bytesToHex (by decide)]
  rfl

theorem inviteSigned_signedInvite (hP : P.Lawful) (hpk : m.publicKey = s.ownPk P) (c : String)
    (fp : Key) : inviteSigned P m.publicKey (s.signedInvite P c m fp) = true := by
  unfold inviteSigned signedInvite
  dsimp only
  rw [parseHexArray_bytesToHex (by decide), hpk]
  exact (Bool.and_eq_true _ _).mpr ⟨hP.vkValid_verifyingKey _, hP.verify_sign _ _⟩

theorem certFingerprintHex_signedInvite (s : AppState) (c : String) (m : CommunityManifest)
    (fp : Key) : (s.signedInvite P c m fp).certFingerprintHex = bytesToHex fp := rfl

/-- The invite of the creator passes the checks of every node that is not in the community and not
banned. -/
theorem inviteRefusal_signedInvite (hP : P.Lawful) (hpk : m.publicKey = s.ownPk P) (fp : Key)
    (hnew : c ∉ t.communities) (hban : t.peerId P ∉ banList t.toTables c) :
    t.inviteRefusal P c m.publicKey (s.signedInvite P c m fp) = none := by
  have hsig : (s.signedInvite P c m fp).sigHex ≠ "" := by
    intro hempty
    have hsize := utf8ByteSize_bytesToHex
      (P.sign s.signingKey (P.encodeInvite (inviteSigningPayload c m)))
    have hzero : (bytesToHex (P.sign s.signingKey
        (P.encodeInvite (inviteSigningPayload c m)))).utf8ByteSize = 0 :=
      String.utf8ByteSize_eq_zero_iff.mpr hempty
    rw [hzero] at hsize
    exact absurd hsize (by decide)
  have hkeyHex : parseHexPanics 64 (s.signedInvite P c m fp).publicKeyHex = false :=
    parseHexPanics_bytesToHex (by decide) 64 m.publicKey
  have hsigHex : parseHexPanics 128 (s.signedInvite P c m fp).sigHex = false :=
    parseHexPanics_bytesToHex (by decide) 128 _
  unfold inviteRefusal
  rw [if_neg hnew, if_neg (by simpa using hban), hkeyHex, if_neg (by decide), if_neg hsig, hsigHex,
    if_neg (by simp), inviteSigned_signedInvite hP hpk, if_neg (by simp)]

/-! ### The manifest on the node of the creator -/

end AppState

/-- The calls that change the channels or the manifest of a community. -/
inductive ManifestCall : RpcCall → Prop
  | updateManifest (p : UpdateManifestParams) : ManifestCall (.communityUpdateManifest p)
  | channelCreate (p : CreateChannelParams) : ManifestCall (.channelCreate p)
  | channelDelete (p : ChannelParams) : ManifestCall (.channelDelete p)
  | channelRotateKey (p : ChannelParams) : ManifestCall (.channelRotateKey p)
  | channelReorder (p : ReorderChannelsParams) : ManifestCall (.channelReorder p)

def rpcStep (P : Prims) (s : AppState) (i : Env × RpcCall) : AppState := (s.rpc P i.1 i.2).1

variable {codec : InviteCodec}

namespace AppState

/-- At most one manifest is replaced, by one with the same id, key and admins. -/
structure Revises (s s' : AppState) : Prop where
  signingKey : s'.signingKey = s.signingKey
  communities : s'.communities = s.communities ∨
    ∃ c old new, s.communities.lookup c = some old ∧ s'.communities = s.communities.insert c new ∧
      new.manifest.id = old.manifest.id ∧ new.manifest.publicKey = old.manifest.publicKey ∧
      new.manifest.adminIds = old.manifest.adminIds ∧
      (old.manifest.name ≠ "" → new.manifest.name ≠ "")

variable {P : Prims}

theorem Revises.refl (s : AppState) : Revises s s := ⟨rfl, .inl rfl⟩

theorem name_ne_empty {name : String} (h : validName name = true) : name ≠ "" := by
  rintro rfl
  exact absurd h (by decide)

theorem revises_channelCreate (env : Env) (s : AppState) (p : CreateChannelParams) :
    Revises s (s.channelCreate P env p).1 := by
  unfold channelCreate
  split
  · exact .refl s
  · split
    · exact .refl s
    · exact .refl s
    · next old ulid hold hulid =>
      unfold storeChannelCreated
      exact ⟨rfl, .inr ⟨p.communityId, old, _, hold, rfl, rfl, rfl, rfl, id⟩⟩

theorem revises_channelDelete (s : AppState) (p : ChannelParams) :
    Revises s (s.channelDelete P p).1 := by
  unfold channelDelete
  split
  · exact .refl s
  · exact .refl s
  · dsimp only
    split
    · exact ⟨rfl, .inl rfl⟩
    · exact ⟨rfl, .inl rfl⟩
    · next old ulid hold hulid =>
      unfold storeChannelDeleted
      exact ⟨rfl, .inr ⟨p.communityId, old, _, hold, rfl, rfl, rfl, rfl, id⟩⟩

theorem revises_channelRotateKey (env : Env) (s : AppState) (p : ChannelParams) :
    Revises s (s.channelRotateKey P env p).1 := by
  unfold channelRotateKey
  split
  · exact .refl s
  · exact .refl s
  · unfold storeRotation
    dsimp only
    split <;> exact ⟨rfl, .inl rfl⟩

theorem revises_channelReorder (s : AppState) (p : ReorderChannelsParams) :
    Revises s (s.channelReorder P p).1 := by
  unfold channelReorder
  split
  · exact .refl s
  · exact .refl s
  · exact .refl s
  · next order old _ _ hold =>
    unfold storeReordered
    exact ⟨rfl, .inr ⟨p.communityId, old, _, hold, rfl, rfl, rfl, rfl, id⟩⟩

theorem revises_communityUpdateManifest (s : AppState) (p : UpdateManifestParams) :
    Revises s (s.communityUpdateManifest P p).1 := by
  unfold communityUpdateManifest
  split
  · exact .refl s
  · exact .refl s
  · next old hrefusal hold =>
    have hname : ∀ n, p.name = some n → validName n = true := by
      intro n hn
      unfold updateRefusal at hrefusal
      split at hrefusal
      · cases hrefusal
      · split at hrefusal
        · cases hrefusal
        · next hvalid =>
          rw [hn] at hvalid
          simpa using hvalid
    have hkept : old.manifest.name ≠ "" → p.name.getD old.manifest.name ≠ "" := by
      intro hne
      cases hp : p.name with
      | none => exact hne
      | some n => exact name_ne_empty (hname n hp)
    split
    · exact .refl s
    · dsimp only
      split
      · split <;> exact ⟨rfl, .inr ⟨p.communityId, old, _, hold, rfl, rfl, rfl, rfl, hkept⟩⟩
      · exact ⟨rfl, .inr ⟨p.communityId, old, _, hold, rfl, rfl, rfl, rfl, hkept⟩⟩

theorem revises_rpcStep {i : Env × RpcCall} (h : ManifestCall i.2) : Revises s (rpcStep P s i) := by
  obtain ⟨env, call⟩ := i
  cases h with
  | updateManifest p => exact revises_communityUpdateManifest s p
  | channelCreate p => exact revises_channelCreate env s p
  | channelDelete p => exact revises_channelDelete s p
  | channelRotateKey p => exact revises_channelRotateKey env s p
  | channelReorder p => exact revises_channelReorder s p

variable (P) in
/-- The node is the creator of the community of the manifest, and the manifest has a name. -/
structure IsCreator (s : AppState) (id : CommunityId) (m : CommunityManifest) : Prop where
  id : m.id = id
  name : m.name ≠ ""
  publicKey : m.publicKey = s.ownPk P
  admin : s.ownUserId P ∈ m.adminIds

theorem IsCreator.congr {m' : CommunityManifest} (h : IsCreator P s id m)
    (hkey : s'.signingKey = s.signingKey) (hid : m'.id = m.id)
    (hname : m.name ≠ "" → m'.name ≠ "") (hpk : m'.publicKey = m.publicKey)
    (hadmins : m'.adminIds = m.adminIds) : IsCreator P s' id m' where
  id := hid.trans h.id
  name := hname h.name
  publicKey := by rw [hpk, h.publicKey, ownPk, ownPk, hkey]
  admin := by
    rw [hadmins, ownUserId, ownPk, hkey]
    exact h.admin

def HoldsOwn (P : Prims) (id : CommunityId) (s : AppState) : Prop :=
  ∃ signed, s.communities.lookup id.text = some signed ∧ IsCreator P s id signed.manifest

theorem HoldsOwn.revises (h : HoldsOwn P id s) (hrev : Revises s s') : HoldsOwn P id s' := by
  obtain ⟨signed, hlookup, hcreator⟩ := h
  rcases hrev.communities with hsame | ⟨c, old, new, hold, hnew, hid, hpk, hadmins, hname⟩
  · rw [← hsame] at hlookup
    exact ⟨signed, hlookup, hcreator.congr hrev.signingKey rfl (fun h => h) rfl rfl⟩
  · by_cases hc : id.text = c
    · subst hc
      rw [hlookup] at hold
      cases hold
      refine ⟨new, ?_, hcreator.congr hrev.signingKey hid hname hpk hadmins⟩
      rw [hnew, AList.lookup_insert]
    · refine ⟨signed, ?_, hcreator.congr hrev.signingKey rfl (fun h => h) rfl rfl⟩
      rw [hnew, AList.lookup_insert_ne hc, hlookup]

theorem holdsOwn_communityCreate {env : Env} {p : CreateCommunityParams}
    (h : (s.communityCreate P env p).2 = .ok reply) :
    HoldsOwn P (s.newManifest P env p).id (s.communityCreate P env p).1 := by
  have hstored : ∀ (t : AppState) (fp : Key), validName p.name = true →
      HoldsOwn P (s.newManifest P env p).id (t.storeCreated P env p fp) := by
    intro t fp hname
    have hsame : (t.storeCreated P env p fp).signingKey = t.signingKey ∧
        (t.storeCreated P env p fp).communities = t.communities.insert
          (t.newManifest P env p).id.text ((t.newManifest P env p).sign P t.signingKey) := by
      unfold storeCreated putPassword
      cases p.hostingPassword <;> exact ⟨rfl, rfl⟩
    refine ⟨(t.newManifest P env p).sign P t.signingKey, ?_, rfl, name_ne_empty hname, ?_, ?_⟩
    · rw [hsame.2]
      exact AList.lookup_insert _
    · show t.ownPk P = P.verifyingKey _
      rw [hsame.1]
      rfl
    · show P.userIdOf (P.verifyingKey _) ∈ [t.ownUserId P]
      rw [hsame.1]
      exact List.mem_singleton.mpr rfl
  rcases communityCreate_cases (P := P) env s p with ⟨e, heq⟩ | ⟨hvalid, t, fp, -, heq⟩
  · rw [heq] at h
    cases h
  · rw [heq]
    exact hstored t fp hvalid

/-! ### The round trip -/

/-- What a node that joins by an invite stores of the manifest: the first seed node only, and the
version 0, so that the signed manifest replaces it. -/
structure Mirrors (m joined : CommunityManifest) : Prop where
  id : joined.id = m.id
  name : joined.name = m.name
  description : joined.description = m.description
  publicKey : joined.publicKey = m.publicKey
  seedNodes : joined.seedNodes = m.seedNodes.take 1
  version : joined.version = 0

variable (P) in
/-- The invite is accepted by a node, which stores what the manifest says and pins the fingerprint
for each seed node. -/
structure JoinSucceeds (env : Env) (t : AppState) (p : JoinCommunityParams) (m : CommunityManifest)
    (fp : Key) : Prop where
  accepted : ∃ reply, (t.communityJoin P env p).2 = .ok reply
  stored : ∃ joined, (t.communityJoin P env p).1.communities.lookup m.id.text = some joined ∧
    Mirrors m joined.manifest
  pinned : ∀ a ∈ m.seedNodes, (t.communityJoin P env p).1.seedFingerprints.lookup a = some fp

theorem inviteSeedFingerprint_ne_zero (hcodec : codec.Lawful P) {seedNodes : List String}
    (h : s.inviteSeedFingerprint codec seedNodes = .ok fp) : fp ≠ 0 := by
  unfold inviteSeedFingerprint at h
  dsimp only at h
  split at h
  · next stored hstored =>
    cases h
    exact of_decide_eq_true (Option.filter_eq_some_iff.mp hstored).2
  · split at h
    · next own hown =>
      cases h
      rintro rfl
      exact hcodec.tlsFingerprint_ne_zero _ hown
    · cases h

theorem joinSucceeds_of {env : Env} (hdecoded : decodedInvite P p.invite = some invite)
    (hname : invite.name ≠ "") (hid : parseUlid invite.communityId = some m.id.ulid)
    (hrefusal : t.inviteRefusal P m.id.text invite.key invite = none)
    (hprint : inviteFingerprint invite = .ok fp) (hfp : fp ≠ 0)
    (hseeds : invite.seedNodes = m.seedNodes)
    (hmirrors : Mirrors m (inviteManifest env m.id invite.key invite).manifest) :
    JoinSucceeds P env t p m fp := by
  obtain ⟨hok, hjoins⟩ := joinInvite_of env p.hostingPassword hname hid hrefusal hprint
  rw [← communityJoin_eq hdecoded] at hok hjoins
  refine ⟨hok, ⟨_, ?_, hmirrors⟩, fun a ha => ?_⟩
  · rw [hjoins.communities]
    exact AList.lookup_insert _
  · have hfound : (m.seedNodes.reverse.find? fun b => decide (b = a)).isSome := by
      rw [List.find?_isSome]
      exact ⟨a, List.mem_reverse.mpr ha, decide_eq_true rfl⟩
    obtain ⟨b, hb⟩ := Option.isSome_iff_exists.mp hfound
    rw [hjoins.seedFingerprints, if_neg hfp, hseeds,
      Dict.lookup_insertAll_map (fun a => a) (fun _ => fp), hb]
    rfl

theorem joinSucceeds_signedInvite (hP : P.Lawful) (hcodec : codec.Lawful P) (env : Env)
    (password : Option String) (hm : IsCreator P s m.id m) (hfp : fp ≠ 0)
    (hnew : m.id.text ∉ t.communities) (hban : t.peerId P ∉ banList t.toTables m.id.text) :
    JoinSucceeds P env t
      ⟨codec.base64UrlEncode (codec.encodeInviteJson (s.signedInvite P m.id.text m fp)), password⟩
      m fp := by
  have hdecoded : decodedInvite P
      (codec.base64UrlEncode (codec.encodeInviteJson (s.signedInvite P m.id.text m fp))) =
      some (s.signedInvite P m.id.text m fp) := hcodec.decodedInvite_encode _
  have hname : (s.signedInvite P m.id.text m fp).name ≠ "" := hm.name
  have hid : parseUlid (s.signedInvite P m.id.text m fp).communityId = some m.id.ulid :=
    parseUlid_ulidText m.id.ulid
  have hseeds : (s.signedInvite P m.id.text m fp).seedNodes = m.seedNodes := rfl
  have hdescription : (s.signedInvite P m.id.text m fp).description = m.description := rfl
  have hname' : (s.signedInvite P m.id.text m fp).name = m.name := rfl
  have hkey : (s.signedInvite P m.id.text m fp).key = m.publicKey := key_signedInvite s _ m fp
  have hprint : inviteFingerprint (s.signedInvite P m.id.text m fp) = .ok fp :=
    inviteFingerprint_of (certFingerprintHex_signedInvite s _ m fp)
  have hrefusal : t.inviteRefusal P m.id.text (s.signedInvite P m.id.text m fp).key
      (s.signedInvite P m.id.text m fp) = none := by
    rw [hkey]
    exact inviteRefusal_signedInvite hP hm.publicKey fp hnew hban
  generalize s.signedInvite P m.id.text m fp = invite at *
  refine joinSucceeds_of hdecoded hname hid hrefusal hprint hfp hseeds ?_
  exact ⟨rfl, hname', hdescription, hkey, congrArg (List.take 1) hseeds, rfl⟩

theorem signingKey_communityCreate (env : Env) (s : AppState) (p : CreateCommunityParams) :
    (s.communityCreate P env p).1.signingKey = s.signingKey := by
  have hstored : ∀ (t : AppState) (fp : Key),
      (t.storeCreated P env p fp).signingKey = t.signingKey := by
    intro t fp
    unfold storeCreated putPassword
    cases p.hostingPassword <;> rfl
  rcases communityCreate_cases (P := P) env s p with ⟨e, heq⟩ | ⟨-, t, fp, rfl | rfl, heq⟩
  · rw [heq]
  · rw [heq]
    exact hstored _ fp
  · rw [heq]
    exact hstored _ fp

theorem communityGenerateInvite_of {signed : SignedManifest}
    (hlookup : s.communities.lookup c = some signed) (hcreator : IsCreator P s id signed.manifest)
    (hfp : s.inviteSeedFingerprint codec signed.manifest.seedNodes = .ok fp) :
    s.communityGenerateInvite P codec c = .ok (invitePrefixText ++ codec.base64UrlEncode
      (codec.encodeInviteJson (s.signedInvite P c signed.manifest fp))) := by
  have hadmin : s.isManifestAdmin P signed.manifest = true :=
    List.any_eq_true.mpr ⟨_, hcreator.admin, decide_eq_true rfl⟩
  unfold communityGenerateInvite
  rw [hlookup]
  dsimp only
  rw [hadmin, hfp]
  rfl

/-- After a community is created and any calls on its channels and its manifest were made, the
creator can generate an invite, and every node that is not in the community and not banned from it
joins by the text after the prefix. -/
theorem invite_round_trip (hP : P.Lawful) {codec : InviteCodec} (hcodec : codec.Lawful P)
    {env : Env} {s : AppState} {p : CreateCommunityParams} {reply : RpcReply}
    (hcreate : (s.communityCreate P env p).2 = .ok reply) {calls : List (Env × RpcCall)}
    (hcalls : ∀ i ∈ calls, ManifestCall i.2)
    (htls : ∃ fp, codec.tlsFingerprint s.signingKey = .ok fp) :
    ∃ signed b64 fp,
      (run (rpcStep P) (s.communityCreate P env p).1 calls).communities.lookup
        (s.newManifest P env p).id.text = some signed ∧
      (run (rpcStep P) (s.communityCreate P env p).1 calls).communityGenerateInvite P codec
        (s.newManifest P env p).id.text = .ok (invitePrefixText ++ b64) ∧
      (decodedInvite P b64).map (fun invite => invite.certFingerprintHex) = some (bytesToHex fp) ∧
      fp ≠ 0 ∧
      ∀ (t : AppState) (env' : Env) (password : Option String),
        (s.newManifest P env p).id.text ∉ t.communities →
        t.peerId P ∉ banList t.toTables (s.newManifest P env p).id.text →
        JoinSucceeds P env' t ⟨b64, password⟩ signed.manifest fp := by
  have hcreated := holdsOwn_communityCreate hcreate
  have hkeyed := signingKey_communityCreate (P := P) env s p
  generalize (s.newManifest P env p).id = id at hcreated ⊢
  generalize (s.communityCreate P env p).1 = s₁ at hcreated hkeyed ⊢
  have hown : HoldsOwn P id (run (rpcStep P) s₁ calls) ∧
      (run (rpcStep P) s₁ calls).signingKey = s.signingKey := by
    refine (along_of_forall fun _ i hi => hcalls i hi).invariant (G := fun _ i => ManifestCall i.2)
      (I := fun t => HoldsOwn P id t ∧ t.signingKey = s.signingKey) ?_ ⟨hcreated, hkeyed⟩
    rintro t i ⟨ht, hkey⟩ hcall
    have hrev := revises_rpcStep (P := P) (s := t) hcall
    exact ⟨ht.revises hrev, hrev.signingKey.trans hkey⟩
  generalize run (rpcStep P) s₁ calls = s' at hown ⊢
  obtain ⟨⟨signed, hlookup, hcreator⟩, hkey⟩ := hown
  obtain rfl : id = signed.manifest.id := hcreator.id.symm
  obtain ⟨fp, hfp⟩ : ∃ fp, s'.inviteSeedFingerprint codec signed.manifest.seedNodes = .ok fp := by
    obtain ⟨own, hown⟩ := htls
    unfold inviteSeedFingerprint
    dsimp only
    split
    · exact ⟨_, rfl⟩
    · rw [hkey, hown]
      exact ⟨own, rfl⟩
  have hne := inviteSeedFingerprint_ne_zero hcodec hfp
  refine ⟨signed, codec.base64UrlEncode (codec.encodeInviteJson
    (s'.signedInvite P signed.manifest.id.text signed.manifest fp)), fp, hlookup,
    communityGenerateInvite_of hlookup hcreator hfp, ?_, hne, ?_⟩
  · rw [hcodec.decodedInvite_encode]
    exact congrArg some (certFingerprintHex_signedInvite s' _ signed.manifest fp)
  · intro t env' password hnew hban
    exact joinSucceeds_signedInvite hP hcodec env' password hcreator hne hnew hban

end AppState

namespace Sample

open AppState

def inviteBytes (i : InvitePayload) : Bytes :=
  textsBytes ([i.communityId, i.name, i.description, i.publicKeyHex, i.sigHex,
    i.certFingerprintHex] ++ i.seedNodes)

def readInvite (b : Bytes) : Option InvitePayload :=
  match (readTexts b).map String.ofList with
  | id :: name :: description :: key :: sig :: cert :: seeds =>
    some ⟨⟨id, name, description, key, seeds⟩, sig, cert⟩
  | _ => none

theorem readInvite_inviteBytes (i : InvitePayload) : readInvite (inviteBytes i) = some i := by
  unfold readInvite inviteBytes
  rw [readTexts_textsBytes, List.map_map]
  have hid : String.ofList ∘ String.toList = id := funext fun _ => String.ofList_toList
  rw [hid, List.map_id]
  rfl

/-- A byte as the character of the same number. -/
def byteChar (b : UInt8) : Char := Char.ofNat b.toNat

theorem byteChar_toNat (b : UInt8) : UInt8.ofNat (byteChar b).toNat = b := by
  have hall : ∀ i : Fin 256, (Char.ofNat i.val).toNat = i.val := by decide +kernel
  rw [byteChar, hall ⟨b.toNat, b.toNat_lt⟩, UInt8.ofNat_toNat]

/-- The functions of the sample with an encoding of the invites. -/
def codecPrims : Prims :=
  { prims [] [] with
    base64UrlDecode := fun s => some (s.toList.map fun c => UInt8.ofNat c.toNat)
    decodeInvite := readInvite
    encodeInvite := fun p => textsBytes ([p.communityId, p.name, p.description, p.publicKeyHex] ++
      p.seedNodes) }

def inviteCodec : InviteCodec where
  encodeInviteJson := inviteBytes
  base64UrlEncode b := String.ofList (b.map byteChar)
  tlsFingerprint sk := .ok (sk ||| 1)

theorem inviteCodec_lawful : inviteCodec.Lawful codecPrims where
  decode_encode := readInvite_inviteBytes
  base64_encode b := by
    refine congrArg some ?_
    show (String.ofList (b.map byteChar)).toList.map _ = b
    rw [String.toList_ofList, List.map_map]
    refine (List.map_congr_left fun c _ => ?_).trans (List.map_id b)
    exact byteChar_toNat c
  tlsFingerprint_ne_zero sk h := by
    have hzero : sk ||| 1 = 0 := Except.ok.inj h
    have hbit := congrArg (fun v : Key => v.getLsbD 0) hzero
    simp at hbit

theorem codecPrims_lawful : codecPrims.Lawful := by
  obtain ⟨h₁, h₂, h₃, h₄, h₅, h₆⟩ := prims_lawful [] []
  exact ⟨h₁, h₂, h₃, h₄, h₅, h₆⟩

def inviteParams : CreateCommunityParams := ⟨"name", "", ["seed"], none, some (hexText 9)⟩

/-- The creator of the community adds a channel. -/
def inviteCalls : List (Env × RpcCall) :=
  [(env, .channelCreate ⟨((app 1).newManifest codecPrims env inviteParams).id.text, "general",
    .text⟩)]

/-- A node creates a community with a seed node and adds a channel, and its invite is accepted by
every node outside the community. -/
theorem invite_round_trip_created :
    ∃ signed b64 fp,
      (run (rpcStep codecPrims) ((app 1).communityCreate codecPrims env inviteParams).1
        inviteCalls).communities.lookup
          ((app 1).newManifest codecPrims env inviteParams).id.text = some signed ∧
      (run (rpcStep codecPrims) ((app 1).communityCreate codecPrims env inviteParams).1
        inviteCalls).communityGenerateInvite codecPrims inviteCodec
          ((app 1).newManifest codecPrims env inviteParams).id.text =
          .ok (invitePrefixText ++ b64) ∧
      (decodedInvite codecPrims b64).map (fun invite => invite.certFingerprintHex) =
        some (bytesToHex fp) ∧
      fp ≠ 0 ∧
      ∀ (t : AppState) (env' : Env) (password : Option String),
        ((app 1).newManifest codecPrims env inviteParams).id.text ∉ t.communities →
        t.peerId codecPrims ∉
          banList t.toTables ((app 1).newManifest codecPrims env inviteParams).id.text →
        JoinSucceeds codecPrims env' t ⟨b64, password⟩ signed.manifest fp := by
  have hok : ((app 1).communityCreate codecPrims env inviteParams).2.toOption.isSome = true := by
    decide +kernel
  obtain ⟨reply, hcreate⟩ := exists_ok_of_isSome hok
  refine invite_round_trip codecPrims_lawful inviteCodec_lawful hcreate ?_ ⟨_, rfl⟩
  intro i hi
  obtain rfl := List.mem_singleton.mp hi
  exact .channelCreate _

/-- The functions of the sample, for an evaluation in which the text of one invite is sent. -/
def invitePrims (invite : InvitePayload) : Prims :=
  { prims [] [] with
    base64UrlDecode := fun _ => some []
    decodeInvite := fun _ => some invite
    encodeInvite := fun i => utf8 i.communityId ++ utf8 i.name ++ utf8 i.publicKeyHex }

def unsignedInvite : InvitePayload :=
  ⟨⟨ulidText 7, "name", "", "", []⟩, "x", ""⟩

def signedInvite : InvitePayload :=
  let payload : InviteSigningPayload := ⟨ulidText 7, "name", "", hexText 6, []⟩
  let sig := (invitePrims unsignedInvite).sign 5
    ((invitePrims unsignedInvite).encodeInvite payload)
  ⟨payload, String.ofList ((fixedDigits 16 128 sig.toNat).map (digitChar hexAlphabet)), ""⟩

def joinParams : JoinCommunityParams := ⟨"invite", none⟩

/-- The node joins the community of an invite that names no key and that nobody signed. -/
theorem unsigned_invite_accepted :
    (((app 1).communityJoin (invitePrims unsignedInvite) env joinParams).2.toOption.isSome = true) ∧
      ¬ InviteAuthentic (invitePrims unsignedInvite) unsignedInvite
        ((app 1).communityJoin (invitePrims unsignedInvite) env joinParams).1 := by
  refine ⟨by decide +kernel, ?_⟩
  rintro ⟨key, ⟨hlen, -⟩, -⟩
  exact absurd hlen (by decide)

/-- An invite with a key and its signature is accepted and authentic. -/
theorem signed_invite_authentic :
    InviteAuthentic (invitePrims signedInvite) signedInvite
      ((app 1).communityJoin (invitePrims signedInvite) env joinParams).1 := by
  have hok : ((app 1).communityJoin (invitePrims signedInvite) env joinParams).2.toOption.isSome =
      true := by decide +kernel
  obtain ⟨reply, hreply⟩ := exists_ok_of_isSome hok
  exact (AppState.communityJoin_authentic_iff rfl hreply).mpr ⟨by decide +kernel,
    by decide +kernel, 6, by decide +kernel, fun h => absurd h (by decide)⟩

end Sample

end BitCord
