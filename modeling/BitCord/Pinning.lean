import BitCord.Invite

/-!
# What the signature of an invite covers

An invite is signed over its id, its name, its description, its key and its seed nodes. The
fingerprint that the node pins for the seed nodes is not among them, so whoever passes an invite on
can replace the fingerprint and keep the signature (`fingerprint_replaced`). `same_join_iff` says
when two invites are stored alike.
-/

namespace BitCord

open Lib AppState

variable {invite : InvitePayload} {fp : Key} {hex : String} {env' : Env} {ulid ulid' : Ulid}
  {t t' : AppState}

/-- The fingerprint in an invite, zero where there is none. -/
def InvitePayload.fingerprint (invite : InvitePayload) : Key :=
  (parseFingerprintHex invite.certFingerprintHex).getD 0

def InvitePayload.pin? (invite : InvitePayload) (addr : String) : Option Key :=
  if addr ∈ invite.seedNodes ∧ invite.fingerprint ≠ 0 then some invite.fingerprint else none

/-- What the invites say of the community is the same. -/
structure InvitePayload.SameContent (a b : InvitePayload) : Prop where
  communityId : parseUlid a.communityId = parseUlid b.communityId
  name : a.name = b.name
  description : a.description = b.description
  seedNodes : a.seedNodes.take 1 = b.seedNodes.take 1

/-- Each fingerprint that the first invite pins is pinned by the second, or the second pins none for
the address and the node has it already. -/
def AppState.CoversPins (s : AppState) (a b : InvitePayload) : Prop :=
  ∀ addr fp, a.pin? addr = some fp →
    b.pin? addr = some fp ∨ b.pin? addr = none ∧ s.seedFingerprints.lookup addr = some fp

/-- No signature under the key of the invites is valid for two contents. -/
def Prims.BindsInvites (P : Prims) (a b : InvitePayload) : Prop :=
  ∀ sig, P.verify a.key (P.encodeInvite a.toInviteSigningPayload) sig = true →
    P.verify a.key (P.encodeInvite b.toInviteSigningPayload) sig = true →
    a.toInviteSigningPayload = b.toInviteSigningPayload

/-- A manifest without the time of its creation. -/
def SignedManifest.undated (signed : SignedManifest) : SignedManifest :=
  { signed with manifest := { signed.manifest with createdAt := 0 } }

/-- The communities are the same up to the times of creation, and so are the fingerprints. -/
structure AppState.SameJoin (s s' : AppState) : Prop where
  communities : ∀ c, (s.communities.lookup c).map SignedManifest.undated =
    (s'.communities.lookup c).map SignedManifest.undated
  seedFingerprints : ∀ addr, s.seedFingerprints.lookup addr = s'.seedFingerprints.lookup addr

namespace AppState

variable {P : Prims} {s s' : AppState} {a b : InvitePayload}

theorem fingerprint_of_ok (h : inviteFingerprint invite = .ok fp) : invite.fingerprint = fp := by
  unfold inviteFingerprint at h
  unfold InvitePayload.fingerprint
  split at h
  · cases h
  split at h
  · cases hparse : parseFingerprintHex invite.certFingerprintHex with
    | none =>
      rw [hparse] at h
      cases h
    | some fp' =>
      rw [hparse] at h
      cases h
      rfl
  split at h
  · next hempty =>
    cases h
    rw [hempty]
    decide
  · cases h

/-- No check of an invite reads its fingerprint. -/
theorem inviteRefusal_restamped (s : AppState) (c : String) (pk : Key) (invite : InvitePayload)
    (hex : String) : s.inviteRefusal P c pk { invite with certFingerprintHex := hex } =
      s.inviteRefusal P c pk invite := rfl

variable {env : Env}

theorem lookup_seedFingerprints_of_joins {id : CommunityId}
    (h : Joins env s s' id invite invite.fingerprint) (addr : String) :
    s'.seedFingerprints.lookup addr = (invite.pin? addr).or (s.seedFingerprints.lookup addr) := by
  rw [h.seedFingerprints]
  unfold InvitePayload.pin?
  rcases eq_or_ne invite.fingerprint 0 with hzero | hzero
  · rw [if_pos hzero, if_neg fun hp => hp.2 hzero, Option.none_or]
  · rw [if_neg hzero, Dict.lookup_insertAll_map (fun a => a) (fun _ => invite.fingerprint)]
    by_cases hmem : addr ∈ invite.seedNodes
    · have hfound : (invite.seedNodes.reverse.find? fun b => decide (b = addr)).isSome := by
        rw [List.find?_isSome]
        exact ⟨addr, List.mem_reverse.mpr hmem, decide_eq_true rfl⟩
      obtain ⟨x, hx⟩ := Option.isSome_iff_exists.mp hfound
      rw [hx, if_pos ⟨hmem, hzero⟩, Option.map_some]
    · have hnone : (invite.seedNodes.reverse.find? fun b => decide (b = addr)) = none := by
        rw [List.find?_eq_none]
        rintro x hx heq
        obtain rfl := of_decide_eq_true heq
        exact hmem (List.mem_reverse.mp hx)
      rw [hnone, if_neg fun hp => hmem hp.1, Option.map_none]

/-- The invite that is made of an accepted one with another fingerprint is accepted. -/
theorem joinInvite_restamped {password : Option String} {reply : RpcReply}
    (hok : (s.joinInvite P env invite password).2 = .ok reply)
    (hfp : inviteFingerprint { invite with certFingerprintHex := hex } = .ok fp) :
    ∃ id, (∃ reply', (s.joinInvite P env { invite with certFingerprintHex := hex } password).2 =
        .ok reply') ∧
      Joins env s (s.joinInvite P env { invite with certFingerprintHex := hex } password).1 id
        { invite with certFingerprintHex := hex } fp := by
  obtain ⟨hname, ulid, -, hulid, hrefusal, -, -⟩ := of_joinInvite_ok hok
  rw [← inviteRefusal_restamped s _ _ invite hex] at hrefusal
  exact ⟨⟨ulid⟩, joinInvite_of env password hname hulid hrefusal hfp⟩

theorem sameContent_of_signed (hbinds : P.BindsInvites a b) (hsig : a.sigHex = b.sigHex)
    (ha : inviteSigned P a.key a = true) (hb : inviteSigned P a.key b = true) :
    a.SameContent b := by
  unfold inviteSigned at ha hb
  rw [← hsig] at hb
  cases hparse : parseHexArray 512 a.sigHex with
  | none =>
    rw [hparse] at ha
    cases ha
  | some sig =>
    rw [hparse] at ha hb
    have hsame := hbinds sig (Bool.and_eq_true_iff.mp ha).2 (Bool.and_eq_true_iff.mp hb).2
    exact ⟨congrArg (fun p => parseUlid p.communityId) hsame, congrArg (·.name) hsame,
      congrArg (·.description) hsame, congrArg (fun p => p.seedNodes.take 1) hsame⟩

theorem coversPins_of (haddrs : ∀ addr, (a.pin? addr).or (s.seedFingerprints.lookup addr) =
    (b.pin? addr).or (s.seedFingerprints.lookup addr)) : s.CoversPins a b := by
  intro addr fp ha
  have h := haddrs addr
  rw [ha, Option.some_or] at h
  cases hb : b.pin? addr with
  | none =>
    rw [hb, Option.none_or] at h
    exact Or.inr ⟨rfl, h.symm⟩
  | some fp' =>
    rw [hb, Option.some_or] at h
    exact Or.inl h.symm

theorem or_pin_of_coversPins (hab : s.CoversPins a b) (hba : s.CoversPins b a) (addr : String) :
    (a.pin? addr).or (s.seedFingerprints.lookup addr) =
      (b.pin? addr).or (s.seedFingerprints.lookup addr) := by
  cases ha : a.pin? addr with
  | some fp =>
    rcases hab addr fp ha with hb | ⟨hb, hs⟩
    · rw [hb]
    · rw [hb, hs]
      rfl
  | none =>
    cases hb : b.pin? addr with
    | none => rfl
    | some fp =>
      rcases hba addr fp hb with ha' | ⟨-, hs⟩
      · rw [ha] at ha'
        cases ha'
      · rw [hs]
        rfl

theorem sameContent_of_communities (hulid : parseUlid a.communityId = some ulid)
    (hulid' : parseUlid b.communityId = some ulid')
    (hnew : (CommunityId.mk ulid).text ∉ s.communities)
    (h : t.communities =
      s.communities.insert (CommunityId.mk ulid).text (inviteManifest env ⟨ulid⟩ a.key a))
    (h' : t'.communities =
      s.communities.insert (CommunityId.mk ulid').text (inviteManifest env' ⟨ulid'⟩ b.key b))
    (hsame : ∀ c, (t.communities.lookup c).map SignedManifest.undated =
      (t'.communities.lookup c).map SignedManifest.undated) :
    a.SameContent b := by
  have hat := hsame (CommunityId.mk ulid).text
  rw [h, h', AList.lookup_insert] at hat
  rcases eq_or_ne (CommunityId.mk ulid).text (CommunityId.mk ulid').text with heq | hne
  · rw [heq, AList.lookup_insert] at hat
    have hsigned := Option.some.inj hat
    have hmanifest := congrArg SignedManifest.manifest hsigned
    refine ⟨?_, congrArg CommunityManifest.name hmanifest,
      congrArg CommunityManifest.description hmanifest,
      congrArg CommunityManifest.seedNodes hmanifest⟩
    rw [hulid, hulid', show ulid = ulid' from
      congrArg CommunityId.ulid (CommunityId.text_injective heq)]
  · rw [AList.lookup_insert_ne hne, AList.lookup_eq_none.mpr hnew] at hat
    cases hat

theorem communities_of_sameContent (hulid : parseUlid a.communityId = some ulid)
    (hulid' : parseUlid b.communityId = some ulid') (hkey : a.key = b.key)
    (hcontent : a.SameContent b)
    (h : t.communities =
      s.communities.insert (CommunityId.mk ulid).text (inviteManifest env ⟨ulid⟩ a.key a))
    (h' : t'.communities =
      s.communities.insert (CommunityId.mk ulid').text (inviteManifest env' ⟨ulid'⟩ b.key b))
    (c : String) : (t.communities.lookup c).map SignedManifest.undated =
      (t'.communities.lookup c).map SignedManifest.undated := by
  obtain rfl : ulid = ulid' := by
    have := hcontent.communityId
    rw [hulid, hulid'] at this
    exact Option.some.inj this
  rw [h, h', Dict.lookup_insert_eq, Dict.lookup_insert_eq]
  split
  · unfold inviteManifest
    rw [hcontent.name, hcontent.description, hcontent.seedNodes, hkey]
    rfl
  · rfl

/-- Two accepted invites with the same texts of the key and of the signature are stored alike
exactly when they have the same content or the key is not zero, and the fingerprints that they pin
agree. -/
theorem same_join_iff {env env' : Env} {s : AppState} {p p' : JoinCommunityParams}
    {a b : InvitePayload} {reply reply' : RpcReply} (ha : decodedInvite P p.invite = some a)
    (hb : decodedInvite P p'.invite = some b) (haok : (s.communityJoin P env p).2 = .ok reply)
    (hbok : (s.communityJoin P env' p').2 = .ok reply') (hkey : a.publicKeyHex = b.publicKeyHex)
    (hsig : a.sigHex = b.sigHex) (hbinds : P.BindsInvites a b) :
    SameJoin (s.communityJoin P env p).1 (s.communityJoin P env' p').1 ↔
      (a.key = 0 → a.SameContent b) ∧ s.CoversPins a b ∧ s.CoversPins b a := by
  rw [communityJoin_eq ha] at haok ⊢
  rw [communityJoin_eq hb] at hbok ⊢
  have hkeys : a.key = b.key := congrArg (fun t => (parseHexArray 256 t).getD 0) hkey
  obtain ⟨-, ulid, fp, hulid, hrefusal, hfp, hjoins⟩ := of_joinInvite_ok haok
  obtain ⟨-, ulid', fp', hulid', hrefusal', hfp', hjoins'⟩ := of_joinInvite_ok hbok
  obtain rfl := fingerprint_of_ok hfp
  obtain rfl := fingerprint_of_ok hfp'
  have hpins := lookup_seedFingerprints_of_joins hjoins
  have hpins' := lookup_seedFingerprints_of_joins hjoins'
  constructor
  · rintro ⟨hcommunities, hprints⟩
    refine ⟨fun _ => ?_, coversPins_of fun addr => ?_, coversPins_of fun addr => ?_⟩
    · exact sameContent_of_communities hulid hulid' (not_mem_of_inviteRefusal hrefusal)
        hjoins.communities hjoins'.communities hcommunities
    · rw [← hpins, ← hpins', hprints]
    · rw [← hpins, ← hpins', hprints]
  · rintro ⟨hzero, hab, hba⟩
    have hcontent : a.SameContent b := by
      rcases eq_or_ne a.key 0 with h | h
      · exact hzero h
      · refine sameContent_of_signed hbinds hsig (inviteSigned_of_inviteRefusal hrefusal h) ?_
        rw [hkeys] at h ⊢
        exact inviteSigned_of_inviteRefusal hrefusal' h
    refine ⟨communities_of_sameContent hulid hulid' hkeys hcontent hjoins.communities
      hjoins'.communities, fun addr => ?_⟩
    rw [hpins, hpins', or_pin_of_coversPins hab hba]

end AppState

namespace Sample

def seedManifest : CommunityManifest := (app 5).newManifest codecPrims env inviteParams

def seedInvite (hex : String) : InvitePayload :=
  { (app 5).signedInvite codecPrims seedManifest.id.text seedManifest 8 with
    certFingerprintHex := hex }

def inviteCall (invite : InvitePayload) : JoinCommunityParams :=
  ⟨inviteCodec.base64UrlEncode (inviteCodec.encodeInviteJson invite), none⟩

theorem decodedInvite_inviteCall (invite : InvitePayload) :
    decodedInvite codecPrims (inviteCall invite).invite = some invite :=
  inviteCodec_lawful.decodedInvite_encode invite

def seedParams (hex : String) : JoinCommunityParams := inviteCall (seedInvite hex)

/-- A node outside the community joins by the invite, whatever valid fingerprint is put into it. -/
theorem join_seedInvite (hfp : inviteFingerprint (seedInvite hex) = .ok fp)
    (hnew : seedManifest.id.text ∉ t.communities)
    (hban : t.peerId codecPrims ∉ banList t.toTables seedManifest.id.text) :
    ∃ id, (∃ reply, (t.communityJoin codecPrims env (seedParams hex)).2 = .ok reply) ∧
      Joins env t (t.communityJoin codecPrims env (seedParams hex)).1 id (seedInvite hex) fp := by
  have hcreator : IsCreator codecPrims (app 5) seedManifest.id seedManifest :=
    ⟨rfl, by decide, rfl, List.mem_singleton.mpr rfl⟩
  have hjoin := joinSucceeds_signedInvite codecPrims_lawful inviteCodec_lawful env none hcreator
    (show (8 : Key) ≠ 0 by decide) hnew hban
  unfold seedInvite at hfp
  unfold seedParams seedInvite
  dsimp only at hfp ⊢
  generalize (app 5).signedInvite codecPrims seedManifest.id.text seedManifest 8 = invite at *
  obtain ⟨reply, hreply⟩ : ∃ reply, (t.communityJoin codecPrims env (inviteCall invite)).2 =
    .ok reply := hjoin.accepted
  rw [communityJoin_eq (decodedInvite_inviteCall invite)] at hreply
  rw [communityJoin_eq (decodedInvite_inviteCall _)]
  exact joinInvite_restamped hreply hfp

theorem fingerprint_seedInvite (fp : Key) :
    inviteFingerprint (seedInvite (bytesToHex fp)) = .ok fp := inviteFingerprint_of rfl

theorem pin_seedInvite (hne : fp ≠ 0) :
    (∃ reply, ((app 1).communityJoin codecPrims env (seedParams (bytesToHex fp))).2 = .ok reply) ∧
      ((app 1).communityJoin codecPrims env (seedParams (bytesToHex fp))).1.seedFingerprints.lookup
        "seed" = some fp := by
  obtain ⟨id, hok, hjoins⟩ := join_seedInvite (t := app 1) (fingerprint_seedInvite fp)
    (AList.notMem_empty _) (by decide)
  refine ⟨hok, ?_⟩
  rw [hjoins.seedFingerprints, if_neg hne]
  exact AList.lookup_insert _

/-- The invite of the admin and the same invite with the fingerprint of another node have the same
key and signature and are both accepted, and the fingerprints are pinned for the seed node. -/
theorem fingerprint_replaced :
    (seedInvite (bytesToHex (8 : Key))).publicKeyHex =
        (seedInvite (bytesToHex (9 : Key))).publicKeyHex ∧
      (seedInvite (bytesToHex (8 : Key))).sigHex = (seedInvite (bytesToHex (9 : Key))).sigHex ∧
      (∃ reply, ((app 1).communityJoin codecPrims env (seedParams (bytesToHex (8 : Key)))).2 =
        .ok reply) ∧
      (∃ reply, ((app 1).communityJoin codecPrims env (seedParams (bytesToHex (9 : Key)))).2 =
        .ok reply) ∧
      ¬ SameJoin ((app 1).communityJoin codecPrims env (seedParams (bytesToHex (8 : Key)))).1
        ((app 1).communityJoin codecPrims env (seedParams (bytesToHex (9 : Key)))).1 := by
  obtain ⟨hok, hpin⟩ := pin_seedInvite (show (8 : Key) ≠ 0 by decide)
  obtain ⟨hok', hpin'⟩ := pin_seedInvite (show (9 : Key) ≠ 0 by decide)
  refine ⟨rfl, rfl, hok, hok', fun hsame => ?_⟩
  have hpins := hsame.seedFingerprints "seed"
  rw [hpin, hpin'] at hpins
  exact absurd hpins (by decide)

def pinnedApp : AppState := (app 1).pinSeeds ["seed"] 8

/-- The invite without a fingerprint is stored as the one with it by a node that has it already. -/
theorem same_join_pinned :
    SameJoin (pinnedApp.communityJoin codecPrims env (seedParams (bytesToHex (8 : Key)))).1
      (pinnedApp.communityJoin codecPrims env (seedParams "")).1 := by
  obtain ⟨-, ⟨reply, hreply⟩, -⟩ := join_seedInvite (t := pinnedApp) (fingerprint_seedInvite 8)
    (AList.notMem_empty _) (by decide)
  obtain ⟨-, ⟨reply', hreply'⟩, -⟩ := join_seedInvite (t := pinnedApp)
    (show inviteFingerprint (seedInvite "") = .ok 0 by decide +kernel) (AList.notMem_empty _)
    (by decide)
  have hprint := fingerprint_of_ok (fingerprint_seedInvite 8)
  refine (same_join_iff (decodedInvite_inviteCall (seedInvite (bytesToHex (8 : Key))))
    (decodedInvite_inviteCall (seedInvite "")) hreply hreply' rfl rfl fun _ _ _ => rfl).mpr
    ⟨fun _ => ⟨rfl, rfl, rfl, rfl⟩, fun addr fp hpin => ?_, fun addr fp hpin => ?_⟩
  · refine Or.inr ⟨if_neg fun h => h.2 (by decide +kernel), ?_⟩
    unfold InvitePayload.pin? at hpin
    split at hpin
    · next h =>
      obtain rfl : addr = "seed" := List.mem_singleton.mp h.1
      rw [← hpin, hprint]
      exact AList.lookup_insert _
    · cases hpin
  · unfold InvitePayload.pin? at hpin
    rw [if_neg fun h => h.2 (by decide +kernel)] at hpin
    cases hpin

end Sample

end BitCord
