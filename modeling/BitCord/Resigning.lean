import BitCord.Invite

/-!
# Manifests that the node signs again

The manifest of a community verifies under the key of the creator. The calls that change the
channels or the manifest of a community sign it again with the key of the node. None of them asks
whether that is the key of the community, and those on channels ask for no role either
(`member_breaks_manifest`, `manifests_verifiable_iff`).
-/

namespace BitCord

open Lib Lib.Run AppState

/-- A signature verifies under the key of its signer only. -/
def Prims.SignsForOneKey (P : Prims) : Prop :=
  ∀ sk m k, P.verify k m (P.sign sk m) = true → k = P.verifyingKey sk

section

variable (P : Prims)

namespace AppState

/-- The community whose manifest the call signs again, if the call passes its checks. -/
def resigned? (s : AppState) : RpcCall → Option String
  | .channelCreate p =>
    if validName p.name ∧ (s.communities.lookup p.communityId).isSome ∧
        (parseUlid p.communityId).isSome then
      some p.communityId
    else none
  | .channelDelete p =>
    if s.seedRefusal p.communityId = none ∧ (s.channels.lookup p.channelId).isSome ∧
        (s.communities.lookup p.communityId).isSome ∧ (parseUlid p.channelId).isSome then
      some p.communityId
    else none
  | .channelReorder p =>
    if (s.seedRefusal p.communityId).or (s.reorderRefusal p) = none ∧
        (parseOrder p.channelIds).toOption.isSome ∧
        (s.communities.lookup p.communityId).isSome then
      some p.communityId
    else none
  | .communityUpdateManifest p =>
    if s.updateRefusal p = none ∧
        (s.communities.lookup p.communityId).any fun m => s.isManifestAdmin P m.manifest then
      some p.communityId
    else none
  | _ => none

def created? (s : AppState) (i : Env × RpcCall) : Option String :=
  match i.2 with
  | .communityCreate p =>
    match (s.communityCreate P i.1 p).2 with
    | .ok (.community info) => some info.id
    | _ => none
  | _ => none

end AppState

/-! ## Runs -/

/-- A node with the communities of its table whose manifest verified before the run or was created
in it. -/
structure Tracked where
  app : AppState
  ids : List String

namespace Tracked

def start (s : AppState) : Tracked :=
  ⟨s, s.communities.keys.filter fun c => (s.communities.lookup c).any fun m => m.verify P⟩

def step (n : Tracked) (i : Env × RpcCall) : Tracked :=
  let s := rpcStep P n.app i
  ⟨s, ((n.app.created? P i).toList ++ n.ids).filter fun c => decide (c ∈ s.communities)⟩

def Verifiable (n : Tracked) : Prop :=
  ∀ c ∈ n.ids, ∃ m, n.app.communities.lookup c = some m ∧ m.verify P = true

/-- A tracked manifest that the call signs again has the key of the node. -/
def ResignsOwn (n : Tracked) (i : Env × RpcCall) : Prop :=
  ∀ c ∈ n.ids, n.app.resigned? P i.2 = some c →
    communityPk? n.app.toTables c = some (n.app.ownPk P)

end Tracked

/-! ## What a call does to the table -/

/-- The new manifest replaces one with the same key and is signed by the node. -/
structure Resigns (s : AppState) (c : String) (s' : AppState) (old new : SignedManifest) :
    Prop where
  known : s.communities.lookup c = some old
  communities : s'.communities = s.communities.insert c new
  publicKey : new.manifest.publicKey = old.manifest.publicKey
  signed : new = new.manifest.sign P s.signingKey

inductive TableEffect (s : AppState) (i : Env × RpcCall) (s' : AppState) : Prop
  | kept (hresigned : s.resigned? P i.2 = none) (hcreated : s.created? P i = none)
      (h : s'.communities = s.communities)
  | created {m : CommunityManifest} (hresigned : s.resigned? P i.2 = none)
      (hcreated : s.created? P i = some m.id.text) (hpk : m.publicKey = s.ownPk P)
      (h : s'.communities = s.communities.insert m.id.text (m.sign P s.signingKey))
  | joined {c : String} {m : SignedManifest} (hresigned : s.resigned? P i.2 = none)
      (hcreated : s.created? P i = none) (hnew : c ∉ s.communities)
      (h : s'.communities = s.communities.insert c m)
  | removed (c : String) (hresigned : s.resigned? P i.2 = none) (hcreated : s.created? P i = none)
      (h : ∀ x, s'.communities.lookup x = if x = c then none else s.communities.lookup x)
  | resigned {c : String} {old new : SignedManifest} (hresigned : s.resigned? P i.2 = some c)
      (hcreated : s.created? P i = none) (h : Resigns P s c s' old new)

variable {P}

theorem verify_sign_iff (hP : P.Lawful) (hone : P.SignsForOneKey) (m : CommunityManifest)
    (sk : Key) : (m.sign P sk).verify P = true ↔ m.publicKey = P.verifyingKey sk := by
  unfold SignedManifest.verify CommunityManifest.sign Prims.verifyBytes
  dsimp only
  rw [tryIntoArray_toBytes (by decide), Bool.and_eq_true]
  constructor
  · exact fun h => hone sk _ _ h.2
  · intro h
    rw [h]
    exact ⟨hP.vkValid_verifyingKey sk, hP.verify_sign sk _⟩

/-- A manifest that is signed again verifies exactly if the community has the key of the node. -/
theorem Resigns.verify_iff (hP : P.Lawful) (hone : P.SignsForOneKey) {s s' : AppState} {c : String}
    {old new : SignedManifest} (h : Resigns P s c s' old new) :
    new.verify P = true ↔ communityPk? s.toTables c = some (s.ownPk P) := by
  rw [h.signed, verify_sign_iff hP hone, h.publicKey, communityPk?, h.known, Option.map_some,
    Option.some.injEq]
  rfl

/-! ### The calls one by one -/

variable {s : AppState} {env : Env}

theorem communities_storeCreated {t : AppState} (hkey : t.signingKey = s.signingKey)
    (hcommunities : t.communities = s.communities) (p : CreateCommunityParams) (fp : Key) :
    (t.storeCreated P env p fp).communities =
      s.communities.insert (s.newManifest P env p).id.text
        ((s.newManifest P env p).sign P s.signingKey) := by
  have hmanifest : t.newManifest P env p = s.newManifest P env p := by
    unfold newManifest ownUserId ownPk
    rw [hkey]
  unfold storeCreated putPassword
  dsimp only
  rw [hmanifest, hkey, ← hcommunities]
  cases p.hostingPassword <;> rfl

theorem tableEffect_communityCreate (p : CreateCommunityParams) :
    TableEffect P s (env, .communityCreate p) (s.communityCreate P env p).1 := by
  rcases communityCreate_cases (P := P) env s p with ⟨e, h⟩ | ⟨-, t, fp, ht, h⟩
  · have hcreated : s.created? P (env, .communityCreate p) = none := by
      unfold created?
      dsimp only
      rw [h]
    rw [h]
    exact .kept rfl hcreated rfl
  · have hcreated : s.created? P (env, .communityCreate p) =
        some (s.newManifest P env p).id.text := by
      unfold created?
      dsimp only
      rw [h]
      rfl
    rw [h]
    refine .created rfl hcreated rfl ?_
    rcases ht with rfl | rfl <;> exact communities_storeCreated rfl rfl p fp

theorem tableEffect_communityJoin (p : JoinCommunityParams) :
    TableEffect P s (env, .communityJoin p) (s.communityJoin P env p).1 := by
  rcases communityJoin_cases (P := P) env s p with ⟨e, heq⟩ | ⟨invite, -, heq⟩
  · rw [heq]
    exact .kept rfl rfl rfl
  · rw [heq]
    rcases joinInvite_cases (P := P) env s invite p.hostingPassword with
      ⟨e, heq⟩ | ⟨ulid, stored, hchecked, rfl, ⟨e, -, heq⟩ | ⟨fp, t, r, -, ht, heq⟩⟩
    · rw [heq]
      exact .kept rfl rfl rfl
    · rw [heq]
      exact .joined rfl rfl (not_mem_of_inviteRefusal hchecked.refusal)
        (communities_storeInvited (P := P) ..)
    · rw [heq]
      rcases ht with ⟨-, rfl⟩ | ⟨-, rfl⟩ <;>
        exact .joined rfl rfl (not_mem_of_inviteRefusal hchecked.refusal)
          (communities_storeInvited (P := P) ..)

theorem tableEffect_channelCreate (p : CreateChannelParams) :
    TableEffect P s (env, .channelCreate p) (s.channelCreate P env p).1 := by
  unfold channelCreate
  split
  · next hname => exact .kept (if_neg fun h => by simp [h.1] at hname) rfl rfl
  · next hname =>
    split
    · next hknown => exact .kept (if_neg fun h => by simp [hknown] at h) rfl rfl
    · next hid => exact .kept (if_neg fun h => by simp [hid] at h) rfl rfl
    · next old ulid hknown hid =>
      exact .resigned (if_pos ⟨by simpa using hname, by rw [hknown]; rfl, by rw [hid]; rfl⟩) rfl
        ⟨hknown, rfl, rfl, rfl⟩

theorem tableEffect_channelDelete (p : ChannelParams) :
    TableEffect P s (env, .channelDelete p) (s.channelDelete P p).1 := by
  unfold channelDelete
  split
  · next hseed => exact .kept (if_neg fun h => by simp [hseed] at h) rfl rfl
  · next hchannel => exact .kept (if_neg fun h => by simp [hchannel] at h) rfl rfl
  · next ch hseed hchannel =>
    dsimp only
    split
    · next hknown =>
      have hgone : s.communities.lookup p.communityId = none := hknown
      exact .kept (if_neg fun h => by simp [hgone] at h) rfl rfl
    · next hid => exact .kept (if_neg fun h => by simp [hid] at h) rfl rfl
    · next old ulid hknown hid =>
      have hold : s.communities.lookup p.communityId = some old := hknown
      exact .resigned
        (if_pos ⟨hseed, by rw [hchannel]; rfl, by rw [hold]; rfl, by rw [hid]; rfl⟩) rfl
        ⟨hold, rfl, rfl, rfl⟩

theorem tableEffect_channelReorder (p : ReorderChannelsParams) :
    TableEffect P s (env, .channelReorder p) (s.channelReorder P p).1 := by
  unfold channelReorder
  split
  · next hrefusal => exact .kept (if_neg fun h => by rw [hrefusal] at h; cases h.1) rfl rfl
  · next horder => exact .kept (if_neg fun h => by rw [horder] at h; cases h.2.1) rfl rfl
  · next hknown => exact .kept (if_neg fun h => by simp [hknown] at h) rfl rfl
  · next order old hrefusal horder hknown =>
    exact .resigned (if_pos ⟨hrefusal, by rw [horder]; rfl, by rw [hknown]; rfl⟩) rfl
      ⟨hknown, rfl, rfl, rfl⟩

theorem tableEffect_communityUpdateManifest (p : UpdateManifestParams) :
    TableEffect P s (env, .communityUpdateManifest p) (s.communityUpdateManifest P p).1 := by
  unfold communityUpdateManifest
  split
  · next hrefusal => exact .kept (if_neg fun h => by rw [hrefusal] at h; cases h.1) rfl rfl
  · next hknown => exact .kept (if_neg fun h => by simp [hknown] at h) rfl rfl
  · next old hrefusal hknown =>
    split
    · next hadmin =>
      refine .kept (if_neg fun h => ?_) rfl rfl
      rw [hknown, Option.any_some] at h
      rw [h.2] at hadmin
      cases hadmin
    · next hadmin =>
      have hresigned : s.resigned? P (.communityUpdateManifest p) = some p.communityId :=
        if_pos ⟨hrefusal, by rw [hknown]; simpa using hadmin⟩
      -- the table is written before the fingerprint is asked for
      dsimp only
      split
      · split <;> exact .resigned hresigned rfl ⟨hknown, rfl, rfl, rfl⟩
      · exact .resigned hresigned rfl ⟨hknown, rfl, rfl, rfl⟩

theorem tableEffect_communityDelete (c : String) :
    TableEffect P s (env, .communityDelete c) (s.communityDelete P c).1 := by
  unfold communityDelete
  split
  · exact .kept rfl rfl rfl
  · split
    · exact .kept rfl rfl rfl
    · refine .removed c rfl rfl fun x => ?_
      show ((s.communities.insert c _).erase c).lookup x = _
      rw [Dict.lookup_erase_eq, Dict.lookup_insert_eq]
      split <;> rfl

theorem tableEffect_communityLeave (c : String) :
    TableEffect P s (env, .communityLeave c) (s.communityLeave P env c).1 := by
  unfold communityLeave
  split
  · exact .removed c rfl rfl fun x => Dict.lookup_erase_eq s.communities c x
  · exact .kept rfl rfl rfl

/-! ### The calls that leave the table alone -/

theorem communities_channelRotateKey (p : ChannelParams) :
    (s.channelRotateKey P env p).1.communities = s.communities := by
  unfold channelRotateKey
  split
  · rfl
  · rfl
  · unfold storeRotation
    dsimp only
    split <;> rfl

theorem communities_messageSend (p : SendMessageParams) :
    (s.messageSend P env p).1.communities = s.communities := by
  unfold messageSend
  split
  · rfl
  · split <;> rfl

theorem communities_messageEdit (p : EditMessageParams) :
    (s.messageEdit P env p).1.communities = s.communities := by
  have hedit : ∀ key, (s.editOwn P env p key).1.communities = s.communities := by
    intro key
    unfold editOwn
    dsimp only
    split <;> rfl
  unfold messageEdit
  split
  · rfl
  · split
    · rfl
    · rfl
    · rfl
    · exact hedit _

theorem communities_messageDelete (p : DeleteMessageParams) :
    (s.messageDelete P env p).1.communities = s.communities := by
  unfold messageDelete
  split
  · rfl
  · dsimp only
    split <;> rfl

theorem communities_reaction (isAdd : Bool) (p : ReactionParams) :
    (s.reaction P isAdd env p).1.communities = s.communities := by
  unfold reaction
  split <;> rfl

theorem communities_memberKick (p : KickBanParams) :
    (s.memberKick P env p).1.communities = s.communities := by
  unfold memberKick
  split <;> rfl

theorem communities_memberBan (p : KickBanParams) :
    (s.memberBan P env p).1.communities = s.communities := by
  unfold memberBan
  split <;> rfl

theorem communities_memberUpdateRole (p : UpdateRoleParams) :
    (s.memberUpdateRole P env p).1.communities = s.communities := by
  unfold memberUpdateRole
  split
  · rfl
  · rfl
  · split <;> rfl

theorem communities_identitySetDisplayName (name : String) :
    (s.identitySetDisplayName P name).1.communities = s.communities := by
  unfold identitySetDisplayName
  split <;> rfl

theorem tableEffect_rpcStep (s : AppState) (i : Env × RpcCall) :
    TableEffect P s i (rpcStep P s i) := by
  obtain ⟨env, call⟩ := i
  cases call with
  | communityCreate p => exact tableEffect_communityCreate p
  | communityJoin p => exact tableEffect_communityJoin p
  | communityLeave c => exact tableEffect_communityLeave c
  | communityDelete c => exact tableEffect_communityDelete c
  | communityUpdateManifest p => exact tableEffect_communityUpdateManifest p
  | channelCreate p => exact tableEffect_channelCreate p
  | channelDelete p => exact tableEffect_channelDelete p
  | channelReorder p => exact tableEffect_channelReorder p
  | channelRotateKey p => exact .kept rfl rfl (communities_channelRotateKey p)
  | messageSend p => exact .kept rfl rfl (communities_messageSend p)
  | messageEdit p => exact .kept rfl rfl (communities_messageEdit p)
  | messageDelete p => exact .kept rfl rfl (communities_messageDelete p)
  | reactionAdd p => exact .kept rfl rfl (communities_reaction true p)
  | reactionRemove p => exact .kept rfl rfl (communities_reaction false p)
  | memberKick p => exact .kept rfl rfl (communities_memberKick p)
  | memberBan p => exact .kept rfl rfl (communities_memberBan p)
  | memberUpdateRole p => exact .kept rfl rfl (communities_memberUpdateRole p)
  | presenceHeartbeat status => exact .kept rfl rfl rfl
  | identitySetDisplayName name => exact .kept rfl rfl (communities_identitySetDisplayName name)

/-! ## Runs -/

namespace Tracked

variable {n : Tracked} {i : Env × RpcCall}

theorem verifiable_start (s : AppState) : (start P s).Verifiable P := by
  intro c hc
  have hverifies := (List.mem_filter.mp hc).2
  show ∃ m, s.communities.lookup c = some m ∧ _
  cases hm : s.communities.lookup c with
  | none =>
    rw [hm] at hverifies
    cases hverifies
  | some m =>
    rw [hm] at hverifies
    exact ⟨m, rfl, hverifies⟩

theorem mem_step {c : String} : c ∈ (step P n i).ids ↔
    (n.app.created? P i = some c ∨ c ∈ n.ids) ∧ c ∈ (rpcStep P n.app i).communities := by
  unfold step
  simp only [List.mem_filter, List.mem_append, Option.mem_toList,
    decide_eq_true_iff]

/-- Where the table keeps every tracked manifest that it keeps, all of them still verify. -/
theorem verifiable_step_of_kept (h : n.Verifiable P) (hcreated : n.app.created? P i = none)
    (hkept : ∀ c ∈ n.ids, c ∈ (rpcStep P n.app i).communities →
      (rpcStep P n.app i).communities.lookup c = n.app.communities.lookup c) :
    (step P n i).Verifiable P := by
  intro c hc
  obtain ⟨hold, hmem⟩ := mem_step.mp hc
  rw [hcreated] at hold
  have hids : c ∈ n.ids := hold.resolve_left nofun
  obtain ⟨m, hm, hverifies⟩ := h c hids
  exact ⟨m, (hkept c hids hmem).trans hm, hverifies⟩

theorem verifiable_step_iff (hP : P.Lawful) (hone : P.SignsForOneKey) (n : Tracked)
    (i : Env × RpcCall) (h : n.Verifiable P) : (step P n i).Verifiable P ↔ n.ResignsOwn P i := by
  have hnone : n.app.resigned? P i.2 = none → n.ResignsOwn P i := by
    intro hnone c _ hsome
    rw [hnone] at hsome
    cases hsome
  have heffect := tableEffect_rpcStep (P := P) n.app i
  cases heffect with
  | kept hresigned hcreated htable =>
    refine iff_of_true (verifiable_step_of_kept h hcreated fun c _ _ => ?_) (hnone hresigned)
    rw [htable]
  | @created m hresigned hcreated hpk htable =>
    refine iff_of_true (fun c hc => ?_) (hnone hresigned)
    show ∃ m, (rpcStep P n.app i).communities.lookup c = some m ∧ _
    rw [htable, Dict.lookup_insert_eq]
    split
    · exact ⟨_, rfl, (verify_sign_iff hP hone m n.app.signingKey).mpr hpk⟩
    · next hx =>
      rcases (mem_step.mp hc).1 with hid | hids
      · exact absurd (Option.some.inj (hid.symm.trans hcreated)) hx
      · exact h c hids
  | joined hresigned hcreated hnew htable =>
    refine iff_of_true (verifiable_step_of_kept h hcreated fun c hc _ => ?_) (hnone hresigned)
    -- a tracked community is in the table, so it is not the one that is joined
    obtain ⟨m, hm, -⟩ := h c hc
    rw [htable, AList.lookup_insert_ne]
    rintro rfl
    exact hnew (AList.lookup_isSome.mp (Option.isSome_of_eq_some hm))
  | removed x hresigned hcreated htable =>
    refine iff_of_true (verifiable_step_of_kept h hcreated fun c _ hmem => ?_) (hnone hresigned)
    have hsome := AList.lookup_isSome.mpr hmem
    rw [htable] at hsome ⊢
    split at hsome
    · cases hsome
    · next hx => rw [if_neg hx]
  | @resigned x old new hresigned hcreated htable =>
    have hverify := htable.verify_iff hP hone
    have hnew : (rpcStep P n.app i).communities.lookup x = some new := by
      rw [htable.communities, AList.lookup_insert]
    constructor
    · intro hstep c hc hsome
      obtain rfl : x = c := Option.some.inj (hresigned.symm.trans hsome)
      obtain ⟨m, hm, hverifies⟩ := hstep x
        (mem_step.mpr ⟨.inr hc, AList.lookup_isSome.mp (Option.isSome_of_eq_some hnew)⟩)
      cases hnew.symm.trans hm
      exact hverify.mp hverifies
    · intro hown c hc
      have hids : c ∈ n.ids := by
        have hold := (mem_step.mp hc).1
        rw [hcreated] at hold
        exact hold.resolve_left nofun
      by_cases hx : c = x
      · subst hx
        exact ⟨new, hnew, hverify.mpr (hown c hids hresigned)⟩
      · obtain ⟨m, hm, hverifies⟩ := h c hids
        refine ⟨m, ?_, hverifies⟩
        show (rpcStep P n.app i).communities.lookup c = _
        rw [htable.communities, AList.lookup_insert_ne hx, hm]

end Tracked

/-- In a run of calls the manifests that verified before it or were created in it verify throughout,
exactly if none of them is signed again on a node that does not have the key of its community. -/
theorem manifests_verifiable_iff (hP : P.Lawful) (hone : P.SignsForOneKey) (s : AppState)
    (inputs : List (Env × RpcCall)) :
    (∀ calls, calls <+: inputs →
        (run (Tracked.step P) (Tracked.start P s) calls).Verifiable P) ↔
      Along (Tracked.step P) (fun n i => n.ResignsOwn P i) (Tracked.start P s) inputs :=
  forall_prefix_iff_along (I := fun n => n.Verifiable P) (H := fun _ _ => True)
    (fun n i _ => Tracked.verifiable_step_iff hP hone n i) (Tracked.verifiable_start s)
    (along_of_forall fun _ _ _ => trivial)

end

/-! ## Evaluations -/

namespace Sample

theorem signsForOneKey (events : List NetworkEvent) (contents : List MessageContent) :
    (prims events contents).SignsForOneKey := fun _ _ _ h => eq_of_verify h

def addChannel (communityId : String) : Env × RpcCall :=
  (env, .channelCreate ⟨communityId, "general", .text⟩)

end Sample

open Sample in
/-- The creator of a community creates a channel. -/
theorem manifests_verifiable_created :
    (run (Tracked.step (prims [] [])) (Tracked.start (prims [] []) (app 30))
        [(env, .communityCreate (createParams "name")), addChannel createdId]).ids = [createdId] ∧
      ∀ calls, calls <+: [(env, .communityCreate (createParams "name")), addChannel createdId] →
        (run (Tracked.step (prims [] [])) (Tracked.start (prims [] []) (app 30))
          calls).Verifiable (prims [] []) := by
  refine ⟨by decide +kernel, (manifests_verifiable_iff (prims_lawful [] []) (signsForOneKey [] [])
    (app 30) _).mpr ⟨fun c _ hsome => (by cases hsome), fun c hc _ => ?_, trivial⟩⟩
  have hids : (Tracked.step (prims [] []) (Tracked.start (prims [] []) (app 30))
      (env, .communityCreate (createParams "name"))).ids = [createdId] := by decide +kernel
  rw [hids, List.mem_singleton] at hc
  rw [hc]
  decide +kernel

open Sample in
/-- A plain member creates a channel in the community of another node. -/
theorem member_breaks_manifest :
    (Tracked.start (prims [] []) (withCommunity (app 30) 20)).ids = [community.text] ∧
      ¬ (run (Tracked.step (prims [] [])) (Tracked.start (prims [] []) (withCommunity (app 30) 20))
        [addChannel community.text]).Verifiable (prims [] []) := by
  refine ⟨by decide +kernel, fun h => ?_⟩
  obtain ⟨m, hm, hverifies⟩ := h community.text (by decide +kernel)
  have hbroken : ((rpcStep (prims [] []) (withCommunity (app 30) 20)
      (addChannel community.text)).communities.lookup community.text).any
        (fun m => m.verify (prims [] [])) = false := by decide +kernel
  rw [show (rpcStep (prims [] []) (withCommunity (app 30) 20)
    (addChannel community.text)).communities.lookup community.text = some m from hm,
    Option.any_some, hverifies] at hbroken
  cases hbroken

end BitCord
