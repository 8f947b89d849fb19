import BitCord.Membership
import BitCord.Sample

/-!
# Roles over the network

A role is conferred by a role update, by a record that announces a member, by a record in a
fetched manifest, or by the list of admins of a manifest. Role updates are checked against the
admins of the table. A record that announces a member is signed by the member itself, and the
records in a fetched manifest are not checked at all (`role_safety`).
-/

namespace BitCord

open Lib Lib.Run AppState

/-! ## Roles and authority -/

def Privileged (role : Role) : Prop := role = .admin ∨ role = .moderator

def HoldsRole (s : AppState) (c u : String) (role : Role) : Prop :=
  ∃ r, recordIn s.members c u = some r ∧ role ∈ r.roles

/-- The key is the key of the creator, or of a member with the role of an admin. -/
def HasAuthority (s : AppState) (c : String) (pk k : Key) : Prop :=
  k = pk ∨ ∃ a ∈ memberList s.toTables c, a.isAdmin = true ∧ a.publicKey = k

variable {r : MembershipRecord} {s : AppState}

section

variable (P : Prims)

/-- The key `k` signed the record. -/
def RecordSignedBy (k : Key) (r : MembershipRecord) : Prop :=
  P.verifyBytes k (membershipBytes P r.userId r.communityId r.displayName r.joinedAt r.roles)
    r.signature = true

/-- The event confers the role on the user by a part of it that the key `k` signed. -/
inductive Confers (s : AppState) (c u : String) (role : Role) (k : Key) : SwarmEvent → Prop
  | roleUpdate {topic : String} {data : Bytes} {source : Option String}
      {payload : MemberRoleUpdatedPayload} :
      P.decodeEvent data = some (.memberRoleUpdated payload) → payload.communityId.text = c →
      payload.userId.text = u → payload.newRole = role →
      P.verifyBytes k (roleUpdateBytes P payload.userId payload.communityId payload.newRole)
        payload.signature = true →
      Confers s c u role k (.messageReceived topic data source)
  | joined {topic : String} {data : Bytes} {source : Option String} {r : MembershipRecord} :
      P.decodeEvent data = some (.memberJoined r) → r.communityId.text = c → r.userId.text = u →
      role ∈ r.roles → RecordSignedBy P k r →
      Confers s c u role k (.messageReceived topic data source)
  | listed {m : ManifestReceived} {r : MembershipRecord} :
      m.communityId = c → r ∈ m.members → r.userId.text = u → role ∈ r.roles →
      RecordSignedBy P k r → Confers s c u role k (.manifestReceived m)
  | adminId {m : ManifestReceived} :
      m.communityId = c → u = s.peerId P → role = .admin →
      s.ownUserId P ∈ m.manifest.manifest.adminIds →
      P.verifyBytes k (P.encodeCommunityManifest m.manifest.manifest) m.manifest.signature = true →
      Confers s c u role k (.manifestReceived m)

/-- The node handles an event of the network. -/
def eventStep (s : AppState) (i : Env × SwarmEvent) : AppState := s.processEvent P i.1 i.2

/-- Whoever other than the creator gains a privileged role in the run was given it by someone
with authority at that moment. -/
def RoleSafe (pk : Key) (c : String) (s : AppState) (is : List (Env × SwarmEvent)) : Prop :=
  ∀ u role, Privileged role → u ≠ (P.userIdOf pk).text →
    (∀ role', Privileged role' → ¬ HoldsRole s c u role') →
    HoldsRole (run (eventStep P) s is) c u role →
    ∃ pre i post k, is = pre ++ i :: post ∧ HasAuthority (run (eventStep P) s pre) c pk k ∧
      Confers P (run (eventStep P) s pre) c u role k i.2

/-! ## The condition on the events -/

def Gains (s : AppState) (c : String) (pk : Key) (u : String) (role : Role) : Prop :=
  Privileged role ∧ u ≠ (P.userIdOf pk).text ∧ ¬ HoldsRole s c u role

/-- The condition on one event: a record by which a user gains a privileged role is signed by a
key with authority, and so is a manifest by which this node becomes an admin. -/
structure RolesJustified (pk : Key) (c : String) (s : AppState) (i : Env × SwarmEvent) : Prop where
  joined : ∀ topic data source r, i.2 = .messageReceived topic data source →
    P.decodeEvent data = some (.memberJoined r) → JoinAccepted P s r → r.communityId.text = c →
    ∀ role ∈ r.roles, Gains P s c pk r.userId.text role → HasAuthority s c pk r.publicKey
  listed : ∀ m, i.2 = .manifestReceived m → m.manifest.verify P = true → m.communityId = c →
    ∀ r ∈ m.members, ∀ role ∈ r.roles, Gains P s c pk r.userId.text role →
      ∃ k, HasAuthority s c pk k ∧ RecordSignedBy P k r
  adminId : ∀ m, i.2 = .manifestReceived m → m.manifest.verify P = true → m.communityId = c →
    s.ownUserId P ∈ m.manifest.manifest.adminIds → Gains P s c pk (s.peerId P) .admin →
    HasAuthority s c pk m.communityPk

variable {P}

theorem recordSignedBy_of_accepted (h : JoinAccepted P s r) : RecordSignedBy P r.publicKey r := by
  have hself := h.1
  unfold MembershipRecord.selfSigned at hself
  rw [Bool.and_eq_true] at hself
  exact hself.2

theorem verifyBytes_of_verify {signed : SignedManifest} (h : signed.verify P = true) :
    P.verifyBytes signed.manifest.publicKey (P.encodeCommunityManifest signed.manifest)
      signed.signature = true := by
  unfold SignedManifest.verify at h
  rw [Bool.and_eq_true] at h
  exact h.2

theorem verifyBytes_of_signedBy {msg sig : Bytes} (h : r.signedBy P msg sig = true) :
    P.verifyBytes r.publicKey msg sig = true := by
  unfold MembershipRecord.signedBy at h
  rw [Bool.and_eq_true] at h
  exact h.2

theorem confers_of_gained {pk : Key} {c u : String} {role : Role} {i : Env × SwarmEvent}
    (hj : RolesJustified P pk c s i) (hg : Gains P s c pk u role)
    (h : HoldsRole (eventStep P s i) c u role) :
    ∃ k, HasAuthority s c pk k ∧ Confers P s c u role k i.2 := by
  obtain ⟨r, hr, hrole⟩ := h
  obtain ⟨env, e⟩ := i
  cases origin_processEvent hr with
  | kept hold => exact absurd ⟨r, hold, hrole⟩ hg.2.2
  | joined hd hacc hc hu =>
    subst hu
    exact ⟨r.publicKey, hj.joined _ _ _ r rfl hd hacc hc role hrole hg,
      .joined hd hc rfl hrole (recordSignedBy_of_accepted hacc)⟩
  | roleUpdated hd hsig hc hu hold hr' =>
    subst hr'
    have hnew : role = _ := List.mem_singleton.mp hrole
    obtain ⟨a, ha, hadm, hver⟩ := hsig
    rw [hc] at ha
    exact ⟨a.publicKey, .inr ⟨a, ha, hadm, rfl⟩,
      .roleUpdate hd hc hu hnew.symm (verifyBytes_of_signedBy hver)⟩
  | received hv hc hmem hu =>
    subst hu
    obtain ⟨k, hk, hsig⟩ := hj.listed _ rfl hv hc r hmem role hrole hg
    exact ⟨k, hk, .listed hc hmem rfl hrole hsig⟩
  | announced hv hc hu hex hban hr' =>
    next m existing =>
    subst hr'
    have hann : role ∈ s.announcedRoles P m existing := hrole
    unfold announcedRoles at hann
    split at hann
    · -- the manifest lists this node among the admins
      next hadm =>
      have hmem : s.ownUserId P ∈ m.manifest.manifest.adminIds := by simpa using hadm
      have hr : role = .admin := List.mem_singleton.mp hann
      subst hr hu
      exact ⟨m.communityPk, hj.adminId m rfl hv hc hmem hg,
        .adminId hc rfl rfl hmem (verifyBytes_of_verify hv)⟩
    · -- the node repeats the roles that it had, or that the manifest gave it
      rcases hex with hold | ⟨hmem, hu'⟩
      · exact absurd ⟨existing, hold, hann⟩ hg.2.2
      · subst hu'
        obtain ⟨k, hk, hsig⟩ := hj.listed m rfl hv hc existing hmem role hann hg
        exact ⟨k, hk, .listed hc hmem rfl hann hsig⟩

/-- In a run of events that are all justified, a user other than the creator gains a privileged
role only by an event that someone with authority signed. -/
theorem role_safety {pk : Key} {c : String} {s : AppState} {is : List (Env × SwarmEvent)}
    (h : Along (eventStep P) (RolesJustified P pk c) s is) : RoleSafe P pk c s is := by
  intro u role hpriv hu hnone hholds
  obtain ⟨pre, i, post, rfl, hbefore, hafter, hj⟩ :=
    h.exists_crossing (P := fun t => HoldsRole t c u role) (hnone role hpriv) hholds
  obtain ⟨k, hk, hconf⟩ := confers_of_gained hj ⟨hpriv, hu, hbefore⟩ hafter
  exact ⟨pre, i, post, k, rfl, hk, hconf⟩

end

/-! ## Evaluations -/

open Sample in
/-- A user whom nobody knows announces itself as an admin and becomes one. -/
theorem self_announced_admin :
    ¬ RoleSafe (prims [.memberJoined (record 20 [.admin])] []) 11 community.text (app 30)
      [gossipEvent 0] := by
  intro h
  obtain ⟨pre, i, post, k, hsplit, hk, hconf⟩ := h (record 20 [.admin]).userId.text .admin
    (.inl rfl) (by decide +kernel) (by rintro role' - ⟨r, hr, -⟩; cases hr)
    ⟨record 20 [.admin], by decide +kernel, by decide +kernel⟩
  cases pre with
  | cons j pre => simp at hsplit
  | nil =>
    -- nobody has authority but the creator, and the creator signed nothing
    have hk' : k = 11 := by
      rcases hk with rfl | ⟨a, ha, -⟩
      · rfl
      · cases ha
    obtain ⟨rfl, rfl⟩ : gossipEvent 0 = i ∧ [] = post := by simpa using hsplit
    subst hk'
    cases hconf with
    | roleUpdate hd => cases Option.some.inj hd
    | joined hd hc hu hrole hsig =>
      have hr : record 20 [.admin] = _ := NetworkEvent.memberJoined.inj (Option.some.inj hd)
      subst hr
      exact absurd hsig (by unfold RecordSignedBy; decide +kernel)

namespace Sample

def promotion : MemberRoleUpdatedPayload :=
  let user := (record 20 []).userId
  ⟨user, community, .moderator, 0,
    toBytes ((prims [] []).sign 10 (roleUpdateBytes (prims [] []) user community .moderator))⟩

end Sample

open Sample in
theorem role_safety_promotion :
    let P := prims [.memberRoleUpdated promotion] []
    let s := withMembers (app 30) [record 10 [.admin], record 20 [.member]]
    HoldsRole (run (eventStep P) s [gossipEvent 0]) community.text (record 20 []).userId.text
        .moderator ∧
      RoleSafe P 11 community.text s [gossipEvent 0] := by
  refine ⟨⟨{ record 20 [.member] with roles := [.moderator] }, by decide +kernel,
    by decide +kernel⟩, role_safety ⟨⟨?_, ?_, ?_⟩, trivial⟩⟩
  · rintro topic data source r he hd
    cases he
    cases Option.some.inj hd
  · rintro m he
    cases he
  · rintro m he
    cases he

end BitCord
