import BitCord.Membership
import BitCord.Sample

/-!
# The creator of a community

The creator is the member whose key is the key of the community. `member_update_role` refuses to
change its role, because no other node can wrap channel keys. The two calls that remove a member
and the two gossip events that remove a member or change a role have no such guard
(`creator_kept_iff`).
-/

namespace BitCord

open Lib Lib.Run AppState

variable {s s' : AppState} {c c₀ u₀ msg topic : String} {test : MembershipRecord → Bool} {pk : Key}
  {n : Node} {data : Bytes} {source : Option String}

/-! ## What the checks accept -/

section

variable (P : Prims)

/-- The user of the node has a role in the community that passes the test. -/
def Allowed (s : AppState) (c : String) (test : MembershipRecord → Bool) : Prop :=
  ∃ caller, recordIn s.members c (s.peerId P) = some caller ∧ test caller = true

/-- `handle_member_role_updated` accepts the signature: an admin. -/
def RoleAccepted (s : AppState) (payload : MemberRoleUpdatedPayload) : Prop :=
  ∃ r ∈ memberList s.toTables payload.communityId.text, r.isAdmin = true ∧
    r.signedBy P (roleUpdateBytes P payload.userId payload.communityId payload.newRole)
      payload.signature = true

/-- The event processor hands a message on the topic to the handler of communities. -/
def Handled (s : AppState) (topic : String) : Prop :=
  s.blocked = false ∧ isChannelTopic topic = false ∧ isCommunityTopic topic = true

variable {P}

theorem callerRefusal_eq_none_iff : s.callerRefusal P c test msg = none ↔ Allowed P s c test := by
  unfold callerRefusal Allowed recordIn
  cases hlist : s.members.lookup c with
  | none => simp
  | some list =>
    cases hcaller : list.lookup (s.peerId P) with
    | none => simp [hcaller]
    | some caller => simp [hcaller]

/-! ## The table of members after each operation -/

/-- The table of members changes when the operation is accepted and the member is there. -/
structure MemberChange (accepted : Prop) (c u : String) (change : MemberTable → MemberTable)
    (s s' : AppState) : Prop where
  communities : s'.communities = s.communities
  done : accepted → recordIn s.members c u ≠ none → s'.members = change s.members
  refused : ¬ accepted ∨ recordIn s.members c u = none → s'.members = s.members

abbrev Removal (accepted : Prop) (c u : String) :=
  MemberChange accepted c u fun t => t.adjust c fun list => list.erase u

abbrev RoleChange (accepted : Prop) (c u : String) (role : Role) :=
  MemberChange accepted c u fun t => t.adjust c fun list =>
    Dict.adjust u (fun r => { r with roles := [role] }) list

section

variable {accepted : Prop} {c u : String} {change : MemberTable → MemberTable} {s s' : AppState}

theorem MemberChange.made {r : MembershipRecord} (hacc : accepted)
    (hr : member? s.toTables c u = some r) (hcommunities : s'.communities = s.communities)
    (hmembers : s'.members = change s.members) : MemberChange accepted c u change s s' := by
  refine ⟨hcommunities, fun _ _ => hmembers, fun hnot => ?_⟩
  rcases hnot with hnot | hgone
  · exact absurd hacc hnot
  · cases hr.symm.trans hgone

theorem MemberChange.ignored (h : ¬ accepted ∨ recordIn s.members c u = none) :
    MemberChange accepted c u change s s := by
  refine ⟨rfl, fun hacc hsome => ?_, fun _ => rfl⟩
  rcases h with hnot | hgone
  · exact absurd hacc hnot
  · exact absurd hgone hsome

end

/-- A call is refused when the user of the node lacks the role. -/
theorem not_allowed_of_refusal {e : RpcError} (h : s.callerRefusal P c test msg = some e) :
    ¬ Allowed P s c test := by
  intro hall
  rw [callerRefusal_eq_none_iff.mpr hall] at h
  cases h

variable (env : Env)

theorem memberKick_removal (s : AppState) (p : KickBanParams) :
    Removal (Allowed P s p.communityId MembershipRecord.isPrivileged) p.communityId p.userId s
      (s.memberKick P env p).1 := by
  unfold memberKick
  split
  · next hrefused => exact .ignored (.inl (not_allowed_of_refusal hrefused))
  · next hmember => exact .ignored (.inr hmember)
  · next hnone hmember => exact .made (callerRefusal_eq_none_iff.mp hnone) hmember rfl rfl

theorem memberBan_removal (s : AppState) (p : KickBanParams) :
    Removal (Allowed P s p.communityId MembershipRecord.isAdmin) p.communityId p.userId s
      (s.memberBan P env p).1 := by
  unfold memberBan
  split
  · next hrefused => exact .ignored (.inl (not_allowed_of_refusal hrefused))
  · next hmember => exact .ignored (.inr hmember)
  · next hnone hmember => exact .made (callerRefusal_eq_none_iff.mp hnone) hmember rfl rfl

theorem leftAccepted_iff (s : AppState) (payload : MemberLeftPayload) :
    ((memberList s.toTables payload.communityId.text).any fun r =>
      (decide (r.userId = payload.userId) || r.isPrivileged) &&
        r.signedBy P (memberLeftBytes payload.userId payload.communityId) payload.signature) =
      true ↔ LeftAccepted P s payload := by
  simp [LeftAccepted, List.any_eq_true]

theorem handleMemberLeft_removal (s : AppState) (payload : MemberLeftPayload) :
    Removal (LeftAccepted P s payload) payload.communityId.text payload.userId.text s
      (s.handleMemberLeft P payload) := by
  have hvalid := leftAccepted_iff (P := P) s payload
  unfold handleMemberLeft
  dsimp only
  split
  · next hinvalid => exact .ignored (.inl fun hacc => by simp [hvalid.mpr hacc] at hinvalid)
  · next hok =>
    split
    · next hmember => exact .ignored (.inr hmember)
    · next hmember => exact .made (hvalid.mp (by simpa using hok)) hmember rfl rfl

theorem handleMemberRoleUpdated_roleChange (s : AppState) (payload : MemberRoleUpdatedPayload) :
    RoleChange (RoleAccepted P s payload) payload.communityId.text payload.userId.text
      payload.newRole s (s.handleMemberRoleUpdated P payload) := by
  have hvalid : ((memberList s.toTables payload.communityId.text).any fun r =>
      r.isAdmin && r.signedBy P (roleUpdateBytes P payload.userId payload.communityId
        payload.newRole) payload.signature) = true ↔ RoleAccepted P s payload := by
    simp [RoleAccepted, List.any_eq_true]
  unfold handleMemberRoleUpdated
  dsimp only
  split
  · next hinvalid => exact .ignored (.inl fun hacc => by simp [hvalid.mpr hacc] at hinvalid)
  · next hok =>
    split
    · next hmember => exact .ignored (.inr hmember)
    · next hmember => exact .made (hvalid.mp (by simpa using hok)) hmember rfl rfl

/-- The call that changes a role is refused when the member is the creator. -/
theorem memberUpdateRole_roleChange (s : AppState) (p : UpdateRoleParams) :
    RoleChange (Allowed P s p.communityId MembershipRecord.isAdmin ∧
        ∀ r, recordIn s.members p.communityId p.userId = some r →
          communityPk? s.toTables p.communityId ≠ some r.publicKey)
      p.communityId p.userId p.role s (s.memberUpdateRole P env p).1 := by
  unfold memberUpdateRole
  split
  · next hrefused => exact .ignored (.inl fun hall => not_allowed_of_refusal hrefused hall.1)
  · next hmember => exact .ignored (.inr hmember)
  · next target hnone hmember =>
    split
    · next hcreator =>
      exact .ignored (.inl fun hall => hall.2 target hmember (of_decide_eq_true hcreator))
    · next hother =>
      refine .made ⟨callerRefusal_eq_none_iff.mp hnone, fun r hr hpk => ?_⟩ hmember rfl rfl
      rw [← Option.some.inj (hmember.symm.trans hr)] at hpk
      exact hother (decide_eq_true hpk)

end

/-! ## The creator over one operation -/

/-- The community has the key, and the record of the user has the key and the role of an admin. -/
structure CreatorAdmin (pk : Key) (c v : String) (s : AppState) : Prop where
  community : communityPk? s.toTables c = some pk
  record : ∃ r, recordIn s.members c v = some r ∧ r.publicKey = pk ∧ Role.admin ∈ r.roles

section

variable {pk : Key} {c v : String}

theorem communityPk?_congr (h : s'.communities = s.communities) (c : String) :
    communityPk? s'.toTables c = communityPk? s.toTables c := by
  unfold communityPk?
  rw [h]

theorem CreatorAdmin.congr (h : CreatorAdmin pk c v s)
    (hcommunities : s'.communities = s.communities) (hmembers : s'.members = s.members) :
    CreatorAdmin pk c v s' := by
  refine ⟨?_, ?_⟩
  · rw [communityPk?_congr hcommunities]
    exact h.community
  · rw [hmembers]
    exact h.record

/-- A removal spares the creator unless it is accepted and names it. -/
theorem CreatorAdmin.removal_iff {accepted : Prop}
    (h : CreatorAdmin pk c v s) (hop : Removal accepted c₀ u₀ s s') :
    CreatorAdmin pk c v s' ↔ ¬ (accepted ∧ c₀ = c ∧ u₀ = v) := by
  obtain ⟨r, hr, hpk, hrole⟩ := h.record
  constructor
  · rintro hafter ⟨hacc, rfl, rfl⟩
    obtain ⟨r', hr', -⟩ := hafter.record
    rw [hop.done hacc (by rw [hr]; simp), recordIn_remove, if_pos ⟨rfl, rfl⟩] at hr'
    cases hr'
  · intro hspared
    by_cases hdone : accepted ∧ recordIn s.members c₀ u₀ ≠ none
    · refine ⟨by rw [communityPk?_congr hop.communities]; exact h.community, r, ?_, hpk, hrole⟩
      have hne : ¬ (c = c₀ ∧ v = u₀) := fun heq => hspared ⟨hdone.1, heq.1.symm, heq.2.symm⟩
      rw [hop.done hdone.1 hdone.2, recordIn_remove, if_neg hne]
      exact hr
    · refine h.congr hop.communities (hop.refused ?_)
      by_cases hacc : accepted
      · exact .inr (not_not.mp fun hsome => hdone ⟨hacc, hsome⟩)
      · exact .inl hacc

/-- A change of roles spares the creator unless it is accepted, names it and takes the role of an
admin away. -/
theorem CreatorAdmin.roleChange_iff {accepted : Prop}
    {role : Role} (h : CreatorAdmin pk c v s) (hop : RoleChange accepted c₀ u₀ role s s') :
    CreatorAdmin pk c v s' ↔ ¬ (accepted ∧ c₀ = c ∧ u₀ = v ∧ role ≠ .admin) := by
  obtain ⟨r, hr, hpk, hrole⟩ := h.record
  constructor
  · rintro hafter ⟨hacc, rfl, rfl, hdemoted⟩
    obtain ⟨r', hr', -, hrole'⟩ := hafter.record
    rw [hop.done hacc (by rw [hr]; simp), recordIn_adjust, if_pos ⟨rfl, rfl⟩, hr] at hr'
    cases hr'
    exact hdemoted (List.mem_singleton.mp hrole').symm
  · intro hspared
    by_cases hdone : accepted ∧ recordIn s.members c₀ u₀ ≠ none
    · refine ⟨by rw [communityPk?_congr hop.communities]; exact h.community, ?_⟩
      rw [hop.done hdone.1 hdone.2, recordIn_adjust]
      split
      · next heq =>
        -- the creator keeps its key and gets the role that it had to have
        refine ⟨{ r with roles := [role] }, by rw [hr]; rfl, hpk, ?_⟩
        have hadmin : role = .admin :=
          not_not.mp fun hne => hspared ⟨hdone.1, heq.1.symm, heq.2.symm, hne⟩
        rw [hadmin]
        exact List.mem_singleton_self _
      · exact ⟨r, hr, hpk, hrole⟩
    · refine h.congr hop.communities (hop.refused ?_)
      by_cases hacc : accepted
      · exact .inr (not_not.mp fun hsome => hdone ⟨hacc, hsome⟩)
      · exact .inl hacc

end

/-! ## Runs -/

section

variable (P : Prims)

/-- The inputs of a run: the three calls and the two events. -/
inductive MemberInput : NodeInput → Prop
  | kick {env : Env} {p : KickBanParams} : MemberInput (.rpc env (.memberKick p))
  | ban {env : Env} {p : KickBanParams} : MemberInput (.rpc env (.memberBan p))
  | updateRole {env : Env} {p : UpdateRoleParams} : MemberInput (.rpc env (.memberUpdateRole p))
  | left {env : Env} {topic : String} {data : Bytes} {source : Option String}
      {payload : MemberLeftPayload} : P.decodeEvent data = some (.memberLeft payload) →
      MemberInput (.event env (.messageReceived topic data source))
  | roleUpdated {env : Env} {topic : String} {data : Bytes} {source : Option String}
      {payload : MemberRoleUpdatedPayload} :
      P.decodeEvent data = some (.memberRoleUpdated payload) →
      MemberInput (.event env (.messageReceived topic data source))

/-- The creator neither makes the call nor signs the event. -/
structure NotByCreator (pk : Key) (n : Node) (i : NodeInput) : Prop where
  call : ∀ env call, i = .rpc env call → n.app.ownPk P ≠ pk
  left : ∀ env topic data source payload, i = .event env (.messageReceived topic data source) →
    P.decodeEvent data = some (.memberLeft payload) →
    P.verifyBytes pk (memberLeftBytes payload.userId payload.communityId) payload.signature = false
  roleUpdated : ∀ env topic data source payload,
    i = .event env (.messageReceived topic data source) →
    P.decodeEvent data = some (.memberRoleUpdated payload) →
    P.verifyBytes pk (roleUpdateBytes P payload.userId payload.communityId payload.newRole)
      payload.signature = false

/-- The creator is a member with the role of an admin in every state of a run that is not its
own. -/
def CreatorKept (pk : Key) (c v : String) (n : Node) (is : List NodeInput) : Prop :=
  (∀ i ∈ is, MemberInput P i) → Along (Node.step P) (NotByCreator P pk) n is →
    CreatorAdmin pk c v n.app →
    ∀ pre, pre <+: is → CreatorAdmin pk c v (run (Node.step P) n pre).app

/-- The inputs that pass the checks of the code and remove or demote the user. -/
inductive Harms (c v : String) (s : AppState) : NodeInput → Prop
  | kick {env : Env} : Allowed P s c MembershipRecord.isPrivileged →
      Harms c v s (.rpc env (.memberKick ⟨c, v⟩))
  | ban {env : Env} : Allowed P s c MembershipRecord.isAdmin →
      Harms c v s (.rpc env (.memberBan ⟨c, v⟩))
  | left {env : Env} {topic : String} {data : Bytes} {source : Option String}
      {payload : MemberLeftPayload} : P.decodeEvent data = some (.memberLeft payload) →
      Handled s topic → LeftAccepted P s payload → payload.communityId.text = c →
      payload.userId.text = v → Harms c v s (.event env (.messageReceived topic data source))
  | demoted {env : Env} {topic : String} {data : Bytes} {source : Option String}
      {payload : MemberRoleUpdatedPayload} :
      P.decodeEvent data = some (.memberRoleUpdated payload) → Handled s topic →
      RoleAccepted P s payload → payload.communityId.text = c → payload.userId.text = v →
      payload.newRole ≠ .admin → Harms c v s (.event env (.messageReceived topic data source))

variable {P}

theorem notByCreator_call {env : Env} {call : RpcCall}
    (h : n.app.ownPk P ≠ pk) : NotByCreator P pk n (.rpc env call) where
  call := fun _ _ _ => h
  left := by
    intro env' topic data source payload he
    cases he
  roleUpdated := by
    intro env' topic data source payload he
    cases he

theorem processEvent_of_handled {env : Env} (h : Handled s topic) :
    s.processEvent P env (.messageReceived topic data source) =
      s.handleCommunityMessage P env data source := by
  obtain ⟨hopen, hchannel, hcommunity⟩ := h
  simp [processEvent, hopen, hchannel, hcommunity]

/-- A message that means nothing on the topic of a channel has no effect unless it is handled. -/
theorem processEvent_of_not_handled {env : Env}
    (hignored : s.handleChannelMessage P false topic data = s) (h : ¬ Handled s topic) :
    s.processEvent P env (.messageReceived topic data source) = s := by
  unfold processEvent
  dsimp only
  split
  · rfl
  · next hopen =>
    split
    · exact hignored
    · next hchannel =>
      split
      · next hcommunity =>
        exact absurd ⟨by simpa using hopen, by simpa using hchannel, hcommunity⟩ h
      · rfl

/-- The handler of communities sees a message only if the processor hands it on. -/
theorem MemberChange.processEvent {env : Env}
    {accepted : Prop} {u : String} {change : MemberTable → MemberTable}
    (hop : MemberChange accepted c u change s (s.handleCommunityMessage P env data source))
    (hignored : s.handleChannelMessage P false topic data = s) :
    MemberChange (Handled s topic ∧ accepted) c u change s
      (s.processEvent P env (.messageReceived topic data source)) := by
  by_cases hhandled : Handled s topic
  · rw [processEvent_of_handled hhandled]
    refine ⟨hop.communities, fun hacc => hop.done hacc.2, fun hnot => hop.refused ?_⟩
    exact hnot.imp_left fun h hacc => h ⟨hhandled, hacc⟩
  · rw [processEvent_of_not_handled hignored hhandled]
    exact .ignored (.inl fun hacc => hhandled hacc.1)

theorem processEvent_left {env : Env} {payload : MemberLeftPayload}
    (hd : P.decodeEvent data = some (.memberLeft payload)) :
    Removal (Handled s topic ∧ LeftAccepted P s payload) payload.communityId.text
      payload.userId.text s (s.processEvent P env (.messageReceived topic data source)) := by
  refine MemberChange.processEvent ?_ (by rw [handleChannelMessage, hd])
  rw [handleCommunityMessage, hd]
  exact handleMemberLeft_removal s payload

theorem processEvent_roleUpdated {env : Env} {payload : MemberRoleUpdatedPayload}
    (hd : P.decodeEvent data = some (.memberRoleUpdated payload)) :
    RoleChange (Handled s topic ∧ RoleAccepted P s payload) payload.communityId.text
      payload.userId.text payload.newRole s
      (s.processEvent P env (.messageReceived topic data source)) := by
  refine MemberChange.processEvent ?_ (by rw [handleChannelMessage, hd])
  rw [handleCommunityMessage, hd]
  exact handleMemberRoleUpdated_roleChange s payload

/-- An input keeps the creator exactly when it does not harm it. -/
theorem CreatorAdmin.step_iff {v : String} {i : NodeInput}
    (hin : MemberInput P i) (h : CreatorAdmin pk c v n.app) :
    CreatorAdmin pk c v (Node.step P n i).app ↔ ¬ Harms P c v n.app i := by
  cases hin with
  | @kick env p =>
    obtain ⟨c₀, u₀⟩ := p
    refine (h.removal_iff (memberKick_removal env n.app ⟨c₀, u₀⟩)).trans (not_congr ⟨?_, ?_⟩)
    · rintro ⟨hall, rfl, rfl⟩
      exact .kick hall
    · intro hharm
      cases hharm with
      | kick hall => exact ⟨hall, rfl, rfl⟩
  | @ban env p =>
    obtain ⟨c₀, u₀⟩ := p
    refine (h.removal_iff (memberBan_removal env n.app ⟨c₀, u₀⟩)).trans (not_congr ⟨?_, ?_⟩)
    · rintro ⟨hall, rfl, rfl⟩
      exact .ban hall
    · intro hharm
      cases hharm with
      | ban hall => exact ⟨hall, rfl, rfl⟩
  | @updateRole env p =>
    -- the guard of the call: an accepted change does not name the creator
    refine (h.roleChange_iff (memberUpdateRole_roleChange env n.app p)).trans (not_congr ⟨?_, ?_⟩)
    · rintro ⟨⟨-, hother⟩, rfl, rfl, -⟩
      obtain ⟨r, hr, hpk, -⟩ := h.record
      exact absurd (by rw [hpk]; exact h.community) (hother r hr)
    · intro hharm
      cases hharm
  | left hd =>
    refine (h.removal_iff (processEvent_left hd)).trans (not_congr ⟨?_, ?_⟩)
    · rintro ⟨⟨hhandled, hacc⟩, hc, hv⟩
      exact .left hd hhandled hacc hc hv
    · intro hharm
      cases hharm with
      | left hd' hhandled hacc hc hv =>
        cases hd.symm.trans hd'
        exact ⟨⟨hhandled, hacc⟩, hc, hv⟩
      | demoted hd' => cases hd.symm.trans hd'
  | roleUpdated hd =>
    refine (h.roleChange_iff (processEvent_roleUpdated hd)).trans (not_congr ⟨?_, ?_⟩)
    · rintro ⟨⟨hhandled, hacc⟩, hc, hv, hrole⟩
      exact .demoted hd hhandled hacc hc hv hrole
    · intro hharm
      cases hharm with
      | left hd' => cases hd.symm.trans hd'
      | demoted hd' hhandled hacc hc hv hrole =>
        cases hd.symm.trans hd'
        exact ⟨⟨hhandled, hacc⟩, hc, hv, hrole⟩

/-- In a run that is not its own, the creator stays a member with the role of an admin exactly
when no input that passes the checks removes or demotes it. -/
theorem creator_kept_iff {pk : Key} {c v : String} {n : Node} {is : List NodeInput}
    (hin : ∀ i ∈ is, MemberInput P i) (hothers : Along (Node.step P) (NotByCreator P pk) n is)
    (hstart : CreatorAdmin pk c v n.app) :
    CreatorKept P pk c v n is ↔
      Along (Node.step P) (fun n i => ¬ Harms P c v n.app i) n is := by
  have hexact := forall_prefix_iff_along (I := fun n : Node => CreatorAdmin pk c v n.app)
    (G := fun n i => ¬ Harms P c v n.app i) (H := fun _ i => MemberInput P i)
    (fun _ _ hi h => h.step_iff hi) hstart (along_of_forall fun _ => hin)
  constructor
  · intro hkept
    exact hexact.mp (hkept hin hothers hstart)
  · intro hspared _ _ _
    exact hexact.mpr hspared

end

/-! ## A creator who is removed -/

namespace Sample

/-- The node is a moderator of a community that another user created. -/
def moderated : AppState :=
  withMembers (withCommunity (app 30) 10) [record 10 [.admin], record 30 [.moderator]]

def creator : String := (record 10 [.admin]).userId.text

theorem recordIn_withMembers_pair (s : AppState) {a b : MembershipRecord}
    (h : a.userId.text ≠ b.userId.text) :
    recordIn (withMembers s [a, b]).members community.text a.userId.text = some a := by
  have hlist : (withMembers s [a, b]).members.lookup community.text = some (keyByUser [a, b]) :=
    AList.lookup_insert _
  have hpair : keyByUser [a, b] =
      (AList.insert a.userId.text a ∅).insert b.userId.text b := rfl
  rw [recordIn, hlist, Option.bind_some, hpair, Dict.lookup_insert_eq, if_neg h]
  exact AList.lookup_insert _

theorem creatorAdmin_moderated : CreatorAdmin 11 community.text creator moderated :=
  ⟨by decide +kernel, record 10 [.admin], recordIn_withMembers_pair _ (by decide +kernel),
    by decide +kernel, List.mem_singleton_self _⟩

end Sample

open Sample in
/-- A moderator kicks the creator. -/
theorem creator_kicked :
    ¬ CreatorKept (prims [] []) 11 community.text creator (node moderated)
      [.rpc env (.memberKick ⟨community.text, creator⟩)] := by
  intro h
  have hin : ∀ i ∈ [NodeInput.rpc env (.memberKick ⟨community.text, creator⟩)],
      MemberInput (prims [] []) i := by
    intro i hi
    rw [List.mem_singleton.mp hi]
    exact .kick
  have hkept := h hin ⟨notByCreator_call (by decide +kernel), trivial⟩ creatorAdmin_moderated _
    List.prefix_rfl
  obtain ⟨r, hr, -⟩ := hkept.record
  have hgone : (recordIn (run (Node.step (prims [] [])) (node moderated)
      [.rpc env (.memberKick ⟨community.text, creator⟩)]).app.members community.text
        creator).isSome = false := by decide +kernel
  rw [hr] at hgone
  cases hgone

open Sample in
/-- A moderator tries to ban the creator, which takes the role of an admin. -/
theorem creator_kept_ban :
    let n := node moderated
    let is : List NodeInput := [.rpc env (.memberBan ⟨community.text, creator⟩)]
    CreatorAdmin 11 community.text creator n.app ∧
      (CreatorKept (prims [] []) 11 community.text creator n is ↔
        Along (Node.step (prims [] []))
          (fun n i => ¬ Harms (prims [] []) community.text creator n.app i) n is) := by
  refine ⟨creatorAdmin_moderated, creator_kept_iff ?_ ⟨notByCreator_call (by decide +kernel),
    trivial⟩ creatorAdmin_moderated⟩
  intro i hi
  rw [List.mem_singleton.mp hi]
  exact .ban

end BitCord
