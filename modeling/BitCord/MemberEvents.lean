import BitCord.Creator

/-!
# The gossip events on members

`MemberJoined`, `MemberLeft` and `MemberRoleUpdated` each write one entry of the table of members,
and only if the signature has the authority for it (`one_record_changes`).

The signatures of the last two do not cover the time in the payload, and no handler compares it with
anything. So an event of the past has its effect again whenever its signer still has the role
(`rejoined_member_removed`, `superseded_harmless_iff`).
-/

namespace BitCord

open Lib Lib.Run AppState

/-- The gossip events on members. -/
inductive MemberEvent where
  | joined (record : MembershipRecord)
  | left (payload : MemberLeftPayload)
  | roleUpdated (payload : MemberRoleUpdatedPayload)

namespace MemberEvent

def event : MemberEvent → NetworkEvent
  | .joined r => .memberJoined r
  | .left p => .memberLeft p
  | .roleUpdated p => .memberRoleUpdated p

def community : MemberEvent → String
  | .joined r => r.communityId.text
  | .left p => p.communityId.text
  | .roleUpdated p => p.communityId.text

def user : MemberEvent → String
  | .joined r => r.userId.text
  | .left p => p.userId.text
  | .roleUpdated p => p.userId.text

def timestamp : MemberEvent → DateTime
  | .joined r => r.joinedAt
  | .left p => p.timestamp
  | .roleUpdated p => p.timestamp

/-- The event can bring a user back or change its roles. -/
def isRenewal : MemberEvent → Bool
  | .joined _ => true
  | .left _ => false
  | .roleUpdated _ => true

/-- What an accepted event makes of the entry of its user. -/
def after : MemberEvent → Option MembershipRecord → Option MembershipRecord
  | .joined r, _ => some r
  | .left _, _ => none
  | .roleUpdated p, entry => entry.map fun r => { r with roles := [p.newRole] }

def Accepted (P : Prims) (s : AppState) : MemberEvent → Prop
  | .joined r => JoinAccepted P s r
  | .left p => LeftAccepted P s p
  | .roleUpdated p => RoleAccepted P s p

end MemberEvent

variable {e : MemberEvent} {data : Bytes} {s : AppState}

section

variable (P : Prims)

/-- The changes that an event makes to the entry of a user, each with the authority for it. The
records that count are those of the state before. -/
inductive RecordChange (s : AppState) (c u : String) :
    NetworkEvent → Option MembershipRecord → Option MembershipRecord → Prop
  | put {r : MembershipRecord} {before : Option MembershipRecord} :
      r.communityId.text = c → r.userId.text = u →
      r.userId.bytes = P.sha256 (toBytes r.publicKey) → P.vkValid r.publicKey = true →
      P.verifyBytes r.publicKey
        (membershipBytes P r.userId r.communityId r.displayName r.joinedAt r.roles) r.signature =
        true →
      u ∉ banList s.toTables c → RecordChange s c u (.memberJoined r) before (some r)
  | removed {payload : MemberLeftPayload} {old signer : MembershipRecord} :
      payload.communityId.text = c → payload.userId.text = u →
      signer ∈ memberList s.toTables c →
      (signer.userId = payload.userId ∨ signer.isPrivileged = true) →
      signer.signedBy P (memberLeftBytes payload.userId payload.communityId) payload.signature =
        true →
      RecordChange s c u (.memberLeft payload) (some old) none
  | roles {payload : MemberRoleUpdatedPayload} {old signer : MembershipRecord} :
      payload.communityId.text = c → payload.userId.text = u →
      signer ∈ memberList s.toTables c → signer.isAdmin = true →
      signer.signedBy P (roleUpdateBytes P payload.userId payload.communityId payload.newRole)
        payload.signature = true →
      RecordChange s c u (.memberRoleUpdated payload) (some old)
        (some { old with roles := [payload.newRole] })

variable {P}

/-! ## One event -/

/-- An event writes the entry of its user if it is accepted, and no other entry. -/
theorem recordIn_handleCommunityMessage (env : Env) (s : AppState) (source : Option String)
    (hd : P.decodeEvent data = some e.event) (c u : String) :
    (e.Accepted P s ∧ c = e.community ∧ u = e.user →
      recordIn (s.handleCommunityMessage P env data source).members c u =
        e.after (recordIn s.members c u)) ∧
    (¬ (e.Accepted P s ∧ c = e.community ∧ u = e.user) →
      recordIn (s.handleCommunityMessage P env data source).members c u =
        recordIn s.members c u) := by
  unfold handleCommunityMessage
  rw [hd]
  cases e with
  | joined r =>
    dsimp only [MemberEvent.event, MemberEvent.community, MemberEvent.user, MemberEvent.Accepted,
      MemberEvent.after]
    by_cases hacc : JoinAccepted P s r
    · rw [members_handleMemberJoined hacc, recordIn_insert]
      exact ⟨fun h => if_pos h.2, fun h => if_neg fun heq => h ⟨hacc, heq⟩⟩
    · rw [handleMemberJoined_of_not hacc]
      exact ⟨fun h => absurd h.1 hacc, fun _ => rfl⟩
  | left p =>
    dsimp only [MemberEvent.event, MemberEvent.community, MemberEvent.user, MemberEvent.Accepted,
      MemberEvent.after]
    have hop := handleMemberLeft_removal (P := P) s p
    by_cases hdone : LeftAccepted P s p ∧ recordIn s.members p.communityId.text p.userId.text ≠ none
    · rw [hop.done hdone.1 hdone.2, recordIn_remove]
      exact ⟨fun h => if_pos h.2, fun h => if_neg fun heq => h ⟨hdone.1, heq⟩⟩
    · rw [hop.refused (not_and_or.mp hdone |>.imp_right not_not.mp)]
      refine ⟨?_, fun _ => rfl⟩
      rintro ⟨hacc, rfl, rfl⟩
      exact not_not.mp fun hsome => hdone ⟨hacc, hsome⟩
  | roleUpdated p =>
    dsimp only [MemberEvent.event, MemberEvent.community, MemberEvent.user, MemberEvent.Accepted,
      MemberEvent.after]
    have hop := handleMemberRoleUpdated_roleChange (P := P) s p
    by_cases hdone : RoleAccepted P s p ∧ recordIn s.members p.communityId.text p.userId.text ≠ none
    · rw [hop.done hdone.1 hdone.2, recordIn_adjust]
      refine ⟨fun h => if_pos h.2, fun h => if_neg fun heq => h ⟨hdone.1, heq⟩⟩
    · rw [hop.refused (not_and_or.mp hdone |>.imp_right not_not.mp)]
      refine ⟨?_, fun _ => rfl⟩
      rintro ⟨hacc, rfl, rfl⟩
      have hnone := not_not.mp fun hsome => hdone ⟨hacc, hsome⟩
      rw [hnone]
      rfl

/-- An accepted event has the authority for what it makes of an entry. -/
theorem recordChange_of_accepted (h : e.Accepted P s) {before : Option MembershipRecord}
    (hne : e.after before ≠ before) :
    RecordChange P s e.community e.user e.event before (e.after before) := by
  cases e with
  | joined r =>
    obtain ⟨hself, hban⟩ := h
    unfold MembershipRecord.selfSigned at hself
    rw [Bool.and_eq_true, Bool.and_eq_true, decide_eq_true_iff] at hself
    exact .put rfl rfl (congrArg UserId.bytes hself.1.2) hself.1.1 hself.2 hban
  | left p =>
    obtain ⟨signer, hmem, hrole, hsigned⟩ := h
    cases before with
    | none => exact absurd rfl hne
    | some old => exact .removed rfl rfl hmem hrole hsigned
  | roleUpdated p =>
    obtain ⟨signer, hmem, hrole, hsigned⟩ := h
    cases before with
    | none => exact absurd rfl hne
    | some old => exact .roles rfl rfl hmem hrole hsigned

/-- An event on members changes at most one entry of the table, and it has the authority for the
change. -/
theorem one_record_changes (env : Env) (s : AppState) {data : Bytes} (source : Option String)
    {e : MemberEvent} (hd : P.decodeEvent data = some e.event) :
    (∃ c u, ∀ c' u', ¬ (c' = c ∧ u' = u) →
      recordIn (s.handleCommunityMessage P env data source).members c' u' =
        recordIn s.members c' u') ∧
    ∀ c u, recordIn (s.handleCommunityMessage P env data source).members c u ≠
        recordIn s.members c u →
      RecordChange P s c u e.event (recordIn s.members c u)
        (recordIn (s.handleCommunityMessage P env data source).members c u) := by
  refine ⟨⟨e.community, e.user, fun c' u' hne => ?_⟩, fun c u hchanged => ?_⟩
  · exact (recordIn_handleCommunityMessage env s source hd c' u').2 fun h => hne h.2
  · obtain ⟨hdone, hkept⟩ := recordIn_handleCommunityMessage env s source hd c u
    have hacc := not_not.mp fun h => hchanged (hkept h)
    rw [hdone hacc] at hchanged ⊢
    obtain ⟨hacc, rfl, rfl⟩ := hacc
    exact recordChange_of_accepted hacc hchanged

/-! ## Replays -/

/-- The event would change the entry of its user. -/
def MemberEvent.Alters : MemberEvent → Option MembershipRecord → Prop
  | .joined r, entry => entry ≠ some r
  | .left _, entry => entry ≠ none
  | .roleUpdated p, entry => ∃ r, entry = some r ∧ r.roles ≠ [p.newRole]

theorem MemberEvent.alters_iff (e : MemberEvent) (entry : Option MembershipRecord) :
    e.Alters entry ↔ e.after entry ≠ entry := by
  cases e with
  | joined r => exact ne_comm
  | left p => exact ne_comm
  | roleUpdated p =>
    dsimp only [Alters, after]
    cases entry with
    | none => simp
    | some r =>
      rw [Option.map_some, Ne, Option.some.injEq]
      constructor
      · rintro ⟨r', hr, hne⟩ heq
        obtain rfl := Option.some.inj hr
        exact hne (congrArg MembershipRecord.roles heq).symm
      · intro hne
        refine ⟨r, rfl, fun heq => hne ?_⟩
        rw [← heq]

variable (P) in
def Applies (n : Node) (i : NodeInput) (e : MemberEvent) : Prop :=
  ∃ env topic data source, i = .event env (.messageReceived topic data source) ∧
    P.decodeEvent data = some e.event ∧ Handled n.app topic ∧ e.Accepted P n.app

variable (P) in
/-- In the run the event was applied, and later one that joins its user or changes the roles, with a
greater time. -/
def Superseded (n : Node) (is : List NodeInput) (e : MemberEvent) : Prop :=
  ∃ pre i mid j post later, is = pre ++ i :: mid ++ j :: post ∧
    Applies P (run (Node.step P) n pre) i e ∧
    Applies P (run (Node.step P) n (pre ++ i :: mid)) j later ∧
    later.isRenewal = true ∧ later.community = e.community ∧ later.user = e.user ∧
    e.timestamp < later.timestamp

variable (P) in
/-- After a run in which a `MemberLeft` or `MemberRoleUpdated` was superseded, its delivery leaves
the entry of the user as it is. -/
def SupersededHarmless (n : Node) (is : List NodeInput) (e : MemberEvent) (env : Env)
    (topic : String) (data : Bytes) (source : Option String) : Prop :=
  (∀ r, e ≠ .joined r) → Superseded P n is e → P.decodeEvent data = some e.event →
    recordIn (Node.step P (run (Node.step P) n is)
      (.event env (.messageReceived topic data source))).app.members e.community e.user =
    recordIn (run (Node.step P) n is).app.members e.community e.user

/-- One delivery leaves the entry as it is exactly when it is not handled, not accepted or without
effect. -/
theorem recordIn_processEvent_iff {env : Env} {topic : String} {source : Option String}
    (hd : P.decodeEvent data = some e.event) :
    recordIn (s.processEvent P env (.messageReceived topic data source)).members e.community
        e.user = recordIn s.members e.community e.user ↔
      ¬ (Handled s topic ∧ e.Accepted P s ∧ e.Alters (recordIn s.members e.community e.user)) := by
  rw [e.alters_iff]
  by_cases hhandled : Handled s topic
  · rw [processEvent_of_handled hhandled]
    obtain ⟨hdone, hkept⟩ := recordIn_handleCommunityMessage env s source hd e.community e.user
    by_cases hacc : e.Accepted P s
    · rw [hdone ⟨hacc, rfl, rfl⟩]
      exact ⟨fun h hno => hno.2.2 h, fun h => not_not.mp fun hne => h ⟨hhandled, hacc, hne⟩⟩
    · rw [hkept fun h => hacc h.1]
      exact iff_of_true rfl fun h => hacc h.2.1
  · have hignored : s.handleChannelMessage P false topic data = s := by
      rw [handleChannelMessage, hd]
      cases e <;> rfl
    rw [processEvent_of_not_handled hignored hhandled]
    exact iff_of_true rfl fun h => hhandled h.1

/-- A superseded event can be replayed without effect exactly when, in the state after the run, its
signature is not accepted or the entry is as the event makes it. -/
theorem superseded_harmless_iff (n : Node) (is : List NodeInput) (e : MemberEvent) (env : Env)
    (topic : String) (data : Bytes) (source : Option String) :
    SupersededHarmless P n is e env topic data source ↔
      ((∀ r, e ≠ .joined r) → Superseded P n is e → P.decodeEvent data = some e.event →
        Handled (run (Node.step P) n is).app topic →
        e.Accepted P (run (Node.step P) n is).app →
        ¬ e.Alters (recordIn (run (Node.step P) n is).app.members e.community e.user)) := by
  refine forall₂_congr fun _ _ => forall_congr' fun hd => ?_
  refine (recordIn_processEvent_iff hd).trans ⟨fun h hhandled hacc halters => ?_, fun h => ?_⟩
  · exact h ⟨hhandled, hacc, halters⟩
  · rintro ⟨hhandled, hacc, halters⟩
    exact h hhandled hacc halters

end

namespace Sample

def leaving : MemberLeftPayload :=
  let r := record 20 [.member]
  ⟨r.userId, community, 1, toBytes ((prims [] []).sign 20 (memberLeftBytes r.userId community))⟩

def rejoining : MembershipRecord := (app 20).ownRecord (prims [] []) community "" [.member] 2

def leavePrims : Prims := prims [.memberLeft leaving, .memberJoined rejoining] []

/-- A node of the community. -/
def leaveApp : AppState := withMembers (app 30) [record 30 [.admin], record 20 [.member]]

def delivery (i : UInt8) : NodeInput :=
  .event env (.messageReceived (communityTopic community.text) [i] none)

/-- The member leaves and joins again. -/
def leaveRun : List NodeInput := [delivery 0, delivery 1]

theorem superseded_leaving : Superseded leavePrims (node leaveApp) leaveRun (.left leaving) := by
  refine ⟨[], delivery 0, [], delivery 1, [], .joined rejoining, rfl, ?_, ?_, rfl, rfl, rfl,
    by decide⟩
  · refine ⟨env, _, _, none, rfl, rfl, ⟨rfl, by decide +kernel, by decide +kernel⟩, ?_⟩
    exact (leftAccepted_iff _ _).mp (by decide +kernel)
  · refine ⟨env, _, _, none, rfl, rfl, ⟨by decide +kernel, by decide +kernel, by decide +kernel⟩,
      ?_⟩
    exact ⟨by decide +kernel, by decide +kernel⟩

end Sample

open Sample in
/-- The member that joined again is removed when its old `MemberLeft` is delivered once more. -/
theorem rejoined_member_removed :
    ¬ SupersededHarmless leavePrims (node leaveApp) leaveRun (.left leaving) env
      (communityTopic community.text) [0] none := by
  intro h
  have hsame := h (fun _ hj => by cases hj) superseded_leaving rfl
  have hbefore : (recordIn (run (Node.step leavePrims) (node leaveApp) leaveRun).app.members
      (MemberEvent.left leaving).community (MemberEvent.left leaving).user).isSome = true := by
    decide +kernel
  have hgone : (recordIn (Node.step leavePrims (run (Node.step leavePrims) (node leaveApp) leaveRun)
      (.event env (.messageReceived (communityTopic community.text) [0] none))).app.members
      (MemberEvent.left leaving).community (MemberEvent.left leaving).user).isSome = false := by
    decide +kernel
  rw [hsame, hbefore] at hgone
  cases hgone

open Sample in
/-- A `MemberLeft` that the member signed. -/
theorem one_record_changes_leaving :
    (∃ c u, ∀ c' u', ¬ (c' = c ∧ u' = u) →
      recordIn (leaveApp.handleCommunityMessage leavePrims env [0] none).members c' u' =
        recordIn leaveApp.members c' u') ∧
    ∀ c u, recordIn (leaveApp.handleCommunityMessage leavePrims env [0] none).members c u ≠
        recordIn leaveApp.members c u →
      RecordChange leavePrims leaveApp c u (.memberLeft leaving) (recordIn leaveApp.members c u)
        (recordIn (leaveApp.handleCommunityMessage leavePrims env [0] none).members c u) :=
  one_record_changes env leaveApp none (e := .left leaving) rfl

end BitCord
