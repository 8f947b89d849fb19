import BitCord.Creator
import BitCord.KeyDistribution
import BitCord.Loop.Actions
import BitCord.Roles

/-!
# The signatures of membership records

A member signs its record over the user, the community, the name, the time and the roles, and every
node that gets the record as a `MemberJoined` checks the signature.

The node changes names and roles of records in place, keeps the signature and publishes the records
as they are, so nobody accepts them (`renamed_record_published`). As long as no input makes a stored
record invalid, every record that the node publishes is valid (`published_records_valid`).

The X25519 key of a record is not among what is signed. The admin wraps the channel keys for it, so
whoever passes a record on can put its own key in (`channel_key_wrapped_to_other_key`,
`wraps_vouched_iff`).
-/

namespace BitCord

open Lib Lib.Run AppState

variable {topic : String} {ch : ChannelManifest}

/-! ## What is published -/

section

variable (P : Prims)

/-- The record that a command publishes, as a receiver decodes it. -/
def joinedRecord : NetworkCommand → Option MembershipRecord
  | .publish _ data =>
    match P.decodeEvent data with
    | some (.memberJoined r) => some r
    | _ => none
  | _ => none

def Prims.DecodesSound : Prop := ∀ e e', P.decodeEvent (P.encodeEvent e) = some e' → e' = e

/-- Every record in the table is validly signed. -/
def RecordsValid (s : AppState) : Prop :=
  ∀ c u r, recordIn s.members c u = some r → r.selfSigned P = true

/-- Every record that is published between two states is validly signed. -/
def PublishesValid (s s' : AppState) : Prop :=
  ∀ r ∈ (s'.commands.drop s.commands.length).filterMap (joinedRecord P), r.selfSigned P = true

/-- The inputs of a run: the calls that publish or change records, and the events. -/
inductive RecordInput : NodeInput → Prop
  | create (env : Env) (p : CreateCommunityParams) : RecordInput (.rpc env (.communityCreate p))
  | join (env : Env) (p : JoinCommunityParams) : RecordInput (.rpc env (.communityJoin p))
  | rename (env : Env) (name : String) : RecordInput (.rpc env (.identitySetDisplayName name))
  | updateRole (env : Env) (p : UpdateRoleParams) : RecordInput (.rpc env (.memberUpdateRole p))
  | event (env : Env) (e : SwarmEvent) : RecordInput (.event env e)

/-- On a node whose records are validly signed, every record that is published in the run is validly
signed. -/
def PublishesOnlyValid (n : Node) (is : List NodeInput) : Prop :=
  (∀ i ∈ is, RecordInput i) → RecordsValid P n.app →
    Along (Node.step P) (fun n i => PublishesValid P n.app (Node.step P n i).app) n is

/-- The input makes no record invalid: the signatures of the records that it changes in place are
valid for the new content, and those of the records that it brings are valid. -/
structure KeepsSignatures (s : AppState) (i : NodeInput) : Prop where
  renamed : ∀ env name c r, i = .rpc env (.identitySetDisplayName name) →
    ¬ (name = "" ∨ 64 < name.utf8ByteSize) → recordIn s.members c (s.peerId P) = some r →
    ({ r with displayName := name } : MembershipRecord).selfSigned P = true
  roleCall : ∀ env p r, i = .rpc env (.memberUpdateRole p) →
    Allowed P s p.communityId MembershipRecord.isAdmin →
    communityPk? s.toTables p.communityId ≠ some r.publicKey →
    recordIn s.members p.communityId p.userId = some r →
    ({ r with roles := [p.role] } : MembershipRecord).selfSigned P = true
  roleGossip : ∀ env topic data source payload r,
    i = .event env (.messageReceived topic data source) →
    P.decodeEvent data = some (.memberRoleUpdated payload) → Handled s topic →
    RoleAccepted P s payload →
    recordIn s.members payload.communityId.text payload.userId.text = some r →
    ({ r with roles := [payload.newRole] } : MembershipRecord).selfSigned P = true
  received : ∀ env m r, i = .event env (.manifestReceived m) → m.manifest.verify P = true →
    r ∈ m.members → r.selfSigned P = true

/-- The new records and the published ones are validly signed. -/
structure SignedChange (s s' : AppState) : Prop where
  record : ∀ c u r, recordIn s'.members c u = some r →
    recordIn s.members c u = some r ∨ r.selfSigned P = true
  published : ∃ l, Issues (joinedRecord P) s s' l ∧ ∀ r ∈ l, r.selfSigned P = true

variable {P} {env : Env} {s t u : AppState}

namespace SignedChange

theorem refl (s : AppState) : SignedChange P s s :=
  ⟨fun _ _ _ h => .inl h, [], .of_eq rfl, fun _ h => absurd h List.not_mem_nil⟩

theorem trans (h : SignedChange P s t) (h' : SignedChange P t u) : SignedChange P s u := by
  obtain ⟨l, hl, hvalid⟩ := h.published
  obtain ⟨l', hl', hvalid'⟩ := h'.published
  refine ⟨fun c v r hr => ?_, l ++ l', hl.trans hl', fun r hr => ?_⟩
  · rcases h'.record c v r hr with hold | hnew
    · exact h.record c v r hold
    · exact .inr hnew
  · rcases List.mem_append.mp hr with hr | hr
    · exact hvalid r hr
    · exact hvalid' r hr

/-- The table stays, and the commands do not publish records that are invalid. -/
theorem of_commands (hmembers : t.members = s.members) {new : List NetworkCommand}
    (hcommands : t.commands = s.commands ++ new)
    (hnew : ∀ cmd ∈ new, ∀ r, joinedRecord P cmd = some r → r.selfSigned P = true) :
    SignedChange P s t := by
  refine ⟨fun c v r hr => .inl (hmembers ▸ hr), _, .of_append hcommands, fun r hr => ?_⟩
  obtain ⟨cmd, hcmd, hread⟩ := List.mem_filterMap.mp hr
  exact hnew cmd hcmd r hread

theorem of_eq (hmembers : t.members = s.members) (hcommands : t.commands = s.commands) :
    SignedChange P s t :=
  of_commands hmembers (hcommands.trans (List.append_nil _).symm)
    fun _ h => absurd h List.not_mem_nil

theorem putMember {record : MembershipRecord} (hrecord : record.selfSigned P = true) (c : String)
    (hmembers : t.members = s.members) (hcommands : t.commands = s.commands) :
    SignedChange P s (t.putMember c record) := by
  refine ⟨fun c' v r hr => ?_, [], .of_eq hcommands, fun _ h => absurd h List.not_mem_nil⟩
  unfold AppState.putMember at hr
  dsimp only at hr
  rw [recordIn_insert, hmembers] at hr
  split at hr
  · cases hr
    exact .inr hrecord
  · exact .inl hr

theorem publishesValid (h : SignedChange P s t) : PublishesValid P s t := by
  obtain ⟨l, hl, hvalid⟩ := h.published
  unfold PublishesValid
  rw [hl.filterMap_drop]
  exact hvalid

theorem recordsValid (h : SignedChange P s t) (hs : RecordsValid P s) : RecordsValid P t :=
  fun c v r hr => (h.record c v r hr).elim (hs c v r) id

end SignedChange

theorem issues_handleChannelMessage (s : AppState) (topic : String) (data : Bytes) :
    Issues (joinedRecord P) s (s.handleChannelMessage P false topic data) [] := by
  refine ⟨_, commands_handleChannelMessage false s topic data, ?_⟩
  unfold channelActions
  split
  · next payload _ =>
    dsimp only
    cases communityPk? s.toTables payload.newManifest.communityId.text with
    | none => rfl
    | some pk =>
      dsimp only
      split
      · rfl
      · split
        · rfl
        · cases s.preferredPeer payload.newManifest.communityId.text <;> rfl
  · rfl

theorem filterMap_manifestUpdateActions (s : AppState) (new : SignedManifest)
    (source : Option String) :
    (sent (s.manifestUpdateActions P new source)).filterMap (joinedRecord P) = [] := by
  unfold manifestUpdateActions
  split
  · rfl
  · split
    · rfl
    · next current _ =>
      split
      · rfl
      · split
        · simp [removeActions, joinedRecord]
        · have hdial : (s.dialNewSeed P current.manifest new.manifest).filterMap
              (joinedRecord P) = [] := by
            unfold dialNewSeed
            dsimp only
            split
            · cases P.parseNodeAddr (new.manifest.seedNodes.headD "") <;> rfl
            · rfl
          unfold applyManifestActions
          cases source <;> simpa [joinedRecord] using hdial

section

variable (hcodec : P.DecodesSound)

include hcodec

theorem joinedRecord_publish {e : NetworkEvent} {r : MembershipRecord}
    (h : joinedRecord P (.publish topic (P.encodeEvent e)) = some r) : e = .memberJoined r := by
  unfold joinedRecord at h
  dsimp only at h
  split at h
  · next r' hd =>
    rw [← hcodec _ _ hd, Option.some.inj h]
  · cases h

theorem ignoresRoutine_joinedRecord : IgnoresRoutine P (joinedRecord P) := by
  rintro cmd (_ | _ | ⟨c, ch⟩)
  · rfl
  · rfl
  · cases h : joinedRecord P (publishChannel P c ch) with
    | none => rfl
    | some r => cases joinedRecord_publish hcodec h

/-! ### Calls -/

theorem signedChange_memberUpdateRole {p : UpdateRoleParams} {env' : Env}
    (hkeeps : KeepsSignatures P s (.rpc env' (.memberUpdateRole p))) :
    SignedChange P s (s.memberUpdateRole P env p).1 := by
  unfold memberUpdateRole
  split
  · exact .refl s
  · exact .refl s
  · next target hallowed htarget =>
    split
    · exact .refl s
    · next hcreator =>
      refine ⟨fun c v r hr => ?_, _, .of_append rfl, fun r hr => ?_⟩
      · rcases of_recordIn_adjust hr with hold | ⟨rfl, rfl, old, hold, rfl⟩
        · exact .inl hold
        · obtain rfl : target = old := Option.some.inj (htarget.symm.trans hold)
          refine .inr (hkeeps.roleCall env' p target rfl (callerRefusal_eq_none_iff.mp hallowed)
            (fun hpk => hcreator (decide_eq_true hpk)) hold)
      · obtain ⟨cmd, hcmd, hread⟩ := List.mem_filterMap.mp hr
        split at hcmd
        · rw [List.mem_singleton.mp hcmd] at hread
          cases joinedRecord_publish hcodec hread
        · cases hcmd

theorem signedChange_identitySetDisplayName {name : String}
    (hkeeps : KeepsSignatures P s (.rpc env (.identitySetDisplayName name))) :
    SignedChange P s (s.identitySetDisplayName P name).1 := by
  unfold identitySetDisplayName
  split
  · exact .refl s
  · next hname =>
    have hrenamed : ∀ c r, recordIn (renameSelf s.members (s.peerId P) name) c (s.peerId P) =
        some r → r.selfSigned P = true := by
      intro c r hr
      rw [recordIn_renameSelf, if_pos rfl] at hr
      obtain ⟨old, hold, rfl⟩ := Option.map_eq_some_iff.mp hr
      exact hkeeps.renamed env name c old rfl hname hold
    refine ⟨fun c v r hr => ?_, _, .emit _ _ _, fun r hr => ?_⟩
    · rcases of_recordIn_renameSelf hr with hold | ⟨old, rfl, hold, rfl⟩
      · exact .inl hold
      · exact .inr (hkeeps.renamed env name c old rfl hname hold)
    · obtain ⟨cmd, hcmd, hread⟩ := List.mem_filterMap.mp hr
      obtain ⟨⟨c, r'⟩, hmem, rfl⟩ := List.mem_map.mp hcmd
      cases joinedRecord_publish hcodec hread
      exact hrenamed c _ (recordIn_of_mem_ownRecords hmem)

section

variable (hP : P.Lawful)

include hP

theorem signedChange_storeCreated (env : Env) (s : AppState) (p : CreateCommunityParams)
    (fp : Key) : SignedChange P s (s.storeCreated P env p fp) := by
  have hown := selfSigned_ownRecord hP s (s.newManifest P env p).id
    (s.newManifest P env p).id.text [.admin] env.now
  refine (SignedChange.putMember hown (s.newManifest P env p).id.text ?_ ?_).trans
    (.of_commands rfl rfl fun cmd hcmd r hr => ?_)
  · unfold putPassword
    cases p.hostingPassword <;> rfl
  · unfold putPassword
    cases p.hostingPassword <;> rfl
  · rcases List.mem_append.mp hcmd with hcmd | hcmd
    · rcases List.mem_cons.mp hcmd with rfl | hcmd
      · cases hr
      · obtain ⟨a, -, rfl⟩ := List.mem_map.mp hcmd
        cases hr
    · rw [List.mem_singleton.mp hcmd] at hr
      cases joinedRecord_publish hcodec hr
      exact hown

omit hcodec hP in
theorem signedChange_pinSeeds (s : AppState) (seedNodes : List String) (fp : Key) :
    SignedChange P s (s.pinSeeds seedNodes fp) := .of_eq rfl rfl

theorem signedChange_communityCreate (env : Env) (s : AppState) (p : CreateCommunityParams) :
    SignedChange P s (s.communityCreate P env p).1 := by
  rcases communityCreate_cases (P := P) env s p with ⟨e, heq⟩ | ⟨-, t, fp, rfl | rfl, heq⟩
  · rw [heq]
    exact .refl s
  · rw [heq]
    exact signedChange_storeCreated hcodec hP env _ p fp
  · rw [heq]
    exact (signedChange_pinSeeds s p.seedNodes fp).trans
      (signedChange_storeCreated hcodec hP env _ p fp)

theorem signedChange_storeInvited (env : Env) (s : AppState) (id : CommunityId) (pk : Key)
    (invite : InvitePayload) (password : Option String) :
    SignedChange P s (s.storeInvited P env id pk invite password) := by
  have hown := selfSigned_ownRecord hP s id id.text [.member] env.now
  refine (SignedChange.putMember hown id.text ?_ ?_).trans
    (.of_commands rfl rfl fun cmd hcmd r hr => ?_)
  · unfold putPassword
    cases password <;> rfl
  · unfold putPassword
    cases password <;> rfl
  · rcases List.mem_cons.mp hcmd with rfl | hcmd
    · cases hr
    · rcases List.mem_cons.mp hcmd with rfl | hcmd
      · cases joinedRecord_publish hcodec hr
        exact hown
      · obtain ⟨peer, -, rfl⟩ := List.mem_map.mp hcmd
        cases hr

theorem signedChange_communityJoin (env : Env) (s : AppState) (p : JoinCommunityParams) :
    SignedChange P s (s.communityJoin P env p).1 := by
  have hdials : ∀ (t : AppState) (seeds : List String) (pk : Key) (c : String) (fp : Key),
      SignedChange P t (t.emit (seedDials P seeds (fun _ => false) pk c p.hostingPassword fp)
        []) := by
    intro t seeds pk c fp
    refine .of_commands rfl rfl fun cmd hcmd r hr => ?_
    obtain ⟨a, -, rfl⟩ := List.mem_map.mp hcmd
    cases hr
  rcases communityJoin_cases (P := P) env s p with ⟨e, heq⟩ | ⟨invite, -, heq⟩
  · rw [heq]
    exact .refl s
  · rw [heq]
    rcases joinInvite_cases (P := P) env s invite p.hostingPassword with
      ⟨e, heq⟩ | ⟨ulid, stored, -, rfl, ⟨e, -, heq⟩ | ⟨fp, t, r, -, ht, heq⟩⟩
    · rw [heq]
      exact .refl s
    · rw [heq]
      exact signedChange_storeInvited hcodec hP env s _ _ _ _
    · rw [heq]
      have hstored := signedChange_storeInvited hcodec hP env s ⟨ulid⟩
        ((parseHexArray 256 invite.publicKeyHex).getD 0) invite p.hostingPassword
      rcases ht with ⟨-, rfl⟩ | ⟨-, rfl⟩
      · exact hstored.trans (hdials _ _ _ _ _)
      · exact (hstored.trans (signedChange_pinSeeds _ _ _)).trans (hdials _ _ _ _ _)

/-! ### Events -/

theorem issues_handleManifestReceived (env : Env) (s : AppState) (m : ManifestReceived) :
    ∃ l, Issues (joinedRecord P) s (s.handleManifestReceived P env m) l ∧
      ∀ r ∈ l, r.selfSigned P = true := by
  have hroutine := ignoresRoutine_joinedRecord hcodec
  rcases handleManifestReceived_issues hroutine env s m with h | ⟨u, rotated, b, hu, heq⟩
  · exact ⟨[], h, fun _ h => absurd h List.not_mem_nil⟩
  · obtain ⟨t, own, hown, -, hissues⟩ := settleManifest_issues hroutine env u m rotated b
    have hretry : (u.retryFetch m rotated).filterMap (joinedRecord P) = [] := by
      refine List.filterMap_eq_nil_iff.mpr fun cmd hcmd => ?_
      obtain ⟨peer, rfl⟩ := of_mem_retryFetch hcmd
      rfl
    have hhistory : (historyFetches t m b).filterMap (joinedRecord P) = [] := by
      refine List.filterMap_eq_nil_iff.mpr fun cmd hcmd => ?_
      obtain ⟨ch, -, rfl⟩ := of_mem_historyFetches hcmd
      rfl
    rw [hretry, hhistory, List.nil_append, List.append_nil] at hissues
    rw [heq]
    refine ⟨_, hu.trans hissues, fun r hr => ?_⟩
    obtain ⟨cmd, hcmd, hread⟩ := List.mem_filterMap.mp hr
    rcases hown with rfl | ⟨t₀, roles, now, rfl⟩
    · cases hcmd
    · rw [List.mem_singleton.mp hcmd] at hread
      cases joinedRecord_publish hcodec hread
      exact selfSigned_ownRecord hP t₀ _ _ _ _

end

/-- On the topic of a community no records are published. -/
theorem issues_handleCommunityMessage (env : Env) (s : AppState) (data : Bytes)
    (source : Option String) :
    Issues (joinedRecord P) s (s.handleCommunityMessage P env data source) [] := by
  have hsent := commands_handleCommunityMessage (P := P) env s data source
  unfold communityActions at hsent
  split at hsent
  · next ch _ =>
    refine ⟨_, hsent, ?_⟩
    unfold broadcastActions catchUp
    cases communityPk? s.toTables ch.communityId.text with
    | none => rfl
    | some pk =>
      cases s.unwrapOwn P ch with
      | none => rfl
      | some key => cases s.preferredPeer ch.communityId.text <;> rfl
  · exact ⟨_, hsent, filterMap_manifestUpdateActions s _ source⟩
  · next record hd =>
    unfold handleCommunityMessage
    rw [hd]
    exact handleMemberJoined_issues (ignoresRoutine_joinedRecord hcodec) env s record
  · exact ⟨_, hsent, rfl⟩

/-- To a new peer the node publishes the records of its own communities. -/
theorem issues_handlePeerConnected (hs : RecordsValid P s) (peerId c : String) :
    ∃ l, Issues (joinedRecord P) s (s.handlePeerConnected P peerId c) l ∧
      ∀ r ∈ l, r.selfSigned P = true := by
  refine ⟨_, .of_append rfl, fun r hr => ?_⟩
  obtain ⟨cmd, hcmd, hread⟩ := List.mem_filterMap.mp hr
  rcases List.mem_append.mp hcmd with hcmd | hcmd
  · cases hpk : communityPk? s.toTables c with
    | none =>
      rw [hpk] at hcmd
      cases hcmd
    | some pk =>
      rw [hpk] at hcmd
      rw [List.mem_singleton.mp hcmd] at hread
      cases hread
  · obtain ⟨e, -, hcmd⟩ := List.mem_flatMap.mp hcmd
    unfold republish at hcmd
    split at hcmd
    · rcases List.mem_cons.mp hcmd with rfl | hcmd
      · cases joinedRecord_publish hcodec hread
      rcases List.mem_append.mp hcmd with hcmd | hcmd
      · obtain ⟨ch, -, rfl⟩ := List.mem_map.mp hcmd
        cases joinedRecord_publish hcodec hread
      · obtain ⟨r', hr', rfl⟩ := List.mem_map.mp hcmd
        cases joinedRecord_publish hcodec hread
        obtain ⟨v, hv⟩ := mem_memberList.mp hr'
        exact hs e.1 v _ hv
    · cases hcmd

theorem issues_processEvent (hP : P.Lawful) (hs : RecordsValid P s) (env : Env) (e : SwarmEvent) :
    ∃ l, Issues (joinedRecord P) s (s.processEvent P env e) l ∧
      ∀ r ∈ l, r.selfSigned P = true := by
  have hnone : ∀ r ∈ ([] : List MembershipRecord), r.selfSigned P = true :=
    fun _ h => absurd h List.not_mem_nil
  unfold processEvent
  split
  · exact ⟨[], .of_eq rfl, hnone⟩
  cases e with
  | peerConnected peerId c => exact issues_handlePeerConnected hcodec hs peerId c
  | lanPeerConnected peerId =>
    refine ⟨[], ⟨_, rfl, List.filterMap_eq_nil_iff.mpr fun cmd hcmd => ?_⟩, hnone⟩
    obtain ⟨e, -, rfl⟩ := List.mem_map.mp hcmd
    rfl
  | seedPeerConnected c peerId =>
    refine ⟨[], ⟨_, rfl, ?_⟩, hnone⟩
    split
    · split <;> rfl
    · rfl
  | seedPeerDisconnected c => exact ⟨[], .emit _ [] _, hnone⟩
  | messageReceived topic data source =>
    dsimp only
    split
    · exact ⟨[], issues_handleChannelMessage s topic data, hnone⟩
    · split
      · exact ⟨[], issues_handleCommunityMessage hcodec env s data source, hnone⟩
      · exact ⟨[], .of_eq rfl, hnone⟩
  | manifestReceived m => exact issues_handleManifestReceived hcodec hP env s m
  | communityJoined pk c =>
    refine ⟨[], ⟨[.subscribe (communityTopic c)], ?_, rfl⟩, hnone⟩
    dsimp only [handleCommunityJoined]
    split
    · rfl
    · split
      · rfl
      · split <;> rfl
  | communityJoinFailed c reason =>
    have hremoved := removeCommunityLocal_issues (ignoresRoutine_joinedRecord hcodec) s c
    exact ⟨[], hremoved.trans (.emit _ [] _), hnone⟩
  | _ => exact ⟨[], .of_eq rfl, hnone⟩

theorem signedChange_processEvent (hP : P.Lawful) (hs : RecordsValid P s) {e : SwarmEvent}
    (hkeeps : KeepsSignatures P s (.event env e)) : SignedChange P s (s.processEvent P env e) := by
  refine ⟨fun c v r hr => ?_, issues_processEvent hcodec hP hs env e⟩
  cases origin_processEvent hr with
  | kept hold => exact .inl hold
  | joined hd hacc hc hu => exact .inr hacc.1
  | @roleUpdated topic data source payload old hd hsigned hc hu hold hr' =>
    subst hc hu
    by_cases hhandled : Handled s topic
    · rw [hr']
      exact .inr (hkeeps.roleGossip env topic data source payload old rfl hd hhandled hsigned hold)
    · rw [processEvent_of_not_handled (by rw [handleChannelMessage, hd]) hhandled] at hr
      exact .inl hr
  | received hv hc hmem hu => exact .inr (hkeeps.received env _ r rfl hv hmem)
  | announced hv hc hu hex hban hr' =>
    rw [hr']
    exact .inr (selfSigned_ownRecord hP s _ _ _ _)

/-! ### Runs -/

theorem signedChange_step (hP : P.Lawful) {n : Node} {i : NodeInput} (hin : RecordInput i)
    (hs : RecordsValid P n.app) (hkeeps : KeepsSignatures P n.app i) :
    SignedChange P n.app (Node.step P n i).app := by
  cases hin with
  | create env p => exact signedChange_communityCreate hcodec hP env n.app p
  | join env p => exact signedChange_communityJoin hcodec hP env n.app p
  | rename env name => exact signedChange_identitySetDisplayName hcodec hkeeps
  | updateRole env p => exact signedChange_memberUpdateRole hcodec hkeeps
  | event env e => exact signedChange_processEvent hcodec hP hs hkeeps

/-- In a run whose inputs make no record invalid, every record that the node publishes is validly
signed. -/
theorem published_records_valid (hP : P.Lawful) {n : Node} {is : List NodeInput}
    (hkeeps : Along (Node.step P) (fun n i => KeepsSignatures P n.app i) n is) :
    PublishesOnlyValid P n is := by
  intro hin hstart
  have hinputs : Along (Node.step P) (fun _ i => RecordInput i) n is :=
    along_of_forall fun _ i hi => hin i hi
  have hguard := hinputs.and hkeeps
  have hvalid := hguard.of_invariant (I := fun n : Node => RecordsValid P n.app)
    (fun n i hs hi => (signedChange_step hcodec hP hi.1 hs hi.2).recordsValid hs) hstart
  refine (hguard.and hvalid).imp fun n i hi => ?_
  exact (signedChange_step hcodec hP hi.1.1 hi.2 hi.1.2).publishesValid

end

end

/-! ## The X25519 key -/

variable (l : List (String × Nat))

section

variable (P : Prims)

/-- A user who keeps its signing key to itself, with the records that it signed. -/
structure HonestUser where
  userId : UserId
  records : List MembershipRecord
  signed : ∀ r ∈ records, r.userId = userId ∧ r.selfSigned P = true

def HonestUser.Vouches (u : HonestUser P) (k : Key) : Prop :=
  ∃ r ∈ u.records, r.x25519PublicKey = k

/-- A record of the user in the event whose signature is valid was signed by the user. -/
def HonestUser.Unforged (u : HonestUser P) (e : SwarmEvent) : Prop :=
  ∀ topic data source r, e = .messageReceived topic data source →
    P.decodeEvent data = some (.memberJoined r) → r.userId = u.userId → r.selfSigned P = true →
    ∃ r' ∈ u.records,
      membershipBytes P r.userId r.communityId r.displayName r.joinedAt r.roles =
        membershipBytes P r'.userId r'.communityId r'.displayName r'.joinedAt r'.roles

/-- The manifest of the channel lacked the user, and now has the key of the channel wrapped for the
user to an X25519 key. -/
def WrapsTo (env : Env) (s s' : AppState) (x : String) (u : UserId) (k : Key) : Prop :=
  ∃ ch ch' key i, s.channels.lookup x = some ch ∧ u ∉ ch.encryptedChannelKey ∧
    s.channelKeys.lookup x = some key ∧ s'.channels.lookup x = some ch' ∧
    ch'.encryptedChannelKey.lookup u =
      some (encryptForMember P key k (env.key i) (env.nonce i))

/-- The node is the admin of the community, has the key of one of its channels and has not wrapped
it for the user of the record. -/
def AwaitsKey (s : AppState) (r : MembershipRecord) (x : String) : Prop :=
  ∃ signed ch, s.communities.lookup r.communityId.text = some signed ∧
    signed.manifest.publicKey = s.ownPk P ∧
    (x ∈ signed.manifest.channelIds.map fun ch => ch.text) ∧ x ∈ s.channelKeys ∧
    s.channels.lookup x = some ch ∧ r.userId ∉ ch.encryptedChannelKey

/-- Whenever a `MemberJoined` makes the node wrap a channel key for the honest user, the record
carries a key that the user vouched for. -/
def WrapsVouched (u : HonestUser P) (s : AppState) (is : List (Env × SwarmEvent)) : Prop :=
  (∀ i ∈ is, u.Unforged P i.2) →
    Along (eventStep P) (fun s i => ∀ topic data source r x,
      i.2 = .messageReceived topic data source → P.decodeEvent data = some (.memberJoined r) →
      r.userId = u.userId → WrapsTo P i.1 s (eventStep P s i) x u.userId r.x25519PublicKey →
      u.Vouches P r.x25519PublicKey) s is

variable {P} {env : Env} {keys : Dict String Key} {record : MembershipRecord}
  {acc : Dict String ChannelManifest × List NetworkCommand} {x : String}

/-! ### The loop over the channels -/

theorem lookup_wrapForJoinerStep_of_ne {channel : String × Nat} (h : channel.1 ≠ x) :
    (wrapForJoinerStep P env keys record acc channel).1.lookup x = acc.1.lookup x := by
  unfold wrapForJoinerStep
  split
  · split
    · rfl
    · exact AList.lookup_insert_ne h.symm
  · rfl

theorem lookup_wrapForJoinerStep_of_mem (hch : acc.1.lookup x = some ch)
    (hmem : record.userId ∈ ch.encryptedChannelKey) (channel : String × Nat) :
    (wrapForJoinerStep P env keys record acc channel).1.lookup x = acc.1.lookup x := by
  by_cases hx : channel.1 = x
  · subst hx
    unfold wrapForJoinerStep
    rw [hch]
    cases keys.lookup channel.1 with
    | none => exact hch
    | some key =>
      dsimp only
      rw [if_pos hmem]
      exact hch
  · exact lookup_wrapForJoinerStep_of_ne hx

theorem lookup_foldl_wrapForJoinerStep_of_mem (hch : acc.1.lookup x = some ch)
    (hmem : record.userId ∈ ch.encryptedChannelKey) :
    (l.foldl (wrapForJoinerStep P env keys record) acc).1.lookup x = some ch := by
  induction l generalizing acc with
  | nil => exact hch
  | cons channel l ih =>
    exact ih ((lookup_wrapForJoinerStep_of_mem hch hmem channel).trans hch)

/-- A listed channel whose manifest lacks the user gets a key, and only the first time. -/
theorem lookup_foldl_wrapForJoinerStep {key : Key} (hx : x ∈ l.map Prod.fst)
    (hkey : keys.lookup x = some key) (hch : acc.1.lookup x = some ch)
    (hnew : record.userId ∉ ch.encryptedChannelKey) :
    ∃ i, (l.foldl (wrapForJoinerStep P env keys record) acc).1.lookup x =
      some (wrapKey P env i key ch record) := by
  induction l generalizing acc with
  | nil => cases hx
  | cons channel l ih =>
    by_cases hhere : channel.1 = x
    · subst hhere
      have hstep : (wrapForJoinerStep P env keys record acc channel).1.lookup channel.1 =
          some (wrapKey P env channel.2 key ch record) := by
        unfold wrapForJoinerStep
        rw [hkey, hch]
        dsimp only
        rw [if_neg hnew]
        exact AList.lookup_insert _
      exact ⟨channel.2, lookup_foldl_wrapForJoinerStep_of_mem l hstep
        (AList.mem_insert _ |>.mpr (.inl rfl))⟩
    · have hrest : x ∈ l.map Prod.fst := by
        rcases List.mem_cons.mp hx with h | h
        · exact absurd h.symm hhere
        · exact h
      exact ih hrest ((lookup_wrapForJoinerStep_of_ne hhere).trans hch)

theorem lookup_foldl_wrapForJoinerStep_of_not_mem {l : List (String × Nat)}
    (hx : x ∉ l.map Prod.fst) :
    (l.foldl (wrapForJoinerStep P env keys record) acc).1.lookup x = acc.1.lookup x := by
  induction l generalizing acc with
  | nil => rfl
  | cons channel l ih =>
    rw [List.map_cons, List.mem_cons, not_or] at hx
    exact (ih hx.2).trans (lookup_wrapForJoinerStep_of_ne (Ne.symm hx.1))

variable {s : AppState}

theorem lookup_wrapForJoiner_of_not (env : Env) (h : ¬ AwaitsKey P s record x)
    {key : Key} (hkey : s.channelKeys.lookup x = some key)
    (hch : s.channels.lookup x = some ch) (hnew : record.userId ∉ ch.encryptedChannelKey) :
    (wrapForJoiner P env s record).1.lookup x = some ch := by
  have hmem : x ∈ s.channelKeys := AList.lookup_isSome.mp (by rw [hkey]; rfl)
  unfold wrapForJoiner
  cases hc : s.communities.lookup record.communityId.text with
  | none => exact hch
  | some signed =>
    dsimp only
    split
    · next hpk =>
      refine (lookup_foldl_wrapForJoinerStep_of_not_mem fun hx => h ?_).trans hch
      rw [List.zipIdx_map_fst] at hx
      exact ⟨signed, ch, hc, hpk, hx, hmem, hch, hnew⟩
    · exact hch

/-- The handler wraps the key of a channel to the key in the record exactly when it accepts the
record and the user lacks the key. -/
theorem wrapsTo_handleMemberJoined_iff :
    WrapsTo P env s (s.handleMemberJoined P env record) x record.userId record.x25519PublicKey ↔
      JoinAccepted P s record ∧ AwaitsKey P s record x := by
  constructor
  · rintro ⟨ch, ch', key, i, hch, hnew, hkey, hch', hwrapped⟩
    have hchanged : ch' ≠ ch := by
      rintro rfl
      exact hnew (AList.lookup_isSome.mp (by rw [hwrapped]; rfl))
    by_contra hnot
    refine hchanged (Option.some.inj (hch'.symm.trans ?_))
    by_cases hacc : JoinAccepted P s record
    · rw [channels_handleMemberJoined_of hacc]
      exact lookup_wrapForJoiner_of_not env (fun h => hnot ⟨hacc, h⟩) hkey hch hnew
    · rw [handleMemberJoined_of_not hacc]
      exact hch
  · rintro ⟨hacc, signed, ch, hc, hpk, hx, hmem, hch, hnew⟩
    obtain ⟨key, hkey⟩ := Option.isSome_iff_exists.mp (AList.lookup_isSome.mpr hmem)
    have hlisted : x ∈ (signed.manifest.channelIds.map fun ch => ch.text).zipIdx.map Prod.fst := by
      rw [List.zipIdx_map_fst]
      exact hx
    have hjoined : (s.handleMemberJoined P env record).channels =
        ((signed.manifest.channelIds.map fun ch => ch.text).zipIdx.foldl
          (wrapForJoinerStep P env s.channelKeys record) (s.channels, [])).1 := by
      rw [channels_handleMemberJoined_of hacc, wrapForJoiner, hc]
      dsimp only
      rw [if_pos hpk]
    obtain ⟨i, hrow⟩ : ∃ i, (s.handleMemberJoined P env record).channels.lookup x =
        some (wrapKey P env i key ch record) := by
      rw [hjoined]
      exact lookup_foldl_wrapForJoinerStep _ hlisted hkey hch hnew
    exact ⟨ch, _, key, i, hch, hnew, hkey, hrow, AList.lookup_insert _⟩

/-! ### Runs -/

theorem wrapsTo_eventStep_iff {i : Env × SwarmEvent} {data : Bytes}
    {source : Option String} (hi : i.2 = .messageReceived topic data source)
    (hd : P.decodeEvent data = some (.memberJoined record)) :
    WrapsTo P i.1 s (eventStep P s i) x record.userId record.x25519PublicKey ↔
      Handled s topic ∧ JoinAccepted P s record ∧ AwaitsKey P s record x := by
  unfold eventStep
  rw [hi]
  by_cases hhandled : Handled s topic
  · rw [processEvent_of_handled hhandled, handleCommunityMessage, hd]
    exact wrapsTo_handleMemberJoined_iff.trans (and_iff_right hhandled).symm
  · rw [processEvent_of_not_handled (by rw [handleChannelMessage, hd]) hhandled]
    refine iff_of_false ?_ fun h => hhandled h.1
    rintro ⟨ch, ch', key, i, hch, hnew, -, hch', hwrapped⟩
    cases hch.symm.trans hch'
    exact hnew (AList.lookup_isSome.mp (by rw [hwrapped]; rfl))

/-- The channel keys are wrapped for an honest user to keys that it vouched for exactly when, among
the records of the user that arrive and are accepted while the user lacks a channel key, each
carries such a key. -/
theorem wraps_vouched_iff {u : HonestUser P} {is : List (Env × SwarmEvent)} :
    WrapsVouched P u s is ↔
      ((∀ i ∈ is, u.Unforged P i.2) →
        Along (eventStep P) (fun s i => ∀ topic data source r x,
          i.2 = .messageReceived topic data source →
          P.decodeEvent data = some (.memberJoined r) → r.userId = u.userId → Handled s topic →
          JoinAccepted P s r → AwaitsKey P s r x → u.Vouches P r.x25519PublicKey) s is) := by
  refine imp_congr_right fun _ => ⟨fun h => h.imp fun s i hi => ?_, fun h => h.imp fun s i hi => ?_⟩
  · intro topic data source r x he hd hu hhandled hacc hawaits
    refine hi topic data source r x he hd hu ?_
    rw [← hu]
    exact (wrapsTo_eventStep_iff he hd).mpr ⟨hhandled, hacc, hawaits⟩
  · intro topic data source r x he hd hu hwraps
    rw [← hu] at hwraps
    obtain ⟨hhandled, hacc, hawaits⟩ := (wrapsTo_eventStep_iff he hd).mp hwraps
    exact hi topic data source r x he hd hu hhandled hacc hawaits

end

namespace Sample

theorem decodesSound_prims {events : List NetworkEvent} (h : events.length < 256)
    (contents : List MessageContent) : (prims events contents).DecodesSound := by
  intro e e' hd
  have hle : events.idxOf e ≤ events.length := List.idxOf_le_length
  have hindex : (UInt8.ofNat (events.idxOf e)).toNat = events.idxOf e :=
    UInt8.toNat_ofNat_of_lt' (Nat.lt_of_le_of_lt hle h)
  have hget : events[(UInt8.ofNat (events.idxOf e)).toNat]? = some e' := hd
  rw [hindex] at hget
  obtain ⟨hlt, hget⟩ := List.getElem?_eq_some_iff.mp hget
  rw [← hget, List.getElem_idxOf hlt]

theorem recordsValid_of_entries {P : Prims} {s : AppState}
    (h : s.members.entries.all (fun e => e.2.entries.all fun e' => e'.2.selfSigned P) = true) :
    RecordsValid P s := by
  intro c u r hr
  obtain ⟨list, hlist, hr⟩ := Option.bind_eq_some_iff.mp hr
  have hall := List.all_eq_true.mp h _ (AList.mem_lookup_iff.mp hlist)
  exact List.all_eq_true.mp hall _ (AList.mem_lookup_iff.mp hr)

def solitary : AppState := withMembers (withCommunity (app 30) 30) [record 30 [.admin]]

/-- The record of the node with another name, and the signature for the old one. -/
def renamedRecord : MembershipRecord := { record 30 [.admin] with displayName := "name" }

def swappedRecord : MembershipRecord := { record 20 [.member] with x25519PublicKey := 99 }

def channelAdmin : AppState :=
  withChannel { app 30 with communities := Dict.insertAll [(community.text, hosted)] ∅ } channel 70

end Sample

open Sample in
/-- The node changes its name and publishes a record that nobody accepts. -/
theorem renamed_record_published :
    ¬ PublishesOnlyValid (prims [.memberJoined renamedRecord] []) (node solitary)
      [.rpc env (.identitySetDisplayName "name")] := by
  intro h
  have hin : ∀ i ∈ [NodeInput.rpc env (.identitySetDisplayName "name")], RecordInput i := by
    intro i hi
    rw [List.mem_singleton.mp hi]
    exact .rename env "name"
  obtain ⟨hvalid, -⟩ := h hin (recordsValid_of_entries (by decide +kernel))
  have hinvalid : (((Node.step (prims [.memberJoined renamedRecord] []) (node solitary)
      (.rpc env (.identitySetDisplayName "name"))).app.commands.drop
        (node solitary).app.commands.length).filterMap
        (joinedRecord (prims [.memberJoined renamedRecord] []))).all
        (fun r => r.selfSigned (prims [.memberJoined renamedRecord] [])) = false := by
    decide +kernel
  rw [List.all_eq_true.mpr hvalid] at hinvalid
  cases hinvalid

open Sample in
/-- The admin publishes its own record to a new peer. -/
theorem published_records_valid_peer :
    PublishesOnlyValid (prims [.memberJoined (record 30 [.admin])] []) (node solitary)
      [.event env (.peerConnected "peer" community.text)] := by
  refine published_records_valid (decodesSound_prims (by decide) []) (prims_lawful _ _)
    ⟨⟨?_, ?_, ?_, ?_⟩, trivial⟩
  · intro env name c r hi
    cases hi
  · intro env p r hi
    cases hi
  · intro env topic data source payload r hi
    cases hi
  · intro env m r hi
    cases hi

open Sample in
/-- The record of a user arrives with the X25519 key of someone else, and the admin wraps the
channel key to that. -/
theorem channel_key_wrapped_to_other_key :
    ∃ u : HonestUser (prims [.memberJoined swappedRecord] []),
      ¬ WrapsVouched (prims [.memberJoined swappedRecord] []) u channelAdmin [gossipEvent 0] := by
  have hu : ∀ r ∈ [record 20 [.member]], r.userId = swappedRecord.userId ∧
      r.selfSigned (prims [.memberJoined swappedRecord] []) = true := by
    intro r hr
    rw [List.mem_singleton.mp hr]
    exact ⟨rfl, by decide +kernel⟩
  refine ⟨⟨swappedRecord.userId, [record 20 [.member]], hu⟩, fun h => ?_⟩
  have hunforged : ∀ i ∈ [gossipEvent 0], HonestUser.Unforged _
      ⟨swappedRecord.userId, [record 20 [.member]], hu⟩ i.2 := by
    intro i hi topic data source r he hd _ _
    rw [List.mem_singleton.mp hi] at he
    cases he
    have hr : swappedRecord = r := NetworkEvent.memberJoined.inj (Option.some.inj hd)
    exact ⟨record 20 [.member], List.mem_singleton.mpr rfl, by rw [← hr]; rfl⟩
  obtain ⟨hvouched, -⟩ := h hunforged
  obtain ⟨r, hr, hkey⟩ := hvouched _ _ _ swappedRecord channel.id.text rfl rfl rfl
    ((wrapsTo_eventStep_iff rfl rfl).mpr ⟨⟨rfl, by decide +kernel, by decide +kernel⟩,
      ⟨by decide +kernel, by decide +kernel⟩, hosted, channel, AList.lookup_insert _,
      by decide +kernel, by decide +kernel, by decide +kernel, AList.lookup_insert _,
      AList.notMem_empty _⟩)
  rw [List.mem_singleton.mp hr] at hkey
  exact absurd hkey (by decide +kernel)

end BitCord
