import BitCord.KeyDistribution
import BitCord.Persistence.Calls
import BitCord.Persistence.Restart

/-!
# Removed and banned members

A member is removed by `member_kick` and `member_ban`, which take its record out of the table of
members and out of the file. The metadata in the node store keep the record, and the table gets it
back from a fetched manifest and at a restart (`revocation_holds`, `bans_enforced`).
-/

namespace BitCord

open Lib Lib.Run AppState

variable {c u v : String} {r : MembershipRecord} {s s' : AppState} {e : SwarmEvent} {n : Node}
  {dht : Option DhtState} {i : NodeInput} {reply : RpcReply} {ch : ChannelManifest} {P : Prims}
  {t : MemberTable} {bans : List String}

/-! ## Records of another user -/

section

variable (P : Prims)

def Concerns (u : String) (r : MembershipRecord) : Prop :=
  r.userId.text = u ∨ (P.userIdOf r.publicKey).text = u

/-- The record is kept under another id, and is not about the user. -/
def Foreign (u v : String) (r : MembershipRecord) : Prop := v ≠ u ∧ ¬ Concerns P u r

variable {P}

theorem Foreign.of_same {old : MembershipRecord} (h : Foreign P u v old)
    (huser : r.userId = old.userId) (hpk : r.publicKey = old.publicKey) : Foreign P u v r := by
  unfold Foreign Concerns at h ⊢
  rwa [huser, hpk]

/-- A record that is kept under its own id. -/
theorem foreign_of_not_concerns (h : ¬ Concerns P u r) : Foreign P u r.userId.text r :=
  ⟨fun heq => h (.inl heq), h⟩

/-- The records that the node makes of itself are not about another user. -/
theorem foreign_own (h : OwnRecord P s v r) (hself : s.peerId P ≠ u) : Foreign P u v r := by
  obtain ⟨hv, huser, hpk⟩ := h
  refine ⟨by rw [hv]; exact hself, ?_⟩
  rintro (hid | hkey)
  · rw [huser] at hid
    exact hself hid
  · rw [hpk] at hkey
    exact hself hkey

theorem foreign_joined
    (h : JoinAccepted P s r) (hne : r.userId.text ≠ u) : Foreign P u r.userId.text r := by
  have hself := h.1
  unfold MembershipRecord.selfSigned at hself
  rw [Bool.and_eq_true, Bool.and_eq_true] at hself
  have huser : r.userId = P.userIdOf r.publicKey := of_decide_eq_true hself.1.2
  refine ⟨hne, ?_⟩
  rintro (hid | hkey)
  · exact hne hid
  · rw [← huser] at hkey
    exact hne hkey

end

/-! ## The condition on a run -/

/-- The call removes the user from the community. -/
inductive Removes (c u : String) : RpcCall → Prop
  | kick : Removes c u (.memberKick ⟨c, u⟩)
  | ban : Removes c u (.memberBan ⟨c, u⟩)

section

variable (P : Prims)

/-- No `MemberJoined` of the user is taken in. -/
def NoRejoin (u : String) (n : Node) (i : NodeInput) : Prop :=
  ∀ env topic data source r, i = .event env (.messageReceived topic data source) →
    P.decodeEvent data = some (.memberJoined r) → JoinAccepted P n.app r → r.userId.text ≠ u

/-- Neither `JoinCommunity` nor `FetchManifest` for the key of the community takes a key of the
user for the key of a member. -/
def NotAMember (pk : Key) (u : String) (s : AppState) : Prop :=
  ∀ st k, s.nodeStore = some st → (P.userIdOf k).text = u →
    isKnownMember st pk (some k) = false ∧
      ∀ m, st.meta? pk = some m → clientCrypto m (some k) = none

/-- The channel keys that `channel_create` and `channel_rotate_key` make are not wrapped for the
user. -/
structure NotWrapped (c u : String) (s : AppState) (i : NodeInput) : Prop where
  created : ∀ env p reply ch, i = .rpc env (.channelCreate p) → p.communityId = c →
    (s.channelCreate P env p).2 = .ok reply →
    (s.channelCreate P env p).1.channels.lookup (ChannelId.mk (env.ulid 0)).text = some ch →
    ∀ uid ∈ ch.encryptedChannelKey, uid.text ≠ u
  rotated : ∀ env p old reply ch, i = .rpc env (.channelRotateKey p) →
    s.channels.lookup p.channelId = some old → old.communityId.text = c →
    (s.channelRotateKey P env p).2 = .ok reply →
    (s.channelRotateKey P env p).1.channels.lookup p.channelId = some ch →
    ∀ uid ∈ ch.encryptedChannelKey, uid.text ≠ u

/-- After the call that removed the user, no state of the run treats the user as a member, and no
new channel key is wrapped for it. -/
def RevocationHolds (pk : Key) (c u : String) (n : Node) (env : Env) (call : RpcCall)
    (is : List NodeInput) : Prop :=
  Removes c u call → (n.app.rpc P env call).2 = .ok .done →
    communityPk? n.app.toTables c = some pk →
    Along (Node.step P) (NoRejoin P u) (Node.step P n (.rpc env call)) is →
    (∀ pre, pre <+: is →
      NotAMember P pk u (run (Node.step P) (Node.step P n (.rpc env call)) pre).app) ∧
    ∀ pre i post, is = pre ++ i :: post →
      NotWrapped P c u (run (Node.step P) (Node.step P n (.rpc env call)) pre).app i

/-- The condition on the state in which the user is removed: the user is not the node itself, no
other record of the community is about the user, and no stored record is. -/
structure RemovalClean (pk : Key) (c u : String) (s : AppState) : Prop where
  self : s.peerId P ≠ u
  table : ∀ v r, v ≠ u → recordIn s.members c v = some r → ¬ Concerns P u r
  stored : ∀ v r, s.storedIn pk v = some r → Foreign P u v r

/-- The condition on a later input: no manifest of the community lists the user, neither fetched
nor pushed, a restart finds no record of the user that it would merge, and a rotation names the
community of the channel. -/
structure RemovalKept (pk : Key) (c u : String) (n : Node) (i : NodeInput) : Prop where
  received : ∀ env m, i = .event env (.manifestReceived m) → m.manifest.verify P = true →
    m.communityId = c ∨ m.communityPk = pk → ∀ r ∈ m.members, ¬ Concerns P u r
  pushed : ∀ conn env remote manifest channels channelKeys members,
    i = .request conn env remote (.pushManifest pk manifest channels channelKeys members) →
    ∀ r ∈ members, ¬ Concerns P u r
  /-- Other communities in the files that have the same key. -/
  merged : ∀ dht c' v r, i = .restart dht → c' ≠ c → communityPk? n.app.files c' = some pk →
    recordIn n.app.files.members c' v = some r → ¬ Concerns P u r
  /-- Metadata under other keys that name the community. -/
  populated : ∀ dht st cpk v r, i = .restart dht → n.app.nodeStore = some st → cpk ≠ pk →
    Listed (mergeMembers n.app.files st) cpk c v r → Foreign P u v r
  rotated : ∀ env p ch, i = .rpc env (.channelRotateKey p) →
    n.app.channels.lookup p.channelId = some ch → ch.communityId.text = c → p.communityId = c

/-- No record of the user is left for the community. -/
structure Cleared (pk : Key) (c u : String) (s : AppState) : Prop where
  self : s.peerId P ≠ u
  table : ∀ v r, recordIn s.members c v = some r → Foreign P u v r
  file : ∀ v r, recordIn s.files.members c v = some r → Foreign P u v r
  stored : ∀ v r, s.storedIn pk v = some r → Foreign P u v r

end

/-! ## One input -/

section

variable {P : Prims} {pk : Key} {c u : String}

/-- The file follows the table, so it suffices to look at the table. -/
theorem AppState.FileFollows.foreign (h : FileFollows s s')
    (hfile : ∀ v r, recordIn s.files.members c v = some r → Foreign P u v r)
    (htable : ∀ v r, recordIn s'.members c v = some r → Foreign P u v r) (v : String)
    (r : MembershipRecord) (hr : recordIn s'.files.members c v = some r) : Foreign P u v r := by
  rcases h with hsaved | ⟨hsame, -⟩
  · rw [hsaved] at hr
    exact htable v r hr
  · rw [hsame] at hr
    exact hfile v r hr

theorem Cleared.event {env : Env} (h : Cleared P pk c u n.app)
    (hjoin : NoRejoin P u n (.event env e)) (hkept : RemovalKept P pk c u n (.event env e)) :
    Cleared P pk c u (n.app.processEvent P env e) := by
  have hsaves := processEvent_saves (P := P) env n.app e
  have htable : ∀ v r, recordIn (n.app.processEvent P env e).members c v = some r →
      Foreign P u v r := by
    intro v r hr
    cases origin_processEvent hr with
    | kept hold => exact h.table v r hold
    | joined hd hacc _ hu =>
      subst hu
      exact foreign_joined hacc (hjoin _ _ _ _ r rfl hd hacc)
    | roleUpdated _ _ _ _ hold hnew =>
      -- only the roles differ from the record before
      subst hnew
      exact (h.table v _ hold).of_same rfl rfl
    | received hv hc hmem hu =>
      subst hu
      exact foreign_of_not_concerns (hkept.received env _ rfl hv (.inl hc) r hmem)
    | announced _ _ hu _ _ hnew =>
      subst hnew
      exact foreign_own ⟨hu, rfl, rfl⟩ h.self
  refine ⟨?_, htable, hsaves.members.foreign h.file htable, fun v r hr => ?_⟩
  · rw [peerId_congr hsaves.signingKey]
    exact h.self
  · cases stored_processEvent hr with
    | kept hold => exact h.stored v r hold
    | joined hd hacc hv =>
      subst hv
      exact foreign_joined hacc (hjoin _ _ _ _ r rfl hd hacc)
    | received hv hpk hmem hu =>
      subst hu
      exact foreign_of_not_concerns (hkept.received env _ rfl hv (.inr hpk) r hmem)
    | announced hown => exact foreign_own hown h.self

/-- What the node does on its own brings no record of the user back. -/
theorem Cleared.own (h : Cleared P pk c u s) (hown : OwnChange P s s') : Cleared P pk c u s' := by
  have htable : ∀ v r, recordIn s'.members c v = some r → Foreign P u v r := by
    intro v r hr
    rcases hown.record c v r hr with ⟨old, hold, huser, hpk⟩ | hself
    · exact (h.table v old hold).of_same huser hpk
    · exact foreign_own hself h.self
  refine ⟨?_, htable, hown.file.foreign h.file htable, fun v r hr => ?_⟩
  · rw [peerId_congr hown.signingKey]
    exact h.self
  · rcases hown.stored pk v r hr with hold | hself
    · exact h.stored v r hold
    · exact foreign_own hself h.self

theorem Cleared.request {conn : Nat} {env : Env} {remote : NodeAddr} {req : ClientRequest}
    (h : Cleared P pk c u n.app) (hkept : RemovalKept P pk c u n (.request conn env remote req)) :
    Cleared P pk c u (n.handleRequest P conn env remote req).app := by
  unfold Node.handleRequest
  cases hst : n.app.nodeStore with
  | none => exact h
  | some st =>
    refine ⟨h.self, h.table, h.file, fun v r hr => ?_⟩
    rcases of_recordAt_dispatch hr with hold | ⟨manifest, channels, keys, members, rfl, hmem, hu⟩
    · exact h.stored v r (storedIn_of_recordAt hst hold)
    · subst hu
      exact foreign_of_not_concerns (hkept.pushed conn env remote _ _ _ _ rfl r hmem)

theorem Cleared.restart (h : Cleared P pk c u n.app)
    (hkept : RemovalKept P pk c u n (.restart dht)) : Cleared P pk c u (n.app.restart P) := by
  -- the merge writes to the metadata of the key from every community of the files that has it
  have hmerged : ∀ c' v r, communityPk? n.app.files c' = some pk →
      recordIn n.app.files.members c' v = some r → Foreign P u r.userId.text r := by
    intro c' v r hpk hr
    by_cases hc : c' = c
    · subst hc
      exact foreign_of_not_concerns (h.file v r hr).2
    · exact foreign_of_not_concerns (hkept.merged dht c' v r rfl hc hpk hr)
  have hstored : ∀ v r, (n.app.restart P).storedIn pk v = some r → Foreign P u v r := by
    intro v r hr
    rcases of_storedIn_restart hr with hold | ⟨c', v', hpk, hrec, rfl⟩
    · exact h.stored v r hold
    · exact hmerged c' v' r hpk hrec
  refine ⟨h.self, fun v r hr => ?_, h.file, hstored⟩
  rcases of_recordIn_restart hr with hold | ⟨st, cpk, hst, hlisted⟩
  · exact h.file v r hold
  · by_cases hcpk : cpk = pk
    · -- the metadata of the community itself, after the merge
      subst hcpk
      have hnew : (n.app.restart P).nodeStore = some (mergeMembers n.app.files st) := by
        unfold AppState.restart
        rw [hst]
        rfl
      exact hstored v r (storedIn_of_recordAt hnew hlisted.record)
    · exact hkept.populated dht st cpk v r rfl hst hcpk hlisted

/-- No input that meets the condition brings a record of the user back. -/
theorem Cleared.step (h : Cleared P pk c u n.app) (hjoin : NoRejoin P u n i)
    (hkept : RemovalKept P pk c u n i) : Cleared P pk c u (Node.step P n i).app := by
  cases i with
  | event env e => exact h.event hjoin hkept
  | rpc env call => exact h.own (rpc_own env n.app call)
  | connect conn => exact h
  | request conn env remote req => exact h.request hkept
  | restart dht => exact h.restart hkept

/-! ## What is left to the user -/

theorem Cleared.notAMember (h : Cleared P pk c u s) : NotAMember P pk u s := by
  intro st k hst hk
  -- a stored record with a key of the user would be a record of the user
  have hnone : ∀ m, st.meta? pk = some m → ∀ r ∈ m.members.vals, r.publicKey ≠ k := by
    intro m hm r hr hkey
    obtain ⟨v, hv⟩ := Dict.mem_vals.mp hr
    have hrec : st.recordAt pk v = some r := by
      rw [NodeStore.recordAt, hm]
      exact hv
    have hforeign := h.stored v r (storedIn_of_recordAt hst hrec)
    exact hforeign.2 (.inr (by rw [hkey]; exact hk))
  refine ⟨?_, fun m hm => ?_⟩
  · unfold isKnownMember
    cases hm : st.meta? pk with
    | none => rfl
    | some m =>
      dsimp only
      rw [List.any_eq_false]
      intro r hr
      simpa using hnone m hm r hr
  · unfold clientCrypto
    rw [Option.bind_some, Option.map_eq_none_iff, List.find?_eq_none]
    intro r hr
    simpa using hnone m hm r hr

theorem Cleared.not_wrapped (h : Cleared P pk c u s) {env : Env} {key : Key}
    {uid : UserId} (hu : uid ∈ wrapForAll P env s c key) : uid.text ≠ u := by
  obtain ⟨v, r, hr, rfl⟩ := mem_wrapForAll_iff.mp hu
  exact fun heq => (h.table v r hr).2 (.inl heq)

theorem lookup_channelCreate {env : Env} {p : CreateChannelParams}
    (hok : (s.channelCreate P env p).2 = .ok reply)
    (h : (s.channelCreate P env p).1.channels.lookup (ChannelId.mk (env.ulid 0)).text = some ch) :
    ch.encryptedChannelKey = wrapForAll P (env.skip 1) s p.communityId (env.key 0) := by
  obtain ⟨old, ulid, _, _, heq⟩ := channelCreate_ok hok
  rw [heq] at h
  have hins : (s.channels.insert (ChannelId.mk (env.ulid 0)).text
      (s.newChannel P env p ⟨ulid⟩)).lookup (ChannelId.mk (env.ulid 0)).text = some ch := h
  rw [AList.lookup_insert] at hins
  cases hins
  rfl

theorem lookup_channelRotateKey {env : Env} {p : ChannelParams}
    (hok : (s.channelRotateKey P env p).2 = .ok reply)
    (h : (s.channelRotateKey P env p).1.channels.lookup p.channelId = some ch) :
    ch.encryptedChannelKey = wrapForAll P (env.skip 1) s p.communityId (env.key 0) := by
  obtain ⟨old, signed, commands, _, _, heq⟩ := channelRotateKey_ok hok
  rw [heq] at h
  have hins : (rotated P env s p old).channels.lookup p.channelId = some ch := h
  unfold rotated at hins
  rw [channels_storeRotation] at hins
  have hput : (s.channels.insert p.channelId (s.rotatedChannel P env p old)).lookup
      p.channelId = some ch := hins
  rw [AList.lookup_insert] at hput
  cases hput
  rfl

theorem Cleared.notWrapped (h : Cleared P pk c u n.app)
    (hkept : RemovalKept P pk c u n i) : NotWrapped P c u n.app i where
  created := by
    intro env p reply ch _ hc hok hch uid huid
    rw [lookup_channelCreate hok hch, hc] at huid
    exact h.not_wrapped huid
  rotated := by
    intro env p old reply ch hi hold hc hok hch uid huid
    -- the key is wrapped for the members of the community that the call names
    rw [lookup_channelRotateKey hok hch, hkept.rotated env p old hi hold hc] at huid
    exact h.not_wrapped huid

/-- The removal takes the record of the user out of the table and out of the file. -/
theorem cleared_of_removes {env : Env} {call : RpcCall} (hcall : Removes c u call)
    (hok : (n.app.rpc P env call).2 = .ok .done) (h : RemovalClean P pk c u n.app) :
    Cleared P pk c u (Node.step P n (.rpc env call)).app := by
  have hown := rpc_own (P := P) env n.app call
  have hmembers : (n.app.rpc P env call).1.members =
        n.app.members.adjust c (fun list => list.erase u) ∧
      (n.app.rpc P env call).1.files.members = (n.app.rpc P env call).1.members := by
    cases hcall with
    | kick =>
      unfold AppState.rpc memberKick at hok ⊢
      dsimp only at hok ⊢
      split at hok
      · cases hok
      · cases hok
      · exact ⟨rfl, rfl⟩
    | ban =>
      unfold AppState.rpc memberBan at hok ⊢
      dsimp only at hok ⊢
      split at hok
      · cases hok
      · cases hok
      · exact ⟨rfl, rfl⟩
  have htable : ∀ v r, recordIn (n.app.rpc P env call).1.members c v = some r →
      Foreign P u v r := by
    intro v r hr
    rw [hmembers.1] at hr
    obtain ⟨hold, hne⟩ := of_recordIn_remove hr
    have hv : v ≠ u := fun heq => hne ⟨rfl, heq⟩
    exact ⟨hv, h.table v r hv hold⟩
  refine ⟨?_, htable, fun v r hr => ?_, fun v r hr => ?_⟩
  · have hkey : (Node.step P n (.rpc env call)).app.signingKey = n.app.signingKey :=
      hown.signingKey
    rw [peerId_congr hkey]
    exact h.self
  · have hr' : recordIn (n.app.rpc P env call).1.files.members c v = some r := hr
    rw [hmembers.2] at hr'
    exact htable v r hr'
  · rcases hown.stored pk v r hr with hold | hself
    · exact h.stored v r hold
    · exact foreign_own hself h.self

/-- A removal of which the store keeps nothing lasts in every run whose inputs bring nothing of
the user back. -/
theorem revocation_holds {n : Node} {env : Env} {call : RpcCall} {is : List NodeInput}
    (hclean : RemovalClean P pk c u n.app)
    (h : Along (Node.step P) (RemovalKept P pk c u) (Node.step P n (.rpc env call)) is) :
    RevocationHolds P pk c u n env call is := by
  intro hcall hok _ hjoin
  have hstart := cleared_of_removes hcall hok hclean
  -- induction over the run, with `Cleared` as the invariant
  have hreached : ∀ pre, pre <+: is →
      Cleared P pk c u (run (Node.step P) (Node.step P n (.rpc env call)) pre).app := by
    intro pre hpre
    exact (hjoin.and h).invariant_reached (I := fun t : Node => Cleared P pk c u t.app)
      (fun t i ht hi => ht.step hi.1 hi.2) hstart hpre
  refine ⟨fun pre hpre => (hreached pre hpre).notAMember, ?_⟩
  rintro pre i post rfl
  exact (hreached pre (List.prefix_append pre (i :: post))).notWrapped h.at_split

end

/-! ## A removal that does not last -/

theorem memberKick_ok {env : Env} {p : KickBanParams}
    (hcaller : (s.callerRefusal P p.communityId MembershipRecord.isPrivileged
      "insufficient permissions: moderator or admin required").isNone = true)
    (hmember : (member? s.toTables p.communityId p.userId).isSome = true) :
    (s.rpc P env (.memberKick p)).2 = .ok .done := by
  obtain ⟨removed, hremoved⟩ := Option.isSome_iff_exists.mp hmember
  show (s.memberKick P env p).2 = .ok .done
  unfold memberKick
  rw [Option.isNone_iff_eq_none.mp hcaller, hremoved]

namespace Sample

/-- The clocks and random values of the call that founds the community. -/
def foundingEnv : Env := { env with ulid := fun i => BitVec.ofNat 128 (5 + i) }

/-- The user of another signing key, who joins the community. -/
def joiner : String := (record 20 [.member]).userId.text

def joined : Node :=
  run (Node.step (prims [.memberJoined (record 20 [.member])] [])) (node (app 30))
    [.rpc foundingEnv (.communityCreate (createParams "first")),
      .event env (.messageReceived (communityTopic community.text) [0] none)]

/-- The node may remove the joiner, and has banned nobody. -/
theorem joined_state :
    let P := prims [.memberJoined (record 20 [.member])] []
    (joined.app.callerRefusal P community.text MembershipRecord.isPrivileged
        "insufficient permissions: moderator or admin required").isNone = true ∧
      (member? joined.app.toTables community.text joiner).isSome = true ∧
      communityPk? joined.app.toTables community.text = some 31 ∧
      joined.app.bans.entries.isEmpty = true ∧ joined.app.files.bans.entries.isEmpty = true := by
  decide +kernel

def admin : AppState :=
  withMembers (withCommunity (app 30) 30) [record 30 [.admin], record 20 [.member]]

theorem of_recordIn_admin (h : recordIn admin.members c v = some r) :
    (r = record 30 [.admin] ∨ r = record 20 [.member]) ∧ r.userId.text = v := by
  obtain ⟨list, hlist, hr⟩ := Option.bind_eq_some_iff.mp h
  rcases Dict.of_lookup_insertAll hlist with hmem | hempty
  · obtain ⟨-, rfl⟩ := Prod.mk.inj (List.mem_singleton.mp hmem)
    obtain ⟨hmem, huser⟩ := of_lookup_keyByUser hr
    exact ⟨by simpa using hmem, huser⟩
  · cases hempty

end Sample

open Sample in
/-- The metadata that a join wrote keep the record of a member who is kicked. -/
theorem kicked_member_still_known :
    ¬ RevocationHolds (prims [.memberJoined (record 20 [.member])] []) 31 community.text joiner
      joined env (.memberKick ⟨community.text, joiner⟩) [] := by
  intro h
  obtain ⟨hcaller, hmember, hpk, -, -⟩ := joined_state
  have hgone := (h .kick (memberKick_ok hcaller hmember) hpk trivial).1 [] List.prefix_rfl
  -- the record of the user has the key 21
  have hknown : ((Node.step (prims [.memberJoined (record 20 [.member])] []) joined
      (.rpc env (.memberKick ⟨community.text, joiner⟩))).app.nodeStore.map
        fun st => isKnownMember st 31 (some 21)) = some true := by decide +kernel
  obtain ⟨st, hst, hmember⟩ := Option.map_eq_some_iff.mp hknown
  have hnot := (hgone st 21 hst (by decide +kernel)).1
  rw [hmember] at hnot
  cases hnot

/-- A new channel brings no record of a user. -/
theorem removalKept_channelCreate {pk : Key} (env : Env)
    (p : CreateChannelParams) : RemovalKept P pk c u n (.rpc env (.channelCreate p)) where
  received := by
    intro env' m he
    cases he
  pushed := by
    intro conn env' remote manifest channels channelKeys members he
    cases he
  merged := by
    intro dht c' v r he
    cases he
  populated := by
    intro dht st cpk v r he
    cases he
  rotated := by
    intro env' p' ch he
    cases he

open Sample in
theorem revocation_holds_channelCreate :
    let P := prims [] []
    let kick : RpcCall := .memberKick ⟨community.text, joiner⟩
    (admin.rpc P env kick).2 = .ok .done ∧
      RevocationHolds P 31 community.text joiner (node admin) env kick
        [.rpc env (.channelCreate ⟨community.text, "general", .text⟩)] := by
  refine ⟨memberKick_ok (by decide +kernel) (by decide +kernel), revocation_holds ?_ ⟨?_, trivial⟩⟩
  · refine ⟨by decide +kernel, fun v r hv hr => ?_, fun v r hr => ?_⟩
    · obtain ⟨rfl | rfl, huser⟩ := of_recordIn_admin hr
      · unfold Concerns
        decide +kernel
      · exact absurd huser.symm hv
    · cases hr
  · exact removalKept_channelCreate _ _

/-! ## Bans -/

/-- A banned user is not in the table of members. -/
def BansEnforced (s : AppState) : Prop :=
  ∀ c u, u ∈ banList s.toTables c → recordIn s.members c u = none

/-- The inputs of a run: bans, events of the network, and restarts. -/
inductive BanInput : NodeInput → Prop
  | ban {env : Env} {p : KickBanParams} : BanInput (.rpc env (.memberBan p))
  | event {env : Env} {e : SwarmEvent} : BanInput (.event env e)
  | restart {dht : Option DhtState} : BanInput (.restart dht)

/-- The bans are saved, and enforced in the table and in the file of the members. -/
structure BansKept (s : AppState) : Prop where
  table : BansEnforced s
  saved : s.files.bans = s.bans
  file : ∀ c u, u ∈ banList s.files c → recordIn s.files.members c u = none

section

variable (P : Prims)

/-- The condition on one input: a fetched manifest lists no user who is banned in its community,
and no metadata that a restart reads list one who is banned in the community they name. -/
structure NoBannedListed (n : Node) (i : NodeInput) : Prop where
  received : ∀ env m, i = .event env (.manifestReceived m) → m.manifest.verify P = true →
    ∀ r ∈ m.members, r.userId.text ∉ banList n.app.toTables m.communityId
  populated : ∀ dht st cpk c v r, i = .restart dht → n.app.nodeStore = some st →
    Listed (mergeMembers n.app.files st) cpk c v r → v ∉ banList n.app.files c

/-- In no state of the run is a banned user a member. -/
def BansHold (n : Node) (is : List NodeInput) : Prop :=
  (∀ i ∈ is, BanInput i) → ∀ pre, pre <+: is → BansEnforced (run (Node.step P) n pre).app

variable {P}

/-- Entries that are not banned are the same as bans that are enforced. -/
theorem eq_none_of_not_banned
    (h : ∀ r, recordIn t c u = some r → u ∉ bans) (hu : u ∈ bans) : recordIn t c u = none := by
  cases hr : recordIn t c u with
  | none => rfl
  | some r => exact absurd hu (h r hr)

theorem not_banned_of_eq_none (h : u ∈ bans → recordIn t c u = none)
    (hr : recordIn t c u = some r) : u ∉ bans := by
  intro hu
  rw [h hu] at hr
  cases hr

theorem banList_congr {t t' : Tables} (h : t'.bans = t.bans) (c : String) :
    banList t' c = banList t c := by
  unfold banList
  rw [h]

theorem BansKept.event {env : Env} (h : BansKept n.app)
    (hi : NoBannedListed P n (.event env e)) : BansKept (n.app.processEvent P env e) := by
  have hsaves := processEvent_saves (P := P) env n.app e
  -- no event changes the bans, so only a new record can break them
  have htable : BansEnforced (n.app.processEvent P env e) := by
    intro c u hu
    rw [banList_congr hsaves.bans] at hu
    refine eq_none_of_not_banned (fun r hr => ?_) hu
    cases origin_processEvent hr with
    | kept hold => exact not_banned_of_eq_none (h.table c u) hold
    | joined _ hacc hc huser =>
      subst hc huser
      exact hacc.2
    | roleUpdated _ _ _ _ hold _ => exact not_banned_of_eq_none (h.table c u) hold
    | received hv hc hmem huser =>
      subst hc huser
      exact hi.received env _ rfl hv r hmem
    | announced _ _ _ _ hban _ => exact hban
  refine ⟨htable, ?_, fun c u hu => ?_⟩
  · rw [hsaves.fileBans, hsaves.bans]
    exact h.saved
  · rw [banList_congr hsaves.fileBans] at hu
    rcases hsaves.members with hsaved | ⟨hfile, -⟩
    · -- the file is the new table, and its bans are those in memory
      rw [hsaved]
      refine htable c u ?_
      rwa [banList_congr hsaves.bans, ← banList_congr h.saved]
    · rw [hfile]
      exact h.file c u hu

theorem recordIn_remove_of_none {c' u' : String} (h : recordIn t c' u' = none) :
    recordIn (t.adjust c fun list => list.erase u) c' u' = none := by
  cases hr : recordIn (t.adjust c fun list => list.erase u) c' u' with
  | none => rfl
  | some r =>
    rw [(of_recordIn_remove hr).1] at h
    cases h

theorem recordIn_remove_self (t : MemberTable) (c u : String) :
    recordIn (t.adjust c fun list => list.erase u) c u = none := by
  cases hr : recordIn (t.adjust c fun list => list.erase u) c u with
  | none => rfl
  | some r => exact absurd ⟨rfl, rfl⟩ (of_recordIn_remove hr).2

/-- A ban removes the user whom it adds to the list. -/
theorem BansKept.ban (h : BansKept s) (env : Env) (p : KickBanParams) :
    BansKept (s.memberBan P env p).1 := by
  unfold memberBan
  split
  · exact h
  · exact h
  · have hall : ∀ c u,
        u ∈ ((s.bans.upsert p.communityId [] fun list => list ++ [p.userId]).lookup c).getD [] →
        recordIn (s.members.adjust p.communityId fun list => list.erase p.userId) c u = none := by
      intro c u hu
      rw [Dict.lookup_upsert] at hu
      split at hu
      · next hc =>
        subst hc
        rcases List.mem_append.mp hu with hold | hnew
        · exact recordIn_remove_of_none (h.table _ u hold)
        · rw [List.mem_singleton.mp hnew]
          exact recordIn_remove_self s.members _ _
      · exact recordIn_remove_of_none (h.table c u hu)
    exact ⟨hall, rfl, hall⟩

theorem BansKept.restart (h : BansKept n.app)
    (hi : NoBannedListed P n (.restart dht)) : BansKept (n.app.restart P) := by
  refine ⟨fun c u hu => ?_, (bans_restart n.app).symm, h.file⟩
  rw [banList_congr (bans_restart n.app)] at hu
  refine eq_none_of_not_banned (fun r hr => ?_) hu
  rcases of_recordIn_restart hr with hold | ⟨st, cpk, hst, hlisted⟩
  · exact not_banned_of_eq_none (h.file c u) hold
  · exact hi.populated dht st cpk c u r rfl hst hlisted

theorem BansKept.step (h : BansKept n.app) (hin : BanInput i)
    (hi : NoBannedListed P n i) : BansKept (Node.step P n i).app := by
  cases hin with
  | ban => exact h.ban _ _
  | event => exact h.event hi
  | restart => exact h.restart hi

/-- In a run whose fetched manifests and stored metadata list no banned user, no banned user is a
member in any state. -/
theorem bans_enforced {n : Node} {is : List NodeInput} (hs : BansKept n.app)
    (h : Along (Node.step P) (NoBannedListed P) n is) : BansHold P n is := by
  intro hin pre hpre
  have hall : Along (Node.step P) (fun t i => BanInput i ∧ NoBannedListed P t i) n is :=
    (along_of_forall fun _ => hin).and h
  have hkept := hall.invariant_reached (I := fun t : Node => BansKept t.app)
    (fun t i ht hi => ht.step hi.1 hi.2) hs hpre
  exact hkept.table

end

/-! ## A ban that does not last -/

theorem BansKept.of_no_bans (h : s.bans.entries.isEmpty = true)
    (hfile : s.files.bans.entries.isEmpty = true) : BansKept s := by
  have hbans : s.bans = ∅ := AList.ext (List.isEmpty_iff.mp h)
  have hfiles : s.files.bans = ∅ := AList.ext (List.isEmpty_iff.mp hfile)
  refine ⟨fun c u hu => ?_, by rw [hbans, hfiles], fun c u hu => ?_⟩
  · unfold banList at hu
    rw [hbans] at hu
    cases hu
  · unfold banList at hu
    rw [hfiles] at hu
    cases hu

theorem noBannedListed_ban (env : Env) (p : KickBanParams) :
    NoBannedListed P n (.rpc env (.memberBan p)) where
  received := by
    intro env' m he
    cases he
  populated := by
    intro dht st cpk c v r he
    cases he

theorem noBannedListed_gossip {env : Env} (topic : String) (data : Bytes) (source : Option String) :
    NoBannedListed P n (.event env (.messageReceived topic data source)) where
  received := by
    intro env' m he
    cases he
  populated := by
    intro dht st cpk c v r he
    cases he

open Sample in
/-- A restart takes the record of a banned user from the metadata that the join wrote. -/
theorem banned_member_restored :
    let P := prims [.memberJoined (record 20 [.member])] []
    BansKept joined.app ∧
      ¬ BansHold P joined [.rpc env (.memberBan ⟨community.text, joiner⟩), .restart none] := by
  obtain ⟨-, -, -, hbans, hfile⟩ := joined_state
  refine ⟨.of_no_bans hbans hfile, fun h => ?_⟩
  have hin : ∀ i ∈ [NodeInput.rpc env (.memberBan ⟨community.text, joiner⟩), .restart none],
      BanInput i := by
    intro i hi
    rcases List.mem_pair.mp hi with rfl | rfl
    · exact .ban
    · exact .restart
  have hnone := h hin _ List.prefix_rfl community.text joiner (by decide +kernel)
  have hsome := congrArg Option.isSome hnone
  revert hsome
  decide +kernel

open Sample in
/-- The banned user sends its record again. -/
theorem bans_enforced_rejoin :
    let P := prims [.memberJoined (record 20 [.member])] []
    let n := node { admin with files := admin.toTables }
    let is : List NodeInput := [.rpc env (.memberBan ⟨community.text, joiner⟩),
      .event env (.messageReceived (communityTopic community.text) [0] none)]
    joiner ∈ banList (run (Node.step P) n is).app.toTables community.text ∧ BansHold P n is := by
  refine ⟨by decide +kernel, bans_enforced (.of_no_bans (by decide +kernel) (by decide +kernel)) ?_⟩
  exact ⟨noBannedListed_ban _ _, noBannedListed_gossip _ _ _, trivial⟩

end BitCord
