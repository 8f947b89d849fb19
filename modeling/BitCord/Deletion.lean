import BitCord.Authority
import BitCord.Loop.System

/-!
# Deleted communities and members who were away

The admin of a community deletes it by a tombstone, a manifest that is marked as deleted.
`handle_manifest_received` expects that members who were away find it later, at a peer that still
holds it. But `remove_community_local` takes the manifest out of the store, at the admin and at
every node that takes the tombstone, and a request for it is then answered with 404
(`deletion_learnt_iff`, `deletion_unnoticed`).
-/

namespace BitCord

open Lib Lib.Run AppState

variable {n : Node} {pk : Key} {s : AppState} {c : String} {i : NodeInput}

/-! ## A fetch of a manifest -/

/-- `str::contains`. -/
def textContains (text pattern : String) : Bool :=
  text.toList.tails.any fun t => pattern.toList.isPrefixOf t

/-- The check by which a failed fetch is taken for a missing manifest. -/
def saysNotFound (text : String) : Bool := textContains text "404" || textContains text "not found"

/-- `NodeClient::fetch_manifest`; `debug` is the text of a response that it does not expect. -/
def fetchOutcome (debug : NodeResponse → String) : NodeResponse → Outcome
  | .manifest manifest channels channelKeys members =>
    .answered (.manifest manifest channels channelKeys members)
  | .error code msg =>
    if saysNotFound ("fetch_manifest failed (code=" ++ toString code.toNat ++ "): " ++ msg) then
      .notFound
    else .failed
  | other =>
    if saysNotFound ("unexpected fetch_manifest response: " ++ debug other) then .notFound
    else .failed

section

variable (P : Prims)

/-- The answer of a node to a request; a node without a store has no QUIC server. -/
def Node.answer (n : Node) (conn : Nat) (env : Env) (remote : NodeAddr) (req : ClientRequest) :
    Option NodeResponse :=
  n.app.nodeStore.map fun store => (dispatch P env remote (n.conn P store conn) req).2

/-- A fetch of the manifest of a community by a node, on a connection to a peer. -/
structure ManifestFetch where
  cfg : LoopConfig
  ownAddrs : List String
  debug : NodeResponse → String
  peerId : String
  communityId : String
  communityPk : Key
  conn : Nat
  remote : NodeAddr
  /-- The environments of the peer and of the node. -/
  peerEnv : Env
  env : Env

def ManifestFetch.events (f : ManifestFetch) (signingKey : Key) (response : NodeResponse) :
    List LoopEvent :=
  ((Task.fetchManifest f.peerId f.communityId f.communityPk).actions P f.cfg signingKey f.ownAddrs
    (fetchOutcome f.debug response)).filterMap TaskAction.event?

/-- The node after it processed the outcome of the fetch, answered by the node `n`. -/
def AppState.afterFetch (s : AppState) (f : ManifestFetch) (n : Node) : AppState :=
  match n.answer P f.conn f.peerEnv f.remote (.fetchManifest f.communityPk) with
  | some response => (f.events P s.signingKey response).foldl
      (fun s e => s.processLoopEvent P f.cfg.expand f.env e) s
  | none => s

/-- The manifest that a node hands out on a connection. -/
def Node.served (n : Node) (conn : Nat) (pk : Key) : Option SignedManifest :=
  if (n.sessions conn).isAuthenticated then n.app.nodeStore.bind fun store => store.manifest? pk
  else none

def Node.HasTombstone (n : Node) (pk : Key) (c : String) : Prop :=
  ∃ store signed, n.app.nodeStore = some store ∧ store.manifest? pk = some signed ∧
    signed.verify P = true ∧ signed.manifest.deleted = true ∧ signed.manifest.id.text = c

end

variable {P : Prims}

variable (f : ManifestFetch)

theorem ManifestFetch.events_error (sk : Key) (code : UInt16) (msg : String) :
    f.events P sk (.error code msg) = [] ∨
      f.events P sk (.error code msg) = [.manifestNotFound f.communityId f.peerId] := by
  unfold ManifestFetch.events fetchOutcome
  dsimp only
  split
  · exact .inr rfl
  · exact .inl rfl

/-- An error leaves the node as it is, whatever it says. -/
theorem foldl_events_error (s : AppState) (sk : Key) (code : UInt16) (msg : String) :
    (f.events P sk (.error code msg)).foldl
      (fun s e => s.processLoopEvent P f.cfg.expand f.env e) s = s := by
  rcases f.events_error (P := P) sk code msg with h | h <;> rw [h] <;> rfl

theorem answer_fetchManifest (n : Node) (conn : Nat) (env : Env) (remote : NodeAddr) (pk : Key) :
    n.answer P conn env remote (.fetchManifest pk) = n.app.nodeStore.map fun store =>
      if (n.sessions conn).isAuthenticated then
        handleFetchManifest P env (n.conn P store conn) pk
      else notAuthenticated := by
  unfold Node.answer
  congr 1
  funext store
  unfold dispatch Node.conn
  dsimp only
  cases (n.sessions conn).isAuthenticated <;> rfl

theorem answer_of_not_served {conn : Nat} (h : n.served conn pk = none)
    (env : Env) (remote : NodeAddr) :
    n.answer P conn env remote (.fetchManifest pk) = none ∨
      ∃ code msg, n.answer P conn env remote (.fetchManifest pk) = some (.error code msg) := by
  rw [answer_fetchManifest]
  unfold Node.served at h
  cases hstore : n.app.nodeStore with
  | none => exact .inl rfl
  | some store =>
    rw [hstore] at h
    refine .inr ?_
    rw [Option.map_some]
    split
    · next hauth =>
      rw [if_pos hauth, Option.bind_some] at h
      obtain ⟨code, msg, herr⟩ := handleFetchManifest_of_none (P := P) (c := n.conn P store conn)
        env h
      exact ⟨code, msg, congrArg some herr⟩
    · exact ⟨_, _, rfl⟩

theorem answer_of_served {conn : Nat} {signed : SignedManifest}
    (h : n.served conn pk = some signed) (env : Env) (remote : NodeAddr) :
    ∃ channels keys members, n.answer P conn env remote (.fetchManifest pk) =
      some (.manifest signed channels keys members) := by
  rw [answer_fetchManifest]
  unfold Node.served at h
  split at h
  · next hauth =>
    obtain ⟨store, hstore, hsigned⟩ := Option.bind_eq_some_iff.mp h
    obtain ⟨channels, keys, members, hresp⟩ := handleFetchManifest_of_some (P := P)
      (c := n.conn P store conn) env hsigned
    rw [hstore, Option.map_some, if_pos hauth, hresp]
    exact ⟨channels, keys, members, rfl⟩
  · cases h

/-- The table of communities after a fetch: the manifest that is handed out is taken if it
verifies. -/
theorem communities_afterFetch (hs : s.blocked = false) (f : ManifestFetch) (n : Node) :
    (s.afterFetch P f n).communities =
      match n.served f.conn f.communityPk with
      | some signed =>
        if signed.verify P then takeManifest s.communities signed else s.communities
      | none => s.communities := by
  unfold AppState.afterFetch
  cases hserved : n.served f.conn f.communityPk with
  | none =>
    rcases answer_of_not_served (P := P) hserved f.peerEnv f.remote with h | ⟨code, msg, h⟩
    · rw [h]
    · rw [h]
      dsimp only
      rw [foldl_events_error]
  | some signed =>
    obtain ⟨channels, keys, members, h⟩ :=
      answer_of_served (P := P) hserved f.peerEnv f.remote
    have hevents : f.events P s.signingKey (.manifest signed channels keys members) =
        [.app (.manifestReceived ⟨f.peerId, signed, channels, keys, members⟩)] := rfl
    have hprocess : ∀ m, s.processLoopEvent P f.cfg.expand f.env (.app (.manifestReceived m)) =
        s.handleManifestReceived P f.env m := by
      intro m
      unfold processLoopEvent LoopEvent.toSwarm processEvent
      dsimp only
      rw [if_neg (by rw [hs]; decide)]
    rw [h]
    dsimp only
    rw [hevents, List.foldl_cons, List.foldl_nil, hprocess, communities_handleManifestReceived]

/-- A processor that is stuck takes no outcome. -/
theorem afterFetch_of_blocked (hs : s.blocked = true) (f : ManifestFetch)
    (n : Node) : s.afterFetch P f n = s := by
  have hprocess : ∀ e, s.processLoopEvent P f.cfg.expand f.env e = s := by
    intro e
    unfold processLoopEvent
    split
    · unfold processEvent
      rw [if_pos hs]
    · rfl
  have hfold : ∀ events : List LoopEvent,
      events.foldl (fun s e => s.processLoopEvent P f.cfg.expand f.env e) s = s := by
    intro events
    induction events with
    | nil => rfl
    | cons e events ih => rw [List.foldl_cons, hprocess, ih]
  unfold AppState.afterFetch
  split
  · exact hfold _
  · rfl

theorem hasTombstone_iff_served {conn : Nat}
    (hauth : (n.sessions conn).isAuthenticated = true) (pk : Key) (c : String) :
    n.HasTombstone P pk c ↔ ∃ signed, n.served conn pk = some signed ∧ signed.verify P = true ∧
      signed.manifest.deleted = true ∧ signed.manifest.id.text = c := by
  unfold Node.HasTombstone Node.served
  rw [if_pos hauth]
  simp only [Option.bind_eq_some_iff]
  constructor
  · rintro ⟨store, signed, hstore, hsigned, htombstone⟩
    exact ⟨signed, ⟨store, hstore, hsigned⟩, htombstone⟩
  · rintro ⟨signed, ⟨store, hstore, hsigned⟩, htombstone⟩
    exact ⟨store, signed, hstore, hsigned, htombstone⟩

/-- A known community leaves the table exactly by a tombstone of it. -/
theorem notMem_takeManifest_iff {communities : Dict String SignedManifest}
    (hc : c ∈ communities) (new : SignedManifest) :
    c ∉ takeManifest communities new ↔
      new.manifest.deleted = true ∧ new.manifest.id.text = c := by
  have hc' : communities.lookup c ≠ none := fun h => AList.lookup_eq_none.mp h hc
  rw [← AList.lookup_eq_none, lookup_takeManifest]
  by_cases hid : c = new.manifest.id.text
  · rw [if_pos hid]
    cases new.manifest.deleted <;> simp [hid]
  · rw [if_neg hid]
    exact iff_of_false hc' fun h => hid h.2.symm

/-- A node that has the community loses it by a fetch exactly if the other node hands out a
tombstone. -/
theorem notMem_afterFetch_iff (hc : c ∈ s.communities) (f : ManifestFetch) (n : Node) :
    c ∉ (s.afterFetch P f n).communities ↔ s.blocked = false ∧
      (n.sessions f.conn).isAuthenticated = true ∧ n.HasTombstone P f.communityPk c := by
  cases hs : s.blocked with
  | true =>
    rw [afterFetch_of_blocked hs]
    exact iff_of_false (not_not_intro hc) (fun h => nomatch h.1)
  | false =>
    rw [communities_afterFetch hs]
    cases hauth : (n.sessions f.conn).isAuthenticated with
    | false =>
      have hserved : n.served f.conn f.communityPk = none := by
        unfold Node.served
        rw [hauth]
        rfl
      rw [hserved]
      exact iff_of_false (not_not_intro hc) (fun h => nomatch h.2.1)
    | true =>
      rw [hasTombstone_iff_served hauth]
      cases n.served f.conn f.communityPk with
      | none => exact iff_of_false (not_not_intro hc) (fun ⟨_, _, _, h, _⟩ => nomatch h)
      | some signed =>
        cases hverify : signed.verify P with
        | false => simp [hverify, hc]
        | true =>
          dsimp only
          rw [if_pos hverify, notMem_takeManifest_iff hc]
          simp [hverify]

/-! ## A node that applied the deletion -/

variable (P) in
/-- The inputs by which a node applies the deletion of a community with the key `pk`: the call of an
admin, a tombstone in the gossip, or one that was fetched. -/
inductive AppliesDeletion (n : Node) (c : String) (pk : Key) : NodeInput → Prop
  | call {env : Env} {signed : SignedManifest} (known : n.app.communities.lookup c = some signed)
      (key : signed.manifest.publicKey = pk)
      (admin : n.app.isManifestAdmin P signed.manifest = true) :
      AppliesDeletion n c pk (.rpc env (.communityDelete c))
  | gossip {env : Env} {data : Bytes} {source : Option String} {signed new : SignedManifest}
      (running : n.app.blocked = false) (known : n.app.communities.lookup c = some signed)
      (key : signed.manifest.publicKey = pk)
      (decoded : P.decodeEvent data = some (.manifestUpdate new)) (id : new.manifest.id.text = c)
      (verified : new.verify P = true) (newer : signed.manifest.version < new.manifest.version)
      (tombstone : new.manifest.deleted = true) :
      AppliesDeletion n c pk (.event env (.messageReceived (communityTopic c) data source))
  | fetched {env : Env} {m : ManifestReceived} {signed : SignedManifest}
      (running : n.app.blocked = false) (known : n.app.communities.lookup c = some signed)
      (key : signed.manifest.publicKey = pk) (id : m.manifest.manifest.id.text = c)
      (verified : m.manifest.verify P = true) (tombstone : m.manifest.manifest.deleted = true) :
      AppliesDeletion n c pk (.event env (.manifestReceived m))

/-- The manifest leaves the store in all three ways. -/
theorem AppliesDeletion.nodeStore_eq (h : AppliesDeletion P n c pk i) :
    (n.step P i).app.nodeStore = n.app.nodeStore.map fun st => st.removeCommunity pk := by
  cases h with
  | @call env signed known key admin =>
    subst key
    have hcall : (n.step P (.rpc env (.communityDelete c))).app =
        (n.app.communityDelete P c).1 := rfl
    rw [hcall]
    unfold communityDelete
    rw [known]
    dsimp only
    rw [admin, if_neg (by decide)]
    -- the tombstone is in the table by now, under the same key
    refine nodeStore_removeCommunityLocal ?_
    unfold communityPk? emit
    dsimp only
    rw [AList.lookup_insert]
    rfl
  | @gossip env data source signed new running known key decoded id verified newer tombstone =>
    subst key id
    have hupdate : (n.step P (.event env (.messageReceived (communityTopic new.manifest.id.text)
        data source))).app = n.app.handleManifestUpdate P new source := by
      unfold Node.step processEvent
      dsimp only
      rw [running, if_neg (by decide), isChannelTopic_communityTopic,
        isCommunityTopic_communityTopic, if_neg (by decide), if_pos rfl]
      unfold handleCommunityMessage
      rw [decoded]
    rw [hupdate]
    unfold handleManifestUpdate
    dsimp only
    rw [verified, if_neg (by decide), known]
    dsimp only
    rw [if_neg (UInt64.not_le.mpr newer), if_pos tombstone]
    exact nodeStore_removeCommunityLocal (communityPk?_of_lookup known)
  | @fetched env m signed running known key id verified tombstone =>
    subst key id
    have hreceived : (n.step P (.event env (.manifestReceived m))).app =
        n.app.handleManifestReceived P env m := by
      unfold Node.step processEvent
      dsimp only
      rw [running, if_neg (by decide)]
    rw [hreceived]
    unfold handleManifestReceived
    rw [verified, if_neg (by decide)]
    dsimp only
    rw [if_pos tombstone]
    exact nodeStore_removeCommunityLocal (communityPk?_of_lookup known)

/-- After the deletion the node has nothing to hand out. -/
theorem AppliesDeletion.not_hasTombstone
    (h : AppliesDeletion P n c pk i) (c' : String) : ¬ (n.step P i).HasTombstone P pk c' := by
  rintro ⟨store, signed, hstore, hsigned, -⟩
  rw [h.nodeStore_eq] at hstore
  obtain ⟨st, -, rfl⟩ := Option.map_eq_some_iff.mp hstore
  unfold NodeStore.manifest? at hsigned
  rw [NodeStore.meta?_removeCommunity, if_pos rfl] at hsigned
  cases hsigned

/-- A node applied the deletion of a community and then did anything. A member who asks it for the
manifest drops the community if and only if the store of the node has a tombstone by then, the
connection is authenticated and the processor of the member is not stuck. Right after the deletion
there is no tombstone. -/
theorem deletion_learnt_iff {n : Node} {c : String} {pk : Key} {i : NodeInput}
    (h : AppliesDeletion P n c pk i) :
    (¬ (n.step P i).HasTombstone P pk c) ∧
      ∀ (later : List NodeInput) (s : AppState) (f : ManifestFetch), f.communityPk = pk →
        c ∈ s.communities →
        (c ∉ (s.afterFetch P f (run (Node.step P) (n.step P i) later)).communities ↔
          s.blocked = false ∧
          ((run (Node.step P) (n.step P i) later).sessions f.conn).isAuthenticated = true ∧
          (run (Node.step P) (n.step P i) later).HasTombstone P pk c) := by
  refine ⟨h.not_hasTombstone c, fun later s f hpk hc => ?_⟩
  subst hpk
  exact notMem_afterFetch_iff hc f _

namespace Sample

/-- The node of the creator, with a connection of the user of the key 21. -/
def creatorNode : Node := { node creatorApp with sessions := fun _ => ⟨some 21, []⟩ }

/-- A member who has the manifest of the community. -/
def awayMember : AppState := { app 20 with communities := creatorNode.app.communities }

def lateFetch : ManifestFetch where
  cfg := ⟨fun a => [a], fun _ => "", false, true⟩
  ownAddrs := []
  debug _ := ""
  peerId := hexText 31
  communityId := createdId
  communityPk := 31
  conn := 0
  remote := addr
  peerEnv := env
  env := env

theorem appliesDeletion_creatorNode :
    AppliesDeletion (prims [] []) creatorNode createdId 31
      (.rpc env (.communityDelete createdId)) := by
  have hknown : (creatorNode.app.communities.lookup createdId).map (fun signed =>
      (decide (signed.manifest.publicKey = 31) &&
        creatorNode.app.isManifestAdmin (prims [] []) signed.manifest)) = some true := by
    decide +kernel
  obtain ⟨signed, hsigned, hboth⟩ := Option.map_eq_some_iff.mp hknown
  obtain ⟨hkey, hadmin⟩ := Bool.and_eq_true_iff.mp hboth
  exact .call hsigned (of_decide_eq_true hkey) hadmin

theorem createdId_mem_awayMember : createdId ∈ awayMember.communities := by decide +kernel

end Sample

open Sample in
/-- The creator deletes the community. A member who was away asks for the manifest, is told that
there is none, and keeps the community. -/
theorem deletion_unnoticed :
    AppliesDeletion (prims [] []) creatorNode createdId 31
        (.rpc env (.communityDelete createdId)) ∧
      createdId ∈ awayMember.communities ∧
      createdId ∈ (awayMember.afterFetch (prims [] []) lateFetch
        (creatorNode.step (prims [] []) (.rpc env (.communityDelete createdId)))).communities := by
  refine ⟨appliesDeletion_creatorNode, createdId_mem_awayMember, ?_⟩
  by_contra hgone
  obtain ⟨-, -, htombstone⟩ := (notMem_afterFetch_iff createdId_mem_awayMember lateFetch _).mp hgone
  exact appliesDeletion_creatorNode.not_hasTombstone createdId htombstone

namespace Sample

def tombstone : SignedManifest :=
  CommunityManifest.sign (prims [] [])
    { (app 30).newManifest (prims [] []) env (createParams "name") with
      deleted := true
      version := 2 } 30

/-- Someone who kept the tombstone pushes it to the creator. -/
def pushTombstone : List NodeInput :=
  [.request 0 env addr (.joinCommunity (HostingCert.new (prims [] []) 30 31 maxSeq) none none),
    .request 0 env addr (.pushManifest 31 tombstone [] ∅ [])]

end Sample

open Sample in
/-- With a tombstone in the store of the creator, the member learns of the deletion. -/
theorem deletion_learnt_pushed :
    createdId ∉ (awayMember.afterFetch (prims [] []) lateFetch
      (run (Node.step (prims [] []))
        (creatorNode.step (prims [] []) (.rpc env (.communityDelete createdId)))
        pushTombstone)).communities := by
  refine ((deletion_learnt_iff appliesDeletion_creatorNode).2 pushTombstone awayMember lateFetch rfl
    createdId_mem_awayMember).mpr ⟨rfl, by decide +kernel, ?_⟩
  have hstored : ((run (Node.step (prims [] []))
      (creatorNode.step (prims [] []) (.rpc env (.communityDelete createdId)))
      pushTombstone).app.nodeStore.bind fun store => store.manifest? 31).map (fun signed =>
        (signed.verify (prims [] []) && signed.manifest.deleted &&
          decide (signed.manifest.id.text = createdId))) = some true := by
    decide +kernel
  obtain ⟨signed, hsigned, hall⟩ := Option.map_eq_some_iff.mp hstored
  obtain ⟨store, hstore, hmanifest⟩ := Option.bind_eq_some_iff.mp hsigned
  obtain ⟨hboth, hid⟩ := Bool.and_eq_true_iff.mp hall
  obtain ⟨hverify, hdeleted⟩ := Bool.and_eq_true_iff.mp hboth
  exact ⟨store, signed, hstore, hmanifest, hverify, hdeleted, of_decide_eq_true hid⟩

end BitCord
