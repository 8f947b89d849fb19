import BitCord.Invite
import BitCord.Metadata

/-!
# The manifest that a node serves

The creator of a community has its manifest twice: in the table of communities, which the RPC
methods read, and in the metadata of the node store, from which `FetchManifest` is answered.
`channel_create` and `channel_reorder` write both. `channel_delete` writes the channels and keys of
the metadata but not its manifest, and `community_update_manifest` does not touch the store
(`manifest_served_iff`). A deleted channel stays in the manifest that is served
(`deleted_channel_served`).
-/

namespace BitCord

open Lib Lib.Run AppState

variable {c' : String} {old : SignedManifest} {g : CommunityMeta → CommunityMeta} {call : RpcCall}

/-- The calls by which an admin changes the manifest. -/
inductive AdminCall : RpcCall → Prop
  | channelCreate (p : CreateChannelParams) : AdminCall (.channelCreate p)
  | channelDelete (p : ChannelParams) : AdminCall (.channelDelete p)
  | channelReorder (p : ReorderChannelsParams) : AdminCall (.channelReorder p)
  | updateManifest (p : UpdateManifestParams) : AdminCall (.communityUpdateManifest p)

namespace AppState

/-- The manifest that a fetch finds. -/
def stored? (s : AppState) (pk : Key) : Option SignedManifest :=
  (s.storedMeta? pk).bind fun m => m.manifest

/-- The node has one community, with metadata in its store. -/
structure Hosts (s : AppState) (c : String) (pk : Key) : Prop where
  known : ∃ signed, s.communities.lookup c = some signed ∧ signed.manifest.publicKey = pk
  only : ∀ c' ∈ s.communities, c' = c
  stored : ∃ m, s.storedMeta? pk = some m

section

variable (P : Prims)

/-- A `FetchManifest` on any authenticated connection returns the manifest of the table. -/
def ServesTable (s : AppState) (c : String) (pk : Key) : Prop :=
  ∀ (env : Env) (remote : NodeAddr) (conn : Conn), s.nodeStore = some conn.services.store →
    conn.session.isAuthenticated = true →
    ∃ signed channels keys members, s.communities.lookup c = some signed ∧
      (dispatch P env remote conn (.fetchManifest pk)).2 = .manifest signed channels keys members

/-- A call that writes the table only passes the checks of the code; the manifest is the one that
it signs. -/
inductive TableOnly (s : AppState) : RpcCall → SignedManifest → Prop
  | channelDelete {p : ChannelParams} {ch : ChannelManifest} {old : SignedManifest} {ulid : Ulid}
      (seed : s.seedRefusal p.communityId = none)
      (channel : s.channels.lookup p.channelId = some ch)
      (known : s.communities.lookup p.communityId = some old)
      (id : parseUlid p.channelId = some ulid) :
      TableOnly s (.channelDelete p) (s.resign P old.manifest
        (old.manifest.channelIds.filter fun c => decide (c ≠ ⟨ulid⟩)))
  | updateManifest {p : UpdateManifestParams} {old : SignedManifest}
      (refusal : s.updateRefusal p = none)
      (known : s.communities.lookup p.communityId = some old)
      (admin : s.isManifestAdmin P old.manifest = true)
      -- a new first seed node needs a fingerprint
      (pinned : (p.seedNodes.getD old.manifest.seedNodes).headD "" ≠ "" →
        (p.seedNodes.getD old.manifest.seedNodes).headD "" ≠ old.manifest.seedNodes.headD "" →
        (p.seedFingerprintHex.bind parseFingerprintHex).getD 0 ≠ 0) :
      TableOnly s (.communityUpdateManifest p) (s.updatedBy P old.manifest p)

end

variable {P : Prims} {s s' : AppState} {c : String} {pk : Key}

/-! ## The stored manifest -/

theorem mapStore_storeManifest (s : AppState) (signed : SignedManifest) :
    (s.mapStore fun st => storeManifest st signed) =
      s.updateMeta signed.manifest.publicKey fun m => { m with manifest := some signed } := rfl

theorem servesTable_iff (hs : Hosts s c pk) :
    ServesTable P s c pk ↔ s.stored? pk = s.communities.lookup c := by
  obtain ⟨signed, hsigned, -⟩ := hs.known
  obtain ⟨m, hm⟩ := hs.stored
  obtain ⟨st, hst, hmeta⟩ := Option.bind_eq_some_iff.mp hm
  have hstored : s.stored? pk = st.manifest? pk := by
    unfold stored? NodeStore.manifest?
    rw [hm, hmeta]
  have hfetch : ∀ (env : Env) (remote : NodeAddr) (conn : Conn),
      conn.session.isAuthenticated = true →
      (dispatch P env remote conn (.fetchManifest pk)).2 = handleFetchManifest P env conn pk := by
    intro env remote conn hauth
    dsimp only [dispatch]
    rw [hauth]
    rfl
  rw [hstored]
  constructor
  · intro h
    -- one connection is enough to see what the store has
    let env : Env := ⟨0, 0, fun _ => 0, fun _ => 0, fun _ => 0, []⟩
    let conn : Conn := ⟨⟨some 0, []⟩, ⟨st, none, 0, none, [], []⟩⟩
    obtain ⟨served, _, _, _, hserved, hresp⟩ := h env ⟨.v4 0, 0⟩ conn hst rfl
    rw [hfetch _ _ _ rfl] at hresp
    cases hman : st.manifest? pk with
    | none =>
      obtain ⟨code, msg, herr⟩ := handleFetchManifest_of_none (P := P) (c := conn) env hman
      cases herr.symm.trans hresp
    | some found =>
      obtain ⟨_, _, _, hfound⟩ := handleFetchManifest_of_some (P := P) (c := conn) env hman
      rw [hserved, (NodeResponse.manifest.inj (hfound.symm.trans hresp)).1]
  · intro h env remote conn hconn hauth
    have hstore : conn.services.store = st := Option.some.inj (hconn.symm.trans hst)
    have hman : conn.services.store.manifest? pk = some signed := by
      rw [hstore, h, hsigned]
    obtain ⟨channels, keys, members, hresp⟩ := handleFetchManifest_of_some (P := P) env hman
    exact ⟨signed, channels, keys, members, hsigned, (hfetch env remote conn hauth).trans hresp⟩

/-! ## What a call writes -/

/-- A new manifest of the community is in the table, and `g` changed the metadata. -/
structure Writes (s : AppState) (c : String) (pk : Key) (new : SignedManifest)
    (g : CommunityMeta → CommunityMeta) (s' : AppState) : Prop where
  key : new.manifest.publicKey = pk
  communities : s'.communities = s.communities.insert c new
  metadata : s'.storedMeta? pk = (s.storedMeta? pk).map g

theorem Hosts.of_lookup (hs : Hosts s c pk)
    (h : s.communities.lookup c' = some old) : c' = c ∧ old.manifest.publicKey = pk := by
  have hc : c' = c := hs.only c' (AList.lookup_isSome.mp (Option.isSome_of_eq_some h))
  obtain ⟨signed, hsigned, hpk⟩ := hs.known
  rw [hc, hsigned] at h
  exact ⟨hc, Option.some.inj h ▸ hpk⟩

theorem Hosts.of_writes (hs : Hosts s c pk) {new : SignedManifest}
    (h : Writes s c pk new g s') : Hosts s' c pk := by
  obtain ⟨m, hm⟩ := hs.stored
  refine ⟨⟨new, ?_, h.key⟩, fun c' hc' => ?_, ⟨g m, ?_⟩⟩
  · rw [h.communities, AList.lookup_insert]
  · rw [h.communities, AList.mem_insert] at hc'
    exact hc'.elim id (hs.only c')
  · rw [h.metadata, hm, Option.map_some]

theorem Writes.servesTable_iff {new : SignedManifest}
    (h : Writes s c pk new g s') (hs : Hosts s c pk) :
    ServesTable P s' c pk ↔ (s.storedMeta? pk).bind (fun m => (g m).manifest) = some new := by
  rw [AppState.servesTable_iff (hs.of_writes h), h.communities, AList.lookup_insert]
  unfold stored?
  rw [h.metadata, Option.bind_map]
  rfl

/-- What a call does to the two copies of the manifest. -/
inductive CallEffect (P : Prims) (s : AppState) (c : String) (pk : Key) (call : RpcCall) :
    RpcResult → Prop
  | refused {s' : AppState} {e : RpcError} (communities : s'.communities = s.communities)
      (nodeStore : s'.nodeStore = s.nodeStore) : CallEffect P s c pk call (s', .error e)
  /-- The call fails after it wrote the table. -/
  | failed {s' : AppState} {e : RpcError} {new : SignedManifest} (h : Writes s c pk new id s') :
      CallEffect P s c pk call (s', .error e)
  | both {s' : AppState} {r : RpcReply} {new : SignedManifest}
      {g : CommunityMeta → CommunityMeta} (h : Writes s c pk new g s')
      (hg : ∀ m, (g m).manifest = some new) : CallEffect P s c pk call (s', .ok r)
  | table {s' : AppState} {r : RpcReply} {new : SignedManifest} (h : TableOnly P s call new) :
      CallEffect P s c pk call (s', .ok r)

theorem writes_of_eq {new : SignedManifest} (hkey : new.manifest.publicKey = pk)
    (hc : s'.communities = s.communities.insert c new) (hst : s'.nodeStore = s.nodeStore) :
    Writes s c pk new id s' := by
  refine ⟨hkey, hc, ?_⟩
  unfold storedMeta?
  rw [hst, Option.map_id, id]

theorem storeChannelCreated_writes (hs : Hosts s c pk)
    (hold : s.communities.lookup c' = some old) (ch : ChannelManifest) (key : Key) :
    ∃ new g, Writes s c pk new g (s.storeChannelCreated P c' old ch key) ∧
      ∀ m, (g m).manifest = some new := by
  obtain ⟨rfl, rfl⟩ := hs.of_lookup hold
  exact ⟨s.resign P old.manifest (old.manifest.channelIds ++ [ch.id]), _,
    ⟨rfl, rfl, storedMeta?_updateMeta _ _ _⟩, fun _ => rfl⟩

theorem storeReordered_writes (hs : Hosts s c pk) {p : ReorderChannelsParams}
    (hold : s.communities.lookup p.communityId = some old) (order : List ChannelId) :
    ∃ new g, Writes s c pk new g (s.storeReordered P p old order) ∧
      ∀ m, (g m).manifest = some new := by
  obtain ⟨rfl, rfl⟩ := hs.of_lookup hold
  unfold storeReordered
  dsimp only
  rw [mapStore_storeManifest]
  exact ⟨s.resign P old.manifest _, _, ⟨rfl, rfl, storedMeta?_updateMeta _ _ _⟩, fun _ => rfl⟩

/-- A call that writes the table only succeeds and keeps the stored manifest. -/
theorem TableOnly.writes (hs : Hosts s c pk) (env : Env) {new : SignedManifest}
    (h : TableOnly P s call new) :
    ∃ s' r g, s.rpc P env call = (s', .ok r) ∧ Writes s c pk new g s' ∧
      ∀ m, (g m).manifest = m.manifest := by
  cases h with
  | @channelDelete p ch old ulid hseed hchannel hknown hid =>
    obtain ⟨rfl, rfl⟩ := hs.of_lookup hknown
    have hcall : s.rpc P env (.channelDelete p) =
        ((s.eraseChannel p.channelId).storeChannelDeleted P p old ch.name ulid, .ok .done) := by
      change s.channelDelete P p = _
      unfold AppState.channelDelete
      rw [hseed, hchannel]
      dsimp only
      have hkept : (s.eraseChannel p.channelId).communities = s.communities := rfl
      rw [hkept, hknown, hid]
    exact ⟨_, _, _, hcall, ⟨rfl, rfl, storedMeta?_updateMeta _ _ _⟩, fun _ => rfl⟩
  | @updateManifest p old hrefusal hknown hadmin hpinned =>
    obtain ⟨rfl, rfl⟩ := hs.of_lookup hknown
    change ∃ s' r g, s.communityUpdateManifest P p = (s', .ok r) ∧ _
    unfold communityUpdateManifest
    rw [hrefusal, hknown]
    dsimp only
    rw [hadmin, Bool.not_true, if_neg Bool.false_ne_true]
    split
    · next hnew =>
      rw [if_neg (hpinned hnew.1 hnew.2)]
      exact ⟨_, _, id, rfl, writes_of_eq rfl rfl rfl, fun _ => rfl⟩
    · exact ⟨_, _, id, rfl, writes_of_eq rfl rfl rfl, fun _ => rfl⟩

theorem effect_channelCreate (hs : Hosts s c pk) (env : Env) (p : CreateChannelParams) :
    CallEffect P s c pk (.channelCreate p) (s.channelCreate P env p) := by
  unfold channelCreate
  split
  · exact .refused rfl rfl
  · split
    · exact .refused rfl rfl
    · exact .refused rfl rfl
    · next old ulid hold hulid =>
      obtain ⟨new, g, hw, hg⟩ := storeChannelCreated_writes (P := P) hs hold
        (s.newChannel P env p ⟨ulid⟩) (env.key 0)
      exact .both hw hg

theorem effect_channelDelete (p : ChannelParams) :
    CallEffect P s c pk (.channelDelete p) (s.channelDelete P p) := by
  unfold channelDelete
  split
  · exact .refused rfl rfl
  · exact .refused rfl rfl
  · next ch hseed hchannel =>
    -- the channel is gone also if the call fails from here on
    dsimp only
    split
    · exact .refused rfl rfl
    · exact .refused rfl rfl
    · next old ulid hold hulid => exact .table (.channelDelete hseed hchannel hold hulid)

theorem effect_channelReorder (hs : Hosts s c pk) (p : ReorderChannelsParams) :
    CallEffect P s c pk (.channelReorder p) (s.channelReorder P p) := by
  unfold channelReorder
  split
  · exact .refused rfl rfl
  · exact .refused rfl rfl
  · exact .refused rfl rfl
  · next order old _ _ hold =>
    obtain ⟨new, g, hw, hg⟩ := storeReordered_writes (P := P) hs hold order
    exact .both hw hg

theorem effect_communityUpdateManifest (hs : Hosts s c pk) (p : UpdateManifestParams) :
    CallEffect P s c pk (.communityUpdateManifest p) (s.communityUpdateManifest P p) := by
  unfold communityUpdateManifest
  split
  · exact .refused rfl rfl
  · exact .refused rfl rfl
  · next old hrefusal hold =>
    dsimp only
    split
    · exact .refused rfl rfl
    · next hadmin =>
      have hadmin' : s.isManifestAdmin P old.manifest = true := by simpa using hadmin
      split
      · split
        · -- the table is written before the fingerprint is asked for
          obtain ⟨rfl, rfl⟩ := hs.of_lookup hold
          have hkey : (s.updatedBy P old.manifest p).manifest.publicKey =
              old.manifest.publicKey := rfl
          exact .failed (writes_of_eq hkey rfl rfl)
        · next hfp => exact .table (.updateManifest hrefusal hold hadmin' fun _ _ => hfp)
      · next hold' =>
        exact .table (.updateManifest hrefusal hold hadmin' fun h h' => absurd ⟨h, h'⟩ hold')

/-- What each of the four calls can do. -/
theorem adminCall_effect (hs : Hosts s c pk) (env : Env) (h : AdminCall call) :
    CallEffect P s c pk call (s.rpc P env call) := by
  cases h with
  | channelCreate p => exact effect_channelCreate hs env p
  | channelDelete p => exact effect_channelDelete p
  | channelReorder p => exact effect_channelReorder hs p
  | updateManifest p => exact effect_communityUpdateManifest hs p

theorem CallEffect.hosts (hs : Hosts s c pk) {env : Env}
    (h : CallEffect P s c pk call (s.rpc P env call)) : Hosts (s.rpc P env call).1 c pk := by
  generalize hresult : s.rpc P env call = result at h
  cases h with
  | refused hcommunities hst =>
    obtain ⟨hknown, honly, hstored⟩ := hs
    refine ⟨?_, ?_, ?_⟩
    · rwa [hcommunities]
    · rwa [hcommunities]
    · unfold storedMeta?
      rwa [hst]
  | failed hw => exact hs.of_writes hw
  | both hw _ => exact hs.of_writes hw
  | table htable =>
    obtain ⟨s', r, g, hcall, hw, -⟩ := htable.writes hs env
    rw [← hresult, hcall]
    exact hs.of_writes hw

/-- One call that succeeds leaves the node serving the table exactly if a call that writes the table
only finds its manifest in the store. -/
theorem adminCall_servesTable_iff (hs : Hosts s c pk) (env : Env) (h : AdminCall call) :
    ((∃ r, (s.rpc P env call).2 = .ok r) → ServesTable P (s.rpc P env call).1 c pk) ↔
      ∀ new, TableOnly P s call new → s.stored? pk = some new := by
  constructor
  · intro hserves new hnew
    obtain ⟨s', r, g, hcall, hw, hg⟩ := hnew.writes hs env
    rw [hcall] at hserves
    have hstored := (hw.servesTable_iff hs).mp (hserves ⟨r, rfl⟩)
    simp only [hg] at hstored
    exact hstored
  · rintro hstore ⟨r, hok⟩
    have heffect := adminCall_effect (P := P) hs env h
    generalize hresult : s.rpc P env call = result at heffect hok
    cases heffect with
    | refused _ _ => cases hok
    | failed _ => cases hok
    | both hw hg =>
      obtain ⟨m, hm⟩ := hs.stored
      rw [hw.servesTable_iff hs, hm, Option.bind_some, hg]
    | table htable =>
      obtain ⟨s', r', g, hcall, hw, hg⟩ := htable.writes hs env
      rw [← hresult, hcall, hw.servesTable_iff hs]
      simp only [hg]
      exact hstore _ htable

end AppState

/-! ## Runs of calls -/

variable {P : Prims}

theorem hosts_run {s : AppState} {c : String} {pk : Key} (hs : Hosts s c pk)
    {calls : List (Env × RpcCall)} (hcalls : ∀ i ∈ calls, AdminCall i.2) :
    Hosts (run (rpcStep P) s calls) c pk := by
  have hadmin : Along (rpcStep P) (fun _ i => AdminCall i.2) s calls :=
    along_of_forall fun _ => hcalls
  exact hadmin.invariant (I := fun t => Hosts t c pk)
    (fun t j ht hj => (adminCall_effect ht j.1 hj).hosts ht) hs

/-- In all runs of the four calls, each call that succeeds leaves the node serving the manifest of
the table, if and only if each `channel_delete` and `community_update_manifest` that passes its
checks finds the manifest that it signs in the store. -/
theorem manifest_served_iff {s : AppState} {c : String} {pk : Key} (hs : Hosts s c pk)
    {calls : List (Env × RpcCall)} (hcalls : ∀ i ∈ calls, AdminCall i.2) :
    (∀ pre i post, calls = pre ++ i :: post →
      (∃ r, ((run (rpcStep P) s pre).rpc P i.1 i.2).2 = .ok r) →
        ServesTable P (run (rpcStep P) s (pre ++ [i])) c pk) ↔
    ∀ pre i post, calls = pre ++ i :: post →
      ∀ new, TableOnly P (run (rpcStep P) s pre) i.2 new →
        (run (rpcStep P) s pre).stored? pk = some new := by
  refine forall_congr' fun pre => forall_congr' fun i => forall_congr' fun post =>
    forall_congr' fun hsplit => ?_
  have hbefore : Hosts (run (rpcStep P) s pre) c pk :=
    hosts_run hs fun j hj => hcalls j (hsplit ▸ List.mem_append_left _ hj)
  rw [run_concat]
  exact adminCall_servesTable_iff hbefore i.1
    (hcalls i (hsplit ▸ List.mem_append_right _ List.mem_cons_self))

namespace Sample

def newsChannel : CreateChannelParams := ⟨createdId, "news", .text⟩

def newsId : String := ChannelId.text ⟨(env.skip 1).ulid 0⟩

theorem hosts_creatorApp : Hosts creatorApp createdId 31 := by
  have hknown : (creatorApp.communities.lookup createdId).map (fun signed =>
      signed.manifest.publicKey) = some 31 := by decide +kernel
  have honly : creatorApp.communities.keys = [createdId] := by decide +kernel
  have hstored : (creatorApp.storedMeta? 31).isSome = true := by decide +kernel
  obtain ⟨signed, hsigned, hkey⟩ := Option.map_eq_some_iff.mp hknown
  refine ⟨⟨signed, hsigned, hkey⟩, fun c' hc' => ?_, Option.isSome_iff_exists.mp hstored⟩
  rw [AList.mem_keys, honly] at hc'
  exact List.mem_singleton.mp hc'

/-- The creator adds a channel and moves it to the front. -/
def addAndMove : List (Env × RpcCall) :=
  [(env.skip 1, .channelCreate newsChannel), (env, .channelReorder ⟨createdId, [newsId]⟩)]

def addAndDelete : List (Env × RpcCall) :=
  [(env.skip 1, .channelCreate newsChannel), (env, .channelDelete ⟨createdId, newsId⟩)]

end Sample

open Sample in
theorem manifest_served_moved :
    ServesTable (prims [] []) (run (rpcStep (prims [] [])) creatorApp addAndMove) createdId 31 := by
  have hcalls : ∀ i ∈ addAndMove, AdminCall i.2 := by
    intro i hi
    rcases List.mem_pair.mp hi with rfl | rfl
    · exact .channelCreate newsChannel
    · exact .channelReorder ⟨createdId, [newsId]⟩
  refine (manifest_served_iff hosts_creatorApp hcalls).mpr ?_ (addAndMove.take 1)
    (env, .channelReorder ⟨createdId, [newsId]⟩) [] rfl (exists_ok_of_isSome (by decide +kernel))
  -- neither call writes the table only
  intro pre i post hsplit new hnew
  have hi : i ∈ addAndMove := hsplit ▸ List.mem_append_right _ List.mem_cons_self
  rcases List.mem_pair.mp hi with rfl | rfl <;> cases hnew

open Sample in
/-- The creator deletes a channel, and the node still serves the manifest that lists it. -/
theorem deleted_channel_served :
    Hosts creatorApp createdId 31 ∧
      (∃ r, ((run (rpcStep (prims [] [])) creatorApp (addAndDelete.take 1)).rpc (prims [] []) env
        (.channelDelete ⟨createdId, newsId⟩)).2 = .ok r) ∧
      ¬ ServesTable (prims [] []) (run (rpcStep (prims [] [])) creatorApp addAndDelete)
        createdId 31 := by
  have hcalls : ∀ i ∈ addAndDelete, AdminCall i.2 := by
    intro i hi
    rcases List.mem_pair.mp hi with rfl | rfl
    · exact .channelCreate newsChannel
    · exact .channelDelete ⟨createdId, newsId⟩
  have hhosts : Hosts (run (rpcStep (prims [] [])) creatorApp addAndDelete) createdId 31 :=
    hosts_run hosts_creatorApp hcalls
  refine ⟨hosts_creatorApp, exists_ok_of_isSome (by decide +kernel), fun hserves => ?_⟩
  have hsame := (servesTable_iff hhosts).mp hserves
  have hversions : ((run (rpcStep (prims [] [])) creatorApp addAndDelete).stored? 31).map
      (fun signed => signed.manifest.version) ≠
      ((run (rpcStep (prims [] [])) creatorApp addAndDelete).communities.lookup createdId).map
        (fun signed => signed.manifest.version) := by decide +kernel
  exact hversions (congrArg _ hsame)

end BitCord
