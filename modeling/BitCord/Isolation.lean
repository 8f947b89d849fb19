import BitCord.Roles

/-!
# Isolation of communities in the store

The store keys the metadata and the logs of a community by the key of the community, and a new
community gets the key of the node that creates it. Two communities that one identity creates
therefore share both. Nothing else joins two communities in the store (`communities_isolated`).
-/

namespace BitCord

open Lib Lib.Run AppState

variable {s s' : AppState} {pk : Key} {p : CreateCommunityParams} {c : String}

/-- What the operator of a node does with its communities, and the failed join of a seed, which
removes a community. -/
inductive CommunityOp where
  | create (p : CreateCommunityParams)
  | channelCreate (p : CreateChannelParams)
  | messageSend (p : SendMessageParams)
  | leave (communityId : String)
  | delete (communityId : String)
  | joinFailed (communityId reason : String)

namespace CommunityOp

/-- The community that the operation is about; a new community is the one it creates. -/
def target (env : Env) : CommunityOp → String
  | create _ => (CommunityId.mk (env.ulid 0)).text
  | channelCreate p => p.communityId
  | messageSend p => p.communityId
  | leave c => c
  | delete c => c
  | joinFailed c _ => c

end CommunityOp

/-- What the store returns for the key of a community: the metadata, and the messages of every
channel. -/
def AppState.communityView (s : AppState) (pk : Key) :
    Option (Except StoreError (Option CommunityMeta) ×
      (Ulid → UInt64 → Except StoreError (List LogEntry))) :=
  s.nodeStore.map fun st => (st.getCommunityMeta pk, st.getMessages pk)

section

variable (P : Prims)

def opStep (s : AppState) (i : Env × CommunityOp) : AppState :=
  match i.2 with
  | .create p => (s.communityCreate P i.1 p).1
  | .channelCreate p => (s.channelCreate P i.1 p).1
  | .messageSend p => (s.messageSend P i.1 p).1
  | .leave c => (s.communityLeave P i.1 c).1
  | .delete c => (s.communityDelete P c).1
  | .joinFailed c reason => s.processEvent P i.1 (.communityJoinFailed c reason)

/-- The key of the community that the operation is about; a new community gets the key of the
node. -/
def opKey (s : AppState) (i : Env × CommunityOp) : Option Key :=
  match i.2 with
  | .create _ => some (s.ownPk P)
  | op => communityPk? s.toTables (op.target i.1)

/-- No operation of the run changes what the store returns for a community that it is not
about. -/
def CommunitiesIsolated (s : AppState) (is : List (Env × CommunityOp)) : Prop :=
  ∀ pre i post, is = pre ++ i :: post →
    ∀ a pk, a ≠ i.2.target i.1 → communityPk? (run (opStep P) s pre).toTables a = some pk →
      (opStep P (run (opStep P) s pre) i).communityView pk =
        (run (opStep P) s pre).communityView pk

/-- The condition on one operation: no other community of the node has the key of the one that
the operation is about. -/
def KeyApart (s : AppState) (i : Env × CommunityOp) : Prop :=
  ∀ a pk, a ≠ i.2.target i.1 → communityPk? s.toTables a = some pk → opKey P s i ≠ some pk

variable {P}

/-! ## The operations -/

/-- A change of the store that keeps what it returns for a key. -/
theorem communityView_of_map {f : NodeStore → NodeStore} (hs : s'.nodeStore = s.nodeStore.map f)
    (hmeta : ∀ st, (f st).getCommunityMeta pk = st.getCommunityMeta pk)
    (hlog : ∀ st ch since, (f st).getMessages pk ch since = st.getMessages pk ch since) :
    s'.communityView pk = s.communityView pk := by
  unfold communityView
  rw [hs, Option.map_map]
  refine congrArg (fun g => s.nodeStore.map g) (funext fun st => ?_)
  exact Prod.ext (hmeta st) (funext fun ch => funext fun since => hlog st ch since)

theorem communityView_congr (hs : s'.nodeStore = s.nodeStore) (pk : Key) :
    s'.communityView pk = s.communityView pk := by
  unfold communityView
  rw [hs]

theorem communityView_storeCreated {env : Env} {fp : Key} (h : s.ownPk P ≠ pk) :
    (s.storeCreated P env p fp).communityView pk = s.communityView pk := by
  have hs : ∃ m, (s.storeCreated P env p fp).nodeStore =
      s.nodeStore.map fun st => st.setCommunityMeta (s.ownPk P) m := by
    cases hpw : p.hostingPassword with
    | none => exact ⟨_, by simp [storeCreated, putPassword, hpw]; rfl⟩
    | some pw => exact ⟨_, by simp [storeCreated, putPassword, hpw]; rfl⟩
  obtain ⟨m, hs⟩ := hs
  refine communityView_of_map hs (fun st => ?_) fun st ch since => rfl
  rw [NodeStore.getCommunityMeta_setCommunityMeta, if_neg (Ne.symm h)]

theorem communityView_communityCreate {env : Env} (h : s.ownPk P ≠ pk) :
    (s.communityCreate P env p).1.communityView pk = s.communityView pk := by
  rcases communityCreate_cases (P := P) env s p with ⟨e, heq⟩ | ⟨-, t, fp, rfl | rfl, heq⟩
  · rw [heq]
  · rw [heq]
    exact communityView_storeCreated h
  · rw [heq]
    exact communityView_storeCreated h

theorem communityView_channelCreate {env : Env} {p : CreateChannelParams}
    (h : communityPk? s.toTables p.communityId ≠ some pk) :
    (s.channelCreate P env p).1.communityView pk = s.communityView pk := by
  unfold channelCreate
  split
  · rfl
  · split
    · rfl
    · rfl
    · next old ulid hold _ =>
      have hne : pk ≠ old.manifest.publicKey := by
        rintro rfl
        exact h (by rw [communityPk?, hold]; rfl)
      refine communityView_of_map (f := fun st => _) rfl (fun st => ?_) fun st ch since => ?_
      · dsimp only
        split
        · rw [NodeStore.getCommunityMeta_setCommunityMeta]
          exact if_neg hne
        · rfl
      · dsimp only
        split <;> rfl

theorem storeMessage_of_pk {cpk : Key}
    (hpk : communityPk? s.toTables c = some cpk) (raw : RawMessage) :
    storeMessage s c raw = s.nodeStore.map fun st => st.appendMessage cpk raw.channelId.ulid
      raw.nonce raw.ciphertext raw.id.text raw.authorId.text (timestampMillis raw.timestamp) := by
  unfold storeMessage
  rw [hpk]

theorem communityView_messageSend {env : Env} {p : SendMessageParams}
    (h : communityPk? s.toTables p.communityId ≠ some pk) :
    (s.messageSend P env p).1.communityView pk = s.communityView pk := by
  unfold messageSend
  split
  · rfl
  · split
    · rfl
    · rfl
    · rfl
    · cases hpk : communityPk? s.toTables p.communityId with
      | none =>
        refine communityView_congr ?_ pk
        simp [sendText, storeMessage, hpk]
      | some cpk =>
        have hne : cpk ≠ pk := fun heq => h (by rw [hpk, heq])
        refine communityView_of_map (storeMessage_of_pk hpk _) (fun st => rfl) fun st ch since => ?_
        exact NodeStore.getMessages_appendMessage_of_ne st _ _ _ _ _ since fun heq => hne heq.1

theorem communityView_removeCommunityLocal (h : communityPk? s.toTables c ≠ some pk) :
    (s.removeCommunityLocal c).communityView pk = s.communityView pk := by
  cases hpk : communityPk? s.toTables c with
  | none =>
    refine communityView_congr ?_ pk
    simp [removeCommunityLocal, hpk]
  | some cpk =>
    have hne : cpk ≠ pk := fun heq => h (by rw [hpk, heq])
    have hs : (s.removeCommunityLocal c).nodeStore =
        s.nodeStore.map fun st => st.removeCommunity cpk := by
      simp [removeCommunityLocal, hpk]
    refine communityView_of_map hs (fun st => ?_) fun st ch since =>
      NodeStore.getMessages_removeCommunity_of_ne st ch since hne
    rw [NodeStore.getCommunityMeta_removeCommunity, if_neg (Ne.symm hne)]

theorem communityView_communityLeave {env : Env} (h : communityPk? s.toTables c ≠ some pk) :
    (s.communityLeave P env c).1.communityView pk = s.communityView pk := by
  unfold communityLeave
  split
  · exact communityView_removeCommunityLocal (s := s.emit _ _) h
  · rfl

theorem communityPk?_of_insert {t : Tables} {d : Dict String SignedManifest}
    {signed : SignedManifest} (h : t.communities = d.insert c signed)
    (hpk : signed.manifest.publicKey = pk) : communityPk? t c = some pk := by
  rw [communityPk?, h, AList.lookup_insert, Option.map_some, hpk]

/-- The tombstone has the key of the community. -/
theorem communityView_communityDelete (h : communityPk? s.toTables c ≠ some pk) :
    (s.communityDelete P c).1.communityView pk = s.communityView pk := by
  unfold communityDelete
  split
  · rfl
  · next signed hsigned =>
    split
    · rfl
    · dsimp only
      refine communityView_removeCommunityLocal (s := AppState.emit _ _ _) fun heq => h ?_
      rw [← heq, communityPk?, hsigned]
      refine (communityPk?_of_insert rfl ?_).symm
      rfl

/-- An operation changes nothing under a key that is not the key of its community. -/
theorem communityView_opStep {i : Env × CommunityOp}
    (h : opKey P s i ≠ some pk) : (opStep P s i).communityView pk = s.communityView pk := by
  obtain ⟨env, op⟩ := i
  cases op with
  | create p => exact communityView_communityCreate fun heq => h (congrArg some heq)
  | channelCreate p => exact communityView_channelCreate h
  | messageSend p => exact communityView_messageSend h
  | leave c => exact communityView_communityLeave h
  | delete c => exact communityView_communityDelete h
  | joinFailed c reason =>
    unfold opStep processEvent
    dsimp only
    split
    · rfl
    · exact communityView_removeCommunityLocal h

/-- In a run in which the community of every operation has a key of its own, no operation
changes what the store returns for another community. -/
theorem communities_isolated {s : AppState} {is : List (Env × CommunityOp)}
    (h : Along (opStep P) (KeyApart P) s is) : CommunitiesIsolated P s is := by
  rintro pre i post rfl a pk ha hpk
  exact communityView_opStep (h.at_split a pk ha hpk)

end

/-! ## Evaluations -/

namespace Sample

/-- The clocks and random values of another call. -/
def laterEnv : Env := { env with ulid := fun i => BitVec.ofNat 128 (2000 + i) }

end Sample

open Sample in
/-- The second community that a node creates replaces the metadata of the first. -/
theorem second_community_overwrites :
    ¬ CommunitiesIsolated (prims [] []) (app 30)
      [(env, .create (createParams "first")), (laterEnv, .create (createParams "second"))] := by
  intro h
  have hsame := h [(env, .create (createParams "first"))]
    (laterEnv, .create (createParams "second")) [] rfl (CommunityId.mk (env.ulid 0)).text 31
    (by decide +kernel) (by decide +kernel)
  have hmeta := congrArg (Option.map fun v => v.1) hsame
  revert hmeta
  unfold communityView
  rw [Option.map_map, Option.map_map]
  decide +kernel

open Sample in
theorem communities_isolated_create :
    let P := prims [] []
    communityPk? (withCommunity (app 30) 10).toTables community.text = some 11 ∧
      CommunitiesIsolated P (withCommunity (app 30) 10)
        [(env, .create (createParams "first"))] := by
  refine ⟨by decide +kernel, communities_isolated ⟨fun a pk ha hpk hkey => ?_, trivial⟩⟩
  -- the only community of the node has the key 11, and the new one the key 31
  have hpk' : pk = 11 := by
    unfold communityPk? at hpk
    obtain ⟨signed, hsigned, rfl⟩ := Option.map_eq_some_iff.mp hpk
    rcases Dict.of_lookup_insertAll hsigned with hmem | hnone
    · obtain ⟨-, rfl⟩ := Prod.mk.inj (List.mem_singleton.mp hmem)
      rfl
    · cases hnone
  subst hpk'
  exact absurd hkey (by decide +kernel)

end BitCord
