import BitCord.Persistence.Events

/-!
# RPC calls, requests and the members

An RPC call changes the members as the user of the node asks, and brings no record of another user
(`rpc_own`). Of the QUIC requests only `PushManifest` writes records to the store
(`of_recordAt_dispatch`).
-/

namespace BitCord

open Lib

variable {s t s' : AppState} {pk : Key} {v : String} {r : MembershipRecord}

variable (st : NodeStore)

variable (env : Env)

namespace AppState

section

variable {P : Prims}

/-! ## RPC calls -/

variable (P) in
/-- A change that the node makes on its own: it brings no record of another user. -/
structure OwnChange (s s' : AppState) : Prop where
  signingKey : s'.signingKey = s.signingKey
  file : FileFollows s s'
  record : ∀ c v r, recordIn s'.members c v = some r →
    (∃ old, recordIn s.members c v = some old ∧ r.userId = old.userId ∧
      r.publicKey = old.publicKey) ∨ OwnRecord P s v r
  stored : ∀ pk v r, s'.storedIn pk v = some r → s.storedIn pk v = some r ∨ OwnRecord P s v r

namespace OwnChange

/-- The members stay, and no record is new in the store. -/
theorem of_members (hkey : s'.signingKey = s.signingKey)
    (hmem : s'.members = s.members) (hfile : s'.files.members = s.files.members)
    (hstored : ∀ pk v r, s'.storedIn pk v = some r → s.storedIn pk v = some r) :
    OwnChange P s s' where
  signingKey := hkey
  file := .inr ⟨hfile, hmem⟩
  record := fun c v r h => .inl ⟨r, by rwa [hmem] at h, rfl, rfl⟩
  stored := fun pk v r h => .inl (hstored pk v r h)

theorem refl (s : AppState) : OwnChange P s s := .of_members rfl rfl rfl fun _ _ _ h => h

theorem trans {u : AppState} (h : OwnChange P s t) (h' : OwnChange P t u) :
    OwnChange P s u where
  signingKey := h'.signingKey.trans h.signingKey
  file := h.file.trans h'.file
  record := fun c v r hr => by
    rcases h'.record c v r hr with ⟨mid, hmid, huser', hpk'⟩ | hown
    · rcases h.record c v mid hmid with ⟨old, hold, huser, hpk⟩ | hown
      · exact .inl ⟨old, hold, huser'.trans huser, hpk'.trans hpk⟩
      · exact .inr ⟨hown.1, huser'.trans hown.2.1, hpk'.trans hown.2.2⟩
    · exact .inr (hown.congr h.signingKey)
  stored := fun pk v r hr => by
    rcases h'.stored pk v r hr with hmid | hown
    · exact h.stored pk v r hmid
    · exact .inr (hown.congr h.signingKey)

theorem emit {commands : List NetworkCommand} {pushes : List PushEvent}
    (h : OwnChange P s s') : OwnChange P s (s'.emit commands pushes) :=
  ⟨h.signingKey, h.file, h.record, h.stored⟩

end OwnChange

/-- The members stay, in the stored metadata too. -/
theorem ownChange_of_meta {f : CommunityMeta → CommunityMeta}
    (hkey : s'.signingKey = s.signingKey) (hmem : s'.members = s.members)
    (hfile : s'.files.members = s.files.members) (h : MetaUpdated pk f s s')
    (hf : ∀ m, (f m).members = m.members) : OwnChange P s s' :=
  .of_members hkey hmem hfile fun pk' v _ hr => (storedIn_congr (h.map_eq hf pk') v).symm.trans hr

theorem ownChange_of_table (hkey : s'.signingKey = s.signingKey)
    (hfile : s'.files.members = s'.members) (hstore : s'.nodeStore = s.nodeStore)
    (hrecord : ∀ c v r, recordIn s'.members c v = some r →
      (∃ old, recordIn s.members c v = some old ∧ r.userId = old.userId ∧
        r.publicKey = old.publicKey) ∨ OwnRecord P s v r) : OwnChange P s s' where
  signingKey := hkey
  file := .inl hfile
  record := hrecord
  stored := fun pk v r h => .inl (by rwa [storedIn, hstore] at h)

theorem putPassword_own (s : AppState) (c : String) (signed : SignedManifest)
    (password : Option String) :
    OwnChange P s ((s.putCommunity c signed).putPassword c password) := by
  unfold putPassword
  cases password <;> exact .of_members rfl rfl rfl fun _ _ _ h => h

theorem putMember_own (c : String) {record : MembershipRecord}
    (huser : record.userId = s.ownUserId P) (hpk : record.publicKey = s.ownPk P) :
    OwnChange P s (s.putMember c record) := by
  refine ownChange_of_table rfl rfl rfl fun c' v r h => ?_
  rcases of_recordIn_insert h with hold | ⟨rfl, -, hu⟩
  · exact .inl ⟨r, hold, rfl, rfl⟩
  · exact .inr ⟨by rw [← hu, huser]; rfl, huser, hpk⟩

theorem storeMessage_own (s s' : AppState) (c : String) (raw : RawMessage)
    (hkey : s'.signingKey = s.signingKey) (hmem : s'.members = s.members)
    (hfile : s'.files.members = s.files.members) (hs : s'.nodeStore = storeMessage s c raw) :
    OwnChange P s s' := by
  refine .of_members hkey hmem hfile fun pk v r h => ?_
  rwa [storedIn_eq, storedMeta?, hs, storedMeta?_storeMessage, ← storedIn_eq] at h

theorem setCommunityMeta_own {m : CommunityMeta}
    (hm : ∀ v r, m.members.lookup v = some r → OwnRecord P s v r) :
    OwnChange P s (s.mapStore fun st => st.setCommunityMeta pk m) := by
  refine ⟨rfl, .inr ⟨rfl, rfl⟩, fun c v r h => .inl ⟨r, h, rfl, rfl⟩, fun pk' v r h => ?_⟩
  obtain ⟨st, hst, hr⟩ := of_storedIn_map rfl h
  rw [recordAt_setCommunityMeta] at hr
  split at hr
  · exact .inr (hm v r hr)
  · exact .inl (storedIn_of_recordAt hst hr)

/-- A record that the node made before is still its own. -/
theorem ownRecord_own (hkey : t.signingKey = s.signingKey) (id : CommunityId)
    (fallback : String) (roles : List Role) (now : DateTime) :
    OwnRecord P t (s.peerId P) (s.ownRecord P id fallback roles now) := by
  have hown : OwnRecord P s (s.peerId P) (s.ownRecord P id fallback roles now) := ⟨rfl, rfl, rfl⟩
  exact hown.congr hkey.symm

theorem storeCreated_own (s : AppState) (p : CreateCommunityParams) (fp : Key) :
    OwnChange P s (s.storeCreated P env p fp) := by
  unfold storeCreated
  dsimp only
  have hput := fun c signed => putPassword_own (P := P) s c signed p.hostingPassword
  have hrecord := fun c signed => ownRecord_own (P := P) (hput c signed).signingKey
  refine OwnChange.emit (OwnChange.trans ?_ (putMember_own _ (hrecord _ _ _ _ _ _).2.1
    (hrecord _ _ _ _ _ _).2.2))
  refine OwnChange.trans (hput _ _) (setCommunityMeta_own fun v r hr => ?_)
  rcases Dict.of_lookup_insertAll hr with hmem | hempty
  · obtain ⟨hv, rfl⟩ := Prod.mk.inj (List.mem_singleton.mp hmem)
    subst hv
    exact hrecord _ _ _ _ _ _
  · cases hempty

theorem storeInvited_own (s : AppState) (id : CommunityId) (pk : Key) (invite : InvitePayload)
    (password : Option String) : OwnChange P s (s.storeInvited P env id pk invite password) := by
  unfold storeInvited
  dsimp only
  have hput := putPassword_own (P := P) s id.text (inviteManifest env id pk invite) password
  generalize (s.putCommunity id.text (inviteManifest env id pk invite)).putPassword id.text
    password = t at hput ⊢
  have hrecord := ownRecord_own (P := P) hput.signingKey id id.text [.member] env.now
  have hboth := hput.trans (putMember_own id.text hrecord.2.1 hrecord.2.2)
  exact ⟨hboth.signingKey, hboth.file, hboth.record, hboth.stored⟩

theorem storeRotation_own (s : AppState) (p : ChannelParams) (ch : ChannelManifest) (key : Key) :
    OwnChange P s (s.storeRotation p ch key) := by
  unfold storeRotation
  split
  · exact ownChange_of_meta rfl rfl rfl (metaUpdated_of_store rfl) fun _ => rfl
  · exact .refl s

/-- An RPC call brings no record of another user. -/
theorem rpc_own (s : AppState) (call : RpcCall) : OwnChange P s (s.rpc P env call).1 := by
  have hw := rpc_write (P := P) env s call
  generalize (s.rpc P env call).1 = s' at hw
  have hsame : ∀ {s s' : AppState}, s'.signingKey = s.signingKey → s'.members = s.members →
      s'.files.members = s.files.members → s'.nodeStore = s.nodeStore → OwnChange P s s' :=
    fun hkey hmem hfile hstore => .of_members hkey hmem hfile fun pk v r h => by
      rwa [storedIn, hstore] at h
  have hout : ∀ {s t : AppState} {commands pushes}, OwnChange P s t →
      OwnChange P s (t.out commands pushes) := fun h => ⟨h.signingKey, h.file, h.record, h.stored⟩
  have hremoved : ∀ c, OwnChange P s (s.removeCommunityLocal c) := fun c =>
    ⟨rfl, .inl rfl, fun _ _ r h => .inl ⟨r, of_recordIn_erase h, rfl, rfl⟩,
      fun _ _ _ h => .inl (of_storedIn_removeCommunityLocal h)⟩
  cases hw with
  | refused => exact .refl s
  | created _ ht =>
    rcases ht with rfl | rfl
    · exact storeCreated_own env _ _ _
    · refine OwnChange.trans ?_ (storeCreated_own env _ _ _)
      exact hsame rfl rfl rfl rfl
  | invited _ _ ht =>
    rcases ht with rfl | ⟨fp, rfl⟩
    · exact hout (storeInvited_own env s _ _ _ _)
    · exact (storeInvited_own env s _ _ _ _).trans (hsame rfl rfl rfl rfl)
  | left => exact hout (hremoved _)
  | deleted => exact hout (hremoved _)
  | updated _ _ _ ht => rcases ht with rfl | ⟨fp, rfl⟩ <;> exact hsame rfl rfl rfl rfl
  | channelCreated =>
    exact ownChange_of_meta rfl rfl rfl (metaUpdated_of_store rfl) fun _ => rfl
  | channelDeleted =>
    exact ownChange_of_meta rfl rfl rfl (metaUpdated_of_store rfl) fun _ => rfl
  | rotated =>
    refine hout (OwnChange.trans ?_ (storeRotation_own _ _ _ _))
    exact hsame rfl rfl rfl rfl
  | reordered => exact ownChange_of_meta rfl rfl rfl (metaUpdated_of_store rfl) fun _ => rfl
  | sent => exact storeMessage_own s _ _ _ rfl rfl rfl rfl
  | reactionAdded => exact storeMessage_own s _ _ _ rfl rfl rfl rfl
  | reactionRemoved => exact storeMessage_own s _ _ _ rfl rfl rfl rfl
  | expelled =>
    exact ownChange_of_table rfl rfl rfl fun _ _ r h =>
      .inl ⟨r, (of_recordIn_remove h).1, rfl, rfl⟩
  | banned =>
    exact ownChange_of_table rfl rfl rfl fun _ _ r h =>
      .inl ⟨r, (of_recordIn_remove h).1, rfl, rfl⟩
  | roleUpdated =>
    refine ownChange_of_table rfl rfl rfl fun c v r h => .inl ?_
    rcases of_recordIn_adjust h with hold | ⟨-, -, old, hold, rfl⟩
    · exact ⟨r, hold, rfl, rfl⟩
    · exact ⟨old, hold, rfl, rfl⟩
  | renamed =>
    refine ownChange_of_table rfl rfl rfl fun c v r h => .inl ?_
    rcases of_recordIn_renameSelf h with hold | ⟨old, -, hold, rfl⟩
    · exact ⟨r, hold, rfl, rfl⟩
    · exact ⟨old, hold, rfl, rfl⟩
  | _ => exact hsame rfl rfl rfl rfl

/-! ## Requests -/

theorem recordAt_appendHistory (cpk : Key) (ch : Ulid) (entries : List LogEntry) (pk : Key)
    (v : String) : (appendHistory st cpk ch entries).recordAt pk v = st.recordAt pk v := by
  induction entries generalizing st with
  | nil => rfl
  | cons e entries ih => exact ih _

theorem recordAt_persistGossip (topic : String) (data : Bytes) (pk : Key) (v : String) :
    (persistGossip P st topic data).recordAt pk v = st.recordAt pk v := by
  unfold persistGossip
  split
  · split
    · split <;> rfl
    · rfl
  · rfl

/-- The metadata of a community that is new to the node list nobody. -/
theorem of_recordAt_storeJoined {st : NodeStore} {cert : HostingCert}
    (h : (storeJoined st cert).recordAt pk v = some r) : st.recordAt pk v = some r := by
  unfold storeJoined at h
  split at h
  · exact h
  · rw [recordAt_setCommunityMeta] at h
    split at h
    · cases h
    · exact h

/-- A request leaves the stored records alone, unless it pushes a manifest. -/
theorem of_recordAt_dispatch {env : Env} {remote : NodeAddr} {c : Conn} {req : ClientRequest}
    (h : (dispatch P env remote c req).1.services.store.recordAt pk v = some r) :
    c.services.store.recordAt pk v = some r ∨
      ∃ manifest channels channelKeys members,
        req = .pushManifest pk manifest channels channelKeys members ∧ r ∈ members ∧
          r.userId.text = v := by
  have hwrite := storeWrite_dispatch (P := P) env remote c req
  generalize (dispatch P env remote c req).1.services.store = st at h hwrite
  cases hwrite with
  | unchanged => exact .inl h
  | join => exact .inl (of_recordAt_storeJoined h)
  | message => exact .inl h
  | dm => exact .inl h
  | gossip =>
    rw [recordAt_persistGossip] at h
    exact .inl h
  | history =>
    rw [recordAt_appendHistory] at h
    exact .inl h
  | manifest =>
    unfold pushManifestStore at h
    dsimp only at h
    rw [recordAt_setCommunityMeta] at h
    split at h
    · next hpk =>
      subst hpk
      exact .inr ⟨_, _, _, _, rfl, of_lookup_keyByUser h⟩
    · exact .inl h

end

end AppState

end BitCord
