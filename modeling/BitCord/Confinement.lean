import BitCord.KeyDistribution
import BitCord.Replay

/-!
# The reach of a manifest response

A node asks a peer for the manifest of one community, and the peer answers with a manifest, the
channels, their keys and the members. The event carries the community that was asked for, but every
table is written under the ids that the response names. A peer can add another community, and a
response that arrives after the node left the community brings it back
(`response_for_other_community`).

`response_confined_iff` says for every state and every response when the event stays within the
community that was asked for.
-/

namespace BitCord

open Lib Lib.Run AppState

variable {ch ch' : ChannelManifest} {c x : String} {t : Tables} {s : AppState} {ks : List String}
  {n : Nat} {w : Bytes} {u : UserId}

/-! ## What a response must not change -/

/-- A channel manifest as a value: the order in which the wrapped keys are stored does not
count. -/
def ChannelManifest.content (ch : ChannelManifest) :
    (ChannelId × CommunityId × String × ChannelKind × DateTime × UInt64) ×
      (UserId → Option Bytes) :=
  ((ch.id, ch.communityId, ch.name, ch.kind, ch.createdAt, ch.version),
    fun u => ch.encryptedChannelKey.lookup u)

theorem ChannelManifest.communityId_of_content
    (h : ch'.content = ch.content) : ch'.communityId = ch.communityId :=
  congrArg (fun v => v.1.2.1) h

def ForeignChannel (c : String) (t : Tables) (x : String) : Prop :=
  ∃ ch, t.channels.lookup x = some ch ∧ ch.communityId.text ≠ c

/-- The entries of other communities than `c` stay as they are, and all entries do if the node is
not in `c`. A channel, and its key, are of another community if the table says so before or after
the step. -/
structure Confined (c : String) (s s' : AppState) : Prop where
  communities : ∀ x, (x ≠ c ∨ c ∉ s.communities) →
    s'.communities.lookup x = s.communities.lookup x
  members : ∀ x, (x ≠ c ∨ c ∉ s.communities) →
    (x ∈ s'.members ↔ x ∈ s.members) ∧
      ∀ u, member? s'.toTables x u = member? s.toTables x u
  channels : ∀ x, (ForeignChannel c s.toTables x ∨ ForeignChannel c s'.toTables x ∨
      c ∉ s.communities) →
    (s'.channels.lookup x).map ChannelManifest.content =
      (s.channels.lookup x).map ChannelManifest.content
  channelKeys : ∀ x, (ForeignChannel c s.toTables x ∨ ForeignChannel c s'.toTables x ∨
      c ∉ s.communities) →
    s'.channelKeys.lookup x = s.channelKeys.lookup x

/-- The node is in the community, and the id is not one of a channel of another community. -/
def OwnChannel (c : String) (t : Tables) (x : String) : Prop :=
  c ∈ t.communities ∧ ¬ ForeignChannel c t x

theorem not_ownChannel_iff : ¬ OwnChannel c t x ↔ ForeignChannel c t x ∨ c ∉ t.communities := by
  unfold OwnChannel
  tauto

/-- The channels that belong to `c` before may change as long as they stay with `c`; the others
may not, and neither may their keys. -/
theorem confined_iff {s' : AppState} :
    Confined c s s' ↔
      (∀ x, (x ≠ c ∨ c ∉ s.communities) →
        s'.communities.lookup x = s.communities.lookup x) ∧
      (∀ x, (x ≠ c ∨ c ∉ s.communities) → (x ∈ s'.members ↔ x ∈ s.members) ∧
        ∀ u, member? s'.toTables x u = member? s.toTables x u) ∧
      (∀ x, ¬ OwnChannel c s.toTables x →
        (s'.channels.lookup x).map ChannelManifest.content =
          (s.channels.lookup x).map ChannelManifest.content) ∧
      (∀ x, OwnChannel c s.toTables x → ¬ ForeignChannel c s'.toTables x) ∧
      ∀ x, ¬ OwnChannel c s.toTables x →
        s'.channelKeys.lookup x = s.channelKeys.lookup x := by
  constructor
  · intro h
    refine ⟨h.communities, h.members, fun x hx => h.channels x ?_, ?_, fun x hx =>
      h.channelKeys x ?_⟩
    · rcases not_ownChannel_iff.mp hx with hf | hc
      · exact .inl hf
      · exact .inr (.inr hc)
    · -- a row that is foreign afterwards was the same before
      rintro x ⟨-, hown⟩ ⟨ch', hch', hne⟩
      have hsame := h.channels x (.inr (.inl ⟨ch', hch', hne⟩))
      rw [hch', Option.map_some] at hsame
      obtain ⟨ch, hch, hcontent⟩ := Option.map_eq_some_iff.mp hsame.symm
      refine hown ⟨ch, hch, ?_⟩
      rw [ChannelManifest.communityId_of_content hcontent]
      exact hne
    · rcases not_ownChannel_iff.mp hx with hf | hc
      · exact .inl hf
      · exact .inr (.inr hc)
  · rintro ⟨hcommunities, hmembers, hchannels, hown, hkeys⟩
    have hprotected : ∀ x, (ForeignChannel c s.toTables x ∨ ForeignChannel c s'.toTables x ∨
        c ∉ s.communities) → ¬ OwnChannel c s.toTables x := by
      rintro x (hf | hf | hc) ho
      · exact ho.2 hf
      · exact hown x ho hf
      · exact hc ho.1
    exact ⟨hcommunities, hmembers, fun x hx => hchannels x (hprotected x hx),
      fun x hx => hkeys x (hprotected x hx)⟩

/-! ## Tombstones -/

/-- The condition on a tombstone: it is for the community that was asked for and the node is in
it, or the node has nothing under its id; and every channel that is removed belongs to the
community that was asked for, or is not there. -/
structure TombstoneConfined (c : String) (s : AppState) (m : ManifestReceived) : Prop where
  community : m.communityId = c ∧ c ∈ s.communities ∨
    m.communityId ∉ s.communities ∧ m.communityId ∉ s.members
  channels : ∀ x ∈ channelIdsOf s.toTables m.communityId,
    OwnChannel c s.toTables x ∨ x ∉ s.channels ∧ x ∉ s.channelKeys

section

variable {c d : String} {s : AppState}

theorem map_lookup_eraseAll_eq_iff {α β : Type} {t : Dict String α} {f : α → β} :
    ((t.eraseAll ks).lookup x).map f = (t.lookup x).map f ↔ x ∈ ks → x ∉ t := by
  rw [Dict.lookup_eraseAll]
  split
  · next hx =>
    rw [Option.map_none, eq_comm, Option.map_eq_none_iff, AList.lookup_eq_none]
    exact ⟨fun h _ => h, fun h => h hx⟩
  · next hx => exact ⟨fun _ h => absurd h hx, fun _ => rfl⟩

theorem lookup_eraseAll_eq_iff {α : Type} {t : Dict String α} :
    (t.eraseAll ks).lookup x = t.lookup x ↔ x ∈ ks → x ∉ t := by
  rw [← map_lookup_eraseAll_eq_iff (f := id), Option.map_id_fun, id, id]

/-- The removal of a community stays within `c` if and only if it is the removal of `c`, or of
nothing, and the channels that it removes are those of `c`. -/
theorem confined_removeCommunityLocal_iff :
    Confined c s (s.removeCommunityLocal d) ↔
      (d = c ∧ c ∈ s.communities ∨ d ∉ s.communities ∧ d ∉ s.members) ∧
        ∀ x ∈ channelIdsOf s.toTables d,
          OwnChannel c s.toTables x ∨ x ∉ s.channels ∧ x ∉ s.channelKeys := by
  have hcommunities : ∀ x, (s.removeCommunityLocal d).communities.lookup x =
      if x = d then none else s.communities.lookup x := fun x => Dict.lookup_erase_eq _ _ _
  have hmembers : ∀ x, (s.removeCommunityLocal d).members.lookup x =
      if x = d then none else s.members.lookup x := fun x => Dict.lookup_erase_eq _ _ _
  have hchannels : (s.removeCommunityLocal d).channels =
      s.channels.eraseAll (channelIdsOf s.toTables d) := rfl
  have hkeys : (s.removeCommunityLocal d).channelKeys =
      s.channelKeys.eraseAll (channelIdsOf s.toTables d) := rfl
  rw [confined_iff]
  constructor
  · rintro ⟨hc, hm, hch, -, hk⟩
    refine ⟨?_, fun x hx => or_iff_not_imp_left.mpr fun hown => ⟨?_, ?_⟩⟩
    · refine or_iff_not_imp_left.mpr fun hd => ?_
      have hd' : d ≠ c ∨ c ∉ s.communities := by tauto
      constructor
      · have hgone := hc d hd'
        rw [hcommunities, if_pos rfl] at hgone
        exact AList.lookup_eq_none.mp hgone.symm
      · rw [← (hm d hd').1, ← AList.lookup_eq_none, hmembers, if_pos rfl]
    · exact map_lookup_eraseAll_eq_iff.mp (hch x hown) hx
    · exact lookup_eraseAll_eq_iff.mp (hk x hown) hx
  · rintro ⟨hd, hids⟩
    have hother : ∀ x, (x ≠ c ∨ c ∉ s.communities) → x = d → d ∉ s.communities ∧ d ∉ s.members := by
      rintro x hx rfl
      rcases hd with ⟨rfl, hc⟩ | hnone
      · exact absurd hx (by tauto)
      · exact hnone
    refine ⟨fun x hx => ?_, fun x hx => ⟨?_, fun u => ?_⟩, fun x hx => ?_, ?_, fun x hx => ?_⟩
    · rw [hcommunities]
      split
      · next heq =>
        subst heq
        exact (AList.lookup_eq_none.mpr (hother x hx rfl).1).symm
      · rfl
    · rw [← AList.lookup_isSome, ← AList.lookup_isSome, hmembers]
      split
      · next heq =>
        subst heq
        rw [AList.lookup_eq_none.mpr (hother x hx rfl).2]
      · rfl
    · unfold member?
      rw [hmembers]
      split
      · next heq =>
        subst heq
        rw [AList.lookup_eq_none.mpr (hother x hx rfl).2]
      · rfl
    · rw [hchannels, map_lookup_eraseAll_eq_iff]
      intro hmem
      exact ((hids x hmem).resolve_left hx).1
    · rintro x ⟨-, hown⟩ ⟨ch, hch, hne⟩
      rw [hchannels, Dict.lookup_eraseAll] at hch
      split at hch
      · cases hch
      · exact hown ⟨ch, hch, hne⟩
    · rw [hkeys, lookup_eraseAll_eq_iff]
      exact fun hmem => ((hids x hmem).resolve_left hx).2

end

/-! ## The records of a response -/

/-- The record of a user in the response: the last one. -/
def ManifestReceived.record? (m : ManifestReceived) (u : String) : Option MembershipRecord :=
  m.members.reverse.find? fun r => decide (r.userId.text = u)

section

theorem recordIn_receiveMembers (t : MemberTable) (m : ManifestReceived) (c u : String) :
    recordIn (receiveMembers t m) c u =
      if c = m.communityId then (m.record? u).or (recordIn t c u) else recordIn t c u := by
  unfold receiveMembers
  split
  · next hempty =>
    have hnone : m.record? u = none := by
      rw [ManifestReceived.record?, List.isEmpty_iff.mp hempty]
      rfl
    rw [hnone, Option.none_or, ite_self]
  · unfold recordIn
    rw [Dict.lookup_upsert]
    split
    · next hc =>
      rw [Option.bind_some, Dict.lookup_insertAll_map, hc]
      show Option.or (Option.map id _) _ = _
      rw [Option.map_id_fun, id]
      cases t.lookup m.communityId <;> rfl
    · rfl

theorem mem_receiveMembers (t : MemberTable) (m : ManifestReceived) (c : String) :
    c ∈ receiveMembers t m ↔ c ∈ t ∨ c = m.communityId ∧ m.members ≠ [] := by
  unfold receiveMembers
  split
  · next hempty => simp [List.isEmpty_iff.mp hempty]
  · next hempty =>
    have hne : m.members ≠ [] := fun h => hempty (List.isEmpty_iff.mpr h)
    unfold Dict.upsert
    rw [AList.mem_insert]
    tauto

/-- A response with records names a user, and the node has the community if it has the record. -/
theorem mem_of_forall_record {m : ManifestReceived} (hsome : m.members ≠ [])
    (h : ∀ u r, m.record? u = some r → member? t m.communityId u = some r) :
    m.communityId ∈ t.members := by
  obtain ⟨r, hr⟩ := List.exists_mem_of_ne_nil _ hsome
  have hfound : (m.record? r.userId.text).isSome := by
    unfold ManifestReceived.record?
    rw [List.find?_isSome]
    exact ⟨r, List.mem_reverse.mpr hr, decide_eq_true rfl⟩
  obtain ⟨r', hr'⟩ := Option.isSome_iff_exists.mp hfound
  obtain ⟨list, hlist, -⟩ := Option.bind_eq_some_iff.mp (h _ r' hr')
  rw [← AList.lookup_isSome, hlist]
  rfl

end

/-! ## Keys that the admin wraps -/

variable (keys : Dict String Key)

section

variable (P : Prims)

def DrawnKey (env : Env) (w : Bytes) : Prop :=
  ∃ key pk sk i, w = encryptForMember P key pk sk (env.nonce i)

/-- The users of `U` that had no wrapped key got one, and nothing else of the manifest changed. -/
structure RowWidened (env : Env) (U : UserId → Prop) (ch ch' : ChannelManifest) : Prop where
  fields : ch' = { ch with encryptedChannelKey := ch'.encryptedChannelKey }
  kept : ∀ u w, ch.encryptedChannelKey.lookup u = some w →
    ch'.encryptedChannelKey.lookup u = some w
  added : ∀ u, u ∉ ch.encryptedChannelKey → U u →
    ∃ w, ch'.encryptedChannelKey.lookup u = some w ∧ DrawnKey P env w
  only : ∀ u, u ∉ ch.encryptedChannelKey → ¬ U u → u ∉ ch'.encryptedChannelKey

/-- The same for every row of a table, with the users for each channel. -/
def Widened (env : Env) (N : String → UserId → Prop) (d d' : Dict String ChannelManifest) :
    Prop :=
  ∀ x, Option.Rel (RowWidened P env (N x)) (d.lookup x) (d'.lookup x)

variable {P} {env : Env}

theorem DrawnKey.of_skip (h : DrawnKey P (env.skip n) w) : DrawnKey P env w := by
  obtain ⟨key, pk, sk, i, hw⟩ := h
  exact ⟨key, pk, sk, n + i, hw⟩

/-- The nonce of a wrapped key can be read off it. -/
theorem nonce_of_drawnKey {env' : Env} (h : DrawnKey P env w)
    (h' : DrawnKey P env' w) : ∃ i j, env.nonce i = env'.nonce j := by
  obtain ⟨key, pk, sk, i, hw⟩ := h
  obtain ⟨key', pk', sk', j, hw'⟩ := h'
  refine ⟨i, j, ?_⟩
  have hnonce := congrArg (fun b : Bytes => (b.drop 32).take 24) (hw.symm.trans hw')
  unfold encryptForMember at hnonce
  dsimp only at hnonce
  rw [take_drop_nonce, take_drop_nonce] at hnonce
  have hsome := congrArg (tryIntoArray 192) hnonce
  rw [tryIntoArray_toBytes (by decide), tryIntoArray_toBytes (by decide)] at hsome
  exact Option.some.inj hsome

namespace RowWidened

variable {U U' : UserId → Prop} {ch ch' ch'' : ChannelManifest}

theorem of_forall_mem (h : ∀ u, U u → u ∈ ch.encryptedChannelKey) :
    RowWidened P env U ch ch where
  fields := rfl
  kept _ _ hw := hw
  added u hu hU := absurd (h u hU) hu
  only _ hu _ := hu

theorem trans (h : RowWidened P env U ch ch') (h' : RowWidened P env U' ch' ch'') :
    RowWidened P env (fun u => U u ∨ U' u) ch ch'' where
  fields := by rw [h'.fields, h.fields]
  kept u w hw := h'.kept u w (h.kept u w hw)
  added u hu hU := by
    by_cases hfirst : U u
    · obtain ⟨w, hw, hdrawn⟩ := h.added u hu hfirst
      exact ⟨w, h'.kept u w hw, hdrawn⟩
    · exact h'.added u (h.only u hu hfirst) (hU.resolve_left hfirst)
  only u hu hU := by
    rw [not_or] at hU
    exact h'.only u (h.only u hu hU.1) hU.2

theorem congr (h : RowWidened P env U ch ch') (hU : ∀ u, U u ↔ U' u) :
    RowWidened P env U' ch ch' := by
  rwa [show U' = U from funext fun u => propext (hU u).symm]

theorem of_skip (h : RowWidened P (env.skip n) U ch ch') : RowWidened P env U ch ch' where
  fields := h.fields
  kept := h.kept
  added u hu hU := by
    obtain ⟨w, hw, hdrawn⟩ := h.added u hu hU
    exact ⟨w, hw, hdrawn.of_skip⟩
  only := h.only

theorem wrapKey {record : MembershipRecord} (draw : Nat) (key : Key)
    (hnew : record.userId ∉ ch.encryptedChannelKey) :
    RowWidened P env (fun u => u = record.userId) ch (wrapKey P env draw key ch record) where
  fields := rfl
  kept u w hw := by
    have hne : u ≠ record.userId := by
      rintro rfl
      rw [AList.lookup_eq_none.mpr hnew] at hw
      cases hw
    exact (AList.lookup_insert_ne hne).trans hw
  added u _ hU := by
    subst hU
    exact ⟨_, AList.lookup_insert _, key, record.x25519PublicKey, env.key draw, draw, rfl⟩
  only u hu hU hmem := by
    rcases (AList.mem_insert _).mp hmem with heq | hold
    · exact hU heq
    · exact hu hold

theorem mem_of_refl (h : RowWidened P env U ch ch) (hu : U u) : u ∈ ch.encryptedChannelKey := by
  by_contra hnot
  obtain ⟨w, hw, -⟩ := h.added u hnot hu
  rw [AList.lookup_eq_none.mpr hnot] at hw
  cases hw

/-- If nobody lacks a key, the manifest is the same. -/
theorem content_eq (h : RowWidened P env U ch ch') (hU : ∀ u, U u → u ∈ ch.encryptedChannelKey) :
    ch'.content = ch.content := by
  have hkeys : (fun u => ch'.encryptedChannelKey.lookup u) =
      fun u => ch.encryptedChannelKey.lookup u := by
    funext u
    cases hu : ch.encryptedChannelKey.lookup u with
    | some w => exact h.kept u w hu
    | none =>
      have hnot := AList.lookup_eq_none.mp hu
      exact AList.lookup_eq_none.mpr (h.only u hnot fun hU' => hnot (hU u hU'))
  unfold ChannelManifest.content
  rw [hkeys, h.fields]

theorem communityId_eq (h : RowWidened P env U ch ch') : ch'.communityId = ch.communityId := by
  rw [h.fields]

end RowWidened

namespace Widened

variable {N N' : String → UserId → Prop} {d d' d'' : Dict String ChannelManifest}

theorem of_forall_mem (h : ∀ x ch, d.lookup x = some ch → ∀ u, N x u → u ∈ ch.encryptedChannelKey) :
    Widened P env N d d := by
  intro x
  cases hx : d.lookup x with
  | none => exact .none
  | some ch => exact .some (.of_forall_mem (h x ch hx))

theorem of_forall_not (h : ∀ x u, ¬ N x u) : Widened P env N d d :=
  .of_forall_mem fun x _ _ u hN => absurd hN (h x u)

theorem trans (h : Widened P env N d d') (h' : Widened P env N' d' d'') :
    Widened P env (fun x u => N x u ∨ N' x u) d d'' := by
  intro x
  have hx := h x
  have hx' := h' x
  generalize d.lookup x = o, d'.lookup x = o', d''.lookup x = o'' at hx hx' ⊢
  cases hx with
  | none =>
    cases hx'
    exact .none
  | some hrow =>
    cases hx' with
    | some hrow' => exact .some (hrow.trans hrow')

theorem congr (h : Widened P env N d d') (hN : ∀ x u, N x u ↔ N' x u) : Widened P env N' d d' := by
  rwa [show N' = N from funext fun x => funext fun u => propext (hN x u).symm]

theorem of_skip (h : Widened P (env.skip n) N d d') : Widened P env N d d' := by
  intro x
  have hx := h x
  generalize d.lookup x = o, d'.lookup x = o' at hx ⊢
  cases hx with
  | none => exact .none
  | some hrow => exact .some hrow.of_skip

theorem insert (hx : d.lookup x = some ch) (hrow : RowWidened P env (N x) ch ch')
    (hN : ∀ y, y ≠ x → ∀ u, ¬ N y u) : Widened P env N d (d.insert x ch') := by
  intro y
  rw [Dict.lookup_insert_eq]
  split
  · next hy =>
    subst hy
    rw [hx]
    exact .some hrow
  · next hy =>
    cases d.lookup y with
    | none => exact .none
    | some chy => exact .some (.of_forall_mem fun u hu => absurd hu (hN y hy u))

theorem lookup_of_none (h : Widened P env N d d') (hx : d.lookup x = none) :
    d'.lookup x = none := by
  have hrow := h x
  rw [hx] at hrow
  generalize d'.lookup x = o at hrow
  cases hrow
  rfl

theorem lookup_of_some (h : Widened P env N d d') (hx : d.lookup x = some ch) :
    ∃ ch', d'.lookup x = some ch' ∧ RowWidened P env (N x) ch ch' := by
  have hrow := h x
  rw [hx] at hrow
  generalize d'.lookup x = o at hrow
  cases hrow with
  | some hrow => exact ⟨_, rfl, hrow⟩

/-- Only the row of `x` changes, and only if there is a key. -/
theorem row {keys : Dict String Key} {U : UserId → Prop}
    (hnone : keys.lookup x = none ∨ d.lookup x = none → d' = d)
    (hrow : ∀ key ch, keys.lookup x = some key → d.lookup x = some ch →
      (d' = d ∧ ∀ u, U u → u ∈ ch.encryptedChannelKey) ∨
        ∃ ch', d' = d.insert x ch' ∧ RowWidened P env U ch ch') :
    Widened P env (fun y u => y = x ∧ y ∈ keys ∧ U u) d d' := by
  cases hkey : keys.lookup x with
  | none =>
    rw [hnone (.inl hkey)]
    refine .of_forall_not ?_
    rintro y u ⟨rfl, hmem, -⟩
    exact AList.lookup_eq_none.mp hkey hmem
  | some key =>
    cases hch : d.lookup x with
    | none =>
      rw [hnone (.inr hch)]
      refine .of_forall_mem ?_
      rintro y ch hy u ⟨rfl, -⟩
      cases hch.symm.trans hy
    | some ch =>
      have hmem : x ∈ keys := AList.lookup_isSome.mp (by rw [hkey]; rfl)
      rcases hrow key ch hkey hch with ⟨rfl, hall⟩ | ⟨ch', rfl, hwide⟩
      · refine .of_forall_mem ?_
        rintro y ch₁ hy u ⟨rfl, -, hu⟩
        cases hch.symm.trans hy
        exact hall u hu
      · exact .insert hch (hwide.congr fun u => by tauto) fun y hy u h => hy h.1

theorem foldl {β ι : Type} {g : β → Dict String ChannelManifest} {step : β → ι → β}
    {f : ι → String} {A : String → UserId → Prop}
    (hstep : ∀ b i, Widened P env (fun x u => x = f i ∧ A x u) (g b) (g (step b i))) (l : List ι)
    (b : β) : Widened P env (fun x u => x ∈ l.map f ∧ A x u) (g b) (g (l.foldl step b)) := by
  induction l generalizing b with
  | nil => exact .of_forall_not fun x u h => absurd h.1 List.not_mem_nil
  | cons i l ih =>
    refine ((hstep b i).trans (ih _)).congr fun x u => ?_
    rw [List.map_cons, List.mem_cons, or_and_right]

end Widened

/-! ### The loops -/

theorem rowWidened_wrapForMemberStep (key : Key) (acc : ChannelManifest × Nat)
    (record : MembershipRecord) :
    RowWidened P env (fun u => u = record.userId) acc.1
      (wrapForMemberStep P env key acc record).1 := by
  unfold wrapForMemberStep
  split
  · next hmem =>
    refine .of_forall_mem ?_
    rintro u rfl
    exact hmem
  · next hnew => exact .wrapKey acc.2 key hnew

theorem rowWidened_foldl_wrapForMemberStep (key : Key) (records : List MembershipRecord)
    (acc : ChannelManifest × Nat) :
    RowWidened P env (fun u => ∃ r ∈ records, r.userId = u) acc.1
      (records.foldl (wrapForMemberStep P env key) acc).1 := by
  induction records generalizing acc with
  | nil => exact .of_forall_mem fun u ⟨r, hr, _⟩ => absurd hr List.not_mem_nil
  | cons record records ih =>
    refine ((rowWidened_wrapForMemberStep key acc record).trans (ih _)).congr fun u => ?_
    rw [List.exists_mem_cons_iff, eq_comm]

/-- The loop over the members counts what it wraps. -/
theorem eq_of_draws_foldl_wrapForMemberStep (key : Key) (records : List MembershipRecord)
    (acc : ChannelManifest × Nat) :
    acc.2 ≤ (records.foldl (wrapForMemberStep P env key) acc).2 ∧
      ((records.foldl (wrapForMemberStep P env key) acc).2 = acc.2 →
        (records.foldl (wrapForMemberStep P env key) acc).1 = acc.1) := by
  induction records generalizing acc with
  | nil => exact ⟨le_refl _, fun _ => rfl⟩
  | cons record records ih =>
    rw [List.foldl_cons]
    obtain ⟨hle, heq⟩ := ih (wrapForMemberStep P env key acc record)
    unfold wrapForMemberStep at hle heq ⊢
    split at hle
    · next hmem =>
      rw [if_pos hmem] at heq ⊢
      exact ⟨hle, heq⟩
    · next hnew =>
      rw [if_neg hnew] at heq ⊢
      dsimp only at hle
      exact ⟨by omega, fun h => by omega⟩

theorem widened_wrapChannelStep (s : AppState) (c : String) (acc : WrapLoop) (x : String) :
    Widened P env (fun y u => y = x ∧ y ∈ s.channelKeys ∧
      ∃ r ∈ memberList s.toTables c, r.userId = u) acc.channels
      (wrapChannelStep P env s c acc x).channels := by
  unfold wrapChannelStep
  refine .row ?_ fun key ch hkey hch => ?_
  · rintro (hnone | hnone)
    · rw [hnone]
    · rw [hnone]
      cases s.channelKeys.lookup x <;> rfl
  · have hrow : RowWidened P env _ ch _ :=
      rowWidened_foldl_wrapForMemberStep key (memberList s.toTables c) (ch, acc.draws)
    rw [hkey, hch]
    dsimp only
    split
    · next hdraws =>
      rw [(eq_of_draws_foldl_wrapForMemberStep key _ (ch, acc.draws)).2 hdraws] at hrow
      exact .inl ⟨rfl, fun u hu => hrow.mem_of_refl hu⟩
    · exact .inr ⟨_, rfl, hrow⟩

theorem widened_wrapForMembers (s : AppState) (m : ManifestReceived) :
    Widened P env (fun x u => m.communityPk = s.ownPk P ∧ x ∈ m.channelIds ∧ x ∈ s.channelKeys ∧
      ∃ r ∈ memberList s.toTables m.communityId, r.userId = u) s.channels
      (s.wrapForMembers P env m).channels := by
  unfold wrapForMembers
  split
  · next hpk => exact .of_forall_not fun x u h => hpk h.1
  · next hpk =>
    refine (Widened.foldl (g := WrapLoop.channels) (f := id)
      (widened_wrapChannelStep s m.communityId) m.channelIds ⟨s.channels, [], 0⟩).congr
      fun x u => ?_
    rw [List.map_id]
    exact (and_iff_right (not_not.mp hpk)).symm

theorem widened_wrapForJoinerStep (record : MembershipRecord)
    (acc : Dict String ChannelManifest × List NetworkCommand) (channel : String × Nat) :
    Widened P env (fun x u => x = channel.1 ∧ x ∈ keys ∧ u = record.userId) acc.1
      (wrapForJoinerStep P env keys record acc channel).1 := by
  unfold wrapForJoinerStep
  refine .row ?_ fun key ch hkey hch => ?_
  · rintro (hnone | hnone)
    · rw [hnone]
    · rw [hnone]
      cases keys.lookup channel.1 <;> rfl
  · rw [hkey, hch]
    dsimp only
    split
    · next hold => exact .inl ⟨rfl, fun u hu => hu ▸ hold⟩
    · next hnew => exact .inr ⟨_, rfl, .wrapKey channel.2 key hnew⟩

theorem widened_wrapForJoiner {record : MembershipRecord} {signed : SignedManifest}
    (hc : s.communities.lookup record.communityId.text = some signed) :
    Widened P env (fun x u => signed.manifest.publicKey = s.ownPk P ∧
      (x ∈ signed.manifest.channelIds.map fun ch => ch.text) ∧ x ∈ s.channelKeys ∧
      u = record.userId) s.channels (wrapForJoiner P env s record).1 := by
  unfold wrapForJoiner
  rw [hc]
  dsimp only
  split
  · next hpk =>
    refine (Widened.foldl (g := Prod.fst) (f := Prod.fst)
      (widened_wrapForJoinerStep s.channelKeys record) _ (s.channels, [])).congr fun x u => ?_
    rw [List.zipIdx_map_fst]
    exact (and_iff_right hpk).symm
  · next hpk => exact .of_forall_not fun x u h => hpk h.1

/-! ### What does not depend on the draws -/

/-- Every draw gives the same. -/
def Env.still (now : DateTime) (nonce : Nonce) : Env :=
  { now, instant := 0, ulid := fun _ => 0, key := fun _ => 0, nonce := fun _ => nonce
    interfaceIps := [] }

/-- A wrapped key is not the same for all draws. -/
theorem RowWidened.mem_of_forall {U : UserId → Prop}
    {ch' : Env → ChannelManifest} (h : ∀ env, RowWidened P env U ch (ch' env))
    (hsame : ∀ env env', (ch' env).content = (ch' env').content) (hu : U u) :
    u ∈ ch.encryptedChannelKey := by
  by_contra hnot
  obtain ⟨w, hw, hdrawn⟩ := (h (.still 0 0)).added u hnot hu
  obtain ⟨w', hw', hdrawn'⟩ := (h (.still 0 1)).added u hnot hu
  have heq : w = w' := by
    have hlookup := congrArg (fun v => v.2 u) (hsame (.still 0 0) (.still 0 1))
    exact Option.some.inj ((hw.symm.trans hlookup).trans hw')
  obtain ⟨i, j, hnonce⟩ := nonce_of_drawnKey hdrawn (heq ▸ hdrawn')
  exact absurd hnonce (by decide : (0 : Nonce) ≠ 1)

/-- The manifest of a channel is the same whatever is drawn if and only if nobody lacks a key. -/
theorem Widened.forall_content_eq_iff {N : String → UserId → Prop}
    {d : Dict String ChannelManifest} {d' : Env → Dict String ChannelManifest}
    (h : ∀ env, Widened P env N d (d' env)) {o : Option ChannelManifest} :
    (∀ env, ((d' env).lookup x).map ChannelManifest.content = o.map ChannelManifest.content) ↔
      (d.lookup x).map ChannelManifest.content = o.map ChannelManifest.content ∧
        ∀ ch, d.lookup x = some ch → ∀ u, N x u → u ∈ ch.encryptedChannelKey := by
  cases hd : d.lookup x with
  | none =>
    simp only [fun env => (h env).lookup_of_none hd]
    exact ⟨fun hv => ⟨hv (.still 0 0), fun ch hch => by cases hch⟩, fun hv _ => hv.1⟩
  | some ch =>
    choose ch' hch' hrow using fun env => (h env).lookup_of_some hd
    simp only [hch', Option.map_some]
    constructor
    · intro hv
      have hmem : ∀ u, N x u → u ∈ ch.encryptedChannelKey := fun u hu =>
        RowWidened.mem_of_forall hrow
          (fun env env' => Option.some.inj ((hv env).trans (hv env').symm)) hu
      refine ⟨?_, fun ch₁ h₁ => Option.some.inj h₁ ▸ hmem⟩
      rw [← hv (.still 0 0), (hrow (.still 0 0)).content_eq hmem]
    · rintro ⟨hv, hmem⟩ env
      rw [(hrow env).content_eq (hmem ch rfl), hv]

end

/-! ## The members of a response -/

section

variable (P : Prims)

/-- With the records of the response the node is a member of the community, and it is not banned
there. It then announces itself. -/
def Announces (s : AppState) (m : ManifestReceived) : Prop :=
  ((m.record? (s.peerId P)).or (member? s.toTables m.communityId (s.peerId P))).isSome ∧
    s.peerId P ∉ banList s.toTables m.communityId

/-- The node is the admin of the community and wraps the key of the channel for the user: for
every member if the response has the channel, and for itself if the manifest lists it. -/
def WrapsFor (s : AppState) (m : ManifestReceived) (x : String) (u : UserId) : Prop :=
  m.communityPk = s.ownPk P ∧
    (x ∈ m.channelIds ∧
        (∃ v r, (m.record? v).or (member? s.toTables m.communityId v) = some r ∧ r.userId = u) ∨
      x ∈ m.listedIds ∧ Announces P s m ∧ u = s.ownUserId P)

variable {P} {env : Env} {s : AppState} {m : ManifestReceived}

theorem joinAccepted_ownRecord (hP : P.Lawful) (id : CommunityId) (fallback : String)
    (roles : List Role) (now : DateTime) :
    JoinAccepted P s (s.ownRecord P id fallback roles now) ↔
      s.peerId P ∉ banList s.toTables id.text :=
  and_iff_right (selfSigned_ownRecord hP s id fallback roles now)

/-- The node announces itself: its new record has the time of the announcement. -/
theorem announceSelf_of (env : Env) (hP : P.Lawful)
    (hmember : (member? s.toTables m.communityId (s.peerId P)).isSome)
    (hban : s.peerId P ∉ banList s.toTables m.communityId) :
    ∃ r : MembershipRecord, r.communityId.text = m.communityId ∧ r.userId = s.ownUserId P ∧
      r.joinedAt = env.now ∧ r.publicKey = s.ownPk P ∧
      (s.announceSelf P env m).members =
        (s.members.upsert m.communityId ∅ fun list => list.insert (s.peerId P) r) ∧
      (s.announceSelf P env m).channels = (wrapForJoiner P env s r).1 := by
  obtain ⟨existing, hex⟩ := Option.isSome_iff_exists.mp hmember
  have haccepted := (joinAccepted_ownRecord hP m.manifest.manifest.id (s.peerId P)
    (s.announcedRoles P m existing) env.now).mpr hban
  refine ⟨s.ownRecord P m.manifest.manifest.id (s.peerId P) (s.announcedRoles P m existing)
    env.now, rfl, rfl, rfl, rfl, ?_, ?_⟩
  · unfold announceSelf
    rw [hex]
    exact members_handleMemberJoined haccepted
  · unfold announceSelf
    rw [hex]
    exact channels_handleMemberJoined_of haccepted

/-- Otherwise nothing changes. -/
theorem announceSelf_of_not (hP : P.Lawful)
    (h : ¬ ((member? s.toTables m.communityId (s.peerId P)).isSome ∧
      s.peerId P ∉ banList s.toTables m.communityId)) :
    (s.announceSelf P env m).members = s.members ∧
      (s.announceSelf P env m).channels = s.channels := by
  unfold announceSelf
  cases hex : member? s.toTables m.communityId (s.peerId P) with
  | none => exact ⟨rfl, rfl⟩
  | some existing =>
    rw [hex] at h
    have hrejected : ¬ JoinAccepted P s (s.ownRecord P m.manifest.manifest.id (s.peerId P)
        (s.announcedRoles P m existing) env.now) := by
      rw [joinAccepted_ownRecord hP]
      exact fun hban => h ⟨rfl, hban⟩
    dsimp only
    rw [handleMemberJoined_of_not hrejected]
    exact ⟨rfl, rfl⟩

/-- The node is a member after it took the records in, and not banned. -/
theorem announces_iff (env : Env) (s : AppState) (m : ManifestReceived) (rotated : List String) :
    ((member? (s.admitMembers P env m rotated).toTables m.communityId
        ((s.admitMembers P env m rotated).peerId P)).isSome ∧
      (s.admitMembers P env m rotated).peerId P ∉
        banList (s.admitMembers P env m rotated).toTables m.communityId) ↔ Announces P s m := by
  have hadm := admitted_admitMembers (P := P) env s m rotated
  have hmember : ∀ u, member? (s.admitMembers P env m rotated).toTables m.communityId u =
      (m.record? u).or (member? s.toTables m.communityId u) := by
    intro u
    show recordIn _ _ _ = _
    rw [hadm.members, recordIn_receiveMembers, if_pos rfl]
    rfl
  unfold Announces banList
  rw [hmember, peerId_congr hadm.signingKey, hadm.bans]

theorem members_settleManifest_of (env : Env) (hP : P.Lawful) (rotated : List String) (b : Bool)
    (h : Announces P s m) :
    ∃ r : MembershipRecord, r.joinedAt = env.now ∧ r.publicKey = s.ownPk P ∧
      (s.settleManifest P env m rotated b).members =
        (receiveMembers s.members m).upsert m.communityId ∅ fun list =>
          list.insert (s.peerId P) r := by
  obtain ⟨hmember, hban⟩ := (announces_iff env s m rotated).mpr h
  have hadm := admitted_admitMembers (P := P) env s m rotated
  unfold settleManifest
  dsimp only
  rw [members_finishManifest]
  obtain ⟨r, -, -, hnow, hpk, hmembers, -⟩ := announceSelf_of (env.skip _) hP hmember hban
  refine ⟨r, hnow, hpk.trans (congrArg P.verifyingKey hadm.signingKey), ?_⟩
  rw [hmembers, hadm.members, peerId_congr hadm.signingKey]

theorem members_settleManifest_of_not (hP : P.Lawful) (rotated : List String) (b : Bool)
    (h : ¬ Announces P s m) :
    (s.settleManifest P env m rotated b).members = receiveMembers s.members m := by
  rw [← announces_iff env s m rotated] at h
  unfold settleManifest
  dsimp only
  rw [members_finishManifest, (announceSelf_of_not hP h).1]
  exact (admitted_admitMembers env s m rotated).members

/-! ### The channels -/

/-- Admitting the members changes no table but the members, the DM peers and the channels. -/
theorem admitMembers_kept (env : Env) (s : AppState) (m : ManifestReceived)
    (rotated : List String) :
    (s.admitMembers P env m rotated).communities = s.communities ∧
      (s.admitMembers P env m rotated).channelKeys = s.channelKeys ∧
      (s.admitMembers P env m rotated).signingKey = s.signingKey := by
  unfold admitMembers wrapForMembers
  dsimp only
  split <;> exact ⟨rfl, rfl, rfl⟩

theorem widened_admitMembers (s : AppState) (m : ManifestReceived) (rotated : List String) :
    Widened P env (fun x u => x ∈ s.channelKeys ∧ m.communityPk = s.ownPk P ∧ x ∈ m.channelIds ∧
      ∃ v r, (m.record? v).or (member? s.toTables m.communityId v) = some r ∧ r.userId = u)
      s.channels (s.admitMembers P env m rotated).channels := by
  have hwrap : Widened P env _ s.channels (s.admitMembers P env m rotated).channels :=
    widened_wrapForMembers ((s.emit (s.retryFetch m rotated) []).receiveMembership P m) m
  refine hwrap.congr fun x u => ?_
  have hrecords : ∀ r, r ∈ memberList
      ((s.emit (s.retryFetch m rotated) []).receiveMembership P m).toTables m.communityId ↔
        ∃ v, (m.record? v).or (member? s.toTables m.communityId v) = some r := by
    intro r
    rw [mem_memberList]
    refine exists_congr fun v => ?_
    have hrecord := recordIn_receiveMembers s.members m m.communityId v
    rw [if_pos rfl] at hrecord
    exact Eq.congr_left hrecord
  simp only [hrecords]
  constructor
  · rintro ⟨hpk, hx, hkey, r, ⟨v, hv⟩, hu⟩
    exact ⟨hkey, hpk, hx, v, r, hv, hu⟩
  · rintro ⟨hkey, hpk, hx, v, r, hv, hu⟩
    exact ⟨hpk, hx, hkey, r, ⟨v, hv⟩, hu⟩

theorem channels_finishManifest (s : AppState) (m : ManifestReceived) (b : Bool) :
    (s.finishManifest m b).channels = s.channels := by
  unfold finishManifest
  cases b <;> rfl

theorem widened_settleManifest (hP : P.Lawful) (rotated : List String) (b : Bool)
    (hc : s.communities.lookup m.communityId = some m.manifest) :
    Widened P env (fun x u => x ∈ s.channelKeys ∧ WrapsFor P s m x u) s.channels
      (s.settleManifest P env m rotated b).channels := by
  have hadmitted : Widened P env _ s.channels _ := widened_admitMembers s m rotated
  obtain ⟨hcomm, hkeys, hkey⟩ := admitMembers_kept (P := P) env s m rotated
  have hpk : (s.admitMembers P env m rotated).ownPk P = s.ownPk P := by
    unfold ownPk
    rw [hkey]
  unfold settleManifest
  dsimp only
  rw [channels_finishManifest]
  generalize m.channelIds.length * _ = draws
  by_cases hself : Announces P s m
  · -- the node wraps the keys for itself too
    obtain ⟨hmember, hban⟩ := (announces_iff env s m rotated).mpr hself
    obtain ⟨r, hr, huser, -, -, -, hchannels⟩ := announceSelf_of (env.skip draws) hP hmember hban
    have hsigned : (s.admitMembers P env m rotated).communities.lookup r.communityId.text =
        some m.manifest := by
      rw [hr, hcomm, hc]
    have hjoined : Widened P (env.skip draws) _ _ _ := widened_wrapForJoiner hsigned
    rw [hchannels]
    refine (hadmitted.trans hjoined.of_skip).congr fun x u => ?_
    unfold WrapsFor
    rw [hpk, hkeys, huser, ownUserId, hpk]
    constructor
    · rintro (⟨hx, howner, hmem, hu⟩ | ⟨howner, hmem, hx, hu⟩)
      · exact ⟨hx, howner, .inl ⟨hmem, hu⟩⟩
      · exact ⟨hx, howner, .inr ⟨hmem, hself, hu⟩⟩
    · rintro ⟨hx, howner, ⟨hmem, hu⟩ | ⟨hmem, -, hu⟩⟩
      · exact .inl ⟨hx, howner, hmem, hu⟩
      · exact .inr ⟨howner, hmem, hx, hu⟩
  · rw [(announceSelf_of_not hP (mt (announces_iff env s m rotated).mp hself)).2]
    refine hadmitted.congr fun x u => and_congr_right fun _ => and_congr_right fun _ => ?_
    refine ⟨.inl, ?_⟩
    rintro (h | ⟨-, hann, -⟩)
    · exact h
    · exact absurd hann hself

/-! ## The response as a whole -/

theorem not_stalls_of_admin (hpk : m.communityPk = s.ownPk P) : ¬ s.Stalls P m := by
  rintro ⟨x, ⟨k, hk, k', hk', hne⟩, -⟩
  unfold successiveKeys at hk hk'
  rw [if_pos hpk, List.append_nil, Option.mem_toList] at hk hk'
  exact hne (Option.some.inj (hk.symm.trans hk'))

/-- The replay of buffered messages does not matter for the announcement. -/
theorem announces_afterReplay
    (htables : (s.afterReplay P m).toTables = (s.receiveTables P m).toTables) :
    Announces P (s.afterReplay P m) m ↔ Announces P s m := by
  have hself : (s.afterReplay P m).peerId P = s.peerId P :=
    peerId_congr (signingKey_afterReplay s m)
  have hmembers : (s.afterReplay P m).members = s.members := by
    rw [htables]
    rfl
  have hbans : (s.afterReplay P m).bans = s.bans := by
    rw [htables]
    rfl
  unfold Announces member? banList
  rw [hself, hmembers, hbans]

/-- What the tables are after a response that is taken. -/
structure Taken (P : Prims) (env : Env) (s s' : AppState) (m : ManifestReceived) : Prop where
  communities : s'.communities = s.communities.insert m.communityId m.manifest
  channelKeys : s'.channelKeys = (s.receiveKeys P m).keys
  channels : Widened P env (fun x u => x ∈ (s.receiveKeys P m).keys ∧ WrapsFor P s m x u)
    (receiveChannels s.channels m) s'.channels
  stalled : s.Stalls P m → s'.members = s.members
  received : ¬ s.Stalls P m → ¬ Announces P s m → s'.members = receiveMembers s.members m
  announced : ¬ s.Stalls P m → Announces P s m → ∃ r : MembershipRecord, r.joinedAt = env.now ∧
    s'.members = (receiveMembers s.members m).upsert m.communityId ∅ fun list =>
      list.insert (s.peerId P) r

theorem taken_of_live (env : Env) (hP : P.Lawful) (hbuf : OnlyMessagesBuffered P s)
    (hs : s.blocked = false) (hverify : m.manifest.verify P = true)
    (hlive : m.manifest.manifest.deleted = false) :
    Taken P env s (eventStep P s (env, .manifestReceived m)) m := by
  have hstep : eventStep P s (env, .manifestReceived m) = s.handleManifestReceived P env m :=
    processEvent_received env m hs
  rw [hstep]
  have htables := tables_afterReplay m hbuf
  have hmembers : (s.afterReplay P m).members = s.members := by
    rw [htables]
    rfl
  have hchannels : (s.afterReplay P m).channels = receiveChannels s.channels m :=
    congrArg Tables.channels htables
  have hkeys : (s.afterReplay P m).channelKeys = (s.receiveKeys P m).keys :=
    congrArg Tables.channelKeys htables
  have hself : (s.afterReplay P m).peerId P = s.peerId P :=
    peerId_congr (signingKey_afterReplay s m)
  have hannounces := announces_afterReplay htables
  have hwraps : ∀ x u, WrapsFor P (s.afterReplay P m) m x u ↔ WrapsFor P s m x u := by
    intro x u
    unfold WrapsFor
    rw [hannounces, ownUserId, ownPk_afterReplay]
    unfold member?
    rw [hmembers]
    rfl
  refine ⟨?_, channelKeys_handleManifestReceived env hbuf hverify hlive, ?_, ?_, ?_, ?_⟩
  · rw [communities_handleManifestReceived, if_pos hverify]
    unfold takeManifest
    rw [hlive]
    rfl
  · rw [handleManifestReceived_of_live env hverify hlive]
    rcases afterReplay_spec (P := P) hs m with ⟨hstall, hb⟩ | ⟨-, hb, -⟩
    · -- the admin never stalls, and nobody else wraps keys
      rw [if_pos hb, hchannels]
      exact .of_forall_not fun x u h => not_stalls_of_admin h.2.1 hstall
    · rw [if_neg (by rw [hb]; decide), ← hchannels, ← hkeys]
      refine (widened_settleManifest hP _ _ (lookup_communities_afterReplay m hbuf)).congr
        fun x u => ?_
      rw [hwraps]
  all_goals
    rw [handleManifestReceived_of_live env hverify hlive]
    rcases afterReplay_spec (P := P) hs m with ⟨hstall, hb⟩ | ⟨hstall, hb, -⟩
  · rw [if_pos hb]
    exact fun _ => hmembers
  · exact fun h => absurd h hstall
  · exact fun h => absurd hstall h
  · intro _ hnot
    rw [if_neg (by rw [hb]; decide),
      members_settleManifest_of_not hP _ _ (mt hannounces.mp hnot), hmembers]
  · exact fun h => absurd hstall h
  · intro _ hann
    rw [if_neg (by rw [hb]; decide)]
    obtain ⟨r, hnow, -, hr⟩ := members_settleManifest_of env hP (s.receiveKeys P m).rotated
      (m.channelIds.any fun ch => decide (ch ∉ (s.receiveKeys P m).keys)) (hannounces.mpr hann)
    exact ⟨r, hnow, by rw [hr, hmembers, hself]⟩

end

/-! ## When a response stays within its community -/

/-- The condition on a manifest response that is not a tombstone. What it says about `c` is free as
long as the node is in `c`; what it says about anything else the node must have already. -/
structure ResponseConfined (P : Prims) (c : String) (s : AppState) (m : ManifestReceived) :
    Prop where
  /-- The response is for `c`, or it repeats the manifest of another community. -/
  community : m.communityId = c ∧ c ∈ s.communities ∨
    s.communities.lookup m.communityId = some m.manifest
  /-- A channel that is new, or one of `c`, is a channel of `c` in the response. -/
  own : ∀ x ch, OwnChannel c s.toTables x → m.channel? x = some ch → m.keeps x ch = true →
    ch.communityId.text = c
  /-- The manifest of any other channel is the one that the node has. -/
  received : ∀ x ch, ¬ OwnChannel c s.toTables x → m.channel? x = some ch →
    (s.channels.lookup x).map ChannelManifest.content =
      if m.keeps x ch then some ch.content else none
  /-- No other channel is dropped because the manifest does not list it. -/
  evicted : ∀ x ch, ¬ OwnChannel c s.toTables x → m.channel? x = none →
    s.channels.lookup x = some ch → m.keeps x ch = true
  /-- A wrapped key of any other channel is the key that the node has. -/
  unwrapped : m.communityPk ≠ s.ownPk P → ∀ x k, ¬ OwnChannel c s.toTables x →
    s.unwrapped? P m x = some k → s.channelKeys.lookup x = some k
  /-- There is no plaintext key of another channel for which the node has no key. -/
  plain : ∀ x, ¬ OwnChannel c s.toTables x → x ∉ s.channelKeys → m.plainKey? x = none
  /-- The response is for `c`, or the processor stops before it takes the members in, or the node
  has the records already and does not announce itself. -/
  members : m.communityId = c ∨ s.Stalls P m ∨
    (∀ u r, m.record? u = some r → member? s.toTables m.communityId u = some r) ∧
      ¬ Announces P s m
  /-- If the node is the admin, whoever it would wrap the key of another channel for has it. -/
  wrapped : ∀ x ch u, ¬ OwnChannel c s.toTables x → s.channels.lookup x = some ch →
    x ∈ s.channelKeys → WrapsFor P s m x u → u ∈ ch.encryptedChannelKey

section

variable {P : Prims} {c : String} {s s' : AppState} {m : ManifestReceived} {env : Env}

theorem communities_confined_iff (h : Taken P env s s' m) :
    (∀ x, (x ≠ c ∨ c ∉ s.communities) → s'.communities.lookup x = s.communities.lookup x) ↔
      m.communityId = c ∧ c ∈ s.communities ∨
        s.communities.lookup m.communityId = some m.manifest := by
  rw [h.communities]
  constructor
  · intro hsame
    by_cases hown : m.communityId = c ∧ c ∈ s.communities
    · exact .inl hown
    · have hd := hsame m.communityId (not_and_or.mp hown)
      rw [AList.lookup_insert] at hd
      exact .inr hd.symm
  · intro hcond x hx
    rw [Dict.lookup_insert_eq]
    split
    · next heq =>
      subst heq
      rcases hcond with ⟨rfl, hmem⟩ | hrepeat
      · exact hx.elim (fun hne => absurd rfl hne) fun hnot => absurd hmem hnot
      · exact hrepeat.symm
    · rfl

theorem channelKeys_confined_iff (h : Taken P env s s' m) :
    (∀ x, ¬ OwnChannel c s.toTables x →
        s'.channelKeys.lookup x = s.channelKeys.lookup x) ↔
      (m.communityPk ≠ s.ownPk P → ∀ x k, ¬ OwnChannel c s.toTables x →
        s.unwrapped? P m x = some k → s.channelKeys.lookup x = some k) ∧
      ∀ x, ¬ OwnChannel c s.toTables x → x ∉ s.channelKeys → m.plainKey? x = none := by
  have hone : ∀ x, (s'.channelKeys.lookup x = s.channelKeys.lookup x) ↔
      (m.communityPk ≠ s.ownPk P → ∀ k, s.unwrapped? P m x = some k →
        s.channelKeys.lookup x = some k) ∧ (x ∉ s.channelKeys → m.plainKey? x = none) := by
    intro x
    rw [h.channelKeys, lookup_receiveKeys, ← AList.lookup_eq_none]
    by_cases hpk : m.communityPk = s.ownPk P
    · rw [if_pos hpk]
      cases s.channelKeys.lookup x <;> simp [hpk]
    · rw [if_neg hpk]
      cases s.unwrapped? P m x with
      | none => cases s.channelKeys.lookup x <;> simp
      | some k => cases s.channelKeys.lookup x <;> simp [hpk, eq_comm]
  constructor
  · intro hsame
    exact ⟨fun hpk x k hx => ((hone x).mp (hsame x hx)).1 hpk k,
      fun x hx => ((hone x).mp (hsame x hx)).2⟩
  · rintro ⟨hunwrapped, hplain⟩ x hx
    exact (hone x).mpr ⟨fun hpk k => hunwrapped hpk x k hx, hplain x hx⟩

/-- No row moves away from `c`. -/
theorem own_confined_iff (h : Taken P env s s' m) :
    (∀ x, OwnChannel c s.toTables x → ¬ ForeignChannel c s'.toTables x) ↔
      ∀ x ch, OwnChannel c s.toTables x → m.channel? x = some ch → m.keeps x ch = true →
        ch.communityId.text = c := by
  constructor
  · intro hnot x ch hown hch hkeep
    by_contra hne
    have hrow : (receiveChannels s.channels m).lookup x = some ch := by
      rw [lookup_receiveChannels, hch]
      exact Option.filter_eq_some_iff.mpr ⟨rfl, hkeep⟩
    obtain ⟨ch', hch', hwide⟩ := h.channels.lookup_of_some hrow
    exact hnot x hown ⟨ch', hch', by rwa [hwide.communityId_eq]⟩
  · rintro hall x hown ⟨ch', hch', hne⟩
    cases hrow : (receiveChannels s.channels m).lookup x with
    | none =>
      rw [h.channels.lookup_of_none hrow] at hch'
      cases hch'
    | some ch =>
      obtain ⟨ch'', hch'', hwide⟩ := h.channels.lookup_of_some hrow
      obtain rfl : ch'' = ch' := Option.some.inj (hch''.symm.trans hch')
      rw [hwide.communityId_eq] at hne
      rw [lookup_receiveChannels] at hrow
      obtain ⟨hor, hkeep⟩ := Option.filter_eq_some_iff.mp hrow
      cases hm : m.channel? x with
      | some ch₀ =>
        rw [hm] at hor
        cases hor
        exact hne (hall x ch hown hm hkeep)
      | none =>
        rw [hm] at hor
        exact hown.2 ⟨ch, hor, hne⟩

/-- A row that the response leaves alone. -/
theorem row_confined_iff (x : String) :
    ((receiveChannels s.channels m).lookup x).map ChannelManifest.content =
        (s.channels.lookup x).map ChannelManifest.content ↔
      (∀ ch, m.channel? x = some ch → (s.channels.lookup x).map ChannelManifest.content =
        if m.keeps x ch then some ch.content else none) ∧
      ∀ ch, m.channel? x = none → s.channels.lookup x = some ch → m.keeps x ch = true := by
  rw [lookup_receiveChannels]
  cases m.channel? x with
  | some ch =>
    have hafter : (((some ch).or (s.channels.lookup x)).filter (m.keeps x)).map
        ChannelManifest.content = if m.keeps x ch then some ch.content else none := by
      rw [Option.some_or, Option.filter_some]
      split <;> rfl
    rw [hafter]
    refine ⟨fun h => ⟨?_, fun ch' hch' => by cases hch'⟩, fun h => (h.1 ch rfl).symm⟩
    intro ch' hch'
    cases hch'
    exact h.symm
  | none =>
    cases s.channels.lookup x with
    | none => simp
    | some ch => cases hkeep : m.keeps x ch <;> simp [Option.filter_some, hkeep]

/-- The wrapped keys of two manifests with the same content are for the same users. -/
theorem mem_encryptedChannelKey_of_content (h : ch'.content = ch.content) (u : UserId) :
    u ∈ ch'.encryptedChannelKey ↔ u ∈ ch.encryptedChannelKey := by
  rw [← AList.lookup_isSome, ← AList.lookup_isSome]
  exact iff_of_eq (congrArg (fun v => (v.2 u).isSome = true) h)

theorem channels_confined_iff {s' : Env → AppState} (h : ∀ env, Taken P env s (s' env) m)
    (hkey : (s.receiveKeys P m).keys.lookup x = s.channelKeys.lookup x) :
    (∀ env, ((s' env).channels.lookup x).map ChannelManifest.content =
        (s.channels.lookup x).map ChannelManifest.content) ↔
      ((∀ ch, m.channel? x = some ch → (s.channels.lookup x).map ChannelManifest.content =
          if m.keeps x ch then some ch.content else none) ∧
        ∀ ch, m.channel? x = none → s.channels.lookup x = some ch → m.keeps x ch = true) ∧
      ∀ ch u, s.channels.lookup x = some ch → x ∈ s.channelKeys → WrapsFor P s m x u →
        u ∈ ch.encryptedChannelKey := by
  have hmem : x ∈ (s.receiveKeys P m).keys ↔ x ∈ s.channelKeys := by
    rw [← AList.lookup_isSome, ← AList.lookup_isSome, hkey]
  rw [Widened.forall_content_eq_iff (fun env => (h env).channels), ← row_confined_iff]
  refine and_congr_right fun hrow => ?_
  constructor
  · intro hall ch u hch hx hwraps
    rw [hch] at hrow
    obtain ⟨ch', hch', hcontent⟩ := Option.map_eq_some_iff.mp hrow
    rw [← mem_encryptedChannelKey_of_content hcontent]
    exact hall ch' hch' u ⟨hmem.mpr hx, hwraps⟩
  · intro hall ch' hch' u hu
    rw [hch'] at hrow
    obtain ⟨ch, hch, hcontent⟩ := Option.map_eq_some_iff.mp hrow.symm
    rw [← mem_encryptedChannelKey_of_content hcontent]
    exact hall ch u hch (hmem.mp hu.1) hu.2

/-- The members of the other communities stay. -/
theorem Taken.lookup_members_ne (h : Taken P env s s' m) (hx : x ≠ m.communityId) :
    s'.members.lookup x = s.members.lookup x := by
  have hreceived : (receiveMembers s.members m).lookup x = s.members.lookup x := by
    unfold receiveMembers
    split
    · rfl
    · rw [Dict.lookup_upsert, if_neg hx]
  by_cases hstall : s.Stalls P m
  · rw [h.stalled hstall]
  · by_cases hann : Announces P s m
    · obtain ⟨r, -, hr⟩ := h.announced hstall hann
      rw [hr, Dict.lookup_upsert, if_neg hx, hreceived]
    · rw [h.received hstall hann, hreceived]

/-- The record under which the node announces itself has the time of the announcement. -/
theorem not_announces_of_forall {s' : Env → AppState} (h : ∀ env, Taken P env s (s' env) m)
    (hstall : ¬ s.Stalls P m)
    (hsame : ∀ env u, member? (s' env).toTables m.communityId u =
      member? s.toTables m.communityId u) : ¬ Announces P s m := by
  intro hann
  have hself : ∀ env : Env, ∃ r : MembershipRecord, r.joinedAt = env.now ∧
      member? s.toTables m.communityId (s.peerId P) = some r := by
    intro env
    obtain ⟨r, hnow, hr⟩ := (h env).announced hstall hann
    refine ⟨r, hnow, ?_⟩
    rw [← hsame env]
    show recordIn (s' env).members _ _ = _
    rw [hr, recordIn_insert, if_pos ⟨rfl, rfl⟩]
  obtain ⟨r, hnow, hr⟩ := hself (.still 0 0)
  obtain ⟨r', hnow', hr'⟩ := hself (.still 1 0)
  obtain rfl : r = r' := Option.some.inj (hr.symm.trans hr')
  exact absurd (hnow.symm.trans hnow') (by decide : (0 : DateTime) ≠ 1)

theorem members_confined_iff {s' : Env → AppState} (h : ∀ env, Taken P env s (s' env) m)
    (hcomm : m.communityId = c ∧ c ∈ s.communities ∨
      s.communities.lookup m.communityId = some m.manifest) :
    (∀ env x, (x ≠ c ∨ c ∉ s.communities) →
        (x ∈ (s' env).members ↔ x ∈ s.members) ∧
          ∀ u, member? (s' env).toTables x u = member? s.toTables x u) ↔
      m.communityId = c ∨ s.Stalls P m ∨
        (∀ u r, m.record? u = some r → member? s.toTables m.communityId u = some r) ∧
          ¬ Announces P s m := by
  have hother : ∀ env x, x ≠ m.communityId → (x ∈ (s' env).members ↔ x ∈ s.members) ∧
      ∀ u, member? (s' env).toTables x u = member? s.toTables x u := by
    intro env x hx
    unfold member?
    rw [← AList.lookup_isSome, ← AList.lookup_isSome, (h env).lookup_members_ne hx]
    exact ⟨Iff.rfl, fun _ => rfl⟩
  have hrecord : ∀ u, recordIn (receiveMembers s.members m) m.communityId u =
      (m.record? u).or (member? s.toTables m.communityId u) := by
    intro u
    rw [recordIn_receiveMembers, if_pos rfl]
    rfl
  constructor
  · intro hall
    by_cases hc : m.communityId = c
    · exact .inl hc
    by_cases hstall : s.Stalls P m
    · exact .inr (.inl hstall)
    have hsame := fun env => (hall env m.communityId (.inl hc)).2
    have hnot := not_announces_of_forall h hstall hsame
    refine .inr (.inr ⟨fun u r hr => ?_, hnot⟩)
    have hu : recordIn (s' (.still 0 0)).members m.communityId u = _ := hsame (.still 0 0) u
    rw [(h _).received hstall hnot, hrecord, hr] at hu
    exact hu.symm
  · intro hcond env x hx
    by_cases hd : x = m.communityId
    · subst hd
      have hne : m.communityId ≠ c := by
        rintro hc
        have hmem : c ∈ s.communities := by
          rcases hcomm with ⟨-, hmem⟩ | hrepeat
          · exact hmem
          · rw [← hc, ← AList.lookup_isSome, hrepeat]
            rfl
        exact hx.elim (fun hne => hne hc) fun hnot => hnot hmem
      rcases hcond with hc | hstall | ⟨hrepeats, hnot⟩
      · exact absurd hc hne
      · unfold member?
        rw [(h env).stalled hstall]
        exact ⟨Iff.rfl, fun _ => rfl⟩
      · by_cases hstall : s.Stalls P m
        · unfold member?
          rw [(h env).stalled hstall]
          exact ⟨Iff.rfl, fun _ => rfl⟩
        · rw [(h env).received hstall hnot]
          refine ⟨?_, fun u => ?_⟩
          · rw [mem_receiveMembers]
            refine ⟨?_, .inl⟩
            rintro (hold | ⟨-, hsome⟩)
            · exact hold
            · exact mem_of_forall_record hsome hrepeats
          · show recordIn (s' env).members _ _ = _
            rw [(h env).received hstall hnot, hrecord]
            cases hr : m.record? u with
            | none => rfl
            | some r => exact (hrepeats u r hr).symm
    · exact hother env x hd

/-- A response that is not taken changes no table. -/
theorem confined_refl (c : String) (s : AppState) : Confined c s s :=
  ⟨fun _ _ => rfl, fun _ _ => ⟨Iff.rfl, fun _ => rfl⟩, fun _ _ => rfl, fun _ _ => rfl⟩

theorem confined_response_iff (hP : P.Lawful) (hbuf : OnlyMessagesBuffered P s)
    (hs : s.blocked = false) (hverify : m.manifest.verify P = true)
    (hlive : m.manifest.manifest.deleted = false) :
    (∀ env, Confined c s (eventStep P s (env, .manifestReceived m))) ↔
      ResponseConfined P c s m := by
  have h := fun env => taken_of_live env hP hbuf hs hverify hlive
  have hkey : ∀ x, (eventStep P s (.still 0 0, .manifestReceived m)).channelKeys.lookup x =
      (s.receiveKeys P m).keys.lookup x := fun x => by rw [(h _).channelKeys]
  simp only [confined_iff]
  constructor
  · intro hall
    have hcommunity := (communities_confined_iff (h (.still 0 0))).mp (hall _).1
    have hkeys := (channelKeys_confined_iff (h (.still 0 0))).mp (hall _).2.2.2.2
    have hrows := fun x hx => (channels_confined_iff h
      ((hkey x).symm.trans ((hall _).2.2.2.2 x hx))).mp fun env => (hall env).2.2.1 x hx
    exact
      { community := hcommunity
        own := (own_confined_iff (h (.still 0 0))).mp (hall _).2.2.2.1
        received := fun x ch hx => (hrows x hx).1.1 ch
        evicted := fun x ch hx => (hrows x hx).1.2 ch
        unwrapped := hkeys.1
        plain := hkeys.2
        members := (members_confined_iff h hcommunity).mp fun env => (hall env).2.1
        wrapped := fun x ch u hx => (hrows x hx).2 ch u }
  · intro hcond env
    have hkeys := (channelKeys_confined_iff (h (.still 0 0))).mpr ⟨hcond.unwrapped, hcond.plain⟩
    refine ⟨(communities_confined_iff (h env)).mpr hcond.community,
      (members_confined_iff h hcond.community).mpr hcond.members env, fun x hx => ?_,
      (own_confined_iff (h env)).mpr hcond.own,
      (channelKeys_confined_iff (h env)).mpr ⟨hcond.unwrapped, hcond.plain⟩⟩
    refine (channels_confined_iff h ((hkey x).symm.trans (hkeys x hx))).mpr
      ⟨⟨fun ch => hcond.received x ch hx, fun ch => hcond.evicted x ch hx⟩,
        fun ch u => hcond.wrapped x ch u hx⟩ env

theorem confined_tombstone_iff (env : Env) (hs : s.blocked = false)
    (hverify : m.manifest.verify P = true) (hdeleted : m.manifest.manifest.deleted = true) :
    Confined c s (eventStep P s (env, .manifestReceived m)) ↔ TombstoneConfined c s m := by
  have hstep : (eventStep P s (env, .manifestReceived m)).toTables =
      (s.removeCommunityLocal m.communityId).toTables := by
    unfold eventStep
    rw [processEvent_received env m hs]
    unfold handleManifestReceived
    rw [hverify, hdeleted]
    rfl
  have hsame : Confined c s (eventStep P s (env, .manifestReceived m)) ↔
      Confined c s (s.removeCommunityLocal m.communityId) := by
    rw [confined_iff, confined_iff, hstep]
  rw [hsame, confined_removeCommunityLocal_iff]
  exact ⟨fun h => ⟨h.1, h.2⟩, fun h => ⟨h.community, h.channels⟩⟩

/-- Whatever is drawn and whatever the time is, a response stays within the community that was
asked for if and only if the processor has stopped, or the response is not signed, or what it says
about anything else is what the node has. -/
theorem response_confined_iff (hP : P.Lawful) (hbuf : OnlyMessagesBuffered P s) (c : String)
    (m : ManifestReceived) :
    (∀ env, Confined c s (eventStep P s (env, .manifestReceived m))) ↔
      (s.blocked = false → m.manifest.verify P = true →
        (m.manifest.manifest.deleted = true → TombstoneConfined c s m) ∧
          (m.manifest.manifest.deleted = false → ResponseConfined P c s m)) := by
  by_cases htaken : s.blocked = false ∧ m.manifest.verify P = true
  · obtain ⟨hs, hverify⟩ := htaken
    cases hdeleted : m.manifest.manifest.deleted with
    | true =>
      have hone := fun env => confined_tombstone_iff (c := c) env hs hverify hdeleted
      constructor
      · exact fun h _ _ => ⟨fun _ => (hone (.still 0 0)).mp (h _), fun hlive => (by cases hlive)⟩
      · exact fun h env => (hone env).mpr ((h hs hverify).1 rfl)
    | false =>
      rw [confined_response_iff hP hbuf hs hverify hdeleted]
      exact ⟨fun h _ _ => ⟨fun hdead => (by cases hdead), fun _ => h⟩,
        fun h => (h hs hverify).2 rfl⟩
  · have hsame : ∀ env, eventStep P s (env, .manifestReceived m) = s := by
      intro env
      unfold eventStep
      cases hs : s.blocked with
      | true =>
        unfold processEvent
        exact if_pos hs
      | false =>
        rw [processEvent_received env m hs]
        unfold handleManifestReceived
        rw [Bool.eq_false_of_not_eq_true fun hverify => htaken ⟨hs, hverify⟩]
        rfl
    simp only [hsame]
    exact ⟨fun _ hs hverify => absurd ⟨hs, hverify⟩ htaken, fun _ _ => confined_refl c s⟩

end

namespace Sample

def foreignManifest : SignedManifest :=
  (CommunityManifest.mk ⟨6⟩ "" "" 41 0 [] [] [] 1 false).sign (prims [] []) 40

def bareResponse (signed : SignedManifest) : ManifestReceived := ⟨"peer", signed, [], ∅, []⟩

def asking : AppState := waitingMember.processEvent bufferPrims env (.lanPeerConnected "peer")

/-- The member after it left the community while the request was under way. -/
def departed : AppState := (asking.communityLeave bufferPrims env community.text).1

theorem ownChannel_waitingMember (x : String) :
    OwnChannel community.text waitingMember.toTables x := by
  refine ⟨by decide +kernel, ?_⟩
  rintro ⟨ch, hch, hne⟩
  have hlookup : (waitingMember.channels.lookup x) = some ch := hch
  unfold waitingMember withChannel at hlookup
  rw [Dict.lookup_insert_eq] at hlookup
  split at hlookup
  · cases hlookup
    exact hne rfl
  · cases hlookup

theorem onlyMessagesBuffered_waitingMember : OnlyMessagesBuffered bufferPrims waitingMember := by
  intro x buf hx
  cases hx

end Sample

open Sample in
/-- The node asks for the manifest of a community. A response with the manifest of another one adds
that community, and a response that arrives after the node left adds the one that it left. -/
theorem response_for_other_community :
    NetworkCommand.fetchManifest "peer" community.text 31 ∈ asking.commands ∧
      ¬ Confined community.text asking
        (eventStep bufferPrims asking (env, .manifestReceived (bareResponse foreignManifest))) ∧
      community.text ∉ departed.communities ∧
      ¬ Confined community.text departed
        (eventStep bufferPrims departed
          (env, .manifestReceived (bareResponse (manifest 30 1)))) := by
  refine ⟨List.mem_singleton.mpr rfl, fun h => ?_, by decide +kernel, fun h => ?_⟩
  · have hlookup := h.communities (⟨6⟩ : CommunityId).text (.inl (by decide +kernel))
    exact absurd (congrArg Option.isSome hlookup) (by decide +kernel)
  · have hlookup := h.communities community.text (.inr (by decide +kernel))
    exact absurd (congrArg Option.isSome hlookup) (by decide +kernel)

open Sample in
/-- A response with the channel of the community stays within the community. -/
theorem response_confined_rekeyed :
    Confined community.text waitingMember
      (eventStep bufferPrims waitingMember (env, .manifestReceived rekeyedResponse)) := by
  refine (response_confined_iff (prims_lawful _ _) onlyMessagesBuffered_waitingMember
    community.text rekeyedResponse).mpr
      (fun _ _ => ⟨fun h => absurd h (by decide), fun _ => ?_⟩) env
  exact
    { community := .inl ⟨rfl, by decide +kernel⟩
      own := by
        intro x ch _ hch _
        have hmem := List.mem_of_find?_eq_some hch
        rw [List.mem_reverse] at hmem
        rw [List.mem_singleton.mp hmem]
        rfl
      received := fun x _ hx => absurd (ownChannel_waitingMember x) hx
      evicted := fun x _ hx => absurd (ownChannel_waitingMember x) hx
      unwrapped := fun _ x _ hx => absurd (ownChannel_waitingMember x) hx
      plain := fun x hx => absurd (ownChannel_waitingMember x) hx
      members := .inl rfl
      wrapped := fun x _ _ hx => absurd (ownChannel_waitingMember x) hx }

end BitCord
