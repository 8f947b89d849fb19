import BitCord.ChannelLog
import BitCord.Events.Community

/-!
# What a restart loads

`AppState::new` fills the tables from the files and then from the stored metadata, and loads the
stored entries of every channel of the tables into the log. Reactions are rebuilt one channel after
the other, in the order of a hash map, so the results here are about messages whose reactions all
come from one channel.
-/

namespace BitCord

open Lib

variable {st st' : NodeStore} {pk : Key} {m : CommunityMeta} {x id home : String} {t' : Tables}

/-! ## Tables -/

namespace NodeStore

/-- The entries that the metadata of a community provide for a table; metadata without a manifest
provide none. -/
def provided {α : Type} (f : SignedManifest → CommunityMeta → List (String × α))
    (m : CommunityMeta) : List (String × α) :=
  match m.manifest with
  | some signed => f signed m
  | none => []

/-- The entries that all stored metadata provide, in the order of the communities. -/
def metaEntries {α : Type} (f : SignedManifest → CommunityMeta → List (String × α))
    (st : NodeStore) : List (String × α) :=
  st.allCommunities.flatMap fun cpk => ((st.meta? cpk).map (provided f)).getD []

variable {α : Type} {f : SignedManifest → CommunityMeta → List (String × α)}

theorem allCommunities_setCommunityMeta (hm : st.meta? pk = some m) (m' : CommunityMeta) :
    (st.setCommunityMeta pk m').allCommunities = st.allCommunities := by
  cases hget : st.metas.get pk with
  | none =>
    unfold meta? getCommunityMeta at hm
    rw [hget] at hm
    cases hm
  | some v => exact OrdMap.keys_insert_of_get st.metas _ hget

/-- Metadata are replaced by others that provide the same. -/
theorem metaEntries_setCommunityMeta {m' : CommunityMeta}
    (hm : st.meta? pk = some m) (h : provided f m' = provided f m) :
    metaEntries f (st.setCommunityMeta pk m') = metaEntries f st := by
  unfold metaEntries
  rw [allCommunities_setCommunityMeta hm]
  congr 1
  funext cpk
  rw [meta?_setCommunityMeta]
  split
  · next heq =>
    rw [heq, hm, Option.map_some, Option.map_some, h]
  · rfl

theorem mem_metaEntries {e : String × α} :
    e ∈ metaEntries f st ↔
      ∃ cpk ∈ st.allCommunities, ∃ m, st.meta? cpk = some m ∧ e ∈ provided f m := by
  unfold metaEntries
  rw [List.mem_flatMap]
  refine exists_congr fun cpk => and_congr_right fun _ => ?_
  cases st.meta? cpk <;> simp

end NodeStore

variable {cs : List ((_ : String) × ChannelManifest)}

namespace AppState

open NodeStore

def communityEntry (signed : SignedManifest) (_ : CommunityMeta) :
    List (String × SignedManifest) :=
  [(signed.manifest.id.text, signed)]

def channelEntries (_ : SignedManifest) (m : CommunityMeta) : List (String × ChannelManifest) :=
  m.channels.map fun c => (c.id.text, c)

def storedKeys (_ : SignedManifest) (m : CommunityMeta) : List (String × Key) :=
  keyEntries m.channelKeys

/-- The tables agree on what a channel is loaded with: where it is stored, and the keys of its
messages. -/
structure SameTables (t t' : Tables) : Prop where
  communities : t'.communities = t.communities
  channels : t'.channels = t.channels
  channelKeys : t'.channelKeys = t.channelKeys
  previousChannelKeys : t'.previousChannelKeys = t.previousChannelKeys

/-- The tables with further entries, where they have none. -/
def addEntries (t : Tables) (communities : List (String × SignedManifest))
    (channels : List (String × ChannelManifest)) (keys : List (String × Key)) : Tables :=
  { t with
    communities := t.communities.orInsertAll communities
    channels := t.channels.orInsertAll channels
    channelKeys := t.channelKeys.orInsertAll keys }

theorem backPopulate_eq (m : CommunityMeta) (t : Tables) :
    SameTables (addEntries t (provided communityEntry m) (provided channelEntries m)
      (provided storedKeys m)) (backPopulate m t) := by
  unfold backPopulate provided
  cases m.manifest with
  | none => exact ⟨rfl, rfl, rfl, rfl⟩
  | some signed => exact ⟨rfl, rfl, rfl, rfl⟩

/-- The tables after the metadata were read: an entry of the files wins over one of the metadata,
and an earlier community over a later one. -/
theorem backPopulateAll_eq (st : NodeStore) (t : Tables) :
    SameTables (addEntries t (st.metaEntries communityEntry) (st.metaEntries channelEntries)
      (st.metaEntries storedKeys)) (backPopulateAll st t) := by
  unfold metaEntries backPopulateAll
  generalize st.allCommunities = l
  induction l generalizing t with
  | nil => exact ⟨rfl, rfl, rfl, rfl⟩
  | cons cpk l ih =>
    rw [List.foldl_cons]
    cases hm : st.meta? cpk with
    | none =>
      simp only [List.flatMap_cons, hm]
      exact ih t
    | some m =>
      simp only [List.flatMap_cons, hm]
      have hlater := ih (backPopulate m t)
      have hfirst := backPopulate_eq m t
      refine ⟨hlater.communities.trans ?_, hlater.channels.trans ?_, hlater.channelKeys.trans ?_,
        hlater.previousChannelKeys.trans hfirst.previousChannelKeys⟩
      · exact (congrArg _ hfirst.communities).trans (Dict.orInsertAll_append _ _ _).symm
      · exact (congrArg _ hfirst.channels).trans (Dict.orInsertAll_append _ _ _).symm
      · exact (congrArg _ hfirst.channelKeys).trans (Dict.orInsertAll_append _ _ _).symm

/-- The merge of the members changes neither the stored messages nor what fills the other
tables. -/
structure SameChannels (st st' : NodeStore) : Prop where
  messages : ∀ cpk ch since, st'.getMessages cpk ch since = st.getMessages cpk ch since
  communities : st'.metaEntries communityEntry = st.metaEntries communityEntry
  channels : st'.metaEntries channelEntries = st.metaEntries channelEntries
  keys : st'.metaEntries storedKeys = st.metaEntries storedKeys

theorem SameChannels.trans {st'' : NodeStore} (h : SameChannels st st')
    (h' : SameChannels st' st'') : SameChannels st st'' where
  messages cpk ch since := (h'.messages cpk ch since).trans (h.messages cpk ch since)
  communities := h'.communities.trans h.communities
  channels := h'.channels.trans h.channels
  keys := h'.keys.trans h.keys

theorem mergeStep_sameChannels (t : Tables) (st : NodeStore)
    (e : (_ : String) × Dict String MembershipRecord) : SameChannels st (mergeStep t st e) := by
  unfold mergeStep
  split
  · exact ⟨fun _ _ _ => rfl, rfl, rfl, rfl⟩
  · split
    · exact ⟨fun _ _ _ => rfl, rfl, rfl, rfl⟩
    · next m hm =>
      dsimp only
      split
      · exact ⟨fun _ _ _ => rfl, metaEntries_setCommunityMeta hm rfl,
          metaEntries_setCommunityMeta hm rfl, metaEntries_setCommunityMeta hm rfl⟩
      · exact ⟨fun _ _ _ => rfl, rfl, rfl, rfl⟩

theorem mergeMembers_sameChannels (t : Tables) (st : NodeStore) :
    SameChannels st (mergeMembers t st) :=
  List.foldlRecOn (motive := fun st' => SameChannels st st') _ _
    ⟨fun _ _ _ => rfl, rfl, rfl, rfl⟩
    fun st' h e _ => h.trans (mergeStep_sameChannels t st' e)

def loadedTables (files : Tables) (st : NodeStore) : Tables :=
  addEntries files (st.metaEntries communityEntry) (st.metaEntries channelEntries)
    (st.metaEntries storedKeys)

theorem loadedTables_congr (h : SameChannels st st') (files : Tables) :
    loadedTables files st' = loadedTables files st := by
  unfold loadedTables
  rw [h.communities, h.channels, h.keys]

/-! ## Messages -/

/-- The community key under which a restart looks for the messages of a channel. -/
def homePk (t : Tables) (x : String) : Option Key :=
  (t.channels.lookup x).bind fun ch => communityPk? t ch.communityId.text

/-- The entries that a restart loads for a channel. -/
def storedEntries (t : Tables) (st : NodeStore) (x : String) : List LogEntry :=
  match parseUlid x, homePk t x with
  | some ulid, some pk =>
    match st.getMessages pk ulid 0 with
    | .ok entries => entries
    | .error _ => []
  | _, _ => []

section

variable (P : Prims)

/-- The content of an entry of a channel, as a restart reads it. -/
def contentOf (t : Tables) (x : String) (e : LogEntry) : Option MessageContent :=
  (decryptEither P (t.channelKeys.lookup x) (t.previousChannelKeys.lookup x) e.nonce
    e.ciphertext).bind P.decodeContent

def loadEntry (t : Tables) (x : String) (log : MessageLog) (e : LogEntry) : MessageLog :=
  (applyReaction log (contentOf P t x e) e.authorId).appendEntry x e

def reload (t : Tables) (st : NodeStore) : MessageLog :=
  t.channels.entries.foldl (fun log c => loadChannel P t st log c.1 c.2) MessageLog.empty

end

variable {P : Prims} {t : Tables} {st : NodeStore}

theorem loadChannel_eq {ch : ChannelManifest} (h : t.channels.lookup x = some ch)
    (log : MessageLog) :
    loadChannel P t st log x ch = (storedEntries t st x).foldl (loadEntry P t x) log := by
  unfold loadChannel storedEntries homePk
  rw [h, Option.bind_some]
  cases parseUlid x with
  | none => rfl
  | some ulid =>
    cases communityPk? t ch.communityId.text with
    | none => rfl
    | some pk =>
      dsimp only
      cases st.getMessages pk ulid 0 with
      | ok entries => rfl
      | error err => rfl

theorem storedEntries_of_notMem (h : x ∉ t.channels) : storedEntries t st x = [] := by
  unfold storedEntries homePk
  rw [AList.lookup_eq_none.mpr h]
  cases parseUlid x <;> rfl

theorem entries_foldl_loadEntry (x y : String) (l : List LogEntry) (log : MessageLog) :
    (l.foldl (loadEntry P t x) log).entries y =
      log.entries y ++ if y = x then l else [] := by
  induction l generalizing log with
  | nil => simp
  | cons e l ih =>
    rw [List.foldl_cons, ih, loadEntry, MessageLog.entries_appendEntry]
    by_cases hy : y = x
    · simp [hy]
    · simp [hy]

theorem entries_foldl_loadChannel (hcs : ∀ c ∈ cs, t.channels.lookup c.1 = some c.2)
    (hnodup : (cs.map Sigma.fst).Nodup) (log : MessageLog) (x : String) :
    (cs.foldl (fun log c => loadChannel P t st log c.1 c.2) log).entries x =
      log.entries x ++ if x ∈ cs.map Sigma.fst then storedEntries t st x else [] := by
  induction cs generalizing log with
  | nil => simp
  | cons c cs ih =>
    rw [List.map_cons, List.nodup_cons] at hnodup
    have hlater := ih (fun c' hc' => hcs c' (List.mem_cons_of_mem c hc')) hnodup.2
    rw [List.foldl_cons, hlater, loadChannel_eq (hcs c List.mem_cons_self),
      entries_foldl_loadEntry]
    by_cases hx : x = c.1
    · subst hx
      simp [hnodup.1]
    · have hiff : x ∈ (c :: cs).map Sigma.fst ↔ x ∈ cs.map Sigma.fst := by
        rw [List.map_cons, List.mem_cons, or_iff_right hx]
      rw [if_neg hx, List.append_nil]
      simp only [hiff]

theorem entries_reload (x : String) : (reload P t st).entries x = storedEntries t st x := by
  unfold reload
  rw [entries_foldl_loadChannel (fun c hc => (Dict.lookup_eq_some_iff _ _ _).mpr hc)
    t.channels.nodupKeys]
  show [] ++ _ = _
  rw [List.nil_append]
  split
  · rfl
  · next hx => exact (storedEntries_of_notMem hx).symm

/-! ## Reactions -/

def Targets (id : String) (content : Option MessageContent) : Prop :=
  ∃ emoji isAdd, content = some (.reaction id emoji isAdd)

/-- The reactions to one message depend on what they were and on the contents that target it. -/
theorem lookup_applyReaction_congr {log log' : MessageLog}
    (h : log'.reactions.lookup id = log.reactions.lookup id) (content : Option MessageContent)
    (user : String) :
    (applyReaction log' content user).reactions.lookup id =
      (applyReaction log content user).reactions.lookup id := by
  unfold applyReaction
  split
  · next target emoji =>
    simp only [MessageLog.react, Dict.lookup_upsert]
    split
    · next hid => rw [← hid, h]
    · exact h
  · next target emoji =>
    simp only [MessageLog.unreact, Dict.lookup_adjust]
    split
    · next hid => rw [← hid, h]
    · exact h
  · exact h

theorem lookup_applyReaction_of_not_targets {content : Option MessageContent}
    (h : ¬ Targets id content) (log : MessageLog) (user : String) :
    (applyReaction log content user).reactions.lookup id = log.reactions.lookup id := by
  unfold applyReaction
  split
  · next target emoji =>
    have hne : id ≠ target := by
      rintro rfl
      exact h ⟨emoji, true, rfl⟩
    simp only [MessageLog.react, Dict.lookup_upsert, if_neg hne]
  · next target emoji =>
    have hne : id ≠ target := by
      rintro rfl
      exact h ⟨emoji, false, rfl⟩
    simp only [MessageLog.unreact, Dict.lookup_adjust, if_neg hne]
  · rfl

theorem lookup_foldl_loadEntry_congr {log log' : MessageLog} (x : String)
    (l : List LogEntry) (h : log'.reactions.lookup id = log.reactions.lookup id) :
    (l.foldl (loadEntry P t x) log').reactions.lookup id =
      (l.foldl (loadEntry P t x) log).reactions.lookup id := by
  induction l generalizing log log' with
  | nil => exact h
  | cons e l ih => exact ih (lookup_applyReaction_congr h _ _)

/-- Entries that do not react to a message leave its reactions alone. -/
theorem lookup_foldl_loadEntry_of_local {l : List LogEntry}
    (h : ∀ e ∈ l, ¬ Targets id (contentOf P t x e)) (log : MessageLog) :
    (l.foldl (loadEntry P t x) log).reactions.lookup id = log.reactions.lookup id := by
  induction l generalizing log with
  | nil => rfl
  | cons e l ih =>
    rw [List.foldl_cons, ih fun e' he' => h e' (List.mem_cons_of_mem e he')]
    exact lookup_applyReaction_of_not_targets (h e List.mem_cons_self) log e.authorId

/-- Where only entries of the channel `home` react to a message, the order in which the channels
are loaded does not matter. -/
theorem lookup_foldl_loadChannel (hcs : ∀ c ∈ cs, t.channels.lookup c.1 = some c.2)
    (hnodup : (cs.map Sigma.fst).Nodup)
    (hlocal : ∀ y, y ≠ home → ∀ e ∈ storedEntries t st y, ¬ Targets id (contentOf P t y e))
    (log : MessageLog) :
    (cs.foldl (fun log c => loadChannel P t st log c.1 c.2) log).reactions.lookup id =
      if home ∈ cs.map Sigma.fst then
        ((storedEntries t st home).foldl (loadEntry P t home) log).reactions.lookup id
      else log.reactions.lookup id := by
  induction cs generalizing log with
  | nil => simp
  | cons c cs ih =>
    rw [List.map_cons, List.nodup_cons] at hnodup
    have hlater := ih (fun c' hc' => hcs c' (List.mem_cons_of_mem c hc')) hnodup.2
    rw [List.foldl_cons, hlater, loadChannel_eq (hcs c List.mem_cons_self)]
    by_cases hhome : c.1 = home
    · subst hhome
      rw [if_neg hnodup.1, List.map_cons, if_pos List.mem_cons_self]
    · have hkept := lookup_foldl_loadEntry_of_local (hlocal c.1 hhome) log
      have hiff : home ∈ (c :: cs).map Sigma.fst ↔ home ∈ cs.map Sigma.fst := by
        rw [List.map_cons, List.mem_cons, or_iff_right (Ne.symm hhome)]
      simp only [hiff]
      split
      · exact lookup_foldl_loadEntry_congr home _ hkept
      · exact hkept

theorem lookup_reload
    (hlocal : ∀ y, y ≠ home → ∀ e ∈ storedEntries t st y, ¬ Targets id (contentOf P t y e)) :
    (reload P t st).reactions.lookup id =
      ((storedEntries t st home).foldl (loadEntry P t home) MessageLog.empty).reactions.lookup
        id := by
  unfold reload
  rw [lookup_foldl_loadChannel (fun c hc => (Dict.lookup_eq_some_iff _ _ _).mpr hc)
    t.channels.nodupKeys hlocal]
  split
  · rfl
  · next hx =>
    rw [storedEntries_of_notMem hx]
    rfl

/-! ## Restart -/

theorem loadChannel_congr (ht : SameTables t t')
    (hst : SameChannels st st') (log : MessageLog) (x : String) (ch : ChannelManifest) :
    loadChannel P t' st' log x ch = loadChannel P t st log x ch := by
  unfold loadChannel communityPk?
  simp only [ht.communities, ht.channelKeys, ht.previousChannelKeys, hst.messages]

theorem reload_congr (ht : SameTables t t')
    (hst : SameChannels st st') : reload P t' st' = reload P t st := by
  unfold reload
  rw [ht.channels]
  simp only [loadChannel_congr ht hst]

/-- The members do not matter for what else a restart loads. -/
theorem sameTables_backPopulateAll (files : Tables) (st : NodeStore) :
    SameTables (loadedTables files st) (backPopulateAll (mergeMembers files st) files) := by
  rw [← loadedTables_congr (mergeMembers_sameChannels files st)]
  exact backPopulateAll_eq _ _

theorem messageLog_restart {s : AppState} (h : s.nodeStore = some st) :
    (s.restart P).messageLog = reload P (loadedTables s.files st) st := by
  rw [← reload_congr (sameTables_backPopulateAll s.files st)
    (mergeMembers_sameChannels s.files st)]
  unfold restart
  rw [h]
  rfl

end AppState

end BitCord
