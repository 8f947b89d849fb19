import BitCord.Sample

/-!
# Copying a community to a new seed node

When `community_update_manifest` names a new seed node, the creator's node connects to it and sends
it the community: `sync_community_to_seed`. The channels and the members are those of the community,
but the channel keys are all that the node has (`seed_receives_own_keys_iff`,
`seed_receives_foreign_key`).
-/

namespace BitCord

open Lib

/-! ## The requests -/

/-- The client takes the answer to a request for a success; `none` is a failure of the
connection. -/
def ClientRequest.acceptedBy : ClientRequest → Option NodeResponse → Bool
  | .joinCommunity _ _ _, some (.authenticated _) => true
  | .pushManifest _ _ _ _ _, some .pushAck => true
  | .pushHistory _ _ _, some .pushAck => true
  | _, _ => false

/-- The requests that are sent when they are made one after the other: the first one that is not
accepted is the last. -/
def sendInTurn : List ClientRequest → List (Option NodeResponse) → List ClientRequest
  | [], _ => []
  | r :: _, [] => [r]
  | r :: rs, a :: answers => r :: if r.acceptedBy a then sendInTurn rs answers else []

variable {answers : List (Option NodeResponse)} {s : AppState}

theorem mem_of_mem_sendInTurn {rs : List ClientRequest} {r : ClientRequest}
    (h : r ∈ sendInTurn rs answers) : r ∈ rs := by
  induction rs generalizing answers with
  | nil => exact h
  | cons r' rs ih =>
    cases answers with
    | nil => exact List.mem_cons.mpr (.inl (List.mem_singleton.mp h))
    | cons a answers =>
      rcases List.mem_cons.mp h with rfl | h
      · exact List.mem_cons_self
      · split at h
        · exact List.mem_cons_of_mem _ (ih h)
        · cases h

namespace AppState

def listedChannels (s : AppState) (m : CommunityManifest) : List ChannelManifest :=
  m.channelIds.filterMap fun id => s.channels.lookup id.text

def syncKeys (s : AppState) : Dict String Bytes :=
  Dict.insertAll (s.channelKeys.entries.map fun e => (e.1, toBytes e.2)) ∅

/-- The history of a channel, in batches of 500 entries. -/
def syncHistory (s : AppState) (communityPk : Key) (ch : ChannelManifest) : List ClientRequest :=
  ((s.messageLog.getSince ch.id.text 0).toChunks 500).map (.pushHistory communityPk ch.id.ulid)

end AppState

/-- The arguments of `sync_community_to_seed`. -/
structure SeedSync where
  communityId : String
  communityPk : Key
  manifest : SignedManifest
  seedAddr : String

namespace SeedSync

variable (P : Prims)

/-- The requests of a sync with the node `nodePk`, if all are accepted. -/
def requests (sync : SeedSync) (s : AppState) (nodePk : Key) : List ClientRequest :=
  let channels := s.listedChannels sync.manifest.manifest
  .joinCommunity (HostingCert.new P s.signingKey nodePk maxSeq) (some sync.communityId) none ::
    .pushManifest sync.communityPk sync.manifest channels s.syncKeys
      (AppState.memberList s.toTables sync.communityId) ::
    channels.flatMap (s.syncHistory sync.communityPk)

/-- `sync_community_to_seed`: what is sent to the seed. The connection, with the pinned fingerprint,
gives the key of the seed. -/
def sent (sync : SeedSync) (s : AppState) (connect : NodeAddr → Key → Option Key)
    (answers : List (Option NodeResponse)) : List ClientRequest :=
  match P.parseNodeAddr sync.seedAddr with
  | none => []
  | some addr =>
    match connect addr ((s.seedFingerprints.lookup sync.seedAddr).getD 0) with
    | none => []
    | some nodePk => sendInTurn (sync.requests P s nodePk) answers

end SeedSync

/-- The sync that `community_update_manifest` starts: the creator changed the first seed node. -/
def AppState.seedSync (P : Prims) (s : AppState) (p : UpdateManifestParams) : Option SeedSync :=
  match s.communities.lookup p.communityId, s.communityUpdateManifest P p with
  | some old, (s', .ok _) =>
    (s'.communities.lookup p.communityId).bind fun updated =>
      let newSeed := updated.manifest.seedNodes.headD ""
      if newSeed ≠ "" ∧ newSeed ≠ old.manifest.seedNodes.headD "" ∧
          s.ownPk P = updated.manifest.publicKey then
        some ⟨p.communityId, updated.manifest.publicKey, updated, newSeed⟩
      else none
  | _, _ => none

/-! ## The keys that are sent -/

def CommunityManifest.Lists (m : CommunityManifest) (channelId : String) : Prop :=
  ∃ ch ∈ m.channelIds, ch.text = channelId

instance (m : CommunityManifest) (channelId : String) : Decidable (m.Lists channelId) :=
  inferInstanceAs (Decidable (∃ ch ∈ m.channelIds, ch.text = channelId))

theorem AppState.mem_syncKeys {channelId : String} :
    channelId ∈ s.syncKeys ↔ channelId ∈ s.channelKeys := by
  unfold syncKeys
  rw [Dict.mem_insertAll, List.map_map]
  simp only [AList.notMem_empty, or_false]
  exact Iff.rfl

variable {P : Prims}

theorem SeedSync.pushManifest_of_mem_sent {sync : SeedSync}
    {connect : NodeAddr → Key → Option Key} {cpk : Key} {manifest : SignedManifest}
    {channels : List ChannelManifest} {keys : Dict String Bytes} {members : List MembershipRecord}
    (h : .pushManifest cpk manifest channels keys members ∈ sync.sent P s connect answers) :
    manifest = sync.manifest ∧ keys = s.syncKeys := by
  unfold SeedSync.sent at h
  split at h
  · cases h
  · split at h
    · cases h
    · have hmem := mem_of_mem_sendInTurn h
      unfold SeedSync.requests at hmem
      rcases List.mem_cons.mp hmem with hjoin | hmem
      · cases hjoin
      · rcases List.mem_cons.mp hmem with hpush | hhistory
        · cases hpush
          exact ⟨rfl, rfl⟩
        · obtain ⟨ch, -, hbatch⟩ := List.mem_flatMap.mp hhistory
          obtain ⟨batch, -, heq⟩ := List.mem_map.mp hbatch
          cases heq

/-- The manifest that the seed gets comes with keys of listed channels only if and only if the node
has only keys of listed channels. -/
theorem seed_receives_own_keys_iff {sync : SeedSync} {s : AppState}
    {connect : NodeAddr → Key → Option Key} {answers : List (Option NodeResponse)} {cpk : Key}
    {manifest : SignedManifest} {channels : List ChannelManifest} {keys : Dict String Bytes}
    {members : List MembershipRecord}
    (h : .pushManifest cpk manifest channels keys members ∈ sync.sent P s connect answers) :
    (∀ id ∈ keys, manifest.manifest.Lists id) ↔
      ∀ id ∈ s.channelKeys, sync.manifest.manifest.Lists id := by
  obtain ⟨rfl, rfl⟩ := SeedSync.pushManifest_of_mem_sent h
  simp only [AppState.mem_syncKeys]

/-! ## A creator of two communities -/

namespace Sample

/-- All texts are read as one address. -/
def addrPrims : Prims := { prims [] [] with parseNodeAddr := fun _ => some addr }

def hostedManifest : CommunityManifest :=
  ⟨community, "", "", 31, 0, [addrPrims.userIdOf 31], [channel.id], [], 1, false⟩

/-- The channel 8 belongs to another community of the same user. -/
def otherChannel : ChannelManifest := ⟨⟨8⟩, ⟨6⟩, "private", .text, ∅, 0, 1⟩

/-- A node with the first community and its key. -/
def oneCommunity : AppState :=
  withChannel { app 30 with
    communities := Dict.insertAll [(community.text, hostedManifest.sign addrPrims 30)] ∅ }
    channel 70

def twoCommunities : AppState := withChannel oneCommunity otherChannel 80

def newSeed : UpdateManifestParams :=
  ⟨community.text, none, none, some ["seed:9042"], some (hexText 3)⟩

def hostedSync : SeedSync := ⟨community.text, 31, hostedManifest.sign addrPrims 30, "seed:9042"⟩

end Sample

open Sample in
/-- The user names a seed node for the first community. The seed, which has only to let the node
join, gets the key of a channel that the manifest does not list. -/
theorem seed_receives_foreign_key :
    ∃ sync connect answers cpk manifest channels keys members,
      twoCommunities.seedSync addrPrims newSeed = some sync ∧
      .pushManifest cpk manifest channels keys members ∈
        sync.sent addrPrims twoCommunities connect answers ∧
      otherChannel.id.text ∈ keys ∧ ¬ manifest.manifest.Lists otherChannel.id.text := by
  have hsync : ((twoCommunities.seedSync addrPrims newSeed).map fun sync =>
      decide (sync.manifest.manifest.Lists otherChannel.id.text)) = some false := by decide +kernel
  obtain ⟨sync, hsync, hlists⟩ := Option.map_eq_some_iff.mp hsync
  refine ⟨sync, fun _ _ => some 99, [some (.authenticated 99)], sync.communityPk, sync.manifest,
    twoCommunities.listedChannels sync.manifest.manifest, twoCommunities.syncKeys,
    AppState.memberList twoCommunities.toTables sync.communityId, hsync, ?_,
    AppState.mem_syncKeys.mpr (by decide +kernel), of_decide_eq_false hlists⟩
  exact List.mem_cons_of_mem _ List.mem_cons_self

open Sample in
theorem seed_receives_own_keys_sample :
    .pushManifest 31 hostedSync.manifest (oneCommunity.listedChannels hostedManifest)
        oneCommunity.syncKeys (AppState.memberList oneCommunity.toTables community.text) ∈
          hostedSync.sent addrPrims oneCommunity (fun _ _ => some 99) [some (.authenticated 99)] ∧
      ∀ id ∈ oneCommunity.syncKeys, hostedManifest.Lists id := by
  have hsent : .pushManifest 31 hostedSync.manifest (oneCommunity.listedChannels hostedManifest)
      oneCommunity.syncKeys (AppState.memberList oneCommunity.toTables community.text) ∈
        hostedSync.sent addrPrims oneCommunity (fun _ _ => some 99) [some (.authenticated 99)] :=
    List.mem_cons_of_mem _ List.mem_cons_self
  have hkeys : ∀ id ∈ oneCommunity.channelKeys.keys, hostedManifest.Lists id := by decide +kernel
  exact ⟨hsent, (seed_receives_own_keys_iff hsent).mpr hkeys⟩

end BitCord
