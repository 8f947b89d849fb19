import BitCord.Commands
import BitCord.Lib.Run
import BitCord.Network

/-!
# Where the event processor waits

`process_swarm_events` handles one event at a time. Two kinds of statements make a handler wait for
another task: a send to the command channel, and a lock that is taken elsewhere. `eventActions`
lists them for each event in the order of the source. Of the locks only those are listed that
`bootstrap_network` keeps while it sends commands.

The sends among the actions are the commands that the handlers issue (`commands_run`), with the
fetches of mailboxes that the application model leaves out.
-/

namespace BitCord

open Lib Lib.Run

/-- The commands of the network layer: those that the handlers of the application model send, and
the others. -/
inductive LoopCommand where
  | app (cmd : NetworkCommand)
  | sendDm (cmd : SendDm)
  | addListenAddr (addr : String)
  | fetchMailbox (peerId : String)
  | discoverAndDial (peers : List (Key × NodeAddr)) (communityPk : Key) (communityId : String)
  | shutdown

/-- The events of the network layer: those of the application model, and the others. -/
inductive LoopEvent where
  | app (event : SwarmEvent)
  | newListenAddr (addr : String)
  | dmReceived (event : DmReceived)
  | manifestNotFound (communityId peerId : String)
  | dmSendFailed (peerId messageId : String)
  | peerAddrKnown (nodePk : Key) (addr : NodeAddr)

/-- The event as the application model handles it, if it does. -/
def LoopEvent.toSwarm (expand : String → List String) : LoopEvent → Option SwarmEvent
  | .app event => some event
  | .newListenAddr addr => some (.newListenAddr (expand addr))
  | _ => none

/-- The locks that `bootstrap_network` keeps and a handler needs for itself. -/
inductive Lock where
  | communities
  | channels
  | hostingPasswords
  | pendingManifestSyncs
  deriving DecidableEq

inductive Action where
  /-- Take the lock, and release it before the next action. -/
  | lock (l : Lock)
  | acquire (l : Lock)
  | release (l : Lock)
  | send (cmd : LoopCommand)
  /-- Spawn a search for the peers of a community in the DHT. -/
  | findPeers (communityPk : Key) (communityId : String)

def Action.command : Action → Option NetworkCommand
  | .send (.app cmd) => some cmd
  | _ => none

/-- The commands of the application model among the sends of the actions. -/
def sent (actions : List Action) : List NetworkCommand := actions.filterMap Action.command

def sends (cmds : List NetworkCommand) : List Action := cmds.map fun cmd => .send (.app cmd)

section

variable (a b : List Action) (l : Lock)

@[simp] theorem sent_nil : sent [] = [] := rfl

@[simp] theorem sent_append : sent (a ++ b) = sent a ++ sent b := List.filterMap_append

@[simp] theorem sent_lock : sent (.lock l :: a) = sent a := rfl

@[simp] theorem sent_acquire : sent (.acquire l :: a) = sent a := rfl

@[simp] theorem sent_release : sent (.release l :: a) = sent a := rfl

@[simp] theorem sent_app (cmd : NetworkCommand) :
    sent (.send (.app cmd) :: a) = cmd :: sent a := rfl

@[simp] theorem sent_fetchMailbox (peerId : String) :
    sent (.send (.fetchMailbox peerId) :: a) = sent a := rfl

@[simp] theorem sent_ite_lock (p : Prop) [Decidable p] :
    sent (if p then [.lock l] else []) = [] := by
  split <;> rfl

@[simp] theorem sent_ite_nil_lock (p : Prop) [Decidable p] :
    sent (if p then [] else [.lock l]) = [] := by
  split <;> rfl

@[simp] theorem sent_sends (cmds : List NetworkCommand) : sent (sends cmds) = cmds := by
  induction cmds with
  | nil => rfl
  | cons cmd cmds ih => exact congrArg (cmd :: ·) ih

end

variable (dht : Bool) (s : AppState)

variable (env : Env)

namespace AppState

section

variable (P : Prims)

/-! ## Peers -/

/-- The searches for the peers of all communities; `dht` tells whether the node takes part in the
DHT. -/
def searches (dht : Bool) (s : AppState) : List Action :=
  if dht then s.communities.entries.map fun e => .findPeers e.2.manifest.publicKey e.1 else []

/-- `handle_peer_connected`. -/
def peerConnectedActions (dht : Bool) (s : AppState) (peerId communityId : String) :
    List Action :=
  (match communityPk? s.toTables communityId with
    | some pk => [.lock .pendingManifestSyncs,
        .send (.app (.fetchManifest peerId communityId pk))]
    | none => []) ++
  .send (.fetchMailbox peerId) :: s.searches dht ++
  sends (s.communities.entries.flatMap fun e => s.republish P e.1 e.2)

def seedPeerConnectedActions (s : AppState) (communityId peerId : String) : List Action :=
  if peerId = "" then []
  else
    sends ((communityPk? s.toTables communityId).map fun pk =>
      NetworkCommand.fetchManifest peerId communityId pk).toList ++ [.send (.fetchMailbox peerId)]

/-! ## Gossip -/

/-- `remove_community_local`. -/
def removeActions (s : AppState) (communityId : String) : List Action :=
  .lock .communities :: .lock .channels :: .lock .hostingPasswords ::
    sends (.unsubscribe (communityTopic communityId) ::
      (channelIdsOf s.toTables communityId).map fun ch => .unsubscribe (channelTopic ch))

/-- `handle_channel_message`: only a rotation that the node takes over waits. In a replay it stops
at the lock of the buffer, before it sends anything. -/
def channelActions (replaying : Bool) (s : AppState) (data : Bytes) : List Action :=
  match P.decodeEvent data with
  | some (.channelKeyRotation payload) =>
    let communityId := payload.newManifest.communityId.text
    match communityPk? s.toTables communityId with
    | some pk =>
      if !rotationVerified P pk payload then []
      else if !isNewerChannel s.toTables payload.newManifest then []
      else
        .lock .channels :: if replaying then []
          else sends ((s.preferredPeer communityId).map fun peer =>
            NetworkCommand.fetchManifest peer communityId pk).toList
    | none => []
  | _ => []

/-- A `ChannelManifestBroadcast`. -/
def broadcastActions (s : AppState) (ch : ChannelManifest) : List Action :=
  match communityPk? s.toTables ch.communityId.text with
  | none => []
  | some pk =>
    .lock .channels ::
      sends ((match s.unwrapOwn P ch with
        | some _ => (s.catchUp ch.communityId.text pk ch.id.text).1
        | none => []) ++ [.subscribe (channelTopic ch.id.text)])

/-- A newer manifest of a known community. -/
def applyManifestActions (s : AppState) (current : CommunityManifest) (new : SignedManifest)
    (source : Option String) : List Action :=
  let communityId := new.manifest.id.text
  let added := new.manifest.channelIds.filter fun ch => !current.channelIds.contains ch
  let removed := (current.channelIds.filter fun ch => !new.manifest.channelIds.contains ch).map
    fun ch => ch.text
  .lock .communities :: sends (added.map fun ch => .subscribe (channelTopic ch.text)) ++
    (sends (removed.map fun ch => .unsubscribe (channelTopic ch)) ++
      (if removed.isEmpty then [] else [.lock .channels])) ++
    (match source with
      | some src => [.send (.app (.fetchManifest src communityId new.manifest.publicKey))]
      | none => [.lock .pendingManifestSyncs]) ++
    sends (s.dialNewSeed P current new.manifest)

/-- A `ManifestUpdate`. -/
def manifestUpdateActions (s : AppState) (new : SignedManifest) (source : Option String) :
    List Action :=
  if !new.verify P then []
  else
    match s.communities.lookup new.manifest.id.text with
    | none => []
    | some current =>
      if new.manifest.version ≤ current.manifest.version then []
      else if new.manifest.deleted then s.removeActions new.manifest.id.text
      else s.applyManifestActions P current.manifest new source

/-- The admin keeps the lock of the channels while it publishes a manifest. -/
def wrapForJoinerActions (env : Env) (keys : Dict String Key) (record : MembershipRecord)
    (acc : Dict String ChannelManifest × List NetworkCommand) (channel : String × Nat) :
    List Action :=
  match keys.lookup channel.1 with
  | some key =>
    .acquire .channels ::
      (match acc.1.lookup channel.1 with
        | some ch =>
          if record.userId ∈ ch.encryptedChannelKey then []
          else sends [publishChannel P record.communityId.text
            (wrapKey P env channel.2 key ch record)]
        | none => []) ++ [.release .channels]
  | none => []

/-- `handle_member_joined`. -/
def memberJoinedActions (env : Env) (s : AppState) (record : MembershipRecord) : List Action :=
  let communityId := record.communityId.text
  if !record.selfSigned P then []
  else if (banList s.toTables communityId).contains record.userId.text then []
  else
    match s.communities.lookup communityId with
    | some signed =>
      if signed.manifest.publicKey = s.ownPk P then
        outputs (wrapForJoinerStep P env s.channelKeys record)
          (wrapForJoinerActions P env s.channelKeys record) (s.channels, [])
          (signed.manifest.channelIds.map fun ch => ch.text).zipIdx
      else []
    | none => []

/-- `handle_community_message`. -/
def communityActions (env : Env) (s : AppState) (data : Bytes) (source : Option String) :
    List Action :=
  match P.decodeEvent data with
  | some (.channelManifestBroadcast ch) => s.broadcastActions P ch
  | some (.manifestUpdate signed) => s.manifestUpdateActions P signed source
  | some (.memberJoined record) => s.memberJoinedActions P env record
  | _ => []

/-! ## Fetched manifests -/

def replayOneActions (s : AppState) (msg : String × Bytes) : List Action :=
  if s.blocked then [] else s.channelActions P true msg.2

def replayChannelActions (s : AppState) (channelId : String) : List Action :=
  if s.blocked then []
  else
    match s.pendingRotation.lookup channelId with
    | some buffered =>
      outputs (replayOne P) (replayOneActions P)
        { s with pendingRotation := s.pendingRotation.erase channelId } buffered
    | none => []

/-- The manifest of the channel is published if a key was wrapped. -/
def wrapChannelActions (env : Env) (s : AppState) (communityId : String) (acc : WrapLoop)
    (channelId : String) : List Action :=
  match s.channelKeys.lookup channelId, acc.channels.lookup channelId with
  | some key, some ch =>
    let (ch, draws) := (memberList s.toTables communityId).foldl (wrapForMemberStep P env key)
      (ch, acc.draws)
    if draws = acc.draws then [] else sends [publishChannel P communityId ch]
  | _, _ => []

/-- The admin keeps the lock of the channels while it publishes their manifests. -/
def wrapForMembersActions (env : Env) (s : AppState) (m : ManifestReceived) : List Action :=
  if m.communityPk ≠ s.ownPk P then []
  else
    .acquire .channels ::
      outputs (wrapChannelStep P env s m.communityId) (wrapChannelActions P env s m.communityId)
        ⟨s.channels, [], 0⟩ m.channelIds ++ [.release .channels]

def announceActions (env : Env) (s : AppState) (m : ManifestReceived) : List Action :=
  match member? s.toTables m.communityId (s.peerId P) with
  | none => []
  | some existing =>
    let record := s.ownRecord P m.manifest.manifest.id (s.peerId P) (s.announcedRoles P m existing)
      env.now
    s.memberJoinedActions P env record ++
      [.send (.app (.publish (communityTopic m.communityId)
        (P.encodeEvent (.memberJoined record))))]

/-- What follows the replay. -/
def settleActions (env : Env) (s : AppState) (m : ManifestReceived) (rotated : List String)
    (needsKeyRefetch : Bool) : List Action :=
  let retried := (s.emit (s.retryFetch m rotated) []).receiveMembership P m
  let admitted := s.admitMembers P env m rotated
  let draws := m.channelIds.length * (memberList admitted.toTables m.communityId).length
  sends (s.retryFetch m rotated) ++ retried.wrapForMembersActions P env m ++
    sends ((m.channelIds.map fun ch => .subscribe (channelTopic ch)) ++
      [.subscribe (communityTopic m.communityId)]) ++
    admitted.announceActions P (env.skip draws) m ++
    sends (historyFetches (admitted.announceSelf P (env.skip draws) m) m needsKeyRefetch)

/-- `handle_manifest_received`. -/
def manifestActions (env : Env) (s : AppState) (m : ManifestReceived) : List Action :=
  if !m.manifest.verify P then []
  else
    let s := { s with
      pendingManifestSyncs :=
        if 0 < m.manifest.manifest.version then
          s.pendingManifestSyncs.filter fun id => decide (id ≠ m.communityId)
        else s.pendingManifestSyncs }
    (if 0 < m.manifest.manifest.version then [.lock .pendingManifestSyncs] else []) ++
    if m.manifest.manifest.deleted then s.removeActions m.communityId
    else
      let rotated := (s.receiveKeys P m).rotated
      let s := s.receiveTables P m
      let needsKeyRefetch := m.channelIds.any fun ch => decide (ch ∉ s.channelKeys)
      .lock .communities :: .lock .channels ::
        outputs (replayChannel P) (replayChannelActions P) s rotated ++
        if (s.replay P rotated).blocked then []
        else (s.replay P rotated).settleActions P env m rotated needsKeyRefetch

/-- `handle_community_joined`: for a placeholder both locks are kept together. -/
def communityJoinedActions (s : AppState) (communityPk : Key) (communityId : String) :
    List Action :=
  .send (.app (.subscribe (communityTopic communityId))) ::
    match s.nodeStore.bind fun st => st.meta? communityPk with
    | none => []
    | some m =>
      if communityId ∉ s.communities ∧ m.manifest.isNone then
        [.acquire .communities, .lock .pendingManifestSyncs, .release .communities]
      else [.lock .communities]

/-! ## The processor -/

/-- The actions of a handler of the application model. -/
def swarmActions (dht : Bool) (env : Env) (s : AppState) : SwarmEvent → List Action
  | .peerConnected peerId communityId => s.peerConnectedActions P dht peerId communityId
  | .lanPeerConnected peerId => sends (s.communities.entries.map fun e =>
      .fetchManifest peerId e.1 e.2.manifest.publicKey)
  | .seedPeerConnected communityId peerId => s.seedPeerConnectedActions communityId peerId
  | .messageReceived topic data source =>
    if isChannelTopic topic then s.channelActions P false data
    else if isCommunityTopic topic then s.communityActions P env data source
    else []
  | .manifestReceived m => s.manifestActions P env m
  | .communityJoined communityPk communityId => s.communityJoinedActions communityPk communityId
  | .communityJoinFailed communityId _ => s.removeActions communityId
  | .peerDisconnected _ => []
  | .seedPeerDisconnected _ => []
  | .channelHistoryReceived _ _ _ => []
  | .newListenAddr _ => []

/-- The actions of `process_swarm_events` for one event. -/
def eventActions (dht : Bool) (expand : String → List String) (env : Env) (s : AppState)
    (event : LoopEvent) : List Action :=
  match event with
  | .manifestNotFound communityId _ =>
    match communityPk? s.toTables communityId with
    | some pk => if dht then [.findPeers pk communityId] else []
    | none => []
  | event =>
    match event.toSwarm expand with
    | some e => s.swarmActions P dht env e
    | none => []

/-- The state after the event. Direct messages and the DHT have no part in it. -/
def processLoopEvent (expand : String → List String) (env : Env) (s : AppState)
    (event : LoopEvent) : AppState :=
  match event.toSwarm expand with
  | some e => s.processEvent P env e
  | none => s

end

/-! ## The sends are the commands of the handlers -/

section

variable {P : Prims}

theorem sent_searches : sent (s.searches dht) = [] := by
  unfold searches
  split
  · exact List.filterMap_eq_nil_iff.mpr fun a ha => by
      obtain ⟨e, -, rfl⟩ := List.mem_map.mp ha
      rfl
  · rfl

theorem commands_removeCommunityLocal (communityId : String) :
    (s.removeCommunityLocal communityId).commands =
      s.commands ++ sent (s.removeActions communityId) := by
  simp [removeActions, removeCommunityLocal]

theorem commands_handlePeerConnected (peerId communityId : String) :
    (s.handlePeerConnected P peerId communityId).commands =
      s.commands ++ sent (s.peerConnectedActions P dht peerId communityId) := by
  unfold handlePeerConnected peerConnectedActions
  cases communityPk? s.toTables communityId <;> simp [emit, sent_searches]

theorem commands_handleSeedPeerConnected (communityId peerId : String) :
    (s.handleSeedPeerConnected communityId peerId).commands =
      s.commands ++ sent (s.seedPeerConnectedActions communityId peerId) := by
  unfold handleSeedPeerConnected seedPeerConnectedActions
  by_cases hpeer : peerId = ""
  · cases communityPk? s.toTables communityId <;> simp [emit, hpeer]
  · cases communityPk? s.toTables communityId <;> simp [emit, hpeer]

theorem commands_handleChannelMessage (replaying : Bool) (s : AppState) (topic : String)
    (data : Bytes) :
    (s.handleChannelMessage P replaying topic data).commands =
      s.commands ++ sent (s.channelActions P replaying data) := by
  unfold handleChannelMessage channelActions
  cases hdecode : P.decodeEvent data with
  | none => simp
  | some event =>
    cases event with
    | newMessage raw =>
      have hsame : (s.handleNewMessage P replaying topic data raw).commands = s.commands := by
        rcases handleNewMessage_write (P := P) replaying s topic hdecode with h | h
        · rw [h]
        · generalize s.handleNewMessage P replaying topic data raw = t at h ⊢
          cases h <;> rfl
      simp [hsame]
    | editMessage payload => simp [(handleEditMessage_messageFrame s payload).commands]
    | deleteMessage payload => simp [(handleDeleteMessage_messageFrame s payload).commands]
    | channelKeyRotation payload =>
      unfold handleChannelKeyRotation
      dsimp only
      cases communityPk? s.toTables payload.newManifest.communityId.text with
      | none => simp
      | some pk =>
        dsimp only
        split
        · simp
        · split
          · simp
          · cases replaying
            · simp
              rfl
            · simp
    | _ => simp

theorem commands_handleChannelManifestBroadcast (ch : ChannelManifest) :
    (s.handleChannelManifestBroadcast P ch).commands =
      s.commands ++ sent (s.broadcastActions P ch) := by
  unfold handleChannelManifestBroadcast broadcastActions
  dsimp only
  cases communityPk? s.toTables ch.communityId.text with
  | none => simp
  | some pk => cases s.unwrapOwn P ch <;> simp

theorem commands_handleManifestUpdate (new : SignedManifest) (source : Option String) :
    (s.handleManifestUpdate P new source).commands =
      s.commands ++ sent (s.manifestUpdateActions P new source) := by
  unfold handleManifestUpdate manifestUpdateActions
  dsimp only
  split
  · simp
  · cases s.communities.lookup new.manifest.id.text with
    | none => simp
    | some current =>
      dsimp only
      split
      · simp
      · split
        · simp [emit, commands_removeCommunityLocal]
        · unfold applyManifestUpdate applyManifestActions
          cases source <;> simp

/-- One channel: what is published is appended to what was published before. -/
theorem wrapForJoinerStep_append (keys : Dict String Key) (record : MembershipRecord)
    (acc : Dict String ChannelManifest × List NetworkCommand) (channel : String × Nat) :
    (wrapForJoinerStep P env keys record acc channel).2 =
      acc.2 ++ sent (wrapForJoinerActions P env keys record acc channel) := by
  unfold wrapForJoinerStep wrapForJoinerActions
  cases keys.lookup channel.1 with
  | none => simp
  | some key =>
    cases acc.1.lookup channel.1 with
    | none => simp
    | some ch => by_cases hwrapped : record.userId ∈ ch.encryptedChannelKey <;> simp [hwrapped]

theorem commands_handleMemberJoined (s : AppState) (record : MembershipRecord) :
    (s.handleMemberJoined P env record).commands =
      s.commands ++ sent (s.memberJoinedActions P env record) := by
  unfold handleMemberJoined memberJoinedActions
  dsimp only
  split
  · simp
  · split
    · simp
    · unfold wrapForJoiner
      cases s.communities.lookup record.communityId.text with
      | none => simp
      | some signed =>
        dsimp only
        split
        · refine congrArg (s.commands ++ ·) ?_
          exact get_run_eq_append Prod.snd
            (wrapForJoinerStep_append (P := P) env s.channelKeys record) _ _
        · simp

theorem commands_handleCommunityMessage (s : AppState) (data : Bytes) (source : Option String) :
    (s.handleCommunityMessage P env data source).commands =
      s.commands ++ sent (s.communityActions P env data source) := by
  unfold handleCommunityMessage communityActions
  cases P.decodeEvent data with
  | none => simp
  | some event =>
    cases event with
    | channelManifestBroadcast ch => exact commands_handleChannelManifestBroadcast s ch
    | manifestUpdate signed => exact commands_handleManifestUpdate s signed source
    | memberJoined record => exact commands_handleMemberJoined env s record
    | memberLeft payload =>
      unfold handleMemberLeft
      dsimp only
      split
      · simp
      · cases member? s.toTables payload.communityId.text payload.userId.text <;> simp
    | memberRoleUpdated payload =>
      unfold handleMemberRoleUpdated
      dsimp only
      split
      · simp
      · cases member? s.toTables payload.communityId.text payload.userId.text <;> simp
    | presenceHeartbeat hb =>
      unfold handlePresenceHeartbeat
      dsimp only
      cases (s.members.vals.flatMap fun list => list.vals).find? fun r =>
          decide (r.userId = hb.userId) with
      | none => simp
      | some r =>
        dsimp only
        split <;> simp
    | _ => simp

theorem sent_replay (rotated : List String) :
    sent (outputs (replayChannel P) (replayChannelActions P) s rotated) = [] := by
  have hone : ∀ (t : AppState) (msg : String × Bytes),
      ([] : List NetworkCommand) = [] ++ sent (t.replayOneActions P msg) := by
    intro t msg
    unfold replayOneActions
    split
    · rfl
    · have hsend := commands_handleChannelMessage (P := P) true t msg.1 msg.2
      have hquiet : (t.handleChannelMessage P true msg.1 msg.2).commands = t.commands := by
        rcases handleChannelMessage_write (P := P) true t msg.1 msg.2 with h | ⟨ev, -, h⟩
        · rw [h]
        · exact h.commands
      rw [hquiet] at hsend
      exact (List.self_eq_append_right.mp hsend).symm
  have hchannel : ∀ (t : AppState) (ch : String),
      ([] : List NetworkCommand) = [] ++ sent (t.replayChannelActions P ch) := by
    intro t ch
    unfold replayChannelActions
    split
    · rfl
    · split
      · exact get_run_eq_append (fun _ => []) hone _ _
      · rfl
  exact (get_run_eq_append (fun _ => []) hchannel s rotated).symm

theorem wrapChannelStep_append (s : AppState) (communityId : String) (acc : WrapLoop)
    (channelId : String) :
    (wrapChannelStep P env s communityId acc channelId).published =
      acc.published ++ sent (s.wrapChannelActions P env communityId acc channelId) := by
  unfold wrapChannelStep wrapChannelActions
  cases s.channelKeys.lookup channelId with
  | none => simp
  | some key =>
    cases acc.channels.lookup channelId with
    | none => simp
    | some ch =>
      dsimp only
      split <;> simp

theorem commands_wrapForMembers (s : AppState) (m : ManifestReceived) :
    (s.wrapForMembers P env m).commands =
      s.commands ++ sent (s.wrapForMembersActions P env m) := by
  unfold wrapForMembers wrapForMembersActions
  split
  · simp
  · have hpublished := get_run_eq_append WrapLoop.published
      (wrapChannelStep_append (P := P) env s m.communityId) ⟨s.channels, [], 0⟩ m.channelIds
    simp only [List.cons_append, sent_acquire, sent_append, sent_release, sent_nil,
      List.append_nil]
    exact congrArg (s.commands ++ ·) hpublished

theorem commands_announceSelf (s : AppState) (m : ManifestReceived) :
    (s.announceSelf P env m).commands = s.commands ++ sent (s.announceActions P env m) := by
  unfold announceSelf announceActions
  cases member? s.toTables m.communityId (s.peerId P) with
  | none => simp
  | some existing => simp [emit, commands_handleMemberJoined]

theorem commands_settleManifest (s : AppState) (m : ManifestReceived) (rotated : List String)
    (refetch : Bool) :
    (s.settleManifest P env m rotated refetch).commands =
      s.commands ++ sent (s.settleActions P env m rotated refetch) := by
  have hfinish : ∀ t : AppState, (t.finishManifest m refetch).commands =
      t.commands ++ historyFetches t m refetch := by
    intro t
    unfold finishManifest historyFetches
    dsimp only
    split <;> simp [emit]
  have hadmitted : (s.admitMembers P env m rotated).commands = s.commands ++
      (s.retryFetch m rotated ++
        sent (((s.emit (s.retryFetch m rotated) []).receiveMembership P m).wrapForMembersActions
          P env m) ++
        ((m.channelIds.map fun ch => .subscribe (channelTopic ch)) ++
          [.subscribe (communityTopic m.communityId)])) := by
    unfold admitMembers
    simp [emit, commands_wrapForMembers, receiveMembership]
  unfold settleManifest settleActions
  simp [hfinish, commands_announceSelf, hadmitted]

theorem commands_handleManifestReceived (s : AppState) (m : ManifestReceived) :
    (s.handleManifestReceived P env m).commands =
      s.commands ++ sent (s.manifestActions P env m) := by
  unfold handleManifestReceived manifestActions
  split
  · simp
  · dsimp only
    generalize hs₀ : { s with pendingManifestSyncs := _ } = s₀
    have h₀ : s₀.commands = s.commands := by rw [← hs₀]
    split
    · simp [emit, commands_removeCommunityLocal, h₀]
    · have hreplayed : ((s₀.receiveTables P m).replay P (s₀.receiveKeys P m).rotated).commands =
          s.commands := (commands_replay _ _).trans h₀
      have hquiet := sent_replay (P := P) (s₀.receiveTables P m) (s₀.receiveKeys P m).rotated
      generalize (s₀.receiveTables P m).replay P _ = u at hreplayed ⊢
      cases u.blocked with
      | true => simp [hquiet, hreplayed]
      | false => simp [hquiet, commands_settleManifest, hreplayed]

theorem commands_handleCommunityJoined (s : AppState) (communityPk : Key) (communityId : String) :
    (s.handleCommunityJoined env communityPk communityId).commands =
      s.commands ++ sent (s.communityJoinedActions communityPk communityId) := by
  unfold handleCommunityJoined communityJoinedActions
  dsimp only [emit]
  cases s.nodeStore.bind fun st => st.meta? communityPk with
  | none => simp
  | some m =>
    dsimp only
    split
    · next hknown => simp [hknown]
    · next hnew => cases m.manifest <;> simp [hnew]

/-- A running processor sends exactly the commands of the handler, in its order. -/
theorem commands_processEvent (s : AppState) (hrunning : s.blocked = false) (event : SwarmEvent) :
    (s.processEvent P env event).commands =
      s.commands ++ sent (s.swarmActions P dht env event) := by
  unfold processEvent swarmActions
  rw [hrunning, if_neg Bool.false_ne_true]
  cases event with
  | peerConnected peerId communityId => exact commands_handlePeerConnected dht s peerId communityId
  | lanPeerConnected peerId => simp [handleLanPeerConnected, emit]
  | seedPeerConnected communityId peerId =>
    exact commands_handleSeedPeerConnected s communityId peerId
  | messageReceived topic data source =>
    dsimp only
    split
    · exact commands_handleChannelMessage false s topic data
    · split
      · exact commands_handleCommunityMessage env s data source
      · simp
  | manifestReceived m => exact commands_handleManifestReceived env s m
  | communityJoined pk id => exact commands_handleCommunityJoined env s pk id
  | communityJoinFailed id reason => simp [emit, commands_removeCommunityLocal]
  | peerDisconnected peerId => simp [handlePeerDisconnected]
  | seedPeerDisconnected id => simp [handleSeedPeerDisconnected, emit]
  | channelHistoryReceived c ch entries => simp [handleChannelHistoryReceived]
  | newListenAddr addrs => simp [handleNewListenAddr]

/-- The actions for an event, unless the processor waits for its own lock. -/
def takenActions (P : Prims) (dht : Bool) (expand : String → List String) (s : AppState)
    (e : Env × LoopEvent) : List Action :=
  if s.blocked then [] else s.eventActions P dht expand e.1 e.2

variable (expand : String → List String)

theorem commands_processLoopEvent (e : Env × LoopEvent) :
    (s.processLoopEvent P expand e.1 e.2).commands =
      s.commands ++ sent (s.takenActions P dht expand e) := by
  unfold processLoopEvent takenActions
  cases hblocked : s.blocked with
  | true => cases e.2.toSwarm expand <;> simp [processEvent, hblocked]
  | false =>
    rw [if_neg Bool.false_ne_true]
    cases e.2 with
    | app event => exact commands_processEvent dht e.1 s hblocked event
    | newListenAddr addr => exact commands_processEvent dht e.1 s hblocked _
    | manifestNotFound id peer =>
      unfold eventActions
      dsimp only [LoopEvent.toSwarm]
      repeat' split
      all_goals simp [sent, Action.command]
    | _ => simp [eventActions, LoopEvent.toSwarm]

/-- In every run the processor sends the commands of its handlers, in their order. -/
theorem commands_run (events : List (Env × LoopEvent)) :
    let step := fun (s : AppState) (e : Env × LoopEvent) => s.processLoopEvent P expand e.1 e.2
    (run step s events).commands =
      s.commands ++ sent (outputs step (takenActions P dht expand) s events) :=
  get_run_eq_append commands (fun s => commands_processLoopEvent dht s expand) s events

end

end AppState

end BitCord
