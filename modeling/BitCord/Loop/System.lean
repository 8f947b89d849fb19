import BitCord.Lib.Channel
import BitCord.Loop.Actions

/-!
# The tasks of the event loop

The gossip task and the event processor are connected by two bounded channels: the processor sends
commands, the gossip task and the tasks that it spawns send events. Both wait when a channel is
full. Around them are the tasks that `handle_command` and the handlers spawn, the readers of pushes,
and `bootstrap_network`, which keeps the locks of the tables while it sends.

A step lets one party do one thing up to its next wait, and a party that cannot go on leaves the
state as it is, so every list of inputs is a schedule. How the network answers a task is part of the
input, and so are the commands of the parties outside the loop.
-/

namespace BitCord

open Lib

/-- What is fixed while the loop runs. -/
structure LoopConfig where
  /-- The addresses to which a wildcard address expands. -/
  expand : String → List String
  /-- The text of an address. -/
  addrText : NodeAddr → String
  /-- The node takes part in the DHT. -/
  dht : Bool
  /-- The node has a QUIC server, whose pushes are relayed to it. -/
  server : Bool

/-! ## Spawned tasks -/

structure SeedPeerInfo where
  addr : NodeAddr
  joinCommunity : Option (Key × String)
  joinCommunityPassword : Option String
  certFingerprint : Key

structure PeerRegistration where
  peerId : String
  nodePk : Key
  isSeed : Bool
  addr : NodeAddr
  joinCommunity : Option (Key × String)
  joinCommunityPassword : Option String
  certFingerprint : Key

inductive Task where
  | dial (isSeed : Bool) (target : SeedPeerInfo)
  /-- `reconnect_seed_loop`. -/
  | reconnect (seed : SeedPeerInfo)
  /-- The dial of a peer that the DHT named. -/
  | dialFound (addr : NodeAddr) (communityPk : Key) (communityId : String)
  | fetchManifest (peerId communityId : String) (communityPk : Key)
  | fetchChannelHistory (cmd : FetchChannelHistory)
  | sendDm (peerId messageId : String)
  | fetchMailbox
  /-- The search for the peers of a community in the DHT. -/
  | findPeers (communityPk : Key) (communityId : String)

/-- What the network does about a task. -/
inductive Outcome where
  /-- A connection to the node with the key, and the error of the request to join, if any. -/
  | connected (nodePk : Key) (joinError : Option String)
  | failed
  /-- An error that says 404 or not found. -/
  | notFound
  | answered (response : NodeResponse)
  | found (peers : List (Key × NodeAddr))

inductive TaskAction where
  | emit (event : LoopEvent)
  | register (reg : PeerRegistration)
  | send (cmd : LoopCommand)
  | spawn (task : Task)

def TaskAction.event? : TaskAction → Option LoopEvent
  | .emit event => some event
  | _ => none

/-- A spawned task waits for the network, and then for the queues. -/
inductive Running where
  | waiting (task : Task)
  | acting (todo : List TaskAction)

def SeedPeerInfo.register (target : SeedPeerInfo) (isSeed : Bool) (nodePk : Key) :
    PeerRegistration :=
  ⟨hexText nodePk, nodePk, isSeed, target.addr, target.joinCommunity,
    target.joinCommunityPassword, target.certFingerprint⟩

namespace Task

variable (P : Prims) (cfg : LoopConfig) (signingKey : Key) (ownAddrs : List String)

/-- A dial that succeeds registers the peer. The admin of the community also asks the node to join,
and removes the community if that fails. -/
def dialed (isSeed : Bool) (target : SeedPeerInfo) (nodePk : Key) (joinError : Option String) :
    List TaskAction :=
  .register (target.register isSeed nodePk) ::
    match target.joinCommunity, joinError with
    | some (pk, communityId), some reason =>
      if pk = P.verifyingKey signingKey then
        [.emit (.app (.communityJoinFailed communityId reason))]
      else []
    | _, _ => []

/-- A seed that cannot be reached is tried again, unless the address is one of the node. -/
def dialFailed (isSeed : Bool) (target : SeedPeerInfo) : List TaskAction :=
  let community := (target.joinCommunity.map Prod.snd).toList
  if !isSeed then []
  else if ownAddrs.contains (cfg.addrText target.addr) then
    community.map fun id => .emit (.app (.seedPeerConnected id ""))
  else (community.map fun id => .emit (.app (.seedPeerDisconnected id))) ++
    [.spawn (.reconnect target)]

/-- What the task does after the network answered. -/
def actions : Task → Outcome → List TaskAction
  | .dial isSeed target, .connected nodePk joinError =>
    dialed P signingKey isSeed target nodePk joinError
  | .dial isSeed target, .failed => dialFailed cfg ownAddrs isSeed target
  | .reconnect seed, .connected nodePk _ =>
    if ownAddrs.contains (cfg.addrText seed.addr) then []
    else [.register (seed.register true nodePk)]
  | .reconnect seed, .failed =>
    if ownAddrs.contains (cfg.addrText seed.addr) then [] else [.spawn (.reconnect seed)]
  | .dialFound addr communityPk communityId, .connected nodePk _ =>
    [.register (SeedPeerInfo.register ⟨addr, some (communityPk, communityId), none, 0⟩ false
      nodePk)]
  | .fetchManifest peerId _ _, .answered (.manifest manifest channels channelKeys members) =>
    [.emit (.app (.manifestReceived ⟨peerId, manifest, channels, channelKeys, members⟩))]
  | .fetchManifest peerId communityId _, .notFound =>
    [.emit (.manifestNotFound communityId peerId)]
  | .fetchChannelHistory cmd, .answered response =>
    (historyEvent cmd response).toList.map fun e => .emit (.app e)
  | .sendDm peerId messageId, .failed => [.emit (.dmSendFailed peerId messageId)]
  | .fetchMailbox, .answered response =>
    (mailboxEvents P signingKey response).map fun e => .emit (.dmReceived e)
  | .findPeers communityPk communityId, .found peers =>
    if peers.isEmpty then [] else [.send (.discoverAndDial peers communityPk communityId)]
  | _, _ => []

end Task

/-! ## The gossip task -/

inductive GossipAction where
  | emit (event : LoopEvent)
  | spawn (task : Task)
  /-- Start to read the pushes of a peer, or those of the node's own server. -/
  | startReader (peer : Option String)

/-- The gossip task. `actions` is what is left to do of the current turn of its loop; a task that
was shut down has none. -/
structure Gossip where
  network : Network
  seedPeers : Dict String SeedPeerInfo
  ownAddrs : List String
  actions : Option (List GossipAction)

namespace Gossip

def act (g : Gossip) (actions : List GossipAction) : Gossip := { g with actions := some actions }

/-- A peer to which a publication failed is dropped; a seed is dialled again. -/
def dropPeer (acc : Gossip × List GossipAction) (id : String) : Gossip × List GossipAction :=
  let peers := acc.1.network.peers.filter fun p => decide (p ≠ id)
  let network : Network := ⟨peers, acc.1.network.sha256Map.retain fun _ v => peers.contains v⟩
  let g := { acc.1 with network, seedPeers := acc.1.seedPeers.erase id }
  let reconnect := match acc.1.seedPeers.lookup id with
    | some seed =>
      ((seed.joinCommunity.map Prod.snd).toList.map fun c =>
        .emit (.app (.seedPeerDisconnected c))) ++ [.spawn (.reconnect seed)]
    | none => []
  (g, acc.2 ++ .emit (.app (.peerDisconnected id)) :: reconnect)

/-- `handle_command`; `dead` are the peers to which a publication fails. -/
def handleCommand (ownPk : Key) (dead : List String) (g : Gossip) : LoopCommand → Gossip
  | .app (.dial addr isSeed joinCommunity password fp) =>
    g.act [.spawn (.dial isSeed ⟨addr, joinCommunity, password, fp⟩)]
  | .app (.publish _ _) =>
    let (g, actions) := (g.network.peers.filter fun p => dead.contains p).foldl dropPeer (g, [])
    g.act actions
  | .app (.subscribe _) => g.act []
  | .app (.unsubscribe _) => g.act []
  | .app (.fetchManifest peerId communityId communityPk) =>
    g.act (if g.network.peers.contains peerId then
      [.spawn (.fetchManifest peerId communityId communityPk)] else [])
  | .app (.fetchChannelHistory peerId communityId communityPk channelId sinceSeq) =>
    let cmd : FetchChannelHistory := ⟨peerId, communityId, communityPk, channelId, sinceSeq⟩
    g.act (if (g.network.fetchChannelHistory cmd).isSome then
      [.spawn (.fetchChannelHistory cmd)] else [])
  | .app (.notifyCommunityJoined communityPk communityId) =>
    g.act [.emit (.app (.communityJoined communityPk communityId))]
  | .sendDm cmd =>
    g.act [if (g.network.sendDm cmd).isSome then .spawn (.sendDm cmd.peerId cmd.messageId)
      else .emit (.dmSendFailed cmd.peerId cmd.messageId)]
  | .addListenAddr addr =>
    ({ g with ownAddrs := addr :: g.ownAddrs }).act [.emit (.newListenAddr addr)]
  | .fetchMailbox peerId =>
    g.act (if (g.network.fetchMailbox peerId).isSome then [.spawn .fetchMailbox] else [])
  | .discoverAndDial peers communityPk communityId =>
    g.act ((peers.filter fun p => decide (p.1 ≠ ownPk)).map fun p =>
      .spawn (.dialFound p.2 communityPk communityId))
  | .shutdown => { g with actions := none }

/-- The event of a new peer: a seed of a community, a peer of a community, or one of the local
network. -/
def peerEvent (reg : PeerRegistration) : List LoopEvent :=
  match reg.isSeed, reg.joinCommunity with
  | true, some (_, communityId) => [.app (.seedPeerConnected communityId reg.peerId)]
  | true, none => []
  | false, some (_, communityId) => [.app (.peerConnected reg.peerId communityId)]
  | false, none => [.app (.lanPeerConnected reg.peerId)]

/-- A connection was made. A second one to the same peer is dropped, but a seed is still announced
for its community. -/
def register (P : Prims) (g : Gossip) (reg : PeerRegistration) : Gossip :=
  if g.network.peers.contains reg.peerId then
    g.act (if reg.isSeed then (peerEvent reg).map .emit else [])
  else
    let network : Network := ⟨g.network.peers ++ [reg.peerId],
      g.network.sha256Map.insert (P.userIdOf reg.nodePk).text reg.peerId⟩
    let seedPeers := if reg.isSeed then
      g.seedPeers.insert reg.peerId ⟨reg.addr, reg.joinCommunity, reg.joinCommunityPassword,
        reg.certFingerprint⟩
      else g.seedPeers
    ({ g with network, seedPeers }).act
      (.emit (.peerAddrKnown reg.nodePk reg.addr) :: .startReader (some reg.peerId) ::
        (peerEvent reg).map .emit)

end Gossip

/-- The event that a reader makes of a push; what the node published itself is dropped. -/
def pushEvent (ownPkHex : String) : NodePush → Option LoopEvent
  | .gossipMessage topic source data =>
    if source = ownPkHex then none else some (.app (.messageReceived topic data (some source)))
  | .newDm entry recipientPk => some (.dmReceived ⟨entry, recipientPk⟩)
  | _ => none

/-! ## The event processor and the start of the node -/

structure Processor where
  app : AppState
  /-- What is left to do for the current event. -/
  actions : List Action
  held : List Lock

/-- One part of the loop of `bootstrap_network`. -/
inductive BootstrapItem where
  | fetch (communityId : String) (communityPk : Key)
  | subscribe (topic : String)
  | dial (communityId : String) (signed : SignedManifest)

/-- `bootstrap_network`: while it runs it keeps the locks of the tables that it read. -/
inductive Bootstrap where
  | waiting
  | running (tables : Tables) (items : List BootstrapItem) (cmds : List NetworkCommand)
  | done

namespace Bootstrap

/-- The commands of the current part that are still to be sent. -/
def pending : Bootstrap → List NetworkCommand
  | .running _ _ cmds => cmds
  | _ => []

def isRunning : Bootstrap → Bool
  | .running _ _ _ => true
  | _ => false

def items (t : Tables) : List BootstrapItem :=
  (t.communities.entries.flatMap fun e =>
    [.fetch e.1 e.2.manifest.publicKey, .subscribe (communityTopic e.1), .dial e.1 e.2]) ++
  t.channels.keys.map fun ch => .subscribe (channelTopic ch)

/-- The dial of a seed node of a community, unless it is an address of the node. -/
def dialSeed (P : Prims) (env : Env) (t : Tables) (s : AppState) (communityId : String)
    (communityPk : Key) (seed : String) : Option NetworkCommand :=
  match P.parseNodeAddr seed with
  | some addr =>
    if s.isOwnAddr env addr || (s.actualListenAddrs.filterMap P.parseNodeAddr).contains addr ||
        s.publicAddr = some seed then none
    else some (.dial addr true (some (communityPk, communityId))
      (t.hostingPasswords.lookup communityId) ((t.seedFingerprints.lookup seed).getD 0))
  | none => none

/-- The commands of one part, from the tables that are locked and the rest of the state. -/
def commands (P : Prims) (env : Env) (t : Tables) (s : AppState) :
    BootstrapItem → List NetworkCommand
  | .fetch communityId communityPk => (s.peersOf communityId).map fun p =>
      .fetchManifest p.peerId communityId communityPk
  | .subscribe topic => [.subscribe topic]
  | .dial communityId signed => signed.manifest.seedNodes.filterMap
      (dialSeed P env t s communityId signed.manifest.publicKey)

def mark (s : AppState) : BootstrapItem → AppState
  | .fetch communityId _ =>
    { s with pendingManifestSyncs := AppState.addPending s.pendingManifestSyncs communityId }
  | _ => s

end Bootstrap

/-! ## The system -/

structure LoopState where
  commands : Chan LoopCommand 256
  events : Chan LoopEvent 512
  registrations : Chan PeerRegistration 64
  gossipEvents : Chan LoopEvent 512
  gossip : Gossip
  readers : List (Option String)
  tasks : List Running
  processor : Processor
  bootstrap : Bootstrap

inductive LoopInput where
  /-- The gossip task takes a command; the list are the peers to which a publication fails. -/
  | takeCommand (dead : List String)
  | takeRegistration
  | takeGossip
  | gossipAct
  /-- A reader gets a push. -/
  | push (reader : Option String) (push : NodePush)
  /-- The network answers a task. -/
  | resolve (task : Nat) (outcome : Outcome)
  | taskAct (task : Nat)
  | takeEvent (env : Env)
  | processorAct
  | bootstrapStart
  | bootstrapNext (env : Env)
  | bootstrapSend
  /-- A command of a party outside the loop. -/
  | outside (cmd : LoopCommand)

namespace LoopState

/-- The node starts with what `AppState::new` loaded. -/
def start (cfg : LoopConfig) (app : AppState) (listenAddrs : List String) : LoopState where
  commands := .empty
  events := .empty
  registrations := .empty
  gossipEvents := .empty
  gossip := ⟨⟨[], ∅⟩, ∅, listenAddrs, some ((listenAddrs.map fun a => .emit (.newListenAddr a)) ++
    if cfg.server then [.startReader none] else [])⟩
  readers := []
  tasks := []
  processor := ⟨app, [], []⟩
  bootstrap := .waiting

/-- The command channel after a send. When the gossip task has stopped, the send fails at once. -/
def sendCommand (σ : LoopState) (cmd : LoopCommand) : Option (Chan LoopCommand 256) :=
  if σ.gossip.actions.isNone then some σ.commands else σ.commands.send cmd

section

variable (P : Prims) (cfg : LoopConfig) (σ : LoopState)

/-! ### The turns of the gossip task -/

def takeCommand (dead : List String) : LoopState :=
  match σ.gossip.actions, σ.commands.recv with
  | some [], some (cmd, commands) =>
    { σ with commands, gossip := σ.gossip.handleCommand (σ.processor.app.ownPk P) dead cmd }
  | _, _ => σ

def takeRegistration : LoopState :=
  match σ.gossip.actions, σ.registrations.recv with
  | some [], some (reg, registrations) =>
    { σ with registrations, gossip := σ.gossip.register P reg }
  | _, _ => σ

def takeGossip : LoopState :=
  match σ.gossip.actions, σ.gossipEvents.recv with
  | some [], some (event, gossipEvents) =>
    { σ with gossipEvents, gossip := σ.gossip.act [.emit event] }
  | _, _ => σ

def gossipAct : LoopState :=
  match σ.gossip.actions with
  | some (.emit event :: rest) =>
    match σ.events.send event with
    | some events => { σ with events, gossip := σ.gossip.act rest }
    | none => σ
  | some (.spawn task :: rest) =>
    { σ with tasks := σ.tasks ++ [.waiting task], gossip := σ.gossip.act rest }
  | some (.startReader peer :: rest) =>
    { σ with readers := σ.readers ++ [peer], gossip := σ.gossip.act rest }
  | _ => σ

/-! ### The tasks around it -/

def push (reader : Option String) (push : NodePush) : LoopState :=
  if reader ∈ σ.readers then
    match (pushEvent (hexText (σ.processor.app.ownPk P)) push).bind σ.gossipEvents.send with
    | some gossipEvents => { σ with gossipEvents }
    | none => σ
  else σ

def resolve (i : Nat) (outcome : Outcome) : LoopState :=
  match σ.tasks[i]? with
  | some (.waiting task) =>
    let todo := task.actions P cfg σ.processor.app.signingKey σ.gossip.ownAddrs outcome
    { σ with tasks := σ.tasks.set i (.acting todo) }
  | _ => σ

def taskAct (i : Nat) : LoopState :=
  match σ.tasks[i]? with
  | some (.acting (.emit event :: rest)) =>
    match σ.events.send event with
    | some events => { σ with events, tasks := σ.tasks.set i (.acting rest) }
    | none => σ
  | some (.acting (.register reg :: rest)) =>
    match σ.registrations.send reg with
    | some registrations => { σ with registrations, tasks := σ.tasks.set i (.acting rest) }
    | none => σ
  | some (.acting (.send cmd :: rest)) =>
    match σ.sendCommand cmd with
    | some commands => { σ with commands, tasks := σ.tasks.set i (.acting rest) }
    | none => σ
  | some (.acting (.spawn task :: rest)) =>
    { σ with tasks := σ.tasks.set i (.acting rest) ++ [.waiting task] }
  | _ => σ

/-! ### The event processor -/

/-- A processor that waits for a lock of its own takes no more events. -/
def takeEvent (env : Env) : LoopState :=
  match σ.processor.actions, σ.events.recv with
  | [], some (event, events) =>
    let s := σ.processor.app
    if s.blocked then σ
    else
      { σ with
        events
        processor := ⟨s.processLoopEvent P cfg.expand env event,
          s.eventActions P cfg.dht cfg.expand env event, σ.processor.held⟩ }
  | _, _ => σ

def processorAct : LoopState :=
  match σ.processor.actions with
  | .send cmd :: rest =>
    match σ.sendCommand cmd with
    | some commands => { σ with commands, processor := { σ.processor with actions := rest } }
    | none => σ
  | .lock _ :: rest =>
    if σ.bootstrap.isRunning then σ
    else { σ with processor := { σ.processor with actions := rest } }
  | .acquire l :: rest =>
    if σ.bootstrap.isRunning then σ
    else { σ with processor := { σ.processor with actions := rest, held := l :: σ.processor.held } }
  | .release l :: rest =>
    { σ with processor := { σ.processor with
      actions := rest, held := σ.processor.held.erase l } }
  | .findPeers communityPk communityId :: rest =>
    { σ with
      tasks := σ.tasks ++ [.waiting (.findPeers communityPk communityId)]
      processor := { σ.processor with actions := rest } }
  | [] => σ

/-! ### `bootstrap_network` -/

def bootstrapStart : LoopState :=
  match σ.bootstrap with
  | .waiting =>
    if σ.processor.held.isEmpty then
      let tables := σ.processor.app.toTables
      { σ with bootstrap := .running tables (Bootstrap.items tables) [] }
    else σ
  | _ => σ

def bootstrapNext (env : Env) : LoopState :=
  match σ.bootstrap with
  | .running tables (item :: items) [] =>
    { σ with
      bootstrap := .running tables items (Bootstrap.commands P env tables σ.processor.app item)
      processor := { σ.processor with app := Bootstrap.mark σ.processor.app item } }
  | .running _ [] [] => { σ with bootstrap := .done }
  | _ => σ

def bootstrapSend : LoopState :=
  match σ.bootstrap with
  | .running tables items (cmd :: cmds) =>
    match σ.sendCommand (.app cmd) with
    | some commands => { σ with commands, bootstrap := .running tables items cmds }
    | none => σ
  | _ => σ

def outside (cmd : LoopCommand) : LoopState :=
  match σ.sendCommand cmd with
  | some commands => { σ with commands }
  | none => σ

def step : LoopInput → LoopState
  | .takeCommand dead => σ.takeCommand P dead
  | .takeRegistration => σ.takeRegistration P
  | .takeGossip => σ.takeGossip
  | .gossipAct => σ.gossipAct
  | .push reader push => σ.push P reader push
  | .resolve i outcome => σ.resolve P cfg i outcome
  | .taskAct i => σ.taskAct i
  | .takeEvent env => σ.takeEvent P cfg env
  | .processorAct => σ.processorAct
  | .bootstrapStart => σ.bootstrapStart
  | .bootstrapNext env => σ.bootstrapNext P env
  | .bootstrapSend => σ.bootstrapSend
  | .outside cmd => σ.outside cmd

end

end LoopState

end BitCord
