import BitCord.Node
import BitCord.Rpc.Dm

/-!
# Requests to other nodes

The arms of `handle_command` that ask another node for something and turn its answer into events:
`SendDm`, `FetchMailbox` and `FetchChannelHistory`.
-/

namespace BitCord

open Lib

/-- The connections of a node: the keys of its peers in hexadecimal, and the index from the user of
a key to the key. -/
structure Network where
  peers : List String
  sha256Map : Dict String String

/-- Where a request goes: an open connection, or a new one to an address. -/
inductive Target where
  | peer (pkHex : String)
  | address (addr : NodeAddr)
  deriving DecidableEq

namespace Network

/-- `SendDm`: an open connection is preferred to the mailbox, and that to the address of the peer.
In each case the same request is sent. -/
def sendDm (net : Network) (cmd : SendDm) : Option (Target × ClientRequest) :=
  let rawPk := (net.sha256Map.lookup cmd.peerId).getD cmd.peerId
  let request := ClientRequest.sendDm cmd.recipientX25519Pk cmd.envelope
  if net.peers.contains rawPk then some (.peer rawPk, request)
  else (cmd.mailboxAddr.or cmd.peerNodeAddr).map fun addr => (.address addr, request)

/-- `FetchMailbox`. -/
def fetchMailbox (net : Network) (peerId : String) : Option ClientRequest :=
  if net.peers.contains peerId then some (.getDms 0) else none

end Network

/-- The event `DmReceived`. -/
structure DmReceived where
  entry : LogEntry
  recipientPk : Key
  deriving DecidableEq

/-- The events of a `FetchMailbox` of the node with the signing key `sk`. -/
def mailboxEvents (P : Prims) (sk : Key) : NodeResponse → List DmReceived
  | .dms entries => entries.map fun e => ⟨e, P.x25519PublicKeyBytes sk⟩
  | _ => []

/-! ## Channel history -/

/-- The command `FetchChannelHistory`. -/
structure FetchChannelHistory where
  peerId : String
  communityId : String
  communityPk : Key
  channelId : String
  sinceSeq : UInt64
  deriving DecidableEq

/-- The history commands among the commands of the application layer. -/
def historyCommands (cmds : List NetworkCommand) : List FetchChannelHistory :=
  cmds.filterMap fun
    | .fetchChannelHistory peerId communityId communityPk channelId sinceSeq =>
      some ⟨peerId, communityId, communityPk, channelId, sinceSeq⟩
    | _ => none

/-- The certificate with which the client joins before it asks for the history. -/
def dummyCert (communityPk : Key) : HostingCert := ⟨communityPk, 0, maxSeq, 0⟩

/-- `FetchChannelHistory`: the requests that are made one after the other. A join that is refused
with the code 403 is tried again up to 15 times. -/
def Network.fetchChannelHistory (net : Network) (cmd : FetchChannelHistory) :
    Option (ClientRequest × ClientRequest) :=
  if net.peers.contains cmd.peerId then
    (parseUlid cmd.channelId).map fun ulid =>
      (.joinCommunity (dummyCert cmd.communityPk) (some cmd.communityId) none,
        .getMessages cmd.communityPk ulid cmd.sinceSeq)
  else none

/-- The event `ChannelHistoryReceived` of an answered command. -/
def historyEvent (cmd : FetchChannelHistory) : NodeResponse → Option SwarmEvent
  | .messages entries => some (.channelHistoryReceived cmd.communityId cmd.channelId entries)
  | _ => none

end BitCord
