import BitCord.Rpc.Community

/-!
# Direct messages

`crypto/dm.rs` and the methods `dm_send` and `dm_get_history` of `rpc_server/dm.rs`. The
conversations stand beside the rest of the state. What the DHT answers is read from outside.
-/

namespace BitCord

open Lib

/-! ## Envelopes -/

/-- The plaintext of an envelope. -/
structure DmPayload where
  body : String
  replyTo : Option String
  id : String
  deriving DecidableEq

/-- The HKDF info string of direct messages. -/
def dmHkdfInfo : Bytes := utf8 "bitcord-dm/v1"

/-- The key that both sides derive from the ephemeral and the static shared secret. -/
def dmKey (P : Prims) (ephemPk dhEphem dhStatic : Key) : Key :=
  P.hkdf ephemPk (toBytes dhEphem ++ toBytes dhStatic) dmHkdfInfo

/-- `DmEnvelope::seal`, with the drawn ephemeral secret and nonce. -/
def DmEnvelope.«seal» (P : Prims) (senderSk recipientPk ephemSk : Key) (nonce : Nonce)
    (plaintext : Bytes) : DmEnvelope :=
  let ephemPk := P.x25519Public ephemSk
  let key := dmKey P ephemPk (P.diffieHellman ephemSk recipientPk)
    (P.diffieHellman senderSk recipientPk)
  ⟨P.x25519Public senderSk, ephemPk, nonce, P.aeadSeal key nonce plaintext⟩

/-! ## State -/

structure DmMessageInfo where
  id : String
  peerId : String
  authorId : String
  timestamp : DateTime
  body : String
  replyTo : Option String
  editedAt : Option DateTime
  deriving DecidableEq

/-- The command `NetworkCommand::SendDm`. -/
structure SendDm where
  peerId : String
  messageId : String
  recipientX25519Pk : Key
  envelope : DmEnvelope
  mailboxAddr : Option NodeAddr
  peerNodeAddr : Option NodeAddr
  deriving DecidableEq

/-- The node with its conversations. `dmsFile` is what `dms.json` holds; `dmCommands` and `dmPushes`
are sent to the network and to the frontends. -/
structure DmNode where
  app : AppState
  dms : Dict String (List DmMessageInfo)
  dmsFile : Dict String (List DmMessageInfo)
  dmCommands : List SendDm
  dmPushes : List DmMessageInfo

/-- What the DHT answers to the lookups of `dm_send`; a failed lookup finds nothing. -/
structure DhtAnswers where
  findPeerInfo : Key → Option PeerInfoRecord
  findMailboxPeers : Key → List NodeAddr

structure SendDmParams where
  peerId : String
  body : String
  replyTo : Option String

structure GetDmHistoryParams where
  peerId : String
  before : Option String
  limit : Option UInt32

/-- The number of messages on a page: 50 if no limit is given and never more than 200. -/
def pageLimit (limit : Option UInt32) : Nat := min (limit.getD 50).toNat 200

namespace DmNode

/-- `dm_get_history`: the last messages of the conversation, or the last before a given one. An id
that is not found stands for the end. -/
def dmGetHistory (n : DmNode) (p : GetDmHistoryParams) : List DmMessageInfo :=
  let all := (n.dms.lookup p.peerId).getD []
  match p.before with
  | some beforeId =>
    let pos := all.findIdx fun m => decide (m.id = beforeId)
    (all.take pos).drop (pos - pageLimit p.limit)
  | none => all.drop (all.length - pageLimit p.limit)

/-- Add a message to a conversation, in the table and in its file. -/
def pushDm (n : DmNode) (peerId : String) (msg : DmMessageInfo) : DmNode :=
  let dms := n.dms.upsert peerId [] fun list => list ++ [msg]
  { n with dms, dmsFile := dms }

/-- The X25519 key in the first record of the user, in any community. -/
def memberX25519Pk (t : Tables) (peerId : String) : Option Key :=
  ((t.members.vals.flatMap Dict.vals).find? fun r => decide (r.userId.text = peerId)).map
    fun r => r.x25519PublicKey

/-- The X25519 key that is known without the DHT: from a record, else from the cache. -/
def knownX25519Pk (n : DmNode) (peerId : String) : Option Key :=
  (memberX25519Pk n.app.toTables peerId).or
    ((n.app.dmPeers.lookup peerId).map fun info => info.x25519PublicKey)

def peerInfo? (dht : Option DhtAnswers) (peerId : String) : Option PeerInfoRecord :=
  dht.bind fun d => (parseFingerprintHex peerId).bind d.findPeerInfo

/-- Keep a key that only the DHT knew. -/
def cachePeer (n : DmNode) (peerId : String) (info : PeerInfoRecord) : DmNode :=
  let displayName :=
    if info.displayName = "" then String.ofList (peerId.toList.take 12) ++ "…"
    else info.displayName
  let dmPeers := n.app.dmPeers.orInsert peerId ⟨displayName, info.x25519Pk⟩
  { n with app := { n.app with dmPeers } }

end DmNode

section

variable (P : Prims) (encodeDmPayload : DmPayload → Bytes)

def dmCommand (env : Env) (dht : Option DhtAnswers) (s : AppState) (p : SendDmParams)
    (messageId : String) (x25519Pk : Key) (peerNodeAddr : Option NodeAddr) : SendDm :=
  { peerId := p.peerId
    messageId
    recipientX25519Pk := x25519Pk
    envelope := .«seal» P (P.x25519Secret s.signingKey) x25519Pk (env.key 0) (env.nonce 0)
      (encodeDmPayload ⟨p.body, p.replyTo, messageId⟩)
    mailboxAddr := dht.bind fun d => (d.findMailboxPeers x25519Pk).head?
    peerNodeAddr }

/-- `dm_send`: the message is stored, and sent if a key of the recipient is found. -/
def dmSend (env : Env) (dht : Option DhtAnswers) (n : DmNode) (p : SendDmParams) :
    DmNode × Except RpcError DmMessageInfo :=
  if p.body = "" then (n, .error (invalidParams "body must not be empty"))
  else
    let msg : DmMessageInfo :=
      ⟨ulidText (env.ulid 0), p.peerId, n.app.peerId P, env.now, p.body, p.replyTo, none⟩
    let info := DmNode.peerInfo? dht p.peerId
    let addr := info.map fun i => i.addr
    let n := n.pushDm p.peerId msg
    let n := match n.knownX25519Pk p.peerId, info with
      | some pk, _ =>
        { n with dmCommands := n.dmCommands ++
            [dmCommand P encodeDmPayload env dht n.app p msg.id pk addr] }
      | none, some i =>
        let n := n.cachePeer p.peerId i
        { n with dmCommands := n.dmCommands ++
            [dmCommand P encodeDmPayload env dht n.app p msg.id i.x25519Pk addr] }
      | none, none => n
    ({ n with dmPushes := n.dmPushes ++ [msg] }, .ok msg)

end

end BitCord
