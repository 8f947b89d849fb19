import BitCord.Types
import BitCord.Lib.Dict

/-!
# The data model

The records that nodes sign, store and exchange. Hash maps are `Dict`s; every record keeps the
fields of the source.
-/

namespace BitCord

open Lib

/-! ## Communities and members -/

structure CommunityManifest where
  id : CommunityId
  name : String
  description : String
  publicKey : Key
  createdAt : DateTime
  adminIds : List UserId
  channelIds : List ChannelId
  seedNodes : List String
  version : UInt64
  deleted : Bool
  deriving DecidableEq

structure SignedManifest where
  manifest : CommunityManifest
  signature : Bytes
  deriving DecidableEq

inductive Role where
  | admin
  | moderator
  | member
  deriving DecidableEq, Repr

structure MembershipRecord where
  userId : UserId
  communityId : CommunityId
  displayName : String
  avatarCid : Option String
  joinedAt : DateTime
  roles : List Role
  publicKey : Key
  x25519PublicKey : Key
  signature : Bytes
  deriving DecidableEq

/-! ## Channels and messages -/

inductive ChannelKind where
  | text
  | announcement
  | voice
  deriving DecidableEq, Repr

/-- The manifest of a channel, with the channel key wrapped for each member. -/
structure ChannelManifest where
  id : ChannelId
  communityId : CommunityId
  name : String
  kind : ChannelKind
  encryptedChannelKey : Dict UserId Bytes
  createdAt : DateTime
  version : UInt64
  deriving DecidableEq

structure AttachmentRef where
  cid : String
  name : String
  size : UInt64
  mimeType : String
  deriving DecidableEq

/-- The decrypted content of a channel log entry. -/
inductive MessageContent where
  | text (body : String) (attachments : List AttachmentRef) (replyTo : Option MessageId)
      (editedAt : Option DateTime)
  | reaction (targetMessageId : String) (emoji : String) (isAdd : Bool)
  deriving DecidableEq

/-- A message as it is sent over the network. -/
structure RawMessage where
  id : MessageId
  channelId : ChannelId
  authorId : UserId
  timestamp : DateTime
  ciphertext : Bytes
  nonce : Nonce
  signature : Bytes
  deriving DecidableEq

/-- The bytes that the author of a message signs. -/
def RawMessage.signableBytes (id : MessageId) (channelId : ChannelId) (timestamp : DateTime)
    (ciphertext : Bytes) : Bytes :=
  toBytes id.ulid ++ toBytes channelId.ulid ++
    toLeBytes (BitVec.ofInt 64 (timestampMillis timestamp)) ++ ciphertext

structure LogEntry where
  seq : UInt64
  nonce : Nonce
  ciphertext : Bytes
  messageId : String
  authorId : String
  timestampMs : Int
  deleted : Bool
  deriving DecidableEq

structure DmEnvelope where
  senderPk : Key
  ephemPk : Key
  nonce : Nonce
  ciphertext : Bytes
  deriving DecidableEq

/-! ## Network events -/

structure EditMessagePayload where
  messageId : MessageId
  channelId : ChannelId
  authorId : UserId
  newCiphertext : Bytes
  newNonce : Nonce
  signature : Bytes
  timestamp : DateTime
  deriving DecidableEq

structure DeleteMessagePayload where
  messageId : MessageId
  channelId : ChannelId
  authorId : UserId
  signature : Bytes
  timestamp : DateTime
  deriving DecidableEq

/-- A member left or was removed. -/
structure MemberLeftPayload where
  userId : UserId
  communityId : CommunityId
  timestamp : DateTime
  signature : Bytes
  deriving DecidableEq

/-- A rotated channel key, signed by the community key. -/
structure ChannelKeyRotationPayload where
  newManifest : ChannelManifest
  signature : Bytes
  deriving DecidableEq

structure MemberRoleUpdatedPayload where
  userId : UserId
  communityId : CommunityId
  newRole : Role
  timestamp : DateTime
  signature : Bytes
  deriving DecidableEq

structure PresenceHeartbeatPayload where
  userId : UserId
  status : String
  timestamp : DateTime
  signature : Bytes
  deriving DecidableEq

inductive NetworkEvent where
  | newMessage (msg : RawMessage)
  | editMessage (payload : EditMessagePayload)
  | deleteMessage (payload : DeleteMessagePayload)
  | memberJoined (record : MembershipRecord)
  | memberLeft (payload : MemberLeftPayload)
  | channelKeyRotation (payload : ChannelKeyRotationPayload)
  | manifestUpdate (manifest : SignedManifest)
  | presenceHeartbeat (payload : PresenceHeartbeatPayload)
  | channelManifestBroadcast (manifest : ChannelManifest)
  | memberRoleUpdated (payload : MemberRoleUpdatedPayload)
  deriving DecidableEq

/-! ## Hosting -/

/-- A certificate by which a community key authorises a node to host the community. -/
structure HostingCert where
  communityPk : Key
  nodePk : Key
  expiresAt : UInt64
  signature : Signature
  deriving DecidableEq

/-- The bytes that a hosting certificate signs. -/
def HostingCert.signable (communityPk nodePk : Key) (expiresAt : UInt64) : Bytes :=
  toBytes communityPk ++ toBytes nodePk ++ toLeBytes expiresAt.toBitVec

/-- What a node stores about a community. -/
structure CommunityMeta where
  cert : HostingCert
  manifest : Option SignedManifest
  channels : List ChannelManifest
  channelKeys : Dict String Bytes
  members : Dict String MembershipRecord
  deriving DecidableEq

inductive IpAddr where
  | v4 (bits : BitVec 32)
  | v6 (bits : BitVec 128)
  deriving DecidableEq, Repr

structure NodeAddr where
  ip : IpAddr
  port : UInt16
  deriving DecidableEq, Repr

/-! ## Invites -/

/-- What the admin signs in an invite. -/
structure InviteSigningPayload where
  communityId : String
  name : String
  description : String
  publicKeyHex : String
  seedNodes : List String
  deriving DecidableEq

structure InvitePayload extends InviteSigningPayload where
  sigHex : String
  certFingerprintHex : String
  deriving DecidableEq

end BitCord
