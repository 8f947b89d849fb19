import BitCord.Announcing
import BitCord.AtRest
import BitCord.Deletion
import BitCord.DirectMessages
import BitCord.Encodings
import BitCord.Expiry
import BitCord.FailedCalls
import BitCord.Identity
import BitCord.Inbound
import BitCord.LiveLog
import BitCord.Loop.Deadlock
import BitCord.Lookups
import BitCord.MailQueue
import BitCord.MemberEvents
import BitCord.NamedCommunity
import BitCord.Numbering
import BitCord.Paging
import BitCord.Persistence.Durability
import BitCord.Pinning
import BitCord.Reactions
import BitCord.Records
import BitCord.Refetch
import BitCord.Reorder
import BitCord.Resigning
import BitCord.Retention
import BitCord.Revocation
import BitCord.Rotation
import BitCord.SeedDial
import BitCord.SeedStatus
