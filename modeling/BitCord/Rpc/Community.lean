import BitCord.Events.Manifest

/-!
# RPC methods on communities

The methods of `rpc_server/community.rs` that change the state. A method returns the state with
the reply, since some fail after they changed it. The copy of a community to a new seed node runs
on another connection and changes nothing here.
-/

namespace BitCord

open Lib

/-! ## Replies -/

structure RpcError where
  code : Int
  message : String
  deriving DecidableEq

def internalErr (msg : String) : RpcError := ⟨-32603, msg⟩

/-- A call that panics gets no reply. It stands here for that; no error of the server has this
code. -/
def panicked : RpcError := ⟨0, ""⟩

def notFound (msg : String) : RpcError := ⟨-32001, msg⟩

def invalidParams (msg : String) : RpcError := ⟨-32602, msg⟩

def forbidden (msg : String) : RpcError := ⟨-32003, msg⟩

def seedUnavailable : RpcError :=
  ⟨-32004, "seed peer is not connected — this community is currently unreachable"⟩

structure CommunityInfo where
  id : String
  name : String
  description : String
  publicKeyHex : String
  adminIds : List String
  channelIds : List String
  seedNodes : List String
  version : UInt64
  createdAt : DateTime
  reachable : Bool
  seeded : Bool

structure ChannelInfo where
  id : String
  communityId : String
  name : String
  kind : ChannelKind
  version : UInt64
  createdAt : DateTime

structure MessageInfo where
  id : String
  channelId : String
  communityId : String
  authorId : String
  timestamp : DateTime
  body : String
  replyTo : Option String
  editedAt : Option DateTime
  deleted : Bool
  /-- Each emoji with the users who reacted with it. -/
  reactions : List (String × List String)

inductive RpcReply where
  | done
  | community (info : CommunityInfo)
  | channel (info : ChannelInfo)
  | message (info : MessageInfo)

abbrev RpcResult := AppState × Except RpcError RpcReply

/-! ## Parameters -/

structure CreateCommunityParams where
  name : String
  description : String
  seedNodes : List String
  hostingPassword : Option String
  seedFingerprintHex : Option String

structure JoinCommunityParams where
  invite : String
  hostingPassword : Option String

structure UpdateManifestParams where
  communityId : String
  name : Option String
  description : Option String
  seedNodes : Option (List String)
  seedFingerprintHex : Option String

/-! ## Helpers -/

/-- The length of a name in bytes is 1 to 100. -/
def validName (name : String) : Bool := 0 < name.utf8ByteSize && name.utf8ByteSize ≤ 100

/-- `parse_fingerprint_hex`. -/
def parseFingerprintHex (h : String) : Option Key := parseHexArray 256 h

/-- What a call returns without a fingerprint; it does not return if the text makes the parser
panic. -/
def fingerprintError (h : Option String) (msg : String) : RpcError :=
  if h.any (parseHexPanics 64) then panicked else invalidParams msg

/-- `HostingCert::new`. -/
def HostingCert.new (P : Prims) (sk nodePk : Key) (expiresAt : UInt64) : HostingCert :=
  { communityPk := P.verifyingKey sk, nodePk, expiresAt,
    signature := P.sign sk (HostingCert.signable (P.verifyingKey sk) nodePk expiresAt) }

variable (env : Env) (s : AppState)

namespace AppState

def weAreSeed (s : AppState) (seedNodes : List String) : Bool :=
  (match s.publicAddr with
    | some addr => seedNodes.contains addr
    | none => false) || seedNodes.any fun a => s.actualListenAddrs.contains a

/-- `require_seed_connected`: the refusal, if there is one. -/
def seedRefusal (s : AppState) (communityId : String) : Option RpcError :=
  match s.communities.lookup communityId with
  | none => some (notFound "community not found")
  | some signed =>
    if signed.manifest.seedNodes.isEmpty || s.weAreSeed signed.manifest.seedNodes ||
        s.seedConnected.contains communityId then none
    else some seedUnavailable

/-- Remember the fingerprint of the certificate of seed nodes. -/
def pinSeeds (s : AppState) (seedNodes : List String) (fp : Key) : AppState :=
  let seedFingerprints := s.seedFingerprints.insertAll (seedNodes.map fun a => (a, fp))
  { s with seedFingerprints, files := { s.files with seedFingerprints } }

/-- Put a manifest into the table of communities and into its file. -/
def putCommunity (s : AppState) (communityId : String) (signed : SignedManifest) : AppState :=
  let communities := s.communities.insert communityId signed
  { s with communities, files := { s.files with communities } }

/-- Remember the password of a hosting node, if one is given. -/
def putPassword (s : AppState) (communityId : String) (password : Option String) : AppState :=
  match password with
  | some pw =>
    let hostingPasswords := s.hostingPasswords.insert communityId pw
    { s with hostingPasswords, files := { s.files with hostingPasswords } }
  | none => s

def putMember (s : AppState) (communityId : String) (record : MembershipRecord) : AppState :=
  let members := s.members.upsert communityId ∅ fun list => list.insert record.userId.text record
  { s with members, files := { s.files with members } }

section

variable (P : Prims)

def isOwnAddr (env : Env) (s : AppState) (addr : NodeAddr) : Bool :=
  decide (addr.ip ∈ IpAddr.v4 0x7f000001 :: IpAddr.v6 1 :: env.interfaceIps) &&
    decide (addr.port = s.quicPort)

def seedDials (seedNodes : List String) (skip : NodeAddr → Bool) (communityPk : Key)
    (communityId : String) (password : Option String) (fp : Key) : List NetworkCommand :=
  ((seedNodes.filterMap P.parseNodeAddr).filter fun a => !skip a).map fun a =>
    .dial a true (some (communityPk, communityId)) password fp

def publishEvent (communityId : String) (event : NetworkEvent) : NetworkCommand :=
  .publish (communityTopic communityId) (P.encodeEvent event)

def isManifestAdmin (s : AppState) (m : CommunityManifest) : Bool :=
  m.adminIds.any fun u => decide (u.text = s.peerId P)

/-! ## Creating a community -/

def newManifest (env : Env) (s : AppState) (p : CreateCommunityParams) : CommunityManifest :=
  { id := ⟨env.ulid 0⟩
    name := p.name
    description := p.description
    publicKey := s.ownPk P
    createdAt := env.now
    adminIds := [s.ownUserId P]
    channelIds := []
    seedNodes := p.seedNodes
    version := 1
    deleted := false }

/-- The metadata that the store gets for a new community. -/
def newMeta (s : AppState) (signed : SignedManifest) (record : MembershipRecord) :
    CommunityMeta :=
  { cert := HostingCert.new P s.signingKey (s.ownPk P) maxSeq
    manifest := some signed
    channels := []
    channelKeys := ∅
    members := Dict.insertAll [(record.userId.text, record)] ∅ }

def communityInfo (m : CommunityManifest) (publicKeyHex : String) (reachable : Bool) :
    CommunityInfo :=
  { id := m.id.text, name := m.name, description := m.description, publicKeyHex,
    adminIds := m.adminIds.map fun u => u.text, channelIds := m.channelIds.map fun c => c.text,
    seedNodes := m.seedNodes, version := m.version, createdAt := m.createdAt, reachable,
    seeded := !m.seedNodes.isEmpty }

def storeCreated (env : Env) (s : AppState) (p : CreateCommunityParams) (fp : Key) : AppState :=
  let signed := (s.newManifest P env p).sign P s.signingKey
  let pk := signed.manifest.publicKey
  let communityId := signed.manifest.id.text
  let record := s.ownRecord P signed.manifest.id communityId [.admin] env.now
  let s := (s.putCommunity communityId signed).putPassword communityId p.hostingPassword
  let s := (s.mapStore fun st => st.setCommunityMeta pk (s.newMeta P signed record)).putMember
    communityId record
  s.emit
    (.subscribe (communityTopic communityId) ::
      seedDials P p.seedNodes (s.isOwnAddr env) pk communityId p.hostingPassword fp ++
      [publishEvent P communityId (.memberJoined record)])
    [.communityManifestUpdated communityId signed.manifest.version]

/-- `community_create`. -/
def communityCreate (env : Env) (s : AppState) (p : CreateCommunityParams) : RpcResult :=
  let fp := (p.seedFingerprintHex.bind parseFingerprintHex).getD 0
  if s.gossipClient && p.seedNodes.isEmpty then
    (s, .error (forbidden "GossipClient mode — add at least one external seed node address"))
  else if !validName p.name then (s, .error (invalidParams "name must be 1–100 characters"))
  else if !p.seedNodes.isEmpty && decide (fp = 0) then
    (s, .error (fingerprintError p.seedFingerprintHex
      ("seed_fingerprint_hex is required when seed_nodes is non-empty " ++
        "(64-char hex SHA-256 of the seed node's TLS certificate)")))
  else
    let fp := if p.seedNodes.isEmpty then 0 else fp
    let pinned := if p.seedNodes.isEmpty then s else s.pinSeeds p.seedNodes fp
    (pinned.storeCreated P env p fp,
      .ok (.community (communityInfo (s.newManifest P env p) (hexText (s.ownPk P)) true)))

/-! ## Joining by invite -/

def inviteSigned (pk : Key) (invite : InvitePayload) : Bool :=
  match parseHexArray 512 invite.sigHex with
  | some sig => P.vkValid pk && P.verify pk (P.encodeInvite invite.toInviteSigningPayload) sig
  | none => false

/-- The checks on an invite before the state changes. -/
def inviteRefusal (s : AppState) (communityId : String) (pk : Key) (invite : InvitePayload) :
    Option RpcError :=
  if communityId ∈ s.communities then some (invalidParams "already a member of this community")
  else if (banList s.toTables communityId).contains (s.peerId P) then
    some (forbidden "you have been banned from this community")
  else if parseHexPanics 64 invite.publicKeyHex then some panicked
  else if invite.sigHex = "" then
    some (invalidParams ("invalid invite: admin signature required; " ++
      "generate a new invite link from an admin account"))
  else if pk ≠ 0 ∧ parseHexPanics 128 invite.sigHex then some panicked
  else if pk ≠ 0 ∧ !inviteSigned P pk invite then
    some (invalidParams "invalid invite: admin signature verification failed")
  else none

/-- The manifest that stands for the community until the real one arrives. -/
def inviteManifest (env : Env) (id : CommunityId) (pk : Key) (invite : InvitePayload) :
    SignedManifest :=
  ⟨{ id, name := invite.name, description := invite.description, publicKey := pk,
     createdAt := env.now, adminIds := [], channelIds := [], seedNodes := invite.seedNodes.take 1,
     version := 0, deleted := false }, toBytes (0 : Signature)⟩

/-- The state after an invite is accepted, before its fingerprint is read. -/
def storeInvited (env : Env) (s : AppState) (id : CommunityId) (pk : Key)
    (invite : InvitePayload) (password : Option String) : AppState :=
  let communityId := id.text
  let record := s.ownRecord P id communityId [.member] env.now
  let s := (s.putCommunity communityId (inviteManifest env id pk invite)).putPassword communityId
    password
  let s := s.putMember communityId record
  ({ s with pendingManifestSyncs := addPending s.pendingManifestSyncs communityId }).emit
    (.subscribe (communityTopic communityId) :: publishEvent P communityId (.memberJoined record) ::
      (s.peersOf communityId).map fun peer : PeerSummary =>
        NetworkCommand.fetchManifest peer.peerId communityId pk)
    [.communityManifestUpdated communityId 0]

/-- The certificate fingerprint in an invite; an invite without one has the zero fingerprint. -/
def inviteFingerprint (invite : InvitePayload) : Except RpcError Key :=
  if parseHexPanics 64 invite.certFingerprintHex then .error panicked
  else if invite.certFingerprintHex.utf8ByteSize = 64 then
    match parseFingerprintHex invite.certFingerprintHex with
    | some fp => .ok fp
    | none => .error
        (invalidParams "invalid invite: cert_fingerprint_hex is present but malformed")
  else if invite.certFingerprintHex = "" then .ok 0
  else .error
    (invalidParams "invalid invite: cert_fingerprint_hex must be exactly 64 hex characters")

/-- `community_join` with a decoded invite. -/
def joinInvite (env : Env) (s : AppState) (invite : InvitePayload) (password : Option String) :
    RpcResult :=
  if invite.name = "" then
    (s, .error (invalidParams "invalid invite: missing community name"))
  else
    match parseUlid invite.communityId with
    | none => (s, .error (invalidParams "invalid invite: bad community_id"))
    | some ulid =>
      let id : CommunityId := ⟨ulid⟩
      let pk := (parseHexArray 256 invite.publicKeyHex).getD 0
      match s.inviteRefusal P id.text pk invite with
      | some e => (s, .error e)
      | none =>
        let manifest := (inviteManifest env id pk invite).manifest
        let s := s.storeInvited P env id pk invite password
        match inviteFingerprint invite with
        | .error e => (s, .error e)
        | .ok fp =>
          let s := if fp = 0 then s else s.pinSeeds invite.seedNodes fp
          (s.emit (seedDials P invite.seedNodes (fun _ => false) pk id.text password fp) [],
            .ok (.community (communityInfo manifest invite.publicKeyHex
              invite.seedNodes.isEmpty)))

/-- `community_join`. -/
def communityJoin (env : Env) (s : AppState) (p : JoinCommunityParams) : RpcResult :=
  match P.base64UrlDecode p.invite with
  | none => (s, .error (invalidParams "invalid invite: bad base64url encoding"))
  | some decoded =>
    match P.decodeInvite decoded with
    | none => (s, .error (invalidParams "invalid invite: bad JSON payload"))
    | some invite => s.joinInvite P env invite p.hostingPassword

/-! ## Generating an invite -/

/-- The libraries that `community_generate_invite` uses beyond those of `Prims`: the JSON text of
an invite, its base64url text, and the fingerprint of the certificate that `NodeTlsCert::generate`
makes for a signing key. -/
structure InviteCodec where
  encodeInviteJson : InvitePayload → Bytes
  base64UrlEncode : Bytes → String
  tlsFingerprint : Key → Except String Key

/-- The fingerprint that an invite gets: the one that is pinned for the first seed node, else the
one of the node itself. -/
def inviteSeedFingerprint (codec : InviteCodec) (s : AppState) (seedNodes : List String) :
    Except RpcError Key :=
  let firstSeed := seedNodes.headD ""
  let stored := if firstSeed = "" then none else s.seedFingerprints.lookup firstSeed
  match stored.filter fun fp => decide (fp ≠ 0) with
  | some fp => .ok fp
  | none =>
    match codec.tlsFingerprint s.signingKey with
    | .ok fp => .ok fp
    | .error e => .error (internalErr ("failed to generate TLS cert for fingerprint: " ++ e))

def inviteSigningPayload (communityId : String) (m : CommunityManifest) : InviteSigningPayload :=
  ⟨communityId, m.name, m.description, bytesToHex m.publicKey, m.seedNodes⟩

/-- The invite to the community of a manifest, with the fingerprint of its seed nodes. -/
def signedInvite (s : AppState) (communityId : String) (m : CommunityManifest) (fp : Key) :
    InvitePayload :=
  let payload := inviteSigningPayload communityId m
  ⟨payload, bytesToHex (P.sign s.signingKey (P.encodeInvite payload)), bytesToHex fp⟩

/-- Invites start with this text. -/
def invitePrefixText : String := "bitcord://join/"

/-- `community_generate_invite`. It changes nothing. -/
def communityGenerateInvite (codec : InviteCodec) (s : AppState) (communityId : String) :
    Except RpcError String :=
  match s.communities.lookup communityId with
  | none => .error (notFound "community not found")
  | some signed =>
    if !s.isManifestAdmin P signed.manifest then
      .error (forbidden "only community admins can generate signed invite links")
    else
      match s.inviteSeedFingerprint codec signed.manifest.seedNodes with
      | .error e => .error e
      | .ok fp => .ok (invitePrefixText ++ codec.base64UrlEncode
          (codec.encodeInviteJson (s.signedInvite P communityId signed.manifest fp)))

/-! ## Leaving and deleting -/

/-- The node's `MemberLeft` event for a user, if the community has a valid id. -/
def publishLeft (env : Env) (s : AppState) (communityId : String) (userId : UserId) :
    List NetworkCommand :=
  match parseUlid communityId with
  | some ulid =>
    let id : CommunityId := ⟨ulid⟩
    [publishEvent P communityId (.memberLeft ⟨userId, id, env.now,
      toBytes (P.sign s.signingKey (memberLeftBytes userId id))⟩)]
  | none => []

/-- `community_leave`. -/
def communityLeave (env : Env) (s : AppState) (communityId : String) : RpcResult :=
  if communityId ∈ s.communities then
    ((s.emit (s.publishLeft P env communityId (s.ownUserId P)) []).removeCommunityLocal
      communityId, .ok .done)
  else (s, .error (notFound "community not found"))

/-- `community_delete`: a signed tombstone is published, then the community is removed. -/
def communityDelete (s : AppState) (communityId : String) : RpcResult :=
  match s.communities.lookup communityId with
  | none => (s, .error (notFound "community not found"))
  | some signed =>
    if !s.isManifestAdmin P signed.manifest then
      (s, .error (forbidden "only admins can delete a community"))
    else
      let tombstone := ({ signed.manifest with
        deleted := true
        version := signed.manifest.version + 1 }).sign P s.signingKey
      let s := { s with communities := s.communities.insert communityId tombstone }
      ((s.emit [publishEvent P communityId (.manifestUpdate tombstone)] []).removeCommunityLocal
        communityId, .ok .done)

/-! ## Updating the manifest -/

/-- The checks of `community_update_manifest` that read no manifest. -/
def updateRefusal (s : AppState) (p : UpdateManifestParams) : Option RpcError :=
  match s.seedRefusal p.communityId with
  | some e => some e
  | none =>
    if p.name.any fun n => !validName n then some (invalidParams "name must be 1–100 characters")
    else if p.description.any fun d => decide (500 < d.utf8ByteSize) then
      some (invalidParams "description must be ≤500 characters")
    else none

/-- `community_update_manifest`; the stored metadata keeps the old manifest. -/
def communityUpdateManifest (s : AppState) (p : UpdateManifestParams) : RpcResult :=
  match s.updateRefusal p, s.communities.lookup p.communityId with
  | some e, _ => (s, .error e)
  | none, none => (s, .error (notFound "community not found"))
  | none, some signed =>
    if !s.isManifestAdmin P signed.manifest then
      (s, .error (forbidden "only admins may update the community manifest"))
    else
      let old := signed.manifest
      let updated := ({ old with
        name := p.name.getD old.name
        description := p.description.getD old.description
        seedNodes := p.seedNodes.getD old.seedNodes
        version := old.version + 1 }).sign P s.signingKey
      let s := (s.putCommunity p.communityId updated).emit
        [publishEvent P p.communityId (.manifestUpdate updated)]
        [.communityManifestUpdated p.communityId updated.manifest.version]
      let newSeed := updated.manifest.seedNodes.headD ""
      if newSeed ≠ "" ∧ newSeed ≠ old.seedNodes.headD "" then
        let fp := (p.seedFingerprintHex.bind parseFingerprintHex).getD 0
        if fp = 0 then
          (s, .error (fingerprintError p.seedFingerprintHex
            ("seed_fingerprint_hex is required when changing seed_nodes " ++
              "(64-char hex SHA-256 of the new seed node's TLS certificate)")))
        else (s.pinSeeds updated.manifest.seedNodes fp, .ok .done)
      else (s, .ok .done)

/-- The invite passes the checks that `community_join` makes before it writes. -/
structure InviteChecked (s : AppState) (invite : InvitePayload) (ulid : Ulid) : Prop where
  name : invite.name ≠ ""
  communityId : parseUlid invite.communityId = some ulid
  refusal : s.inviteRefusal P (CommunityId.mk ulid).text
    ((parseHexArray 256 invite.publicKeyHex).getD 0) invite = none

end

/-! ## What the methods can do -/

section

variable {P : Prims}

/-- A community is refused, or it is stored after the fingerprints of its seed nodes. -/
theorem communityCreate_cases (p : CreateCommunityParams) :
    (∃ e, s.communityCreate P env p = (s, .error e)) ∨
      validName p.name = true ∧ ∃ t fp, (t = s ∨ t = s.pinSeeds p.seedNodes fp) ∧
        s.communityCreate P env p = (t.storeCreated P env p fp,
          .ok (.community (communityInfo (s.newManifest P env p) (hexText (s.ownPk P)) true))) := by
  unfold communityCreate
  dsimp only
  split
  · exact .inl ⟨_, rfl⟩
  · split
    · exact .inl ⟨_, rfl⟩
    · next hname =>
      split
      · exact .inl ⟨_, rfl⟩
      · refine .inr ⟨by simpa using hname, ?_⟩
        split
        · exact ⟨s, _, .inl rfl, rfl⟩
        · exact ⟨s.pinSeeds p.seedNodes _, _, .inr rfl, rfl⟩

/-- An invite is refused, or the community is stored. Then the fingerprint cannot be read, and the
call fails, or the fingerprint is stored if it is not zero, and the seed nodes are dialled. -/
theorem joinInvite_cases (invite : InvitePayload) (password : Option String) :
    (∃ e, s.joinInvite P env invite password = (s, .error e)) ∨
      ∃ ulid stored, InviteChecked P s invite ulid ∧
        stored = s.storeInvited P env ⟨ulid⟩ ((parseHexArray 256 invite.publicKeyHex).getD 0)
          invite password ∧
        ((∃ e, inviteFingerprint invite = .error e ∧
            s.joinInvite P env invite password = (stored, .error e)) ∨
          ∃ fp t reply, inviteFingerprint invite = .ok fp ∧
            (fp = 0 ∧ t = stored ∨ fp ≠ 0 ∧ t = stored.pinSeeds invite.seedNodes fp) ∧
            s.joinInvite P env invite password =
              (t.emit (seedDials P invite.seedNodes (fun _ => false)
                ((parseHexArray 256 invite.publicKeyHex).getD 0) (CommunityId.mk ulid).text password
                fp) [], .ok reply)) := by
  unfold joinInvite
  split
  · exact .inl ⟨_, rfl⟩
  · next hname =>
    split
    · exact .inl ⟨_, rfl⟩
    · next ulid hid =>
      dsimp only
      split
      · exact .inl ⟨_, rfl⟩
      · next hrefusal =>
        refine .inr ⟨ulid, _, ⟨hname, hid, hrefusal⟩, rfl, ?_⟩
        split
        · next e hfp => exact .inl ⟨e, hfp, rfl⟩
        · next fp hfp =>
          refine .inr ⟨fp, _, _, hfp, ?_, rfl⟩
          split
          · next hzero => exact .inl ⟨hzero, rfl⟩
          · next hzero => exact .inr ⟨hzero, rfl⟩

/-- A text that is not an invite is refused. -/
theorem communityJoin_cases (p : JoinCommunityParams) :
    (∃ e, s.communityJoin P env p = (s, .error e)) ∨
      ∃ invite, (P.base64UrlDecode p.invite).bind P.decodeInvite = some invite ∧
        s.communityJoin P env p = s.joinInvite P env invite p.hostingPassword := by
  unfold communityJoin
  cases P.base64UrlDecode p.invite with
  | none => exact .inl ⟨_, rfl⟩
  | some decoded =>
    dsimp only
    rw [Option.bind_some]
    cases P.decodeInvite decoded with
    | none => exact .inl ⟨_, rfl⟩
    | some invite => exact .inr ⟨invite, rfl, rfl⟩

end

end AppState

end BitCord
