import BitCord.Node

/-!
# An instance of the third-party functions

Small functions with the documented behaviour, on which the model can be evaluated. A signature
is the key with a checksum of the message; the wire encodings number the events and contents
that an evaluation uses.
-/

namespace BitCord

open Lib

namespace Sample

/-- A checksum in place of a hash. -/
def mix (b : Bytes) : Key :=
  BitVec.ofNat 256 (b.foldl (fun acc x => acc * 257 + x.toNat + 1) 7)

def aeadSeal (k : Key) (n : Nonce) (m : Bytes) : Bytes :=
  m ++ toBytes ((mix (toBytes k ++ toBytes n ++ m)).truncate 128)

def aeadOpen (k : Key) (n : Nonce) (c : Bytes) : Option Bytes :=
  let m := c.take (c.length - 16)
  if c = aeadSeal k n m then some m else none

theorem aeadOpen_aeadSeal (k : Key) (n : Nonce) (m : Bytes) :
    aeadOpen k n (aeadSeal k n m) = some m := by
  have htake : (aeadSeal k n m).take ((aeadSeal k n m).length - 16) = m := by
    simp [aeadSeal, toBytes]
  simp only [aeadOpen, htake, if_true]

def encodeDateTime (t : DateTime) : Bytes := toBytes (BitVec.ofInt 64 t)

def encodeCommunityManifest (m : CommunityManifest) : Bytes :=
  toBytes m.id.ulid ++ utf8 m.name ++ utf8 m.description ++ toBytes m.publicKey ++
    encodeDateTime m.createdAt ++ m.adminIds.flatMap (fun u => toBytes u.bytes) ++
    m.channelIds.flatMap (fun c => toBytes c.ulid) ++ m.seedNodes.flatMap utf8 ++
    toBytes m.version.toBitVec ++ [if m.deleted then 1 else 0]

def encodeKind : ChannelKind → Bytes
  | .text => [0]
  | .announcement => [1]
  | .voice => [2]

def encodeChannelManifest (m : ChannelManifest) : Bytes :=
  toBytes m.id.ulid ++ toBytes m.communityId.ulid ++ utf8 m.name ++ encodeKind m.kind ++
    m.encryptedChannelKey.entries.flatMap (fun e => toBytes e.1.bytes ++ e.2) ++
    encodeDateTime m.createdAt ++ toBytes m.version.toBitVec

def encodeRole : Role → Bytes
  | .admin => [0]
  | .moderator => [1]
  | .member => [2]

def encodeNodeAddr (a : NodeAddr) : Bytes :=
  (match a.ip with
    | .v4 bits => toBytes bits
    | .v6 bits => toBytes bits) ++ toBytes a.port.toBitVec

/-- The functions, for evaluations in which `events` and `contents` are sent. -/
def prims (events : List NetworkEvent) (contents : List MessageContent) : Prims where
  vkValid _ := true
  verify k m s := decide (s = k ++ mix m)
  verifyStrict k m s := decide (s = k ++ mix m)
  verifyingKey sk := sk + 1
  sign sk m := (sk + 1) ++ mix m
  sha256 := mix
  x25519Public a := a
  diffieHellman a b := a ^^^ b
  hkdf salt ikm info := mix (toBytes salt ++ ikm ++ info)
  aeadSeal := aeadSeal
  aeadOpen := aeadOpen
  encodeCommunityManifest := encodeCommunityManifest
  encodeChannelManifest := encodeChannelManifest
  encodeNodeAddr := encodeNodeAddr
  encodeDmEnvelope e := toBytes e.senderPk ++ toBytes e.ephemPk ++ toBytes e.nonce ++ e.ciphertext
  encodeEvent e := [UInt8.ofNat (events.idxOf e)]
  decodeEvent
    | [i] => events[i.toNat]?
    | _ => none
  encodeContent c := [UInt8.ofNat (contents.idxOf c)]
  decodeContent
    | [i] => contents[i.toNat]?
    | _ => none
  encodeRole := encodeRole
  encodeRoles rs := UInt8.ofNat rs.length :: rs.flatMap encodeRole
  parseNodeAddr _ := none
  base64UrlDecode _ := none
  decodeInvite _ := none
  encodeInvite _ := []

theorem prims_lawful (events : List NetworkEvent) (contents : List MessageContent) :
    (prims events contents).Lawful where
  vkValid_verifyingKey _ := rfl
  verify_sign _ _ := decide_eq_true rfl
  verifyStrict_sign _ _ := decide_eq_true rfl
  verify_of_verifyStrict _ _ _ h := h
  diffieHellman_comm a b := BitVec.xor_comm a b
  aeadOpen_seal := aeadOpen_aeadSeal

theorem eq_of_verify {events : List NetworkEvent} {contents : List MessageContent} {k k' : Key}
    {m : Bytes} (h : (prims events contents).verify k m (k' ++ mix m) = true) : k = k' := by
  have hsig : k' ++ mix m = k ++ mix m := of_decide_eq_true h
  have hkey := congrArg (fun sig : Signature => sig.extractLsb' 256 256) hsig
  rw [BitVec.extractLsb'_append_eq_left, BitVec.extractLsb'_append_eq_left] at hkey
  exact hkey.symm

/-- The clocks and random values of the evaluations. -/
def env : Env where
  now := 1700000000000000000
  instant := 0
  ulid i := BitVec.ofNat 128 (1000 + i)
  key i := BitVec.ofNat 256 (2000 + i)
  nonce i := BitVec.ofNat 192 (3000 + i)
  interfaceIps := []

def addr : NodeAddr := ⟨.v4 (BitVec.ofNat 32 0x7f000001), 9042⟩

def services (nodePk : Key) : NodeServices :=
  ⟨NodeStore.create none, none, nodePk, none, [], []⟩

/-- A new node with an empty store. -/
def app (sk : Key) : AppState :=
  { Tables.empty with
    signingKey := sk
    displayName := none
    gossipClient := false
    quicPort := 9042
    messageLog := MessageLog.empty
    nodeStore := some (NodeStore.create none)
    connectedPeers := ∅
    pendingManifestSyncs := []
    presence := ∅
    seedConnected := []
    publicAddr := none
    actualListenAddrs := []
    pendingRotation := ∅
    files := Tables.empty
    commands := []
    pushes := []
    blocked := false }

def node (app : AppState) : Node := ⟨app, fun _ => ClientSession.fresh, none, none, []⟩

def createParams (name : String) : CreateCommunityParams := ⟨name, "", [], none, none⟩

/-- The node of the key 31 after it created a community. -/
def creatorApp : AppState := ((app 30).communityCreate (prims [] []) env (createParams "name")).1

def createdId : String := ((app 30).newManifest (prims [] []) env (createParams "name")).id.text

/-! ## A community -/

def community : CommunityId := ⟨5⟩

def manifest (sk : Key) (version : UInt64) : SignedManifest :=
  (CommunityManifest.mk community "" "" (sk + 1) 0 [] [] [] version false).sign (prims [] []) sk

def withCommunity (s : AppState) (sk : Key) : AppState :=
  { s with communities := Dict.insertAll [(community.text, manifest sk 1)] ∅ }

def gossipEvent (i : UInt8) : Env × SwarmEvent :=
  (env, .messageReceived (communityTopic community.text) [i] none)

/-- A record that the user of a signing key signs for itself. -/
def record (sk : Key) (roles : List Role) : MembershipRecord :=
  (app sk).ownRecord (prims [] []) community "" roles 0

def withMembers (s : AppState) (records : List MembershipRecord) : AppState :=
  { s with members := Dict.insertAll [(community.text, keyByUser records)] ∅ }

def channel : ChannelManifest := ⟨⟨7⟩, community, "general", .text, ∅, 0, 1⟩

def withChannel (s : AppState) (ch : ChannelManifest) (key : Key) : AppState :=
  { s with
    channels := s.channels.insert ch.id.text ch
    channelKeys := s.channelKeys.insert ch.id.text key }

/-! ## Texts -/

/-- A character as a mark and three bytes. -/
def charBytes (c : Char) : Bytes :=
  [1, UInt8.ofNat (c.toNat / 65536), UInt8.ofNat (c.toNat / 256), UInt8.ofNat c.toNat]

/-- Texts one after the other, each with a zero byte at its end. -/
def textsBytes (texts : List String) : Bytes :=
  texts.flatMap fun t => t.toList.flatMap charBytes ++ [0]

def readTexts : Bytes → List (List Char)
  | 1 :: a :: b :: c :: rest =>
    let char := Char.ofNat (a.toNat * 65536 + b.toNat * 256 + c.toNat)
    match readTexts rest with
    | [] => [[char]]
    | text :: texts => (char :: text) :: texts
  | 0 :: rest => [] :: readTexts rest
  | _ => []

theorem readTexts_charBytes (c : Char) (rest : Bytes) : readTexts (charBytes c ++ rest) =
    match readTexts rest with
    | [] => [[c]]
    | text :: texts => (c :: text) :: texts := by
  have hlt : c.toNat < 1114112 := by
    rcases c.valid with h | h
    · exact Nat.lt_trans h (by decide)
    · exact h.2
  have hchar : (UInt8.ofNat (c.toNat / 65536)).toNat * 65536 +
      (UInt8.ofNat (c.toNat / 256)).toNat * 256 + (UInt8.ofNat c.toNat).toNat = c.toNat := by
    simp only [UInt8.toNat_ofNat']
    omega
  simp only [charBytes, List.cons_append, List.nil_append, readTexts, hchar, Char.ofNat_toNat]

theorem readTexts_text (cs : List Char) (rest : Bytes) :
    readTexts (cs.flatMap charBytes ++ 0 :: rest) = cs :: readTexts rest := by
  induction cs with
  | nil => simp only [List.flatMap_nil, List.nil_append, readTexts]
  | cons c cs ih => rw [List.flatMap_cons, List.append_assoc, readTexts_charBytes, ih]

theorem readTexts_textsBytes (texts : List String) :
    readTexts (textsBytes texts) = texts.map String.toList := by
  induction texts with
  | nil => simp only [textsBytes, List.flatMap_nil, readTexts, List.map_nil]
  | cons t texts ih =>
    unfold textsBytes at ih ⊢
    rw [List.flatMap_cons, List.append_assoc, List.singleton_append, readTexts_text, ih,
      List.map_cons]

theorem exists_ok_of_isSome {ε α : Type} {r : Except ε α} (h : r.toOption.isSome = true) :
    ∃ a, r = .ok a := by
  cases r with
  | error e => cases h
  | ok a => exact ⟨a, rfl⟩

end Sample

end BitCord
