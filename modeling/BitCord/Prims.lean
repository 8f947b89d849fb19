import BitCord.Model

/-!
# Third-party functions

Signatures, hashes, key agreement, authenticated encryption and the wire encodings come from
libraries. They are parameters of the model, collected in `Prims`; `Prims.Lawful` states the
documented behaviour that a result may assume. Randomness is passed to the functions that draw
it, so every function here is pure.
-/

namespace BitCord

open Lib

structure Prims where
  /-- `VerifyingKey::from_bytes` accepts the bytes. -/
  vkValid : Key → Bool
  /-- `VerifyingKey::verify`. -/
  verify : Key → Bytes → Signature → Bool
  /-- `VerifyingKey::verify_strict`. -/
  verifyStrict : Key → Bytes → Signature → Bool
  /-- The verifying key of a signing key. -/
  verifyingKey : Key → Key
  /-- `SigningKey::sign`. -/
  sign : Key → Bytes → Signature
  sha256 : Bytes → Key
  /-- The X25519 public key of a secret. -/
  x25519Public : Key → Key
  /-- The X25519 shared secret of a secret and a public key. -/
  diffieHellman : Key → Key → Key
  /-- HKDF-SHA256 with a salt, the input key material and an info string. -/
  hkdf : Key → Bytes → Bytes → Key
  /-- XChaCha20-Poly1305 encryption. -/
  aeadSeal : Key → Nonce → Bytes → Bytes
  /-- XChaCha20-Poly1305 decryption. -/
  aeadOpen : Key → Nonce → Bytes → Option Bytes
  /-- The postcard encodings of what is signed, and of what is sent. -/
  encodeCommunityManifest : CommunityManifest → Bytes
  encodeChannelManifest : ChannelManifest → Bytes
  encodeNodeAddr : NodeAddr → Bytes
  encodeDmEnvelope : DmEnvelope → Bytes
  encodeEvent : NetworkEvent → Bytes
  decodeEvent : Bytes → Option NetworkEvent
  encodeContent : MessageContent → Bytes
  decodeContent : Bytes → Option MessageContent
  encodeRole : Role → Bytes
  encodeRoles : List Role → Bytes
  /-- `NodeAddr::from_str`, the address parser of the standard library. -/
  parseNodeAddr : String → Option NodeAddr
  base64UrlDecode : String → Option Bytes
  /-- The JSON decoding of an invite, and the JSON text that is signed in it. -/
  decodeInvite : Bytes → Option InvitePayload
  encodeInvite : InviteSigningPayload → Bytes

/-- The documented behaviour of the libraries. -/
structure Prims.Lawful (P : Prims) : Prop where
  vkValid_verifyingKey : ∀ sk, P.vkValid (P.verifyingKey sk) = true
  verify_sign : ∀ sk m, P.verify (P.verifyingKey sk) m (P.sign sk m) = true
  verifyStrict_sign : ∀ sk m, P.verifyStrict (P.verifyingKey sk) m (P.sign sk m) = true
  verify_of_verifyStrict : ∀ k m s, P.verifyStrict k m s = true → P.verify k m s = true
  diffieHellman_comm : ∀ a b,
    P.diffieHellman a (P.x25519Public b) = P.diffieHellman b (P.x25519Public a)
  aeadOpen_seal : ∀ k n m, P.aeadOpen k n (P.aeadSeal k n m) = some m

namespace Prims

variable (P : Prims)

/-! ## Users -/

/-- `UserId::from_verifying_key`. -/
def userIdOf (k : Key) : UserId := ⟨P.sha256 (toBytes k)⟩

/-- The X25519 secret of an identity: the hash of its signing key. -/
def x25519Secret (sk : Key) : Key := P.sha256 (toBytes sk)

/-- The X25519 public key that an identity publishes in its membership records. -/
def x25519PublicKeyBytes (sk : Key) : Key := P.x25519Public (P.x25519Secret sk)

/-! ## Signatures over byte vectors -/

/-- Verify a signature given as a byte vector: it must have 64 bytes. -/
def verifyBytes (k : Key) (msg sig : Bytes) : Bool :=
  match tryIntoArray 512 sig with
  | some s => P.verify k msg s
  | none => false

end Prims

variable (k : Key) (nonce : Nonce) (rest : Bytes)

section

variable (P : Prims)

/-- `CommunityManifest::sign`. -/
def CommunityManifest.sign (m : CommunityManifest) (sk : Key) : SignedManifest :=
  ⟨m, toBytes (P.sign sk (P.encodeCommunityManifest m))⟩

/-- `SignedManifest::verify`: the signature is checked under the key inside the manifest. -/
def SignedManifest.verify (m : SignedManifest) : Bool :=
  P.vkValid m.manifest.publicKey &&
    P.verifyBytes m.manifest.publicKey (P.encodeCommunityManifest m.manifest) m.signature

/-- `RawMessage::create`. -/
def RawMessage.create (id : MessageId) (channelId : ChannelId) (sk : Key) (timestamp : DateTime)
    (ciphertext : Bytes) (nonce : Nonce) : RawMessage :=
  { id, channelId, authorId := P.userIdOf (P.verifyingKey sk), timestamp, ciphertext, nonce,
    signature := toBytes (P.sign sk (RawMessage.signableBytes id channelId timestamp ciphertext)) }

/-- `RawMessage::verify`. -/
def RawMessage.verify (m : RawMessage) (authorPubkey : Key) : Bool :=
  P.verifyBytes authorPubkey
    (RawMessage.signableBytes m.id m.channelId m.timestamp m.ciphertext) m.signature

/-- The ways in which `HostingCert::verify` fails. -/
inductive CertError where
  | keyMismatch
  | signatureInvalid
  | expired (expiresAt now : UInt64)
  deriving DecidableEq

def CertError.text : CertError → String
  | .keyMismatch => "HostingCert community key mismatch"
  | .signatureInvalid => "HostingCert signature invalid"
  | .expired expiresAt now =>
    "HostingCert expired (expires_at=" ++ toString expiresAt ++ ", now=" ++ toString now ++ ")"

/-- `HostingCert::verify` at the time `now` in seconds. -/
def HostingCert.verify (cert : HostingCert) (communityPk : Key) (now : UInt64) :
    Except CertError Unit :=
  if communityPk ≠ cert.communityPk then .error .keyMismatch
  else if !P.verify communityPk
      (HostingCert.signable cert.communityPk cert.nodePk cert.expiresAt) cert.signature then
    .error .signatureInvalid
  else if now > cert.expiresAt then .error (.expired cert.expiresAt now)
  else .ok ()

/-! ## Channel keys -/

/-- The HKDF info string of channel key wrapping. -/
def channelKeyWrapInfo : Bytes := utf8 "bitcord-channel-key-wrap/v1"

/-- `ChannelKey::encrypt_for_member`, with the drawn ephemeral secret and nonce. -/
def encryptForMember (channelKey memberX25519Pk ephemSk : Key) (nonce : Nonce) : Bytes :=
  let ephemPk := P.x25519Public ephemSk
  let wrappingKey := P.hkdf ephemPk (toBytes (P.diffieHellman ephemSk memberX25519Pk))
    channelKeyWrapInfo
  toBytes ephemPk ++ toBytes nonce ++ P.aeadSeal wrappingKey nonce (toBytes channelKey)

/-- `ChannelKey::decrypt_for_self`. -/
def decryptForSelf (x25519Sk : Key) (wrapped : Bytes) : Option Key := do
  if wrapped.length < 32 + 24 + 16 then none
  let ephemPk ← tryIntoArray 256 (wrapped.take 32)
  let nonce ← tryIntoArray 192 ((wrapped.drop 32).take 24)
  let wrappingKey := P.hkdf ephemPk (toBytes (P.diffieHellman x25519Sk ephemPk))
    channelKeyWrapInfo
  let plain ← P.aeadOpen wrappingKey nonce (wrapped.drop 56)
  tryIntoArray 256 plain

/-- The tag that XChaCha20-Poly1305 appends has 16 bytes. -/
def Prims.TagLength : Prop := ∀ k n m, (P.aeadSeal k n m).length = m.length + 16

/-! A key and a nonce in front of a sealed text. -/

theorem take_key : (toBytes k ++ toBytes nonce ++ rest).take 32 = toBytes k := by
  rw [List.append_assoc, List.take_left' (by simp)]

theorem take_drop_nonce :
    ((toBytes k ++ toBytes nonce ++ rest).drop 32).take 24 = toBytes nonce := by
  rw [List.append_assoc, List.drop_left' (by simp), List.take_left' (by simp)]

theorem drop_key_nonce : (toBytes k ++ toBytes nonce ++ rest).drop 56 = rest := by
  rw [List.drop_left' (by simp)]

variable {P}

/-- The holder of the secret of the member's key opens what was wrapped for it. -/
theorem decryptForSelf_encryptForMember (hP : P.Lawful) (htag : P.TagLength) {x memberPk : Key}
    (hx : P.x25519Public x = memberPk) (channelKey ephemSk : Key) (nonce : Nonce) :
    decryptForSelf P x (encryptForMember P channelKey memberPk ephemSk nonce) =
      some channelKey := by
  subst hx
  have hlen : ∀ wk, (toBytes (P.x25519Public ephemSk) ++ toBytes nonce ++
      P.aeadSeal wk nonce (toBytes channelKey)).length = 104 := by
    intro wk
    simp [htag _ _ _]
  unfold decryptForSelf encryptForMember
  dsimp only
  -- both sides derive the wrapping key from the same shared secret
  rw [hlen, if_neg (by decide), take_key, take_drop_nonce, drop_key_nonce,
    tryIntoArray_toBytes (by decide), tryIntoArray_toBytes (by decide)]
  simp only [Option.bind_eq_bind, Option.bind_some]
  rw [hP.diffieHellman_comm x ephemSk, hP.aeadOpen_seal, Option.bind_some,
    tryIntoArray_toBytes (by decide)]

end

end BitCord
