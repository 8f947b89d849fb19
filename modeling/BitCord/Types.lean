import BitCord.Lib.Digits

/-!
# Byte arrays, identifiers and their texts

A byte array `[u8; n]` is the bit vector of its big-endian reading, so that the lexicographic
order of the bytes is the unsigned order of the bit vector (`toBytes_lt_iff`). Tables of the node
are keyed by the texts of identifiers: 26 characters of Crockford base 32 for a ULID, 64 hexadecimal
digits for a user. Both texts determine the identifier.
-/

namespace BitCord

open Lib

variable {w : Nat} {cs : List Char}

abbrev Bytes := List UInt8

/-- A byte array `[u8; 32]`: Ed25519 and X25519 keys, hashes, channel keys. -/
abbrev Key := BitVec 256

/-- An XChaCha20-Poly1305 nonce `[u8; 24]`. -/
abbrev Nonce := BitVec 192

/-- An Ed25519 signature `[u8; 64]`. -/
abbrev Signature := BitVec 512

/-- A ULID, a 128-bit number. -/
abbrev Ulid := BitVec 128

/-- A point in time in nanoseconds since the Unix epoch. -/
abbrev DateTime := Int

/-- Bit vectors are ordered as unsigned numbers. -/
instance bitVecLinearOrder {w : Nat} : LinearOrder (BitVec w) where
  le_refl := BitVec.le_refl
  le_trans := fun _ _ _ => BitVec.le_trans
  le_antisymm := fun _ _ => BitVec.le_antisymm
  le_total := BitVec.le_total
  lt_iff_le_not_ge := fun a b => by
    simp only [BitVec.le_def, BitVec.lt_def]
    omega
  toDecidableLE := inferInstance

/-! ## Bytes -/

/-- The bytes of an array, most significant first. -/
def toBytes {w : Nat} (v : BitVec w) : Bytes :=
  (fixedDigits 256 (w / 8) v.toNat).map UInt8.ofNat

theorem pow_bytes (hw : 8 ∣ w) : 256 ^ (w / 8) = 2 ^ w := by
  rw [show (256 : Nat) = 2 ^ 8 from rfl, ← pow_mul, Nat.mul_div_cancel' hw]

/-- The lexicographic order of the bytes is the order of the bit vectors. -/
theorem toBytes_lt_iff (hw : 8 ∣ w) {a b : BitVec w} : toBytes a < toBytes b ↔ a < b := by
  have hread : ∀ d < 256, (UInt8.ofNat d).toNat = d := by
    intro d hd
    rw [UInt8.toNat_ofNat', Nat.mod_eq_of_lt hd]
  have hbyte : ∀ x < 256, ∀ y < 256, UInt8.ofNat x < UInt8.ofNat y ↔ x < y := by
    intro x hx y hy
    rw [UInt8.lt_iff_toNat_lt, hread x hx, hread y hy]
  rw [BitVec.lt_def, toBytes, toBytes]
  exact map_fixedDigits_lt_iff (by decide) hread hbyte (pow_bytes hw ▸ a.isLt)
    (pow_bytes hw ▸ b.isLt)

/-- The little-endian bytes of an integer (`to_le_bytes`). -/
def toLeBytes {w : Nat} (v : BitVec w) : Bytes := (toBytes v).reverse

/-- The conversion `try_into` of a slice to an array of `w` bits. -/
def tryIntoArray (w : Nat) (b : Bytes) : Option (BitVec w) :=
  if b.length * 8 = w then some (BitVec.ofNat w (ofFixedDigits 256 (b.map UInt8.toNat))) else none

variable {b : Bytes} (v : BitVec w)

@[simp] theorem length_toBytes : (toBytes v).length = w / 8 := by
  simp [toBytes]

theorem map_toNat_toBytes : (toBytes v).map UInt8.toNat = fixedDigits 256 (w / 8) v.toNat := by
  unfold toBytes
  rw [List.map_map]
  conv_rhs => rw [← List.map_id (fixedDigits 256 (w / 8) v.toNat)]
  refine List.map_congr_left fun d hd => ?_
  exact UInt8.toNat_ofNat_of_lt' (fixedDigits_lt (by decide) hd)

theorem tryIntoArray_toBytes (hw : 8 ∣ w) (v : BitVec w) : tryIntoArray w (toBytes v) = some v := by
  have hlen : (toBytes v).length * 8 = w := by
    rw [length_toBytes, Nat.div_mul_cancel hw]
  unfold tryIntoArray
  rw [if_pos hlen, map_toNat_toBytes, ofFixedDigits_fixedDigits, pow_bytes hw,
    Nat.mod_eq_of_lt v.isLt, BitVec.ofNat_toNat, BitVec.setWidth_eq]

theorem toBytes_of_tryIntoArray {v : BitVec w} (h : tryIntoArray w b = some v) : toBytes v = b := by
  unfold tryIntoArray at h
  split at h
  · next hlen =>
    obtain rfl := Option.some.inj h
    have hdigits : ∀ d ∈ b.map UInt8.toNat, d < 256 := by
      intro d hd
      obtain ⟨x, _, rfl⟩ := List.mem_map.mp hd
      exact x.toNat_lt
    have hcount : w / 8 = (b.map UInt8.toNat).length := by
      rw [List.length_map]
      omega
    have hbound : ofFixedDigits 256 (b.map UInt8.toNat) < 2 ^ w := by
      have hread := ofFixedDigits_fixedDigits 256 (b.map UInt8.toNat).length
        (ofFixedDigits 256 (b.map UInt8.toNat))
      rw [fixedDigits_ofFixedDigits hdigits] at hread
      rw [hread, ← hcount, ← pow_bytes (Dvd.intro_left _ hlen)]
      exact Nat.mod_lt _ (by positivity)
    unfold toBytes
    rw [BitVec.toNat_ofNat, Nat.mod_eq_of_lt hbound, hcount, fixedDigits_ofFixedDigits hdigits,
      List.map_map]
    conv_rhs => rw [← List.map_id b]
    exact List.map_congr_left fun x _ => UInt8.ofNat_toNat
  · cases h

theorem exists_tryIntoArray (h : b.length * 8 = w) : ∃ v, tryIntoArray w b = some v :=
  ⟨_, if_pos h⟩

def utf8 (s : String) : Bytes := s.toUTF8.data.toList

theorem utf8_injective : Function.Injective utf8 := by
  intro a b h
  have hbytes : a.toUTF8 = b.toUTF8 := ByteArray.ext (Array.toList_inj.mp h)
  exact String.toByteArray_inj.mp hbytes

/-- The milliseconds of a point in time, rounded down (`timestamp_millis`). -/
def timestampMillis (t : DateTime) : Int := t / 1000000

/-- The point in time of a number of milliseconds (`timestamp_millis_opt`). The bounds are the
first and the last millisecond of the years that `DateTime` has, -262143 to 262142. -/
def timestampMillisOpt (ms : Int) : Option DateTime :=
  if -8334601228800000 ≤ ms ∧ ms ≤ 8210266876799999 then some (ms * 1000000) else none

/-! ## Texts -/

def crockfordAlphabet : List Char := "0123456789ABCDEFGHJKMNPQRSTVWXYZ".toList

def hexAlphabet : List Char := "0123456789abcdef".toList

def digitChar (alphabet : List Char) (d : Nat) : Char := alphabet.getD d '0'

/-- The text of a ULID: 26 digits in Crockford's base 32. -/
def ulidText (u : Ulid) : String :=
  String.ofList ((fixedDigits 32 26 u.toNat).map (digitChar crockfordAlphabet))

/-- The lower-case hexadecimal text of a 32-byte array. -/
def hexText (k : Key) : String :=
  String.ofList ((fixedDigits 16 64 k.toNat).map (digitChar hexAlphabet))

/-- `bytes_to_hex`: the lower-case hexadecimal text of a byte array. -/
def bytesToHex {w : Nat} (v : BitVec w) : String :=
  String.ofList ((fixedDigits 16 (w / 4) v.toNat).map (digitChar hexAlphabet))

/-- The value of a base 32 character, of either case. -/
def crockfordValue (c : Char) : Option Nat :=
  let i := crockfordAlphabet.idxOf c.toUpper
  if i < 32 then some i else none

/-- Parse a ULID (`Ulid::from_string`): 26 valid characters, with bits beyond 128 dropped. -/
def parseUlid (s : String) : Option Ulid :=
  if s.toList.length = 26 then
    (s.toList.mapM crockfordValue).map fun ds => BitVec.ofNat 128 (ofFixedDigits 32 ds)
  else none

/-- The value of a hexadecimal digit, of either case. -/
def hexValue (c : Char) : Option Nat :=
  let i := hexAlphabet.idxOf c.toLower
  if i < 16 then some i else none

/-- The byte of two characters (`u8::from_str_radix`, which accepts a plus sign). -/
def parseHexByte (a b : Char) : Option Nat :=
  if a = '+' then hexValue b
  else (hexValue a).bind fun x => (hexValue b).map fun y => x * 16 + y

/-- The bytes of a text, two characters each; `none` stands for a pair that is not a byte. -/
def hexPairs : List Char → List (Option Nat)
  | a :: b :: rest => parseHexByte a b :: hexPairs rest
  | _ => []

/-- The array of `w` bits that a hexadecimal text of the right length stands for. -/
def parseHexArray (w : Nat) (s : String) : Option (BitVec w) :=
  if s.toList.length * 4 = w then
    ((hexPairs s.toList).mapM id).map fun ds => BitVec.ofNat w (ofFixedDigits 256 ds)
  else none

/-- Reading the pairs of a text as slices of two bytes panics: after pairs that are bytes comes a
slice that ends inside a character. -/
def hexSlicesPanic : List Char → Bool
  | a :: b :: rest =>
    if a.utf8Size = 1 then
      if b.utf8Size = 1 then (parseHexByte a b).isSome && hexSlicesPanic rest else true
    else a.utf8Size ≠ 2
  | [a] => a.utf8Size ≠ 2
  | [] => false

/-- Parsing a text as `len` hexadecimal digits panics; other lengths are not sliced. -/
def parseHexPanics (len : Nat) (s : String) : Bool :=
  s.utf8ByteSize = len && hexSlicesPanic s.toList

/-- The user of a text whose pairs are read as bytes, those that are not as zero. -/
def hexUserBytes (s : String) : Key :=
  if s.toList.length = 64 then
    BitVec.ofNat 256 (ofFixedDigits 256 ((hexPairs s.toList).map fun d => d.getD 0))
  else 0

/-- A digit text determines its number when the characters of the alphabet are distinct. -/
theorem digitText_inj {alphabet : List Char} {b len n m : Nat} (hb : 0 < b)
    (hdigit : ∀ d < b, alphabet.idxOf (digitChar alphabet d) = d) (hn : n < b ^ len)
    (hm : m < b ^ len)
    (h : String.ofList ((fixedDigits b len n).map (digitChar alphabet)) =
      String.ofList ((fixedDigits b len m).map (digitChar alphabet))) : n = m :=
  map_fixedDigits_inj (g := fun c => alphabet.idxOf c) hb hdigit hn hm
    (String.ofList_injective h)

theorem ulidText_injective : Function.Injective ulidText := by
  intro a b h
  have hrange : ∀ u : Ulid, u.toNat < 32 ^ 26 := fun u => u.isLt.trans (by norm_num)
  exact BitVec.eq_of_toNat_eq
    (digitText_inj (by norm_num) (by decide) (hrange a) (hrange b) h)

/-- Digits that are read back one by one are read back together. -/
theorem mapM_digitChar {alphabet : List Char} {read : Char → Option Nat} {b : Nat}
    (hdigit : ∀ d < b, read (digitChar alphabet d) = some d) {ds : List Nat}
    (hds : ∀ d ∈ ds, d < b) : (ds.map (digitChar alphabet)).mapM read = some ds := by
  induction ds with
  | nil => rfl
  | cons d ds ih =>
    rw [List.map_cons, List.mapM_cons, hdigit d (hds d List.mem_cons_self),
      ih fun d' hd' => hds d' (List.mem_cons_of_mem d hd')]
    rfl

/-- The text of a ULID is parsed back. -/
theorem parseUlid_ulidText (u : Ulid) : parseUlid (ulidText u) = some u := by
  have hdigit : ∀ d < 32, crockfordValue (digitChar crockfordAlphabet d) = some d := by decide
  have hrange : u.toNat < 32 ^ 26 := u.isLt.trans (by norm_num)
  unfold parseUlid ulidText
  rw [String.toList_ofList, List.length_map, length_fixedDigits, if_pos rfl,
    mapM_digitChar hdigit fun d hd => fixedDigits_lt (by norm_num) hd, Option.map_some,
    ofFixedDigits_fixedDigits, Nat.mod_eq_of_lt hrange, BitVec.ofNat_toNat, BitVec.setWidth_eq]

theorem hexText_injective : Function.Injective hexText := by
  intro a b h
  have hrange : ∀ k : Key, k.toNat < 16 ^ 64 := fun k => k.isLt.trans_eq (by norm_num)
  exact BitVec.eq_of_toNat_eq
    (digitText_inj (by norm_num) (by decide) (hrange a) (hrange b) h)

/-! ### Texts that are hexadecimal -/

/-- The text consists of hexadecimal digits, of either case, and they write the array. -/
def IsHexOf {w : Nat} (s : String) (v : BitVec w) : Prop :=
  s.toList.length * 4 = w ∧
    ∃ ds, s.toList.mapM hexValue = some ds ∧ v = BitVec.ofNat w (ofFixedDigits 16 ds)

theorem hexValue_plus : hexValue '+' = none := by decide

/-- Without a plus sign, the pairs of a text are bytes exactly when its characters are digits. -/
theorem mapM_hexPairs (hplus : '+' ∉ cs) (hlen : 2 ∣ cs.length) :
    (hexPairs cs).mapM id = (cs.mapM hexValue).map (pairDigits 16) := by
  induction cs using hexPairs.induct with
  | case1 a b rest ih =>
    rw [List.length_cons, List.length_cons] at hlen
    have hrest := ih (fun h => hplus (by simp [h])) (by omega)
    have ha : a ≠ '+' := fun h => hplus (by simp [h])
    rw [hexPairs, List.mapM_cons, List.mapM_cons, List.mapM_cons, hrest, parseHexByte, if_neg ha]
    cases hexValue a with
    | none => rfl
    | some x =>
      cases hexValue b with
      | none => rfl
      | some y => cases rest.mapM hexValue <;> rfl
  | case2 cs hshort =>
    match cs with
    | [] => rfl
    | [x] => simp at hlen
    | x :: y :: rest => exact absurd rfl (hshort x y rest)

theorem of_mapM_hexValue {ds : List Nat} (h : cs.mapM hexValue = some ds) :
    ds.length = cs.length ∧ '+' ∉ cs := by
  induction cs generalizing ds with
  | nil => cases h; simp
  | cons c cs ih =>
    rw [List.mapM_cons] at h
    obtain ⟨x, hx, h⟩ := Option.bind_eq_some_iff.mp h
    obtain ⟨rest, hrest, h⟩ := Option.bind_eq_some_iff.mp h
    cases h
    obtain ⟨hlen, hplus⟩ := ih hrest
    refine ⟨by rw [List.length_cons, List.length_cons, hlen], ?_⟩
    rw [List.mem_cons, not_or]
    refine ⟨?_, hplus⟩
    rintro rfl
    rw [hexValue_plus] at hx
    cases hx

/-- The parser accepts hexadecimal texts, and beyond them only texts with a plus sign for the
first digit of a byte. -/
theorem isHexOf_iff (hw : 8 ∣ w) {s : String} {v : BitVec w} :
    IsHexOf s v ↔ parseHexArray w s = some v ∧ '+' ∉ s.toList := by
  unfold parseHexArray IsHexOf
  constructor
  · rintro ⟨hlen, ds, hds, rfl⟩
    obtain ⟨hds', hplus⟩ := of_mapM_hexValue hds
    have hvalue : ofFixedDigits 256 (pairDigits 16 ds) = ofFixedDigits 16 ds :=
      ofFixedDigits_pairDigits (b := 16) (by omega)
    refine ⟨?_, hplus⟩
    rw [if_pos hlen, mapM_hexPairs hplus (by omega), hds, Option.map_some, Option.map_some, hvalue]
  · rintro ⟨h, hplus⟩
    split at h
    case isFalse => cases h
    case isTrue hlen =>
      rw [mapM_hexPairs hplus (by omega), Option.map_map] at h
      obtain ⟨ds, hds, rfl⟩ := Option.map_eq_some_iff.mp h
      obtain ⟨hds', -⟩ := of_mapM_hexValue hds
      exact ⟨hlen, ds, hds, congrArg _ (ofFixedDigits_pairDigits (b := 16) (by omega))⟩

/-- The text that `bytes_to_hex` writes is hexadecimal and writes the array. -/
theorem isHexOf_bytesToHex (hw : 8 ∣ w) (v : BitVec w) : IsHexOf (bytesToHex v) v := by
  have hdigit : ∀ d < 16, hexValue (digitChar hexAlphabet d) = some d := by decide
  have hpow : 16 ^ (w / 4) = 2 ^ w := by
    rw [show (16 : Nat) = 2 ^ 4 from rfl, ← pow_mul]
    congr 1
    omega
  unfold IsHexOf bytesToHex
  rw [String.toList_ofList]
  refine ⟨by rw [List.length_map, length_fixedDigits]; omega, _,
    mapM_digitChar hdigit fun d hd => fixedDigits_lt (by norm_num) hd, ?_⟩
  rw [ofFixedDigits_fixedDigits, hpow, Nat.mod_eq_of_lt v.isLt, BitVec.ofNat_toNat,
    BitVec.setWidth_eq]

/-! ## Identifiers -/

structure CommunityId where
  ulid : Ulid
  deriving DecidableEq, Repr

structure ChannelId where
  ulid : Ulid
  deriving DecidableEq, Repr

structure MessageId where
  ulid : Ulid
  deriving DecidableEq, Repr

/-- A user: the SHA-256 hash of the user's Ed25519 verifying key. -/
structure UserId where
  bytes : Key
  deriving DecidableEq, Repr

def CommunityId.text (c : CommunityId) : String := ulidText c.ulid

def ChannelId.text (c : ChannelId) : String := ulidText c.ulid

def MessageId.text (m : MessageId) : String := ulidText m.ulid

def UserId.text (u : UserId) : String := hexText u.bytes

theorem CommunityId.text_injective : Function.Injective CommunityId.text := fun a b h => by
  cases a; cases b; exact congrArg CommunityId.mk (ulidText_injective h)

theorem UserId.text_injective : Function.Injective UserId.text := fun a b h => by
  cases a; cases b; exact congrArg UserId.mk (hexText_injective h)

end BitCord
