import BitCord.ChannelLog
import BitCord.Rpc.Dm
import BitCord.Sample

/-!
# Files at rest

The identity of a node is a file sealed under a key derived from the passphrase. The tables of the
application state and the values of the store are sealed under a second key, derived from the same
passphrase with a salt of its own. Changing the passphrase writes the first file only
(`passphrase_change_keeps_iff`).

A file is written in place, so a process that is killed meanwhile leaves a part of it
(`save_killed_cases`).
-/

namespace BitCord

open Lib

variable {p raw : Bytes} {st : NodeStore} {key' : Option Key} {k salt signingKey : Key}
  {passphrase : String} {nonce : Nonce}

/-! ## Encryption -/

variable {α : Type}

variable {drawn : Key} {v : Stored α}

section

variable (P : Prims)

/-- `encrypt_bytes`, with the drawn nonce. -/
def encryptBytes (nonce : Nonce) (data : Bytes) (key : Key) : Bytes :=
  toBytes nonce ++ P.aeadSeal key nonce data

/-- `decrypt_bytes`. -/
def decryptBytes (blob : Bytes) (key : Key) : Option Bytes :=
  if blob.length < 24 then none
  else (tryIntoArray 192 (blob.take 24)).bind fun nonce => P.aeadOpen key nonce (blob.drop 24)

theorem decryptBytes_encryptBytes {P : Prims} (hP : P.Lawful) (nonce : Nonce) (data : Bytes)
    (key : Key) : decryptBytes P (encryptBytes P nonce data key) key = some data := by
  have hlen : ¬ (encryptBytes P nonce data key).length < 24 := by
    simp [encryptBytes]
  unfold decryptBytes
  rw [if_neg hlen, encryptBytes, List.take_left' (by simp), List.drop_left' (by simp),
    tryIntoArray_toBytes (by decide), Option.bind_some, hP.aeadOpen_seal]

/-- `derive_table_key` and `derive_key`: Argon2id of the passphrase and a salt, with the same
parameters. -/
def deriveKey (argon2 : Bytes → Key → Key) (passphrase : String) (salt : Key) : Key :=
  argon2 (utf8 passphrase) salt

/-! ## Tables -/

/-- The files that `AppState::new` loads its tables from. -/
inductive TableFile where
  | communities
  | channels
  | channelKeys
  | previousChannelKeys
  | dms
  | members
  | bans
  | readState
  | hostingPasswords
  | seedFingerprints
  | dmPeers
  deriving DecidableEq

abbrev TableFile.Row : TableFile → Type
  | .communities => SignedManifest
  | .channels => ChannelManifest
  | .channelKeys => Key
  | .previousChannelKeys => Key
  | .dms => List DmMessageInfo
  | .members => Dict String MembershipRecord
  | .bans => List String
  | .readState => UInt64
  | .hostingPasswords => String
  | .seedFingerprints => Key
  | .dmPeers => DmPeerInfo

/-- The JSON encoding of a table. -/
structure TableCodec (α : Type) where
  toVec : Dict String α → Bytes
  fromSlice : Bytes → Option (Dict String α)

section

variable {α : Type} (codec : TableCodec α)

/-- `load_table`, on what reading the file gives. -/
def loadTable (file : Option Bytes) (encryptionKey : Option Key) : Dict String α :=
  match file with
  | none => ∅
  | some raw =>
    match encryptionKey with
    | some key =>
      match decryptBytes P raw key with
      | some json => (codec.fromSlice json).getD ∅
      -- a file from before the tables were encrypted
      | none => (codec.fromSlice raw).getD ∅
    | none => (codec.fromSlice raw).getD ∅

theorem loadTable_opened {json : Bytes} {key : Key} (h : decryptBytes P raw key = some json) :
    loadTable P codec (some raw) (some key) = (codec.fromSlice json).getD ∅ := by
  unfold loadTable
  dsimp only
  rw [h]

theorem loadTable_unopened {key : Key} (h : decryptBytes P raw key = none) :
    loadTable P codec (some raw) (some key) = (codec.fromSlice raw).getD ∅ := by
  unfold loadTable
  dsimp only
  rw [h]

/-- The bytes that `save_table` writes, with the drawn nonce. -/
def saveTable (nonce : Nonce) (data : Dict String α) (encryptionKey : Option Key) : Bytes :=
  match encryptionKey with
  | some key => encryptBytes P nonce (codec.toVec data) key
  | none => codec.toVec data

/-- A table that was saved loads as what its encoding decodes to. -/
theorem loadTable_saveTable {P : Prims} {codec : TableCodec α} (hP : P.Lawful) (nonce : Nonce)
    (data : Dict String α) (key : Option Key) :
    loadTable P codec (some (saveTable P codec nonce data key)) key =
      (codec.fromSlice (codec.toVec data)).getD ∅ := by
  cases key with
  | none => rfl
  | some key => exact loadTable_opened P codec (decryptBytes_encryptBytes hP nonce _ key)

end

/-! ## The identity -/

inductive KeystoreError where
  | read
  | tooShort
  | decryption
  | length
  deriving DecidableEq

namespace KeyStore

variable (argon2 : Bytes → Key → Key)

/-- The bytes that `KeyStore::save` writes, with the drawn salt and nonce. -/
def save (salt : Key) (nonce : Nonce) (signingKey : Key) (passphrase : String) : Bytes :=
  toBytes salt ++ toBytes nonce ++
    P.aeadSeal (deriveKey argon2 passphrase salt) nonce (toBytes signingKey)

/-- Open the sealed part of the file under the key of the passphrase and the salt in front. -/
def decrypt (data : Bytes) (passphrase : String) : Option Bytes := do
  let salt ← tryIntoArray 256 (data.take 32)
  let nonce ← tryIntoArray 192 ((data.drop 32).take 24)
  P.aeadOpen (deriveKey argon2 passphrase salt) nonce (data.drop 56)

/-- `KeyStore::load`, on what reading the file gives. -/
def load (file : Option Bytes) (passphrase : String) : Except KeystoreError Key :=
  match file with
  | none => .error .read
  | some data =>
    if data.length < 56 then .error .tooShort
    else
      match decrypt P argon2 data passphrase with
      | none => .error .decryption
      | some plain =>
        match tryIntoArray 256 plain with
        | some signingKey => .ok signingKey
        | none => .error .length

variable {P argon2}

/-- What is decrypted when the sealed part is anything. -/
theorem decrypt_append (salt : Key) (nonce : Nonce) (rest : Bytes) (passphrase : String) :
    decrypt P argon2 (toBytes salt ++ toBytes nonce ++ rest) passphrase =
      P.aeadOpen (deriveKey argon2 passphrase salt) nonce rest := by
  unfold decrypt
  rw [take_key, take_drop_nonce, drop_key_nonce, tryIntoArray_toBytes (by decide),
    tryIntoArray_toBytes (by decide)]
  rfl

theorem load_save (hP : P.Lawful) (salt : Key) (nonce : Nonce) (signingKey : Key)
    (passphrase : String) :
    load P argon2 (some (save P argon2 salt nonce signingKey passphrase)) passphrase =
      .ok signingKey := by
  have hlen : ¬ (save P argon2 salt nonce signingKey passphrase).length < 56 := by
    simp [save]
    omega
  unfold load
  dsimp only
  rw [if_neg hlen, save, decrypt_append, hP.aeadOpen_seal]
  dsimp only
  rw [tryIntoArray_toBytes (by decide)]

end KeyStore

/-! ## Starting a node -/

/-- What a node keeps on disk: the identity, the salt of the second key, the tables and the
database of the store. -/
structure Disk where
  keystore : Option Bytes
  salt : Option Bytes
  tables : TableFile → Option Bytes
  store : NodeStore

/-- `NodeStore::open` on a database that is there. -/
def NodeStore.reopen (st : NodeStore) (key : Option Key) : NodeStore := { st with key }

/-- `load_or_create_salt`: a file of another length is an error. -/
def loadOrCreateSalt (drawn : Key) (file : Option Bytes) : Option Key :=
  match file with
  | some data => tryIntoArray 256 data
  | none => some drawn

/-- A start fails because the identity does not load, or panics on the salt. -/
inductive StartError where
  | keystore (e : KeystoreError)
  | salt
  deriving DecidableEq

/-- What a started node read. -/
structure Started where
  signingKey : Key
  tables : (t : TableFile) → Dict String t.Row
  store : NodeStore

section

variable (argon2 : Bytes → Key → Key) (codec : (t : TableFile) → TableCodec t.Row)

/-- The key of the tables and of the store in `init_node`; an empty passphrase is none. -/
def encryptionKey (drawn : Key) (salt : Option Bytes) (passphrase : String) :
    Option (Option Key) :=
  if passphrase = "" then some none
  else (loadOrCreateSalt drawn salt).map fun salt => some (deriveKey argon2 passphrase salt)

def tableKey (salt : Key) (passphrase : String) : Option Key :=
  if passphrase = "" then none else some (deriveKey argon2 passphrase salt)

theorem encryptionKey_toBytes (drawn salt : Key) (passphrase : String) :
    encryptionKey argon2 drawn (some (toBytes salt)) passphrase =
      some (tableKey argon2 salt passphrase) := by
  have hread : loadOrCreateSalt drawn (some (toBytes salt)) = some salt :=
    tryIntoArray_toBytes (by decide) salt
  unfold encryptionKey tableKey
  rw [hread]
  split <;> rfl

def Disk.contents (disk : Disk) (signingKey : Key) (key : Option Key) : Started :=
  ⟨signingKey, fun t => loadTable P (codec t) (disk.tables t) key, disk.store.reopen key⟩

/-- A start with a passphrase: `KeyStore::load`, then `init_node`, which opens the store and loads
the tables. -/
def Disk.start (disk : Disk) (drawn : Key) (passphrase : String) : Except StartError Started :=
  match KeyStore.load P argon2 disk.keystore passphrase with
  | .error e => .error (.keystore e)
  | .ok signingKey =>
    match encryptionKey argon2 drawn disk.salt passphrase with
    | none => .error .salt
    | some key => .ok (disk.contents P codec signingKey key)

end

structure ChangePassphraseParams where
  oldPassphrase : String
  newPassphrase : String

/-- `identity_change_passphrase`: the keystore is written again, and nothing else. -/
def identityChangePassphrase (argon2 : Bytes → Key → Key) (env : Env) (signingKey : Key)
    (disk : Disk) (p : ChangePassphraseParams) : Disk × Except RpcError RpcReply :=
  if (utf8 p.newPassphrase).length < 8 then
    (disk, .error (invalidParams "new passphrase must be at least 8 characters"))
  else
    match KeyStore.load P argon2 disk.keystore p.oldPassphrase with
    | .error _ => (disk, .error (invalidParams "incorrect current passphrase"))
    | .ok _ =>
      ({ disk with
        keystore := some (KeyStore.save P argon2 (env.key 0) (env.nonce 0) signingKey
          p.newPassphrase) }, .ok .done)

/-! ## What the store reads under another key -/

variable {env : Env}

namespace NodeStore

/-- All values of the store are sealed under the key. -/
structure SealedUnder (st : NodeStore) (key : Option Key) : Prop where
  log : ∀ e ∈ st.log.entries, e.2.sealedUnder = key
  mail : ∀ e ∈ st.mail.entries, e.2.sealedUnder = key
  metas : ∀ e ∈ st.metas.entries, e.2.sealedUnder = key

/-- Every read gives the same. -/
structure SameReads (st st' : NodeStore) : Prop where
  messages : ∀ cpk ch since, st'.getMessages cpk ch since = st.getMessages cpk ch since
  dms : ∀ pk since, st'.getDms pk since = st.getDms pk since
  communityMeta : ∀ pk, st'.getCommunityMeta pk = st.getCommunityMeta pk

/-- The store has no entries. -/
structure IsEmpty (st : NodeStore) : Prop where
  log : st.log.entries = []
  mail : st.mail.entries = []
  metas : st.metas.entries = []

variable {key : Option Key}

theorem read_reopen_self (st : NodeStore) (h : v.sealedUnder = key) (context : String) :
    (st.reopen key).read context v ≠ .error .decrypt := by
  unfold read reopen
  rw [if_pos h]
  cases v.value <;> simp

theorem read_reopen_other (h : v.sealedUnder = key) (hne : key' ≠ key) (context : String) :
    (st.reopen key').read context v = .error .decrypt := by
  unfold read reopen
  rw [if_neg fun heq => hne (heq.symm.trans h)]

/-- A traversal that fails has failed on an element. -/
theorem exists_of_mapM_error {α β ε : Type} {f : α → Except ε β} {xs : List α} {e : ε}
    (h : xs.mapM f = .error e) : ∃ x ∈ xs, f x = .error e := by
  induction xs with
  | nil => cases h
  | cons x xs ih =>
    rw [List.mapM_cons] at h
    cases hx : f x with
    | error e' =>
      rw [hx] at h
      cases h
      exact ⟨x, List.mem_cons_self, hx⟩
    | ok y =>
      cases hxs : xs.mapM f with
      | error e' =>
        rw [hx, hxs] at h
        cases h
        obtain ⟨x', hmem, hx'⟩ := ih hxs
        exact ⟨x', List.mem_cons_of_mem x hmem, hx'⟩
      | ok ys =>
        rw [hx, hxs] at h
        cases h

/-- A list of sealed values reads the same under another key only if it is empty. -/
theorem mapM_read_eq_iff {κ α : Type} {l : List (κ × Stored α)}
    (hl : ∀ e ∈ l, e.2.sealedUnder = key) (hne : key' ≠ key) (context : String) :
    (l.mapM fun e => (st.reopen key').read context e.2) =
        (l.mapM fun e => (st.reopen key).read context e.2) ↔ l = [] := by
  constructor
  · intro heq
    cases l with
    | nil => rfl
    | cons e l =>
      rw [List.mapM_cons, read_reopen_other (hl e List.mem_cons_self) hne] at heq
      obtain ⟨e', hmem, herror⟩ := exists_of_mapM_error heq.symm
      exact absurd herror (read_reopen_self st (hl e' hmem) context)
  · rintro rfl
    rfl

theorem exists_logKey (k : LogKey) : ∃ cpk ch seq, k = logKey cpk ch seq := by
  refine ⟨BitVec.ofNat 256 (k.toNat / 2 ^ 192), BitVec.ofNat 128 (k.toNat / 2 ^ 64), seqOf k,
    BitVec.eq_of_toNat_eq ?_⟩
  have hk := k.isLt
  have hseq : (seqOf k).toNat = k.toNat % 2 ^ 64 := by
    simp [seqOf]
  rw [logKey_toNat, hseq, BitVec.toNat_ofNat, BitVec.toNat_ofNat]
  omega

theorem exists_mailKey (k : MailKey) : ∃ pk seq, k = mailKey pk seq ∧ k ≤ mailKey pk maxSeq := by
  refine ⟨BitVec.ofNat 256 (k.toNat / 2 ^ 64), .ofBitVec (k.truncate 64), ?_, ?_⟩
  · refine BitVec.eq_of_toNat_eq ?_
    have hk := k.isLt
    unfold mailKey
    rw [append_toNat, BitVec.toNat_ofNat]
    simp
    omega
  · have hk := k.isLt
    have hmax : maxSeq.toBitVec.toNat = 2 ^ 64 - 1 := rfl
    rw [BitVec.le_def, mailKey, append_toNat, BitVec.toNat_ofNat, hmax]
    omega

theorem getMessages_reopen (st : NodeStore) (key : Option Key) (cpk : Key) (ch : Ulid)
    (since : UInt64) :
    (st.reopen key).getMessages cpk ch since =
      (st.channelRange cpk ch since).mapM fun e => (st.reopen key).read "decode LogEntry" e.2 :=
  rfl

theorem getDms_reopen (st : NodeStore) (key : Option Key) (pk : Key) (since : UInt64) :
    (st.reopen key).getDms pk since =
      (st.mailRange pk since).mapM fun e => (st.reopen key).read "decode LogEntry" e.2 :=
  rfl

theorem getCommunityMeta_reopen {pk : Key} {v : Stored CommunityMeta}
    (h : st.metas.get pk = some v) (key : Option Key) :
    (st.reopen key).getCommunityMeta pk =
      ((st.reopen key).read "decode CommunityMeta" v).map some := by
  unfold getCommunityMeta
  rw [show (st.reopen key).metas.get pk = some v from h]

theorem sameReads_reopen_iff (h : st.SealedUnder key) :
    (st.reopen key).SameReads (st.reopen key') ↔ key' = key ∨ st.IsEmpty := by
  constructor
  · intro hsame
    refine or_iff_not_imp_left.mpr fun hne => ⟨?_, ?_, ?_⟩
    · refine List.eq_nil_iff_forall_not_mem.mpr fun e he => ?_
      obtain ⟨cpk, ch, seq, hkey⟩ := exists_logKey e.1
      have hrange : e ∈ st.channelRange cpk ch seq := by
        refine OrdMap.mem_range.mpr ⟨he, hkey ▸ BitVec.le_refl _, ?_⟩
        rw [hkey, logKey_le_iff]
        exact le_maxSeq seq
      have hnil : st.channelRange cpk ch seq = [] :=
        (mapM_read_eq_iff (fun e' he' => h.log e' (OrdMap.mem_range.mp he').1) hne _).mp
          (hsame.messages cpk ch seq)
      rw [hnil] at hrange
      cases hrange
    · refine List.eq_nil_iff_forall_not_mem.mpr fun e he => ?_
      obtain ⟨pk, seq, hkey, hle⟩ := exists_mailKey e.1
      have hrange : e ∈ st.mailRange pk seq :=
        OrdMap.mem_range.mpr ⟨he, hkey ▸ BitVec.le_refl _, hle⟩
      have hnil : st.mailRange pk seq = [] :=
        (mapM_read_eq_iff (fun e' he' => h.mail e' (OrdMap.mem_range.mp he').1) hne _).mp
          (hsame.dms pk seq)
      rw [hnil] at hrange
      cases hrange
    · refine List.eq_nil_iff_forall_not_mem.mpr fun e he => ?_
      have hget : st.metas.get e.1 = some e.2 := OrdMap.get_eq_some_iff.mpr he
      have heq := hsame.communityMeta e.1
      rw [getCommunityMeta_reopen hget, getCommunityMeta_reopen hget,
        read_reopen_other (h.metas e he) hne] at heq
      refine read_reopen_self st (h.metas e he) "decode CommunityMeta" ?_
      cases hread : (st.reopen key).read "decode CommunityMeta" e.2 with
      | ok m =>
        rw [hread] at heq
        cases heq
      | error err =>
        rw [hread] at heq
        cases heq
        rfl
  · rintro (rfl | hempty)
    · exact ⟨fun _ _ _ => rfl, fun _ _ => rfl, fun _ => rfl⟩
    · refine ⟨fun cpk ch since => ?_, fun pk since => ?_, fun pk => ?_⟩
      · have hnil : st.channelRange cpk ch since = [] := by
          simp [channelRange, OrdMap.range, hempty.log]
        rw [getMessages_reopen, getMessages_reopen, hnil]
        rfl
      · have hnil : st.mailRange pk since = [] := by
          simp [mailRange, OrdMap.range, hempty.mail]
        rw [getDms_reopen, getDms_reopen, hnil]
        rfl
      · have hnone : st.metas.get pk = none := by
          simp [OrdMap.get, hempty.metas]
        unfold getCommunityMeta
        rw [show (st.reopen key').metas.get pk = none from hnone,
          show (st.reopen key).metas.get pk = none from hnone]

end NodeStore

/-! ## Changing the passphrase -/

/-- The files do not open under another key, and what is sealed is no JSON text. -/
structure Disk.ClosedTo (codec : (t : TableFile) → TableCodec t.Row) (disk : Disk)
    (key : Option Key) (other : Key) : Prop where
  decrypt : ∀ t raw, disk.tables t = some raw → decryptBytes P raw other = none
  json : ∀ t raw, disk.tables t = some raw → key ≠ none → (codec t).fromSlice raw = none

/-- The second start read the same tables and reads the same from the store. -/
structure Started.SameContent (a b : Started) : Prop where
  tables : ∀ t, b.tables t = a.tables t
  store : a.store.SameReads b.store

theorem Started.SameContent.refl (a : Started) : a.SameContent a :=
  ⟨fun _ => rfl, fun _ _ _ => rfl, fun _ _ => rfl, fun _ => rfl⟩

section

variable {P} {argon2 : Bytes → Key → Key} {codec : (t : TableFile) → TableCodec t.Row}
  {disk : Disk} {key : Option Key} {other : Key}

/-- Under another key, tables that were in plain text load as before and those that were sealed
load as empty. -/
theorem loadTable_other (h : disk.ClosedTo P codec key other) (t : TableFile) :
    loadTable P (codec t) (disk.tables t) (some other) =
      if key = none then loadTable P (codec t) (disk.tables t) none else ∅ := by
  by_cases hkey : key = none
  · rw [if_pos hkey]
    cases hfile : disk.tables t with
    | none => rfl
    | some raw => exact loadTable_unopened P (codec t) (h.decrypt t raw hfile)
  · rw [if_neg hkey]
    cases hfile : disk.tables t with
    | none => rfl
    | some raw =>
      rw [loadTable_unopened P (codec t) (h.decrypt t raw hfile), h.json t raw hfile hkey]
      rfl

/-- A node that starts with another key has the same tables only if they were in plain text or
empty. -/
theorem tables_same_iff (h : disk.ClosedTo P codec key other) :
    (∀ t, loadTable P (codec t) (disk.tables t) (some other) =
        loadTable P (codec t) (disk.tables t) key) ↔
      key = none ∨ ∀ t, loadTable P (codec t) (disk.tables t) key = ∅ := by
  by_cases hkey : key = none
  · subst hkey
    refine iff_of_true (fun t => ?_) (.inl rfl)
    rw [loadTable_other h, if_pos rfl]
  · constructor
    · intro hsame
      refine .inr fun t => ?_
      rw [← hsame t, loadTable_other h, if_neg hkey]
    · rintro (hnone | hempty) t
      · exact absurd hnone hkey
      · rw [hempty t, loadTable_other h, if_neg hkey]

/-- Under another key everything is the same only if nothing was sealed. -/
theorem sameContent_iff (hne : some other ≠ key)
    (hclosed : disk.ClosedTo P codec key other) (hstore : disk.store.SealedUnder key) :
    (disk.contents P codec signingKey key).SameContent
        (disk.contents P codec signingKey (some other)) ↔
      (key = none ∨ ∀ t, (disk.contents P codec signingKey key).tables t = ∅) ∧
        disk.store.IsEmpty := by
  have hreads : (disk.contents P codec signingKey key).store.SameReads
      (disk.contents P codec signingKey (some other)).store ↔ disk.store.IsEmpty :=
    (NodeStore.sameReads_reopen_iff hstore).trans (or_iff_right hne)
  constructor
  · rintro ⟨htables, hstore⟩
    exact ⟨(tables_same_iff hclosed).mp htables, hreads.mp hstore⟩
  · rintro ⟨htables, hempty⟩
    exact ⟨(tables_same_iff hclosed).mpr htables, hreads.mpr hempty⟩

theorem start_eq (hsalt : disk.salt = some (toBytes salt))
    (hload : KeyStore.load P argon2 disk.keystore passphrase = .ok signingKey) :
    disk.start P argon2 codec drawn passphrase =
      .ok (disk.contents P codec signingKey (tableKey argon2 salt passphrase)) := by
  unfold Disk.start
  rw [hload, hsalt, encryptionKey_toBytes]

theorem start_ok {started : Started}
    (h : disk.start P argon2 codec drawn passphrase = .ok started) :
    KeyStore.load P argon2 disk.keystore passphrase = .ok started.signingKey := by
  unfold Disk.start at h
  cases hload : KeyStore.load P argon2 disk.keystore passphrase with
  | error e =>
    rw [hload] at h
    cases h
  | ok signingKey =>
    rw [hload] at h
    dsimp only at h
    split at h
    · cases h
    · cases h
      rfl

/-- The files after the keystore is written again under another passphrase. -/
def Disk.resealed (disk : Disk) (P : Prims) (argon2 : Bytes → Key → Key) (env : Env)
    (signingKey : Key) (passphrase : String) : Disk :=
  { disk with
    keystore := some (KeyStore.save P argon2 (env.key 0) (env.nonce 0) signingKey passphrase) }

theorem identityChangePassphrase_eq {p : ChangePassphraseParams}
    (hlen : ¬ (utf8 p.newPassphrase).length < 8)
    (hload : KeyStore.load P argon2 disk.keystore p.oldPassphrase = .ok k) :
    identityChangePassphrase P argon2 env signingKey disk p =
      (disk.resealed P argon2 env signingKey p.newPassphrase, .ok .done) := by
  unfold identityChangePassphrase
  rw [if_neg hlen, hload]
  rfl

/-- A change that succeeds writes the keystore under a passphrase that is not empty. -/
theorem identityChangePassphrase_ok {p : ChangePassphraseParams} {reply : RpcReply}
    (h : (identityChangePassphrase P argon2 env signingKey disk p).2 = .ok reply) :
    p.newPassphrase ≠ "" ∧ (identityChangePassphrase P argon2 env signingKey disk p).1 =
      disk.resealed P argon2 env signingKey p.newPassphrase := by
  by_cases hlen : (utf8 p.newPassphrase).length < 8
  · unfold identityChangePassphrase at h
    rw [if_pos hlen] at h
    cases h
  · refine ⟨fun hempty => hlen ?_, ?_⟩
    · rw [hempty]
      decide
    · cases hload : KeyStore.load P argon2 disk.keystore p.oldPassphrase with
      | error e =>
        unfold identityChangePassphrase at h
        rw [if_neg hlen, hload] at h
        cases h
      | ok k => rw [identityChangePassphrase_eq hlen hload]

/-- A start after the change has the same files but the keystore. -/
theorem start_resealed (hP : P.Lawful) (hsalt : disk.salt = some (toBytes salt)) :
    (disk.resealed P argon2 env signingKey passphrase).start P argon2 codec drawn passphrase =
      .ok (disk.contents P codec signingKey (tableKey argon2 salt passphrase)) :=
  start_eq hsalt (KeyStore.load_save hP _ _ _ _)

/-- After a change of the passphrase a restart finds the same tables and the same store exactly
when the passphrase is the same, or when nothing was sealed: the store is empty, and the tables
are empty or were in plain text. -/
theorem passphrase_change_keeps_iff (redrawn : Key) {env : Env} {drawn salt : Key}
    {p : ChangePassphraseParams} {before : Started} {reply : RpcReply} (hP : P.Lawful)
    (hsalt : disk.salt = some (toBytes salt))
    (hbefore : disk.start P argon2 codec drawn p.oldPassphrase = .ok before)
    (hstore : disk.store.SealedUnder (tableKey argon2 salt p.oldPassphrase))
    (hchange : (identityChangePassphrase P argon2 env before.signingKey disk p).2 = .ok reply)
    (hargon : deriveKey argon2 p.oldPassphrase salt = deriveKey argon2 p.newPassphrase salt →
      p.oldPassphrase = p.newPassphrase)
    (hclosed : p.newPassphrase ≠ p.oldPassphrase →
      disk.ClosedTo P codec (tableKey argon2 salt p.oldPassphrase)
        (deriveKey argon2 p.newPassphrase salt)) :
    ∃ after, (identityChangePassphrase P argon2 env before.signingKey disk p).1.start P argon2 codec
        redrawn p.newPassphrase = .ok after ∧
      (before.SameContent after ↔ p.newPassphrase = p.oldPassphrase ∨
        ((p.oldPassphrase = "" ∨ ∀ t, before.tables t = ∅) ∧ disk.store.IsEmpty)) := by
  have hload := start_ok hbefore
  rw [start_eq hsalt hload] at hbefore
  obtain ⟨hnew, hdisk⟩ := identityChangePassphrase_ok hchange
  rw [hdisk]
  refine ⟨_, start_resealed hP hsalt, ?_⟩
  rw [← Except.ok.inj hbefore]
  by_cases hsame : p.newPassphrase = p.oldPassphrase
  · rw [hsame]
    exact iff_of_true (.refl _) (.inl rfl)
  · have hkeys : some (deriveKey argon2 p.newPassphrase salt) ≠
        tableKey argon2 salt p.oldPassphrase := by
      unfold tableKey
      split
      · exact fun h => by cases h
      · exact fun h => hsame (hargon (Option.some.inj h).symm).symm
    have hplain : tableKey argon2 salt p.oldPassphrase = none ↔ p.oldPassphrase = "" := by
      unfold tableKey
      split <;> simp_all
    have hkey : tableKey argon2 salt p.newPassphrase =
        some (deriveKey argon2 p.newPassphrase salt) := if_neg hnew
    rw [or_iff_right hsame, ← hplain, hkey]
    exact sameContent_iff hkeys (hclosed hsame) hstore

end

end

namespace Sample

/-- A key derivation without any cost. -/
def argon2 (passphrase : Bytes) (salt : Key) : Key := mix (passphrase ++ toBytes salt)

/-- The JSON text of a table of texts that need no escapes. -/
def jsonText (d : Dict String String) : String :=
  "\x7b" ++ ",".intercalate (d.entries.map fun e => "\"" ++ e.1 ++ "\":\"" ++ e.2 ++ "\"") ++
    "\x7d"

def passwords : Dict String String := Dict.insertAll [(community.text, "secret")] ∅

/-- The encoding of the table, for evaluations in which it has these passwords or none. -/
def passwordCodec : TableCodec String where
  toVec d := utf8 (jsonText d)
  fromSlice b :=
    if b = utf8 (jsonText passwords) then some passwords
    else if b = utf8 "\x7b\x7d" then some ∅ else none

theorem fromSlice_toVec :
    passwordCodec.fromSlice (passwordCodec.toVec passwords) = some passwords := by
  unfold passwordCodec
  dsimp only
  rw [if_pos rfl]

def codec : (t : TableFile) → TableCodec t.Row
  | .hostingPasswords => passwordCodec
  | _ => ⟨fun _ => utf8 "\x7b\x7d", fun b => if b = utf8 "\x7b\x7d" then some ∅ else none⟩

def savedPasswords (passphrase : String) : Bytes :=
  saveTable (prims [] []) passwordCodec 6 passwords (tableKey argon2 9 passphrase)

def disk (passphrase : String) : Disk where
  keystore := some (KeyStore.save (prims [] []) argon2 8 7 30 passphrase)
  salt := some (toBytes (9 : Key))
  tables
    | .hostingPasswords => some (savedPasswords passphrase)
    | _ => none
  store := NodeStore.create (tableKey argon2 9 passphrase)

def changeParams (passphrase : String) : ChangePassphraseParams := ⟨passphrase, "new passphrase"⟩

/-- What a start reads from these files with a passphrase. -/
def opened (disk : Disk) (passphrase : String) : Started :=
  disk.contents (prims [] []) codec 30 (tableKey argon2 9 passphrase)

theorem opened_passwords (passphrase other : String) :
    (opened (disk passphrase) other).tables .hostingPasswords =
      loadTable (prims [] []) passwordCodec (some (savedPasswords passphrase))
        (tableKey argon2 9 other) := rfl

theorem disk_start (passphrase : String) :
    (disk passphrase).start (prims [] []) argon2 codec 0 passphrase =
      .ok (opened (disk passphrase) passphrase) :=
  start_eq rfl (KeyStore.load_save (prims_lawful [] []) _ _ _ _)

/-- The files after the change. -/
def resealed (passphrase : String) : Disk :=
  (disk passphrase).resealed (prims [] []) argon2 env 30 "new passphrase"

theorem disk_change (passphrase : String) :
    identityChangePassphrase (prims [] []) argon2 env 30 (disk passphrase)
      (changeParams passphrase) = (resealed passphrase, .ok .done) := by
  have hlen : ¬ (utf8 "new passphrase").length < 8 := by decide +kernel
  exact identityChangePassphrase_eq hlen (KeyStore.load_save (prims_lawful [] []) _ _ _ _)

/-- After a change of the passphrase and a restart the password is gone. -/
theorem password_lost :
    (disk "passphrase").start (prims [] []) argon2 codec 0 "passphrase" =
      .ok (opened (disk "passphrase") "passphrase") ∧
    identityChangePassphrase (prims [] []) argon2 env 30 (disk "passphrase")
      (changeParams "passphrase") = (resealed "passphrase", .ok .done) ∧
    (resealed "passphrase").start (prims [] []) argon2 codec 0 "new passphrase" =
      .ok (opened (disk "passphrase") "new passphrase") ∧
    ¬ (opened (disk "passphrase") "passphrase").SameContent
      (opened (disk "passphrase") "new passphrase") := by
  refine ⟨disk_start _, disk_change _, start_resealed (prims_lawful [] []) rfl, fun h => ?_⟩
  have hclosed : decryptBytes (prims [] []) (savedPasswords "passphrase")
      (deriveKey argon2 "new passphrase" 9) = none := by decide +kernel
  have hsealed : passwordCodec.fromSlice (savedPasswords "passphrase") = none := by
    have hother : savedPasswords "passphrase" ≠ utf8 (jsonText passwords) := by decide +kernel
    have hempty : savedPasswords "passphrase" ≠ utf8 "\x7b\x7d" := by decide +kernel
    unfold passwordCodec
    dsimp only
    rw [if_neg hother, if_neg hempty]
  have hkey : tableKey argon2 9 "new passphrase" = some (deriveKey argon2 "new passphrase" 9) :=
    if_neg (by decide)
  have hbefore :
      (opened (disk "passphrase") "passphrase").tables .hostingPasswords = passwords := by
    rw [opened_passwords, savedPasswords, loadTable_saveTable (prims_lawful [] []), fromSlice_toVec]
    rfl
  have hafter : (opened (disk "passphrase") "new passphrase").tables .hostingPasswords = ∅ := by
    rw [opened_passwords, hkey, loadTable_unopened _ _ hclosed, hsealed]
    rfl
  have htables := congrArg (AList.lookup community.text) (h.tables .hostingPasswords)
  rw [hbefore, hafter] at htables
  have hpassword : passwords.lookup community.text = some "secret" := AList.lookup_insert _
  rw [hpassword] at htables
  cases htables

/-- A node without a passphrase keeps its tables when it gets one. -/
theorem first_passphrase_keeps :
    (opened (disk "") "").SameContent (opened (disk "") "new passphrase") := by
  have hstore : (disk "").store.SealedUnder (tableKey argon2 9 "") :=
    ⟨fun _ he => (by cases he), fun _ he => (by cases he), fun _ he => (by cases he)⟩
  have hclosed : (disk "").ClosedTo (prims [] []) codec (tableKey argon2 9 "")
      (deriveKey argon2 "new passphrase" 9) := by
    refine ⟨fun t raw hraw => ?_, fun _ _ _ hkey => absurd rfl hkey⟩
    cases t <;> cases hraw
    decide +kernel
  have hargon : deriveKey argon2 "" 9 ≠ deriveKey argon2 "new passphrase" 9 := by decide +kernel
  have hbefore : (opened (disk "") "").signingKey = 30 := rfl
  have hchange := congrArg Prod.snd (disk_change "")
  rw [← hbefore] at hchange
  obtain ⟨after, hafter, hiff⟩ := passphrase_change_keeps_iff 0 (p := changeParams "")
    (prims_lawful [] []) rfl (disk_start "") hstore hchange (fun h => absurd h hargon)
    (fun _ => hclosed)
  rw [hbefore, disk_change] at hafter
  have hresealed : (resealed "").start (prims [] []) argon2 codec 0 "new passphrase" =
      .ok (opened (disk "") "new passphrase") := start_resealed (prims_lawful [] []) rfl
  rw [Except.ok.inj (hresealed.symm.trans hafter)]
  exact hiff.mpr (.inr ⟨.inl rfl, rfl, rfl, rfl⟩)

end Sample

/-! ## Writing a file in place -/

/-- The contents of a file while `std::fs::write` runs: as before, then truncated, then with one
more chunk each time. -/
def writeStates (old : Option Bytes) (chunks : List Bytes) : List (Option Bytes) :=
  old :: chunks.inits.map fun written => some written.flatten

/-- A proper prefix: what is left when the write stops before the last byte. -/
def CutShort (new p : Bytes) : Prop := p <+: new ∧ p ≠ new

/-- A file that is written in place is as before, whole, or cut short. -/
theorem of_mem_writeStates {old x : Option Bytes} {chunks : List Bytes}
    (h : x ∈ writeStates old chunks) :
    x = old ∨ x = some chunks.flatten ∨ ∃ p, x = some p ∧ CutShort chunks.flatten p := by
  rcases List.mem_cons.mp h with hold | hwritten
  · exact .inl hold
  · obtain ⟨written, hmem, rfl⟩ := List.mem_map.mp hwritten
    obtain ⟨rest, rfl⟩ := (List.mem_inits _ _).mp hmem
    by_cases hwhole : written.flatten = (written ++ rest).flatten
    · exact .inr (.inl (congrArg some hwhole))
    · refine .inr (.inr ⟨_, rfl, ?_, hwhole⟩)
      rw [List.flatten_append]
      exact List.prefix_append _ _

/-- A text that is cut short after its first part is that part and a cut of the second. -/
theorem CutShort.of_append {a b : Bytes} (h : CutShort (a ++ b) p) (hlen : a.length ≤ p.length) :
    ∃ c, p = a ++ c ∧ CutShort b c := by
  obtain ⟨⟨t, ht⟩, hne⟩ := h
  have ha : a <+: p := List.prefix_of_prefix_length_le (List.prefix_append a b) ⟨t, ht⟩ hlen
  obtain ⟨c, rfl⟩ := ha
  rw [List.append_assoc, List.append_right_inj] at ht
  exact ⟨c, rfl, ⟨t, ht⟩, fun heq => hne (by rw [heq])⟩

section

variable {P : Prims}

/-- Under the key `k`, a sealed text that is cut short does not open. -/
def RejectsCut (P : Prims) (k key : Key) (nonce : Nonce) (plain : Bytes) : Prop :=
  ∀ c, CutShort (P.aeadSeal key nonce plain) c → P.aeadOpen k nonce c = none

theorem decryptBytes_cutShort {key : Key} {data : Bytes} (hcut : RejectsCut P key key nonce data)
    (h : CutShort (encryptBytes P nonce data key) p) : decryptBytes P p key = none := by
  unfold encryptBytes at h
  unfold decryptBytes
  split
  · rfl
  · next hlen =>
    obtain ⟨c, hp, hc⟩ := h.of_append (by simpa using hlen)
    rw [hp, List.take_left' (by simp), List.drop_left' (by simp), tryIntoArray_toBytes (by decide),
      Option.bind_some, hcut c hc]

theorem loadTable_cutShort {codec : TableCodec α} {w : Dict String α} {key : Option Key}
    (hcut : ∀ k, key = some k → RejectsCut P k k nonce (codec.toVec w))
    (hjson : codec.fromSlice p = none) (h : CutShort (saveTable P codec nonce w key) p) :
    loadTable P codec (some p) key = ∅ := by
  cases key with
  | none =>
    unfold loadTable
    dsimp only
    rw [hjson]
    rfl
  | some k =>
    rw [loadTable_unopened P codec (decryptBytes_cutShort (hcut k rfl) h), hjson]
    rfl

theorem KeyStore.load_cutShort {argon2 : Bytes → Key → Key} {w : Key}
    {tried : String}
    (hcut : RejectsCut P (deriveKey argon2 tried salt) (deriveKey argon2 passphrase salt) nonce
      (toBytes w))
    (h : CutShort (KeyStore.save P argon2 salt nonce w passphrase) p) :
    ∃ e, KeyStore.load P argon2 (some p) tried = .error e := by
  unfold KeyStore.save at h
  unfold KeyStore.load
  dsimp only
  split
  · exact ⟨_, rfl⟩
  · next hlen =>
    obtain ⟨c, hp, hc⟩ := h.of_append (by simpa using hlen)
    rw [hp, KeyStore.decrypt_append, hcut c hc]
    exact ⟨_, rfl⟩

/-- When the process is killed while it writes a table or the keystore, the file is the old one,
the new one, or a part of the new one; the part loads as an empty table, and as no identity. -/
theorem save_killed_cases {α : Type} {codec : TableCodec α} {nonce nonce' : Nonce}
    {v w : Dict String α} {key : Option Key} {table keystore : Bytes} {chunks chunks' : List Bytes}
    {argon2 : Bytes → Key → Key} {salt v' w' : Key} {oldPassphrase newPassphrase : String}
    (hP : P.Lawful) (hv : loadTable P codec (some table) key = v)
    (hw : codec.fromSlice (codec.toVec w) = some w)
    (hchunks : chunks.flatten = saveTable P codec nonce w key)
    (hcut : ∀ k, key = some k → RejectsCut P k k nonce (codec.toVec w))
    (hjson : ∀ p, CutShort (saveTable P codec nonce w key) p → codec.fromSlice p = none)
    (hv' : KeyStore.load P argon2 (some keystore) oldPassphrase = .ok v')
    (hchunks' : chunks'.flatten = KeyStore.save P argon2 salt nonce' w' newPassphrase)
    (hcut' : ∀ tried, tried = oldPassphrase ∨ tried = newPassphrase →
      RejectsCut P (deriveKey argon2 tried salt) (deriveKey argon2 newPassphrase salt) nonce'
        (toBytes w')) :
    (∀ x ∈ writeStates (some table) chunks,
      (x = some table ∧ loadTable P codec x key = v) ∨
      (x = some chunks.flatten ∧ loadTable P codec x key = w) ∨
      (∃ p, x = some p ∧ CutShort chunks.flatten p ∧ loadTable P codec x key = ∅)) ∧
    ∀ x ∈ writeStates (some keystore) chunks',
      (x = some keystore ∧ KeyStore.load P argon2 x oldPassphrase = .ok v') ∨
      (x = some chunks'.flatten ∧ KeyStore.load P argon2 x newPassphrase = .ok w') ∨
      (∃ p, x = some p ∧ CutShort chunks'.flatten p ∧
        ∀ tried, tried = oldPassphrase ∨ tried = newPassphrase →
          ∃ e, KeyStore.load P argon2 x tried = .error e) := by
  constructor
  · intro x hx
    rcases of_mem_writeStates hx with rfl | rfl | ⟨p, rfl, hp⟩
    · exact .inl ⟨rfl, hv⟩
    · refine .inr (.inl ⟨rfl, ?_⟩)
      rw [hchunks, loadTable_saveTable hP, hw]
      rfl
    · refine .inr (.inr ⟨p, rfl, hp, ?_⟩)
      rw [hchunks] at hp
      exact loadTable_cutShort hcut (hjson p hp) hp
  · intro x hx
    rcases of_mem_writeStates hx with rfl | rfl | ⟨p, rfl, hp⟩
    · exact .inl ⟨rfl, hv'⟩
    · refine .inr (.inl ⟨rfl, ?_⟩)
      rw [hchunks', KeyStore.load_save hP]
    · refine .inr (.inr ⟨p, rfl, hp, fun tried htried => ?_⟩)
      rw [hchunks'] at hp
      exact KeyStore.load_cutShort (hcut' tried htried) hp

end

theorem CutShort.exists_take {new : Bytes} (h : CutShort new p) :
    ∃ i < new.length, p = new.take i := by
  have hp := List.prefix_iff_eq_take.mp h.1
  refine ⟨p.length, lt_of_le_of_ne h.1.length_le fun hlen => h.2 ?_, hp⟩
  exact h.1.eq_of_length hlen

namespace Sample

/-- A sealed text of the sample that is cut short does not open, checked at every length. -/
theorem rejectsCut {key : Key} {plain : Bytes}
    (h : ∀ i < (aeadSeal key nonce plain).length,
      aeadOpen k nonce ((aeadSeal key nonce plain).take i) = none) :
    RejectsCut (prims [] []) k key nonce plain := by
  intro c hc
  obtain ⟨i, hi, rfl⟩ := hc.exists_take
  exact h i hi

/-- The key of the tables, and the keystore before and after its passphrase is changed. -/
def sampleKey : Option Key := tableKey argon2 9 "passphrase"

def oldKeystore : Bytes := KeyStore.save (prims [] []) argon2 8 7 30 "passphrase"

def newKeystore : Bytes := KeyStore.save (prims [] []) argon2 8 7 30 "new passphrase"

theorem load_savedPasswords :
    loadTable (prims [] []) passwordCodec (some (savedPasswords "passphrase")) sampleKey =
      passwords := by
  unfold savedPasswords sampleKey
  rw [loadTable_saveTable (prims_lawful [] []), fromSlice_toVec]
  rfl

/-- A process that is killed right after it truncated the file leaves an empty table in place of
the passwords, or no identity. -/
theorem truncated_file_lost :
    (some [] ∈ writeStates (some (savedPasswords "passphrase")) [savedPasswords "passphrase"] ∧
      loadTable (prims [] []) passwordCodec (some (savedPasswords "passphrase")) sampleKey =
        passwords ∧
      loadTable (prims [] []) passwordCodec (some []) sampleKey ≠ passwords) ∧
    some [] ∈ writeStates (some oldKeystore) [newKeystore] ∧
    ∀ tried, KeyStore.load (prims [] []) argon2 (some []) tried = .error .tooShort := by
  refine ⟨⟨?_, load_savedPasswords, fun h => ?_⟩, ?_, fun _ => rfl⟩
  · exact List.mem_cons_of_mem _ List.mem_cons_self
  · have hlookup := congrArg (AList.lookup community.text) h
    have hsome : passwords.lookup community.text = some "secret" := AList.lookup_insert _
    rw [hsome] at hlookup
    exact absurd hlookup (by decide +kernel)
  · exact List.mem_cons_of_mem _ List.mem_cons_self

/-- Whenever the process is killed, the passwords or an empty table are loaded, and the identity
under one of the passphrases or under none. -/
theorem killed_save_cases :
    (∀ x ∈ writeStates (some (savedPasswords "passphrase")) [savedPasswords "passphrase"],
      loadTable (prims [] []) passwordCodec x sampleKey = passwords ∨
        loadTable (prims [] []) passwordCodec x sampleKey = ∅) ∧
    ∀ x ∈ writeStates (some oldKeystore) [newKeystore],
      KeyStore.load (prims [] []) argon2 x "passphrase" = .ok 30 ∨
        KeyStore.load (prims [] []) argon2 x "new passphrase" = .ok 30 ∨
        ∃ e, KeyStore.load (prims [] []) argon2 x "passphrase" = .error e := by
  have hcut : ∀ k, sampleKey = some k →
      RejectsCut (prims [] []) k k 6 (passwordCodec.toVec passwords) := by
    intro k hk
    cases hk
    exact rejectsCut (by decide +kernel)
  have hjson : ∀ p, CutShort (savedPasswords "passphrase") p →
      passwordCodec.fromSlice p = none := by
    have hall : ∀ i < (savedPasswords "passphrase").length,
        (passwordCodec.fromSlice ((savedPasswords "passphrase").take i)).isNone = true := by
      decide +kernel
    intro p hp
    obtain ⟨i, hi, rfl⟩ := hp.exists_take
    exact Option.isNone_iff_eq_none.mp (hall i hi)
  have hcut' : ∀ tried, tried = "passphrase" ∨ tried = "new passphrase" →
      RejectsCut (prims [] []) (deriveKey argon2 tried 8) (deriveKey argon2 "new passphrase" 8) 7
        (toBytes (30 : Key)) := by
    rintro tried (rfl | rfl)
    · exact rejectsCut (by decide +kernel)
    · exact rejectsCut (by decide +kernel)
  have hchunks : [savedPasswords "passphrase"].flatten =
      saveTable (prims [] []) passwordCodec 6 passwords sampleKey := List.append_nil _
  have hchunks' : [newKeystore].flatten =
      KeyStore.save (prims [] []) argon2 8 7 30 "new passphrase" := List.append_nil _
  have hload : KeyStore.load (prims [] []) argon2 (some oldKeystore) "passphrase" = .ok 30 :=
    KeyStore.load_save (prims_lawful [] []) 8 7 30 "passphrase"
  obtain ⟨htable, hkeystore⟩ := save_killed_cases (prims_lawful [] []) load_savedPasswords
    fromSlice_toVec hchunks hcut hjson hload hchunks' hcut'
  constructor
  · intro x hx
    rcases htable x hx with ⟨-, hold⟩ | ⟨-, hnew⟩ | ⟨p, -, -, hpart⟩
    · exact .inl hold
    · exact .inl hnew
    · exact .inr hpart
  · intro x hx
    rcases hkeystore x hx with ⟨-, hold⟩ | ⟨-, hnew⟩ | ⟨p, -, -, hpart⟩
    · exact .inl hold
    · exact .inr (.inl hnew)
    · exact .inr (.inr (hpart _ (.inl rfl)))

end Sample

end BitCord
