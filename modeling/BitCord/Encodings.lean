import BitCord.Events.Dm
import BitCord.Lib.Postcard
import BitCord.Sample

/-!
# Encodings

`MessageContent::decode` tries the enum that is written now (`content_round_trip`) and then the
struct that was written before. A struct starts with the length of its body, and an enum with the
number of its variant, so a struct with a body of at most one byte can be read as an enum
(`legacy_read_as_reaction`, `legacy_decodes_iff`).

A direct message was a plain text before it was a payload. A text without the bytes zero and one is
never read as a payload, since that needs one of them for the option (`raw_text_read`).
-/

namespace BitCord

open Lib Lib.Postcard

/-- A time in the range of the calendar library. -/
def InCalendar (t : DateTime) : Prop := (timestampMillisOpt (timestampMillis t)).isSome

/-- The text form of a time, as the serialisation of the calendar library has it. -/
structure DateCodec where
  text : DateTime → String
  parse : String → Option DateTime
  size_lt : ∀ t, InCalendar t → (text t).utf8ByteSize < 2 ^ 64
  parse_text : ∀ t, InCalendar t → parse (text t) = some t

/-- Texts of the sizes that a machine word counts. -/
def AttachmentRef.Sized (a : AttachmentRef) : Prop :=
  a.cid.utf8ByteSize < 2 ^ 64 ∧ a.name.utf8ByteSize < 2 ^ 64 ∧ a.mimeType.utf8ByteSize < 2 ^ 64

/-- `LegacyMessageContent`. -/
structure LegacyMessageContent where
  body : String
  attachments : List AttachmentRef
  replyTo : Option MessageId
  editedAt : Option DateTime
  body_lt : body.utf8ByteSize < 2 ^ 64
  attachments_lt : attachments.length < 2 ^ 64
  sized : ∀ a ∈ attachments, a.Sized
  edited : ∀ t ∈ editedAt, InCalendar t

/-- A value that is read from a text. -/
def parsed {α : Type} (parse : String → Option α) : Reader α := do
  let s ← string
  fun rest => (parse s).map fun a => (a, rest)

theorem reads_parsed {α : Type} {parse : String → Option α} {s : String} {a : α}
    (hsize : s.utf8ByteSize < 2 ^ 64) (h : parse s = some a) :
    Reads (parsed parse) (writeString s) a := by
  rw [← List.append_nil (writeString s)]
  refine (reads_string hsize).bind fun rest => ?_
  rw [h]
  rfl

def readAttachmentRef : Reader AttachmentRef := do
  let cid ← string
  let name ← string
  let size ← varint 64
  let mimeType ← string
  pure ⟨cid, name, UInt64.ofNat size, mimeType⟩

def writeAttachmentRef (a : AttachmentRef) : Bytes :=
  writeString a.cid ++ (writeString a.name ++ (writeVarint a.size.toNat ++
    (writeString a.mimeType ++ [])))

theorem reads_attachmentRef {a : AttachmentRef} (h : a.Sized) :
    Reads readAttachmentRef (writeAttachmentRef a) a := by
  refine (reads_string h.1).bind ((reads_string h.2.1).bind ?_)
  refine (reads_varint a.size.toNat_lt).bind ((reads_string h.2.2).bind fun rest => ?_)
  rw [UInt64.ofNat_toNat]
  rfl

theorem utf8ByteSize_ofList_le (l : List Char) : (String.ofList l).utf8ByteSize ≤ 4 * l.length := by
  induction l with
  | nil => simp
  | cons c l ih =>
    have hc := c.utf8Size_le_four
    rw [String.ofList_cons, String.utf8ByteSize_append, String.utf8ByteSize_singleton,
      List.length_cons]
    omega

theorem size_ulidText (u : Ulid) : (ulidText u).utf8ByteSize < 2 ^ 64 := by
  refine (utf8ByteSize_ofList_le _).trans_lt ?_
  rw [List.length_map, length_fixedDigits]
  norm_num

section

variable (date : DateCodec)

def readMessageId : Reader MessageId := parsed fun s => (parseUlid s).map MessageId.mk

def writeMessageId (m : MessageId) : Bytes := writeString m.text

theorem reads_messageId (m : MessageId) : Reads readMessageId (writeMessageId m) m := by
  refine reads_parsed (size_ulidText m.ulid) ?_
  rw [MessageId.text, parseUlid_ulidText]
  rfl

/-- What both formats of a text have in the same order. -/
def readText : Reader MessageContent := do
  let body ← string
  let attachments ← seq readAttachmentRef
  let replyTo ← option readMessageId
  let editedAt ← option (parsed date.parse)
  pure (.text body attachments replyTo editedAt)

def readReaction : Reader MessageContent := do
  let targetMessageId ← string
  let emoji ← string
  let isAdd ← bool
  pure (.reaction targetMessageId emoji isAdd)

/-- `MessageContent` as its derived deserialisation reads it. -/
def readContent : Reader MessageContent := do
  let variant ← varint 32
  if variant = 0 then readText date else if variant = 1 then readReaction else failure

namespace MessageContent

/-- `MessageContent::decode`. A struct of the older format is read as a text. -/
def decode (plaintext : Bytes) : Option MessageContent :=
  (fromBytes (readContent date) plaintext).or (fromBytes (readText date) plaintext)

end MessageContent

namespace LegacyMessageContent

variable (l : LegacyMessageContent)

def toText : MessageContent := .text l.body l.attachments l.replyTo l.editedAt

/-- The encoding after the body. -/
def fields : Bytes :=
  writeSeq writeAttachmentRef l.attachments ++
    (writeOption writeMessageId l.replyTo ++
      (writeOption (fun t => writeString (date.text t)) l.editedAt ++ []))

def encode : Bytes := writeString l.body ++ l.fields date

variable {date l}

theorem reads_text : Reads (readText date) (l.encode date) l.toText := by
  refine (reads_string l.body_lt).bind ?_
  refine (reads_seq l.attachments_lt fun a ha => reads_attachmentRef (l.sized a ha)).bind ?_
  refine (reads_option fun m _ => reads_messageId m).bind ?_
  refine (reads_option fun t ht => ?_).bind (Reads.pure _)
  exact reads_parsed (date.size_lt t (l.edited t ht)) (date.parse_text t (l.edited t ht))

/-- The variant of the enum is the length of the body. -/
theorem readContent_encode : readContent date (l.encode date) =
    if l.body.utf8ByteSize = 0 then readText date (l.fields date)
    else if l.body.utf8ByteSize = 1 then readReaction (utf8 l.body ++ l.fields date)
    else none := by
  have hsplit : l.encode date =
      writeVarint l.body.utf8ByteSize ++ (utf8 l.body ++ l.fields date) :=
    List.append_assoc _ _ _
  rw [hsplit]
  show (varint 32 _).bind (fun r => (if r.1 = 0 then readText date
    else if r.1 = 1 then readReaction else failure : Reader MessageContent) r.2) = _
  by_cases hsmall : l.body.utf8ByteSize < 2 ^ 32
  · rw [reads_varint hsmall, Option.bind_some]
    dsimp only
    by_cases hzero : l.body.utf8ByteSize = 0
    · have hbody : utf8 l.body = [] := by
        rw [String.utf8ByteSize_eq_zero_iff.mp hzero]
        rfl
      rw [if_pos hzero, if_pos hzero, hbody]
      rfl
    · rw [if_neg hzero, if_neg hzero]
      split <;> rfl
  · rw [if_neg (by omega), if_neg (by omega)]
    cases hread : varint 32 (writeVarint l.body.utf8ByteSize ++ (utf8 l.body ++ l.fields date)) with
    | none => rfl
    | some r =>
      rw [eq_of_readGroups_writeVarint (pow_mod_seven_le 32) hread, Option.bind_some]
      dsimp only
      rw [if_neg (by omega), if_neg (by omega)]
      rfl

/-- A struct with an empty body is not read as an enum with the same fields: the enum reads one
field less. -/
theorem readText_fields_ne (hbody : l.body.utf8ByteSize = 0) :
    fromBytes (readText date) (l.fields date) ≠ some l.toText := by
  intro h
  obtain ⟨⟨c, rest⟩, hread, hc⟩ := Option.map_eq_some_iff.mp h
  obtain ⟨⟨body, r₁⟩, hread₁, hread⟩ := Option.bind_eq_some_iff.mp hread
  obtain ⟨⟨attachments, r₂⟩, hread₂, hread⟩ := Option.bind_eq_some_iff.mp hread
  obtain ⟨⟨replyTo, r₃⟩, hread₃, hread⟩ := Option.bind_eq_some_iff.mp hread
  obtain ⟨⟨editedAt, r₄⟩, hread₄, hread⟩ := Option.bind_eq_some_iff.mp hread
  cases hread
  cases hc
  -- the body was read from the number of attachments, so there are none, and so on
  unfold fields writeSeq at hread₁
  rw [List.append_assoc] at hread₁
  obtain ⟨hcount, hr₁⟩ := string_writeVarint l.attachments_lt hread₁
  have hnone : l.attachments = [] := List.length_eq_zero_iff.mp (hcount.symm.trans hbody)
  dsimp only at hr₁ hread₂ hread₃ hread₄
  rw [hnone] at hr₁ hread₂
  subst hr₁
  cases hreply : l.replyTo with
  | some m =>
    rw [hreply] at hread₂
    exact ne_nil_of_seq_one hread₂ rfl
  | none =>
    rw [hreply] at hread₂ hread₃
    cases hread₂
    cases hedited : l.editedAt with
    | some t =>
      rw [hedited] at hread₃
      exact ne_none_of_option_one hread₃ rfl
    | none =>
      rw [hedited] at hread₃
      cases hread₃
      cases hread₄

/-- The encoding of a struct is decoded to the same text, unless the body is empty and the rest can
be read as the fields of a text, or the body has one byte and is with the rest the fields of a
reaction. -/
theorem legacy_decodes_iff (date : DateCodec) (l : LegacyMessageContent) :
    MessageContent.decode date (l.encode date) = some l.toText ↔
      (l.body.utf8ByteSize = 0 → fromBytes (readText date) (l.fields date) = none) ∧
        (l.body.utf8ByteSize = 1 →
          fromBytes readReaction (utf8 l.body ++ l.fields date) = none) := by
  have hlegacy : fromBytes (readText date) (l.encode date) = some l.toText := reads_text.fromBytes
  have henum : fromBytes (readContent date) (l.encode date) =
      if l.body.utf8ByteSize = 0 then fromBytes (readText date) (l.fields date)
      else if l.body.utf8ByteSize = 1 then fromBytes readReaction (utf8 l.body ++ l.fields date)
      else none := by
    unfold fromBytes
    rw [readContent_encode]
    split
    · rfl
    · split <;> rfl
  unfold MessageContent.decode
  rw [hlegacy, henum]
  by_cases hzero : l.body.utf8ByteSize = 0
  · rw [if_pos hzero]
    constructor
    · intro h
      refine ⟨fun _ => ?_, fun hone => by omega⟩
      cases hread : fromBytes (readText date) (l.fields date) with
      | none => rfl
      | some c =>
        rw [hread] at h
        exact absurd (hread.trans h) (readText_fields_ne hzero)
    · intro h
      rw [h.1 hzero]
      rfl
  · rw [if_neg hzero]
    by_cases hone : l.body.utf8ByteSize = 1
    · rw [if_pos hone]
      constructor
      · intro h
        refine ⟨fun hno => absurd hno hzero, fun _ => ?_⟩
        cases hread : fromBytes readReaction (utf8 l.body ++ l.fields date) with
        | none => rfl
        | some c =>
          rw [hread] at h
          obtain ⟨r, hr, rfl⟩ := Option.map_eq_some_iff.mp hread
          obtain ⟨s, -, hr⟩ := Option.bind_eq_some_iff.mp hr
          obtain ⟨emoji, -, hr⟩ := Option.bind_eq_some_iff.mp hr
          obtain ⟨isAdd, -, hr⟩ := Option.bind_eq_some_iff.mp hr
          cases hr
          cases h
      · intro h
        rw [h.2 hone]
        rfl
    · rw [if_neg hone]
      exact ⟨fun _ => ⟨fun h => absurd h hzero, fun h => absurd h hone⟩, fun _ => rfl⟩

end LegacyMessageContent

end

namespace Sample

/-- Times as texts of 26 digits. -/
def digitDates : DateCodec where
  text t := ulidText (BitVec.ofInt 128 t)
  parse s := (parseUlid s).map BitVec.toInt
  size_lt _ _ := size_ulidText _
  parse_text t ht := by
    unfold InCalendar timestampMillisOpt timestampMillis at ht
    split at ht
    · next hrange =>
      rw [parseUlid_ulidText, Option.map_some, BitVec.toInt_ofInt, Int.bmod_eq_of_le] <;> omega
    · cases ht

/-- A struct whose body is the character zero. -/
def nulBody : LegacyMessageContent :=
  ⟨"\x00", [], none, none, by decide, by decide, nofun, nofun⟩

end Sample

open Sample in
/-- It is read as a reaction. -/
theorem legacy_read_as_reaction :
    MessageContent.decode digitDates (nulBody.encode digitDates) =
      some (.reaction "" "" false) := by
  decide +kernel

namespace MessageContent

/-- `MessageContent` as its derived serialisation writes it. -/
def encode (date : DateCodec) : MessageContent → Bytes
  | .text body attachments replyTo editedAt =>
    writeVarint 0 ++ (writeString body ++ (writeSeq writeAttachmentRef attachments ++
      (writeOption writeMessageId replyTo ++
        (writeOption (fun t => writeString (date.text t)) editedAt ++ []))))
  | .reaction target emoji isAdd =>
    writeVarint 1 ++ (writeString target ++ (writeString emoji ++ ([isAdd.toUInt8] ++ [])))

/-- The lengths and the time are in range. -/
def Sized : MessageContent → Prop
  | .reaction target emoji _ => target.utf8ByteSize < 2 ^ 64 ∧ emoji.utf8ByteSize < 2 ^ 64
  | content => ∃ l : LegacyMessageContent, l.toText = content

end MessageContent

open MessageContent

/-- Every content is read back from its encoding. -/
theorem content_round_trip {date : DateCodec} {c : MessageContent} (h : c.Sized) :
    decode date (c.encode date) = some c := by
  have hreads : Reads (readContent date) (c.encode date) c := by
    cases c with
    | text =>
      obtain ⟨l, hl⟩ := h
      rw [← hl]
      exact (reads_varint (by decide)).bind LegacyMessageContent.reads_text
    | reaction target emoji isAdd =>
      refine (reads_varint (by decide)).bind ((reads_string h.1).bind ((reads_string h.2).bind ?_))
      refine Reads.bind (a := isAdd) (fun rest => ?_) (Reads.pure _)
      cases isAdd <;> rfl
  unfold decode
  rw [hreads.fromBytes]
  rfl

open Sample in
theorem content_round_trip_nul :
    decode digitDates (nulBody.toText.encode digitDates) = some nulBody.toText :=
  content_round_trip ⟨nulBody, rfl⟩

/-! ## Direct messages of older clients -/

/-- `DmPayload` as its derived deserialisation reads it. -/
def readDmPayload : Reader DmPayload := do
  let body ← string
  let replyTo ← option string
  let id ← string
  pure ⟨body, replyTo, id⟩

/-- The library functions with the postcard format of payloads and the check of UTF-8. -/
def DmCodec.postcard (codec : DmCodec) : DmCodec :=
  { codec with
    decodeDmPayload := fromBytes readDmPayload
    fromUtf8 := fun bs => String.fromUTF8? ⟨bs.toArray⟩ }

theorem fromBytes_readDmPayload_eq_none {bs : Bytes} (h : ∀ b ∈ bs, b ≠ 0 ∧ b ≠ 1) :
    fromBytes readDmPayload bs = none := by
  unfold fromBytes
  rw [Option.map_eq_none_iff]
  show (string bs).bind _ = none
  cases hbody : string bs with
  | none => rfl
  | some r =>
    have hrest : ∀ b ∈ r.2, b ≠ 0 ∧ b ≠ 1 := fun b hb => h b ((string_suffix hbody).mem hb)
    rw [Option.bind_some]
    show (option string r.2).bind _ = none
    rw [option_eq_none hrest]
    rfl

/-- A plain text without the bytes zero and one is read as it is. -/
theorem raw_text_read {P : Prims} (codec : DmCodec) {text : String}
    (htext : ∀ b ∈ utf8 text, b ≠ 0 ∧ b ≠ 1) (env : Env) (sk : Key) {ev : DmReceived}
    {envelope : DmEnvelope} (hrecipient : ev.recipientPk = P.x25519PublicKeyBytes sk)
    (henvelope : codec.decodeDmEnvelope ev.entry.ciphertext = some envelope)
    (hopen : envelope.open P (P.x25519Secret sk) = some (utf8 text)) :
    fromBytes readDmPayload (utf8 text) = none ∧
      ∃ msg, dmMessage P codec.postcard env sk ev = some msg ∧ msg.body = text ∧
        msg.replyTo = none := by
  have hpayload := fromBytes_readDmPayload_eq_none htext
  have hread : readDm codec.postcard (utf8 text) = some ⟨text, none, none⟩ := by
    unfold readDm DmCodec.postcard
    dsimp only
    rw [hpayload]
    dsimp only
    rw [utf8, fromUTF8?_toUTF8]
    rfl
  refine ⟨hpayload, dmInfo codec.postcard env ev.entry ⟨text, none, none⟩, ?_, rfl, rfl⟩
  unfold dmMessage
  rw [if_neg (not_not_intro hrecipient)]
  show (codec.decodeDmEnvelope ev.entry.ciphertext).bind _ = _
  rw [henvelope, Option.bind_some]
  show (envelope.open P (P.x25519Secret sk)).bind _ = _
  rw [hopen, Option.bind_some, hread]
  rfl

namespace Sample

/-- A plain text that was sealed by an older client. -/
def rawEnvelope : DmEnvelope :=
  DmEnvelope.«seal» (prims [] []) 20 ((prims [] []).x25519Public ((prims [] []).x25519Secret 30)) 40
    50 (utf8 "hi")

def rawCodec : DmCodec := ⟨fun _ => [], fun _ => none, fun _ => some rawEnvelope, fun _ => none,
  fun _ => none⟩

def rawReceived : DmReceived :=
  ⟨⟨1, 0, [], "", "", 0, false⟩, (prims [] []).x25519PublicKeyBytes 30⟩

end Sample

open Sample in
theorem raw_text_read_hi : ∃ msg,
    dmMessage (prims [] []) rawCodec.postcard env 30 rawReceived = some msg ∧ msg.body = "hi" ∧
      msg.replyTo = none := by
  have htext : ∀ b ∈ utf8 "hi", b ≠ 0 ∧ b ≠ 1 := by decide +kernel
  have hrecipient : rawReceived.recipientPk = (prims [] []).x25519PublicKeyBytes 30 := rfl
  have henvelope : rawCodec.decodeDmEnvelope rawReceived.entry.ciphertext = some rawEnvelope := rfl
  have hopen : rawEnvelope.open (prims [] []) ((prims [] []).x25519Secret 30) =
      some (utf8 "hi") := by decide +kernel
  exact (raw_text_read rawCodec htext env 30 hrecipient henvelope hopen).2

end BitCord
