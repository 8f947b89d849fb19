import BitCord.Authentication
import BitCord.Mailbox

/-!
# Mailboxes are queues

A node keeps one mailbox per key. `SendDm` appends to the mailbox that it names and `GetDms` reads
the mailbox of the session that makes it. Over every interleaving of such requests the mailbox of a
key holds the messages that were accepted for it, numbered from zero (`HoldsMail`), so every answer
can be read off the requests alone (`mailboxes_are_queues`).
-/

namespace BitCord

open Lib Lib.Run

variable {pk rpk : Key} {a b : UInt64} {sv : NodeServices}

variable (st : NodeStore)

namespace NodeStore

/-! ## The range of a mailbox -/

theorem mailKey_le_iff : mailKey pk a ≤ mailKey pk b ↔ a ≤ b := by
  rw [BitVec.le_def, mailKey_toNat, mailKey_toNat, UInt64.le_iff_toNat_le]
  omega

theorem mailKey_lt_iff : mailKey pk a < mailKey pk b ↔ a < b := by
  rw [BitVec.lt_def, mailKey_toNat, mailKey_toNat, UInt64.lt_iff_toNat_lt]
  omega

/-- A mailbox key in the range of a mailbox is a key of that mailbox. -/
theorem mailKey_mem_range {pk' : Key} {seq lo hi : UInt64} (hlo : mailKey pk lo ≤ mailKey pk' seq)
    (hhi : mailKey pk' seq ≤ mailKey pk hi) : pk' = pk := by
  rw [BitVec.le_def, mailKey_toNat, mailKey_toNat] at hlo hhi
  have hs := seq.toNat_lt
  have hl := lo.toNat_lt
  have hh := hi.toNat_lt
  exact BitVec.eq_of_toNat_eq (by omega)

theorem mailRange_eq_filter (pk : Key) (since : UInt64) :
    st.mailRange pk since =
      (st.mailRange pk 0).filter fun e => decide (mailKey pk since ≤ e.1) := by
  refine OrdMap.range_eq_filter st.mail ?_
  rw [mailKey_le_iff, UInt64.le_iff_toNat_le]
  exact Nat.zero_le _

/-- The number in a mailbox key. -/
theorem seq_of_mailKey (pk : Key) (seq : UInt64) :
    UInt64.ofBitVec ((mailKey pk seq).truncate 64) = seq := by
  apply UInt64.toNat.inj
  have hseq : (UInt64.ofBitVec ((mailKey pk seq).truncate 64)).toNat =
      (mailKey pk seq).toNat % 2 ^ 64 := by simp
  have hlt := seq.toNat_lt
  rw [hseq, mailKey_toNat]
  omega

/-- A message for one key leaves the mailboxes of the others alone. -/
theorem mailRange_appendDm_of_ne (author : UserId) (envelope : Bytes) (mid : Ulid) (ts : Int)
    (h : rpk ≠ pk) :
    (st.appendDm rpk author envelope mid ts).1.mailRange pk 0 = st.mailRange pk 0 := by
  refine OrdMap.range_insert_of_notMem st.mail _ ?_
  rintro ⟨hlo, hhi⟩
  exact h (mailKey_mem_range hlo hhi)

end NodeStore

/-! ## The requests -/

inductive MailCall where
  | sendDm (recipientPk : Key) (envelope : DmEnvelope)
  | getDms (sinceSeq : UInt64)

def MailCall.request : MailCall → ClientRequest
  | .sendDm recipientPk envelope => .sendDm recipientPk envelope
  | .getDms sinceSeq => .getDms sinceSeq

/-- A mailbox request of an authenticated session. -/
structure MailRequest where
  session : ClientSession
  clientPk : Key
  authenticated : session.clientPk = some clientPk
  env : Env
  remote : NodeAddr
  call : MailCall

/-- A message that the node accepted, with what it noted about it. -/
structure Mail where
  envelope : DmEnvelope
  senderPk : Key
  messageId : Ulid
  timestampMs : Int

/-- The message that a request puts into the mailbox of a key. -/
def MailRequest.mailFor (pk : Key) (r : MailRequest) : Option Mail :=
  match r.call with
  | .sendDm recipientPk envelope =>
    if recipientPk = pk then
      some ⟨envelope, r.clientPk, r.env.ulid 0, timestampMillis r.env.now⟩
    else none
  | .getDms _ => none

/-- The messages that the requests put into the mailbox of a key, in their order. -/
def accepted (pk : Key) (rs : List MailRequest) : List Mail := rs.filterMap (MailRequest.mailFor pk)

theorem accepted_concat (pk : Key) (rs : List MailRequest) (r : MailRequest) :
    accepted pk (rs ++ [r]) = accepted pk rs ++ (r.mailFor pk).toList := by
  unfold accepted
  rw [List.filterMap_append]
  cases hr : r.mailFor pk with
  | none => rw [List.filterMap_cons_none hr]; rfl
  | some m => rw [List.filterMap_cons_some hr]; rfl

section

variable (P : Prims)

namespace MailRequest

def handle (r : MailRequest) (sv : NodeServices) : Conn × NodeResponse :=
  dispatch P r.env r.remote ⟨r.session, sv⟩ r.call.request

def step (sv : NodeServices) (r : MailRequest) : NodeServices := (r.handle P sv).1.services

end MailRequest

/-- The stored entry of a message. Its author is the user of the key of the sender's session. -/
def Mail.entry (m : Mail) (seq : Nat) : LogEntry :=
  { seq := UInt64.ofNat seq
    nonce := 0
    ciphertext := P.encodeDmEnvelope m.envelope
    messageId := ulidText m.messageId
    authorId := (P.userIdOf m.senderPk).text
    timestampMs := m.timestampMs
    deleted := false }

/-- The entries of a mailbox with the given messages. -/
def mailEntries (l : List Mail) : List LogEntry := l.zipIdx.map fun e => e.1.entry P e.2

variable {P}

variable {r : MailRequest} (l : List Mail)

theorem mailEntries_concat (m : Mail) :
    mailEntries P (l ++ [m]) = mailEntries P l ++ [m.entry P l.length] := by
  unfold mailEntries
  rw [List.zipIdx_append, List.map_append, Nat.zero_add]
  rfl

theorem length_mailEntries : (mailEntries P l).length = l.length := by
  unfold mailEntries
  rw [List.length_map, List.length_zipIdx]

theorem seq_of_mem_mailEntries {l : List Mail} {e : LogEntry} (h : e ∈ mailEntries P l) :
    ∃ i < l.length, e.seq = UInt64.ofNat i := by
  obtain ⟨⟨m, i⟩, hmem, rfl⟩ := List.mem_map.mp h
  have hlt := List.snd_lt_add_of_mem_zipIdx hmem
  exact ⟨i, by omega, rfl⟩

/-- The entries from a number on are those after the first so many. -/
theorem filter_mailEntries (since : UInt64) (l : List Mail) (hlen : l.length ≤ 2 ^ 64) :
    ((mailEntries P l).filter fun e => decide (since ≤ e.seq)) =
      (mailEntries P l).drop since.toNat := by
  induction l using List.reverseRecOn with
  | nil => simp [mailEntries]
  | append_singleton l m ih =>
    rw [List.length_append, List.length_singleton] at hlen
    have hseq : since ≤ (m.entry P l.length).seq ↔ since.toNat ≤ l.length := by
      rw [UInt64.le_iff_toNat_le]
      show since.toNat ≤ (UInt64.ofNat l.length).toNat ↔ _
      rw [UInt64.toNat_ofNat_of_lt' (show l.length < 2 ^ 64 by omega)]
    rw [mailEntries_concat, List.filter_append, ih (by omega), List.drop_append,
      length_mailEntries]
    congr 1
    simp only [List.filter_singleton, hseq]
    by_cases hle : since.toNat ≤ l.length
    · rw [decide_eq_true hle, Nat.sub_eq_zero_of_le hle]
      rfl
    · rw [decide_eq_false hle, List.drop_eq_nil_of_le]
      · rfl
      · rw [List.length_singleton]
        omega

/-! ## The store holds the queue -/

variable (P) in
/-- The mailbox of a key holds the messages, sealed and numbered in their order. -/
def HoldsMail (pk : Key) (st : NodeStore) (l : List Mail) : Prop :=
  st.mailRange pk 0 =
    (mailEntries P l).map fun e => (mailKey pk e.seq, st.sealValue e)

namespace HoldsMail

variable {pk : Key} {st : NodeStore} {l : List Mail}

theorem nextMailSeq_eq (h : HoldsMail P pk st l) : st.nextMailSeq pk = UInt64.ofNat l.length := by
  unfold NodeStore.nextMailSeq
  rw [h, List.getLast?_map]
  induction l using List.reverseRecOn with
  | nil => rfl
  | append_singleton l m =>
    rw [mailEntries_concat, List.getLast?_concat, Option.map_some]
    dsimp only
    rw [NodeStore.seq_of_mailKey, List.length_append, List.length_singleton, UInt64.ofNat_add]
    rfl

theorem appendDm_self (h : HoldsMail P pk st l) (hlen : l.length < 2 ^ 64) (m : Mail) :
    HoldsMail P pk (st.appendDm pk (P.userIdOf m.senderPk) (P.encodeDmEnvelope m.envelope)
      m.messageId m.timestampMs).1 (l ++ [m]) := by
  unfold HoldsMail
  rw [mailEntries_concat, List.map_append]
  have hseq := h.nextMailSeq_eq
  have hrange : (st.appendDm pk (P.userIdOf m.senderPk) (P.encodeDmEnvelope m.envelope)
      m.messageId m.timestampMs).1.mailRange pk 0 =
        st.mailRange pk 0 ++ [(mailKey pk (st.nextMailSeq pk), st.sealValue
          ⟨st.nextMailSeq pk, 0, P.encodeDmEnvelope m.envelope, ulidText m.messageId,
            (P.userIdOf m.senderPk).text, m.timestampMs, false⟩)] := by
    refine OrdMap.range_insert_of_forall_lt st.mail _ ?_ ?_ fun e he => ?_
    · rw [NodeStore.mailKey_le_iff, UInt64.le_iff_toNat_le]
      exact Nat.zero_le _
    · rw [NodeStore.mailKey_le_iff]
      exact NodeStore.le_maxSeq _
    · -- the numbers in use are below the length
      have hmem : e ∈ st.mailRange pk 0 := he
      rw [h] at hmem
      obtain ⟨entry, hentry, rfl⟩ := List.mem_map.mp hmem
      obtain ⟨i, hi, heq⟩ := seq_of_mem_mailEntries hentry
      rw [NodeStore.mailKey_lt_iff, hseq, heq, UInt64.lt_iff_toNat_lt,
        UInt64.toNat_ofNat_of_lt' (hi.trans hlen), UInt64.toNat_ofNat_of_lt' hlen]
      exact hi
  rw [hrange, h, hseq]
  rfl

theorem getDms_eq (h : HoldsMail P pk st l) (hlen : l.length ≤ 2 ^ 64) (since : UInt64) :
    st.getDms pk since = .ok ((mailEntries P l).drop since.toNat) := by
  have hrange : st.mailRange pk since = ((mailEntries P l).drop since.toNat).map
      fun e => (mailKey pk e.seq, st.sealValue e) := by
    rw [NodeStore.mailRange_eq_filter, h, List.filter_map, ← filter_mailEntries since l hlen]
    congr 1
    refine List.filter_congr fun e _ => ?_
    simp [NodeStore.mailKey_le_iff]
  unfold NodeStore.getDms
  rw [hrange]
  generalize (mailEntries P l).drop since.toNat = entries
  induction entries with
  | nil => rfl
  | cons e entries ih =>
    rw [List.map_cons, List.mapM_cons, ih, NodeStore.read_sealValue]
    rfl

end HoldsMail

/-! ## Runs -/

/-- What a request does to the mailboxes: only the one it names changes. -/
theorem HoldsMail.step {l : List Mail} (r : MailRequest)
    (h : HoldsMail P pk sv.store l) (hlen : (l ++ (r.mailFor pk).toList).length ≤ 2 ^ 64) :
    HoldsMail P pk (MailRequest.step P sv r).store (l ++ (r.mailFor pk).toList) := by
  unfold MailRequest.step MailRequest.handle
  unfold MailRequest.mailFor at hlen ⊢
  cases hcall : r.call with
  | sendDm recipientPk envelope =>
    have hstore : (dispatch P r.env r.remote ⟨r.session, sv⟩
        (.sendDm recipientPk envelope)).1.services.store =
          sv.store.apply (fun _ => 0) (.appendDm recipientPk (P.userIdOf r.clientPk)
            (P.encodeDmEnvelope envelope) (r.env.ulid 0) (timestampMillis r.env.now)) :=
      store_dispatch_sendDm r.authenticated recipientPk envelope
    rw [hcall] at hlen
    dsimp only [MailCall.request] at hlen ⊢
    rw [hstore]
    unfold NodeStore.apply
    dsimp only
    by_cases hpk : recipientPk = pk
    · subst hpk
      rw [if_pos rfl] at hlen ⊢
      rw [List.length_append, Option.toList_some, List.length_singleton] at hlen
      exact h.appendDm_self hlen ⟨envelope, r.clientPk, r.env.ulid 0, timestampMillis r.env.now⟩
    · rw [if_neg hpk, Option.toList_none, List.append_nil]
      unfold HoldsMail
      rw [NodeStore.mailRange_appendDm_of_ne _ _ _ _ _ hpk]
      exact h
  | getDms sinceSeq =>
    dsimp only [MailCall.request]
    rw [Option.toList_none, List.append_nil]
    have hsame : (dispatch P r.env r.remote ⟨r.session, sv⟩ (.getDms sinceSeq)).1.services.store =
        sv.store := by
      unfold dispatch
      dsimp only
      rw [r.authenticated]
      dsimp only
      split <;> rfl
    rw [hsame]
    exact h

/-- After any interleaving of mailbox requests, the mailbox of a key holds what was accepted for it.
The numbers of a mailbox have 64 bits, so this is about the first `2 ^ 64` messages of the key. -/
theorem holdsMail_run (hempty : sv.store.mail = OrdMap.empty) (pk : Key)
    (rs : List MailRequest) (hlen : (accepted pk rs).length ≤ 2 ^ 64) :
    HoldsMail P pk (run (MailRequest.step P) sv rs).store (accepted pk rs) := by
  refine invariant_of_history (MailRequest.step P) (s := sv)
    (I := fun rs sv => (accepted pk rs).length ≤ 2 ^ 64 → HoldsMail P pk sv.store (accepted pk rs))
    (fun _ => ?_) (fun rs r ih hlen => ?_) rs hlen
  · unfold HoldsMail NodeStore.mailRange
    rw [hempty]
    rfl
  · rw [accepted_concat] at hlen ⊢
    refine (ih ?_).step r hlen
    rw [List.length_append] at hlen
    omega

theorem handle_sendDm {envelope : DmEnvelope} (hcall : r.call = .sendDm rpk envelope)
    (sv : NodeServices) : (r.handle P sv).2 = .dmAck (sv.store.nextMailSeq rpk) := by
  unfold MailRequest.handle
  rw [hcall]
  unfold MailCall.request dispatch
  dsimp only
  rw [r.authenticated]
  rfl

theorem handle_getDms {since : UInt64} (hcall : r.call = .getDms since) {entries : List LogEntry}
    (hget : sv.store.getDms r.clientPk since = .ok entries) : (r.handle P sv).2 = .dms entries := by
  unfold MailRequest.handle
  rw [hcall]
  unfold MailCall.request dispatch
  dsimp only
  rw [r.authenticated]
  dsimp only
  rw [hget]

/-- Whatever mailbox requests came before, a `SendDm` is acknowledged with the number of messages
that were accepted for its recipient, and a `GetDms` returns the messages that were accepted for the
key of its session, from the given number on, in their order and with the users of the keys that
sent them as authors. -/
theorem mailboxes_are_queues {sv : NodeServices} (hempty : sv.store.mail = OrdMap.empty)
    (before : List MailRequest) (r : MailRequest) :
    let response := (r.handle P (run (MailRequest.step P) sv before)).2
    (∀ rpk envelope, r.call = .sendDm rpk envelope → (accepted rpk before).length < 2 ^ 64 →
      response = .dmAck (UInt64.ofNat (accepted rpk before).length)) ∧
    ∀ since, r.call = .getDms since → (accepted r.clientPk before).length ≤ 2 ^ 64 →
      response = .dms ((mailEntries P (accepted r.clientPk before)).drop since.toNat) := by
  refine ⟨fun rpk envelope hcall hlen => ?_, fun since hcall hlen => ?_⟩
  · rw [handle_sendDm hcall, (holdsMail_run hempty rpk before hlen.le).nextMailSeq_eq]
  · exact handle_getDms hcall ((holdsMail_run hempty r.clientPk before hlen).getDms_eq hlen since)

end

namespace Sample

def mailRequest (pk : Key) (call : MailCall) : MailRequest :=
  ⟨⟨some pk, []⟩, pk, rfl, env, addr, call⟩

def letter : DmEnvelope := ⟨31, 32, 0, [1]⟩

/-- Two clients write to two users. -/
def letters : List MailRequest :=
  [mailRequest 31 (.sendDm 21 letter), mailRequest 41 (.sendDm 22 letter)]

end Sample

open Sample in
/-- The next message to the first of them is its second, and it finds the first one. -/
theorem mailboxes_are_queues_letters :
    ((mailRequest 41 (.sendDm 21 letter)).handle (prims [] [])
        (run (MailRequest.step (prims [] [])) (services 99) letters)).2 = .dmAck 1 ∧
      ((mailRequest 21 (.getDms 0)).handle (prims [] [])
        (run (MailRequest.step (prims [] [])) (services 99) letters)).2 =
          .dms [Mail.entry (prims [] []) ⟨letter, 31, 1000, 1700000000000⟩ 0] :=
  ⟨(mailboxes_are_queues rfl letters (mailRequest 41 (.sendDm 21 letter))).1 21 letter rfl
      (by decide),
    (mailboxes_are_queues rfl letters (mailRequest 21 (.getDms 0))).2 0 rfl (by decide)⟩

end BitCord
