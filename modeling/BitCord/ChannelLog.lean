import BitCord.Lib.Run
import BitCord.Lib.Window
import BitCord.Store

/-!
# The log of a channel in the store

The entries of a channel are a range of the log table. `get_messages` returns what a list per
channel would hold (`log_refines`). Sequence numbers are taken from the last entry that is left, so
they increase only as long as retention leaves one (`seqs_increase`).
-/

namespace BitCord

open Lib Lib.Run

variable {cpk cpk' : Key} {ch ch' : Ulid} {a b last : UInt64} {st : NodeStore}
  {e : LogKey × Stored LogEntry} {l : List (LogKey × Stored LogEntry)} {hi lo : LogKey}
  {size : Stored LogEntry → Nat} {maxBytes : Nat}

namespace NodeStore

/-! ## Keys -/

theorem logKey_le_iff : logKey cpk ch a ≤ logKey cpk ch b ↔ a ≤ b := by
  rw [BitVec.le_def, logKey_toNat, logKey_toNat, UInt64.le_iff_toNat_le]
  omega

theorem logKey_lt_iff : logKey cpk ch a < logKey cpk ch b ↔ a < b := by
  rw [BitVec.lt_def, logKey_toNat, logKey_toNat, UInt64.lt_iff_toNat_lt]
  omega

theorem le_maxSeq (seq : UInt64) : seq ≤ maxSeq := by
  have hlt := seq.toNat_lt
  rw [UInt64.le_iff_toNat_le]
  have hmax : maxSeq.toNat = 2 ^ 64 - 1 := rfl
  omega

/-- The number at the end of a key. -/
def seqOf (k : LogKey) : UInt64 := .ofBitVec (k.truncate 64)

/-- A key in the range of a channel is the key of its number. -/
theorem eq_logKey_of_mem {k : LogKey} (hlo : logKey cpk ch 0 ≤ k)
    (hhi : k ≤ logKey cpk ch maxSeq) : k = logKey cpk ch (seqOf k) := by
  apply BitVec.eq_of_toNat_eq
  have hmax : maxSeq.toNat = 2 ^ 64 - 1 := rfl
  have hzero : (0 : UInt64).toNat = 0 := rfl
  have hseq : (seqOf k).toNat = k.toNat % 2 ^ 64 := by
    simp [seqOf]
  rw [BitVec.le_def, logKey_toNat] at hlo hhi
  rw [logKey_toNat, hseq]
  omega

theorem seqOf_logKey (cpk : Key) (ch : Ulid) (seq : UInt64) : seqOf (logKey cpk ch seq) = seq := by
  apply UInt64.toNat.inj
  have hseq : (seqOf (logKey cpk ch seq)).toNat = (logKey cpk ch seq).toNat % 2 ^ 64 := by
    simp [seqOf]
  have hlt := seq.toNat_lt
  rw [hseq, logKey_toNat]
  omega

/-! ## The range of a channel after each operation -/

theorem channelRange_eq_filter (st : NodeStore) (cpk : Key) (ch : Ulid) (since : UInt64) :
    st.channelRange cpk ch since = (st.channelRange cpk ch 0).filter
      fun e => decide (logKey cpk ch since ≤ e.1) := by
  refine OrdMap.range_eq_filter st.log ?_
  rw [logKey_le_iff, UInt64.le_iff_toNat_le]
  exact Nat.zero_le _

theorem mem_channelRange (h : e ∈ st.channelRange cpk ch 0) : e.1 = logKey cpk ch (seqOf e.1) :=
  eq_logKey_of_mem (OrdMap.mem_range.mp h).2.1 (OrdMap.mem_range.mp h).2.2

/-- The numbers of a channel are at most the last one. -/
theorem seqOf_le_lastSeq (hlast : st.lastSeq cpk ch = some last)
    (h : e ∈ st.channelRange cpk ch 0) : seqOf e.1 ≤ last := by
  obtain ⟨x, hx, rfl⟩ := Option.map_eq_some_iff.mp hlast
  obtain ⟨l, hl⟩ := List.getLast?_eq_some_iff.mp hx
  have hsorted := OrdMap.sorted_range st.log (logKey cpk ch 0) (logKey cpk ch maxSeq)
  have hmem : x ∈ st.channelRange cpk ch 0 := List.mem_of_getLast? hx
  have hle : e.1 ≤ x.1 := by
    have hrange : st.log.range (logKey cpk ch 0) (logKey cpk ch maxSeq) = l ++ [x] := hl
    rw [hrange, List.pairwise_append] at hsorted
    rw [hl] at h
    rcases List.mem_append.mp h with h | h
    · exact (hsorted.2.2 e h x (List.mem_singleton_self x)).le
    · rw [List.mem_singleton.mp h]
  rw [mem_channelRange h, mem_channelRange hmem, logKey_le_iff] at hle
  exact hle

/-- The next number is above all the numbers of the channel, unless the last one is the largest
of all. -/
theorem seqOf_lt_nextSeq (hroom : st.lastSeq cpk ch ≠ some maxSeq)
    (h : e ∈ st.channelRange cpk ch 0) : seqOf e.1 < st.nextSeq cpk ch := by
  cases hlast : st.lastSeq cpk ch with
  | none =>
    have hempty : st.channelRange cpk ch 0 = [] := by
      rw [lastSeq, Option.map_eq_none_iff, List.getLast?_eq_none_iff] at hlast
      exact hlast
    rw [hempty] at h
    cases h
  | some last =>
    have hle := seqOf_le_lastSeq hlast h
    have hne : last ≠ maxSeq := fun heq => hroom (by rw [hlast, heq])
    have hmax : maxSeq.toNat = 2 ^ 64 - 1 := rfl
    have hlt : last.toNat < 2 ^ 64 - 1 := by
      have hnat : last.toNat ≠ maxSeq.toNat := fun heq => hne (UInt64.toNat.inj heq)
      have := last.toNat_lt
      omega
    rw [nextSeq, hlast, UInt64.lt_iff_toNat_lt]
    rw [UInt64.le_iff_toNat_le] at hle
    have hsucc : (last + 1).toNat = last.toNat + 1 := by
      rw [UInt64.toNat_add, UInt64.toNat_one]
      omega
    rw [hsucc]
    omega

/-- An append adds its entry at the end of its channel. -/
theorem channelRange_appendMessage_self (st : NodeStore) (nonce : Nonce)
    (ct : Bytes) (mid author : String) (ts : Int) (hroom : st.lastSeq cpk ch ≠ some maxSeq) :
    (st.appendMessage cpk ch nonce ct mid author ts).channelRange cpk ch 0 =
      st.channelRange cpk ch 0 ++ [(logKey cpk ch (st.nextSeq cpk ch),
        st.sealValue ⟨st.nextSeq cpk ch, nonce, ct, mid, author, ts, false⟩)] := by
  refine OrdMap.range_insert_of_forall_lt st.log _ ?_ ?_ fun e he => ?_
  · rw [logKey_le_iff, UInt64.le_iff_toNat_le]
    exact Nat.zero_le _
  · rw [logKey_le_iff]
    exact le_maxSeq _
  · rw [mem_channelRange he, logKey_lt_iff]
    exact seqOf_lt_nextSeq hroom he

theorem channelRange_appendMessage_of_ne (st : NodeStore) (nonce : Nonce) (ct : Bytes)
    (mid author : String) (ts : Int) (since : UInt64) (h : ¬ (cpk = cpk' ∧ ch = ch')) :
    (st.appendMessage cpk ch nonce ct mid author ts).channelRange cpk' ch' since =
      st.channelRange cpk' ch' since := by
  refine OrdMap.range_insert_of_notMem st.log _ ?_
  rintro ⟨hlo, hhi⟩
  exact h (logKey_mem_range hlo hhi)

/-- After an append to a channel that can be read, `get_messages` returns one entry more. -/
theorem getMessages_appendMessage_self {l : List LogEntry}
    (hget : st.getMessages cpk ch 0 = .ok l) (hroom : st.lastSeq cpk ch ≠ some maxSeq)
    (nonce : Nonce) (ct : Bytes) (mid author : String) (ts : Int) :
    (st.appendMessage cpk ch nonce ct mid author ts).getMessages cpk ch 0 =
      .ok (l ++ [⟨st.nextSeq cpk ch, nonce, ct, mid, author, ts, false⟩]) := by
  have hread : ∀ v : Stored LogEntry, (st.appendMessage cpk ch nonce ct mid author ts).read
      "decode LogEntry" v = st.read "decode LogEntry" v := fun _ => rfl
  unfold getMessages at hget ⊢
  simp only [hread]
  rw [channelRange_appendMessage_self st nonce ct mid author ts hroom, List.mapM_append, hget,
    List.mapM_cons, read_sealValue]
  rfl

variable {log : OrdMap LogKey (Stored LogEntry)}

theorem range_erase_head (h : log.range lo hi = e :: l) : (log.erase e.1).range lo hi = l := by
  have hsorted := OrdMap.sorted_range log lo hi
  rw [h, List.pairwise_cons] at hsorted
  rw [OrdMap.erase, OrdMap.range_keep, h, List.filter_cons_of_neg (by simp)]
  refine List.filter_eq_self.mpr fun x hx => ?_
  have hne : x.1 ≠ e.1 := (hsorted.1 x hx).ne'
  simp [hne]

/-- The second pass leaves the newest entries of the range. -/
theorem range_evict (h : log.range lo hi = l) :
    (evict size maxBytes (l.map fun e => size e.2).sum (l.map Prod.fst) log).range lo hi =
      keepNewest (fun e => size e.2) maxBytes l := by
  -- induction on the keys that are left, which are all that the range still has
  induction l generalizing log with
  | nil => exact h
  | cons e l ih =>
    show (evict size maxBytes _ (e.1 :: l.map Prod.fst) log).range lo hi = _
    unfold evict
    split
    · next hfits => rw [keepNewest_of_le hfits, h]
    · next hbig =>
      have hmem : e ∈ log.range lo hi := by
        rw [h]
        exact List.mem_cons_self
      rw [OrdMap.get_of_mem_range hmem, keepNewest_cons_of_lt hbig, List.map_cons, List.sum_cons]
      dsimp only
      rw [Nat.add_sub_cancel_left]
      exact ih (range_erase_head h)

theorem range_evict_of_notMem {total : Nat} {keys : List LogKey}
    (h : ∀ k ∈ keys, ¬ (lo ≤ k ∧ k ≤ hi)) :
    (evict size maxBytes total keys log).range lo hi = log.range lo hi := by
  induction keys generalizing total log with
  | nil => rfl
  | cons k keys ih =>
    have hkeys : ∀ k' ∈ keys, ¬ (lo ≤ k' ∧ k' ≤ hi) :=
      fun k' hk' => h k' (List.mem_cons_of_mem k hk')
    have herase : (log.erase k).range lo hi = log.range lo hi := by
      refine OrdMap.range_keep_of_forall log fun k' hlo hhi => ?_
      have hne : k' ≠ k := fun heq => h k List.mem_cons_self (heq ▸ ⟨hlo, hhi⟩)
      simp [hne]
    unfold evict
    split
    · rfl
    · split
      · rw [ih hkeys, herase]
      · exact ih hkeys

theorem channelRange_enforceRetention_self (size : Stored LogEntry → Nat) (st : NodeStore)
    (cpk : Key) (ch : Ulid) (maxBytes : UInt64) :
    (st.enforceRetention size cpk ch maxBytes).channelRange cpk ch 0 =
      keepNewest (fun e => size e.2) maxBytes.toNat (st.channelRange cpk ch 0) := by
  unfold enforceRetention
  dsimp only
  split
  · next hfits => rw [keepNewest_of_le hfits]
  · exact range_evict rfl

theorem channelRange_enforceRetention_of_ne (size : Stored LogEntry → Nat) (st : NodeStore)
    (maxBytes : UInt64) (h : ¬ (cpk = cpk' ∧ ch = ch')) :
    (st.enforceRetention size cpk ch maxBytes).channelRange cpk' ch' 0 =
      st.channelRange cpk' ch' 0 := by
  unfold enforceRetention
  dsimp only
  split
  · rfl
  · refine range_evict_of_notMem fun k hk => ?_
    obtain ⟨e, he, rfl⟩ := List.mem_map.mp hk
    rintro ⟨hlo, hhi⟩
    rw [mem_channelRange he] at hlo hhi
    exact h (logKey_mem_range hlo hhi)

theorem channelRange_removeCommunity_self (st : NodeStore) (cpk : Key) (ch : Ulid) :
    (st.removeCommunity cpk).channelRange cpk ch 0 = [] := by
  rw [channelRange, removeCommunity, OrdMap.eraseRange, OrdMap.range_keep, List.filter_eq_nil_iff]
  intro e he
  obtain ⟨-, hlo, hhi⟩ := OrdMap.mem_range.mp he
  have hin : cpk ++ 0#192 ≤ e.1 ∧ e.1 ≤ cpk ++ BitVec.allOnes 192 := by
    rw [BitVec.le_def, logKey_toNat] at hlo hhi
    rw [BitVec.le_def, BitVec.le_def, append_toNat, append_toNat, BitVec.toNat_allOnes,
      BitVec.toNat_ofNat]
    have hch := ch.isLt
    have hmax := maxSeq.toNat_lt
    omega
  simp only [hin.1, hin.2, decide_true, Bool.and_self, Bool.not_true, Bool.false_eq_true,
    not_false_eq_true]

theorem channelRange_removeCommunity_of_ne (st : NodeStore) (ch : Ulid) (h : cpk ≠ cpk') :
    (st.removeCommunity cpk).channelRange cpk' ch 0 = st.channelRange cpk' ch 0 := by
  refine OrdMap.range_keep_of_forall st.log fun k hlo hhi => ?_
  rw [BitVec.le_def, logKey_toNat] at hlo hhi
  have hne : cpk.toNat ≠ cpk'.toNat := fun heq => h (BitVec.eq_of_toNat_eq heq)
  have hch := ch.isLt
  have hmax := maxSeq.toNat_lt
  have hout : ¬ (cpk ++ 0#192 ≤ k ∧ k ≤ cpk ++ BitVec.allOnes 192) := by
    rintro ⟨hfirst, hlast⟩
    rw [BitVec.le_def, append_toNat] at hfirst hlast
    rw [BitVec.toNat_allOnes] at hlast
    rw [BitVec.toNat_ofNat] at hfirst
    omega
  simpa [or_iff_not_imp_left] using hout

end NodeStore

/-! ## Operations -/

/-- The operations that write the store. -/
inductive StoreOp where
  | append (cpk : Key) (ch : Ulid) (nonce : Nonce) (ct : Bytes) (mid author : String) (ts : Int)
  | retain (cpk : Key) (ch : Ulid) (maxBytes : UInt64)
  | remove (cpk : Key)
  | setMeta (cpk : Key) (m : CommunityMeta)
  | appendDm (recipientPk : Key) (author : UserId) (envelope : Bytes) (mid : Ulid) (ts : Int)

namespace NodeStore

def apply (size : Stored LogEntry → Nat) (st : NodeStore) : StoreOp → NodeStore
  | .append cpk ch nonce ct mid author ts => st.appendMessage cpk ch nonce ct mid author ts
  | .retain cpk ch maxBytes => st.enforceRetention size cpk ch maxBytes
  | .remove cpk => st.removeCommunity cpk
  | .setMeta cpk m => st.setCommunityMeta cpk m
  | .appendDm rpk author envelope mid ts => (st.appendDm rpk author envelope mid ts).1

theorem key_apply (size : Stored LogEntry → Nat) (st : NodeStore) (op : StoreOp) :
    (st.apply size op).key = st.key := by
  cases op with
  | retain cpk ch maxBytes =>
    unfold apply enforceRetention
    dsimp only
    split <;> rfl
  | append | remove | setMeta | appendDm => rfl

end NodeStore

/-- An append finds room above the last number of its channel. -/
def HasRoom (st : NodeStore) (op : StoreOp) : Prop :=
  ∀ cpk ch nonce ct mid author ts, op = .append cpk ch nonce ct mid author ts →
    st.lastSeq cpk ch ≠ some maxSeq

/-! ## Refinement of a list per channel -/

def nextSeqOf (l : List LogEntry) : UInt64 :=
  match l.getLast? with
  | some e => e.seq + 1
  | none => 0

/-- What one operation does to the log of a channel: only operations on the channel, and the
removal of its community, do anything. -/
def logStep (size : LogEntry → Nat) (cpk : Key) (ch : Ulid) (l : List LogEntry) :
    StoreOp → List LogEntry
  | .append cpk' ch' nonce ct mid author ts =>
    if cpk' = cpk ∧ ch' = ch then l ++ [⟨nextSeqOf l, nonce, ct, mid, author, ts, false⟩] else l
  | .retain cpk' ch' maxBytes =>
    if cpk' = cpk ∧ ch' = ch then keepNewest size maxBytes.toNat l else l
  | .remove cpk' => if cpk' = cpk then [] else l
  | .setMeta _ _ => l
  | .appendDm _ _ _ _ _ => l

def Holds (cpk : Key) (ch : Ulid) (st : NodeStore) (l : List LogEntry) : Prop :=
  st.channelRange cpk ch 0 = l.map fun e => (logKey cpk ch e.seq, st.sealValue e)

theorem holds_create (cpk : Key) (ch : Ulid) (key : Option Key) :
    Holds cpk ch (NodeStore.create key) [] := rfl

namespace Holds

variable {cpk : Key} {ch : Ulid} {st : NodeStore} {l : List LogEntry}

theorem nextSeq_eq (h : Holds cpk ch st l) : st.nextSeq cpk ch = nextSeqOf l := by
  unfold NodeStore.nextSeq nextSeqOf NodeStore.lastSeq
  rw [h, List.getLast?_map]
  cases hl : l.getLast? with
  | none => rfl
  | some e =>
    have hseq := NodeStore.seqOf_logKey cpk ch e.seq
    unfold NodeStore.seqOf at hseq
    simp [hseq]

/-- One operation does to the range what it does to the list. -/
theorem step {op : StoreOp} (h : Holds cpk ch st l) (hroom : HasRoom st op) :
    Holds cpk ch (st.apply size op) (logStep (fun e => size (st.sealValue e)) cpk ch l op) := by
  have hseal : ∀ e : LogEntry, (st.apply size op).sealValue e = st.sealValue e := by
    intro e
    unfold NodeStore.sealValue
    rw [NodeStore.key_apply]
  unfold Holds
  simp only [hseal]
  cases op with
  | append cpk' ch' nonce ct mid author ts =>
    dsimp only [NodeStore.apply, logStep]
    split
    · next heq =>
      obtain ⟨rfl, rfl⟩ := heq
      rw [NodeStore.channelRange_appendMessage_self st nonce ct mid author ts
        (hroom _ _ _ _ _ _ _ rfl), h, h.nextSeq_eq, List.map_append]
      rfl
    · next hne =>
      rw [NodeStore.channelRange_appendMessage_of_ne st nonce ct mid author ts 0 hne]
      exact h
  | retain cpk' ch' maxBytes =>
    dsimp only [NodeStore.apply, logStep]
    split
    · next heq =>
      obtain ⟨rfl, rfl⟩ := heq
      rw [NodeStore.channelRange_enforceRetention_self, h, keepNewest_map]
    · next hne =>
      rw [NodeStore.channelRange_enforceRetention_of_ne size st maxBytes hne]
      exact h
  | remove cpk' =>
    dsimp only [NodeStore.apply, logStep]
    split
    · next heq =>
      subst heq
      exact NodeStore.channelRange_removeCommunity_self st cpk' ch
    · next hne =>
      rw [NodeStore.channelRange_removeCommunity_of_ne st ch hne]
      exact h
  | setMeta cpk' m => exact h
  | appendDm rpk author envelope mid ts => exact h

/-- `get_messages` returns the entries of the list from the number on. -/
theorem getMessages_eq (h : Holds cpk ch st l) (since : UInt64) :
    st.getMessages cpk ch since = .ok (l.filter fun e => decide (since ≤ e.seq)) := by
  have hrange : st.channelRange cpk ch since =
      (l.filter fun e => decide (since ≤ e.seq)).map
        fun e => (logKey cpk ch e.seq, st.sealValue e) := by
    rw [NodeStore.channelRange_eq_filter, h, List.filter_map]
    congr 1
    refine List.filter_congr fun e _ => ?_
    simp [NodeStore.logKey_le_iff]
  unfold NodeStore.getMessages
  rw [hrange]
  generalize l.filter (fun e => decide (since ≤ e.seq)) = entries
  induction entries with
  | nil => rfl
  | cons e entries ih =>
    rw [List.map_cons, List.mapM_cons, ih]
    simp [NodeStore.read_sealValue]
    rfl

end Holds

/-- The operation is on the channel, or removes its community. -/
def StoreOp.Touches (cpk : Key) (ch : Ulid) : StoreOp → Prop
  | .append cpk' ch' _ _ _ _ _ => cpk' = cpk ∧ ch' = ch
  | .retain cpk' ch' _ => cpk' = cpk ∧ ch' = ch
  | .remove cpk' => cpk' = cpk
  | .setMeta _ _ => False
  | .appendDm _ _ _ _ _ => False

theorem channelRange_apply_of_not_touches {op : StoreOp} (h : ¬ op.Touches cpk ch) :
    (st.apply size op).channelRange cpk ch 0 = st.channelRange cpk ch 0 := by
  cases op with
  | append cpk' ch' nonce ct mid author ts =>
    exact NodeStore.channelRange_appendMessage_of_ne st nonce ct mid author ts 0 h
  | retain cpk' ch' maxBytes =>
    exact NodeStore.channelRange_enforceRetention_of_ne size st maxBytes h
  | remove cpk' => exact NodeStore.channelRange_removeCommunity_of_ne st ch h
  | setMeta cpk' m => rfl
  | appendDm rpk author envelope mid ts => rfl

theorem getMessages_apply_of_not_touches {op : StoreOp} (h : ¬ op.Touches cpk ch) (since : UInt64) :
    (st.apply size op).getMessages cpk ch since = st.getMessages cpk ch since := by
  unfold NodeStore.getMessages NodeStore.read
  rw [NodeStore.channelRange_eq_filter, channelRange_apply_of_not_touches h,
    ← NodeStore.channelRange_eq_filter, NodeStore.key_apply]

/-- In every run of the store, `get_messages` returns what the run of the list holds, and an
operation elsewhere does not change it. -/
theorem log_refines {size : Stored LogEntry → Nat} {key : Option Key} {ops : List StoreOp}
    (hroom : Along (NodeStore.apply size) HasRoom (NodeStore.create key) ops) (cpk : Key)
    (ch : Ulid) (since : UInt64) :
    let st := run (NodeStore.apply size) (NodeStore.create key) ops
    let log := run (logStep (fun e => size ⟨key, .ok e⟩) cpk ch) [] ops
    st.getMessages cpk ch since = .ok (log.filter fun e => decide (since ≤ e.seq)) ∧
      ∀ op, ¬ op.Touches cpk ch →
        (st.apply size op).getMessages cpk ch since = st.getMessages cpk ch since := by
  have hend : (run (NodeStore.apply size) (NodeStore.create key) ops).key = key ∧
      Holds cpk ch (run (NodeStore.apply size) (NodeStore.create key) ops)
        (run (logStep (fun e => size ⟨key, .ok e⟩) cpk ch) [] ops) := by
    refine hroom.simulates (R := fun st l => st.key = key ∧ Holds cpk ch st l) ?_
      ⟨rfl, holds_create cpk ch key⟩
    rintro st l op ⟨hkey, hholds⟩ hop
    have hstep : Holds cpk ch (st.apply size op)
        (logStep (fun e => size (st.sealValue e)) cpk ch l op) := hholds.step hop
    unfold NodeStore.sealValue at hstep
    rw [hkey] at hstep
    exact ⟨(st.key_apply size op).trans hkey, hstep⟩
  exact ⟨hend.2.getMessages_eq since,
    fun op hop => getMessages_apply_of_not_touches hop since⟩

/-! ## Sequence numbers -/

/-- Appends and retention, the operations of a run. -/
inductive AppendOrRetain : StoreOp → Prop
  | append {cpk : Key} {ch : Ulid} {nonce : Nonce} {ct : Bytes} {mid author : String} {ts : Int} :
      AppendOrRetain (.append cpk ch nonce ct mid author ts)
  | retain {cpk : Key} {ch : Ulid} {maxBytes : UInt64} : AppendOrRetain (.retain cpk ch maxBytes)

section

variable (size : Stored LogEntry → Nat) (cpk : Key) (ch : Ulid)

/-- The number that the operation hands out for the channel. -/
def handedOut (st : NodeStore) : StoreOp → List UInt64
  | .append cpk' ch' _ _ _ _ _ => if cpk' = cpk ∧ ch' = ch then [st.nextSeq cpk ch] else []
  | _ => []

/-- The numbers that `append_message` returns for the channel in a run. -/
def returned : NodeStore → List StoreOp → List UInt64
  | _, [] => []
  | st, op :: ops => handedOut cpk ch st op ++ returned (st.apply size op) ops

/-- The numbers of the channel increase over the run. -/
def SeqsIncrease (st : NodeStore) (ops : List StoreOp) : Prop :=
  (∀ op ∈ ops, AppendOrRetain op) → Along (NodeStore.apply size) HasRoom st ops →
    (returned size cpk ch st ops).Pairwise (· < ·)

/-- The condition on retention: the newest entry of the channel fits the limit. -/
def NewestFits (st : NodeStore) (op : StoreOp) : Prop :=
  ∀ maxBytes, op = .retain cpk ch maxBytes →
    ∀ e, (st.channelRange cpk ch 0).getLast? = some e → size e.2 ≤ maxBytes.toNat

variable {size cpk ch}

theorem lastSeq_appendMessage_self (nonce : Nonce) (ct : Bytes)
    (mid author : String) (ts : Int) (hroom : st.lastSeq cpk ch ≠ some maxSeq) :
    (st.appendMessage cpk ch nonce ct mid author ts).lastSeq cpk ch =
      some (st.nextSeq cpk ch) := by
  have hseq := NodeStore.seqOf_logKey cpk ch (st.nextSeq cpk ch)
  unfold NodeStore.seqOf at hseq
  rw [NodeStore.lastSeq, NodeStore.channelRange_appendMessage_self st nonce ct mid author ts hroom,
    List.getLast?_concat, Option.map_some, hseq]

theorem lt_nextSeq (hroom : st.lastSeq cpk ch ≠ some maxSeq)
    (hlast : st.lastSeq cpk ch = some last) : last < st.nextSeq cpk ch := by
  obtain ⟨e, he, rfl⟩ := Option.map_eq_some_iff.mp hlast
  exact NodeStore.seqOf_lt_nextSeq hroom (List.mem_of_getLast? he)

/-- An operation leaves the last number alone, unless it appends to the channel. -/
theorem lastSeq_apply {op : StoreOp} (hop : AppendOrRetain op)
    (hfits : NewestFits size cpk ch st op) (hout : handedOut cpk ch st op = []) :
    (st.apply size op).lastSeq cpk ch = st.lastSeq cpk ch := by
  cases hop with
  | @append cpk' ch' nonce ct mid author ts =>
    have hne : ¬ (cpk' = cpk ∧ ch' = ch) := by
      intro heq
      simp [handedOut, heq] at hout
    rw [NodeStore.lastSeq, channelRange_apply_of_not_touches (by exact hne), NodeStore.lastSeq]
  | @retain cpk' ch' maxBytes =>
    by_cases hsame : cpk' = cpk ∧ ch' = ch
    · obtain ⟨rfl, rfl⟩ := hsame
      have hnewest := getLast?_keepNewest (hfits maxBytes rfl)
      rw [NodeStore.lastSeq, NodeStore.apply, NodeStore.channelRange_enforceRetention_self, hnewest,
        NodeStore.lastSeq]
    · rw [NodeStore.lastSeq, channelRange_apply_of_not_touches (by exact hsame), NodeStore.lastSeq]

theorem handedOut_cases (cpk : Key) (ch : Ulid) (st : NodeStore) (op : StoreOp) :
    handedOut cpk ch st op = [] ∨ (handedOut cpk ch st op = [st.nextSeq cpk ch] ∧
      ∃ nonce ct mid author ts, op = .append cpk ch nonce ct mid author ts) := by
  cases op with
  | append cpk' ch' nonce ct mid author ts =>
    by_cases hsame : cpk' = cpk ∧ ch' = ch
    · obtain ⟨rfl, rfl⟩ := hsame
      exact .inr ⟨by simp [handedOut], nonce, ct, mid, author, ts, rfl⟩
    · exact .inl (by simp [handedOut, hsame])
  | retain | remove | setMeta | appendDm => exact .inl rfl

/-- The numbers that a run returns are above the last one at its start. -/
theorem lt_of_mem_returned {ops : List StoreOp}
    (hops : ∀ op ∈ ops, AppendOrRetain op) (hroom : Along (NodeStore.apply size) HasRoom st ops)
    (hfits : Along (NodeStore.apply size) (NewestFits size cpk ch) st ops) {x : UInt64}
    (hx : x ∈ returned size cpk ch st ops) {last : UInt64}
    (hlast : st.lastSeq cpk ch = some last) : last < x := by
  induction ops generalizing st last with
  | nil => cases hx
  | cons op ops ih =>
    have hrest := ih (fun op' hop' => hops op' (List.mem_cons_of_mem op hop')) hroom.2 hfits.2
    rcases handedOut_cases cpk ch st op with hnone | ⟨hone, nonce, ct, mid, author, ts, rfl⟩
    · rw [returned, hnone, List.nil_append] at hx
      refine hrest hx ?_
      rw [lastSeq_apply (hops op List.mem_cons_self) hfits.1 hnone]
      exact hlast
    · have hfree := hroom.1 _ _ _ _ _ _ _ rfl
      have hnext := lt_nextSeq hfree hlast
      rw [returned, hone] at hx
      rcases List.mem_cons.mp hx with rfl | hx
      · exact hnext
      · exact UInt64.lt_trans hnext
          (hrest hx (lastSeq_appendMessage_self nonce ct mid author ts hfree))

/-- In a run whose retention always leaves the newest entry, the numbers increase. -/
theorem seqs_increase {st : NodeStore} {ops : List StoreOp}
    (hfits : Along (NodeStore.apply size) (NewestFits size cpk ch) st ops) :
    SeqsIncrease size cpk ch st ops := by
  intro hops hroom
  induction ops generalizing st with
  | nil => exact List.Pairwise.nil
  | cons op ops ih =>
    have hops' : ∀ op' ∈ ops, AppendOrRetain op' :=
      fun op' hop' => hops op' (List.mem_cons_of_mem op hop')
    have hrest := ih hfits.2 hops' hroom.2
    rcases handedOut_cases cpk ch st op with hnone | ⟨hone, nonce, ct, mid, author, ts, rfl⟩
    · rw [returned, hnone]
      exact hrest
    · -- whatever comes later is above the number that was just handed out
      have hfree := hroom.1 _ _ _ _ _ _ _ rfl
      rw [returned, hone]
      refine List.pairwise_cons.mpr ⟨fun x hx => ?_, hrest⟩
      exact lt_of_mem_returned hops' hroom.2 hfits.2 hx
        (lastSeq_appendMessage_self nonce ct mid author ts hfree)

end

/-! ## A number that is handed out twice -/

namespace Sample

/-- The length of a number that postcard writes in groups of seven bits. -/
def varintLen (n : Nat) : Nat := n.log2 / 7 + 1

def zigzag (i : Int) : Nat := if 0 ≤ i then 2 * i.toNat else 2 * (-i).toNat - 1

def entryLen (e : LogEntry) : Nat :=
  varintLen e.seq.toNat + 24 + (varintLen e.ciphertext.length + e.ciphertext.length) +
    (varintLen e.messageId.utf8ByteSize + e.messageId.utf8ByteSize) +
    (varintLen e.authorId.utf8ByteSize + e.authorId.utf8ByteSize) +
    varintLen (zigzag e.timestampMs) + 1

/-- The length of a stored value: sealing adds a nonce and a tag. -/
def storedLen (v : Stored LogEntry) : Nat :=
  (v.value.map entryLen).getD 0 + if v.sealedUnder.isSome then 40 else 0

/-- An append to the channel 7 of the community with the key 11. -/
def appendOp (ts : Int) : StoreOp := .append 11 7 0 [1, 2, 3] "message" "author" ts

def retainOp (maxBytes : UInt64) : StoreOp := .retain 11 7 maxBytes

theorem appendOrRetain_sample {maxBytes : UInt64} :
    ∀ op ∈ [appendOp 0, retainOp maxBytes, appendOp 1], AppendOrRetain op := by
  simp only [List.mem_cons, List.not_mem_nil, or_false]
  rintro op (rfl | rfl | rfl)
  · exact .append
  · exact .retain
  · exact .append

end Sample

open Sample in
/-- A limit of one byte, which `enforce_cache_retention` sets for a storage limit of zero, empties
the channel, and the next entry gets the number of the first one. -/
theorem seq_reused :
    ¬ SeqsIncrease storedLen 11 7 (NodeStore.create none) [appendOp 0, retainOp 1, appendOp 1] := by
  intro h
  have hroom : Along (NodeStore.apply storedLen) HasRoom (NodeStore.create none)
      [appendOp 0, retainOp 1, appendOp 1] := by
    refine ⟨?_, ?_, ?_, trivial⟩
    · intro cpk ch nonce ct mid author ts heq
      cases heq
      decide +kernel
    · intro cpk ch nonce ct mid author ts heq
      cases heq
    · intro cpk ch nonce ct mid author ts heq
      cases heq
      decide +kernel
  have hsorted := h appendOrRetain_sample hroom
  revert hsorted
  decide +kernel

open Sample in
theorem seqs_increase_kept :
    returned storedLen 11 7 (NodeStore.create none)
        [appendOp 0, retainOp 100, appendOp 1] = [0, 1] ∧
      SeqsIncrease storedLen 11 7 (NodeStore.create none)
        [appendOp 0, retainOp 100, appendOp 1] := by
  refine ⟨by decide +kernel, seqs_increase ⟨?_, ?_, ?_, trivial⟩⟩
  · intro maxBytes heq
    cases heq
  · intro maxBytes heq e he
    cases heq
    have hlen : (((NodeStore.create none).apply storedLen (appendOp 0)).channelRange 11 7
        0).getLast?.map (fun e => storedLen e.2) = some 46 := by decide +kernel
    rw [he, Option.map_some, Option.some.injEq] at hlen
    rw [hlen]
    decide
  · intro maxBytes heq
    cases heq

/-! ## A run over two communities -/

namespace Sample

/-- An append to the channel 7 of another community. -/
def otherOp : StoreOp := .append 12 7 0 [4] "other" "author" 2

def mixedOps : List StoreOp := [appendOp 0, otherOp, appendOp 1, retainOp 60, .remove 12]

theorem hasRoom_mixedOps :
    Along (NodeStore.apply storedLen) HasRoom (NodeStore.create none) mixedOps := by
  refine ⟨?_, ?_, ?_, ?_, ?_, trivial⟩ <;> intro cpk ch nonce ct mid author ts heq <;> cases heq
  all_goals decide +kernel

end Sample

open Sample in
/-- Retention leaves the second of two entries, and the other community is removed. -/
theorem log_refines_mixedOps :
    (run (NodeStore.apply storedLen) (NodeStore.create none) mixedOps).getMessages 11 7 0 =
        .ok [⟨1, 0, [1, 2, 3], "message", "author", 1, false⟩] ∧
      (run (NodeStore.apply storedLen) (NodeStore.create none) mixedOps).getMessages 12 7 0 =
        .ok [] := by
  have hown := log_refines hasRoom_mixedOps 11 7 0
  have hother := log_refines hasRoom_mixedOps 12 7 0
  refine ⟨hown.1.trans ?_, hother.1.trans ?_⟩
  all_goals exact congrArg Except.ok (by decide +kernel)

end BitCord
