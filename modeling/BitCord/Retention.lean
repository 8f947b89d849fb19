import BitCord.ChannelLog
import BitCord.Lib.Nearest

/-!
# Enumerations of the store and retention

The log table has the entries of all channels, the mailbox table those of all users, both in the
order of their keys. `all_channel_ids` and `all_mailbox_recipients` walk through a table and skip a
key that names the same channel or user as the one before it (`store_enumerations`).

`enforce_retention` removes the shortest prefix of a channel that has to go for the rest to fit, and
the janitor meets its budget if each channel gets at least one byte (`retention_minimal`).
-/

namespace BitCord

open Lib Lib.Run

variable {st : NodeStore} {id : Key × Ulid}

variable (limit : UInt64) (ids : List (Key × Ulid)) (k : MailKey)

namespace NodeStore

/-! ## Channels and users in keys -/

def channelOf (k : LogKey) : Key × Ulid := (k.extractLsb' 192 256, k.extractLsb' 64 128)

/-- The user that a key of the mailbox table names. -/
def recipientOf (k : MailKey) : Key := k.extractLsb' 64 256

/-- The place of a channel in the order of the table. -/
def channelIndex (id : Key × Ulid) : Nat := id.1.toNat * 2 ^ 128 + id.2.toNat

theorem channelIndex_injective : Function.Injective channelIndex := by
  rintro ⟨cpk, ch⟩ ⟨cpk', ch'⟩ h
  have hch := ch.isLt
  have hch' := ch'.isLt
  unfold channelIndex at h
  dsimp only at h
  have hcpk : cpk = cpk' := BitVec.eq_of_toNat_eq (by omega)
  have hchan : ch = ch' := BitVec.eq_of_toNat_eq (by omega)
  rw [hcpk, hchan]

theorem channelIndex_channelOf (k : LogKey) : channelIndex (channelOf k) = k.toNat / 2 ^ 64 := by
  have hk := k.isLt
  unfold channelIndex channelOf
  rw [BitVec.extractLsb'_toNat, BitVec.extractLsb'_toNat, Nat.shiftRight_eq_div_pow,
    Nat.shiftRight_eq_div_pow]
  omega

theorem toNat_recipientOf : (recipientOf k).toNat = k.toNat / 2 ^ 64 := by
  have hk := k.isLt
  unfold recipientOf
  rw [BitVec.extractLsb'_toNat, Nat.shiftRight_eq_div_pow]
  omega

theorem channelOf_logKey (cpk : Key) (ch : Ulid) (seq : UInt64) :
    channelOf (logKey cpk ch seq) = (cpk, ch) := by
  apply channelIndex_injective
  have hseq := seq.toNat_lt
  rw [channelIndex_channelOf, logKey_toNat, channelIndex]
  dsimp only
  omega

/-- A key is made of the channel and the number in it. -/
theorem logKey_channelOf (k : LogKey) : logKey (channelOf k).1 (channelOf k).2 (seqOf k) = k := by
  apply BitVec.eq_of_toNat_eq
  have hindex : (channelOf k).1.toNat * 2 ^ 128 + (channelOf k).2.toNat = k.toNat / 2 ^ 64 :=
    channelIndex_channelOf k
  have hseq : (seqOf k).toNat = k.toNat % 2 ^ 64 := by
    simp [seqOf]
  have hsplit := Nat.div_add_mod k.toNat (2 ^ 64)
  rw [← hindex, ← hseq, Nat.mul_add] at hsplit
  rw [logKey_toNat, ← hsplit]
  ring

theorem recipientOf_mailKey (pk : Key) (seq : UInt64) : recipientOf (mailKey pk seq) = pk := by
  apply BitVec.eq_of_toNat_eq
  have hseq := seq.toNat_lt
  rw [toNat_recipientOf, mailKey_toNat]
  omega

theorem mailKey_recipientOf : mailKey (recipientOf k) (.ofBitVec (k.truncate 64)) = k := by
  apply BitVec.eq_of_toNat_eq
  have hseq : (UInt64.ofBitVec (k.truncate 64)).toNat = k.toNat % 2 ^ 64 := by
    simp
  rw [mailKey_toNat, toNat_recipientOf, hseq]
  omega

/-! ## Enumerations -/

theorem mem_allChannelIds : id ∈ st.allChannelIds ↔ ∃ e ∈ st.log.entries, channelOf e.1 = id := by
  unfold allChannelIds
  rw [mem_destutter_ne, List.mem_map]
  rfl

theorem nodup_allChannelIds (st : NodeStore) : st.allChannelIds.Nodup := by
  refine nodup_destutter_ne channelIndex_injective (List.pairwise_map.mpr ?_)
  refine st.log.sorted.imp fun {a b} hab => ?_
  show channelIndex (channelOf a.1) ≤ channelIndex (channelOf b.1)
  rw [channelIndex_channelOf, channelIndex_channelOf]
  exact Nat.div_le_div_right (BitVec.le_def.mp hab.le)

theorem mem_allMailboxRecipients {pk : Key} :
    pk ∈ st.allMailboxRecipients ↔ ∃ e ∈ st.mail.entries, recipientOf e.1 = pk := by
  unfold allMailboxRecipients
  rw [mem_destutter_ne, List.mem_map]
  rfl

theorem nodup_allMailboxRecipients (st : NodeStore) : st.allMailboxRecipients.Nodup := by
  refine nodup_destutter_ne (d := BitVec.toNat) (fun _ _ => BitVec.eq_of_toNat_eq)
    (List.pairwise_map.mpr ?_)
  refine st.mail.sorted.imp fun {a b} hab => ?_
  show (recipientOf a.1).toNat ≤ (recipientOf b.1).toNat
  rw [toNat_recipientOf, toNat_recipientOf]
  exact Nat.div_le_div_right (BitVec.le_def.mp hab.le)

end NodeStore

/-- The channel has an entry in the log table. -/
def HasEntries (st : NodeStore) (cpk : Key) (ch : Ulid) : Prop :=
  ∃ seq, (st.log.get (logKey cpk ch seq)).isSome = true

/-- The user has an entry in the mailbox table. -/
def HasMail (st : NodeStore) (pk : Key) : Prop :=
  ∃ seq, (st.mail.get (mailKey pk seq)).isSome = true

/-- In every store, reachable or not, each channel with entries and each user with a mailbox is
enumerated once, and nothing else is. -/
theorem store_enumerations (st : NodeStore) :
    (st.allChannelIds.Nodup ∧ ∀ cpk ch, (cpk, ch) ∈ st.allChannelIds ↔ HasEntries st cpk ch) ∧
      st.allMailboxRecipients.Nodup ∧ ∀ pk, pk ∈ st.allMailboxRecipients ↔ HasMail st pk := by
  refine ⟨⟨st.nodup_allChannelIds, fun cpk ch => ?_⟩, st.nodup_allMailboxRecipients, fun pk => ?_⟩
  · rw [NodeStore.mem_allChannelIds]
    constructor
    · rintro ⟨e, he, hid⟩
      refine ⟨NodeStore.seqOf e.1, Option.isSome_iff_exists.mpr ⟨e.2, ?_⟩⟩
      have hkey := NodeStore.logKey_channelOf e.1
      rw [hid] at hkey
      rw [hkey]
      exact OrdMap.get_eq_some_iff.mpr he
    · rintro ⟨seq, hseq⟩
      obtain ⟨v, hv⟩ := Option.isSome_iff_exists.mp hseq
      exact ⟨_, OrdMap.get_eq_some_iff.mp hv, NodeStore.channelOf_logKey cpk ch seq⟩
  · rw [NodeStore.mem_allMailboxRecipients]
    constructor
    · rintro ⟨e, he, rfl⟩
      refine ⟨.ofBitVec (e.1.truncate 64), Option.isSome_iff_exists.mpr ⟨e.2, ?_⟩⟩
      rw [NodeStore.mailKey_recipientOf]
      exact OrdMap.get_eq_some_iff.mpr he
    · rintro ⟨seq, hseq⟩
      obtain ⟨v, hv⟩ := Option.isSome_iff_exists.mp hseq
      exact ⟨_, OrdMap.get_eq_some_iff.mp hv, NodeStore.recipientOf_mailKey pk seq⟩

/-! ## Retention of one channel -/

def bytesOf (size : Stored LogEntry → Nat) (l : List (LogKey × Stored LogEntry)) : Nat :=
  (l.map fun e => size e.2).sum

/-- The first `n` entries of the channel, in the order of their numbers, are removed from the store
and nothing else changes; the rest fits the limit and no shorter prefix would have been enough. -/
structure EvictsPrefix (size : Stored LogEntry → Nat) (cpk : Key) (ch : Ulid) (maxBytes n : Nat)
    (st st' : NodeStore) : Prop where
  inChannel : n ≤ (st.channelRange cpk ch 0).length
  fits : bytesOf size ((st.channelRange cpk ch 0).drop n) ≤ maxBytes
  shortest : ∀ k < n, maxBytes < bytesOf size ((st.channelRange cpk ch 0).drop k)
  log : st'.log.entries = st.log.entries.filter fun e =>
    decide (e.1 ∉ ((st.channelRange cpk ch 0).take n).map Prod.fst)
  others : st' = { st with log := st'.log }

namespace NodeStore

/-- The second pass removes entries from the front until the rest fits. -/
theorem exists_evict (size : Stored LogEntry → Nat) (maxBytes : Nat) {lo hi : LogKey}
    {l : List (LogKey × Stored LogEntry)} {log : OrdMap LogKey (Stored LogEntry)}
    (h : log.range lo hi = l) :
    ∃ n ≤ l.length, bytesOf size (l.drop n) ≤ maxBytes ∧
      (∀ k < n, maxBytes < bytesOf size (l.drop k)) ∧
      (evict size maxBytes (bytesOf size l) (l.map Prod.fst) log).entries =
        log.entries.filter fun e => decide (e.1 ∉ (l.take n).map Prod.fst) := by
  -- induction on the entries that the range still has, as in `range_evict`
  induction l generalizing log with
  | nil => exact ⟨0, le_rfl, Nat.zero_le _, nofun, by simp [evict]⟩
  | cons e l ih =>
    by_cases hfits : bytesOf size (e :: l) ≤ maxBytes
    · refine ⟨0, Nat.zero_le _, hfits, nofun, ?_⟩
      rw [List.map_cons, evict, if_pos hfits]
      simp
    · have hmem : e ∈ log.range lo hi := by
        rw [h]
        exact List.mem_cons_self
      obtain ⟨n, hn, hrest, hshort, hentries⟩ := ih (range_erase_head h)
      refine ⟨n + 1, Nat.succ_le_succ hn, hrest, fun k hk => ?_, ?_⟩
      · cases k with
        | zero => exact not_le.mp hfits
        | succ k => exact hshort k (Nat.lt_of_succ_lt_succ hk)
      · have hsub : bytesOf size (e :: l) - size e.2 = bytesOf size l := by
          show size e.2 + bytesOf size l - size e.2 = _
          rw [Nat.add_sub_cancel_left]
        rw [List.map_cons, evict, if_neg hfits, OrdMap.get_of_mem_range hmem]
        dsimp only
        rw [hsub, hentries]
        show (log.entries.filter _).filter _ = _
        rw [List.filter_filter]
        refine List.filter_congr fun x _ => ?_
        rw [List.take_succ_cons, List.map_cons, Bool.eq_iff_iff]
        simp [and_comm]

theorem exists_evictsPrefix (size : Stored LogEntry → Nat) (st : NodeStore) (cpk : Key)
    (ch : Ulid) (maxBytes : UInt64) :
    ∃ n, EvictsPrefix size cpk ch maxBytes.toNat n st
      (st.enforceRetention size cpk ch maxBytes) := by
  unfold enforceRetention
  dsimp only
  split
  · next hfits =>
    exact ⟨0, Nat.zero_le _, hfits, nofun, by simp, rfl⟩
  · have hrange : st.log.range (logKey cpk ch 0) (logKey cpk ch maxSeq) =
        st.channelRange cpk ch 0 := rfl
    obtain ⟨n, hn, hfits, hshort, hentries⟩ := exists_evict size maxBytes.toNat hrange
    exact ⟨n, hn, hfits, hshort, hentries, rfl⟩

/-! ## The janitor -/

/-- The entries of a channel are those whose keys name it. -/
theorem channelRange_eq_filter_channelOf (st : NodeStore) (cpk : Key) (ch : Ulid) :
    st.channelRange cpk ch 0 =
      st.log.entries.filter fun e => decide (channelOf e.1 = (cpk, ch)) := by
  refine List.filter_congr fun e _ => ?_
  rw [← Bool.decide_and, decide_eq_decide]
  constructor
  · rintro ⟨hlo, hhi⟩
    rw [eq_logKey_of_mem hlo hhi, channelOf_logKey]
  · intro hid
    have hkey := logKey_channelOf e.1
    rw [hid] at hkey
    rw [← hkey, logKey_le_iff, logKey_le_iff]
    exact ⟨UInt64.le_iff_toNat_le.mpr (Nat.zero_le _), le_maxSeq _⟩

def channelBytes (size : Stored LogEntry → Nat) (st : NodeStore) (id : Key × Ulid) : Nat :=
  bytesOf size (st.channelRange id.1 id.2 0)

variable {size : Stored LogEntry → Nat}

theorem channelBytes_enforceRetention_self (st : NodeStore) (id : Key × Ulid) (maxBytes : UInt64) :
    (st.enforceRetention size id.1 id.2 maxBytes).channelBytes size id ≤ maxBytes.toNat := by
  unfold channelBytes bytesOf
  rw [channelRange_enforceRetention_self]
  exact sum_keepNewest_le _

/-- A channel that fits the limit fits it after the retention of any channel. -/
theorem channelBytes_enforceRetention_le {maxBytes : UInt64}
    (h : st.channelBytes size id ≤ maxBytes.toNat) (id' : Key × Ulid) :
    (st.enforceRetention size id'.1 id'.2 maxBytes).channelBytes size id ≤ maxBytes.toNat := by
  by_cases hid : id'.1 = id.1 ∧ id'.2 = id.2
  · rw [Prod.ext hid.1 hid.2]
    exact channelBytes_enforceRetention_self st id maxBytes
  · unfold channelBytes
    rw [channelRange_enforceRetention_of_ne size st maxBytes hid]
    exact h

/-- After the walk of the janitor each channel that it visited fits the limit. -/
theorem channelBytes_foldl_enforceRetention (st : NodeStore)
    (h : id ∈ ids ∨ st.channelBytes size id ≤ limit.toNat) :
    (ids.foldl (fun st id => st.enforceRetention size id.1 id.2 limit) st).channelBytes size id ≤
      limit.toNat := by
  induction ids generalizing st with
  | nil => exact h.resolve_left List.not_mem_nil
  | cons id' ids ih =>
    refine ih _ ?_
    rcases h with hmem | hfits
    · rcases List.mem_cons.mp hmem with rfl | hmem
      · exact .inr (channelBytes_enforceRetention_self st id limit)
      · exact .inl hmem
    · exact .inr (channelBytes_enforceRetention_le hfits id')

/-- Retention adds no entry. -/
theorem subset_foldl_enforceRetention (st : NodeStore) :
    (ids.foldl (fun st id => st.enforceRetention size id.1 id.2 limit) st).log.entries ⊆
      st.log.entries := by
  induction ids generalizing st with
  | nil => exact List.Subset.refl _
  | cons id ids ih =>
    obtain ⟨n, hn⟩ := exists_evictsPrefix size st id.1 id.2 limit
    have hfirst : (st.enforceRetention size id.1 id.2 limit).log.entries ⊆ st.log.entries := by
      rw [hn.log]
      exact List.filter_subset_self _
    exact List.Subset.trans (ih _) hfirst

def channelCount (st : NodeStore) : Nat :=
  (st.log.entries.map fun e => channelOf e.1).dedup.length

theorem length_allChannelIds (st : NodeStore) : st.allChannelIds.length = st.channelCount := by
  refine ((List.perm_ext_iff_of_nodup st.nodup_allChannelIds (List.nodup_dedup _)).mpr
    fun id => ?_).length_eq
  rw [mem_allChannelIds, List.mem_dedup, List.mem_map]

theorem bytes_enforceCacheRetention_le {maxTotalBytes : UInt64}
    (h : st.channelCount ≤ maxTotalBytes.toNat) :
    bytesOf size (st.enforceCacheRetention size maxTotalBytes).log.entries ≤
      maxTotalBytes.toNat := by
  rw [← length_allChannelIds] at h
  set n := st.allChannelIds.length with hn
  set limit := max (maxTotalBytes / UInt64.ofNat n) 1 with hlimit
  have hgroups : bytesOf size (st.enforceCacheRetention size maxTotalBytes).log.entries ≤
      n * limit.toNat := by
    refine sum_le_of_groups (f := fun e : LogKey × Stored LogEntry => channelOf e.1)
      (fun e he => ?_) fun id hid => ?_
    · exact mem_allChannelIds.mpr ⟨e, subset_foldl_enforceRetention limit _ st he, rfl⟩
    · rw [← channelRange_eq_filter_channelOf]
      exact channelBytes_foldl_enforceRetention limit st.allChannelIds st (.inl hid)
  refine hgroups.trans ?_
  rcases Nat.eq_zero_or_pos n with hzero | hpos
  · simp [hzero]
  · have hlt : n < 2 ^ 64 := h.trans_lt maxTotalBytes.toNat_lt
    have hshare : (maxTotalBytes / UInt64.ofNat n).toNat = maxTotalBytes.toNat / n := by
      rw [UInt64.toNat_div, UInt64.toNat_ofNat_of_lt' hlt]
    have hone : 1 ≤ maxTotalBytes.toNat / n := Nat.div_pos h hpos
    have htoNat : limit.toNat = maxTotalBytes.toNat / n := by
      have hmax : limit = if maxTotalBytes / UInt64.ofNat n ≤ 1 then 1
          else maxTotalBytes / UInt64.ofNat n := rfl
      rw [hmax]
      split
      · next hle =>
        rw [UInt64.le_iff_toNat_le, hshare] at hle
        exact le_antisymm hone hle
      · exact hshare
    rw [htoNat]
    exact Nat.mul_div_le _ _

end NodeStore

/-- Retention removes the shortest prefix of a channel that makes the rest fit, and the janitor
leaves a store that fits its budget if there is a byte for each channel. -/
theorem retention_minimal (size : Stored LogEntry → Nat) (st : NodeStore) :
    (∀ cpk ch (maxBytes : UInt64), ∃ n, EvictsPrefix size cpk ch maxBytes.toNat n st
      (st.enforceRetention size cpk ch maxBytes)) ∧
    ∀ maxTotalBytes : UInt64, st.channelCount ≤ maxTotalBytes.toNat →
      bytesOf size (st.enforceCacheRetention size maxTotalBytes).log.entries ≤
        maxTotalBytes.toNat :=
  ⟨st.exists_evictsPrefix size, fun _ h => NodeStore.bytes_enforceCacheRetention_le h⟩

open Sample in
/-- Two channels share a budget of 100 bytes, so that the one with two entries loses its first. -/
theorem retention_minimal_mixedOps :
    bytesOf storedLen (run (NodeStore.apply storedLen) (NodeStore.create none)
        [appendOp 0, otherOp, appendOp 1]).log.entries = 134 ∧
      bytesOf storedLen ((run (NodeStore.apply storedLen) (NodeStore.create none)
        [appendOp 0, otherOp, appendOp 1]).enforceCacheRetention storedLen 100).log.entries ≤ 100 :=
  ⟨by decide +kernel, (retention_minimal storedLen _).2 100 (by decide +kernel)⟩

end BitCord
