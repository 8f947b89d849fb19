import BitCord.Lib.Run
import BitCord.MessageLog

/-!
# Numbers and positions in the message log

`get_since` is asked for the entries from a number on and takes those from a position on. `append`
numbers an entry by its position, but an entry from the history of another node or from the store
keeps the number it has (`get_since_filters_iff`, `get_since_by_position`).
-/

namespace BitCord

open Lib Lib.Run

inductive LogCall where
  | append (channelId messageId authorId : String) (timestampMs : Int) (nonce : Nonce)
      (ciphertext : Bytes)
  | appendEntry (channelId : String) (entry : LogEntry)

namespace MessageLog

variable {log : MessageLog} {ch : String} {call : LogCall}

def applyCall (log : MessageLog) : LogCall → MessageLog
  | .append ch mid author ts nonce ct => log.append ch mid author ts nonce ct
  | .appendEntry ch e => log.appendEntry ch e

/-- The channel and the number of the entry that a call adds. -/
def added (log : MessageLog) : LogCall → String × UInt64
  | .append ch .. => (ch, log.len ch)
  | .appendEntry ch e => (ch, e.seq)

/-- `get_since` returns the entries that have the number or a larger one. -/
def FiltersBySeq (log : MessageLog) (ch : String) : Prop :=
  ∀ s, log.getSince ch s = (log.entries ch).filter fun e => decide (s ≤ e.seq)

/-- An entry that is added to the channel has its position as its number. A position that is no
number counts as the largest one. -/
def Numbers (ch : String) (log : MessageLog) (call : LogCall) : Prop :=
  (log.added call).1 = ch →
    (log.added call).2.toNat = min (log.entries ch).length (2 ^ 64 - 1)

/-- What an entry at the end of a list changes about dropping by number. -/
theorem drop_eq_filter_concat_iff {l : List LogEntry} {e : LogEntry} :
    (∀ s : UInt64, (l ++ [e]).drop s.toNat = (l ++ [e]).filter fun e => decide (s ≤ e.seq)) ↔
      (∀ s : UInt64, l.drop s.toNat = l.filter fun e => decide (s ≤ e.seq)) ∧
        e.seq.toNat = min l.length (2 ^ 64 - 1) := by
  have hlt := e.seq.toNat_lt
  -- the entry is behind the position and is asked for, or neither
  have hlast (s : UInt64) (hs : s.toNat ≤ l.length ↔ s ≤ e.seq) :
      (l ++ [e]).drop s.toNat = ((l ++ [e]).filter fun e => decide (s ≤ e.seq)) ↔
        l.drop s.toNat = l.filter fun e => decide (s ≤ e.seq) := by
    rw [List.drop_append, List.filter_append]
    by_cases hle : s.toNat ≤ l.length
    · rw [Nat.sub_eq_zero_of_le hle, List.drop_zero, List.filter_singleton,
        decide_eq_true (hs.mp hle)]
      exact List.append_left_inj [e]
    · have hrest : [e].drop (s.toNat - l.length) = [] :=
        List.drop_eq_nil_of_le (by rw [List.length_singleton]; omega)
      rw [hrest, List.filter_singleton, decide_eq_false (mt hs.mpr hle), cond_false,
        List.append_nil, List.append_nil]
  constructor
  · intro h
    have hmem (s : UInt64) : s.toNat ≤ l.length ↔ s ≤ e.seq := by
      have hasked : e ∈ (l ++ [e]).filter (fun e => decide (s ≤ e.seq)) ↔ s ≤ e.seq := by simp
      rw [← hasked, ← h s]
      constructor
      · intro hle
        rw [List.drop_append_of_le_length hle]
        exact List.mem_append_right _ List.mem_cons_self
      · intro hmem
        by_contra hgt
        rw [List.drop_eq_nil_of_le (by rw [List.length_append, List.length_singleton]; omega)]
          at hmem
        cases hmem
    refine ⟨fun s => (hlast s (hmem s)).mp (h s), ?_⟩
    have hle := (hmem e.seq).mpr (UInt64.le_refl _)
    have hpos : (UInt64.ofNat (min l.length (2 ^ 64 - 1))).toNat = min l.length (2 ^ 64 - 1) :=
      Nat.mod_eq_of_lt (by omega)
    have hge : (UInt64.ofNat (min l.length (2 ^ 64 - 1))).toNat ≤ e.seq.toNat :=
      (hmem _).mp (by omega)
    omega
  · rintro ⟨h, hseq⟩ s
    refine (hlast s ?_).mpr (h s)
    have hs := s.toNat_lt
    rw [UInt64.le_iff_toNat_le]
    omega

theorem entries_applyCall (log : MessageLog) (ch : String) (call : LogCall) :
    ∃ e : LogEntry, e.seq = (log.added call).2 ∧ (log.applyCall call).entries ch =
      if ch = (log.added call).1 then log.entries (log.added call).1 ++ [e]
      else log.entries ch := by
  cases call with
  | append ch' mid author ts nonce ct =>
    exact ⟨⟨log.len ch', nonce, ct, mid, author, ts, false⟩, rfl,
      entries_append log ch' mid author ts nonce ct ch⟩
  | appendEntry ch' e => exact ⟨e, rfl, entries_appendEntry log ch' e ch⟩

theorem filtersBySeq_applyCall_iff :
    (log.applyCall call).FiltersBySeq ch ↔ log.FiltersBySeq ch ∧ Numbers ch log call := by
  obtain ⟨e, hseq, hentries⟩ := log.entries_applyCall ch call
  unfold FiltersBySeq getSince Numbers
  rw [hentries, ← hseq]
  split
  · next heq =>
    rw [← heq, drop_eq_filter_concat_iff]
    exact and_congr_right fun _ => ⟨fun h _ => h, fun h => h rfl⟩
  · next hne => exact (and_iff_left fun heq => absurd heq.symm hne).symm

/-- `get_since` filters by number exactly if the entries came with their positions. -/
theorem get_since_filters_iff (calls : List LogCall) (ch : String) :
    (run applyCall empty calls).FiltersBySeq ch ↔ Along applyCall (Numbers ch) empty calls := by
  have hrun (log : MessageLog) : (run applyCall log calls).FiltersBySeq ch ↔
      log.FiltersBySeq ch ∧ Along applyCall (Numbers ch) log calls := by
    induction calls generalizing log with
    | nil => exact (and_iff_left trivial).symm
    | cons call calls ih => rw [run_cons, ih, filtersBySeq_applyCall_iff, and_assoc]; rfl
  exact (hrun empty).trans (and_iff_right fun s => by rw [getSince]; exact List.drop_nil)

/-- An entry of another node with the number five is not returned by its number. -/
theorem get_since_by_position :
    let log := run applyCall empty [.appendEntry "c" ⟨5, 0, [], "m", "a", 0, false⟩]
    log.getSince "c" 5 = [] ∧ (log.entries "c").filter (fun e => decide (5 ≤ e.seq)) ≠ [] := by
  decide +kernel

end MessageLog

end BitCord
