import BitCord.Lib.PrefixCode
import Mathlib.Algebra.Group.Nat.Defs
import Mathlib.Data.List.Infix

/-!
# The postcard wire format

Readers and writers of a format without tags: numbers are in groups of seven bits, the low one
first, texts and lists come after their length, an option after a byte that is zero or one. A reader
takes what it needs from the front, and what is left over is not looked at. A reader of a number
accepts longer forms than the writer makes, as long as the last byte fits the width.
-/

namespace Lib.Postcard

abbrev Reader (α : Type) := StateT (List UInt8) Option α

variable {α β : Type}

/-! ## Numbers -/

/-- The groups of a number, the last one without the high bit. -/
def writeVarint (n : Nat) : List UInt8 :=
  if n < 128 then [UInt8.ofNat n]
  else UInt8.ofNat (n % 128 + 128) :: writeVarint (n / 128)

/-- A number of at most `more + 1` groups, where the value of the last possible one is bounded. -/
def readGroups (bound : Nat) : Nat → List UInt8 → Option (Nat × List UInt8)
  | _, [] => none
  | 0, b :: bs => if b.toNat < bound then some (b.toNat, bs) else none
  | more + 1, b :: bs =>
    if b.toNat < 128 then some (b.toNat, bs)
    else (readGroups bound more bs).map fun r => (b.toNat - 128 + 128 * r.1, r.2)

/-- A number of the given width in bits. -/
def varint (width : Nat) : Reader Nat := readGroups (2 ^ (width % 7)) (width / 7)

theorem writeVarint_of_lt {n : Nat} (h : n < 128) : writeVarint n = [UInt8.ofNat n] := by
  rw [writeVarint, if_pos h]

variable {bs : List UInt8} {d : Reader α} {write : α → List UInt8} {r : String × List UInt8}
  {bound more n : Nat} {a : α}

theorem toNat_byte {n : Nat} (h : n < 256) : (UInt8.ofNat n).toNat = n := Nat.mod_eq_of_lt h

theorem readGroups_writeVarint (hbound : bound ≤ 128) (hn : n < bound * 128 ^ more)
    (rest : List UInt8) : readGroups bound more (writeVarint n ++ rest) = some (n, rest) := by
  induction more generalizing n with
  | zero =>
    have hsmall : n < bound := by omega
    rw [writeVarint_of_lt (by omega), List.singleton_append, readGroups, toNat_byte (by omega),
      if_pos hsmall]
  | succ more ih =>
    by_cases hlast : n < 128
    · rw [writeVarint_of_lt hlast, List.singleton_append, readGroups, toNat_byte (by omega),
        if_pos hlast]
    · have hnext : n / 128 < bound * 128 ^ more := by
        rw [Nat.div_lt_iff_lt_mul (by omega), Nat.mul_assoc, ← Nat.pow_succ]
        exact hn
      rw [writeVarint, if_neg hlast, List.cons_append, readGroups, toNat_byte (by omega),
        if_neg (by omega), ih hnext, Option.map_some]
      dsimp only
      rw [Nat.add_sub_cancel, Nat.mod_add_div]

/-- What a reader of enough groups takes back is determined by what was written. -/
theorem prefixCode_writeVarint : PrefixCode writeVarint := by
  intro n m xs ys h
  have hread : ∀ k ≤ n + m, ∀ rest, readGroups 128 (n + m) (writeVarint k ++ rest) =
      some (k, rest) := fun k hk rest =>
    readGroups_writeVarint le_rfl (Nat.lt_of_le_of_lt hk (Nat.lt_of_lt_of_le
      (Nat.lt_pow_self (by decide)) (Nat.le_mul_of_pos_left _ (by decide)))) rest
  have hn := hread n (Nat.le_add_right n m) xs
  rw [h, hread m (Nat.le_add_left m n) ys] at hn
  cases hn
  exact ⟨rfl, rfl⟩

/-- A number that is read where another one was written is that number, whatever the width. -/
theorem eq_of_readGroups_writeVarint (hbound : bound ≤ 128) {rest : List UInt8}
    {r : Nat × List UInt8} (h : readGroups bound more (writeVarint n ++ rest) = some r) :
    r = (n, rest) := by
  induction more generalizing n r with
  | zero =>
    rw [writeVarint] at h
    split at h
    · next hsmall =>
      rw [List.singleton_append, readGroups, toNat_byte (by omega)] at h
      split at h
      · exact (Option.some.inj h).symm
      · cases h
    · rw [List.cons_append, readGroups, toNat_byte (by omega), if_neg (by omega)] at h
      cases h
  | succ more ih =>
    rw [writeVarint] at h
    split at h
    · next hsmall =>
      rw [List.singleton_append, readGroups, toNat_byte (by omega), if_pos hsmall] at h
      exact (Option.some.inj h).symm
    · rw [List.cons_append, readGroups, toNat_byte (by omega), if_neg (by omega)] at h
      obtain ⟨r', hr', rfl⟩ := Option.map_eq_some_iff.mp h
      rw [ih hr']
      dsimp only
      rw [Nat.add_sub_cancel, Nat.mod_add_div]

theorem readGroups_suffix {bound more : Nat} {r : Nat × List UInt8}
    (h : readGroups bound more bs = some r) : r.2 <:+ bs := by
  induction bs generalizing more r with
  | nil => cases more <;> cases h
  | cons b bs ih =>
    cases more with
    | zero =>
      rw [readGroups] at h
      split at h
      · cases h
        exact List.suffix_cons b bs
      · cases h
    | succ more =>
      rw [readGroups] at h
      split at h
      · cases h
        exact List.suffix_cons b bs
      · obtain ⟨r', hr', rfl⟩ := Option.map_eq_some_iff.mp h
        exact (ih hr').trans (List.suffix_cons b bs)

theorem pow_mod_seven_le (width : Nat) : 2 ^ (width % 7) ≤ 128 :=
  (Nat.pow_le_pow_right (by omega) (by omega : width % 7 ≤ 7)).trans (by decide)

/-! ## Readers -/

def take (n : Nat) : Reader (List UInt8) := fun bs =>
  if n ≤ bs.length then some (bs.take n, bs.drop n) else none

def byte : Reader UInt8
  | [] => none
  | b :: bs => some (b, bs)

def string : Reader String := do
  let n ← varint 64
  let bs ← take n
  fun rest => (String.fromUTF8? ⟨bs.toArray⟩).map fun s => (s, rest)

def bool : Reader Bool := do
  let b ← byte
  if b = 0 then pure false else if b = 1 then pure true else failure

def option (d : Reader α) : Reader (Option α) := do
  let b ← byte
  if b = 0 then pure none else if b = 1 then some <$> d else failure

def repeated (d : Reader α) : Nat → Reader (List α)
  | 0 => pure []
  | n + 1 => do
    let a ← d
    let as ← repeated d n
    pure (a :: as)

def seq (d : Reader α) : Reader (List α) := do
  let n ← varint 64
  repeated d n

/-- `postcard::from_bytes`: the bytes after the value are not looked at. -/
def fromBytes (d : Reader α) (bs : List UInt8) : Option α := (d bs).map Prod.fst

/-! ## Writers -/

def writeString (s : String) : List UInt8 := writeVarint s.utf8ByteSize ++ s.toUTF8.data.toList

def writeOption (write : α → List UInt8) : Option α → List UInt8
  | none => [0]
  | some a => 1 :: write a

def writeSeq (write : α → List UInt8) (as : List α) : List UInt8 :=
  writeVarint as.length ++ as.flatMap write

/-- The reader takes exactly these bytes and gets the value. -/
def Reads (d : Reader α) (bs : List UInt8) (a : α) : Prop := ∀ rest, d (bs ++ rest) = some (a, rest)

theorem Reads.bind {f : α → Reader β} {bs bs' : List UInt8} {b : β} (h : Reads d bs a)
    (h' : Reads (f a) bs' b) : Reads (d >>= f) (bs ++ bs') b := by
  intro rest
  show (d (bs ++ bs' ++ rest)).bind (fun r => f r.1 r.2) = _
  rw [List.append_assoc, h, Option.bind_some, h']

theorem Reads.pure (a : α) : Reads (pure a) [] a := fun _ => rfl

theorem Reads.map (h : Reads d bs a) (f : α → β) : Reads (f <$> d) bs (f a) := by
  intro rest
  show (d (bs ++ rest)).bind (fun r => some (f r.1, r.2)) = _
  rw [h]
  rfl

theorem Reads.fromBytes (h : Reads d bs a) : fromBytes d bs = some a := by
  have hall := h []
  rw [List.append_nil] at hall
  rw [Postcard.fromBytes, hall]
  rfl

theorem reads_varint {width n : Nat} (h : n < 2 ^ width) :
    Reads (varint width) (writeVarint n) n := by
  refine readGroups_writeVarint (pow_mod_seven_le width) ?_
  rw [show (128 : Nat) = 2 ^ 7 by rfl, ← Nat.pow_mul, ← Nat.pow_add, Nat.mod_add_div]
  exact h

theorem reads_take : Reads (take bs.length) bs bs := by
  intro rest
  rw [take, if_pos (by rw [List.length_append]; omega), List.take_left, List.drop_left]

theorem fromUTF8?_toUTF8 (s : String) :
    String.fromUTF8? ⟨s.toUTF8.data.toList.toArray⟩ = some s := by
  have hvalid : ByteArray.IsValidUTF8 ⟨s.toUTF8.data⟩ := s.isValidUTF8
  rw [Array.toArray_toList, String.fromUTF8?, dif_pos hvalid]
  rfl

theorem reads_string {s : String} (h : s.utf8ByteSize < 2 ^ 64) :
    Reads string (writeString s) s := by
  refine (reads_varint h).bind ?_
  have hbytes : Reads (take s.utf8ByteSize) s.toUTF8.data.toList s.toUTF8.data.toList := reads_take
  rw [← List.append_nil s.toUTF8.data.toList]
  refine hbytes.bind fun rest => ?_
  rw [fromUTF8?_toUTF8]
  rfl

theorem reads_option {o : Option α} (h : ∀ a ∈ o, Reads d (write a) a) :
    Reads (option d) (writeOption write o) o := by
  cases o with
  | none => exact fun _ => rfl
  | some a => exact fun rest => (h a rfl).map some rest

theorem reads_seq {as : List α} (hlen : as.length < 2 ^ 64) (h : ∀ a ∈ as, Reads d (write a) a) :
    Reads (seq d) (writeSeq write as) as := by
  refine (reads_varint hlen).bind ?_
  clear hlen
  induction as with
  | nil => exact Reads.pure []
  | cons a as ih =>
    have hrest := Reads.bind (f := fun as => pure (a :: as))
      (ih fun b hb => h b (List.mem_cons_of_mem a hb)) (Reads.pure (a :: as))
    rw [List.append_nil] at hrest
    exact (h a List.mem_cons_self).bind hrest

/-! ## What is left over -/

theorem string_suffix (h : string bs = some r) : r.2 <:+ bs := by
  obtain ⟨n, hn, htaken⟩ := Option.bind_eq_some_iff.mp h
  obtain ⟨taken, htake, htext⟩ := Option.bind_eq_some_iff.mp htaken
  obtain ⟨s, -, rfl⟩ := Option.map_eq_some_iff.mp htext
  rw [take] at htake
  split at htake
  · cases htake
    exact (List.drop_suffix _ _).trans (readGroups_suffix hn)
  · cases htake

/-- The text that is read after a length has that length. -/
theorem string_writeVarint {n : Nat} (hn : n < 2 ^ 64) (h : string (writeVarint n ++ bs) = some r) :
    r.1.utf8ByteSize = n ∧ r.2 = bs.drop n := by
  obtain ⟨m, hm, htaken⟩ := Option.bind_eq_some_iff.mp h
  obtain ⟨taken, htake, htext⟩ := Option.bind_eq_some_iff.mp htaken
  obtain ⟨s, hs, rfl⟩ := Option.map_eq_some_iff.mp htext
  cases (reads_varint hn bs).symm.trans hm
  rw [take] at htake
  split at htake
  · next hle =>
    cases htake
    unfold String.fromUTF8? at hs
    split at hs
    · cases hs
      exact ⟨List.length_take_of_le hle, rfl⟩
    · cases hs
  · cases htake

theorem ne_none_of_option_one {r : Option α × List UInt8} (h : option d (1 :: bs) = some r) :
    r.1 ≠ none := by
  obtain ⟨a, -, ha⟩ := Option.bind_eq_some_iff.mp h
  cases ha
  exact Option.some_ne_none a.1

theorem ne_nil_of_seq_one {r : List α × List UInt8} (h : seq d (1 :: bs) = some r) : r.1 ≠ [] := by
  obtain ⟨a, -, hrest⟩ := Option.bind_eq_some_iff.mp h
  cases hrest
  exact List.cons_ne_nil a.1 []

/-- An option needs a byte that is zero or one. -/
theorem option_eq_none (h : ∀ b ∈ bs, b ≠ 0 ∧ b ≠ 1) : option d bs = none := by
  cases bs with
  | nil => rfl
  | cons b bs =>
    obtain ⟨hzero, hone⟩ := h b List.mem_cons_self
    show (if b = 0 then pure none else if b = 1 then some <$> d else failure :
      Reader (Option α)) bs = none
    rw [if_neg hzero, if_neg hone]
    rfl

end Lib.Postcard
