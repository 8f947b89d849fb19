import BitCord.Dht
import BitCord.Lib.BitDigits
import BitCord.Lib.Nearest
import BitCord.Lib.Recency
import BitCord.Lib.Run

/-!
# The routing table

What holds of the table after any calls of `add_peer` (`routing_table_invariant`), and that
`closest_peers` returns the nearest entries (`closestPeers_exact`). Distances are computed byte by
byte; read as numbers they are the exclusive or of the two ids (`distance_eq`), and their order is
the order of the numbers (`distance_le_iff`). The index of a bucket is the highest bit of the
distance (`bucketIndex_distance`). A bucket is a list by recency (`Lib.touch`).
-/

namespace BitCord

open Lib

variable {id nodeId : Key} {e : Key × NodeAddr}
open Lib.Run (run run_concat invariant_of_history)

variable (nodePk : Key) (selfAddr : Option NodeAddr) (calls : List (Key × NodeAddr))

namespace DhtState

/-! ## Distances as numbers -/

/-- The distance read as a big-endian number. -/
def xorDistance (a b : Key) : Nat := (a ^^^ b).toNat

theorem distance_eq (a b : Key) : distance a b = toBytes (a ^^^ b) := by
  have hread : Function.Injective (List.map UInt8.toNat) :=
    List.map_injective_iff.mpr fun _ _ => UInt8.toNat_inj.mp
  have hdigits : fixedDigits 256 32 (a.toNat ^^^ b.toNat) =
      (fixedDigits 256 32 a.toNat).zipWith (fun x y => x ^^^ y) (fixedDigits 256 32 b.toNat) :=
    fixedDigits_xor 8 32 a.toNat b.toNat
  have hbytes : ∀ v : Key, fixedDigits 256 32 v.toNat = (toBytes v).map UInt8.toNat :=
    fun v => (map_toNat_toBytes v).symm
  apply hread
  show ((toBytes a).zipWith (fun x y => x ^^^ y) (toBytes b)).map UInt8.toNat = _
  rw [← hbytes, BitVec.toNat_xor, hdigits, hbytes, hbytes, List.map_zipWith, List.zipWith_map]
  simp only [UInt8.toNat_xor]

theorem distance_le_iff (target a b : Key) :
    distance target a ≤ distance target b ↔ xorDistance target a ≤ xorDistance target b := by
  rw [← List.not_lt, distance_eq, distance_eq, toBytes_lt_iff (by decide), BitVec.lt_def, not_lt]
  rfl

theorem xorDistance_injective (target : Key) : Function.Injective (xorDistance target) := by
  intro a b h
  exact (BitVec.xor_right_inj target).mp (BitVec.eq_of_toNat_eq h)

theorem xorDistance_ne_zero (h : id ≠ nodeId) : xorDistance nodeId id ≠ 0 := by
  intro hzero
  have hself : xorDistance nodeId nodeId = 0 := by simp [xorDistance]
  exact h (xorDistance_injective nodeId (hzero.trans hself.symm))

/-! ## The index of a bucket -/

/-- The first byte that is not zero has the highest bit of the number, wherever the scan starts. -/
theorem findSome_highestBit (bytes : Bytes) (start : Nat) (hlength : start + bytes.length = 32)
    (hne : ofFixedDigits 256 (bytes.map UInt8.toNat) ≠ 0) :
    ∃ i : Fin 256, ((bytes.zipIdx start).findSome? fun e =>
      if e.1 ≠ 0 then some (⟨255 - (e.2 * 8 + leadingZeros e.1), by omega⟩ : Fin 256) else none) =
        some i ∧ i.val = (ofFixedDigits 256 (bytes.map UInt8.toNat)).log2 := by
  induction bytes generalizing start with
  | nil => exact absurd rfl hne
  | cons byte bytes ih =>
    rw [List.length_cons] at hlength
    rw [List.map_cons] at hne ⊢
    rw [List.zipIdx_cons, List.findSome?_cons]
    by_cases hbyte : byte = 0
    · have hrest : ofFixedDigits 256 (byte.toNat :: bytes.map UInt8.toNat) =
          ofFixedDigits 256 (bytes.map UInt8.toNat) := by
        rw [ofFixedDigits_cons, hbyte]
        simp
      rw [hrest] at hne ⊢
      simp only [hbyte, ne_eq, not_true, if_false]
      exact ih (start + 1) (by omega) hne
    · have hdigit : byte.toNat ≠ 0 := fun h => hbyte (UInt8.toNat_inj.mp h)
      have hhigh : byte.toNat.log2 < 8 := (Nat.log2_lt hdigit).mpr byte.toNat_lt
      have hlog : (ofFixedDigits 256 (byte.toNat :: bytes.map UInt8.toNat)).log2 =
          8 * bytes.length + byte.toNat.log2 := by
        have hbound : ∀ x ∈ bytes.map UInt8.toNat, x < 2 ^ 8 := by
          intro x hx
          obtain ⟨y, _, rfl⟩ := List.mem_map.mp hx
          exact y.toNat_lt
        rw [show (256 : Nat) = 2 ^ 8 from rfl, log2_ofFixedDigits_cons hdigit hbound,
          List.length_map]
      simp only [ne_eq, hbyte, not_false_eq_true, if_true]
      refine ⟨_, rfl, ?_⟩
      rw [hlog]
      simp only [leadingZeros, if_neg hbyte]
      omega

/-- The distance of the id has its highest bit at `i`. -/
def InBucket (nodeId : Key) (i : Nat) (id : Key) : Prop :=
  2 ^ i ≤ xorDistance nodeId id ∧ xorDistance nodeId id < 2 ^ (i + 1)

theorem bucketIndex_distance (h : id ≠ nodeId) :
    ∃ i : Fin 256, bucketIndex (distance nodeId id) = some i ∧ InBucket nodeId i id := by
  have hread : ofFixedDigits 256 ((toBytes (nodeId ^^^ id)).map UInt8.toNat) =
      xorDistance nodeId id := by
    rw [map_toNat_toBytes, ofFixedDigits_fixedDigits, pow_bytes (by decide)]
    exact Nat.mod_eq_of_lt (nodeId ^^^ id).isLt
  have hne := xorDistance_ne_zero h
  rw [distance_eq]
  obtain ⟨i, hi, hlog⟩ := findSome_highestBit (toBytes (nodeId ^^^ id)) 0 (by simp)
    (by rwa [hread])
  rw [hread] at hlog
  exact ⟨i, hi, (Nat.log2_eq_iff hne).mp hlog.symm⟩

theorem InBucket.unique {i j : Fin 256} (hi : InBucket nodeId i id)
    (hj : InBucket nodeId j id) : i = j := by
  have hne : xorDistance nodeId id ≠ 0 := by
    have hpos : 0 < 2 ^ i.val := by positivity
    have hlow := hi.1
    omega
  exact Fin.ext (((Nat.log2_eq_iff hne).mpr hi).symm.trans ((Nat.log2_eq_iff hne).mpr hj))

/-! ## Buckets -/

def bucket (dht : DhtState) (i : Fin 256) : List (Key × NodeAddr) := dht.routingTable.get i

/-- The entries of all buckets. -/
def table (dht : DhtState) : List (Key × NodeAddr) := dht.routingTable.toList.flatten

theorem bucket_create (i : Fin 256) : (create nodePk selfAddr).bucket i = [] :=
  Vector.getElem_replicate i.isLt

theorem mem_table {dht : DhtState} : e ∈ dht.table ↔ ∃ i, e ∈ dht.bucket i := by
  unfold table
  rw [List.mem_flatten]
  constructor
  · rintro ⟨l, hl, he⟩
    obtain ⟨i, hi, rfl⟩ := Vector.mem_iff_getElem.mp (Vector.mem_toList_iff.mp hl)
    exact ⟨⟨i, hi⟩, he⟩
  · rintro ⟨i, he⟩
    exact ⟨dht.bucket i, Vector.mem_toList_iff.mpr (Vector.getElem_mem i.isLt), he⟩

theorem upsert_eq_touch (bucket : List (Key × NodeAddr)) (id : Key) (addr : NodeAddr) :
    upsert bucket id addr = touch bucketSize bucket id addr := by
  unfold upsert touch keptFor
  split
  · rfl
  · split <;> rfl

/-- What `add_peer` does with an id that is not the node's own: it is entered in its bucket, and the
other buckets stay. -/
theorem exists_bucket_addPeer (dht : DhtState) (h : id ≠ dht.nodeId) (addr : NodeAddr) :
    ∃ i : Fin 256, InBucket dht.nodeId i id ∧
      (dht.addPeer id addr).bucket i = touch bucketSize (dht.bucket i) id addr ∧
      ∀ j, j ≠ i → (dht.addPeer id addr).bucket j = dht.bucket j := by
  obtain ⟨i, hindex, hplace⟩ := bucketIndex_distance h
  have hset : dht.addPeer id addr = { dht with
      routingTable := dht.routingTable.set i (touch bucketSize (dht.bucket i) id addr) } := by
    unfold addPeer
    rw [if_neg h, hindex]
    show _ = { dht with routingTable := _ }
    rw [← upsert_eq_touch]
    rfl
  rw [hset]
  refine ⟨i, hplace, ?_, fun j hj => ?_⟩
  · exact Vector.getElem_set_self i.isLt
  · exact Vector.getElem_set_ne i.isLt j.isLt fun heq => hj (Fin.ext heq.symm)

/-! ## Runs of calls -/

/-- The state of one bucket after ids were added to the table in the given order. -/
structure KeptBucket (nodeId : Key) (added : List Key) (i : Fin 256)
    (bucket : List (Key × NodeAddr)) : Prop where
  size : bucket.length ≤ bucketSize
  place : ∀ e ∈ bucket, e.1 ≠ nodeId ∧ InBucket nodeId i e.1
  distinct : (bucket.map Prod.fst).Nodup
  order : InOrderOf added bucket

section

variable {nodeId : Key} {added : List Key} {i : Fin 256} {bucket : List (Key × NodeAddr)}

theorem keptBucket_nil (nodeId : Key) (added : List Key) (i : Fin 256) :
    KeptBucket nodeId added i [] :=
  ⟨Nat.zero_le _, nofun, List.nodup_nil, nofun, List.Pairwise.nil⟩

theorem KeptBucket.concat (h : KeptBucket nodeId added i bucket)
    (hid : id = nodeId ∨ ¬ InBucket nodeId i id) : KeptBucket nodeId (added ++ [id]) i bucket := by
  refine ⟨h.size, h.place, h.distinct, h.order.concat fun e he heq => ?_⟩
  obtain ⟨hne, hplace⟩ := h.place e he
  rw [heq] at hne hplace
  exact hid.elim hne fun hnot => hnot hplace

theorem KeptBucket.touch (h : KeptBucket nodeId added i bucket) (hne : id ≠ nodeId)
    (hplace : InBucket nodeId i id) (addr : NodeAddr) :
    KeptBucket nodeId (added ++ [id]) i (touch bucketSize bucket id addr) where
  size := length_touch_le (by decide) h.size id addr
  place := by
    intro e he
    rcases List.mem_append.mp he with hkept | hlast
    · exact h.place e ((keptFor_sublist bucketSize bucket id).subset hkept)
    · rw [List.mem_singleton.mp hlast]
      exact ⟨hne, hplace⟩
  distinct := nodup_touch h.distinct id addr
  order := h.order.touch h.distinct id addr

end

/-- A table as the node keeps it. -/
structure Routed (dht : DhtState) : Prop where
  size : ∀ i, (dht.bucket i).length ≤ bucketSize
  place : ∀ i, ∀ e ∈ dht.bucket i, e.1 ≠ dht.nodeId ∧ InBucket dht.nodeId i e.1
  distinct : (dht.table.map Prod.fst).Nodup

/-- The state of the table after ids were added to it in the given order. -/
structure Kept (added : List Key) (dht : DhtState) : Prop where
  buckets : ∀ i, KeptBucket dht.nodeId added i (dht.bucket i)

variable {dht : DhtState} {added : List Key}

/-- An id has its place in one bucket, so it is not in two. -/
theorem Kept.routed (h : Kept added dht) : dht.Routed where
  size i := (h.buckets i).size
  place i := (h.buckets i).place
  distinct := by
    unfold table
    rw [List.map_flatten, List.nodup_flatten]
    constructor
    · intro l hl
      obtain ⟨b, hb, rfl⟩ := List.mem_map.mp hl
      obtain ⟨i, hi, rfl⟩ := Vector.mem_iff_getElem.mp (Vector.mem_toList_iff.mp hb)
      exact (h.buckets ⟨i, hi⟩).distinct
    · refine List.pairwise_map.mpr (List.pairwise_iff_getElem.mpr ?_)
      intro i j hi hj hlt id hid hid'
      rw [Vector.length_toList] at hi hj
      rw [Vector.getElem_toList] at hid hid'
      obtain ⟨e, he, rfl⟩ := List.mem_map.mp hid
      obtain ⟨e', he', heq⟩ := List.mem_map.mp hid'
      have hplace := ((h.buckets ⟨i, hi⟩).place e he).2
      have hplace' := ((h.buckets ⟨j, hj⟩).place e' he').2
      rw [heq] at hplace'
      exact Nat.ne_of_lt hlt (Fin.val_eq_of_eq (hplace.unique hplace'))

theorem Routed.eq_of_mem (h : dht.Routed) {a a' : NodeAddr} (ha : (id, a) ∈ dht.table)
    (ha' : (id, a') ∈ dht.table) : a = a' :=
  congrArg Prod.snd (List.inj_on_of_nodup_map h.distinct ha ha' rfl)

theorem nodeId_addPeer (dht : DhtState) (id : Key) (addr : NodeAddr) :
    (dht.addPeer id addr).nodeId = dht.nodeId := by
  unfold addPeer
  split
  · rfl
  · split <;> rfl

theorem Kept.addPeer (h : Kept added dht) (id : Key) (addr : NodeAddr) :
    Kept (added ++ [id]) (dht.addPeer id addr) := by
  refine ⟨fun j => ?_⟩
  rw [nodeId_addPeer]
  by_cases hne : id = dht.nodeId
  · have hsame : dht.addPeer id addr = dht := if_pos hne
    rw [hsame]
    exact (h.buckets j).concat (.inl hne)
  · obtain ⟨i, hplace, hbucket, hother⟩ := exists_bucket_addPeer dht hne addr
    by_cases hj : j = i
    · rw [hj, hbucket]
      exact (h.buckets i).touch hne hplace addr
    · rw [hother j hj]
      exact (h.buckets j).concat (.inr fun hplace' => hj (hplace'.unique hplace))

/-- What a call loses: nothing, or the entry of the bucket that was added the longest ago. -/
theorem Kept.lost_addPeer (h : Kept added dht) (hne : id ≠ dht.nodeId) (addr : NodeAddr) :
    (∀ e ∈ dht.table, e.1 ≠ id → e ∈ (dht.addPeer id addr).table) ∨
      ∃ i, ∃ old ∈ dht.bucket i, InBucket dht.nodeId i id ∧
        (∀ e ∈ dht.bucket i, e ≠ old → Older added old.1 e.1) ∧
        ∀ e ∈ dht.table, e.1 ≠ id → e ≠ old → e ∈ (dht.addPeer id addr).table := by
  obtain ⟨i, hplace, hbucket, hother⟩ := exists_bucket_addPeer dht hne addr
  -- entries outside the bucket stay, so only what the bucket keeps matters
  have hstays : ∀ e ∈ dht.table, (e ∈ dht.bucket i → e ∈ keptFor bucketSize (dht.bucket i) id) →
      e ∈ (dht.addPeer id addr).table := by
    intro e he hkept
    obtain ⟨j, hj⟩ := mem_table.mp he
    by_cases hji : j = i
    · refine mem_table.mpr ⟨i, ?_⟩
      rw [hbucket]
      exact List.mem_append_left _ (hkept (hji ▸ hj))
    · exact mem_table.mpr ⟨j, by rwa [hother j hji]⟩
  rcases (h.buckets i).order.keptFor bucketSize id with hall | ⟨old, rest, hl, hrest, holder⟩
  · exact .inl fun e he hid => hstays e he fun hi => hall e hi hid
  · have hmem : ∀ e ∈ dht.bucket i, e ≠ old → e ∈ rest := by
      intro e he hold
      rw [hl] at he
      exact (List.mem_cons.mp he).resolve_left hold
    refine .inr ⟨i, old, ?_, hplace, fun e he hold => holder e (hmem e he hold), ?_⟩
    · rw [hl]
      exact List.mem_cons_self
    · intro e he _ hold
      refine hstays e he fun hi => ?_
      rw [hrest]
      exact hmem e hi hold

theorem mem_table_addPeer_self (hne : id ≠ dht.nodeId) (addr : NodeAddr) :
    (id, addr) ∈ (dht.addPeer id addr).table := by
  obtain ⟨i, _, hbucket, _⟩ := exists_bucket_addPeer dht hne addr
  refine mem_table.mpr ⟨i, ?_⟩
  rw [hbucket]
  exact List.mem_append_right _ (List.mem_singleton.mpr rfl)

theorem mem_table_of_mem_addPeer {addr : NodeAddr}
    (he : e ∈ (dht.addPeer id addr).table) (hid : e.1 ≠ id) : e ∈ dht.table := by
  by_cases hne : id = dht.nodeId
  · have hsame : dht.addPeer id addr = dht := if_pos hne
    rwa [hsame] at he
  · obtain ⟨i, _, hbucket, hother⟩ := exists_bucket_addPeer dht hne addr
    obtain ⟨j, hj⟩ := mem_table.mp he
    by_cases hji : j = i
    · rw [hji, hbucket] at hj
      rcases List.mem_append.mp hj with hkept | hlast
      · exact mem_table.mpr ⟨i, (keptFor_sublist bucketSize _ id).subset hkept⟩
      · exact absurd (congrArg Prod.fst (List.mem_singleton.mp hlast)) hid
    · exact mem_table.mpr ⟨j, by rwa [hother j hji] at hj⟩

/-- The table of a node after calls of `add_peer`. -/
def afterCalls (nodePk : Key) (selfAddr : Option NodeAddr) (calls : List (Key × NodeAddr)) :
    DhtState :=
  run (fun dht call => dht.addPeer call.1 call.2) (create nodePk selfAddr) calls

theorem nodeId_afterCalls : (afterCalls nodePk selfAddr calls).nodeId = nodePk :=
  invariant_of_history (fun (dht : DhtState) (call : Key × NodeAddr) => dht.addPeer call.1 call.2)
    (I := fun _ dht => dht.nodeId = nodePk) rfl
    (fun _ call h => (nodeId_addPeer _ call.1 call.2).trans h) calls

theorem kept_afterCalls : Kept (calls.map Prod.fst) (afterCalls nodePk selfAddr calls) := by
  refine invariant_of_history (fun (dht : DhtState) (call : Key × NodeAddr) =>
    dht.addPeer call.1 call.2) (I := fun calls dht => Kept (calls.map Prod.fst) dht) ?_ ?_ calls
  · refine ⟨fun i => ?_⟩
    rw [bucket_create]
    exact keptBucket_nil _ _ i
  · intro calls call h
    rw [List.map_append, List.map_singleton]
    exact h.addPeer call.1 call.2

/-- After every call the table is as it should be. The id that was added has the address that was
given, and nothing else is new. All other entries stay, except perhaps the one of the same bucket
that was added or refreshed the longest ago. -/
theorem routing_table_invariant (nodePk : Key) (selfAddr : Option NodeAddr)
    (calls : List (Key × NodeAddr)) (id : Key) (addr : NodeAddr) :
    let before := afterCalls nodePk selfAddr calls
    let after := before.addPeer id addr
    (after.nodeId = nodePk ∧ after.Routed) ∧
      (id ≠ nodePk →
        (∀ a, (id, a) ∈ after.table ↔ a = addr) ∧
        (∀ e ∈ after.table, e.1 ≠ id → e ∈ before.table) ∧
        ((∀ e ∈ before.table, e.1 ≠ id → e ∈ after.table) ∨
          ∃ i, ∃ old ∈ before.bucket i, InBucket nodePk i id ∧
            (∀ e ∈ before.bucket i, e ≠ old → Older (calls.map Prod.fst) old.1 e.1) ∧
            ∀ e ∈ before.table, e.1 ≠ id → e ≠ old → e ∈ after.table)) := by
  intro before after
  have hid : before.nodeId = nodePk := nodeId_afterCalls nodePk selfAddr calls
  have hkept : Kept (calls.map Prod.fst) before := kept_afterCalls nodePk selfAddr calls
  have hrouted : after.Routed := (hkept.addPeer id addr).routed
  refine ⟨⟨(nodeId_addPeer before id addr).trans hid, hrouted⟩, fun hne => ?_⟩
  rw [← hid] at hne
  have hself : (id, addr) ∈ after.table := mem_table_addPeer_self hne addr
  refine ⟨fun a => ⟨fun ha => hrouted.eq_of_mem ha hself, fun ha => ha ▸ hself⟩,
    fun e he => mem_table_of_mem_addPeer he, ?_⟩
  have hlost := hkept.lost_addPeer hne addr
  rwa [hid] at hlost

/-! ## The closest peers -/

theorem closestPeers_eq (dht : DhtState) (target : Key) (count : Nat) :
    dht.closestPeers target count =
      (sortNear Prod.fst (xorDistance target) dht.table).take count := by
  unfold closestPeers sortNear
  simp only [distance_le_iff]
  rfl

theorem Routed.nearest_closestPeers (h : dht.Routed) (target : Key) (count : Nat) :
    Nearest (fun e => xorDistance target e.1) count dht.table (dht.closestPeers target count) := by
  rw [closestPeers_eq]
  exact nearest_take_sortNear (xorDistance_injective target) h.distinct count

/-- The entries that `closest_peers` returns are the nearest entries of the table, in the order of
their distances. -/
theorem closestPeers_exact (nodePk : Key) (selfAddr : Option NodeAddr)
    (calls : List (Key × NodeAddr)) (target : Key) (count : Nat) :
    let dht := afterCalls nodePk selfAddr calls
    Nearest (fun e => xorDistance target e.1) count dht.table (dht.closestPeers target count) :=
  (kept_afterCalls nodePk selfAddr calls).routed.nearest_closestPeers target count

end DhtState

end BitCord
