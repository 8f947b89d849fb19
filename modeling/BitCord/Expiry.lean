import BitCord.CommunityPeers

/-!
# Expiry of the records of the DHT

`expire_records` drops what the lookups hide. Lookups of mailboxes go by the monotonic clock and
those of peers by the Unix clock, so no lookup sees that records were dropped (`expiry_invisible`).

The expiry task also prunes the records on disk. It drops those that are older than the limit, and
in memory those that are as old go as well (`expiry_agrees_iff`, `kept_on_disk_only`).
-/

namespace BitCord

open Lib

namespace DhtState

variable (dht : DhtState) {instant instant' : Nat} {now now' : UInt64}

/-- What is left of a record of an earlier check. -/
theorem filter_filter_of_imp {α : Type*} {p q : α → Bool} (h : ∀ a, q a = true → p a = true)
    (o : Option α) : (o.filter p).filter q = o.filter q := by
  rw [Option.filter_filter]
  refine congrArg (fun f => Option.filter f o) (funext fun a => ?_)
  cases hq : q a with
  | false => exact Bool.and_false _
  | true => rw [h a hq]; rfl

theorem lookupMailbox_eq (pk : Key) : dht.lookupMailbox instant pk =
    ((dht.mailboxes.lookup pk).filter fun r => decide (r.expiresAt > instant)).map
      MailboxRecord.addr := by
  unfold lookupMailbox
  cases dht.mailboxes.lookup pk with
  | none => rfl
  | some r => by_cases h : r.expiresAt > instant <;> simp [Option.filter, h]

theorem lookupPeerInfo_eq (peerId : Key) : dht.lookupPeerInfo now peerId =
    (dht.peerInfos.lookup peerId).filter
      fun r => decide (now.toNat - r.announcedAt.toNat < peerInfoTtlSecs) := by
  unfold lookupPeerInfo
  cases dht.peerInfos.lookup peerId with
  | none => rfl
  | some r =>
    by_cases h : now.toNat - r.announcedAt.toNat < peerInfoTtlSecs <;> simp [Option.filter, h]

theorem lookupMailbox_expireRecords (h : instant ≤ instant') (now : UInt64) (pk : Key) :
    (dht.expireRecords instant now).lookupMailbox instant' pk = dht.lookupMailbox instant' pk := by
  rw [lookupMailbox_eq, lookupMailbox_eq, expireRecords, Dict.lookup_retain]
  refine congrArg _ (filter_filter_of_imp (fun r hr => ?_) _)
  exact decide_eq_true (lt_of_le_of_lt h (of_decide_eq_true hr))

theorem lookupPeerInfo_expireRecords (instant : Nat) (h : now ≤ now') (peerId : Key) :
    (dht.expireRecords instant now).lookupPeerInfo now' peerId =
      dht.lookupPeerInfo now' peerId := by
  rw [lookupPeerInfo_eq, lookupPeerInfo_eq, expireRecords, Dict.lookup_retain]
  refine filter_filter_of_imp (fun r hr => decide_eq_true ?_) _
  have hage := of_decide_eq_true hr
  have hnow : now.toNat ≤ now'.toNat := h
  omega

theorem lookupCommunityPeers_expireRecords (instant : Nat) (h : now ≤ now') (pk : Key) :
    (dht.expireRecords instant now).lookupCommunityPeers now' pk =
      dht.lookupCommunityPeers now' pk := by
  have hpeers := dht.peersOf_expireRecords instant now pk
  unfold peersOf at hpeers
  unfold lookupCommunityPeers at hpeers ⊢
  rw [hpeers, List.filter_filter]
  refine List.filter_congr fun r _ => ?_
  have hnow : now.toNat ≤ now'.toNat := h
  rw [← Bool.decide_and]
  refine decide_eq_decide.mpr ⟨And.left, fun hage => ⟨hage, ?_⟩⟩
  omega

/-- Each record is one that a lookup returns. -/
structure AllShown (instant : Nat) (now : UInt64) : Prop where
  mailboxes : ∀ pk r, dht.mailboxes.lookup pk = some r →
    dht.lookupMailbox instant pk = some r.addr
  communityPeers : ∀ pk list, dht.communityPeers.lookup pk = some list →
    list ≠ [] ∧ dht.lookupCommunityPeers now pk = list
  peerInfos : ∀ peerId r, dht.peerInfos.lookup peerId = some r →
    dht.lookupPeerInfo now peerId = some r

theorem allShown_expireRecords (instant : Nat) (now : UInt64) :
    (dht.expireRecords instant now).AllShown instant now := by
  constructor
  · intro pk r hr
    rw [lookupMailbox_expireRecords dht le_rfl, lookupMailbox_eq]
    unfold expireRecords at hr
    rw [Dict.lookup_retain] at hr
    rw [hr]
    rfl
  · intro pk list hlist
    rw [lookupCommunityPeers_expireRecords dht instant (UInt64.le_refl now),
      ← peersOf_expireRecords dht instant]
    refine ⟨fun hnil => ?_, by rw [peersOf, hlist]; rfl⟩
    rw [lookup_communityPeers_expireRecords, Option.filter_eq_some_iff] at hlist
    rw [hnil] at hlist
    exact absurd hlist.2 (by decide)
  · intro peerId r hr
    rw [lookupPeerInfo_expireRecords dht instant (UInt64.le_refl now), lookupPeerInfo_eq]
    unfold expireRecords at hr
    rw [Dict.lookup_retain] at hr
    exact hr

/-- Lookups at a later time return the same with and without an expiry, and what an expiry leaves
is shown by the lookups at its time. -/
theorem expiry_invisible (hinstant : instant ≤ instant') (hnow : now ≤ now') :
    (∀ pk, (dht.expireRecords instant now).lookupMailbox instant' pk =
        dht.lookupMailbox instant' pk) ∧
      (∀ pk, (dht.expireRecords instant now).lookupCommunityPeers now' pk =
        dht.lookupCommunityPeers now' pk) ∧
      (∀ peerId, (dht.expireRecords instant now).lookupPeerInfo now' peerId =
        dht.lookupPeerInfo now' peerId) ∧
      (dht.expireRecords instant now).AllShown instant now :=
  ⟨dht.lookupMailbox_expireRecords hinstant now,
    dht.lookupCommunityPeers_expireRecords instant hnow,
    dht.lookupPeerInfo_expireRecords instant hnow, dht.allShown_expireRecords instant now⟩

end DhtState

open Sample in
/-- A mailbox is dropped when its time is over, and the lookups from then on do not find it with or
without the expiry. -/
theorem expiry_invisible_mailbox :
    let dht := (DhtState.create 31 none).addMailboxRecord 0 41 addr
    (dht.mailboxes.lookup 41).isSome = true ∧
      (dht.expireRecords mailboxTtl 0).mailboxes.lookup 41 = none ∧
      (dht.expireRecords mailboxTtl 0).lookupMailbox mailboxTtl 41 =
        dht.lookupMailbox mailboxTtl 41 := by
  intro dht
  exact ⟨by decide +kernel, by decide +kernel,
    (dht.expiry_invisible (Nat.le_refl mailboxTtl) (UInt64.le_refl 0)).1 41⟩

/-! ## The records on disk -/

/-- `DhtStore`: the peers by community and node, and the peer infos. -/
structure DhtStore where
  communityPeers : Dict (Key × Key) CommunityPeerRecord
  peerInfos : Dict Key PeerInfoRecord

namespace DhtStore

/-- `remove_expired_community_peers`. -/
def removeExpiredCommunityPeers (store : DhtStore) (cutoffSecs : Nat) : DhtStore :=
  { store with
    communityPeers := store.communityPeers.retain
      fun _ r => !decide (r.announcedAt.toNat < cutoffSecs) }

/-- `remove_expired_peer_infos`. -/
def removeExpiredPeerInfos (store : DhtStore) (cutoffSecs : Nat) : DhtStore :=
  { store with
    peerInfos := store.peerInfos.retain fun _ r => !decide (r.announcedAt.toNat < cutoffSecs) }

/-- What the expiry task does on disk. -/
def prune (store : DhtStore) (now : UInt64) : DhtStore :=
  (store.removeExpiredCommunityPeers (now.toNat - communityPeerTtlSecs)).removeExpiredPeerInfos
    (now.toNat - peerInfoTtlSecs)

end DhtStore

variable (dht : DhtState) (store : DhtStore) (instant : Nat) (now : UInt64)

/-- A pass of the expiry task keeps a record in memory if and only if it keeps it on disk. -/
def ExpiryAgrees : Prop :=
  (∀ c r, r ∈ dht.peersOf c → store.communityPeers.lookup (c, r.nodePk) = some r →
    (r ∈ (dht.expireRecords instant now).peersOf c ↔
      (store.prune now).communityPeers.lookup (c, r.nodePk) = some r)) ∧
  ∀ peerId r, dht.peerInfos.lookup peerId = some r → store.peerInfos.lookup peerId = some r →
    ((dht.expireRecords instant now).peerInfos.lookup peerId = some r ↔
      (store.prune now).peerInfos.lookup peerId = some r)

/-- No record that is in memory and on disk is exactly as old as the limit. -/
def NoneAtLimit : Prop :=
  (∀ c r, r ∈ dht.peersOf c → store.communityPeers.lookup (c, r.nodePk) = some r →
    r.announcedAt.toNat + communityPeerTtlSecs ≠ now.toNat) ∧
  ∀ peerId r, dht.peerInfos.lookup peerId = some r → store.peerInfos.lookup peerId = some r →
    r.announcedAt.toNat + peerInfoTtlSecs ≠ now.toNat

theorem age_tests_agree_iff {ttl : Nat} (httl : 0 < ttl) (announcedAt : Nat) :
    (now.toNat - announcedAt < ttl ↔ ¬ announcedAt < now.toNat - ttl) ↔
      announcedAt + ttl ≠ now.toNat := by
  omega

/-- A kept value is one that was there and passes the test. -/
theorem lookup_retain_eq_some_iff {κ α : Type} [DecidableEq κ] {p : κ → α → Bool} {d : Dict κ α}
    {k : κ} {a : α} (h : d.lookup k = some a) : (d.retain p).lookup k = some a ↔ p k a = true := by
  rw [Dict.lookup_retain, h, Option.filter_eq_some_iff]
  exact and_iff_right rfl

/-- Memory and disk agree exactly if no record is as old as the limit to the second. -/
theorem expiry_agrees_iff : ExpiryAgrees dht store instant now ↔ NoneAtLimit dht store now := by
  refine and_congr (forall₄_congr fun c r hr hdisk => ?_) (forall₄_congr fun id r hr hdisk => ?_)
  · have hmem : r ∈ dht.lookupCommunityPeers now c ↔
        now.toNat - r.announcedAt.toNat < communityPeerTtlSecs :=
      List.mem_filter.trans ((and_iff_right hr).trans decide_eq_true_iff)
    rw [DhtState.peersOf_expireRecords, hmem, DhtStore.prune, DhtStore.removeExpiredPeerInfos,
      DhtStore.removeExpiredCommunityPeers, lookup_retain_eq_some_iff hdisk, Bool.not_eq_true',
      decide_eq_false_iff_not]
    exact age_tests_agree_iff now (by decide) _
  · rw [DhtState.expireRecords, lookup_retain_eq_some_iff hr, decide_eq_true_iff, DhtStore.prune,
      DhtStore.removeExpiredPeerInfos, DhtStore.removeExpiredCommunityPeers,
      lookup_retain_eq_some_iff hdisk, Bool.not_eq_true', decide_eq_false_iff_not]
    exact age_tests_agree_iff now (by decide) _

open Sample in
/-- A peer that was announced an hour ago goes from memory and stays on disk. -/
theorem kept_on_disk_only :
    let r : CommunityPeerRecord := ⟨31, addr, 0⟩
    let dht := (DhtState.create 30 none).addCommunityPeerRecord 41 r
    let store : DhtStore := ⟨AList.insert (41, 31) r ∅, ∅⟩
    r ∈ dht.peersOf 41 ∧ r ∉ (dht.expireRecords 0 3600).peersOf 41 ∧
      (store.prune 3600).communityPeers.lookup (41, 31) = some r := by
  decide +kernel

end BitCord
