import BitCord.Kademlia
import BitCord.Lib.Run
import BitCord.Sample

/-!
# What a node announces about itself

The DHT has one field for the address of the node. The start of the node and the discovery of its
external address set it, and so does `dm_set_preferred_mailbox_community`, to the address of another
node. Every announcement carries what the field has (`announces_own_iff`,
`mailbox_announced_as_own`).

`register_community_peer` takes the slot of its cooldown before it looks for the address, so a call
without an address keeps the slot for a minute and announces nothing (`slot_wasted`,
`cooldown_only_repeats_iff`).
-/

namespace BitCord

open Lib Lib.Run

/-- The cooldown of `register_community_peer`. -/
def announceCooldown : Nat := 60 * 1000000000

/-- Who has set the address last. -/
inductive AddrSetter where
  | network
  | mailbox (addr : NodeAddr)
  deriving DecidableEq

/-- A node with its DHT. The last three fields only record what has happened. -/
structure Announcer where
  mailboxPk : Key
  peerId : Key
  dht : DhtState
  lastAnnounce : Dict Key Nat
  clock : Nat
  /-- `preferred_mailbox_node` of the config, in memory and in its file. -/
  preferred : Option String
  savedPreferred : Option String
  /-- The calls of `register_mailbox` that `dm_set_preferred_mailbox_community` has spawned. -/
  mailboxTasks : Nat
  /-- The addresses that the bind and the NAT discovery have set. -/
  networkAddrs : List NodeAddr
  setter : AddrSetter
  /-- When the communities were announced last. -/
  announced : Dict Key Nat

/-- An announcement with the peers it is sent to. -/
inductive Announcement where
  | communityPeer (communityPk : Key) (addr : NodeAddr) (peers : List (Key × NodeAddr))
  | peerInfo (addr : NodeAddr) (displayName : String) (peers : List (Key × NodeAddr))
  | mailbox (userPk : Key) (addr : NodeAddr) (peers : List (Key × NodeAddr))
  deriving DecidableEq

def Announcement.addr : Announcement → NodeAddr
  | communityPeer _ addr _ => addr
  | peerInfo addr _ _ => addr
  | mailbox _ addr _ => addr

inductive AnnounceInput where
  | elapse (time : Nat)
  /-- `init_node`, with the address that the server gets. -/
  | restart (hint : Option NodeAddr) (records : List (Key × CommunityPeerRecord))
      (recipients : List Key) (localAddr : NodeAddr)
  | natDiscovered (addr : NodeAddr)
  | setPreferred (communities : Dict String SignedManifest) (communityId : String) (saved : Bool)
  | clearPreferred (saved : Bool)
  | saveConfig
  | mailboxTask
  | mailboxTick
  /-- A direct message for the mailbox was stored. -/
  | dmStored (recipientPk : Key)
  | registerCommunityPeer (unixNow : UInt64) (communityPk : Key)
  | registerPeerInfo (unixNow : UInt64) (x25519Pk : Key) (displayName : String)

def IpAddr.isUnspecified : IpAddr → Bool
  | .v4 bits => decide (bits = 0)
  | .v6 bits => decide (bits = 0)

/-- The address of a record that the start of a node makes for a mailbox in its store. -/
def unspecifiedAddr : NodeAddr := ⟨.v4 0, 0⟩

/-- The DHT of a node that starts. -/
def initDht (nodePk : Key) (hint : Option NodeAddr) (records : List (Key × CommunityPeerRecord))
    (instant : Nat) (recipients : List Key) : DhtState :=
  recipients.foldl (fun dht pk => dht.addMailboxRecord instant pk unspecifiedAddr)
    (DhtState.load nodePk hint records)

/-- A server that is bound to the wildcard is announced on the loopback address. -/
def boundAddr (localAddr : NodeAddr) : NodeAddr :=
  if localAddr.ip.isUnspecified then ⟨.v4 0x7f000001, localAddr.port⟩ else localAddr

section

variable (P : Prims) (parseError : String → String)

/-- The seed node that `dm_set_preferred_mailbox_community` takes. -/
def preferredSeed (communities : Dict String SignedManifest) (communityId : String) :
    Except RpcError (String × NodeAddr) :=
  match communities.lookup communityId with
  | none => .error (notFound "community not found")
  | some signed =>
    match signed.manifest.seedNodes.head? with
    | none => .error (internalErr "community has no seed nodes configured")
    | some addrStr =>
      match P.parseNodeAddr addrStr with
      | none => .error (invalidParams (parseError addrStr))
      | some addr => .ok (addrStr, addr)

theorem parse_of_preferredSeed {communities : Dict String SignedManifest} {communityId : String}
    {seed : String × NodeAddr} (h : preferredSeed P parseError communities communityId = .ok seed) :
    P.parseNodeAddr seed.1 = some seed.2 := by
  unfold preferredSeed at h
  repeat' split at h
  all_goals cases h
  assumption

end

variable {a : Announcement}

namespace Announcer

def create (nodePk mailboxPk peerId : Key) : Announcer :=
  ⟨mailboxPk, peerId, .create nodePk none, ∅, 0, none, none, 0, [], .network, ∅⟩

/-- `update_self_addr`, as the bind and the NAT discovery call it. -/
def networkAddr (n : Announcer) (addr : NodeAddr) : Announcer :=
  { n with
    dht := n.dht.setSelfAddr addr
    networkAddrs := addr :: n.networkAddrs
    setter := .network }

def restart (n : Announcer) (hint : Option NodeAddr) (records : List (Key × CommunityPeerRecord))
    (recipients : List Key) (localAddr : NodeAddr) : Announcer :=
  networkAddr
    { n with
      dht := initDht n.dht.nodeId hint records n.clock recipients
      lastAnnounce := ∅
      preferred := n.savedPreferred
      mailboxTasks := 0
      announced := ∅ }
    (boundAddr localAddr)

/-- `dm_set_preferred_mailbox_community`, once the seed node is known. -/
def preferMailbox (n : Announcer) (saved : Bool) (addrStr : String) (addr : NodeAddr) : Announcer :=
  { n with
    preferred := some addrStr
    savedPreferred := if saved then some addrStr else n.savedPreferred
    dht := n.dht.setSelfAddr addr
    mailboxTasks := n.mailboxTasks + 1
    setter := .mailbox addr }

/-- `DhtHandle::register_mailbox`. -/
def registerMailbox (n : Announcer) (userPk : Key) : Announcer × List Announcement :=
  ({ n with dht := n.dht.announceMailbox n.clock userPk },
    match n.dht.selfAddr with
    | some addr => [.mailbox userPk addr (n.dht.closestPeers userPk bucketSize)]
    | none => [])

/-- `DhtState::acquire_announce_slot`. -/
def acquireAnnounceSlot (n : Announcer) (communityPk : Key) : Announcer × Bool :=
  if (n.lastAnnounce.lookup communityPk).all
      fun last => decide (n.clock - last ≥ announceCooldown) then
    ({ n with lastAnnounce := n.lastAnnounce.insert communityPk n.clock }, true)
  else (n, false)

/-- `DhtHandle::register_community_peer`. -/
def registerCommunityPeer (n : Announcer) (unixNow : UInt64) (communityPk : Key) :
    Announcer × List Announcement :=
  match n.acquireAnnounceSlot communityPk with
  | (n, false) => (n, [])
  | (n, true) =>
    match n.dht.selfAddr with
    | none => (n, [])
    | some addr =>
      ({ n with
          dht := n.dht.announceCommunityPeer unixNow communityPk n.dht.nodeId addr
          announced := n.announced.insert communityPk n.clock },
        [.communityPeer communityPk addr (n.dht.closestPeers communityPk bucketSize)])

/-- `DhtHandle::register_peer_info`. -/
def registerPeerInfo (n : Announcer) (unixNow : UInt64) (x25519Pk : Key) (displayName : String) :
    Announcer × List Announcement :=
  match n.dht.selfAddr with
  | none => (n, [])
  | some addr =>
    ({ n with dht := n.dht.announcePeerInfo unixNow n.peerId x25519Pk addr displayName },
      [.peerInfo addr displayName (n.dht.closestPeers n.peerId bucketSize)])

variable (P : Prims) (parseError : String → String)

def stepOut (n : Announcer) : AnnounceInput → Announcer × List Announcement
  | .elapse time => ({ n with clock := n.clock + time }, [])
  | .restart hint records recipients localAddr =>
    (n.restart hint records recipients localAddr, [])
  | .natDiscovered addr => (n.networkAddr addr, [])
  | .setPreferred communities communityId saved =>
    match preferredSeed P parseError communities communityId with
    | .error _ => (n, [])
    | .ok (addrStr, addr) => (n.preferMailbox saved addrStr addr, [])
  | .clearPreferred saved =>
    ({ n with preferred := none, savedPreferred := if saved then none else n.savedPreferred }, [])
  | .saveConfig => ({ n with savedPreferred := n.preferred }, [])
  | .mailboxTask =>
    if n.mailboxTasks = 0 then (n, [])
    else { n with mailboxTasks := n.mailboxTasks - 1 }.registerMailbox n.mailboxPk
  | .mailboxTick => if n.preferred.isSome then n.registerMailbox n.mailboxPk else (n, [])
  | .dmStored recipientPk => n.registerMailbox recipientPk
  | .registerCommunityPeer unixNow communityPk => n.registerCommunityPeer unixNow communityPk
  | .registerPeerInfo unixNow x25519Pk displayName =>
    n.registerPeerInfo unixNow x25519Pk displayName

def step (n : Announcer) (i : AnnounceInput) : Announcer := (n.stepOut P parseError i).1

def sent (n : Announcer) (i : AnnounceInput) : List Announcement := (n.stepOut P parseError i).2

/-- An announcement that says where the node, or its mailbox, is. -/
def Right (n : Announcer) : Announcement → Prop
  | .communityPeer _ addr _ => addr ∈ n.networkAddrs
  | .peerInfo addr _ _ => addr ∈ n.networkAddrs
  | .mailbox userPk addr _ => userPk = n.mailboxPk →
      ∀ addrStr, n.preferred = some addrStr → P.parseNodeAddr addrStr = some addr

/-- The last setter of the address suits the announcement: the node itself was announced under an
address of its own, and its mailbox under the preferred one. -/
def Suits (n : Announcer) : Announcement → Prop
  | .communityPeer _ _ _ => ∀ addr, n.setter = .mailbox addr → addr ∈ n.networkAddrs
  | .peerInfo _ _ _ => ∀ addr, n.setter = .mailbox addr → addr ∈ n.networkAddrs
  | .mailbox userPk _ _ => userPk = n.mailboxPk → n.setter = .network →
      ∀ addrStr, n.preferred = some addrStr → P.parseNodeAddr addrStr = n.dht.selfAddr

/-- What the last setter of the address says about it. -/
structure AddrKnown (n : Announcer) : Prop where
  network : n.setter = .network → ∀ addr, n.dht.selfAddr = some addr → addr ∈ n.networkAddrs
  mailbox : ∀ addr, n.setter = .mailbox addr → n.dht.selfAddr = some addr ∧
    ∀ addrStr, n.preferred = some addrStr → P.parseNodeAddr addrStr = some addr

variable {P parseError} {n : Announcer}

theorem selfAddr_announceMailbox (dht : DhtState) (instant : Nat) (userPk : Key) :
    (dht.announceMailbox instant userPk).selfAddr = dht.selfAddr := by
  unfold DhtState.announceMailbox
  split <;> rfl

theorem AddrKnown.networkAddr (n : Announcer) (addr : NodeAddr) :
    (n.networkAddr addr).AddrKnown P := by
  refine ⟨fun _ addr' h => ?_, fun _ h => (by cases h)⟩
  cases h
  exact List.mem_cons_self

theorem AddrKnown.registerMailbox (h : n.AddrKnown P) (userPk : Key) :
    (n.registerMailbox userPk).1.AddrKnown P := by
  constructor
  · intro hset addr haddr
    exact h.network hset addr ((selfAddr_announceMailbox n.dht n.clock userPk).symm.trans haddr)
  · intro addr hset
    exact ⟨(selfAddr_announceMailbox n.dht n.clock userPk).trans (h.mailbox addr hset).1,
      (h.mailbox addr hset).2⟩

theorem AddrKnown.registerCommunityPeer (h : n.AddrKnown P) (unixNow : UInt64) (communityPk : Key) :
    (n.registerCommunityPeer unixNow communityPk).1.AddrKnown P := by
  unfold Announcer.registerCommunityPeer acquireAnnounceSlot
  split
  · next hslot =>
    split at hslot
    · cases hslot
    · cases hslot
      exact h
  · next hslot =>
    split at hslot
    · cases hslot
      split
      · exact ⟨h.network, h.mailbox⟩
      · exact ⟨h.network, h.mailbox⟩
    · cases hslot

theorem AddrKnown.step (h : n.AddrKnown P) (i : AnnounceInput) :
    (n.step P parseError i).AddrKnown P := by
  cases i with
  | restart hint records recipients localAddr => exact .networkAddr _ _
  | natDiscovered addr => exact .networkAddr n addr
  | setPreferred communities communityId saved =>
    unfold Announcer.step stepOut
    dsimp only
    split
    · exact h
    · next addrStr addr hseed =>
      refine ⟨fun hset => (by cases hset), fun addr' hset => ?_⟩
      cases hset
      refine ⟨rfl, fun addrStr' hpref => ?_⟩
      cases hpref
      exact parse_of_preferredSeed P parseError hseed
  | clearPreferred saved =>
    exact ⟨h.network, fun addr hset => ⟨(h.mailbox addr hset).1, fun _ hpref => (by cases hpref)⟩⟩
  | mailboxTask =>
    unfold Announcer.step stepOut
    dsimp only
    split
    · exact h
    · exact AddrKnown.registerMailbox (n := { n with mailboxTasks := n.mailboxTasks - 1 })
        ⟨h.network, h.mailbox⟩ n.mailboxPk
  | mailboxTick =>
    unfold Announcer.step stepOut
    dsimp only
    split
    · exact h.registerMailbox n.mailboxPk
    · exact h
  | dmStored recipientPk => exact h.registerMailbox recipientPk
  | registerCommunityPeer unixNow communityPk => exact h.registerCommunityPeer unixNow communityPk
  | registerPeerInfo unixNow x25519Pk displayName =>
    unfold Announcer.step stepOut Announcer.registerPeerInfo
    dsimp only
    split
    · exact h
    · exact ⟨h.network, h.mailbox⟩
  | elapse time | saveConfig => exact ⟨h.network, h.mailbox⟩

theorem selfAddr_of_registerMailbox {userPk : Key} (ha : a ∈ (n.registerMailbox userPk).2) :
    n.dht.selfAddr = some a.addr := by
  unfold registerMailbox at ha
  dsimp only at ha
  split at ha
  · next addr haddr =>
    rw [List.mem_singleton.mp ha]
    exact haddr
  · cases ha

theorem selfAddr_of_registerCommunityPeer {unixNow : UInt64} {communityPk : Key}
    (ha : a ∈ (n.registerCommunityPeer unixNow communityPk).2) : n.dht.selfAddr = some a.addr := by
  unfold registerCommunityPeer acquireAnnounceSlot at ha
  split at ha
  · cases ha
  · next hslot =>
    split at hslot
    · cases hslot
      split at ha
      · cases ha
      · next addr haddr =>
        rw [List.mem_singleton.mp ha]
        exact haddr
    · cases hslot

/-- Every announcement carries the address of the DHT. -/
theorem selfAddr_of_sent {i : AnnounceInput} (ha : a ∈ n.sent P parseError i) :
    n.dht.selfAddr = some a.addr := by
  unfold sent stepOut at ha
  cases i with
  | setPreferred communities communityId saved =>
    dsimp only at ha
    split at ha <;> cases ha
  | mailboxTask =>
    dsimp only at ha
    split at ha
    · cases ha
    · exact selfAddr_of_registerMailbox (n := { n with mailboxTasks := n.mailboxTasks - 1 }) ha
  | mailboxTick =>
    dsimp only at ha
    split at ha
    · exact selfAddr_of_registerMailbox ha
    · cases ha
  | dmStored recipientPk => exact selfAddr_of_registerMailbox ha
  | registerCommunityPeer unixNow communityPk => exact selfAddr_of_registerCommunityPeer ha
  | registerPeerInfo unixNow x25519Pk displayName =>
    unfold registerPeerInfo at ha
    dsimp only at ha
    split at ha
    · cases ha
    · next addr haddr =>
      rw [List.mem_singleton.mp ha]
      exact haddr
  | _ => cases ha

theorem AddrKnown.mem_iff (h : n.AddrKnown P) {addr : NodeAddr}
    (haddr : n.dht.selfAddr = some addr) :
    addr ∈ n.networkAddrs ↔ ∀ addr', n.setter = .mailbox addr' → addr' ∈ n.networkAddrs := by
  cases hset : n.setter with
  | network => exact ⟨fun _ _ hno => (by cases hno), fun _ => h.network hset addr haddr⟩
  | mailbox addr' =>
    cases haddr.symm.trans (h.mailbox addr' hset).1
    exact ⟨fun hmem _ heq => (by cases heq; exact hmem), fun hall => hall addr rfl⟩

theorem right_iff_suits (h : n.AddrKnown P) {i : AnnounceInput} (ha : a ∈ n.sent P parseError i) :
    n.Right P a ↔ n.Suits P a := by
  have haddr := selfAddr_of_sent ha
  cases a with
  | communityPeer communityPk addr peers => exact h.mem_iff haddr
  | peerInfo addr displayName peers => exact h.mem_iff haddr
  | mailbox userPk addr peers =>
    refine forall_congr' fun _ => ?_
    rw [haddr]
    refine ⟨fun hright _ => hright, fun hsuits addrStr hpref => ?_⟩
    cases hset : n.setter with
    | network => exact hsuits hset addrStr hpref
    | mailbox addr' =>
      cases haddr.symm.trans (h.mailbox addr' hset).1
      exact (h.mailbox addr hset).2 addrStr hpref

variable (nodePk mailboxPk peerId : Key)

theorem addrKnown_create : (create nodePk mailboxPk peerId).AddrKnown P :=
  ⟨fun _ _ h => (by cases h), fun _ h => (by cases h)⟩

variable (P parseError) in
/-- Every announcement of a run carries the right address, if and only if the node announces itself
only while its address was last set by the bind or the NAT discovery, or to one of the addresses
they set, and its mailbox only while the address was last set with the preference, or to the same
address. -/
theorem announces_own_iff (nodePk mailboxPk peerId : Key) (inputs : List AnnounceInput) :
    Along (step P parseError) (fun n i => ∀ a ∈ n.sent P parseError i, n.Right P a)
        (create nodePk mailboxPk peerId) inputs ↔
      Along (step P parseError) (fun n i => ∀ a ∈ n.sent P parseError i, n.Suits P a)
        (create nodePk mailboxPk peerId) inputs := by
  have hknown : Along (step P parseError) (fun n _ => n.AddrKnown P)
      (create nodePk mailboxPk peerId) inputs :=
    Along.of_invariant (G := fun _ _ => True) (fun _ i h _ => h.step i)
      (addrKnown_create nodePk mailboxPk peerId) (along_of_forall fun _ _ _ => trivial)
  exact along_congr (hknown.imp fun n i h => forall₂_congr fun a ha => right_iff_suits h ha)

/-! ## The cooldown -/

variable (P parseError) in
/-- A call with a known address announces the community, unless it was announced less than a minute
ago. -/
def OnlyRepeats (n : Announcer) : AnnounceInput → Prop
  | .registerCommunityPeer unixNow communityPk => n.dht.selfAddr.isSome →
      (∃ addr peers, .communityPeer communityPk addr peers ∈
          n.sent P parseError (.registerCommunityPeer unixNow communityPk)) ∨
        ∃ time, n.announced.lookup communityPk = some time ∧ n.clock - time < announceCooldown
  | _ => True

/-- A call with a known address that finds the slot taken finds it taken by a call that
announced. -/
def SlotEarned (n : Announcer) : AnnounceInput → Prop
  | .registerCommunityPeer _ communityPk => n.dht.selfAddr.isSome →
      ∀ last, n.lastAnnounce.lookup communityPk = some last → n.clock - last < announceCooldown →
        n.announced.lookup communityPk = some last
  | _ => True

/-- A community that was announced has a slot from then, or from at least a minute later. -/
structure SlotsKept (n : Announcer) : Prop where
  past : ∀ c last, n.lastAnnounce.lookup c = some last → last ≤ n.clock
  slot : ∀ c time, n.announced.lookup c = some time → ∃ last, n.lastAnnounce.lookup c = some last ∧
    (last = time ∨ time + announceCooldown ≤ last)

theorem SlotsKept.registerCommunityPeer (h : n.SlotsKept) (unixNow : UInt64) (communityPk : Key) :
    (n.registerCommunityPeer unixNow communityPk).1.SlotsKept := by
  have hpast : ∀ c last, (n.lastAnnounce.insert communityPk n.clock).lookup c = some last →
      last ≤ n.clock := by
    intro c last hlast
    rw [Dict.lookup_insert_eq] at hlast
    split at hlast
    · cases hlast
      exact le_rfl
    · exact h.past c last hlast
  unfold Announcer.registerCommunityPeer acquireAnnounceSlot
  by_cases hfree : (n.lastAnnounce.lookup communityPk).all
      fun last => decide (n.clock - last ≥ announceCooldown)
  · rw [if_pos hfree]
    have hslot : ∀ c time, n.announced.lookup c = some time →
        ∃ last, (n.lastAnnounce.insert communityPk n.clock).lookup c = some last ∧
          (last = time ∨ time + announceCooldown ≤ last) := by
      intro c time htime
      obtain ⟨last, hlast, hor⟩ := h.slot c time htime
      by_cases hc : c = communityPk
      · subst hc
        refine ⟨n.clock, AList.lookup_insert _, .inr ?_⟩
        -- the new slot was free, so the old one is at least a minute older
        rw [hlast] at hfree
        have hage : n.clock - last ≥ announceCooldown := of_decide_eq_true hfree
        have hpos : 0 < announceCooldown := by decide
        omega
      · exact ⟨last, (AList.lookup_insert_ne hc).trans hlast, hor⟩
    dsimp only
    split
    · exact ⟨hpast, hslot⟩
    · refine ⟨hpast, fun c time htime => ?_⟩
      dsimp only at htime
      rw [Dict.lookup_insert_eq] at htime
      split at htime
      · next hc =>
        cases htime
        subst hc
        exact ⟨n.clock, AList.lookup_insert _, .inl rfl⟩
      · exact hslot c time htime
  · rw [if_neg hfree]
    exact h

/-- No other input changes the slots or the clock. -/
theorem SlotsKept.step (h : n.SlotsKept) (i : AnnounceInput) :
    (n.step P parseError i).SlotsKept := by
  cases i with
  | elapse time =>
    exact ⟨fun c last hlast => (h.past c last hlast).trans (Nat.le_add_right _ _), h.slot⟩
  | restart hint records recipients localAddr =>
    exact ⟨fun _ _ h => (by cases h), fun _ _ h => (by cases h)⟩
  | registerCommunityPeer unixNow communityPk => exact h.registerCommunityPeer unixNow communityPk
  | setPreferred communities communityId saved | mailboxTask | mailboxTick =>
    unfold Announcer.step stepOut
    dsimp only
    split <;> exact ⟨h.past, h.slot⟩
  | registerPeerInfo unixNow x25519Pk displayName =>
    unfold Announcer.step stepOut Announcer.registerPeerInfo
    dsimp only
    split <;> exact ⟨h.past, h.slot⟩
  | natDiscovered addr | clearPreferred saved | saveConfig | dmStored recipientPk =>
    exact ⟨h.past, h.slot⟩

/-- A call with a known address announces if and only if the slot is free. -/
theorem exists_sent_iff {unixNow : UInt64} {communityPk : Key} (haddr : n.dht.selfAddr.isSome) :
    (∃ addr peers, .communityPeer communityPk addr peers ∈
        n.sent P parseError (.registerCommunityPeer unixNow communityPk)) ↔
      (n.lastAnnounce.lookup communityPk).all
        fun last => decide (n.clock - last ≥ announceCooldown) := by
  obtain ⟨addr, haddr⟩ := Option.isSome_iff_exists.mp haddr
  unfold sent stepOut Announcer.registerCommunityPeer acquireAnnounceSlot
  dsimp only
  by_cases hfree : (n.lastAnnounce.lookup communityPk).all
      fun last => decide (n.clock - last ≥ announceCooldown)
  · rw [if_pos hfree]
    dsimp only
    rw [haddr]
    exact ⟨fun _ => hfree, fun _ => ⟨addr, _, List.mem_singleton_self _⟩⟩
  · rw [if_neg hfree]
    exact ⟨fun ⟨_, _, hmem⟩ => (by cases hmem), fun h => absurd h hfree⟩

theorem onlyRepeats_iff (h : n.SlotsKept) (i : AnnounceInput) :
    n.OnlyRepeats P parseError i ↔ n.SlotEarned i := by
  cases i with
  | registerCommunityPeer unixNow communityPk =>
    refine forall_congr' fun haddr => ?_
    rw [exists_sent_iff haddr]
    cases hlast : n.lastAnnounce.lookup communityPk with
    | none => exact ⟨fun _ _ hno => (by cases hno), fun _ => .inl rfl⟩
    | some last =>
      constructor
      · rintro (hfree | ⟨time, htime, hage⟩) last' hlast' hrecent
        · cases hlast'
          have hold : n.clock - last ≥ announceCooldown := of_decide_eq_true hfree
          omega
        · cases hlast'
          obtain ⟨last', hlast', hor⟩ := h.slot communityPk time htime
          cases hlast.symm.trans hlast'
          have hpast := h.past communityPk last hlast
          -- a slot from a minute after the announcement would be in the future
          obtain rfl | hlater := hor
          · exact htime
          · omega
      · intro hearned
        by_cases hrecent : n.clock - last < announceCooldown
        · exact .inr ⟨last, hearned last rfl hrecent, hrecent⟩
        · exact .inl (decide_eq_true (Nat.le_of_not_lt hrecent))
  | _ => exact Iff.rfl

theorem slotsKept_create : (create nodePk mailboxPk peerId).SlotsKept :=
  ⟨fun _ _ h => (by cases h), fun _ _ h => (by cases h)⟩

variable (P parseError) in
/-- The cooldown suppresses only repeated announcements in a run, if and only if no call with a
known address finds its slot taken by a call that announced nothing. -/
theorem cooldown_only_repeats_iff (nodePk mailboxPk peerId : Key) (inputs : List AnnounceInput) :
    Along (step P parseError) (OnlyRepeats P parseError) (create nodePk mailboxPk peerId) inputs ↔
      Along (step P parseError) SlotEarned (create nodePk mailboxPk peerId) inputs := by
  have hkept : Along (step P parseError) (fun n _ => n.SlotsKept)
      (create nodePk mailboxPk peerId) inputs :=
    Along.of_invariant (G := fun _ _ => True) (fun _ i h _ => h.step i)
      (slotsKept_create nodePk mailboxPk peerId) (along_of_forall fun _ _ _ => trivial)
  exact along_congr (hkept.imp fun n i h => onlyRepeats_iff h i)

end Announcer

namespace Sample

open Announcer

def seedAddr : NodeAddr := ⟨.v4 0x0a000001, 9042⟩

/-- Addresses are read as that of the seed node. -/
def seedPrims : Prims := { prims [] [] with parseNodeAddr := fun _ => some seedAddr }

def seeded : SignedManifest :=
  (CommunityManifest.mk community "" "" 31 0 [] [] ["10.0.0.1:9042"] 1 false).sign (prims [] []) 30

/-- The node starts, and its user prefers the seed node of a community as the mailbox. -/
def preferring : Announcer :=
  run (step seedPrims id) (create 31 41 51)
    [.restart none [] [] addr, .setPreferred (AList.singleton community.text seeded) community.text
      true]

end Sample

open Sample Announcer in
/-- The node announces the address of the seed node as its own. After a restart it announces its own
address as that of the mailbox. -/
theorem mailbox_announced_as_own :
    preferring.sent seedPrims id (.registerPeerInfo 0 41 "") = [.peerInfo seedAddr "" []] ∧
      ¬ preferring.Right seedPrims (.peerInfo seedAddr "" []) ∧
    (preferring.restart none [] [] addr).sent seedPrims id .mailboxTick = [.mailbox 41 addr []] ∧
      ¬ (preferring.restart none [] [] addr).Right seedPrims (.mailbox 41 addr []) := by
  have hother : seedAddr ∉ preferring.networkAddrs := by decide +kernel
  refine ⟨by decide +kernel, hother, by decide +kernel, fun h => ?_⟩
  exact absurd (h rfl "10.0.0.1:9042" (by decide +kernel)) (by decide +kernel)

open Sample Announcer in
/-- A call without an address takes the slot, and the next one announces nothing. -/
theorem slot_wasted :
    ¬ Along (step seedPrims id) (OnlyRepeats seedPrims id) (create 31 41 51)
      [.registerCommunityPeer 0 61, .natDiscovered addr, .registerCommunityPeer 0 61] := by
  rintro ⟨-, -, hcall, -⟩
  obtain ⟨addr', peers, hmem⟩ | ⟨time, htime, -⟩ := hcall (by decide +kernel)
  · exact absurd hmem (by
      rw [show sent seedPrims id _ _ = ([] : List Announcement) by decide +kernel]
      exact List.not_mem_nil)
  · exact absurd htime (by
      rw [show AList.lookup (61 : Key) _ = (none : Option Nat) by decide +kernel]
      exact nofun)

end BitCord
