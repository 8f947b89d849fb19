import BitCord.ChannelLog
import BitCord.Commands
import BitCord.Delivery
import BitCord.Network
import BitCord.Roles

/-!
# Catching up on the history of a channel

After a fetched manifest a node asks a peer for the entries of each channel from a number on. The
number is the next one of its own store, and the peer answers by the numbers of its own store
(`history_complete_iff`).
-/

namespace BitCord

open Lib Lib.Run AppState

variable {ch id : String} {e : LogEntry} {s : AppState} {pk : Option Key} {ulid : Ulid}

/-! ## The answer of the peer -/

/-- `get_messages` returns the entries of the channel that are stored from the number on. -/
theorem mem_getMessages_iff {st : NodeStore} {cpk : Key} {ch : Ulid} {since : UInt64}
    {l : List LogEntry} (h : st.getMessages cpk ch since = .ok l) :
    e ∈ l ↔ ∃ n, since ≤ n ∧ st.entryAt cpk ch n = some e := by
  obtain ⟨hall, hback⟩ := mem_of_mapM_ok h
  constructor
  · intro he
    obtain ⟨x, hx, hok⟩ := hback e he
    rw [NodeStore.channelRange_eq_filter, List.mem_filter] at hx
    have hkey := NodeStore.mem_channelRange hx.1
    refine ⟨NodeStore.seqOf x.1, ?_, ?_⟩
    · have hle := of_decide_eq_true hx.2
      rw [hkey, NodeStore.logKey_le_iff] at hle
      exact hle
    · have hget := OrdMap.get_of_mem_range hx.1
      rw [NodeStore.entryAt, ← hkey, hget]
      exact NodeStore.value_of_read hok
  · rintro ⟨n, hn, hat⟩
    obtain ⟨v, hv, hvalue⟩ := Option.bind_eq_some_iff.mp hat
    have hmem : (logKey cpk ch n, v) ∈ st.channelRange cpk ch since := by
      refine OrdMap.mem_range.mpr ⟨OrdMap.get_eq_some_iff.mp hv, ?_, ?_⟩
      · exact NodeStore.logKey_le_iff.mpr hn
      · exact NodeStore.logKey_le_iff.mpr (NodeStore.le_maxSeq n)
    -- the whole range was read, so this entry was
    obtain ⟨e', he', hok⟩ := hall _ hmem
    rw [NodeStore.value_of_read hok] at hvalue
    rwa [← Option.some.inj hvalue]

/-! ## The request -/

/-- The commands added between two states, among which `asked` fetch history. -/
def Asks (s s' : AppState) (asked : List FetchChannelHistory) : Prop :=
  ∃ new, s'.commands = s.commands ++ new ∧ historyCommands new = asked

/-- The reading of the commands that sees the fetches of history. -/
def historyCommand : NetworkCommand → Option FetchChannelHistory
  | .fetchChannelHistory peerId communityId communityPk channelId sinceSeq =>
    some ⟨peerId, communityId, communityPk, channelId, sinceSeq⟩
  | _ => none

theorem historyCommands_eq (cmds : List NetworkCommand) :
    historyCommands cmds = cmds.filterMap historyCommand := rfl

theorem asks_iff {s' : AppState} {asked : List FetchChannelHistory} :
    Asks s s' asked ↔ Issues historyCommand s s' asked := Iff.rfl

section

variable {P : Prims}

theorem ignoresRoutine_historyCommand : IgnoresRoutine P historyCommand := by
  rintro cmd (_ | _ | _) <;> rfl

/-- While buffered messages are replayed nothing is buffered. -/
theorem pendingRotation_handleChannelMessage_replaying (s : AppState) (topic : String)
    (data : Bytes) :
    (s.handleChannelMessage P true topic data).pendingRotation = s.pendingRotation := by
  unfold handleChannelMessage
  split
  · next raw _ =>
    rcases handleNewMessage_cases (P := P) true s topic data raw with
      h | ⟨ch, key, plaintext, -, -, -, h⟩ | h
    · rw [h]
    · rw [h]
      exact (acceptMessage_messageFrame s _ raw plaintext).pendingRotation
    · rw [h]
      rfl
  · unfold handleChannelKeyRotation
    dsimp only
    split
    · rfl
    · split
      · rfl
      · split <;> rfl
  · exact (handleEditMessage_messageFrame s _).pendingRotation
  · exact (handleDeleteMessage_messageFrame s _).pendingRotation
  · rfl

/-- What the node asks for after a manifest: histories of channels of the manifest, each from the
next number of the log of `s`. -/
def FromOwnLog (m : ManifestReceived) (s : AppState) (cmd : FetchChannelHistory) : Prop :=
  cmd.communityId = m.communityId ∧ cmd.communityPk = m.communityPk ∧
    cmd.channelId ∈ m.channelIds ∧ cmd.sinceSeq = s.sinceSeq cmd.communityPk cmd.channelId

theorem sinceSeq_finishManifest (s : AppState) (m : ManifestReceived) (refetch : Bool) (pk : Key)
    (ch : String) : (s.finishManifest m refetch).sinceSeq pk ch = s.sinceSeq pk ch := by
  unfold finishManifest
  dsimp only
  split <;> rfl

theorem handleManifestReceived_asks (env : Env) (s : AppState) (m : ManifestReceived) :
    ∃ asked, Asks s (s.handleManifestReceived P env m) asked ∧
      ∀ cmd ∈ asked, FromOwnLog m (s.handleManifestReceived P env m) cmd := by
  have hroutine := ignoresRoutine_historyCommand (P := P)
  rcases handleManifestReceived_issues hroutine env s m with h | ⟨u, rotated, b, hu, heq⟩
  · exact ⟨[], h, fun cmd h => by cases h⟩
  · obtain ⟨t, own, hown, hfinish, hissues⟩ := settleManifest_issues hroutine env u m rotated b
    have hretry : (u.retryFetch m rotated).filterMap historyCommand = [] := by
      refine List.filterMap_eq_nil_iff.mpr fun cmd hcmd => ?_
      obtain ⟨peer, rfl⟩ := of_mem_retryFetch hcmd
      rfl
    have hself : own.filterMap historyCommand = [] := by
      rcases hown with rfl | ⟨_, _, _, rfl⟩ <;> rfl
    rw [hretry, hself] at hissues
    rw [heq]
    refine ⟨_, hu.trans hissues, fun cmd h => ?_⟩
    obtain ⟨c, hc, hcmd⟩ := List.mem_filterMap.mp h
    obtain ⟨ch, hch, rfl⟩ := of_mem_historyFetches hc
    cases hcmd
    refine ⟨rfl, rfl, hch, ?_⟩
    rw [hfinish, sinceSeq_finishManifest]

end

/-! ## The batch -/

/-- The log of a channel has an entry with this id. -/
def Knows (log : MessageLog) (ch id : String) : Prop :=
  ∃ e ∈ log.entries ch, e.messageId = id

theorem isSome_getEntry_iff {log : MessageLog} : (log.getEntry ch id).isSome ↔ Knows log ch id := by
  unfold MessageLog.getEntry Knows
  rw [List.find?_isSome]
  simp only [decide_eq_true_eq]

section

variable {P : Prims}

variable {key : Option Key}

theorem knows_integrateEntry {acc : MessageLog × Option NodeStore} :
    Knows (integrateEntry P key pk ch ulid acc e).1 ch id ↔
      Knows acc.1 ch id ∨ e.messageId = id := by
  unfold integrateEntry
  split
  · next hknown =>
    have hknows := isSome_getEntry_iff.mp hknown
    refine ⟨.inl, ?_⟩
    rintro (h | rfl)
    · exact h
    · exact hknows
  · unfold Knows
    dsimp only
    rw [MessageLog.entries_appendEntry, if_pos rfl, entries_applyReaction]
    simp only [List.mem_append, List.mem_singleton, or_and_right, exists_or, exists_eq_left]

/-- After a batch the log has the ids it had and those of the batch. -/
theorem knows_foldl_integrateEntry (batch : List LogEntry) (acc : MessageLog × Option NodeStore) :
    Knows (batch.foldl (integrateEntry P key pk ch ulid) acc).1 ch id ↔
      Knows acc.1 ch id ∨ ∃ e ∈ batch, e.messageId = id := by
  induction batch generalizing acc with
  | nil => simp
  | cons e batch ih =>
    rw [List.foldl_cons, ih, knows_integrateEntry, or_assoc]
    simp only [List.mem_cons, or_and_right, exists_or, exists_eq_left]

theorem knows_handleChannelHistoryReceived {c : String}
    {batch : List LogEntry} (hulid : parseUlid ch = some ulid) :
    Knows (s.handleChannelHistoryReceived P c ch batch).messageLog ch id ↔
      Knows s.messageLog ch id ∨ ∃ e ∈ batch, e.messageId = id := by
  unfold handleChannelHistoryReceived integrateHistory
  rw [hulid]
  exact knows_foldl_integrateEntry batch (s.messageLog, s.nodeStore)

end

/-! ## The exchange -/

/-- A fetch of the history of one channel: the manifest after which the node asks, the answer of
the peer, and what the node handles until the answer arrives. -/
structure CatchUp (P : Prims) where
  start : AppState
  env : Env
  m : ManifestReceived
  cmd : FetchChannelHistory
  asked : cmd ∈ historyCommands
    ((start.handleManifestReceived P env m).commands.drop start.commands.length)
  net : Network
  join : ClientRequest
  request : ClientRequest
  routed : net.fetchChannelHistory cmd = some (join, request)
  /-- The connection on the side of the peer, after the join. -/
  conn : Conn
  peerEnv : Env
  remote : NodeAddr
  batch : List LogEntry
  answered : (dispatch P peerEnv remote conn request).2 = .messages batch
  between : List (Env × SwarmEvent)

namespace CatchUp

variable {P : Prims} (x : CatchUp P)

def after : AppState := x.start.handleManifestReceived P x.env x.m

/-- The state of the node when the answer arrives. -/
def arrival : AppState := run (eventStep P) x.after x.between

/-- The state of the node when it has handled the answer. -/
def final : AppState :=
  x.arrival.handleChannelHistoryReceived P x.cmd.communityId x.cmd.channelId x.batch

/-- The number from which the node asks. -/
def since : UInt64 := x.after.sinceSeq x.cmd.communityPk x.cmd.channelId

def PeerHas (n : UInt64) (e : LogEntry) : Prop :=
  ∃ ulid, parseUlid x.cmd.channelId = some ulid ∧
    x.conn.services.store.entryAt x.cmd.communityPk ulid n = some e

theorem sinceSeq_cmd : x.cmd.sinceSeq = x.since := by
  obtain ⟨asked, hasks, hall⟩ := handleManifestReceived_asks (P := P) x.env x.start x.m
  have hmem := x.asked
  rw [historyCommands_eq, (asks_iff.mp hasks).filterMap_drop] at hmem
  exact (hall _ hmem).2.2.2

theorem exists_request : ∃ ulid, parseUlid x.cmd.channelId = some ulid ∧
    x.request = .getMessages x.cmd.communityPk ulid x.since := by
  have hrouted := x.routed
  unfold Network.fetchChannelHistory at hrouted
  obtain ⟨-, hmap⟩ := Option.ite_none_right_eq_some.mp hrouted
  obtain ⟨ulid, hulid, hpair⟩ := Option.map_eq_some_iff.mp hmap
  have hrequest : _ = x.request := congrArg Prod.snd hpair
  exact ⟨ulid, hulid, by rw [← hrequest, sinceSeq_cmd]⟩

theorem mem_batch_iff : e ∈ x.batch ↔ ∃ n, x.since ≤ n ∧ x.PeerHas n e := by
  obtain ⟨ulid, hulid, hrequest⟩ := x.exists_request
  have hanswer := x.answered
  rw [hrequest] at hanswer
  have hget : x.conn.services.store.getMessages x.cmd.communityPk ulid x.since = .ok x.batch := by
    simp only [dispatch] at hanswer
    split at hanswer
    · cases hanswer
    · split at hanswer
      · cases hanswer
      · split at hanswer
        · next entries hget =>
          cases hanswer
          exact hget
        · cases hanswer
  rw [mem_getMessages_iff hget]
  unfold PeerHas
  simp only [hulid, Option.some.injEq, exists_eq_left']

theorem knows_final_iff :
    Knows x.final.messageLog x.cmd.channelId id ↔
      Knows x.arrival.messageLog x.cmd.channelId id ∨
        ∃ n e, x.since ≤ n ∧ x.PeerHas n e ∧ e.messageId = id := by
  obtain ⟨ulid, hulid, -⟩ := x.exists_request
  unfold final
  rw [knows_handleChannelHistoryReceived hulid]
  refine or_congr_right ⟨?_, ?_⟩
  · rintro ⟨e, he, hid⟩
    obtain ⟨n, hn, hhas⟩ := x.mem_batch_iff.mp he
    exact ⟨n, e, hn, hhas, hid⟩
  · rintro ⟨n, e, hn, hhas, hid⟩
    exact ⟨e, x.mem_batch_iff.mpr ⟨n, hn, hhas⟩, hid⟩

/-- The peer has the message only under numbers that the node does not ask for. -/
def Skipped (id : String) : Prop :=
  (∃ n e, x.PeerHas n e ∧ e.messageId = id) ∧
    ∀ n e, x.PeerHas n e → e.messageId = id → n < x.since

/-- The answer leaves out what the peer numbers below the next number of the node's own log. The
history is complete iff the node has those messages already. -/
theorem history_complete_iff :
    (∀ n e, x.PeerHas n e → Knows x.final.messageLog x.cmd.channelId e.messageId) ↔
      ∀ id, x.Skipped id → Knows x.arrival.messageLog x.cmd.channelId id := by
  constructor
  · rintro hcomplete id ⟨⟨n, e, hhas, rfl⟩, hbelow⟩
    rcases x.knows_final_iff.mp (hcomplete n e hhas) with hknown | ⟨n', e', hn', hhas', hid⟩
    · exact hknown
    · exact absurd (hbelow n' e' hhas' hid) (UInt64.not_lt.mpr hn')
  · intro hskipped n e hhas
    by_cases hbelow : ∀ n' e', x.PeerHas n' e' → e'.messageId = e.messageId → n' < x.since
    · exact x.knows_final_iff.mpr (.inl (hskipped e.messageId ⟨⟨n, e, hhas, rfl⟩, hbelow⟩))
    · push Not at hbelow
      obtain ⟨n', e', hhas', hid, hn'⟩ := hbelow
      exact x.knows_final_iff.mpr (.inr ⟨n', e', UInt64.not_lt.mp hn', hhas', hid⟩)

end CatchUp

/-! ## Two nodes that wrote while they were apart -/

namespace Sample

def talk : Prims := prims [] [sentContent greeting]

def inChannel (sk : Key) : AppState :=
  withChannel (withMembers (withCommunity (app sk) 30) [record 20 [.member], record 30 [.admin]])
    channel 70

/-- The node after it sent a message that the other did not get. -/
def wroteAlone (sk : Key) (env : Env) : AppState :=
  ((inChannel sk).messageSend talk env greeting).1

def otherEnv : Env := { env with ulid i := BitVec.ofNat 128 (1100 + i) }

/-- The manifest that the admin's node sends. -/
def listed : ManifestReceived :=
  ⟨hexText (31 : Key),
    CommunityManifest.sign talk { (manifest 30 2).manifest with channelIds := [channel.id] } 30,
    [channel], ∅, []⟩

/-- The connection of the member at the admin's node. -/
def hostConn : Conn :=
  ⟨⟨some 21, [31]⟩, { services 31 with
    store := (wroteAlone 30 otherEnv).nodeStore.getD (NodeStore.create none) }⟩

theorem getMessages_hostConn : hostConn.services.store.getMessages 31 7 1 = .ok [] := by
  decide +kernel

/-- The member asks the admin's node after both wrote one message. -/
def apart : CatchUp talk where
  start := wroteAlone 20 env
  env := env
  m := listed
  cmd := ⟨hexText (31 : Key), community.text, 31, channel.id.text, 1⟩
  asked := by decide +kernel
  net := ⟨[hexText (31 : Key)], ∅⟩
  join := .joinCommunity (dummyCert 31) (some community.text) none
  request := .getMessages 31 7 1
  routed := by
    have hulid : parseUlid channel.id.text = some 7 := parseUlid_ulidText 7
    unfold Network.fetchChannelHistory
    rw [if_pos (by decide +kernel), hulid]
    rfl
  conn := hostConn
  peerEnv := env
  remote := addr
  batch := []
  answered := by
    have hjoined : hostConn.session.joinedCommunities.contains 31 = true := by decide +kernel
    simp only [dispatch]
    rw [if_neg (by decide), hjoined, getMessages_hostConn]
    rfl
  between := []

end Sample

open Sample in
/-- Both messages have the number 0, so the member asks from 1 on and does not get the other. -/
theorem history_incomplete :
    ∃ n e, apart.PeerHas n e ∧ ¬ Knows apart.final.messageLog apart.cmd.channelId e.messageId := by
  have hulid : parseUlid channel.id.text = some 7 := parseUlid_ulidText 7
  have hstored : (hostConn.services.store.entryAt 31 7 0).map (fun e => e.messageId) =
      some (ulidText 1100) := by
    decide +kernel
  obtain ⟨e, he, hid⟩ := Option.map_eq_some_iff.mp hstored
  refine ⟨0, e, ⟨7, hulid, he⟩, ?_⟩
  rw [hid]
  have hmissing : (apart.final.messageLog.getEntry channel.id.text (ulidText 1100)).isSome =
      false := by
    decide +kernel
  intro hknows
  have hsome := isSome_getEntry_iff.mpr hknows
  exact absurd (hsome.symm.trans hmissing) (by decide)

end BitCord
