import BitCord.Loop.System
import BitCord.Sample

/-!
# Joining a seed node

When the creator of a community reaches a seed node, the task that dialled asks the node to host the
community. `NodeClient::join_community` returns an error if the node refuses, but also if the
connection is lost, or if the response cannot be read or is none that it expects. The task sends
`CommunityJoinFailed` for each of them, and the event processor then removes the community
(`dials_spare_iff`, `community_lost_with_connection`).
-/

namespace BitCord

open Lib Lib.Run AppState

variable {s : AppState} {c : String} {sk : Key}

/-! ## A request on a connection -/

/-- The stages at which `do_request` fails. -/
inductive RequestError where
  | down (addr : String)
  | openStream
  | encode
  | write
  | finish
  | readLength
  | readPayload
  | decode

def RequestError.text : RequestError → String
  | .down addr => "connection to " ++ addr ++ " is down; re-authentication required"
  | .openStream => "open bidirectional QUIC stream"
  | .encode => "encode request"
  | .write => "write request frame"
  | .finish => "finish send stream"
  | .readLength => "read response length"
  | .readPayload => "read response payload"
  | .decode => "decode response"

/-- What the connection does for one request. -/
structure Exchange where
  /-- The connection is up when the request is made. -/
  alive : Bool
  opens : Bool
  encodes : Bool
  writes : Bool
  finishes : Bool
  /-- The bytes that arrive until the stream ends, or until it is lost. -/
  received : Bytes

/-- `ConnectionManager::do_request`, after the connection was established. -/
def doRequest (decodeResponse : Bytes → Option NodeResponse) (addr : String) (x : Exchange) :
    Except RequestError NodeResponse :=
  if !x.alive then .error (.down addr)
  else if !x.opens then .error .openStream
  else if !x.encodes then .error .encode
  else if !x.writes then .error .write
  else if !x.finishes then .error .finish
  else if x.received.length < 4 then .error .readLength
  else
    let len := ofFixedDigits 256 ((x.received.take 4).map UInt8.toNat)
    let payload := (x.received.drop 4).take len
    if payload.length < len then .error .readPayload
    else
      match decodeResponse payload with
      | some response => .ok response
      | none => .error .decode

/-- `NodeClient::join_community`: the text of the error, if there is one. `debug` is the text of a
response that it does not expect. -/
def joinError (debug : NodeResponse → String) : Except RequestError NodeResponse → Option String
  | .error e => some e.text
  | .ok (.authenticated _) => none
  | .ok (.error code msg) =>
    some ("join_community failed (code=" ++ toString code.toNat ++ "): " ++ msg)
  | .ok other => some ("unexpected join_community response: " ++ debug other)

/-! ## Dials -/

/-- What is fixed while the node dials. -/
structure DialConfig where
  loop : LoopConfig
  ownAddrs : List String
  decodeResponse : Bytes → Option NodeResponse
  debug : NodeResponse → String

structure SeedDial where
  env : Env
  isSeed : Bool
  target : SeedPeerInfo
  /-- The node that answers; none if the dial fails. -/
  node : Option Key
  /-- The request to join, if it is made. -/
  exchange : Exchange

section

variable (P : Prims) (cfg : DialConfig)

def SeedDial.answer (d : SeedDial) : Except RequestError NodeResponse :=
  doRequest cfg.decodeResponse (cfg.loop.addrText d.target.addr) d.exchange

def SeedDial.outcome (d : SeedDial) : Outcome :=
  match d.node with
  | some nodePk => .connected nodePk (joinError cfg.debug (d.answer cfg))
  | none => .failed

def SeedDial.events (d : SeedDial) (signingKey : Key) : List LoopEvent :=
  ((Task.dial d.isSeed d.target).actions P cfg.loop signingKey cfg.ownAddrs
    (d.outcome cfg)).filterMap TaskAction.event?

def dialStep (s : AppState) (d : SeedDial) : AppState :=
  (d.events P cfg s.signingKey).foldl
    (fun s e => s.processLoopEvent P cfg.loop.expand d.env e) s

/-- The node that was reached answered the request with `NodeResponse::Error`. -/
def SeedDial.Refused (d : SeedDial) : Prop :=
  ∃ nodePk code msg, d.node = some nodePk ∧ d.answer cfg = .ok (.error code msg)

/-- The creator reached a node for its community, and the request to join was neither accepted nor
refused. -/
structure SeedDial.Lost (signingKey : Key) (d : SeedDial) (c : String) : Prop where
  reached : ∃ nodePk, d.node = some nodePk
  creator : d.target.joinCommunity = some (P.verifyingKey signingKey, c)
  not_accepted : ∀ pk, d.answer cfg ≠ .ok (.authenticated pk)
  not_refused : ∀ code msg, d.answer cfg ≠ .ok (.error code msg)

end

/-- The tables and the store are the same. -/
structure SameData (s s' : AppState) : Prop where
  tables : s'.toTables = s.toTables
  nodeStore : s'.nodeStore = s.nodeStore

/-- The tables have nothing of the community that `remove_community_local` would remove. -/
structure NothingOf (t : Tables) (c : String) : Prop where
  community : c ∉ t.communities
  members : c ∉ t.members
  password : c ∉ t.hostingPasswords
  channels : ∀ x ∈ channelIdsOf t c, x ∉ t.channels ∧ x ∉ t.channelKeys

/-! ## One dial -/

variable {P : Prims} {cfg : DialConfig}

namespace SameData

theorem refl (s : AppState) : SameData s s := ⟨rfl, rfl⟩

theorem trans {t u : AppState} (h : SameData s t) (h' : SameData t u) : SameData s u :=
  ⟨h'.tables.trans h.tables, h'.nodeStore.trans h.nodeStore⟩

end SameData

/-- A removal changes nothing exactly if there is nothing to remove. -/
theorem sameData_removeCommunityLocal_iff :
    SameData s (s.removeCommunityLocal c) ↔ NothingOf s.toTables c := by
  constructor
  · rintro ⟨htables, -⟩
    have hcommunities : AList.erase c s.communities = s.communities :=
      congrArg (fun t : Tables => t.communities) htables
    have hmembers : AList.erase c s.members = s.members :=
      congrArg (fun t : Tables => t.members) htables
    have hpasswords : AList.erase c s.hostingPasswords = s.hostingPasswords :=
      congrArg (fun t : Tables => t.hostingPasswords) htables
    have hchannels : s.channels.eraseAll (channelIdsOf s.toTables c) = s.channels :=
      congrArg (fun t : Tables => t.channels) htables
    have hkeys : s.channelKeys.eraseAll (channelIdsOf s.toTables c) = s.channelKeys :=
      congrArg (fun t : Tables => t.channelKeys) htables
    exact ⟨Dict.erase_eq_self_iff.mp hcommunities, Dict.erase_eq_self_iff.mp hmembers,
      Dict.erase_eq_self_iff.mp hpasswords, fun x hx =>
        ⟨Dict.eraseAll_eq_self_iff.mp hchannels x hx, Dict.eraseAll_eq_self_iff.mp hkeys x hx⟩⟩
  · rintro ⟨hcommunity, hmembers, hpassword, hchannels⟩
    have hpk : communityPk? s.toTables c = none := by
      unfold communityPk?
      rw [AList.lookup_eq_none.mpr hcommunity]
      rfl
    unfold removeCommunityLocal
    dsimp only
    rw [hpk, Dict.erase_eq_self_iff.mpr hcommunity, Dict.erase_eq_self_iff.mpr hmembers,
      Dict.erase_eq_self_iff.mpr hpassword,
      Dict.eraseAll_eq_self_iff.mpr fun x hx => (hchannels x hx).1,
      Dict.eraseAll_eq_self_iff.mpr fun x hx => (hchannels x hx).2]
    exact ⟨rfl, rfl⟩

/-- The events by which a dial reports on a seed leave the data alone. -/
theorem sameData_seedPeerConnected (env : Env) (s : AppState) (c peerId : String) :
    SameData s (s.processEvent P env (.seedPeerConnected c peerId)) := by
  unfold processEvent
  split <;> exact ⟨rfl, rfl⟩

theorem sameData_seedPeerDisconnected (env : Env) (s : AppState) (c : String) :
    SameData s (s.processEvent P env (.seedPeerDisconnected c)) := by
  unfold processEvent
  split <;> exact ⟨rfl, rfl⟩

/-- The removal after a failed request to join. -/
theorem sameData_communityJoinFailed_iff (env : Env) {reason : String} :
    SameData s (s.processEvent P env (.communityJoinFailed c reason)) ↔
      s.blocked = true ∨ NothingOf s.toTables c := by
  unfold processEvent
  by_cases hblocked : s.blocked = true
  · rw [if_pos hblocked]
    exact iff_of_true (.refl s) (.inl hblocked)
  · rw [if_neg hblocked, or_iff_right hblocked, ← sameData_removeCommunityLocal_iff]
    exact ⟨fun h => ⟨h.tables, h.nodeStore⟩, fun h => ⟨h.tables, h.nodeStore⟩⟩

/-- The reports of a dial that does not end in a failed request to join. -/
inductive SeedReport : LoopEvent → Prop
  | connected (c peerId : String) : SeedReport (.app (.seedPeerConnected c peerId))
  | disconnected (c : String) : SeedReport (.app (.seedPeerDisconnected c))

variable {d : SeedDial}

theorem SeedDial.events_of_reached {nodePk : Key} (h : d.node = some nodePk) :
    d.events P cfg sk = (Task.dialed P sk d.isSeed d.target nodePk
      (joinError cfg.debug (d.answer cfg))).filterMap TaskAction.event? := by
  unfold SeedDial.events SeedDial.outcome
  rw [h]
  rfl

theorem SeedDial.events_of_unreached (h : d.node = none) :
    d.events P cfg sk = (Task.dialFailed cfg.loop cfg.ownAddrs d.isSeed d.target).filterMap
      TaskAction.event? := by
  unfold SeedDial.events SeedDial.outcome
  rw [h]
  rfl

/-- Whatever happened to the request, the task says that it failed. -/
theorem SeedDial.Lost.events_eq (h : d.Lost P cfg sk c) :
    ∃ reason, d.events P cfg sk = [.app (.communityJoinFailed c reason)] := by
  obtain ⟨nodePk, hnode⟩ := h.reached
  have herror : ∃ reason, joinError cfg.debug (d.answer cfg) = some reason := by
    have haccepted := h.not_accepted
    generalize d.answer cfg = answer at haccepted ⊢
    unfold joinError
    split
    · exact ⟨_, rfl⟩
    · exact absurd rfl (haccepted _)
    · exact ⟨_, rfl⟩
    · exact ⟨_, rfl⟩
  obtain ⟨reason, hreason⟩ := herror
  refine ⟨reason, ?_⟩
  rw [SeedDial.events_of_reached hnode, hreason]
  unfold Task.dialed
  rw [h.creator]
  dsimp only
  rw [if_pos rfl]
  rfl

/-- A dial that fails, that is accepted, or that is not for a community of the node only reports on
the seed. -/
theorem SeedDial.events_of_not_lost (hrefused : ¬ d.Refused cfg)
    (hlost : ∀ c, ¬ d.Lost P cfg sk c) : ∀ e ∈ d.events P cfg sk, SeedReport e := by
  intro e he
  cases hnode : d.node with
  | none =>
    rw [SeedDial.events_of_unreached hnode] at he
    obtain ⟨action, haction, hevent⟩ := List.mem_filterMap.mp he
    unfold Task.dialFailed at haction
    dsimp only at haction
    split at haction
    · cases haction
    · split at haction
      · obtain ⟨c, -, rfl⟩ := List.mem_map.mp haction
        cases hevent
        exact .connected c ""
      · rcases List.mem_append.mp haction with hreport | hspawn
        · obtain ⟨c, -, rfl⟩ := List.mem_map.mp hreport
          cases hevent
          exact .disconnected c
        · obtain rfl := List.mem_singleton.mp hspawn
          cases hevent
  | some nodePk =>
    rw [SeedDial.events_of_reached hnode] at he
    unfold Task.dialed at he
    split at he
    · next pk c reason hjoin herror =>
      split at he
      · next hpk =>
        -- an error without a refusal is a lost request
        refine absurd ⟨⟨nodePk, hnode⟩, hpk ▸ hjoin, fun pk hok => ?_, fun code msg hok => ?_⟩
          (hlost c)
        · rw [hok] at herror
          cases herror
        · exact hrefused ⟨nodePk, code, msg, hnode, hok⟩
      · cases he
    · cases he

/-- One dial that is not refused leaves the data alone exactly if the request was not lost, or there
is nothing of the community. -/
theorem sameData_dialStep_iff (hrefused : ¬ d.Refused cfg) :
    SameData s (dialStep P cfg s d) ↔
      ∀ c, d.Lost P cfg s.signingKey c → s.blocked = true ∨ NothingOf s.toTables c := by
  unfold dialStep
  by_cases hlost : ∃ c, d.Lost P cfg s.signingKey c
  · obtain ⟨c, hc⟩ := hlost
    obtain ⟨reason, hevents⟩ := hc.events_eq
    have hprocess : s.processLoopEvent P cfg.loop.expand d.env
        (.app (.communityJoinFailed c reason)) =
        s.processEvent P d.env (.communityJoinFailed c reason) := rfl
    rw [hevents, List.foldl_cons, List.foldl_nil, hprocess, sameData_communityJoinFailed_iff]
    refine ⟨fun h c' hc' => ?_, fun h => h c hc⟩
    -- a dial is for one community
    have hsame : c' = c := by
      have hjoin := hc'.creator.symm.trans hc.creator
      exact congrArg Prod.snd (Option.some.inj hjoin)
    rw [hsame]
    exact h
  · rw [not_exists] at hlost
    refine iff_of_true ?_ (fun c hc => absurd hc (hlost c))
    have hreports := SeedDial.events_of_not_lost hrefused hlost
    generalize d.events P cfg s.signingKey = events at hreports
    clear hlost
    induction events generalizing s with
    | nil => exact .refl s
    | cons e events ih =>
      rw [List.foldl_cons]
      refine .trans ?_ (ih fun e' he' => hreports e' (List.mem_cons_of_mem e he'))
      cases hreports e List.mem_cons_self with
      | connected c peerId => exact sameData_seedPeerConnected (P := P) d.env s c peerId
      | disconnected c => exact sameData_seedPeerDisconnected (P := P) d.env s c

/-! ## Runs of dials -/

variable (P cfg) in
/-- In all states of a run of dials, a dial that is not refused leaves the tables and the store
alone, if and only if each dial of the creator whose request to join is lost finds nothing of the
community, or the processor takes no events. -/
theorem dials_spare_iff (s : AppState) (dials : List SeedDial) :
    (∀ pre d post, dials = pre ++ d :: post → ¬ d.Refused cfg →
      SameData (run (dialStep P cfg) s pre) (run (dialStep P cfg) s (pre ++ [d]))) ↔
    ∀ pre d post, dials = pre ++ d :: post →
      ∀ c, d.Lost P cfg (run (dialStep P cfg) s pre).signingKey c →
        (run (dialStep P cfg) s pre).blocked = true ∨
          NothingOf (run (dialStep P cfg) s pre).toTables c := by
  constructor
  · intro h pre d post hsplit c hc
    have hrefused : ¬ d.Refused cfg := fun ⟨_, code, msg, _, hok⟩ => hc.not_refused code msg hok
    have hsame := h pre d post hsplit hrefused
    rw [run_concat] at hsame
    exact (sameData_dialStep_iff hrefused).mp hsame c hc
  · intro h pre d post hsplit hrefused
    rw [run_concat]
    exact (sameData_dialStep_iff hrefused).mpr (h pre d post hsplit)

namespace Sample

def dialConfig : DialConfig :=
  ⟨⟨fun a => [a], fun _ => "", false, true⟩, [], fun _ => none, fun _ => ""⟩

/-- The creator reaches the node of the key 99, which is lost before it answers. -/
def lostDial : SeedDial where
  env := env
  isSeed := true
  target := ⟨addr, some (31, createdId), none, 0⟩
  node := some 99
  exchange := ⟨true, true, true, true, true, []⟩

end Sample

open Sample in
/-- The connection is lost while the creator waits for the response, and the community is gone. -/
theorem community_lost_with_connection :
    lostDial.answer dialConfig = .error .readLength ∧
      createdId ∈ creatorApp.communities ∧
      createdId ∉ (dialStep (prims [] []) dialConfig creatorApp lostDial).communities :=
  ⟨rfl, by decide +kernel, by decide +kernel⟩

end BitCord
