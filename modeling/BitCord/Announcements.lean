import BitCord.Creator
import BitCord.Stranded

/-!
# Announcement channels

In an announcement channel only admins and moderators may post. `message_send` checks the role of
its caller, but the handler of channel messages checks no role, so a node that skips the check of
its own `message_send` can post (`member_announces`). `announcements_privileged_iff` says which
messages and which sends keep the rule.
-/

namespace BitCord

open Lib Lib.Run AppState

/-- The user is an admin or a moderator of the community. -/
def HasPrivilege (t : Tables) (c u : String) : Prop :=
  ∃ r, recordIn t.members c u = some r ∧ r.isPrivileged = true

def MessageContent.isText : MessageContent → Bool
  | .text _ _ _ _ => true
  | .reaction _ _ _ => false

/-! ## Calls of the handler -/

/-- A call of `handle_channel_message`, with the state in which it is made. -/
structure ChannelCall where
  state : AppState
  replaying : Bool
  topic : String
  data : Bytes

variable {c : ChannelCall} {p : SendMessageParams} {s : AppState}

section

variable (P : Prims)

def opensText (t : Tables) (x : String) (nonce : Nonce) (ciphertext : Bytes) : Bool :=
  ((decryptEither P (t.channelKeys.lookup x) (t.previousChannelKeys.lookup x) nonce
    ciphertext).bind P.decodeContent).any MessageContent.isText

namespace ChannelCall

def after (c : ChannelCall) : AppState :=
  c.state.handleChannelMessage P c.replaying c.topic c.data

def Appends (c : ChannelCall) (x : String) (e : LogEntry) : Prop :=
  (c.after P).messageLog.entries x = c.state.messageLog.entries x ++ [e]

/-- A text that the call appends in an announcement channel is by an admin or a moderator of the
community of the channel. -/
def CarriesPrivileged (c : ChannelCall) : Prop :=
  ∀ x ch e, c.state.channels.lookup x = some ch → ch.kind = .announcement → c.Appends P x e →
    opensText P c.state.toTables x e.nonce e.ciphertext = true →
    HasPrivilege c.state.toTables ch.communityId.text e.authorId

/-- The message is a new one, of a channel whose community has the author as a member, and it is
encrypted with a key of the channel and signed by its author. -/
structure Accepts (c : ChannelCall) (raw : RawMessage) (ch : ChannelManifest) : Prop where
  decoded : P.decodeEvent c.data = some (.newMessage raw)
  channel : c.state.channels.lookup raw.channelId.text = some ch
  key : (c.state.channelKeys.lookup raw.channelId.text).isSome = true
  opens : (decryptEither P (c.state.channelKeys.lookup raw.channelId.text)
    (c.state.previousChannelKeys.lookup raw.channelId.text) raw.nonce raw.ciphertext).isSome = true
  verified : authorVerified P c.state.toTables ch.communityId.text raw = true
  fresh : c.state.messageLog.getEntry raw.channelId.text raw.id.text = none

def Fits (c : ChannelCall) : Prop :=
  ∀ raw ch, c.Accepts P raw ch → ch.kind = .announcement →
    opensText P c.state.toTables raw.channelId.text raw.nonce raw.ciphertext = true →
    HasPrivilege c.state.toTables ch.communityId.text raw.authorId.text

end ChannelCall

def replayOneCalls (s : AppState) (msg : String × Bytes) : List ChannelCall :=
  if s.blocked then [] else [⟨s, true, msg.1, msg.2⟩]

def replayChannelCalls (s : AppState) (channelId : String) : List ChannelCall :=
  if s.blocked then []
  else
    match s.pendingRotation.lookup channelId with
    | some buffered =>
      outputs (replayOne P) replayOneCalls
        { s with pendingRotation := s.pendingRotation.erase channelId } buffered
    | none => []

/-- The calls in which a manifest replays what waited for the keys it brings. -/
def manifestCalls (s : AppState) (m : ManifestReceived) : List ChannelCall :=
  if !m.manifest.verify P || m.manifest.manifest.deleted then []
  else
    let s' := { s with
      pendingManifestSyncs :=
        if 0 < m.manifest.manifest.version then
          s.pendingManifestSyncs.filter fun id => decide (id ≠ m.communityId)
        else s.pendingManifestSyncs }
    outputs (replayChannel P) (replayChannelCalls P) (s'.receiveTables P m)
      (s.receiveKeys P m).rotated

/-- The calls of `handle_channel_message` that the event processor makes for an event. -/
def eventCalls (s : AppState) (i : Env × SwarmEvent) : List ChannelCall :=
  if s.blocked then []
  else
    match i.2 with
    | .messageReceived topic data _ =>
      if isChannelTopic topic then [⟨s, false, topic, data⟩] else []
    | .manifestReceived m => manifestCalls P s m
    | _ => []

variable {P}

/-! ## What a call appends -/

theorem entries_acceptMessage (s : AppState) (c : String) (raw : RawMessage) (plaintext : Bytes)
    (x : String) (e : LogEntry) :
    (s.acceptMessage P c raw plaintext).messageLog.entries x = s.messageLog.entries x ++ [e] ↔
      authorVerified P s.toTables c raw = true ∧
        s.messageLog.getEntry raw.channelId.text raw.id.text = none ∧
        x = raw.channelId.text ∧
        e = entryOf raw (UInt64.ofNat (s.messageLog.entries x).length) := by
  have hself : s.messageLog.entries x ≠ s.messageLog.entries x ++ [e] := by simp
  unfold acceptMessage
  cases authorVerified P s.toTables c raw with
  | false => exact iff_of_false hself fun h => absurd h.1 (by decide)
  | true =>
    cases s.messageLog.getEntry raw.channelId.text raw.id.text with
    | some known => exact iff_of_false hself fun h => absurd h.2.1 (by simp)
    | none =>
      show (logMessage s.messageLog raw (P.decodeContent plaintext)).entries x = _ ↔ _
      unfold logMessage
      rw [MessageLog.entries_append, entries_applyReaction, entries_applyReaction]
      split
      · next hx =>
        subst hx
        rw [List.append_cancel_left_eq, List.cons.injEq]
        exact ⟨fun h => ⟨rfl, rfl, rfl, h.1.symm⟩, fun h => ⟨h.2.2.2.symm, rfl⟩⟩
      · next hx => exact iff_of_false hself fun h => hx h.2.2.1

namespace ChannelCall

theorem length_entries_after (hnot : ∀ raw, P.decodeEvent c.data ≠ some (.newMessage raw))
    (x : String) :
    ((c.after P).messageLog.entries x).length = (c.state.messageLog.entries x).length := by
  have hchange : ∀ change : Change, P.decodeEvent c.data = some change.event →
      ((c.after P).messageLog.entries x).length = (c.state.messageLog.entries x).length := by
    intro change hd
    unfold after
    rw [messageLog_handleChannelMessage_of_change hd]
    split
    · exact length_entries_updateEntry _ _ _ _ x
    · rfl
  cases hd : P.decodeEvent c.data with
  | none =>
    unfold after handleChannelMessage
    rw [hd]
  | some event =>
    cases event with
    | newMessage raw => exact absurd hd (hnot raw)
    | editMessage payload => exact hchange (.edit payload) hd
    | deleteMessage payload => exact hchange (.delete payload) hd
    | channelKeyRotation payload =>
      unfold after handleChannelMessage
      rw [hd]
      dsimp only
      rw [messageLog_handleChannelKeyRotation]
    | _ =>
      unfold after handleChannelMessage
      rw [hd]

theorem after_newMessage {raw : RawMessage} (hd : P.decodeEvent c.data = some (.newMessage raw)) :
    c.after P = c.state.handleNewMessage P c.replaying c.topic c.data raw := by
  unfold after handleChannelMessage
  rw [hd]

theorem appends_iff {x : String} {e : LogEntry} :
    c.Appends P x e ↔ ∃ raw ch, c.Accepts P raw ch ∧ x = raw.channelId.text ∧
      e = entryOf raw (UInt64.ofNat (c.state.messageLog.entries x).length) := by
  constructor
  · intro h
    by_cases hnew : ∃ raw, P.decodeEvent c.data = some (.newMessage raw)
    · obtain ⟨raw, hd⟩ := hnew
      unfold Appends at h
      rw [after_newMessage hd] at h
      have hself : c.state.messageLog.entries x ≠ c.state.messageLog.entries x ++ [e] := by simp
      rcases handleNewMessage_cases (P := P) c.replaying c.state c.topic c.data raw with
        heq | ⟨ch, key, plaintext, hch, hkey, hopens, heq⟩ | heq
      · rw [heq] at h
        exact absurd h hself
      · rw [heq, entries_acceptMessage] at h
        obtain ⟨hverified, hfresh, hx, he⟩ := h
        refine ⟨raw, ch, ⟨hd, hch, ?_, ?_, hverified, hfresh⟩, hx, he⟩
        · rw [hkey]
          rfl
        · rw [hkey, hopens]
          rfl
      · rw [heq] at h
        unfold bufferMessage at h
        split at h <;> exact absurd h hself
    · have hlonger := congrArg List.length (show (c.after P).messageLog.entries x = _ from h)
      rw [length_entries_after (fun raw hraw => hnew ⟨raw, hraw⟩), List.length_append] at hlonger
      exact absurd hlonger (by simp)
  · rintro ⟨raw, ch, haccepts, hx, he⟩
    obtain ⟨key, hkey⟩ := Option.isSome_iff_exists.mp haccepts.key
    obtain ⟨plaintext, hopens⟩ := Option.isSome_iff_exists.mp haccepts.opens
    unfold Appends
    rw [after_newMessage haccepts.decoded]
    unfold handleNewMessage
    dsimp only
    rw [hkey] at hopens
    rw [haccepts.channel, hkey]
    dsimp only
    rw [hopens]
    exact (entries_acceptMessage c.state ch.communityId.text raw plaintext x e).mpr
      ⟨haccepts.verified, haccepts.fresh, hx, he⟩

/-- A call keeps the rule exactly when the message fits. -/
theorem carriesPrivileged_iff : c.CarriesPrivileged P ↔ c.Fits P := by
  constructor
  · intro h raw ch haccepts hkind htext
    exact h raw.channelId.text ch (entryOf raw _) haccepts.channel hkind
      (appends_iff.mpr ⟨raw, ch, haccepts, rfl, rfl⟩) htext
  · intro h x ch e hch hkind happends htext
    obtain ⟨raw, ch', haccepts, rfl, rfl⟩ := appends_iff.mp happends
    cases hch.symm.trans haccepts.channel
    exact h raw ch haccepts hkind htext

end ChannelCall

/-! ## Sending -/

variable (P) in
/-- A successful send in an announcement channel is by an admin or a moderator of the community of
the channel. -/
def SendsPrivileged (env : Env) (s : AppState) (p : SendMessageParams) : Prop :=
  ∀ ch reply, s.channels.lookup p.channelId = some ch → ch.kind = .announcement →
    (s.messageSend P env p).2 = .ok reply →
    HasPrivilege s.toTables ch.communityId.text (s.peerId P)

variable (P) in
/-- The checks of `message_send` for an announcement channel; the role is the one in the community
that the caller names. -/
structure SendPasses (s : AppState) (p : SendMessageParams) : Prop where
  body : p.body ≠ ""
  seed : s.seedRefusal p.communityId = none
  caller : HasPrivilege s.toTables p.communityId (s.peerId P)
  key : (s.channelKeys.lookup p.channelId).isSome = true
  channelId : (parseUlid p.channelId).isSome = true

variable (P) in
/-- The named community is the one of the channel, or the caller has the role there, or the send is
refused. -/
def SendFits (s : AppState) (p : SendMessageParams) : Prop :=
  ∀ ch, s.channels.lookup p.channelId = some ch → ch.kind = .announcement →
    ch.communityId.text = p.communityId ∨
      HasPrivilege s.toTables ch.communityId.text (s.peerId P) ∨ ¬ SendPasses P s p

theorem exists_messageSend_ok_iff {env : Env} {ch : ChannelManifest}
    (hch : s.channels.lookup p.channelId = some ch) (hkind : ch.kind = .announcement) :
    (∃ reply, (s.messageSend P env p).2 = .ok reply) ↔ SendPasses P s p := by
  have hrole : s.announcementRefusal P p.communityId p.channelId = none ↔
      HasPrivilege s.toTables p.communityId (s.peerId P) := by
    unfold announcementRefusal
    rw [hch]
    dsimp only
    rw [if_pos hkind]
    exact callerRefusal_eq_none_iff
  constructor
  · rintro ⟨reply, hok⟩
    obtain ⟨key, ulid, hkey, hulid, -⟩ := messageSend_ok hok
    unfold messageSend at hok
    split at hok
    · cases hok
    · next hbody =>
      split at hok
      · cases hok
      · cases hok
      · cases hok
      · next hrefusal _ _ =>
        obtain ⟨hseed, hcaller⟩ := Option.or_eq_none_iff.mp hrefusal
        exact ⟨hbody, hseed, hrole.mp hcaller, by rw [hkey]; rfl, by rw [hulid]; rfl⟩
  · intro hpasses
    obtain ⟨key, hkey⟩ := Option.isSome_iff_exists.mp hpasses.key
    obtain ⟨ulid, hulid⟩ := Option.isSome_iff_exists.mp hpasses.channelId
    unfold messageSend
    rw [if_neg hpasses.body, hpasses.seed, hrole.mpr hpasses.caller, hkey, hulid]
    exact ⟨_, rfl⟩

theorem sendsPrivileged_iff {env : Env} : SendsPrivileged P env s p ↔ SendFits P s p := by
  constructor
  · intro h ch hch hkind
    by_cases hpasses : SendPasses P s p
    · obtain ⟨reply, hok⟩ : ∃ reply, (s.messageSend P env p).2 = .ok reply :=
        (exists_messageSend_ok_iff hch hkind).mpr hpasses
      exact .inr (.inl (h ch reply hch hkind hok))
    · exact .inr (.inr hpasses)
  · intro h ch reply hch hkind hok
    have hpasses := (exists_messageSend_ok_iff hch hkind).mp ⟨reply, hok⟩
    rcases h ch hch hkind with hsame | hrole | hrefused
    · rw [hsame]
      exact hpasses.caller
    · exact hrole
    · exact absurd hpasses hrefused

variable (P) in
/-- In a run of the event processor the announcement channels gain texts of admins and moderators
only, exactly if every text that a call accepts there is by one; and a send keeps the rule exactly
if it does not name another community in which the caller has the role. -/
theorem announcements_privileged_iff (s : AppState) (inputs : List (Env × SwarmEvent))
    (sender : AppState) (env : Env) (p : SendMessageParams) :
    ((∀ call ∈ outputs (eventStep P) (eventCalls P) s inputs, call.CarriesPrivileged P) ↔
        Along (eventStep P) (fun s i => ∀ call ∈ eventCalls P s i, call.Fits P) s inputs) ∧
      (SendsPrivileged P env sender p ↔ SendFits P sender p) := by
  refine ⟨?_, sendsPrivileged_iff⟩
  simp only [ChannelCall.carriesPrivileged_iff]
  exact forall_mem_outputs_iff

end

/-! ## Evaluations -/

namespace Sample

def announcements : ChannelManifest := { channel with kind := .announcement }

/-- A node that knows an announcement channel of a community with one plain member. -/
def audience (sk : Key) : AppState :=
  withChannel (withMembers (app sk) [record 20 [.member]]) announcements 70

def memberPost : RawMessage :=
  RawMessage.create (prims [] []) ⟨9⟩ announcements.id 20 0 (aeadSeal 70 3 [0]) 3

def postPrims : Prims := prims [.newMessage memberPost] [.text "notice" [] none none]

def postGossip : Env × SwarmEvent :=
  (env, .messageReceived (channelTopic announcements.id.text) [0] none)

def memberApp : AppState := ((audience 20).communityCreate postPrims env (createParams "own")).1

/-- A send in the announcement channel that names the other community. -/
def memberSend : SendMessageParams :=
  ⟨((audience 20).newManifest postPrims env (createParams "own")).id.text, announcements.id.text,
    "notice", none⟩

theorem not_hasPrivilege_member {t : Tables} {r : MembershipRecord} {c u : String}
    (hr : recordIn t.members c u = some r) (hplain : r.isPrivileged = false) :
    ¬ HasPrivilege t c u := by
  rintro ⟨r', hr', hrole⟩
  cases hr.symm.trans hr'
  exact absurd (hrole.symm.trans hplain) (by decide)

end Sample

open Sample in
/-- A plain member posts in an announcement channel: by gossip, and by a send that names a community
of its own. -/
theorem member_announces :
    (∃ call ∈ outputs (eventStep postPrims) (eventCalls postPrims) (audience 30) [postGossip],
        ¬ call.CarriesPrivileged postPrims) ∧
      ¬ SendsPrivileged postPrims env memberApp memberSend := by
  refine ⟨⟨⟨audience 30, false, channelTopic announcements.id.text, [0]⟩, ?_, fun h => ?_⟩,
    fun h => ?_⟩
  · have htopic : isChannelTopic (channelTopic announcements.id.text) = true := by decide +kernel
    have hcalls : eventCalls postPrims (audience 30) postGossip =
        [⟨audience 30, false, channelTopic announcements.id.text, [0]⟩] := by
      show (if isChannelTopic (channelTopic announcements.id.text) then _ else []) = _
      exact if_pos htopic
    rw [outputs, hcalls]
    exact List.mem_cons_self
  · have happends : ChannelCall.Appends postPrims
        ⟨audience 30, false, channelTopic announcements.id.text, [0]⟩ announcements.id.text
        (entryOf memberPost 0) :=
      show _ = _ by decide +kernel
    exact not_hasPrivilege_member (r := record 20 [.member]) (by decide +kernel)
      (by decide +kernel) (h announcements.id.text announcements (entryOf memberPost 0)
        (AList.lookup_insert _) rfl happends (by decide +kernel))
  · obtain ⟨reply, hok⟩ : ∃ reply, (memberApp.messageSend postPrims env memberSend).2 = .ok reply :=
      exists_ok_of_isSome (by decide +kernel)
    exact not_hasPrivilege_member (r := record 20 [.member]) (by decide +kernel)
      (by decide +kernel) (h announcements reply (AList.lookup_insert _) rfl hok)

end BitCord
