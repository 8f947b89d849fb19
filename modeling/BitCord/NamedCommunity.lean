import BitCord.Announcements

/-!
# Calls that name a community and a channel

The calls on messages and `channel_delete` take the id of a community and that of a channel. The
community is looked up for the seed check, the store and the manifest, and the channel for its key,
its log or its entry; nothing compares the two (`acts_within_iff`). A message of one community is
stored under the key of another (`stored_under_other`).
-/

namespace BitCord

open Lib AppState

inductive ChannelCallParams where
  | messageSend (p : SendMessageParams)
  | messageEdit (p : EditMessageParams)
  | messageDelete (p : DeleteMessageParams)
  | reactionAdd (p : ReactionParams)
  | reactionRemove (p : ReactionParams)
  | channelDelete (p : ChannelParams)

namespace ChannelCallParams

def communityId : ChannelCallParams → String
  | messageSend p => p.communityId
  | messageEdit p => p.communityId
  | messageDelete p => p.communityId
  | reactionAdd p => p.communityId
  | reactionRemove p => p.communityId
  | channelDelete p => p.communityId

def channelId : ChannelCallParams → String
  | messageSend p => p.channelId
  | messageEdit p => p.channelId
  | messageDelete p => p.channelId
  | reactionAdd p => p.channelId
  | reactionRemove p => p.channelId
  | channelDelete p => p.channelId

def result (P : Prims) (env : Env) (s : AppState) : ChannelCallParams → RpcResult
  | messageSend p => s.messageSend P env p
  | messageEdit p => s.messageEdit P env p
  | messageDelete p => s.messageDelete P env p
  | reactionAdd p => s.reactionAdd P env p
  | reactionRemove p => s.reactionRemove P env p
  | channelDelete p => s.channelDelete P p

end ChannelCallParams

namespace AppState

/-- The table has the channel as one of the community. -/
def InCommunity (s : AppState) (c ch : String) : Prop :=
  ∃ m, s.channels.lookup ch = some m ∧ m.communityId.text = c

/-- The node has the channel in its table, or a key for it, or a message of its own in its log. -/
structure KnowsChannel (P : Prims) (s : AppState) (ch : String) : Prop where
  parses : (parseUlid ch).isSome
  known : ch ∈ s.channels ∨ (s.channelKeys.lookup ch).isSome ∨
    ∃ m, (parseUlid m).isSome ∧ s.authorRefusal P ch m "only the author can delete a message" = none

variable {P : Prims} {s : AppState} {env : Env}

theorem seed_and_knows_of_reaction {isAdd : Bool} {p : ReactionParams}
    (hok : (s.reaction P isAdd env p).2.isOk = true) :
    s.seedRefusal p.communityId = none ∧ s.KnowsChannel P p.channelId := by
  unfold reaction at hok
  split at hok
  · cases hok
  · cases hok
  · cases hok
  · cases hok
  · next hseed hkey _ hparse =>
    exact ⟨hseed, ⟨Option.isSome_of_eq_some hparse, .inr (.inl (Option.isSome_of_eq_some hkey))⟩⟩

/-- A call that succeeds passed the seed check of the community it names, and the node knows the
channel it names. -/
theorem seed_and_knows_of_ok {call : ChannelCallParams}
    (hok : (call.result P env s).2.isOk = true) :
    s.seedRefusal call.communityId = none ∧ s.KnowsChannel P call.channelId := by
  cases call with
  | messageSend p =>
    unfold ChannelCallParams.result AppState.messageSend at hok
    dsimp only at hok
    split at hok
    · cases hok
    · split at hok
      · cases hok
      · cases hok
      · cases hok
      · next hrefusal hkey hparse =>
        exact ⟨(Option.or_eq_none_iff.mp hrefusal).1,
          ⟨Option.isSome_of_eq_some hparse,
            .inr (.inl (Option.isSome_of_eq_some hkey))⟩⟩
  | messageEdit p =>
    unfold ChannelCallParams.result AppState.messageEdit at hok
    dsimp only at hok
    split at hok
    · cases hok
    · split at hok
      · cases hok
      · cases hok
      · cases hok
      · next hseed hkey _ =>
        unfold editOwn at hok
        dsimp only at hok
        split at hok
        · cases hok
        · cases hok
        · next hparse =>
          exact ⟨hseed, ⟨Option.isSome_of_eq_some hparse,
            .inr (.inl (Option.isSome_of_eq_some hkey))⟩⟩
  | messageDelete p =>
    unfold ChannelCallParams.result AppState.messageDelete at hok
    dsimp only at hok
    split at hok
    · cases hok
    · next hrefusal =>
      obtain ⟨hseed, hauthor⟩ := Option.or_eq_none_iff.mp hrefusal
      split at hok
      · cases hok
      · cases hok
      · next hmessage hparse =>
        exact ⟨hseed, ⟨Option.isSome_of_eq_some hparse,
          .inr (.inr ⟨p.messageId, Option.isSome_of_eq_some hmessage, hauthor⟩)⟩⟩
  | reactionAdd p => exact seed_and_knows_of_reaction hok
  | reactionRemove p => exact seed_and_knows_of_reaction hok
  | channelDelete p =>
    unfold ChannelCallParams.result AppState.channelDelete at hok
    dsimp only at hok
    split at hok
    · cases hok
    · cases hok
    · next hseed hch =>
      split at hok
      · cases hok
      · cases hok
      · next hparse =>
        exact ⟨hseed, ⟨Option.isSome_of_eq_some hparse,
          .inl (AList.lookup_isSome.mp (Option.isSome_of_eq_some hch))⟩⟩

/-- Some call for a channel that the node knows succeeds, whatever community it names. -/
theorem exists_ok_of_knows {c ch : String} (hseed : s.seedRefusal c = none)
    (h : s.KnowsChannel P ch) (env : Env) : ∃ call : ChannelCallParams,
      call.communityId = c ∧ call.channelId = ch ∧ (call.result P env s).2.isOk = true := by
  obtain ⟨ulid, hulid⟩ := Option.isSome_iff_exists.mp h.parses
  cases htable : s.channels.lookup ch with
  | some m =>
    refine ⟨.channelDelete ⟨c, ch⟩, rfl, rfl, ?_⟩
    unfold ChannelCallParams.result AppState.channelDelete
    dsimp only
    rw [hseed, htable]
    dsimp only
    obtain ⟨signed, hsigned⟩ : ∃ signed, s.communities.lookup c = some signed := by
      cases hc : s.communities.lookup c with
      | none =>
        unfold seedRefusal at hseed
        rw [hc] at hseed
        cases hseed
      | some signed => exact ⟨signed, rfl⟩
    have herased : (s.eraseChannel ch).communities.lookup c = some signed := hsigned
    rw [herased, hulid]
    rfl
  | none =>
    obtain hmem | hkey | ⟨message, hmessage, hauthor⟩ := h.known
    · exact absurd hmem (AList.lookup_eq_none.mp htable)
    · obtain ⟨key, hkey⟩ := Option.isSome_iff_exists.mp hkey
      refine ⟨.messageSend ⟨c, ch, "x", none⟩, rfl, rfl, ?_⟩
      have hopen : s.announcementRefusal P c ch = none := by
        unfold announcementRefusal
        rw [htable]
      unfold ChannelCallParams.result AppState.messageSend
      dsimp only
      rw [if_neg (by decide), hseed, hopen, hkey, hulid]
      rfl
    · obtain ⟨mid, hmid⟩ := Option.isSome_iff_exists.mp hmessage
      refine ⟨.messageDelete ⟨c, ch, message⟩, rfl, rfl, ?_⟩
      unfold ChannelCallParams.result AppState.messageDelete
      dsimp only
      rw [hseed, hauthor]
      dsimp only [Option.or]
      rw [hmid, hulid]
      rfl

variable (P s) in
/-- All calls that name a community and succeed are for channels of it, if and only if the community
does not pass the seed check, or every channel that the node knows is one of it. -/
theorem acts_within_iff (env : Env) (c : String) :
    (∀ call : ChannelCallParams, call.communityId = c → (call.result P env s).2.isOk = true →
        s.InCommunity c call.channelId) ↔
      s.seedRefusal c ≠ none ∨ ∀ ch, s.KnowsChannel P ch → s.InCommunity c ch := by
  constructor
  · intro hall
    by_cases hseed : s.seedRefusal c = none
    · refine .inr fun ch hknows => ?_
      obtain ⟨call, hc, rfl, hok⟩ := exists_ok_of_knows hseed hknows env
      exact hall call hc hok
    · exact .inl hseed
  · intro h call hc hok
    obtain ⟨hseed, hknows⟩ := seed_and_knows_of_ok hok
    obtain hrefused | hwithin := h
    · exact absurd (hc ▸ hseed) hrefused
    · exact hwithin call.channelId hknows

end AppState

open Sample in
/-- A message in a channel of one community, sent in the name of another one, is stored under the
key of the other one. -/
theorem stored_under_other :
    let after := (ChannelCallParams.messageSend memberSend).result postPrims env memberApp
    after.2.isOk = true ∧ ¬ memberApp.InCommunity memberSend.communityId memberSend.channelId ∧
      communityPk? memberApp.toTables memberSend.communityId = some 21 ∧
      after.1.nodeStore.map (fun st => (st.channelRange 21 announcements.id.ulid 0).length) =
        some 1 := by
  have hother : (memberApp.channels.lookup memberSend.channelId).map
      (fun m => m.communityId.text) ≠ some memberSend.communityId := by decide +kernel
  refine ⟨by decide +kernel, fun ⟨m, hm, heq⟩ => hother ?_, by decide +kernel, by decide +kernel⟩
  rw [hm, Option.map_some, heq]

end BitCord
