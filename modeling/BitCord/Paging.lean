import BitCord.Epochs
import BitCord.Events.Dm
import BitCord.Lib.Paging

/-!
# Reading a history page by page

A client reads a history from its end: it asks for the last messages, and then for those before the
first message of the last page, until a page is empty. The pages of a conversation are a partition
of it (`dm_history_partitions`). `message_get_history` does not read its parameter for the position,
so every page of a channel is the first one again (`channel_history_read_iff`, `paging_never_ends`).
-/

namespace BitCord

open Lib Lib.Paging AppState

/-! ## Conversations -/

section

variable {n : DmNode} {peerId : String}

theorem dmGetHistory_none (limit : Option UInt32) :
    n.dmGetHistory ⟨peerId, none, limit⟩ =
      lastBefore (n.conversation peerId) (pageLimit limit) (n.conversation peerId).length := by
  unfold lastBefore
  rw [List.take_length]
  rfl

/-- A request with the id of a message gets what comes before it. -/
theorem dmGetHistory_some (hids : ((n.conversation peerId).map fun m => m.id).Nodup)
    (limit : Option UInt32) (i : Nat) (h : i < (n.conversation peerId).length) :
    n.dmGetHistory ⟨peerId, some (n.conversation peerId)[i].id, limit⟩ =
      lastBefore (n.conversation peerId) (pageLimit limit) i := by
  have hpos : (n.conversation peerId).findIdx
      (fun m => decide (m.id = (n.conversation peerId)[i].id)) = i := by
    refine (List.findIdx_eq h).mpr ⟨decide_eq_true rfl, fun j hj => ?_⟩
    -- an earlier message with this id would repeat it
    refine decide_eq_false fun heq => ?_
    have hj' : j < ((n.conversation peerId).map fun m => m.id).length := by
      rw [List.length_map]
      omega
    have hi' : i < ((n.conversation peerId).map fun m => m.id).length := by rwa [List.length_map]
    have hids' : ((n.conversation peerId).map fun m => m.id)[j] =
        ((n.conversation peerId).map fun m => m.id)[i] := by simpa using heq
    exact Nat.ne_of_lt hj (hids.getElem_inj_iff.mp hids')
  have hall : (n.dms.lookup peerId).getD [] = n.conversation peerId := rfl
  unfold DmNode.dmGetHistory
  dsimp only
  rw [hall, hpos, lastBefore]

end

theorem pageLimit_pos {limit : Option UInt32} (h : limit ≠ some 0) : 0 < pageLimit limit := by
  unfold pageLimit
  cases limit with
  | none => decide
  | some limit =>
    have hne : limit.toNat ≠ 0 := fun hzero => h (congrArg some (UInt32.toNat_inj.mp hzero))
    rw [Option.getD_some]
    omega

/-- A client that reads a conversation with distinct ids page by page gets it in as many pages as
are needed, and nothing is lost or repeated. -/
theorem dm_history_partitions (n : DmNode) (peerId : String) (limit : Option UInt32)
    (hids : ((n.conversation peerId).map fun m => m.id).Nodup) (hlimit : limit ≠ some 0) :
    ∃ pages, Pages (fun before => n.dmGetHistory ⟨peerId, before, limit⟩) (fun m => m.id) none
        pages ∧
      pages.length = (n.conversation peerId).length ⌈/⌉ pageLimit limit ∧
      pages.reverse.flatten = n.conversation peerId :=
  exists_pages (pageLimit_pos hlimit) (dmGetHistory_none limit) (dmGetHistory_some hids limit)

namespace Sample

def dmWith (id : String) : DmMessageInfo := ⟨id, "p", "p", 0, "hi", none, none⟩

/-- A node with three messages of one conversation. -/
def threeDms : DmNode :=
  ⟨app 20, Dict.insertAll [("p", [dmWith "a", dmWith "b", dmWith "c"])] ∅, ∅, [], []⟩

end Sample

open Sample in
/-- Three messages are read in two pages of two. -/
theorem dm_history_partitions_three :
    ∃ pages, Pages (fun before => threeDms.dmGetHistory ⟨"p", before, some 2⟩) (fun m => m.id)
        none pages ∧ pages.length = 2 ∧
      pages.reverse.flatten = [dmWith "a", dmWith "b", dmWith "c"] := by
  obtain ⟨pages, hpages, hcount, hflat⟩ :=
    dm_history_partitions threeDms "p" (some 2) (by decide) (by decide)
  exact ⟨pages, hpages, hcount.trans (by decide), hflat.trans (by decide)⟩

/-! ## Channels -/

section

variable (P : Prims) (s : AppState) (communityId channelId : String)

/-- The page that a client gets; a call that fails gives none. -/
def historyPage (limit : UInt32) (before : Option String) : List MessageInfo :=
  (s.messageGetHistory P ⟨communityId, channelId, before, some limit⟩).toOption.getD []

/-- The messages of a channel that are shown, those of reactions left out. -/
def visibleMessages : List MessageInfo :=
  (s.messageLog.entries channelId).filterMap
    (s.historyInfo P ⟨communityId, channelId, none, none⟩)

/-- The pages end, have every message that is shown once, and are full except for the last. -/
structure ReadsChannel (limit : UInt32) (pages : List (List MessageInfo)) : Prop where
  ends : Pages (historyPage P s communityId channelId limit) (fun info => info.id) none pages
  once : pages.flatten.Perm (visibleMessages P s communityId channelId)
  full : ∀ page ∈ pages.dropLast, page.length = limit.toNat

end

section

variable {P : Prims} {s : AppState} {communityId channelId : String}

variable (limit : UInt32) (before : Option String)

theorem historyPage_eq :
    historyPage P s communityId channelId limit before =
      historyPage P s communityId channelId limit none := rfl

theorem historyPage_sublist :
    (historyPage P s communityId channelId limit before).Sublist
      (visibleMessages P s communityId channelId) := by
  unfold historyPage messageGetHistory
  cases s.channels.lookup channelId with
  | none => exact List.nil_sublist _
  | some ch => exact (List.drop_sublist _ _).filterMap _

end

/-- A client reads every message of a channel page by page if and only if no message of the channel
is shown. -/
theorem channel_history_read_iff (P : Prims) (s : AppState) (communityId channelId : String)
    (limit : UInt32) :
    (∃ pages, ReadsChannel P s communityId channelId limit pages) ↔
      visibleMessages P s communityId channelId = [] := by
  constructor
  · rintro ⟨pages, hpages, honce, -⟩
    obtain ⟨-, rfl⟩ := (pages_const_iff (historyPage_eq limit)).mp hpages
    exact (List.Perm.nil_eq honce).symm
  · intro hnone
    have hpage : historyPage P s communityId channelId limit none = [] :=
      List.sublist_nil.mp (hnone ▸ historyPage_sublist limit none)
    refine ⟨[], (pages_const_iff (historyPage_eq limit)).mpr ⟨hpage, rfl⟩, ?_, by simp⟩
    rw [hnone]
    exact .refl _

open Sample in
/-- A client that reads a channel with one message gets it again and again. -/
theorem paging_never_ends :
    (replier.messageLog.entries channel.id.text).map (fun e => e.messageId) =
        [(MessageId.mk (env.ulid 0)).text] ∧
      ((replier.messageLog.entries channel.id.text).all fun e =>
        (contentOf replyPrims replier.toTables channel.id.text e).isSome) = true ∧
      ¬ ∃ pages, ReadsChannel replyPrims replier community.text channel.id.text 1 pages := by
  refine ⟨by decide +kernel, by decide +kernel, ?_⟩
  rintro ⟨pages, hpages, -, -⟩
  have hempty := ((pages_const_iff (historyPage_eq 1)).mp hpages).1
  have hone : (historyPage replyPrims replier community.text channel.id.text 1 none).length =
      1 := by decide +kernel
  rw [hempty] at hone
  cases hone

end BitCord
