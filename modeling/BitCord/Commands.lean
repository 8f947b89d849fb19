import BitCord.Writes

/-!
# The commands of the event handlers

The results about the commands of the handlers each look at one kind of command, so what a handler
sends is stated for any reading of the commands (`Issues`). Subscriptions and manifests of channels
matter to none of these results; a reading that ignores them (`IgnoresRoutine`) sees little of each
handler.
-/

namespace BitCord

open Lib AppState

variable {s : AppState} {cmds : List NetworkCommand} {m : ManifestReceived} {cmd : NetworkCommand}

/-- The commands that are added between two states, as far as the reading sees them. -/
def Issues {α : Type} (read : NetworkCommand → Option α) (s s' : AppState) (l : List α) : Prop :=
  ∃ new, s'.commands = s.commands ++ new ∧ new.filterMap read = l

namespace Issues

variable {α : Type} {read : NetworkCommand → Option α} {s t u : AppState} {l l' : List α}

theorem of_eq (h : t.commands = s.commands) : Issues read s t [] :=
  ⟨[], by rw [h, List.append_nil], rfl⟩

theorem of_append {new : List NetworkCommand} (h : t.commands = s.commands ++ new) :
    Issues read s t (new.filterMap read) :=
  ⟨new, h, rfl⟩

theorem trans (h : Issues read s t l) (h' : Issues read t u l') : Issues read s u (l ++ l') := by
  obtain ⟨new, hcmds, rfl⟩ := h
  obtain ⟨new', hcmds', rfl⟩ := h'
  refine ⟨new ++ new', ?_, List.filterMap_append⟩
  rw [hcmds', hcmds, List.append_assoc]

theorem emit (s : AppState) (cmds : List NetworkCommand) (pushes : List PushEvent) :
    Issues read s (s.emit cmds pushes) (cmds.filterMap read) :=
  of_append rfl

theorem filterMap_drop (h : Issues read s t l) :
    (t.commands.drop s.commands.length).filterMap read = l := by
  obtain ⟨new, hcmds, rfl⟩ := h
  rw [hcmds, List.drop_left]

end Issues

section

variable (P : Prims)

/-- Subscriptions and the publication of channel manifests. -/
inductive Routine : NetworkCommand → Prop
  | subscribe (topic : String) : Routine (.subscribe topic)
  | unsubscribe (topic : String) : Routine (.unsubscribe topic)
  | channel (communityId : String) (ch : ChannelManifest) :
      Routine (publishChannel P communityId ch)

def IgnoresRoutine {α : Type} (read : NetworkCommand → Option α) : Prop :=
  ∀ cmd, Routine P cmd → read cmd = none

variable {P}

/-! ## Replay -/

theorem AppState.ChannelWrite.commands {s' : AppState} {ev : NetworkEvent}
    (h : ChannelWrite P true s ev s') : s'.commands = s.commands := by
  cases h with
  | rotated h => cases h
  | _ => rfl

/-- While buffered messages are replayed nothing is sent. -/
theorem commands_replay (s : AppState) (rotated : List String) :
    (s.replay P rotated).commands = s.commands :=
  replay_rel (R := fun s t => t.commands = s.commands) (fun _ => rfl) (fun h h' => h'.trans h)
    (fun _ => AppState.ChannelWrite.commands) (fun _ _ => rfl) rotated

theorem commands_afterReplay (s : AppState) (m : ManifestReceived) :
    (s.afterReplay P m).commands = s.commands := by
  unfold afterReplay
  exact commands_replay _ _

/-! ## The handlers -/

variable {α : Type} {read : NetworkCommand → Option α}

section

variable (hread : IgnoresRoutine P read)

include hread

theorem filterMap_routine (h : ∀ cmd ∈ cmds, Routine P cmd) : cmds.filterMap read = [] :=
  List.filterMap_eq_nil_iff.mpr fun cmd hcmd => hread cmd (h cmd hcmd)

theorem Issues.emit_routine (pushes : List PushEvent)
    (h : ∀ cmd ∈ cmds, Routine P cmd) : Issues read s (s.emit cmds pushes) [] :=
  filterMap_routine hread h ▸ Issues.emit s cmds pushes

theorem filterMap_append_channel (cmds : List NetworkCommand) (c : String) (ch : ChannelManifest) :
    (cmds ++ [publishChannel P c ch]).filterMap read = cmds.filterMap read := by
  have hchannel : [publishChannel P c ch].filterMap read = [] := by
    refine filterMap_routine hread fun cmd hcmd => ?_
    rw [List.mem_singleton.mp hcmd]
    exact .channel c ch
  rw [List.filterMap_append, hchannel, List.append_nil]

variable (env : Env) (s : AppState)

/-- The admin only publishes manifests of channels when it wraps keys for the members. -/
theorem wrapForMembers_issues (m : ManifestReceived) :
    Issues read s (s.wrapForMembers P env m) [] := by
  unfold wrapForMembers
  split
  · exact .of_eq rfl
  · refine ⟨_, rfl, List.foldlRecOn
      (motive := fun acc : WrapLoop => acc.published.filterMap read = []) _ _ rfl ?_⟩
    intro acc hacc ch _
    unfold wrapChannelStep
    split
    · dsimp only
      split
      · exact hacc
      · exact (filterMap_append_channel hread acc.published _ _).trans hacc
    · exact hacc

theorem filterMap_wrapForJoiner (record : MembershipRecord) :
    (wrapForJoiner P env s record).2.filterMap read = [] := by
  unfold wrapForJoiner
  split
  · split
    · refine List.foldlRecOn (motive := fun acc : Dict String ChannelManifest ×
        List NetworkCommand => acc.2.filterMap read = []) _ _ rfl ?_
      intro acc hacc ch _
      unfold wrapForJoinerStep
      split
      · split
        · exact hacc
        · exact (filterMap_append_channel hread acc.2 _ _).trans hacc
      · exact hacc
    · rfl
  · rfl

theorem handleMemberJoined_issues (record : MembershipRecord) :
    Issues read s (s.handleMemberJoined P env record) [] := by
  unfold handleMemberJoined
  dsimp only
  split
  · exact .of_eq rfl
  · split
    · exact .of_eq rfl
    · exact ⟨_, rfl, filterMap_wrapForJoiner hread env s record⟩

theorem removeCommunityLocal_issues (c : String) : Issues read s (s.removeCommunityLocal c) [] := by
  refine ⟨_, rfl, filterMap_routine hread fun cmd hcmd => ?_⟩
  rcases List.mem_cons.mp hcmd with rfl | hcmd
  · exact .unsubscribe _
  · obtain ⟨ch, -, rfl⟩ := List.mem_map.mp hcmd
    exact .unsubscribe _

theorem admitMembers_issues (m : ManifestReceived) (rotated : List String) :
    Issues read s (s.admitMembers P env m rotated) ((s.retryFetch m rotated).filterMap read) := by
  have hretry : Issues read s (s.emit (s.retryFetch m rotated) []) _ := .emit s _ _
  have hmembers : Issues read (s.emit (s.retryFetch m rotated) [])
      ((s.emit (s.retryFetch m rotated) []).receiveMembership P m) [] := .of_eq rfl
  have hsubscribe : ∀ t : AppState, Issues read t (t.emit
      ((m.channelIds.map fun ch => .subscribe (channelTopic ch)) ++
        [.subscribe (communityTopic m.communityId)]) []) [] := by
    intro t
    refine .emit_routine hread [] fun cmd hcmd => ?_
    rcases List.mem_append.mp hcmd with hcmd | hcmd
    · obtain ⟨ch, -, rfl⟩ := List.mem_map.mp hcmd
      exact .subscribe _
    · rw [List.mem_singleton.mp hcmd]
      exact .subscribe _
  have hall := ((hretry.trans hmembers).trans (wrapForMembers_issues hread env _ m)).trans
    (hsubscribe _)
  rw [List.append_nil, List.append_nil, List.append_nil] at hall
  exact hall

variable (P) in
/-- What the node sends to announce itself after a manifest: nothing, or a record that it signs. -/
def OwnAnnouncement (m : ManifestReceived) (own : List NetworkCommand) : Prop :=
  own = [] ∨ ∃ (s : AppState) (roles : List Role) (now : DateTime),
    own = [.publish (communityTopic m.communityId) (P.encodeEvent (.memberJoined
      (s.ownRecord P m.manifest.manifest.id (s.peerId P) roles now)))]

theorem announceSelf_issues (m : ManifestReceived) :
    ∃ own, OwnAnnouncement P m own ∧
      Issues read s (s.announceSelf P env m) (own.filterMap read) := by
  unfold announceSelf
  split
  · exact ⟨[], .inl rfl, .of_eq rfl⟩
  · next existing _ =>
    exact ⟨_, .inr ⟨s, s.announcedRoles P m existing, env.now, rfl⟩,
      (handleMemberJoined_issues hread env s _).trans (.emit _ _ _)⟩

end

/-- The histories that the node asks for after a manifest. -/
def historyFetches (s : AppState) (m : ManifestReceived) (needsKeyRefetch : Bool) :
    List NetworkCommand :=
  if needsKeyRefetch then []
  else (m.channelIds.filter fun ch => decide (ch ∈ s.channelKeys)).map fun ch =>
    .fetchChannelHistory (s.historyPeer m) m.communityId m.communityPk ch
      (s.sinceSeq m.communityPk ch)

theorem of_mem_historyFetches {b : Bool} (h : cmd ∈ historyFetches s m b) :
    ∃ ch ∈ m.channelIds, cmd = .fetchChannelHistory (s.historyPeer m) m.communityId m.communityPk
      ch (s.sinceSeq m.communityPk ch) := by
  unfold historyFetches at h
  split at h
  · cases h
  · obtain ⟨ch, hch, rfl⟩ := List.mem_map.mp h
    exact ⟨ch, (List.mem_filter.mp hch).1, rfl⟩

theorem of_mem_retryFetch {rotated : List String} (h : cmd ∈ s.retryFetch m rotated) :
    ∃ peer, cmd = .fetchManifest peer m.communityId m.communityPk := by
  unfold retryFetch at h
  dsimp only at h
  split at h
  · obtain ⟨p, -, hp⟩ := Option.map_eq_some_iff.mp (Option.mem_toList.mp h)
    exact ⟨p.peerId, hp.symm⟩
  · cases h

theorem finishManifest_issues (s : AppState) (m : ManifestReceived) (refetch : Bool) :
    Issues read s (s.finishManifest m refetch) ((historyFetches s m refetch).filterMap read) := by
  unfold finishManifest historyFetches
  dsimp only
  split <;> exact .emit s _ _

/-- After the replay of a manifest the node sends a retry, its own record and the fetches of the
histories. -/
theorem settleManifest_issues (hread : IgnoresRoutine P read) (env : Env) (s : AppState)
    (m : ManifestReceived) (rotated : List String) (refetch : Bool) :
    ∃ t own, OwnAnnouncement P m own ∧
      s.settleManifest P env m rotated refetch = t.finishManifest m refetch ∧
      Issues read s (s.settleManifest P env m rotated refetch)
        ((s.retryFetch m rotated).filterMap read ++ own.filterMap read ++
          (historyFetches t m refetch).filterMap read) := by
  unfold settleManifest
  dsimp only
  generalize m.channelIds.length * _ = draws
  have hadmitted := admitMembers_issues hread env s m rotated
  generalize s.admitMembers P env m rotated = u at hadmitted ⊢
  obtain ⟨own, hown, hself⟩ := announceSelf_issues hread (env.skip draws) u m
  exact ⟨_, own, hown, rfl, (hadmitted.trans hself).trans (finishManifest_issues _ m refetch)⟩

/-- Up to the members, handling a manifest sends nothing that the reading sees. -/
theorem handleManifestReceived_issues (hread : IgnoresRoutine P read) (env : Env) (s : AppState)
    (m : ManifestReceived) :
    Issues read s (s.handleManifestReceived P env m) [] ∨
      ∃ t rotated refetch, Issues read s t [] ∧
        s.handleManifestReceived P env m = t.settleManifest P env m rotated refetch := by
  cases hverify : m.manifest.verify P with
  | false =>
    unfold handleManifestReceived
    rw [hverify]
    exact .inl (.of_eq rfl)
  | true =>
    cases hdeleted : m.manifest.manifest.deleted with
    | true =>
      unfold handleManifestReceived
      rw [hverify, hdeleted]
      refine .inl (Issues.trans (l := []) ?_ (.emit _ [] _))
      exact removeCommunityLocal_issues hread { s with pendingManifestSyncs := _ } _
    | false =>
      rw [handleManifestReceived_of_live env hverify hdeleted]
      have hreplay : Issues read s (s.afterReplay P m) [] := .of_eq (commands_afterReplay s m)
      split
      · exact .inl hreplay
      · exact .inr ⟨_, _, _, hreplay, rfl⟩

end

end BitCord
