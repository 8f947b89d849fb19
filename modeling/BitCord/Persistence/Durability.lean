import BitCord.Dropped
import BitCord.Persistence.Calls

/-!
# What survives a restart

Whatever changes the channels or the members writes their file, so a restart after any run finds
them (`restart_loses_nothing`).
-/

namespace BitCord

open Lib Lib.Run AppState

namespace AppState

/-- The files have the channels and the members of the tables. -/
structure Saved (s : AppState) : Prop where
  channels : ∀ x ∈ s.channels, x ∈ s.files.channels
  members : s.files.members = s.members

def Survives (P : Prims) (s : AppState) : Prop :=
  (∀ x ∈ s.channels, x ∈ (s.restart P).channels) ∧
    ∀ c v r, recordIn s.members c v = some r → recordIn (s.restart P).members c v = some r

variable {P : Prims} {s s' : AppState} {n : Node} {i : NodeInput}

theorem Saved.follow (h : s.Saved) (hchannels : ChannelsFollow s s') (hmembers : FileFollows s s') :
    s'.Saved where
  channels x hx := hchannels.elim (fun hall => (hall x).mpr hx) fun hall =>
    (hall x).2.mpr (h.channels x ((hall x).1.mp hx))
  members := hmembers.elim id fun hkept => by rw [hkept.1, hkept.2, h.members]

theorem Saved.step (h : n.app.Saved) (hi : ∀ dht, i ≠ .restart dht) : (n.step P i).app.Saved := by
  refine h.follow (follow_step hi) ?_
  cases i with
  | event env e => exact (processEvent_saves env n.app e).members
  | rpc env call => exact (rpc_own env n.app call).file
  | connect conn => exact .inr ⟨rfl, rfl⟩
  | request conn env remote req =>
    unfold Node.step Node.handleRequest
    cases n.app.nodeStore <;> exact .inr ⟨rfl, rfl⟩
  | restart dht => exact absurd rfl (hi dht)

theorem Saved.survives (h : s.Saved) : s.Survives P := by
  refine ⟨fun x hx => mem_channels_restart.mpr (.inr (h.channels x hx)), fun c v r hr => ?_⟩
  rw [← h.members] at hr
  unfold restart
  cases s.nodeStore with
  | none => exact hr
  | some st =>
    exact (leftUnion_backPopulateAll
      (f := fun t (k : String × String) => recordIn t.members k.1 k.2)
      (fun _ _ t => leftUnion_members t) (mergeMembers s.files st) s.files).kept (c, v) r hr

end AppState

/-- After any run without a restart, a restart loses no channel and no member. -/
theorem restart_loses_nothing {P : Prims} {n : Node} (h : n.app.Saved) {inputs : List NodeInput}
    (hinputs : ∀ i ∈ inputs, ∀ dht, i ≠ .restart dht) :
    (run (Node.step P) n inputs).app.Survives P :=
  have hrun : Along (Node.step P) (fun _ i => ∀ dht, i ≠ .restart dht) n inputs :=
    along_of_forall fun _ => hinputs
  (hrun.invariant (I := fun n : Node => n.app.Saved) (fun _ _ hs hi => hs.step hi) h).survives

namespace Sample

/-- A user joins the community that the node created. -/
def newcomer : MembershipRecord :=
  (app 20).ownRecord (prims [] []) ⟨env.ulid 0⟩ "" [.member] 0

def joinPrims : Prims := prims [.memberJoined newcomer] []

/-- The node creates a community and a channel, and a user joins. -/
def createAndJoin : List NodeInput :=
  [.rpc env (.communityCreate (createParams "name")),
    .rpc (env.skip 1) (.channelCreate newsChannel),
    .event env (.messageReceived (communityTopic createdId) [0] none)]

end Sample

open Sample in
theorem restart_loses_nothing_joined :
    let s := (run (Node.step joinPrims) (node (app 30)) createAndJoin).app
    newsId ∈ s.channels ∧ recordIn s.members createdId newcomer.userId.text = some newcomer ∧
      s.Survives joinPrims :=
  ⟨by decide +kernel, by decide +kernel, restart_loses_nothing ⟨fun _ => id, rfl⟩
    (by simp [createAndJoin])⟩

end BitCord
