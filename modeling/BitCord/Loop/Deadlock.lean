import BitCord.Loop.System
import BitCord.Sample

/-!
# The two channels of the event loop

The event processor waits at the command channel while it handles an event, and the gossip task
waits at the event channel inside the loop in which it takes commands. When both channels are full
each waits for the other, and this state is never left. The spawned tasks do not help: they send to
the same two channels. `never_deadlocked_iff` says which steps of a run close the circle, and
`loop_deadlocks` is a run that ends so: one event makes the processor send more commands than the
channel takes, while gossip fills the event channel.
-/

namespace BitCord

open Lib Lib.Run

variable {i : LoopInput} {p : NodePush} {cmds : List LoopCommand} {rest : List Action}

/-- The next thing that the gossip task does is to send an event. -/
def emitsNext : Option (List GossipAction) → Bool
  | some (.emit _ :: _) => true
  | _ => false

/-- The processor needs a place in the command channel: it is about to send, or it needs a lock of
`bootstrap_network`, which has the commands `pending` to send. -/
def needsPlace (pending : List NetworkCommand) : List Action → Bool
  | .send _ :: _ => true
  | .lock _ :: _ => !pending.isEmpty
  | .acquire _ :: _ => !pending.isEmpty
  | _ => false

namespace LoopState

/-- The gossip task is blocked on sending to a full event channel. -/
def GossipStuck (σ : LoopState) : Prop := emitsNext σ.gossip.actions = true ∧ σ.events.Full

/-- The event processor is blocked on sending to a full command channel, or on a lock of
`bootstrap_network`, which is blocked on that. -/
def ProcessorStuck (σ : LoopState) : Prop :=
  needsPlace σ.bootstrap.pending σ.processor.actions = true ∧ σ.commands.Full

def Deadlocked (σ : LoopState) : Prop := σ.GossipStuck ∧ σ.ProcessorStuck

/-! ## The steps that close the circle -/

/-- The gossip task turns to an event for which there is no place, or another event takes the last
place before its next one. -/
def GossipSticks (σ : LoopState) : LoopInput → Prop
  | .takeRegistration => σ.gossip.actions = some [] ∧ σ.events.Full ∧
      ∃ reg ∈ σ.registrations.items.head?, reg.peerId ∉ σ.gossip.network.peers ∨
        reg.isSeed = true ∧ reg.joinCommunity.isSome = true
  | .takeGossip => σ.gossip.actions = some [] ∧ σ.events.Full ∧ σ.gossipEvents.items ≠ []
  | .gossipAct =>
    match σ.gossip.actions with
    | some (.emit _ :: rest) => σ.events.LastPlace ∧ emitsNext (some rest) = true
    | some (_ :: rest) => σ.events.Full ∧ emitsNext (some rest) = true
    | _ => False
  | .taskAct i => σ.events.LastPlace ∧ emitsNext σ.gossip.actions = true ∧
      ∃ event rest, σ.tasks[i]? = some (.acting (.emit event :: rest))
  | _ => False

/-- The processor turns to a command for which there is no place, or another command takes the last
place before its next one; and the same for the commands of `bootstrap_network`, if the processor
waits for its locks. -/
def ProcessorSticks (P : Prims) (σ : LoopState) : LoopInput → Prop
  | .processorAct =>
    match σ.processor.actions with
    | .send _ :: rest => σ.commands.LastPlace ∧ needsPlace σ.bootstrap.pending rest = true
    | .lock _ :: rest => σ.bootstrap.isRunning = false ∧ σ.commands.Full ∧
        needsPlace σ.bootstrap.pending rest = true
    | .acquire _ :: rest => σ.bootstrap.isRunning = false ∧ σ.commands.Full ∧
        needsPlace σ.bootstrap.pending rest = true
    | _ :: rest => σ.commands.Full ∧ needsPlace σ.bootstrap.pending rest = true
    | [] => False
  | .taskAct i => σ.commands.LastPlace ∧
      needsPlace σ.bootstrap.pending σ.processor.actions = true ∧
      ∃ cmd rest, σ.tasks[i]? = some (.acting (.send cmd :: rest))
  | .bootstrapNext env => σ.commands.Full ∧ ∃ tables item items,
      σ.bootstrap = .running tables (item :: items) [] ∧
      needsPlace (Bootstrap.commands P env tables σ.processor.app item) σ.processor.actions = true
  | .bootstrapSend => σ.commands.LastPlace ∧ ∃ tables items cmd cmds,
      σ.bootstrap = .running tables items (cmd :: cmds) ∧
      needsPlace cmds σ.processor.actions = true
  | .outside _ => σ.commands.LastPlace ∧
      needsPlace σ.bootstrap.pending σ.processor.actions = true
  | _ => False

/-- One party is stuck, and the step makes the other wait for it. -/
def ClosesCircle (P : Prims) (σ : LoopState) (i : LoopInput) : Prop :=
  σ.ProcessorStuck ∧ σ.GossipSticks i ∨ σ.GossipStuck ∧ σ.ProcessorSticks P i

section

variable {P : Prims} {cfg : LoopConfig} {σ τ : LoopState}

/-! ## What each side sees of a step -/

/-- Nothing differs on the side of the gossip task. -/
structure SameGossip (σ τ : LoopState) : Prop where
  actions : τ.gossip.actions = σ.gossip.actions
  events : τ.events = σ.events

/-- Nothing differs on the side of the processor. -/
structure SameProcessor (σ τ : LoopState) : Prop where
  actions : τ.processor.actions = σ.processor.actions
  pending : τ.bootstrap.pending = σ.bootstrap.pending
  commands : τ.commands = σ.commands

theorem SameGossip.stuck_iff (h : SameGossip σ τ) : τ.GossipStuck ↔ σ.GossipStuck := by
  unfold GossipStuck
  rw [h.actions, h.events]

theorem SameProcessor.stuck_iff (h : SameProcessor σ τ) : τ.ProcessorStuck ↔ σ.ProcessorStuck := by
  unfold ProcessorStuck
  rw [h.actions, h.pending, h.commands]

/-- A step on the side of the gossip task. -/
theorem SameProcessor.deadlocked_iff (h : SameProcessor σ τ)
    (hgossip : τ.GossipStuck ↔ σ.GossipStuck ∨ σ.GossipSticks i) (hnot : ¬ σ.ProcessorSticks P i) :
    τ.Deadlocked ↔ σ.Deadlocked ∨ σ.ClosesCircle P i := by
  unfold Deadlocked ClosesCircle
  rw [h.stuck_iff, hgossip]
  tauto

theorem isNone_of_emitsNext {actions : Option (List GossipAction)}
    (h : emitsNext actions = true) : actions.isNone = false := by
  cases actions with
  | none => cases h
  | some _ => rfl

/-- A step on the side of the processor. It matters only while the gossip task is stuck, and then
the command channel is open. -/
theorem SameGossip.deadlocked_iff (h : SameGossip σ τ)
    (hprocessor : σ.gossip.actions.isNone = false →
      (τ.ProcessorStuck ↔ σ.ProcessorStuck ∨ σ.ProcessorSticks P i))
    (hnot : ¬ σ.GossipSticks i) :
    τ.Deadlocked ↔ σ.Deadlocked ∨ σ.ClosesCircle P i := by
  unfold Deadlocked ClosesCircle
  rw [h.stuck_iff]
  by_cases hstuck : σ.GossipStuck
  · rw [hprocessor (isNone_of_emitsNext hstuck.1)]
    tauto
  · tauto

theorem not_gossipStuck_of_idle (hidle : σ.gossip.actions = some []) : ¬ σ.GossipStuck := by
  rintro ⟨hnext, -⟩
  rw [hidle] at hnext
  cases hnext

theorem sendCommand_open (hopen : σ.gossip.actions.isNone = false) (cmd : LoopCommand) :
    σ.sendCommand cmd = σ.commands.send cmd := by
  unfold sendCommand
  rw [hopen]
  rfl

/-! ## The turns of the gossip task -/

theorem emitsNext_register (g : Gossip) (reg : PeerRegistration) :
    emitsNext (g.register P reg).actions = true ↔
      reg.peerId ∉ g.network.peers ∨ reg.isSeed = true ∧ reg.joinCommunity.isSome = true := by
  unfold Gossip.register
  by_cases hpeer : reg.peerId ∈ g.network.peers
  · rw [if_pos (List.contains_iff_mem.mpr hpeer)]
    unfold Gossip.peerEvent Gossip.act
    cases reg.isSeed <;> cases reg.joinCommunity <;> simp [emitsNext, hpeer]
  · rw [if_neg (fun h => hpeer (List.contains_iff_mem.mp h))]
    simp [Gossip.act, emitsNext, hpeer]

theorem deadlocked_takeRegistration :
    (σ.takeRegistration P).Deadlocked ↔ σ.Deadlocked ∨ σ.ClosesCircle P .takeRegistration := by
  have hgossip : (σ.takeRegistration P).GossipStuck ↔
      σ.GossipStuck ∨ σ.GossipSticks .takeRegistration := by
    unfold takeRegistration GossipSticks
    split
    · next reg registrations hidle hrecv =>
      rw [Chan.items_of_recv hrecv]
      have hnot := not_gossipStuck_of_idle hidle
      simp only [GossipStuck, emitsNext_register, hidle, List.head?_cons, Option.mem_def,
        Option.some.injEq, exists_eq_left'] at hnot ⊢
      tauto
    · next hnone =>
      refine ⟨.inl, fun h => h.resolve_right ?_⟩
      rintro ⟨hidle, -, reg, hreg, -⟩
      cases hrecv : σ.registrations.recv with
      | none => simp [Chan.recv_eq_none.mp hrecv] at hreg
      | some r => exact hnone r.1 r.2 hidle hrecv
  refine SameProcessor.deadlocked_iff ?_ hgossip id
  unfold takeRegistration
  split <;> exact ⟨rfl, rfl, rfl⟩

theorem deadlocked_takeGossip :
    σ.takeGossip.Deadlocked ↔ σ.Deadlocked ∨ σ.ClosesCircle P .takeGossip := by
  have hgossip : σ.takeGossip.GossipStuck ↔ σ.GossipStuck ∨ σ.GossipSticks .takeGossip := by
    unfold takeGossip GossipSticks
    split
    · next event gossipEvents hidle hrecv =>
      have hnot := not_gossipStuck_of_idle hidle
      simp [GossipStuck, Gossip.act, emitsNext, hidle, Chan.items_of_recv hrecv]
    · next hnone =>
      refine ⟨.inl, fun h => h.resolve_right ?_⟩
      rintro ⟨hidle, -, hitems⟩
      cases hrecv : σ.gossipEvents.recv with
      | none => exact hitems (Chan.recv_eq_none.mp hrecv)
      | some r => exact hnone r.1 r.2 hidle hrecv
  refine SameProcessor.deadlocked_iff ?_ hgossip id
  unfold takeGossip
  split <;> exact ⟨rfl, rfl, rfl⟩

theorem deadlocked_gossipAct :
    σ.gossipAct.Deadlocked ↔ σ.Deadlocked ∨ σ.ClosesCircle P .gossipAct := by
  have hgossip : σ.gossipAct.GossipStuck ↔ σ.GossipStuck ∨ σ.GossipSticks .gossipAct := by
    unfold gossipAct GossipSticks GossipStuck
    cases hactions : σ.gossip.actions with
    | none => simp [hactions, emitsNext]
    | some actions =>
      cases actions with
      | nil => simp [hactions, emitsNext]
      | cons a rest =>
        cases a with
        | emit event =>
          rcases σ.events.send_cases event with ⟨hsend, hfull, hlast⟩ | ⟨d, hsend, hfull, hlast⟩
          · simp [hsend, hactions, hlast]
          · simp [hsend, Gossip.act, hfull, hlast, and_comm]
        | spawn task => simp [Gossip.act, emitsNext, and_comm]
        | startReader peer => simp [Gossip.act, emitsNext, and_comm]
  refine SameProcessor.deadlocked_iff ?_ hgossip id
  unfold gossipAct
  split
  · split <;> exact ⟨rfl, rfl, rfl⟩
  all_goals exact ⟨rfl, rfl, rfl⟩

/-- A command that was taken leaves a place. -/
theorem deadlocked_takeCommand (dead : List String) :
    (σ.takeCommand P dead).Deadlocked ↔
      σ.Deadlocked ∨ σ.ClosesCircle P (.takeCommand dead) := by
  unfold takeCommand
  split
  · next cmd commands hidle hrecv =>
    have hnot := not_gossipStuck_of_idle hidle
    refine ⟨fun h => absurd h.2.2 (Chan.not_full_of_recv hrecv), ?_⟩
    rintro (h | ⟨-, h⟩ | ⟨-, h⟩)
    · exact absurd h.1 hnot
    · exact h.elim
    · exact h.elim
  · exact ⟨.inl, fun h => h.resolve_right (by rintro (⟨-, h⟩ | ⟨-, h⟩) <;> exact h)⟩

/-! ## The processor -/

/-- An event that was taken leaves a place. -/
theorem deadlocked_takeEvent (env : Env) :
    (σ.takeEvent P cfg env).Deadlocked ↔
      σ.Deadlocked ∨ σ.ClosesCircle P (.takeEvent env) := by
  have hsame : σ.Deadlocked ↔ σ.Deadlocked ∨ σ.ClosesCircle P (.takeEvent env) :=
    ⟨.inl, fun h => h.resolve_right (by rintro (⟨-, h⟩ | ⟨-, h⟩) <;> exact h)⟩
  unfold takeEvent
  split
  · next event events hidle hrecv =>
    dsimp only
    split
    · exact hsame
    · rw [← hsame]
      refine ⟨fun h => absurd h.1.2 (Chan.not_full_of_recv hrecv), fun h => ?_⟩
      have hneeds := h.2.1
      rw [hidle] at hneeds
      cases hneeds
  · exact hsame

theorem pending_of_not_running {b : Bootstrap} (h : b.isRunning = false) : b.pending = [] := by
  cases b with
  | running tables items cmds => cases h
  | waiting => rfl
  | done => rfl

/-- Who waits without `bootstrap_network` waits with it. -/
theorem needsPlace_of_nil (pending : List NetworkCommand) (actions : List Action)
    (h : needsPlace [] actions = true) : needsPlace pending actions = true := by
  cases actions with
  | nil => cases h
  | cons a rest =>
    cases a with
    | send cmd => rfl
    | _ => cases h

theorem deadlocked_processorAct :
    σ.processorAct.Deadlocked ↔ σ.Deadlocked ∨ σ.ClosesCircle P .processorAct := by
  refine SameGossip.deadlocked_iff ?_ (fun hopen => ?_) id
  · unfold processorAct
    split
    · split <;> exact ⟨rfl, rfl⟩
    · split <;> exact ⟨rfl, rfl⟩
    · split <;> exact ⟨rfl, rfl⟩
    all_goals exact ⟨rfl, rfl⟩
  · unfold processorAct ProcessorSticks ProcessorStuck
    cases hactions : σ.processor.actions with
    | nil => simp [hactions, needsPlace]
    | cons a rest =>
      cases a with
      | send cmd =>
        dsimp only
        rw [sendCommand_open hopen]
        rcases σ.commands.send_cases cmd with ⟨hsend, hfull, hlast⟩ | ⟨d, hsend, hfull, hlast⟩
        · simp [hsend, hactions, hlast]
        · simp [hsend, hfull, hlast, and_comm]
      | lock l =>
        cases hrunning : σ.bootstrap.isRunning with
        | true => simp [hactions]
        | false => simp [pending_of_not_running hrunning, needsPlace, and_comm]
      | acquire l =>
        cases hrunning : σ.bootstrap.isRunning with
        | true => simp [hactions]
        | false => simp [pending_of_not_running hrunning, needsPlace, and_comm]
      | release l => simp [needsPlace, and_comm]
      | findPeers pk id => simp [needsPlace, and_comm]

/-! ## `bootstrap_network` and the other tasks -/

theorem deadlocked_bootstrapNext (env : Env) :
    (σ.bootstrapNext P env).Deadlocked ↔
      σ.Deadlocked ∨ σ.ClosesCircle P (.bootstrapNext env) := by
  refine SameGossip.deadlocked_iff ?_ (fun _ => ?_) id
  · unfold bootstrapNext
    split <;> exact ⟨rfl, rfl⟩
  · unfold bootstrapNext ProcessorSticks ProcessorStuck
    cases hboot : σ.bootstrap with
    | waiting => simp [hboot]
    | done => simp [hboot]
    | running tables items cmds =>
      cases cmds with
      | cons cmd cmds => simp [hboot]
      | nil =>
        cases items with
        | nil => simp [Bootstrap.pending]
        | cons item items =>
          have hmore := needsPlace_of_nil
            (Bootstrap.commands P env tables σ.processor.app item) σ.processor.actions
          simp only [Bootstrap.pending, Bootstrap.running.injEq, List.cons.injEq, and_true,
            existsAndEq, true_and]
          tauto

theorem deadlocked_bootstrapSend :
    σ.bootstrapSend.Deadlocked ↔ σ.Deadlocked ∨ σ.ClosesCircle P .bootstrapSend := by
  refine SameGossip.deadlocked_iff ?_ (fun hopen => ?_) id
  · unfold bootstrapSend
    split
    · split <;> exact ⟨rfl, rfl⟩
    · exact ⟨rfl, rfl⟩
  · unfold bootstrapSend ProcessorSticks ProcessorStuck
    cases hboot : σ.bootstrap with
    | waiting => simp [hboot]
    | done => simp [hboot]
    | running tables items cmds =>
      cases cmds with
      | nil => simp [hboot]
      | cons cmd cmds =>
        dsimp only
        rw [sendCommand_open hopen]
        rcases σ.commands.send_cases (.app cmd) with
          ⟨hsend, hfull, hlast⟩ | ⟨d, hsend, hfull, hlast⟩
        · simp [hsend, hboot, hlast]
        · simp [hsend, Bootstrap.pending, hfull, hlast, and_comm]

theorem deadlocked_outside (cmd : LoopCommand) :
    (σ.outside cmd).Deadlocked ↔ σ.Deadlocked ∨ σ.ClosesCircle P (.outside cmd) := by
  refine SameGossip.deadlocked_iff ?_ (fun hopen => ?_) id
  · unfold outside
    split <;> exact ⟨rfl, rfl⟩
  · unfold outside ProcessorSticks ProcessorStuck
    rw [sendCommand_open hopen]
    rcases σ.commands.send_cases cmd with ⟨hsend, hfull, hlast⟩ | ⟨d, hsend, hfull, hlast⟩
    · simp [hsend, hlast]
    · simp [hsend, hfull, hlast, and_comm]

/-- A step that touches neither side. -/
theorem deadlocked_iff_of_same (hgossip : SameGossip σ τ) (hprocessor : SameProcessor σ τ)
    (hnot : ¬ σ.ClosesCircle P i) : τ.Deadlocked ↔ σ.Deadlocked ∨ σ.ClosesCircle P i := by
  unfold Deadlocked
  rw [hgossip.stuck_iff, hprocessor.stuck_iff, or_iff_left hnot]

theorem deadlocked_taskAct (i : Nat) :
    (σ.taskAct i).Deadlocked ↔ σ.Deadlocked ∨ σ.ClosesCircle P (.taskAct i) := by
  have hother : (∀ event rest, σ.tasks[i]? ≠ some (.acting (.emit event :: rest))) →
      (∀ cmd rest, σ.tasks[i]? ≠ some (.acting (.send cmd :: rest))) →
      ¬ σ.ClosesCircle P (.taskAct i) := by
    rintro hemit hsend (⟨-, -, -, event, rest, h⟩ | ⟨-, -, -, cmd, rest, h⟩)
    · exact hemit event rest h
    · exact hsend cmd rest h
  unfold taskAct
  split
  · next event rest htask =>
    refine SameProcessor.deadlocked_iff ?_ ?_ ?_
    · split <;> exact ⟨rfl, rfl, rfl⟩
    · unfold GossipSticks GossipStuck
      rcases σ.events.send_cases event with ⟨hsend, hfull, hlast⟩ | ⟨d, hsend, hfull, hlast⟩
      · simp [hsend, hlast]
      · simp [hsend, hfull, hlast, htask, and_comm]
    · rintro ⟨-, -, cmd, rest', h⟩
      rw [htask] at h
      cases h
  · next reg rest htask =>
    refine deadlocked_iff_of_same ?_ ?_ (hother ?_ ?_)
    · split <;> exact ⟨rfl, rfl⟩
    · split <;> exact ⟨rfl, rfl, rfl⟩
    all_goals
      intro x rest' h
      rw [htask] at h
      cases h
  · next cmd rest htask =>
    refine SameGossip.deadlocked_iff ?_ (fun hopen => ?_) ?_
    · split <;> exact ⟨rfl, rfl⟩
    · unfold ProcessorSticks ProcessorStuck
      rw [sendCommand_open hopen]
      rcases σ.commands.send_cases cmd with ⟨hsend, hfull, hlast⟩ | ⟨d, hsend, hfull, hlast⟩
      · simp [hsend, hlast]
      · simp [hsend, hfull, hlast, htask, and_comm]
    · rintro ⟨-, -, event, rest', h⟩
      rw [htask] at h
      cases h
  · next task rest htask =>
    refine deadlocked_iff_of_same ⟨rfl, rfl⟩ ⟨rfl, rfl, rfl⟩ (hother ?_ ?_)
    all_goals
      intro x rest' h
      rw [htask] at h
      cases h
  · next hemit _ hsend _ =>
    exact deadlocked_iff_of_same ⟨rfl, rfl⟩ ⟨rfl, rfl, rfl⟩ (hother hemit hsend)

/-! ## Every step, and every run -/

theorem deadlocked_step (i : LoopInput) :
    (σ.step P cfg i).Deadlocked ↔ σ.Deadlocked ∨ σ.ClosesCircle P i := by
  have hneither : ∀ {j : LoopInput}, σ.GossipSticks j = False → σ.ProcessorSticks P j = False →
      ¬ σ.ClosesCircle P j := by
    rintro j hgossip hprocessor (⟨-, h⟩ | ⟨-, h⟩)
    · exact hgossip ▸ h
    · exact hprocessor ▸ h
  cases i with
  | takeCommand dead => exact deadlocked_takeCommand dead
  | takeRegistration => exact deadlocked_takeRegistration
  | takeGossip => exact deadlocked_takeGossip
  | gossipAct => exact deadlocked_gossipAct
  | taskAct i => exact deadlocked_taskAct i
  | takeEvent env => exact deadlocked_takeEvent env
  | processorAct => exact deadlocked_processorAct
  | bootstrapNext env => exact deadlocked_bootstrapNext env
  | bootstrapSend => exact deadlocked_bootstrapSend
  | outside cmd => exact deadlocked_outside cmd
  | push reader p =>
    dsimp only [step, push]
    split
    · split <;>
        exact deadlocked_iff_of_same ⟨rfl, rfl⟩ ⟨rfl, rfl, rfl⟩ (hneither rfl rfl)
    · exact deadlocked_iff_of_same ⟨rfl, rfl⟩ ⟨rfl, rfl, rfl⟩ (hneither rfl rfl)
  | resolve i outcome =>
    dsimp only [step, resolve]
    split <;> exact deadlocked_iff_of_same ⟨rfl, rfl⟩ ⟨rfl, rfl, rfl⟩ (hneither rfl rfl)
  | bootstrapStart =>
    dsimp only [step, bootstrapStart]
    split
    · next hboot =>
      split
      · exact deadlocked_iff_of_same ⟨rfl, rfl⟩ ⟨rfl, by rw [hboot]; rfl, rfl⟩ (hneither rfl rfl)
      · exact deadlocked_iff_of_same ⟨rfl, rfl⟩ ⟨rfl, rfl, rfl⟩ (hneither rfl rfl)
    · exact deadlocked_iff_of_same ⟨rfl, rfl⟩ ⟨rfl, rfl, rfl⟩ (hneither rfl rfl)

theorem Deadlocked.run (h : σ.Deadlocked) (l : List LoopInput) :
    (Run.run (step P cfg) σ l).Deadlocked := by
  refine Along.invariant (G := fun _ _ => True) ?_ h (along_of_forall fun _ _ _ => trivial)
  exact fun σ i hσ _ => (deadlocked_step i).mpr (.inl hσ)

end

/-- The loop does not deadlock in a run exactly when no step of the run closes the circle. -/
theorem never_deadlocked_iff (P : Prims) (cfg : LoopConfig) (app : AppState)
    (listenAddrs : List String) (l : List LoopInput) :
    (∀ pre, pre <+: l → ¬ (run (step P cfg) (start cfg app listenAddrs) pre).Deadlocked) ↔
      Along (step P cfg) (fun σ i => ¬ σ.ClosesCircle P i) (start cfg app listenAddrs) l := by
  refine forall_prefix_iff_along (I := fun σ : LoopState => ¬ σ.Deadlocked)
    (H := fun _ _ => True) ?_ ?_ (along_of_forall fun _ _ _ => trivial)
  · intro σ i _ hσ
    rw [deadlocked_step]
    tauto
  · rintro ⟨-, -, hfull⟩
    cases hfull

/-! ## A run that deadlocks -/

section

variable {P : Prims} {cfg : LoopConfig} {σ : LoopState}

/-- The gossip task is idle and its queue empty, and the push `p` of its server is an event. -/
structure Listening (P : Prims) (p : NodePush) (σ : LoopState) : Prop where
  idle : σ.gossip.actions = some []
  reader : none ∈ σ.readers
  empty : σ.gossipEvents.items = []
  heard : (pushEvent (hexText (σ.processor.app.ownPk P)) p).isSome = true

/-- The gossip task takes a push: it has an event to send, and nothing else changed. -/
theorem Listening.take (cfg : LoopConfig) (h : Listening P p σ) :
    ∃ event gossipEvents, gossipEvents.items = [] ∧
      run (step P cfg) σ [.push none p, .takeGossip] =
        { σ with gossipEvents, gossip := σ.gossip.act [.emit event] } := by
  obtain ⟨event, hevent⟩ := Option.isSome_iff_exists.mp h.heard
  have hroom : ¬ σ.gossipEvents.Full := by
    unfold Chan.Full
    rw [h.empty]
    decide
  obtain ⟨queue, hqueue, hitems⟩ := Chan.exists_send hroom event
  have hpush : σ.step P cfg (.push none p) = { σ with gossipEvents := queue } := by
    simp only [step, push, if_pos h.reader, hevent, Option.bind_some, hqueue]
  rw [h.empty, List.nil_append] at hitems
  obtain ⟨rest, hrecv⟩ : ∃ r, queue.recv = some r := by
    refine Option.ne_none_iff_exists'.mp fun hnone => ?_
    rw [Chan.recv_eq_none.mp hnone] at hitems
    cases hitems
  have hrest := Chan.items_of_recv (a := rest.1) (d := rest.2) hrecv
  rw [hitems] at hrest
  obtain ⟨hfirst, hrest⟩ := List.cons.inj hrest
  refine ⟨event, rest.2, hrest.symm, ?_⟩
  rw [run_cons, hpush, run_cons, run_nil]
  simp only [step, takeGossip, h.idle, hrecv, hfirst]

/-- A push that goes through to the event channel. -/
def pushRound (p : NodePush) : List LoopInput := [.push none p, .takeGossip, .gossipAct]

/-- Nothing but the gossip task and its queues changed. -/
structure ProcessorFrame (σ τ : LoopState) : Prop where
  commands : τ.commands = σ.commands
  processor : τ.processor = σ.processor
  bootstrap : τ.bootstrap = σ.bootstrap

theorem Listening.round (cfg : LoopConfig) (h : Listening P p σ) (hroom : ¬ σ.events.Full) :
    Listening P p (run (step P cfg) σ (pushRound p)) ∧
      (run (step P cfg) σ (pushRound p)).events.items.length = σ.events.items.length + 1 ∧
      ProcessorFrame σ (run (step P cfg) σ (pushRound p)) := by
  obtain ⟨event, queue, hqueue, htake⟩ := h.take cfg
  obtain ⟨events, hevents, hitems⟩ := Chan.exists_send hroom event
  have hround : run (step P cfg) σ (pushRound p) =
      { σ with events, gossipEvents := queue, gossip := σ.gossip.act [] } := by
    rw [show pushRound p = [.push none p, .takeGossip] ++ [.gossipAct] from rfl, run_append, htake,
      run_cons, run_nil]
    simp only [step, gossipAct, Gossip.act, hevents]
  rw [hround]
  refine ⟨⟨rfl, h.reader, hqueue, h.heard⟩, ?_, rfl, rfl, rfl⟩
  rw [hitems, List.length_append]
  rfl

/-- Pushes fill the event channel while the processor does nothing. -/
theorem Listening.rounds (cfg : LoopConfig) (n : Nat) (h : Listening P p σ)
    (hroom : σ.events.items.length + n ≤ 512) :
    Listening P p (run (step P cfg) σ (List.replicate n (pushRound p)).flatten) ∧
      (run (step P cfg) σ (List.replicate n (pushRound p)).flatten).events.items.length =
        σ.events.items.length + n ∧
      ProcessorFrame σ (run (step P cfg) σ (List.replicate n (pushRound p)).flatten) := by
  induction n generalizing σ with
  | zero => exact ⟨h, rfl, rfl, rfl, rfl⟩
  | succ n ih =>
    have hnot : ¬ σ.events.Full := by
      unfold Chan.Full
      omega
    obtain ⟨hround, hlength, hframe⟩ := h.round cfg hnot
    obtain ⟨hrounds, hlength', hframe'⟩ := ih hround (by omega)
    rw [List.replicate_succ, List.flatten_cons, run_append]
    exact ⟨hrounds, by omega, hframe'.commands.trans hframe.commands,
      hframe'.processor.trans hframe.processor, hframe'.bootstrap.trans hframe.bootstrap⟩

/-- The processor sends as long as there is room, while the gossip task does nothing. -/
theorem processorSends (cfg : LoopConfig) (hopen : σ.gossip.actions.isNone = false)
    (hactions : σ.processor.actions = cmds.map .send ++ rest)
    (hroom : σ.commands.items.length + cmds.length ≤ 256) :
    ∃ commands, commands.items.length = σ.commands.items.length + cmds.length ∧
      run (step P cfg) σ (List.replicate cmds.length .processorAct) =
        { σ with commands, processor := { σ.processor with actions := rest } } := by
  induction cmds generalizing σ with
  | nil =>
    refine ⟨σ.commands, rfl, ?_⟩
    rw [show rest = σ.processor.actions from hactions.symm]
    rfl
  | cons cmd cmds ih =>
    have hroom' : σ.commands.items.length + 1 + cmds.length ≤ 256 := by
      rw [List.length_cons] at hroom
      omega
    have hnot : ¬ σ.commands.Full := by
      unfold Chan.Full
      omega
    obtain ⟨commands, hcommands, hitems⟩ := Chan.exists_send hnot cmd
    have hstep : σ.step P cfg .processorAct = { σ with
        commands, processor := { σ.processor with actions := cmds.map .send ++ rest } } := by
      simp only [step, processorAct, hactions, List.map_cons, List.cons_append,
        sendCommand_open hopen, hcommands]
    have hlength : commands.items.length = σ.commands.items.length + 1 := by
      rw [hitems, List.length_append]
      rfl
    rw [List.length_cons, List.replicate_succ, run_cons, hstep]
    generalize hσ' : { σ with commands, processor := _ } = σ'
    obtain ⟨commands', hlength', hrun⟩ := ih (σ := σ') (by rw [← hσ']; exact hopen)
      (by rw [← hσ']) (by rw [← hσ', hlength]; exact hroom')
    refine ⟨commands', ?_, ?_⟩
    · rw [hlength', ← hσ', hlength]
      omega
    · rw [hrun, ← hσ']

/-- The pushes that fill the event channel, one more, and the commands that the processor sends. -/
def crowding (p : NodePush) (events commands : Nat) : List LoopInput :=
  (List.replicate events (pushRound p)).flatten ++ [.push none p, .takeGossip] ++
    List.replicate commands .processorAct

/-- Where the channels are empty and the processor has one command more to send than the channel
takes, pushes that are read before the gossip task takes a command lead to a deadlock. -/
theorem Listening.deadlocks (cfg : LoopConfig) (h : Listening P p σ)
    (hevents : σ.events.items = []) (hcommands : σ.commands.items = []) {cmd : LoopCommand}
    {m n : Nat} (hm : m = 512) (hn : n = 256) (hlength : cmds.length = n)
    (hactions : σ.processor.actions = cmds.map .send ++ .send cmd :: rest) :
    (run (step P cfg) σ (crowding p m n)).Deadlocked := by
  obtain ⟨hidle, hfull, hframe⟩ := h.rounds cfg m (by rw [hevents, hm]; rfl)
  obtain ⟨event, queue, -, htake⟩ := hidle.take cfg
  rw [crowding, run_append, run_append, htake]
  generalize run (step P cfg) σ (List.replicate m (pushRound p)).flatten = τ at hfull hframe
  obtain ⟨commands, hplaces, hrun⟩ := processorSends (P := P) cfg
    (σ := { τ with gossipEvents := queue, gossip := τ.gossip.act [.emit event] }) rfl
    (hframe.processor ▸ hactions) (by rw [hframe.commands, hcommands, hlength, hn]; rfl)
  rw [hlength] at hrun
  rw [hframe.commands, hcommands, List.length_nil, Nat.zero_add, hlength, hn] at hplaces
  rw [hevents, List.length_nil, Nat.zero_add, hm] at hfull
  rw [hrun]
  exact ⟨⟨rfl, hfull⟩, rfl, hplaces⟩

end

end LoopState

/-! ## The sample -/

open Sample LoopState

def Action.isSend : Action → Bool
  | .send _ => true
  | _ => false

theorem exists_sends {actions : List Action} (h : actions.all Action.isSend = true) :
    ∃ cmds : List LoopCommand, actions = cmds.map .send := by
  induction actions with
  | nil => exact ⟨[], rfl⟩
  | cons a rest ih =>
    rw [List.all_cons, Bool.and_eq_true] at h
    obtain ⟨cmds, rfl⟩ := ih h.2
    cases a with
    | send cmd => exact ⟨cmd :: cmds, rfl⟩
    | _ => cases h.1

/-- A manifest of a community with `n` channels. -/
def wideManifest (version : UInt64) (n : Nat) : SignedManifest :=
  CommunityManifest.sign (prims [] [])
    { id := ⟨7⟩, name := "name", description := "", publicKey := 31, createdAt := 0, adminIds := [],
      channelIds := (List.range n).map fun i => ⟨BitVec.ofNat 128 (100 + i)⟩, seedNodes := [],
      version, deleted := false } 30

def wideEvent : NetworkEvent := .manifestUpdate (wideManifest 2 257)

def widePrims : Prims := prims [wideEvent] []

def loopConfig : LoopConfig := ⟨fun addr => [addr], fun _ => "", false, true⟩

def loopMember : AppState :=
  { app 20 with
    communities := Dict.insertAll [(CommunityId.text ⟨7⟩, wideManifest 1 0)] ∅ }

/-- The node starts, `bootstrap_network` runs to its end, and the processor takes a manifest with
257 new channels. -/
def wideRun : List LoopInput :=
  [.gossipAct, .gossipAct, .takeEvent env, .bootstrapStart, .bootstrapNext env, .bootstrapNext env,
    .bootstrapSend, .bootstrapNext env, .bootstrapNext env, .takeCommand [],
    .push none (.gossipMessage (communityTopic (CommunityId.text ⟨7⟩)) "relay" [0]),
    .takeGossip, .gossipAct, .takeEvent env, .processorAct]

def loopStart : LoopState := start loopConfig loopMember ["0.0.0.0:9042"]

def noise : NodePush := .gossipMessage "" "relay" []

def wideState : LoopState := run (step widePrims loopConfig) loopStart wideRun

/-- The gossip task is idle, the channels are empty, and 257 sends are next for the processor. -/
theorem wideState_facts :
    wideState.gossip.actions.map List.isEmpty = some true ∧ none ∈ wideState.readers ∧
      wideState.gossipEvents.items.isEmpty = true ∧
      (pushEvent (hexText (wideState.processor.app.ownPk widePrims)) noise).isSome = true ∧
      wideState.events.items.isEmpty = true ∧ wideState.commands.items.isEmpty = true ∧
      (wideState.processor.actions.take 257).length = 257 ∧
      (wideState.processor.actions.take 257).all Action.isSend = true := by
  decide +kernel

theorem wideState_listening : Listening widePrims noise wideState := by
  obtain ⟨hidle, hreader, hempty, hheard, -⟩ := wideState_facts
  obtain ⟨actions, hactions, hnil⟩ := Option.map_eq_some_iff.mp hidle
  rw [List.isEmpty_iff.mp hnil] at hactions
  exact ⟨hactions, hreader, List.isEmpty_iff.mp hempty, hheard⟩

theorem wideState_sends : ∃ (cmds : List LoopCommand) (cmd : LoopCommand) (rest : List Action),
    cmds.length = 256 ∧ wideState.processor.actions = cmds.map .send ++ .send cmd :: rest := by
  obtain ⟨-, -, -, -, -, -, htake, hall⟩ := wideState_facts
  obtain ⟨cmds, hcmds⟩ := exists_sends hall
  have hlength : cmds.length = 257 := by
    rw [← htake, hcmds, List.length_map]
  have hsplit := List.take_append_drop 257 wideState.processor.actions
  rw [hcmds] at hsplit
  generalize wideState.processor.actions.drop 257 = rest at hsplit
  rcases List.eq_nil_or_concat cmds with rfl | ⟨front, last, rfl⟩
  · cases hlength
  · rw [List.length_concat] at hlength
    refine ⟨front, last, rest, Nat.succ.inj hlength, ?_⟩
    rw [← hsplit, List.concat_eq_append, List.map_append, List.append_assoc]
    rfl

/-- A manifest with 257 new channels makes the processor send 257 subscriptions. If 513 pushes
arrive before the gossip task takes a command, both wait for ever, whatever happens then. -/
theorem loop_deadlocks :
    (run (step widePrims loopConfig) loopStart (wideRun ++ crowding noise 512 256)).Deadlocked ∧
      ∀ l : List LoopInput, (run (step widePrims loopConfig) loopStart
        (wideRun ++ crowding noise 512 256 ++ l)).Deadlocked := by
  obtain ⟨-, -, -, -, hevents, hcommands, -⟩ := wideState_facts
  obtain ⟨cmds, cmd, rest, hlength, hactions⟩ := wideState_sends
  have hcrowded : (run (step widePrims loopConfig) loopStart
      (wideRun ++ crowding noise 512 256)).Deadlocked := by
    rw [run_append]
    exact wideState_listening.deadlocks loopConfig (List.isEmpty_iff.mp hevents)
      (List.isEmpty_iff.mp hcommands) rfl rfl hlength hactions
  refine ⟨hcrowded, fun l => ?_⟩
  rw [run_append]
  exact hcrowded.run l

end BitCord
