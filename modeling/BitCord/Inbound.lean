import BitCord.Lib.Run

/-!
# The limit on inbound connections

`NodeServer::serve` compares a counter with the limit and spawns a task for each connection that it
accepts. The counter is raised by the task and not by the loop, so connections whose tasks have not
run yet are not counted, and a burst exceeds the limit (`burst_exceeds_limit`). The limit holds if
the loop reads the counter only when every task has raised it (`inbound_limited_of_counted`).
-/

namespace BitCord

open Lib Lib.Run

variable {connected connected' maxConnections : Nat}

/-- `ConnectionLimiter::allow_inbound`. -/
def allowInbound (maxConnections connected : Nat) (incomingRep : Int)
    (lowestRepConnected : Option Int) : Bool :=
  if connected < maxConnections then true
  else
    match lowestRepConnected with
    | some lowest => decide (incomingRep > lowest)
    | none => false

/-- How far the task of a connection is. -/
inductive TaskPhase where
  /-- The task has not started. -/
  | spawned
  /-- The counter is raised; the handshake or the handler runs. -/
  | running
  /-- The connection is over, because the handshake failed or the handler returned. -/
  | finished
  /-- The counter is lowered. -/
  | ended
  /-- The handler panicked; the counter stays raised. -/
  | aborted
  deriving DecidableEq

/-- The connection was accepted and is not over. -/
def TaskPhase.unfinished : TaskPhase → Bool
  | .spawned | .running => true
  | _ => false

def TaskPhase.counted : TaskPhase → Bool
  | .running | .finished | .aborted => true
  | _ => false

structure ServerState where
  maxConnections : Nat
  connected : Nat
  /-- The value of the counter that the loop has read for the connection it decides on. -/
  loaded : Option Nat
  tasks : List TaskPhase

/-- A step of the accept loop or of one of the tasks. -/
inductive ServeInput where
  | accept
  | spawn
  | count (task : Nat)
  | finish (task : Nat)
  | abort (task : Nat)
  | uncount (task : Nat)

namespace ServerState

/-- `NodeServer::bind`. -/
def bind (maxConnections : Nat) : ServerState := ⟨maxConnections, 0, none, []⟩

/-- A task goes from one phase to the next. -/
def move (s : ServerState) (task : Nat) (before after : TaskPhase) (connected : Nat) :
    ServerState :=
  if s.tasks[task]? = some before then { s with tasks := s.tasks.set task after, connected } else s

/-- `NodeServer::serve`. A step that is not enabled does nothing. -/
def serveStep (s : ServerState) : ServeInput → ServerState
  | .accept =>
    match s.loaded with
    | none => { s with loaded := some s.connected }
    | some _ => s
  | .spawn =>
    match s.loaded with
    | none => s
    | some connected =>
      if allowInbound s.maxConnections connected 0 none then
        { s with loaded := none, tasks := s.tasks ++ [.spawned] }
      else { s with loaded := none }
  | .count task => s.move task .spawned .running (s.connected + 1)
  | .finish task => s.move task .running .finished s.connected
  | .abort task => s.move task .running .aborted s.connected
  | .uncount task => s.move task .finished .ended (s.connected - 1)

/-- The connections that were accepted and are not over. -/
def unfinished (s : ServerState) : Nat := s.tasks.countP TaskPhase.unfinished

/-! ## Steps -/

theorem countP_set_add {α : Type} {p : α → Bool} {l : List α} {i : Nat} {a : α} (b : α)
    (h : l[i]? = some a) : (l.set i b).countP p + (p a).toNat = l.countP p + (p b).toNat := by
  induction l generalizing i with
  | nil => simp at h
  | cons c l ih =>
    cases i with
    | zero =>
      obtain rfl : c = a := by simpa using h
      simp only [List.set_cons_zero, List.countP_cons]
      cases p c <;> cases p b <;> simp
    | succ i =>
      have hrest := ih (i := i) (by simpa using h)
      simp only [List.set_cons_succ, List.countP_cons]
      omega

/-- What a task does to its phase and to the counter. -/
inductive TaskMove (connected : Nat) : TaskPhase → TaskPhase → Nat → Prop
  | count : TaskMove connected .spawned .running (connected + 1)
  | finish : TaskMove connected .running .finished connected
  | abort : TaskMove connected .running .aborted connected
  | uncount : TaskMove connected .finished .ended (connected - 1)

/-- What a step can do. -/
inductive Served (s : ServerState) : ServeInput → ServerState → Prop
  | idle {i : ServeInput} : Served s i s
  | accept (hloaded : s.loaded = none) :
      Served s .accept { s with loaded := some s.connected }
  | spawn {connected : Nat} (hloaded : s.loaded = some connected)
      (hallow : allowInbound s.maxConnections connected 0 none = true) :
      Served s .spawn { s with loaded := none, tasks := s.tasks ++ [.spawned] }
  | refuse {connected : Nat} (hloaded : s.loaded = some connected)
      (hallow : ¬ allowInbound s.maxConnections connected 0 none = true) :
      Served s .spawn { s with loaded := none }
  | task {i : ServeInput} {task : Nat} {before after : TaskPhase} {connected : Nat}
      (htask : s.tasks[task]? = some before)
      (hmove : TaskMove s.connected before after connected) :
      Served s i { s with tasks := s.tasks.set task after, connected }

theorem served_move {s : ServerState} {i : ServeInput} {before after : TaskPhase} (task : Nat)
    (hmove : TaskMove s.connected before after connected) :
    Served s i (s.move task before after connected) := by
  unfold move
  split
  · next htask => exact .task htask hmove
  · exact .idle

theorem served_serveStep (s : ServerState) (i : ServeInput) : Served s i (s.serveStep i) := by
  cases i with
  | accept =>
    unfold serveStep
    cases hloaded : s.loaded with
    | none => exact .accept hloaded
    | some _ => exact .idle
  | spawn =>
    unfold serveStep
    cases hloaded : s.loaded with
    | none => exact .idle
    | some connected =>
      dsimp only
      split
      · next hallow => exact .spawn hloaded hallow
      · next hallow => exact .refuse hloaded hallow
  | count task => exact served_move task .count
  | finish task => exact served_move task .finish
  | abort task => exact served_move task .abort
  | uncount task => exact served_move task .uncount

variable {s s' : ServerState} {i : ServeInput}

theorem Served.maxConnections_eq (h : Served s i s') : s'.maxConnections = s.maxConnections := by
  cases h <;> rfl

theorem TaskMove.unfinished_le {before after : TaskPhase}
    (h : TaskMove connected before after connected') :
    after.unfinished.toNat ≤ before.unfinished.toNat := by
  cases h <;> decide

/-! ## The counter -/

/-- The counter has the value that the tasks gave it, and what the loop has read covers the
connections that are unfinished. -/
structure Covered (s : ServerState) : Prop where
  connected : s.connected = s.tasks.countP TaskPhase.counted
  loaded : ∀ connected, s.loaded = some connected → s.unfinished ≤ connected

/-- The loop reads the counter when every task has raised it. -/
def ReadsCounted (s : ServerState) : ServeInput → Prop
  | .accept => TaskPhase.spawned ∉ s.tasks
  | _ => True

theorem unfinished_le_counted {tasks : List TaskPhase} (h : TaskPhase.spawned ∉ tasks) :
    tasks.countP TaskPhase.unfinished ≤ tasks.countP TaskPhase.counted := by
  refine List.countP_mono_left fun t ht hunfinished => ?_
  cases t with
  | spawned => exact absurd ht h
  | running => rfl
  | _ => cases hunfinished

theorem TaskMove.counted_eq {before after : TaskPhase}
    (h : TaskMove connected before after connected') (hpos : before.counted.toNat ≤ connected) :
    connected' + before.counted.toNat = connected + after.counted.toNat := by
  cases h
  case uncount => exact Nat.sub_add_cancel hpos
  all_goals rfl

theorem Covered.served (h : Served s i s') (hs : s.Covered) (hreads : s.ReadsCounted i) :
    s'.Covered := by
  cases h with
  | idle => exact hs
  | accept hloaded =>
    refine ⟨hs.connected, fun connected heq => ?_⟩
    rw [← Option.some.inj heq, hs.connected]
    exact unfinished_le_counted hreads
  | spawn hloaded hallow =>
    refine ⟨?_, nofun⟩
    show s.connected = (s.tasks ++ [TaskPhase.spawned]).countP TaskPhase.counted
    simp [hs.connected, TaskPhase.counted]
  | refuse => exact ⟨hs.connected, nofun⟩
  | @task _ task before after connected htask hmove =>
    have hunfinished := countP_set_add (p := TaskPhase.unfinished) after htask
    have hcounted := countP_set_add (p := TaskPhase.counted) after htask
    have hconnected := hs.connected
    have hpos : before.counted.toNat ≤ s.connected := by
      have hmem : before ∈ s.tasks := List.mem_of_getElem? htask
      rw [hconnected]
      cases hbefore : before.counted with
      | false => exact Nat.zero_le _
      | true => exact List.countP_pos_iff.mpr ⟨before, hmem, hbefore⟩
    have heq := hmove.counted_eq hpos
    have hle := hmove.unfinished_le
    refine ⟨?_, fun c hc => ?_⟩
    · show connected = (s.tasks.set task after).countP _
      omega
    · have hbound : s.tasks.countP TaskPhase.unfinished ≤ c := hs.loaded c hc
      show (s.tasks.set task after).countP _ ≤ c
      omega

theorem allowInbound_eq_true_iff :
    allowInbound maxConnections connected 0 none = true ↔ connected < maxConnections := by
  unfold allowInbound
  split <;> simp_all

/-- The loop accepts a connection only if the counter that it has read is below the limit. -/
theorem Covered.unfinished_le (h : Served s i s') (hs : s.Covered)
    (hle : s.unfinished ≤ s.maxConnections) : s'.unfinished ≤ s.maxConnections := by
  cases h with
  | idle => exact hle
  | accept => exact hle
  | refuse => exact hle
  | @spawn connected hloaded hallow =>
    have hbelow : s.unfinished < s.maxConnections :=
      Nat.lt_of_le_of_lt (hs.loaded connected hloaded) (allowInbound_eq_true_iff.mp hallow)
    show (s.tasks ++ [TaskPhase.spawned]).countP TaskPhase.unfinished ≤ _
    rw [List.countP_append]
    exact hbelow
  | @task _ task before after connected htask hmove =>
    have hcount := countP_set_add (p := TaskPhase.unfinished) after htask
    have hmoved := hmove.unfinished_le
    have hle' : s.tasks.countP TaskPhase.unfinished ≤ s.maxConnections := hle
    show (s.tasks.set task after).countP TaskPhase.unfinished ≤ _
    omega

end ServerState

open ServerState

/-! ## Runs -/

def InLimit (maxConnections : Nat) (s : ServerState) : Prop :=
  s.maxConnections = maxConnections ∧ s.unfinished ≤ s.maxConnections

/-- In every interleaving, the limit holds if the loop reads the counter only when every task has
raised it. -/
theorem inbound_limited_of_counted {inputs : List ServeInput}
    (h : Along serveStep ReadsCounted (bind maxConnections) inputs) {pre : List ServeInput}
    (hpre : pre <+: inputs) : InLimit maxConnections (run serveStep (bind maxConnections) pre) := by
  have hboth : (run serveStep (bind maxConnections) pre).Covered ∧
      InLimit maxConnections (run serveStep (bind maxConnections) pre) := by
    refine h.invariant_reached (I := fun s => s.Covered ∧ InLimit maxConnections s) ?_
      ⟨⟨rfl, nofun⟩, rfl, Nat.zero_le _⟩ hpre
    rintro s i ⟨hcovered, hmax, hle⟩ hreads
    have hserved := served_serveStep s i
    refine ⟨hcovered.served hserved hreads, ?_⟩
    rw [InLimit, hserved.maxConnections_eq]
    exact ⟨hmax, hcovered.unfinished_le hserved hle⟩
  exact hboth.2

theorem inbound_limited_of_counted_one :
    InLimit 1 (run serveStep (bind 1) [.accept, .spawn, .count 0, .accept, .spawn]) := by
  refine inbound_limited_of_counted ?_ (List.prefix_refl _)
  simp only [Along, ReadsCounted]
  decide

/-- With a limit of ten, eleven connections come before the tasks of the first ones run. -/
theorem burst_exceeds_limit :
    ¬ InLimit 10 (run serveStep (bind 10)
      ((List.replicate 11 [ServeInput.accept, ServeInput.spawn]).flatten)) := by
  rintro ⟨-, hle⟩
  exact absurd hle (by decide)

end BitCord
