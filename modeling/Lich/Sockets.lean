import Mathlib.Logic.Function.Basic
import Lich.ExitStatus

/-! The socket file of a session and those who share it.

The session path names nothing or one of the sockets that were ever bound
there. Callers of `connect_session` and `create_session` act on it up to the
bind; from there on each socket has the process that bound it, as a parent, and
the server that process forks. `UnixListener::bind` is two calls, bind(2) and
listen(2), and in between a connect is refused. All of them take one system call a step, in any
order, and can be killed between two. Permission bits, log lines and what goes
over a connection after the answer to the probe are left out.
-/

set_option autoImplicit false

namespace Lich

open Foundation

/-! ## One socket, from its bind on -/

/-- How far the process that called `create_session` is after its bind. -/
inductive Parent where
  /-- listen(2) is still to come -/
  | bound
  /-- it has the listener open, up to the fork and until it drops its copy -/
  | holding
  | waiting
  | undoing
  /-- `create_session` returned Ok -/
  | created
  /-- `create_session` returned an error, or was killed -/
  | failed
  deriving DecidableEq

/-- How far the server is. -/
inductive Stage where
  | unborn
  | starting
  | serving
  | stopping
  /-- the listener is closed, the guard not dropped -/
  | closing
  | gone
  deriving DecidableEq

/-- What `read_startup_status` would find. -/
inductive SyncPipe where
  /-- a process still has the writing end -/
  | held
  | empty
  | message
  deriving DecidableEq

structure Creation where
  parent : Parent
  stage : Stage
  pipe : SyncPipe
  deriving DecidableEq

def Creation.bound : Creation := ⟨.bound, .unborn, .held⟩

inductive CreationStep where
  | listen
  | listenFails
  | fork
  /-- `pipe` or `fork` fails -/
  | forkFails
  /-- the parent drops its copy of the listener -/
  | release
  | readStatus
  | statusFails
  /-- the start-up-error branch -/
  | undo (removed : Bool)
  | killParent
  | forkptyFails
  | started
  /-- the last writing end is closed, by `execvp` or after its error message -/
  | pipeCloses (message : Bool)
  | stop
  /-- `run_server` returns or unwinds -/
  | leave
  /-- `SocketGuard::drop` -/
  | dropGuard (removed : Bool)
  | killServer
  deriving DecidableEq

def Creation.step : CreationStep → Creation → Creation
  | .listen, creation =>
    if creation.parent = .bound then { creation with parent := .holding } else creation
  | .listenFails, creation =>
    if creation.parent = .bound then { creation with parent := .failed } else creation
  | .fork, creation =>
    if creation.parent = .holding ∧ creation.stage = .unborn then
      { creation with stage := .starting }
    else creation
  | .forkFails, creation =>
    if creation.parent = .holding ∧ creation.stage = .unborn then
      { creation with parent := .failed }
    else creation
  | .release, creation =>
    if creation.parent = .holding ∧ creation.stage ≠ .unborn then
      { creation with parent := .waiting }
    else creation
  | .readStatus, creation =>
    if creation.parent = .waiting then
      match creation.pipe with
      | .held => creation
      | .empty => { creation with parent := .created }
      | .message => { creation with parent := .undoing }
    else creation
  | .statusFails, creation =>
    if creation.parent = .waiting then { creation with parent := .undoing } else creation
  | .undo _, creation =>
    if creation.parent = .undoing then { creation with parent := .failed } else creation
  | .killParent, creation =>
    if creation.parent = .created then creation else { creation with parent := .failed }
  | .forkptyFails, creation =>
    if creation.stage = .starting then { creation with stage := .closing, pipe := .message }
    else creation
  | .started, creation =>
    if creation.stage = .starting then { creation with stage := .serving } else creation
  | .pipeCloses message, creation =>
    -- until it has called `forkpty`, the server holds the writing end itself
    if creation.pipe = .held ∧ creation.stage ≠ .unborn ∧ creation.stage ≠ .starting then
      { creation with pipe := if message then .message else .empty }
    else creation
  | .stop, creation =>
    if creation.stage = .serving then { creation with stage := .stopping } else creation
  | .leave, creation =>
    if creation.stage = .serving ∨ creation.stage = .stopping then
      { creation with stage := .closing }
    else creation
  | .dropGuard _, creation =>
    if creation.stage = .closing then { creation with stage := .gone } else creation
  | .killServer, creation =>
    if creation.stage = .unborn then creation else { creation with stage := .gone }

def Creation.removes : CreationStep → Creation → Bool
  | .undo true, creation => creation.parent = .undoing
  | .dropGuard true, creation => creation.stage = .closing
  | _, _ => false

def Stage.listens : Stage → Bool
  | .starting | .serving | .stopping => true
  | .unborn | .closing | .gone => false

/-- Some process has the listener open, so that a connect succeeds. -/
def Creation.listening (creation : Creation) : Bool :=
  creation.parent = .holding || creation.stage.listens

/-- Some process listens on the socket, or is about to. -/
def Creation.attended (creation : Creation) : Bool :=
  creation.parent = .bound || creation.listening

/-! ## Up to the bind -/

/-- How far a call of `connect_session` or of `create_session` is. -/
inductive Caller where
  | idle
  | connecting (creates : Bool)
  /-- the connect was refused when that many sockets had been bound, and when the
  last of them was about to listen -/
  | refused (creates : Bool) (seen : Nat) (early : Bool)
  /-- `session_alive` waits for the packet -/
  | probing (id : Nat)
  | clearing
  | binding
  /-- returned, killed, or the parent of the socket it bound -/
  | left
  deriving DecidableEq

inductive CallerStep where
  | call (creates : Bool)
  | connect
  /-- an error other than that there is no file or nobody listens -/
  | connectFails
  | removeRefused (removed : Bool)
  /-- MSG_PID arrives -/
  | answer
  | hangUp
  /-- `remove_file` before the bind -/
  | clear (removed : Bool)
  /-- the bind(2) of `UnixListener::bind` -/
  | bind
  /-- an error return, or a kill -/
  | quit
  deriving DecidableEq

structure World where
  /-- the number of the socket that the session path names -/
  path : Option Nat
  /-- every socket bound at the path, oldest first -/
  sockets : List Creation
  callers : Nat → Caller

def World.start : World := ⟨none, [], fun _ => .idle⟩

def World.listening (world : World) (id : Nat) : Bool :=
  (world.sockets[id]?).any Creation.listening

def World.attended (world : World) (id : Nat) : Bool :=
  (world.sockets[id]?).any Creation.attended

/-- The accept loop runs, also while the server shuts down. -/
def World.accepting (world : World) (id : Nat) : Bool :=
  (world.sockets[id]?).any fun creation =>
    creation.stage = .serving || creation.stage = .stopping

/-- After a connect that failed: `session_alive` is false, a client gives up. -/
def Caller.unanswered : Bool → Caller
  | true => .clearing
  | false => .left

def Caller.step (world : World) : CallerStep → Caller → Caller
  | .call creates, .idle => .connecting creates
  | .connect, .connecting creates =>
    match world.path with
    | none => .unanswered creates
    | some id =>
      if world.listening id then (if creates then .probing id else .left)
      else .refused creates world.sockets.length (world.attended id)
  | .connectFails, .connecting creates => .unanswered creates
  | .removeRefused _, .refused creates _ _ => .unanswered creates
  | .answer, .probing id => if world.accepting id then .left else .probing id
  | .hangUp, .probing id => if world.listening id then .probing id else .clearing
  | .clear _, .clearing => .binding
  | .bind, .binding => .left
  | .quit, _ => .left
  | _, caller => caller

def Caller.removes : CallerStep → Caller → Bool
  | .removeRefused true, .refused _ _ _ => true
  | .clear true, .clearing => true
  | _, _ => false

/-! ## Everyone -/

inductive Event where
  | caller (number : Nat) (step : CallerStep)
  | socket (id : Nat) (step : CreationStep)
  /-- The guard of another session's server removes this file: its path is relative,
  and that server has gone to the root directory. -/
  | stray
  deriving DecidableEq

def World.step : Event → World → World
  | .caller number act, world =>
    let caller := world.callers number
    let next := { world with callers := Function.update world.callers number (caller.step world act) }
    if caller.removes act then { next with path := none }
    -- `bind` fails when the path exists
    else if caller = .binding ∧ act = .bind ∧ world.path = none then
      { next with
        path := some world.sockets.length
        sockets := world.sockets ++ [Creation.bound] }
    else next
  | .socket id act, world =>
    match world.sockets[id]? with
    | none => world
    | some creation =>
      { world with
        path := if creation.removes act then none else world.path
        sockets := world.sockets.set id (creation.step act) }
  | .stray, world => { world with path := none }

/-! ## What a step can do -/

theorem Stage.listens_iff {stage : Stage} :
    stage.listens = true ↔ stage = .starting ∨ stage = .serving ∨ stage = .stopping := by
  cases stage <;> simp [listens]

theorem Creation.attended_iff {creation : Creation} : creation.attended = true ↔
    creation.parent = .bound ∨ creation.parent = .holding ∨ creation.stage.listens = true := by
  simp [attended, listening]

theorem Creation.step_attended {act : CreationStep} {creation : Creation}
    (opened : (creation.step act).attended = true) : creation.attended = true := by
  rw [attended_iff, Stage.listens_iff] at opened ⊢
  cases act <;> grind [Creation.step]

theorem Caller.removes_iff {act : CallerStep} {caller : Caller} : caller.removes act = true ↔
    act = .removeRefused true ∧ (∃ creates seen early, caller = .refused creates seen early) ∨
      act = .clear true ∧ caller = .clearing := by
  cases act with
  | removeRefused removed => cases removed <;> cases caller <;> simp [removes]
  | clear removed => cases removed <;> cases caller <;> simp [removes]
  | _ => simp [removes]

/-- A step of a caller leaves the other callers where they are, and it unlinks
the path, or binds it, or does nothing to it. -/
theorem World.step_caller (world : World) (number : Nat) (act : CallerStep) :
    (world.step (.caller number act)).callers =
        Function.update world.callers number ((world.callers number).step world act) ∧
      ((world.callers number).removes act = true ∧
          (world.step (.caller number act)).path = none ∧
          (world.step (.caller number act)).sockets = world.sockets ∨
        world.callers number = .binding ∧ act = .bind ∧ world.path = none ∧
          (world.step (.caller number act)).path = some world.sockets.length ∧
          (world.step (.caller number act)).sockets = world.sockets ++ [Creation.bound] ∨
        (world.callers number).removes act = false ∧
          (world.step (.caller number act)).path = world.path ∧
          (world.step (.caller number act)).sockets = world.sockets) := by
  rw [step]
  by_cases removes : (world.callers number).removes act = true
  · rw [if_pos removes]
    exact ⟨rfl, .inl ⟨removes, rfl, rfl⟩⟩
  · rw [if_neg removes]
    by_cases binds : world.callers number = .binding ∧ act = .bind ∧ world.path = none
    · rw [if_pos binds]
      exact ⟨rfl, .inr (.inl ⟨binds.1, binds.2.1, binds.2.2, rfl, rfl⟩)⟩
    · rw [if_neg binds]
      exact ⟨rfl, .inr (.inr ⟨by simpa using removes, rfl, rfl⟩)⟩

theorem World.step_socket {world : World} {id : Nat} {creation : Creation} (act : CreationStep)
    (found : world.sockets[id]? = some creation) :
    world.step (.socket id act) =
      { world with
        path := if creation.removes act then none else world.path
        sockets := world.sockets.set id (creation.step act) } := by
  rw [step, found]

theorem World.step_socket_none {world : World} {id : Nat} (act : CreationStep)
    (missing : world.sockets[id]? = none) : world.step (.socket id act) = world := by
  rw [step, missing]

theorem Creation.of_set {sockets : List Creation} {id other : Nat} {creation after : Creation}
    {act : CreationStep} (found : sockets[id]? = some creation)
    (later : (sockets.set id (creation.step act))[other]? = some after) :
    other = id ∧ after = creation.step act ∨ other ≠ id ∧ sockets[other]? = some after := by
  have inside : id < sockets.length := (List.getElem?_eq_some_iff.mp found).1
  by_cases same : other = id
  · subst same
    rw [List.getElem?_set_self inside] at later
    exact .inl ⟨rfl, (Option.some.inj later).symm⟩
  · rw [List.getElem?_set_ne (Ne.symm same)] at later
    exact .inr ⟨same, later⟩

theorem World.attended_iff {world : World} {id : Nat} :
    world.attended id = true ↔
      ∃ creation, world.sockets[id]? = some creation ∧ creation.attended = true := by
  rw [attended, Option.any_eq_true]

theorem World.step_socket_attended {world : World} {id other : Nat} {act : CreationStep}
    (opened : (world.step (.socket id act)).attended other = true) :
    world.attended other = true := by
  cases found : world.sockets[id]? with
  | none =>
    rw [World.step_socket_none act found] at opened
    exact opened
  | some creation =>
    rw [World.step_socket act found, attended_iff] at opened
    obtain ⟨after, later, attended⟩ := opened
    apply attended_iff.mpr
    rcases Creation.of_set found later with ⟨rfl, rfl⟩ | ⟨_, before⟩
    · exact ⟨creation, found, Creation.step_attended attended⟩
    · exact ⟨after, before, attended⟩

/-! ## What holds in every reachable world -/

structure World.Sound (world : World) : Prop where
  /-- The path names the socket that was bound last. -/
  last : ∀ id, world.path = some id → id + 1 = world.sockets.length
  /-- Unless the path was bound again, or the refusal came too early, nobody listens
  there any more. -/
  refused : ∀ number creates seen early, world.callers number = .refused creates seen early →
    seen ≤ world.sockets.length ∧ (early = false → seen = world.sockets.length →
      ∀ id, world.path = some id → world.attended id = false)

theorem World.Sound.start : World.start.Sound where
  last := by
    intro id named
    cases named
  refused := by
    intro number creates seen early waits
    cases waits

theorem Caller.step_refused {world : World} {act : CallerStep} {caller : Caller} {creates : Bool}
    {seen : Nat} {early : Bool} (refused : caller.step world act = .refused creates seen early) :
    caller = .refused creates seen early ∨ seen = world.sockets.length ∧
      (early = false → ∀ id, world.path = some id → world.attended id = false) := by
  have other (wants : Bool) : Caller.unanswered wants ≠ .refused creates seen early := by
    cases wants <;> simp [Caller.unanswered]
  cases caller with
  | connecting wants =>
    cases act with
    | connect =>
      simp only [Caller.step] at refused
      cases named : world.path with
      | none =>
        rw [named] at refused
        exact absurd refused (other wants)
      | some id =>
        rw [named] at refused
        cases opened : world.listening id with
        | true =>
          simp only [opened, if_true] at refused
          cases wants <;> simp at refused
        | false =>
          simp only [opened, Bool.false_eq_true, if_false, Caller.refused.injEq] at refused
          obtain ⟨_, length, attended⟩ := refused
          refine .inr ⟨length.symm, fun late another same => ?_⟩
          rw [← Option.some.inj same, attended, late]
    | connectFails => exact absurd refused (other wants)
    | _ => simp [Caller.step] at refused
  | refused wants before soon =>
    cases act with
    | removeRefused removed => exact absurd refused (other wants)
    | quit => simp [Caller.step] at refused
    | _ => exact .inl refused
  | probing id =>
    cases act <;> simp only [Caller.step] at refused <;> try split at refused
    all_goals cases refused
  | _ => cases act <;> simp [Caller.step] at refused

theorem World.Sound.caller {world : World} (sound : world.Sound) (number : Nat) (act : CallerStep) :
    (world.step (.caller number act)).Sound := by
  obtain ⟨callers, effect⟩ := world.step_caller number act
  -- a refusal after the step is an old one, or it comes from the world before the step
  have old {another : Nat} {creates : Bool} {seen : Nat} {early : Bool}
      (waits : (world.step (.caller number act)).callers another = .refused creates seen early) :
      seen ≤ world.sockets.length ∧ (early = false → seen = world.sockets.length →
        ∀ id, world.path = some id → world.attended id = false) := by
    rw [callers] at waits
    by_cases same : another = number
    · subst same
      rw [Function.update_self] at waits
      rcases Caller.step_refused waits with before | ⟨now, silent⟩
      · exact sound.refused another creates seen early before
      · exact ⟨Nat.le_of_eq now, fun late _ => silent late⟩
    · rw [Function.update_of_ne same] at waits
      exact sound.refused another creates seen early waits
  rcases effect with ⟨_, path, sockets⟩ | ⟨_, _, _, path, sockets⟩ | ⟨_, path, sockets⟩
  · constructor
    · intro id named
      rw [path] at named
      cases named
    · intro another creates seen early waits
      rw [sockets]
      refine ⟨(old waits).1, fun _ _ id named => ?_⟩
      rw [path] at named
      cases named
  · constructor
    · intro id named
      rw [path, Option.some.injEq] at named
      rw [sockets, List.length_append, List.length_singleton, named]
    · intro another creates seen early waits
      have bound := (old waits).1
      rw [sockets, List.length_append, List.length_singleton]
      exact ⟨Nat.le_succ_of_le bound, fun _ same => absurd same (by omega)⟩
  · constructor
    · intro id named
      rw [path] at named
      rw [sockets]
      exact sound.last id named
    · intro another creates seen early waits
      simp only [World.attended, sockets, path]
      exact old waits

theorem World.Sound.socket {world : World} (sound : world.Sound) (id : Nat) (act : CreationStep) :
    (world.step (.socket id act)).Sound := by
  cases found : world.sockets[id]? with
  | none =>
    rw [World.step_socket_none act found]
    exact sound
  | some creation =>
    have named {other : Nat} (after : (world.step (.socket id act)).path = some other) :
        world.path = some other := by
      rw [World.step_socket act found] at after
      cases removes : creation.removes act with
      | true => simp [removes] at after
      | false => simpa [removes] using after
    have length : (world.step (.socket id act)).sockets.length = world.sockets.length := by
      rw [World.step_socket act found, List.length_set]
    have callers : (world.step (.socket id act)).callers = world.callers := by
      rw [World.step_socket act found]
    constructor
    · intro other after
      rw [length]
      exact sound.last other (named after)
    · intro another creates seen early waits
      rw [callers] at waits
      obtain ⟨bound, silent⟩ := sound.refused another creates seen early waits
      rw [length]
      refine ⟨bound, fun late same other after => ?_⟩
      apply Bool.eq_false_iff.mpr
      intro opened
      have before := World.step_socket_attended opened
      rw [silent late same other (named after)] at before
      cases before

theorem World.Sound.stray {world : World} (sound : world.Sound) : (world.step .stray).Sound where
  last := by
    intro id named
    cases named
  refused := by
    intro number creates seen early waits
    refine ⟨(sound.refused number creates seen early waits).1, fun _ _ id named => ?_⟩
    cases named

theorem World.Sound.step {world : World} (sound : world.Sound) (event : Event) :
    (world.step event).Sound := by
  cases event with
  | caller number act => exact sound.caller number act
  | socket id act => exact sound.socket id act
  | stray => exact sound.stray

theorem sound_runSteps (events : List Event) {world : World} (sound : world.Sound) :
    (runSteps World.step events world).Sound := by
  induction events generalizing world with
  | nil => exact sound
  | cons event events ih => exact ih (sound.step event)

/-! ## The server loop behind a stage -/

def Server.stage (server : Server) : Stage :=
  if server.childExit.isSome then .stopping else .serving

def Control.stage : Control → Stage
  | .running server => server.stage
  | .returned _ => .closing

def CreationStep.Loops : CreationStep → Prop
  | .stop | .leave => True
  | _ => False

theorem iterate_stage (tick : Tick) (server : Server) {creation : Creation}
    (inside : creation.stage = server.stage) :
    ∃ acts : List CreationStep, (∀ act ∈ acts, act.Loops) ∧
      runSteps Creation.step acts creation =
        { creation with stage := (iterate tick server).stage } := by
  obtain ⟨parent, stage, pipe⟩ := creation
  have later (exited : server.childExit.isSome = true) :
      (iterate tick server).server.childExit.isSome = true := by
    rcases iterate_exit_once tick server with none | same
    · rw [none] at exited
      cases exited
    · rw [same]
      exact exited
  subst inside
  rw [Server.stage]
  cases before : server.childExit.isSome with
  | false =>
    cases loop : iterate tick server with
    | running next =>
      cases after : next.childExit.isSome with
      | false => exact ⟨[], by simp, by simp [Control.stage, Server.stage, after]⟩
      | true =>
        refine ⟨[.stop], by simp [CreationStep.Loops], ?_⟩
        simp [Creation.step, Control.stage, Server.stage, after]
    | returned last =>
      exact ⟨[.stop, .leave], by simp [CreationStep.Loops], by simp [Creation.step, Control.stage]⟩
  | true =>
    have stopped := later before
    cases loop : iterate tick server with
    | running next =>
      rw [loop] at stopped
      refine ⟨[], by simp, ?_⟩
      have same : next.childExit.isSome = true := stopped
      simp [Control.stage, Server.stage, same]
    | returned last =>
      exact ⟨[.leave], by simp [CreationStep.Loops], by simp [Creation.step, Control.stage]⟩

theorem serverLoop_stage (ticks : List Tick) (server : Server) {creation : Creation}
    (inside : creation.stage = server.stage) :
    ∃ acts : List CreationStep, (∀ act ∈ acts, act.Loops) ∧
      runSteps Creation.step acts creation =
        { creation with stage := (serverLoop ticks server).stage } := by
  induction ticks generalizing server creation with
  | nil =>
    refine ⟨[], by simp, ?_⟩
    rw [runSteps_nil, serverLoop, Control.stage, ← inside]
  | cons tick ticks ih =>
    obtain ⟨acts, loops, stage⟩ := iterate_stage tick server inside
    rw [serverLoop]
    cases loop : iterate tick server with
    | running next =>
      rw [loop] at stage
      obtain ⟨more, loops', stage'⟩ := @ih next { creation with stage := next.stage } rfl
      refine ⟨acts ++ more, ?_, ?_⟩
      · intro act member
        exact (List.mem_append.mp member).elim (loops act) (loops' act)
      · rw [runSteps_append, stage]
        exact stage'
    | returned last =>
      rw [loop] at stage
      exact ⟨acts, loops, stage⟩

end Lich
