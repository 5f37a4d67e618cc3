import Lich.Startup

/-! The start of a session as the processes around its socket see it.

`Creation` has one step where the processes of a start take many: the pipe is held,
and then it is empty or has a message. Every order of the many is one of the few.
-/

set_option autoImplicit false

namespace Lich

open Foundation

def CreationStep.Starts : CreationStep → Prop
  | .started | .forkptyFails | .pipeCloses _ | .readStatus | .statusFails | .killParent
  | .killServer => True
  | _ => False

def CreatorPoint.parent : CreatorPoint → Parent
  | .reading _ => .waiting
  | .returned .ok => .created
  | .returned _ => .undoing
  | .killed => .failed

/-- With its error not reported, the server has its listener open. -/
def ServerPoint.stage : ServerPoint → Stage
  | .forkpty | .report _ | .close true => .starting
  | .close false | .closed false => .serving
  | .closed true => .closing
  | .killed => .gone

def Startup.sync (s : Startup) : SyncPipe :=
  if s.held then .held else if s.reported = [] then .empty else .message

/-- Once the creator is gone, nobody looks at the pipe. -/
structure Startup.Shows (s : Startup) (creation : Creation) : Prop where
  parent : creation.parent = s.creator.parent
  stage : creation.stage = s.server.stage
  pipe : s.creator.gone = false → creation.pipe = s.sync

section
variable {cmd : List UInt8} {s after : Startup} {creation : Creation}

theorem ServerPoint.stage_of_free {server : ServerPoint} (free : server.holds = false) :
    server.stage ≠ .unborn ∧ server.stage ≠ .starting := by
  cases server with
  | closed failed => cases failed <;> exact ⟨by decide, by decide⟩
  | killed => exact ⟨by decide, by decide⟩
  | forkpty => cases free
  | report left => cases free
  | close failed => cases free

theorem Startup.sync_of_free (free : s.held = false) :
    s.sync = if s.reported = [] then .empty else .message := by
  rw [sync, free]
  rfl

/-- The steps of the socket's that an event comes to. -/
def Startup.Follows (after : Startup) (creation : Creation) : Prop :=
  ∃ acts : List CreationStep, (∀ act ∈ acts, act.Starts) ∧
    after.Shows (runSteps Creation.step acts creation)

theorem Startup.Follows.still (picture : after.Shows creation) : after.Follows creation :=
  ⟨[], fun _ inside => (List.not_mem_nil inside).elim, picture⟩

theorem Startup.Follows.step (act : CreationStep) (starts : act.Starts)
    (follows : after.Follows (creation.step act)) : after.Follows creation := by
  obtain ⟨acts, each, picture⟩ := follows
  exact ⟨act :: acts, List.forall_mem_cons.mpr ⟨starts, each⟩, picture⟩

theorem Startup.Follows.of_held (parent : creation.parent = after.creator.parent)
    (stage : creation.stage = after.server.stage)
    (pipe : after.creator.gone = false → creation.pipe = .held) : after.Follows creation := by
  cases still : after.held with
  | true =>
    refine .still ⟨parent, stage, fun early => ?_⟩
    rw [pipe early, sync, if_pos still]
  | false =>
    have born := ServerPoint.stage_of_free (Bool.or_eq_false_iff.mp still).1
    refine .step (.pipeCloses (decide (after.reported ≠ []))) trivial (.still ?_)
    by_cases here : creation.pipe = .held
    · rw [Creation.step, if_pos ⟨here, by rw [stage]; exact born.1, by rw [stage]; exact born.2⟩]
      refine ⟨parent, stage, fun _ => ?_⟩
      simp only [sync, still]
      by_cases quiet : after.reported = [] <;> simp [quiet]
    · rw [Creation.step, if_neg fun all => here all.1]
      exact ⟨parent, stage, fun early => absurd (pipe early) here⟩

theorem Startup.Shows.moves (picture : s.Shows creation) (held : s.held = true)
    (creator : after.creator = s.creator) (stage : after.server.stage = s.server.stage) :
    after.Follows creation :=
  .of_held (creator ▸ picture.parent) (picture.stage.trans stage.symm) fun early => by
    rw [picture.pipe (creator ▸ early), sync, if_pos held]

theorem Startup.Shows.happens (sound : s.Sound cmd) (picture : s.Shows creation)
    (happens : Happens cmd s after) : after.Follows creation := by
  have parent := picture.parent
  have stage := picture.stage
  cases happens with
  | nothing => exact .still picture
  | forkFails error here =>
    exact picture.moves (by simp [held, here, ServerPoint.holds]) rfl (by simp [here, ServerPoint.stage])
  | forks here =>
    have starting : creation.stage = .starting := by rw [stage, here]; rfl
    refine .step .started trivial (.still ?_)
    rw [Creation.step, if_pos starting]
    refine ⟨parent, rfl, fun early => ?_⟩
    rw [picture.pipe early]
    simp [sync, held, here, ServerPoint.holds]
  | serverReports bytes left here nonempty listening =>
    exact picture.moves (by simp [held, here, ServerPoint.holds]) rfl (by simp [here, ServerPoint.stage])
  | serverReported left here ended =>
    exact picture.moves (by simp [held, here, ServerPoint.holds]) rfl (by simp [here, ServerPoint.stage])
  | serverCloses failed here =>
    cases failed with
    | false =>
      exact picture.moves (by simp [held, here, ServerPoint.holds]) rfl
        (by simp [here, ServerPoint.stage])
    | true =>
      have phase := sound.phase
      have starting : creation.stage = .starting := by rw [stage, here]; rfl
      rw [here] at phase
      refine .step .forkptyFails trivial (.still ?_)
      rw [Creation.step, if_pos starting]
      refine ⟨parent, rfl, fun early => ?_⟩
      obtain ⟨error, kind, told, unborn⟩ := phase.serverReported
      have nonempty : s.reported ≠ [] := by
        rw [told early, kind]
        exact forkptyMessage_ne error
      simp [sync, held, unborn, nonempty, ServerPoint.holds, CommandPoint.holds]
  | fcntl here => exact picture.moves (by simp [held, here, CommandPoint.holds]) rfl rfl
  | executes here => exact picture.moves (by simp [held, here, CommandPoint.holds]) rfl rfl
  | execFails error here => exact picture.moves (by simp [held, here, CommandPoint.holds]) rfl rfl
  | commandReports bytes left here nonempty listening =>
    exact picture.moves (by simp [held, here, CommandPoint.holds]) rfl rfl
  | commandReported left here ended =>
    exact picture.moves (by simp [held, here, CommandPoint.holds]) rfl rfl
  | exits here => exact picture.moves (by simp [held, here, CommandPoint.holds]) rfl rfl
  | reads buf bytes later here split nonempty =>
    rw [here] at parent
    exact .still ⟨parent, stage, fun _ => picture.pipe (by rw [here]; rfl)⟩
  | ends buf here empty free =>
    have pipe := picture.pipe (by rw [here]; rfl)
    have flow := sound.flow buf here
    have waiting : creation.parent = .waiting := by rw [parent, here]; rfl
    rw [empty, List.append_nil] at flow
    refine .step .readStatus trivial (.still ?_)
    rw [Creation.step, if_pos waiting]
    have sync : s.sync = if buf = [] then .empty else .message := by
      rw [Startup.sync_of_free free, flow]
    by_cases quiet : buf = []
    · have read : creation.pipe = .empty := by rw [pipe, sync, if_pos quiet]
      rw [if_pos quiet, read]
      exact ⟨rfl, stage, fun _ => read.symm.trans pipe⟩
    · have read : creation.pipe = .message := by rw [pipe, sync, if_neg quiet]
      rw [if_neg quiet, read]
      exact ⟨rfl, stage, fun _ => read.symm.trans pipe⟩
  | readFails buf kind here =>
    have waiting : creation.parent = .waiting := by rw [parent, here]; rfl
    refine .step .statusFails trivial (.still ?_)
    rw [Creation.step, if_pos waiting]
    exact ⟨rfl, stage, fun early => Bool.noConfusion early⟩
  | killServer =>
    have born : creation.stage ≠ .unborn := by
      rw [stage]
      cases here : s.server with
      | close failed => cases failed <;> exact Stage.noConfusion
      | closed failed => cases failed <;> exact Stage.noConfusion
      | forkpty => exact Stage.noConfusion
      | report left => exact Stage.noConfusion
      | killed => exact Stage.noConfusion
    refine .step .killServer trivial ?_
    rw [Creation.step, if_neg born]
    cases held : s.held with
    | true =>
      exact .of_held parent rfl fun early => by
        rw [picture.pipe early, sync, if_pos held]
    | false =>
      refine .still ⟨parent, rfl, fun early => ?_⟩
      have free : Startup.held { s with server := .killed } = false :=
        (Bool.or_eq_false_iff.mp held).2
      rw [picture.pipe early, Startup.sync_of_free held, Startup.sync_of_free free]
  | killCommand born => exact picture.moves (by simp [held, born]) rfl rfl
  | killCreator listening =>
    refine .step .killParent trivial (.still ?_)
    have waiting : creation.parent ≠ .created := by
      rw [parent]
      cases here : s.creator with
      | reading buf => exact Parent.noConfusion
      | returned status => rw [here] at listening; cases listening
      | killed => rw [here] at listening; cases listening
    rw [Creation.step, if_neg waiting]
    exact ⟨rfl, stage, fun early => Bool.noConfusion early⟩

theorem Startup.follows_run (events : List StartupEvent) (sound : s.Sound cmd)
    (picture : s.Shows creation) : (runSteps (Startup.step cmd) events s).Follows creation := by
  induction events generalizing s creation with
  | nil => exact .still picture
  | cons event events ih =>
    have happens := step_happens cmd event s
    obtain ⟨first, each, shown⟩ := picture.happens sound happens
    obtain ⟨rest, every, ended⟩ := ih (sound.happens happens) shown
    refine ⟨first ++ rest, List.forall_mem_append.mpr ⟨each, every⟩, ?_⟩
    rw [runSteps_append]
    exact ended

end

/-- From the fork on, the server, the command and the creator do together what the
socket's few steps do: the creator stands where its parent does, the server where its
stage is, and as long as the creator is there the pipe is as the socket has it. -/
theorem startup_refines (cmd : List UInt8) (events : List StartupEvent) :
    ∃ acts : List CreationStep, (∀ act ∈ acts, act.Starts) ∧
      (runSteps (Startup.step cmd) events Startup.start).Shows
        (runSteps Creation.step ([.listen, .fork, .release] ++ acts) Creation.bound) := by
  have start : Startup.start.Shows
      (runSteps Creation.step [.listen, .fork, .release] Creation.bound) :=
    ⟨rfl, rfl, fun _ => rfl⟩
  obtain ⟨acts, each, shown⟩ := Startup.follows_run events (Startup.sound_start cmd) start
  refine ⟨acts, each, ?_⟩
  rw [runSteps_append]
  exact shown

end Lich
