import Lich.Cleanup

/-! One session for one name.

`create_session` probes, removes and binds in three steps. What they are to
achieve together is that of all servers it reported one is alive at most, and
that the session path leads to it.
-/

set_option autoImplicit false

namespace Lich

open Foundation

/-! ## The property -/

def Stage.alive : Stage → Bool
  | .unborn | .gone => false
  | _ => true

def Stage.shuttingDown : Stage → Bool
  | .stopping | .closing => true
  | _ => false

/-- A server that is alive and whose `create_session` returned Ok. -/
def Creation.session (creation : Creation) : Bool :=
  creation.parent = .created && creation.stage.alive

structure World.OneSession (world : World) : Prop where
  only : ∀ (id other : Nat) (first second : Creation), world.sockets[id]? = some first →
    world.sockets[other]? = some second → first.session = true → second.session = true →
    id = other
  attachable : ∀ id creation, world.sockets[id]? = some creation → creation.session = true →
    creation.stage.shuttingDown = false → world.path = some id

/-! ## The condition -/

/-- No server of this socket runs, and none will. -/
def Creation.ended (creation : Creation) : Bool :=
  creation.stage = .gone ||
    creation.stage = .unborn && creation.parent ≠ .bound && creation.parent ≠ .holding

def World.takes (world : World) : Event → Bool
  | .caller number (.clear _) => world.callers number = .clearing
  | .caller number .bind => world.callers number = .binding
  | _ => false

/-- A creation gets past its probe only when the one before has ended, and a
clean-up removes nothing on which another process has come to listen, or is about to,
since it was decided. -/
structure World.Orderly (world : World) (event : Event) : Prop where
  vacant : world.takes event = true → ∀ creation ∈ world.sockets.getLast?, creation.ended = true
  inTime : ∀ removal ∈ world.cleanup event,
    removal.seen = world.sockets.length ∧ removal.early = false ∨
      world.path.filter world.attended = none

instance (world : World) (event : Event) : Decidable (world.Orderly event) :=
  decidable_of_iff
    ((world.takes event = true → ∀ creation ∈ world.sockets.getLast?, creation.ended = true) ∧
      ∀ removal ∈ world.cleanup event,
        removal.seen = world.sockets.length ∧ removal.early = false ∨
          world.path.filter world.attended = none)
    ⟨fun both => ⟨both.1, both.2⟩, fun orderly => ⟨orderly.vacant, orderly.inTime⟩⟩

/-! ## The invariant -/

/-- The path belongs to this socket: a server listens on it or is about to, and
the creation did not fail. -/
def Creation.owed (creation : Creation) : Bool :=
  creation.parent ≠ .failed &&
    ((creation.parent = .bound || creation.parent = .holding) && creation.stage = .unborn ||
      creation.stage = .starting || creation.stage = .serving)

structure World.Single (world : World) : Prop where
  sound : world.Sound
  past : ∀ id creation, world.sockets[id]? = some creation → id + 1 < world.sockets.length →
    creation.ended = true
  owed : ∀ id creation, world.sockets[id]? = some creation → creation.owed = true →
    world.path = some id

theorem Creation.ended_iff {creation : Creation} : creation.ended = true ↔
    creation.stage = .gone ∨
      creation.stage = .unborn ∧ creation.parent ≠ .bound ∧ creation.parent ≠ .holding := by
  simp [ended, and_assoc]

theorem Creation.owed_iff {creation : Creation} : creation.owed = true ↔
    creation.parent ≠ .failed ∧
      ((creation.parent = .bound ∨ creation.parent = .holding) ∧ creation.stage = .unborn ∨
        creation.stage = .starting ∨ creation.stage = .serving) := by
  simp [owed, or_assoc]

theorem Creation.step_ended {creation : Creation} (ended : creation.ended = true) (act : CreationStep) :
    (creation.step act).ended = true := by
  rw [ended_iff] at ended ⊢
  cases act <;> grind [Creation.step]

theorem Creation.step_owed {creation : Creation} {act : CreationStep}
    (owed : (creation.step act).owed = true) :
    creation.owed = true ∧ creation.removes act = false := by
  rw [owed_iff] at owed ⊢
  cases act <;> grind [Creation.step, Creation.removes]

theorem Creation.owed_of_ended {creation : Creation} (ended : creation.ended = true) :
    creation.owed = false := by
  rw [ended_iff] at ended
  apply Bool.eq_false_iff.mpr
  rw [Ne, owed_iff]
  grind

theorem Creation.attended_of_owed {creation : Creation} (owed : creation.owed = true) :
    creation.attended = true := by
  rw [owed_iff] at owed
  rw [attended_iff, Stage.listens_iff]
  grind

/-! ## One step, and every run -/

theorem World.Single.start : World.start.Single where
  sound := World.Sound.start
  past := by
    intro id creation found
    cases found
  owed := by
    intro id creation found
    cases found

theorem World.Single.ended_of_vacant {world : World} (single : world.Single)
    (vacant : ∀ creation ∈ world.sockets.getLast?, creation.ended = true) {id : Nat}
    {creation : Creation} (found : world.sockets[id]? = some creation) : creation.ended = true := by
  by_cases before : id + 1 < world.sockets.length
  · exact single.past id creation found before
  · have inside := (List.getElem?_eq_some_iff.mp found).1
    apply vacant
    have last : id = world.sockets.length - 1 := by omega
    rw [List.getLast?_eq_getElem?, ← last, found]
    rfl

theorem World.Single.caller {world : World} (single : world.Single) {number : Nat}
    {act : CallerStep} (orderly : world.Orderly (.caller number act)) :
    (world.step (.caller number act)).Single := by
  obtain ⟨_, effect⟩ := world.step_caller number act
  rcases effect with ⟨removes, path, sockets⟩ | ⟨caller, acts, _, path, sockets⟩ | ⟨_, path, sockets⟩
  · refine ⟨single.sound.step _, ?_, ?_⟩
    · rw [sockets]
      exact single.past
    · -- what is removed is owed to nobody
      rw [sockets]
      intro id creation found owed
      have named := single.owed id creation found owed
      have opened : world.attended id = true :=
        World.attended_iff.mpr ⟨creation, found, Creation.attended_of_owed owed⟩
      rcases Caller.removes_iff.mp removes with ⟨rfl, creates, seen, early, caller⟩ | ⟨rfl, caller⟩
      · have removal : ⟨seen, early, none⟩ ∈ world.cleanup (.caller number (.removeRefused true)) := by
          simp [World.cleanup, caller]
        rcases orderly.inTime _ removal with ⟨now, late⟩ | nobody
        · have silent := (single.sound.refused number creates seen early caller).2 late now id named
          rw [opened] at silent
          cases silent
        · simp [named, opened] at nobody
      · have ended := single.ended_of_vacant (orderly.vacant (by simp [World.takes, caller])) found
        rw [Creation.owed_of_ended ended] at owed
        cases owed
  · subst acts
    have ended {id : Nat} {creation : Creation} (found : world.sockets[id]? = some creation) :
        creation.ended = true :=
      single.ended_of_vacant (orderly.vacant (by simp [World.takes, caller])) found
    refine ⟨single.sound.step _, ?_, ?_⟩
    · rw [sockets]
      intro id creation found inside
      rw [List.length_append, List.length_singleton] at inside
      rw [List.getElem?_append_left (by omega)] at found
      exact ended found
    · rw [sockets, path]
      intro id creation found owed
      rcases Nat.lt_trichotomy id world.sockets.length with before | same | after
      · rw [List.getElem?_append_left before] at found
        rw [Creation.owed_of_ended (ended found)] at owed
        cases owed
      · rw [same]
      · rw [List.getElem?_append_right (by omega)] at found
        rw [List.getElem?_eq_none (by simp; omega)] at found
        cases found
  · refine ⟨single.sound.step _, ?_, ?_⟩
    · rw [sockets]
      exact single.past
    · rw [sockets, path]
      exact single.owed

theorem World.Single.socket {world : World} (single : world.Single) {id : Nat}
    {act : CreationStep} (orderly : world.Orderly (.socket id act)) :
    (world.step (.socket id act)).Single := by
  have sound := single.sound.step (.socket id act)
  cases found : world.sockets[id]? with
  | none =>
    rw [World.step_socket_none act found]
    exact single
  | some creation =>
    rw [World.step_socket act found] at sound ⊢
    refine ⟨sound, ?_, ?_⟩
    · intro other after later inside
      rw [List.length_set] at inside
      rcases Creation.of_set found later with ⟨rfl, rfl⟩ | ⟨_, before⟩
      · exact Creation.step_ended (single.past other creation found inside) act
      · exact single.past other after before inside
    · intro other after later owed
      rcases Creation.of_set found later with ⟨rfl, rfl⟩ | ⟨distinct, before⟩
      · obtain ⟨owedBefore, keeps⟩ := Creation.step_owed owed
        simp only [keeps, Bool.false_eq_true, if_false]
        exact single.owed other creation found owedBefore
      · have named := single.owed other after before owed
        cases removes : creation.removes act with
        | false =>
          simp only [Bool.false_eq_true, if_false]
          exact named
        | true =>
          -- the remover's own socket is not the last one
          have removal : (⟨id + 1, false, some id⟩ : Removal) ∈ world.cleanup (.socket id act) := by
            simp [World.cleanup, found, removes]
          have last := single.sound.last other named
          rcases orderly.inTime _ removal with ⟨now, _⟩ | nobody
          · have same : id + 1 = world.sockets.length := now
            exact absurd (by omega) distinct
          · have opened : world.attended other = true :=
              World.attended_iff.mpr ⟨after, before, Creation.attended_of_owed owed⟩
            simp [named, opened] at nobody

theorem World.Single.stray {world : World} (single : world.Single)
    (orderly : world.Orderly .stray) : (world.step .stray).Single where
  sound := single.sound.stray
  past := single.past
  owed := by
    intro id creation found owed
    have named := single.owed id creation found owed
    have last := single.sound.last id named
    rcases orderly.inTime ⟨0, false, none⟩ rfl with ⟨unbound, _⟩ | nobody
    · have unbound : 0 = world.sockets.length := unbound
      omega
    · have opened : world.attended id = true :=
        World.attended_iff.mpr ⟨creation, found, Creation.attended_of_owed owed⟩
      simp [named, opened] at nobody

theorem World.Single.step {world : World} {event : Event} (orderly : world.Orderly event)
    (single : world.Single) : (world.step event).Single := by
  cases event with
  | caller number act => exact single.caller orderly
  | socket id act => exact single.socket orderly
  | stray => exact single.stray orderly

theorem Creation.session_iff {creation : Creation} : creation.session = true ↔
    creation.parent = .created ∧ creation.stage ≠ .unborn ∧ creation.stage ≠ .gone := by
  cases stage : creation.stage <;> simp [session, Stage.alive, stage]

theorem World.Single.oneSession {world : World} (single : world.Single) : world.OneSession := by
  -- a server that is alive belongs to the socket bound last
  have last {id : Nat} {creation : Creation} (found : world.sockets[id]? = some creation)
      (session : creation.session = true) : id + 1 = world.sockets.length := by
    have inside := (List.getElem?_eq_some_iff.mp found).1
    obtain ⟨_, born, stays⟩ := Creation.session_iff.mp session
    by_contra other
    have ended := Creation.ended_iff.mp (single.past id creation found (by omega))
    rcases ended with gone | ⟨unborn, _⟩
    · exact stays gone
    · exact born unborn
  constructor
  · intro id other first second found found' session session'
    have same := last found session
    have same' := last found' session'
    omega
  · intro id creation found session running
    obtain ⟨created, born, stays⟩ := Creation.session_iff.mp session
    apply single.owed id creation found
    apply Creation.owed_iff.mpr
    refine ⟨by simp [created], .inr ?_⟩
    cases stage : creation.stage with
    | starting => exact .inl rfl
    | serving => exact .inr rfl
    | unborn => exact absurd stage born
    | gone => exact absurd stage stays
    | stopping => simp [stage, Stage.shuttingDown] at running
    | closing => simp [stage, Stage.shuttingDown] at running

theorem World.clear_cuts_off {world : World} {number id : Nat} {creation : Creation}
    (clears : world.callers number = .clearing) (found : world.sockets[id]? = some creation)
    (session : creation.session = true) (running : creation.stage.shuttingDown = false) :
    ¬ (world.step (.caller number (.clear true))).OneSession := by
  intro one
  have removes : (world.callers number).removes (.clear true) = true := by rw [clears]; rfl
  have next : world.step (.caller number (.clear true)) =
      { world with
        callers := Function.update world.callers number
          ((world.callers number).step world (.clear true))
        path := none } := by
    rw [World.step, if_pos removes]
  rw [next] at one
  cases one.attachable id creation found session running

/-- In every run in which no creation gets past its probe while an earlier one
lasts, and no clean-up comes too late, there is one session at any moment, and
the path leads to it. -/
theorem one_session {events : List Event} (orderly : Along World.step World.Orderly events World.start) :
    (runSteps World.step events World.start).OneSession :=
  (orderly.invariant (fun _ _ step single => single.step step) World.Single.start).oneSession

def recreated : List Event :=
  [.caller 0 (.call true), .caller 0 .connect] ++ creates 0 0 ++
  [.socket 0 .stop, .socket 0 .leave, .socket 0 (.dropGuard true),
    .caller 1 (.call true), .caller 1 .connect] ++ creates 1 1

theorem one_session_recreated : (runSteps World.step recreated World.start).OneSession :=
  one_session (by decide)

def twoCreators : List Event :=
  [.caller 0 (.call true), .caller 1 (.call true), .caller 0 .connect, .caller 1 .connect] ++
  creates 0 0 ++ creates 1 1

theorem two_sessions : ¬ ∀ events, (runSteps World.step events World.start).OneSession := by
  intro all
  have only := (all twoCreators).only 0 1 ⟨.created, .serving, .empty⟩ ⟨.created, .serving, .empty⟩
    (by decide) (by decide) rfl rfl
  cases only

end Lich
