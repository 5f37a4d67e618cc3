import Lich.Sockets

/-! What the clean-up of the socket file removes.

Three places remove the file because a session is over: `connect_session` when
it was refused, the guard of a server, and the parent whose start-up failed.
Each of them decides and removes in two steps. A guard with a relative path can
come to a file that its server never looked at.
-/

set_option autoImplicit false

namespace Lich

open Foundation

structure Removal where
  /-- How many sockets had been bound when it was decided. The guard and the
  start-up-error branch decide with their own bind; the guard of another session's
  server has seen none. -/
  seen : Nat
  /-- the refusal on which it was decided came between the bind(2) and the listen(2)
  of the socket -/
  early : Bool
  /-- the socket of the process itself -/
  own : Option Nat
  deriving DecidableEq

def World.cleanup (world : World) : Event → Option Removal
  | .caller number (.removeRefused true) =>
    match world.callers number with
    | .refused _ seen early => some ⟨seen, early, none⟩
    | _ => none
  | .socket id act =>
    if (world.sockets[id]?).any (Creation.removes act) then some ⟨id + 1, false, some id⟩ else none
  | .stray => some ⟨0, false, none⟩
  | _ => none

/-- The socket that the path names, if a server has its listener open. -/
def World.live (world : World) : Option Nat :=
  world.path.filter fun id => (world.sockets[id]?).any fun creation => creation.stage.listens

/-- The step does not clean up the socket of another server that runs. -/
def World.SparesLive (world : World) (event : Event) : Prop :=
  ∀ removal ∈ world.cleanup event, ∀ id ∈ world.live, removal.own = some id

/-- The clean-up was not decided before the socket that is there could be connected
to, or no server runs on that. -/
def World.InTime (world : World) (event : Event) : Prop :=
  ∀ removal ∈ world.cleanup event,
    removal.seen = world.sockets.length ∧ removal.early = false ∨ world.live = none

instance (world : World) (event : Event) : Decidable (world.SparesLive event) :=
  inferInstanceAs (Decidable (∀ removal ∈ world.cleanup event, ∀ id ∈ world.live, removal.own = some id))

instance (world : World) (event : Event) : Decidable (world.InTime event) :=
  inferInstanceAs (Decidable (∀ removal ∈ world.cleanup event, _ ∨ _))

theorem World.cleanup_caller {world : World} {number : Nat} {act : CallerStep} {removal : Removal}
    (removes : removal ∈ world.cleanup (.caller number act)) :
    act = .removeRefused true ∧
      ∃ creates, world.callers number = .refused creates removal.seen removal.early ∧
        removal.own = none := by
  cases act with
  | removeRefused removed =>
    cases removed with
    | false => cases removes
    | true =>
      rw [cleanup] at removes
      cases caller : world.callers number with
      | refused creates seen early =>
        rw [caller] at removes
        cases removes
        exact ⟨rfl, creates, rfl, rfl⟩
      | _ =>
        rw [caller] at removes
        cases removes
  | _ => cases removes

theorem World.cleanup_socket {world : World} {id : Nat} {act : CreationStep} {removal : Removal}
    (removes : removal ∈ world.cleanup (.socket id act)) :
    removal = ⟨id + 1, false, some id⟩ ∧ (world.sockets[id]?).any (Creation.removes act) = true := by
  rw [cleanup] at removes
  split at removes
  · next found => exact ⟨(Option.some.inj removes).symm, found⟩
  · cases removes

theorem World.live_path {world : World} {id : Nat} (live : id ∈ world.live) :
    world.path = some id ∧ ∃ creation, world.sockets[id]? = some creation ∧
      creation.stage.listens = true := by
  obtain ⟨named, serves⟩ := Option.mem_filter_iff.mp live
  exact ⟨named, (Option.any_eq_true _ _).mp serves⟩

theorem World.Sound.spares_iff {world : World} (sound : world.Sound) (event : Event) :
    world.SparesLive event ↔ world.InTime event := by
  -- the socket at the path is the last one, so it is the remover's own if that was bound last
  have own {removal : Removal} {id : Nat} (live : id ∈ world.live) :
      id + 1 = world.sockets.length := sound.last id (World.live_path live).1
  constructor
  · intro spares removal removes
    cases live : world.live with
    | none => exact .inr rfl
    | some id =>
      have mine := spares removal removes id live
      refine .inl ?_
      cases event with
      | caller number act =>
        obtain ⟨_, _, _, nobody⟩ := World.cleanup_caller removes
        rw [nobody] at mine
        cases mine
      | socket other act =>
        obtain ⟨rfl, _⟩ := World.cleanup_socket removes
        rw [← Option.some.inj mine] at live
        exact ⟨sound.last other (World.live_path live).1, rfl⟩
      | stray =>
        rw [← Option.some.inj removes] at mine
        cases mine
  · intro inTime removal removes id live
    have decided : removal.seen = world.sockets.length ∧ removal.early = false := by
      rcases inTime removal removes with decided | nobody
      · exact decided
      · rw [nobody] at live
        cases live
    obtain ⟨seen, late⟩ := decided
    obtain ⟨named, creation, found, serves⟩ := World.live_path live
    have last := sound.last id named
    cases event with
    | caller number act =>
      -- nobody listens where a connect was refused
      obtain ⟨_, creates, refused, _⟩ := World.cleanup_caller removes
      have silent := (sound.refused number creates removal.seen removal.early refused).2
        late seen id named
      have opened : world.attended id = true := by
        apply World.attended_iff.mpr
        exact ⟨creation, found, Creation.attended_iff.mpr (.inr (.inr serves))⟩
      rw [silent] at opened
      cases opened
    | socket other act =>
      obtain ⟨rfl, _⟩ := World.cleanup_socket removes
      have same : other = id := by
        have bound : other + 1 = world.sockets.length := seen
        omega
      rw [same]
    | stray =>
      rw [← Option.some.inj removes] at seen
      have unbound : 0 = world.sockets.length := seen
      omega

/-- In every run, the clean-up spares the sockets of the other running servers
if and only if each removal was decided on a socket that had come to listen, and is
made before the path is bound again. -/
theorem cleanup_spares_live (events : List Event) :
    Along World.step World.SparesLive events World.start ↔
      Along World.step World.InTime events World.start := by
  have sound (before : List Event) : (runSteps World.step before World.start).Sound :=
    sound_runSteps before World.Sound.start
  rw [along_iff, along_iff]
  constructor
  · intro spares before event after split
    exact ((sound before).spares_iff event).mp (spares before event after split)
  · intro inTime before event after split
    exact ((sound before).spares_iff event).mpr (inTime before event after split)

/-- A creation up to where `create_session` returns Ok, by a caller whose probe
was answered. -/
def creates (number id : Nat) : List Event :=
  [.caller number (.clear true), .caller number .bind, .socket id .listen, .socket id .fork,
    .socket id .release, .socket id .started, .socket id (.pipeCloses false), .socket id .readStatus]

/-- The server of the first socket is killed. A client is refused by what is left,
and while it is about to remove that, the session is created again. -/
def lateRemoval : List Event :=
  [.caller 0 (.call true), .caller 0 .connect] ++ creates 0 0 ++
  [.socket 0 .killServer, .caller 1 (.call false), .caller 1 .connect,
    .caller 2 (.call true), .caller 2 .connect, .caller 2 (.removeRefused true)] ++ creates 2 1 ++
  [.caller 1 (.removeRefused true)]

theorem live_socket_removed :
    ¬ ∀ events, Along World.step World.SparesLive events World.start := by
  intro spares
  have spared := spares lateRemoval
  revert spared
  decide

def earlyRefusal : List Event :=
  [.caller 0 (.call true), .caller 0 .connect, .caller 0 (.clear true), .caller 0 .bind,
    .caller 1 (.call false), .caller 1 .connect, .socket 0 .listen, .socket 0 .fork,
    .caller 1 (.removeRefused true)]

example : ¬ Along World.step World.SparesLive earlyRefusal World.start := by decide

example : ¬ Along World.step World.SparesLive
    ([.caller 0 (.call true), .caller 0 .connect] ++ creates 0 0 ++ [.stray]) World.start := by decide

end Lich
