import Lich.CStartup
import Mathlib.Data.Prod.Lex
import Mathlib.Order.WellFounded

/-! How the start of a session ends, in the C program.

It does end: each step of a process takes it on, or has some of what is in a pipe read.
Where nothing goes wrong that the program has no answer to, all four processes agree
about how.
-/

set_option autoImplicit false

namespace Lich.C

open Foundation

/-! ## How it ends -/

/-- A call that does not fail, of a process that is not killed. -/
def StartupEvent.succeeds : StartupEvent → Bool
  | .creator call | .middle call | .server call | .command call => call.error.isNone
  | .killCreator | .killMiddle | .killServer | .killCommand => false

/-- No process gets on: each has ended, or waits. -/
def Startup.Still (cmd : List UInt8) (s : Startup) : Prop :=
  ∀ event : StartupEvent, event.succeeds = true → s.step cmd event = s

def CreatorPoint.rank : CreatorPoint → Nat
  | .fork => 22
  | .close => 5
  | .waitpid => 4
  | .reading _ => 3
  | .unlink _ => 2
  | .returned _ | .failed _ | .refused | .killed => 0

def MiddlePoint.rank : MiddlePoint → Nat
  | .fork => 16
  | .report _ => 2
  | .exit => 1
  | .unborn | .exited | .killed => 0

def ServerPoint.rank : ServerPoint → Nat
  | .pipe => 14
  | .forkpty => 13
  | .chdir => 6
  | .closeClient => 5
  | .closeServer => 4
  | .report _ | .reading _ => 3
  | .exit => 2
  | .mainloop _ | .refused _ | .exited => 1
  | .unborn | .killed => 0

def CommandPoint.rank : CommandPoint → Nat
  | .fcntlClient => 6
  | .fcntlServer => 5
  | .execvp => 4
  | .reportClient _ => 3
  | .reportServer _ => 2
  | .exit => 1
  | .unborn | .running | .exited | .killed => 0

def Startup.rank (s : Startup) : Nat :=
  s.creator.rank + s.middle.rank + s.server.rank + s.command.rank

/-- The steps that are left, then the bytes to be read. -/
def Startup.measure (s : Startup) : Nat ×ₗ Nat :=
  toLex (s.rank, s.clientPipe.length + s.serverPipe.length)

section Ends

variable {cmd : List UInt8} {s after : Startup} {bad : Bool}

theorem Startup.measure_lt_of_rank (less : after.rank < s.rank) : after.measure < s.measure :=
  Prod.Lex.toLex_lt_toLex.mpr (.inl less)

theorem Startup.measure_lt_of_pipes (same : after.rank = s.rank)
    (less : after.clientPipe.length + after.serverPipe.length <
      s.clientPipe.length + s.serverPipe.length) : after.measure < s.measure :=
  Prod.Lex.toLex_lt_toLex.mpr (.inr ⟨same, less⟩)

theorem MiddlePoint.rank_pos {middle : MiddlePoint} (holds : middle.holds = true) :
    0 < middle.rank := by
  cases middle with
  | fork => decide
  | report message => exact Nat.succ_pos 1
  | exit => decide
  | _ => cases holds

theorem CommandPoint.rank_pos {command : CommandPoint} (holds : command.holds = true) :
    0 < command.rank := by
  cases command with
  | fcntlClient => decide
  | fcntlServer => decide
  | execvp => decide
  | reportClient message => exact Nat.succ_pos 2
  | reportServer message => exact Nat.succ_pos 1
  | exit => decide
  | _ => cases holds

theorem CreatorPoint.rank_pos {creator : CreatorPoint} (reads : creator.reads = true) :
    0 < creator.rank := by
  cases creator with
  | fork => decide
  | close => decide
  | waitpid => decide
  | reading buf => exact Nat.succ_pos 2
  | _ => cases reads

theorem ServerPoint.rank_pos {server : ServerPoint} (born : server ≠ .unborn)
    (alive : server ≠ .killed) : 0 < server.rank := by
  cases server with
  | unborn => exact absurd rfl born
  | killed => exact absurd rfl alive
  | _ => simp [ServerPoint.rank]

theorem ServerPoint.Moves.rank {server next : ServerPoint} (moves : server.Moves next) :
    next.rank < server.rank := by
  cases moves <;> decide

theorem Startup.measure_creator {next : CreatorPoint} (less : next.rank < s.creator.rank) :
    ({ s with creator := next } : Startup).measure < s.measure := by
  apply measure_lt_of_rank
  simp only [Startup.rank]
  omega

theorem Startup.measure_middle {next : MiddlePoint} {message toClient clientPipe : List UInt8}
    (less : next.rank < s.middle.rank) :
    ({ s with
        middle := next, message := message, toClient := toClient, clientPipe := clientPipe } :
      Startup).measure < s.measure := by
  apply measure_lt_of_rank
  simp only [Startup.rank]
  omega

theorem Startup.measure_server {next : ServerPoint} {message toClient clientPipe : List UInt8}
    (less : next.rank < s.server.rank) :
    ({ s with
        server := next, message := message, toClient := toClient, clientPipe := clientPipe } :
      Startup).measure < s.measure := by
  apply measure_lt_of_rank
  simp only [Startup.rank]
  omega

theorem Startup.measure_command {next : CommandPoint}
    {message toClient clientPipe toServer serverPipe : List UInt8}
    (less : next.rank < s.command.rank) :
    ({ s with
        command := next, message := message, toClient := toClient, clientPipe := clientPipe,
        toServer := toServer, serverPipe := serverPipe } : Startup).measure < s.measure := by
  apply measure_lt_of_rank
  simp only [Startup.rank]
  omega

theorem CreatorPoint.done_rank (buf : List UInt8) : (done buf).rank < 3 := by
  rw [done]
  split
  · exact Nat.succ_pos 2
  · exact Nat.lt_succ_self 2

theorem ServerPoint.done_rank (buf : List UInt8) : (done buf).rank < 3 := by
  rw [done]
  split
  · exact (by decide : 1 < 3)
  · exact (by decide : 1 < 3)

-- A process that starts another one goes down by more than that one's rank.
theorem Startup.happens_measure (happens : Happens cmd s bad after) (changed : after ≠ s) :
    after.measure < s.measure := by
  cases happens with
  | stays => exact absurd rfl changed
  | refuses here => exact measure_creator (by rw [here]; decide)
  | forks here =>
    apply measure_lt_of_rank
    simp only [Startup.rank, here, CreatorPoint.rank, MiddlePoint.rank]
    omega
  | closes here => exact measure_creator (by rw [here]; decide)
  | waits here => exact measure_creator (by rw [here]; exact Nat.lt_succ_self 3)
  | reads buf bytes later here split nonempty =>
    have more := List.length_pos_of_ne_nil nonempty
    refine measure_lt_of_pipes (by simp [Startup.rank, here, CreatorPoint.rank]) ?_
    simp only [split, List.length_append]
    omega
  | ends buf here _ => exact measure_creator (by rw [here]; exact CreatorPoint.done_rank buf)
  | readFails buf here => exact measure_creator (by rw [here]; exact Nat.succ_pos 2)
  | unlinks buf here =>
    apply measure_lt_of_rank
    simp only [Startup.rank, here, CreatorPoint.rank]
    omega
  | killCreator listening => exact measure_creator (CreatorPoint.rank_pos listening)
  | middleFails error here => exact measure_middle (by rw [here]; exact (by decide : 2 < 16))
  | middleForks here =>
    apply measure_lt_of_rank
    simp only [Startup.rank, here, ServerPoint.rank, MiddlePoint.rank]
    omega
  | middleReports message here _ => exact measure_middle (by rw [here]; exact Nat.lt_succ_self 1)
  | middleExits here => exact measure_middle (by rw [here]; decide)
  | middleStops _ holds _ => exact measure_middle (MiddlePoint.rank_pos holds)
  | serverFails message here =>
    refine measure_server ?_
    rcases here with ⟨here, _⟩ | ⟨here, _⟩ <;> rw [here] <;> simp [ServerPoint.rank]
  | pipes here => exact measure_server (by rw [here]; decide)
  | forkptys here =>
    apply measure_lt_of_rank
    simp only [Startup.rank, here, ServerPoint.rank, CommandPoint.rank]
    omega
  | serverReports message here _ => exact measure_server (by rw [here]; exact Nat.lt_succ_self 2)
  | serverMoves next moves => exact measure_server moves.rank
  | chdirFails here => exact measure_server (by rw [here]; decide)
  | serverReads buf bytes later here split nonempty =>
    have more := List.length_pos_of_ne_nil nonempty
    refine measure_lt_of_pipes (by simp [Startup.rank, here, ServerPoint.rank]) ?_
    simp only [split, List.length_append]
    omega
  | serverEnds buf here _ => exact measure_server (by rw [here]; exact ServerPoint.done_rank buf)
  | serverReadFails buf here =>
    exact measure_server (by rw [here]; exact (by decide : 1 < 3))
  | serverStops _ born _ =>
    refine measure_server (ServerPoint.rank_pos born ?_)
    intro killed
    exact changed (by rw [← killed])
  | marks here => exact measure_command (by rw [here]; decide)
  | marksBoth here => exact measure_command (by rw [here]; decide)
  | executes here => exact measure_command (by rw [here]; decide)
  | commandFails error here =>
    refine measure_command ?_
    rcases here with here | here | here <;> rw [here] <;> simp [CommandPoint.rank]
  | commandReports message here _ => exact measure_command (by rw [here]; exact Nat.lt_succ_self 2)
  | commandTells message here _ => exact measure_command (by rw [here]; exact Nat.lt_succ_self 1)
  | commandExits here => exact measure_command (by rw [here]; decide)
  | commandStops _ holds _ => exact measure_command (CommandPoint.rank_pos holds)

end Ends

/-! ## When nothing goes wrong -/

/-- No process was killed and no read failed, and the server has changed to the root
directory if it got so far. -/
structure Startup.Calm (s : Startup) : Prop where
  creator : s.creator ≠ .killed ∧ s.creator ≠ .returned none
  middle : s.middle ≠ .killed
  server : s.server ≠ .killed ∧ s.server ≠ .mainloop none
  serving : s.command ≠ .unborn → s.server ≠ .exit ∧ s.server ≠ .exited
  command : s.command ≠ .killed

theorem Startup.calm_start : Startup.start.Calm where
  creator := ⟨fun no => CreatorPoint.noConfusion no, fun no => CreatorPoint.noConfusion no⟩
  middle no := MiddlePoint.noConfusion no
  server := ⟨fun no => ServerPoint.noConfusion no, fun no => ServerPoint.noConfusion no⟩
  serving no := absurd rfl no
  command no := CommandPoint.noConfusion no

section Calm

variable {cmd : List UInt8} {s after : Startup}

theorem Startup.Sound.middle_born (sound : s.Sound cmd) (held : s.middle.holds = true ∨
    s.server.holds = true ∨ s.command.holds = true) : s.middle ≠ .unborn := by
  intro unborn
  have phase := sound.phase
  rw [unborn] at phase
  obtain ⟨_, _, _, server, command⟩ := phase.unborn
  rw [unborn, server, command] at held
  rcases held with held | held | held <;> cases held

theorem Startup.Calm.reads (calm : s.Calm) (sound : s.Sound cmd) (held : s.middle.holds = true ∨
    s.server.holds = true ∨ s.command.holds = true) : s.creator.reads = true := by
  have born := sound.middle_born held
  have listening : s.held = true := by
    rcases held with held | held | held
    · exact held_of_middle held
    · exact held_of_server held
    · exact held_of_command held
  have unanswered := sound.unanswered listening
  cases here : s.creator with
  | fork => rfl
  | close => rfl
  | waitpid => rfl
  | reading buf => rfl
  | unlink buf => rw [here] at unanswered; cases unanswered
  | failed buf => rw [here] at unanswered; cases unanswered
  | returned read =>
    cases read with
    | none => exact absurd here calm.creator.2
    | some read => rw [here] at unanswered; cases unanswered
  | refused => exact absurd (sound.alone (by rw [here]; rfl)) born
  | killed => exact absurd here calm.creator.1

theorem Startup.Calm.serverReads (calm : s.Calm) (sound : s.Sound cmd) {message : List UInt8}
    (here : s.command = .reportServer message) : s.server.reads = true := by
  have phase := sound.phase
  have holds : s.command.holds = true := by rw [here]; rfl
  have unserved := sound.unserved holds
  obtain ⟨_, _, started, _⟩ := phase.commandFailed holds (by rw [here]; rfl)
  obtain ⟨exit, exited⟩ := calm.serving (by rw [here]; exact fun no => CommandPoint.noConfusion no)
  cases point : s.server with
  | exited => exact absurd point exited
  | killed => exact absurd point calm.server.1
  | mainloop read =>
    cases read with
    | none => exact absurd point calm.server.2
    | some read => rw [point] at unserved; cases unserved
  | refused buf => rw [point] at unserved; cases unserved
  | unborn => rw [point] at started; cases started
  | pipe => rw [point] at started; cases started
  | _ => rfl

theorem Startup.Calm.creatorGoes (calm : s.Calm) {next : CreatorPoint}
    (alive : next ≠ .killed ∧ next ≠ .returned none) {socket : Bool} {clientPipe : List UInt8} :
    Calm { s with creator := next, socket := socket, clientPipe := clientPipe } :=
  ⟨alive, calm.middle, calm.server, calm.serving, calm.command⟩

theorem Startup.Calm.middleGoes (calm : s.Calm) {next : MiddlePoint} (alive : next ≠ .killed)
    {message toClient clientPipe : List UInt8} :
    Calm { s with
      middle := next, message := message, toClient := toClient, clientPipe := clientPipe } :=
  ⟨calm.creator, alive, calm.server, calm.serving, calm.command⟩

theorem Startup.Calm.serverGoes (calm : s.Calm) {next : ServerPoint}
    (alive : next ≠ .killed ∧ next ≠ .mainloop none)
    (serving : s.command ≠ .unborn → next ≠ .exit ∧ next ≠ .exited)
    {message toClient clientPipe serverPipe : List UInt8} :
    Calm { s with
      server := next, message := message, toClient := toClient, clientPipe := clientPipe,
      serverPipe := serverPipe } :=
  ⟨calm.creator, calm.middle, alive, serving, calm.command⟩

theorem Startup.Calm.commandGoes (calm : s.Calm) {next : CommandPoint} (holds : s.command.holds = true)
    (alive : next ≠ .killed) {message toClient clientPipe toServer serverPipe : List UInt8} :
    Calm { s with
      command := next, message := message, toClient := toClient, clientPipe := clientPipe,
      toServer := toServer, serverPipe := serverPipe } := by
  refine ⟨calm.creator, calm.middle, calm.server, fun _ => calm.serving ?_, alive⟩
  intro unborn
  rw [unborn] at holds
  cases holds

theorem CreatorPoint.done_alive (buf : List UInt8) :
    done buf ≠ .killed ∧ done buf ≠ .returned none := by
  rw [done]
  split
  · exact ⟨fun no => CreatorPoint.noConfusion no, fun no => by cases no⟩
  · exact ⟨fun no => CreatorPoint.noConfusion no, fun no => CreatorPoint.noConfusion no⟩

theorem ServerPoint.done_alive (buf : List UInt8) :
    (done buf ≠ .killed ∧ done buf ≠ .mainloop none) ∧ done buf ≠ .exit ∧ done buf ≠ .exited := by
  rw [done]
  split
  · exact ⟨⟨fun no => ServerPoint.noConfusion no, fun no => by cases no⟩,
      fun no => ServerPoint.noConfusion no, fun no => ServerPoint.noConfusion no⟩
  · exact ⟨⟨fun no => ServerPoint.noConfusion no, fun no => ServerPoint.noConfusion no⟩,
      fun no => ServerPoint.noConfusion no, fun no => ServerPoint.noConfusion no⟩

theorem Startup.Calm.happens (calm : s.Calm) (sound : s.Sound cmd)
    (happens : Happens cmd s false after) : after.Calm := by
  have phase := sound.phase
  cases happens with
  | stays => exact calm
  | refuses here => exact calm.creatorGoes (by decide)
  | forks here =>
    exact ⟨⟨fun no => CreatorPoint.noConfusion no, fun no => CreatorPoint.noConfusion no⟩,
      fun no => MiddlePoint.noConfusion no, calm.server, calm.serving, calm.command⟩
  | closes here => exact calm.creatorGoes (by decide)
  | waits here => exact calm.creatorGoes (by decide)
  | reads buf bytes later here _ _ =>
    exact calm.creatorGoes ⟨fun no => CreatorPoint.noConfusion no, fun no => CreatorPoint.noConfusion no⟩
  | ends buf here _ => exact calm.creatorGoes (CreatorPoint.done_alive buf)
  | unlinks buf here =>
    exact calm.creatorGoes ⟨fun no => CreatorPoint.noConfusion no, fun no => CreatorPoint.noConfusion no⟩
  | middleFails error here => exact calm.middleGoes fun no => MiddlePoint.noConfusion no
  | middleForks here =>
    rw [here] at phase
    obtain ⟨_, _, _, _, unborn⟩ := phase.middleFork
    exact ⟨calm.creator, fun no => MiddlePoint.noConfusion no,
      ⟨fun no => ServerPoint.noConfusion no, fun no => ServerPoint.noConfusion no⟩,
      fun born => absurd unborn born, calm.command⟩
  | middleReports message here _ => exact calm.middleGoes (by decide)
  | middleExits here => exact calm.middleGoes (by decide)
  | middleStops _ holds stops =>
    have reads := calm.reads sound (.inl holds)
    rcases stops with no | closed
    · cases no
    · rw [closed] at reads
      cases reads
  | serverFails message here =>
    have opens : s.server = .pipe ∨ s.server = .forkpty := here.imp And.left And.left
    obtain ⟨_, _, _, _, unborn⟩ := phase.serverOpens opens
    exact calm.serverGoes ⟨fun no => ServerPoint.noConfusion no, fun no => ServerPoint.noConfusion no⟩
      fun born => absurd unborn born
  | pipes here =>
    obtain ⟨_, _, _, _, unborn⟩ := phase.serverOpens (.inl here)
    exact calm.serverGoes (by decide) fun born => absurd unborn born
  | forkptys here =>
    exact ⟨calm.creator, calm.middle,
      ⟨fun no => ServerPoint.noConfusion no, fun no => ServerPoint.noConfusion no⟩,
      fun _ => ⟨fun no => ServerPoint.noConfusion no, fun no => ServerPoint.noConfusion no⟩,
      fun no => CommandPoint.noConfusion no⟩
  | serverReports message here _ =>
    rw [here] at phase
    obtain ⟨_, _, _, _, _, unborn⟩ := phase.serverReport
    exact calm.serverGoes (by decide) fun born => absurd unborn born
  | serverMoves next moves =>
    generalize here : s.server = point at moves
    cases moves with
    | exits =>
      refine calm.serverGoes (by decide) fun born => ?_
      exact absurd here (calm.serving born).1
    | chdir => exact calm.serverGoes (by decide) fun _ => by decide
    | closesClient => exact calm.serverGoes (by decide) fun _ => by decide
    | closesServer => exact calm.serverGoes (by decide) fun _ => by decide
  | serverReads buf bytes later here _ _ =>
    exact calm.serverGoes ⟨fun no => ServerPoint.noConfusion no, fun no => ServerPoint.noConfusion no⟩
      fun _ => ⟨fun no => ServerPoint.noConfusion no, fun no => ServerPoint.noConfusion no⟩
  | serverEnds buf here _ =>
    exact calm.serverGoes (ServerPoint.done_alive buf).1 fun _ => (ServerPoint.done_alive buf).2
  | serverStops _ _ stops =>
    rcases stops with no | ⟨holds, closed⟩
    · cases no
    · have reads := calm.reads sound (.inr (.inl holds))
      rw [closed] at reads
      cases reads
  | marks here => exact calm.commandGoes (by rw [here]; rfl) (by decide)
  | marksBoth here => exact calm.commandGoes (by rw [here]; rfl) (by decide)
  | executes here => exact calm.commandGoes (by rw [here]; rfl) (by decide)
  | commandFails error here =>
    refine calm.commandGoes ?_ fun no => CommandPoint.noConfusion no
    rcases here with here | here | here <;> rw [here] <;> rfl
  | commandReports message here _ =>
    exact calm.commandGoes (by rw [here]; rfl) fun no => CommandPoint.noConfusion no
  | commandTells message here _ => exact calm.commandGoes (by rw [here]; rfl) (by decide)
  | commandExits here => exact calm.commandGoes (by rw [here]; rfl) (by decide)
  | commandStops _ holds stops =>
    have reads := calm.reads sound (.inr (.inr holds))
    rcases stops with no | closed | ⟨⟨message, here⟩, closed⟩
    · cases no
    · rw [closed] at reads
      cases reads
    · have reads := calm.serverReads sound here
      rw [closed] at reads
      cases reads

/-! ## When no process gets on -/

theorem Startup.middle_of_still (still : s.Still cmd) : s.middle.holds = false := by
  have same := congrArg Startup.middle (still (.middle ⟨none, 0⟩) rfl)
  cases here : s.middle with
  | fork => simp [Startup.step, Startup.middleStep, here] at same
  | report message =>
    simp only [Startup.step, Startup.middleStep, here] at same
    split at same <;> cases same
  | exit => simp [Startup.step, Startup.middleStep, here] at same
  | _ => rfl

theorem Startup.command_of_still (still : s.Still cmd) : s.command.holds = false := by
  have same := congrArg Startup.command (still (.command ⟨none, 0⟩) rfl)
  cases here : s.command with
  | fcntlClient => simp [Startup.step, Startup.commandStep, here] at same
  | fcntlServer => simp [Startup.step, Startup.commandStep, here] at same
  | execvp => simp [Startup.step, Startup.commandStep, here] at same
  | reportClient message =>
    simp only [Startup.step, Startup.commandStep, here] at same
    split at same <;> cases same
  | reportServer message =>
    simp only [Startup.step, Startup.commandStep, here] at same
    split at same <;> cases same
  | exit => simp [Startup.step, Startup.commandStep, here] at same
  | _ => rfl

def ServerPoint.settled : ServerPoint → Bool
  | .unborn | .mainloop _ | .refused _ | .exited | .killed => true
  | _ => false

theorem read_differs {buf pipe : List UInt8} {count : Nat} (nonempty : pipe ≠ []) (positive : 0 < count) :
    buf ++ pipe.take count ≠ buf :=
  fun same => take_ne_nil positive nonempty (List.append_right_eq_self.mp same)

theorem Startup.server_of_still (still : s.Still cmd) : s.server.settled = true := by
  have point := congrArg Startup.server (still (.server ⟨none, 0⟩) rfl)
  cases here : s.server with
  | pipe => simp [Startup.step, Startup.serverStep, here] at point
  | forkpty => simp [Startup.step, Startup.serverStep, here] at point
  | report message =>
    simp only [Startup.step, Startup.serverStep, here] at point
    split at point <;> cases point
  | exit => simp [Startup.step, Startup.serverStep, here] at point
  | chdir => simp [Startup.step, Startup.serverStep, here] at point
  | closeClient => simp [Startup.step, Startup.serverStep, here] at point
  | closeServer => simp [Startup.step, Startup.serverStep, here] at point
  | reading buf =>
    have differs : ServerPoint.done buf ≠ .reading buf := by
      rw [ServerPoint.done]
      split <;> exact fun no => ServerPoint.noConfusion no
    have free : ¬ s.command.holds = true := by
      rw [command_of_still still]
      exact Bool.false_ne_true
    simp only [Startup.step, Startup.serverStep, here, if_neg free] at point
    split at point
    · exact absurd point differs
    · next short =>
      split at point
      · exact absurd point differs
      · next nonempty =>
        exact absurd (ServerPoint.reading.inj point) (read_differs nonempty (by omega))
  | _ => rfl

def CreatorPoint.settled : CreatorPoint → Bool
  | .returned _ | .failed _ | .refused | .killed => true
  | _ => false

theorem Startup.creator_of_still (still : s.Still cmd) (forked : s.creator.forked = true →
    s.middle ≠ .unborn) : s.creator.settled = true := by
  have point := congrArg Startup.creator (still (.creator ⟨none, 0⟩) rfl)
  have ended := middle_of_still still
  cases here : s.creator with
  | fork => simp [Startup.step, Startup.creatorStep, here] at point
  | close => simp [Startup.step, Startup.creatorStep, here] at point
  | waitpid =>
    have gone : s.middle = .exited ∨ s.middle = .killed := by
      cases middle : s.middle with
      | unborn => exact absurd middle (forked (by rw [here]; rfl))
      | exited => exact .inl rfl
      | killed => exact .inr rfl
      | _ => rw [middle] at ended; cases ended
    simp only [Startup.step, Startup.creatorStep, here] at point
    rw [if_pos gone] at point
    cases point
  | reading buf =>
    have differs : CreatorPoint.done buf ≠ .reading buf := by
      rw [CreatorPoint.done]
      split <;> exact fun no => CreatorPoint.noConfusion no
    have server : s.server.holds = false := by
      have settled := server_of_still still
      cases server : s.server with
      | mainloop read => rfl
      | refused buf => rfl
      | unborn => rfl
      | exited => rfl
      | killed => rfl
      | _ => rw [server] at settled; cases settled
    have free : ¬ s.held = true := by
      simp [Startup.held, here, CreatorPoint.holds, ended, server, command_of_still still]
    simp only [Startup.step, Startup.creatorStep, here, if_neg free] at point
    split at point
    · exact absurd point differs
    · next short =>
      split at point
      · exact absurd point differs
      · next nonempty =>
        exact absurd (CreatorPoint.reading.inj point) (read_differs nonempty (by omega))
  | unlink buf => simp [Startup.step, Startup.creatorStep, here] at point
  | _ => rfl

/-- How the session's start ends: with a session, with a message, or with no process at all. -/
inductive Startup.Settled (cmd : List UInt8) (s : Startup) : Prop where
  | session : s.creator = .returned (some []) → s.middle = .exited → s.server = .mainloop (some []) →
      s.command = .running → s.socket = true → Settled cmd s
  | message (message error : List UInt8) : s.creator = .failed message → s.middle = .exited →
      s.socket = false →
      (message = forkMessage error ∧ s.server = .unborn ∧ s.command = .unborn ∨
        (message = pipeMessage error ∨ message = errormsg (forkptyMessage error)) ∧
          s.server = .exited ∧ s.command = .unborn ∨
        message = errormsg (execvpMessage cmd error) ∧ s.server = .refused message ∧
          s.command = .exited) → Settled cmd s
  | nothing : s.creator = .refused → s.middle = .unborn → s.server = .unborn → s.command = .unborn →
      s.socket = true → Settled cmd s

section Ended

variable {message toClient toServer : List UInt8} {middle : MiddlePoint} {server : ServerPoint}
  {command : CommandPoint}

theorem Startup.Phase.started_of_born
    (phase : Phase cmd message toClient toServer middle server command)
    (born : command ≠ .unborn) : server.started = true := by
  cases phase with
  | early _ _ _ _ => exact absurd rfl born
  | forkFailed error _ _ _ => exact absurd rfl born
  | forked _ _ _ _ _ => exact absurd rfl born
  | serverFailed error _ _ _ _ => exact absurd rfl born
  | started _ _ _ _ started _ => exact started
  | execFailed error _ _ started _ => exact started

theorem Startup.Phase.running (phase : Phase cmd message toClient toServer middle server command)
    (here : command = .running) : toServer = [] := by
  cases phase with
  | early _ _ server _ => exact server
  | forkFailed error _ server _ => exact server
  | forked _ _ server _ _ => exact server
  | serverFailed error _ server _ _ => exact server
  | started _ _ server _ _ _ => exact server
  | execFailed error _ _ _ told => rw [here] at told; exact told.elim

theorem Startup.Phase.exited (phase : Phase cmd message toClient toServer middle server command)
    (here : command = .exited) : toServer = toClient := by
  cases phase with
  | early _ _ _ _ => cases here
  | forkFailed error _ _ _ => cases here
  | forked _ _ _ _ _ => cases here
  | serverFailed error _ _ _ _ => cases here
  | started _ _ _ _ _ trying => rw [here] at trying; cases trying
  | execFailed error _ _ _ told =>
    rw [here] at told
    exact told.2.trans told.1.symm

end Ended

theorem Startup.Calm.middle_exited (calm : s.Calm) (sound : s.Sound cmd) (still : s.Still cmd)
    (forked : s.creator.forked = true) : s.middle = .exited := by
  have gone := middle_of_still still
  cases middle : s.middle with
  | unborn => exact absurd middle (sound.begun forked)
  | exited => rfl
  | killed => exact absurd middle calm.middle
  | _ => rw [middle] at gone; cases gone

theorem Startup.Calm.server_ended (calm : s.Calm) (sound : s.Sound cmd) (still : s.Still cmd)
    (born : s.command ≠ .unborn) :
    s.server = .mainloop (some []) ∨ s.server = .refused s.toServer ∧ s.toServer ≠ [] := by
  have settled := server_of_still still
  have started := sound.phase.started_of_born born
  have fair := sound.serverFair
  have served := sound.served
  cases server : s.server with
  | mainloop read =>
    cases read with
    | none => exact absurd server calm.server.2
    | some read =>
      rw [server] at fair
      have silent : read = [] := fair
      rw [silent]
      exact .inl rfl
  | refused buf =>
    rw [server] at fair
    have all : buf = s.toServer := (served buf (by rw [server]; rfl)).2
    rw [← all]
    exact .inr ⟨rfl, fair⟩
  | exited => exact absurd server (calm.serving born).2
  | killed => exact absurd server calm.server.1
  | unborn => rw [server] at started; cases started
  | _ => rw [server] at settled; cases settled

theorem Startup.Calm.session (calm : s.Calm) (sound : s.Sound cmd) (still : s.Still cmd)
    {read : List UInt8} (here : s.creator = .returned (some read)) : s.Settled cmd := by
  have silent : read = [] := by
    have fair := sound.creatorFair
    rwa [here] at fair
  have command : s.command = .running := by
    rcases sound.creates here with running | killed | ⟨_, killed | killed⟩
    · exact running
    · exact absurd killed calm.command
    · exact absurd killed calm.middle
    · exact absurd killed calm.server.1
  have born : s.command ≠ .unborn := by
    rw [command]
    exact fun no => CommandPoint.noConfusion no
  have server : s.server = .mainloop (some []) := by
    have untold := sound.phase.running command
    rcases calm.server_ended sound still born with server | ⟨_, told⟩
    · exact server
    · exact absurd untold told
  have middle := calm.middle_exited sound still (by rw [here]; rfl)
  exact .session (silent ▸ here) middle server command (by rw [sound.file, here]; rfl)

theorem Startup.Calm.message (calm : s.Calm) (sound : s.Sound cmd) (still : s.Still cmd)
    {read : List UInt8} (here : s.creator = .failed read) : s.Settled cmd := by
  have middle := calm.middle_exited sound still (by rw [here]; rfl)
  obtain ⟨file, _, error, reported⟩ := sound.refuses here
  refine .message read error here middle file ?_
  rcases reported with ⟨kind, _, server, command⟩ | ⟨kind, server, command⟩ | ⟨kind, command⟩
  · exact .inl ⟨kind, server, command⟩
  · exact .inr (.inl ⟨kind, server.resolve_right calm.server.1, command⟩)
  · have exited := command.resolve_right calm.command
    have born : s.command ≠ .unborn := by
      rw [exited]
      exact fun no => CommandPoint.noConfusion no
    have told : s.toServer = read := by
      obtain ⟨_, _, _, all⟩ := sound.freed (by rw [here]; rfl : s.creator.answer = some read)
      exact (sound.phase.exited exited).trans all
    refine .inr (.inr ⟨kind, ?_, exited⟩)
    rcases calm.server_ended sound still born with server | ⟨server, _⟩
    · rcases sound.serves server with no | no <;> rw [exited] at no <;> cases no
    · rwa [told] at server

theorem Startup.Calm.settled (calm : s.Calm) (sound : s.Sound cmd) (still : s.Still cmd) :
    s.Settled cmd := by
  have settled := creator_of_still still sound.begun
  cases here : s.creator with
  | killed => exact absurd here calm.creator.1
  | refused =>
    have phase := sound.phase
    have unborn := sound.alone (by rw [here]; rfl)
    rw [unborn] at phase
    obtain ⟨_, _, _, server, command⟩ := phase.unborn
    exact .nothing here unborn server command (by rw [sound.file, here]; rfl)
  | returned read =>
    cases read with
    | none => exact absurd here calm.creator.2
    | some read => exact calm.session sound still here
  | failed message => exact calm.message sound still here
  | _ => rw [here] at settled; cases settled

end Calm

/-- The start of a session takes finitely many steps, in whatever order the processes
take them. Where no process is killed, no read fails and the server gets to the root
directory, it ends with all of them of one mind: with a server in its loop and its command
executed; with the message of one that failed, and nothing left of the session; or with
no process but the creator, which could not fork. -/
theorem startup_settles (cmd : List UInt8) :
    (WellFounded fun after s : Startup => after ≠ s ∧ ∃ event, after = s.step cmd event) ∧
    ∀ events : List StartupEvent,
      Along (Startup.step cmd) (fun s event => s.fails event = false) events Startup.start →
      (runSteps (Startup.step cmd) events Startup.start).Still cmd →
      (runSteps (Startup.step cmd) events Startup.start).Settled cmd := by
  constructor
  · refine Subrelation.wf ?_ (InvImage.wf Startup.measure wellFounded_lt)
    rintro after s ⟨changed, event, rfl⟩
    exact Startup.happens_measure (Startup.step_happens cmd event s) changed
  · intro events calm still
    have both := calm.invariant
      (fun s event fine (kept : s.Sound cmd ∧ s.Calm) =>
        have happens := Startup.step_happens cmd event s
        ⟨kept.1.happens happens, kept.2.happens kept.1 (fine ▸ happens)⟩)
      ⟨Startup.sound_start cmd, Startup.calm_start⟩
    exact both.2.settled both.1 still

theorem startup_settles_enoent :
    (runSteps (Startup.step (ascii "ls")) enoentEvents Startup.start).Settled (ascii "ls") := by
  have ended : runSteps (Startup.step (ascii "ls")) enoentEvents Startup.start = enoentEnd := by decide
  refine (startup_settles (ascii "ls")).2 enoentEvents ?_ fun event alive => ?_
  · simp only [enoentEvents, Along]
    decide
  · rw [ended]
    cases event with
    | creator call => rfl
    | middle call => rfl
    | server call => rfl
    | command call => rfl
    | killCreator => cases alive
    | killMiddle => cases alive
    | killServer => cases alive
    | killCommand => cases alive

end Lich.C
