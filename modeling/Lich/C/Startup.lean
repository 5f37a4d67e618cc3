import Lich.Startup

/-! How the C program's `create_session` starts a session.

Four processes take part: the creator, the intermediate process that it waits for, the
server, and the one that becomes the command. An error comes to the creator through
one pipe. The command tells the server of its own through another, so that the server
goes into its loop only for a command that runs.

A message fits into a pipe, so it is written at once. A call that EINTR interrupts is
made again, and is no step here. SIGPIPE ends a process that writes where nobody reads; the
start of a session behind an `attach_session` of the same process, which ignores that
signal from then on, is left out.
-/

set_option autoImplicit false

namespace Lich.C

open Foundation

/-- The creator, by what it does next; what it has read of the pipe, and what `read_all`
returned, if it did not fail. -/
inductive CreatorPoint where
  | fork
  /-- `close(client_pipe[1])` -/
  | close
  | waitpid
  | reading (buf : List UInt8)
  /-- what it has read is shown, and the socket's file goes -/
  | unlink (buf : List UInt8)
  | returned (read : Option (List UInt8))
  /-- `exit(EXIT_FAILURE)` -/
  | failed (buf : List UInt8)
  /-- there was no process -/
  | refused
  | killed
  deriving DecidableEq

inductive MiddlePoint where
  | unborn
  | fork
  | report (message : List UInt8)
  | exit
  | exited
  | killed
  deriving DecidableEq

inductive ServerPoint where
  | unborn
  | pipe
  | forkpty
  | report (message : List UInt8)
  | exit
  | chdir
  /-- `close(client_pipe[1])` -/
  | closeClient
  /-- `close(server_pipe[1])` -/
  | closeServer
  | reading (buf : List UInt8)
  /-- in `server_mainloop`, after this -/
  | mainloop (read : Option (List UInt8))
  /-- `_exit`, after this was read -/
  | refused (buf : List UInt8)
  | exited
  | killed
  deriving DecidableEq

inductive CommandPoint where
  | unborn
  /-- `fcntl` on either pipe -/
  | fcntlClient
  | fcntlServer
  | execvp
  /-- a message to the creator, and then to the server -/
  | reportClient (message : List UInt8)
  | reportServer (message : List UInt8)
  | exit
  | running
  | exited
  | killed
  deriving DecidableEq

structure Startup where
  creator : CreatorPoint
  middle : MiddlePoint
  server : ServerPoint
  command : CommandPoint
  /-- the file of the socket is there -/
  socket : Bool
  /-- what was written to the pipes and not read -/
  clientPipe : List UInt8
  serverPipe : List UInt8
  /-- the message that a process has set out to report -/
  message : List UInt8
  /-- all that was written to the pipes -/
  toClient : List UInt8
  toServer : List UInt8
  deriving DecidableEq

def Startup.start : Startup :=
  ⟨.fork, .unborn, .unborn, .unborn, true, [], [], [], [], []⟩

def errormsgSize : Nat := 255

def errormsg (text : List UInt8) : List UInt8 := text.take (errormsgSize - 1)

def forkMessage (error : List UInt8) : List UInt8 :=
  errormsg (ascii "server-fork: " ++ error ++ ascii "\n")

def pipeMessage (error : List UInt8) : List UInt8 :=
  errormsg (ascii "server-pipe: " ++ error ++ ascii "\n")

def CreatorPoint.holds : CreatorPoint → Bool
  | .fork | .close => true
  | _ => false

def MiddlePoint.holds : MiddlePoint → Bool
  | .fork | .report _ | .exit => true
  | .unborn | .exited | .killed => false

def ServerPoint.holds : ServerPoint → Bool
  | .pipe | .forkpty | .report _ | .exit | .chdir | .closeClient => true
  | _ => false

def CommandPoint.holds : CommandPoint → Bool
  | .fcntlClient | .fcntlServer | .execvp | .reportClient _ | .reportServer _ | .exit => true
  | .unborn | .running | .exited | .killed => false

def Startup.held (s : Startup) : Bool :=
  s.creator.holds || s.middle.holds || s.server.holds || s.command.holds

def CreatorPoint.reads : CreatorPoint → Bool
  | .fork | .close | .waitpid | .reading _ => true
  | _ => false

def ServerPoint.reads : ServerPoint → Bool
  | .forkpty | .report _ | .exit | .chdir | .closeClient | .closeServer | .reading _ => true
  | _ => false

/-- What a process is answered: the error of the call, if it fails, and how much more
than one byte a read gets. -/
structure Call where
  error : Option (List UInt8)
  more : Nat

def Startup.creatorStep (call : Call) (s : Startup) : Startup :=
  match s.creator with
  | .fork =>
    match call.error with
    | some _ => { s with creator := .refused }
    | none => { s with creator := .close, middle := .fork }
  | .close => { s with creator := .waitpid }
  | .waitpid =>
    if s.middle = .exited ∨ s.middle = .killed then { s with creator := .reading [] } else s
  | .reading buf =>
    let done : Startup := { s with creator := if buf = [] then .returned (some []) else .unlink buf }
    match call.error with
    | some _ => { s with creator := .returned none }
    | none =>
      if buf.length ≥ errormsgSize then done
      else if s.clientPipe = [] then if s.held then s else done
      else
        let count := min (call.more + 1) (errormsgSize - buf.length)
        { s with
          creator := .reading (buf ++ s.clientPipe.take count)
          clientPipe := s.clientPipe.drop count }
  | .unlink buf => { s with creator := .failed buf, socket := false }
  | .returned _ | .failed _ | .refused | .killed => s

/-- A write to `client_pipe`; it is a signal that ends the process when nobody reads. -/
def Startup.toClientPipe (message : List UInt8) (s : Startup) : Startup :=
  { s with clientPipe := s.clientPipe ++ message, toClient := s.toClient ++ message }

def Startup.middleStep (call : Call) (s : Startup) : Startup :=
  match s.middle with
  | .fork =>
    match call.error with
    | some error => { s with middle := .report (forkMessage error), message := forkMessage error }
    | none => { s with middle := .exit, server := .pipe }
  | .report message =>
    if s.creator.reads then { s.toClientPipe message with middle := .exit }
    else { s with middle := .killed }
  | .exit => { s with middle := .exited }
  | .unborn | .exited | .killed => s

def Startup.serverStep (call : Call) (s : Startup) : Startup :=
  match s.server with
  | .pipe =>
    match call.error with
    | some error => { s with server := .report (pipeMessage error), message := pipeMessage error }
    | none => { s with server := .forkpty }
  | .forkpty =>
    match call.error with
    | some error =>
      let message := errormsg (forkptyMessage error)
      { s with server := .report message, message := message }
    | none => { s with server := .chdir, command := .fcntlClient }
  | .report message =>
    if s.creator.reads then { s.toClientPipe message with server := .exit }
    else { s with server := .killed }
  | .exit => { s with server := .exited }
  | .chdir => { s with server := if call.error = none then .closeClient else .exit }
  | .closeClient => { s with server := .closeServer }
  | .closeServer => { s with server := .reading [] }
  | .reading buf =>
    let done : Startup := { s with server := if buf = [] then .mainloop (some []) else .refused buf }
    match call.error with
    | some _ => { s with server := .mainloop none }
    | none =>
      if buf.length ≥ errormsgSize then done
      else if s.serverPipe = [] then if s.command.holds then s else done
      else
        let count := min (call.more + 1) (errormsgSize - buf.length)
        { s with
          server := .reading (buf ++ s.serverPipe.take count)
          serverPipe := s.serverPipe.drop count }
  | .unborn | .mainloop _ | .refused _ | .exited | .killed => s

def Startup.commandStep (cmd : List UInt8) (call : Call) (s : Startup) : Startup :=
  let fails (error : List UInt8) : Startup :=
    let message := errormsg (execvpMessage cmd error)
    { s with command := .reportClient message, message := message }
  match s.command with
  | .fcntlClient =>
    match call.error with
    | some error => fails error
    | none => { s with command := .fcntlServer }
  | .fcntlServer =>
    match call.error with
    | some error => fails error
    | none => { s with command := .execvp }
  | .execvp =>
    match call.error with
    | some error => fails error
    | none => { s with command := .running }
  | .reportClient message =>
    if s.creator.reads then { s.toClientPipe message with command := .reportServer message }
    else { s with command := .killed }
  | .reportServer message =>
    if s.server.reads then
      { s with
        command := .exit
        serverPipe := s.serverPipe ++ message
        toServer := s.toServer ++ message }
    else { s with command := .killed }
  | .exit => { s with command := .exited }
  | .unborn | .running | .exited | .killed => s

inductive StartupEvent where
  | creator (call : Call)
  | middle (call : Call)
  | server (call : Call)
  | command (call : Call)
  | killCreator
  | killMiddle
  | killServer
  | killCommand

def Startup.step (cmd : List UInt8) (event : StartupEvent) (s : Startup) : Startup :=
  match event with
  | .creator call => s.creatorStep call
  | .middle call => s.middleStep call
  | .server call => s.serverStep call
  | .command call => s.commandStep cmd call
  | .killCreator => if s.creator.reads then { s with creator := .killed } else s
  | .killMiddle => if s.middle.holds then { s with middle := .killed } else s
  | .killServer => if s.server = .unborn then s else { s with server := .killed }
  -- the command itself has nothing to do with the pipes
  | .killCommand => if s.command.holds then { s with command := .killed } else s

/-! ## What an event can do -/

def CreatorPoint.reading? : CreatorPoint → Bool
  | .reading _ => true
  | _ => false

def ServerPoint.fragile : ServerPoint → Bool
  | .reading _ | .chdir => true
  | _ => false

/-- A process is killed, a read fails, or the server cannot change to the root directory. -/
def Startup.fails (s : Startup) : StartupEvent → Bool
  | .creator call => s.creator.reading? && call.error.isSome
  | .server call => s.server.fragile && call.error.isSome
  | .middle _ | .command _ => false
  | .killCreator | .killMiddle | .killServer | .killCommand => true

def CreatorPoint.done (buf : List UInt8) : CreatorPoint :=
  if buf = [] then .returned (some []) else .unlink buf

def ServerPoint.done (buf : List UInt8) : ServerPoint :=
  if buf = [] then .mainloop (some []) else .refused buf

/-- The steps within a process that nothing depends on but its own descriptors. -/
inductive ServerPoint.Moves : ServerPoint → ServerPoint → Prop where
  | exits : Moves .exit .exited
  | chdir : Moves .chdir .closeClient
  | closesClient : Moves .closeClient .closeServer
  | closesServer : Moves .closeServer (.reading [])

/-- The changes that there are, and whether something goes wrong that the program has
no answer to. -/
inductive Startup.Happens (cmd : List UInt8) (s : Startup) : Bool → Startup → Prop where
  | stays (bad : Bool) : Happens cmd s bad s
  | refuses : s.creator = .fork → Happens cmd s false { s with creator := .refused }
  | forks : s.creator = .fork → Happens cmd s false { s with creator := .close, middle := .fork }
  | closes : s.creator = .close → Happens cmd s false { s with creator := .waitpid }
  | waits : s.creator = .waitpid → Happens cmd s false { s with creator := .reading [] }
  | reads (buf bytes later : List UInt8) : s.creator = .reading buf → s.clientPipe = bytes ++ later →
      bytes ≠ [] →
      Happens cmd s false { s with creator := .reading (buf ++ bytes), clientPipe := later }
  | ends (buf : List UInt8) : s.creator = .reading buf →
      buf.length ≥ errormsgSize ∨ s.clientPipe = [] ∧ s.held = false →
      Happens cmd s false { s with creator := .done buf }
  | readFails (buf : List UInt8) : s.creator = .reading buf →
      Happens cmd s true { s with creator := .returned none }
  | unlinks (buf : List UInt8) : s.creator = .unlink buf →
      Happens cmd s false { s with creator := .failed buf, socket := false }
  | killCreator : s.creator.reads = true → Happens cmd s true { s with creator := .killed }
  | middleFails (error : List UInt8) : s.middle = .fork →
      Happens cmd s false
        { s with middle := .report (forkMessage error), message := forkMessage error }
  | middleForks : s.middle = .fork → Happens cmd s false { s with middle := .exit, server := .pipe }
  | middleReports (message : List UInt8) : s.middle = .report message → s.creator.reads = true →
      Happens cmd s false { s with
        middle := .exit, clientPipe := s.clientPipe ++ message, toClient := s.toClient ++ message }
  | middleExits : s.middle = .exit → Happens cmd s false { s with middle := .exited }
  | middleStops (bad : Bool) : s.middle.holds = true → bad = true ∨ s.creator.reads = false →
      Happens cmd s bad { s with middle := .killed }
  | serverFails (message : List UInt8) :
      s.server = .pipe ∧ (∃ error, message = pipeMessage error) ∨
        s.server = .forkpty ∧ (∃ error, message = errormsg (forkptyMessage error)) →
      Happens cmd s false { s with server := .report message, message := message }
  | pipes : s.server = .pipe → Happens cmd s false { s with server := .forkpty }
  | forkptys : s.server = .forkpty →
      Happens cmd s false { s with server := .chdir, command := .fcntlClient }
  | serverReports (message : List UInt8) : s.server = .report message → s.creator.reads = true →
      Happens cmd s false { s with
        server := .exit, clientPipe := s.clientPipe ++ message, toClient := s.toClient ++ message }
  | serverMoves (next : ServerPoint) : s.server.Moves next →
      Happens cmd s false { s with server := next }
  | chdirFails : s.server = .chdir → Happens cmd s true { s with server := .exit }
  | serverReads (buf bytes later : List UInt8) : s.server = .reading buf →
      s.serverPipe = bytes ++ later → bytes ≠ [] →
      Happens cmd s false { s with server := .reading (buf ++ bytes), serverPipe := later }
  | serverEnds (buf : List UInt8) : s.server = .reading buf →
      buf.length ≥ errormsgSize ∨ s.serverPipe = [] ∧ s.command.holds = false →
      Happens cmd s false { s with server := .done buf }
  | serverReadFails (buf : List UInt8) : s.server = .reading buf →
      Happens cmd s true { s with server := .mainloop none }
  | serverStops (bad : Bool) : s.server ≠ .unborn →
      bad = true ∨ s.server.holds = true ∧ s.creator.reads = false →
      Happens cmd s bad { s with server := .killed }
  | marks : s.command = .fcntlClient → Happens cmd s false { s with command := .fcntlServer }
  | marksBoth : s.command = .fcntlServer → Happens cmd s false { s with command := .execvp }
  | executes : s.command = .execvp → Happens cmd s false { s with command := .running }
  | commandFails (error : List UInt8) :
      s.command = .fcntlClient ∨ s.command = .fcntlServer ∨ s.command = .execvp →
      Happens cmd s false { s with
        command := .reportClient (errormsg (execvpMessage cmd error))
        message := errormsg (execvpMessage cmd error) }
  | commandReports (message : List UInt8) : s.command = .reportClient message →
      s.creator.reads = true →
      Happens cmd s false { s with
        command := .reportServer message, clientPipe := s.clientPipe ++ message,
        toClient := s.toClient ++ message }
  | commandTells (message : List UInt8) : s.command = .reportServer message →
      s.server.reads = true →
      Happens cmd s false { s with
        command := .exit, serverPipe := s.serverPipe ++ message, toServer := s.toServer ++ message }
  | commandExits : s.command = .exit → Happens cmd s false { s with command := .exited }
  | commandStops (bad : Bool) : s.command.holds = true →
      bad = true ∨ s.creator.reads = false ∨
        (∃ message, s.command = .reportServer message) ∧ s.server.reads = false →
      Happens cmd s bad { s with command := .killed }

section Steps

variable {cmd : List UInt8} {s : Startup}

theorem take_ne_nil {count : Nat} {pipe : List UInt8} (positive : 0 < count) (nonempty : pipe ≠ []) :
    pipe.take count ≠ [] := by
  rw [ne_eq, List.take_eq_nil_iff]
  exact fun either => either.elim (Nat.ne_of_gt positive) nonempty

theorem creatorStep_happens (call : Call) :
    Startup.Happens cmd s (s.fails (.creator call)) (s.creatorStep call) := by
  rw [Startup.fails, Startup.creatorStep]
  cases here : s.creator with
  | fork =>
    cases call.error with
    | some error => exact .refuses here
    | none => exact .forks here
  | close => exact .closes here
  | waitpid =>
    dsimp only
    split
    · exact .waits here
    · exact .stays _
  | reading buf =>
    cases call.error with
    | some error => exact .readFails buf here
    | none =>
      dsimp only
      split
      · next long => exact .ends buf here (.inl long)
      · next short =>
        split
        · next empty =>
          split
          · exact .stays _
          · next free => exact .ends buf here (.inr ⟨empty, Bool.not_eq_true _ ▸ free⟩)
        · next nonempty =>
          refine .reads buf _ _ here (List.take_append_drop _ _).symm (take_ne_nil ?_ nonempty)
          omega
  | unlink buf => exact .unlinks buf here
  | returned read => exact .stays _
  | failed buf => exact .stays _
  | refused => exact .stays _
  | killed => exact .stays _

theorem middleStep_happens (call : Call) :
    Startup.Happens cmd s false (s.middleStep call) := by
  rw [Startup.middleStep]
  cases here : s.middle with
  | fork =>
    cases call.error with
    | some error => exact .middleFails error here
    | none => exact .middleForks here
  | report message =>
    dsimp only
    split
    · next listening => exact .middleReports message here listening
    · next closed => exact .middleStops false (by rw [here]; rfl) (.inr (Bool.not_eq_true _ ▸ closed))
  | exit => exact .middleExits here
  | unborn => exact .stays _
  | exited => exact .stays _
  | killed => exact .stays _

theorem serverStep_happens (call : Call) :
    Startup.Happens cmd s (s.fails (.server call)) (s.serverStep call) := by
  rw [Startup.fails, Startup.serverStep]
  cases here : s.server with
  | pipe =>
    cases call.error with
    | some error => exact .serverFails _ (.inl ⟨here, error, rfl⟩)
    | none => exact .pipes here
  | forkpty =>
    cases call.error with
    | some error => exact .serverFails _ (.inr ⟨here, error, rfl⟩)
    | none => exact .forkptys here
  | report message =>
    dsimp only
    split
    · next listening => exact .serverReports message here listening
    · next closed =>
      refine .serverStops false (by rw [here]; exact fun no => by cases no) (.inr ⟨?_, ?_⟩)
      · rw [here]
        rfl
      · exact Bool.not_eq_true _ ▸ closed
  | exit => exact .serverMoves _ (by rw [here]; exact .exits)
  | chdir =>
    cases call.error with
    | some error => exact .chdirFails here
    | none => exact .serverMoves _ (by rw [here]; exact .chdir)
  | closeClient => exact .serverMoves _ (by rw [here]; exact .closesClient)
  | closeServer => exact .serverMoves _ (by rw [here]; exact .closesServer)
  | reading buf =>
    cases call.error with
    | some error => exact .serverReadFails buf here
    | none =>
      dsimp only
      split
      · next long => exact .serverEnds buf here (.inl long)
      · next short =>
        split
        · next empty =>
          split
          · exact .stays _
          · next free => exact .serverEnds buf here (.inr ⟨empty, Bool.not_eq_true _ ▸ free⟩)
        · next nonempty =>
          refine .serverReads buf _ _ here (List.take_append_drop _ _).symm (take_ne_nil ?_ nonempty)
          omega
  | unborn => exact .stays _
  | mainloop read => exact .stays _
  | refused buf => exact .stays _
  | exited => exact .stays _
  | killed => exact .stays _

theorem commandStep_happens (call : Call) :
    Startup.Happens cmd s false (s.commandStep cmd call) := by
  rw [Startup.commandStep]
  cases here : s.command with
  | fcntlClient =>
    cases call.error with
    | some error => exact .commandFails error (.inl here)
    | none => exact .marks here
  | fcntlServer =>
    cases call.error with
    | some error => exact .commandFails error (.inr (.inl here))
    | none => exact .marksBoth here
  | execvp =>
    cases call.error with
    | some error => exact .commandFails error (.inr (.inr here))
    | none => exact .executes here
  | reportClient message =>
    dsimp only
    split
    · next listening => exact .commandReports message here listening
    · next closed =>
      exact .commandStops false (by rw [here]; rfl) (.inr (.inl (Bool.not_eq_true _ ▸ closed)))
  | reportServer message =>
    dsimp only
    split
    · next listening => exact .commandTells message here listening
    · next closed =>
      refine .commandStops false (by rw [here]; rfl) (.inr (.inr ⟨⟨message, here⟩, ?_⟩))
      exact Bool.not_eq_true _ ▸ closed
  | exit => exact .commandExits here
  | unborn => exact .stays _
  | running => exact .stays _
  | exited => exact .stays _
  | killed => exact .stays _

theorem Startup.step_happens (cmd : List UInt8) (event : StartupEvent) (s : Startup) :
    Startup.Happens cmd s (s.fails event) (s.step cmd event) := by
  cases event with
  | creator call => exact creatorStep_happens call
  | middle call => exact middleStep_happens call
  | server call => exact serverStep_happens call
  | command call => exact commandStep_happens call
  | killCreator =>
    rw [Startup.step]
    split
    · next here => exact .killCreator here
    · exact .stays _
  | killMiddle =>
    rw [Startup.step]
    split
    · next here => exact .middleStops true here (.inl rfl)
    · exact .stays _
  | killServer =>
    rw [Startup.step]
    split
    · exact .stays _
    · next here => exact .serverStops true here (.inl rfl)
  | killCommand =>
    rw [Startup.step]
    split
    · next here => exact .commandStops true here (.inl rfl)
    · exact .stays _

end Steps

end Lich.C
