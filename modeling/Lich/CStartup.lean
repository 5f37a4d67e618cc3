import Lich.C.Startup

/-! What the C program's creator and its server learn of each other.

At most one of the processes has an error to report. Nobody takes a session for
started while one that could report is left, and the server waits for its command.
-/

set_option autoImplicit false

namespace Lich.C

open Foundation

/-! ## Who reports -/

def MiddlePoint.past : MiddlePoint → Bool
  | .exit | .exited | .killed => true
  | _ => false

/-- How much of its message the process has reported, if it is the one to report. -/
def MiddlePoint.Told (message toClient : List UInt8) : MiddlePoint → Prop
  | .report left => left = message ∧ toClient = []
  | .exit | .exited => toClient = message
  | .killed => toClient = [] ∨ toClient = message
  | _ => False

def ServerPoint.opening : ServerPoint → Bool
  | .pipe | .forkpty | .killed => true
  | _ => false

def ServerPoint.started : ServerPoint → Bool
  | .unborn | .pipe | .forkpty | .report _ => false
  | _ => true

def ServerPoint.serving : ServerPoint → Bool
  | .chdir | .closeClient | .closeServer | .reading _ => true
  | _ => false

def ServerPoint.Told (message toClient : List UInt8) : ServerPoint → Prop
  | .report left => left = message ∧ toClient = []
  | .exit | .exited => toClient = message
  | .killed => toClient = [] ∨ toClient = message
  | _ => False

def CommandPoint.trying : CommandPoint → Bool
  | .fcntlClient | .fcntlServer | .execvp | .running | .killed => true
  | _ => false

def CommandPoint.Told (message toClient toServer : List UInt8) : CommandPoint → Prop
  | .reportClient left => left = message ∧ toClient = [] ∧ toServer = []
  | .reportServer left => left = message ∧ toClient = message ∧ toServer = []
  | .exit | .exited => toClient = message ∧ toServer = message
  | .killed => (toClient = [] ∨ toClient = message) ∧ (toServer = [] ∨ toServer = message)
  | _ => False

/-- What the message is, and how far its reporter has got: at most one of the three
processes ever has one. -/
inductive Startup.Phase (cmd message toClient toServer : List UInt8) :
    MiddlePoint → ServerPoint → CommandPoint → Prop where
  | early {middle : MiddlePoint} : message = [] → toClient = [] → toServer = [] →
      middle = .unborn ∨ middle = .fork ∨ middle = .killed →
      Phase cmd message toClient toServer middle .unborn .unborn
  | forkFailed {middle : MiddlePoint} (error : List UInt8) : message = forkMessage error →
      toServer = [] → middle.Told message toClient →
      Phase cmd message toClient toServer middle .unborn .unborn
  | forked {middle : MiddlePoint} {server : ServerPoint} : message = [] → toClient = [] →
      toServer = [] → middle.past = true → server.opening = true →
      Phase cmd message toClient toServer middle server .unborn
  | serverFailed {middle : MiddlePoint} {server : ServerPoint} (error : List UInt8) :
      message = pipeMessage error ∨ message = errormsg (forkptyMessage error) → toServer = [] →
      middle.past = true → server.Told message toClient →
      Phase cmd message toClient toServer middle server .unborn
  | started {middle : MiddlePoint} {server : ServerPoint} {command : CommandPoint} : message = [] →
      toClient = [] → toServer = [] → middle.past = true → server.started = true →
      command.trying = true → Phase cmd message toClient toServer middle server command
  | execFailed {middle : MiddlePoint} {server : ServerPoint} {command : CommandPoint}
      (error : List UInt8) : message = errormsg (execvpMessage cmd error) → middle.past = true →
      server.started = true → command.Told message toClient toServer →
      Phase cmd message toClient toServer middle server command

def CreatorPoint.buf : CreatorPoint → List UInt8
  | .reading buf => buf
  | _ => []

def CreatorPoint.answer : CreatorPoint → Option (List UInt8)
  | .returned read => read
  | .unlink buf | .failed buf => some buf
  | _ => none

/-- Nothing is a success, and something is not. -/
def CreatorPoint.Fair : CreatorPoint → Prop
  | .returned (some buf) => buf = []
  | .unlink buf | .failed buf => buf ≠ []
  | _ => True

def ServerPoint.buf : ServerPoint → List UInt8
  | .reading buf => buf
  | _ => []

def ServerPoint.answer : ServerPoint → Option (List UInt8)
  | .mainloop read => read
  | .refused buf => some buf
  | _ => none

def ServerPoint.Fair : ServerPoint → Prop
  | .mainloop (some buf) => buf = []
  | .refused buf => buf ≠ []
  | _ => True

def ServerPoint.waits : ServerPoint → Bool
  | .unborn | .pipe => true
  | server => server.reads

def CreatorPoint.alone : CreatorPoint → Bool
  | .fork | .refused => true
  | _ => false

def CreatorPoint.forked : CreatorPoint → Bool
  | .fork | .refused | .killed => false
  | _ => true

def CreatorPoint.unlinked : CreatorPoint → Bool
  | .failed _ => true
  | _ => false

structure Startup.Sound (cmd : List UInt8) (s : Startup) : Prop where
  phase : Phase cmd s.message s.toClient s.toServer s.middle s.server s.command
  client : s.creator.reads = true → s.creator.buf ++ s.clientPipe = s.toClient
  server : s.server.waits = true → s.server.buf ++ s.serverPipe = s.toServer
  created : ∀ read, s.creator.answer = some read → s.held = false ∧ read = s.toClient
  served : ∀ read, s.server.answer = some read → s.command.holds = false ∧ read = s.toServer
  creatorFair : s.creator.Fair
  serverFair : s.server.Fair
  alone : s.creator.alone = true → s.middle = .unborn
  born : s.middle = .unborn → s.creator.forked = false
  file : s.socket = !s.creator.unlinked

theorem Startup.sound_start (cmd : List UInt8) : Startup.start.Sound cmd where
  phase := .early rfl rfl rfl (.inl rfl)
  client _ := rfl
  server _ := rfl
  created _ same := by cases same
  served _ same := by cases same
  creatorFair := trivial
  serverFair := trivial
  alone _ := rfl
  born _ := rfl
  file := rfl

/-! ### The phases -/

section Phases

variable {cmd message toClient toServer left : List UInt8} {middle : MiddlePoint}
  {server : ServerPoint} {command : CommandPoint}

theorem errormsg_short (text : List UInt8) : (errormsg text).length < errormsgSize := by
  rw [errormsg, List.length_take]
  exact Nat.lt_of_le_of_lt (Nat.min_le_left _ _) (by decide)

theorem Startup.Phase.written (phase : Phase cmd message toClient toServer middle server command) :
    message.length < errormsgSize ∧ (toClient = [] ∨ toClient = message) ∧
      (toServer = [] ∨ toServer = message) := by
  have empty : ([] : List UInt8).length < errormsgSize := by decide
  cases phase with
  | early silent client server _ => exact ⟨silent ▸ empty, .inl client, .inl server⟩
  | forkFailed error kind server told =>
    refine ⟨kind ▸ errormsg_short _, ?_, .inl server⟩
    cases middle with
    | report left => exact .inl told.2
    | exit => exact .inr told
    | exited => exact .inr told
    | killed => exact told
    | unborn => exact told.elim
    | fork => exact told.elim
  | forked silent client server _ _ => exact ⟨silent ▸ empty, .inl client, .inl server⟩
  | serverFailed error kind silent _ told =>
    refine ⟨?_, ?_, .inl silent⟩
    · rcases kind with kind | kind <;> exact kind ▸ errormsg_short _
    · cases server with
      | report left => exact .inl told.2
      | exit => exact .inr told
      | exited => exact .inr told
      | killed => exact told
      | _ => exact told.elim
  | started silent client server _ _ _ => exact ⟨silent ▸ empty, .inl client, .inl server⟩
  | execFailed error kind _ _ told =>
    refine ⟨kind ▸ errormsg_short _, ?_⟩
    cases command with
    | reportClient left => exact ⟨.inl told.2.1, .inl told.2.2⟩
    | reportServer left => exact ⟨.inr told.2.1, .inl told.2.2⟩
    | exit => exact ⟨.inr told.1, .inr told.2⟩
    | exited => exact ⟨.inr told.1, .inr told.2⟩
    | killed => exact told
    | _ => exact told.elim

theorem Startup.Phase.middleFork (phase : Phase cmd message toClient toServer .fork server command) :
    message = [] ∧ toClient = [] ∧ toServer = [] ∧ server = .unborn ∧ command = .unborn := by
  cases phase with
  | early silent client server _ => exact ⟨silent, client, server, rfl, rfl⟩
  | forkFailed error _ _ told => exact told.elim
  | forked _ _ _ past _ => cases past
  | serverFailed error _ _ past _ => cases past
  | started _ _ _ past _ _ => cases past
  | execFailed error _ past _ _ => cases past

theorem Startup.Phase.middleReport
    (phase : Phase cmd message toClient toServer (.report left) server command) :
    (∃ error, message = forkMessage error) ∧ left = message ∧ toClient = [] ∧ toServer = [] ∧
      server = .unborn ∧ command = .unborn := by
  cases phase with
  | early _ _ _ point => rcases point with point | point | point <;> cases point
  | forkFailed error kind server told => exact ⟨⟨error, kind⟩, told.1, told.2, server, rfl, rfl⟩
  | forked _ _ _ past _ => cases past
  | serverFailed error _ _ past _ => cases past
  | started _ _ _ past _ _ => cases past
  | execFailed error _ past _ _ => cases past

theorem Startup.Phase.middleExits
    (phase : Phase cmd message toClient toServer .exit server command) :
    Phase cmd message toClient toServer .exited server command := by
  cases phase with
  | early _ _ _ point => rcases point with point | point | point <;> cases point
  | forkFailed error kind server told => exact .forkFailed error kind server told
  | forked silent client server _ opening => exact .forked silent client server rfl opening
  | serverFailed error kind silent _ told => exact .serverFailed error kind silent rfl told
  | started silent client server _ started trying =>
    exact .started silent client server rfl started trying
  | execFailed error kind _ started told => exact .execFailed error kind rfl started told

theorem Startup.Phase.middleStops (phase : Phase cmd message toClient toServer middle server command)
    (holds : middle.holds = true) : Phase cmd message toClient toServer .killed server command := by
  cases phase with
  | early silent client server _ => exact .early silent client server (.inr (.inr rfl))
  | forkFailed error kind server told =>
    refine .forkFailed error kind server ?_
    cases middle with
    | report left => exact .inl told.2
    | exit => exact .inr told
    | exited => cases holds
    | killed => cases holds
    | unborn => cases holds
    | fork => exact told.elim
  | forked silent client server _ opening => exact .forked silent client server rfl opening
  | serverFailed error kind silent _ told => exact .serverFailed error kind silent rfl told
  | started silent client server _ started trying =>
    exact .started silent client server rfl started trying
  | execFailed error kind _ started told => exact .execFailed error kind rfl started told

theorem Startup.Phase.serverOpens (phase : Phase cmd message toClient toServer middle server command)
    (here : server = .pipe ∨ server = .forkpty) :
    message = [] ∧ toClient = [] ∧ toServer = [] ∧ middle.past = true ∧ command = .unborn := by
  cases phase with
  | early _ _ _ _ => rcases here with here | here <;> cases here
  | forkFailed error _ _ _ => rcases here with here | here <;> cases here
  | forked silent client server past _ => exact ⟨silent, client, server, past, rfl⟩
  | serverFailed error _ _ _ told => rcases here with rfl | rfl <;> exact told.elim
  | started _ _ _ _ started _ => rcases here with rfl | rfl <;> cases started
  | execFailed error _ _ started _ => rcases here with rfl | rfl <;> cases started

theorem Startup.Phase.serverReport
    (phase : Phase cmd message toClient toServer middle (.report left) command) :
    (∃ error, message = pipeMessage error ∨ message = errormsg (forkptyMessage error)) ∧
      left = message ∧ toClient = [] ∧ toServer = [] ∧ middle.past = true ∧ command = .unborn := by
  cases phase with
  | forked _ _ _ _ opening => cases opening
  | serverFailed error kind silent past told => exact ⟨⟨error, kind⟩, told.1, told.2, silent, past, rfl⟩
  | started _ _ _ _ started _ => cases started
  | execFailed error _ _ started _ => cases started

theorem Startup.Phase.serverGoes {next : ServerPoint}
    (phase : Phase cmd message toClient toServer middle server command)
    (before : server.serving = true) (after : next.started = true) :
    Phase cmd message toClient toServer middle next command := by
  cases phase with
  | early _ _ _ _ => cases before
  | forkFailed error _ _ _ => cases before
  | forked _ _ _ _ opening =>
    cases server with
    | pipe => cases before
    | forkpty => cases before
    | killed => cases before
    | _ => cases opening
  | serverFailed error _ _ _ told =>
    cases server with
    | report left => cases before
    | exit => cases before
    | exited => cases before
    | killed => cases before
    | _ => exact told.elim
  | started silent client server past _ trying =>
    exact .started silent client server past after trying
  | execFailed error kind past _ told => exact .execFailed error kind past after told

theorem Startup.Phase.serverExits
    (phase : Phase cmd message toClient toServer middle .exit command) :
    Phase cmd message toClient toServer middle .exited command := by
  cases phase with
  | forked _ _ _ _ opening => cases opening
  | serverFailed error kind silent past told => exact .serverFailed error kind silent past told
  | started silent client server past _ trying => exact .started silent client server past rfl trying
  | execFailed error kind past _ told => exact .execFailed error kind past rfl told

theorem Startup.Phase.serverStops (phase : Phase cmd message toClient toServer middle server command)
    (born : server ≠ .unborn) : Phase cmd message toClient toServer middle .killed command := by
  cases phase with
  | early _ _ _ _ => exact absurd rfl born
  | forkFailed error _ _ _ => exact absurd rfl born
  | forked silent client server past _ => exact .forked silent client server past rfl
  | serverFailed error kind silent past told =>
    refine .serverFailed error kind silent past ?_
    cases server with
    | report left => exact .inl told.2
    | exit => exact .inr told
    | exited => exact .inr told
    | killed => exact told
    | _ => exact told.elim
  | started silent client server past _ trying => exact .started silent client server past rfl trying
  | execFailed error kind past _ told => exact .execFailed error kind past rfl told

theorem Startup.Phase.commandTries (phase : Phase cmd message toClient toServer middle server command)
    (here : command = .fcntlClient ∨ command = .fcntlServer ∨ command = .execvp) :
    message = [] ∧ toClient = [] ∧ toServer = [] ∧ middle.past = true ∧ server.started = true := by
  cases phase with
  | early _ _ _ _ => rcases here with here | here | here <;> cases here
  | forkFailed error _ _ _ => rcases here with here | here | here <;> cases here
  | forked _ _ _ _ _ => rcases here with here | here | here <;> cases here
  | serverFailed error _ _ _ _ => rcases here with here | here | here <;> cases here
  | started silent client server past started _ => exact ⟨silent, client, server, past, started⟩
  | execFailed error _ _ _ told => rcases here with rfl | rfl | rfl <;> exact told.elim

theorem Startup.Phase.commandFailed (phase : Phase cmd message toClient toServer middle server command)
    (born : command.holds = true) (failed : command.trying = false) :
    (∃ error, message = errormsg (execvpMessage cmd error)) ∧ middle.past = true ∧
      server.started = true ∧ command.Told message toClient toServer := by
  cases phase with
  | early _ _ _ _ => cases born
  | forkFailed error _ _ _ => cases born
  | forked _ _ _ _ _ => cases born
  | serverFailed error _ _ _ _ => cases born
  | started _ _ _ _ _ trying => exact absurd trying (by rw [failed]; exact Bool.false_ne_true)
  | execFailed error kind past started told => exact ⟨⟨error, kind⟩, past, started, told⟩

theorem Startup.Phase.commandStops (phase : Phase cmd message toClient toServer middle server command)
    (born : command.holds = true) : Phase cmd message toClient toServer middle server .killed := by
  cases phase with
  | early _ _ _ _ => cases born
  | forkFailed error _ _ _ => cases born
  | forked _ _ _ _ _ => cases born
  | serverFailed error _ _ _ _ => cases born
  | started silent client server past started _ => exact .started silent client server past started rfl
  | execFailed error kind past started told =>
    refine .execFailed error kind past started ?_
    cases command with
    | reportClient left => exact ⟨.inl told.2.1, .inl told.2.2⟩
    | reportServer left => exact ⟨.inr told.2.1, .inl told.2.2⟩
    | exit => exact ⟨.inr told.1, .inr told.2⟩
    | exited => cases born
    | killed => cases born
    | _ => exact told.elim

end Phases

/-! ### One event keeps it -/

section Keeps

variable {cmd : List UInt8} {s after : Startup} {bad : Bool}

theorem Startup.Sound.unanswered (sound : s.Sound cmd) (held : s.held = true) :
    s.creator.answer = none := by
  cases same : s.creator.answer with
  | none => rfl
  | some read =>
    have free := (sound.created read same).1
    rw [held] at free
    cases free

theorem Startup.Sound.unserved (sound : s.Sound cmd) (holds : s.command.holds = true) :
    s.server.answer = none := by
  cases same : s.server.answer with
  | none => rfl
  | some read =>
    have free := (sound.served read same).1
    rw [holds] at free
    cases free

theorem Startup.held_of_middle (holds : s.middle.holds = true) : s.held = true := by
  simp [held, holds]

theorem Startup.held_of_server (holds : s.server.holds = true) : s.held = true := by
  simp [held, holds]

theorem Startup.held_of_command (holds : s.command.holds = true) : s.held = true := by
  simp [held, holds]

theorem Startup.Sound.file_of (sound : s.Sound cmd) (here : s.creator.unlinked = false)
    {next : CreatorPoint} (after : next.unlinked = false) : s.socket = !next.unlinked := by
  rw [sound.file, here, after]

theorem Startup.Sound.begun (sound : s.Sound cmd) (forked : s.creator.forked = true) :
    s.middle ≠ .unborn := by
  intro unborn
  rw [sound.born unborn] at forked
  cases forked

theorem Startup.Phase.unborn {message toClient toServer : List UInt8} {server : ServerPoint}
    {command : CommandPoint} (phase : Phase cmd message toClient toServer .unborn server command) :
    message = [] ∧ toClient = [] ∧ toServer = [] ∧ server = .unborn ∧ command = .unborn := by
  cases phase with
  | early silent client server _ => exact ⟨silent, client, server, rfl, rfl⟩
  | forkFailed error _ _ told => exact told.elim
  | forked _ _ _ past _ => cases past
  | serverFailed error _ _ past _ => cases past
  | started _ _ _ past _ _ => cases past
  | execFailed error _ past _ _ => cases past

theorem Startup.Sound.creatorGoes (sound : s.Sound cmd) {next : CreatorPoint}
    (here : s.creator.unlinked = false) (after : next.unlinked = false)
    (client : next.reads = true → next.buf ++ s.clientPipe = s.toClient)
    (answer : next.answer = none) (fair : next.Fair) (alone : next.alone = true → s.middle = .unborn)
    (born : s.middle = .unborn → next.forked = false) : Sound cmd { s with creator := next } :=
  { sound with
    client := client
    created := fun read same => by
      have same : next.answer = some read := same
      rw [answer] at same
      cases same
    creatorFair := fair
    alone := alone
    born := born
    file := sound.file_of here after }

theorem Startup.Sound.creatorEnds (sound : s.Sound cmd) {buf : List UInt8}
    (here : s.creator = .reading buf)
    (free : buf.length ≥ errormsgSize ∨ s.clientPipe = [] ∧ s.held = false) :
    Sound cmd { s with creator := .done buf } := by
  have flow : buf ++ s.clientPipe = s.toClient := by
    have flow := sound.client (by rw [here]; rfl)
    rwa [here] at flow
  obtain ⟨small, client, _⟩ := sound.phase.written
  have short : s.toClient.length < errormsgSize := by
    rcases client with silent | all
    · rw [silent]
      decide
    · rw [all]
      exact small
  have lengths := congrArg List.length flow
  rw [List.length_append] at lengths
  obtain ⟨empty, free⟩ := free.resolve_left (by omega)
  rw [empty, List.append_nil] at flow
  have begun : s.middle ≠ .unborn := sound.begun (by rw [here]; rfl)
  have unheld {next : CreatorPoint} (closed : next.holds = false) :
      ({ s with creator := next } : Startup).held = false := by
    have before : s.creator.holds = false := by rw [here]; rfl
    simp only [Startup.held, before, Bool.false_or] at free
    simp only [Startup.held, closed, Bool.false_or, free]
  have linked : s.creator.unlinked = false := by rw [here]; rfl
  rw [CreatorPoint.done]
  split
  · next silent =>
    exact { sound with
      client := fun reads => Bool.noConfusion reads
      created := fun read same => by
        obtain rfl : [] = read := Option.some.inj same
        exact ⟨unheld rfl, by rw [← flow, silent]⟩
      creatorFair := rfl
      alone := fun no => Bool.noConfusion no
      born := fun unborn => absurd unborn begun
      file := sound.file_of linked rfl }
  · next nonempty =>
    exact { sound with
      client := fun reads => Bool.noConfusion reads
      created := fun read same => by
        obtain rfl : buf = read := Option.some.inj same
        exact ⟨unheld rfl, flow⟩
      creatorFair := nonempty
      alone := fun no => Bool.noConfusion no
      born := fun unborn => absurd unborn begun
      file := sound.file_of linked rfl }

theorem Startup.Sound.serverEnds (sound : s.Sound cmd) {buf : List UInt8}
    (here : s.server = .reading buf)
    (free : buf.length ≥ errormsgSize ∨ s.serverPipe = [] ∧ s.command.holds = false) :
    Sound cmd { s with server := .done buf } := by
  have flow : buf ++ s.serverPipe = s.toServer := by
    have flow := sound.server (by rw [here]; rfl)
    rwa [here] at flow
  obtain ⟨small, _, server⟩ := sound.phase.written
  have short : s.toServer.length < errormsgSize := by
    rcases server with silent | all
    · rw [silent]
      decide
    · rw [all]
      exact small
  have lengths := congrArg List.length flow
  rw [List.length_append] at lengths
  obtain ⟨empty, free⟩ := free.resolve_left (by omega)
  rw [empty, List.append_nil] at flow
  have phase := sound.phase
  rw [here] at phase
  have held {next : ServerPoint} (closed : next.holds = false) (read : List UInt8)
      (same : s.creator.answer = some read) :
      ({ s with server := next } : Startup).held = false ∧ read = s.toClient := by
    obtain ⟨free, all⟩ := sound.created read same
    refine ⟨?_, all⟩
    have before : s.server.holds = false := by rw [here]; rfl
    simp only [Startup.held, before, Bool.or_false] at free
    simp only [Startup.held, closed, Bool.or_false, free]
  rw [ServerPoint.done]
  split
  · next silent =>
    exact { sound with
      phase := phase.serverGoes rfl rfl
      server := fun waits => Bool.noConfusion waits
      created := held rfl
      served := fun read same => by
        obtain rfl : [] = read := Option.some.inj same
        exact ⟨free, by rw [← flow, silent]⟩
      serverFair := rfl }
  · next nonempty =>
    exact { sound with
      phase := phase.serverGoes rfl rfl
      server := fun waits => Bool.noConfusion waits
      created := held rfl
      served := fun read same => by
        obtain rfl : buf = read := Option.some.inj same
        exact ⟨free, flow⟩
      serverFair := nonempty }

theorem Startup.Sound.notCreated (sound : s.Sound cmd) (held : s.held = true)
    {P : List UInt8 → Prop} : ∀ read, s.creator.answer = some read → P read := by
  intro read same
  rw [sound.unanswered held] at same
  cases same

theorem Startup.Sound.notServed (sound : s.Sound cmd) (holds : s.command.holds = true)
    {P : List UInt8 → Prop} : ∀ read, s.server.answer = some read → P read := by
  intro read same
  rw [sound.unserved holds] at same
  cases same

theorem Startup.Sound.writes (sound : s.Sound cmd) (reads : s.creator.reads = true)
    (message : List UInt8) :
    s.creator.buf ++ (s.clientPipe ++ message) = s.toClient ++ message := by
  rw [← List.append_assoc, sound.client reads]

theorem Startup.Sound.middleHappens (sound : s.Sound cmd) {next : MiddlePoint}
    {server : ServerPoint} {message toClient clientPipe : List UInt8} (holds : s.middle.holds = true)
    (born : next ≠ .unborn)
    (phase : Phase cmd message toClient s.toServer next server s.command)
    (client : s.creator.reads = true → s.creator.buf ++ clientPipe = toClient)
    (same : server = s.server ∨ s.server = .unborn ∧ server = .pipe) :
    Sound cmd { s with
      middle := next, server := server, message := message, toClient := toClient,
      clientPipe := clientPipe } := by
  have alive : s.middle ≠ .unborn := by
    intro unborn
    rw [unborn] at holds
    cases holds
  have held := held_of_middle holds
  refine ⟨phase, client, ?_, sound.notCreated held, ?_, sound.creatorFair, ?_,
    fun alone => absurd (sound.alone alone) alive, fun unborn => absurd unborn born, sound.file⟩
  · intro waits
    rcases same with rfl | ⟨unborn, rfl⟩
    · exact sound.server waits
    · have before := sound.server (by rw [unborn]; rfl)
      rwa [unborn] at before
  · rcases same with rfl | ⟨_, rfl⟩
    · exact sound.served
    · exact fun _ no => by cases no
  · rcases same with rfl | ⟨_, rfl⟩
    · exact sound.serverFair
    · exact trivial

theorem Startup.Sound.serverHappens (sound : s.Sound cmd) {next : ServerPoint}
    {message toClient clientPipe : List UInt8}
    (held : s.held = true ∨ next.holds = false ∧ toClient = s.toClient)
    (phase : Phase cmd message toClient s.toServer s.middle next s.command)
    (client : s.creator.reads = true → s.creator.buf ++ clientPipe = toClient)
    (server : next.waits = true → s.server.waits = true ∧ next.buf = s.server.buf)
    (answer : next.answer = none) (fair : next.Fair) :
    Sound cmd { s with
      server := next, message := message, toClient := toClient, clientPipe := clientPipe } := by
  refine ⟨phase, client, ?_, ?_, ?_, sound.creatorFair, fair, sound.alone, sound.born, sound.file⟩
  · intro waits
    obtain ⟨before, same⟩ := server waits
    rw [same]
    exact sound.server before
  · rcases held with held | ⟨closed, same⟩
    · exact sound.notCreated held
    · intro read answered
      obtain ⟨free, all⟩ := sound.created read answered
      refine ⟨?_, all.trans same.symm⟩
      have others := free
      simp only [Startup.held, Bool.or_eq_false_iff] at others ⊢
      exact ⟨⟨others.1.1, closed⟩, others.2⟩
  · intro read same
    have same : next.answer = some read := same
    rw [answer] at same
    cases same

theorem Startup.Sound.commandHappens (sound : s.Sound cmd) {next : CommandPoint}
    {message toClient clientPipe toServer serverPipe : List UInt8} (holds : s.command.holds = true)
    (phase : Phase cmd message toClient toServer s.middle s.server next)
    (client : s.creator.reads = true → s.creator.buf ++ clientPipe = toClient)
    (server : s.server.waits = true → s.server.buf ++ serverPipe = toServer) :
    Sound cmd { s with
      command := next, message := message, toClient := toClient, clientPipe := clientPipe,
      toServer := toServer, serverPipe := serverPipe } :=
  ⟨phase, client, server, sound.notCreated (held_of_command holds), sound.notServed holds,
    sound.creatorFair, sound.serverFair, sound.alone, sound.born, sound.file⟩

theorem Startup.Sound.happens (sound : s.Sound cmd) (happens : Happens cmd s bad after) :
    after.Sound cmd := by
  have phase := sound.phase
  cases happens with
  | stays => exact sound
  | refuses here =>
    exact sound.creatorGoes (by rw [here]; rfl) rfl (fun no => Bool.noConfusion no) rfl trivial
      (fun _ => sound.alone (by rw [here]; rfl)) fun _ => rfl
  | forks here =>
    have unborn := sound.alone (by rw [here]; rfl)
    rw [unborn] at phase
    obtain ⟨silent, client, server, opening, unborn'⟩ := phase.unborn
    have flow := sound.client (by rw [here]; rfl)
    rw [here] at flow
    refine { sound with
      phase := ?_
      client := fun _ => flow
      created := fun _ no => by cases no
      creatorFair := trivial
      alone := fun no => Bool.noConfusion no
      born := fun no => MiddlePoint.noConfusion no
      file := sound.file_of (by rw [here]; rfl) rfl }
    change Phase cmd s.message s.toClient s.toServer .fork s.server s.command
    rw [opening, unborn']
    exact .early silent client server (.inr (.inl rfl))
  | closes here =>
    have begun : s.middle ≠ .unborn := sound.begun (by rw [here]; rfl)
    have flow := sound.client (by rw [here]; rfl)
    rw [here] at flow
    exact sound.creatorGoes (by rw [here]; rfl) rfl (fun _ => flow) rfl trivial
      (fun no => Bool.noConfusion no) fun unborn => absurd unborn begun
  | waits here =>
    have begun : s.middle ≠ .unborn := sound.begun (by rw [here]; rfl)
    have flow := sound.client (by rw [here]; rfl)
    rw [here] at flow
    exact sound.creatorGoes (by rw [here]; rfl) rfl (fun _ => flow) rfl trivial
      (fun no => Bool.noConfusion no) fun unborn => absurd unborn begun
  | reads buf bytes later here split _ =>
    have begun : s.middle ≠ .unborn := sound.begun (by rw [here]; rfl)
    have flow := sound.client (by rw [here]; rfl)
    rw [here, split] at flow
    exact { sound with
      client := fun _ => (List.append_assoc _ _ _).trans flow
      created := fun _ no => by cases no
      creatorFair := trivial
      alone := fun no => Bool.noConfusion no
      born := fun unborn => absurd unborn begun
      file := sound.file_of (by rw [here]; rfl) rfl }
  | ends buf here free => exact sound.creatorEnds here free
  | readFails buf here =>
    have begun : s.middle ≠ .unborn := sound.begun (by rw [here]; rfl)
    exact sound.creatorGoes (by rw [here]; rfl) rfl (fun no => Bool.noConfusion no) rfl trivial
      (fun no => Bool.noConfusion no) fun unborn => absurd unborn begun
  | unlinks buf here =>
    have begun : s.middle ≠ .unborn := sound.begun (by rw [here]; rfl)
    have answer := sound.created
    have fair := sound.creatorFair
    simp only [Startup.held] at answer
    rw [here] at answer fair
    exact { sound with
      client := fun no => Bool.noConfusion no
      created := answer
      creatorFair := fair
      alone := fun no => Bool.noConfusion no
      born := fun unborn => absurd unborn begun
      file := rfl }
  | killCreator listening =>
    have linked : s.creator.unlinked = false := by
      cases here : s.creator with
      | failed buf => rw [here] at listening; cases listening
      | _ => rfl
    exact sound.creatorGoes linked rfl (fun no => Bool.noConfusion no) rfl trivial
      (fun no => Bool.noConfusion no) fun _ => rfl
  | middleFails error here =>
    rw [here] at phase
    obtain ⟨_, client, server, opening, unborn⟩ := phase.middleFork
    refine sound.middleHappens (by rw [here]; rfl) (fun no => MiddlePoint.noConfusion no) ?_
      sound.client (.inl rfl)
    rw [opening, unborn]
    exact .forkFailed error rfl server ⟨rfl, client⟩
  | middleForks here =>
    rw [here] at phase
    obtain ⟨silent, client, server, opening, unborn⟩ := phase.middleFork
    refine sound.middleHappens (by rw [here]; rfl) (fun no => MiddlePoint.noConfusion no) ?_
      sound.client (.inr ⟨opening, rfl⟩)
    rw [unborn]
    exact .forked silent client server rfl rfl
  | middleReports message here listening =>
    rw [here] at phase
    obtain ⟨⟨error, kind⟩, rfl, client, server, opening, unborn⟩ := phase.middleReport
    refine sound.middleHappens (by rw [here]; rfl) (fun no => MiddlePoint.noConfusion no) ?_
      (fun _ => sound.writes listening _) (.inl rfl)
    rw [opening, unborn]
    exact .forkFailed error kind server (by rw [client]; rfl)
  | middleExits here =>
    rw [here] at phase
    exact sound.middleHappens (by rw [here]; rfl) (fun no => MiddlePoint.noConfusion no)
      phase.middleExits sound.client (.inl rfl)
  | middleStops _ holds _ =>
    exact sound.middleHappens holds (fun no => MiddlePoint.noConfusion no) (phase.middleStops holds)
      sound.client (.inl rfl)
  | serverFails message here =>
    have opens : s.server = .pipe ∨ s.server = .forkpty := here.imp And.left And.left
    have kind : ∃ error, message = pipeMessage error ∨ message = errormsg (forkptyMessage error) := by
      rcases here with ⟨_, error, kind⟩ | ⟨_, error, kind⟩
      · exact ⟨error, .inl kind⟩
      · exact ⟨error, .inr kind⟩
    obtain ⟨error, kind⟩ := kind
    obtain ⟨_, client, server, past, unborn⟩ := phase.serverOpens opens
    refine sound.serverHappens (.inl (held_of_server ?_)) ?_ sound.client ?_ rfl trivial
    · rcases opens with here | here <;> rw [here] <;> rfl
    · rw [unborn]
      exact .serverFailed error kind server past ⟨rfl, client⟩
    · rcases opens with here | here <;> rw [here] <;> exact fun _ => ⟨rfl, rfl⟩
  | pipes here =>
    obtain ⟨silent, client, server, past, unborn⟩ := phase.serverOpens (.inl here)
    refine sound.serverHappens (.inl (held_of_server (by rw [here]; rfl))) ?_ sound.client ?_ rfl trivial
    · rw [unborn]
      exact .forked silent client server past rfl
    · rw [here]
      exact fun _ => ⟨rfl, rfl⟩
  | forkptys here =>
    obtain ⟨silent, client, server, past, _⟩ := phase.serverOpens (.inr here)
    have flow := sound.server (by rw [here]; rfl)
    rw [here] at flow
    exact { sound with
      phase := .started silent client server past rfl rfl
      server := fun _ => flow
      created := sound.notCreated (held_of_server (by rw [here]; rfl))
      served := fun _ no => by cases no
      serverFair := trivial }
  | serverReports message here listening =>
    rw [here] at phase
    obtain ⟨⟨error, kind⟩, rfl, client, server, past, unborn⟩ := phase.serverReport
    refine sound.serverHappens (.inl (held_of_server (by rw [here]; rfl))) ?_
      (fun _ => sound.writes listening _) ?_ rfl trivial
    · rw [unborn]
      exact .serverFailed error kind server past (by rw [client]; rfl)
    · rw [here]
      exact fun _ => ⟨rfl, rfl⟩
  | serverMoves next moves =>
    generalize here : s.server = point at moves
    cases moves with
    | exits =>
      rw [here] at phase
      exact sound.serverHappens (.inr ⟨rfl, rfl⟩) phase.serverExits sound.client
        (fun no => Bool.noConfusion no) rfl trivial
    | chdir =>
      refine sound.serverHappens (.inl (held_of_server (by rw [here]; rfl)))
        (phase.serverGoes (by rw [here]; rfl) rfl) sound.client ?_ rfl trivial
      rw [here]
      exact fun _ => ⟨rfl, rfl⟩
    | closesClient =>
      refine sound.serverHappens (.inr ⟨rfl, rfl⟩) (phase.serverGoes (by rw [here]; rfl) rfl)
        sound.client ?_ rfl trivial
      rw [here]
      exact fun _ => ⟨rfl, rfl⟩
    | closesServer =>
      refine sound.serverHappens (.inr ⟨rfl, rfl⟩) (phase.serverGoes (by rw [here]; rfl) rfl)
        sound.client ?_ rfl trivial
      rw [here]
      exact fun _ => ⟨rfl, rfl⟩
  | chdirFails here =>
    refine sound.serverHappens (.inl (held_of_server (by rw [here]; rfl)))
      (phase.serverGoes (by rw [here]; rfl) rfl) sound.client ?_ rfl trivial
    rw [here]
    exact fun _ => ⟨rfl, rfl⟩
  | serverReads buf bytes later here split _ =>
    have flow := sound.server (by rw [here]; rfl)
    rw [here, split] at flow
    have created := sound.created
    simp only [Startup.held] at created
    rw [here] at created
    exact { sound with
      phase := phase.serverGoes (by rw [here]; rfl) rfl
      server := fun _ => (List.append_assoc _ _ _).trans flow
      created := created
      served := fun _ no => by cases no
      serverFair := trivial }
  | serverEnds buf here free => exact sound.serverEnds here free
  | serverReadFails buf here =>
    exact sound.serverHappens (.inr ⟨rfl, rfl⟩) (phase.serverGoes (by rw [here]; rfl) rfl)
      sound.client (fun no => Bool.noConfusion no) rfl trivial
  | serverStops _ born _ =>
    exact sound.serverHappens (.inr ⟨rfl, rfl⟩) (phase.serverStops born) sound.client
      (fun no => Bool.noConfusion no) rfl trivial
  | marks here =>
    obtain ⟨silent, client, server, past, started⟩ := phase.commandTries (.inl here)
    exact sound.commandHappens (by rw [here]; rfl) (.started silent client server past started rfl)
      sound.client sound.server
  | marksBoth here =>
    obtain ⟨silent, client, server, past, started⟩ := phase.commandTries (.inr (.inl here))
    exact sound.commandHappens (by rw [here]; rfl) (.started silent client server past started rfl)
      sound.client sound.server
  | executes here =>
    obtain ⟨silent, client, server, past, started⟩ := phase.commandTries (.inr (.inr here))
    exact sound.commandHappens (by rw [here]; rfl) (.started silent client server past started rfl)
      sound.client sound.server
  | commandFails error here =>
    obtain ⟨silent, client, server, past, started⟩ := phase.commandTries here
    refine sound.commandHappens ?_ (.execFailed error rfl past started ⟨rfl, client, server⟩)
      sound.client sound.server
    rcases here with here | here | here <;> rw [here] <;> rfl
  | commandReports message here listening =>
    rw [here] at phase
    obtain ⟨⟨error, kind⟩, past, started, rfl, client, server⟩ := phase.commandFailed rfl rfl
    refine sound.commandHappens (by rw [here]; rfl)
      (.execFailed error kind past started ⟨rfl, ?_, server⟩) (fun _ => sound.writes listening _)
      sound.server
    rw [client]
    rfl
  | commandTells message here listening =>
    rw [here] at phase
    obtain ⟨⟨error, kind⟩, past, started, rfl, client, server⟩ := phase.commandFailed rfl rfl
    refine sound.commandHappens (by rw [here]; rfl)
      (.execFailed error kind past started ⟨client, ?_⟩) sound.client ?_
    · rw [server]
      rfl
    · intro waits
      rw [← List.append_assoc, sound.server waits]
  | commandExits here =>
    rw [here] at phase
    obtain ⟨⟨error, kind⟩, past, started, told⟩ := phase.commandFailed rfl rfl
    exact sound.commandHappens (by rw [here]; rfl) (.execFailed error kind past started told)
      sound.client sound.server
  | commandStops _ holds _ =>
    exact sound.commandHappens holds (phase.commandStops holds) sound.client sound.server

end Keeps

theorem Startup.run_sound (cmd : List UInt8) (events : List StartupEvent) :
    (runSteps (Startup.step cmd) events Startup.start).Sound cmd := by
  have always : Along (Startup.step cmd) (fun _ _ => True) events Startup.start :=
    along_of_forall (fun _ _ => trivial) _ _
  exact always.invariant (fun s event _ sound => sound.happens (Startup.step_happens cmd event s))
    (Startup.sound_start cmd)

/-! ## What the creator and the server are told -/

section Told

variable {cmd message toClient toServer : List UInt8} {s : Startup}

theorem errormsg_ne {text : List UInt8} (nonempty : text ≠ []) : errormsg text ≠ [] :=
  take_ne_nil (by decide) nonempty

theorem forkMessage_ne (error : List UInt8) : forkMessage error ≠ [] :=
  errormsg_ne (List.append_ne_nil_of_right_ne_nil _ (by decide))

theorem pipeMessage_ne (error : List UInt8) : pipeMessage error ≠ [] :=
  errormsg_ne (List.append_ne_nil_of_right_ne_nil _ (by decide))

theorem MiddlePoint.Told.ended {middle : MiddlePoint} (told : middle.Told message toClient)
    (free : middle.holds = false) : toClient = message ∧ middle = .exited ∨ middle = .killed := by
  cases middle with
  | exited => exact .inl ⟨told, rfl⟩
  | killed => exact .inr rfl
  | unborn => exact told.elim
  | fork => cases free
  | report left => cases free
  | exit => cases free

theorem ServerPoint.Told.ended {server : ServerPoint} (told : server.Told message toClient)
    (free : server.holds = false) : toClient = message ∧ server = .exited ∨ server = .killed := by
  cases server with
  | exited => exact .inl ⟨told, rfl⟩
  | killed => exact .inr rfl
  | report left => cases free
  | exit => cases free
  | _ => exact told.elim

theorem CommandPoint.Told.ended {command : CommandPoint}
    (told : command.Told message toClient toServer) (free : command.holds = false) :
    (toClient = message ∧ toServer = message) ∧ command = .exited ∨ command = .killed := by
  cases command with
  | exited => exact .inl ⟨told, rfl⟩
  | killed => exact .inr rfl
  | reportClient left => cases free
  | reportServer left => cases free
  | exit => cases free
  | _ => exact told.elim

theorem CommandPoint.trying_ended {command : CommandPoint} (trying : command.trying = true)
    (free : command.holds = false) : command = .running ∨ command = .killed := by
  cases command with
  | running => exact .inl rfl
  | killed => exact .inr rfl
  | fcntlClient => cases free
  | fcntlServer => cases free
  | execvp => cases free
  | _ => cases trying

theorem ServerPoint.opening_ended {server : ServerPoint} (opening : server.opening = true)
    (free : server.holds = false) : server = .killed := by
  cases server with
  | killed => rfl
  | pipe => cases free
  | forkpty => cases free
  | _ => cases opening

theorem Startup.Sound.serves (sound : s.Sound cmd) {read : List UInt8}
    (here : s.server = .mainloop (some read)) : s.command = .running ∨ s.command = .killed := by
  obtain ⟨free, all⟩ := sound.served read (by rw [here]; rfl)
  have silent : read = [] := by
    have fair := sound.serverFair
    rwa [here] at fair
  rw [silent] at all
  have phase := sound.phase
  rw [here, ← all] at phase
  generalize s.command = command at phase free
  cases phase with
  | forked _ _ _ _ opening => cases opening
  | serverFailed error _ _ _ told => exact told.elim
  | started _ _ _ _ _ trying => exact CommandPoint.trying_ended trying free
  | execFailed error kind _ _ told =>
    rcases told.ended free with ⟨⟨_, silent⟩, _⟩ | killed
    · exact absurd (silent.trans kind).symm (errormsg_ne (execvpMessage_ne cmd error))
    · exact .inr killed

theorem Startup.Sound.freed (sound : s.Sound cmd) {read : List UInt8}
    (answer : s.creator.answer = some read) :
    s.middle.holds = false ∧ s.server.holds = false ∧ s.command.holds = false ∧ s.toClient = read := by
  obtain ⟨free, all⟩ := sound.created read answer
  simp only [Startup.held, Bool.or_eq_false_iff] at free
  exact ⟨free.1.1.2, free.1.2, free.2, all.symm⟩

theorem Startup.Sound.creates (sound : s.Sound cmd) {read : List UInt8}
    (here : s.creator = .returned (some read)) :
    s.command = .running ∨ s.command = .killed ∨
      s.command = .unborn ∧ (s.middle = .killed ∨ s.server = .killed) := by
  obtain ⟨middleFree, serverFree, commandFree, all⟩ := sound.freed (by rw [here]; rfl)
  have silent : read = [] := by
    have fair := sound.creatorFair
    rwa [here] at fair
  rw [silent] at all
  have begun : s.middle ≠ .unborn := sound.begun (by rw [here]; rfl)
  have phase := sound.phase
  rw [all] at phase
  generalize s.command = command, s.server = server, s.middle = middle at *
  cases phase with
  | early _ _ _ point =>
    rcases point with rfl | rfl | killed
    · exact absurd rfl begun
    · cases middleFree
    · exact .inr (.inr ⟨rfl, .inl killed⟩)
  | forkFailed error kind _ told =>
    rcases told.ended middleFree with ⟨silent, _⟩ | killed
    · exact absurd (silent.trans kind).symm (forkMessage_ne error)
    · exact .inr (.inr ⟨rfl, .inl killed⟩)
  | forked _ _ _ _ opening =>
    exact .inr (.inr ⟨rfl, .inr (ServerPoint.opening_ended opening serverFree)⟩)
  | serverFailed error kind _ _ told =>
    rcases told.ended serverFree with ⟨silent, _⟩ | killed
    · rcases kind with kind | kind
      · exact absurd (silent.trans kind).symm (pipeMessage_ne error)
      · exact absurd (silent.trans kind).symm (errormsg_ne (forkptyMessage_ne error))
    · exact .inr (.inr ⟨rfl, .inr killed⟩)
  | started _ _ _ _ _ trying => exact (CommandPoint.trying_ended trying commandFree).imp_right .inl
  | execFailed error kind _ _ told =>
    rcases told.ended commandFree with ⟨⟨silent, _⟩, _⟩ | killed
    · exact absurd (silent.trans kind).symm (errormsg_ne (execvpMessage_ne cmd error))
    · exact .inr (.inl killed)

theorem Startup.Sound.refuses (sound : s.Sound cmd) {read : List UInt8}
    (here : s.creator = .failed read) : s.socket = false ∧ read ≠ [] ∧ ∃ error,
      (read = forkMessage error ∧ (s.middle = .exited ∨ s.middle = .killed) ∧
        s.server = .unborn ∧ s.command = .unborn) ∨
      ((read = pipeMessage error ∨ read = errormsg (forkptyMessage error)) ∧
        (s.server = .exited ∨ s.server = .killed) ∧ s.command = .unborn) ∨
      read = errormsg (execvpMessage cmd error) ∧ (s.command = .exited ∨ s.command = .killed) := by
  obtain ⟨middleFree, serverFree, commandFree, all⟩ := sound.freed (by rw [here]; rfl)
  have nonempty : read ≠ [] := by
    have fair := sound.creatorFair
    rwa [here] at fair
  have file : s.socket = false := by
    rw [sound.file, here]
    rfl
  refine ⟨file, nonempty, ?_⟩
  have phase := sound.phase
  obtain ⟨_, written, _⟩ := phase.written
  have whole : s.message = read := by
    rcases written with silent | whole
    · exact absurd (all.symm.trans silent) nonempty
    · exact whole.symm.trans all
  rw [all, whole] at phase
  generalize s.command = command, s.server = server, s.middle = middle at *
  cases phase with
  | early silent _ _ _ => exact absurd silent nonempty
  | forkFailed error kind _ told =>
    exact ⟨error, .inl ⟨kind, (told.ended middleFree).imp_left And.right, rfl, rfl⟩⟩
  | forked silent _ _ _ _ => exact absurd silent nonempty
  | serverFailed error kind _ _ told =>
    exact ⟨error, .inr (.inl ⟨kind, (told.ended serverFree).imp_left And.right, rfl⟩)⟩
  | started silent _ _ _ _ _ => exact absurd silent nonempty
  | execFailed error kind _ _ told =>
    exact ⟨error, .inr (.inr ⟨kind, (told.ended commandFree).imp_left And.right⟩)⟩

end Told

/-- Whatever the order of the processes' steps, and whoever is killed: a server goes into
its loop, with nothing read, only for a command that was executed or killed; the creator
takes the session for started only if it is, or a process was killed; and the message
that it shows instead is the whole of one that a process failed with, which is gone. -/
theorem startup_agrees (cmd : List UInt8) (events : List StartupEvent) :
    let s := runSteps (Startup.step cmd) events Startup.start
    (∀ read, s.server = .mainloop (some read) → s.command = .running ∨ s.command = .killed) ∧
    (∀ read, s.creator = .returned (some read) →
      s.command = .running ∨ s.command = .killed ∨
        s.command = .unborn ∧ (s.middle = .killed ∨ s.server = .killed)) ∧
    ∀ message, s.creator = .failed message → s.socket = false ∧ message ≠ [] ∧ ∃ error,
      (message = forkMessage error ∧ (s.middle = .exited ∨ s.middle = .killed) ∧
        s.server = .unborn ∧ s.command = .unborn) ∨
      ((message = pipeMessage error ∨ message = errormsg (forkptyMessage error)) ∧
        (s.server = .exited ∨ s.server = .killed) ∧ s.command = .unborn) ∨
      message = errormsg (execvpMessage cmd error) ∧
        (s.command = .exited ∨ s.command = .killed) := by
  intro s
  have sound : s.Sound cmd := Startup.run_sound cmd events
  exact ⟨fun _ => sound.serves, fun _ => sound.creates, fun _ => sound.refuses⟩

def enoentEvents : List StartupEvent :=
  let ok : Call := ⟨none, 254⟩
  let enoent : Call := ⟨some (ascii "no file"), 0⟩
  [.creator ok, .middle ok, .server ok, .server ok, .command ok, .command ok, .creator ok,
    .command enoent, .middle ok, .command ok, .server ok, .server ok, .command ok, .creator ok,
    .creator ⟨none, 4⟩, .server ok, .command ok, .server ok, .server ok, .creator ok, .creator ok,
    .creator ok]

def enoentEnd : Startup :=
  let message := ascii "server-execvp: ls: no file\n"
  ⟨.failed message, .exited, .refused message, .exited, false, [], [], message, message, message⟩

theorem startup_agrees_enoent :
    (runSteps (Startup.step (ascii "ls")) enoentEvents Startup.start).socket = false ∧
      (runSteps (Startup.step (ascii "ls")) enoentEvents Startup.start).command = .exited := by
  have ended : runSteps (Startup.step (ascii "ls")) enoentEvents Startup.start = enoentEnd := by decide
  obtain ⟨file, _, error, ⟨_, _, unborn, _⟩ | ⟨_, _, unborn⟩ | ⟨_, exited | killed⟩⟩ :=
    (startup_agrees (ascii "ls") enoentEvents).2.2 _ (by rw [ended]; rfl)
  · rw [ended] at unborn
    cases unborn
  · rw [ended] at unborn
    cases unborn
  · exact ⟨file, exited⟩
  · rw [ended] at killed
    cases killed

end Lich.C
