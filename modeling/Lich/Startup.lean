import Lich.C.Keys
import Lich.Sockets
import Lich.Foundation.Runs
import Mathlib.Data.List.DropRight
import Mathlib.Data.Prod.Lex
import Mathlib.Order.WellFounded

/-! How `create_session` learns whether its session has started.

The server and the process that becomes the command share the writing end of a
pipe. Either reports an error through it; the command's copy closes on `execvp`.
The creator reads up to the end: nothing there means that all is well, and what is
there is the text of its error.
-/

set_option autoImplicit false

namespace Lich

open Foundation

/-! ## The text of an error -/

def continues (byte : UInt8) : Bool := byte &&& 0xc0 == 0x80

/-- The second byte of a character: it is encoded no longer than need be, is no surrogate,
and not beyond U+10FFFF. -/
def continuesAfter (first second : UInt8) : Bool :=
  if first = 0xe0 then decide (0xa0 ≤ second ∧ second ≤ 0xbf)
  else if first = 0xed then decide (0x80 ≤ second ∧ second ≤ 0x9f)
  else if first = 0xf0 then decide (0x90 ≤ second ∧ second ≤ 0xbf)
  else if first = 0xf4 then decide (0x80 ≤ second ∧ second ≤ 0x8f)
  else continues second

/-- How many bytes a character has that starts with this one, if it has more than one. -/
def utf8Width (first : UInt8) : Nat :=
  if first ≤ 0xdf then 2 else if first ≤ 0xef then 3 else 4

/-- The character with the bits of these bytes, six of each but the first. -/
def charOf (bits : UInt8) (more : List UInt8) : Char :=
  Char.ofNat (more.foldl (fun code byte => code * 64 + (byte &&& 0x3f).toNat) bits.toNat)

def replacementCharacter : Char := Char.ofNat 0xfffd

/-- What a byte gives at the start of a character, and what it leaves to be completed. -/
def utf8Start (byte : UInt8) : List Char × List UInt8 :=
  if byte < 0x80 then ([charOf byte []], [])
  else if 0xc2 ≤ byte ∧ byte ≤ 0xf4 then ([], [byte])
  else ([replacementCharacter], [])

/-- A character that is not completed is replaced, as one, and the byte starts another. -/
def utf8Step (pending : List UInt8) (byte : UInt8) : List Char × List UInt8 :=
  match pending with
  | [] => utf8Start byte
  | first :: more =>
    if if more = [] then continuesAfter first byte else continues byte then
      let more := more ++ [byte]
      if more.length + 1 < utf8Width first then ([], first :: more)
      else ([charOf (first &&& (0x7f >>> (more.length + 1).toUInt8)) more], [])
    else (replacementCharacter :: (utf8Start byte).1, (utf8Start byte).2)

/-- `String::from_utf8_lossy`, behind bytes of a character to be completed. -/
def fromUtf8Lossy : (pending : List UInt8) → List UInt8 → List Char
  | pending, [] => if pending = [] then [] else [replacementCharacter]
  | pending, byte :: bytes =>
    let (chars, pending) := utf8Step pending byte
    chars ++ fromUtf8Lossy pending bytes

def isWhitespace (char : Char) : Bool :=
  let code := char.toNat
  decide (9 ≤ code ∧ code ≤ 13 ∨ 0x2000 ≤ code ∧ code ≤ 0x200a) ||
    code ∈ [0x20, 0x85, 0xa0, 0x1680, 0x2028, 0x2029, 0x202f, 0x205f, 0x3000]

def trimEnd (text : List Char) : List Char := text.rdropWhile isWhitespace

def statusText (buf : List UInt8) : List Char := trimEnd (fromUtf8Lossy [] buf)

-- a euro sign, and one that was cut short
example : statusText [0x61, 0xe2, 0x82, 0xac, 0xe2, 0x82, 0x20, 0x0a] =
    ['a', Char.ofNat 0x20ac, replacementCharacter] := by
  decide

/-! ## The processes -/

/-- What the server does next, as far as the pipe goes. -/
inductive ServerPoint where
  | forkpty
  /-- in `fd_write_all`, with what is left of the message -/
  | report (left : List UInt8)
  /-- `close(startup_fd)` -/
  | close (failed : Bool)
  /-- in `server_loop`, or returning the error -/
  | closed (failed : Bool)
  | killed
  deriving DecidableEq

/-- What the other process of `forkpty` does next. -/
inductive CommandPoint where
  | unborn
  /-- `fcntl` -/
  | cloexec
  | execvp
  | report (left : List UInt8)
  /-- `_exit` -/
  | exit
  /-- the command itself -/
  | running
  | exited
  | killed
  deriving DecidableEq

/-- How `read_startup_status` returns. -/
inductive StartupStatus where
  | ok
  | failed (text : List Char)
  | readFailed (kind : ErrorKind)
  deriving DecidableEq

inductive CreatorPoint where
  | reading (buf : List UInt8)
  | returned (status : StartupStatus)
  | killed
  deriving DecidableEq

structure Startup where
  server : ServerPoint
  command : CommandPoint
  creator : CreatorPoint
  /-- what was written to the pipe and not read -/
  pipe : List UInt8
  /-- the message that a process has set out to report -/
  message : List UInt8
  /-- all that was written to the pipe -/
  reported : List UInt8
  deriving DecidableEq

def Startup.start : Startup := ⟨.forkpty, .unborn, .reading [], [], [], []⟩

def forkptyMessage (error : List UInt8) : List UInt8 := ascii "server-forkpty: " ++ error ++ ascii "\n"

def execvpMessage (cmd error : List UInt8) : List UInt8 :=
  ascii "server-execvp: " ++ cmd ++ ascii ": " ++ error ++ ascii "\n"

def pipeSize : Nat := 65536

/-- What the kernel chooses at a write or a read of the pipe: so many bytes and one
more, as far as there are. -/
inductive PipeMove where
  | data (more : Nat)
  | interrupted

def ServerPoint.holds : ServerPoint → Bool
  | .forkpty | .report _ | .close _ => true
  | .closed _ | .killed => false

def CommandPoint.holds : CommandPoint → Bool
  | .cloexec | .execvp | .report _ | .exit => true
  | .unborn | .running | .exited | .killed => false

def Startup.held (s : Startup) : Bool := s.server.holds || s.command.holds

def CreatorPoint.reads : CreatorPoint → Bool
  | .reading _ => true
  | _ => false

/-- One round of `fd_write_all`, and what it has left to write if it goes on. A write
waits while the pipe is full, and fails once nobody reads. -/
def Startup.reportStep (move : PipeMove) (left : List UInt8) (s : Startup) :
    Option (List UInt8) × Startup :=
  if left = [] then (none, s)
  else if s.creator.reads then
    match move with
    | .interrupted => (some left, s)
    | .data more =>
      let count := min (more + 1) (pipeSize - s.pipe.length)
      (some (left.drop count),
        { s with pipe := s.pipe ++ left.take count, reported := s.reported ++ left.take count })
  else (none, s)

inductive StartupEvent where
  | forkpty (error : Option (List UInt8))
  | serverWrites (move : PipeMove)
  | serverCloses
  | fcntl
  | execvp (error : Option (List UInt8))
  | commandWrites (move : PipeMove)
  | exits
  /-- a read of the creator's, or the error that it returns -/
  | reads (move : Except ErrorKind PipeMove)
  | killServer
  | killCommand
  | killCreator

/-- A call that does not fail, of a process that is not killed. -/
def StartupEvent.succeeds : StartupEvent → Bool
  | .forkpty error | .execvp error => error.isNone
  | .reads (.error _) | .killServer | .killCommand | .killCreator => false
  | _ => true

def Startup.step (cmd : List UInt8) (event : StartupEvent) (s : Startup) : Startup :=
  match event with
  | .forkpty error =>
    if s.server = .forkpty then
      match error with
      | some error =>
        { s with server := .report (forkptyMessage error), message := forkptyMessage error }
      | none => { s with server := .close false, command := .cloexec }
    else s
  | .serverWrites move =>
    match s.server with
    | .report left =>
      match s.reportStep move left with
      | (some left, s) => { s with server := .report left }
      | (none, s) => { s with server := .close true }
    | _ => s
  | .serverCloses =>
    match s.server with
    | .close failed => { s with server := .closed failed }
    | _ => s
  | .fcntl => if s.command = .cloexec then { s with command := .execvp } else s
  | .execvp error =>
    if s.command = .execvp then
      match error with
      | some error =>
        { s with
          command := .report (execvpMessage cmd error)
          message := execvpMessage cmd error }
      | none => { s with command := .running }
    else s
  | .commandWrites move =>
    match s.command with
    | .report left =>
      match s.reportStep move left with
      | (some left, s) => { s with command := .report left }
      | (none, s) => { s with command := .exit }
    | _ => s
  | .exits => if s.command = .exit then { s with command := .exited } else s
  | .reads move =>
    match s.creator with
    | .reading buf =>
      match move with
      | .error kind => { s with creator := .returned (.readFailed kind) }
      | .ok .interrupted => s
      | .ok (.data more) =>
        if s.pipe = [] then
          -- a read waits while the pipe is empty and a writing end is open
          if s.held then s
          else { s with creator := .returned (if buf = [] then .ok else .failed (statusText buf)) }
        else
          let count := min (more + 1) 256
          { s with creator := .reading (buf ++ s.pipe.take count), pipe := s.pipe.drop count }
    | _ => s
  | .killServer => { s with server := .killed }
  | .killCommand =>
    -- the command itself has nothing to do with the pipe
    if s.command.holds then { s with command := .killed } else s
  | .killCreator => if s.creator.reads then { s with creator := .killed } else s

/-! ## What an event can do -/

/-- The changes that there are, each with the state in which it happens. -/
inductive Startup.Happens (cmd : List UInt8) : Startup → Startup → Prop where
  | nothing (s : Startup) : Happens cmd s s
  | forkFails {s : Startup} (error : List UInt8) : s.server = .forkpty →
      Happens cmd s
        { s with server := .report (forkptyMessage error), message := forkptyMessage error }
  | forks {s : Startup} : s.server = .forkpty →
      Happens cmd s { s with server := .close false, command := .cloexec }
  | serverReports {s : Startup} (bytes left : List UInt8) : s.server = .report (bytes ++ left) →
      bytes ≠ [] → s.creator.reads = true →
      Happens cmd s { s with
        server := .report left, pipe := s.pipe ++ bytes, reported := s.reported ++ bytes }
  | serverReported {s : Startup} (left : List UInt8) : s.server = .report left →
      left = [] ∨ s.creator.reads = false → Happens cmd s { s with server := .close true }
  | serverCloses {s : Startup} (failed : Bool) : s.server = .close failed →
      Happens cmd s { s with server := .closed failed }
  | fcntl {s : Startup} : s.command = .cloexec → Happens cmd s { s with command := .execvp }
  | executes {s : Startup} : s.command = .execvp → Happens cmd s { s with command := .running }
  | execFails {s : Startup} (error : List UInt8) : s.command = .execvp →
      Happens cmd s { s with
        command := .report (execvpMessage cmd error), message := execvpMessage cmd error }
  | commandReports {s : Startup} (bytes left : List UInt8) : s.command = .report (bytes ++ left) →
      bytes ≠ [] → s.creator.reads = true →
      Happens cmd s { s with
        command := .report left, pipe := s.pipe ++ bytes, reported := s.reported ++ bytes }
  | commandReported {s : Startup} (left : List UInt8) : s.command = .report left →
      left = [] ∨ s.creator.reads = false → Happens cmd s { s with command := .exit }
  | exits {s : Startup} : s.command = .exit → Happens cmd s { s with command := .exited }
  | reads {s : Startup} (buf bytes later : List UInt8) : s.creator = .reading buf →
      s.pipe = bytes ++ later → bytes ≠ [] →
      Happens cmd s { s with creator := .reading (buf ++ bytes), pipe := later }
  | ends {s : Startup} (buf : List UInt8) : s.creator = .reading buf → s.pipe = [] →
      s.held = false →
      Happens cmd s
        { s with creator := .returned (if buf = [] then .ok else .failed (statusText buf)) }
  | readFails {s : Startup} (buf : List UInt8) (kind : ErrorKind) : s.creator = .reading buf →
      Happens cmd s { s with creator := .returned (.readFailed kind) }
  | killServer (s : Startup) : Happens cmd s { s with server := .killed }
  | killCommand {s : Startup} : s.command.holds = true →
      Happens cmd s { s with command := .killed }
  | killCreator {s : Startup} : s.creator.reads = true →
      Happens cmd s { s with creator := .killed }

theorem Startup.reportStep_cases (move : PipeMove) (left : List UInt8) (s : Startup) :
    s.reportStep move left = (some left, s) ∨
    (left = [] ∨ s.creator.reads = false) ∧ s.reportStep move left = (none, s) ∨
    ∃ bytes rest, left = bytes ++ rest ∧ bytes ≠ [] ∧ s.creator.reads = true ∧
      s.reportStep move left = (some rest,
        { s with pipe := s.pipe ++ bytes, reported := s.reported ++ bytes }) := by
  unfold reportStep
  by_cases silent : left = []
  · rw [if_pos silent]
    exact .inr (.inl ⟨.inl silent, rfl⟩)
  · rw [if_neg silent]
    cases listening : s.creator.reads with
    | false => exact .inr (.inl ⟨.inr rfl, rfl⟩)
    | true =>
      cases move with
      | interrupted => exact .inl rfl
      | data more =>
        simp only [if_true]
        by_cases full : min (more + 1) (pipeSize - s.pipe.length) = 0
        · rw [full]
          exact .inl (by simp)
        · refine .inr (.inr ⟨_, _, (List.take_append_drop _ _).symm, ?_, trivial, rfl⟩)
          rw [ne_eq, List.take_eq_nil_iff]
          exact fun either => either.elim full silent

theorem Startup.step_happens (cmd : List UInt8) (event : StartupEvent) (s : Startup) :
    Startup.Happens cmd s (s.step cmd event) := by
  cases event with
  | forkpty error =>
    unfold step
    dsimp only
    split
    · next here =>
      cases error with
      | some error => exact .forkFails error here
      | none => exact .forks here
    · exact .nothing s
  | serverWrites move =>
    unfold step
    dsimp only
    split
    · next left here =>
      rcases s.reportStep_cases move left with
        same | ⟨ended, same⟩ | ⟨bytes, rest, split, nonempty, listening, same⟩
      · rw [same]
        have still : { s with server := .report left } = s := by rw [← here]
        dsimp only
        rw [still]
        exact .nothing s
      · rw [same]
        exact .serverReported left here ended
      · rw [same]
        exact .serverReports bytes rest (by rw [here, split]) nonempty listening
    · exact .nothing s
  | serverCloses =>
    unfold step
    dsimp only
    split
    · next failed here => exact .serverCloses failed here
    · exact .nothing s
  | fcntl =>
    unfold step
    dsimp only
    split
    · next here => exact .fcntl here
    · exact .nothing s
  | execvp error =>
    unfold step
    dsimp only
    split
    · next here =>
      cases error with
      | some error => exact .execFails error here
      | none => exact .executes here
    · exact .nothing s
  | commandWrites move =>
    unfold step
    dsimp only
    split
    · next left here =>
      rcases s.reportStep_cases move left with
        same | ⟨ended, same⟩ | ⟨bytes, rest, split, nonempty, listening, same⟩
      · rw [same]
        have still : { s with command := .report left } = s := by rw [← here]
        dsimp only
        rw [still]
        exact .nothing s
      · rw [same]
        exact .commandReported left here ended
      · rw [same]
        exact .commandReports bytes rest (by rw [here, split]) nonempty listening
    · exact .nothing s
  | exits =>
    unfold step
    dsimp only
    split
    · next here => exact .exits here
    · exact .nothing s
  | reads move =>
    unfold step
    dsimp only
    split
    · next buf here =>
      cases move with
      | error kind => exact .readFails buf kind here
      | ok move =>
        cases move with
        | interrupted => exact .nothing s
        | data more =>
          dsimp only
          split
          · next empty =>
            split
            · exact .nothing s
            · next free => exact .ends buf here empty (Bool.not_eq_true _ ▸ free)
          · next nonempty =>
            refine .reads buf _ _ here (List.take_append_drop _ _).symm ?_
            rw [ne_eq, List.take_eq_nil_iff]
            exact fun either => either.elim (by omega) nonempty
    · exact .nothing s
  | killServer => exact .killServer s
  | killCommand =>
    unfold step
    dsimp only
    split
    · next here => exact .killCommand here
    · exact .nothing s
  | killCreator =>
    unfold step
    dsimp only
    split
    · next here => exact .killCreator here
    · exact .nothing s

/-! ## Who reports -/

def CreatorPoint.gone : CreatorPoint → Bool
  | .returned (.readFailed _) | .killed => true
  | _ => false

def ServerPoint.forked : ServerPoint → Bool
  | .close false | .closed false | .killed => true
  | _ => false

def CommandPoint.trying : CommandPoint → Bool
  | .cloexec | .execvp | .running | .killed => true
  | _ => false

def ServerPoint.Told (message reported : List UInt8) (gone : Bool) : ServerPoint → Prop
  | .report left => reported ++ left = message
  | .close true | .closed true => gone = false → reported = message
  | .killed => True
  | _ => False

def CommandPoint.Told (message reported : List UInt8) (gone : Bool) : CommandPoint → Prop
  | .report left => reported ++ left = message
  | .exit | .exited => gone = false → reported = message
  | .killed => True
  | _ => False

/-- What the message is, and how far its reporter has got: at most one of the two
processes ever has one. -/
inductive Startup.Phase (cmd message reported : List UInt8) (gone : Bool) :
    ServerPoint → CommandPoint → Prop where
  | before {server : ServerPoint} : message = [] → server = .forkpty ∨ server = .killed →
      Phase cmd message reported gone server .unborn
  | forkFailed {server : ServerPoint} (error : List UInt8) : message = forkptyMessage error →
      server.Told message reported gone → Phase cmd message reported gone server .unborn
  | forked {server : ServerPoint} {command : CommandPoint} : message = [] →
      server.forked = true → command.trying = true → Phase cmd message reported gone server command
  | execFailed {server : ServerPoint} {command : CommandPoint} (error : List UInt8) :
      message = execvpMessage cmd error → server.forked = true →
      command.Told message reported gone → Phase cmd message reported gone server command

structure Startup.Sound (cmd : List UInt8) (s : Startup) : Prop where
  phase : Phase cmd s.message s.reported s.creator.gone s.server s.command
  front : s.reported <+: s.message
  flow : ∀ buf, s.creator = .reading buf → buf ++ s.pipe = s.reported
  answer : ∀ status, s.creator = .returned status → s.creator.gone = false →
    s.held = false ∧ status = if s.reported = [] then .ok else .failed (statusText s.reported)

theorem Startup.sound_start (cmd : List UInt8) : Startup.start.Sound cmd where
  phase := .before rfl (.inl rfl)
  front := List.prefix_refl _
  flow buf same := by
    obtain rfl : [] = buf := by simpa [start] using same
    rfl
  answer status same := by simp [start] at same

/-! ## One event keeps it -/

section
variable {cmd : List UInt8} {s after : Startup}

theorem Startup.Phase.fork {message reported : List UInt8} {gone : Bool} {command : CommandPoint}
    (phase : Phase cmd message reported gone .forkpty command) : message = [] ∧ command = .unborn := by
  cases phase with
  | before silent _ => exact ⟨silent, rfl⟩
  | forkFailed error _ told => exact told.elim
  | forked _ forked _ => cases forked
  | execFailed error _ forked _ => cases forked

theorem Startup.Phase.serverReport {message reported left : List UInt8} {gone : Bool}
    {command : CommandPoint} (phase : Phase cmd message reported gone (.report left) command) :
    ∃ error, message = forkptyMessage error ∧ reported ++ left = message ∧ command = .unborn := by
  cases phase with
  | before _ early => rcases early with early | early <;> cases early
  | forkFailed error kind told => exact ⟨error, kind, told, rfl⟩
  | forked _ forked _ => cases forked
  | execFailed error _ forked _ => cases forked

theorem Startup.Phase.serverReported {message reported : List UInt8} {gone : Bool}
    {command : CommandPoint} (phase : Phase cmd message reported gone (.close true) command) :
    ∃ error, message = forkptyMessage error ∧ (gone = false → reported = message) ∧
      command = .unborn := by
  cases phase with
  | before _ early => rcases early with early | early <;> cases early
  | forkFailed error kind told => exact ⟨error, kind, told, rfl⟩
  | forked _ forked _ => cases forked
  | execFailed error _ forked _ => cases forked

theorem Startup.Phase.serverCloses {message reported : List UInt8} {gone failed : Bool}
    {command : CommandPoint} (phase : Phase cmd message reported gone (.close failed) command) :
    Phase cmd message reported gone (.closed failed) command := by
  cases failed with
  | false =>
    cases phase with
    | before _ early => rcases early with early | early <;> cases early
    | forkFailed error _ told => exact told.elim
    | forked silent _ trying => exact .forked silent rfl trying
    | execFailed error kind _ told => exact .execFailed error kind rfl told
  | true =>
    obtain ⟨error, kind, told, rfl⟩ := phase.serverReported
    exact .forkFailed error kind told

theorem Startup.Phase.killServer {message reported : List UInt8} {gone : Bool} {server : ServerPoint}
    {command : CommandPoint} (phase : Phase cmd message reported gone server command) :
    Phase cmd message reported gone .killed command := by
  cases phase with
  | before silent _ => exact .before silent (.inr rfl)
  | forkFailed error kind _ => exact .forkFailed error kind trivial
  | forked silent _ trying => exact .forked silent rfl trying
  | execFailed error kind _ told => exact .execFailed error kind rfl told

theorem Startup.Phase.exec {message reported : List UInt8} {gone : Bool} {server : ServerPoint}
    {command : CommandPoint} (phase : Phase cmd message reported gone server command)
    (here : command = .cloexec ∨ command = .execvp) : message = [] ∧ server.forked = true := by
  cases phase with
  | before _ _ => rcases here with here | here <;> cases here
  | forkFailed error _ _ => rcases here with here | here <;> cases here
  | forked silent forked _ => exact ⟨silent, forked⟩
  | execFailed error _ _ told => rcases here with rfl | rfl <;> exact told.elim

theorem Startup.Phase.commandReport {message reported left : List UInt8} {gone : Bool}
    {server : ServerPoint} (phase : Phase cmd message reported gone server (.report left)) :
    ∃ error, message = execvpMessage cmd error ∧ reported ++ left = message ∧
      server.forked = true := by
  cases phase with
  | forked _ _ trying => cases trying
  | execFailed error kind forked told => exact ⟨error, kind, told, forked⟩

theorem Startup.Phase.killCommand {message reported : List UInt8} {gone : Bool} {server : ServerPoint}
    {command : CommandPoint} (phase : Phase cmd message reported gone server command)
    (born : command.holds = true) : Phase cmd message reported gone server .killed := by
  cases phase with
  | before _ _ => cases born
  | forkFailed error _ _ => cases born
  | forked silent forked _ => exact .forked silent forked rfl
  | execFailed error kind forked _ => exact .execFailed error kind forked trivial

theorem Startup.Phase.leave {message reported : List UInt8} {gone : Bool} {server : ServerPoint}
    {command : CommandPoint} (phase : Phase cmd message reported gone server command) :
    Phase cmd message reported true server command := by
  have serverEnds (told : server.Told message reported gone) : server.Told message reported true := by
    cases server with
    | close failed =>
      cases failed with
      | false => exact told
      | true => exact fun no => Bool.noConfusion no
    | closed failed =>
      cases failed with
      | false => exact told
      | true => exact fun no => Bool.noConfusion no
    | forkpty => exact told
    | report left => exact told
    | killed => exact told
  have commandEnds (told : command.Told message reported gone) :
      command.Told message reported true := by
    cases command with
    | exit => exact fun no => Bool.noConfusion no
    | exited => exact fun no => Bool.noConfusion no
    | unborn => exact told
    | cloexec => exact told
    | execvp => exact told
    | report left => exact told
    | running => exact told
    | killed => exact told
  cases phase with
  | before silent early => exact .before silent early
  | forkFailed error kind told => exact .forkFailed error kind (serverEnds told)
  | forked silent forked trying => exact .forked silent forked trying
  | execFailed error kind forked told => exact .execFailed error kind forked (commandEnds told)

theorem Startup.Sound.quiet (sound : s.Sound cmd) (held : s.held = true) {status : StartupStatus}
    (returned : s.creator = .returned status) : s.creator.gone = true := by
  cases here : s.creator.gone with
  | true => rfl
  | false =>
    have ⟨free, _⟩ := sound.answer status returned here
    rw [free] at held
    cases held

theorem Startup.Sound.reads_of_held (sound : s.Sound cmd) (held : s.held = true)
    (early : s.creator.gone = false) : s.creator.reads ≠ false := by
  intro closed
  cases here : s.creator with
  | reading buf => rw [here] at closed; cases closed
  | returned status => rw [sound.quiet held here] at early; cases early
  | killed => rw [here] at early; cases early

theorem Startup.Sound.writes (sound : s.Sound cmd) {bytes left : List UInt8}
    (told : s.reported ++ (bytes ++ left) = s.message) (listening : s.creator.reads = true)
    {server : ServerPoint} {command : CommandPoint}
    (phase : Phase cmd s.message (s.reported ++ bytes) s.creator.gone server command) :
    Sound cmd { s with
      server := server, command := command, pipe := s.pipe ++ bytes,
      reported := s.reported ++ bytes } where
  phase := phase
  front := ⟨left, by rw [List.append_assoc, told]⟩
  flow buf same := by
    change buf ++ (s.pipe ++ bytes) = s.reported ++ bytes
    rw [← List.append_assoc, sound.flow buf same]
  answer status same early := by
    have same : s.creator = .returned status := same
    rw [same] at listening
    cases listening

theorem Startup.Sound.moves (sound : s.Sound cmd) {server : ServerPoint} {command : CommandPoint}
    (phase : Phase cmd s.message s.reported s.creator.gone server command)
    (held : s.held = true ∨ (server.holds || command.holds) = false) :
    Sound cmd { s with server := server, command := command } where
  phase := phase
  front := sound.front
  flow := sound.flow
  answer status same early := by
    refine ⟨?_, (sound.answer status same early).2⟩
    rcases held with held | free
    · rw [sound.quiet held same] at early
      cases early
    · exact free

theorem Startup.Sound.fails (sound : s.Sound cmd) (silent : s.message = []) {message : List UInt8}
    {server : ServerPoint} {command : CommandPoint} (held : s.held = true)
    (phase : Phase cmd message [] s.creator.gone server command) :
    Sound cmd { s with server := server, command := command, message := message } := by
  have quiet : s.reported = [] := List.prefix_nil.mp (silent ▸ sound.front)
  exact
    { phase := by rw [quiet]; exact phase
      front := by rw [quiet]; exact List.nil_prefix
      flow := sound.flow
      answer := fun status same early => by
        rw [sound.quiet held same] at early
        cases early }

theorem Startup.Sound.happens (sound : s.Sound cmd) (happens : Happens cmd s after) :
    after.Sound cmd := by
  have phase := sound.phase
  cases happens with
  | nothing => exact sound
  | forkFails error here =>
    rw [here] at phase
    obtain ⟨silent, unborn⟩ := phase.fork
    refine sound.fails silent (by simp [held, here, ServerPoint.holds]) ?_
    rw [unborn]
    exact .forkFailed error rfl (List.nil_append _)
  | forks here =>
    rw [here] at phase
    exact sound.moves (.forked phase.fork.1 rfl rfl) (.inl (by simp [held, here, ServerPoint.holds]))
  | serverReports bytes left here nonempty listening =>
    rw [here] at phase
    obtain ⟨error, kind, told, unborn⟩ := phase.serverReport
    refine sound.writes told listening ?_
    rw [unborn]
    exact .forkFailed error kind ((List.append_assoc _ _ _).trans told)
  | serverReported left here ended =>
    rw [here] at phase
    obtain ⟨error, kind, told, unborn⟩ := phase.serverReport
    have held : s.held = true := by simp [held, here, ServerPoint.holds]
    refine sound.moves ?_ (.inl held)
    rw [unborn]
    refine .forkFailed error kind fun early => ?_
    rcases ended with rfl | closed
    · rwa [List.append_nil] at told
    · exact (sound.reads_of_held held early closed).elim
  | serverCloses failed here =>
    rw [here] at phase
    exact sound.moves phase.serverCloses (.inl (by simp [held, here, ServerPoint.holds]))
  | fcntl here =>
    obtain ⟨silent, forked⟩ := phase.exec (.inl here)
    exact sound.moves (.forked silent forked rfl) (.inl (by simp [held, here, CommandPoint.holds]))
  | executes here =>
    obtain ⟨silent, forked⟩ := phase.exec (.inr here)
    exact sound.moves (.forked silent forked rfl) (.inl (by simp [held, here, CommandPoint.holds]))
  | execFails error here =>
    obtain ⟨silent, forked⟩ := phase.exec (.inr here)
    exact sound.fails silent (by simp [held, here, CommandPoint.holds])
      (.execFailed error rfl forked (List.nil_append _))
  | commandReports bytes left here nonempty listening =>
    rw [here] at phase
    obtain ⟨error, kind, told, forked⟩ := phase.commandReport
    exact sound.writes told listening
      (.execFailed error kind forked ((List.append_assoc _ _ _).trans told))
  | commandReported left here ended =>
    rw [here] at phase
    obtain ⟨error, kind, told, forked⟩ := phase.commandReport
    have held : s.held = true := by simp [held, here, CommandPoint.holds]
    refine sound.moves (.execFailed error kind forked fun early => ?_) (.inl held)
    rcases ended with rfl | closed
    · rwa [List.append_nil] at told
    · exact (sound.reads_of_held held early closed).elim
  | exits here =>
    rw [here] at phase
    refine sound.moves ?_ (.inl (by simp [held, here, CommandPoint.holds]))
    cases phase with
    | forked _ _ trying => cases trying
    | execFailed error kind forked told => exact .execFailed error kind forked told
  | reads buf bytes later here split nonempty =>
    refine ⟨?_, sound.front, ?_, fun status same => CreatorPoint.noConfusion same⟩
    · rw [here] at phase
      exact phase
    · rintro _ ⟨rfl⟩
      have flow := sound.flow buf here
      rw [split, ← List.append_assoc] at flow
      exact flow
  | ends buf here empty free =>
    refine ⟨?_, sound.front, fun buf same => CreatorPoint.noConfusion same, ?_⟩
    · rw [here] at phase
      split
      · exact phase
      · exact phase
    · rintro status ⟨rfl⟩ _
      have flow := sound.flow buf here
      rw [empty, List.append_nil] at flow
      rw [← flow]
      exact ⟨free, rfl⟩
  | readFails buf kind here =>
    refine ⟨phase.leave, sound.front, fun buf same => CreatorPoint.noConfusion same, ?_⟩
    rintro status ⟨rfl⟩ early
    cases early
  | killServer =>
    refine sound.moves phase.killServer ?_
    cases held : s.held with
    | true => exact .inl rfl
    | false =>
      rw [Startup.held, Bool.or_eq_false_iff] at held
      exact .inr (by simp [held.2, ServerPoint.holds])
  | killCommand born =>
    exact sound.moves (phase.killCommand born) (.inl (by simp [held, born]))
  | killCreator listening =>
    exact ⟨phase.leave, sound.front, fun buf same => CreatorPoint.noConfusion same, fun status same => CreatorPoint.noConfusion same⟩

end

theorem Startup.run_sound (cmd : List UInt8) (events : List StartupEvent) :
    (runSteps (Startup.step cmd) events Startup.start).Sound cmd :=
  have always : Along (Startup.step cmd) (fun _ _ => True) events Startup.start :=
    along_of_forall (fun _ _ => trivial) events _
  always.invariant (fun s event _ sound => Sound.happens sound (step_happens cmd event s))
    (sound_start cmd)

theorem forkptyMessage_ne (error : List UInt8) : forkptyMessage error ≠ [] := by
  have text : ascii "server-forkpty: " ≠ [] := by decide
  rw [forkptyMessage, List.append_assoc]
  exact List.append_ne_nil_of_left_ne_nil text _

theorem execvpMessage_ne (cmd error : List UInt8) : execvpMessage cmd error ≠ [] := by
  have text : ascii "server-execvp: " ≠ [] := by decide
  rw [execvpMessage, List.append_assoc, List.append_assoc, List.append_assoc]
  exact List.append_ne_nil_of_left_ne_nil text _

section
variable {message reported : List UInt8}

theorem ServerPoint.Told.ended {server : ServerPoint} (told : server.Told message reported false)
    (free : server.holds = false) : reported = message ∧ server = .closed true ∨ server = .killed := by
  cases server with
  | closed failed =>
    cases failed with
    | false => exact told.elim
    | true => exact .inl ⟨told rfl, rfl⟩
  | killed => exact .inr rfl
  | forkpty => exact told.elim
  | report left => cases free
  | close failed => cases free

theorem CommandPoint.Told.ended {command : CommandPoint} (told : command.Told message reported false)
    (free : command.holds = false) : reported = message ∧ command = .exited ∨ command = .killed := by
  cases command with
  | exited => exact .inl ⟨told rfl, rfl⟩
  | killed => exact .inr rfl
  | unborn => exact told.elim
  | running => exact told.elim
  | cloexec => cases free
  | execvp => cases free
  | report left => cases free
  | exit => cases free

end

/-! ## What `create_session` is told -/

def enoentEvents : List StartupEvent :=
  [.forkpty none, .fcntl, .execvp (some (ascii "no file")), .commandWrites (.data 99),
    .reads (.ok (.data 4)), .serverCloses, .commandWrites .interrupted, .commandWrites (.data 99),
    .reads (.ok (.data 255)), .exits, .reads (.ok (.data 255))]

def ServerPoint.rank : ServerPoint → Nat
  | .forkpty => 10
  | .report _ => 3
  | .close _ => 2
  | .closed _ => 1
  | .killed => 0

def CommandPoint.rank : CommandPoint → Nat
  | .cloexec => 6
  | .execvp => 5
  | .report _ => 3
  | .exit => 2
  | .unborn | .running | .exited | .killed => 0

def ServerPoint.left : ServerPoint → Nat
  | .report left => left.length
  | _ => 0

def CommandPoint.left : CommandPoint → Nat
  | .report left => left.length
  | _ => 0

/-- The steps that are left, then the bytes to be written, then those to be read. -/
def Startup.measure (s : Startup) : Nat ×ₗ Nat ×ₗ Nat :=
  toLex (s.server.rank + s.command.rank + if s.creator.reads then 1 else 0,
    toLex (s.server.left + s.command.left, s.pipe.length))

section
variable {cmd : List UInt8} {s after : Startup}

theorem Startup.measure_lt_of_rank
    (less : after.server.rank + after.command.rank + (if after.creator.reads then 1 else 0) <
      s.server.rank + s.command.rank + if s.creator.reads then 1 else 0) :
    after.measure < s.measure :=
  Prod.Lex.toLex_lt_toLex.mpr (.inl less)

theorem CommandPoint.rank_pos {command : CommandPoint} (born : command.holds = true) :
    0 < command.rank := by
  cases command with
  | unborn => cases born
  | cloexec => decide
  | execvp => decide
  | report left => exact Nat.succ_pos 2
  | exit => decide
  | running => cases born
  | exited => cases born
  | killed => cases born

theorem Startup.happens_measure (happens : Happens cmd s after) (changed : after ≠ s) :
    after.measure < s.measure := by
  cases happens with
  | nothing => exact absurd rfl changed
  | forkFails error here => exact measure_lt_of_rank (by simp [here, ServerPoint.rank])
  | forks here =>
    apply measure_lt_of_rank
    simp only [here, ServerPoint.rank, CommandPoint.rank]
    omega
  | serverReports bytes left here nonempty listening =>
    have more := List.length_pos_of_ne_nil nonempty
    refine Prod.Lex.toLex_lt_toLex.mpr (.inr ⟨?_, Prod.Lex.toLex_lt_toLex.mpr (.inl ?_)⟩)
    · simp [here, ServerPoint.rank]
    · simp only [here, ServerPoint.left, List.length_append]
      omega
  | serverReported left here ended => exact measure_lt_of_rank (by simp [here, ServerPoint.rank])
  | serverCloses failed here => exact measure_lt_of_rank (by simp [here, ServerPoint.rank])
  | fcntl here => exact measure_lt_of_rank (by simp [here, CommandPoint.rank])
  | executes here => exact measure_lt_of_rank (by simp [here, CommandPoint.rank])
  | execFails error here => exact measure_lt_of_rank (by simp [here, CommandPoint.rank])
  | commandReports bytes left here nonempty listening =>
    have more := List.length_pos_of_ne_nil nonempty
    refine Prod.Lex.toLex_lt_toLex.mpr (.inr ⟨?_, Prod.Lex.toLex_lt_toLex.mpr (.inl ?_)⟩)
    · simp [here, CommandPoint.rank]
    · simp only [here, CommandPoint.left, List.length_append]
      omega
  | commandReported left here ended => exact measure_lt_of_rank (by simp [here, CommandPoint.rank])
  | exits here => exact measure_lt_of_rank (by simp [here, CommandPoint.rank])
  | reads buf bytes later here split nonempty =>
    have more := List.length_pos_of_ne_nil nonempty
    refine Prod.Lex.toLex_lt_toLex.mpr (.inr ⟨?_, Prod.Lex.toLex_lt_toLex.mpr (.inr ⟨rfl, ?_⟩)⟩)
    · simp [here, CreatorPoint.reads]
    · simp only [split, List.length_append]
      omega
  | ends buf here empty free => exact measure_lt_of_rank (by simp [here, CreatorPoint.reads])
  | readFails buf kind here => exact measure_lt_of_rank (by simp [here, CreatorPoint.reads])
  | killServer =>
    have alive : s.server ≠ .killed := fun killed => changed (by rw [← killed])
    have more : 0 < s.server.rank := by
      cases here : s.server with
      | killed => exact absurd here alive
      | forkpty => decide
      | report left => exact Nat.succ_pos 2
      | close failed => exact Nat.succ_pos 1
      | closed failed => exact Nat.succ_pos 0
    apply measure_lt_of_rank
    simp only [show ServerPoint.killed.rank = 0 from rfl]
    omega
  | killCommand born =>
    have more := CommandPoint.rank_pos born
    apply measure_lt_of_rank
    simp only [show CommandPoint.killed.rank = 0 from rfl]
    omega
  | killCreator listening =>
    apply measure_lt_of_rank
    simp only [listening, show CreatorPoint.killed.reads = false from rfl, if_true, Bool.false_eq_true,
      if_false]
    omega

/-- No process gets on: each has ended, or waits. -/
def Startup.Still (cmd : List UInt8) (s : Startup) : Prop :=
  ∀ event : StartupEvent, event.succeeds = true → s.step cmd event = s

theorem Startup.reportStep_moves (left : List UInt8) (listening : s.creator.reads = true)
    (empty : s.pipe = []) : (s.reportStep (.data 0) left).1 ≠ some left := by
  intro same
  by_cases silent : left = []
  · rw [reportStep, if_pos silent] at same
    cases same
  · have more := List.length_pos_of_ne_nil silent
    rw [reportStep, if_neg silent, if_pos listening, empty] at same
    have lengths := congrArg List.length (Option.some.inj same)
    simp only [List.length_drop, List.length_nil, pipeSize] at lengths
    omega

theorem Startup.reads_of_still (still : s.Still cmd) : s.creator.reads = false := by
  cases here : s.creator with
  | returned status => rfl
  | killed => rfl
  | reading buf =>
    exfalso
    have listening : s.creator.reads = true := by rw [here]; rfl
    -- what there is in the pipe would be read
    have empty : s.pipe = [] := by
      by_contra nonempty
      have read := congrArg Startup.pipe (still (.reads (.ok (.data 255))) rfl)
      have lengths := congrArg List.length read
      have more := List.length_pos_of_ne_nil nonempty
      simp only [step, here, if_neg nonempty, List.length_drop] at lengths
      omega
    have server : s.server.holds = false := by
      cases point : s.server with
      | closed failed => rfl
      | killed => rfl
      | forkpty =>
        have forks := congrArg Startup.server (still (.forkpty none) rfl)
        simp [step, point] at forks
      | close failed =>
        have closes := congrArg Startup.server (still .serverCloses rfl)
        simp [step, point] at closes
      | report left =>
        have writes := congrArg Startup.server (still (.serverWrites (.data 0)) rfl)
        have moves := reportStep_moves left listening empty
        simp only [step, point] at writes
        generalize s.reportStep (.data 0) left = round at writes moves
        obtain ⟨_ | rest, next⟩ := round
        · cases writes
        · injection writes with same
          exact absurd (congrArg some same) moves
    have command : s.command.holds = false := by
      cases point : s.command with
      | unborn => rfl
      | running => rfl
      | exited => rfl
      | killed => rfl
      | cloexec =>
        have marks := congrArg Startup.command (still .fcntl rfl)
        simp [step, point] at marks
      | execvp =>
        have executes := congrArg Startup.command (still (.execvp none) rfl)
        simp [step, point] at executes
      | exit =>
        have exits := congrArg Startup.command (still .exits rfl)
        simp [step, point] at exits
      | report left =>
        have writes := congrArg Startup.command (still (.commandWrites (.data 0)) rfl)
        have moves := reportStep_moves left listening empty
        simp only [step, point] at writes
        generalize s.reportStep (.data 0) left = round at writes moves
        obtain ⟨_ | rest, next⟩ := round
        · cases writes
        · injection writes with same
          exact absurd (congrArg some same) moves
    have ends := congrArg Startup.creator (still (.reads (.ok (.data 0))) rfl)
    simp [step, here, empty, held, server, command] at ends

end

/-- `read_startup_status` always returns: in whatever order the processes take their
steps, killed or not, only finitely many of them change anything, and as long as the
creator reads some process can get on without anything failing. -/
theorem startup_returns (cmd : List UInt8) :
    (WellFounded fun after s : Startup => after ≠ s ∧ ∃ event, after = s.step cmd event) ∧
    ∀ s : Startup, s.Still cmd → s.creator.reads = false := by
  refine ⟨?_, fun s => Startup.reads_of_still⟩
  refine Subrelation.wf (r := InvImage (· < ·) Startup.measure) ?_ (InvImage.wf _ wellFounded_lt)
  rintro after s ⟨changed, event, rfl⟩
  exact Startup.happens_measure (Startup.step_happens cmd event s) changed

theorem startup_returns_enoent :
    (runSteps (Startup.step (ascii "ls")) enoentEvents Startup.start).creator.reads = false := by
  refine (startup_returns (ascii "ls")).2 _ fun event alive => ?_
  have ended : runSteps (Startup.step (ascii "ls")) enoentEvents Startup.start =
      ⟨.closed false, .exited, .returned (.failed "server-execvp: ls: no file".toList), [],
        ascii "server-execvp: ls: no file\n", ascii "server-execvp: ls: no file\n"⟩ := by decide
  rw [ended]
  cases event with
  | killServer => cases alive
  | killCommand => cases alive
  | killCreator => cases alive
  | forkpty error => rfl
  | serverWrites move => rfl
  | serverCloses => rfl
  | fcntl => rfl
  | execvp error => rfl
  | commandWrites move => rfl
  | exits => rfl
  | reads move => rfl

end Lich
