import Lich.Run

/-! The session: the server and the command on its pty.

The command may write and exit at any point between two steps of an iteration.
What the server's reads and its `waitpid` return follows from that, so a run of
the session is a run of the server against a child and not against arbitrary
answers.
-/

set_option autoImplicit false

namespace Lich

open Foundation

/-! ## The command -/

structure Child where
  /-- what was written to the pty before the command exited -/
  written : List UInt8
  /-- what processes that it left behind have written since -/
  late : List UInt8
  /-- how many of these bytes the server has read -/
  taken : Nat
  /-- the wait status, once the command has exited -/
  status : Option Int32

inductive ChildAct where
  | write (bytes : List UInt8)
  | exit (status : Int32)

namespace Child

def start : Child := ⟨[], [], 0, none⟩

def output (child : Child) : List UInt8 := child.written ++ child.late

def unread (child : Child) : List UInt8 := child.output.drop child.taken

def act (act : ChildAct) (child : Child) : Child :=
  match act, child.status with
  | .write bytes, none => { child with written := child.written ++ bytes }
  | .write bytes, some _ => { child with late := child.late ++ bytes }
  | .exit status, none => { child with status := some status }
  | .exit _, some _ => child

def read (child : Child) (count : Nat) : Child := { child with taken := child.taken + count }

end Child

/-- What the kernel chooses at one read of the pty. -/
inductive ReadChoice where
  /-- it has so many bytes and one more ready, or all there are -/
  | data (more : Nat)
  | block
  | interrupt
  /-- no process has the pty open any more -/
  | hangUp (eof : Bool)

structure ReadMove where
  /-- what the command does before the read -/
  acts : List ChildAct
  choice : ReadChoice

/-- The answer to a read. Bytes come in order, and the pty hangs up only when the
command has exited and all has been read. -/
def Child.answer (child : Child) : ReadChoice → ReadAnswer maxPayload
  | .data more =>
    if child.unread = [] then .err .wouldBlock
    else .ok ⟨child.unread.take (min (more + 1) maxPayload), by
      rw [List.length_take]
      omega⟩
  | .block => .err .wouldBlock
  | .interrupt => .err .interrupted
  | .hangUp eof =>
    if child.unread = [] ∧ child.status.isSome then
      if eof then .ok ⟨[], Nat.zero_le _⟩ else .err .other
    else .err .wouldBlock

/-- The answers to the reads of one iteration, up to the one that ends them. -/
def drainReads : List ReadMove → Child → List (ReadAnswer maxPayload) × Child
  | [], child => ([], child)
  | move :: moves, child =>
    let child := runSteps Child.act move.acts child
    match child.answer move.choice with
    | .ok slice =>
      if slice.bytes = [] then ([.ok slice], child)
      else
        let (answers, child) := drainReads moves (child.read slice.bytes.length)
        (.ok slice :: answers, child)
    | .err .interrupted =>
      let (answers, child) := drainReads moves child
      (.err .interrupted :: answers, child)
    | .err kind => ([.err kind], child)

/-! ## The session -/

/-- What happens around the server in one iteration. -/
structure Turn where
  /-- SIGTERM or SIGINT has reached the server -/
  shutdown : Bool
  accepts : List Accept
  moves : List ReadMove
  /-- what the command does between the last read and `waitpid` -/
  race : List ChildAct
  /-- what it does in the rest of the iteration and in the pause after it -/
  rest : List ChildAct
  dumpClock : Nat → Instant
  exitClock : Nat → Instant
  now : Instant

structure Session where
  server : Server
  child : Child
  returned : Bool

namespace Session

def start (pid : UInt64) (readPty : Bool) (writes : List WriteAnswer) : Session :=
  ⟨Server.start pid readPty writes, Child.start, false⟩

/-- The reads of the pty in an iteration; there are none while `read_pty` is not
set. -/
def reading (turn : Turn) (session : Session) : List (ReadAnswer maxPayload) × Child :=
  if (acceptLoop turn.accepts (pollShutdown turn.shutdown session.server)).readPty then
    drainReads turn.moves session.child
  else ([], session.child)

def waited (turn : Turn) (session : Session) : Child :=
  runSteps Child.act turn.race (session.reading turn).2

def tick (turn : Turn) (session : Session) : Tick where
  shutdown := turn.shutdown
  accepts := turn.accepts
  ptyReads := (session.reading turn).1
  waitpid := (session.waited turn).status
  dumpClock := turn.dumpClock
  exitClock := turn.exitClock
  now := turn.now

def turn (turn : Turn) (session : Session) : Session :=
  if session.returned then session
  else
    let child := runSteps Child.act turn.rest (session.waited turn)
    match iterate (session.tick turn) session.server with
    | .running server => ⟨server, child, false⟩
    | .returned server => ⟨server, child, true⟩

end Session

/-! ## The command's output is read in order -/

namespace Child

/-- The server has read a front of the output, and nothing is late that was
written while the command ran. -/
structure Sound (child : Child) : Prop where
  inside : child.taken ≤ child.output.length
  late : child.status = none → child.late = []

structure Later (child next : Child) : Prop where
  output : child.output <+: next.output
  taken : child.taken ≤ next.taken
  written : child.status.isSome = true → next.written = child.written
  status : child.status.isSome = true → next.status = child.status

theorem Later.refl (child : Child) : child.Later child :=
  ⟨List.prefix_rfl, Nat.le_refl _, fun _ => rfl, fun _ => rfl⟩

theorem Later.trans {child middle next : Child} (first : child.Later middle)
    (second : middle.Later next) : child.Later next where
  output := first.output.trans second.output
  taken := Nat.le_trans first.taken second.taken
  written exited := by
    rw [second.written (by rw [first.status exited]; exact exited), first.written exited]
  status exited := by
    rw [second.status (by rw [first.status exited]; exact exited), first.status exited]

theorem Later.front {child next : Child} (later : child.Later next) :
    child.output.take child.taken <+: next.output.take next.taken := by
  obtain ⟨more, longer⟩ := later.output
  rw [← longer]
  exact (List.IsPrefix.take (List.prefix_append _ _) _).trans
    (List.take_prefix_take_left later.taken)

theorem act_sound {child : Child} (sound : child.Sound) (act : ChildAct) :
    (child.act act).Sound ∧ child.Later (child.act act) ∧ (child.act act).taken = child.taken := by
  have inside := sound.inside
  simp only [output, List.length_append] at inside
  cases act with
  | write bytes =>
    cases status : child.status with
    | none =>
      have none := sound.late status
      refine ⟨⟨?_, ?_⟩, ⟨?_, ?_, ?_, ?_⟩, ?_⟩
      all_goals simp [Child.act, status, output, none]
      rw [none] at inside
      simp only [List.length_nil] at inside
      omega
    | some code =>
      refine ⟨⟨?_, ?_⟩, ⟨?_, ?_, ?_, ?_⟩, ?_⟩
      all_goals simp [Child.act, status, output]
      omega
  | exit code =>
    cases status : child.status with
    | none =>
      have none := sound.late status
      refine ⟨⟨?_, ?_⟩, ⟨?_, ?_, ?_, ?_⟩, ?_⟩
      all_goals simp [Child.act, status, output]
      omega
    | some old =>
      have same : child.act (.exit code) = child := by simp [Child.act, status]
      rw [same]
      exact ⟨sound, .refl child, rfl⟩

theorem acts_sound {child : Child} (sound : child.Sound) (acts : List ChildAct) :
    (runSteps Child.act acts child).Sound ∧ child.Later (runSteps Child.act acts child) ∧
      (runSteps Child.act acts child).taken = child.taken := by
  induction acts generalizing child with
  | nil => exact ⟨sound, .refl child, rfl⟩
  | cons act acts ih =>
    obtain ⟨next, later, same⟩ := act_sound sound act
    obtain ⟨last, latest, kept⟩ := ih next
    exact ⟨last, later.trans latest, kept.trans same⟩

theorem answer_ok {child : Child} {choice : ReadChoice} {slice : Slice maxPayload}
    (answered : child.answer choice = .ok slice) : slice.bytes <+: child.unread := by
  cases choice with
  | data more =>
    simp only [answer] at answered
    split at answered
    · cases answered
    · cases answered
      exact List.take_prefix _ _
  | hangUp eof =>
    simp only [answer] at answered
    split at answered
    · split at answered
      · cases answered
        exact List.nil_prefix
      · cases answered
    · cases answered
  | block => cases answered
  | interrupt => cases answered

theorem read_sound {child : Child} (sound : child.Sound) {bytes : List UInt8}
    (front : bytes <+: child.unread) :
    (child.read bytes.length).Sound ∧ child.Later (child.read bytes.length) ∧
      child.output.take child.taken ++ bytes =
        (child.read bytes.length).output.take (child.read bytes.length).taken := by
  have inside := front.length_le
  rw [unread, List.length_drop] at inside
  have bound := sound.inside
  refine ⟨⟨?_, sound.late⟩, ⟨List.prefix_rfl, Nat.le_add_right _ _, fun _ => rfl, fun _ => rfl⟩, ?_⟩
  · change child.taken + bytes.length ≤ child.output.length
    omega
  · change _ = child.output.take (child.taken + bytes.length)
    rw [List.take_add, ← unread, ← List.prefix_iff_eq_take.mp front]

end Child

theorem drainReads_sound {child : Child} (sound : child.Sound) (moves : List ReadMove) :
    (drainReads moves child).2.Sound ∧ child.Later (drainReads moves child).2 ∧
      child.output.take child.taken ++ (ptyChunks (drainReads moves child).1).flatten =
        (drainReads moves child).2.output.take (drainReads moves child).2.taken := by
  induction moves generalizing child with
  | nil => exact ⟨sound, .refl child, by simp [drainReads, ptyChunks]⟩
  | cons move moves ih =>
    obtain ⟨next, later, same⟩ := Child.acts_sound sound move.acts
    have kept : child.output.take child.taken =
        (runSteps Child.act move.acts child).output.take
          (runSteps Child.act move.acts child).taken := by
      obtain ⟨more, longer⟩ := later.output
      rw [same, ← longer, List.take_append_of_le_length sound.inside]
    rw [drainReads, kept]
    generalize runSteps Child.act move.acts child = middle at next later ⊢
    cases answered : middle.answer move.choice with
    | ok slice =>
      dsimp only
      split
      · next none =>
        exact ⟨next, later, by simp [ptyChunks, none]⟩
      · next nonempty =>
        obtain ⟨read, grown, taken⟩ := Child.read_sound next (Child.answer_ok answered)
        obtain ⟨last, latest, output⟩ := ih read
        refine ⟨last, later.trans (grown.trans latest), ?_⟩
        rw [ptyChunks, if_neg nonempty, List.flatten_cons, ← List.append_assoc, taken]
        exact output
    | err kind =>
      cases kind with
      | interrupted =>
        obtain ⟨last, latest, output⟩ := ih next
        exact ⟨last, later.trans latest, output⟩
      | _ => exact ⟨next, later, List.append_nil _⟩

namespace Session

/-- What holds between iterations of a session, in which the server can have been asked to
shut down. -/
structure Sound (asked : Prop) (session : Session) : Prop where
  server : session.server.Sound fun _ _ => True
  child : session.child.Sound
  output : session.server.master.output = session.child.output.take session.child.taken
  exit : ∀ status, session.server.childExit = some status →
    session.child.status.map exitStatus = some status ∨ asked ∧ status = 128 + sigterm

variable {asked : Prop} {session : Session}

theorem start_sound (asked : Prop) (pid : UInt64) (readPty : Bool) (writes : List WriteAnswer) :
    (start pid readPty writes).Sound asked where
  server := Server.start_sound pid readPty writes
  child := ⟨Nat.zero_le _, fun _ => rfl⟩
  output := rfl
  exit := nofun

theorem opened_tick (turn : Turn) (session : Session) :
    opened (session.tick turn) session.server =
      acceptLoop turn.accepts (pollShutdown turn.shutdown session.server) := rfl

theorem drained_output (sound : session.Sound asked) (turn : Turn) :
    (session.waited turn).Sound ∧ session.child.Later (session.waited turn) ∧
      (drained (session.tick turn) session.server).master.output =
        (session.waited turn).output.take (session.waited turn).taken := by
  have output : (opened (session.tick turn) session.server).master.output =
      session.server.master.output := by
    obtain ⟨_, _, _, _, _, after⟩ := opened_eq (session.tick turn) session.server
    rw [after]
  have reads : (session.reading turn).2.Sound ∧ session.child.Later (session.reading turn).2 ∧
      session.child.output.take session.child.taken ++
          (tickChunks (session.tick turn) session.server).flatten =
        (session.reading turn).2.output.take (session.reading turn).2.taken := by
    have answers : (session.tick turn).ptyReads = (session.reading turn).1 := rfl
    rw [tickChunks, answers, reading, ← opened_tick]
    by_cases polled : (opened (session.tick turn) session.server).readPty = true
    · rw [if_pos polled, if_pos polled]
      exact drainReads_sound sound.child turn.moves
    · rw [if_neg polled, if_neg polled]
      exact ⟨sound.child, .refl _, List.append_nil _⟩
  obtain ⟨read, later, taken⟩ := reads
  obtain ⟨next, raced, same⟩ := Child.acts_sound read turn.race
  refine ⟨next, later.trans raced, ?_⟩
  obtain ⟨more, longer⟩ := raced.output
  have longer : (session.reading turn).2.output ++ more = (session.waited turn).output := longer
  have same : (session.waited turn).taken = (session.reading turn).2.taken := same
  rw [Lich.drained_output, output, sound.output, taken, same, ← longer,
    List.take_append_of_le_length read.inside]

theorem opened_exit {turn : Turn} {status : Int32}
    (exit : (opened (session.tick turn) session.server).childExit = some status) :
    session.server.childExit = some status ∨ turn.shutdown = true ∧ status = 128 + sigterm := by
  obtain ⟨_, _, after⟩ := acceptLoop_eq turn.accepts (pollShutdown turn.shutdown session.server)
  rw [opened_tick, after] at exit
  change (pollShutdown turn.shutdown session.server).childExit = some status at exit
  unfold pollShutdown at exit
  split at exit
  · next asked => exact .inr ⟨(Bool.and_eq_true_iff.mp asked).1, (Option.some.inj exit).symm⟩
  · exact .inl exit

theorem isSome_of_map {status : Option Int32} {code : Int32}
    (exit : status.map exitStatus = some code) : status.isSome = true := by
  obtain ⟨wait, rfl, _⟩ := Option.map_eq_some_iff.mp exit
  rfl

theorem waited_exit (sound : session.Sound asked) {turn : Turn}
    (signalled : turn.shutdown = true → asked) {status : Int32}
    (exit : (drained (session.tick turn) session.server).childExit = some status) :
    (session.waited turn).status.map exitStatus = some status ∨
      asked ∧ status = 128 + sigterm := by
  rw [drained_childExit] at exit
  cases before : (opened (session.tick turn) session.server).childExit with
  | some old =>
    rw [before, Option.some_or, Option.some.injEq] at exit
    subst exit
    rcases opened_exit before with known | ⟨told, same⟩
    · refine (sound.exit old known).imp (fun gone => ?_) id
      rw [(drained_output sound turn).2.1.status (isSome_of_map gone), gone]
    · exact .inr ⟨signalled told, same⟩
  | none =>
    rw [before, Option.none_or] at exit
    exact .inl exit

theorem turn_eq (running : session.returned = false) (turn : Turn) :
    (session.turn turn).server = (iterate (session.tick turn) session.server).server ∧
      (session.turn turn).child = runSteps Child.act turn.rest (session.waited turn) ∧
      ((session.turn turn).returned = true ↔
        (session.turn turn).server.childExit.isSome = true ∧
          (session.turn turn).server.clients = []) := by
  have loop : iterate (session.tick turn) session.server =
      let server := retainClients (settled (session.tick turn) session.server)
      if server.childExit.isSome = true ∧ server.clients = [] then .returned server
      else .running server := rfl
  rw [iterate_server, Session.turn, loop, if_neg (by simp [running])]
  generalize retainClients (settled (session.tick turn) session.server) = server
  dsimp only
  by_cases ended : server.childExit.isSome = true ∧ server.clients = []
  · rw [if_pos ended]
    exact ⟨rfl, rfl, fun _ => ended, fun _ => rfl⟩
  · rw [if_neg ended]
    exact ⟨rfl, rfl, nofun, fun other => absurd other ended⟩

theorem turn_sound (sound : session.Sound asked) {turn : Turn}
    (signalled : turn.shutdown = true → asked) : (session.turn turn).Sound asked := by
  by_cases ended : session.returned = true
  · rw [Session.turn, if_pos ended]
    exact sound
  · obtain ⟨server, child, _⟩ := session.turn_eq (Bool.not_eq_true _ ▸ ended) turn
    obtain ⟨waited, later, output⟩ := drained_output sound turn
    obtain ⟨next, rested, same⟩ := Child.acts_sound waited turn.rest
    refine ⟨?_, ?_, ?_, ?_⟩
    · rw [server]
      exact iterate_sound sound.server _ fun _ _ => along_of_forall (fun _ _ => trivial) _ _
    · rw [child]
      exact next
    · obtain ⟨more, longer⟩ := rested.output
      rw [server, child, iterate_output, output, same, ← longer,
        List.take_append_of_le_length waited.inside]
    · intro status exit
      rw [server, iterate_childExit] at exit
      refine (waited_exit sound signalled exit).imp (fun gone => ?_) id
      rw [child, rested.status (isSome_of_map gone), gone]

theorem run_sound (pid : UInt64) (readPty : Bool) (writes : List WriteAnswer) {turns : List Turn}
    (signalled : ∀ turn ∈ turns, turn.shutdown = true → asked) :
    (runSteps Session.turn turns (start pid readPty writes)).Sound asked := by
  have start := start_sound asked pid readPty writes
  generalize Session.start pid readPty writes = session at start
  induction turns generalizing session with
  | nil => exact start
  | cons turn turns ih =>
    exact ih (fun other member => signalled other (List.mem_cons_of_mem _ member)) _
      (turn_sound start (signalled turn List.mem_cons_self))

end Session

end Lich
