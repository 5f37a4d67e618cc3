import Lich.Descriptor
import Lich.Foundation.Runs

/-! The loop of the attached client.

Standard input is read through a buffer of the standard library's, larger than
a packet: what one read of the descriptor brings in and the loop did not ask for
stays there. `select` looks at the descriptor only.

What `select` reports, and what the calls after it answer, are the events of a
run. A window change may come at any time. The sizes that `current_winsize`
finds are given.
-/

set_option autoImplicit false

namespace Lich

open Foundation

def u16ToNeBytes (value : UInt16) : List UInt8 := toLe 2 value.toNat

structure LoopOpts where
  flags : UInt32
  passthrough : Bool
  detachKey : UInt8

inductive ClientStatus where
  | detached
  | ioError
  | exited (code : Int32)
  deriving DecidableEq

structure Attached where
  /-- WINCH_PENDING -/
  winchPending : Bool
  /-- what the reader of standard input holds -/
  held : List UInt8
  /-- what has been read from the descriptor -/
  taken : List UInt8
  /-- the packets sent -/
  sent : List Packet
  printed : List UInt8
  deriving DecidableEq

def Attached.start : Attached := ⟨false, [], [], [], []⟩

/-- What `select` reports; and whether it was a window change that interrupted it,
what is received from the socket, and what a read of the descriptor would return. -/
inductive Awaited where
  | interrupted (winch : Bool)
  | failed (kind : ErrorKind)
  | ready (sock : Option (Except IoError Packet)) (stdin : Option (ReadAnswer 8192))

structure Wakeup where
  awaited : Awaited
  rows : UInt16
  cols : UInt16
  printError : Option IoError
  resizeError : Option IoError
  exitError : Option IoError
  inputError : Option IoError

inductive ClientLoop where
  | looping (c : Attached)
  | returned (c : Attached) (status : Except IoError ClientStatus)
  deriving DecidableEq

def ClientLoop.andThen (loop : ClientLoop) (rest : Attached → ClientLoop) : ClientLoop :=
  match loop with
  | .looping c => rest c
  | .returned c status => .returned c status

/-- `send_packet_blocking(..)?` -/
def sendPacketBlocking (error : Option IoError) (pkt : Packet) (c : Attached) : ClientLoop :=
  match error with
  | none => .looping { c with sent := c.sent ++ [pkt] }
  | some err => .returned c (.error err)

def sendResize (wakeup : Wakeup) (c : Attached) : ClientLoop :=
  sendPacketBlocking wakeup.resizeError
    ⟨msgResize, u16ToNeBytes wakeup.rows ++ u16ToNeBytes wakeup.cols⟩ c

/-- `Stdin::read` with a buffer as long as a payload; it reads from the descriptor
when nothing is held. -/
def stdinRead (answer : ReadAnswer 8192) (c : Attached) : Except ErrorKind (List UInt8) × Attached :=
  if c.held = [] then
    match answer with
    | .ok slice =>
      (.ok (slice.bytes.take maxPayload),
        { c with held := slice.bytes.drop maxPayload, taken := c.taken ++ slice.bytes })
    | .err kind => (.error kind, c)
  else (.ok (c.held.take maxPayload), { c with held := c.held.drop maxPayload })

def handleSock (opts : LoopOpts) (wakeup : Wakeup) (sock : Option (Except IoError Packet))
    (c : Attached) : ClientLoop :=
  match sock with
  | none => .looping c
  | some (.error _) => .returned c (.ok .ioError)
  | some (.ok pkt) =>
    if pkt.typ = msgContent then
      if opts.passthrough then .looping c
      else match wakeup.printError with
        | none => .looping { c with printed := c.printed ++ pkt.payload }
        | some err => .returned c (.error err)
    else if pkt.typ = msgResize then sendResize wakeup c
    else if pkt.typ = msgExit then
      -- whether the packet gets back does not matter
      let c := if wakeup.exitError = none then { c with sent := c.sent ++ [pkt] } else c
      .returned c (.ok (.exited ((readU32 pkt.payload).getD 0).toInt32))
    else .looping c

def handleStdin (opts : LoopOpts) (wakeup : Wakeup) (stdin : Option (ReadAnswer 8192))
    (c : Attached) : ClientLoop :=
  match stdin with
  | none => .looping c
  | some answer =>
    match stdinRead answer c with
    | (.ok [], c) => .returned c (.ok .detached)
    | (.ok (first :: rest), c) =>
      if first = opts.detachKey then
        (sendPacketBlocking wakeup.inputError ⟨msgDetach, []⟩ c).andThen fun c =>
          .returned c (.ok .detached)
      else if opts.flags &&& clientReadonly = 0 then
        sendPacketBlocking wakeup.inputError ⟨msgContent, first :: rest⟩ c
      else .looping c
    | (.error .interrupted, c) => .looping c
    | (.error kind, c) => .returned c (.error (.os kind))

/-- One iteration of `client_loop`. -/
def Attached.wake (opts : LoopOpts) (wakeup : Wakeup) (c : Attached) : ClientLoop :=
  match wakeup.awaited with
  | .interrupted winch =>
    let pending := c.winchPending || winch
    let c := { c with winchPending := false }
    if pending then sendResize wakeup c else .looping c
  | .failed kind => .returned c (.error (.os kind))
  | .ready sock stdin => (handleSock opts wakeup sock c).andThen (handleStdin opts wakeup stdin)

inductive ClientEvent where
  /-- `handle_sigwinch`, while the client does not wait in `select` -/
  | winch
  | wakeup (wakeup : Wakeup)

def clientStep (opts : LoopOpts) (event : ClientEvent) : ClientLoop → ClientLoop
  | .looping c =>
    match event with
    | .winch => .looping { c with winchPending := true }
    | .wakeup wakeup => c.wake opts wakeup
  | .returned c status => .returned c status

end Lich
