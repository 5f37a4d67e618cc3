import Lich.Foundation.Linked
import Lich.Foundation.Ring
import Lich.Foundation.Runs
import Lich.Descriptor

/-! The C program's server.

Clients are nodes of a linked list in memory, and a freed one is absent from it:
where the program would follow a pointer to it, the model fails. The event loop
is a machine that waits in `select` or stands in its loop over the clients; what
`select`, `accept`, `read` and the clients' sockets answer are its events. A
client's address is its position among those accepted.

Left out are the permission bits of the socket file, and the sets of descriptors
but for the clients' sockets that are watched for reading.
-/

set_option autoImplicit false

namespace Lich.C

open Foundation

/-! ## Writing -/

/-- `write_all`, from the bytes already written and those left: its result, the
bytes written in all, and the answers left. -/
def writeAll : List WriteAnswer → (done left : Nat) → Int × Nat × List WriteAnswer
  | [], done, _ => (done, done, [])
  | answer :: later, done, left =>
    if left = 0 then (done, done, answer :: later)
    else match answer with
      | .err .interrupted => writeAll later done left
      | .err .wouldBlock => (done, done, later)
      | .err _ => (-1, done, later)
      | .ok count =>
        let res := min count left
        if res = 0 then (done, done, later) else writeAll later (done + res) (left - res)

/-! ## The history -/

def historyCap : Nat := 1024 * 1024

/-- The ring buffer: the array, and the part of it in use. -/
structure History where
  history : List UInt8
  start : Nat
  len : Nat

def History.empty : History := ⟨List.replicate historyCap 0, 0, 0⟩

/-- The bytes that a `memcpy` reads, if they lie in the array. -/
def region (array : List UInt8) (place count : Nat) : Option (List UInt8) :=
  if place + count ≤ array.length then some ((array.drop place).take count) else none

/-- The array that a `memcpy` writes to, if what it writes lies in it. -/
def memcpy (array : List UInt8) (place : Nat) (data : List UInt8) : Option (List UInt8) :=
  if place + data.length ≤ array.length then some (overwrite array place data) else none

def serverHistoryAppend (h : History) (buf : List UInt8) : Option History :=
  let len := buf.length
  if len ≥ historyCap then do
    let data ← region buf (len - historyCap) historyCap
    let history ← memcpy h.history 0 data
    some ⟨history, 0, historyCap⟩
  else do
    let overflow := if h.len + len > historyCap then h.len + len - historyCap else 0
    let start := (h.start + overflow) % historyCap
    let kept := h.len - overflow
    let stop := (start + kept) % historyCap
    let first := historyCap - stop
    let first := if first > len then len else first
    let data ← region buf 0 first
    let history ← memcpy h.history stop data
    let rest ← region buf first (len - first)
    let history ← memcpy history 0 rest
    some ⟨history, start, kept + len⟩

/-! ## Clients -/

inductive State where
  | connected
  | attached
  | detached
  | disconnected
  deriving DecidableEq, Repr

/-- A packet handed to `write_all`, and how many of its bytes were written. -/
structure Send where
  pkt : Packet
  taken : Nat
  deriving DecidableEq

structure Client where
  writes : List WriteAnswer
  /-- what has been sent, oldest first -/
  sends : List Send
  state : State
  flags : UInt32
  /-- whether MSG_ATTACH has come from it; nothing in the program looks at this -/
  attachSeen : Bool
  deriving DecidableEq

/-- A packet as received: the union's bytes behind `len` are what the buffer held
before. -/
structure Received where
  typ : UInt32
  len : Nat
  u : List UInt8

def Received.i (pkt : Received) : UInt32 := u32FromNeBytes (pkt.u.take 4)
def Received.rows (pkt : Received) : UInt16 := u16FromNeBytes (pkt.u.take 2)
def Received.cols (pkt : Received) : UInt16 := u16FromNeBytes ((pkt.u.drop 2).take 2)
def Received.msg (pkt : Received) : List UInt8 := pkt.u.take pkt.len

/-- Whether all of the packet was written. A packet larger than the struct is not
sent at all. -/
def sendPacket (c : Client) (pkt : Packet) : Bool × Client :=
  let size := 8 + pkt.payload.length
  if size > 8 + maxPayload then (false, c)
  else
    let (ret, taken, later) := writeAll c.writes 0 size
    (ret = size, { c with writes := later, sends := c.sends ++ [⟨pkt, taken⟩] })

def serverSendPacket (c : Client) (pkt : Packet) : Bool × Client :=
  match sendPacket c pkt with
  | (true, c) => (true, c)
  | (false, c) => (false, { c with state := .disconnected })

/-- The replay loop; `rounds` exceeds the packets it sends. -/
def sendHistoryLoop (h : History) : (rounds pos remaining : Nat) → Client → Option (Bool × Client)
  | 0, _, _, _ => none
  | rounds + 1, pos, remaining, c =>
    if remaining > 0 then do
      let chunk := historyCap - pos
      let chunk := if chunk > remaining then remaining else chunk
      let chunk := if chunk > maxPayload then maxPayload else chunk
      let msg ← region h.history pos chunk
      match serverSendPacket c ⟨msgContent, msg⟩ with
      | (false, c) => some (false, c)
      | (true, c) => sendHistoryLoop h rounds ((pos + chunk) % historyCap) (remaining - chunk) c
    else some (true, c)

def serverSendHistory (h : History) (c : Client) (sendEnd : Bool) : Option (Bool × Client) := do
  match ← sendHistoryLoop h (h.len + 1) h.start h.len c with
  | (false, c) => some (false, c)
  | (true, c) => if sendEnd then some (serverSendPacket c ⟨msgDumpEnd, []⟩) else some (true, c)

/-! ## The server -/

/-- A client that the loop has come to, and whether it was given up there. -/
structure Visit where
  client : Nat
  dropped : Bool
  deriving DecidableEq

/-- The server but for its list of clients. -/
structure Core where
  pid : UInt64
  running : Bool
  /-- -1 until the child has been waited for -/
  exitStatus : Int32
  readPty : Bool
  history : History
  exitPacketDelivered : Bool
  ptyWrites : List WriteAnswer
  /-- what was done to the pty, oldest first -/
  journal : List PtyEntry
  /-- the clients' sockets in `new_readfds` -/
  armed : List Nat
  /-- the clients that the present loop has come to -/
  visits : List Visit
  /-- the clients given up, as they were -/
  freed : List (Nat × Client)

structure Server where
  core : Core
  /-- `server.clients`, and the memory -/
  chain : Chain Client
  /-- the next address -/
  accepted : Nat

def Server.start (pid : UInt64) (readPty : Bool) (ptyWrites : List WriteAnswer) : Server where
  core := ⟨pid, true, -1, readPty, History.empty, false, ptyWrites, [], [], [], []⟩
  chain := ⟨fun _ => none, none⟩
  accepted := 0

def Server.update (s : Server) (a : Nat) (change : Client → Option Client) : Option Server := do
  let node ← s.chain.heap a
  let c ← change node.value
  return { s with chain := s.chain.set a { node with value := c } }

def serverSinkClient (s : Server) : Option Server := do
  match s.chain.head with
  | none => return s
  | some target =>
    let node ← s.chain.heap target
    match node.next with
    | none => return s
    | some next =>
      let dst ← s.chain.lastFrom s.accepted next
      let chain := s.chain.set target { node with next := none }
      let last ← chain.heap dst
      return { s with chain := { chain.set dst { last with next := some target } with head := node.next } }

def Core.writePty (core : Core) (a : Nat) (pkt : Received) : Core :=
  let (ret, _, later) := writeAll core.ptyWrites 0 pkt.len
  { core with
    ptyWrites := later
    journal := core.journal ++ [.input a pkt.msg]
    running := if ret = pkt.len then core.running else false }

def Core.setWinsize (core : Core) (a : Nat) (pkt : Received) : Core :=
  { core with journal := core.journal ++ [.resized a pkt.rows pkt.cols] }

def Core.kill (core : Core) : Core :=
  { core with journal := core.journal ++ [.signalled .winch] }

def handlePacket (s : Server) (a : Nat) (pkt : Received) : Option Server := do
  if pkt.typ = msgContent ∨ pkt.typ = msgSendKeys then
    return { s with core := s.core.writePty a pkt }
  else if pkt.typ = msgAttach then
    let s ← s.update a fun c => some { c with flags := pkt.i, attachSeen := true }
    let s ← if pkt.i &&& clientLowpriority ≠ 0 then serverSinkClient s else some s
    s.update a fun c => (serverSendHistory s.core.history c false).map Prod.snd
  else if pkt.typ = msgDump then
    s.update a fun c =>
      (serverSendHistory s.core.history c true).map fun (_, c) => { c with state := .disconnected }
  else if pkt.typ = msgResize then
    let s ← s.update a fun c => some { c with state := .attached }
    let node ← s.chain.heap a
    let core :=
      if node.value.flags &&& clientReadonly = 0 ∧ some a = s.chain.head then s.core.setWinsize a pkt
      else s.core
    return { s with core := core.kill }
  else if pkt.typ = msgExit then
    let s ← s.update a fun c => some { c with state := .disconnected }
    return { s with core := { s.core with exitPacketDelivered := true } }
  else if pkt.typ = msgDetach then
    s.update a fun c => some { c with state := .disconnected }
  else return s

/-! ## The loop over the clients -/

/-- What a visit is answered: for each client whether its socket is readable, and
then the packet received or the failure to receive one; and the status of the
child, if it is waited for meanwhile. -/
structure Answer where
  recv : Nat → Option (Option Received)
  sigchld : Option Int32

structure Walk where
  server : Server
  prevNext : Slot
  c : Option Nat
  /-- `server_packet`, if `pty_data` -/
  serverPacket : Option Packet

def exitPacket (status : Int32) : Packet := ⟨msgExit, u32ToNeBytes status.toUInt32⟩

def resizePacket : Packet := ⟨msgResize, []⟩

def Core.reap (core : Core) : Option Int32 → Core
  | none => core
  | some status => { core with exitStatus := status }

def sendPtyData (serverPacket : Option Packet) (c : Client) : Client :=
  match serverPacket with
  | some pkt => (serverSendPacket c pkt).2
  | none => c

def Core.serve (core : Core) (serverPacket : Option Packet) (c : Client) : Client :=
  let c := sendPtyData serverPacket c
  if core.running = false ∧ core.exitStatus ≠ -1 then
    (serverSendPacket c (exitPacket core.exitStatus)).2
  else c

def serverReceive (s : Server) (a : Nat) : Option (Option Received) → Option Server
  | none => some s
  | some none => s.update a fun c => some { c with state := .disconnected }
  | some (some pkt) => handlePacket s a pkt

def Core.drop (core : Core) (a : Nat) (c : Client) : Core :=
  { core with
    freed := core.freed ++ [(a, c)]
    visits := core.visits ++ [⟨a, true⟩] }

def Core.keep (core : Core) (a : Nat) : Core :=
  { core with
    armed := core.armed ++ [a]
    visits := core.visits ++ [⟨a, false⟩] }

/-- A client is freed and unlinked, and a new head told to send its size. -/
def Walk.drop (w : Walk) (s : Server) (a : Nat) (node : Foundation.Node Client) : Option Walk := do
  let first := some a = s.chain.head
  let chain ← (s.chain.free a).store w.prevNext node.next
  let s := { s with core := s.core.drop a node.value, chain }
  let s ← match s.chain.head with
    | none => some s
    | some head =>
      if first then s.update head fun c => some (serverSendPacket c resizePacket).2 else some s
  return { w with server := s, c := node.next }

def Walk.keep (w : Walk) (s : Server) (a : Nat) (node : Foundation.Node Client) : Option Walk := do
  let s ← s.update a fun c => some (s.core.serve w.serverPacket c)
  return { w with server := { s with core := s.core.keep a }, prevNext := .next a, c := node.next }

/-- One round of the loop over the clients. -/
def Walk.visit (answer : Answer) (w : Walk) : Option Walk := do
  match w.c with
  | none => return w
  | some a =>
    let s ← serverReceive { w.server with core := w.server.core.reap answer.sigchld } a (answer.recv a)
    let node ← s.chain.heap a
    if node.value.state = .disconnected then w.drop s a node else w.keep s a node

/-! ## The event loop -/

def pidPacket (pid : UInt64) : Packet := ⟨msgPid, u64ToNeBytes pid⟩

/-- The client accepted, if none of the calls fails; `writes` are the answers its
socket will get. -/
def serverAcceptClient (s : Server) (writes : List WriteAnswer) : Server :=
  let c : Client := ⟨writes, [], .connected, 0, false⟩
  let c := (serverSendPacket c (pidPacket s.core.pid)).2
  { s with
    core := { s.core with readPty := true }
    chain := { s.chain.set s.accepted ⟨c, s.chain.head⟩ with head := some s.accepted }
    accepted := s.accepted + 1 }

/-- The state after the read, and the packet if there is pty data. -/
def serverReadPty (core : Core) : ReadAnswer maxPayload → Option (Core × Option Packet)
  | .ok slice =>
    if slice.bytes = [] then some ({ core with running := false }, none)
    else do
      let history ← serverHistoryAppend core.history slice.bytes
      return ({ core with history }, some ⟨msgContent, slice.bytes⟩)
  | .err .wouldBlock => some (core, none)
  | .err .interrupted => some (core, none)
  | .err _ => some ({ core with running := false }, none)

def Server.listen (s : Server) : Option (List WriteAnswer) → Server
  | none => s
  | some writes => serverAcceptClient s writes

def Core.readable (core : Core) : Option (ReadAnswer maxPayload) → Option (Core × Option Packet)
  | none => some (core, none)
  | some read => serverReadPty core read

def Core.clear (core : Core) : Core := { core with armed := [], visits := [] }

/-- What `select` reports: a signal, or the listener and the pty. -/
structure Selected where
  interrupted : Bool
  accept : Option (List WriteAnswer)
  ptyRead : Option (ReadAnswer maxPayload)
  sigchld : Option Int32

inductive Machine where
  | selecting (server : Server)
  | walking (walk : Walk)
  | exited (server : Server)
  /-- memory was accessed where there is none -/
  | fault

def Walk.next (w : Walk) : Machine :=
  if w.c = none then .selecting w.server else .walking w

/-- From the test of the event loop to the loop over the clients. -/
def Server.select (answer : Selected) (s : Server) : Machine :=
  if s.chain.head = none ∧ s.core.exitPacketDelivered then .exited s
  else
    let s := { s with core := s.core.reap answer.sigchld }
    if answer.interrupted then .selecting s
    else
      let s := { s with core := s.core.clear }.listen answer.accept
      match s.core.readable answer.ptyRead with
      | none => .fault
      | some (core, serverPacket) => Walk.next ⟨{ s with core }, .head, s.chain.head, serverPacket⟩

inductive Event where
  | select (answer : Selected)
  | visit (answer : Answer)

/-- An event that does not concern the state is none. -/
def step (event : Event) (machine : Machine) : Machine :=
  match machine, event with
  | .selecting s, .select answer => s.select answer
  | .walking w, .visit answer =>
    match w.visit answer with
    | some w => w.next
    | none => .fault
  | machine, _ => machine

end Lich.C
