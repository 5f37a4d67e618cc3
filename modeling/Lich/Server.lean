import Lich.Input

/-! The server loop.

One iteration is a function of the server's state and of what the kernel
answers in it; a run is a list of such answers. Of the effects on the outside,
the log lines and the permission bits of the socket file are left out.
-/

set_option autoImplicit false

namespace Lich

structure Accept where
  reads : List (ReadAnswer 8192)
  writes : List WriteAnswer
  /-- how much of MSG_PID the blocking send got out -/
  pidWritten : Nat
  /-- whether `set_nonblocking` succeeded -/
  nonblocking : Bool

/-- What the outside answers during one iteration. Clock readings are given for
each client, so that they do not depend on how many are taken. -/
structure Tick where
  /-- `SHUTDOWN_REQUESTED` was set -/
  shutdown : Bool
  accepts : List Accept
  ptyReads : List (ReadAnswer maxPayload)
  /-- the wait status, when `waitpid` reports the child -/
  waitpid : Option Int32
  dumpClock : Nat → Instant
  exitClock : Nat → Instant
  now : Instant

structure Server where
  pid : UInt64
  clients : List Client
  history : History
  childExit : Option Int32
  readPty : Bool
  master : Pty
  /-- how many connections became clients -/
  accepted : Nat
  /-- the clients removed from `clients`, kept for what their peers can read -/
  dropped : List Client

def Server.start (pid : UInt64) (readPty : Bool) (writes : List WriteAnswer) : Server where
  pid := pid
  clients := []
  history := History.new
  childExit := none
  readPty := readPty
  master := ⟨writes, [], []⟩
  accepted := 0
  dropped := []

/-! ## Wait statuses -/

def wifexited (status : Int32) : Bool := status &&& 0x7f == 0

def wexitstatus (status : Int32) : Int32 := (status >>> 8) &&& 0xff

def wtermsig (status : Int32) : Int32 := status &&& 0x7f

def wifsignaled (status : Int32) : Bool := ((status &&& 0x7f) + 1).toInt8 ≥ 2

def exitStatus (status : Int32) : Int32 :=
  if wifexited status then wexitstatus status
  else if wifsignaled status then 128 + wtermsig status
  else status

def sigterm : Int32 := 15

/-! ## The steps of an iteration -/

def pollShutdown (shutdown : Bool) (server : Server) : Server :=
  if shutdown && server.childExit.isNone then
    { server with master := server.master.log (.signalled .term), childExit := some (128 + sigterm) }
  else server

def pidPacket (pid : UInt64) : Packet := ⟨msgPid, u64ToNeBytes pid⟩

def Client.accept (pid : UInt64) (id : Nat) (accept : Accept) : Client where
  stream :=
    { id := id
      reads := accept.reads
      writes := accept.writes
      greeting := (packetBytes (pidPacket pid)).take accept.pidWritten
      journal := [] }
  buf := []
  attached := false
  flags := 0
  disconnected := false
  sendQueue := []
  closeAfterDrain := none

def acceptLoop : List Accept → Server → Server
  | [], server => server
  | accept :: accepts, server =>
    if accept.nonblocking then
      acceptLoop accepts
        { server with
          clients := server.clients ++ [Client.accept server.pid server.accepted accept]
          accepted := server.accepted + 1
          readPty := true }
    else acceptLoop accepts server

def ptyLoop : List (ReadAnswer maxPayload) → Server → Server
  | [], server => server
  | .ok slice :: later, server =>
    if slice.bytes = [] then { server with readPty := false }
    else
      ptyLoop later
        { server with
          master := { server.master with output := server.master.output ++ slice.bytes }
          history := server.history.append slice.bytes
          clients := broadcastContent server.clients slice.bytes }
  | .err .wouldBlock :: _, server => server
  | .err .interrupted :: later, server => ptyLoop later server
  | .err _ :: _, server => { server with readPty := false }

def reapChild (waitpid : Option Int32) (server : Server) : Server :=
  match server.childExit, waitpid with
  | none, some status => { server with childExit := some (exitStatus status) }
  | _, _ => server

def readClients (history : History) (clock : Nat → Instant) :
    List Client → Pty → List Client × Pty
  | [], master => ([], master)
  | client :: clients, master =>
    let (client, master) := readClientPackets client master history (clock client.stream.id)
    let (clients, master) := readClients history clock clients master
    (client :: clients, master)

def exitPacket (status : Int32) : Packet := ⟨msgExit, u32ToNeBytes status.toUInt32⟩

/-- The exit branch, for one client. The result of sending is ignored. -/
def noticeExit (status : Int32) (now : Instant) (client : Client) : Client :=
  if client.disconnected || client.closeAfterDrain.isSome then client
  else (sendPacketNonblocking client (exitPacket status)).2.close .exited now

def flushClient (client : Client) : Client :=
  if client.disconnected then client
  else match tryFlushClient client with
    | (.ok _, client) => client
    | (.error _, client) => client.leave .flushFailed

def expireClient (now : Instant) (client : Client) : Client :=
  if client.disconnected then client
  else match client.closeAfterDrain with
    | none => client
    | some since =>
      if client.sendQueue = [] then client.leave .drained
      else if now - since ≥ exitDrainDeadline then client.leave .expired
      else client

/-- `clients.retain(|c| !c.disconnected)`. -/
def retainClients (server : Server) : Server :=
  { server with
    clients := server.clients.filter fun client => !client.disconnected
    dropped := server.dropped ++ server.clients.filter fun client => client.disconnected }

inductive Control where
  | running (server : Server)
  | returned (server : Server)

def Control.server : Control → Server
  | .running server => server
  | .returned server => server

/-- The state in which an iteration starts on the pty. -/
def opened (tick : Tick) (server : Server) : Server :=
  acceptLoop tick.accepts (pollShutdown tick.shutdown server)

def drained (tick : Tick) (server : Server) : Server :=
  let server := opened tick server
  reapChild tick.waitpid (if server.readPty then ptyLoop tick.ptyReads server else server)

def settled (tick : Tick) (server : Server) : Server :=
  let server := drained tick server
  let (clients, master) := readClients server.history tick.dumpClock server.clients server.master
  let server := { server with clients, master }
  let server := match server.childExit with
    | some status =>
      { server with
        clients := server.clients.map fun client : Client =>
          noticeExit status (tick.exitClock client.stream.id) client }
    | none => server
  let server := { server with clients := server.clients.map flushClient }
  { server with clients := server.clients.map (expireClient tick.now) }

def iterate (tick : Tick) (server : Server) : Control :=
  let server := retainClients (settled tick server)
  if server.childExit.isSome ∧ server.clients = [] then .returned server else .running server

/-- The loop over the iterations in which the outside answers as listed. -/
def serverLoop : List Tick → Server → Control
  | [], server => .running server
  | tick :: ticks, server =>
    match iterate tick server with
    | .running server => serverLoop ticks server
    | .returned server => .returned server

end Lich
