import Lich.Packet

/-! What the kernel holds for the server: client sockets and the pty master.

A descriptor carries the answers its later system calls will get, in order, and
a journal of what has gone through it. A run fixes the answers in advance, so
every theorem over all descriptors is one over all behaviours of the kernel and
of the peers. Where the listed answers end, a non-blocking call blocks.

The journal also takes the decisions the server makes about a connection. No
definition of the server reads it.
-/

set_option autoImplicit false

namespace Lich

/-- Monotonic clock readings, in nanoseconds. -/
abbrev Instant := Nat

/-- The bytes one `read` puts into a buffer of the given size. None at all is
end of file. -/
structure Slice (size : Nat) where
  bytes : List UInt8
  bound : bytes.length ≤ size
  deriving DecidableEq

inductive ReadAnswer (size : Nat) where
  | ok (slice : Slice size)
  | err (kind : ErrorKind)
  deriving DecidableEq

/-- How many bytes one `write` takes, or why it takes none. -/
inductive WriteAnswer where
  | ok (count : Nat)
  | err (kind : ErrorKind)
  deriving DecidableEq

/-! ## Client sockets -/

/-- Why the server gives a client up. -/
inductive Departure where
  | readError
  | detached
  | endOfStream
  | sendFailed
  | flushFailed
  | drained
  | expired
  deriving DecidableEq, Repr

/-- What starts the closing of a client. -/
inductive Terminal where
  | dumped
  | exited
  deriving DecidableEq, Repr

inductive Entry where
  /-- a read returned these bytes -/
  | got (bytes : List UInt8)
  /-- the packet loop took this packet when so many pty bytes had been read -/
  | served (pkt : Packet) (seen : Nat)
  /-- the packet went to the send queue -/
  | queued (pkt : Packet)
  /-- the packet found no room in the send queue -/
  | refused (pkt : Packet)
  /-- a write took these bytes -/
  | wrote (bytes : List UInt8)
  | writeFailed (kind : ErrorKind)
  | closing (cause : Terminal) (since : Instant)
  | left (why : Departure)
  deriving DecidableEq

structure UnixStream where
  /-- the position of this connection among those accepted -/
  id : Nat
  reads : List (ReadAnswer 8192)
  writes : List WriteAnswer
  /-- what went out before the stream became a client's -/
  greeting : List UInt8
  journal : List Entry
  deriving DecidableEq

def Entry.wire : Entry → List UInt8
  | .wrote bytes => bytes
  | _ => []

def Entry.input : Entry → List UInt8
  | .got bytes => bytes
  | _ => []

def Entry.queued? : Entry → Option Packet
  | .queued pkt => some pkt
  | _ => none

def Entry.served? : Entry → Option (Packet × Nat)
  | .served pkt seen => some (pkt, seen)
  | _ => none

/-- The bytes the kernel has taken for the peer. -/
def wireOf (journal : List Entry) : List UInt8 := journal.flatMap Entry.wire

def inputOf (journal : List Entry) : List UInt8 := journal.flatMap Entry.input

/-- The packets that went to the send queue, oldest first. -/
def queuedOf (journal : List Entry) : List Packet := journal.filterMap Entry.queued?

/-- The packets taken from the peer, with the pty output read before each. -/
def servedOf (journal : List Entry) : List (Packet × Nat) := journal.filterMap Entry.served?

@[simp] theorem wireOf_nil : wireOf [] = [] := rfl
@[simp] theorem inputOf_nil : inputOf [] = [] := rfl
@[simp] theorem queuedOf_nil : queuedOf [] = [] := rfl
@[simp] theorem servedOf_nil : servedOf [] = [] := rfl

@[simp] theorem wireOf_append (first second : List Entry) :
    wireOf (first ++ second) = wireOf first ++ wireOf second :=
  List.flatMap_append

@[simp] theorem inputOf_append (first second : List Entry) :
    inputOf (first ++ second) = inputOf first ++ inputOf second :=
  List.flatMap_append

@[simp] theorem queuedOf_append (first second : List Entry) :
    queuedOf (first ++ second) = queuedOf first ++ queuedOf second :=
  List.filterMap_append

@[simp] theorem servedOf_append (first second : List Entry) :
    servedOf (first ++ second) = servedOf first ++ servedOf second :=
  List.filterMap_append

@[simp] theorem wireOf_cons (entry : Entry) (rest : List Entry) :
    wireOf (entry :: rest) = entry.wire ++ wireOf rest :=
  List.flatMap_cons

@[simp] theorem inputOf_cons (entry : Entry) (rest : List Entry) :
    inputOf (entry :: rest) = entry.input ++ inputOf rest :=
  List.flatMap_cons

@[simp] theorem queuedOf_cons (entry : Entry) (rest : List Entry) :
    queuedOf (entry :: rest) = entry.queued?.toList ++ queuedOf rest := by
  cases entry <;> rfl

@[simp] theorem servedOf_cons (entry : Entry) (rest : List Entry) :
    servedOf (entry :: rest) = entry.served?.toList ++ servedOf rest := by
  cases entry <;> rfl

attribute [simp] Entry.wire Entry.input Entry.queued? Entry.served?

def UnixStream.log (stream : UnixStream) (entry : Entry) : UnixStream :=
  { stream with journal := stream.journal ++ [entry] }

/-- `write` on the non-blocking socket. The kernel takes no more than it is
offered. -/
def UnixStream.write (stream : UnixStream) (offered : List UInt8) : WriteAnswer × UnixStream :=
  match stream.writes with
  | [] => (.err .wouldBlock, stream.log (.writeFailed .wouldBlock))
  | .ok count :: later =>
    (.ok (min count offered.length),
      { stream with writes := later }.log (.wrote (offered.take count)))
  | .err kind :: later => (.err kind, { stream with writes := later }.log (.writeFailed kind))

theorem UnixStream.write_cases (stream : UnixStream) (offered : List UInt8) :
    (∃ count later, count ≤ offered.length ∧ later.length < stream.writes.length ∧
      stream.write offered = (.ok count,
        { stream with
          writes := later
          journal := stream.journal ++ [.wrote (offered.take count)] })) ∨
    (∃ kind later, (kind = .wouldBlock ∨ later.length < stream.writes.length) ∧
      stream.write offered = (.err kind,
        { stream with
          writes := later
          journal := stream.journal ++ [.writeFailed kind] })) := by
  unfold write
  split
  · next none => exact .inr ⟨.wouldBlock, stream.writes, .inl rfl, rfl⟩
  · next count later next =>
    refine .inl ⟨min count offered.length, later, Nat.min_le_right _ _, by simp [next], ?_⟩
    have front : offered.take (min count offered.length) = offered.take count := by
      rw [List.take_eq_take_iff]
      omega
    rw [front]
    rfl
  · next kind later next => exact .inr ⟨kind, later, .inr (by simp [next]), rfl⟩

/-! ## The pty master -/

inductive Signal where
  | winch
  | term
  deriving DecidableEq, Repr

inductive PtyEntry where
  /-- a client's payload is handed to `fdWriteAll` -/
  | input (client : Nat) (payload : List UInt8)
  /-- a write took these bytes -/
  | wrote (bytes : List UInt8)
  | writeFailed (kind : ErrorKind)
  /-- a client's window size is set with `TIOCSWINSZ` -/
  | resized (client : Nat) (rows cols : UInt16)
  /-- a signal goes to the child's process group -/
  | signalled (signal : Signal)
  deriving DecidableEq

structure Pty where
  writes : List WriteAnswer
  /-- everything read from the master so far -/
  output : List UInt8
  journal : List PtyEntry
  deriving DecidableEq

def Pty.log (master : Pty) (entry : PtyEntry) : Pty :=
  { master with journal := master.journal ++ [entry] }

def Pty.write (master : Pty) (offered : List UInt8) : WriteAnswer × Pty :=
  match master.writes with
  | [] => (.err .wouldBlock, master.log (.writeFailed .wouldBlock))
  | .ok count :: later =>
    (.ok (min count offered.length),
      { master with writes := later }.log (.wrote (offered.take count)))
  | .err kind :: later => (.err kind, { master with writes := later }.log (.writeFailed kind))

/-- The write loop on the master; `rounds` exceeds the answers left. -/
def fdWriteLoop : (rounds : Nat) → Pty → List UInt8 → Except IoError Unit × Pty
  | 0, master, _ => (.ok (), master)
  | rounds + 1, master, buf =>
    if buf = [] then (.ok (), master)
    else match master.write buf with
      | (.err .interrupted, master) => fdWriteLoop rounds master buf
      | (.err kind, master) => (.error (.os kind), master)
      | (.ok 0, master) => (.error (.new .writeZero "short write"), master)
      | (.ok count, master) => fdWriteLoop rounds master (buf.drop count)

def fdWriteAll (master : Pty) (buf : List UInt8) : Except IoError Unit × Pty :=
  fdWriteLoop (master.writes.length + 1) master buf

@[simp] theorem Pty.log_output (master : Pty) (entry : PtyEntry) :
    (master.log entry).output = master.output := rfl

theorem Pty.write_output (master : Pty) (offered : List UInt8) :
    (master.write offered).2.output = master.output := by
  unfold Pty.write
  split <;> rfl

theorem fdWriteLoop_output (rounds : Nat) (master : Pty) (buf : List UInt8) :
    (fdWriteLoop rounds master buf).2.output = master.output := by
  induction rounds generalizing master buf with
  | zero => rfl
  | succ rounds ih =>
    have kept := master.write_output buf
    rw [fdWriteLoop]
    split
    · rfl
    · split <;> simp_all

@[simp] theorem fdWriteAll_output (master : Pty) (buf : List UInt8) :
    (fdWriteAll master buf).2.output = master.output :=
  fdWriteLoop_output _ master buf

end Lich
