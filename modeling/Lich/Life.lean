import Lich.Server
import Lich.Foundation.Runs

/-! One client's part of an iteration.

The clients of a server share the history and the pty, and nothing else. An
iteration is therefore a sequence of steps for each client alone, which
`settled_clients` takes apart. What one step can do is said once, by `Trace`.
-/

set_option autoImplicit false

namespace Lich

open Foundation

inductive Op where
  /-- one read of the pty returned these bytes -/
  | broadcast (bytes : List UInt8)
  /-- the read loop of `readClientPackets` -/
  | receive
  /-- one round of its packet loop, with what it reads of the server -/
  | packet (history : History) (seen : Nat) (now : Instant)
  | endOfStream
  | notice (status : Int32) (now : Instant)
  | flush
  | expire (now : Instant)

namespace Client

def receive (client : Client) : Client :=
  match readLoop client.stream.reads client with
  | (.failed, client) => client.leave .readError
  | (_, client) => client

def packet (client : Client) (history : History) (seen : Nat) (now : Instant) : Client :=
  match popPacket client.buf with
  | (none, buf) => { client with buf }
  | (some pkt, buf) => Client.serve { client with buf } history seen now pkt

def step (op : Op) (client : Client) : Client :=
  match op with
  | .broadcast bytes => if client.attached then broadcastTo bytes client else client
  | .receive => client.receive
  | .packet history seen now => client.packet history seen now
  | .endOfStream => client.leave .endOfStream
  | .notice status now => noticeExit status now client
  | .flush => flushClient client
  | .expire now => expireClient now client

end Client

def Op.offered (op : Op) (client : Client) : List Packet :=
  match op with
  | .broadcast bytes => if client.attached then [⟨msgContent, bytes⟩] else []
  | .packet history _ _ =>
    match (popPacket client.buf).1 with
    | some pkt =>
      if pkt.typ = msgAttach then replayPackets history.snapshot false
      else if pkt.typ = msgDump then replayPackets history.snapshot true
      else []
    | none => []
  | .notice status _ =>
    if client.disconnected || client.closeAfterDrain.isSome then [] else [exitPacket status]
  | _ => []

/-- The ways in which a step comes to offer packets. -/
inductive Op.Offers (client : Client) : Op → List Packet → Prop where
  | nothing {op : Op} : Offers client op []
  | content (bytes : List UInt8) :
      client.attached = true → Offers client (.broadcast bytes) [⟨msgContent, bytes⟩]
  | attach {pkt : Packet} (history : History) (seen : Nat) (now : Instant) :
      (popPacket client.buf).1 = some pkt → pkt.typ = msgAttach →
      Offers client (.packet history seen now) (replayPackets history.snapshot false)
  | dump {pkt : Packet} (history : History) (seen : Nat) (now : Instant) :
      (popPacket client.buf).1 = some pkt → pkt.typ = msgDump →
      Offers client (.packet history seen now) (replayPackets history.snapshot true)
  | notice (status : Int32) (now : Instant) :
      client.disconnected = false → client.closeAfterDrain = none →
      Offers client (.notice status now) [exitPacket status]

theorem Op.offers (op : Op) (client : Client) : op.Offers client (op.offered client) := by
  cases op with
  | broadcast bytes =>
    rw [offered]
    split
    · next attached => exact .content bytes attached
    · exact .nothing
  | packet history seen now =>
    rw [offered]
    split
    · next pkt found =>
      split
      · next attach => exact .attach history seen now found attach
      split
      · next dump => exact .dump history seen now found dump
      · exact .nothing
    · exact .nothing
  | notice status now =>
    rw [offered]
    split
    · exact .nothing
    · next remains =>
      simp only [Bool.or_eq_true, not_or, Bool.not_eq_true, Option.isSome_eq_false_iff,
        Option.isNone_iff_eq_none] at remains
      exact .notice status now remains.1 remains.2
  | _ => exact .nothing

def Op.taken (op : Op) (client : Client) : Option (Packet × Nat) :=
  match op with
  | .packet _ seen _ => (popPacket client.buf).1.map fun pkt => (pkt, seen)
  | _ => none

/-! ## The steps of one iteration -/

/-- The bytes that the reads of `ptyLoop` return, up to where it stops. -/
def ptyChunks : List (ReadAnswer maxPayload) → List (List UInt8)
  | .ok slice :: later => if slice.bytes = [] then [] else slice.bytes :: ptyChunks later
  | .err .interrupted :: later => ptyChunks later
  | _ => []

def readOps (client : Client) (history : History) (seen : Nat) (now : Instant) : List Op :=
  match readLoop client.stream.reads client with
  | (.failed, _) => [.receive]
  | (.blocked, client) => .receive :: List.replicate (client.buf.length + 1) (.packet history seen now)
  | (.eof, client) =>
    .receive :: List.replicate (client.buf.length + 1) (.packet history seen now) ++ [.endOfStream]

def tickChunks (tick : Tick) (server : Server) : List (List UInt8) :=
  if (opened tick server).readPty then ptyChunks tick.ptyReads else []

/-- What an iteration does to a client, in order. -/
def tickOps (tick : Tick) (server : Server) (client : Client) : List Op :=
  let after := drained tick server
  let broadcasts := (tickChunks tick server).map Op.broadcast
  let reads := readOps (runSteps Client.step broadcasts client) after.history
    after.master.output.length (tick.dumpClock client.stream.id)
  let notices := match after.childExit with
    | some status => [Op.notice status (tick.exitClock client.stream.id)]
    | none => []
  broadcasts ++ reads ++ notices ++ [.flush, .expire tick.now]

section PacketLoop

variable (history : History) (now : Instant)

theorem popPacket_none_again {buf rest : List UInt8} (none : popPacket buf = (none, rest)) :
    popPacket rest = (.none, rest) := by
  rw [popPacket_eq] at none ⊢
  cases found : packetDecoder.next buf with
  | whole pkt later => rw [found] at none; cases none
  | short =>
    rw [found] at none
    cases none
    rw [found]
  | corrupt =>
    rw [found] at none
    cases none
    rfl

theorem Client.step_packet_some {client : Client} {pkt : Packet} {buf : List UInt8} (master : Pty)
    (answer : popPacket client.buf = (some pkt, buf)) :
    client.step (.packet history master.output.length now) =
      (handlePacket history now pkt { client with buf } master).1 := by
  rw [handlePacket_fst]
  simp only [Client.step, Client.packet, answer]

theorem runSteps_replicate_fixed {op : Op} {client : Client} (fixed : client.step op = client)
    (rounds : Nat) : runSteps Client.step (List.replicate rounds op) client = client := by
  induction rounds with
  | zero => rfl
  | succ rounds ih => rw [List.replicate_succ, runSteps_cons, fixed, ih]

theorem packetLoop_fst (rounds : Nat) (client : Client) (master : Pty) :
    (packetLoop history now rounds client master).1 =
      runSteps Client.step (List.replicate rounds (.packet history master.output.length now))
        client := by
  induction rounds generalizing client master with
  | zero => rfl
  | succ rounds ih =>
    rw [packetLoop, List.replicate_succ, runSteps_cons]
    rcases answer : popPacket client.buf with ⟨found, buf⟩
    cases found with
    | none =>
      have stopped : client.step (.packet history master.output.length now) =
          { client with buf } := by
        simp only [Client.step, Client.packet, answer]
      rw [stopped, runSteps_replicate_fixed]
      simp only [Client.step, Client.packet, popPacket_none_again answer]
    | some pkt =>
      rw [Client.step_packet_some history now master answer, ← handlePacket_output history now pkt { client with buf } master]
      exact ih _ _

theorem readClientPackets_fst (client : Client) (master : Pty) :
    (readClientPackets client master history now).1 =
      runSteps Client.step (readOps client history master.output.length now) client := by
  unfold readClientPackets readOps
  rcases answer : readLoop client.stream.reads client with ⟨ending, next⟩
  have received : client.step .receive =
      match ending with
      | .failed => next.leave .readError
      | _ => next := by
    simp only [Client.step, Client.receive, answer]
    cases ending <;> rfl
  cases ending with
  | failed => exact received.symm
  | blocked =>
    simp only [runSteps_cons, received]
    exact packetLoop_fst history now _ _ _
  | eof =>
    simp only [List.cons_append, runSteps_cons, runSteps_append, received]
    exact congrArg (Client.leave · .endOfStream) (packetLoop_fst history now _ _ _)

theorem readClients_eq (clock : Nat → Instant) (clients : List Client) (master : Pty) :
    (readClients history clock clients master).1 =
        clients.map (fun client => runSteps Client.step
          (readOps client history master.output.length (clock client.stream.id)) client) ∧
      (readClients history clock clients master).2.output = master.output := by
  induction clients generalizing master with
  | nil => exact ⟨rfl, rfl⟩
  | cons client clients ih =>
    have kept := readClientPackets_output client master history (clock client.stream.id)
    obtain ⟨rest, last⟩ :=
      ih (readClientPackets client master history (clock client.stream.id)).2
    rw [kept] at rest last
    refine ⟨?_, last⟩
    rw [readClients, List.map_cons]
    exact congrArg₂ List.cons (readClientPackets_fst history _ client master) rest

end PacketLoop

/-- A server after reads of the pty: the clients, the history and the output
have taken the same pieces. -/
def Server.fed (server : Server) (pieces : List (List UInt8)) (readPty : Bool) : Server :=
  { server with
    readPty
    clients := server.clients.map (runSteps Client.step (pieces.map Op.broadcast))
    history := pieces.foldl History.append server.history
    master := { server.master with output := server.master.output ++ pieces.flatten } }

theorem Server.fed_nil (server : Server) (readPty : Bool) :
    server.fed [] readPty = { server with readPty } := by
  have same : server.clients.map (runSteps Client.step []) = server.clients := List.map_id _
  simp [fed, same]

theorem Server.fed_cons (server : Server) (bytes : List UInt8) (pieces : List (List UInt8))
    (readPty : Bool) :
    Server.fed
      { server with
        master := { server.master with output := server.master.output ++ bytes }
        history := server.history.append bytes
        clients := broadcastContent server.clients bytes } pieces readPty =
      server.fed (bytes :: pieces) readPty := by
  simp only [fed, broadcastContent, List.map_map, List.map_cons, List.foldl_cons,
    List.flatten_cons, List.append_assoc]
  rfl

theorem ptyLoop_fed (answers : List (ReadAnswer maxPayload)) (server : Server) :
    ∃ readPty, ptyLoop answers server = server.fed (ptyChunks answers) readPty := by
  induction answers generalizing server with
  | nil => exact ⟨server.readPty, (server.fed_nil _).symm⟩
  | cons answer answers ih =>
    cases answer with
    | ok slice =>
      rw [ptyLoop, ptyChunks]
      split
      · exact ⟨false, (server.fed_nil _).symm⟩
      · obtain ⟨readPty, after⟩ := ih
          { server with
            master := { server.master with output := server.master.output ++ slice.bytes }
            history := server.history.append slice.bytes
            clients := broadcastContent server.clients slice.bytes }
        exact ⟨readPty, after.trans (server.fed_cons _ _ _)⟩
    | err kind =>
      cases kind with
      | interrupted => exact ih server
      | wouldBlock => exact ⟨server.readPty, (server.fed_nil _).symm⟩
      | _ => exact ⟨false, (server.fed_nil _).symm⟩

theorem drained_eq (tick : Tick) (server : Server) :
    ∃ readPty childExit, drained tick server =
      { (opened tick server).fed (tickChunks tick server) readPty with childExit } := by
  have fed : ∃ readPty, (if (opened tick server).readPty then
      ptyLoop tick.ptyReads (opened tick server) else opened tick server) =
        (opened tick server).fed (tickChunks tick server) readPty := by
    unfold tickChunks
    split
    · exact ptyLoop_fed _ _
    · exact ⟨(opened tick server).readPty, (Server.fed_nil _ _).symm⟩
  obtain ⟨readPty, fed⟩ := fed
  refine ⟨readPty, (drained tick server).childExit, ?_⟩
  simp only [drained, fed, reapChild]
  split <;> rfl

/-! ## One step -/

def Entry.Inbound : Entry → Prop
  | .got _ | .served _ _ => True
  | _ => False

def Entry.Ending : Entry → Prop
  | .closing _ _ | .left _ => True
  | _ => False

def contentOf (packets : List Packet) : List UInt8 :=
  packets.flatMap fun pkt => if pkt.typ = msgContent then pkt.payload else []

@[simp] theorem contentOf_append (first second : List Packet) :
    contentOf (first ++ second) = contentOf first ++ contentOf second :=
  List.flatMap_append

@[simp] theorem contentOf_nil : contentOf [] = [] := rfl

@[simp] theorem contentOf_contentPackets (pieces : List (List UInt8)) :
    contentOf (contentPackets pieces) = pieces.flatten := by
  induction pieces with
  | nil => rfl
  | cons piece pieces ih =>
    have one : contentOf (contentPackets (piece :: pieces)) =
        piece ++ contentOf (contentPackets pieces) := rfl
    rw [one, ih, List.flatten_cons]

theorem contentOf_replay {snapshot : List UInt8} {sendEnd : Bool} {queued : List Packet}
    (content : contentPackets (chunks maxPayload snapshot) <+: queued)
    (offered : queued <+: replayPackets snapshot sendEnd) : contentOf queued = snapshot := by
  obtain ⟨more, rfl⟩ := content
  have mark : contentOf more = [] := by
    have tail := (List.prefix_append_right_inj _).mp offered
    cases sendEnd with
    | false => rw [List.prefix_nil.mp tail, contentOf_nil]
    | true =>
      rcases List.prefix_cons_iff.mp tail with rfl | ⟨rest, rfl, none⟩
      · rfl
      · rw [List.prefix_nil.mp none]
        simp [contentOf, msgDumpEnd, msgContent]
  rw [contentOf_append, contentOf_contentPackets, chunks_flatten (by decide), mark,
    List.append_nil]

theorem contentOf_replayPackets (snapshot : List UInt8) (sendEnd : Bool) :
    contentOf (replayPackets snapshot sendEnd) = snapshot :=
  contentOf_replay (List.prefix_append _ _) List.prefix_rfl

/-- All that a step can do to a client: it reads, then sends, then ends. -/
structure Trace (client next : Client) (offered : List Packet) (taken : Option (Packet × Nat))
    (head send tail : List Entry) : Prop where
  id : next.stream.id = client.stream.id
  greeting : next.stream.greeting = client.stream.greeting
  attached : next.attached = (client.attached || taken.any fun taken => taken.1.typ == msgAttach)
  journal : next.stream.journal = client.stream.journal ++ (head ++ send ++ tail)
  inbound : ∀ entry ∈ head, entry.Inbound
  served : servedOf head = taken.toList
  sent : Sent client.sendQueue offered send next.sendQueue
  idle : client.disconnected = true → offered = [] → send = []
  /-- only the exit notice can get lost without the client being given up -/
  complete : next.disconnected = false → contentOf (queuedOf send) = contentOf offered
  ending : ∀ entry ∈ tail, entry.Ending
  disconnected : next.disconnected = true ↔
    client.disconnected = true ∨ ∃ why, Entry.left why ∈ tail
  closing : next.closeAfterDrain.isSome = true ↔
    client.closeAfterDrain.isSome = true ∨ ∃ cause since, Entry.closing cause since ∈ tail
  exited : ∀ since, Entry.closing .exited since ∈ tail →
    client.disconnected = false ∧ client.closeAfterDrain = none ∧
      ∃ status, offered = [exitPacket status]
  drained : Entry.left .drained ∈ tail → next.sendQueue = []

section Projections

variable {entries : List Entry}

theorem wireOf_eq_nil (none : ∀ entry ∈ entries, entry.wire = []) : wireOf entries = [] := by
  rw [wireOf, List.flatMap_eq_nil_iff]
  exact none

theorem queuedOf_eq_nil (none : ∀ entry ∈ entries, entry.queued? = .none) :
    queuedOf entries = [] := by
  rw [queuedOf, List.filterMap_eq_nil_iff]
  exact none

theorem servedOf_eq_nil (none : ∀ entry ∈ entries, entry.served? = .none) :
    servedOf entries = [] := by
  rw [servedOf, List.filterMap_eq_nil_iff]
  exact none

theorem Entry.Inbound.silent {entry : Entry} (inbound : entry.Inbound) :
    entry.wire = [] ∧ entry.queued? = none := by
  cases entry <;> first | exact ⟨rfl, rfl⟩ | cases inbound

theorem Entry.Ending.silent {entry : Entry} (ending : entry.Ending) :
    entry.wire = [] ∧ entry.queued? = none ∧ entry.served? = none ∧ entry.input = [] := by
  cases entry <;> first | exact ⟨rfl, rfl, rfl, rfl⟩ | cases ending

theorem Entry.Outbound.silent {entry : Entry} (outbound : entry.Outbound) :
    entry.served? = none ∧ entry.input = [] := by
  cases entry <;> first | exact ⟨rfl, rfl⟩ | cases outbound

end Projections

section Sums

variable {client next : Client} {offered : List Packet} {taken : Option (Packet × Nat)}
  {head send tail : List Entry} (trace : Trace client next offered taken head send tail)

include trace

theorem Trace.wire : next.wire = client.wire ++ wireOf send := by
  have before := wireOf_eq_nil fun entry member => (trace.inbound entry member).silent.1
  have after := wireOf_eq_nil fun entry member => (trace.ending entry member).silent.1
  simp [Client.wire, trace.journal, before, after]

theorem Trace.queued : next.queued = client.queued ++ queuedOf send := by
  have before := queuedOf_eq_nil fun entry member => (trace.inbound entry member).silent.2
  have after := queuedOf_eq_nil fun entry member => (trace.ending entry member).silent.2.1
  simp [Client.queued, trace.journal, before, after]

theorem Trace.serves : next.served = client.served ++ taken.toList := by
  have middle := servedOf_eq_nil fun entry member => (trace.sent.outbound entry member).silent.1
  have after := servedOf_eq_nil fun entry member => (trace.ending entry member).silent.2.2.1
  simp [Client.served, trace.journal, middle, after, trace.served]

end Sums

theorem Trace.read (client : Client) (next : Client) (taken : Option (Packet × Nat))
    (head : List Entry) (id : next.stream.id = client.stream.id)
    (greeting : next.stream.greeting = client.stream.greeting)
    (attached : next.attached =
      (client.attached || taken.any fun taken => taken.1.typ == msgAttach))
    (journal : next.stream.journal = client.stream.journal ++ head)
    (inbound : ∀ entry ∈ head, entry.Inbound) (served : servedOf head = taken.toList)
    (queue : next.sendQueue = client.sendQueue) (disconnected : next.disconnected = client.disconnected)
    (closing : next.closeAfterDrain = client.closeAfterDrain) :
    Trace client next [] taken head [] [] where
  id := id
  greeting := greeting
  attached := attached
  journal := by simp [journal]
  inbound := inbound
  served := served
  sent := queue ▸ .nil _
  idle _ _ := rfl
  complete _ := rfl
  ending := by simp
  disconnected := by simp [disconnected]
  closing := by simp [closing]
  exited := by simp
  drained := by simp

theorem Trace.same (client : Client) : Trace client client [] none [] [] [] :=
  .read client client none [] rfl rfl (by simp) (by simp) (by simp) rfl rfl rfl rfl

theorem Trace.leave {client next : Client} {offered : List Packet} {taken : Option (Packet × Nat)}
    {head send : List Entry} (trace : Trace client next offered taken head send [])
    (why : Departure) (empty : why = .drained → next.sendQueue = []) :
    Trace client (next.leave why) offered taken head send [.left why] where
  id := trace.id
  greeting := trace.greeting
  attached := trace.attached
  journal := by simp [Client.leave, UnixStream.log, trace.journal]
  inbound := trace.inbound
  served := trace.served
  sent := trace.sent
  idle := trace.idle
  complete same := by cases same
  ending := by simp [Entry.Ending]
  disconnected := by simp [Client.leave]
  closing := by
    have same := trace.closing
    simp only [Client.leave]
    simpa using same
  exited := by simp
  drained member := by
    simp only [List.mem_singleton, Entry.left.injEq] at member
    exact empty member.symm

theorem Trace.close {client next : Client} {offered : List Packet} {taken : Option (Packet × Nat)}
    {head send tail : List Entry} (trace : Trace client next offered taken head send tail)
    (cause : Terminal) (since : Instant)
    (notice : cause = .exited → client.disconnected = false ∧ client.closeAfterDrain = none ∧
      ∃ status, offered = [exitPacket status]) :
    Trace client (next.close cause since) offered taken head send
      (tail ++ [.closing cause since]) where
  id := trace.id
  greeting := trace.greeting
  attached := trace.attached
  journal := by simp [Client.close, UnixStream.log, trace.journal]
  inbound := trace.inbound
  served := trace.served
  sent := trace.sent
  idle := trace.idle
  complete := trace.complete
  ending := by
    intro entry member
    rcases List.mem_append.mp member with member | member
    · exact trace.ending entry member
    · rw [List.mem_singleton.mp member]
      trivial
  disconnected := by
    have same := trace.disconnected
    simpa [Client.close] using same
  closing := by
    have last : Entry.closing cause since ∈ tail ++ [.closing cause since] := by simp
    exact ⟨fun _ => .inr ⟨cause, since, last⟩, fun _ => rfl⟩
  exited moment member := by
    rcases List.mem_append.mp member with member | member
    · exact trace.exited moment member
    · simp only [List.mem_singleton, Entry.closing.injEq] at member
      exact notice member.1.symm
  drained member := by
    rcases List.mem_append.mp member with member | member
    · exact trace.drained member
    · simp at member

theorem Trace.send {client base : Client} {offered : List Packet} {taken : Option (Packet × Nat)}
    {head send : List Entry} {rest : List UInt8} {failed : Bool} (later : List WriteAnswer)
    (trace : Trace client base [] taken head [] []) (sent : Sent base.sendQueue offered send rest)
    (idle : client.disconnected = true → offered = [] → send = [])
    (complete : failed = false → contentOf (queuedOf send) = contentOf offered) :
    Trace client ((base.sent send later rest).leaveIf failed) offered taken head send
      (if failed then [.left .sendFailed] else []) where
  id := by cases failed <;> exact trace.id
  greeting := by cases failed <;> exact trace.greeting
  attached := by cases failed <;> exact trace.attached
  journal := by
    cases failed <;> simp [Client.leaveIf, Client.leave, UnixStream.log, trace.journal]
  inbound := trace.inbound
  served := trace.served
  sent := by
    have queue : base.sendQueue = client.sendQueue := by simpa using trace.sent.conserved
    rw [← queue]
    cases failed <;> exact sent
  idle := idle
  complete := by
    cases failed with
    | false => exact fun _ => complete rfl
    | true => exact nofun
  ending := by cases failed <;> simp [Entry.Ending]
  disconnected := by
    have same := trace.disconnected
    cases failed with
    | false => exact same
    | true => exact ⟨fun _ => .inr ⟨.sendFailed, List.mem_singleton.mpr rfl⟩, fun _ => rfl⟩
  closing := by
    have same := trace.closing
    cases failed with
    | false => exact same
    | true =>
      simp only [Client.leaveIf, Client.leave]
      simpa using same
  exited := by cases failed <;> simp
  drained := by cases failed <;> simp

theorem Client.receive_cases (client : Client) :
    ∃ reads later, client.receive = client.received reads later ∨
      client.receive = (client.received reads later).leave .readError := by
  obtain ⟨reads, later, after⟩ := readLoop_received client.stream.reads client
  refine ⟨reads, later, ?_⟩
  unfold Client.receive
  rcases answer : readLoop client.stream.reads client with ⟨ending, next⟩
  rw [answer] at after
  subst after
  cases ending with
  | failed => exact .inr rfl
  | blocked | eof => exact .inl rfl

theorem flushClient_cases (client : Client) :
    flushClient client = client ∨
      client.disconnected = false ∧ ∃ send later rest, Sent client.sendQueue [] send rest ∧
        (flushClient client = client.sent send later rest ∨
          flushClient client = (client.sent send later rest).leave .flushFailed) := by
  cases gone : client.disconnected with
  | true => exact .inl (if_pos gone)
  | false =>
    obtain ⟨send, later, rest, after, sent, _⟩ := tryFlushClient_sent client
    refine .inr ⟨rfl, send, later, rest, sent, ?_⟩
    rw [flushClient, if_neg (by simp [gone])]
    rcases answer : tryFlushClient client with ⟨result, next⟩
    rw [answer] at after
    subst after
    cases result with
    | ok => exact .inl rfl
    | error => exact .inr rfl

/-! Each step has a trace. -/

theorem Client.received_trace (client : Client) (reads : List (List UInt8))
    (later : List (ReadAnswer 8192)) :
    Trace client (client.received reads later) [] none (reads.map .got) [] [] := by
  refine .read _ _ _ _ rfl rfl (by simp) rfl ?_ ?_ rfl rfl rfl
  · intro entry member
    obtain ⟨read, _, rfl⟩ := List.mem_map.mp member
    trivial
  · simp [servedOf, List.filterMap_map, Function.comp_def]

theorem Client.receive_trace (client : Client) :
    ∃ head tail, Trace client client.receive [] none head [] tail := by
  obtain ⟨reads, later, after | after⟩ := client.receive_cases
  · rw [after]
    exact ⟨_, _, client.received_trace reads later⟩
  · rw [after]
    exact ⟨_, _, (client.received_trace reads later).leave .readError fun same => by cases same⟩

theorem broadcastTo_trace (bytes : List UInt8) (client : Client) :
    ∃ send tail, Trace client (broadcastTo bytes client) [⟨msgContent, bytes⟩] none [] send tail := by
  obtain ⟨send, later, rest, failed, after, sent, all⟩ := broadcastTo_sent bytes client
  rw [after]
  exact ⟨send, _, (Trace.same client).send later sent nofun fun done => by rw [all done]⟩

theorem sendHistory_trace {client base : Client} {taken : Option (Packet × Nat)}
    {head : List Entry} (history : History) (sendEnd : Bool)
    (trace : Trace client base [] taken head [] []) :
    ∃ send tail, Trace client (sendHistory base history sendEnd)
      (replayPackets history.snapshot sendEnd) taken head send tail := by
  obtain ⟨send, later, rest, failed, after, sent, all, none⟩ :=
    sendHistory_sent base history sendEnd
  rw [after]
  refine ⟨send, _, trace.send later sent (fun _ => none) fun done => ?_⟩
  rw [contentOf_replay (all done) sent.queued, contentOf_replayPackets]

theorem Client.serve_trace {client base : Client} (history : History) (seen : Nat) (now : Instant)
    (pkt : Packet)
    (same : base.attached = client.attached)
    (trace : ∀ attached flags, attached = (client.attached || pkt.typ == msgAttach) →
      Trace client { base.log (.served pkt seen) with attached, flags } []
        (some (pkt, seen)) [.served pkt seen] [] []) :
    ∃ send tail, Trace client (base.serve history seen now pkt)
      (if pkt.typ = msgAttach then replayPackets history.snapshot false
        else if pkt.typ = msgDump then replayPackets history.snapshot true
        else [])
      (some (pkt, seen)) [.served pkt seen] send tail := by
  unfold serve
  by_cases attach : pkt.typ = msgAttach
  · rw [if_pos attach, if_pos attach]
    exact sendHistory_trace history false (trace true _ (by simp [attach]))
  · rw [if_neg attach, if_neg attach]
    have plain := trace base.attached base.flags (by simp [attach, same])
    split
    · obtain ⟨send, tail, dumped⟩ := sendHistory_trace history true plain
      dsimp only
      split
      · exact ⟨send, _, dumped.close .dumped now nofun⟩
      · exact ⟨send, tail, dumped⟩
    · split
      · exact ⟨[], _, plain.leave .detached nofun⟩
      · exact ⟨[], [], plain⟩

theorem Client.packet_trace (client : Client) (history : History) (seen : Nat) (now : Instant) :
    ∃ head send tail, Trace client (client.packet history seen now)
      (Op.offered (.packet history seen now) client) (Op.taken (.packet history seen now) client)
      head send tail := by
  unfold packet Op.offered Op.taken
  rcases popPacket client.buf with ⟨found, buf⟩
  cases found with
  | none =>
    exact ⟨[], [], [], .read _ _ _ _ rfl rfl (by simp) (by simp) (by simp) rfl rfl rfl rfl⟩
  | some pkt =>
    have popped (attached : Bool) (flags : UInt32)
        (set : attached = (client.attached || pkt.typ == msgAttach)) :
        Trace client { Client.log { client with buf } (.served pkt seen) with attached, flags } []
          (some (pkt, seen)) [.served pkt seen] [] [] :=
      .read _ _ _ _ rfl rfl set rfl (by simp [Entry.Inbound]) rfl rfl rfl rfl
    obtain ⟨send, tail, trace⟩ := Client.serve_trace history seen now pkt (by rfl) popped
    exact ⟨_, send, tail, trace⟩

theorem noticeExit_trace (status : Int32) (now : Instant) (client : Client) :
    ∃ send tail, Trace client (noticeExit status now client)
      (Op.offered (.notice status now) client) none [] send tail := by
  unfold noticeExit Op.offered
  split
  · exact ⟨[], [], .same client⟩
  · next remains =>
    obtain ⟨send, later, rest, after, sent, _⟩ := sendPacketNonblocking_sent client (exitPacket status)
    have quiet : contentOf (queuedOf send) = contentOf [exitPacket status] := by
      rcases List.prefix_cons_iff.mp sent.queued with none | ⟨more, same, none⟩
      · rw [none]
        rfl
      · rw [same, List.prefix_nil.mp none]
    have trace : Trace client ((client.sent send later rest).leaveIf false) _ none [] send _ :=
      (Trace.same client).send later sent nofun fun _ => quiet
    rw [after]
    simp only [Bool.or_eq_true, not_or, Bool.not_eq_true, Option.isSome_eq_false_iff,
      Option.isNone_iff_eq_none] at remains
    exact ⟨send, _, trace.close .exited now fun _ => ⟨remains.1, remains.2, status, rfl⟩⟩

theorem flushClient_trace (client : Client) :
    ∃ send tail, Trace client (flushClient client) [] none [] send tail := by
  rcases flushClient_cases client with same | ⟨remains, send, later, rest, sent, after⟩
  · rw [same]
    exact ⟨[], [], .same client⟩
  · have none : queuedOf send = [] := List.prefix_nil.mp sent.queued
    have trace : Trace client ((client.sent send later rest).leaveIf false) [] .none [] send _ :=
      (Trace.same client).send later sent (fun closed => by cases remains.symm.trans closed) fun _ => by
        rw [none]
    rcases after with after | after
    · rw [after]
      exact ⟨send, _, trace⟩
    · rw [after]
      exact ⟨send, _, trace.leave .flushFailed nofun⟩

theorem expireClient_trace (now : Instant) (client : Client) :
    ∃ tail, Trace client (expireClient now client) [] none [] [] tail := by
  have same := Trace.same client
  unfold expireClient
  split
  · exact ⟨_, same⟩
  · split
    · exact ⟨_, same⟩
    · split
      · next empty => exact ⟨_, same.leave .drained fun _ => empty⟩
      · split
        · exact ⟨_, same.leave .expired nofun⟩
        · exact ⟨_, same⟩

theorem Client.step_trace (op : Op) (client : Client) :
    ∃ head send tail,
      Trace client (client.step op) (op.offered client) (op.taken client) head send tail := by
  cases op with
  | broadcast bytes =>
    simp only [Client.step, Op.offered, Op.taken]
    split
    · exact ⟨[], broadcastTo_trace bytes client⟩
    · exact ⟨[], [], [], .same client⟩
  | receive =>
    obtain ⟨head, tail, trace⟩ := client.receive_trace
    exact ⟨head, [], tail, trace⟩
  | packet history seen now => exact client.packet_trace history seen now
  | endOfStream => exact ⟨[], [], _, (Trace.same client).leave .endOfStream nofun⟩
  | notice status now => exact ⟨[], noticeExit_trace status now client⟩
  | flush => exact ⟨[], flushClient_trace client⟩
  | expire now =>
    obtain ⟨tail, trace⟩ := expireClient_trace now client
    exact ⟨[], [], tail, trace⟩

end Lich
