import Lich.Closing

/-! No byte is lost or doubled on its way to the wire.

First for any sequence of sends and flushes on one client, whoever makes them,
then for the clients of a run.
-/

set_option autoImplicit false

namespace Lich

open Foundation

/-- The two ways in which the server drives a client's queue. -/
inductive Call where
  | send (pkt : Packet)
  | flush

def Call.run (call : Call) (client : Client) : Except IoError Unit × Client :=
  match call with
  | .send pkt => sendPacketNonblocking client pkt
  | .flush => tryFlushClient client

/-- The packet would exceed the cap of the send queue. -/
def Client.Overflows (client : Client) (pkt : Packet) : Prop :=
  client.sendQueue.length + (packetBytes pkt).length > sendQueueCap

instance (client : Client) (pkt : Packet) : Decidable (client.Overflows pkt) :=
  inferInstanceAs (Decidable (_ > _))

def Call.passed (call : Call) (client : Client) : List Packet :=
  match call with
  | .send pkt => if client.Overflows pkt then [] else [pkt]
  | .flush => []

def runCalls (calls : List Call) (client : Client) : Client :=
  runSteps (fun call client => (call.run client).2) calls client

/-- The packets that pass the cap check in a sequence of calls, in call order. -/
def passed : List Call → Client → List Packet
  | [], _ => []
  | call :: calls, client => call.passed client ++ passed calls (call.run client).2

/-- What the kernel has taken and what it has still to take. -/
def Client.outbound (client : Client) : List UInt8 := client.wire ++ client.sendQueue

theorem Call.run_sent (call : Call) (client : Client) :
    ∃ entries later rest, (call.run client).2 = client.sent entries later rest ∧
      wireOf entries ++ rest =
        client.sendQueue ++ (call.passed client).flatMap packetBytes ∧
      ((call.run client).1 = .ok () →
        rest = [] ∨ entries.getLast? = some (.writeFailed .wouldBlock)) := by
  cases call with
  | flush =>
    obtain ⟨entries, later, rest, after, sent, stop⟩ := tryFlushClient_sent client
    have none : queuedOf entries = [] := List.prefix_nil.mp sent.queued
    have conserved := sent.conserved
    rw [none] at conserved
    exact ⟨entries, later, rest, after, conserved, stop⟩
  | send pkt =>
    obtain ⟨entries, later, rest, after, sent, room, full⟩ := sendPacketNonblocking_sent client pkt
    refine ⟨entries, later, rest, after, ?_⟩
    by_cases excess : client.Overflows pkt
    · obtain ⟨refused, kept, failed⟩ := full excess
      refine ⟨by simp [Call.passed, excess, refused, kept], fun ended => ?_⟩
      have same : (Call.run (.send pkt) client).1 = _ := failed
      rw [same] at ended
      cases ended
    · obtain ⟨queued, stop⟩ := room (Nat.le_of_not_lt excess)
      have conserved := sent.conserved
      rw [queued] at conserved
      exact ⟨by rw [conserved, Call.passed, if_neg excess], stop⟩

theorem Call.run_outbound (call : Call) (client : Client) :
    (call.run client).2.outbound =
      client.outbound ++ (call.passed client).flatMap packetBytes := by
  obtain ⟨entries, later, rest, after, conserved, _⟩ := call.run_sent client
  simp only [Client.outbound, Client.wire, after, Client.sent_journal, Client.sent_sendQueue,
    wireOf_append, List.append_assoc, conserved]

theorem runCalls_outbound (calls : List Call) (client : Client) :
    (runCalls calls client).outbound =
      client.outbound ++ (passed calls client).flatMap packetBytes := by
  induction calls generalizing client with
  | nil => simp [runCalls, passed]
  | cons call calls ih =>
    have rest := ih (call.run client).2
    rw [call.run_outbound] at rest
    simpa [runCalls, passed, List.append_assoc] using rest

theorem Call.run_refused {client : Client} {pkt : Packet} (excess : client.Overflows pkt) :
    Call.run (.send pkt) client =
      (.error (.new .writeZero "client send queue overflow"), client.log (.refused pkt)) :=
  if_pos excess

theorem Call.run_ok {call : Call} {client : Client} (ended : (call.run client).1 = .ok ()) :
    (call.run client).2.sendQueue = [] ∨
      (call.run client).2.stream.journal.getLast? = some (.writeFailed .wouldBlock) := by
  obtain ⟨entries, later, rest, after, _, stop⟩ := call.run_sent client
  rw [after]
  rcases stop ended with empty | blocked
  · exact .inl empty
  · right
    rw [Client.sent_journal, List.getLast?_append, blocked]
    rfl

theorem Life.outbound {ok : Client → Op → Prop} {output : List UInt8} {childExit : Option Int32}
    {client : Client} (life : Life ok output childExit client) :
    client.outbound = client.queued.flatMap packetBytes := by
  induction life with
  | start => rfl
  | reap status _ ih => exact ih
  | @step output childExit client op _ _ _ ih =>
    obtain ⟨head, send, tail, trace⟩ := client.step_trace op
    rw [Client.outbound, trace.wire, List.append_assoc, trace.sent.conserved,
      ← List.append_assoc, trace.queued, List.flatMap_append, ← ih, Client.outbound]

theorem offered_fits {op : Op} {output : List UInt8} {childExit : Option Int32}
    (legal : op.Legal output childExit) {client : Client} {pkt : Packet}
    (member : pkt ∈ op.offered client) : pkt.Fits := by
  have replay {snapshot : List UInt8} {sendEnd : Bool}
      (member : pkt ∈ replayPackets snapshot sendEnd) : pkt.Fits := by
    rcases List.mem_append.mp member with member | member
    · obtain ⟨piece, inside, rfl⟩ := List.mem_map.mp member
      exact chunks_bound inside
    · cases sendEnd with
      | false => cases member
      | true =>
        rw [List.mem_singleton.mp member]
        exact Nat.zero_le _
  have offers := op.offers client
  generalize op.offered client = packets at member offers
  cases offers with
  | nothing => cases member
  | content bytes _ =>
    rw [List.mem_singleton.mp member]
    exact legal
  | attach => exact replay member
  | dump => exact replay member
  | notice status now _ _ =>
    rw [List.mem_singleton.mp member, Packet.Fits, exitPacket, u32ToNeBytes_length]
    decide

theorem Life.fits {ok : Client → Op → Prop} {output : List UInt8} {childExit : Option Int32}
    {client : Client} (life : Life ok output childExit client) :
    ∀ pkt ∈ client.queued, pkt.Fits := by
  induction life with
  | start => exact nofun
  | reap status _ ih => exact ih
  | @step output childExit client op _ legal _ ih =>
    obtain ⟨head, send, tail, trace⟩ := client.step_trace op
    intro pkt member
    rw [trace.queued] at member
    rcases List.mem_append.mp member with member | member
    · exact ih pkt member
    · exact offered_fits legal (trace.sent.queued.subset member)

theorem Life.decoded {ok : Client → Op → Prop} {output : List UInt8} {childExit : Option Int32}
    {client : Client} (life : Life ok output childExit client) :
    packetDecoder.drain client.outbound = (client.queued, []) := by
  rw [life.outbound]
  exact Decoder.drain_encode fun pkt member => packetBytes_inverts (life.fits pkt member)

theorem Life.received {ok : Client → Op → Prop} {output : List UInt8} {childExit : Option Int32}
    {client : Client} (life : Life ok output childExit client) {front : List UInt8}
    (part : front <+: client.wire) : (packetDecoder.drain front).1 <+: client.queued := by
  obtain ⟨back, same⟩ : front <+: client.queued.flatMap packetBytes := by
    rw [← life.outbound]
    exact part.trans (List.prefix_append _ _)
  obtain ⟨done, left, parts, decoded, _⟩ := Decoder.drain_encode_of_append_eq
    (fun pkt member => packetBytes_inverts (life.fits pkt member)) same
  rw [decoded, parts]
  exact List.prefix_append _ _

def Entry.Drained : Entry → Prop
  | .left .drained => True
  | _ => False

theorem Life.drained {ok : Client → Op → Prop} {output : List UInt8} {childExit : Option Int32}
    {client : Client} (life : Life ok output childExit client) :
    Whenever Entry.Drained
      (fun before => wireOf before = (queuedOf before).flatMap packetBytes)
      client.stream.journal := by
  induction life with
  | start => exact whenever_nil
  | reap status _ ih => exact ih
  | @step output childExit client op life legal met ih =>
    obtain ⟨head, send, tail, trace⟩ := client.step_trace op
    have conserved := (life.step op legal met).outbound
    rw [trace.journal]
    refine ih.append fun before entry after same found => ?_
    have ending : entry.Ending := by cases entry <;> first | exact found.elim | trivial
    obtain ⟨more, rfl, rest⟩ := trace.behind same ending
    have empty : (client.step op).sendQueue = [] := by
      apply trace.drained
      cases entry with
      | left why => cases why <;> first | exact found.elim | simp [rest]
      | _ => exact found.elim
    have silent : ∀ entry ∈ more, entry.Ending :=
      fun entry member => trace.ending entry (by simp [rest, member])
    have wire : wireOf more = [] := wireOf_eq_nil fun entry member => (silent entry member).silent.1
    have none : queuedOf more = [] :=
      queuedOf_eq_nil fun entry member => (silent entry member).silent.2.1
    have wireHead : wireOf head = [] :=
      wireOf_eq_nil fun entry member => (trace.inbound entry member).silent.1
    have queuedHead : queuedOf head = [] :=
      queuedOf_eq_nil fun entry member => (trace.inbound entry member).silent.2
    rw [Client.outbound, empty, List.append_nil, trace.wire, trace.queued] at conserved
    simpa [wire, none, wireHead, queuedHead, Client.wire, Client.queued] using conserved

theorem Reached.outbound {ok : Client → Op → Prop} {server : Server} (reached : Reached ok server)
    {client : Client} (member : client ∈ server.everyone) :
    client.outbound = client.queued.flatMap packetBytes := by
  obtain ⟨_, _, _, _, life⟩ := reached.sound.life member
  exact life.outbound

/-- Wire conservation, for all calls on a client and for all clients of a run.
The greeting is the packet sent before the stream became non-blocking. -/
theorem wire_conservation :
    (∀ (client : Client) (calls : List Call),
      (runCalls calls client).wire ++ (runCalls calls client).sendQueue =
        client.wire ++ client.sendQueue ++ (passed calls client).flatMap packetBytes ∧
      ∀ before call after, calls = before ++ call :: after →
        let now := runCalls before client
        let next := (call.run now).2
        (∀ pkt, call = .send pkt → now.Overflows pkt →
          (call.run now).1 = .error (.new .writeZero "client send queue overflow") ∧
          next.wire = now.wire ∧ next.sendQueue = now.sendQueue) ∧
        (∀ err, (call.run now).1 = .error err →
          next.wire ++ next.sendQueue =
            now.wire ++ now.sendQueue ++ (call.passed now).flatMap packetBytes) ∧
        ((call.run now).1 = .ok () → next.sendQueue = [] ∨
          next.stream.journal.getLast? = some (.writeFailed .wouldBlock))) ∧
    (∀ server, Reached (fun _ _ => True) server → ∀ client ∈ server.everyone,
      client.wire ++ client.sendQueue = client.queued.flatMap packetBytes ∧
      client.wire <+: client.queued.flatMap packetBytes ∧
      ∀ pid, client.stream.greeting = packetBytes (pidPacket pid) →
        client.stream.greeting ++ client.wire <+:
          (pidPacket pid :: client.queued).flatMap packetBytes) := by
  refine ⟨fun client calls => ⟨runCalls_outbound calls client, ?_⟩, ?_⟩
  · intro before call after _
    refine ⟨?_, fun _ _ => call.run_outbound _, Call.run_ok⟩
    rintro pkt rfl excess
    rw [Call.run_refused excess]
    exact ⟨rfl, by simp [Client.wire, Client.log, UnixStream.log], rfl⟩
  · intro server reached client member
    have conserved : client.wire ++ client.sendQueue = client.queued.flatMap packetBytes :=
      reached.outbound member
    have front : client.wire <+: client.queued.flatMap packetBytes := ⟨_, conserved⟩
    refine ⟨conserved, front, fun pid greeted => ?_⟩
    rw [greeted, List.flatMap_cons]
    exact (List.prefix_append_right_inj _).mpr front

theorem wire_conservation_partial :
    (runCalls [.send ⟨msgDumpEnd, []⟩, .flush] (Client.accept 1 0 ⟨[], [.ok 3], 16, true⟩)).wire ++
      (runCalls [.send ⟨msgDumpEnd, []⟩, .flush]
        (Client.accept 1 0 ⟨[], [.ok 3], 16, true⟩)).sendQueue = [7, 0, 0, 0, 0, 0, 0, 0] :=
  (wire_conservation.1 (Client.accept 1 0 ⟨[], [.ok 3], 16, true⟩)
    [.send ⟨msgDumpEnd, []⟩, .flush]).1.trans (by decide)

end Lich
