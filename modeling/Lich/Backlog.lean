import Lich.Closing

/-! A client whose peer reads nothing.

Every write to it would block, so all it is sent stays in its queue.
-/

set_option autoImplicit false

namespace Lich

open Foundation

variable {client : Client}

theorem tryFlushClient_blocked (blocked : client.stream.writes = [])
    (waiting : client.sendQueue ≠ []) :
    tryFlushClient client =
      (.ok (), client.sent [.writeFailed .wouldBlock] [] client.sendQueue) := by
  simp only [tryFlushClient, tryFlushLoop, waiting, UnixStream.write, blocked, if_false]
  simp only [Client.sent, UnixStream.log, blocked]

theorem sendPacketNonblocking_blocked (blocked : client.stream.writes = []) {pkt : Packet}
    (room : client.sendQueue.length + (packetBytes pkt).length ≤ sendQueueCap) :
    sendPacketNonblocking client pkt =
      (.ok (), client.sent [.queued pkt, .writeFailed .wouldBlock] []
        (client.sendQueue ++ packetBytes pkt)) := by
  have size := packetBytes_length pkt
  have waiting : client.sendQueue ++ packetBytes pkt ≠ [] := by
    apply List.ne_nil_of_length_pos
    rw [List.length_append]
    omega
  have flushed := @tryFlushClient_blocked
    (({ client with sendQueue := client.sendQueue ++ packetBytes pkt } : Client).log (.queued pkt))
    blocked waiting
  rw [sendPacketNonblocking, if_neg (Nat.not_lt_of_le room), flushed]
  simp [Client.sent, Client.log, UnixStream.log]

theorem broadcasts_blocked {bytes : List UInt8} (count : Nat) (attached : client.attached = true)
    (blocked : client.stream.writes = [])
    (room : client.sendQueue.length + count * (8 + bytes.length) ≤ sendQueueCap) :
    ∃ entries rest,
      runSteps Client.step (List.replicate count (.broadcast bytes)) client =
        client.sent entries [] rest ∧
      rest.length = client.sendQueue.length + count * (8 + bytes.length) ∧
      ∀ entry ∈ entries,
        entry = .queued ⟨msgContent, bytes⟩ ∨ entry = .writeFailed .wouldBlock := by
  induction count generalizing client with
  | zero =>
    refine ⟨[], client.sendQueue, ?_, by simp, by simp⟩
    rw [← blocked]
    exact client.sent_self.symm
  | succ count ih =>
    have each : (packetBytes ⟨msgContent, bytes⟩).length = 8 + bytes.length := packetBytes_length _
    have more : (count + 1) * (8 + bytes.length) = count * (8 + bytes.length) + (8 + bytes.length) :=
      Nat.succ_mul _ _
    have first : client.sendQueue.length + (packetBytes ⟨msgContent, bytes⟩).length ≤
        sendQueueCap := by omega
    have stepped : client.step (.broadcast bytes) =
        client.sent [.queued ⟨msgContent, bytes⟩, .writeFailed .wouldBlock] []
          (client.sendQueue ++ packetBytes ⟨msgContent, bytes⟩) := by
      simp only [Client.step, attached, if_true, broadcastTo,
        sendPacketNonblocking_blocked blocked first]
    have longer : (client.sendQueue ++ packetBytes ⟨msgContent, bytes⟩).length =
        client.sendQueue.length + (8 + bytes.length) := by
      rw [List.length_append, each]
    obtain ⟨entries, rest, after, size, kinds⟩ := @ih
      (client.sent [.queued ⟨msgContent, bytes⟩, .writeFailed .wouldBlock] []
        (client.sendQueue ++ packetBytes ⟨msgContent, bytes⟩)) attached rfl (by
        rw [Client.sent_sendQueue, longer]
        omega)
    rw [Client.sent_sendQueue, longer] at size
    refine ⟨[.queued ⟨msgContent, bytes⟩, .writeFailed .wouldBlock] ++ entries, rest, ?_, ?_, ?_⟩
    · rw [List.replicate_succ, runSteps_cons, stepped, after, Client.sent_sent]
    · omega
    · intro entry member
      rcases List.mem_append.mp member with member | member
      · simpa using member
      · exact kinds entry member

theorem ptyChunks_ok {slices : List (Slice maxPayload)}
    (nonempty : ∀ slice ∈ slices, slice.bytes ≠ []) :
    ptyChunks (slices.map .ok) = slices.map Slice.bytes := by
  induction slices with
  | nil => rfl
  | cons slice slices ih =>
    rw [List.map_cons, ptyChunks, if_neg (nonempty slice (by simp)), List.map_cons,
      ih fun other member => nonempty other (by simp [member])]

theorem readOps_idle (silent : client.stream.reads = []) (empty : client.buf = [])
    (history : History) (seen : Nat) (now : Instant) :
    runSteps Client.step (readOps client history seen now) client = client := by
  have same : client.received [] [] = client := by
    rw [← silent]
    simp [Client.received]
  have loop : readLoop client.stream.reads client = (.blocked, client) := by
    rw [silent, readLoop, same]
  have received : client.step .receive = client := by
    simp only [Client.step, Client.receive, loop]
  have none : popPacket client.buf = (none, client.buf) := by
    rw [empty]
    rfl
  simp only [readOps, loop, runSteps_cons, received]
  apply runSteps_replicate_fixed
  simp only [Client.step, Client.packet, none]

theorem runSteps_journal (ops : List Op) (client : Client) :
    ∃ more, (runSteps Client.step ops client).stream.journal = client.stream.journal ++ more := by
  induction ops generalizing client with
  | nil => exact ⟨[], (List.append_nil _).symm⟩
  | cons op ops ih =>
    obtain ⟨head, send, tail, trace⟩ := client.step_trace op
    obtain ⟨more, after⟩ := ih (client.step op)
    exact ⟨_, by rw [runSteps_cons, after, trace.journal, List.append_assoc]⟩

/-! ## A client that has attached and reads nothing -/

def parked : Client where
  stream :=
    { id := 0
      reads := []
      writes := []
      greeting := packetBytes (pidPacket 1)
      journal := [.got (packetBytes ⟨msgAttach, [0, 0, 0, 0]⟩), .served ⟨msgAttach, [0, 0, 0, 0]⟩ 0] }
  buf := []
  attached := true
  flags := 0
  disconnected := false
  sendQueue := []
  closeAfterDrain := none

def parkedServer : Server :=
  (iterate { Tick.idle with accepts := [attacher] } (Server.start 1 true [])).server

theorem parkedServer_clients : parkedServer.clients = [parked] := by decide

def outputTick (reads : List (ReadAnswer maxPayload)) (waitpid : Option Int32) : Tick :=
  { Tick.idle with ptyReads := reads, waitpid := waitpid }

theorem outputTick_reached (reads : List (ReadAnswer maxPayload)) (waitpid : Option Int32) :
    Reached (fun _ _ => True) (iterate (outputTick reads waitpid) parkedServer).server := by
  refine ⟨1, true, [], [{ Tick.idle with accepts := [attacher] }, outputTick reads waitpid],
    runMeets_of_forall (fun _ _ => trivial) _ _, ?_⟩
  have first : iterate { Tick.idle with accepts := [attacher] } (Server.start 1 true []) =
      .running parkedServer := rfl
  simp only [serverLoop, first]
  cases iterate (outputTick reads waitpid) parkedServer <;> rfl

theorem outputTick_client (reads : List (ReadAnswer maxPayload)) (waitpid : Option Int32) :
    ∃ client ∈ (iterate (outputTick reads waitpid) parkedServer).server.everyone, ∃ ops,
      client = runSteps Client.step
        ((ptyChunks reads).map Op.broadcast ++
          readOps (runSteps Client.step ((ptyChunks reads).map Op.broadcast) parked)
            (drained (outputTick reads waitpid) parkedServer).history
            (drained (outputTick reads waitpid) parkedServer).master.output.length 0 ++
          ((waitpid.map exitStatus).map fun status => Op.notice status 0).toList ++ ops) parked := by
  have unchanged : opened (outputTick reads waitpid) parkedServer = parkedServer := rfl
  have member : parked ∈ (opened (outputTick reads waitpid) parkedServer).clients := by
    rw [unchanged, parkedServer_clients]
    exact List.mem_singleton.mpr rfl
  have pieces : tickChunks (outputTick reads waitpid) parkedServer = ptyChunks reads := by
    have watched : (opened (outputTick reads waitpid) parkedServer).readPty = true := rfl
    rw [tickChunks, watched]
    rfl
  have exit : (drained (outputTick reads waitpid) parkedServer).childExit =
      waitpid.map exitStatus := by
    have none : (opened (outputTick reads waitpid) parkedServer).childExit = none := rfl
    rw [drained_childExit, none]
    rfl
  refine ⟨_, iterate_everyone member, [.flush, .expire 0], ?_⟩
  rw [tickOps]
  simp only [pieces, exit]
  cases waitpid <;> rfl

theorem outputTick_journal (reads : List (ReadAnswer maxPayload)) (waitpid : Option Int32) :
    ∃ client ∈ (iterate (outputTick reads waitpid) parkedServer).server.everyone, ∃ more,
      client.stream.journal =
        (runSteps Client.step ((ptyChunks reads).map Op.broadcast) parked).stream.journal ++ more := by
  obtain ⟨client, member, ops, after⟩ := outputTick_client reads waitpid
  simp only [List.append_assoc] at after
  rw [runSteps_append] at after
  obtain ⟨more, journal⟩ := runSteps_journal _ _
  exact ⟨client, member, more, (congrArg (fun client => client.stream.journal) after).trans journal⟩

def fullSlice : Slice maxPayload :=
  ⟨List.replicate maxPayload 65, Nat.le_of_eq List.length_replicate⟩

theorem fullSlice_ne_nil : fullSlice.bytes ≠ [] := by
  apply List.ne_nil_of_length_pos
  rw [fullSlice, List.length_replicate]
  decide

theorem full_backlog : 4096 * (8 + fullSlice.bytes.length) = sendQueueCap := by
  rw [fullSlice, List.length_replicate]
  decide

theorem parked_filled (bytes : List UInt8) (count : Nat)
    (room : count * (8 + bytes.length) ≤ sendQueueCap) :
    ∃ entries rest,
      runSteps Client.step (List.replicate count (.broadcast bytes)) parked =
        parked.sent entries [] rest ∧
      rest.length = count * (8 + bytes.length) ∧
      ∀ entry ∈ entries,
        entry = .queued ⟨msgContent, bytes⟩ ∨ entry = .writeFailed .wouldBlock := by
  have none : parked.sendQueue.length = 0 := rfl
  obtain ⟨entries, rest, after, size, kinds⟩ :=
    @broadcasts_blocked parked bytes count rfl rfl (by omega)
  exact ⟨entries, rest, after, by omega, kinds⟩

end Lich
