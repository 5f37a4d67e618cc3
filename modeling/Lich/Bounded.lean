import Lich.Closing
import Lich.Overlong

/-! What the server keeps is bounded.

The history keeps the tail of the output. Of what a client has sent, no more
than the front of one packet stays in its buffer from one tick to the next, and
of what it is to be sent, no more than the cap of its queue.
-/

set_option autoImplicit false

namespace Lich

open Foundation

variable {ok : Client → Op → Prop} {output : List UInt8} {childExit : Option Int32}
  {client : Client}

/-! ## The history -/

-- A history that starts out empty is the history of what is appended to it,
-- whose snapshot is a tail of the concatenation.
theorem history_is_tail (pieces : List (List UInt8)) :
    (pieces.foldl History.append History.new).snapshot =
        pieces.flatten.drop (pieces.flatten.length - historyCap) ∧
      (pieces.foldl History.append History.new).snapshot.length =
        min pieces.flatten.length historyCap ∧
      ∀ other : List (List UInt8), other.flatten = pieces.flatten →
        (other.foldl History.append History.new).snapshot =
          (pieces.foldl History.append History.new).snapshot := by
  have tail (pieces : List (List UInt8)) : (pieces.foldl History.append History.new).snapshot =
      pieces.flatten.rtake historyCap := by
    have after := foldl_history [] pieces
    rw [History.after_nil, List.nil_append] at after
    rw [after, History.snapshot, History.after_bytes]
  refine ⟨tail pieces, ?_, fun other same => ?_⟩
  · rw [tail, rtake_length, Nat.min_comm]
  · rw [tail, tail, same]

theorem history_is_tail_two_reads :
    ([[1, 2], [3]].foldl History.append History.new).snapshot =
      ([[1], [2, 3]].foldl History.append History.new).snapshot :=
  (history_is_tail [[1], [2, 3]]).2.2 [[1, 2], [3]] rfl

/-! ## The queues and the buffers -/

theorem Life.queue_capped (life : Life ok output childExit client) :
    client.sendQueue.length ≤ sendQueueCap := by
  induction life with
  | start => exact Nat.zero_le _
  | reap status _ ih => exact ih
  | @step output childExit client op _ _ _ ih =>
    obtain ⟨head, send, tail, trace⟩ := client.step_trace op
    exact trace.sent.bounded ih

theorem Life.unbroken (life : Life ok output childExit client)
    (kept : client.disconnected = false) : client.intake.broken = false := by
  apply Bool.eq_false_iff.mpr
  intro broken
  have member : Entry.left .readError ∈ client.stream.journal := by
    simpa [Client.intake] using broken
  have gone := life.marked.left.mpr ⟨_, member, trivial⟩
  rw [kept] at gone
  cases gone

theorem nextPacket_short {buf : List UInt8} :
    nextPacket buf = .short ↔
      buf.length < 8 ∨ headerLen buf ≤ maxPayload ∧ buf.length < 8 + headerLen buf := by
  unfold nextPacket
  constructor
  · intro found
    split at found
    · exact .inl (by assumption)
    · split at found
      · cases found
      · split at found
        · exact .inr ⟨by omega, by assumption⟩
        · cases found
  · intro short
    split
    · rfl
    · rw [if_neg (by omega), if_pos (by omega)]

theorem popPacket_short {buf : List UInt8} (short : packetDecoder.next buf = .short) :
    popPacket buf = (none, buf) := by
  rw [popPacket_eq, short]

structure Server.Bounded (server : Server) : Prop where
  history : server.history.bytes.length ≤ historyCap
  queue : ∀ client ∈ server.clients, client.sendQueue.length ≤ sendQueueCap
  /-- neither a packet nor an over-long header can be taken from the buffer -/
  nothing : ∀ client ∈ server.clients, popPacket client.buf = (none, client.buf)
  short : ∀ client ∈ server.clients, client.buf.length < 8 + maxPayload
  header : ∀ client ∈ server.clients, 8 ≤ client.buf.length →
    headerLen client.buf ≤ maxPayload ∧ client.buf.length - 8 < headerLen client.buf

theorem Reached.waiting {server : Server} (reached : Reached ok server) :
    ∀ client ∈ server.clients, packetDecoder.next client.buf = .short := by
  intro client member
  have sound := reached.sound
  obtain ⟨pid, readPty, writes, ticks, _, rfl⟩ := reached
  obtain ⟨life, kept⟩ := sound.clients client member
  have waiting := everyone_of_ticked tickOps_waiting ticks
    (by simp [Server.start, Server.everyone]) client (List.mem_append_left _ member)
  rcases waiting with broken | short
  · rw [life.unbroken kept] at broken
    cases broken
  · exact short

-- Runs are lists of ticks, so the state after a run is the one at the end of its
-- last tick, and every tick of a run is the last one of a shorter run.
theorem bounded_after_every_tick (pid : UInt64) (readPty : Bool) (writes : List WriteAnswer)
    (ticks : List Tick) :
    (serverLoop ticks (Server.start pid readPty writes)).server.Bounded := by
  have reached : Reached (fun _ _ => True)
      (serverLoop ticks (Server.start pid readPty writes)).server :=
    ⟨pid, readPty, writes, ticks, runMeets_of_forall (fun _ _ => trivial) _ _, rfl⟩
  have waiting := reached.waiting
  refine ⟨History.bound _, ?_, ?_, ?_, ?_⟩
  · intro client member
    exact (reached.sound.clients client member).1.queue_capped
  · intro client member
    exact popPacket_short (waiting client member)
  · intro client member
    have short := nextPacket_short.mp (waiting client member)
    omega
  · intro client member header
    have short := nextPacket_short.mp (waiting client member)
    omega

end Lich
