import Lich.Backlog
import Lich.Conservation

/-! Holes in a client's stream.

A packet that is refused, or whose sending fails, is lost. What the client has
received stays a front of what it was sent as long as nothing follows the loss.
-/

set_option autoImplicit false

namespace Lich

open Foundation

def Client.Hurt (client : Client) : Prop := ∃ entry ∈ client.stream.journal, entry.Loses

instance (client : Client) : Decidable client.Hurt :=
  inferInstanceAs (Decidable (∃ entry ∈ client.stream.journal, entry.Loses))

/-- After a failed send nothing is queued or written, and after a refused packet
nothing is queued. -/
structure Client.NoHole (client : Client) : Prop where
  silent : NeverAfter Entry.Fails Entry.Sends client.stream.journal
  refused : NeverAfter Entry.Refuses Entry.Queues client.stream.journal

def Entry.addressed? : Entry → Option Packet
  | .queued pkt | .refused pkt => some pkt
  | _ => none

/-- The packets that were to be sent, whether the queue took them or not. -/
def addressedOf (journal : List Entry) : List Packet := journal.filterMap Entry.addressed?

def Client.addressed (client : Client) : List Packet := addressedOf client.stream.journal

theorem queuedOf_prefix_addressedOf {journal : List Entry}
    (order : NeverAfter Entry.Refuses Entry.Queues journal) :
    queuedOf journal <+: addressedOf journal := by
  induction journal with
  | nil => exact List.prefix_rfl
  | cons entry journal ih =>
    obtain ⟨after, rest⟩ := List.pairwise_cons.mp order
    cases entry with
    | queued pkt => exact (List.prefix_cons_inj pkt).mpr (ih rest)
    | refused pkt =>
      have none : queuedOf journal = [] :=
        queuedOf_eq_nil_iff.mpr fun other member => after other member trivial
      rw [queuedOf_cons, none]
      exact List.nil_prefix
    | _ => exact ih rest

theorem Client.NoHole.queued {client : Client} (whole : client.NoHole) :
    client.queued <+: client.addressed :=
  queuedOf_prefix_addressedOf whole.refused

theorem Entry.Fails.ends {entry : Entry} (kind : entry.Fails) : entry.Ending := by
  cases entry <;> first | exact kind.elim | trivial

theorem Entry.Fails.leaves {entry : Entry} (kind : entry.Fails) : entry.Leaves := by
  cases entry <;> first | exact kind.elim | trivial

theorem Entry.loses_iff {entry : Entry} : entry.Loses ↔ entry.Refuses ∨ entry.Fails := by
  cases entry with
  | left why => cases why <;> simp [Loses, Refuses, Fails]
  | _ => simp [Loses, Refuses, Fails]

section Step

variable {client next : Client} {op : Op} {taken : Option (Packet × Nat)}
  {head send tail : List Entry}
  (trace : Trace client next (op.offered client) taken head send tail)

include trace

theorem Trace.silent_iff (whole : client.NoHole) :
    NeverAfter Entry.Fails Entry.Sends next.stream.journal ↔
      ((∃ entry ∈ client.stream.journal, entry.Fails) → ∀ entry ∈ send, ¬ entry.Sends) := by
  have ends (entry : Entry) (kind : entry.Fails) : entry.Ending := kind.ends
  have acts (entry : Entry) (kind : entry.Fails) : ¬ entry.Inbound := kind.ends.not_inbound
  exact trace.neverAfter_iff acts (fun _ kind => kind) (trace.neverAfter_send ends) whole.silent

theorem Trace.refused_iff (whole : client.NoHole) :
    NeverAfter Entry.Refuses Entry.Queues next.stream.journal ↔
      ((∃ entry ∈ client.stream.journal, entry.Refuses) → ¬ client.Disturbs op) := by
  have acts (entry : Entry) (kind : entry.Refuses) : ¬ entry.Inbound := by
    intro inbound
    cases entry <;> first | exact kind.elim | exact inbound.elim
  have sends (entry : Entry) (kind : entry.Queues) : entry.Sends := kind.sends
  rw [trace.neverAfter_iff acts sends trace.sent.refusedLast whole.refused, trace.queues_iff]

end Step

theorem Client.NoHole.step_iff {client : Client} (whole : client.NoHole) (marked : client.Marked)
    (op : Op) : (client.step op).NoHole ↔ (client.Hurt → ¬ client.Disturbs op) := by
  obtain ⟨head, send, tail, trace⟩ := client.step_trace op
  constructor
  · rintro after ⟨entry, member, lost⟩ disturbs
    rcases Entry.loses_iff.mp lost with refuses | fails
    · exact (trace.refused_iff whole).mp after.refused ⟨entry, member, refuses⟩ disturbs
    · have silent := (trace.silent_iff whole).mp after.silent ⟨entry, member, fails⟩
      have gone : client.disconnected = true := marked.left.mpr ⟨entry, member, fails.leaves⟩
      exact (trace.sends_iff gone).mp silent disturbs
  · intro calm
    have hurt {entry : Entry} (member : entry ∈ client.stream.journal)
        (kind : entry.Refuses ∨ entry.Fails) : ¬ client.Disturbs op :=
      calm ⟨entry, member, Entry.loses_iff.mpr kind⟩
    constructor
    · apply (trace.silent_iff whole).mpr
      rintro ⟨entry, member, fails⟩
      have gone : client.disconnected = true := marked.left.mpr ⟨entry, member, fails.leaves⟩
      exact (trace.sends_iff gone).mpr (hurt member (.inr fails))
    · apply (trace.refused_iff whole).mpr
      rintro ⟨entry, member, refuses⟩
      exact hurt member (.inl refuses)

theorem Life.no_hole {output : List UInt8} {childExit : Option Int32} {client : Client}
    (life : Life (fun client op => client.Hurt → ¬ client.Disturbs op) output childExit client) :
    client.NoHole := by
  induction life with
  | start => exact ⟨neverAfter_nil, neverAfter_nil⟩
  | reap status _ ih => exact ih
  | step op life _ calm ih => exact (ih.step_iff life.marked op).mpr calm

/-- In a run that sends nothing more to a client that has lost a packet, what
each client receives is a front of what it was to be sent. It takes a step that
does send it something to break this. -/
theorem stream_has_no_hole (server : Server)
    (reached : Reached (fun client op => client.Hurt → ¬ client.Disturbs op) server)
    (client : Client) (member : client ∈ server.everyone) :
    client.NoHole ∧ (packetDecoder.drain client.wire).1 <+: client.addressed ∧
    ∀ op, (client.step op).NoHole ↔ (client.Hurt → ¬ client.Disturbs op) := by
  obtain ⟨_, _, _, _, life⟩ := reached.sound.life member
  have whole := life.no_hole
  exact ⟨whole, (life.received List.prefix_rfl).trans whole.queued, whole.step_iff life.marked⟩

theorem stream_has_no_hole_quiet :
    ∃ client ∈ (serverLoop lateOutput (Server.start 1 true [])).server.everyone,
      client.addressed ≠ [] ∧ client.NoHole ∧
        (packetDecoder.drain client.wire).1 <+: client.addressed := by
  have sent : ∃ client ∈ (serverLoop lateOutput (Server.start 1 true [])).server.everyone,
      client.addressed ≠ [] := by
    decide
  obtain ⟨client, member, sent⟩ := sent
  have whole := stream_has_no_hole _ ⟨1, true, [], lateOutput, by decide, rfl⟩ client member
  exact ⟨client, member, sent, whole.1, whole.2.1⟩

def oneByte (byte : UInt8) : Slice maxPayload := ⟨[byte], Nat.le_of_ble_eq_true rfl⟩

def shortAfterFull : List (ReadAnswer maxPayload) :=
  (oneByte 65 :: List.replicate 4095 fullSlice ++ [fullSlice, oneByte 66]).map .ok

theorem broadcastTo_full {bytes : List UInt8} {client : Client}
    (full : sendQueueCap < client.sendQueue.length + (8 + bytes.length)) :
    broadcastTo bytes client =
      (client.log (.refused ⟨msgContent, bytes⟩)).leave .sendFailed := by
  have excess : client.sendQueue.length + (packetBytes ⟨msgContent, bytes⟩).length > sendQueueCap := by
    rwa [packetBytes_length]
  simp [broadcastTo, sendPacketNonblocking, excess]

theorem broadcast_after_refusal {large small : List UInt8} {client : Client}
    (attached : client.attached = true) (blocked : client.stream.writes = [])
    (excess : sendQueueCap < client.sendQueue.length + (8 + large.length))
    (room : client.sendQueue.length + (8 + small.length) ≤ sendQueueCap) :
    (runSteps Client.step [.broadcast large, .broadcast small] client).stream.journal =
      client.stream.journal ++ [.refused ⟨msgContent, large⟩, .left .sendFailed,
        .queued ⟨msgContent, small⟩, .writeFailed .wouldBlock] := by
  have refused : client.step (.broadcast large) =
      (client.log (.refused ⟨msgContent, large⟩)).leave .sendFailed := by
    rw [Client.step, if_pos attached]
    exact broadcastTo_full excess
  have fits : ((client.log (.refused ⟨msgContent, large⟩)).leave .sendFailed).sendQueue.length +
      (packetBytes ⟨msgContent, small⟩).length ≤ sendQueueCap := by
    rw [packetBytes_length]
    exact room
  have queued := @sendPacketNonblocking_blocked
    ((client.log (.refused ⟨msgContent, large⟩)).leave .sendFailed) blocked _ fits
  have attached : ((client.log (.refused ⟨msgContent, large⟩)).leave .sendFailed).attached = true :=
    attached
  rw [runSteps_cons, runSteps_cons, runSteps_nil, refused, Client.step, if_pos attached,
    broadcastTo, queued]
  simp [Client.leave, Client.log, UnixStream.log]

theorem stream_has_hole :
    ¬ ∀ server, Reached (fun _ _ => True) server → ∀ client ∈ server.everyone, client.NoHole := by
  intro law
  obtain ⟨client, member, more, journal⟩ := outputTick_journal shortAfterFull none
  have order := (law _ (outputTick_reached shortAfterFull none) client member).silent
  have nonempty : ∀ slice ∈ oneByte 65 :: List.replicate 4095 fullSlice ++ [fullSlice, oneByte 66],
      slice.bytes ≠ [] := by
    intro slice member
    simp only [List.cons_append, List.mem_cons, List.mem_append, List.mem_replicate,
      List.not_mem_nil, or_false] at member
    rcases member with rfl | ⟨_, rfl⟩ | rfl | rfl
    · exact nofun
    · exact fullSlice_ne_nil
    · exact fullSlice_ne_nil
    · exact nofun
  have broadcasts : (ptyChunks shortAfterFull).map Op.broadcast =
      List.replicate 1 (.broadcast [65]) ++ (List.replicate 4095 (.broadcast fullSlice.bytes) ++
        [.broadcast fullSlice.bytes, .broadcast [66]]) := by
    rw [shortAfterFull, ptyChunks_ok nonempty]
    simp only [List.map_append, List.map_cons, List.map_replicate, List.map_nil]
    rfl
  have each : 4096 * (8 + fullSlice.bytes.length) = sendQueueCap := full_backlog
  have small : 18 ≤ 8 + fullSlice.bytes.length := by
    rw [fullSlice, List.length_replicate]
    decide
  generalize fullSlice.bytes = bytes at each small broadcasts
  -- the queue before the read that does not fit
  obtain ⟨entries, rest, started, size, _⟩ := parked_filled [65] 1 (by
    simp only [List.length_singleton]
    omega)
  simp only [List.length_singleton] at size
  obtain ⟨entries', rest', filled, size', _⟩ :=
    @broadcasts_blocked (parked.sent entries [] rest) bytes 4095 rfl rfl (by
      rw [Client.sent_sendQueue]
      omega)
  rw [Client.sent_sendQueue] at size'
  have excess : sendQueueCap < rest'.length + (8 + bytes.length) := by omega
  have room : rest'.length + (8 + [(66 : UInt8)].length) ≤ sendQueueCap := by
    rw [List.length_singleton]
    omega
  have split : client.stream.journal =
      (parked.stream.journal ++ entries ++ entries' ++ [.refused ⟨msgContent, bytes⟩]) ++
        .left .sendFailed :: (.queued ⟨msgContent, [66]⟩ :: .writeFailed .wouldBlock :: more) := by
    rw [journal, broadcasts, runSteps_append, runSteps_append, started, filled,
      broadcast_after_refusal rfl rfl excess room]
    simp
  exact order.tail split trivial (.queued ⟨msgContent, [66]⟩) List.mem_cons_self trivial

end Lich
