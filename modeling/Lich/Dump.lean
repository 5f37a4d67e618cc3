import Lich.Conservation
import Lich.Intake

/-! Dumping the history: the `dump_session` client against the server.

A dump is the replay with an end mark. The client prints only what stands
before the mark, so what remains to be shown is that nothing else can stand
there.
-/

set_option autoImplicit false

namespace Lich

open Foundation

/-! ## The client -/

/-- The receive loop, from the packets already collected; `rounds` exceeds the
packets of the stream. -/
def dumpLoop : (rounds : Nat) → List UInt8 → List UInt8 → Except IoError (List UInt8)
  | 0, _, _ => .error (.new .unexpectedEof "failed to fill whole buffer")
  | rounds + 1, stream, out => do
    let (pkt, stream) ← recvPacketBlocking stream
    if pkt.typ = msgContent then dumpLoop rounds stream (out ++ pkt.payload)
    else if pkt.typ = msgDumpEnd then .ok out
    else dumpLoop rounds stream out

/-- The loop of `tailLineStart`, going down from `pos`. -/
def tailLineLoop (buf : List UInt8) (lines : Nat) : (pos found : Nat) → Nat
  | 0, _ => 0
  | pos + 1, found =>
    if buf[pos]? = some 10 then
      if found + 1 = lines then pos + 1 else tailLineLoop buf lines pos (found + 1)
    else tailLineLoop buf lines pos found

def tailLineStart (buf : List UInt8) (lines : Nat) : Nat :=
  if lines = 0 ∨ buf = [] then 0
  else if buf[buf.length - 1]? = some 10 then tailLineLoop buf lines (buf.length - 1) 0
  else tailLineLoop buf lines buf.length 0

def dumpStart (maxBytes maxLines : Nat) (out : List UInt8) : Nat :=
  let start := if maxBytes ≠ 0 ∧ maxBytes < out.length then out.length - maxBytes else 0
  if maxLines ≠ 0 then start + tailLineStart (out.drop start) maxLines else start

/-- What `dumpSession` collects up to MSG_DUMP_END, of a stream that ends after
the given bytes. -/
def collectDump (stream : List UInt8) : Except IoError (List UInt8) := do
  let (_pid, stream) ← recvPacketBlocking stream
  dumpLoop (stream.length + 1) stream []

/-- What `dump_session` prints, or the error it returns with; `sent` is the
result of sending MSG_DUMP. -/
def dumpSession (sent : Except IoError Unit) (maxBytes maxLines : Nat) (stream : List UInt8) :
    Except IoError (List UInt8) := do
  let (_pid, stream) ← recvPacketBlocking stream
  sent
  let out ← dumpLoop (stream.length + 1) stream []
  return out.drop (dumpStart maxBytes maxLines out)

/-! ## The receive loop on packets -/

def collect : List Packet → List UInt8 → Option (List UInt8)
  | [], _ => none
  | pkt :: pkts, out =>
    if pkt.typ = msgContent then collect pkts (out ++ pkt.payload)
    else if pkt.typ = msgDumpEnd then some out
    else collect pkts out

theorem dumpLoop_collect (rounds : Nat) (stream out : List UInt8) (enough : stream.length < rounds) :
    (∀ collected, collect (packetDecoder.drain stream).1 out = some collected →
      dumpLoop rounds stream out = .ok collected) ∧
    (collect (packetDecoder.drain stream).1 out = none →
      ∃ err, dumpLoop rounds stream out = .error err) := by
  induction rounds generalizing stream out with
  | zero => omega
  | succ rounds ih =>
    cases found : packetDecoder.next stream with
    | whole pkt rest =>
      have shorter := packetDecoder.next_shrinks found
      have received : recvPacketBlocking stream = .ok (pkt, rest) := by
        rw [recvPacketBlocking_eq, found]
      rw [packetDecoder.drain_whole found]
      simp only [dumpLoop, received, collect, bind, Except.bind]
      split
      · exact ih rest _ (by omega)
      · split
        · exact ⟨fun collected same => by rw [Option.some.inj same], nofun⟩
        · exact ih rest _ (by omega)
    | short =>
      obtain ⟨err, failed⟩ : ∃ err, recvPacketBlocking stream = .error err :=
        ⟨_, by rw [recvPacketBlocking_eq, found]⟩
      rw [packetDecoder.drain_short found]
      exact ⟨nofun, fun _ => ⟨err, by simp only [dumpLoop, failed, bind, Except.bind]⟩⟩
    | corrupt =>
      obtain ⟨err, failed⟩ : ∃ err, recvPacketBlocking stream = .error err :=
        ⟨_, by rw [recvPacketBlocking_eq, found]⟩
      rw [packetDecoder.drain_corrupt found]
      exact ⟨nofun, fun _ => ⟨err, by simp only [dumpLoop, failed, bind, Except.bind]⟩⟩

theorem collect_replay {pieces : List (List UInt8)} {front : List Packet} {out collected : List UInt8}
    (part : front <+: contentPackets pieces ++ [⟨msgDumpEnd, []⟩])
    (done : collect front out = some collected) : collected = out ++ pieces.flatten := by
  induction pieces generalizing front out with
  | nil =>
    rcases List.prefix_cons_iff.mp part with rfl | ⟨rest, rfl, _⟩
    · cases done
    · have other : msgDumpEnd ≠ msgContent := by decide
      simp only [collect, other, if_false, if_true, Option.some.injEq] at done
      simp [done]
  | cons piece pieces ih =>
    rcases List.prefix_cons_iff.mp part with rfl | ⟨rest, rfl, shorter⟩
    · cases done
    · simp only [collect, if_true] at done
      rw [ih shorter done, List.flatten_cons, List.append_assoc]

theorem collect_snapshot {snapshot : List UInt8} {front : List Packet} {collected : List UInt8}
    (part : front <+: replayPackets snapshot true) (done : collect front [] = some collected) :
    collected = snapshot := by
  rw [collect_replay part done, chunks_flatten (by decide), List.nil_append]

/-! ## Sizes -/

theorem contentPackets_length (pieces : List (List UInt8)) :
    ((contentPackets pieces).flatMap packetBytes).length =
      8 * pieces.length + pieces.flatten.length := by
  induction pieces with
  | nil => rfl
  | cons piece pieces ih =>
    have first : (contentPackets (piece :: pieces)).flatMap packetBytes =
        packetBytes ⟨msgContent, piece⟩ ++ (contentPackets pieces).flatMap packetBytes := rfl
    rw [first, List.length_append, ih, packetBytes_length]
    simp only [List.length_cons, List.flatten_cons, List.length_append]
    omega

theorem replay_fits {snapshot : List UInt8} (bound : snapshot.length ≤ historyCap) :
    12 + ((replayPackets snapshot true).flatMap packetBytes).length ≤ sendQueueCap := by
  have pieces := chunks_length (by decide : 0 < maxPayload) snapshot
  have most : snapshot.length / maxPayload ≤ historyCap / maxPayload := Nat.div_le_div_right bound
  have size : ((replayPackets snapshot true).flatMap packetBytes).length =
      8 * (chunks maxPayload snapshot).length + snapshot.length + 8 := by
    rw [replayPackets, List.flatMap_append, List.length_append, contentPackets_length,
      chunks_flatten (by decide)]
    rfl
  have caps : 12 + (8 * (historyCap / maxPayload + 1) + historyCap + 8) ≤ sendQueueCap := by decide
  omega

/-! ## The server's side -/

def dumpPacket : Packet := ⟨msgDump, []⟩

/-- All that a client does that follows `dumpSession`. -/
def Client.Follows (client : Client) : Prop := client.input <+: packetBytes dumpPacket

/-- What is queued for a client that sends MSG_DUMP and nothing else: an exit
notice perhaps, and then a front of the replay. -/
inductive Client.DumpSent (output : List UInt8) (client : Client) : Prop where
  | before (notices : List Packet)
      (kind : notices = [] ∨
        (∃ status, notices = [exitPacket status]) ∧ client.closeAfterDrain.isSome = true)
      (served : client.served = []) (queued : client.queued = notices)
  | after (notices : List Packet) (seen : Nat)
      (kind : notices = [] ∨ ∃ status, notices = [exitPacket status])
      (inside : seen ≤ output.length) (served : client.served = [(dumpPacket, seen)])
      (closing : client.closeAfterDrain.isSome = true)
      (front : client.queued <+:
        notices ++ replayPackets ((output.take seen).rtake historyCap) true)

structure Client.Dumping (output : List UInt8) (client : Client) : Prop where
  parsed : client.Parsed
  attached : client.attached = false
  kept : ∀ pkt, Entry.refused pkt ∉ client.stream.journal
  sent : client.DumpSent output

variable {output : List UInt8} {childExit : Option Int32} {client : Client}

theorem Client.Parsed.dumper (parsed : client.Parsed) (follows : client.Follows) :
    packetDecoder.next client.buf ≠ .corrupt ∧
    ∀ pkt rest, packetDecoder.next client.buf = .whole pkt rest →
      client.served = [] ∧ pkt = dumpPacket := by
  obtain ⟨back, whole⟩ := follows
  have all : packetDecoder.next (packetBytes dumpPacket ++ []) = .whole dumpPacket [] :=
    packetBytes_inverts (Nat.zero_le _) []
  rw [List.append_nil] at all
  cases served : client.served with
  | nil =>
    have buf : client.buf ++ back = packetBytes dumpPacket := by
      rw [Client.Parsed, served] at parsed
      rw [← whole, ← parsed]
      rfl
    constructor
    · intro corrupt
      have later := packetDecoder.corrupt_append back corrupt
      rw [buf, all] at later
      cases later
    · intro pkt rest found
      have later := packetDecoder.whole_append back found
      rw [buf, all] at later
      injection later with same
      exact ⟨rfl, same.symm⟩
  | cons taken more =>
    have none : client.buf = [] := by
      rw [Client.Parsed, served] at parsed
      have sizes := congrArg List.length whole
      have total : (packetBytes dumpPacket).length = 8 := rfl
      rw [← parsed, total] at sizes
      simp only [List.flatMap_cons, List.length_append, packetBytes_length] at sizes
      apply List.eq_nil_of_length_eq_zero
      omega
    have short : packetDecoder.next client.buf = .short := by
      rw [none]
      rfl
    rw [short]
    constructor
    · intro corrupt
      cases corrupt
    · intro pkt rest whole
      cases whole

section Steps

variable {next : Client} {offered : List Packet} {taken : Option (Packet × Nat)}
  {head send tail : List Entry} (trace : Trace client next offered taken head send tail)

include trace

theorem Trace.closes (closing : client.closeAfterDrain.isSome = true) :
    next.closeAfterDrain.isSome = true :=
  trace.closing.mpr (.inl closing)

theorem Trace.kept_of_send (kept : ∀ pkt, Entry.refused pkt ∉ client.stream.journal)
    (sends : ∀ pkt, Entry.refused pkt ∉ send) : ∀ pkt, Entry.refused pkt ∉ next.stream.journal := by
  intro pkt member
  rw [trace.journal] at member
  rcases List.mem_append.mp member with member | member
  · exact kept pkt member
  · rcases List.mem_append.mp member with member | member
    · rcases List.mem_append.mp member with member | member
      · exact trace.inbound _ member
      · exact sends pkt member
    · exact trace.ending _ member

theorem Trace.kept (kept : ∀ pkt, Entry.refused pkt ∉ client.stream.journal)
    (room : client.sendQueue.length + (offered.flatMap packetBytes).length ≤ sendQueueCap) :
    ∀ pkt, Entry.refused pkt ∉ next.stream.journal :=
  trace.kept_of_send kept (trace.sent.roomy room)

theorem Trace.kept_nil (kept : ∀ pkt, Entry.refused pkt ∉ client.stream.journal)
    (none : offered = []) : ∀ pkt, Entry.refused pkt ∉ next.stream.journal := by
  subst none
  apply trace.kept_of_send kept
  intro pkt member
  exact trace.sent.lossy ⟨_, member, trivial⟩ (List.prefix_nil.mp trace.sent.queued)

theorem Trace.dumpSent (sent : client.DumpSent output) (served : taken = none)
    (none : offered = []) (more : List UInt8) : next.DumpSent (output ++ more) := by
  subst served none
  have serves := trace.serves
  have queued := trace.queued
  rw [Option.toList_none, List.append_nil] at serves
  rw [List.prefix_nil.mp trace.sent.queued, List.append_nil] at queued
  cases sent with
  | before notices kind served same =>
    refine .before notices ?_ (serves.trans served) (queued.trans same)
    exact kind.imp_right fun ⟨status, closing⟩ => ⟨status, trace.closes closing⟩
  | after notices seen kind inside served closing front =>
    refine .after notices seen kind ?_ (serves.trans served) (trace.closes closing) ?_
    · rw [List.length_append]
      omega
    · rw [queued, List.take_append_of_le_length inside]
      exact front

end Steps

theorem Life.queue_bound {ok : Client → Op → Prop} (life : Life ok output childExit client) :
    client.sendQueue.length ≤ (client.queued.flatMap packetBytes).length := by
  rw [← life.outbound, Client.outbound, List.length_append]
  omega

theorem Client.serve_dump_closes (client : Client) (history : History) (seen : Nat)
    (now : Instant) :
    (client.serve history seen now dumpPacket).closeAfterDrain.isSome = true := by
  have other : dumpPacket.typ ≠ msgAttach := by decide
  have dump : dumpPacket.typ = msgDump := rfl
  unfold serve
  rw [if_neg other, if_pos dump]
  dsimp only
  split
  · rfl
  · next remains => exact Option.isSome_iff_ne_none.mpr (by simpa using remains)

theorem Client.Dumping.serve {ok : Client → Op → Prop} (ih : client.Dumping output)
    (life : Life ok output childExit client) (follows : client.Follows) {history : History}
    (kept : history.snapshot = output.rtake historyCap)
    (bound : history.snapshot.length ≤ historyCap) (now : Instant) {pkt : Packet}
    {rest : List UInt8} (found : packetDecoder.next client.buf = .whole pkt rest) :
    let next := client.step (.packet history output.length now)
    next.attached = false ∧ (∀ pkt, Entry.refused pkt ∉ next.stream.journal) ∧
      next.DumpSent output := by
  obtain ⟨none, rfl⟩ := (ih.parsed.dumper follows).2 pkt rest found
  obtain ⟨head, send, tail, trace⟩ := client.step_trace (.packet history output.length now)
  have popped : popPacket client.buf = (some dumpPacket, rest) := by rw [popPacket_eq, found]
  have taken : Op.taken (.packet history output.length now) client =
      some (dumpPacket, output.length) := by
    simp only [Op.taken, popped, Option.map_some]
  have offered : Op.offered (.packet history output.length now) client =
      replayPackets history.snapshot true := by
    have other : dumpPacket.typ ≠ msgAttach := by decide
    have dump : dumpPacket.typ = msgDump := rfl
    simp only [Op.offered, popped, if_neg other, if_pos dump]
  rw [taken, offered] at trace
  obtain ⟨notices, kind, queued⟩ : ∃ notices,
      (notices = [] ∨ ∃ status, notices = [exitPacket status]) ∧ client.queued = notices := by
    cases ih.sent with
    | before notices kind _ queued => exact ⟨notices, kind.imp_right And.left, queued⟩
    | after _ _ _ _ served => rw [none] at served; cases served
  refine ⟨?_, trace.kept ih.kept ?_, ?_⟩
  · have attached := trace.attached
    rw [ih.attached] at attached
    exact attached
  · have most := life.queue_bound
    have few : (notices.flatMap packetBytes).length ≤ 12 := by
      rcases kind with rfl | ⟨status, rfl⟩
      · exact Nat.zero_le _
      · simp [exitPacket_length]
    have fits := replay_fits bound
    rw [queued] at most
    omega
  · refine .after notices output.length kind (Nat.le_refl _) ?_ ?_ ?_
    · rw [trace.serves, none]
      rfl
    · simp only [Client.step, Client.packet, popped]
      exact Client.serve_dump_closes _ _ _ _
    · rw [trace.queued, queued, List.take_length, ← kept]
      exact (List.prefix_append_right_inj notices).mpr trace.sent.queued

theorem Client.Dumping.notice {ok : Client → Op → Prop} (ih : client.Dumping output)
    (life : Life ok output childExit client) (status : Int32) (now : Instant) :
    let next := client.step (.notice status now)
    (∀ pkt, Entry.refused pkt ∉ next.stream.journal) ∧ next.DumpSent output := by
  obtain ⟨head, send, tail, trace⟩ := client.step_trace (.notice status now)
  have most := life.queue_bound
  by_cases remains : client.disconnected = false ∧ client.closeAfterDrain = none
  · have offered : Op.offered (.notice status now) client = [exitPacket status] := by
      simp [Op.offered, remains]
    have serves := trace.serves
    rw [offered] at trace
    cases ih.sent with
    | after _ _ _ _ _ closing => rw [remains.2] at closing; cases closing
    | before notices kind served queued =>
      have empty : client.queued = [] := by
        rcases kind with rfl | ⟨_, closing⟩
        · exact queued
        · rw [remains.2] at closing
          cases closing
      rw [empty] at most
      have room : client.sendQueue.length + (packetBytes (exitPacket status)).length ≤
          sendQueueCap := by
        rw [exitPacket_length]
        have cap : 12 ≤ sendQueueCap := by decide
        simp only [List.flatMap_nil, List.length_nil] at most
        omega
      refine ⟨trace.kept ih.kept (by simpa using room), ?_⟩
      refine .before [exitPacket status] (.inr ⟨⟨status, rfl⟩, ?_⟩) ?_ ?_
      · simp [Client.step, noticeExit, remains, Client.close]
      · rw [serves, served]
        rfl
      · have offers := trace.sent.first _ _ rfl room
        rw [trace.queued, empty]
        rcases List.prefix_cons_iff.mp trace.sent.queued with none | ⟨rest, same, none⟩
        · exact absurd none offers
        · rw [same, List.prefix_nil.mp none]
          rfl
  · have same : client.step (.notice status now) = client := by
      simp only [Client.step, noticeExit]
      split
      · rfl
      · next other =>
        simp only [Bool.or_eq_true, not_or, Bool.not_eq_true, Option.isSome_eq_false_iff,
          Option.isNone_iff_eq_none] at other
        exact absurd other remains
    intro next
    have same : next = client := same
    rw [same]
    exact ⟨ih.kept, ih.sent⟩

theorem Life.dumping {ok : Client → Op → Prop} (life : Life ok output childExit client)
    (follows : client.Follows) : client.Dumping output := by
  induction life with
  | start => exact ⟨rfl, rfl, by simp [Client.accept], .before [] (.inl rfl) rfl rfl⟩
  | reap status _ ih => exact ih follows
  | @step output childExit client op life legal _ ih =>
    have before : client.Follows := (client.step_input op).trans follows
    have ih := ih before
    have parsed : (client.step op).Parsed :=
      Client.step_parsed ih.parsed (ih.parsed.dumper before).1
    obtain ⟨head, send, tail, trace⟩ := client.step_trace op
    have still (served : op.taken client = none) (none : op.offered client = []) :
        (client.step op).Dumping (output ++ op.output) := by
      have attached := trace.attached
      rw [served, Option.any_none, Bool.or_false] at attached
      exact ⟨parsed, attached.trans ih.attached, trace.kept_nil ih.kept none,
        trace.dumpSent ih.sent served none _⟩
    cases op with
    | broadcast bytes => exact still rfl (by simp [Op.offered, ih.attached])
    | packet history seen now =>
      obtain ⟨kept, rfl⟩ := legal
      cases found : packetDecoder.next client.buf with
      | whole pkt rest =>
        have snapshot : history.snapshot = output.rtake historyCap := by
          rw [kept, History.snapshot, History.after_bytes]
        obtain ⟨attached, whole, sent⟩ := ih.serve life before snapshot history.bound now found
        change Client.Dumping (output ++ []) _
        rw [List.append_nil]
        exact ⟨parsed, attached, whole, sent⟩
      | short =>
        have popped : (popPacket client.buf).1 = none := by rw [popPacket_eq, found]
        exact still (by simp [Op.taken, popped]) (by simp [Op.offered, popped])
      | corrupt => exact absurd found (ih.parsed.dumper before).1
    | notice status now =>
      obtain ⟨whole, sent⟩ := ih.notice life status now
      change Client.Dumping (output ++ []) _
      rw [List.append_nil]
      exact ⟨parsed, trace.attached.trans (by simp [Op.taken, ih.attached]), whole, sent⟩
    | _ => exact still rfl rfl

/-! ## The whole session -/

theorem collect_exitPacket (status : Int32) (pkts : List Packet) (out : List UInt8) :
    collect (exitPacket status :: pkts) out = collect pkts out := by
  have other : msgExit ≠ msgContent ∧ msgExit ≠ msgDumpEnd := by decide
  simp only [collect, exitPacket, other.1, other.2, if_false]

theorem collect_noticed {notices : List Packet}
    (kind : notices = [] ∨ ∃ status, notices = [exitPacket status])
    {snapshot collected : List UInt8} {front : List Packet}
    (part : front <+: notices ++ replayPackets snapshot true)
    (done : collect front [] = some collected) : collected = snapshot := by
  rcases kind with rfl | ⟨status, rfl⟩
  · exact collect_snapshot part done
  · rcases List.prefix_cons_iff.mp part with rfl | ⟨rest, rfl, shorter⟩
    · cases done
    · rw [collect_exitPacket] at done
      exact collect_snapshot shorter done

theorem Client.DumpSent.collect (sent : client.DumpSent output) {front : List Packet}
    (part : front <+: client.queued) {out : List UInt8} (done : collect front [] = some out) :
    ∃ seen ≤ output.length, client.served = [(dumpPacket, seen)] ∧
      out = (output.take seen).rtake historyCap := by
  cases sent with
  | before notices kind _ queued =>
    rw [queued] at part
    rcases kind with rfl | ⟨⟨status, rfl⟩, _⟩
    · rw [List.prefix_nil.mp part] at done
      cases done
    · rcases List.prefix_cons_iff.mp part with rfl | ⟨rest, rfl, none⟩
      · cases done
      · rw [collect_exitPacket, List.prefix_nil.mp none] at done
        cases done
  | after notices seen kind inside served _ replay =>
    exact ⟨seen, inside, served, collect_noticed kind (part.trans replay) done⟩

/-- The session gets past its first receive only with the whole MSG_PID, and then
reads what the server sent it as a client. -/
theorem collectDump_received {pid : UInt64}
    (greeted : client.stream.greeting = packetBytes (pidPacket pid))
    {received : List UInt8} (part : received <+: client.stream.greeting ++ client.wire) :
    (∃ err, recvPacketBlocking received = .error err) ∨
    ∃ rest, rest <+: client.wire ∧ recvPacketBlocking received = .ok (pidPacket pid, rest) := by
  obtain ⟨back, same⟩ := part
  rw [recvPacketBlocking_eq]
  cases found : packetDecoder.next received with
  | whole pkt rest =>
    have later := packetDecoder.whole_append back found
    have fits : (pidPacket pid).Fits := by
      simp only [Packet.Fits, pidPacket, u64ToNeBytes, toLe_length]
      decide
    rw [same, greeted, packetBytes_inverts fits] at later
    injection later with first tail
    exact .inr ⟨rest, ⟨back, tail.symm⟩, by rw [first]⟩
  | short => exact .inl ⟨_, rfl⟩
  | corrupt => exact .inl ⟨_, rfl⟩

theorem dumpSession_eq (sent : Except IoError Unit) (maxBytes maxLines : Nat)
    (received : List UInt8) (printed : List UInt8) :
    dumpSession sent maxBytes maxLines received = .ok printed ↔
      sent = .ok () ∧ ∃ out, collectDump received = .ok out ∧
        printed = out.drop (dumpStart maxBytes maxLines out) := by
  unfold dumpSession collectDump
  cases recvPacketBlocking received with
  | error err => simp [bind, Except.bind]
  | ok pair =>
    cases sent with
    | error err => simp [bind, Except.bind]
    | ok =>
      simp only [bind, Except.bind, true_and]
      cases dumpLoop (pair.2.length + 1) pair.2 [] with
      | error err => simp
      | ok out => simp [pure, Except.pure, eq_comm]

theorem Life.collected {ok : Client → Op → Prop} {output : List UInt8} {childExit : Option Int32}
    {client : Client} (life : Life ok output childExit client) {pid : UInt64}
    (greeted : client.stream.greeting = packetBytes (pidPacket pid)) (follows : client.Follows)
    {received out : List UInt8} (part : received <+: client.stream.greeting ++ client.wire)
    (done : collectDump received = .ok out) :
    ∃ seen ≤ output.length, client.served = [(dumpPacket, seen)] ∧
      out = (output.take seen).rtake historyCap := by
  rcases collectDump_received greeted part with ⟨err, failed⟩ | ⟨rest, inside, first⟩
  · simp only [collectDump, failed, bind, Except.bind, reduceCtorEq] at done
  · simp only [collectDump, first, bind, Except.bind] at done
    have loop := dumpLoop_collect (rest.length + 1) rest [] (Nat.lt_succ_self _)
    cases packets : collect (packetDecoder.drain rest).1 [] with
    | none =>
      obtain ⟨err, failed⟩ := loop.2 packets
      rw [failed] at done
      cases done
    | some whole =>
      rw [loop.1 whole packets] at done
      cases done
      exact (life.dumping follows).sent.collect (life.received inside) packets

theorem Reached.collected {server : Server} (reached : Reached (fun _ _ => True) server)
    {client : Client} (member : client ∈ server.everyone) {pid : UInt64}
    (greeted : client.stream.greeting = packetBytes (pidPacket pid)) (follows : client.Follows)
    {received out : List UInt8} (part : received <+: client.stream.greeting ++ client.wire)
    (done : collectDump received = .ok out) :
    ∃ seen ≤ server.master.output.length, client.served = [(dumpPacket, seen)] ∧
      out = (server.master.output.take seen).rtake historyCap := by
  obtain ⟨output, childExit, front, _, life⟩ := reached.sound.life member
  obtain ⟨seen, bound, served, whole⟩ := life.collected greeted follows part done
  obtain ⟨more, later⟩ := front
  refine ⟨seen, ?_, served, ?_⟩
  · rw [← later, List.length_append]
    omega
  · rw [← later, List.take_append_of_le_length bound]
    exact whole

/-- A dump is exact or fails, in every run and for every part of the stream that
the session gets to read; and the queue of a dumping client never overflows. -/
theorem dump_exact_or_fails (server : Server) (reached : Reached (fun _ _ => True) server)
    (client : Client) (member : client ∈ server.everyone) (pid : UInt64)
    (greeted : client.stream.greeting = packetBytes (pidPacket pid)) (follows : client.Follows) :
    (∀ pkt, Entry.refused pkt ∉ client.stream.journal) ∧
    ∀ received, received <+: client.stream.greeting ++ client.wire →
      (∀ out, collectDump received = .ok out →
        ∃ seen ≤ server.master.output.length, client.served = [(dumpPacket, seen)] ∧
          out = (server.master.output.take seen).rtake historyCap) ∧
      ∀ sent maxBytes maxLines,
        (∀ printed, dumpSession sent maxBytes maxLines received = .ok printed ↔
          sent = .ok () ∧ ∃ out, collectDump received = .ok out ∧
            printed = out.drop (dumpStart maxBytes maxLines out)) ∧
        (sent ≠ .ok () ∨ (∀ out, collectDump received ≠ .ok out) →
          ∃ err, dumpSession sent maxBytes maxLines received = .error err) := by
  obtain ⟨output, childExit, _, _, life⟩ := reached.sound.life member
  refine ⟨(life.dumping follows).kept, fun received part =>
    ⟨fun out done => reached.collected member greeted follows part done,
      fun sent maxBytes maxLines => ?_⟩⟩
  have printed := dumpSession_eq sent maxBytes maxLines received
  refine ⟨printed, fun fails => ?_⟩
  cases result : dumpSession sent maxBytes maxLines received with
  | error err => exact ⟨err, rfl⟩
  | ok shown =>
    obtain ⟨requested, out, done, _⟩ := (printed shown).mp result
    rcases fails with unsent | never
    · exact absurd requested unsent
    · exact absurd done (never out)

def outputThenDump : List Tick :=
  [{ Tick.idle with
      accepts := [⟨[.ok ⟨packetBytes dumpPacket, Nat.le_of_ble_eq_true rfl⟩], [.ok 10, .ok 8], 16, true⟩]
      ptyReads := [.ok ⟨[5, 6], Nat.le_of_ble_eq_true rfl⟩] }]

theorem dump_exact_or_fails_two :
    ∃ client ∈ (serverLoop outputThenDump (Server.start 1 false [])).server.everyone,
      collectDump (client.stream.greeting ++ client.wire) = .ok [5, 6] ∧
      (∀ pkt, Entry.refused pkt ∉ client.stream.journal) ∧
      ∃ seen ≤ 2, client.served = [(dumpPacket, seen)] := by
  have dumped : ∃ client ∈ (serverLoop outputThenDump (Server.start 1 false [])).server.everyone,
      client.stream.greeting = packetBytes (pidPacket 1) ∧ client.input = packetBytes dumpPacket ∧
        collectDump (client.stream.greeting ++ client.wire) = .ok [5, 6] := by
    decide
  obtain ⟨client, member, greeted, follows, done⟩ := dumped
  have session := dump_exact_or_fails _
    ⟨1, false, [], outputThenDump, runMeets_of_forall (fun _ _ => trivial) _ _, rfl⟩
    client member 1 greeted ⟨[], by rw [List.append_nil, follows]⟩
  obtain ⟨seen, inside, served, _⟩ := (session.2 _ List.prefix_rfl).1 _ done
  exact ⟨client, member, done, session.1, seen, inside, served⟩

end Lich
