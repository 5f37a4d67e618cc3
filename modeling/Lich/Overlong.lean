import Lich.Intake
import Lich.Backlog

/-! Over-long headers in a client's stream.

`popPacket` answers an over-long header by forgetting what is in the receive
buffer, and the client stays. What follows the header is then decoded from
wherever the next read starts.
-/

set_option autoImplicit false

namespace Lich

open Foundation

/-! ## The packet loop as a whole -/

def leftover (buf : List UInt8) : List UInt8 :=
  match packetDecoder.next (packetDecoder.drain buf).2 with
  | .corrupt => []
  | _ => (packetDecoder.drain buf).2

theorem leftover_whole {buf rest : List UInt8} {pkt : Packet}
    (found : packetDecoder.next buf = .whole pkt rest) : leftover buf = leftover rest := by
  simp only [leftover, packetDecoder.drain_whole found]

theorem leftover_short (buf : List UInt8) : packetDecoder.next (leftover buf) = .short := by
  have stuck := packetDecoder.drain_rest_stuck buf
  unfold leftover
  split
  · rfl
  · next sound =>
    cases found : packetDecoder.next (packetDecoder.drain buf).2 with
    | short => rfl
    | corrupt => exact absurd found sound
    | whole pkt rest => exact absurd found (stuck pkt rest)

theorem leftover_stuck (buf : List UInt8) (pkt : Packet) (rest : List UInt8) :
    packetDecoder.next (leftover buf) ≠ .whole pkt rest := by
  rw [leftover_short]
  simp

theorem drain_fits (buf : List UInt8) : ∀ pkt ∈ (packetDecoder.drain buf).1, pkt.Fits := by
  induction buf using packetDecoder.drain_induction with
  | stuck buf none =>
    rw [packetDecoder.drain_stuck none]
    exact nofun
  | whole buf pkt rest found ih =>
    rw [packetDecoder.drain_whole found]
    intro other member
    rcases List.mem_cons.mp member with rfl | member
    · exact fits_of_whole found
    · exact ih other member

theorem packetBytes_drain (buf : List UInt8) :
    (packetDecoder.drain buf).1.flatMap packetBytes ++ (packetDecoder.drain buf).2 = buf := by
  induction buf using packetDecoder.drain_induction with
  | stuck buf none =>
    rw [packetDecoder.drain_stuck none]
    rfl
  | whole buf pkt rest found ih =>
    rw [packetDecoder.drain_whole found, List.flatMap_cons, List.append_assoc, ih,
      packetBytes_of_whole found]

variable {client : Client}

theorem Client.step_packet (client : Client) (history : History) (seen : Nat) (now : Instant) :
    let next := client.step (.packet history seen now)
    next.intake = { client.intake with buf := (popPacket client.buf).2 } ∧
    next.served = client.served ++ ((popPacket client.buf).1.map fun pkt => (pkt, seen)).toList := by
  obtain ⟨head, send, tail, trace⟩ := client.step_trace (.packet history seen now)
  exact ⟨client.step_intake _, trace.serves⟩

theorem Client.packets (history : History) (seen : Nat) (now : Instant) {rounds : Nat}
    (client : Client) (enough : client.buf.length < rounds) :
    let next := runSteps Client.step (List.replicate rounds (.packet history seen now)) client
    next.intake = { client.intake with buf := leftover client.buf } ∧
    next.served = client.served ++
      (packetDecoder.drain client.buf).1.map fun pkt => (pkt, seen) := by
  induction rounds generalizing client with
  | zero => omega
  | succ rounds ih =>
    obtain ⟨intake, served⟩ := client.step_packet history seen now
    rw [List.replicate_succ, runSteps_cons]
    rw [popPacket_eq] at intake served
    cases found : packetDecoder.next client.buf with
    | whole pkt rest =>
      rw [found] at intake served
      have buf : (client.step (.packet history seen now)).buf = rest := congrArg Intake.buf intake
      have shorter := packetDecoder.next_shrinks found
      obtain ⟨later, more⟩ := ih (client.step (.packet history seen now)) (by rw [buf]; omega)
      constructor
      · rw [later, intake, buf, leftover_whole found]
      · rw [more, served, buf, packetDecoder.drain_whole found]
        simp
    | short =>
      have fixed : client.step (.packet history seen now) = client := by
        simp only [Client.step, Client.packet, popPacket_eq, found]
      rw [fixed, runSteps_replicate_fixed fixed]
      simp [leftover, packetDecoder.drain_short found, found, Client.intake]
    | corrupt =>
      rw [found] at intake served
      have fixed : (client.step (.packet history seen now)).step (.packet history seen now) =
          client.step (.packet history seen now) := by
        have emptied : client.step (.packet history seen now) = { client with buf := [] } := by
          simp only [Client.step, Client.packet, popPacket_eq, found]
        rw [emptied]
        rfl
      rw [runSteps_replicate_fixed fixed]
      constructor
      · rw [intake]
        simp [leftover, packetDecoder.drain_corrupt found, found]
      · rw [served, packetDecoder.drain_corrupt found]
        rfl

/-! ## The stream and the server's place in it -/

/-- The server has taken the whole of the stream, and served what it took. -/
def Client.Took (sent : List UInt8) (client : Client) : Prop :=
  client.input = sent ∧ Entry.left .readError ∉ client.stream.journal

/-- However the stream is cut into reads and ticks, the same packets are served. -/
def SameSequence (sent : List UInt8) : Prop :=
  ∀ server server', Reached (fun _ _ => True) server → Reached (fun _ _ => True) server' →
    ∀ client ∈ server.everyone, ∀ client' ∈ server'.everyone,
      client.Took sent → client'.Took sent →
        client.served.map Prod.fst = client'.served.map Prod.fst

/-- The buffer starts where a packet of the stream ends, and none before it is
over-long. -/
def Client.Aligned (client : Client) : Prop :=
  ∃ pkts : List Packet, (∀ pkt ∈ pkts, pkt.Fits) ∧ pkts.flatMap packetBytes ++ client.buf = client.input

/-- When the packet loop looks at a header, it is one of the stream. -/
def HeaderInPlace (sent : List UInt8) (client : Client) : Op → Prop
  | .packet _ _ _ => client.input <+: sent → 8 ≤ client.buf.length → client.Aligned
  | _ => True

/-- No byte behind an over-long header is taken for a header. -/
def NoStrayHeader (sent : List UInt8) : Prop :=
  ∀ pid readPty writes ticks, RunMeets (HeaderInPlace sent) ticks (Server.start pid readPty writes)

def Overlong (sent : List UInt8) : Prop :=
  packetDecoder.next (packetDecoder.drain sent).2 = .corrupt

/-- Nothing behind the over-long header reads as a packet. -/
def NoStrayPacket (sent : List UInt8) : Prop :=
  Overlong sent → ∀ skip ≥ 8, ∀ pkt rest,
    packetDecoder.next ((packetDecoder.drain sent).2.drop skip) ≠ .whole pkt rest

/-- Either each byte received stands in a packet served or in the buffer, or an
over-long header has been met and the buffer holds bytes from behind it. -/
inductive Client.Place (client : Client) : Prop where
  | inStep (parsed : client.Parsed)
  | behind (header after : List UInt8) (long : packetDecoder.next header = .corrupt)
      (parsed : (client.served.flatMap fun taken => packetBytes taken.1) ++ (header ++ after) =
        client.input)
      (buf : client.buf <:+ after)

theorem Life.served_fits {ok : Client → Op → Prop} {output : List UInt8} {childExit : Option Int32}
    (life : Life ok output childExit client) : ∀ taken ∈ client.served, taken.1.Fits := by
  induction life with
  | start => exact nofun
  | reap status _ ih => exact ih
  | @step output childExit client op _ _ _ ih =>
    obtain ⟨head, send, tail, trace⟩ := client.step_trace op
    intro taken member
    rw [trace.serves] at member
    rcases List.mem_append.mp member with member | member
    · exact ih taken member
    · cases op with
      | packet history seen now =>
        rw [Op.taken, popPacket_eq] at member
        cases found : packetDecoder.next client.buf with
        | whole pkt rest =>
          rw [found, Option.map_some, Option.toList_some, List.mem_singleton] at member
          rw [member]
          exact fits_of_whole found
        | short => rw [found] at member; cases member
        | corrupt => rw [found] at member; cases member
      | _ => cases member

theorem drain_served (fits : ∀ taken ∈ client.served, taken.1.Fits) (more : List UInt8) :
    packetDecoder.drain ((client.served.flatMap fun taken => packetBytes taken.1) ++ more) =
      (client.served.map Prod.fst ++ (packetDecoder.drain more).1, (packetDecoder.drain more).2) := by
  have items : (client.served.flatMap fun taken => packetBytes taken.1) =
      (client.served.map Prod.fst).flatMap packetBytes := by
    rw [List.flatMap_map]
  rw [items]
  apply Decoder.drain_encode_append
  intro pkt member
  obtain ⟨taken, inside, rfl⟩ := List.mem_map.mp member
  exact packetBytes_inverts (fits taken inside)

theorem Client.behind_drain {header after : List UInt8}
    (fits : ∀ taken ∈ client.served, taken.1.Fits)
    (long : packetDecoder.next header = .corrupt)
    (parsed : (client.served.flatMap fun taken => packetBytes taken.1) ++ (header ++ after) =
      client.input) (more : List UInt8) :
    packetDecoder.drain (client.input ++ more) =
      (client.served.map Prod.fst, header ++ (after ++ more)) := by
  rw [← parsed, List.append_assoc, List.append_assoc, drain_served fits,
    packetDecoder.drain_corrupt (packetDecoder.corrupt_append _ long), List.append_nil]

theorem Client.behind_stuck {sent header after : List UInt8} (sound : NoStrayPacket sent)
    (front : client.input <+: sent) (fits : ∀ taken ∈ client.served, taken.1.Fits)
    (long : packetDecoder.next header = .corrupt)
    (parsed : (client.served.flatMap fun taken => packetBytes taken.1) ++ (header ++ after) =
      client.input)
    (buf : client.buf <:+ after) (pkt : Packet) (rest : List UInt8) :
    packetDecoder.next client.buf ≠ .whole pkt rest := by
  obtain ⟨more, rfl⟩ := front
  obtain ⟨skipped, rfl⟩ := buf
  have drained := Client.behind_drain fits long parsed more
  have overlong : Overlong (client.input ++ more) := by
    rw [Overlong, drained]
    exact packetDecoder.corrupt_append _ long
  intro found
  have size := (nextPacket_corrupt.mp long).1
  apply sound overlong (header.length + skipped.length) (by omega) pkt (rest ++ more)
  have parts : header ++ (skipped ++ client.buf ++ more) =
      (header ++ skipped) ++ (client.buf ++ more) := by
    simp only [List.append_assoc]
  rw [drained, ← packetDecoder.whole_append more found, parts, ← List.length_append, List.drop_left]

theorem Client.Place.step {sent : List UInt8} (sound : NoStrayPacket sent) {op : Op}
    (place : client.Place) (front : client.input <+: sent)
    (fits : ∀ taken ∈ client.served, taken.1.Fits) : (client.step op).Place := by
  cases place with
  | inStep parsed =>
    rcases client.step_cases op with ⟨fresh, serves, buf, input⟩ | ⟨_, _, _, _, serves, buf, input⟩
    · refine .inStep ?_
      rw [Client.Parsed, serves, buf, input, ← List.append_assoc, parsed]
    · by_cases corrupt : packetDecoder.next client.buf = .corrupt
      · -- here the over-long header is dropped
        rw [popPacket_eq, corrupt] at serves buf
        refine .behind client.buf [] corrupt ?_ ?_
        · rw [serves, input, ← parsed]
          simp
        · rw [buf]
      · exact .inStep (Client.step_parsed parsed corrupt)
  | behind header after long parsed suffix =>
    rcases client.step_cases op with ⟨fresh, serves, buf, input⟩ | ⟨_, _, _, _, serves, buf, input⟩
    · obtain ⟨skipped, rfl⟩ := suffix
      refine .behind header (skipped ++ client.buf ++ fresh) long ?_ ?_
      · rw [serves, input, ← parsed]
        simp only [List.append_assoc]
      · rw [buf, List.append_assoc]
        exact List.suffix_append _ _
    · have stuck := client.behind_stuck sound front fits long parsed suffix
      have kept : (popPacket client.buf).1 = none ∧ (popPacket client.buf).2 <:+ client.buf := by
        rw [popPacket_eq]
        cases found : packetDecoder.next client.buf with
        | whole pkt rest => exact absurd found (stuck pkt rest)
        | short => exact ⟨rfl, List.suffix_rfl⟩
        | corrupt => exact ⟨rfl, List.nil_suffix⟩
      rw [kept.1, Option.map_none, Option.toList_none, List.append_nil] at serves
      refine .behind header after long ?_ ?_
      · rw [serves, input, parsed]
      · rw [buf]
        exact kept.2.trans suffix

theorem Life.place {ok : Client → Op → Prop} {output : List UInt8} {childExit : Option Int32}
    (life : Life ok output childExit client) {sent : List UInt8} (sound : NoStrayPacket sent)
    (front : client.input <+: sent) : client.Place := by
  induction life with
  | start => exact .inStep rfl
  | reap status _ ih => exact ih front
  | @step output childExit client op life _ _ ih =>
    have before := (client.step_input op).trans front
    exact (ih before).step sound before life.served_fits

/-! ## A tick as a whole -/

def Client.Settled (client : Client) : Prop :=
  client.intake.broken = true ∨
    ∀ pkt rest, packetDecoder.next client.intake.buf ≠ .whole pkt rest

def Client.Waiting (client : Client) : Prop :=
  client.intake.broken = true ∨ packetDecoder.next client.intake.buf = .short

theorem Client.Waiting.settled {client : Client} (waiting : client.Waiting) : client.Settled := by
  refine waiting.imp_right fun short pkt rest => ?_
  rw [short]
  simp

theorem readOps_waiting (client : Client) (history : History) (seen : Nat) (now : Instant) :
    (runSteps Client.step (readOps client history seen now) client).Waiting := by
  have received := client.step_intake .receive
  have state : client.step .receive = client.receive := rfl
  simp only [Client.receive] at state
  unfold readOps Client.Waiting
  rcases answer : readLoop client.stream.reads client with ⟨ending, next⟩
  rw [answer] at state
  have loop := (next.packets history seen now (Nat.lt_succ_self _)).1
  cases ending with
  | failed =>
    simp only [answer] at received
    simp only [runSteps_cons, runSteps_nil, received]
    exact .inl trivial
  | blocked =>
    simp only [runSteps_cons, state, loop]
    exact .inr (leftover_short _)
  | eof =>
    simp only [List.cons_append, runSteps_cons, runSteps_append, runSteps_nil, state,
      Client.step_intake .endOfStream, loop]
    exact .inr (leftover_short _)

theorem readOps_settled (client : Client) (history : History) (seen : Nat) (now : Instant) :
    (runSteps Client.step (readOps client history seen now) client).Settled :=
  (readOps_waiting client history seen now).settled

theorem tickOps_split (tick : Tick) (server : Server) (client : Client) :
    ∃ before history seen now after,
      tickOps tick server client =
        before ++ readOps (runSteps Client.step before client) history seen now ++ after ∧
      (∀ op ∈ before, op.Quiet) ∧ ∀ op ∈ after, op.Quiet := by
  refine ⟨(tickChunks tick server).map Op.broadcast, (drained tick server).history,
    (drained tick server).master.output.length, tick.dumpClock client.stream.id, _,
    List.append_assoc _ _ _, ?_, ?_⟩
  · intro op member
    obtain ⟨_, _, rfl⟩ := List.mem_map.mp member
    trivial
  · intro op member
    rcases List.mem_append.mp member with member | member
    · split at member
      · rw [List.mem_singleton.mp member]
        trivial
      · cases member
    · simp only [List.mem_cons, List.not_mem_nil, or_false] at member
      rcases member with rfl | rfl <;> trivial

theorem tickOps_waiting (tick : Tick) (server : Server) (client : Client) :
    (runSteps Client.step (tickOps tick server client) client).Waiting := by
  obtain ⟨before, history, seen, now, after, ops, _, quiet⟩ := tickOps_split tick server client
  rw [ops, runSteps_append, runSteps_append, Client.Waiting, Client.quiet_intake quiet]
  exact readOps_waiting _ _ _ _

theorem tickOps_settled (tick : Tick) (server : Server) (client : Client) :
    (runSteps Client.step (tickOps tick server client) client).Settled :=
  (tickOps_waiting tick server client).settled

theorem everyone_of_ticked {holds : Client → Prop}
    (ticked : ∀ tick server client, holds (runSteps Client.step (tickOps tick server client) client))
    (ticks : List Tick) {server : Server} (start : ∀ client ∈ server.everyone, holds client) :
    ∀ client ∈ (serverLoop ticks server).server.everyone, holds client := by
  apply @serverLoop_invariant (fun server => ∀ client ∈ server.everyone, holds client) _ ticks _ start
  intro server tick before client member
  rcases mem_iterate_everyone.mp member with dropped | ⟨old, _, rfl⟩
  · exact before client (List.mem_append.mpr (.inr dropped))
  · exact ticked tick server old

theorem Reached.settled {ok : Client → Op → Prop} {server : Server} (reached : Reached ok server)
    (member : client ∈ server.everyone) : Entry.left .readError ∈ client.stream.journal ∨
      ∀ pkt rest, packetDecoder.next client.buf ≠ .whole pkt rest := by
  obtain ⟨pid, readPty, writes, ticks, _, rfl⟩ := reached
  have settled := everyone_of_ticked tickOps_settled ticks
    (by simp [Server.start, Server.everyone]) client member
  refine settled.imp_left fun broken => ?_
  simpa [Client.intake] using broken

theorem Life.served_all {ok : Client → Op → Prop} {output : List UInt8} {childExit : Option Int32}
    (life : Life ok output childExit client) (sound : NoStrayPacket client.input)
    (stuck : ∀ pkt rest, packetDecoder.next client.buf ≠ .whole pkt rest) :
    client.served.map Prod.fst = (packetDecoder.drain client.input).1 := by
  cases life.place sound List.prefix_rfl with
  | inStep parsed =>
    rw [← parsed, drain_served life.served_fits, packetDecoder.drain_stuck stuck, List.append_nil]
  | behind header after long parsed _ =>
    have drained := Client.behind_drain life.served_fits long parsed []
    rw [List.append_nil] at drained
    rw [drained]

theorem Reached.served {ok : Client → Op → Prop} {server : Server} (reached : Reached ok server)
    (member : client ∈ server.everyone) {sent : List UInt8} (sound : NoStrayPacket sent)
    (took : client.Took sent) : client.served.map Prod.fst = (packetDecoder.drain sent).1 := by
  obtain ⟨output, childExit, _, _, life⟩ := reached.sound.life member
  obtain ⟨rfl, whole⟩ := took
  exact life.served_all sound ((reached.settled member).resolve_left whole)

theorem noStrayPacket_of_short {sent : List UInt8}
    (short : Overlong sent → (packetDecoder.drain sent).2.length < 16) : NoStrayPacket sent := by
  intro overlong skip behind pkt rest found
  have size := short overlong
  have complete := (nextPacket_whole.mp found).1
  rw [List.length_drop] at complete
  omega

theorem noStrayHeader_of_short {sent : List UInt8}
    (short : Overlong sent → (packetDecoder.drain sent).2.length < 16) : NoStrayHeader sent := by
  intro pid readPty writes ticks
  refine runMeets_of_lives (fun output childExit client op life => ?_) ticks
    (Server.start_sound pid readPty writes)
  cases op with
  | packet history seen now =>
    intro front looked
    cases life.place (noStrayPacket_of_short short) front with
    | inStep parsed =>
      refine ⟨client.served.map Prod.fst, ?_, ?_⟩
      · intro pkt member
        obtain ⟨taken, inside, rfl⟩ := List.mem_map.mp member
        exact life.served_fits taken inside
      · rw [List.flatMap_map]
        exact parsed
    | behind header after long parsed suffix =>
      -- the header that was dropped and the one looked at take 16 bytes
      obtain ⟨more, rfl⟩ := front
      have drained := Client.behind_drain life.served_fits long parsed more
      have size := short (by
        rw [Overlong, drained]
        exact packetDecoder.corrupt_append _ long)
      have dropped := (nextPacket_corrupt.mp long).1
      have inside := suffix.length_le
      rw [drained, List.length_append, List.length_append] at size
      omega
  | _ => trivial

/-! ## A peer that pauses

It sends byte by byte and reads nothing; what it sends before the pause arrives
in one tick, and the rest in the next.
-/

def byteReads (bytes : List UInt8) : List (ReadAnswer 8192) :=
  bytes.map fun byte => .ok ⟨[byte], Nat.le_of_ble_eq_true rfl⟩

theorem readLoop_bytes {later more : List (ReadAnswer 8192)}
    (pause : ∀ client, readLoop later client = (.blocked, client.received [] more))
    (bytes : List UInt8) (client : Client) :
    readLoop (byteReads bytes ++ later) client =
      (.blocked, client.received (bytes.map fun byte => [byte]) more) := by
  induction bytes generalizing client with
  | nil => exact pause client
  | cons byte bytes ih =>
    have read : readLoop (byteReads (byte :: bytes) ++ later) client =
        readLoop (byteReads bytes ++ later)
          (client.received [[byte]] (byteReads bytes ++ later)) := rfl
    rw [read, ih, Client.received_received]
    rfl

theorem singles_flatten (bytes : List UInt8) : (bytes.map fun byte => [byte]).flatten = bytes := by
  rw [← List.flatMap_def, List.flatMap_singleton']

theorem Client.received_intake (client : Client) (bytes : List UInt8)
    (more : List (ReadAnswer 8192)) :
    (client.received (bytes.map fun byte => [byte]) more).intake =
      ⟨client.buf ++ bytes, client.input ++ bytes, more, client.intake.broken⟩ := by
  have input : inputOf ((bytes.map fun byte => [byte]).map Entry.got) = bytes := by
    simp [inputOf, List.flatMap_map]
  simp only [intake, Client.input, received_buf, received_journal, singles_flatten, inputOf_append,
    input, List.any_append]
  simp [received]

/-- The peer has not been given up, and no step of a tick without a child's exit
can change that. -/
structure Client.Patient (client : Client) : Prop where
  connected : client.disconnected = false
  blocked : client.stream.writes = []
  waiting : client.closeAfterDrain = none ∨
    client.closeAfterDrain = some 0 ∧ client.sendQueue ≠ []

def Packet.Stays (pkt : Packet) : Prop := pkt.typ ≠ msgDetach ∧ pkt.typ ≠ msgExit

theorem Client.Patient.dumpEnd (patient : client.Patient) :
    (sendPacketNonblocking client ⟨msgDumpEnd, []⟩).2.Patient ∧
      (sendPacketNonblocking client ⟨msgDumpEnd, []⟩).2.sendQueue ≠ [] := by
  have size : (packetBytes ⟨msgDumpEnd, []⟩).length = 8 := packetBytes_length _
  by_cases room : client.sendQueue.length + (packetBytes ⟨msgDumpEnd, []⟩).length ≤ sendQueueCap
  · have queue : client.sendQueue ++ packetBytes ⟨msgDumpEnd, []⟩ ≠ [] := by
      apply List.ne_nil_of_length_pos
      rw [List.length_append]
      omega
    rw [sendPacketNonblocking_blocked patient.blocked room]
    exact ⟨⟨patient.connected, rfl, patient.waiting.imp_right fun kept => ⟨kept.1, queue⟩⟩, queue⟩
  · have queue : client.sendQueue ≠ [] := by
      intro empty
      have cap : 8 ≤ sendQueueCap := by decide
      rw [empty, size, List.length_nil, Nat.zero_add] at room
      exact room cap
    rw [sendPacketNonblocking, if_pos (Nat.lt_of_not_le room)]
    exact ⟨⟨patient.connected, patient.blocked, patient.waiting⟩, queue⟩

theorem Client.Patient.serve (patient : client.Patient) {history : History}
    (silent : history.snapshot = []) (seen : Nat) {pkt : Packet} (stays : pkt.Stays) :
    (client.serve history seen 0 pkt).Patient := by
  have replay (client : Client) (sendEnd : Bool) : sendHistory client history sendEnd =
      if sendEnd then (sendPacketNonblocking client ⟨msgDumpEnd, []⟩).2 else client := by
    rw [sendHistory, silent]
    rfl
  have logged : (client.log (.served pkt seen)).Patient :=
    ⟨patient.connected, patient.blocked, patient.waiting⟩
  unfold Client.serve
  dsimp only
  split
  · rw [replay]
    exact ⟨logged.connected, logged.blocked, logged.waiting⟩
  · split
    · obtain ⟨dumped, queue⟩ := logged.dumpEnd
      rw [replay, if_pos rfl]
      split
      · exact ⟨dumped.connected, dumped.blocked, .inr ⟨rfl, queue⟩⟩
      · exact dumped
    · rw [if_neg (not_or.mpr stays)]
      exact logged

theorem Client.Patient.packets {history : History} (silent : history.snapshot = []) (seen : Nat)
    (rounds : Nat) (patient : client.Patient)
    (stay : ∀ pkt ∈ (packetDecoder.drain client.buf).1, pkt.Stays) :
    (runSteps Client.step (List.replicate rounds (.packet history seen 0)) client).Patient := by
  induction rounds generalizing client with
  | zero => exact patient
  | succ rounds ih =>
    rw [List.replicate_succ, runSteps_cons]
    have buf : (client.step (.packet history seen 0)).buf = (popPacket client.buf).2 :=
      congrArg Intake.buf (client.step_intake _)
    rw [popPacket_eq] at buf
    cases found : packetDecoder.next client.buf with
    | whole pkt rest =>
      rw [found] at buf
      rw [packetDecoder.drain_whole found] at stay
      have stepped : client.step (.packet history seen 0) =
          Client.serve { client with buf := rest } history seen 0 pkt := by
        simp only [Client.step, Client.packet, popPacket_eq, found]
      have popped : Client.Patient { client with buf := rest } :=
        ⟨patient.connected, patient.blocked, patient.waiting⟩
      apply ih
      · rw [stepped]
        exact popped.serve silent seen (stay pkt (by simp))
      · rw [buf]
        exact fun other member => stay other (by simp [member])
    | short =>
      rw [found] at buf
      have stepped : client.step (.packet history seen 0) = client := by
        simp only [Client.step, Client.packet, popPacket_eq, found]
      rw [stepped]
      exact ih patient stay
    | corrupt =>
      rw [found] at buf
      have stepped : client.step (.packet history seen 0) = { client with buf := [] } := by
        simp only [Client.step, Client.packet, popPacket_eq, found]
      rw [stepped]
      refine ih ⟨patient.connected, patient.blocked, patient.waiting⟩ ?_
      rw [packetDecoder.drain_nil]
      intro pkt member
      cases member

theorem Client.Patient.flush (patient : client.Patient) : (flushClient client).Patient := by
  rw [flushClient, if_neg (by simp [patient.connected])]
  by_cases empty : client.sendQueue = []
  · have same : tryFlushClient client = (.ok (), client) := by
      rw [tryFlushClient, tryFlushLoop, if_pos empty]
    rw [same]
    exact patient
  · rw [tryFlushClient_blocked patient.blocked empty]
    exact ⟨patient.connected, rfl, patient.waiting⟩

theorem Client.Patient.expire (patient : client.Patient) : expireClient 0 client = client := by
  rw [expireClient, if_neg (by simp [patient.connected])]
  rcases patient.waiting with none | ⟨closing, queue⟩
  · rw [none]
  · rw [closing]
    dsimp only
    rw [if_neg queue, if_neg (by decide)]

section Tick

variable {later more : List (ReadAnswer 8192)}
  (pause : ∀ client, readLoop later client = (.blocked, client.received [] more))
  {bytes : List UInt8} (reads : client.stream.reads = byteReads bytes ++ later)
  (history : History) (seen : Nat)

include pause reads

theorem Client.receive_bytes :
    client.step .receive = client.received (bytes.map fun byte => [byte]) more ∧
    readOps client history seen 0 = .receive ::
      List.replicate ((client.buf ++ bytes).length + 1) (.packet history seen 0) := by
  have loop := readLoop_bytes pause bytes client
  rw [← reads] at loop
  constructor
  · simp only [Client.step, Client.receive, loop]
  · simp only [readOps, loop, Client.received_buf, singles_flatten]

theorem Client.reading :
    (runSteps Client.step (readOps client history seen 0 ++ [.flush, .expire 0]) client).intake =
      ⟨leftover (client.buf ++ bytes), client.input ++ bytes, more, client.intake.broken⟩ ∧
    (runSteps Client.step (readOps client history seen 0 ++ [.flush, .expire 0]) client).served =
      client.served ++ (packetDecoder.drain (client.buf ++ bytes)).1.map fun pkt => (pkt, seen) := by
  obtain ⟨received, ops⟩ := client.receive_bytes pause reads history seen
  have quiet : ∀ op ∈ [Op.flush, .expire 0], op.Quiet := by
    intro op member
    simp only [List.mem_cons, List.not_mem_nil, or_false] at member
    rcases member with rfl | rfl <;> trivial
  have intake := client.received_intake bytes more
  have served : (client.received (bytes.map fun byte => [byte]) more).served = client.served := by
    simp [Client.served, servedOf]
  have enough : (client.received (bytes.map fun byte => [byte]) more).buf.length <
      (client.buf ++ bytes).length + 1 := by
    rw [Client.received_buf, singles_flatten]
    exact Nat.lt_succ_self _
  obtain ⟨loop, taken⟩ := Client.packets history seen 0 _ enough
  rw [ops, runSteps_append, Client.quiet_intake quiet, Client.quiet_served quiet, runSteps_cons,
    received, loop, taken, intake, served, Client.received_buf, singles_flatten]
  exact ⟨rfl, rfl⟩

theorem Client.Patient.reading (patient : client.Patient) (silent : history.snapshot = [])
    (stay : ∀ pkt ∈ (packetDecoder.drain (client.buf ++ bytes)).1, pkt.Stays) :
    (runSteps Client.step (readOps client history seen 0 ++ [.flush, .expire 0]) client).Patient := by
  obtain ⟨received, ops⟩ := client.receive_bytes pause reads history seen
  have taken : (client.received (bytes.map fun byte => [byte]) more).Patient :=
    ⟨patient.connected, patient.blocked, patient.waiting⟩
  simp only [ops, runSteps_append, runSteps_cons, runSteps_nil, received]
  have served := taken.packets silent seen ((client.buf ++ bytes).length + 1) (by
    rw [Client.received_buf, singles_flatten]
    exact stay)
  have flushed := served.flush
  rw [Client.step, Client.step, flushed.expire]
  exact flushed

end Tick

/-! ## Two ticks of such a peer -/

def pausing (first second : List UInt8) : Accept :=
  ⟨byteReads first ++ .err .wouldBlock :: byteReads second, [], 16, true⟩

def accepting (accepts : List Accept) : Tick := { Tick.idle with accepts }

def pausingTicks (first second : List UInt8) : List Tick :=
  [accepting [pausing first second], accepting []]

theorem accepting_drained (accepts : List Accept) (server : Server) :
    drained (accepting accepts) server = acceptLoop accepts server := by
  have silent : (if (opened (accepting accepts) server).readPty then
      ptyLoop [] (opened (accepting accepts) server) else opened (accepting accepts) server) =
        acceptLoop accepts server := by
    split <;> rfl
  unfold drained
  dsimp only
  rw [show (accepting accepts).ptyReads = [] from rfl, silent]
  unfold reapChild
  split
  · next none => cases none
  · rfl

theorem accepting_ops (accepts : List Accept) {server : Server} (exit : server.childExit = none)
    (history : server.history = History.new) (client : Client) :
    ∃ seen, tickOps (accepting accepts) server client =
      readOps client History.new seen 0 ++ [.flush, .expire 0] := by
  obtain ⟨accepted, readPty, after⟩ := acceptLoop_eq accepts server
  have quiet : tickChunks (accepting accepts) server = [] := by
    unfold tickChunks
    split <;> rfl
  refine ⟨server.master.output.length, ?_⟩
  rw [tickOps, accepting_drained, quiet, after]
  simp only [exit, history, List.map_nil, List.nil_append, List.append_nil, runSteps_nil]
  rfl

theorem iterate_running {tick : Tick} {server : Server}
    (exit : (settled tick server).childExit = none) :
    iterate tick server = .running (retainClients (settled tick server)) := by
  simp [iterate, retainClients, exit]

theorem pausing_first (first second : List UInt8)
    (stay : ∀ pkt ∈ (packetDecoder.drain first).1, pkt.Stays) :
    ∃ server client, iterate (accepting [pausing first second]) (Server.start 1 false []) =
        .running server ∧
      server.childExit = none ∧ server.history = History.new ∧ client ∈ server.clients ∧
      client.intake = ⟨leftover first, first, byteReads second, false⟩ ∧
      client.served.map Prod.fst = (packetDecoder.drain first).1 := by
  obtain ⟨seen, ops⟩ := accepting_ops [pausing first second]
    (rfl : (Server.start 1 false []).childExit = none) rfl
    (Client.accept 1 0 (pausing first second))
  have pause : ∀ client, readLoop (.err .wouldBlock :: byteReads second) client =
      (.blocked, client.received [] (byteReads second)) := fun _ => rfl
  have reads : (Client.accept 1 0 (pausing first second)).stream.reads =
      byteReads first ++ .err .wouldBlock :: byteReads second := rfl
  obtain ⟨intake, served⟩ := Client.reading pause reads History.new seen
  have patient := Client.Patient.reading pause reads History.new seen
    ⟨rfl, rfl, .inl rfl⟩ rfl stay
  rw [← ops] at intake served patient
  obtain ⟨_, master, _, after⟩ := settled_eq (accepting [pausing first second]) (Server.start 1 false [])
  rw [accepting_drained] at after
  have exit : (settled (accepting [pausing first second]) (Server.start 1 false [])).childExit =
      none := by
    rw [after]
    rfl
  have history : (settled (accepting [pausing first second]) (Server.start 1 false [])).history =
      History.new := by
    rw [after]
    rfl
  refine ⟨_, _, iterate_running exit, exit, history, ?_, intake, ?_⟩
  · apply List.mem_filter.mpr
    rw [settled_clients]
    exact ⟨List.mem_singleton.mpr rfl, by simp [patient.connected]⟩
  · rw [served, List.map_append, List.map_map]
    simp [Function.comp_def, Client.accept, Client.served]

theorem pausing_second (first second : List UInt8)
    (stay : ∀ pkt ∈ (packetDecoder.drain first).1, pkt.Stays) :
    ∃ server, Reached (fun _ _ => True) server ∧ ∃ client ∈ server.everyone,
      client.Took (first ++ second) ∧
        client.served.map Prod.fst =
          (packetDecoder.drain first).1 ++ (packetDecoder.drain (leftover first ++ second)).1 := by
  obtain ⟨server, client, run, exit, history, member, state, before⟩ :=
    pausing_first first second stay
  obtain ⟨seen, ops⟩ := accepting_ops [] exit history client
  have buf : client.buf = leftover first := congrArg Intake.buf state
  have input : client.input = first := congrArg Intake.input state
  have whole : client.intake.broken = false := congrArg Intake.broken state
  have reads : client.stream.reads = byteReads second ++ [] := by
    rw [List.append_nil]
    exact congrArg Intake.reads state
  obtain ⟨intake, served⟩ := Client.reading (fun _ => rfl) reads History.new seen
  rw [← ops] at intake served
  refine ⟨_, ⟨1, false, [], pausingTicks first second, runMeets_of_forall (fun _ _ => trivial) _ _, rfl⟩,
    runSteps Client.step (tickOps (accepting []) server client) client, ?_, ⟨?_, ?_⟩, ?_⟩
  · have later : (serverLoop (pausingTicks first second) (Server.start 1 false [])).server =
        (iterate (accepting []) server).server := by
      simp only [pausingTicks, serverLoop, run]
      cases iterate (accepting []) server <;> rfl
    rw [later]
    exact iterate_everyone member
  · rw [← input]
    exact congrArg Intake.input intake
  · have broken := (congrArg Intake.broken intake).trans whole
    intro member
    exact List.any_eq_false.mp broken _ member (beq_self_eq_true _)
  · rw [served, List.map_append, before, List.map_map, buf]
    simp [Function.comp_def]

theorem pausing_looks {holds : Client → Op → Prop} {first second : List UInt8}
    (stay : ∀ pkt ∈ (packetDecoder.drain first).1, pkt.Stays)
    (meets : RunMeets holds (pausingTicks first second) (Server.start 1 false [])) :
    ∃ client seen, client.buf = leftover first ++ second ∧ client.input = first ++ second ∧
      holds client (.packet History.new seen 0) := by
  obtain ⟨server, client, run, exit, history, member, state, _⟩ := pausing_first first second stay
  have reads : client.stream.reads = byteReads second ++ [] := by
    rw [List.append_nil]
    exact congrArg Intake.reads state
  obtain ⟨seen, ops⟩ := accepting_ops [] exit history client
  obtain ⟨received, reading⟩ := client.receive_bytes (fun _ => rfl) reads History.new seen
  have along : Along Client.step holds (tickOps (accepting []) server client) client := by
    have later := meets.2
    rw [run] at later
    exact later.1 client member
  rw [ops, reading] at along
  refine ⟨client.step .receive, seen, ?_, ?_, along.2.1⟩
  · rw [received, Client.received_buf, singles_flatten]
    exact congrArg (fun state => state.buf ++ second) state
  · rw [received]
    exact (congrArg Intake.input (client.received_intake second [])).trans
      (congrArg (fun state => state.input ++ second) state)

/-! ## What the server does with a stream, exactly -/

section Cut

variable {sent : List UInt8} {skip : Nat}

theorem corrupt_take {bad : List UInt8} (long : packetDecoder.next bad = .corrupt)
    (header : 8 ≤ skip) : packetDecoder.next (bad.take skip) = .corrupt := by
  obtain ⟨enough, excess⟩ := nextPacket_corrupt.mp long
  have complete : 8 ≤ (bad.take skip).length := by
    rw [List.length_take]
    omega
  have same := headerLen_append complete (bad.drop skip)
  rw [List.take_append_drop] at same
  exact nextPacket_corrupt.mpr ⟨complete, same ▸ excess⟩

def cutFront (sent : List UInt8) (skip : Nat) : List UInt8 :=
  (packetDecoder.drain sent).1.flatMap packetBytes ++ (packetDecoder.drain sent).2.take skip

theorem cutFront_append (sent : List UInt8) (skip : Nat) :
    cutFront sent skip ++ (packetDecoder.drain sent).2.drop skip = sent := by
  rw [cutFront, List.append_assoc, List.take_append_drop, packetBytes_drain]

theorem leftover_overlong (overlong : Overlong sent) : leftover sent = [] := by
  rw [leftover, overlong]

theorem cutFront_drain (overlong : Overlong sent) (header : 8 ≤ skip) :
    packetDecoder.drain (cutFront sent skip) =
      ((packetDecoder.drain sent).1, (packetDecoder.drain sent).2.take skip) := by
  have inverts : ∀ pkt ∈ (packetDecoder.drain sent).1, packetDecoder.Inverts packetBytes pkt :=
    fun pkt member => packetBytes_inverts (drain_fits sent pkt member)
  rw [cutFront, Decoder.drain_encode_append inverts,
    packetDecoder.drain_corrupt (corrupt_take overlong header), List.append_nil]

theorem cutFront_leftover (overlong : Overlong sent) (header : 8 ≤ skip) :
    leftover (cutFront sent skip) = [] := by
  apply leftover_overlong
  rw [Overlong, cutFront_drain overlong header]
  exact corrupt_take overlong header

variable (stays : ∀ pkt ∈ (packetDecoder.drain sent).1, pkt.Stays)

include stays

theorem noStrayPacket_of_sameSequence (same : SameSequence sent) : NoStrayPacket sent := by
  intro overlong skip header pkt rest found
  have stay : ∀ pkt ∈ (packetDecoder.drain (cutFront sent skip)).1, pkt.Stays := by
    rw [cutFront_drain overlong header]
    exact stays
  obtain ⟨_, reached, client, member, took, served⟩ := pausing_second sent [] stays
  obtain ⟨_, reached', client', member', took', served'⟩ :=
    pausing_second (cutFront sent skip) ((packetDecoder.drain sent).2.drop skip) stay
  rw [List.append_nil] at took
  rw [cutFront_append] at took'
  rw [leftover_overlong overlong, List.append_nil, packetDecoder.drain_nil, List.append_nil] at served
  rw [cutFront_drain overlong header, cutFront_leftover overlong header, List.nil_append,
    packetDecoder.drain_whole found] at served'
  have twice := same _ _ reached reached' client member client' member' took took'
  rw [served, served'] at twice
  have sizes := congrArg List.length twice
  simp only [List.length_append, List.length_cons] at sizes
  omega

theorem short_of_noStrayHeader (inPlace : NoStrayHeader sent) (overlong : Overlong sent) :
    (packetDecoder.drain sent).2.length < 16 := by
  apply Nat.lt_of_not_le
  intro enough
  have stay : ∀ pkt ∈ (packetDecoder.drain (cutFront sent 8)).1, pkt.Stays := by
    rw [cutFront_drain overlong (Nat.le_refl 8)]
    exact stays
  obtain ⟨client, seen, buf, input, look⟩ := pausing_looks stay (inPlace 1 false [] _)
  rw [cutFront_leftover overlong (Nat.le_refl 8), List.nil_append] at buf
  rw [cutFront_append] at input
  have header : 8 ≤ client.buf.length := by
    rw [buf, List.length_drop]
    omega
  obtain ⟨pkts, fits, parsed⟩ := look (input ▸ List.prefix_rfl) header
  -- then the decoder would have got past the over-long header
  have drained : (packetDecoder.drain sent).2 = (packetDecoder.drain client.buf).2 := by
    conv => lhs; rw [← input, ← parsed]
    rw [Decoder.drain_encode_append fun pkt member => packetBytes_inverts (fits pkt member)]
  have sizes := (packetDecoder.drain_suffix client.buf).length_le
  rw [← drained, buf, List.length_drop] at sizes
  omega

end Cut

/-- The server serves a stream alike however it is cut, and takes for headers only
what are headers, if and only if fewer than eight bytes follow an over-long
header. The packets served alone are the same if and only if nothing behind an
over-long header reads as a packet. -/
theorem streams_keep_step (sent : List UInt8)
    (stays : ∀ pkt ∈ (packetDecoder.drain sent).1, pkt.Stays) :
    (SameSequence sent ∧ NoStrayHeader sent ↔
      (Overlong sent → (packetDecoder.drain sent).2.length < 16)) ∧
    (SameSequence sent ↔ NoStrayPacket sent) := by
  have served (sound : NoStrayPacket sent) : SameSequence sent := by
    intro server server' reached reached' client member client' member' took took'
    rw [reached.served member sound took, reached'.served member' sound took']
  refine ⟨⟨fun both => short_of_noStrayHeader stays both.2, fun short => ?_⟩,
    noStrayPacket_of_sameSequence stays, served⟩
  exact ⟨served (noStrayPacket_of_short short), noStrayHeader_of_short short⟩

def overlongHeader : List UInt8 := [0, 0, 0, 0, 249, 15, 0, 0]

theorem streams_keep_step_end :
    SameSequence (packetBytes ⟨msgContent, [120]⟩ ++ overlongHeader) ∧
      NoStrayHeader (packetBytes ⟨msgContent, [120]⟩ ++ overlongHeader) := by
  have first : packetDecoder.next (packetBytes ⟨msgContent, [120]⟩ ++ overlongHeader) =
      .whole ⟨msgContent, [120]⟩ overlongHeader := by rfl
  have second : packetDecoder.next overlongHeader = .corrupt := by rfl
  have drained := packetDecoder.drain_whole first
  rw [packetDecoder.drain_corrupt second] at drained
  refine (streams_keep_step _ ?_).1.mpr ?_
  · rw [drained]
    simp [Packet.Stays, msgContent, msgDetach, msgExit]
  · rw [drained]
    exact fun _ => by decide

def strayKeystroke : List UInt8 := overlongHeader ++ packetBytes ⟨msgContent, [120]⟩

theorem stray_keystroke_served : ¬ (SameSequence strayKeystroke ∧ NoStrayHeader strayKeystroke) := by
  rintro ⟨same, _⟩
  have dropped : ∃ client ∈ (serverLoop (pausingTicks strayKeystroke [])
      (Server.start 1 false [])).server.everyone,
      (client.input = strayKeystroke ∧ Entry.left .readError ∉ client.stream.journal) ∧
        client.served.map Prod.fst = [] := by
    decide
  have served : ∃ client ∈ (serverLoop (pausingTicks overlongHeader (packetBytes ⟨msgContent, [120]⟩))
      (Server.start 1 false [])).server.everyone,
      (client.input = strayKeystroke ∧ Entry.left .readError ∉ client.stream.journal) ∧
        client.served.map Prod.fst = [⟨msgContent, [120]⟩] := by
    decide
  obtain ⟨client, member, took, none⟩ := dropped
  obtain ⟨client', member', took', one⟩ := served
  have equal := same _ _
    ⟨1, false, [], _, runMeets_of_forall (fun _ _ => trivial) _ _, rfl⟩
    ⟨1, false, [], _, runMeets_of_forall (fun _ _ => trivial) _ _, rfl⟩
    client member client' member' took took'
  rw [none, one] at equal
  cases equal

end Lich
