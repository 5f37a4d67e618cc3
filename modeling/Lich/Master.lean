import Lich.Commands
import Lich.Run

/-! The pty master in a run.

The journal of the master holds the commands of the packets served, those of
each client in the order in which its packets came, under the number that the
client was given when it was accepted.
-/

set_option autoImplicit false

namespace Lich

open Foundation

/-! ## One step of a client -/

theorem Client.sent_leaveIf_flags (client : Client) (entries : List Entry)
    (later : List WriteAnswer) (rest : List UInt8) (failed : Bool) :
    ((client.sent entries later rest).leaveIf failed).flags = client.flags := by
  cases failed <;> rfl

theorem sendHistory_flags (client : Client) (history : History) (sendEnd : Bool) :
    (sendHistory client history sendEnd).flags = client.flags := by
  obtain ⟨_, _, _, _, after, _⟩ := sendHistory_sent client history sendEnd
  rw [after]
  exact client.sent_leaveIf_flags _ _ _ _

theorem Client.serve_flags (client : Client) (history : History) (seen : Nat) (now : Instant)
    (pkt : Packet) : (client.serve history seen now pkt).flags = pkt.setFlags client.flags := by
  unfold serve Packet.setFlags
  by_cases attach : pkt.typ = msgAttach
  · rw [if_pos attach, if_pos attach]
    exact sendHistory_flags _ _ _
  · rw [if_neg attach, if_neg attach]
    dsimp only
    split
    · split
      · exact sendHistory_flags _ _ _
      · exact sendHistory_flags _ _ _
    · split <;> rfl

theorem Client.step_flags (op : Op) (client : Client) :
    (client.step op).flags =
      (op.taken client).elim client.flags fun taken => taken.1.setFlags client.flags := by
  cases op with
  | broadcast bytes =>
    simp only [step]
    split
    · obtain ⟨_, _, _, _, after, _⟩ := broadcastTo_sent bytes client
      rw [after]
      exact client.sent_leaveIf_flags _ _ _ _
    · rfl
  | receive =>
    rw [step]
    obtain ⟨_, _, after | after⟩ := client.receive_cases
    · rw [after]
      rfl
    · rw [after]
      rfl
  | packet history seen now =>
    simp only [step, packet, Op.taken]
    rcases popPacket client.buf with ⟨found, buf⟩
    cases found with
    | none => rfl
    | some pkt => exact Client.serve_flags _ _ _ _ _
  | notice status now =>
    simp only [step, noticeExit]
    split
    · rfl
    · obtain ⟨_, _, _, after, _⟩ := sendPacketNonblocking_sent client (exitPacket status)
      rw [after]
      rfl
  | flush =>
    rw [step]
    rcases flushClient_cases client with same | ⟨_, _, _, _, _, after | after⟩
    · rw [same]
      rfl
    · rw [after]
      rfl
    · rw [after]
      rfl
  | endOfStream => rfl
  | expire now =>
    simp only [step, expireClient]
    repeat' split
    all_goals rfl

/-! ## A client and the journal of the master -/

def Client.handled (client : Client) : List Packet := client.served.map Prod.fst

/-- The journal holds what the packets of the client do to the pty, and nothing
else on its behalf. -/
structure Client.Obeyed (journal : List PtyEntry) (client : Client) : Prop where
  flags : client.flags = flagsAfter 0 client.handled
  commands : commandsOf client.stream.id journal = commands client.stream.id 0 client.handled

variable {journal : List PtyEntry} {client : Client}

theorem Client.step_handled (op : Op) (client : Client) :
    (client.step op).handled = client.handled ++ ((op.taken client).map Prod.fst).toList := by
  obtain ⟨_, _, _, trace⟩ := client.step_trace op
  rw [handled, handled, trace.serves, List.map_append]
  cases op.taken client <;> rfl

theorem Client.step_id (op : Op) (client : Client) :
    (client.step op).stream.id = client.stream.id := by
  obtain ⟨_, _, _, trace⟩ := client.step_trace op
  exact trace.id

theorem Client.Obeyed.still (obeyed : client.Obeyed journal) {op : Op}
    (none : op.taken client = none) : (client.step op).Obeyed journal := by
  have same := client.step_handled op
  rw [none, Option.map_none, Option.toList_none, List.append_nil] at same
  constructor
  · rw [client.step_flags, none, same]
    exact obeyed.flags
  · rw [client.step_id, same]
    exact obeyed.commands

-- The packet loop takes a packet and obeys it in one go, so the two records
-- never differ between its rounds.
theorem Client.Obeyed.packet (obeyed : client.Obeyed journal) {history : History} {seen : Nat}
    {now : Instant} {pkt : Packet} {buf : List UInt8} {entries : List PtyEntry}
    (popped : popPacket client.buf = (some pkt, buf))
    (obeys : Obeys pkt client.stream.id client.flags entries) :
    (client.step (.packet history seen now)).Obeyed (journal ++ entries) := by
  have taken : Op.taken (.packet history seen now) client = some (pkt, seen) := by
    simp only [Op.taken, popped, Option.map_some]
  have handled := client.step_handled (.packet history seen now)
  rw [taken, Option.map_some, Option.toList_some] at handled
  constructor
  · rw [client.step_flags, taken, handled, flagsAfter_append, ← obeyed.flags]
    rfl
  · rw [client.step_id, handled, commandsOf_append, commands_append, obeyed.commands,
      obeys.commandsOf_self, ← obeyed.flags]
    simp [Lich.commands]

theorem Client.Obeyed.other (obeyed : client.Obeyed journal) {entries : List PtyEntry}
    (silent : commandsOf client.stream.id entries = []) : client.Obeyed (journal ++ entries) where
  flags := obeyed.flags
  commands := by rw [commandsOf_append, silent, List.append_nil, obeyed.commands]

theorem Client.Obeyed.quiet {ops : List Op} (obeyed : client.Obeyed journal)
    (quiet : ∀ op ∈ ops, ∀ client, op.taken client = none) :
    (runSteps Client.step ops client).Obeyed journal := by
  induction ops generalizing client with
  | nil => exact obeyed
  | cons op ops ih =>
    rw [runSteps_cons]
    apply ih
    · exact obeyed.still (quiet op List.mem_cons_self client)
    · exact fun other member => quiet other (List.mem_cons_of_mem _ member)

/-! ## The journal of the master, packet by packet -/

/-- The journal of a master is made of the records of packets, and of the signal
that asks the command to end. -/
inductive Recorded : List PtyEntry → Prop where
  | nil : Recorded []
  | signal {journal : List PtyEntry} : Recorded journal → Recorded (journal ++ [.signalled .term])
  | packet {journal entries : List PtyEntry} {pkt : Packet} {id : Nat} {flags : UInt32} :
      Recorded journal → Obeys pkt id flags entries → Recorded (journal ++ entries)

structure Serving (ids : List Nat) (journal added : List PtyEntry) : Prop where
  recorded : Recorded journal → Recorded (journal ++ added)
  others : ∀ id, id ∉ ids → commandsOf id added = []

theorem Serving.nil (ids : List Nat) (journal : List PtyEntry) : Serving ids journal [] where
  recorded recorded := by rwa [List.append_nil]
  others _ _ := rfl

theorem Serving.append {ids : List Nat} {journal first second : List PtyEntry}
    (start : Serving ids journal first) (later : Serving ids (journal ++ first) second) :
    Serving ids journal (first ++ second) where
  recorded recorded := by
    rw [← List.append_assoc]
    exact later.recorded (start.recorded recorded)
  others id other := by
    rw [commandsOf_append, start.others id other, later.others id other, List.append_nil]

theorem Serving.mono {ids more : List Nat} {journal added : List PtyEntry}
    (serving : Serving ids journal added) (inside : ∀ id ∈ ids, id ∈ more) :
    Serving more journal added where
  recorded := serving.recorded
  others id other := serving.others id fun member => other (inside id member)

theorem packetLoop_obeyed (history : History) (now : Instant) (rounds : Nat) (client : Client)
    (master : Pty) (obeyed : client.Obeyed master.journal) :
    ∃ added, (packetLoop history now rounds client master).2.journal = master.journal ++ added ∧
      Serving [client.stream.id] master.journal added ∧
      (packetLoop history now rounds client master).1.Obeyed (master.journal ++ added) := by
  induction rounds generalizing client master with
  | zero =>
    refine ⟨[], (List.append_nil _).symm, .nil _ _, ?_⟩
    rw [List.append_nil]
    exact obeyed
  | succ rounds ih =>
    rw [packetLoop]
    rcases answer : popPacket client.buf with ⟨found, buf⟩
    cases found with
    | none =>
      refine ⟨[], (List.append_nil _).symm, .nil _ _, ?_⟩
      rw [List.append_nil]
      exact ⟨obeyed.flags, obeyed.commands⟩
    | some pkt =>
      obtain ⟨entries, journal, obeys⟩ :=
        handlePacket_obeys history now pkt { client with buf } master
      have served := Client.step_packet_some history now master answer
      have next := @Client.Obeyed.packet _ _ obeyed history master.output.length now _ _ _
        answer obeys
      rw [served, ← journal] at next
      obtain ⟨added, after, serving, last⟩ := ih _ _ next
      have same : (handlePacket history now pkt { client with buf } master).1.stream.id =
          client.stream.id := by
        rw [← served]
        exact client.step_id _
      rw [same] at serving
      refine ⟨entries ++ added, ?_, .append ⟨fun recorded => .packet recorded obeys, ?_⟩ ?_, ?_⟩
      · rw [← List.append_assoc, ← journal]
        exact after
      · intro id other
        exact obeys.commandsOf_other fun same => other (List.mem_singleton.mpr same)
      · rw [← journal]
        exact serving
      · rw [← List.append_assoc, ← journal]
        exact last

theorem readClientPackets_obeyed (client : Client) (master : Pty) (history : History)
    (now : Instant) (obeyed : client.Obeyed master.journal) : ∃ added,
      (readClientPackets client master history now).2.journal = master.journal ++ added ∧
      Serving [client.stream.id] master.journal added ∧
      (readClientPackets client master history now).1.Obeyed (master.journal ++ added) := by
  have received := @Client.Obeyed.still _ _ obeyed .receive rfl
  have id := client.step_id .receive
  have state : client.step .receive = client.receive := rfl
  rw [state, Client.receive] at received id
  unfold readClientPackets
  rcases answer : readLoop client.stream.reads client with ⟨ending, next⟩
  rw [answer] at received id
  cases ending with
  | failed =>
    refine ⟨[], (List.append_nil _).symm, .nil _ _, ?_⟩
    rw [List.append_nil]
    exact received
  | blocked =>
    rw [← id]
    exact packetLoop_obeyed history now _ next master received
  | eof =>
    obtain ⟨added, journal, serving, last⟩ :=
      packetLoop_obeyed history now (next.buf.length + 1) next master received
    rw [← id]
    exact ⟨added, journal, serving, @Client.Obeyed.still _ _ last .endOfStream rfl⟩

theorem readClientPackets_id (client : Client) (master : Pty) (history : History)
    (now : Instant) :
    (readClientPackets client master history now).1.stream.id = client.stream.id := by
  rw [readClientPackets_fst, Client.runSteps_id]

def idsOf (clients : List Client) : List Nat := clients.map fun client => client.stream.id

-- Each client is served on its own, and what is recorded for one of them is
-- recorded under its own number.
theorem readClients_obeyed (history : History) (clock : Nat → Instant) (clients : List Client)
    (master : Pty) (distinct : (idsOf clients).Nodup)
    (obeyed : ∀ client ∈ clients, client.Obeyed master.journal) : ∃ added,
      (readClients history clock clients master).2.journal = master.journal ++ added ∧
      Serving (idsOf clients) master.journal added ∧
      ∀ client ∈ (readClients history clock clients master).1,
        client.Obeyed (master.journal ++ added) := by
  induction clients generalizing master with
  | nil => exact ⟨[], (List.append_nil _).symm, .nil _ _, nofun⟩
  | cons client clients ih =>
    obtain ⟨fresh, distinct⟩ := List.nodup_cons.mp distinct
    obtain ⟨first, journal, serving, next⟩ := readClientPackets_obeyed client master history
      (clock client.stream.id) (obeyed client List.mem_cons_self)
    have waiting : ∀ other ∈ clients, other.Obeyed (master.journal ++ first) := by
      intro other member
      apply (obeyed other (List.mem_cons_of_mem _ member)).other
      apply serving.others
      intro same
      apply fresh
      exact List.mem_map.mpr ⟨other, member, List.mem_singleton.mp same⟩
    rw [← journal] at waiting
    obtain ⟨second, rest, later, all⟩ := ih _ distinct waiting
    rw [journal] at later
    refine ⟨first ++ second, ?_, .append (serving.mono ?_) (later.mono ?_), ?_⟩
    · rw [← List.append_assoc, ← journal]
      exact rest
    · intro id member
      rw [List.mem_singleton.mp member]
      exact List.mem_cons_self
    · exact fun id member => List.mem_cons_of_mem _ member
    · intro other member
      rw [← List.append_assoc, ← journal]
      rcases List.mem_cons.mp member with rfl | member
      · rw [journal]
        apply next.other
        apply later.others
        rw [readClientPackets_id]
        exact fresh
      · exact all other member

/-! ## Runs -/

/-- What holds between iterations: the clients have the numbers given out so far,
each once, and the journal of the master records the packets of each. -/
structure Server.Obeyed (server : Server) : Prop where
  recorded : Recorded server.master.journal
  numbered : (idsOf server.everyone).Perm (List.range server.accepted)
  unused : ∀ id, server.accepted ≤ id → commandsOf id server.master.journal = []
  clients : ∀ client ∈ server.everyone, client.Obeyed server.master.journal

theorem idsOf_acceptedClients (pid : UInt64) (first : Nat) (accepts : List Accept) :
    idsOf (acceptedClients pid first accepts) =
      List.range' first (acceptedClients pid first accepts).length := by
  induction accepts generalizing first with
  | nil => rfl
  | cons accept accepts ih =>
    rw [acceptedClients]
    split
    · rw [List.length_cons, List.range'_succ, ← ih (first + 1)]
      rfl
    · exact ih first

theorem acceptLoop_accepted (accepts : List Accept) (server : Server) :
    (acceptLoop accepts server).accepted =
      server.accepted + (acceptedClients server.pid server.accepted accepts).length := by
  induction accepts generalizing server with
  | nil => rfl
  | cons accept accepts ih =>
    rw [acceptLoop, acceptedClients]
    split
    · rw [ih, List.length_cons]
      dsimp only
      omega
    · exact ih server

theorem pollShutdown_recorded {server : Server} (shutdown : Bool) :
    ∃ added, (pollShutdown shutdown server).master.journal = server.master.journal ++ added ∧
      Serving [] server.master.journal added := by
  unfold pollShutdown
  split
  · exact ⟨[.signalled .term], rfl, fun recorded => .signal recorded, fun _ _ => rfl⟩
  · exact ⟨[], (List.append_nil _).symm, .nil _ _⟩

theorem opened_obeyed {server : Server} (obeyed : server.Obeyed) (tick : Tick) :
    (opened tick server).Obeyed := by
  obtain ⟨added, journal, serving⟩ := @pollShutdown_recorded server tick.shutdown
  have polled : (pollShutdown tick.shutdown server).accepted = server.accepted ∧
      (pollShutdown tick.shutdown server).pid = server.pid := by
    obtain ⟨_, _, _, same⟩ := pollShutdown_eq tick.shutdown server
    rw [same]
    exact ⟨rfl, rfl⟩
  have accepted := acceptLoop_accepted tick.accepts (pollShutdown tick.shutdown server)
  rw [polled.1, polled.2] at accepted
  have everyone : (opened tick server).everyone = server.clients ++
      acceptedClients server.pid server.accepted tick.accepts ++ server.dropped := by
    obtain ⟨_, _, _, _, _, after⟩ := opened_eq tick server
    rw [after]
    rfl
  have master : (opened tick server).master.journal = server.master.journal ++ added := by
    obtain ⟨_, _, after⟩ := acceptLoop_eq tick.accepts (pollShutdown tick.shutdown server)
    rw [opened, after]
    exact journal
  have waiting : ∀ client ∈ server.everyone, client.Obeyed (server.master.journal ++ added) :=
    fun client member => (obeyed.clients client member).other (serving.others _ List.not_mem_nil)
  constructor
  · rw [master]
    exact serving.recorded obeyed.recorded
  · -- the new clients take the next numbers
    have old := obeyed.numbered
    have total : (opened tick server).accepted =
      server.accepted + (acceptedClients server.pid server.accepted tick.accepts).length := accepted
    rw [everyone, total, List.range_eq_range', ← List.range'_append_1, ← List.range_eq_range',
      Nat.zero_add, ← idsOf_acceptedClients]
    refine List.Perm.trans ?_ (old.append_right _)
    simp only [idsOf, Server.everyone, List.map_append, List.append_assoc]
    exact (List.perm_append_comm).append_left _
  · intro id unused
    have early : server.accepted ≤ id := by
      have total : (opened tick server).accepted = _ := accepted
      omega
    rw [master, commandsOf_append, obeyed.unused id early, serving.others id List.not_mem_nil]
    rfl
  · rw [master, everyone]
    intro client member
    rcases List.mem_append.mp member with member | dropped
    · rcases List.mem_append.mp member with old | new
      · exact waiting client (List.mem_append_left _ old)
      · obtain ⟨id, accept, rfl⟩ := mem_acceptedClients new
        refine ⟨rfl, ?_⟩
        have number : id ∈ idsOf (acceptedClients server.pid server.accepted tick.accepts) :=
          List.mem_map.mpr ⟨_, new, rfl⟩
        rw [idsOf_acceptedClients, List.mem_range'_1] at number
        change commandsOf id _ = []
        rw [commandsOf_append, obeyed.unused id number.1, serving.others id List.not_mem_nil]
        rfl
    · exact waiting client (List.mem_append_right _ dropped)

theorem idsOf_stepped {clients : List Client} {ops : Client → List Op} :
    idsOf (clients.map fun client => runSteps Client.step (ops client) client) = idsOf clients := by
  rw [idsOf, idsOf, List.map_map]
  apply List.map_congr_left
  intro client _
  exact Client.runSteps_id _ _

theorem Server.Obeyed.distinct {server : Server} (obeyed : server.Obeyed) :
    (idsOf server.clients ++ idsOf server.dropped).Nodup := by
  have all : (idsOf server.everyone).Nodup := obeyed.numbered.nodup_iff.mpr List.nodup_range
  rwa [Server.everyone, idsOf, List.map_append] at all

theorem drained_obeyed {server : Server} (obeyed : server.Obeyed) (tick : Tick) :
    (drained tick server).Obeyed := by
  have start := opened_obeyed obeyed tick
  obtain ⟨readPty, childExit, after⟩ := drained_eq tick server
  have everyone : (drained tick server).everyone =
      ((opened tick server).clients.map fun client => runSteps Client.step
        ((tickChunks tick server).map Op.broadcast) client) ++ (opened tick server).dropped := by
    rw [after]
    rfl
  have journal : (drained tick server).master.journal = (opened tick server).master.journal := by
    rw [after]
    rfl
  have accepted : (drained tick server).accepted = (opened tick server).accepted := by
    rw [after]
    rfl
  constructor
  · rw [journal]
    exact start.recorded
  · have ids : idsOf (drained tick server).everyone = idsOf (opened tick server).everyone := by
      rw [everyone, idsOf, List.map_append]
      refine congrArg (· ++ _) ?_ |>.trans List.map_append.symm
      exact idsOf_stepped
    rw [ids, accepted]
    exact start.numbered
  · rw [journal, accepted]
    exact start.unused
  · rw [journal, everyone]
    intro client member
    rcases List.mem_append.mp member with member | dropped
    · obtain ⟨old, inside, rfl⟩ := List.mem_map.mp member
      apply (start.clients old (List.mem_append_left _ inside)).quiet
      intro op member
      obtain ⟨_, _, rfl⟩ := List.mem_map.mp member
      exact fun _ => rfl
    · exact start.clients client (List.mem_append_right _ dropped)

theorem settled_master (tick : Tick) (server : Server) :
    (settled tick server).master = (readClients (drained tick server).history tick.dumpClock
      (drained tick server).clients (drained tick server).master).2 := by
  unfold settled
  cases exit : (drained tick server).childExit <;> simp only [exit]

theorem answered_obeyed {server : Server} (obeyed : server.Obeyed) (tick : Tick) :
    ∃ added, (settled tick server).master.journal =
        (drained tick server).master.journal ++ added ∧
      Serving (idsOf (drained tick server).clients) (drained tick server).master.journal added ∧
      ∀ client ∈ answered tick server,
        client.Obeyed ((drained tick server).master.journal ++ added) := by
  have start := drained_obeyed obeyed tick
  rw [settled_master]
  exact readClients_obeyed _ _ _ _ (List.nodup_append.mp start.distinct).1 fun client member =>
    start.clients client (List.mem_append_left _ member)

theorem closingOps_quiet (tick : Tick) (server : Server) (client : Client) :
    ∀ op ∈ closingOps tick server client, ∀ client, op.taken client = none := by
  intro op member
  rcases List.mem_append.mp member with member | member
  · obtain ⟨_, _, rfl⟩ := List.mem_map.mp member
    exact fun _ => rfl
  · simp only [List.mem_cons, List.not_mem_nil, or_false] at member
    rcases member with rfl | rfl <;> exact fun _ => rfl

theorem settled_answered (tick : Tick) (server : Server) :
    (settled tick server).clients = (answered tick server).map fun client =>
      runSteps Client.step (closingOps tick server client) client := by
  rw [settled_clients, answered_eq, List.map_map]
  apply List.map_congr_left
  intro client _
  simp only [Function.comp_apply, tickOps_eq, runSteps_append, closingOps, Client.runSteps_id]

theorem idsOf_settled (tick : Tick) (server : Server) :
    idsOf (settled tick server).clients = idsOf (drained tick server).clients := by
  rw [settled_answered, idsOf_stepped, answered, (readClients_eq _ _ _ _).1, idsOf_stepped]

theorem idsOf_retainClients (server : Server) :
    (idsOf (retainClients server).everyone).Perm (idsOf server.everyone) := by
  simp only [Server.everyone, retainClients, idsOf, List.map_append]
  apply List.perm_append_comm.trans
  rw [List.append_assoc]
  apply List.Perm.trans _ List.perm_append_comm
  apply List.Perm.append_left
  rw [← List.map_append]
  apply List.Perm.map
  exact List.filter_append_perm _ _

theorem iterate_obeyed {server : Server} (obeyed : server.Obeyed) (tick : Tick) :
    (iterate tick server).server.Obeyed := by
  have start := drained_obeyed obeyed tick
  obtain ⟨added, journal, serving, answers⟩ := answered_obeyed obeyed tick
  obtain ⟨_, _, _, settledEq⟩ := settled_eq tick server
  have dropped : (settled tick server).dropped = (drained tick server).dropped := by
    rw [settledEq]
  have accepted : (settled tick server).accepted = (drained tick server).accepted := by
    rw [settledEq]
  have own {client : Client} (member : client ∈ (settled tick server).clients) :
      client.Obeyed (settled tick server).master.journal := by
    rw [settled_answered] at member
    obtain ⟨old, inside, rfl⟩ := List.mem_map.mp member
    rw [journal]
    exact (answers old inside).quiet (closingOps_quiet tick server old)
  have gone {client : Client} (member : client ∈ (drained tick server).dropped) :
      client.Obeyed (settled tick server).master.journal := by
    rw [journal]
    apply (start.clients client (List.mem_append_right _ member)).other
    apply serving.others
    intro shared
    exact (List.nodup_append.mp start.distinct).2.2 _ shared _ (List.mem_map_of_mem member) rfl
  rw [iterate_server]
  constructor
  · change Recorded (settled tick server).master.journal
    rw [journal]
    exact serving.recorded start.recorded
  · have everyone : idsOf (settled tick server).everyone = idsOf (drained tick server).everyone := by
      simp only [Server.everyone, idsOf, List.map_append, dropped]
      exact congrArg (· ++ _) (idsOf_settled tick server)
    apply (idsOf_retainClients _).trans
    change List.Perm _ (List.range (settled tick server).accepted)
    rw [everyone, accepted]
    exact start.numbered
  · intro id unused
    change (settled tick server).accepted ≤ id at unused
    change commandsOf id (settled tick server).master.journal = []
    rw [accepted] at unused
    rw [journal, commandsOf_append, start.unused id unused, List.nil_append]
    apply serving.others
    intro used
    have inside : id ∈ idsOf (drained tick server).everyone := by
      rw [Server.everyone, idsOf, List.map_append]
      exact List.mem_append_left _ used
    have early := List.mem_range.mp (start.numbered.mem_iff.mp inside)
    omega
  · intro client member
    rcases List.mem_append.mp member with member | member
    · exact own (List.mem_filter.mp member).1
    · rcases List.mem_append.mp member with member | member
      · exact gone (dropped ▸ member)
      · exact own (List.mem_filter.mp member).1

theorem Server.start_obeyed (pid : UInt64) (readPty : Bool) (writes : List WriteAnswer) :
    (Server.start pid readPty writes).Obeyed where
  recorded := .nil
  numbered := List.Perm.refl _
  unused _ _ := rfl
  clients := by simp [Server.start, Server.everyone]

theorem Reached.obeyed {ok : Client → Op → Prop} {server : Server}
    (reached : Reached ok server) : server.Obeyed := by
  obtain ⟨pid, readPty, writes, ticks, _, rfl⟩ := reached
  exact @serverLoop_invariant Server.Obeyed (fun _ tick obeyed => iterate_obeyed obeyed tick)
    ticks _ (Server.start_obeyed pid readPty writes)

end Lich
