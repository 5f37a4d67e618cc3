import Lich.Master
import Lich.Overlong
import Lich.Conservation

/-! No premature close.

A client that does nothing to be given up for is closed by the server's own
doing: it has asked for a dump or the command is gone. It then leaves with an
empty queue or after its deadline, which counts from the first of these events.
-/

set_option autoImplicit false

namespace Lich

open Foundation

def ReadAnswer.Ends {size : Nat} : ReadAnswer size → Prop
  | .ok slice => slice.bytes = []
  | .err kind => kind ≠ .wouldBlock ∧ kind ≠ .interrupted

def Entry.Harms : Entry → Prop
  | .wrote bytes => bytes = []
  | .writeFailed kind => kind ≠ .wouldBlock ∧ kind ≠ .interrupted
  | .refused _ => True
  | _ => False

def closings : List Op → Client → List Instant
  | [], _ => []
  | op :: ops, client => (op.closes client).toList ++ closings ops (client.step op)

def tickClosings (id : Nat) (tick : Tick) (server : Server) : List Instant :=
  ((opened tick server).clients.filter fun client => client.stream.id == id).flatMap fun client =>
    closings (tickOps tick server client) client

/-- Those of one client in a run: each MSG_DUMP of it that is served, and each time
the exit branch comes to it. -/
def closingEvents (id : Nat) : List Tick → Server → List Instant
  | [], _ => []
  | tick :: ticks, server =>
    tickClosings id tick server ++
      match iterate tick server with
      | .running server => closingEvents id ticks server
      | .returned _ => []

/-! ## The first closing event counts -/

theorem closings_first (ops : List Op) (client : Client) :
    (runSteps Client.step ops client).closeAfterDrain =
      client.closeAfterDrain.or (closings ops client).head? := by
  induction ops generalizing client with
  | nil => exact (Option.or_none ..).symm
  | cons op ops ih =>
    rw [runSteps_cons, ih, client.step_closing, closings, List.head?_append, Option.or_assoc]
    cases op.closes client <;> rfl

/-- The client with this number, if there has been one, closes since then. -/
structure Server.Dated (id : Nat) (since : Option Instant) (server : Server) : Prop where
  known : ∀ client ∈ server.everyone, client.stream.id = id → client.closeAfterDrain = since
  fresh : server.accepted ≤ id → since = none

theorem filter_own {clients : List Client} (distinct : (idsOf clients).Nodup) {client : Client}
    (member : client ∈ clients) :
    clients.filter (fun other => other.stream.id == client.stream.id) = [client] := by
  induction clients with
  | nil => cases member
  | cons first clients ih =>
    obtain ⟨apart, distinct⟩ := List.nodup_cons.mp distinct
    rcases List.mem_cons.mp member with rfl | member
    · have none : clients.filter (fun other => other.stream.id == client.stream.id) = [] := by
        apply List.filter_eq_nil_iff.mpr
        intro other inside same
        apply apart
        exact List.mem_map.mpr ⟨other, inside, beq_iff_eq.mp same⟩
      rw [List.filter_cons, if_pos (beq_self_eq_true _), none]
    · have other : ¬ (first.stream.id == client.stream.id) = true := by
        intro same
        apply apart
        exact List.mem_map.mpr ⟨client, member, (beq_iff_eq.mp same).symm⟩
      rw [List.filter_cons, if_neg other]
      exact ih distinct member

theorem opened_distinct {server : Server} (obeyed : server.Obeyed) (tick : Tick) :
    (idsOf (opened tick server).everyone).Nodup :=
  (opened_obeyed obeyed tick).numbered.nodup_iff.mpr List.nodup_range

theorem tickClosings_none {id : Nat} {tick : Tick} {server : Server}
    (absent : ∀ client ∈ (opened tick server).clients, client.stream.id ≠ id) :
    tickClosings id tick server = [] := by
  have none : (opened tick server).clients.filter (fun client => client.stream.id == id) = [] := by
    apply List.filter_eq_nil_iff.mpr
    exact fun client member same => absent client member (beq_iff_eq.mp same)
  rw [tickClosings, none]
  rfl

theorem opened_dropped (tick : Tick) (server : Server) :
    (opened tick server).dropped = server.dropped := by
  obtain ⟨_, _, _, _, _, after⟩ := opened_eq tick server
  rw [after]

theorem iterate_accepted (tick : Tick) (server : Server) :
    (iterate tick server).server.accepted = (opened tick server).accepted := by
  obtain ⟨_, _, _, settledEq⟩ := settled_eq tick server
  obtain ⟨_, _, drainedEq⟩ := drained_eq tick server
  rw [iterate_server, retainClients, settledEq, drainedEq]
  rfl

theorem opened_accepted (tick : Tick) (server : Server) :
    (opened tick server).accepted = server.accepted +
      (acceptedClients server.pid server.accepted tick.accepts).length := by
  obtain ⟨_, _, _, polled⟩ := pollShutdown_eq tick.shutdown server
  rw [opened, acceptLoop_accepted, polled]

-- The numbers of the clients keep apart whose time it is: a client that is still
-- served goes on with its own, a dropped one keeps it, and a new one has none.
theorem Server.Dated.iterate {id : Nat} {since : Option Instant} {server : Server}
    (dated : server.Dated id since) (obeyed : server.Obeyed) (tick : Tick) :
    (iterate tick server).server.Dated id (since.or (tickClosings id tick server).head?) := by
  have distinct := opened_distinct obeyed tick
  rw [Server.everyone, idsOf, List.map_append, opened_dropped] at distinct
  obtain ⟨own, _, apart⟩ := List.nodup_append.mp distinct
  constructor
  · intro client member number
    rcases mem_iterate_everyone.mp member with dropped | ⟨old, inside, rfl⟩
    · have absent : ∀ other ∈ (opened tick server).clients, other.stream.id ≠ id := by
        intro other inside same
        apply apart _ (List.mem_map_of_mem inside) _ (List.mem_map_of_mem dropped)
        exact same.trans number.symm
      rw [tickClosings_none absent, List.head?_nil, Option.or_none]
      exact dated.known client (List.mem_append_right _ dropped) number
    · rw [Client.runSteps_id] at number
      have before : old.closeAfterDrain = since := by
        rcases mem_opened inside with known | new
        · exact dated.known old (List.mem_append_left _ known) number
        · have late : old.stream.id ∈ idsOf (acceptedClients server.pid server.accepted tick.accepts) :=
            List.mem_map_of_mem new
          rw [idsOf_acceptedClients, List.mem_range'_1, number] at late
          obtain ⟨_, _, rfl⟩ := mem_acceptedClients new
          exact (dated.fresh late.1).symm
      rw [closings_first, before, tickClosings, ← number, filter_own own inside]
      simp
  · intro unused
    rw [iterate_accepted] at unused
    have early := opened_accepted tick server
    have absent : ∀ other ∈ (opened tick server).clients, other.stream.id ≠ id := by
      intro other inside same
      have used : other.stream.id ∈ idsOf (opened tick server).everyone :=
        List.mem_map_of_mem (List.mem_append_left _ inside)
      have bound := List.mem_range.mp
        ((opened_obeyed obeyed tick).numbered.mem_iff.mp used)
      omega
    rw [tickClosings_none absent, List.head?_nil, Option.or_none]
    apply dated.fresh
    omega

theorem serverLoop_dated {id : Nat} {since : Option Instant} (ticks : List Tick) {server : Server}
    (obeyed : server.Obeyed) (dated : server.Dated id since) :
    (serverLoop ticks server).server.Dated id (since.or (closingEvents id ticks server).head?) := by
  induction ticks generalizing server since with
  | nil =>
    rw [closingEvents, List.head?_nil, Option.or_none]
    exact dated
  | cons tick ticks ih =>
    have next := dated.iterate obeyed tick
    have obeys := iterate_obeyed obeyed tick
    rw [serverLoop, closingEvents, List.head?_append, ← Option.or_assoc]
    cases outcome : iterate tick server with
    | running server =>
      rw [outcome] at next obeys
      exact ih obeys next
    | returned server =>
      rw [outcome] at next
      rw [List.head?_nil, Option.or_none]
      exact next

/-! ## Who is given up -/

def Client.Harmed (client : Client) : Prop := ∃ entry ∈ client.stream.journal, entry.Harms

theorem tryFlushLoop_harmed {rounds : Nat} {client : Client} {error : IoError}
    (failed : (tryFlushLoop rounds client).1 = .error error) :
    (tryFlushLoop rounds client).2.Harmed := by
  induction rounds generalizing client with
  | zero => cases failed
  | succ rounds ih =>
    rw [tryFlushLoop] at failed ⊢
    split at failed
    · cases failed
    · next waiting =>
      rw [if_neg waiting]
      rcases client.stream.write_cases client.sendQueue with
        ⟨count, later, _, _, answer⟩ | ⟨kind, later, _, answer⟩
      · rw [answer] at failed ⊢
        cases count with
        | zero => exact ⟨.wrote (client.sendQueue.take 0), by simp, List.take_zero⟩
        | succ count => exact ih failed
      · rw [answer] at failed ⊢
        cases kind with
        | wouldBlock => cases failed
        | interrupted => exact ih failed
        | _ =>
          refine ⟨_, List.mem_append_right _ (List.mem_singleton.mpr rfl), ?_⟩
          exact ⟨by decide, by decide⟩

theorem tryFlushClient_harmed {client : Client} {error : IoError}
    (failed : (tryFlushClient client).1 = .error error) : (tryFlushClient client).2.Harmed :=
  tryFlushLoop_harmed failed

theorem sendPacketNonblocking_harmed {client : Client} {pkt : Packet} {error : IoError}
    (failed : (sendPacketNonblocking client pkt).1 = .error error) :
    (sendPacketNonblocking client pkt).2.Harmed := by
  unfold sendPacketNonblocking at failed ⊢
  dsimp only at failed ⊢
  split
  · exact ⟨.refused pkt, by simp [Client.log, UnixStream.log], trivial⟩
  · next room =>
    rw [if_neg room] at failed
    exact tryFlushClient_harmed failed

theorem sendPacketNonblocking_connected (client : Client) (pkt : Packet) :
    (sendPacketNonblocking client pkt).2.disconnected = client.disconnected := by
  obtain ⟨_, _, _, after, _⟩ := sendPacketNonblocking_sent client pkt
  rw [after, Client.sent_disconnected]

theorem Client.Harmed.leave {client : Client} (harmed : client.Harmed) (why : Departure) :
    (client.leave why).Harmed := by
  obtain ⟨entry, member, kind⟩ := harmed
  exact ⟨entry, List.mem_append_left _ member, kind⟩

theorem sendChunks_connected {client : Client} (connected : client.disconnected = false)
    (pieces : List (List UInt8)) :
    (sendChunks pieces client).2.disconnected = false ∨ (sendChunks pieces client).2.Harmed := by
  induction pieces generalizing client with
  | nil => exact .inl connected
  | cons piece pieces ih =>
    have kept := sendPacketNonblocking_connected client ⟨msgContent, piece⟩
    have harmed := @sendPacketNonblocking_harmed client ⟨msgContent, piece⟩
    rw [sendChunks]
    rcases answer : sendPacketNonblocking client ⟨msgContent, piece⟩ with ⟨result, next⟩
    rw [answer] at kept harmed
    cases result with
    | ok => exact ih (kept.trans connected)
    | error => exact .inr ((harmed rfl).leave .sendFailed)

theorem sendHistory_connected {client : Client} (connected : client.disconnected = false)
    (history : History) (sendEnd : Bool) :
    (sendHistory client history sendEnd).disconnected = false ∨
      (sendHistory client history sendEnd).Harmed := by
  have chunks := sendChunks_connected connected (chunks maxPayload history.snapshot)
  unfold sendHistory
  rcases answer : sendChunks (Foundation.chunks maxPayload history.snapshot) client with ⟨done, next⟩
  rw [answer] at chunks
  cases done with
  | false => exact chunks
  | true =>
    cases sendEnd with
    | false => exact chunks
    | true =>
      -- the end mark is sent whatever comes of it
      refine chunks.imp (fun on => ?_) ?_
      · exact (sendPacketNonblocking_connected next _).trans on
      · rintro ⟨entry, member, kind⟩
        obtain ⟨_, _, _, after, _⟩ := sendPacketNonblocking_sent next ⟨msgDumpEnd, []⟩
        refine ⟨entry, ?_, kind⟩
        dsimp only
        rw [if_pos rfl, after, Client.sent_journal]
        exact List.mem_append_left _ member

def Op.Calm (client : Client) : Op → Prop
  | .receive => (readLoop client.stream.reads client).1 ≠ .failed
  | .endOfStream | .expire _ => False
  | _ => True

/-- The client has given a reason to be given up. -/
def Client.Blamed (client : Client) : Prop :=
  client.Harmed ∨ ∃ taken ∈ client.served, ¬ taken.1.Stays

theorem Client.step_journal (op : Op) (client : Client) :
    client.stream.journal <+: (client.step op).stream.journal := by
  obtain ⟨_, _, _, trace⟩ := client.step_trace op
  rw [trace.journal]
  exact List.prefix_append _ _

theorem Client.Blamed.later {client next : Client} (blamed : client.Blamed)
    (front : client.stream.journal <+: next.stream.journal) : next.Blamed := by
  refine blamed.imp ?_ ?_
  · rintro ⟨entry, member, kind⟩
    exact ⟨entry, front.subset member, kind⟩
  · rintro ⟨taken, member, leaves⟩
    have more : client.served <+: next.served := front.filterMap _
    exact ⟨taken, more.subset member, leaves⟩

theorem Client.serve_connected {client : Client} (connected : client.disconnected = false)
    (history : History) (seen : Nat) (now : Instant) {pkt : Packet} (stays : pkt.Stays) :
    (client.serve history seen now pkt).disconnected = false ∨
      (client.serve history seen now pkt).Harmed := by
  unfold serve
  dsimp only
  split
  · apply sendHistory_connected
    exact connected
  · have dumped := @sendHistory_connected (client.log (.served pkt seen)) connected
      history true
    split
    · split
      · refine dumped.imp id ?_
        rintro ⟨entry, member, kind⟩
        exact ⟨entry, List.mem_append_left _ member, kind⟩
      · exact dumped
    · rw [if_neg (not_or.mpr stays)]
      exact .inl connected

theorem Client.step_connected {op : Op} {client : Client} (calm : op.Calm client)
    (connected : client.disconnected = false) :
    (client.step op).disconnected = false ∨ (client.step op).Blamed := by
  cases op with
  | broadcast bytes =>
    have kept := sendPacketNonblocking_connected client ⟨msgContent, bytes⟩
    have harmed := @sendPacketNonblocking_harmed client ⟨msgContent, bytes⟩
    simp only [step]
    split
    · unfold broadcastTo
      rcases answer : sendPacketNonblocking client ⟨msgContent, bytes⟩ with ⟨result, next⟩
      rw [answer] at kept harmed
      cases result with
      | ok => exact .inl (kept.trans connected)
      | error => exact .inr (.inl ((harmed rfl).leave .sendFailed))
    · exact .inl connected
  | receive =>
    obtain ⟨reads, later, after⟩ := readLoop_received client.stream.reads client
    simp only [Op.Calm] at calm
    simp only [step, receive]
    rcases answer : readLoop client.stream.reads client with ⟨ending, next⟩
    rw [answer] at after calm
    subst after
    cases ending with
    | failed => exact absurd rfl calm
    | blocked => exact .inl connected
    | eof => exact .inl connected
  | packet history seen now =>
    obtain ⟨_, served⟩ := client.step_packet history seen now
    by_cases stays : ∀ pkt ∈ (popPacket client.buf).1, pkt.Stays
    · simp only [step, packet]
      rcases answer : popPacket client.buf with ⟨found, buf⟩
      rw [answer] at stays
      cases found with
      | none => exact .inl connected
      | some pkt =>
        have kept := @serve_connected { client with buf } connected history seen now pkt
          (stays pkt rfl)
        exact kept.imp id .inl
    · -- a packet that does not stay stands among those served
      refine .inr (.inr ?_)
      simp only [not_forall] at stays
      obtain ⟨pkt, found, leaves⟩ := stays
      refine ⟨(pkt, seen), ?_, leaves⟩
      rw [served, Option.mem_def.mp found]
      simp
  | endOfStream => exact calm.elim
  | notice status now =>
    simp only [step, noticeExit]
    split
    · exact .inl connected
    · exact .inl ((sendPacketNonblocking_connected client _).trans connected)
  | flush =>
    obtain ⟨_, _, _, after, _⟩ := tryFlushClient_sent client
    have harmed := @tryFlushClient_harmed client
    simp only [step, flushClient]
    rw [if_neg (by simp [connected])]
    rcases answer : tryFlushClient client with ⟨result, next⟩
    rw [answer] at after harmed
    cases result with
    | ok =>
      subst after
      exact .inl connected
    | error => exact .inr (.inl ((harmed rfl).leave .flushFailed))
  | expire now => exact calm.elim

theorem Client.runSteps_connected {ops : List Op} {client : Client}
    (calm : Along Client.step (fun client op => op.Calm client) ops client)
    (connected : client.disconnected = false) :
    (runSteps Client.step ops client).disconnected = false ∨
      (runSteps Client.step ops client).Blamed := by
  induction ops generalizing client with
  | nil => exact .inl connected
  | cons op ops ih =>
    rw [runSteps_cons]
    rcases client.step_connected calm.1 connected with on | blamed
    · exact ih calm.2 on
    · obtain ⟨more, journal⟩ := runSteps_journal ops (client.step op)
      exact .inr (blamed.later ⟨more, journal.symm⟩)

theorem readLoop_mild {answers : List (ReadAnswer 8192)} (mild : ∀ answer ∈ answers, ¬ answer.Ends)
    (client : Client) : (readLoop answers client).1 = .blocked := by
  induction answers generalizing client with
  | nil => rfl
  | cons answer answers ih =>
    have rest := ih fun other member => mild other (List.mem_cons_of_mem _ member)
    have first := mild answer List.mem_cons_self
    cases answer with
    | ok slice =>
      have nonempty : slice.bytes ≠ [] := first
      rw [readLoop, if_neg nonempty]
      exact rest _
    | err kind =>
      cases kind with
      | wouldBlock => rfl
      | interrupted => exact rest _
      | _ => exact absurd ⟨by decide, by decide⟩ first

/-! ## One iteration -/

def servingOps (tick : Tick) (server : Server) (client : Client) : List Op :=
  answerOps tick server client ++
    (drained tick server).childExit.toList.map (Op.notice · (tick.exitClock client.stream.id)) ++
    [.flush]

theorem tickOps_expire (tick : Tick) (server : Server) (client : Client) :
    tickOps tick server client = servingOps tick server client ++ [.expire tick.now] := by
  rw [tickOps_eq, closingOps, servingOps]
  simp only [List.append_assoc]
  rfl

theorem servingOps_calm (tick : Tick) (server : Server) {client : Client}
    (mild : ∀ answer ∈ client.stream.reads, ¬ answer.Ends) :
    Along Client.step (fun client op => op.Calm client) (servingOps tick server client) client := by
  have quiet : ∀ op ∈ (tickChunks tick server).map Op.broadcast, op.Quiet := by
    intro op member
    obtain ⟨_, _, rfl⟩ := List.mem_map.mp member
    trivial
  have reads : (runSteps Client.step ((tickChunks tick server).map Op.broadcast)
      client).stream.reads = client.stream.reads :=
    congrArg Intake.reads (Client.quiet_intake quiet client)
  have loop := readLoop_mild mild
    (runSteps Client.step ((tickChunks tick server).map Op.broadcast) client)
  rw [servingOps, answerOps, along_append, along_append, along_append]
  refine ⟨⟨⟨?_, ?_⟩, ?_⟩, trivial, trivial⟩
  · apply along_of_mem
    intro op member _
    obtain ⟨_, _, rfl⟩ := List.mem_map.mp member
    trivial
  · unfold readOps
    rw [reads]
    rcases answer : readLoop client.stream.reads
      (runSteps Client.step ((tickChunks tick server).map Op.broadcast) client) with ⟨ending, next⟩
    rw [answer] at loop
    subst loop
    refine ⟨?_, along_of_mem (fun op member _ => ?_) _⟩
    · have other : ReadEnd.blocked ≠ ReadEnd.failed := by decide
      change (readLoop (runSteps Client.step _ client).stream.reads _).1 ≠ _
      rw [reads, answer]
      exact other
    · rw [List.eq_of_mem_replicate member]
      trivial
  · apply along_of_mem
    intro op member _
    obtain ⟨_, _, rfl⟩ := List.mem_map.mp member
    trivial

theorem add_le_of_le_sub {since now wait : Nat} (positive : 0 < wait) (late : wait ≤ now - since) :
    since + wait ≤ now := by
  omega

theorem expireClient_cases {now : Instant} {client : Client} (connected : client.disconnected = false)
    (gone : (expireClient now client).disconnected = true) :
    ∃ since, client.closeAfterDrain = some since ∧
      (client.sendQueue = [] ∨ since + exitDrainDeadline ≤ now) := by
  unfold expireClient at gone
  rw [if_neg (by simp [connected])] at gone
  split at gone
  · rw [connected] at gone
    cases gone
  · next since closing =>
    refine ⟨since, closing, ?_⟩
    split at gone
    · next empty => exact .inl empty
    · split at gone
      · next late => exact .inr (add_le_of_le_sub (by decide) late)
      · rw [connected] at gone
        cases gone

theorem serverLoop_append {ticks : List Tick} {start server : Server}
    (run : serverLoop ticks start = .running server) (more : List Tick) :
    serverLoop (ticks ++ more) start = serverLoop more server := by
  induction ticks generalizing start with
  | nil =>
    cases run
    rfl
  | cons tick ticks ih =>
    rw [List.cons_append, serverLoop]
    rw [serverLoop] at run
    cases outcome : iterate tick start with
    | running next =>
      rw [outcome] at run
      exact ih run
    | returned next =>
      rw [outcome] at run
      cases run

theorem iterate_returned {tick : Tick} {server last : Server}
    (returned : iterate tick server = .returned last) :
    last.childExit.isSome = true ∧ last.clients = [] := by
  unfold iterate at returned
  dsimp only at returned
  split at returned
  · next ended =>
    cases returned
    exact ended
  · cases returned

theorem tick_expires {tick : Tick} {server : Server} {old : Client}
    (connected : old.disconnected = false)
    (calm : Along Client.step (fun client op => op.Calm client) (servingOps tick server old) old)
    (gone : (runSteps Client.step (tickOps tick server old) old).disconnected = true)
    (sound : ∀ entry ∈ (runSteps Client.step (tickOps tick server old) old).stream.journal,
      ¬ entry.Harms)
    (stays : ∀ taken ∈ (runSteps Client.step (tickOps tick server old) old).served,
      taken.1.Stays) :
    ∃ since, (runSteps Client.step (tickOps tick server old) old).closeAfterDrain = some since ∧
      ((runSteps Client.step (tickOps tick server old) old).sendQueue = [] ∨
        since + exitDrainDeadline ≤ tick.now) := by
  have last : runSteps Client.step (tickOps tick server old) old =
      expireClient tick.now (runSteps Client.step (servingOps tick server old) old) := by
    rw [tickOps_expire, runSteps_append]
    rfl
  have on : (runSteps Client.step (servingOps tick server old) old).disconnected = false := by
    refine (Client.runSteps_connected calm connected).resolve_right fun blamed => ?_
    have front : (runSteps Client.step (servingOps tick server old) old).stream.journal <+:
        (runSteps Client.step (tickOps tick server old) old).stream.journal := by
      rw [last]
      exact Client.step_journal (.expire tick.now) _
    rcases blamed.later front with ⟨entry, member, harms⟩ | ⟨taken, member, leaves⟩
    · exact sound entry member harms
    · exact leaves (stays taken member)
  obtain ⟨since, closing, reason⟩ := expireClient_cases on (last ▸ gone)
  refine ⟨since, ?_, reason.imp_left fun empty => ?_⟩
  · have same := Client.step_closing (.expire tick.now)
      (runSteps Client.step (servingOps tick server old) old)
    rw [last]
    exact same.trans (by rw [closing]; rfl)
  · rw [last, expireClient]
    repeat' split
    all_goals exact empty

-- Of the six places that give a client up, all but the last leave a trace that
-- the client or its socket is to blame for.
theorem no_premature_close (pid : UInt64) (readPty : Bool) (writes : List WriteAnswer)
    (ticks : List Tick) (server : Server)
    (run : serverLoop ticks (Server.start pid readPty writes) = .running server) (tick : Tick) :
    (∀ client ∈ (settled tick server).clients, client.disconnected = true →
      (∀ opening ∈ (opened tick server).clients, opening.stream.id = client.stream.id →
        ∀ answer ∈ opening.stream.reads, ¬ answer.Ends) →
      (∀ entry ∈ client.stream.journal, ¬ entry.Harms) →
      (∀ taken ∈ client.served, taken.1.Stays) →
      ∃ since, client.closeAfterDrain = some since ∧
        (closingEvents client.stream.id (ticks ++ [tick])
          (Server.start pid readPty writes)).head? = some since ∧
        (client.wire = client.queued.flatMap packetBytes ∨ since + exitDrainDeadline ≤ tick.now)) ∧
    ∀ last, iterate tick server = .returned last →
      last.childExit.isSome = true ∧ last.clients = [] ∧
        (idsOf last.dropped).Perm (List.range last.accepted) := by
  have reached : Reached (fun _ _ => True) server :=
    ⟨pid, readPty, writes, ticks, runMeets_of_forall (fun _ _ => trivial) _ _, by rw [run]; rfl⟩
  constructor
  · intro client member gone mild sound stays
    rw [settled_clients] at member
    obtain ⟨old, inside, rfl⟩ := List.mem_map.mp member
    have connected := opened_connected reached.sound tick inside
    have life := (opened_life reached.sound tick inside).tick (opened_history reached.sound tick)
      (along_of_forall (fun _ _ => trivial) _ _)
    have calm := servingOps_calm tick server (mild old inside (Client.runSteps_id _ _).symm)
    obtain ⟨since, kept, reason⟩ := tick_expires connected calm gone sound stays
    refine ⟨since, kept, ?_, reason.imp_left fun empty => ?_⟩
    · have start : (Server.start pid readPty writes).Dated
          (runSteps Client.step (tickOps tick server old) old).stream.id none :=
        ⟨by simp [Server.start, Server.everyone], fun _ => rfl⟩
      have dated := serverLoop_dated (ticks ++ [tick]) (Server.start_obeyed pid readPty writes) start
      have ending : (serverLoop (ticks ++ [tick]) (Server.start pid readPty writes)).server =
          (iterate tick server).server := by
        rw [serverLoop_append run, serverLoop]
        cases iterate tick server <;> rfl
      rw [ending, Option.none_or] at dated
      rw [← dated.known _ (iterate_everyone inside) rfl]
      exact kept
    · have outbound := life.outbound
      rw [Client.outbound, empty, List.append_nil] at outbound
      exact outbound
  · intro last returned
    have obeyed := iterate_obeyed reached.obeyed tick
    rw [returned] at obeyed
    have ended := iterate_returned returned
    have numbered := obeyed.numbered
    rw [Control.server, Server.everyone, ended.2, List.nil_append] at numbered
    exact ⟨ended.1, ended.2, numbered⟩

def dumper : Accept := ⟨[.ok ⟨packetBytes ⟨msgDump, []⟩, by decide⟩], [.ok 5, .ok 3], 16, true⟩

theorem no_premature_close_dumped :
    ∃ client ∈ (settled { Tick.idle with accepts := [dumper], dumpClock := fun _ => 7 }
        (Server.start 1 false [])).clients,
      client.disconnected = true ∧ ∃ since, client.closeAfterDrain = some since ∧
        (client.wire = client.queued.flatMap packetBytes ∨ since + exitDrainDeadline ≤ 0) := by
  have gone : ∃ client ∈ (settled { Tick.idle with accepts := [dumper], dumpClock := fun _ => 7 }
      (Server.start 1 false [])).clients,
      client.disconnected = true ∧
        client.stream.journal = [.got (packetBytes ⟨msgDump, []⟩), .served ⟨msgDump, []⟩ 0,
          .queued ⟨msgDumpEnd, []⟩, .wrote ((packetBytes ⟨msgDumpEnd, []⟩).take 5),
          .wrote ((packetBytes ⟨msgDumpEnd, []⟩).drop 5), .closing .dumped 7, .left .drained] := by
    decide
  obtain ⟨client, member, gone, journal⟩ := gone
  have law := no_premature_close 1 false [] [] (Server.start 1 false []) rfl
    { Tick.idle with accepts := [dumper], dumpClock := fun _ => 7 }
  have mild : ∀ opening ∈ (opened { Tick.idle with accepts := [dumper], dumpClock := fun _ => 7 }
      (Server.start 1 false [])).clients, opening.stream.id = client.stream.id →
        ∀ answer ∈ opening.stream.reads, ¬ answer.Ends := by
    intro opening inside _ answer read
    rw [List.mem_singleton.mp inside] at read
    rw [List.mem_singleton.mp read]
    exact nofun
  have sound : ∀ entry ∈ client.stream.journal, ¬ entry.Harms := by
    rw [journal]
    simp [Entry.Harms, packetBytes, u32ToNeBytes, toLe]
  have stays : ∀ taken ∈ client.served, taken.1.Stays := by
    rw [Client.served, journal]
    simp [Packet.Stays, msgDump, msgDetach, msgExit]
  obtain ⟨since, closing, _, reason⟩ := law.1 client member gone mild sound stays
  exact ⟨client, member, gone, since, closing, reason⟩

end Lich
