import Lich.ExitNotice
import Lich.Session

/-! Creating a session and attaching to it.

The client connects after `create_session` has returned, which says nothing of
how far the server has come. A command that exits at once can be gone, and the
server with it, before there is a connection.
-/

set_option autoImplicit false

namespace Lich

open Foundation

/-! ## The client and the listener -/

/-- A session that was just created, and the one client that attaches to it. -/
structure Launch where
  session : Session
  /-- the connections that the server has not accepted -/
  backlog : List Accept
  connected : Bool

/-- The client connects, or the server goes through an iteration, behind whose
accept loop the client may connect too. -/
inductive Move where
  | connect (accept : Accept)
  | turn (turn : Turn) (meanwhile : Option Accept)

namespace Launch

def start (pid : UInt64) (writes : List WriteAnswer) : Launch :=
  ⟨Session.start pid true writes, [], false⟩

def connect (accept : Accept) (launch : Launch) : Launch :=
  if launch.connected || launch.session.returned then launch
  else { launch with backlog := launch.backlog ++ [accept], connected := true }

/-- The iteration, which accepts what is in the backlog. No signal comes. -/
def accepting (turn : Turn) (launch : Launch) : Turn :=
  { turn with shutdown := false, accepts := launch.backlog }

def step (move : Move) (launch : Launch) : Launch :=
  match move with
  | .connect accept => launch.connect accept
  | .turn turn meanwhile =>
    if launch.session.returned then launch
    else
      let waiting := match meanwhile with
        | some accept => { launch with backlog := [] }.connect accept
        | none => { launch with backlog := [] }
      { waiting with session := launch.session.turn (launch.accepting turn) }

/-- The server has not returned without the client, but only after it was sent
the exit status of the command. -/
def Served (launch : Launch) : Prop :=
  launch.session.returned = true → ∃ client ∈ launch.session.server.everyone,
    ∃ status, launch.session.child.status.map exitStatus = some status ∧
      exitPacket status ∈ (packetDecoder.drain client.wire).1

end Launch

/-! ## A client that stays to the end -/

/-- The step gives the client up: a read or a write fails, the queue is full, the peer
leaves, or the client was closed and has been sent everything or is out of time. -/
def Client.GivenUp (client : Client) : Op → Prop
  | .broadcast bytes =>
    client.attached = true ∧ (sendPacketNonblocking client ⟨msgContent, bytes⟩).1.isOk = false
  | .receive => (readLoop client.stream.reads client).1 = .failed
  | .packet history _ _ => ∃ pkt ∈ (popPacket client.buf).1,
    pkt.typ = msgDetach ∨ pkt.typ = msgExit ∨ (pkt.typ = msgAttach ∨ pkt.typ = msgDump) ∧
      (sendChunks (chunks maxPayload history.snapshot) client).1 = false
  | .endOfStream => True
  | .notice _ _ => False
  | .flush => client.disconnected = false ∧ (tryFlushClient client).1.isOk = false
  | .expire now => client.disconnected = false ∧ ∃ since ∈ client.closeAfterDrain,
    client.sendQueue = [] ∨ exitDrainDeadline ≤ now - since

def Client.Done (client : Client) : Op → Prop
  | .expire _ => client.closeAfterDrain.isSome = true ∧ client.sendQueue = []
  | _ => False

instance (client : Client) : (op : Op) → Decidable (client.GivenUp op)
  | .broadcast _ => inferInstanceAs (Decidable (_ ∧ _))
  | .receive => inferInstanceAs (Decidable (_ = _))
  | .packet _ _ _ => inferInstanceAs (Decidable (∃ pkt ∈ _, _ ∨ _ ∨ _ ∧ _))
  | .endOfStream => .isTrue trivial
  | .notice _ _ => .isFalse id
  | .flush => inferInstanceAs (Decidable (_ ∧ _))
  | .expire _ => inferInstanceAs (Decidable (_ ∧ ∃ since ∈ _, _ ∨ _))

instance (client : Client) : (op : Op) → Decidable (client.Done op)
  | .expire _ => inferInstanceAs (Decidable (_ ∧ _))
  | .broadcast _ | .receive | .packet _ _ _ | .endOfStream | .notice _ _ | .flush => .isFalse id

/-- The client sends no MSG_DUMP, the notice finds room, and the client is not
given up before it was closed and sent everything. -/
def Client.Stays (client : Client) (op : Op) : Prop :=
  client.RoomForNotice op ∧ (∀ taken ∈ op.taken client, taken.1.typ ≠ msgDump) ∧
    (client.disconnected = false → client.GivenUp op → client.Done op)

instance (client : Client) (op : Op) : Decidable (client.Stays op) :=
  inferInstanceAs (Decidable (_ ∧ _ ∧ _))

/-! ### What a client is given up for -/

/-- What becomes of sending is told by the queue and by what the writes are answered. -/
structure Client.Alike (first second : Client) : Prop where
  sendQueue : first.sendQueue = second.sendQueue
  writes : first.stream.writes = second.stream.writes

section Alike

variable {first second : Client} (alike : first.Alike second)

include alike

theorem tryFlushLoop_alike (rounds : Nat) :
    (tryFlushLoop rounds first).1 = (tryFlushLoop rounds second).1 ∧
      (tryFlushLoop rounds first).2.Alike (tryFlushLoop rounds second).2 := by
  induction rounds generalizing first second with
  | zero => exact ⟨rfl, alike⟩
  | succ rounds ih =>
    obtain ⟨queue, writes⟩ := alike
    rw [tryFlushLoop, tryFlushLoop, ← queue]
    by_cases empty : first.sendQueue = []
    · rw [if_pos empty, if_pos empty]
      exact ⟨rfl, queue, writes⟩
    · rw [if_neg empty, if_neg empty, UnixStream.write, UnixStream.write, ← writes]
      cases answers : first.stream.writes with
      | nil => exact ⟨rfl, rfl, writes⟩
      | cons answer later =>
        cases answer with
        | ok count =>
          dsimp only
          cases min count first.sendQueue.length with
          | zero => exact ⟨rfl, rfl, rfl⟩
          | succ written => exact ih ⟨rfl, rfl⟩
        | err kind =>
          cases kind with
          | interrupted => exact ih ⟨rfl, rfl⟩
          | _ => exact ⟨rfl, rfl, rfl⟩

theorem sendPacketNonblocking_alike (pkt : Packet) :
    (sendPacketNonblocking first pkt).1 = (sendPacketNonblocking second pkt).1 ∧
      (sendPacketNonblocking first pkt).2.Alike (sendPacketNonblocking second pkt).2 := by
  rw [sendPacketNonblocking, sendPacketNonblocking, alike.sendQueue]
  split
  · exact ⟨rfl, alike.sendQueue, alike.writes⟩
  · have same : ({ first with sendQueue := second.sendQueue ++ packetBytes pkt }.log
        (.queued pkt)).Alike
        ({ second with sendQueue := second.sendQueue ++ packetBytes pkt }.log (.queued pkt)) :=
      ⟨rfl, alike.writes⟩
    have loop := tryFlushLoop_alike same (second.stream.writes.length + 1)
    have rounds : tryFlushClient ({ first with sendQueue := second.sendQueue ++ packetBytes pkt }.log
        (.queued pkt)) = tryFlushLoop (second.stream.writes.length + 1)
          ({ first with sendQueue := second.sendQueue ++ packetBytes pkt }.log (.queued pkt)) := by
      rw [← alike.writes]
      rfl
    rw [rounds]
    exact loop

theorem sendChunks_alike (pieces : List (List UInt8)) :
    (sendChunks pieces first).1 = (sendChunks pieces second).1 := by
  induction pieces generalizing first second with
  | nil => rfl
  | cons piece pieces ih =>
    obtain ⟨same, next⟩ := sendPacketNonblocking_alike alike ⟨msgContent, piece⟩
    rw [sendChunks, sendChunks]
    rcases answer : sendPacketNonblocking first ⟨msgContent, piece⟩ with ⟨result, client⟩
    rcases answer' : sendPacketNonblocking second ⟨msgContent, piece⟩ with ⟨result', client'⟩
    rw [answer, answer'] at same next
    cases same
    cases result with
    | ok done => exact ih next
    | error err => rfl

end Alike

section Fate

variable (client : Client)

theorem sendPacketNonblocking_disconnected (pkt : Packet) :
    (sendPacketNonblocking client pkt).2.disconnected = client.disconnected := by
  obtain ⟨entries, later, rest, after, _⟩ := sendPacketNonblocking_sent client pkt
  rw [after, Client.sent_disconnected]

theorem broadcastTo_disconnected (bytes : List UInt8) :
    (broadcastTo bytes client).disconnected = true ↔ client.disconnected = true ∨
      (sendPacketNonblocking client ⟨msgContent, bytes⟩).1.isOk = false := by
  have same := sendPacketNonblocking_disconnected client ⟨msgContent, bytes⟩
  unfold broadcastTo
  rcases answer : sendPacketNonblocking client ⟨msgContent, bytes⟩ with ⟨result, next⟩
  rw [answer] at same
  cases result with
  | ok done =>
    have same : next.disconnected = client.disconnected := same
    simp [Except.isOk, Except.toBool, same]
  | error err => simp [Except.isOk, Except.toBool, Client.leave]

theorem sendChunks_disconnected (pieces : List (List UInt8)) :
    (sendChunks pieces client).2.disconnected = true ↔
      client.disconnected = true ∨ (sendChunks pieces client).1 = false := by
  induction pieces generalizing client with
  | nil => simp [sendChunks]
  | cons piece pieces ih =>
    have same := sendPacketNonblocking_disconnected client ⟨msgContent, piece⟩
    rw [sendChunks]
    rcases answer : sendPacketNonblocking client ⟨msgContent, piece⟩ with ⟨result, next⟩
    rw [answer] at same
    cases result with
    | ok done => rw [← same]; exact ih next
    | error err => simp [Client.leave]

theorem sendHistory_disconnected (history : History) (sendEnd : Bool) :
    (sendHistory client history sendEnd).disconnected = true ↔ client.disconnected = true ∨
      (sendChunks (chunks maxPayload history.snapshot) client).1 = false := by
  rw [← sendChunks_disconnected]
  unfold sendHistory
  rcases sendChunks (chunks maxPayload history.snapshot) client with ⟨done, next⟩
  cases done with
  | false => rfl
  | true =>
    cases sendEnd with
    | false => rfl
    | true => exact (sendPacketNonblocking_disconnected next _) ▸ Iff.rfl

theorem Client.serve_disconnected (history : History) (seen : Nat) (now : Instant) (pkt : Packet) :
    (client.serve history seen now pkt).disconnected = true ↔ client.disconnected = true ∨
      pkt.typ = msgDetach ∨ pkt.typ = msgExit ∨ (pkt.typ = msgAttach ∨ pkt.typ = msgDump) ∧
        (sendChunks (chunks maxPayload history.snapshot) client).1 = false := by
  have replay {first : Client} (alike : first.Alike client)
      (same : first.disconnected = client.disconnected) (sendEnd : Bool) :
      (sendHistory first history sendEnd).disconnected = true ↔ client.disconnected = true ∨
        (sendChunks (chunks maxPayload history.snapshot) client).1 = false := by
    rw [sendHistory_disconnected, same, sendChunks_alike alike]
  unfold serve
  dsimp only
  by_cases attach : pkt.typ = msgAttach
  · have alike : Client.Alike { client.log (.served pkt seen) with
        attached := true
        flags := (readU32 pkt.payload).getD 0 } client := ⟨rfl, rfl⟩
    have sent := replay alike rfl false
    have others : ¬ msgAttach = msgDetach ∧ ¬ msgAttach = msgExit := by decide
    rw [if_pos attach]
    simpa [attach, others] using sent
  · rw [if_neg attach]
    by_cases dump : pkt.typ = msgDump
    · have alike : (client.log (.served pkt seen)).Alike client := ⟨rfl, rfl⟩
      have sent := replay alike rfl true
      have others : ¬ msgDump = msgDetach ∧ ¬ msgDump = msgExit := by decide
      rw [if_pos dump]
      split
      · simpa [dump, others, close] using sent
      · simpa [dump, others] using sent
    · rw [if_neg dump]
      by_cases leaves : pkt.typ = msgDetach ∨ pkt.typ = msgExit
      · rw [if_pos leaves]
        rcases leaves with typ | typ <;> simp [typ, leave]
      · rw [if_neg leaves]
        have others := not_or.mp leaves
        simp [attach, dump, others, log]

theorem tryFlushClient_disconnected :
    (tryFlushClient client).2.disconnected = client.disconnected := by
  obtain ⟨entries, later, rest, after, _⟩ :=
    tryFlushLoop_sent (client.stream.writes.length + 1) client
  rw [tryFlushClient, after, Client.sent_disconnected]

theorem Client.step_disconnected (op : Op) :
    (client.step op).disconnected = true ↔ client.disconnected = true ∨ client.GivenUp op := by
  cases op with
  | broadcast bytes =>
    simp only [step, GivenUp]
    by_cases attached : client.attached = true
    · rw [if_pos attached, broadcastTo_disconnected]
      simp [attached]
    · simp [attached]
  | receive =>
    obtain ⟨reads, later, after⟩ := readLoop_received client.stream.reads client
    simp only [step, receive, GivenUp]
    rcases answer : readLoop client.stream.reads client with ⟨stop, next⟩
    rw [answer] at after
    have same : next.disconnected = client.disconnected := by
      rw [show next = _ from after, received_disconnected]
    cases stop <;> simp [same, leave]
  | packet history seen now =>
    simp only [step, packet, GivenUp]
    rcases answer : popPacket client.buf with ⟨found, buf⟩
    cases found with
    | none => simp
    | some pkt =>
      have alike : ({ client with buf } : Client).Alike client := ⟨rfl, rfl⟩
      simp [serve_disconnected, sendChunks_alike alike]
  | endOfStream => simp [step, leave, GivenUp]
  | notice status now =>
    simp only [step, noticeExit, GivenUp, or_false]
    split
    · rfl
    · simp [close, sendPacketNonblocking_disconnected]
  | flush =>
    have same := tryFlushClient_disconnected client
    simp only [step, flushClient, GivenUp]
    cases connected : client.disconnected with
    | true => simp [connected]
    | false =>
      rw [if_neg (by simp)]
      rcases answer : tryFlushClient client with ⟨result, next⟩
      rw [answer, connected] at same
      cases result with
      | ok done => simpa [Except.isOk, Except.toBool] using same
      | error err => simp [Except.isOk, Except.toBool, leave]
  | expire now =>
    simp only [step, expireClient, GivenUp]
    cases connected : client.disconnected with
    | true => simp [connected]
    | false =>
      rw [if_neg (by simp)]
      cases closing : client.closeAfterDrain with
      | none => simp [connected]
      | some since =>
        by_cases empty : client.sendQueue = []
        · simp [empty, leave]
        · by_cases late : exitDrainDeadline ≤ now - since <;>
            simp [empty, late, leave, connected]

end Fate

variable {output : List UInt8} {childExit : Option Int32} {client : Client}

theorem Life.mono {ok weaker : Client → Op → Prop} (imp : ∀ client op, ok client op → weaker client op)
    (life : Life ok output childExit client) : Life weaker output childExit client := by
  induction life with
  | start output childExit pid id accept => exact .start output childExit pid id accept
  | reap status _ ih => exact .reap status ih
  | step op _ legal met ih => exact .step op ih legal (imp _ op met)

theorem Client.step_marked (op : Op) (client : Client)
    (noDump : ∀ taken ∈ op.taken client, taken.1.typ ≠ msgDump) :
    (client.step op).closeAfterDrain = client.closeAfterDrain ∨
      ∃ entry ∈ (client.step op).stream.journal, entry.Exited := by
  have closing := client.step_closing op
  cases op with
  | packet history seen now =>
    -- no MSG_DUMP, so the step closes nothing
    have none : Op.closes (.packet history seen now) client = .none := by
      simp only [Op.closes]
      cases found : (popPacket client.buf).1 with
      | none => rfl
      | some pkt =>
        have other : pkt.typ ≠ msgDump := noDump (pkt, seen) (by simp [Op.taken, found])
        rw [Option.filter, if_neg fun same => other (beq_iff_eq.mp same)]
        rfl
    rw [none, Option.or_none] at closing
    exact .inl closing
  | notice status now =>
    simp only [step, noticeExit]
    split
    · exact .inl rfl
    · exact .inr ⟨.closing .exited now, by simp [close, UnixStream.log], trivial⟩
  | _ => exact .inl (closing.trans (Option.or_none ..))

/-- The mark of the exit branch stands in the journal of a closed client, and
before its departure. -/
structure Client.Ended (client : Client) : Prop where
  closed : client.closeAfterDrain.isSome = true → ∃ entry ∈ client.stream.journal, entry.Exited
  left : client.disconnected = true → ∃ before entry after,
    client.stream.journal = before ++ entry :: after ∧ entry.Drained ∧
      ∃ mark ∈ before, mark.Exited

theorem Life.ended (life : Life Client.Stays output childExit client) : client.Ended := by
  induction life with
  | start => exact ⟨nofun, nofun⟩
  | reap status _ ih => exact ih
  | @step output childExit client op _ _ stays ih =>
    obtain ⟨_, noDump, done⟩ := stays
    obtain ⟨more, journal⟩ := runSteps_journal [op] client
    rw [runSteps_cons, runSteps_nil] at journal
    constructor
    · intro closing
      rcases client.step_marked op noDump with same | marked
      · obtain ⟨entry, member, exited⟩ := ih.closed (same ▸ closing)
        exact ⟨entry, journal ▸ List.mem_append_left _ member, exited⟩
      · exact marked
    · intro gone
      by_cases before : client.disconnected = true
      · obtain ⟨front, entry, back, same, drained, marked⟩ := ih.left before
        exact ⟨front, entry, back ++ more, by rw [journal, same]; simp, drained, marked⟩
      · have connected : client.disconnected = false := Bool.not_eq_true _ ▸ before
        have finished := done connected (((client.step_disconnected op).mp gone).resolve_left before)
        cases op with
        | expire now =>
          obtain ⟨closing, empty⟩ := finished
          obtain ⟨since, closed⟩ := Option.isSome_iff_exists.mp closing
          refine ⟨client.stream.journal, .left .drained, [], ?_, trivial, ih.closed closing⟩
          simp [Client.step, expireClient, connected, closed, empty, Client.leave, UnixStream.log]
        | _ => exact finished.elim

theorem Life.told (life : Life Client.Stays output childExit client)
    (gone : client.disconnected = true) : ∃ status, childExit = some status ∧
      exitPacket status ∈ (packetDecoder.drain client.wire).1 := by
  obtain ⟨before, entry, after, same, drained, marked⟩ := life.ended.left gone
  have noticed := (life.mono fun _ _ stays => stays.1).noticed
  obtain ⟨status, exit, received⟩ := noticed.received before entry after same drained marked
  have wire : client.wire = wireOf before ++ wireOf (entry :: after) := by
    rw [Client.wire, same, wireOf_append]
  refine ⟨status, exit, ?_⟩
  rw [wire, packetDecoder.drain_append]
  exact List.mem_append_left _ received

/-! ## The run -/

namespace Launch

/-- The iteration that sees the command gone finds the connection, and the client
stays. -/
def InTime (launch : Launch) : Move → Prop
  | .connect _ => True
  | .turn turn _ =>
    let tick := launch.session.tick (launch.accepting turn)
    launch.session.returned = false →
      ((drained tick launch.session.server).childExit.isSome = true →
        launch.backlog ≠ [] ∨ launch.session.server.everyone ≠ []) ∧
      (∀ accept ∈ launch.backlog, accept.nonblocking = true) ∧
      ∀ client ∈ (opened tick launch.session.server).clients,
        Along Client.step Client.Stays (tickOps tick launch.session.server client) client

instance (launch : Launch) : (move : Move) → Decidable (launch.InTime move)
  | .connect _ => .isTrue trivial
  | .turn _ _ => inferInstanceAs (Decidable (_ → _ ∧ _ ∧ _))

/-- What holds between the moves: the client is there when the exit is known. -/
structure Sound (launch : Launch) : Prop where
  session : launch.session.Sound False
  clients : launch.session.server.Sound Client.Stays
  present : launch.session.server.childExit.isSome = true →
    launch.session.server.everyone ≠ []
  returned : launch.session.returned = true →
    launch.session.server.childExit.isSome = true ∧ launch.session.server.clients = []

theorem start_sound (pid : UInt64) (writes : List WriteAnswer) : (start pid writes).Sound where
  session := Session.start_sound False pid true writes
  clients := Server.start_sound pid true writes
  present := nofun
  returned := nofun

variable {launch : Launch}

theorem connect_session (accept : Accept) : (launch.connect accept).session = launch.session := by
  unfold connect
  split <;> rfl

theorem step_session (launch : Launch) (turn : Turn) (meanwhile : Option Accept) :
    (launch.step (.turn turn meanwhile)).session =
      launch.session.turn (launch.accepting turn) := by
  simp only [step]
  split
  · next ended => rw [Session.turn, if_pos ended]
  · rfl

theorem everyone_grows {server : Server} {tick : Tick}
    (present : server.everyone ≠ [] ∨
      acceptedClients server.pid server.accepted tick.accepts ≠ []) :
    (iterate tick server).server.everyone ≠ [] := by
  obtain ⟨_, _, _, _, _, after⟩ := opened_eq tick server
  have clients : (opened tick server).clients =
      server.clients ++ acceptedClients server.pid server.accepted tick.accepts := by
    rw [after]
  have found : (∃ client, client ∈ server.dropped) ∨
      ∃ client, client ∈ (opened tick server).clients := by
    rw [clients]
    rcases present with nonempty | nonempty
    · obtain ⟨client, member⟩ := List.exists_mem_of_ne_nil _ nonempty
      rcases List.mem_append.mp member with member | member
      · exact .inr ⟨client, List.mem_append_left _ member⟩
      · exact .inl ⟨client, member⟩
    · obtain ⟨client, member⟩ := List.exists_mem_of_ne_nil _ nonempty
      exact .inr ⟨client, List.mem_append_right _ member⟩
  rcases found with ⟨client, member⟩ | ⟨client, member⟩
  · exact List.ne_nil_of_mem (mem_iterate_everyone.mpr (.inl member))
  · exact List.ne_nil_of_mem (iterate_everyone member)

theorem acceptedClients_ne_nil {pid : UInt64} {first : Nat} {accepts : List Accept}
    (nonempty : accepts ≠ []) (nonblocking : ∀ accept ∈ accepts, accept.nonblocking = true) :
    acceptedClients pid first accepts ≠ [] := by
  cases accepts with
  | nil => exact absurd rfl nonempty
  | cons accept accepts =>
    rw [acceptedClients, if_pos (nonblocking accept List.mem_cons_self)]
    exact List.cons_ne_nil _ _

theorem Sound.step (sound : launch.Sound) {move : Move} (inTime : launch.InTime move) :
    (launch.step move).Sound := by
  cases move with
  | connect accept =>
    have same : (launch.step (.connect accept)).session = launch.session :=
      connect_session accept
    constructor
    all_goals rw [same]
    · exact sound.session
    · exact sound.clients
    · exact sound.present
    · exact sound.returned
  | turn turn meanwhile =>
    have next := step_session launch turn meanwhile
    by_cases ended : launch.session.returned = true
    · rw [Session.turn, if_pos ended] at next
      constructor
      all_goals rw [next]
      · exact sound.session
      · exact sound.clients
      · exact sound.present
      · exact sound.returned
    · have running : launch.session.returned = false := Bool.not_eq_true _ ▸ ended
      obtain ⟨found, nonblocking, stay⟩ := inTime running
      obtain ⟨server, _, returned⟩ := Session.turn_eq running (launch.accepting turn)
      constructor
      all_goals rw [next]
      · exact Session.turn_sound sound.session Bool.noConfusion
      · rw [server]
        exact iterate_sound sound.clients _ stay
      · rw [server]
        intro exit
        rw [iterate_childExit] at exit
        apply everyone_grows
        rcases found exit with waiting | there
        · exact .inr (acceptedClients_ne_nil waiting nonblocking)
        · exact .inl there
      · exact returned.mp

end Launch

theorem Launch.late {launch : Launch} {turn : Turn} (running : launch.session.returned = false)
    (alone : launch.session.server.everyone = []) (none : launch.backlog = [])
    (exit : (drained (launch.session.tick (launch.accepting turn))
      launch.session.server).childExit.isSome = true) (meanwhile : Option Accept) :
    ¬ (launch.step (.turn turn meanwhile)).Served := by
  obtain ⟨clients, dropped⟩ := List.append_eq_nil_iff.mp alone
  obtain ⟨server, _, returned⟩ := Session.turn_eq running (launch.accepting turn)
  have next := Launch.step_session launch turn meanwhile
  have nobody : (launch.session.turn (launch.accepting turn)).server.everyone = [] := by
    rw [server]
    apply List.eq_nil_iff_forall_not_mem.mpr
    intro client member
    obtain ⟨_, _, _, _, _, after⟩ := opened_eq (launch.session.tick (launch.accepting turn))
      launch.session.server
    rcases mem_iterate_everyone.mp member with inside | ⟨old, inside, _⟩
    · rw [dropped] at inside
      cases inside
    · have accepts : (launch.session.tick (launch.accepting turn)).accepts = [] := none
      rw [after, accepts, clients] at inside
      cases inside
  intro served
  rw [Launch.Served, next] at served
  obtain ⟨client, member, _⟩ := served (returned.mpr ⟨by rw [server, iterate_childExit]; exact exit,
    (List.append_eq_nil_iff.mp nobody).1⟩)
  rw [nobody] at member
  cases member

/-- If the connection is there when the server sees the command gone, and the
client stays, then the server does not return without it. If it is not there,
the server does. -/
theorem create_attach_served (pid : UInt64) (writes : List WriteAnswer) (moves : List Move)
    (inTime : Along Launch.step Launch.InTime moves (Launch.start pid writes)) :
    let launch := runSteps Launch.step moves (Launch.start pid writes)
    launch.Served ∧ ∀ turn meanwhile, launch.session.returned = false →
      launch.session.server.everyone = [] → launch.backlog = [] →
      (drained (launch.session.tick (launch.accepting turn))
        launch.session.server).childExit.isSome = true →
      ¬ (launch.step (.turn turn meanwhile)).Served := by
  have step (launch : Launch) (move : Move) (inTime : launch.InTime move) (sound : launch.Sound) :
      (launch.step move).Sound := sound.step inTime
  have sound := inTime.invariant step (Launch.start_sound pid writes)
  intro launch
  refine ⟨fun returned => ?_, fun turn meanwhile running alone none exit =>
    Launch.late running alone none exit meanwhile⟩
  obtain ⟨exit, none⟩ := sound.returned returned
  obtain ⟨client, member⟩ := List.exists_mem_of_ne_nil _ (sound.present exit)
  have dropped : client ∈ launch.session.server.dropped := by
    rw [Server.everyone, none] at member
    exact member
  obtain ⟨output, childExit, _, once, life, gone⟩ := sound.clients.dropped client dropped
  obtain ⟨status, seen, received⟩ := life.told gone
  refine ⟨client, member, status, ?_, received⟩
  apply (sound.session.exit status _).resolve_right fun asked => asked.1
  rcases once with same | same
  · rw [same] at seen
    cases seen
  · exact same.symm.trans seen

def reader : Accept :=
  ⟨[.ok ⟨packetBytes ⟨msgAttach, [0, 0, 0, 0]⟩, Nat.le_of_ble_eq_true rfl⟩], [.ok 12], 16, true⟩

def Turn.alone (race : List ChildAct) : Turn := ⟨false, [], [], race, [], fun _ => 0, fun _ => 0, 0⟩

theorem create_attach_served_soon :
    let moves := [Move.connect reader, .turn (Turn.alone [.exit 0]) none]
    (runSteps Launch.step moves (Launch.start 1 [])).session.returned = true ∧
      (runSteps Launch.step moves (Launch.start 1 [])).Served :=
  ⟨by decide, (create_attach_served 1 [] _ (by decide)).1⟩

theorem create_attach_missed :
    ¬ ∀ (pid : UInt64) (writes : List WriteAnswer) (moves : List Move),
      (runSteps Launch.step moves (Launch.start pid writes)).Served := by
  intro law
  have returned : (runSteps Launch.step
      [.turn (Turn.alone [.exit 0]) none, .connect reader] (Launch.start 1 [])).session.returned =
        true := by
    decide
  have nobody : (runSteps Launch.step
      [.turn (Turn.alone [.exit 0]) none, .connect reader]
        (Launch.start 1 [])).session.server.everyone = [] := by
    decide
  obtain ⟨client, member, _⟩ := law 1 [] _ returned
  rw [nobody] at member
  cases member

end Lich
