import Lich.Closing
import Lich.Session
import Lich.StreamLaw

/-! The output comes before the exit notice.

The iteration that sees the command gone sends the notices at once. The output
that is still in the pty then comes behind them, and the clients leave on the
notice.
-/

set_option autoImplicit false

namespace Lich

open Foundation

def Entry.Notices : Entry → Prop
  | .queued pkt => pkt.typ = msgExit
  | _ => False

/-- Up to here, a client has been sent what it asked for of this output. -/
structure Shows (output : List UInt8) (before : List Entry) : Prop where
  inside : ∀ request ∈ requestsOf (servedOf before), request.2 ≤ output.length
  content : contentOf (queuedOf before) =
    shownOf replayed output false 0 (requestsOf (servedOf before))

/-- Whenever a client is told of the exit, it has been sent what it asked for of a part of
the output, and if it attached, of a part that has all that was written before the exit. -/
def Client.OutputFirst (child : Child) (client : Client) : Prop :=
  Whenever Entry.Notices
    (fun before => ∃ read, read <+: child.output.take child.taken ∧ Shows read before ∧
      ((∃ taken ∈ servedOf before, taken.1.typ = msgAttach) → child.written <+: read))
    client.stream.journal

variable {output : List UInt8} {childExit : Option Int32} {client : Client}

/-! ## Who queues an exit notice -/

theorem replayPackets_typ {snapshot : List UInt8} {sendEnd : Bool} {pkt : Packet}
    (member : pkt ∈ replayPackets snapshot sendEnd) : pkt.typ = msgContent ∨ pkt.typ = msgDumpEnd := by
  rcases List.mem_append.mp member with member | member
  · obtain ⟨piece, _, rfl⟩ := List.mem_map.mp member
    exact .inl rfl
  · cases sendEnd with
    | true =>
      rw [List.mem_singleton.mp member]
      exact .inr rfl
    | false => cases member

theorem notice_of_offered_typ {op : Op} {pkt : Packet} (member : pkt ∈ op.offered client)
    (typ : pkt.typ = msgExit) :
    (∃ status now, op = .notice status now) ∧
      client.disconnected = false ∧ client.closeAfterDrain = none := by
  have replay {snapshot : List UInt8} {sendEnd : Bool}
      (member : pkt ∈ replayPackets snapshot sendEnd) : False := by
    have other : msgExit ≠ msgContent ∧ msgExit ≠ msgDumpEnd := by decide
    rcases replayPackets_typ member with same | same
    · exact other.1 (typ.symm.trans same)
    · exact other.2 (typ.symm.trans same)
  have offers := op.offers client
  generalize op.offered client = packets at member offers
  cases offers with
  | nothing => cases member
  | content bytes _ =>
    have other : msgContent ≠ msgExit := by decide
    rw [List.mem_singleton.mp member] at typ
    exact absurd typ other
  | attach => exact (replay member).elim
  | dump => exact (replay member).elim
  | notice status now connected remains => exact ⟨⟨status, now, rfl⟩, connected, remains⟩

section Steps

variable {next : Client} {op : Op} {head send tail : List Entry}
  (trace : Trace client next (op.offered client) (op.taken client) head send tail)

include trace

theorem Trace.notices {entry : Entry} (member : entry ∈ head ++ send ++ tail)
    (kind : entry.Notices) :
    (∃ status now, op = .notice status now) ∧
      client.disconnected = false ∧ client.closeAfterDrain = none := by
  cases entry with
  | queued pkt =>
    rcases List.mem_append.mp member with member | member
    · rcases List.mem_append.mp member with member | member
      · exact (trace.inbound _ member).elim
      · have offered : pkt ∈ op.offered client :=
          trace.sent.queued.subset (List.mem_filterMap.mpr ⟨_, member, rfl⟩)
        exact notice_of_offered_typ offered kind
    · exact (trace.ending _ member).elim
  | _ => exact kind.elim

end Steps

def Op.Tells : Op → Prop
  | .notice _ _ => True
  | _ => False

theorem Life.untold {ok : Client → Op → Prop} (life : Life ok output childExit client)
    (running : childExit = none) : ∀ entry ∈ client.stream.journal, ¬ entry.Notices := by
  induction life with
  | start => exact nofun
  | reap status _ _ => cases running
  | @step output childExit client op _ legal _ ih =>
    obtain ⟨head, send, tail, trace⟩ := client.step_trace op
    intro entry member kind
    rw [trace.journal] at member
    rcases List.mem_append.mp member with member | member
    · exact ih running entry member kind
    · obtain ⟨⟨status, now, rfl⟩, _⟩ := trace.notices member kind
      rw [running] at legal
      cases legal

/-! ## What is sent before the notice -/

theorem Trace.before_notice {next : Client} {status : Int32} {now : Instant}
    {head send tail : List Entry}
    (trace : Trace client next (Op.offered (.notice status now) client)
      (Op.taken (.notice status now) client) head send tail)
    {before after : List Entry} {entry : Entry}
    (same : head ++ send ++ tail = before ++ entry :: after) :
    servedOf (client.stream.journal ++ before) = client.served ∧
      contentOf (queuedOf (client.stream.journal ++ before)) = contentOf client.queued := by
  have serves : servedOf next.stream.journal = client.served ++ [] := trace.serves
  rw [trace.journal, servedOf_append, same, servedOf_append] at serves
  have none := (List.append_eq_nil_iff.mp (List.append_cancel_left serves)).1
  have silent : contentOf (Op.offered (.notice status now) client) = [] := by
    simp only [Op.offered]
    split
    · rfl
    · exact contentOf_exitPacket status
  have content := trace.content_nil silent
  rw [Client.queued, trace.journal, queuedOf_append, contentOf_append, same, queuedOf_append,
    contentOf_append, Client.queued] at content
  have nothing := List.append_right_eq_self.mp content
  constructor
  · rw [servedOf_append, none, List.append_nil]
    rfl
  · rw [queuedOf_append, contentOf_append, (List.append_eq_nil_iff.mp nothing).1, List.append_nil]
    rfl

theorem Life.shows_notice {ok : Client → Op → Prop} (life : Life ok output childExit client)
    {next : Client} {status : Int32} {now : Instant} {head send tail : List Entry}
    (trace : Trace client next (Op.offered (.notice status now) client)
      (Op.taken (.notice status now) client) head send tail)
    {before after : List Entry} {entry : Entry}
    (same : head ++ send ++ tail = before ++ entry :: after)
    (connected : client.disconnected = false) : Shows output (client.stream.journal ++ before) := by
  obtain ⟨served, content⟩ := trace.before_notice same
  obtain ⟨_, inside, shown⟩ := life.shown
  constructor
  · rw [served]
    exact inside
  · rw [served, content]
    exact shown (.inl connected)

theorem Life.shows {ok : Client → Op → Prop} (life : Life ok output childExit client) :
    Whenever Entry.Notices (fun before => ∃ read, read <+: output ∧ Shows read before)
      client.stream.journal := by
  induction life with
  | start => exact whenever_nil
  | reap status _ ih => exact ih
  | @step output childExit client op life legal _ ih =>
    obtain ⟨head, send, tail, trace⟩ := client.step_trace op
    rw [trace.journal]
    have before : Whenever Entry.Notices
        (fun before => ∃ read, read <+: output ++ op.output ∧ Shows read before)
        client.stream.journal :=
      ih.mono fun before ⟨read, part, shown⟩ => ⟨read, part.trans (List.prefix_append _ _), shown⟩
    apply before.append
    intro before entry after same kind
    obtain ⟨⟨status, now, rfl⟩, connected, _⟩ := trace.notices (by rw [same]; simp) kind
    exact ⟨output, List.prefix_append _ _, life.shows_notice trace same connected⟩

section Keep

variable {child next : Child} (first : client.OutputFirst child)

theorem Client.OutputFirst.untold (none : ∀ entry ∈ client.stream.journal, ¬ entry.Notices) :
    client.OutputFirst child :=
  whenever_of_none none

include first

theorem Client.OutputFirst.later (exited : child.status.isSome = true) (later : child.Later next) :
    client.OutputFirst next := by
  refine Whenever.mono first fun before shown => ?_
  obtain ⟨read, part, replay, all⟩ := shown
  exact ⟨read, part.trans later.front, replay, by rw [later.written exited]; exact all⟩

theorem Client.OutputFirst.silent {ops : List Op} (silent : ∀ op ∈ ops, ¬ op.Tells) :
    (runSteps Client.step ops client).OutputFirst child := by
  induction ops generalizing client with
  | nil => exact first
  | cons op ops ih =>
    rw [runSteps_cons]
    refine ih ?_ fun other member => silent other (by simp [member])
    obtain ⟨head, send, tail, trace⟩ := client.step_trace op
    rw [Client.OutputFirst, trace.journal]
    refine first.append fun before entry after same kind => ?_
    obtain ⟨⟨status, now, rfl⟩, _⟩ := trace.notices (by rw [same]; simp) kind
    exact absurd trivial (silent _ List.mem_cons_self)

theorem Client.OutputFirst.notice {ok : Client → Op → Prop}
    (life : Life ok (child.output.take child.taken) childExit client) (status : Int32)
    (now : Instant)
    (complete : client.attached = true → client.disconnected = false →
      client.closeAfterDrain = none → child.written.length ≤ child.taken) :
    (client.step (.notice status now)).OutputFirst child := by
  obtain ⟨head, send, tail, trace⟩ := client.step_trace (.notice status now)
  rw [Client.OutputFirst, trace.journal]
  refine first.append fun before entry after same kind => ?_
  obtain ⟨_, connected, remains⟩ := trace.notices (by rw [same]; simp) kind
  refine ⟨_, List.prefix_rfl, life.shows_notice trace same connected, fun asked => ?_⟩
  obtain ⟨taken, member, typ⟩ := asked
  rw [(trace.before_notice same).1] at member
  have read := complete (life.attached_of_served member typ) connected remains
  rw [Child.output, List.take_append, List.take_of_length_le read]
  exact List.prefix_append _ _

end Keep

theorem answerOps_silent (tick : Tick) (server : Server) (client : Client) :
    ∀ op ∈ answerOps tick server client, ¬ op.Tells := by
  intro op member
  rcases List.mem_append.mp member with member | member
  · obtain ⟨_, _, rfl⟩ := List.mem_map.mp member
    exact id
  · unfold readOps at member
    split at member
    · rw [List.mem_singleton.mp member]
      exact id
    · rcases List.mem_cons.mp member with rfl | member
      · exact id
      · rw [List.eq_of_mem_replicate member]
        exact id
    · rcases List.mem_append.mp member with member | member
      · rcases List.mem_cons.mp member with rfl | member
        · exact id
        · rw [List.eq_of_mem_replicate member]
          exact id
      · rw [List.mem_singleton.mp member]
        exact id

/-! ## What a session keeps -/

namespace Session

def Notifies (turn : Turn) (session : Session) : Prop :=
  (drained (session.tick turn) session.server).childExit.isSome = true ∧
    ∃ client ∈ answered (session.tick turn) session.server,
      client.attached = true ∧ client.disconnected = false ∧ client.closeAfterDrain = none

/-- If so, nothing that was written before the exit is left in the pty. -/
def Complete (session : Session) (turn : Turn) : Prop :=
  session.returned = false → session.Notifies turn →
    (session.waited turn).written.length ≤ (session.waited turn).taken

instance (session : Session) (turn : Turn) : Decidable (session.Complete turn) :=
  inferInstanceAs (Decidable (_ → _ ∧ (∃ client ∈ answered _ _, _) → _))

/-- What holds between iterations that are complete, before anyone asks the server to shut
down. -/
structure Told (session : Session) : Prop where
  sound : session.Sound False
  first : ∀ client ∈ session.server.everyone, client.OutputFirst session.child

variable {session : Session} {turn : Turn}

theorem Sound.exited (sound : session.Sound False) {status : Int32}
    (exit : session.server.childExit = some status) : session.child.status.isSome = true :=
  isSome_of_map ((sound.exit status exit).resolve_right fun asked => asked.1)

theorem Told.untouched (told : session.Told) (turn : Turn) :
    ∀ client ∈ session.server.everyone, client.OutputFirst (session.waited turn) := by
  intro client member
  cases before : session.server.childExit with
  | some status =>
    exact (told.first client member).later (told.sound.exited before)
      (drained_output told.sound turn).2.1
  | none =>
    -- no notice has been sent before the exit was seen
    obtain ⟨_, childExit, _, once, life⟩ := told.sound.server.life member
    exact .untold (life.untold (once.elim id fun same => same.trans before))

theorem Told.step (told : session.Told) (complete : session.Complete turn)
    (calm : turn.shutdown = false) : (session.turn turn).Told := by
  have silent (asked : turn.shutdown = true) : False := Bool.noConfusion (calm.symm.trans asked)
  have sound := turn_sound told.sound silent
  by_cases ended : session.returned = true
  · rw [Session.turn, if_pos ended]
    exact told
  · have running : session.returned = false := Bool.not_eq_true _ ▸ ended
    obtain ⟨server, child, _⟩ := session.turn_eq running turn
    have untouched := told.untouched turn
    obtain ⟨waited, _, output⟩ := drained_output told.sound turn
    refine ⟨sound, fun client member => ?_⟩
    cases seen : (drained (session.tick turn) session.server).childExit with
    | none =>
      -- nobody has been told
      obtain ⟨_, childExit, _, once, life⟩ := sound.server.life member
      have exit : (session.turn turn).server.childExit = none := by
        rw [server, iterate_childExit, seen]
      exact .untold (life.untold (once.elim id fun same => same.trans exit))
    | some status =>
      have gone : (session.waited turn).status.isSome = true :=
        isSome_of_map ((waited_exit told.sound silent seen).resolve_right fun asked => asked.1)
      rw [server] at member
      rw [child]
      apply Client.OutputFirst.later _ gone (Child.acts_sound waited turn.rest).2.1
      rcases mem_iterate_everyone.mp member with dropped | ⟨old, inside, rfl⟩
      · exact untouched client (List.mem_append.mpr (.inr dropped))
      · have start : old.OutputFirst (session.waited turn) := by
          rcases mem_opened inside with known | new
          · exact untouched old (List.mem_append.mpr (.inl known))
          · obtain ⟨id, accept, rfl⟩ := mem_acceptedClients new
            exact whenever_nil
        have life := (opened_life told.sound.server (session.tick turn) inside).answered
          (opened_history told.sound.server _) (along_of_forall (fun _ _ => trivial) _ _)
        rw [output] at life
        have noticed := (start.silent (answerOps_silent _ _ old)).notice life status
          (turn.exitClock old.stream.id) fun on connected remains => by
            have member : runSteps Client.step (answerOps (session.tick turn) session.server old)
                old ∈ answered (session.tick turn) session.server := by
              rw [answered_eq]
              exact List.mem_map_of_mem inside
            exact complete running ⟨by rw [seen]; rfl, _, member, on, connected, remains⟩
        rw [tickOps_eq, runSteps_append, closingOps, seen, runSteps_append]
        apply Client.OutputFirst.silent noticed
        simp [Op.Tells]

theorem Told.run {turns : List Turn} (told : session.Told)
    (calm : ∀ turn ∈ turns, turn.shutdown = false)
    (complete : Along Session.turn Session.Complete turns session) :
    (runSteps Session.turn turns session).Told := by
  induction turns generalizing session with
  | nil => exact told
  | cons turn turns ih =>
    obtain ⟨here, rest⟩ := complete
    exact ih (told.step here (calm turn List.mem_cons_self))
      (fun other member => calm other (List.mem_cons_of_mem _ member)) rest

theorem told_start (pid : UInt64) (readPty : Bool) (writes : List WriteAnswer) :
    (start pid readPty writes).Told :=
  ⟨start_sound False pid readPty writes, nofun⟩

end Session

/-- In a session in which the pty has been read to the end of what the command
wrote whenever an attached client is about to be told of the exit, the output
comes before the notice. -/
theorem output_before_exit (pid : UInt64) (readPty : Bool) (writes : List WriteAnswer)
    (turns : List Turn) (calm : ∀ turn ∈ turns, turn.shutdown = false)
    (complete : Along Session.turn Session.Complete turns (Session.start pid readPty writes)) :
    let session := runSteps Session.turn turns (Session.start pid readPty writes)
    ∀ client ∈ session.server.everyone, client.OutputFirst session.child :=
  ((Session.told_start pid readPty writes).run calm complete).first

def Turn.quiet : Turn := ⟨false, [], [], [], [], fun _ => 0, fun _ => 0, 0⟩

/-- A client attaches; the command writes a byte and exits, before the pty is read
or behind the last read. -/
def lastByte (before race : List ChildAct) : List Turn :=
  [{ Turn.quiet with accepts := [attacher] },
    { Turn.quiet with moves := [⟨before, .data 0⟩, ⟨[], .data 0⟩], race := race },
    { Turn.quiet with moves := [⟨[], .data 0⟩] }]

theorem output_before_exit_read :
    ∃ client ∈ (runSteps Session.turn (lastByte [.write [65], .exit 0] [])
        (Session.start 1 true [])).server.everyone,
      (∃ entry ∈ client.stream.journal, entry.Notices) ∧
        client.OutputFirst ⟨[65], [], 1, some 0⟩ := by
  have told : ∃ client ∈ (runSteps Session.turn (lastByte [.write [65], .exit 0] [])
      (Session.start 1 true [])).server.everyone,
      Entry.queued (exitPacket 0) ∈ client.stream.journal := by
    decide
  obtain ⟨client, member, notice⟩ := told
  have first := output_before_exit 1 true [] (lastByte [.write [65], .exit 0] []) (by decide)
    (by decide) client member
  exact ⟨client, member, ⟨_, notice, rfl⟩, first⟩

theorem output_after_exit :
    ¬ ∀ (pid : UInt64) (readPty : Bool) (writes : List WriteAnswer) (turns : List Turn),
      (∀ turn ∈ turns, turn.shutdown = false) →
      let session := runSteps Session.turn turns (Session.start pid readPty writes)
      ∀ client ∈ session.server.everyone, client.OutputFirst session.child := by
  intro law
  have told : ∃ client ∈ (runSteps Session.turn (lastByte [] [.write [65], .exit 0])
      (Session.start 1 true [])).server.everyone,
      client.stream.journal = client.stream.journal.take 2 ++
          Entry.queued (exitPacket 0) :: client.stream.journal.drop 3 ∧
        servedOf (client.stream.journal.take 2) = [(⟨msgAttach, [0, 0, 0, 0]⟩, 0)] ∧
        contentOf (queuedOf (client.stream.journal.take 2)) = [] := by
    decide
  obtain ⟨client, member, same, served, none⟩ := told
  obtain ⟨read, _, shown, all⟩ := law 1 true [] _ (by decide) client member _ _ _ same rfl
  rw [served] at all
  have content := shown.content
  rw [none, served] at content
  -- nothing was sent behind the request, so nothing was read, and the byte is missing
  have nothing : read = [] := by
    have replay : shownOf replayed read false 0 [(.follow, 0)] = replayed [] ++ read :=
      shownOf_follow 0 0
    exact (List.append_eq_nil_iff.mp (content.trans replay).symm).2
  have written := all ⟨_, List.mem_singleton_self _, rfl⟩
  rw [nothing] at written
  exact absurd (List.prefix_nil.mp written) (by decide)

end Lich
