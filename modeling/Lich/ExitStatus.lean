import Lich.OutputFirst

/-! One exit status, told once.

A shutdown signal and `waitpid` set the same field, and the exit branch runs in
every iteration after that. A client is told by the first of these branches that
finds it open, and closed from then on.
-/

set_option autoImplicit false

namespace Lich

open Foundation

/-- The values of `child_exit` in a run, in order: when an iteration starts, after
the shutdown flag was polled, and after `waitpid`. -/
def exitReadings : List Tick → Server → List (Option Int32)
  | [], server => [server.childExit]
  | tick :: ticks, server =>
    server.childExit :: (opened tick server).childExit :: (drained tick server).childExit ::
      match iterate tick server with
      | .running server => exitReadings ticks server
      | .returned server => [server.childExit]

def exitCode (pkt : Packet) : Int32 := ((readU32 pkt.payload).getD 0).toInt32

def Entry.ServesDump : Entry → Prop
  | .served pkt _ => pkt.typ = msgDump
  | _ => False

structure Client.Told (childExit : Option Int32) (client : Client) : Prop where
  status : ∀ pkt ∈ client.queued, pkt.typ = msgExit → childExit = some (exitCode pkt)
  once : client.queued.countP (fun pkt => pkt.typ == msgExit) ≤ 1
  dumped : NeverAfter Entry.ServesDump Entry.Notices client.stream.journal

theorem exitCode_exitPacket (status : Int32) : exitCode (exitPacket status) = status := by
  rw [exitCode, exitPacket, readU32_toNeBytes]
  exact status.toInt32_toUInt32

/-! ## The field -/

theorem opened_exit_once (tick : Tick) (server : Server) :
    server.childExit = none ∨ (opened tick server).childExit = server.childExit := by
  obtain ⟨_, _, childExit, _, once, after⟩ := opened_eq tick server
  rw [after]
  exact once.symm

theorem iterate_exit_once (tick : Tick) (server : Server) :
    server.childExit = none ∨ (iterate tick server).server.childExit = server.childExit := by
  rw [iterate_childExit]
  exact (drained_exit_once tick server).symm

theorem exitReadings_once (ticks : List Tick) {server : Server} {status : Int32}
    (exit : server.childExit = some status) :
    ∀ reading ∈ exitReadings ticks server, reading = some status := by
  induction ticks generalizing server with
  | nil =>
    intro reading member
    rw [List.mem_singleton.mp member, exit]
  | cons tick ticks ih =>
    have asOpened := (opened_exit_once tick server).resolve_left (by rw [exit]; exact nofun)
    have asDrained := (drained_exit_once tick server).resolve_right (by rw [exit]; exact nofun)
    have next := (iterate_exit_once tick server).resolve_left (by rw [exit]; exact nofun)
    rw [exit] at asOpened asDrained next
    intro reading member
    rw [exitReadings, exit, asOpened, asDrained] at member
    simp only [List.mem_cons] at member
    rcases member with rfl | rfl | rfl | member
    · rfl
    · rfl
    · rfl
    · split at member
      · next running =>
        rw [running] at next
        exact ih next reading member
      · next returned =>
        rw [returned] at next
        rw [List.mem_singleton.mp member]
        exact next

-- Each of the four readings of an iteration is followed by readings that keep it.
theorem exitReadings_pairwise (ticks : List Tick) (server : Server) :
    (exitReadings ticks server).Pairwise fun earlier later => earlier = none ∨ later = earlier := by
  induction ticks generalizing server with
  | nil => exact List.pairwise_singleton _ _
  | cons tick ticks ih =>
    have asOpened := opened_exit_once tick server
    have asDrained := (drained_childExit_once tick server).symm
    have rest : ∀ reading ∈ (match iterate tick server with
        | .running server => exitReadings ticks server
        | .returned server => [server.childExit]),
        (drained tick server).childExit = none ∨ reading = (drained tick server).childExit := by
      have kept := iterate_childExit tick server
      intro reading member
      cases exit : (drained tick server).childExit with
      | none => exact .inl rfl
      | some status =>
        rw [exit] at kept
        apply Or.inr
        split at member
        · next running =>
          rw [running] at kept
          exact exitReadings_once ticks kept reading member
        · next returned =>
          rw [returned] at kept
          rw [List.mem_singleton.mp member]
          exact kept
    have chain {first second third : Option Int32} (start : first = none ∨ second = first)
        (next : second = none ∨ third = second) : first = none ∨ third = first := by
      rcases start with none | rfl
      · exact .inl none
      · exact next
    rw [exitReadings]
    refine .cons ?_ (.cons ?_ (.cons rest ?_))
    · intro reading member
      rcases List.mem_cons.mp member with rfl | member
      · exact asOpened
      · rcases List.mem_cons.mp member with rfl | member
        · exact chain asOpened asDrained
        · exact chain (chain asOpened asDrained) (rest reading member)
    · intro reading member
      rcases List.mem_cons.mp member with rfl | member
      · exact asDrained
      · exact chain asDrained (rest reading member)
    · split
      · exact ih _
      · exact List.pairwise_singleton _ _

/-! ## The clients -/

variable {output : List UInt8} {childExit : Option Int32} {client : Client}

/-- A client that has been told, or whose dump has been served, is closing. -/
structure Client.Bound (client : Client) : Prop where
  told : (∃ entry ∈ client.stream.journal, entry.Notices) → client.closeAfterDrain.isSome = true
  dumped : (∃ entry ∈ client.stream.journal, entry.ServesDump) →
    client.closeAfterDrain.isSome = true

theorem Trace.servesDump {next : Client} {op : Op} {head send tail : List Entry}
    (trace : Trace client next (op.offered client) (op.taken client) head send tail)
    {entry : Entry} (member : entry ∈ head ++ send ++ tail) (kind : entry.ServesDump) :
    (op.closes client).isSome = true := by
  cases entry with
  | served pkt seen =>
    have inside : (pkt, seen) ∈ servedOf head := by
      rcases List.mem_append.mp member with member | member
      · rcases List.mem_append.mp member with member | member
        · exact List.mem_filterMap.mpr ⟨_, member, rfl⟩
        · exact (trace.sent.outbound _ member).elim
      · exact (trace.ending _ member).elim
    rw [trace.served] at inside
    cases op with
    | packet history seen' now =>
      simp only [Op.taken] at inside
      cases found : (popPacket client.buf).1 with
      | none =>
        rw [found] at inside
        cases inside
      | some first =>
        rw [found, Option.map_some, Option.toList_some, List.mem_singleton] at inside
        cases inside
        rw [Op.closes, found, Option.filter, if_pos (beq_iff_eq.mpr kind)]
        rfl
    | _ => cases inside
  | _ => exact kind.elim

theorem Client.Bound.step (bound : client.Bound) (op : Op) : (client.step op).Bound := by
  obtain ⟨head, send, tail, trace⟩ := client.step_trace op
  have closing := client.step_closing op
  have kept (remains : client.closeAfterDrain.isSome = true) :
      (client.step op).closeAfterDrain.isSome = true := by
    rw [closing, Option.isSome_or, remains, Bool.true_or]
  have set (closes : (op.closes client).isSome = true) :
      (client.step op).closeAfterDrain.isSome = true := by
    rw [closing, Option.isSome_or, closes, Bool.or_true]
  constructor
  · rintro ⟨entry, member, kind⟩
    rw [trace.journal] at member
    rcases List.mem_append.mp member with member | member
    · exact kept (bound.told ⟨entry, member, kind⟩)
    · obtain ⟨⟨status, now, rfl⟩, connected, _⟩ := trace.notices member kind
      apply set
      simp [Op.closes, connected]
  · rintro ⟨entry, member, kind⟩
    rw [trace.journal] at member
    rcases List.mem_append.mp member with member | member
    · exact kept (bound.dumped ⟨entry, member, kind⟩)
    · exact set (trace.servesDump member kind)

theorem Life.bound {ok : Client → Op → Prop} (life : Life ok output childExit client) :
    client.Bound := by
  induction life with
  | start => constructor <;> simp [Client.accept]
  | reap status _ ih => exact ih
  | step op _ _ _ ih => exact ih.step op

theorem countP_notices {entries : List Entry} (none : ∀ entry ∈ entries, ¬ entry.Notices) :
    (queuedOf entries).countP (fun pkt => pkt.typ == msgExit) = 0 := by
  apply List.countP_eq_zero.mpr
  intro pkt member same
  obtain ⟨entry, inside, found⟩ := List.mem_filterMap.mp member
  cases entry <;> cases found
  exact none _ inside (beq_iff_eq.mp same)

section Steps

variable {next : Client} {offered : List Packet} {taken : Option (Packet × Nat)}
  {head send tail : List Entry}

theorem Client.Told.silent (told : client.Told childExit)
    (trace : Trace client next offered taken head send tail)
    (none : ∀ entry ∈ head ++ send ++ tail, ¬ entry.Notices) : next.Told childExit := by
  have silent : ∀ entry ∈ send, ¬ entry.Notices :=
    fun entry member => none entry (by simp [member])
  constructor
  · intro pkt member typ
    rw [trace.queued] at member
    rcases List.mem_append.mp member with old | new
    · exact told.status pkt old typ
    · obtain ⟨entry, inside, found⟩ := List.mem_filterMap.mp new
      cases entry <;> cases found
      exact absurd typ (silent _ inside)
  · rw [trace.queued, List.countP_append, countP_notices silent]
    exact told.once
  · rw [trace.journal, neverAfter_append]
    exact ⟨told.dumped, neverAfter_of_none none, fun _ _ entry member _ => none entry member⟩

theorem Trace.undumped (trace : Trace client next offered none head send tail) :
    ∀ entry ∈ head ++ send ++ tail, ¬ entry.ServesDump := by
  intro entry inside kind
  cases entry with
  | served pkt seen =>
    have taken : (pkt, seen) ∈ servedOf (head ++ send ++ tail) :=
      List.mem_filterMap.mpr ⟨_, inside, rfl⟩
    have serves := trace.serves
    rw [Client.served, trace.journal, servedOf_append] at serves
    rw [List.append_cancel_left serves] at taken
    cases taken
  | _ => exact kind.elim

theorem Client.Told.notice {status : Int32} (told : client.Told (some status)) (bound : client.Bound)
    (remains : client.closeAfterDrain = none)
    (trace : Trace client next [exitPacket status] none head send tail) :
    next.Told (some status) := by
  have queued : queuedOf send <+: [exitPacket status] := trace.sent.queued
  have untold : ∀ entry ∈ client.stream.journal, ¬ entry.Notices := by
    intro entry member kind
    have closing := bound.told ⟨entry, member, kind⟩
    rw [remains] at closing
    cases closing
  have undumped : ∀ entry ∈ client.stream.journal, ¬ entry.ServesDump := by
    intro entry member kind
    have closing := bound.dumped ⟨entry, member, kind⟩
    rw [remains] at closing
    cases closing
  constructor
  · intro pkt member typ
    rw [trace.queued] at member
    rcases List.mem_append.mp member with old | new
    · exact told.status pkt old typ
    · rw [List.mem_singleton.mp (queued.subset new), exitCode_exitPacket]
  · have few := queued.length_le
    have counted : (queuedOf send).countP (fun pkt => pkt.typ == msgExit) ≤
        (queuedOf send).length := List.countP_le_length
    rw [trace.queued, List.countP_append, Client.queued, countP_notices untold]
    rw [List.length_singleton] at few
    omega
  · rw [trace.journal, neverAfter_append]
    exact ⟨told.dumped, neverAfter_of_no_first trace.undumped,
      fun entry member _ _ kind => absurd kind (undumped entry member)⟩

end Steps

theorem Life.told_once {ok : Client → Op → Prop} (life : Life ok output childExit client) :
    client.Told childExit := by
  induction life with
  | start =>
    refine ⟨?_, ?_, neverAfter_nil⟩ <;> simp [Client.accept, Client.queued]
  | @reap output client status life ih =>
    have none := life.untold rfl
    refine ⟨fun pkt member typ => ?_, ih.once, ih.dumped⟩
    obtain ⟨entry, inside, found⟩ := List.mem_filterMap.mp member
    cases entry <;> cases found
    exact absurd typ (none _ inside)
  | @step output childExit client op life legal _ ih =>
    obtain ⟨head, send, tail, trace⟩ := client.step_trace op
    by_cases tells : ∃ entry ∈ head ++ send ++ tail, entry.Notices
    · obtain ⟨entry, member, kind⟩ := tells
      obtain ⟨⟨status, now, rfl⟩, connected, remains⟩ := trace.notices member kind
      have offered : Op.offered (.notice status now) client = [exitPacket status] := by
        simp [Op.offered, connected, remains]
      rw [offered] at trace
      -- the exit branch has the status of the child
      have exit : childExit = some status := legal
      subst exit
      exact ih.notice life.bound remains trace
    · exact ih.silent trace fun entry member kind => tells ⟨entry, member, kind⟩

theorem Client.Told.later {first second : Option Int32} (told : client.Told first)
    (once : first = none ∨ first = second) : client.Told second := by
  rcases once with rfl | rfl
  · refine ⟨fun pkt member typ => ?_, told.once, told.dumped⟩
    cases told.status pkt member typ
  · exact told

theorem Client.silent_notices {ops : List Op} (silent : ∀ op ∈ ops, ¬ op.Tells)
    (untold : ∀ entry ∈ client.stream.journal, ¬ entry.Notices) :
    ∀ entry ∈ (runSteps Client.step ops client).stream.journal, ¬ entry.Notices := by
  induction ops generalizing client with
  | nil => exact untold
  | cons op ops ih =>
    rw [runSteps_cons]
    apply ih fun other member => silent other (List.mem_cons_of_mem _ member)
    obtain ⟨head, send, tail, trace⟩ := client.step_trace op
    intro entry member kind
    rw [trace.journal] at member
    rcases List.mem_append.mp member with member | member
    · exact untold entry member kind
    · obtain ⟨⟨status, now, rfl⟩, _⟩ := trace.notices member kind
      exact silent _ List.mem_cons_self trivial

theorem answered_untold {server : Server} (sound : server.Sound fun _ _ => True) (tick : Tick)
    (running : server.childExit = none) :
    ∀ client ∈ answered tick server, ∀ pkt ∈ client.queued, pkt.typ ≠ msgExit := by
  have start : ∀ client ∈ (opened tick server).clients,
      ∀ entry ∈ client.stream.journal, ¬ entry.Notices := by
    intro client member
    rcases mem_opened member with old | new
    · exact (sound.clients client old).1.untold running
    · obtain ⟨id, accept, rfl⟩ := mem_acceptedClients new
      exact nofun
  rw [answered_eq]
  intro client member pkt queued typ
  obtain ⟨old, inside, rfl⟩ := List.mem_map.mp member
  obtain ⟨entry, found, same⟩ := List.mem_filterMap.mp queued
  have silent := Client.silent_notices (answerOps_silent tick server old) (start old inside)
  cases entry <;> cases same
  exact silent _ found typ

-- The field is set once, and a client is told of it at most once: the exit branch
-- passes over a client that is closing, and telling a client closes it.
theorem exit_told_once (pid : UInt64) (readPty : Bool) (writes : List WriteAnswer)
    (ticks : List Tick) :
    let server := (serverLoop ticks (Server.start pid readPty writes)).server
    ((exitReadings ticks (Server.start pid readPty writes)).Pairwise fun earlier later =>
      earlier = none ∨ later = earlier) ∧
    (∀ client ∈ server.everyone, client.Told server.childExit) ∧
    ∀ tick, server.childExit = none →
      ∀ client ∈ answered tick server, ∀ pkt ∈ client.queued, pkt.typ ≠ msgExit := by
  have sound : ((serverLoop ticks (Server.start pid readPty writes)).server).Sound
      fun _ _ => True :=
    serverLoop_sound (Server.start_sound pid readPty writes)
      (runMeets_of_forall (fun _ _ => trivial) _ _)
  refine ⟨exitReadings_pairwise _ _, fun client member => ?_, fun tick running => ?_⟩
  · obtain ⟨_, _, _, once, life⟩ := sound.life member
    exact life.told_once.later once
  · exact answered_untold sound tick running

end Lich
