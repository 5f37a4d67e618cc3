import Lich.Run

/-! What may still be sent to a client that is on its way out.

A client that is closing, or that a failed send has made the server give up,
still takes part in the rest of its iterations. `Client.Disturbs` says when a
step sends it something more.
-/

set_option autoImplicit false

namespace Lich

open Foundation

namespace Entry

def Sends : Entry → Prop
  | .queued _ | .wrote _ => True
  | _ => False

def Closes : Entry → Prop
  | .closing _ _ => True
  | _ => False

def Leaves : Entry → Prop
  | .left _ => True
  | _ => False

def Fails : Entry → Prop
  | .left .sendFailed => True
  | _ => False

def Loses : Entry → Prop
  | .refused _ | .left .sendFailed => True
  | _ => False

instance : DecidablePred Queues := fun entry => by cases entry <;> unfold Queues <;> infer_instance
instance : DecidablePred Sends := fun entry => by cases entry <;> unfold Sends <;> infer_instance
instance : DecidablePred Loses := fun entry => by
  cases entry with
  | left why => cases why <;> unfold Loses <;> infer_instance
  | _ => unfold Loses; infer_instance
instance : DecidablePred Closes := fun entry => by cases entry <;> unfold Closes <;> infer_instance

end Entry

/-- The step offers the client a packet that its queue has room for: pty output
while it is attached, a replay, the end of a dump, or the exit notice. -/
def Client.Disturbs (client : Client) : Op → Prop
  | .broadcast bytes =>
    client.attached = true ∧ client.sendQueue.length + (8 + bytes.length) ≤ sendQueueCap
  | .packet history _ _ =>
    ∃ pkt, (popPacket client.buf).1 = some pkt ∧
      (pkt.typ = msgAttach ∧ history.bytes ≠ [] ∨ pkt.typ = msgDump) ∧
      client.sendQueue.length + (8 + min maxPayload history.bytes.length) ≤ sendQueueCap
  | .notice _ _ =>
    client.disconnected = false ∧ client.closeAfterDrain = none ∧
      client.sendQueue.length + 12 ≤ sendQueueCap
  | _ => False

instance (client : Client) : (op : Op) → Decidable (client.Disturbs op)
  | .broadcast _ => inferInstanceAs (Decidable (_ ∧ _))
  | .packet history _ _ =>
    match found : (popPacket client.buf).1 with
    | some pkt =>
      decidable_of_iff ((pkt.typ = msgAttach ∧ history.bytes ≠ [] ∨ pkt.typ = msgDump) ∧
        client.sendQueue.length + (8 + min maxPayload history.bytes.length) ≤ sendQueueCap)
        (by simp [Client.Disturbs, found])
    | none => .isFalse (by simp [Client.Disturbs, found])
  | .notice _ _ => inferInstanceAs (Decidable (_ ∧ _ ∧ _))
  | .receive | .endOfStream | .flush | .expire _ => .isFalse id

/-! ## The first packet offered -/

theorem replayPackets_head (snapshot : List UInt8) (sendEnd : Bool) :
    (replayPackets snapshot sendEnd = [] ∧ snapshot = [] ∧ sendEnd = false) ∨
    ∃ pkt more, replayPackets snapshot sendEnd = pkt :: more ∧
      (packetBytes pkt).length = 8 + min maxPayload snapshot.length ∧
      (snapshot ≠ [] ∨ sendEnd = true) ∧ pkt.typ ≠ msgExit := by
  cases snapshot with
  | nil =>
    cases sendEnd with
    | false => exact .inl ⟨rfl, rfl, rfl⟩
    | true => exact .inr ⟨⟨msgDumpEnd, []⟩, [], rfl, packetBytes_length _, .inr rfl, by decide⟩
  | cons head tail =>
    refine .inr ⟨⟨msgContent, (head :: tail).take maxPayload⟩, _, rfl, ?_, .inl nofun, nofun⟩
    rw [packetBytes_length, List.length_take]

theorem exitPacket_length (status : Int32) : (packetBytes (exitPacket status)).length = 12 := by
  rw [packetBytes_length, exitPacket, u32ToNeBytes_length]

theorem offered_of_disturbs {client : Client} {op : Op} (disturbs : client.Disturbs op) :
    ∃ pkt more, op.offered client = pkt :: more ∧
      client.sendQueue.length + (packetBytes pkt).length ≤ sendQueueCap := by
  cases op with
  | broadcast bytes =>
    obtain ⟨attached, room⟩ := disturbs
    refine ⟨⟨msgContent, bytes⟩, [], by simp [Op.offered, attached], ?_⟩
    rwa [packetBytes_length]
  | packet history seen now =>
    obtain ⟨pkt, found, kind, room⟩ := disturbs
    -- both kinds of packet offer a replay, and neither offers an empty one
    have replay : ∃ sendEnd, Op.offered (.packet history seen now) client =
        replayPackets history.snapshot sendEnd ∧ (history.snapshot ≠ [] ∨ sendEnd = true) := by
      rcases kind with ⟨attach, nonempty⟩ | dump
      · exact ⟨false, by simp [Op.offered, found, attach], .inl nonempty⟩
      · refine ⟨true, ?_, .inr rfl⟩
        have other : msgDump ≠ msgAttach := by decide
        simp [Op.offered, found, dump, other]
    obtain ⟨sendEnd, offered, nonempty⟩ := replay
    rcases replayPackets_head history.snapshot sendEnd with
      ⟨_, empty, none⟩ | ⟨first, more, split, size, _⟩
    · rcases nonempty with kept | kept
      · exact absurd empty kept
      · rw [none] at kept
        cases kept
    · exact ⟨first, more, offered.trans split, by rw [size]; exact room⟩
  | notice status now =>
    obtain ⟨connected, remains, room⟩ := disturbs
    refine ⟨exitPacket status, [], by simp [Op.offered, connected, remains], ?_⟩
    rwa [exitPacket_length]
  | _ => cases disturbs

theorem disturbs_of_offered {client : Client} {op : Op} {pkt : Packet} {more : List Packet}
    (offered : op.offered client = pkt :: more)
    (room : client.sendQueue.length + (packetBytes pkt).length ≤ sendQueueCap) :
    client.Disturbs op := by
  have replay {snapshot : List UInt8} {sendEnd : Bool}
      (same : replayPackets snapshot sendEnd = pkt :: more) :
      (packetBytes pkt).length = 8 + min maxPayload snapshot.length ∧
        (snapshot ≠ [] ∨ sendEnd = true) := by
    rcases replayPackets_head snapshot sendEnd with ⟨none, _⟩ | ⟨head, tail, split, size, kept⟩
    · rw [none] at same
      cases same
    · obtain ⟨rfl, _⟩ := List.cons_eq_cons.mp (same.symm.trans split)
      exact ⟨size, kept.1⟩
  have offers := op.offers client
  generalize op.offered client = packets at offered offers
  cases offers with
  | nothing => cases offered
  | content bytes attached =>
    obtain ⟨rfl, _⟩ := List.cons_eq_cons.mp offered
    rw [packetBytes_length] at room
    exact ⟨attached, room⟩
  | attach history seen now found attach =>
    obtain ⟨size, kept⟩ := replay offered
    have nonempty : history.snapshot ≠ [] := kept.resolve_right (by decide)
    rw [size] at room
    exact ⟨_, found, .inl ⟨attach, nonempty⟩, room⟩
  | dump history seen now found dump =>
    obtain ⟨size, _⟩ := replay offered
    rw [size] at room
    exact ⟨_, found, .inr dump, room⟩
  | notice status now connected remains =>
    obtain ⟨rfl, _⟩ := List.cons_eq_cons.mp offered
    rw [exitPacket_length] at room
    exact ⟨connected, remains, room⟩

/-! ## What a step adds to the journal -/

theorem queuedOf_eq_nil_iff {entries : List Entry} :
    queuedOf entries = [] ↔ ∀ entry ∈ entries, ¬ entry.Queues := by
  rw [queuedOf, List.filterMap_eq_nil_iff]
  constructor
  · intro none entry member
    have same := none entry member
    cases entry <;> first | exact id | cases same
  · intro none entry member
    have same := none entry member
    cases entry <;> first | rfl | exact absurd trivial same

section Steps

variable {client next : Client} {offered : List Packet} {taken : Option (Packet × Nat)}
  {head send tail : List Entry} (trace : Trace client next offered taken head send tail)

include trace

theorem Trace.not_sends {entry : Entry} (member : entry ∈ head ∨ entry ∈ tail) :
    ¬ entry.Sends := by
  intro sends
  rcases member with member | member
  · have kind := trace.inbound entry member
    cases entry <;> first | exact kind.elim | exact sends.elim
  · have kind := trace.ending entry member
    cases entry <;> first | exact kind.elim | exact sends.elim

theorem Trace.not_ends {entry : Entry} (member : entry ∈ head ++ send) : ¬ entry.Ending := by
  intro ending
  rcases List.mem_append.mp member with member | member
  · have kind := trace.inbound entry member
    cases entry <;> first | exact kind.elim | exact ending.elim
  · have kind := trace.sent.outbound entry member
    cases entry <;> first | exact kind.elim | exact ending.elim

theorem Trace.behind {before after : List Entry} {entry : Entry}
    (same : head ++ send ++ tail = before ++ entry :: after) (ending : entry.Ending) :
    ∃ more, before = head ++ send ++ more ∧ tail = more ++ entry :: after :=
  behind_of_not_mem same fun member => trace.not_ends member ending

end Steps

structure Client.Marked (client : Client) : Prop where
  closing : client.closeAfterDrain.isSome = true ↔ ∃ entry ∈ client.stream.journal, entry.Closes
  left : client.disconnected = true ↔ ∃ entry ∈ client.stream.journal, entry.Leaves

theorem Entry.closes_iff {entries : List Entry} :
    (∃ entry ∈ entries, entry.Closes) ↔ ∃ cause since, Entry.closing cause since ∈ entries := by
  constructor
  · rintro ⟨entry, member, kind⟩
    cases entry <;> first | exact ⟨_, _, member⟩ | cases kind
  · rintro ⟨cause, since, member⟩
    exact ⟨_, member, trivial⟩

theorem Entry.leaves_iff {entries : List Entry} :
    (∃ entry ∈ entries, entry.Leaves) ↔ ∃ why, Entry.left why ∈ entries := by
  constructor
  · rintro ⟨entry, member, kind⟩
    cases entry <;> first | exact ⟨_, member⟩ | cases kind
  · rintro ⟨why, member⟩
    exact ⟨_, member, trivial⟩

theorem Trace.mark {client next : Client} {offered : List Packet}
    {taken : Option (Packet × Nat)} {head send tail : List Entry}
    (trace : Trace client next offered taken head send tail) {mark : Entry → Prop}
    (ends : ∀ entry, mark entry → entry.Ending) :
    (∃ entry ∈ next.stream.journal, mark entry) ↔
      (∃ entry ∈ client.stream.journal, mark entry) ∨ ∃ entry ∈ tail, mark entry := by
  rw [trace.journal]
  constructor
  · rintro ⟨entry, member, kind⟩
    rcases List.mem_append.mp member with member | member
    · exact .inl ⟨entry, member, kind⟩
    · rcases List.mem_append.mp member with member | member
      · exact absurd (ends entry kind) (trace.not_ends member)
      · exact .inr ⟨entry, member, kind⟩
  · rintro (⟨entry, member, kind⟩ | ⟨entry, member, kind⟩)
    · exact ⟨entry, by simp [member], kind⟩
    · exact ⟨entry, by simp [member], kind⟩

theorem Entry.Closes.ends {entry : Entry} (kind : entry.Closes) : entry.Ending := by
  cases entry <;> first | exact kind.elim | trivial

theorem Entry.Leaves.ends {entry : Entry} (kind : entry.Leaves) : entry.Ending := by
  cases entry <;> first | exact kind.elim | trivial

theorem Client.Marked.step {client : Client} (marked : client.Marked) (op : Op) :
    (client.step op).Marked := by
  obtain ⟨head, send, tail, trace⟩ := client.step_trace op
  constructor
  · rw [trace.closing, trace.mark fun _ => Entry.Closes.ends, marked.closing,
      @Entry.closes_iff tail]
  · rw [trace.disconnected, trace.mark fun _ => Entry.Leaves.ends, marked.left,
      @Entry.leaves_iff tail]

theorem Life.marked {ok : Client → Op → Prop} {output : List UInt8} {childExit : Option Int32}
    {client : Client} (life : Life ok output childExit client) : client.Marked := by
  induction life with
  | start => constructor <;> simp [Client.accept]
  | reap status _ ih => exact ih
  | step op _ _ _ ih => exact ih.step op

/-! ## When the closing starts -/

/-- The clock reading of a step that closes the client, or would if it were not
closing already: MSG_DUMP is served, or the exit branch comes to it. -/
def Op.closes (op : Op) (client : Client) : Option Instant :=
  match op with
  | .packet _ _ now => ((popPacket client.buf).1.filter (·.typ == msgDump)).map fun _ => now
  | .notice _ now => if client.disconnected then none else some now
  | _ => none

theorem Client.sent_leaveIf_closing (client : Client) (entries : List Entry)
    (later : List WriteAnswer) (rest : List UInt8) (failed : Bool) :
    ((client.sent entries later rest).leaveIf failed).closeAfterDrain = client.closeAfterDrain := by
  cases failed <;> rfl

theorem sendHistory_closing (client : Client) (history : History) (sendEnd : Bool) :
    (sendHistory client history sendEnd).closeAfterDrain = client.closeAfterDrain := by
  obtain ⟨_, _, _, _, after, _⟩ := sendHistory_sent client history sendEnd
  rw [after]
  exact client.sent_leaveIf_closing _ _ _ _

theorem Client.serve_closing (client : Client) (history : History) (seen : Nat) (now : Instant)
    (pkt : Packet) : (client.serve history seen now pkt).closeAfterDrain =
      client.closeAfterDrain.or (if pkt.typ = msgDump then some now else none) := by
  unfold serve
  by_cases attach : pkt.typ = msgAttach
  · have other : pkt.typ ≠ msgDump := by
      rw [attach]
      decide
    rw [if_pos attach, if_neg other, Option.or_none]
    exact sendHistory_closing _ _ _
  · rw [if_neg attach]
    dsimp only
    by_cases dump : pkt.typ = msgDump
    · have kept := sendHistory_closing (client.log (.served pkt seen)) history true
      rw [if_pos dump, if_pos dump]
      have log : (client.log (.served pkt seen)).closeAfterDrain = client.closeAfterDrain := rfl
      rw [log] at kept
      cases remains : client.closeAfterDrain with
      | none =>
        rw [remains] at kept
        rw [if_pos (by rw [kept]; rfl)]
        rfl
      | some since =>
        rw [remains] at kept
        rw [if_neg (by rw [kept]; exact nofun), kept]
        rfl
    · rw [if_neg dump, if_neg dump, Option.or_none]
      split <;> rfl

-- The first closing event sets the time, and no later one moves it.
theorem Client.step_closing (op : Op) (client : Client) :
    (client.step op).closeAfterDrain = client.closeAfterDrain.or (op.closes client) := by
  cases op with
  | broadcast bytes =>
    simp only [step, Op.closes, Option.or_none]
    split
    · obtain ⟨_, _, _, _, after, _⟩ := broadcastTo_sent bytes client
      rw [after]
      exact client.sent_leaveIf_closing _ _ _ _
    · rfl
  | receive =>
    simp only [step, Op.closes, Option.or_none]
    obtain ⟨_, _, after | after⟩ := client.receive_cases
    · rw [after]
      rfl
    · rw [after]
      rfl
  | packet history seen now =>
    simp only [step, packet, Op.closes]
    rcases popPacket client.buf with ⟨found, buf⟩
    cases found with
    | none => exact (Option.or_none ..).symm
    | some pkt =>
      dsimp only
      rw [Client.serve_closing]
      by_cases dump : pkt.typ = msgDump
      · rw [if_pos dump, Option.filter, if_pos (beq_iff_eq.mpr dump)]
        rfl
      · rw [if_neg dump, Option.filter, if_neg fun same => dump (beq_iff_eq.mp same)]
        rfl
  | endOfStream => exact (Option.or_none ..).symm
  | notice status now =>
    simp only [step, noticeExit, Op.closes]
    by_cases gone : client.disconnected = true
    · simp [gone]
    · cases remains : client.closeAfterDrain with
      | none => simp [gone, close]
      | some since => simp [remains]
  | flush =>
    simp only [step, Op.closes, Option.or_none]
    rcases flushClient_cases client with same | ⟨_, _, _, _, _, after | after⟩
    · rw [same]
    · rw [after]
      rfl
    · rw [after]
      rfl
  | expire now =>
    simp only [step, expireClient, Op.closes, Option.or_none]
    split
    · rfl
    · split
      · rfl
      · split
        · rfl
        · split <;> rfl

/-! ## Laws about the order of entries -/

/-- A law that some entries forbid sending, kept inside each sending, can only be
broken by sending to a client that has such an entry in its journal. -/
theorem Trace.neverAfter_iff {client next : Client} {offered : List Packet}
    {taken : Option (Packet × Nat)} {head send tail : List Entry}
    (trace : Trace client next offered taken head send tail) {first second : Entry → Prop}
    (acts : ∀ entry, first entry → ¬ entry.Inbound) (sends : ∀ entry, second entry → entry.Sends)
    (inside : NeverAfter first second send)
    (law : NeverAfter first second client.stream.journal) :
    NeverAfter first second next.stream.journal ↔
      ((∃ entry ∈ client.stream.journal, first entry) → ∀ entry ∈ send, ¬ second entry) := by
  rw [trace.journal, neverAfter_append]
  constructor
  · rintro ⟨_, _, across⟩ ⟨before, member, kind⟩ entry sent
    exact across before member entry (by simp [sent]) kind
  · intro silent
    have quiet : ∀ entry ∈ head, ¬ first entry :=
      fun entry member kind => acts entry kind (trace.inbound entry member)
    have last : ∀ entry ∈ tail, ¬ second entry :=
      fun entry member kind => trace.not_sends (.inr member) (sends entry kind)
    refine ⟨law, ?_, fun before member entry added kind => ?_⟩
    · apply neverAfter_append.mpr
      refine ⟨?_, neverAfter_of_none last, fun _ _ entry member _ => last entry member⟩
      apply neverAfter_append.mpr
      exact ⟨neverAfter_of_no_first quiet, inside, fun entry member _ _ kind =>
        absurd kind (quiet entry member)⟩
    · rcases List.mem_append.mp added with added | added
      · rcases List.mem_append.mp added with added | added
        · exact fun other => trace.not_sends (.inl added) (sends entry other)
        · exact silent ⟨before, member, kind⟩ entry added
      · exact last entry added

theorem Trace.neverAfter_send {client next : Client} {offered : List Packet}
    {taken : Option (Packet × Nat)} {head send tail : List Entry}
    (trace : Trace client next offered taken head send tail) {first second : Entry → Prop}
    (ends : ∀ entry, first entry → entry.Ending) : NeverAfter first second send :=
  neverAfter_of_no_first fun entry member kind =>
    trace.not_ends (List.mem_append_right _ member) (ends entry kind)

theorem Entry.Ending.not_inbound {entry : Entry} (ending : entry.Ending) : ¬ entry.Inbound := by
  intro inbound
  cases entry <;> first | exact ending.elim | exact inbound.elim

theorem Trace.queues_iff {client next : Client} {op : Op} {taken : Option (Packet × Nat)}
    {head send tail : List Entry}
    (trace : Trace client next (op.offered client) taken head send tail) :
    (∀ entry ∈ send, ¬ entry.Queues) ↔ ¬ client.Disturbs op := by
  rw [← queuedOf_eq_nil_iff]
  constructor
  · intro none disturbs
    obtain ⟨pkt, more, offered, room⟩ := offered_of_disturbs disturbs
    exact trace.sent.first pkt more offered room none
  · intro calm
    cases offered : op.offered client with
    | nil => exact List.prefix_nil.mp (offered ▸ trace.sent.queued)
    | cons pkt more =>
      by_cases room : client.sendQueue.length + (packetBytes pkt).length ≤ sendQueueCap
      · exact absurd (disturbs_of_offered offered room) calm
      · rw [trace.sent.full pkt more offered (Nat.lt_of_not_le room)]
        rfl

theorem Entry.Queues.sends {entry : Entry} (kind : entry.Queues) : entry.Sends := by
  cases entry <;> first | exact kind.elim | trivial

theorem Trace.sends_iff {client next : Client} {op : Op} {taken : Option (Packet × Nat)}
    {head send tail : List Entry}
    (trace : Trace client next (op.offered client) taken head send tail)
    (gone : client.disconnected = true) :
    (∀ entry ∈ send, ¬ entry.Sends) ↔ ¬ client.Disturbs op := by
  constructor
  · intro silent
    apply trace.queues_iff.mp
    exact fun entry member queues => silent entry member queues.sends
  · intro calm
    cases offered : op.offered client with
    | nil => simp [trace.idle gone offered]
    | cons pkt more =>
      have full : ¬ client.sendQueue.length + (packetBytes pkt).length ≤ sendQueueCap :=
        fun room => calm (disturbs_of_offered offered room)
      rw [trace.sent.full pkt more offered (Nat.lt_of_not_le full)]
      simp [Entry.Sends]

/-! ## A terminal packet is the last one -/

/-- Nothing is queued once the client is closing. -/
def Client.TerminalLast (client : Client) : Prop :=
  NeverAfter Entry.Closes Entry.Queues client.stream.journal

instance (client : Client) : Decidable client.TerminalLast :=
  inferInstanceAs (Decidable (NeverAfter _ _ _))

theorem Client.TerminalLast.step_iff {client : Client} (last : client.TerminalLast)
    (marked : client.Marked) (op : Op) :
    (client.step op).TerminalLast ↔
      (client.closeAfterDrain.isSome = true → ¬ client.Disturbs op) := by
  obtain ⟨head, send, tail, trace⟩ := client.step_trace op
  have sends (entry : Entry) (kind : entry.Queues) : entry.Sends := kind.sends
  have ends (entry : Entry) (kind : entry.Closes) : entry.Ending := kind.ends
  have acts (entry : Entry) (kind : entry.Closes) : ¬ entry.Inbound := kind.ends.not_inbound
  rw [Client.TerminalLast, trace.neverAfter_iff acts sends (trace.neverAfter_send ends) last,
    ← marked.closing, trace.queues_iff]

theorem Life.terminal_last {output : List UInt8} {childExit : Option Int32} {client : Client}
    (life : Life (fun client op => client.closeAfterDrain.isSome = true → ¬ client.Disturbs op)
      output childExit client) : client.TerminalLast := by
  induction life with
  | start => exact neverAfter_nil
  | reap status _ ih => exact ih
  | step op life _ calm ih => exact (ih.step_iff life.marked op).mpr calm

/-- In a run that never disturbs a closing client, the packet that started the
closing is the last one it is sent. It takes a step that disturbs one to break
this. -/
theorem terminal_packet_last (server : Server)
    (reached : Reached
      (fun client op => client.closeAfterDrain.isSome = true → ¬ client.Disturbs op) server)
    (client : Client) (member : client ∈ server.everyone) :
    client.TerminalLast ∧
    ∀ op, (client.step op).TerminalLast ↔
      (client.closeAfterDrain.isSome = true → ¬ client.Disturbs op) := by
  obtain ⟨_, _, _, _, life⟩ := reached.sound.life member
  exact ⟨life.terminal_last, life.terminal_last.step_iff life.marked⟩

def Tick.idle : Tick := ⟨false, [], [], none, fun _ => 0, fun _ => 0, 0⟩

def attacher : Accept := ⟨[.ok ⟨packetBytes ⟨msgAttach, [0, 0, 0, 0]⟩, by decide⟩], [], 16, true⟩

/-- The child exits with status 0, and output of its own children follows. -/
def lateOutput : List Tick :=
  [{ Tick.idle with accepts := [attacher] }, { Tick.idle with waitpid := some 0 },
    { Tick.idle with ptyReads := [.ok ⟨[65], by decide⟩] }]

theorem terminal_packet_last_quiet :
    ∃ client ∈ (serverLoop (lateOutput.take 2) (Server.start 1 true [])).server.everyone,
      client.closeAfterDrain.isSome = true ∧ client.TerminalLast := by
  have closing : ∃ client ∈ (serverLoop (lateOutput.take 2)
      (Server.start 1 true [])).server.everyone, client.closeAfterDrain.isSome = true := by
    decide
  obtain ⟨client, member, closing⟩ := closing
  have last := terminal_packet_last _ ⟨1, true, [], lateOutput.take 2, by decide, rfl⟩ client member
  exact ⟨client, member, closing, last.1⟩

theorem terminal_packet_followed :
    ¬ ∀ server, Reached (fun _ _ => True) server →
      ∀ client ∈ server.everyone, client.TerminalLast := by
  intro law
  have broken : ∃ client ∈ (serverLoop lateOutput (Server.start 1 true [])).server.everyone,
      ¬ client.TerminalLast := by
    decide
  obtain ⟨client, member, violated⟩ := broken
  apply violated
  exact law _ ⟨1, true, [], lateOutput, runMeets_of_forall (fun _ _ => trivial) _ _, rfl⟩ client member

end Lich
