import Lich.Life

/-! What a client has sent and what has become of it.

The bytes received from a client are the packets served and the receive buffer,
until an over-long header empties the buffer.
-/

set_option autoImplicit false

namespace Lich

open Foundation

def Op.Quiet : Op → Prop
  | .receive | .packet _ _ _ => False
  | _ => True

/-- What has been received and not served, all that has been received, what is
still to be read, and whether a read has failed. -/
structure Intake where
  buf : List UInt8
  input : List UInt8
  reads : List (ReadAnswer 8192)
  broken : Bool

namespace Client

def intake (client : Client) : Intake where
  buf := client.buf
  input := client.input
  reads := client.stream.reads
  broken := client.stream.journal.any (· == .left .readError)

theorem sent_intake {client : Client} {entries : List Entry} {later : List WriteAnswer}
    {rest : List UInt8} (outbound : ∀ entry ∈ entries, entry.Outbound) (failed : Bool) :
    ((client.sent entries later rest).leaveIf failed).intake = client.intake := by
  have none : inputOf entries = [] := by
    rw [inputOf, List.flatMap_eq_nil_iff]
    exact fun entry member => (outbound entry member).silent.2
  have sound : entries.any (· == .left .readError) = false := by
    apply List.any_eq_false.mpr
    intro entry member same
    rw [beq_iff_eq.mp same] at member
    exact outbound _ member
  cases failed <;> simp [intake, input, leaveIf, leave, UnixStream.log, none, sound]

@[simp] theorem leave_intake (client : Client) {why : Departure} (other : why ≠ .readError) :
    (client.leave why).intake = client.intake := by
  simp [intake, input, leave, UnixStream.log, other]

@[simp] theorem close_intake (client : Client) (cause : Terminal) (since : Instant) :
    (client.close cause since).intake = client.intake := by
  simp [intake, input, close, UnixStream.log]

theorem log_served_intake (client : Client) (pkt : Packet) (seen : Nat) :
    (client.log (.served pkt seen)).intake = client.intake := by
  simp [intake, input, log, UnixStream.log]

theorem sendHistory_intake (client : Client) (history : History) (sendEnd : Bool) :
    (sendHistory client history sendEnd).intake = client.intake := by
  obtain ⟨_, _, _, _, after, sent, _⟩ := sendHistory_sent client history sendEnd
  rw [after, sent_intake sent.outbound]

theorem serve_intake (client : Client) (history : History) (seen : Nat) (now : Instant)
    (pkt : Packet) : (client.serve history seen now pkt).intake = client.intake := by
  have logged := client.log_served_intake pkt seen
  unfold serve
  dsimp only
  split
  · exact (sendHistory_intake _ _ _).trans logged
  · split
    · split
      · rw [close_intake, sendHistory_intake, logged]
      · rw [sendHistory_intake, logged]
    · split
      · rw [leave_intake _ (by decide), logged]
      · exact logged

/-- Only the read loop adds to the receive buffer, and only the packet loop takes
from it. -/
theorem step_intake (op : Op) (client : Client) :
    (client.step op).intake =
      match op with
      | .receive =>
        match readLoop client.stream.reads client with
        | (.failed, next) => { next.intake with broken := true }
        | (_, next) => next.intake
      | .packet _ _ _ => { client.intake with buf := (popPacket client.buf).2 }
      | _ => client.intake := by
  cases op with
  | broadcast bytes =>
    simp only [step]
    split
    · obtain ⟨_, _, _, _, after, sent, _⟩ := broadcastTo_sent bytes client
      rw [after, sent_intake sent.outbound]
    · rfl
  | receive =>
    simp only [step, receive]
    rcases readLoop client.stream.reads client with ⟨ending, next⟩
    cases ending with
    | failed => simp [intake, input, leave, UnixStream.log]
    | _ => rfl
  | packet history seen now =>
    simp only [step, packet]
    split
    · next found => simp [intake, input, found]
    · next found =>
      rw [serve_intake]
      simp [intake, input, found]
  | endOfStream => exact client.leave_intake (by decide)
  | notice status now =>
    simp only [step, noticeExit]
    split
    · rfl
    · obtain ⟨_, _, _, after, sent, _⟩ := sendPacketNonblocking_sent client (exitPacket status)
      rw [close_intake, after]
      exact sent_intake sent.outbound false
  | flush =>
    rw [step]
    rcases flushClient_cases client with same | ⟨_, send, later, rest, sent, after⟩
    · rw [same]
    · have kept := @sent_intake client send later rest sent.outbound false
      rcases after with after | after
      · rw [after]
        exact kept
      · rw [after]
        exact (leave_intake _ (by decide)).trans kept
  | expire now =>
    simp only [step, expireClient]
    repeat' split
    all_goals simp

theorem quiet_intake {ops : List Op} (quiet : ∀ op ∈ ops, op.Quiet) (client : Client) :
    (runSteps step ops client).intake = client.intake := by
  induction ops generalizing client with
  | nil => rfl
  | cons op ops ih =>
    have first : (client.step op).intake = client.intake := by
      have none := quiet op (by simp)
      have intake := client.step_intake op
      cases op <;> first | exact none.elim | exact intake
    rw [runSteps_cons, ih (fun other member => quiet other (by simp [member])), first]

theorem step_receive (client : Client) :
    ∃ fresh, (client.step .receive).buf = client.buf ++ fresh ∧
      (client.step .receive).input = client.input ++ fresh := by
  obtain ⟨reads, later, after⟩ := client.receive_cases
  have input : inputOf (reads.map Entry.got) = reads.flatten := by
    simp [inputOf, List.flatMap_map, List.flatMap_id']
  refine ⟨reads.flatten, ?_⟩
  rw [step]
  rcases after with after | after
  · simp [after, Client.input, received, input]
  · simp [after, Client.input, received, leave, UnixStream.log, input]

end Client

theorem Client.step_cases (op : Op) (client : Client) :
    (∃ fresh, (client.step op).served = client.served ∧
      (client.step op).buf = client.buf ++ fresh ∧
      (client.step op).input = client.input ++ fresh) ∨
    (∃ history seen now, op = .packet history seen now ∧
      (client.step op).served =
        client.served ++ ((popPacket client.buf).1.map fun pkt => (pkt, seen)).toList ∧
      (client.step op).buf = (popPacket client.buf).2 ∧
      (client.step op).input = client.input) := by
  obtain ⟨head, send, tail, trace⟩ := client.step_trace op
  have serves := trace.serves
  have intake := client.step_intake op
  cases op with
  | receive =>
    obtain ⟨fresh, buf, input⟩ := client.step_receive
    exact .inl ⟨fresh, by simpa [Op.taken] using serves, buf, input⟩
  | packet history seen now =>
    exact .inr ⟨history, seen, now, rfl, serves, congrArg Intake.buf intake,
      congrArg Intake.input intake⟩
  | _ =>
    have buf : (client.step _).buf = client.buf := congrArg Intake.buf intake
    have input : (client.step _).input = client.input := congrArg Intake.input intake
    exact .inl ⟨[], by simpa [Op.taken] using serves, by rw [buf, List.append_nil],
      by rw [input, List.append_nil]⟩

theorem Client.quiet_served {ops : List Op} (quiet : ∀ op ∈ ops, op.Quiet) (client : Client) :
    (runSteps Client.step ops client).served = client.served := by
  induction ops generalizing client with
  | nil => rfl
  | cons op ops ih =>
    have first : (client.step op).served = client.served := by
      rcases client.step_cases op with ⟨_, same, _⟩ | ⟨_, _, _, rfl, _⟩
      · exact same
      · exact False.elim (quiet _ List.mem_cons_self)
    rw [runSteps_cons, ih (fun other member => quiet other (by simp [member])), first]

theorem Client.step_input (op : Op) (client : Client) : client.input <+: (client.step op).input := by
  rcases client.step_cases op with ⟨fresh, _, _, input⟩ | ⟨_, _, _, _, _, _, input⟩
  · exact ⟨fresh, input.symm⟩
  · rw [input]

/-- Every byte received stands in a packet served or in the receive buffer. -/
def Client.Parsed (client : Client) : Prop :=
  (client.served.flatMap fun taken => packetBytes taken.1) ++ client.buf = client.input

theorem Client.step_parsed {op : Op} {client : Client} (parsed : client.Parsed)
    (sound : packetDecoder.next client.buf ≠ .corrupt) : (client.step op).Parsed := by
  rcases client.step_cases op with ⟨fresh, serves, buf, input⟩ | ⟨_, _, _, _, serves, buf, input⟩
  · rw [Client.Parsed, serves, buf, input, ← List.append_assoc, parsed]
  · rw [Client.Parsed, serves, buf, input, ← parsed, popPacket_eq]
    cases found : packetDecoder.next client.buf with
    | whole pkt rest =>
      simp only [Option.map_some, Option.toList_some, List.flatMap_append, List.flatMap_cons,
        List.flatMap_nil, List.append_nil, List.append_assoc, packetBytes_of_whole found]
    | short => simp
    | corrupt => exact absurd found sound

end Lich
