import Lich.AttachProgram
import Lich.Link
import Lich.ExitStatus
import Lich.Keyboard
import Lich.Room

/-! The command at one end, and an attached client's terminal at the other.

Between them are the pty, the server with its other clients, the socket and the
client program, each at a point of its own. What the command wrote is printed,
what is typed and the window's size get to the pty, and the exit status is told.
-/

set_option autoImplicit false

namespace Lich

open Foundation

/-- At the other end of the client's socket is a program that attaches. -/
def Client.AttachedBy (pid : UInt64) (opts : LoopOpts) (size : Nat → UInt16 × UInt16)
    (events : List AttachEvent) (client : Client) : Prop :=
  Link pid client (attachedAfter opts size events).client.sent (receivedAfter opts size events)

def Packet.Follows (pkt : Packet) : Prop :=
  pkt.typ ∈ [msgContent, msgResize, msgDetach, msgExit]

theorem attachRequest_request (opts : LoopOpts) :
    (attachRequest opts).request? = some .follow := rfl

theorem Packet.Follows.request {pkt : Packet} (follows : pkt.Follows) : pkt.request? = none := by
  simp only [Packet.Follows, List.mem_cons, List.not_mem_nil, or_false] at follows
  unfold Packet.request?
  rcases follows with typ | typ | typ | typ <;> rw [typ] <;> rfl

theorem requestsOf_follows {served : List (Packet × Nat)}
    (follows : ∀ taken ∈ served, taken.1.Follows) : requestsOf served = [] := by
  apply List.filterMap_eq_nil_iff.mpr
  intro taken member
  rw [(follows taken member).request, Option.map_none]

section Ends

variable {pid : UInt64} {opts : LoopOpts} {size : Nat → UInt16 × UInt16}
  {events : List AttachEvent} {client : Client} {output : List UInt8} {childExit : Option Int32}
  {ok : Client → Op → Prop}

theorem Client.AttachedBy.received_fits (program : client.AttachedBy pid opts size events)
    (life : Life ok output childExit client) : ∀ pkt ∈ receivedAfter opts size events, pkt.Fits :=
  fun pkt member => life.fits pkt ((program.received_prefix life).subset member)

theorem Client.AttachedBy.handled (program : client.AttachedBy pid opts size events)
    (life : Life ok output childExit client) :
    client.handled <+: (attachedAfter opts size events).client.sent :=
  program.handled_prefix life ((attached_accounts opts size events).fits (program.received_fits life))

theorem Client.AttachedBy.served (program : client.AttachedBy pid opts size events)
    (life : Life ok output childExit client) :
    client.served = [] ∨ ∃ seen rest, client.served = (attachRequest opts, seen) :: rest ∧
      ∀ taken ∈ rest, taken.1.Follows := by
  obtain ⟨later, sent, follows⟩ := (attached_accounts opts size events).asks
  have front := program.handled life
  rw [sent, Client.handled] at front
  cases served : client.served with
  | nil => exact .inl rfl
  | cons first rest =>
    rw [served, List.map_cons, List.cons_prefix_cons] at front
    obtain ⟨same, front⟩ := front
    refine .inr ⟨first.2, rest, by rw [← same], fun taken member => ?_⟩
    exact follows _ (front.subset (List.mem_map_of_mem member))

end Ends

/-! ## What is printed -/

section Printed

variable {pid : UInt64} {opts : LoopOpts} {size : Nat → UInt16 × UInt16}
  {events : List AttachEvent} {client : Client} {output : List UInt8} {childExit : Option Int32}
  {ok : Client → Op → Prop}

theorem toPrint_front (opts : LoopOpts) (received : List Packet) :
    toPrint opts received <+: contentOf received := by
  unfold toPrint
  split
  · exact List.nil_prefix
  · exact List.prefix_rfl

theorem servedAt_attached {seen : Nat} {rest : List (Packet × Nat)}
    (served : client.served = (attachRequest opts, seen) :: rest)
    (follows : ∀ taken ∈ rest, taken.1.Follows) : client.servedAt msgAttach = [seen] := by
  have others : rest.filterMap (fun taken =>
      if taken.1.typ = msgAttach then some taken.2 else none) = [] := by
    apply List.filterMap_eq_nil_iff.mpr
    intro taken member
    rw [if_neg]
    intro attach
    have request := (follows taken member).request
    rw [Packet.request?, if_pos attach] at request
    cases request
  rw [Client.servedAt, served, List.filterMap_cons, others]
  rfl

theorem Client.AttachedBy.content (program : client.AttachedBy pid opts size events)
    (life : Life ok output childExit client) (whole : client.Whole) :
    (client.served = [] ∧ contentOf client.queued = []) ∨
      ∃ seen ≤ output.length, client.servedAt msgAttach = [seen] ∧
        contentOf client.queued = replayThenLive output seen := by
  obtain ⟨_, inside, shown⟩ := life.shown
  have content := shown whole
  rcases program.served life with none | ⟨seen, rest, served, follows⟩
  · rw [none] at content
    exact .inl ⟨none, content⟩
  · have asked : requestsOf client.served = [(.follow, seen)] := by
      rw [served, ← List.singleton_append, requestsOf_append, requestsOf_follows follows,
        requestsOf_one, attachRequest_request]
      rfl
    rw [asked] at inside content
    refine .inr ⟨seen, inside _ (List.mem_singleton_self _), servedAt_attached served follows, ?_⟩
    rw [content, shownOf_follow]
    rfl

end Printed

theorem replayThenLive_front {front output : List UInt8} (part : front <+: output) {seen : Nat}
    (inside : seen ≤ front.length) : replayThenLive front seen <+: replayThenLive output seen := by
  obtain ⟨more, rfl⟩ := part
  rw [replayThenLive_append inside]
  exact List.prefix_append _ _

-- Four facts meet here: the server reads the output in order, it shows each client what a
-- follower is shown, the socket keeps the order, and the program prints what it receives.
theorem prints_the_output (pid : UInt64) (readPty : Bool) (writes : List WriteAnswer)
    (turns : List Turn) (opts : LoopOpts) (size : Nat → UInt16 × UInt16)
    (events : List AttachEvent) (client : Client) :
    let session := runSteps Session.turn turns (Session.start pid readPty writes)
    let program := attachedAfter opts size events
    client ∈ session.server.everyone → client.Whole → client.AttachedBy pid opts size events →
    ∃ seen ≤ session.child.taken,
      program.client.printed <+: replayThenLive session.child.output seen ∧
      (client.served ≠ [] → client.servedAt msgAttach = [seen] ∧
        (client ∈ session.server.clients → opts.passthrough = false →
          program.point.status? = none → receivedAfter opts size events = client.queued →
          program.client.printed =
            replayThenLive (session.child.output.take session.child.taken) seen)) := by
  intro session program member whole linked
  have sound : session.Sound True := Session.run_sound pid readPty writes fun _ _ _ => trivial
  have accounts := attached_accounts opts size events
  obtain ⟨output, childExit, front, current, life⟩ := sound.server.life_current member
  have received : contentOf (receivedAfter opts size events) <+: contentOf client.queued :=
    contentOf_prefix (linked.received_prefix life)
  have printed : program.client.printed <+: contentOf client.queued :=
    (accounts.printed.trans (toPrint_front opts _)).trans received
  rcases linked.content life whole with ⟨none, nothing⟩ | ⟨seen, inside, asked, content⟩
  · refine ⟨0, Nat.zero_le _, ?_, fun nonempty => absurd none nonempty⟩
    rw [nothing] at printed
    rw [List.prefix_nil.mp printed]
    exact List.nil_prefix
  · rw [sound.output] at front
    have taken : seen ≤ session.child.taken := by
      have length := front.length_le
      rw [List.length_take] at length
      omega
    refine ⟨seen, taken, ?_, fun _ => ⟨asked, fun kept shown running all => ?_⟩⟩
    · rw [content] at printed
      exact printed.trans (replayThenLive_front (front.trans (List.take_prefix _ _)) inside)
    · have whole : program.client.printed = toPrint opts client.queued := by
        rw [← all]
        exact accounts.complete running
      rw [whole, toPrint, shown, if_neg (by decide), content, current kept, sound.output]

/-! ### A command that says something, and a key that is typed -/

def terminalOpts : LoopOpts := ⟨0, false, 28⟩

def terminalSize (_ : Nat) : UInt16 × UInt16 := (24, 80)

def resizePacket : Packet := ⟨msgResize, u16ToNeBytes 24 ++ u16ToNeBytes 80⟩

def keyPacket : Packet := ⟨msgContent, [97]⟩

def terminalAccept : Accept where
  reads :=
    [.ok ⟨packetBytes (attachRequest terminalOpts) ++ packetBytes resizePacket, by decide⟩,
      .err .wouldBlock, .ok ⟨packetBytes keyPacket, by decide⟩]
  writes := [.ok 10, .ok 12]
  pidWritten := 16
  nonblocking := true

def terminalTurns : List Turn :=
  [{ Turn.quiet with accepts := [terminalAccept] },
    { Turn.quiet with moves := [⟨[.write [104, 105]], .data 1⟩] },
    { Turn.quiet with moves := [⟨[.exit 0], .data 0⟩] }]

def goOn : AttachEvent := .step ⟨.interrupted false, 24, 80, none, none, none, none⟩

def awakens (sock : Option (Except IoError Packet)) (stdin : Option (ReadAnswer 8192)) :
    AttachEvent :=
  .step ⟨.ready sock stdin, 24, 80, none, none, none, none⟩

def terminalEvents : List AttachEvent :=
  [goOn, goOn, goOn, goOn, goOn, awakens none (some (.ok ⟨[97], by decide⟩)), goOn, goOn, goOn,
    awakens (some (.ok ⟨msgContent, [104, 105]⟩)) none, goOn, goOn]

theorem terminal_client :
    ∃ client ∈ (runSteps Session.turn (terminalTurns.take 2)
        (Session.start 1 true [.ok 1])).server.clients,
      client.AttachedBy 1 terminalOpts terminalSize terminalEvents ∧
        client.disconnected = false ∧ client.served ≠ [] ∧
        receivedAfter terminalOpts terminalSize terminalEvents = client.queued ∧
        client.Took ((attachedAfter terminalOpts terminalSize terminalEvents).client.sent.flatMap
          packetBytes) := by
  have found : ∃ client ∈ (runSteps Session.turn (terminalTurns.take 2)
        (Session.start 1 true [.ok 1])).server.clients,
      (client.stream.greeting = packetBytes (pidPacket 1) ∧
        client.wire = packetBytes ⟨msgContent, [104, 105]⟩) ∧
        client.disconnected = false ∧ client.served ≠ [] ∧
        client.queued = [⟨msgContent, [104, 105]⟩] ∧
        client.input = [attachRequest terminalOpts, resizePacket, keyPacket].flatMap packetBytes ∧
        Entry.left .readError ∉ client.stream.journal := by
    decide
  have sent : (attachedAfter terminalOpts terminalSize terminalEvents).client.sent =
      [attachRequest terminalOpts, resizePacket, keyPacket] := by
    decide
  have received : receivedAfter terminalOpts terminalSize terminalEvents =
      [⟨msgContent, [104, 105]⟩] := by
    decide
  obtain ⟨client, member, ⟨greeted, wire⟩, connected, served, queued, input, fine⟩ := found
  refine ⟨client, member, ⟨greeted, ⟨⟨0, []⟩, Nat.zero_le _, ?_, ?_⟩, ?_⟩, connected, served, ?_, ?_⟩
  · rw [sent, input]
    decide
  · rw [sent, input]
    decide
  · refine ⟨_, pidPacket 1, [], List.prefix_rfl, ?_⟩
    rw [received, greeted, wire]
    rfl
  · rw [received, queued]
  · rw [sent]
    exact ⟨input, fine⟩

theorem prints_the_output_hello :
    (attachedAfter terminalOpts terminalSize terminalEvents).client.printed = [104, 105] := by
  obtain ⟨client, member, linked, connected, served, received, _⟩ := terminal_client
  obtain ⟨seen, inside, _, rest⟩ := prints_the_output 1 true [.ok 1] (terminalTurns.take 2)
    terminalOpts terminalSize terminalEvents client (List.mem_append_left _ member)
    (.inl connected) linked
  have wrote : (runSteps Session.turn (terminalTurns.take 2)
      (Session.start 1 true [.ok 1])).child = ⟨[104, 105], [], 2, none⟩ := rfl
  have shown := (rest served).2 member rfl (by decide) received
  rw [wrote] at inside shown
  have places : ∀ seen ≤ 2, replayThenLive [104, 105] seen = [104, 105] := by decide
  exact shown.trans (places seen inside)

/-! ## The exit status -/

/-- What an attached program says of the exit is what became of the command, unless the
server was asked to shut down. -/
theorem tells_the_exit (pid : UInt64) (readPty : Bool) (writes : List WriteAnswer)
    (turns : List Turn) (opts : LoopOpts) (size : Nat → UInt16 × UInt16)
    (events : List AttachEvent) (client : Client) (code : Int32) :
    let session := runSteps Session.turn turns (Session.start pid readPty writes)
    client ∈ session.server.everyone → client.AttachedBy pid opts size events →
    (attachedAfter opts size events).point.status? = some (.ok (.exited code)) →
      session.child.status.map exitStatus = some code ∨
        (∃ turn ∈ turns, turn.shutdown = true) ∧ code = 128 + sigterm := by
  intro session member linked returned
  have sound : session.Sound (∃ turn ∈ turns, turn.shutdown = true) :=
    Session.run_sound pid readPty writes fun turn member asked => ⟨turn, member, asked⟩
  obtain ⟨_, front, pkt, received, typ, found⟩ :=
    (attached_accounts opts size events).exited code returned
  obtain ⟨output, childExit, _, once, life⟩ := sound.server.life member
  have queued : pkt ∈ client.queued := by
    apply (linked.received_prefix life).subset
    rw [received]
    exact List.mem_append_right _ (List.mem_singleton_self _)
  have exit := life.told_once.status pkt queued typ
  rw [found] at exit
  have seen : session.server.childExit = some code := by
    rcases once with none | same
    · rw [none] at exit
      cases exit
    · rw [← same, exit]
  exact sound.exit code seen

def exitEvents : List AttachEvent :=
  terminalEvents ++ [goOn, awakens (some (.ok (exitPacket 0))) none, goOn]

theorem terminal_gone :
    ∃ client ∈ (runSteps Session.turn terminalTurns (Session.start 1 true [.ok 1])).server.everyone,
      client.AttachedBy 1 terminalOpts terminalSize exitEvents := by
  have found : ∃ client ∈ (runSteps Session.turn terminalTurns
        (Session.start 1 true [.ok 1])).server.everyone,
      client.stream.greeting = packetBytes (pidPacket 1) ∧
        client.wire = [⟨msgContent, [104, 105]⟩, exitPacket 0].flatMap packetBytes ∧
        client.input = [attachRequest terminalOpts, resizePacket, keyPacket].flatMap packetBytes := by
    decide
  have sent : (attachedAfter terminalOpts terminalSize exitEvents).client.sent =
      [attachRequest terminalOpts, resizePacket, keyPacket, exitPacket 0] := by
    decide
  have received : receivedAfter terminalOpts terminalSize exitEvents =
      [⟨msgContent, [104, 105]⟩, exitPacket 0] := by
    decide
  obtain ⟨client, member, greeted, wire, input⟩ := found
  refine ⟨client, member, greeted, ⟨⟨0, []⟩, Nat.zero_le _, ?_, ?_⟩, ?_⟩
  · rw [sent, input]
    decide
  · rw [sent, input]
    decide
  · refine ⟨_, pidPacket 1, [], List.prefix_rfl, ?_⟩
    rw [received, greeted, wire]
    rfl

theorem tells_the_exit_zero :
    (runSteps Session.turn terminalTurns (Session.start 1 true [.ok 1])).child.status.map
      exitStatus = some 0 := by
  obtain ⟨client, member, linked⟩ := terminal_gone
  have told := tells_the_exit 1 true [.ok 1] terminalTurns terminalOpts terminalSize exitEvents
    client 0 member linked (by decide)
  exact told.resolve_right fun asked => absurd asked.2 (by decide)

/-! ## What is typed, and the size of the window -/

section Commands

variable {pkts : List Packet}

theorem typedOf_append (first second : List PtyEntry) :
    typedOf (first ++ second) = typedOf first ++ typedOf second := by
  induction first with
  | nil => rfl
  | cons entry first ih =>
    cases entry with
    | input id payload =>
      simp only [typedOf, List.cons_append, handedOf, List.flatMap_cons] at ih ⊢
      rw [ih, List.append_assoc]
    | _ => exact ih

theorem Packet.Follows.command {pkt : Packet} (follows : pkt.Follows) (id : Nat) (flags : UInt32) :
    typedOf (pkt.command id flags) =
        (if flags &&& clientReadonly = 0 then keyedIn [pkt] else []) ∧
      sizesOf (pkt.command id flags) = sizesAsked [pkt] ∧ pkt.setFlags flags = flags := by
  simp only [Packet.Follows, List.mem_cons, List.not_mem_nil, or_false] at follows
  by_cases writable : flags &&& clientReadonly = 0
  · rcases follows with typ | typ | typ | typ
    all_goals
      by_cases long : 4 ≤ pkt.payload.length <;>
      simp [Packet.command, Packet.setFlags, Packet.size?, PtyEntry.size?, typedOf, sizesOf,
        sizesAsked, keyedIn, handedOf, typ, writable, long, msgContent, msgSendKeys, msgResize,
        msgDetach, msgExit, msgAttach]
  · rcases follows with typ | typ | typ | typ
    all_goals
      by_cases long : 4 ≤ pkt.payload.length <;>
      simp [Packet.command, Packet.setFlags, Packet.size?, PtyEntry.size?, typedOf, sizesOf,
        sizesAsked, handedOf, typ, writable, long, msgContent, msgSendKeys, msgResize, msgDetach,
        msgExit, msgAttach]

theorem commands_follows (follows : ∀ pkt ∈ pkts, pkt.Follows) (id : Nat) (flags : UInt32) :
    typedOf (commands id flags pkts) =
        (if flags &&& clientReadonly = 0 then keyedIn pkts else []) ∧
      sizesOf (commands id flags pkts) = sizesAsked pkts := by
  induction pkts with
  | nil =>
    refine ⟨?_, rfl⟩
    split <;> rfl
  | cons pkt pkts ih =>
    obtain ⟨typed, sizes, same⟩ := (follows pkt List.mem_cons_self).command id flags
    obtain ⟨restTyped, restSizes⟩ := ih fun other member => follows other (List.mem_cons_of_mem _ member)
    rw [commands, same]
    refine ⟨?_, ?_⟩
    · rw [typedOf_append, typed, restTyped]
      split
      · exact (keyedIn_append [pkt] pkts).symm
      · rfl
    · rw [sizesOf_append, sizes, restSizes, ← sizesAsked_append, List.singleton_append]

theorem attachRequest_command (opts : LoopOpts) (id : Nat) :
    (attachRequest opts).command id 0 = [] ∧ (attachRequest opts).setFlags 0 = opts.flags := by
  refine ⟨by simp [Packet.command, attachRequest, msgAttach, msgContent, msgSendKeys, msgResize], ?_⟩
  simp [Packet.setFlags, attachRequest]

theorem commands_attached {opts : LoopOpts} {later front : List Packet}
    (part : front <+: attachRequest opts :: later) (follows : ∀ pkt ∈ later, pkt.Follows)
    (id : Nat) :
    typedOf (commands id 0 front) =
        (if opts.flags &&& clientReadonly = 0 then keyedIn front else []) ∧
      sizesOf (commands id 0 front) = sizesAsked front := by
  cases front with
  | nil =>
    refine ⟨?_, rfl⟩
    split <;> rfl
  | cons first front =>
    obtain ⟨rfl, rest⟩ := List.cons_prefix_cons.mp part
    obtain ⟨none, flags⟩ := attachRequest_command opts id
    obtain ⟨typed, sizes⟩ := commands_follows
      (fun pkt member => follows pkt (rest.subset member)) id opts.flags
    rw [commands, none, flags, List.nil_append]
    exact ⟨typed, sizes⟩

end Commands

theorem keyedIn_front {first second : List Packet} (part : first <+: second) :
    keyedIn first <+: keyedIn second := by
  obtain ⟨more, rfl⟩ := part
  rw [keyedIn_append]
  exact List.prefix_append _ _

-- The packets go through the socket in order, the server does to the pty what they say, and
-- MSG_ATTACH, which decides about the others, is the first of them.
theorem hands_on_the_input (server : Server) (reached : Reached (fun _ _ => True) server)
    (pid : UInt64) (opts : LoopOpts) (size : Nat → UInt16 × UInt16) (events : List AttachEvent)
    (client : Client) (member : client ∈ server.everyone)
    (linked : client.AttachedBy pid opts size events) :
    let program := attachedAfter opts size events
    let journal := server.master.journal
    let commands := commandsOf client.stream.id journal
    typedOf commands <+: program.client.taken ∧
    (opts.flags &&& clientReadonly ≠ 0 → typedOf commands = []) ∧
    sizesOf commands <+: measuredAfter opts size events ∧
    (NeverAfter PtyEntry.Fails PtyEntry.Accepts journal →
      acceptedBy client.stream.id journal <+: program.client.taken) ∧
    (client.Took (program.client.sent.flatMap packetBytes) →
      sizesOf commands = measuredAfter opts size events ∧
      (opts.flags &&& clientReadonly = 0 → program.point.status? = none →
        typedOf commands ++ program.client.held = program.client.taken ∧
        ((∀ entry ∈ journal, ¬ entry.Fails) →
          acceptedBy client.stream.id journal ++ program.client.held = program.client.taken))) := by
  intro program journal commands
  have accounts := attached_accounts opts size events
  obtain ⟨output, childExit, _, _, life⟩ := reached.sound.life member
  obtain ⟨later, sent, follows⟩ := accounts.asks
  have front := linked.handled life
  have obeyed : commands = Lich.commands client.stream.id 0 client.handled :=
    (reached.obeyed.clients client member).commands
  rw [sent] at front
  obtain ⟨typed, sizes⟩ := commands_attached front follows client.stream.id
  rw [← obeyed] at typed sizes
  rw [← sent] at front
  have tally : Tally journal := reached.obeyed.recorded.tally
  have handed : typedOf commands <+: program.client.taken := by
    rw [typed]
    split
    · exact (keyedIn_front front).trans accounts.typed
    · exact List.nil_prefix
  refine ⟨handed, fun readonly => typed.trans (if_neg readonly), ?_,
    fun order => (tally.acceptedBy_front _ order).trans handed, fun took => ?_⟩
  · rw [sizes, ← accounts.sizes]
    obtain ⟨more, same⟩ := front
    rw [← same, sizesAsked_append]
    exact List.prefix_append _ _
  · have fits := accounts.fits (linked.received_fits life)
    have valid := fun pkt member => packetBytes_inverts (fits pkt member)
    have all : client.handled = program.client.sent := by
      have stray : NoStrayPacket (program.client.sent.flatMap packetBytes) :=
        fun overlong => absurd overlong (not_overlong fits List.prefix_rfl)
      have served := reached.served member stray took
      rw [Decoder.drain_encode valid] at served
      exact served
    refine ⟨by rw [sizes, all, accounts.sizes], fun writable running => ?_⟩
    have typed : typedOf commands ++ program.client.held = program.client.taken := by
      rw [typed, if_pos writable, all]
      exact accounts.writable writable running
    exact ⟨typed, fun fine => by rw [tally.acceptedBy_whole _ fine, typed]⟩

theorem hands_on_the_input_key :
    let server := (serverLoop [{ Tick.idle with accepts := [terminalAccept] }, Tick.idle]
      (Server.start 1 true [.ok 1])).server
    ∃ client ∈ server.everyone,
      acceptedBy client.stream.id server.master.journal = [97] ∧
        sizesOf (commandsOf client.stream.id server.master.journal) = [(24, 80)] := by
  intro server
  have reached : Reached (fun _ _ => True) server :=
    ⟨1, true, [.ok 1], _, runMeets_of_forall (fun _ _ => trivial) _ _, rfl⟩
  have found : ∃ client ∈ server.clients,
      client.stream.greeting = packetBytes (pidPacket 1) ∧ client.wire = [] ∧
        client.input = [attachRequest terminalOpts, resizePacket, keyPacket].flatMap packetBytes ∧
        Entry.left .readError ∉ client.stream.journal := by
    decide
  have program : (attachedAfter terminalOpts terminalSize (terminalEvents.take 9)).client.sent =
        [attachRequest terminalOpts, resizePacket, keyPacket] ∧
      (attachedAfter terminalOpts terminalSize (terminalEvents.take 9)).client.held = [] ∧
      (attachedAfter terminalOpts terminalSize (terminalEvents.take 9)).client.taken = [97] ∧
      (attachedAfter terminalOpts terminalSize (terminalEvents.take 9)).point.status? = none ∧
      receivedAfter terminalOpts terminalSize (terminalEvents.take 9) = [] ∧
      measuredAfter terminalOpts terminalSize (terminalEvents.take 9) = [(24, 80)] := by
    decide
  obtain ⟨client, member, greeted, wire, input, fine⟩ := found
  obtain ⟨sent, held, taken, running, received, measured⟩ := program
  have linked : client.AttachedBy 1 terminalOpts terminalSize (terminalEvents.take 9) := by
    refine ⟨greeted, ⟨⟨0, []⟩, Nat.zero_le _, ?_, ?_⟩, ?_⟩
    · rw [sent, input]
      decide
    · rw [sent, input]
      decide
    · refine ⟨_, pidPacket 1, [], List.prefix_rfl, ?_⟩
      rw [received, greeted, wire]
      rfl
  obtain ⟨_, _, _, _, all⟩ := hands_on_the_input server reached 1 terminalOpts terminalSize
    (terminalEvents.take 9) client (List.mem_append_left _ member) linked
  rw [sent, held, taken, measured, List.append_nil, List.append_nil] at all
  obtain ⟨sizes, typed⟩ := all ⟨input, fine⟩
  exact ⟨client, List.mem_append_left _ member, (typed (by decide) running).2 (by decide), sizes⟩

end Lich
