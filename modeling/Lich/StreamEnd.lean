import Lich.Detach

/-! The end of a client's stream.

Data and the end can be seen in one call of `readClientPackets`. At the end of
file the packet loop still runs; after a hard error it does not, and what the
same call has read is lost.
-/

set_option autoImplicit false

namespace Lich

open Foundation

/-- The packets that are complete in these bytes and stand before any that leaves
and any over-long header. -/
def beforeDetach (input : List UInt8) : List Packet := untilDetach (packetDecoder.drain input).1

/-- The bytes that one call of `readClientPackets` reads. -/
def readBytes : List (ReadAnswer 8192) → List UInt8
  | .ok slice :: later => if slice.bytes = [] then [] else slice.bytes ++ readBytes later
  | .err .interrupted :: later => readBytes later
  | _ => []

def readsFail : List (ReadAnswer 8192) → Bool
  | [] => false
  | .ok slice :: later => if slice.bytes = [] then false else readsFail later
  | .err .wouldBlock :: _ => false
  | .err .interrupted :: later => readsFail later
  | .err _ :: _ => true

/-- Reads that end in a hard error have not completed a packet before. -/
def Client.EndsClean (client : Client) : Op → Prop
  | .receive => readsFail client.stream.reads = true →
      beforeDetach (client.input ++ readBytes client.stream.reads) = beforeDetach client.input
  | _ => True

instance (client : Client) : (op : Op) → Decidable (client.EndsClean op)
  | .receive => inferInstanceAs (Decidable (_ → _))
  | .broadcast _ | .packet _ _ _ | .endOfStream | .notice _ _ | .flush | .expire _ => .isTrue trivial

/-- Every packet that has come in whole, up to a first that leaves or an over-long
header, has been processed, each once and in order. -/
def Client.Served (client : Client) : Prop := beforeDetach client.input <+: client.handled

/-! ## What the packet loop has taken of the input -/

/-- The packets processed are those at the front of the input; behind an over-long
header, there may be more. -/
inductive Client.Decoded (client : Client) : Prop where
  | inStep (parsed : client.Parsed)
  | behind (front stray : List Packet) (header after : List UInt8)
      (fits : ∀ pkt ∈ front, pkt.Fits) (long : packetDecoder.next header = .corrupt)
      (handled : client.handled = front ++ stray)
      (parsed : front.flatMap packetBytes ++ (header ++ after) = client.input)

variable {ok : Client → Op → Prop} {output : List UInt8} {childExit : Option Int32}
  {client : Client}

theorem Client.Decoded.step (decoded : client.Decoded)
    (fits : ∀ taken ∈ client.served, taken.1.Fits) (op : Op) : (client.step op).Decoded := by
  have handled := client.step_handled op
  cases decoded with
  | inStep parsed =>
    by_cases corrupt : packetDecoder.next client.buf = .corrupt
    · rcases client.step_cases op with ⟨fresh, serves, buf, input⟩ | ⟨_, _, _, rfl, serves, buf, input⟩
      · apply Client.Decoded.inStep
        rw [Client.Parsed, serves, buf, input, ← List.append_assoc, parsed]
      · -- here the over-long header is dropped
        rw [popPacket_eq, corrupt] at serves
        refine .behind client.handled [] client.buf [] ?_ corrupt ?_ ?_
        · intro pkt member
          obtain ⟨taken, inside, rfl⟩ := List.mem_map.mp member
          exact fits taken inside
        · rw [Client.handled, serves]
          simp [Client.handled]
        · rw [input, ← parsed, Client.handled, List.flatMap_map, List.append_nil]
    · exact .inStep (Client.step_parsed parsed corrupt)
  | behind front stray header after valid long same parsed =>
    obtain ⟨fresh, input⟩ := client.step_input op
    refine .behind front (stray ++ ((op.taken client).map Prod.fst).toList) header (after ++ fresh)
      valid long ?_ ?_
    · rw [handled, same, List.append_assoc]
    · rw [← input, ← parsed]
      simp only [List.append_assoc]

theorem Life.place_decoded (life : Life ok output childExit client) : client.Decoded := by
  induction life with
  | start => exact .inStep rfl
  | reap status _ ih => exact ih
  | step op life _ _ ih => exact ih.step life.served_fits op

theorem Client.Parsed.drain (parsed : client.Parsed)
    (fits : ∀ taken ∈ client.served, taken.1.Fits) (more : List UInt8) :
    (packetDecoder.drain (client.input ++ more)).1 =
      client.handled ++ (packetDecoder.drain (client.buf ++ more)).1 := by
  rw [← parsed, List.append_assoc, drain_served fits]
  rfl

theorem drain_behind {front : List Packet} {header : List UInt8}
    (fits : ∀ pkt ∈ front, pkt.Fits) (long : packetDecoder.next header = .corrupt)
    (after more : List UInt8) :
    (packetDecoder.drain (front.flatMap packetBytes ++ (header ++ after) ++ more)).1 = front := by
  have corrupt : packetDecoder.next (header ++ (after ++ more)) = .corrupt :=
    packetDecoder.corrupt_append _ long
  rw [List.append_assoc, List.append_assoc, Decoder.drain_encode_append fun pkt member =>
    packetBytes_inverts (fits pkt member), packetDecoder.drain_corrupt corrupt]
  exact List.append_nil _

theorem Life.all_served (life : Life ok output childExit client)
    (stuck : ∀ pkt rest, packetDecoder.next client.buf ≠ .whole pkt rest) : client.Served := by
  unfold Client.Served beforeDetach
  cases life.place_decoded with
  | inStep parsed =>
    have found := parsed.drain life.served_fits []
    rw [List.append_nil, List.append_nil, packetDecoder.drain_stuck stuck, List.append_nil] at found
    rw [found]
    exact List.takeWhile_prefix _
  | behind front stray header after fits long handled parsed =>
    have found := drain_behind fits long after []
    rw [List.append_nil, parsed] at found
    rw [found, handled]
    exact (List.takeWhile_prefix _).trans (List.prefix_append _ _)

-- More input that is not processed does no harm exactly when it completes no
-- packet that counts.
theorem Life.served_iff (life : Life ok output childExit client)
    (stuck : ∀ pkt rest, packetDecoder.next client.buf ≠ .whole pkt rest) (fresh : List UInt8) :
    beforeDetach (client.input ++ fresh) <+: client.handled ↔
      beforeDetach (client.input ++ fresh) = beforeDetach client.input := by
  constructor
  · intro front
    unfold beforeDetach at front ⊢
    cases life.place_decoded with
    | inStep parsed =>
      have now := parsed.drain life.served_fits []
      rw [List.append_nil, List.append_nil, packetDecoder.drain_stuck stuck,
        List.append_nil] at now
      rw [parsed.drain life.served_fits fresh] at front ⊢
      rw [now]
      by_cases detached : ∃ pkt ∈ client.handled, ¬ pkt.Stays
      · exact untilDetach_append detached _
      · have stay := Client.stays_of_not_detached detached
        rw [untilDetach, List.takeWhile_append_of_pos fun pkt member =>
          decide_eq_true (stay pkt member)] at front ⊢
        have none : List.takeWhile (fun pkt => decide pkt.Stays)
            (packetDecoder.drain (client.buf ++ fresh)).1 = [] := by
          have short := front.length_le
          rw [List.length_append] at short
          apply List.eq_nil_of_length_eq_zero
          omega
        rw [none, untilDetach_of_stay stay, List.append_nil]
    | behind first stray header after fits long handled parsed =>
      have later := drain_behind fits long after fresh
      have now := drain_behind fits long after []
      rw [parsed] at later now
      rw [List.append_nil] at now
      rw [later, now]
  · intro same
    rw [same]
    exact life.all_served stuck

/-! ## One call of `readClientPackets` -/

theorem readLoop_reads (answers : List (ReadAnswer 8192)) (client : Client) :
    ∃ reads later, (readLoop answers client).2 = client.received reads later ∧
      reads.flatten = readBytes answers ∧
      ((readLoop answers client).1 = .failed ↔ readsFail answers = true) := by
  -- no other ending than the hard error is taken for one
  have other (ending : ReadEnd) (same : ending ≠ .failed) : ending = .failed ↔ false = true := by
    simp [same]
  induction answers generalizing client with
  | nil => exact ⟨[], [], rfl, rfl, other .blocked (by decide)⟩
  | cons answer answers ih =>
    cases answer with
    | ok slice =>
      rw [readLoop, readBytes, readsFail]
      split
      · exact ⟨[], answers, rfl, rfl, other .eof (by decide)⟩
      · obtain ⟨reads, later, after, bytes, ending⟩ := ih (client.received [slice.bytes] answers)
        refine ⟨[slice.bytes] ++ reads, later, after.trans (client.received_received _ _ _ _), ?_,
          ending⟩
        rw [List.singleton_append, List.flatten_cons, bytes]
    | err kind =>
      cases kind with
      | interrupted =>
        obtain ⟨reads, later, after, bytes, ending⟩ := ih (client.received [] answers)
        exact ⟨[] ++ reads, later, after.trans (client.received_received _ _ _ _), bytes, ending⟩
      | wouldBlock => exact ⟨[], answers, rfl, rfl, other .blocked (by decide)⟩
      | _ => exact ⟨[], answers, rfl, rfl, fun _ => rfl, fun _ => rfl⟩

theorem Client.step_receive_input (client : Client) :
    (client.step .receive).input = client.input ++ readBytes client.stream.reads := by
  obtain ⟨reads, later, after, bytes, _⟩ := readLoop_reads client.stream.reads client
  have got : inputOf (reads.map Entry.got) = reads.flatten := by
    simp [inputOf, List.flatMap_map, List.flatMap_id']
  simp only [step, receive]
  rcases answer : readLoop client.stream.reads client with ⟨ending, next⟩
  rw [answer] at after
  subst after
  cases ending <;> simp [Client.input, leave, UnixStream.log, got, bytes]

theorem readOps_stuck {client : Client} (whole : readsFail client.stream.reads = false)
    (history : History) (seen : Nat) (now : Instant) (pkt : Packet) (rest : List UInt8) :
    packetDecoder.next (runSteps Client.step (readOps client history seen now) client).buf ≠
      .whole pkt rest := by
  obtain ⟨_, _, _, _, ending⟩ := readLoop_reads client.stream.reads client
  have state : client.step .receive = client.receive := rfl
  simp only [Client.receive] at state
  unfold readOps
  rcases answer : readLoop client.stream.reads client with ⟨stop, next⟩
  rw [answer] at state ending
  have loop : (runSteps Client.step (List.replicate (next.buf.length + 1)
      (.packet history seen now)) next).buf = leftover next.buf :=
    congrArg Intake.buf (next.packets history seen now (Nat.lt_succ_self _)).1
  cases stop with
  | failed =>
    rw [ending.mp rfl] at whole
    cases whole
  | blocked =>
    simp only [runSteps_cons, state, loop]
    exact leftover_stuck _ _ _
  | eof =>
    have same (client : Client) : (client.step .endOfStream).buf = client.buf := rfl
    simp only [List.cons_append, runSteps_cons, runSteps_append, runSteps_nil, state, same, loop]
    exact leftover_stuck _ _ _

theorem readOps_failed {client : Client} (failed : readsFail client.stream.reads = true)
    (history : History) (seen : Nat) (now : Instant) :
    readOps client history seen now = [.receive] ∧
      (client.step .receive).disconnected = true := by
  obtain ⟨_, _, _, _, ending⟩ := readLoop_reads client.stream.reads client
  have stop := ending.mpr failed
  simp only [Client.step, Client.receive, readOps]
  rcases answer : readLoop client.stream.reads client with ⟨last, next⟩
  rw [answer] at stop
  subst stop
  exact ⟨rfl, rfl⟩

theorem readOps_clean {client : Client} (whole : readsFail client.stream.reads = false)
    (history : History) (seen : Nat) (now : Instant) :
    Along Client.step Client.EndsClean (readOps client history seen now) client := by
  have first : client.EndsClean .receive := by
    intro failed
    rw [whole] at failed
    cases failed
  have packets (rounds : Nat) (client : Client) : Along Client.step Client.EndsClean
      (List.replicate rounds (.packet history seen now)) client := by
    apply along_of_mem
    intro op member _
    rw [List.eq_of_mem_replicate member]
    trivial
  unfold readOps
  split
  · exact ⟨first, trivial⟩
  · exact ⟨first, packets _ _⟩
  · rw [List.cons_append]
    exact ⟨first, along_append.mpr ⟨packets _ _, trivial, trivial⟩⟩

/-! ## One iteration -/

theorem Client.runSteps_gone {ops : List Op} {client : Client} (gone : client.disconnected = true) :
    (runSteps Client.step ops client).disconnected = true := by
  induction ops generalizing client with
  | nil => exact gone
  | cons op ops ih =>
    obtain ⟨_, _, _, trace⟩ := client.step_trace op
    exact ih (trace.disconnected.mpr (.inl gone))

theorem endsClean_of_quiet {ops : List Op} (quiet : ∀ op ∈ ops, op.Quiet) (client : Client) :
    Along Client.step Client.EndsClean ops client := by
  apply along_of_mem
  intro op member _
  have kind := quiet op member
  cases op with
  | receive => exact kind.elim
  | _ => trivial

-- A call that fails is the whole of the reading in its iteration: the packet loop
-- does not run, and the client is removed at the end.
theorem tick_served {tick : Tick} {server : Server} {old : Client}
    (life : Life ok output childExit old)
    (after : ∃ output childExit,
      Life ok output childExit (runSteps Client.step (tickOps tick server old) old))
    (stuck : ∀ pkt rest, packetDecoder.next old.buf ≠ .whole pkt rest) :
    ((runSteps Client.step (tickOps tick server old) old).Served ↔
      Along Client.step Client.EndsClean (tickOps tick server old) old) ∧
    ((runSteps Client.step (tickOps tick server old) old).disconnected = false →
      ∀ pkt rest, packetDecoder.next
        (runSteps Client.step (tickOps tick server old) old).buf ≠ .whole pkt rest) := by
  obtain ⟨before, history, seen, now, behind, ops, start, finish⟩ := tickOps_split tick server old
  have intake := Client.quiet_intake start old
  have reads : (runSteps Client.step before old).stream.reads = old.stream.reads :=
    congrArg Intake.reads intake
  have input : (runSteps Client.step before old).input = old.input := congrArg Intake.input intake
  have handled : (runSteps Client.step before old).handled = old.handled := by
    rw [Client.handled, Client.quiet_served start, Client.handled]
  have last := Client.quiet_intake finish (runSteps Client.step
    (readOps (runSteps Client.step before old) history seen now) (runSteps Client.step before old))
  have kept := Client.quiet_served finish (runSteps Client.step
    (readOps (runSteps Client.step before old) history seen now) (runSteps Client.step before old))
  rw [ops, runSteps_append, runSteps_append] at after ⊢
  rw [along_append, along_append, runSteps_append, and_iff_left (endsClean_of_quiet finish _),
    and_iff_right (endsClean_of_quiet start old)]
  generalize runSteps Client.step before old = client at *
  cases failed : readsFail client.stream.reads with
  | true =>
    obtain ⟨only, gone⟩ := readOps_failed failed history seen now
    rw [only, runSteps_cons, runSteps_nil] at last kept ⊢
    have more : (runSteps Client.step behind (client.step .receive)).input =
        old.input ++ readBytes old.stream.reads := by
      have same : (runSteps Client.step behind (client.step .receive)).input =
          (client.step .receive).input := congrArg Intake.input last
      rw [same, client.step_receive_input, input, reads]
    have still : (runSteps Client.step behind (client.step .receive)).handled = old.handled := by
      have none := client.step_handled .receive
      rw [Client.handled, kept, ← Client.handled, none, handled]
      exact List.append_nil _
    constructor
    · rw [Client.Served, more, still, life.served_iff stuck]
      constructor
      · intro same
        refine ⟨fun _ => ?_, trivial⟩
        rw [reads, input]
        exact same
      · intro clean
        have same := clean.1 failed
        rwa [reads, input] at same
    · intro connected
      rw [Client.runSteps_gone gone] at connected
      cases connected
  | false =>
    have empty := readOps_stuck failed history seen now
    have buf : (runSteps Client.step behind (runSteps Client.step
        (readOps client history seen now) client)).buf =
          (runSteps Client.step (readOps client history seen now) client).buf :=
      congrArg Intake.buf last
    rw [← buf] at empty
    obtain ⟨_, _, life⟩ := after
    refine ⟨⟨fun _ => readOps_clean failed history seen now, fun _ => ?_⟩, fun _ => empty⟩
    exact life.all_served empty

/-! ## Runs -/

structure Server.Intact (server : Server) : Prop where
  sound : server.Sound fun _ _ => True
  stuck : ∀ client ∈ server.clients, ∀ pkt rest, packetDecoder.next client.buf ≠ .whole pkt rest
  served : ∀ client ∈ server.everyone, client.Served

section Iteration

variable {server : Server} (intact : server.Intact) (tick : Tick)

include intact

theorem opened_stuck {client : Client} (member : client ∈ (opened tick server).clients) :
    ∀ pkt rest, packetDecoder.next client.buf ≠ .whole pkt rest := by
  rcases mem_opened member with known | new
  · exact intact.stuck client known
  · obtain ⟨_, _, rfl⟩ := mem_acceptedClients new
    exact packetDecoder.next_nil_ne_whole

theorem opened_served {old : Client} (member : old ∈ (opened tick server).clients) :
    ((runSteps Client.step (tickOps tick server old) old).Served ↔
      Along Client.step Client.EndsClean (tickOps tick server old) old) ∧
    ((runSteps Client.step (tickOps tick server old) old).disconnected = false →
      ∀ pkt rest, packetDecoder.next
        (runSteps Client.step (tickOps tick server old) old).buf ≠ .whole pkt rest) := by
  have life := opened_life intact.sound tick member
  apply tick_served life _ (opened_stuck intact tick member)
  exact ⟨_, _, life.tick (opened_history intact.sound tick) (along_of_forall (fun _ _ => trivial) _ _)⟩

theorem iterate_intact (meets : ∀ client ∈ (opened tick server).clients,
      Along Client.step Client.EndsClean (tickOps tick server client) client) :
    (iterate tick server).server.Intact := by
  have sound := iterate_sound intact.sound tick fun _ _ => along_of_forall (fun _ _ => trivial) _ _
  refine ⟨sound, fun client member => ?_, fun client member => ?_⟩
  · have connected := (sound.clients client member).2
    rw [iterate_server] at member
    have inside := (List.mem_filter.mp member).1
    rw [settled_clients] at inside
    obtain ⟨old, listed, rfl⟩ := List.mem_map.mp inside
    exact (opened_served intact tick listed).2 connected
  · rcases mem_iterate_everyone.mp member with dropped | ⟨old, listed, rfl⟩
    · exact intact.served client (List.mem_append_right _ dropped)
    · exact (opened_served intact tick listed).1.mpr (meets old listed)

end Iteration

theorem serverLoop_intact {ticks : List Tick} {server : Server} (intact : server.Intact)
    (meets : RunMeets Client.EndsClean ticks server) : (serverLoop ticks server).server.Intact :=
  meets.invariant (fun _ tick intact each => iterate_intact intact tick each) intact

theorem Reached.intact {server : Server} (reached : Reached Client.EndsClean server) :
    server.Intact := by
  obtain ⟨pid, readPty, writes, ticks, meets, rfl⟩ := reached
  apply serverLoop_intact _ meets
  exact ⟨Server.start_sound pid readPty writes, nofun, nofun⟩

end Lich
