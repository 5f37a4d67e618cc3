import Lich.C.Attach
import Lich.C.Client
import Lich.CStream

/-! The C program's server at one end of a socket, and its attached client at the other.

The client asks for the output once, and first. So it prints what was read of the pty
between its connection and that, then the history, and then all that follows.
-/

set_option autoImplicit false

namespace Lich.C

open Foundation Foundation.Chain

/-! ## The program's account -/

def attachRequest (opts : LoopOpts) : Packet := ⟨msgAttach, u32ToNeBytes opts.flags⟩

def toPrint (opts : LoopOpts) (received : List Packet) : List UInt8 :=
  if opts.passthrough then [] else contentOf received

def follows : List UInt32 := [msgContent, msgResize, msgDetach, msgExit]

/-- What has come of what was received and of what was read, where all is written. -/
structure Attaching.Accounts (opts : LoopOpts) (received : List Received)
    (reads : List (List UInt8)) (a : Attaching) : Prop where
  whole : ∀ send ∈ a.sends, send.pkt.Fits ∧ ¬ send.Short
  printed : (∀ pkt ∈ received, pkt.packet.Fits) →
    a.printed = toPrint opts (received.map Received.packet)
  opening : a.point = .attach → a.sends = []
  /-- the output is asked for once, and first -/
  asks : a.point ≠ .attach → ∃ later, a.sends.map Send.pkt = attachRequest opts :: later ∧
    ∀ pkt ∈ later, pkt.typ ∈ follows
  typed : keyedIn (a.sends.map Send.pkt) = reads.flatMap (typedOf opts)

section Accounts

variable {opts : LoopOpts} {size : Nat → UInt16 × UInt16} {event : AttachEvent} {a b : Attaching}
  {received more : List Received} {reads fresh : List (List UInt8)}

theorem Wrote.calm {pkt : Packet} {ok : Bool} {sent : List Send} (wrote : Wrote pkt ok sent)
    (all : ok = true) : pkt.Fits ∧ sent = [Send.whole pkt] := by
  cases wrote with
  | all fits => exact ⟨fits, rfl⟩
  | part => cases all
  | tooLong => cases all

theorem toPrint_append (opts : LoopOpts) (first second : List Packet) :
    toPrint opts (first ++ second) = toPrint opts first ++ toPrint opts second := by
  rw [toPrint, toPrint, toPrint]
  split
  · rfl
  · exact contentOf_append first second

theorem toPrint_silent {pkt : Received} (silent : pkt.typ = msgContent → opts.passthrough = true) :
    toPrint opts [pkt.packet] = [] := by
  rw [toPrint]
  split
  · rfl
  · next shown =>
    have other : pkt.packet.typ ≠ msgContent := mt silent shown
    simp [contentOf, other]

theorem toPrint_content {pkt : Received} (content : pkt.typ = msgContent)
    (shown : opts.passthrough = false) : toPrint opts [pkt.packet] = pkt.msg := by
  simp [toPrint, shown, contentOf, content, Received.packet]

theorem Attaching.Accounts.goesOn (accounts : a.Accounts opts received reads)
    (begun : a.point ≠ .attach) {sent : List Send} (sends : b.sends = a.sends ++ sent)
    (kinds : ∀ send ∈ sent, (send.pkt.Fits ∧ ¬ send.Short) ∧ send.pkt.typ ∈ follows)
    (point : b.point ≠ .attach)
    (printed : (∀ pkt ∈ more, pkt.packet.Fits) →
      b.printed = a.printed ++ toPrint opts (more.map Received.packet))
    (typed : keyedIn (sent.map Send.pkt) = fresh.flatMap (typedOf opts)) :
    b.Accounts opts (received ++ more) (reads ++ fresh) where
  whole := by
    rw [sends]
    exact List.forall_mem_append.mpr ⟨accounts.whole, fun send member => (kinds send member).1⟩
  printed fits := by
    obtain ⟨before, now⟩ := List.forall_mem_append.mp fits
    rw [printed now, accounts.printed before, List.map_append, toPrint_append]
  opening here := absurd here point
  asks _ := by
    obtain ⟨later, same, kind⟩ := accounts.asks begun
    refine ⟨later ++ sent.map Send.pkt, by rw [sends, List.map_append, same]; rfl, ?_⟩
    refine List.forall_mem_append.mpr ⟨kind, List.forall_mem_map.mpr ?_⟩
    exact fun send member => (kinds send member).2
  typed := by rw [sends, List.map_append, keyedIn_append, accounts.typed, typed, List.flatMap_append]

theorem Point.begun {point : Point} (plain : point.plain = true) : point ≠ .attach := by
  rintro rfl
  cases plain

theorem Wrote.kinds {pkt : Packet} {ok : Bool} {sent : List Send} (wrote : Wrote pkt ok sent)
    (all : ok = true) (kind : pkt.typ ∈ follows) :
    ∀ send ∈ sent, (send.pkt.Fits ∧ ¬ send.Short) ∧ send.pkt.typ ∈ follows := by
  obtain ⟨fits, rfl⟩ := wrote.calm all
  intro send member
  rw [List.mem_singleton.mp member]
  exact ⟨⟨fits, Nat.lt_irrefl _⟩, kind⟩

theorem Attaching.Accounts.does (accounts : a.Accounts opts received reads)
    (begun : a.point ≠ .attach) (calm : event.Calm) (does : a.Does opts size event more fresh b) :
    b.Accounts opts (received ++ more) (reads ++ fresh) := by
  have nothing : ∀ send ∈ ([] : List Send),
      (send.pkt.Fits ∧ ¬ send.Short) ∧ send.pkt.typ ∈ follows := fun _ member => by cases member
  have still (a : Attaching) : a.sends = a.sends ++ [] := (List.append_nil _).symm
  have silent : a.printed = a.printed ++ toPrint opts [] := by
    rw [toPrint, contentOf]
    split <;> exact (List.append_nil _).symm
  cases does with
  | stays => exact accounts.goesOn begun (still a) nothing begun (fun _ => silent) rfl
  | winch => exact accounts.goesOn begun (still a) nothing begun (fun _ => silent) rfl
  | goes point running plain =>
    exact accounts.goesOn begun (still a) nothing (Point.begun plain) (fun _ => silent) rfl
  | waits _ =>
    exact accounts.goesOn begun (still a) nothing (fun no => Point.noConfusion no) (fun _ => silent) rfl
  | attaches ok sent here _ _ => exact absurd here begun
  | asks _ =>
    exact accounts.goesOn begun (still a) nothing (fun no => Point.noConfusion no) (fun _ => silent) rfl
  | measures _ =>
    exact accounts.goesOn begun (still a) nothing (fun no => Point.noConfusion no) (fun _ => silent) rfl
  | resizes change ok sent _ wrote all =>
    refine accounts.goesOn begun rfl (wrote.kinds (all calm) (by simp [resizeRequest, follows]))
      (fun no => Point.noConfusion no) (fun _ => silent) ?_
    obtain ⟨_, rfl⟩ := wrote.calm (all calm)
    have other : (resizeRequest (size change)).typ ≠ msgContent := by
      change msgResize ≠ msgContent
      decide
    exact keyedIn_other other
  | wakes =>
    exact accounts.goesOn begun (still a) nothing (fun no => Point.noConfusion no) (fun _ => silent) rfl
  | ignores pkt point asked plain _ quiet =>
    refine accounts.goesOn begun (still a) nothing (Point.begun plain) (fun _ => ?_) rfl
    rw [List.map_singleton, toPrint_silent quiet, List.append_nil]
  | prints pkt point plain content shown enough =>
    refine accounts.goesOn begun (still a) nothing (Point.begun plain) (fun fits => ?_) rfl
    have short : pkt.msg.length ≤ event.output :=
      ((fits pkt (.head _)).trans (Nat.le_add_left _ _)).trans (enough calm)
    rw [List.map_singleton, toPrint_content content shown, List.take_of_length_le short]
  | exits pkt ok sent exit wrote all =>
    have other : pkt.typ ≠ msgContent := by
      rw [exit]
      decide
    have back : ∀ send ∈ sent, (send.pkt.Fits ∧ ¬ send.Short) ∧ send.pkt.typ ∈ follows := by
      rcases all calm with all | rfl
      · refine wrote.kinds all ?_
        change pkt.typ ∈ follows
        rw [exit]
        decide
      · exact nothing
    refine accounts.goesOn begun rfl back (fun no => Point.noConfusion no) (fun _ => ?_) ?_
    · rw [List.map_singleton, toPrint_silent fun same => absurd same other, List.append_nil]
    · rcases all calm with all | rfl
      · obtain ⟨_, rfl⟩ := wrote.calm all
        exact keyedIn_other other
      · rfl
  | drops bytes point asked plain silence =>
    refine accounts.goesOn begun (still a) nothing (Point.begun plain) (fun _ => silent) ?_
    rw [List.flatMap_singleton, silence]
    rfl
  | sends bytes point ok pkt sent plain kind typed wrote all =>
    refine accounts.goesOn begun rfl (wrote.kinds (all calm) ?_) (Point.begun plain)
      (fun _ => silent) ?_
    · rcases kind with kind | kind <;> rw [kind] <;> decide
    · obtain ⟨_, rfl⟩ := wrote.calm (all calm)
      rw [List.flatMap_singleton]
      exact typed

theorem Attaching.Accounts.begins (accounts : a.Accounts opts received reads)
    (here : a.point = .attach) (calm : event.Calm) :
    (attachStep opts size event a).Accounts opts (received ++ a.takes event)
      (reads ++ a.reads event) := by
  have sent := accounts.opening here
  cases event with
  | winch =>
    rw [Attaching.takes, Attaching.reads, List.append_nil, List.append_nil]
    exact {
      whole := accounts.whole
      printed := accounts.printed
      opening := accounts.opening
      asks := accounts.asks
      typed := accounts.typed }
  | step reply =>
    obtain ⟨ok, first, done, wrote, all⟩ := clientSendPacket_eq reply.written (attachRequest opts) a
    have small : (attachRequest opts).payload.length = 4 := by simp [attachRequest, u32ToNeBytes]
    have enough : 8 + (attachRequest opts).payload.length ≤ reply.written := by
      have more : 8 + 4 ≤ 8 + maxPayload := by decide
      rw [small]
      exact more.trans calm.2
    have fits : (attachRequest opts).Fits := by
      rw [Packet.Fits, small]
      decide
    obtain ⟨_, rfl⟩ := wrote.calm (all fits enough)
    have next : attachStep opts size (.step reply) a =
        { (a.clientSendPacket reply.written (attachRequest opts)).2 with point := .head } := by
      rw [attachStep, Attaching.next, here]
      rfl
    rw [next, done]
    simp only [Attaching.takes, Attaching.reads, here, List.append_nil]
    have sends : a.sends ++ [Send.whole (attachRequest opts)] = [Send.whole (attachRequest opts)] := by
      rw [sent, List.nil_append]
    refine ⟨?_, accounts.printed, fun no => Point.noConfusion no, fun _ => ⟨[], ?_, ?_⟩, ?_⟩
    · rw [sends]
      intro send member
      rw [List.mem_singleton.mp member]
      exact ⟨fits, Nat.lt_irrefl _⟩
    · rw [sends]
      rfl
    · exact fun _ member => (List.not_mem_nil member).elim
    · have typed := accounts.typed
      rw [sent] at typed
      rw [sends, ← typed]
      rfl

end Accounts

def receivedAfter (opts : LoopOpts) (size : Nat → UInt16 × UInt16) (events : List AttachEvent) :
    List Received :=
  emitted (attachStep opts size) Attaching.takes events .start

def readAfter (opts : LoopOpts) (size : Nat → UInt16 × UInt16) (events : List AttachEvent) :
    List (List UInt8) :=
  emitted (attachStep opts size) Attaching.reads events .start

theorem attachedAfter_accounts (opts : LoopOpts) (size : Nat → UInt16 × UInt16)
    (events : List AttachEvent) (calm : ∀ event ∈ events, event.Calm) :
    (attachedAfter opts size events).Accounts opts (receivedAfter opts size events)
      (readAfter opts size events) := by
  induction events using List.reverseRecOn with
  | nil =>
    exact {
      whole := fun _ member => (List.not_mem_nil member).elim
      printed := fun _ => by
        rw [toPrint]
        split <;> rfl
      opening := fun _ => rfl
      asks := fun no => absurd rfl no
      typed := rfl }
  | append_singleton events event ih =>
    obtain ⟨before, last⟩ := List.forall_mem_append.mp calm
    have accounts := ih before
    have calm := last event (.head _)
    have run : attachedAfter opts size (events ++ [event]) =
        attachStep opts size event (attachedAfter opts size events) := runSteps_append _ _ _ _
    have received : receivedAfter opts size (events ++ [event]) =
        receivedAfter opts size events ++ (attachedAfter opts size events).takes event := by
      rw [receivedAfter, emitted_append, emitted, emitted, List.append_nil]
      rfl
    have reads : readAfter opts size (events ++ [event]) =
        readAfter opts size events ++ (attachedAfter opts size events).reads event := by
      rw [readAfter, emitted_append, emitted, emitted, List.append_nil]
      rfl
    rw [run, received, reads]
    by_cases here : (attachedAfter opts size events).point = .attach
    · exact accounts.begins here calm
    · exact accounts.does here calm (attachStep_does event)

/-! ## The socket -/

def recvPackets : Nat → List UInt8 → Option (List Packet × List UInt8)
  | 0, stream => some ([], stream)
  | count + 1, stream => do
    let (pkt, stream) ← recvPacket stream
    let (pkts, stream) ← recvPackets count stream
    return (pkt :: pkts, stream)

theorem recvPackets_front {count : Nat} {stream rest : List UInt8} {pkts : List Packet}
    (found : recvPackets count stream = some (pkts, rest)) :
    pkts <+: (packetDecoder.drain stream).1 := by
  induction count generalizing stream rest pkts with
  | zero =>
    cases found
    exact List.nil_prefix
  | succ count ih =>
    rw [recvPackets, recvPacket_next] at found
    cases next : packetDecoder.next stream with
    | short => rw [next] at found; cases found
    | corrupt => rw [next] at found; cases found
    | whole pkt later =>
      rw [next] at found
      simp only [bind, Option.bind, pure] at found
      cases more : recvPackets count later with
      | none => rw [more] at found; cases found
      | some result =>
        rw [more] at found
        cases found
        rw [packetDecoder.drain_whole next]
        exact List.cons_prefix_cons.mpr ⟨rfl, ih more⟩

/-- At the other end of the socket these packets have been received. -/
def Receives (sends : List Send) (pkts : List Packet) : Prop :=
  ∃ front rest, front <+: sends.flatMap Send.bytes ∧
    recvPackets pkts.length front = some (pkts, rest)

theorem Receives.sent {sends : List Send} {pkts : List Packet} (receives : Receives sends pkts)
    (whole : ∀ send ∈ sends, send.pkt.Fits ∧ ¬ send.Short) : pkts <+: sends.map Send.pkt := by
  have bytes : sends.flatMap Send.bytes = (sends.map Send.pkt).flatMap packetBytes := by
    rw [List.flatMap_map]
    refine List.flatMap_congr fun send member => ?_
    rw [Send.bytes]
    refine List.take_of_length_le ?_
    rw [packetBytes_length]
    exact Nat.le_of_not_lt (whole send member).2
  obtain ⟨front, rest, part, found⟩ := receives
  rw [bytes] at part
  obtain ⟨back, same⟩ := part
  have inverts : ∀ pkt ∈ sends.map Send.pkt, packetDecoder.Inverts packetBytes pkt :=
    List.forall_mem_map.mpr fun send member => packetBytes_inverts (whole send member).1
  obtain ⟨done, left, parts, decoded, _⟩ := Decoder.drain_encode_of_append_eq inverts same
  have packets := recvPackets_front found
  rw [decoded] at packets
  exact packets.trans ⟨left, parts.symm⟩

/-! ## Both ends -/

def Machine.hears (a : Nat) (machine : Machine) (event : Event) : List Received :=
  match machine, event with
  | .walking w, .visit answer => if w.c = some a then heard (answer.recv a) else []
  | _, _ => []

def Received.asking (pkt : Received) : Bool := pkt.typ = msgAttach ∨ pkt.typ = msgDump

theorem requests_eq (recv : Option (Option Received)) :
    requests recv = (heard recv).filter Received.asking := by
  rcases recv with _ | _ | pkt
  · rfl
  · rfl
  · simp only [requests, heard, List.filter_singleton, Received.asking, Bool.cond_decide]

theorem Machine.asks_eq (a : Nat) (machine : Machine) (event : Event) :
    machine.asks a event = (machine.hears a event).filter Received.asking := by
  cases machine with
  | walking w =>
    cases event with
    | select answer => rfl
    | visit answer =>
      change (if w.c = some a then requests (answer.recv a) else []) =
        (if w.c = some a then heard (answer.recv a) else []).filter Received.asking
      by_cases own : w.c = some a
      · rw [if_pos own, if_pos own, requests_eq]
      · rw [if_neg own, if_neg own]
        rfl
  | selecting s => cases event <;> rfl
  | exited s => cases event <;> rfl
  | fault => cases event <;> rfl

theorem asking_once {opts : LoopOpts} {heard : List Received} {later : List Packet}
    (front : heard.map Received.packet <+: attachRequest opts :: later)
    (kinds : ∀ pkt ∈ later, pkt.typ ∈ follows) :
    (heard.filter Received.asking).length = min 1 heard.length := by
  cases heard with
  | nil => rfl
  | cons first rest =>
    obtain ⟨same, behind⟩ := List.cons_prefix_cons.mp front
    have quiet : rest.filter Received.asking = [] := by
      refine List.filter_eq_nil_iff.mpr fun pkt member => ?_
      have kind := kinds pkt.packet (behind.subset (List.mem_map_of_mem member))
      have kind : pkt.typ ∈ follows := kind
      intro asks
      simp only [follows, List.mem_cons, List.not_mem_nil, or_false] at kind
      simp only [Received.asking, decide_eq_true_eq] at asks
      rcases asks with asks | asks <;> rw [asks] at kind <;> revert kind <;> decide
    have attach : first.typ = msgAttach := congrArg Packet.typ same
    have asks : first.asking = true := by simp [Received.asking, attach]
    rw [List.filter_cons, quiet, if_pos asks]
    exact (Nat.min_eq_left (Nat.succ_le_succ (Nat.zero_le _))).symm

/-- What was read since the client came, with the history in between where it was
asked for. -/
def shownOnce (output : List UInt8) (course : Course) : List UInt8 :=
  match course.asked with
  | [] => between output course.start course.shown
  | place :: _ =>
    between output course.start place.shown ++ (output.take place.read).rtake historyCap ++
      between output place.shown course.shown

theorem told_once {output : List UInt8} {course : Course} (once : course.asked.length ≤ 1) :
    course.told (fun log => log.rtake historyCap) output = shownOnce output course := by
  obtain ⟨start, asked, shown⟩ := course
  rcases asked with _ | ⟨place, _ | ⟨_, _⟩⟩
  · rfl
  · rfl
  · simp at once

-- What the server sends is told by its own run, what the program prints by the
-- program's; the socket in between keeps the order.
theorem prints_from_the_start (pid : UInt64) (readPty : Bool) (ptyWrites : List WriteAnswer)
    (events : List Event)
    (inPlace : Along step InPlace events (.selecting (Server.start pid readPty ptyWrites)))
    (a : Nat) (c : Client) (opts : LoopOpts) (size : Nat → UInt16 × UInt16)
    (steps : List AttachEvent) :
    let start := Machine.selecting (Server.start pid readPty ptyWrites)
    let machine := runSteps step events start
    let output := emitted step Machine.reads events start
    let course := (ledgerOf events start).course a
    let heard := emitted step (Machine.hears a) events start
    let program := attachedAfter opts size steps
    let received := (receivedAfter opts size steps).map Received.packet
    (machine.Allocated a c ∨ (a, c) ∈ machine.freed) → c.Unharmed →
    (∀ event ∈ steps, event.Calm) →
    Receives program.sends (heard.map Received.packet) → Receives c.sends received →
    course.Forward maxPayload output.length ∧ course.asked.length = min 1 heard.length ∧
      (machine.Allocated a c → (∃ s, machine = .selecting s) → course.shown = output.length) ∧
      (opts.passthrough = true → program.printed = []) ∧
      (opts.passthrough = false → program.printed <+: shownOnce output course ∧
        (received.length = c.sends.length → program.printed = shownOnce output course)) := by
  intro start machine output course heard program received found unharmed calm hears receives
  obtain ⟨p, same, feeds⟩ := run_feeds pid readPty ptyWrites events inPlace
  rw [ledgerOf_output] at feeds
  have accounts := attachedAfter_accounts opts size steps calm
  have upTo (found : machine.Allocated a c) (selecting : ∃ s, machine = .selecting s) :
      course.shown = output.length := by
    obtain ⟨lag, fed, last⟩ := feeds.allocated same found
    have stop := (fed.told unharmed).2
    rw [last selecting] at stop
    exact stop
  have fed : c.FedBefore output course := by
    rcases found with found | freed
    · obtain ⟨lag, fed, _⟩ := feeds.allocated same found
      exact ⟨output, lag, List.prefix_rfl, fed⟩
    · exact feeds.given same freed
  have fitting : c.Fitting := by
    obtain ⟨_, _, _, fed⟩ := fed
    exact (fed unharmed).1
  have front := receives.sent fun send member => ⟨fitting send member, unharmed send member⟩
  have printed : program.printed = toPrint opts received := by
    refine accounts.printed fun pkt member => ?_
    have sent := front.subset (List.mem_map_of_mem member)
    exact List.forall_mem_map.mpr fitting _ sent
  have once : course.asked.length = min 1 heard.length := by
    have asks : Machine.asks a = fun machine event => (machine.hears a event).filter Received.asking :=
      funext fun machine => funext fun event => machine.asks_eq a event
    have asked : course.asked.length = (heard.filter Received.asking).length := by
      rw [ledgerOf_asked, asks, emitted_filter]
    have sent := hears.sent accounts.whole
    by_cases here : program.point = .attach
    · rw [accounts.opening here] at sent
      rw [asked, List.map_eq_nil_iff.mp (List.prefix_nil.mp sent)]
      rfl
    · obtain ⟨later, sends, kinds⟩ := accounts.asks here
      rw [sends] at sent
      rw [asked, asking_once sent kinds]
  obtain ⟨forward, shown⟩ := fed.told unharmed
  rw [told_once (once ▸ Nat.min_le_left _ _)] at shown
  refine ⟨forward, once, upTo, fun through => ?_, fun through => ?_⟩
  · rw [printed, toPrint, if_pos through]
  · have all : toPrint opts received = contentOf received := by simp [toPrint, through]
    rw [printed, all, ← shown]
    constructor
    · obtain ⟨rest, same⟩ := front
      rw [Client.shown, ← same, contentOf_append]
      exact List.prefix_append _ _
    · intro whole
      rw [front.eq_of_length (by rw [whole, List.length_map]), Client.shown]

def brings (pkt : Received) : AttachEvent := .step ⟨8 + maxPayload, true, .ready (some (some pkt)) none⟩

def livePackets : List AttachEvent :=
  [promptly, promptly, promptly, promptly, brings ⟨msgPid, 8, u64ToNeBytes 1⟩, promptly, promptly,
    promptly, brings ⟨msgContent, 2, [104, 105]⟩, promptly]

def liveOpts : LoopOpts := ⟨0, false, 28, 0⟩

def liveSize (_ : Nat) : UInt16 × UInt16 := (24, 80)

theorem liveRun_hears :
    (emitted step (Machine.hears 0) liveRun (.selecting (Server.start 1 true []))).map
      Received.packet = [attachRequest liveOpts] := by
  obtain ⟨s, w, _, _, run, head, walking, _⟩ := liveRun_sends
  have before : (emitted step (Machine.hears 0) attaching (.selecting (Server.start 1 true []))).map
      Received.packet = [attachRequest liveOpts] := by decide
  rw [liveRun, emitted_append, List.map_append, before, run, emitted, emitted, emitted, walking]
  simp [Machine.hears, passing, heard]

theorem prints_from_the_start_live :
    (attachedAfter liveOpts liveSize livePackets).printed = [104, 105] ∧
      shownOnce [104, 105] ⟨0, [⟨0, 0⟩], 2⟩ = [104, 105] := by
  obtain ⟨s, w, t, c, run, head, walking, _, last, _, found, sends⟩ := liveRun_sends
  have ends := liveRun_ends run walking last
  have printed : (attachedAfter liveOpts liveSize livePackets).printed = [104, 105] := by decide
  have calm : ∀ event ∈ livePackets, event.Calm := by
    intro event member
    simp only [livePackets, List.mem_cons, List.not_mem_nil, or_false] at member
    rcases member with rfl | rfl | rfl | rfl | rfl | rfl | rfl | rfl | rfl | rfl <;> trivial
  obtain ⟨_, _, _, _, all⟩ :=
    prints_from_the_start 1 true [] liveRun liveRun_inPlace 0 c liveOpts liveSize livePackets
      (.inl ⟨t, none, found, .inl ends⟩)
      (by simp [Client.Unharmed, sends, Send.Short, pidPacket]; rfl) calm
      (by
        rw [liveRun_hears]
        exact ⟨packetBytes (attachRequest liveOpts), [], by decide, by decide⟩)
      (by
        rw [sends]
        exact ⟨packetBytes (pidPacket 1) ++ packetBytes ⟨msgContent, [104, 105]⟩, [], by decide, by decide⟩)
  have whole := (all rfl).2 (by rw [sends]; decide)
  rw [printed, liveRun_reads, liveRun_course] at whole
  exact ⟨printed, whole.symm⟩

end Lich.C
