import Lich.C.Listing

/-! What the C program's server writes to a client's socket.

A send that falls short leaves the front of a packet on the wire, and all that
remembers it is the client's state. What is sent to a client in that state, or
takes it out of it, follows the front of the packet.
-/

set_option autoImplicit false

namespace Lich.C

open Foundation Foundation.Chain

def Send.bytes (send : Send) : List UInt8 := (packetBytes send.pkt).take send.taken

def Client.wire (c : Client) : List UInt8 := c.sends.flatMap Send.bytes

/-- Whole packets have been written to the client; or whole packets and then the
front of one more, and it has been given up. -/
inductive Client.Intact (c : Client) : Prop where
  | whole (pkts : List Packet) : c.sends = pkts.map Send.whole → c.wire = pkts.flatMap packetBytes →
      Client.Intact c
  | cut (pkts : List Packet) (pkt : Packet) (taken : Nat) : taken < 8 + pkt.payload.length →
      c.sends = pkts.map Send.whole ++ [⟨pkt, taken⟩] →
      c.wire = pkts.flatMap packetBytes ++ (packetBytes pkt).take taken →
      c.state = .disconnected → Client.Intact c

def Client.Failed (c : Client) : Prop := ∃ send ∈ c.sends.getLast?, send.Short

def Machine.freed : Machine → Linked
  | .selecting s => s.core.freed
  | .walking w => w.server.core.freed
  | .exited s => s.core.freed
  | .fault => []

def Machine.Allocated (machine : Machine) (a : Nat) (c : Client) : Prop :=
  ∃ s next, s.chain.heap a = some ⟨c, next⟩ ∧
    (machine = .selecting s ∨ machine = .exited s ∨ ∃ w, machine = .walking w ∧ w.server = s)

/-- A client whose last send fell short is freed when the loop comes to it, and
nothing is sent to it there. -/
def FreedUnserved (machine : Machine) (event : Event) : Prop :=
  ∀ w answer a node, machine = .walking w → event = .visit answer → w.c = some a →
    w.server.chain.heap a = some node → node.value.Failed →
    ∃ c, (a, c) ∈ (step event machine).freed ∧ c.sends = node.value.sends

/-- What a visit must not do: receive from a client that is given up what has it
served, or has the head moved when it is second; announce the exit to a client
that the pty's output has just been cut short for; tell a client that is given up
that it is at the head. -/
structure Careful (core : Core) (before : Linked) (a : Nat) (c : Client) (rest : Linked)
    (serverPacket : Option Packet) (answer : Answer) : Prop where
  silent : c.state = .disconnected → ∀ pkt, answer.recv a = some (some pkt) →
    pkt.typ ≠ msgDump ∧ pkt.typ ≠ msgResize ∧
    (pkt.typ = msgAttach → core.history.len = 0 ∧
      (pkt.i &&& clientLowpriority ≠ 0 → before.length ≠ 1))
  exiting : ∀ core' c',
    receive (core.reap answer.sigchld) a before.isEmpty c (answer.recv a) = (core', c') →
    c'.state ≠ .disconnected → core'.running = false → core'.exitStatus ≠ -1 →
    ∀ pkt ∈ serverPacket, (serverSendPacket c' pkt).1 = true
  head : ∀ core' c' b d more,
    receive (core.reap answer.sigchld) a before.isEmpty c (answer.recv a) = (core', c') →
    c'.state = .disconnected → before = [] → sinks (answer.recv a) = false →
    rest = (b, d) :: more → d.state ≠ .disconnected

def VisitsCarefully (machine : Machine) (event : Event) : Prop :=
  ∀ w answer before a c rest, machine = .walking w → event = .visit answer → w.c = some a →
    w.server.chain.Holds (before ++ (a, c) :: rest) →
    Careful w.server.core before a c rest w.serverPacket answer

/-! ## What is sent to one client -/

section Sending

variable {c d : Client}

theorem bytes_whole (pkts : List Packet) :
    (pkts.map Send.whole).flatMap Send.bytes = pkts.flatMap packetBytes := by
  rw [List.flatMap_map]
  congr 1
  funext pkt
  rw [Send.bytes, Send.whole, List.take_of_length_le (by rw [packetBytes_length])]

theorem Client.Intact.of_whole {pkts : List Packet} (sends : c.sends = pkts.map Send.whole) :
    c.Intact :=
  .whole pkts sends (by rw [wire, sends, bytes_whole])

theorem Client.Intact.of_cut {pkts : List Packet} {pkt : Packet} {taken : Nat}
    (short : Send.Short ⟨pkt, taken⟩) (sends : c.sends = pkts.map Send.whole ++ [⟨pkt, taken⟩])
    (gone : c.state = .disconnected) : c.Intact := by
  refine .cut pkts pkt taken short sends ?_ gone
  rw [wire, sends, List.flatMap_append, bytes_whole, List.flatMap_singleton]
  rfl

theorem Client.Intact.connected (intact : c.Intact) (connected : c.state ≠ .disconnected) :
    ∃ pkts : List Packet, c.sends = pkts.map Send.whole := by
  cases intact with
  | whole pkts sends => exact ⟨pkts, sends⟩
  | cut _ _ _ _ _ _ gone => exact absurd gone connected

theorem Client.Intact.congr (intact : c.Intact) (sends : d.sends = c.sends)
    (gone : c.state = .disconnected → d.state = .disconnected) : d.Intact := by
  cases intact with
  | whole pkts same => exact .of_whole (sends.trans same)
  | cut pkts pkt taken short same _ given => exact .of_cut short (sends.trans same) (gone given)

theorem Client.Intact.failed (intact : c.Intact) (failed : c.Failed) : c.state = .disconnected := by
  cases intact with
  | cut _ _ _ _ _ _ gone => exact gone
  | whole pkts sends =>
    obtain ⟨send, last, short⟩ := failed
    have member := List.mem_of_getLast? last
    rw [sends] at member
    obtain ⟨pkt, _, rfl⟩ := List.mem_map.mp member
    exact absurd short (Nat.lt_irrefl _)

theorem intact_sendAll {pkts : List Packet} (fits : ∀ pkt ∈ pkts, pkt.Fits)
    (intact : c.Intact) (connected : c.state ≠ .disconnected) : (sendAll pkts c).2.Intact := by
  obtain ⟨before, sends⟩ := intact.connected connected
  obtain ⟨sent, later, ok, done, kind⟩ := sendAll_after fits c
  rw [done]
  cases kind with
  | all =>
    have all : (c.after (pkts.map Send.whole) later true).sends = (before ++ pkts).map Send.whole := by
      simp [sends]
    exact .of_whole all
  | cut front pkt back taken split short =>
    have all : (c.after (front.map Send.whole ++ [⟨pkt, taken⟩]) later false).sends =
        (before ++ front).map Send.whole ++ [⟨pkt, taken⟩] := by
      simp [sends]
    exact .of_cut short all rfl

theorem intact_send {pkt : Packet} (fits : pkt.Fits) (intact : c.Intact)
    (connected : c.state ≠ .disconnected) : (serverSendPacket c pkt).2.Intact := by
  have single : sendAll [pkt] c = serverSendPacket c pkt := by
    rw [sendAll]
    rcases serverSendPacket c pkt with ⟨sent, next⟩
    cases sent <;> rfl
  have all := @intact_sendAll c [pkt] (by simpa using fits) intact connected
  rwa [single] at all

theorem newClient_intact (pid : UInt64) (writes : List WriteAnswer) :
    (newClient pid writes).Intact :=
  intact_send (pidPacket_fits pid) (.whole [] rfl rfl) (by simp)

theorem intact_serve {core : Core} {serverPacket : Option Packet}
    (fits : ∀ pkt ∈ serverPacket, pkt.Fits) (intact : c.Intact) (connected : c.state ≠ .disconnected)
    (exiting : core.running = false → core.exitStatus ≠ -1 →
      ∀ pkt ∈ serverPacket, (serverSendPacket c pkt).1 = true) :
    (core.serve serverPacket c).Intact := by
  have exitFits := exitPacket_fits core.exitStatus
  rw [Core.serve]
  cases serverPacket with
  | none =>
    split
    · exact intact_send exitFits intact connected
    · exact intact
  | some pkt =>
    have first := intact_send (fits pkt rfl) intact connected
    split
    · rename_i both
      refine intact_send exitFits first ?_
      obtain ⟨taken, later, ok, done, _⟩ := serverSendPacket_after c (fits pkt rfl)
      have sent := exiting both.1 both.2 pkt rfl
      rw [done] at sent
      rw [sendPtyData, done]
      dsimp only at sent
      rw [sent]
      exact connected
    · exact first

end Sending

/-! ## Visits -/

section Visits

variable {z next : Zipper} {answer : Answer} {a : Nat} {c : Client} {rest : Linked}

theorem received_intact (valid : z.core.history.Valid) (intact : c.Intact)
    (careful : Careful z.core z.before a c rest z.serverPacket answer) :
    (z.received answer a c).2.Intact ∧ (c.state = .disconnected →
      (z.received answer a c).2.state = .disconnected ∧
        (z.received answer a c).2.sends = c.sends) := by
  rw [Zipper.received]
  rcases recv : answer.recv a with _ | _ | pkt
  · exact ⟨intact, fun gone => ⟨gone, rfl⟩⟩
  · exact ⟨intact.congr rfl fun _ => rfl, fun _ => ⟨rfl, rfl⟩⟩
  · rw [receive, respond, reap_history]
    by_cases gone : c.state = .disconnected
    · obtain ⟨dump, resize, attach⟩ := careful.silent gone pkt recv
      rw [if_neg dump, if_neg resize]
      split_ifs with content attached exit detach
      · exact ⟨intact, fun _ => ⟨gone, rfl⟩⟩
      · rw [replay_empty (attach attached).1]
        exact ⟨intact.congr rfl fun _ => gone, fun _ => ⟨gone, rfl⟩⟩
      · exact ⟨intact.congr rfl fun _ => rfl, fun _ => ⟨rfl, rfl⟩⟩
      · exact ⟨intact.congr rfl fun _ => rfl, fun _ => ⟨rfl, rfl⟩⟩
      · exact ⟨intact, fun _ => ⟨gone, rfl⟩⟩
    · refine ⟨?_, fun given => absurd given gone⟩
      split_ifs with content attached dump resize head exit detach
      · exact intact
      · exact intact_sendAll (replay_fits valid false) (intact.congr rfl fun given => given) gone
      · exact (intact_sendAll (replay_fits valid true) intact gone).congr rfl fun _ => rfl
      · obtain ⟨pkts, sends⟩ := intact.connected gone
        exact .of_whole sends
      · obtain ⟨pkts, sends⟩ := intact.connected gone
        exact .of_whole sends
      · exact intact.congr rfl fun _ => rfl
      · exact intact.congr rfl fun _ => rfl
      · exact intact

theorem nudge_intact {list : Linked} (intact : ∀ node ∈ list, node.2.Intact)
    (connected : ∀ b d more, list = (b, d) :: more → d.state ≠ .disconnected) :
    ∀ node ∈ nudge list, node.2.Intact := by
  intro node member
  cases list with
  | nil => cases member
  | cons first more =>
    obtain ⟨b, d⟩ := first
    rcases List.mem_cons.mp member with rfl | member
    · exact intact_send resizePacket_fits (intact (b, d) (.head _)) (connected b d more rfl)
    · exact intact node (.tail _ member)

theorem visit_intact (valid : z.core.history.Valid) (todo : z.todo = (a, c) :: rest)
    (fits : ∀ pkt ∈ z.serverPacket, pkt.Fits)
    (intact : ∀ node ∈ z.before ++ z.todo ++ z.lost, node.2.Intact)
    (freed : ∀ node ∈ z.core.freed, node.2.Intact)
    (careful : Careful z.core z.before a c rest z.serverPacket answer)
    (done : z.visit answer = some next) :
    (∀ node ∈ next.before ++ next.todo ++ next.lost, node.2.Intact) ∧
      (∀ node ∈ next.core.freed, node.2.Intact) ∧ next.serverPacket = z.serverPacket := by
  rw [todo] at intact
  have others : ∀ node ∈ z.before ++ rest, node.2.Intact := fun node member =>
    intact node (by simp only [List.mem_append, List.mem_cons] at member ⊢; tauto)
  have lost : ∀ node ∈ z.lost, node.2.Intact := fun node member =>
    intact node (List.mem_append_right _ member)
  obtain ⟨current, _⟩ := received_intact valid (intact (a, c) (by simp)) careful
  obtain ⟨_, _, same⟩ := received_visits z answer a c
  have moved : ∀ node ∈ (around (sinks (answer.recv a)) z.before rest).1 ++
      (around (sinks (answer.recv a)) z.before rest).2, node.2.Intact :=
    fun node member => others node (mem_around.mp member)
  have freed' : ∀ node ∈ ((z.received answer a c).1.drop a (z.received answer a c).2).freed,
      node.2.Intact := by
    intro node member
    rw [Core.drop, same] at member
    rcases List.mem_append.mp member with member | member
    · exact freed node member
    · rw [List.mem_singleton.mp member]
      exact current
  rcases visit_cases todo done with ⟨gone, _, _, rfl⟩ | ⟨gone, stays, rfl⟩ | ⟨connected, rfl⟩
  · refine ⟨fun node member => ?_, freed', rfl⟩
    rcases List.mem_append.mp member with none | member
    · cases none
    · rcases List.mem_append.mp member with member | member
      · exact lost node member
      · exact others node (List.mem_append_right _ member)
  · refine ⟨fun node member => ?_, freed', rfl⟩
    rcases List.mem_append.mp member with member | member
    · dsimp only at member
      split at member
      · rename_i first
        -- the clients ahead are none, so nothing was moved and the next one is at the head
        have still : sinks (answer.recv a) = false := by
          apply Bool.eq_false_iff.mpr
          exact fun sink => (stays sink).2 first
        rw [still] at first member
        have none : z.before = [] := first
        replace member : node ∈ z.before ++ nudge rest := member
        rw [none, List.nil_append] at member
        exact nudge_intact (fun node member => others node (List.mem_append_right _ member))
          (fun b d more same => careful.head _ _ b d more rfl gone none still same) node member
      · exact moved node member
    · exact lost node member
  · refine ⟨fun node member => ?_, ?_, rfl⟩
    · rcases List.mem_append.mp member with member | member
      · rw [List.append_assoc, List.mem_append, List.cons_append, List.nil_append,
          List.mem_cons] at member
        rcases member with member | rfl | member
        · exact moved node (List.mem_append_left _ member)
        · exact intact_serve fits current connected fun running status =>
            careful.exiting _ _ rfl connected running status
        · exact moved node (List.mem_append_right _ member)
      · exact lost node member
    · intro node member
      rw [Core.keep, same] at member
      exact freed node member

theorem visit_frees (todo : z.todo = (a, c) :: rest) (intact : c.Intact)
    (valid : z.core.history.Valid) (gone : c.state = .disconnected)
    (careful : Careful z.core z.before a c rest z.serverPacket answer) :
    ∃ next d, z.visit answer = some next ∧ (a, d) ∈ next.core.freed ∧ d.sends = c.sends := by
  obtain ⟨still, sends⟩ := (received_intact valid intact careful).2 gone
  cases done : z.visit answer with
  | none =>
    obtain ⟨sink, second⟩ := visit_fault todo done
    rcases recv : answer.recv a with _ | _ | pkt
    · rw [recv] at sink
      cases sink
    · rw [recv] at sink
      cases sink
    · rw [recv] at sink
      simp only [sinks, Bool.decide_and, Bool.and_eq_true, decide_eq_true_eq] at sink
      exact absurd second (((careful.silent gone pkt recv).2.2 sink.1).2 sink.2)
  | some next =>
    refine ⟨next, (z.received answer a c).2, rfl, ?_, sends⟩
    rcases visit_cases todo done with ⟨_, _, _, rfl⟩ | ⟨_, _, rfl⟩ | ⟨connected, _⟩
    · simp [Core.drop]
    · simp [Core.drop]
    · exact absurd still connected

end Visits

/-! ## Runs -/

inductive Picture.Intact : Picture → Prop where
  | selecting {l : Listing} : (∀ node ∈ l.clients ++ l.lost, node.2.Intact) →
      (∀ node ∈ l.core.freed, node.2.Intact) → Picture.Intact (.selecting l)
  | walking {z : Zipper} : (∀ node ∈ z.before ++ z.todo ++ z.lost, node.2.Intact) →
      (∀ node ∈ z.core.freed, node.2.Intact) → (∀ pkt ∈ z.serverPacket, pkt.Fits) →
      Picture.Intact (.walking z)
  | exited {l : Listing} : (∀ node ∈ l.clients ++ l.lost, node.2.Intact) →
      (∀ node ∈ l.core.freed, node.2.Intact) → Picture.Intact (.exited l)
  | fault : Picture.Intact .fault

theorem Zipper.next_intact {z : Zipper} (intact : ∀ node ∈ z.before ++ z.todo ++ z.lost, node.2.Intact)
    (freed : ∀ node ∈ z.core.freed, node.2.Intact) (fits : ∀ pkt ∈ z.serverPacket, pkt.Fits) :
    z.next.Intact := by
  rw [Zipper.next]
  by_cases todo : z.todo = []
  · rw [if_pos todo]
    rw [todo, List.append_nil] at intact
    exact .selecting intact freed
  · rw [if_neg todo]
    exact .walking intact freed fits

theorem readable_fits {core next : Core} {serverPacket : Option Packet}
    {read : Option (ReadAnswer maxPayload)} (done : core.readable read = some (next, serverPacket)) :
    next.freed = core.freed ∧ ∀ pkt ∈ serverPacket, pkt.Fits := by
  rcases read with _ | ⟨slice⟩ | kind
  · cases done
    exact ⟨rfl, nofun⟩
  · rw [Core.readable, serverReadPty] at done
    by_cases eof : slice.bytes = []
    · rw [if_pos eof] at done
      cases done
      exact ⟨rfl, nofun⟩
    · rw [if_neg eof] at done
      obtain ⟨history, _, same⟩ := Option.bind_eq_some_iff.mp done
      cases same
      refine ⟨rfl, ?_⟩
      rintro pkt ⟨⟩
      exact slice.bound
  · cases kind <;> cases done <;> exact ⟨rfl, nofun⟩

theorem Listing.select_intact {l : Listing} (intact : ∀ node ∈ l.clients ++ l.lost, node.2.Intact)
    (freed : ∀ node ∈ l.core.freed, node.2.Intact) (answer : Selected) : (l.select answer).Intact := by
  have reaped : (l.core.reap answer.sigchld).freed = l.core.freed :=
    (reap_visits l.core answer.sigchld).2.2
  have woken : (∀ node ∈ (l.woken answer).clients ++ (l.woken answer).lost, node.2.Intact) ∧
      (l.woken answer).core.freed = l.core.freed := by
    rw [Listing.woken]
    cases answer.accept with
    | none => exact ⟨intact, reaped⟩
    | some writes =>
      refine ⟨?_, reaped⟩
      intro node member
      rcases List.mem_cons.mp member with rfl | member
      · exact newClient_intact _ writes
      · exact intact node member
  rcases select_cases answer l with ⟨_, _, done⟩ | ⟨_, done⟩ | done | ⟨_, core, packet, read, done⟩
  · rw [done]
    exact .exited intact freed
  · rw [done]
    exact .selecting intact (by rw [reaped]; exact freed)
  · rw [done]
    exact .fault
  · rw [done]
    obtain ⟨same, fits⟩ := readable_fits read
    refine Zipper.next_intact woken.1 ?_ fits
    intro node member
    rw [same, woken.2] at member
    exact freed node member

def Picture.freed : Picture → Linked
  | .selecting l => l.core.freed
  | .walking z => z.core.freed
  | .exited l => l.core.freed
  | .fault => []

theorem Picture.Represents.freed {p : Picture} {m : Machine} (same : p.Represents m) :
    m.freed = p.freed := by
  cases same with
  | selecting same => exact congrArg Core.freed same.core
  | walking same _ => exact congrArg Core.freed same.core
  | exited same => exact congrArg Core.freed same.core
  | fault => rfl

theorem Zipper.next_freed (z : Zipper) : z.next.freed = z.core.freed := by
  rw [Zipper.next]
  split <;> rfl

section Steps

variable {p : Picture} {m : Machine}

theorem VisitsCarefully.zipper {z : Zipper} {w : Walk} {answer : Answer} {a : Nat} {c : Client}
    {rest : Linked} (careful : VisitsCarefully (.walking w) (.visit answer)) (same : z.Represents w)
    (todo : z.todo = (a, c) :: rest) : Careful z.core z.before a c rest z.serverPacket answer := by
  have current := same.c
  rw [todo] at current
  have holds := same.lists.holds
  rw [todo] at holds
  have this := careful w answer z.before a c rest rfl rfl current holds
  rwa [same.core, same.serverPacket] at this

theorem Picture.Intact.step (intact : p.Intact) (same : p.Represents m) (event : Event)
    (careful : VisitsCarefully m event) : (pictureStep event p).Intact := by
  cases intact with
  | selecting intact freed =>
    cases event with
    | select answer => exact Listing.select_intact intact freed answer
    | visit answer => exact .selecting intact freed
  | exited intact freed => cases event <;> exact .exited intact freed
  | fault => cases event <;> exact .fault
  | @walking z intact freed fits =>
    cases same with
    | @walking _ w same more =>
      cases event with
      | select answer => exact .walking intact freed fits
      | visit answer =>
        obtain ⟨⟨a, c⟩, rest, todo⟩ := List.exists_cons_of_ne_nil more
        have valid := same.lists.valid
        rw [same.core] at valid
        rw [pictureStep]
        cases done : z.visit answer with
        | none => exact .fault
        | some next =>
          obtain ⟨intact', freed', packet⟩ :=
            visit_intact valid todo fits intact freed (careful.zipper same todo) done
          exact Zipper.next_intact intact' freed' (by rw [packet]; exact fits)

theorem Picture.Intact.frees (intact : p.Intact) (same : p.Represents m) (event : Event)
    (careful : VisitsCarefully m event) : FreedUnserved m event := by
  rintro w answer a node rfl rfl current found failed
  have after := (step_represents (.visit answer) p _ same).freed
  cases same with
  | @walking z w same more =>
    cases intact with
    | walking intact freed fits =>
      obtain ⟨⟨a', c⟩, rest, todo⟩ := List.exists_cons_of_ne_nil more
      have current' := same.c
      rw [todo, current] at current'
      cases current'
      have lists := same.lists
      rw [todo] at lists
      have found' := lists.heap z.before
      rw [found] at found'
      cases found'
      have valid := same.lists.valid
      rw [same.core] at valid
      have whole := intact (a', c) (by simp [todo])
      obtain ⟨next, d, done, given, sends⟩ :=
        visit_frees todo whole valid (whole.failed failed) (careful.zipper same todo)
      refine ⟨d, ?_, sends⟩
      rw [after, pictureStep, done]
      dsimp only
      rw [Zipper.next_freed]
      exact given

theorem Picture.Intact.all (intact : p.Intact) (same : p.Represents m) :
    ∀ a c, m.Allocated a c ∨ (a, c) ∈ m.freed → c.Intact := by
  have freed := same.freed
  rintro a c (⟨s, next, found, which⟩ | given)
  · cases same with
    | selecting same =>
      rcases which with ⟨⟨⟩⟩ | which | ⟨_, which, _⟩
      · cases intact with
        | selecting intact _ => exact intact _ (same.lists.known a _ found)
      · cases which
      · cases which
    | walking same _ =>
      rcases which with which | which | ⟨_, ⟨⟨⟩⟩, rfl⟩
      · cases which
      · cases which
      · cases intact with
        | walking intact _ _ => exact intact _ (same.lists.known a _ found)
    | exited same =>
      rcases which with which | ⟨⟨⟩⟩ | ⟨_, which, _⟩
      · cases which
      · cases intact with
        | exited intact _ => exact intact _ (same.lists.known a _ found)
      · cases which
    | fault => rcases which with which | which | ⟨_, which, _⟩ <;> cases which
  · rw [freed] at given
    cases intact with
    | selecting _ all => exact all _ given
    | walking _ all _ => exact all _ given
    | exited _ all => exact all _ given
    | fault => cases given

theorem Picture.Intact.run {events : List Event} (intact : p.Intact) (same : p.Represents m)
    (careful : Along C.step VisitsCarefully events m) :
    (∃ last, Picture.Intact last ∧ last.Represents (runSteps C.step events m)) ∧
      Along C.step FreedUnserved events m := by
  induction events generalizing p m with
  | nil => exact ⟨⟨p, intact, same⟩, trivial⟩
  | cons event events ih =>
    obtain ⟨last, rest⟩ :=
      ih (intact.step same event careful.1) (step_represents event p m same) careful.2
    exact ⟨last, intact.frees same event careful.1, rest⟩

end Steps

-- Every part of a careful run is one, so this is about all states that it reaches.
theorem wire_integrity (pid : UInt64) (readPty : Bool) (ptyWrites : List WriteAnswer)
    (events : List Event)
    (careful : Along step VisitsCarefully events (.selecting (Server.start pid readPty ptyWrites))) :
    (∀ before after, events = before ++ after → ∀ machine,
      machine = runSteps step before (.selecting (Server.start pid readPty ptyWrites)) →
      ∀ a c, machine.Allocated a c ∨ (a, c) ∈ machine.freed → c.Intact) ∧
    Along step FreedUnserved events (.selecting (Server.start pid readPty ptyWrites)) := by
  have start := start_represents pid readPty ptyWrites
  have fresh : (Picture.selecting ⟨(Server.start pid readPty ptyWrites).core, [], [], 0⟩).Intact :=
    .selecting nofun nofun
  constructor
  · rintro before after rfl machine rfl
    obtain ⟨⟨last, intact, same⟩, _⟩ := fresh.run start (along_append.mp careful).1
    exact intact.all same
  · exact (fresh.run start careful).2

/-! ## Runs with one client -/

def connecting : Event := .select ⟨false, some [.ok 4096, .ok 3, .err .wouldBlock, .ok 4096], none, none⟩

def ending : Event := .select ⟨false, none, some (.ok ⟨[], Nat.zero_le _⟩), some 0⟩

def waking : Event := .select ⟨false, none, none, none⟩

def receiving (recv : Option (Option Received)) : Event := .visit ⟨fun _ => recv, none⟩

theorem cut_packet_followed :
    ¬ ∀ (events : List Event) (a : Nat) (c : Client),
      (runSteps step events (.selecting (Server.start 1 true []))).Allocated a c → c.Intact := by
  intro always
  obtain ⟨s, c, run, found, sends⟩ : ∃ s c, runSteps step
      [connecting, receiving none, ending, receiving none, waking,
        receiving (some (some ⟨msgResize, 4, [24, 0, 80, 0]⟩))]
      (.selecting (Server.start 1 true [])) = .selecting s ∧
      s.chain.heap 0 = some ⟨c, none⟩ ∧
      c.sends = [⟨pidPacket 1, 16⟩, ⟨exitPacket 0, 3⟩, ⟨exitPacket 0, 12⟩] :=
    ⟨_, _, rfl, rfl, by decide⟩
  have intact := always _ 0 c ⟨s, none, found, .inl run⟩
  have front : ∀ pkts : List Packet, c.sends.dropLast ≠ pkts.map Send.whole := by
    intro pkts same
    have member : (⟨exitPacket 0, 3⟩ : Send) ∈ pkts.map Send.whole := by
      rw [← same, sends]
      decide
    obtain ⟨pkt, _, whole⟩ := List.mem_map.mp member
    obtain ⟨rfl, taken⟩ := Send.mk.inj whole
    cases taken
  cases intact with
  | whole pkts same =>
    apply front pkts.dropLast
    rw [same, List.map_dropLast]
  | cut pkts pkt taken _ same =>
    apply front pkts
    rw [same, List.dropLast_concat]

theorem visitsCarefully_alone {events : List Event} {z : Zipper} {a : Nat} {c : Client}
    (run : runSteps pictureStep events
      (.selecting ⟨(Server.start 1 true []).core, [], [], 0⟩) = .walking z)
    (list : z.before ++ z.todo = [(a, c)]) (quiet : z.serverPacket = none) :
    VisitsCarefully (runSteps step events (.selecting (Server.start 1 true []))) (receiving none) := by
  have same := run_represents 1 true [] events
  rw [run] at same
  rintro w answer before a' c' rest walking ⟨⟩ _ holds
  rw [walking] at same
  cases same with
  | walking same more =>
    have both := same.lists.holds.links.unique holds.links
    rw [list] at both
    have packet := same.serverPacket.trans quiet
    cases before with
    | cons head before =>
      obtain ⟨_, none⟩ := List.cons_eq_cons.mp both
      simp at none
    | nil =>
      obtain ⟨_, rfl⟩ := List.cons_eq_cons.mp both
      rw [packet]
      refine ⟨?_, ?_, ?_⟩
      · intro _ pkt recv
        cases recv
      · intro _ _ _ _ _ _ pkt packet
        cases packet
      · intro _ _ _ _ _ _ _ _ _ more
        cases more

def silentRun : List Event :=
  [connecting, receiving none, ending, receiving none, waking, receiving none]

theorem visitsCarefully_select (machine : Machine) (answer : Selected) :
    VisitsCarefully machine (.select answer) := by
  intro _ _ _ _ _ _ _ same
  cases same

theorem wire_integrity_alone :
    (∃ c, (0, c) ∈ (runSteps step silentRun (.selecting (Server.start 1 true []))).freed ∧ c.Intact) ∧
      Along step FreedUnserved silentRun (.selecting (Server.start 1 true [])) := by
  have careful : Along step VisitsCarefully silentRun (.selecting (Server.start 1 true [])) := by
    refine ⟨visitsCarefully_select _ _, ?_, visitsCarefully_select _ _, ?_,
      visitsCarefully_select _ _, ?_, trivial⟩
    · exact @visitsCarefully_alone [connecting] _ 0 _ rfl rfl rfl
    · exact @visitsCarefully_alone [connecting, receiving none, ending] _ 0 _ rfl rfl rfl
    · exact @visitsCarefully_alone [connecting, receiving none, ending, receiving none, waking] _ 0 _
        rfl rfl rfl
  obtain ⟨always, frees⟩ := wire_integrity 1 true [] silentRun careful
  obtain ⟨c, freed⟩ : ∃ c,
      (runSteps step silentRun (.selecting (Server.start 1 true []))).freed = [(0, c)] := ⟨_, rfl⟩
  have given : (0, c) ∈ (runSteps step silentRun (.selecting (Server.start 1 true []))).freed := by
    rw [freed]
    exact .head _
  exact ⟨⟨c, given, always silentRun [] (List.append_nil _).symm _ rfl 0 c (.inr given)⟩, frees⟩

end Lich.C
