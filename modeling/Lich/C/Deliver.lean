import Lich.C.Listing
import Lich.Room

/-! The C program's server under clients' events, one in each iteration.

The pty is silent, the child lives, and every socket takes all that is written to
it. What then changes in the list of clients is what changes in the room.
-/

set_option autoImplicit false

namespace Lich.C

open Foundation Foundation.Chain

/-! ## Delivery -/

def Received.of (pkt : Packet) : Received := ⟨pkt.typ, pkt.payload.length, pkt.payload⟩

def answerOf (event : RoomEvent) : Answer :=
  ⟨fun a => (event.comes a).map (Option.map fun pkt => Received.of pkt.1), none⟩

theorem answerOf_recv (event : RoomEvent) (a : Nat) :
    (answerOf event).recv a = (event.comes a).map (Option.map fun pkt => Received.of pkt.1) := rfl

/-- A socket takes `rounds` packets; a new client is sent MSG_PID, and no more than
one packet for each later event. -/
def selectedOf (rounds : Nat) (event : RoomEvent) : Selected :=
  ⟨false, if event = .accept then some (List.replicate rounds (.ok (8 + maxPayload))) else none,
    none, none⟩

/-- One iteration, of a loop over the clients that ends after `rounds` visits. -/
def iteration (rounds : Nat) (event : RoomEvent) : List Event :=
  .select (selectedOf rounds event) :: List.replicate rounds (.visit (answerOf event))

/-- An iteration in which nothing comes. The pty wakes the program up, and a signal cuts
its read short; what wakes it up is no matter to the sizes, only that it is woken. -/
def idling (rounds : Nat) : List Event :=
  .select ⟨false, none, some (.err .interrupted), none⟩ ::
    List.replicate rounds (.visit ⟨fun _ => none, none⟩)

/-- What comes on a socket that the last loop has left out of `new_readfds` waits
until the program was woken up once more. -/
def deliver {S : Type} (step : Event → S → S) (watches : S → Nat → Bool) (rounds : Nat)
    (event : RoomEvent) (state : S) : S :=
  let state :=
    if event.source.all (watches state) then state else runSteps step (idling rounds) state
  runSteps step (iteration rounds event) state

def Machine.watches (machine : Machine) (who : Nat) : Bool :=
  match machine with
  | .selecting s => who ∈ s.core.armed
  | _ => false

def Machine.journal : Machine → List PtyEntry
  | .selecting s | .exited s => s.core.journal
  | .walking w => w.server.core.journal
  | .fault => []

/-- The sizes that the C program sets. No list is longer than there are events, and
a client that is moved is come to twice. -/
def sizes (pid : UInt64) (readPty : Bool) (ptyWrites : List WriteAnswer) (events : List RoomEvent) :
    List (UInt16 × UInt16) :=
  sizesOf (runSteps (deliver step Machine.watches (events.length + 1)) events
    (.selecting (Server.start pid readPty ptyWrites))).journal

/-! ## Between two loops -/

structure Core.Calm (core : Core) (journal : List PtyEntry) : Prop where
  running : core.running = true
  exitPacketDelivered : core.exitPacketDelivered = false
  history : core.history.len = 0
  journal : core.journal = journal

structure Client.Willing (left : Nat) (c : Client) : Prop where
  connected : c.state ≠ .disconnected
  writes : ∃ later, c.writes = List.replicate left (.ok (8 + maxPayload)) ++ later

def seat (node : Nat × Client) : Nat × UInt32 := (node.1, node.2.flags)

structure Listing.Follows (l : Listing) (room : Room) (left : Nat) (journal : List PtyEntry) : Prop where
  calm : l.core.Calm journal
  accepted : l.accepted = room.accepted
  seats : l.clients.map seat = room.seats
  willing : ∀ node ∈ l.clients, node.2.Willing left

theorem Listing.Follows.length {l : Listing} {room : Room} {left : Nat} {journal : List PtyEntry}
    (follows : l.Follows room left journal) : l.clients.length = room.seats.length := by
  have sizes := congrArg List.length follows.seats
  rwa [List.length_map] at sizes

theorem Client.Willing.mono {left : Nat} {c : Client} (willing : c.Willing (left + 1)) :
    c.Willing left := by
  obtain ⟨later, writes⟩ := willing.writes
  rw [List.replicate_succ', List.append_assoc] at writes
  exact ⟨willing.connected, _, writes⟩

theorem Client.Willing.send {left : Nat} {c : Client} (willing : c.Willing (left + 1)) {pkt : Packet}
    (fits : pkt.Fits) :
    (serverSendPacket c pkt).2.Willing left ∧ (serverSendPacket c pkt).2.flags = c.flags := by
  obtain ⟨later, writes⟩ := willing.writes
  rw [List.replicate_succ, List.cons_append] at writes
  rw [serverSendPacket_willing writes fits]
  exact ⟨⟨willing.connected, later, rfl⟩, rfl⟩

theorem newClient_willing (pid : UInt64) {rounds left : Nat} (less : left < rounds) :
    (newClient pid (List.replicate rounds (.ok (8 + maxPayload)))).Willing left ∧
      (newClient pid (List.replicate rounds (.ok (8 + maxPayload)))).flags = 0 := by
  have answers : List.replicate rounds (WriteAnswer.ok (8 + maxPayload)) =
      List.replicate (left + 1) (.ok (8 + maxPayload)) ++
        List.replicate (rounds - (left + 1)) (.ok (8 + maxPayload)) := by
    rw [← List.replicate_add, Nat.add_sub_cancel' less]
  exact Client.Willing.send ⟨by simp, _, answers⟩ (pidPacket_fits pid)

/-! ## The loop -/

section Loop

variable {answer : Answer} {z : Zipper} {a : Nat} {c : Client} {core : Core}
  {front back before todo rest lost : Linked} {journal journal' : List PtyEntry} {accepted : Nat}

def Quiet (answer : Answer) (node : Nat × Client) : Prop :=
  answer.recv node.1 = none ∧ node.2.state ≠ .disconnected

theorem serve_calm (calm : core.Calm journal) (c : Client) : core.serve none c = c := by
  rw [Core.serve, calm.running]
  rfl

theorem Core.Calm.keep (calm : core.Calm journal) (a : Nat) : (core.keep a).Calm journal :=
  ⟨calm.running, calm.exitPacketDelivered, calm.history, calm.journal⟩

theorem Core.Calm.drop (calm : core.Calm journal) (a : Nat) (c : Client) :
    (core.drop a c).Calm journal :=
  ⟨calm.running, calm.exitPacketDelivered, calm.history, calm.journal⟩

theorem visit_quiet (calm : core.Calm journal) (sigchld : answer.sigchld = none)
    (quiet : Quiet answer (a, c)) :
    Zipper.visit answer ⟨core, before, (a, c) :: rest, lost, accepted, none⟩ =
      some ⟨core.keep a, before ++ [(a, c)], rest, lost, accepted, none⟩ := by
  obtain ⟨nothing, connected⟩ := quiet
  have received : Zipper.received ⟨core, before, (a, c) :: rest, lost, accepted, none⟩ answer a c =
      (core, c) := by
    rw [Zipper.received, nothing, sigchld]
    rfl
  rw [visit_keep rfl (by rw [received]; exact connected), received, nothing]
  simp only [sinks, around, serve_calm calm, Bool.false_eq_true, if_false]

theorem walk_quiet (sigchld : answer.sigchld = none) (calm : core.Calm journal)
    (quiet : ∀ node ∈ front, Quiet answer node) :
    ∃ core', core'.Calm journal ∧ core'.armed = core.armed ++ addresses front ∧
      runSteps pictureStep (List.replicate front.length (.visit answer))
          (Zipper.next ⟨core, before, front ++ rest, lost, accepted, none⟩) =
        Zipper.next ⟨core', before ++ front, rest, lost, accepted, none⟩ := by
  induction front generalizing core before with
  | nil => exact ⟨core, calm, by simp, by simp⟩
  | cons node front ih =>
    obtain ⟨a, c⟩ := node
    obtain ⟨core', calm', armed, walked⟩ :=
      @ih (core.keep a) (before ++ [(a, c)]) (calm.keep a) fun node member =>
        quiet node (.tail _ member)
    refine ⟨core', calm', by rw [armed]; simp [Core.keep], ?_⟩
    have visited : pictureStep (.visit answer)
        (Zipper.next ⟨core, before, (a, c) :: (front ++ rest), lost, accepted, none⟩) =
        Zipper.next ⟨core.keep a, before ++ [(a, c)], front ++ rest, lost, accepted, none⟩ := by
      rw [Zipper.next, if_neg (List.cons_ne_nil _ _), pictureStep,
        visit_quiet calm sigchld (quiet _ (.head _))]
    rw [List.length_cons, List.replicate_succ, runSteps_cons, List.cons_append, visited, walked,
      List.append_assoc]
    rfl

theorem walk_rest (sigchld : answer.sigchld = none) (calm : core.Calm journal)
    (quiet : ∀ node ∈ todo, Quiet answer node) {rounds : Nat} (enough : todo.length ≤ rounds) :
    ∃ core', core'.Calm journal ∧ core'.armed = core.armed ++ addresses todo ∧
      runSteps pictureStep (List.replicate rounds (.visit answer))
          (Zipper.next ⟨core, before, todo, lost, accepted, none⟩) =
        .selecting ⟨core', before ++ todo, lost, accepted⟩ := by
  obtain ⟨core', calm', armed, walked⟩ :=
    @walk_quiet answer core todo before [] lost journal accepted sigchld calm quiet
  obtain ⟨more, rfl⟩ := Nat.exists_eq_add_of_le enough
  rw [List.append_nil] at walked
  refine ⟨core', calm', armed, ?_⟩
  rw [List.replicate_add, runSteps_append, walked, Zipper.next, if_pos rfl,
    ← List.map_replicate, runSteps_selecting]

theorem walk_one (sigchld : answer.sigchld = none) (calm : core.Calm journal)
    (quiet : ∀ node ∈ front, Quiet answer node)
    (visited : ∀ core : Core, core.Calm journal → ∃ core' : Core, core'.Calm journal' ∧
      Zipper.visit answer ⟨core, front, (a, c) :: back, lost, accepted, none⟩ =
        some ⟨core', before, todo, lost, accepted, none⟩)
    (quiet' : ∀ node ∈ todo, Quiet answer node) {rounds : Nat}
    (enough : front.length + 1 + todo.length ≤ rounds) :
    ∃ core', core'.Calm journal' ∧
      runSteps pictureStep (List.replicate rounds (.visit answer))
          (Zipper.next ⟨core, [], front ++ (a, c) :: back, lost, accepted, none⟩) =
        .selecting ⟨core', before ++ todo, lost, accepted⟩ := by
  obtain ⟨core₁, calm₁, _, walked⟩ :=
    @walk_quiet answer core front [] ((a, c) :: back) lost journal accepted sigchld calm quiet
  obtain ⟨core₂, calm₂, done⟩ := visited core₁ calm₁
  obtain ⟨more, rfl⟩ := Nat.exists_eq_add_of_le (Nat.le_of_add_right_le enough)
  obtain ⟨core₃, calm₃, _, rested⟩ :=
    @walk_rest answer core₂ before todo lost journal' accepted sigchld calm₂ quiet' more (by omega)
  refine ⟨core₃, calm₃, ?_⟩
  rw [List.replicate_add, List.replicate_succ', runSteps_append, runSteps_append, walked,
    List.nil_append, runSteps_cons, runSteps_nil, ← rested, Zipper.next,
    if_neg (List.cons_ne_nil _ _), pictureStep, done]

end Loop

/-! ## What comes -/

section Comes

variable {core : Core} {journal : List PtyEntry} {front back lost : Linked} {accepted who : Nat}
  {c : Client}

theorem visit_attach (calm : core.Calm journal) (flags : UInt32) (connected : c.state ≠ .disconnected) :
    Zipper.visit (answerOf (.attach who flags)) ⟨core, front, (who, c) :: back, lost, accepted, none⟩ =
      some ⟨core.keep who,
        (around (flags &&& clientLowpriority ≠ 0) front back).1 ++
          [(who, { c with flags := flags, attachSeen := true })],
        (around (flags &&& clientLowpriority ≠ 0) front back).2, lost, accepted, none⟩ := by
  have comes : (answerOf (.attach who flags)).recv who =
      some (some (Received.of ⟨msgAttach, u32ToNeBytes flags⟩)) := by
    obtain ⟨fits, comes⟩ := RoomEvent.comes_attach who flags
    rw [answerOf_recv, comes]
    rfl
  have given : (Received.of ⟨msgAttach, u32ToNeBytes flags⟩).i = flags := by
    rw [Received.i, Received.of, List.take_of_length_le (by simp), u32FromNeBytes_toNeBytes]
  have received : Zipper.received ⟨core, front, (who, c) :: back, lost, accepted, none⟩
      (answerOf (.attach who flags)) who c = (core, { c with flags := flags, attachSeen := true }) := by
    rw [Zipper.received, comes, receive, respond_attach _ _ _ _ rfl, given]
    exact congrArg (fun pkts => (core, (sendAll pkts _).2)) (replay_empty calm.history)
  have sink : sinks (some (some (Received.of ⟨msgAttach, u32ToNeBytes flags⟩))) =
      decide (flags &&& clientLowpriority ≠ 0) := by
    rw [sinks, given]
    simp [Received.of]
  rw [visit_keep rfl (by rw [received]; exact connected), received, comes, sink, serve_calm calm]

theorem visit_resize (calm : core.Calm journal) (ws : Winsize) :
    ∃ core', core'.Calm (journal ++ ((if c.flags &&& clientReadonly = 0 ∧ front.isEmpty
        then [.resized who ws.rows ws.cols] else []) ++ [.signalled .winch])) ∧
      Zipper.visit (answerOf (.resize who ws)) ⟨core, front, (who, c) :: back, lost, accepted, none⟩ =
        some ⟨core', front ++ [(who, { c with state := .attached })], back, lost, accepted, none⟩ := by
  have comes : (answerOf (.resize who ws)).recv who =
      some (some (Received.of ⟨msgResize, ws.bytes⟩)) := by
    obtain ⟨fits, comes⟩ := RoomEvent.comes_resize who ws
    rw [answerOf_recv, comes]
    rfl
  have received : Zipper.received ⟨core, front, (who, c) :: back, lost, accepted, none⟩
      (answerOf (.resize who ws)) who c =
        ((if c.flags &&& clientReadonly = 0 ∧ front.isEmpty
          then core.setWinsize who (Received.of ⟨msgResize, ws.bytes⟩) else core).kill,
          { c with state := .attached }) := by
    rw [Zipper.received, comes, receive, respond_resize _ _ _ _ rfl]
    rfl
  have calm' : Core.Calm (if c.flags &&& clientReadonly = 0 ∧ front.isEmpty
      then core.setWinsize who (Received.of ⟨msgResize, ws.bytes⟩) else core).kill
      (journal ++ ((if c.flags &&& clientReadonly = 0 ∧ front.isEmpty
        then [.resized who ws.rows ws.cols] else []) ++ [.signalled .winch])) := by
    split
    · exact ⟨calm.running, calm.exitPacketDelivered, calm.history, by
        rw [← calm.journal, ← List.append_assoc]
        rfl⟩
    · exact ⟨calm.running, calm.exitPacketDelivered, calm.history, by
        rw [← calm.journal]
        rfl⟩
  refine ⟨_, calm'.keep who, ?_⟩
  rw [visit_keep rfl (by rw [received]; simp), received, comes, serve_calm calm']
  rfl

theorem visit_disconnect (core : Core) :
    Zipper.visit (answerOf (.disconnect who)) ⟨core, front, (who, c) :: back, lost, accepted, none⟩ =
      some ⟨core.drop who { c with state := .disconnected }, front,
        if front = [] then nudge back else back, lost, accepted, none⟩ := by
  have comes : (answerOf (.disconnect who)).recv who = some none := by
    rw [answerOf_recv, RoomEvent.comes_disconnect]
    rfl
  have received : Zipper.received ⟨core, front, (who, c) :: back, lost, accepted, none⟩
      (answerOf (.disconnect who)) who c = (core, { c with state := .disconnected }) := by
    rw [Zipper.received, comes]
    rfl
  rw [visit_still rfl (by simp [comes, sinks]), received, if_pos rfl]

end Comes

/-! ## An iteration -/

section Iteration

variable {l : Listing} {room : Room} {left rounds : Nat} {journal journal' : List PtyEntry}
  {event : RoomEvent} {front back clients lost : Linked} {accepted who : Nat} {c : Client} {core : Core}

theorem Core.Calm.clear (calm : core.Calm journal) : core.clear.Calm journal :=
  ⟨calm.running, calm.exitPacketDelivered, calm.history, calm.journal⟩

theorem select_accept (calm : core.Calm journal) :
    Listing.select (selectedOf rounds .accept) ⟨core, clients, lost, accepted⟩ =
      Zipper.next ⟨{ core.clear with readPty := true }, [],
        (accepted, newClient core.pid (List.replicate rounds (.ok (8 + maxPayload)))) :: clients, lost,
        accepted + 1, none⟩ := by
  rw [Listing.select, if_neg (by simp [calm.exitPacketDelivered])]
  rfl

theorem select_other (calm : core.Calm journal) (other : event ≠ .accept) :
    Listing.select (selectedOf rounds event) ⟨core, clients, lost, accepted⟩ =
      Zipper.next ⟨core.clear, [], clients, lost, accepted, none⟩ := by
  rw [Listing.select, if_neg (by simp [calm.exitPacketDelivered]), selectedOf, if_neg other]
  rfl

theorem iteration_loop {next : Listing}
    (done : runSteps pictureStep (List.replicate rounds (.visit (answerOf event)))
      (Zipper.next ⟨core.clear, [], clients, lost, accepted, none⟩) = .selecting next)
    (calm : core.Calm journal) (other : event ≠ .accept) :
    runSteps pictureStep (iteration rounds event) (.selecting ⟨core, clients, lost, accepted⟩) =
      .selecting next := by
  rw [iteration, runSteps_cons, pictureStep, select_other calm other, done]

theorem quiet_of (willing : ∀ node ∈ clients, node.2.Willing left)
    (absent : ∀ place ∈ clients.map seat, event.source ≠ some place.1) :
    ∀ node ∈ clients, Quiet (answerOf event) node := by
  intro node member
  refine ⟨?_, (willing node member).connected⟩
  have other : event.source ≠ some node.1 := absent _ (List.mem_map_of_mem member)
  rw [answerOf_recv, RoomEvent.comes_other other]
  rfl

theorem iteration_accept (follows : l.Follows room (left + 1) journal) (less : left < rounds)
    (enough : l.clients.length < rounds) :
    ∃ next, runSteps pictureStep (iteration rounds .accept) (.selecting l) = .selecting next ∧
      next.Follows (room.step .accept) left journal := by
  obtain ⟨core, clients, lost, accepted⟩ := l
  obtain ⟨calm, same, seats, willing⟩ := follows
  dsimp only at calm same seats willing enough
  obtain ⟨new, flags⟩ := newClient_willing core.pid less
  have calm' : Core.Calm { core.clear with readPty := true } journal :=
    ⟨calm.running, calm.exitPacketDelivered, calm.history, calm.journal⟩
  have willing' : ∀ node ∈ (accepted, newClient core.pid (List.replicate rounds (.ok (8 + maxPayload)))) ::
      clients, node.2.Willing left := by
    intro node member
    rcases List.mem_cons.mp member with rfl | member
    · exact new
    · exact (willing node member).mono
  obtain ⟨core', calm'', _, done⟩ := @walk_rest (answerOf .accept) _ [] _ lost journal (accepted + 1) rfl
    calm' (quiet_of willing' fun _ _ => nofun) rounds enough
  refine ⟨⟨core', _, lost, accepted + 1⟩, ?_, calm'', congrArg (· + 1) same, ?_, willing'⟩
  · rw [iteration, runSteps_cons, pictureStep, select_accept calm, done, List.nil_append]
  · rw [Room.step, ← seats, ← same, List.map_cons, seat, flags]

theorem iteration_absent (follows : l.Follows room (left + 1) journal) (other : event ≠ .accept)
    (absent : ∀ who ∈ room.ids, event.source ≠ some who) (enough : l.clients.length < rounds) :
    ∃ next, runSteps pictureStep (iteration rounds event) (.selecting l) = .selecting next ∧
      next.Follows (room.step event) left journal := by
  obtain ⟨core, clients, lost, accepted⟩ := l
  obtain ⟨calm, same, seats, willing⟩ := follows
  dsimp only at calm same seats willing enough
  have absent' : ∀ place ∈ clients.map seat, event.source ≠ some place.1 := by
    intro place member
    rw [seats] at member
    exact absent _ (List.mem_map_of_mem member)
  obtain ⟨core', calm', _, done⟩ := @walk_rest (answerOf event) _ [] clients lost journal accepted rfl
    calm.clear (quiet_of willing absent') rounds (Nat.le_of_lt enough)
  refine ⟨_, iteration_loop done calm other, calm', ?_, ?_, fun node member =>
    (willing node member).mono⟩
  · rw [Room.step_absent other absent]
    exact same
  · rw [Room.step_absent other absent]
    exact seats

theorem around_middle (sink : Bool) (before rest : Linked) (node : Nat × Client) :
    (around sink before rest).1 ++ node :: (around sink before rest).2 =
      if sink then (before ++ node :: rest).rotate 1 else before ++ node :: rest := by
  cases sink with
  | false => rfl
  | true => cases before <;> simp [around]

theorem around_length (sink : Bool) (before rest : Linked) :
    (around sink before rest).2.length ≤ rest.length + 1 := by
  cases sink with
  | false => exact Nat.le_succ _
  | true => cases before <;> simp [around]

theorem nudge_willing (willing : ∀ node ∈ clients, node.2.Willing (left + 1)) :
    (∀ node ∈ nudge clients, node.2.Willing left) ∧ (nudge clients).map seat = clients.map seat := by
  cases clients with
  | nil => exact ⟨nofun, rfl⟩
  | cons node rest =>
    obtain ⟨told, flags⟩ := (willing node (.head _)).send resizePacket_fits
    refine ⟨fun other member => ?_, ?_⟩
    · rcases List.mem_cons.mp member with rfl | member
      · exact told
      · exact (willing other (.tail _ member)).mono
    · rw [nudge, List.map_cons, List.map_cons, seat, flags, seat]

section Seated

def listing (core : Core) (front : Linked) (who : Nat) (c : Client) (back lost : Linked)
    (accepted : Nat) : Listing :=
  ⟨core, front ++ (who, c) :: back, lost, accepted⟩

def roomOf (accepted : Nat) (front : Linked) (who : Nat) (c : Client) (back : Linked) : Room :=
  ⟨accepted, front.map seat ++ (who, c.flags) :: back.map seat⟩

theorem quiet_others (willing : ∀ node ∈ front ++ (who, c) :: back, node.2.Willing left)
    (sound : (roomOf accepted front who c back).Sound) (source : event.source = some who) :
    ∀ node ∈ front ++ back, Quiet (answerOf event) node := by
  have others : ∀ node ∈ front ++ back, node.2.Willing left := by
    intro node member
    apply willing
    simp only [List.mem_append, List.mem_cons] at member ⊢
    tauto
  refine quiet_of others fun place member same => ?_
  rw [source] at same
  rw [List.map_append] at member
  exact sound.middle place member (Option.some.inj same).symm

theorem willing_middle {next : Client}
    (willing : ∀ node ∈ front ++ (who, c) :: back, node.2.Willing (left + 1))
    (new : next.Willing left) : ∀ node ∈ front ++ (who, next) :: back, node.2.Willing left := by
  intro node member
  rcases List.mem_append.mp member with ahead | member
  · exact (willing node (List.mem_append_left _ ahead)).mono
  · rcases List.mem_cons.mp member with rfl | behind
    · exact new
    · exact (willing node (List.mem_append_right _ (.tail _ behind))).mono

theorem iteration_attach
    (follows : (listing core front who c back lost accepted).Follows
      (roomOf accepted front who c back) (left + 1) journal)
    (sound : (roomOf accepted front who c back).Sound)
    (enough : (front ++ (who, c) :: back).length < rounds) (flags : UInt32) :
    ∃ next, runSteps pictureStep (iteration rounds (.attach who flags))
        (.selecting (listing core front who c back lost accepted)) = .selecting next ∧
      next.Follows ((roomOf accepted front who c back).step (.attach who flags)) left journal := by
  have calm : core.Calm journal := follows.calm
  have willing := follows.willing
  have quiet := @quiet_others (left + 1) (.attach who flags) front back accepted who c willing sound rfl
  have current : c.Willing (left + 1) := willing (who, c) (by simp [listing])
  have bound := around_length (flags &&& clientLowpriority ≠ 0) front back
  have placed := around_middle (flags &&& clientLowpriority ≠ 0) front back
    (who, { c with flags := flags, attachSeen := true })
  rw [List.length_append, List.length_cons] at enough
  obtain ⟨core', calm', done⟩ := @walk_one (answerOf (.attach who flags)) who c core.clear front back
    _ _ lost journal journal accepted rfl calm.clear
    (fun node member => quiet node (List.mem_append_left _ member))
    (fun core calm => ⟨core.keep who, calm.keep who, visit_attach calm flags current.connected⟩)
    (fun node member => quiet node (mem_around.mp (List.mem_append_right _ member))) rounds (by omega)
  rw [List.append_assoc, List.singleton_append, placed] at done
  refine ⟨_, iteration_loop done calm nofun, calm', ?_, ?_, ?_⟩
  · rw [roomOf, Room.attach_middle sound]
  · rw [roomOf, Room.attach_middle sound]
    split <;> simp_all [seat]
  · intro node member
    have new : Client.Willing left { c with flags := flags, attachSeen := true } :=
      ⟨current.connected, current.mono.writes⟩
    refine willing_middle willing new node ?_
    split at member
    · exact List.mem_rotate.mp member
    · exact member

theorem iteration_resize
    (follows : (listing core front who c back lost accepted).Follows
      (roomOf accepted front who c back) (left + 1) journal)
    (sound : (roomOf accepted front who c back).Sound)
    (enough : (front ++ (who, c) :: back).length < rounds) (ws : Winsize) :
    ∃ next journal', runSteps pictureStep (iteration rounds (.resize who ws))
        (.selecting (listing core front who c back lost accepted)) = .selecting next ∧
      next.Follows (roomOf accepted front who c back) left journal' ∧
      sizesOf journal' =
        sizesOf journal ++ (roomOf accepted front who c back).granted (.resize who ws) := by
  have calm : core.Calm journal := follows.calm
  have willing := follows.willing
  have quiet := @quiet_others (left + 1) (.resize who ws) front back accepted who c willing sound rfl
  have current : c.Willing (left + 1) := willing (who, c) (by simp [listing])
  rw [List.length_append, List.length_cons] at enough
  obtain ⟨core', calm', done⟩ := @walk_one (answerOf (.resize who ws)) who c core.clear front back
    _ _ lost journal _ accepted rfl calm.clear
    (fun node member => quiet node (List.mem_append_left _ member))
    (fun core calm => visit_resize calm ws)
    (fun node member => quiet node (List.mem_append_right _ member)) rounds (by omega)
  rw [List.append_assoc, List.singleton_append] at done
  refine ⟨_, _, iteration_loop done calm nofun, ⟨calm', rfl, ?_, ?_⟩, ?_⟩
  · simp [roomOf, seat]
  · exact willing_middle willing ⟨nofun, current.mono.writes⟩
  · have decider := Room.decider_middle sound
    rw [sizesOf_append, sizesOf_append, Room.granted]
    simp only [roomOf, decider, List.isEmpty_map]
    split <;> rfl

theorem iteration_disconnect
    (follows : (listing core front who c back lost accepted).Follows
      (roomOf accepted front who c back) (left + 1) journal)
    (sound : (roomOf accepted front who c back).Sound)
    (enough : (front ++ (who, c) :: back).length < rounds) :
    ∃ next, runSteps pictureStep (iteration rounds (.disconnect who))
        (.selecting (listing core front who c back lost accepted)) = .selecting next ∧
      next.Follows ((roomOf accepted front who c back).step (.disconnect who)) left journal := by
  have calm : core.Calm journal := follows.calm
  have willing := follows.willing
  have quiet := @quiet_others (left + 1) (.disconnect who) front back accepted who c willing sound rfl
  have ahead : ∀ node ∈ front, node.2.Willing (left + 1) := fun node member =>
    willing node (List.mem_append_left _ member)
  have behind : ∀ node ∈ back, node.2.Willing (left + 1) := fun node member =>
    willing node (List.mem_append_right _ (.tail _ member))
  -- the new head, if there is one, was sent a packet
  have told : (∀ node ∈ (if front = [] then nudge back else back), node.2.Willing left) ∧
      (if front = [] then nudge back else back).map seat = back.map seat := by
    split
    · exact nudge_willing behind
    · exact ⟨fun node member => (behind node member).mono, rfl⟩
  have others : ∀ place ∈ (if front = [] then nudge back else back).map seat,
      RoomEvent.source (.disconnect who) ≠ some place.1 := by
    rw [told.2]
    intro place member same
    exact sound.middle place (List.mem_append_right _ member) (Option.some.inj same).symm
  have length := congrArg List.length told.2
  rw [List.length_map, List.length_map] at length
  rw [List.length_append, List.length_cons] at enough
  obtain ⟨core', calm', done⟩ := @walk_one (answerOf (.disconnect who)) who c core.clear front back
    _ _ lost journal journal accepted rfl calm.clear
    (fun node member => quiet node (List.mem_append_left _ member))
    (fun core calm => ⟨core.drop who { c with state := .disconnected }, calm.drop who _,
      visit_disconnect core⟩)
    (quiet_of told.1 others) rounds (by omega)
  refine ⟨_, iteration_loop done calm nofun, calm', ?_, ?_, ?_⟩
  · rw [roomOf, Room.disconnect_middle sound]
  · rw [roomOf, Room.disconnect_middle sound, List.map_append, told.2]
  · intro node member
    rcases List.mem_append.mp member with member | member
    · exact (ahead node member).mono
    · exact told.1 node member

end Seated

theorem iteration_follows (follows : l.Follows room (left + 1) journal) (sound : room.Sound)
    (less : left < rounds) (enough : l.clients.length < rounds) (event : RoomEvent) :
    ∃ next journal', runSteps pictureStep (iteration rounds event) (.selecting l) = .selecting next ∧
      next.Follows (room.step event) left journal' ∧
      sizesOf journal' = sizesOf journal ++ room.granted event := by
  by_cases comes : event = .accept
  · subst comes
    obtain ⟨next, run, follows'⟩ := iteration_accept follows less enough
    exact ⟨next, journal, run, follows', (List.append_nil _).symm⟩
  by_cases absent : ∀ who ∈ room.ids, event.source ≠ some who
  · obtain ⟨next, run, follows'⟩ := iteration_absent follows comes absent enough
    refine ⟨next, journal, run, follows', ?_⟩
    rw [Room.granted_absent absent, List.append_nil]
  · simp only [not_forall, not_not, exists_prop] at absent
    obtain ⟨who, member, source⟩ := absent
    obtain ⟨core, clients, lost, accepted⟩ := l
    obtain ⟨accepted', seats⟩ := room
    obtain rfl : accepted = accepted' := follows.accepted
    obtain rfl : clients.map seat = seats := follows.seats
    rw [Room.ids, List.map_map] at member
    obtain ⟨⟨_, c⟩, inside, rfl⟩ := List.mem_map.mp member
    obtain ⟨front, back, rfl⟩ := List.append_of_mem inside
    simp only [List.map_append, List.map_cons] at follows sound ⊢
    cases event with
    | accept => exact absurd rfl comes
    | attach who flags =>
      cases source
      obtain ⟨next, run, follows'⟩ := iteration_attach follows sound enough flags
      exact ⟨next, journal, run, follows', (List.append_nil _).symm⟩
    | resize who ws =>
      cases source
      exact iteration_resize follows sound enough ws
    | disconnect who =>
      cases source
      obtain ⟨next, run, follows'⟩ := iteration_disconnect follows sound enough
      exact ⟨next, journal, run, follows', (List.append_nil _).symm⟩

theorem idling_follows (follows : l.Follows room left journal) (enough : l.clients.length ≤ rounds) :
    ∃ next, runSteps pictureStep (idling rounds) (.selecting l) = .selecting next ∧
      next.Follows room left journal ∧ ∀ who ∈ room.ids, who ∈ next.core.armed := by
  obtain ⟨core, clients, lost, accepted⟩ := l
  obtain ⟨calm, same, seats, willing⟩ := follows
  dsimp only at calm same seats willing enough
  have woken : Listing.select ⟨false, none, some (.err .interrupted), none⟩
      ⟨core, clients, lost, accepted⟩ =
        Zipper.next ⟨core.clear, [], clients, lost, accepted, none⟩ := by
    rw [Listing.select, if_neg (by simp [calm.exitPacketDelivered])]
    rfl
  obtain ⟨core', calm', armed, done⟩ := @walk_rest ⟨fun _ => none, none⟩ core.clear [] clients lost
    journal accepted rfl calm.clear (fun node member => ⟨rfl, (willing node member).connected⟩) rounds
    enough
  refine ⟨⟨core', clients, lost, accepted⟩, ?_, ⟨calm', same, seats, willing⟩, ?_⟩
  · rw [idling, runSteps_cons, pictureStep, woken, done]
    rfl
  · intro who member
    rw [Room.ids, ← seats, List.map_map] at member
    dsimp only
    rw [armed]
    exact List.mem_append_right _ member

def Picture.watches (picture : Picture) (who : Nat) : Bool :=
  match picture with
  | .selecting l => who ∈ l.core.armed
  | _ => false

theorem Picture.Represents.watches {p : Picture} {m : Machine} (same : p.Represents m) :
    p.watches = m.watches := by
  funext who
  cases same with
  | selecting same => simp only [Picture.watches, Machine.watches, same.core]
  | walking => rfl
  | exited => rfl
  | fault => rfl

theorem deliver_represents (rounds : Nat) (event : RoomEvent) (p : Picture) (m : Machine)
    (same : p.Represents m) :
    (deliver pictureStep Picture.watches rounds event p).Represents
      (deliver step Machine.watches rounds event m) := by
  rw [deliver, deliver, same.watches]
  split
  · exact runSteps_simulate step_represents _ same
  · exact runSteps_simulate step_represents _ (runSteps_simulate step_represents _ same)

theorem deliver_woken (follows : l.Follows room left journal) (enough : l.clients.length ≤ rounds)
    (event : RoomEvent) :
    ∃ woken, deliver pictureStep Picture.watches rounds event (.selecting l) =
        runSteps pictureStep (iteration rounds event) (.selecting woken) ∧
      woken.Follows room left journal ∧
      ∀ who ∈ event.source, who ∈ room.ids → who ∈ woken.core.armed := by
  rw [deliver]
  split
  · next watched =>
    refine ⟨l, rfl, follows, fun who source _ => ?_⟩
    rw [Option.mem_def.mp source] at watched
    exact of_decide_eq_true watched
  · obtain ⟨woken, run, follows', watched⟩ := idling_follows follows enough
    rw [run]
    exact ⟨woken, rfl, follows', fun who _ => watched who⟩

theorem deliver_follows (follows : l.Follows room (left + 1) journal) (sound : room.Sound)
    (less : left < rounds) (enough : l.clients.length < rounds) (event : RoomEvent) :
    ∃ next journal', deliver pictureStep Picture.watches rounds event (.selecting l) =
        .selecting next ∧ next.Follows (room.step event) left journal' ∧
      sizesOf journal' = sizesOf journal ++ room.granted event := by
  obtain ⟨woken, run, follows', _⟩ := deliver_woken follows (Nat.le_of_lt enough) event
  rw [run]
  rw [follows.length, ← follows'.length] at enough
  exact iteration_follows follows' sound less enough event

theorem delivered_follow {events : List RoomEvent}
    (follows : l.Follows room events.length journal) (sound : room.Sound)
    (enough : room.seats.length + events.length < rounds) :
    ∃ next journal', runSteps (deliver pictureStep Picture.watches rounds) events (.selecting l) =
        .selecting next ∧ next.core.journal = journal' ∧
      sizesOf journal' = sizesOf journal ++ emitted Room.step Room.granted events room := by
  induction events generalizing l room journal with
  | nil => exact ⟨l, journal, rfl, follows.calm.journal, (List.append_nil _).symm⟩
  | cons event events ih =>
    rw [List.length_cons] at enough
    have clients := follows.length
    obtain ⟨middle, journal', run, follows', sizes⟩ :=
      @deliver_follows l room events.length rounds journal follows sound (by omega) (by omega) event
    have grows := room.step_length event
    obtain ⟨next, journal'', run', last, sizes'⟩ := ih follows' (sound.step event) (by omega)
    refine ⟨next, journal'', ?_, last, ?_⟩
    · rw [runSteps_cons, run, run']
    · rw [sizes', sizes, List.append_assoc]
      rfl

end Iteration

theorem Picture.Represents.journal {l : Listing} {m : Machine} (same : Picture.Represents (.selecting l) m) :
    m.journal = l.core.journal := by
  cases same with
  | selecting same => rw [Machine.journal, same.core]

-- The sizes that the C program sets are those that the room grants.
theorem sizes_eq (pid : UInt64) (readPty : Bool) (ptyWrites : List WriteAnswer)
    (events : List RoomEvent) :
    sizes pid readPty ptyWrites events = emitted Room.step Room.granted events Room.empty := by
  have start : Listing.Follows ⟨(Server.start pid readPty ptyWrites).core, [], [], 0⟩ Room.empty
      events.length [] := ⟨⟨rfl, rfl, rfl, rfl⟩, rfl, rfl, nofun⟩
  obtain ⟨next, journal, run, last, sizes'⟩ := @delivered_follow _ _ (events.length + 1) _ events start
    Room.empty_sound (by simp [Room.empty])
  have same := runSteps_simulate (deliver_represents (events.length + 1)) events
    (start_represents pid readPty ptyWrites)
  rw [run] at same
  rw [sizes, same.journal, last, sizes']
  rfl

end Lich.C
