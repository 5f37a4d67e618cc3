import Lich.C.Listing

/-! Whether the C program's loop comes to every client.

A visit that leaves the order of the list alone is counted against the clients
still to come. Moving the head loses count: the others are skipped, or the head
is put behind the current client and is come to once more.
-/

set_option autoImplicit false

namespace Lich.C

open Foundation Foundation.Chain

def Server.loop (s : Server) (serverPacket : Option Packet) : Machine :=
  Walk.next ⟨{ s with core := s.core.clear }, .head, s.chain.head, serverPacket⟩

def visitsWith (dropped : Bool) (visits : List Visit) : List Nat :=
  (visits.filter fun visit => visit.dropped = dropped).map Visit.client

/-- The last packet of pty output that a client has been sent is this one, and it
was sent in addition to what was before. -/
def Client.SentPty (old c : Client) (pkt : Packet) : Prop :=
  ∃ earlier taken later, c.sends = old.sends ++ earlier ++ ⟨pkt, taken⟩ :: later ∧
    ∀ send ∈ later, send.pkt.typ ≠ msgContent

/-- The loop has come to each of the clients once, has kept all but those it gave
up, has served these and has freed the others. -/
structure Served (s : Server) (clients : Linked) (serverPacket : Option Packet) (after : Server) :
    Prop where
  visited : (after.core.visits.map Visit.client).Perm (addresses clients)
  kept : ∃ final, after.chain.Holds final ∧
    (addresses final).Perm (visitsWith false after.core.visits) ∧
    after.core.armed.Perm (addresses final) ∧
    ∀ node ∈ final, ∃ old, (node.1, old) ∈ clients ∧
      ∀ pkt ∈ serverPacket, Client.SentPty old node.2 pkt
  freed : ∃ gone, after.core.freed = s.core.freed ++ gone ∧
    (addresses gone).Perm (visitsWith true after.core.visits) ∧
    ∀ node ∈ gone, node.2.state = .disconnected

/-- The visit has the head of the list moved behind the last client, with another
one in the list. -/
def Moves (machine : Machine) (event : Event) : Prop :=
  ∃ w answer a first second rest, machine = .walking w ∧ event = .visit answer ∧ w.c = some a ∧
    sinks (answer.recv a) = true ∧ w.server.chain.Holds (first :: second :: rest)

/-! ## What a visit adds -/

section Visits

variable {answer : Answer} {z next : Zipper} {a : Nat} {c : Client} {rest : Linked}

theorem received_sends (z : Zipper) (answer : Answer) (a : Nat) (c : Client) :
    ∃ extra, (z.received answer a c).2.sends = c.sends ++ extra := by
  rw [Zipper.received]
  rcases answer.recv a with _ | _ | pkt
  · exact ⟨[], (List.append_nil _).symm⟩
  · exact ⟨[], (List.append_nil _).symm⟩
  · simp only [receive, respond]
    split_ifs
    · exact ⟨[], (List.append_nil _).symm⟩
    · exact sendAll_sends _ _
    · exact sendAll_sends _ _
    all_goals exact ⟨[], (List.append_nil _).symm⟩

theorem nudge_sends {list : Linked} {node : Nat × Client} (member : node ∈ nudge list) :
    ∃ old, (node.1, old) ∈ list ∧ ∃ extra, node.2.sends = old.sends ++ extra := by
  cases list with
  | nil => cases member
  | cons first rest =>
    rcases List.mem_cons.mp member with rfl | member
    · exact ⟨first.2, .head _, serverSendPacket_sends _ _⟩
    · exact ⟨node.2, .tail _ member, [], (List.append_nil _).symm⟩

theorem serve_sentPty (core : Core) {serverPacket : Option Packet}
    (fits : ∀ pkt ∈ serverPacket, pkt.Fits) {old : Client}
    (grown : ∃ extra, c.sends = old.sends ++ extra) :
    ∀ pkt ∈ serverPacket, Client.SentPty old (core.serve serverPacket c) pkt := by
  rintro pkt rfl
  obtain ⟨extra, sends⟩ := grown
  obtain ⟨taken, later, ok, sent, _⟩ := serverSendPacket_after c (fits pkt rfl)
  simp only [Core.serve, sendPtyData, sent]
  by_cases exiting : core.running = false ∧ core.exitStatus ≠ -1
  · obtain ⟨taken', later', ok', sent', _⟩ := serverSendPacket_after (c.after [⟨pkt, taken⟩] later ok)
      (exitPacket_fits core.exitStatus)
    rw [if_pos exiting, sent']
    refine ⟨extra, taken, [⟨exitPacket core.exitStatus, taken'⟩], by simp [sends], ?_⟩
    intro send member
    rw [List.mem_singleton.mp member]
    exact (by decide : msgExit ≠ msgContent)
  · rw [if_neg exiting]
    exact ⟨extra, taken, [], by simp [sends], by simp⟩

end Visits

theorem visitsWith_append (dropped : Bool) (visits : List Visit) (visit : Visit) :
    visitsWith dropped (visits ++ [visit]) =
      visitsWith dropped visits ++ if visit.dropped = dropped then [visit.client] else [] := by
  rw [visitsWith, List.filter_append, List.map_append, visitsWith]
  by_cases same : visit.dropped = dropped <;> simp [same]

/-! ## With nothing moved -/

structure Progress (start : Core) (clients : Linked) (z : Zipper) : Prop where
  visited : z.core.visits.map Visit.client ++ addresses z.todo = addresses clients
  kept : addresses z.before = visitsWith false z.core.visits
  armed : z.core.armed = addresses z.before
  freed : ∃ gone, z.core.freed = start.freed ++ gone ∧
    addresses gone = visitsWith true z.core.visits ∧ ∀ node ∈ gone, node.2.state = .disconnected
  todo : ∀ node ∈ z.todo, ∃ old, (node.1, old) ∈ clients ∧ ∃ extra, node.2.sends = old.sends ++ extra
  sent : ∀ node ∈ z.before, ∃ old, (node.1, old) ∈ clients ∧
    ∀ pkt ∈ z.serverPacket, Client.SentPty old node.2 pkt
  fits : ∀ pkt ∈ z.serverPacket, pkt.Fits

section Progress

variable {start : Core} {clients rest : Linked} {z : Zipper} {answer : Answer} {a : Nat} {c : Client}

theorem Progress.drop (progress : Progress start clients z) (todo : z.todo = (a, c) :: rest)
    (dropped : (z.received answer a c).2.state = .disconnected) :
    Progress start clients { z with
      core := (z.received answer a c).1.drop a (z.received answer a c).2
      todo := if z.before = [] then nudge rest else rest } := by
  obtain ⟨visits, armed, freed⟩ := received_visits z answer a c
  obtain ⟨gone, freed', places, states⟩ := progress.freed
  have visited := progress.visited
  have old := progress.todo
  rw [todo] at visited old
  have same : addresses (if z.before = [] then nudge rest else rest) = addresses rest := by
    split <;> simp
  refine ⟨?_, ?_, armed.trans progress.armed, ?_, ?_, progress.sent, progress.fits⟩
  · simp only [Core.drop, visits, same, List.map_append, List.map_cons, List.map_nil,
      List.append_assoc]
    exact visited
  · simp only [Core.drop, visits, visitsWith_append]
    simpa using progress.kept
  · refine ⟨gone ++ [(a, (z.received answer a c).2)], ?_, ?_, ?_⟩
    · simp only [Core.drop, freed, freed', List.append_assoc]
    · simp only [Core.drop, visits, visitsWith_append, addresses_append, places]
      rfl
    · intro node member
      rcases List.mem_append.mp member with member | member
      · exact states node member
      · rw [List.mem_singleton.mp member]
        exact dropped
  · intro node member
    dsimp only at member
    by_cases head : z.before = []
    · rw [if_pos head] at member
      obtain ⟨told, inside, more, sends⟩ := nudge_sends member
      obtain ⟨first, present, extra, sends'⟩ := old _ (.tail _ inside)
      exact ⟨first, present, extra ++ more, by rw [sends, sends', List.append_assoc]⟩
    · rw [if_neg head] at member
      exact old node (.tail _ member)

theorem Progress.keep (progress : Progress start clients z) (todo : z.todo = (a, c) :: rest) :
    Progress start clients { z with
      core := (z.received answer a c).1.keep a
      before := z.before ++
        [(a, (z.received answer a c).1.serve z.serverPacket (z.received answer a c).2)]
      todo := rest } := by
  obtain ⟨visits, armed, freed⟩ := received_visits z answer a c
  obtain ⟨extra, sends⟩ := received_sends z answer a c
  obtain ⟨gone, freed', places, states⟩ := progress.freed
  have visited := progress.visited
  have old := progress.todo
  rw [todo] at visited old
  refine ⟨?_, ?_, ?_, ⟨gone, freed.trans freed', ?_, states⟩, ?_, ?_, progress.fits⟩
  · simp only [Core.keep, visits, List.map_append, List.map_cons, List.map_nil, List.append_assoc]
    exact visited
  · simp only [Core.keep, visits, visitsWith_append, addresses_append, progress.kept]
    rfl
  · simp only [Core.keep, armed, progress.armed, addresses_append]
    rfl
  · simp only [Core.keep, visits, visitsWith_append]
    simpa using places
  · intro node member
    exact old node (.tail _ member)
  · intro node member
    rcases List.mem_append.mp member with member | member
    · exact progress.sent node member
    · rw [List.mem_singleton.mp member]
      obtain ⟨first, present, more, sends'⟩ := old _ (.head _)
      exact ⟨first, present, serve_sentPty _ progress.fits
        ⟨more ++ extra, by rw [sends, sends', List.append_assoc]⟩⟩

theorem Progress.visit (progress : Progress start clients z) (todo : z.todo = (a, c) :: rest)
    (still : sinks (answer.recv a) = true → z.before = [] ∧ rest = []) :
    ∃ next, z.visit answer = some next ∧ Progress start clients next ∧
      next.todo.length = rest.length ∧ next.serverPacket = z.serverPacket := by
  refine ⟨_, visit_still todo still, ?_⟩
  by_cases dropped : (z.received answer a c).2.state = .disconnected
  · rw [if_pos dropped]
    refine ⟨progress.drop todo dropped, ?_, rfl⟩
    dsimp only
    split
    · cases rest <;> rfl
    · rfl
  · rw [if_neg dropped]
    exact ⟨progress.keep todo, rfl, rfl⟩

def Still (picture : Picture) (event : Event) : Prop :=
  ∀ z answer a c rest, picture = .walking z → event = .visit answer → z.todo = (a, c) :: rest →
    sinks (answer.recv a) = true → z.before = [] ∧ rest = []

theorem Progress.loop {answers : List Answer} (progress : Progress start clients z)
    (enough : z.todo.length ≤ answers.length)
    (still : Along pictureStep Still (answers.map Event.visit) z.next) :
    ∃ last, runSteps pictureStep (answers.map Event.visit) z.next =
        .selecting ⟨last.core, last.before, last.lost, last.accepted⟩ ∧
      Progress start clients last ∧ last.todo = [] ∧ last.serverPacket = z.serverPacket := by
  induction answers generalizing z with
  | nil =>
    have none := List.length_eq_zero_iff.mp (Nat.le_zero.mp enough)
    exact ⟨z, by rw [List.map_nil, runSteps_nil, Zipper.next, if_pos none], progress, none, rfl⟩
  | cons answer answers ih =>
    cases todo : z.todo with
    | nil =>
      refine ⟨z, ?_, progress, todo, rfl⟩
      rw [Zipper.next, if_pos todo, runSteps_selecting]
    | cons node rest =>
      obtain ⟨a, c⟩ := node
      have next : z.next = .walking z := if_neg (by rw [todo]; exact List.cons_ne_nil _ _)
      rw [next] at still ⊢
      obtain ⟨first, later⟩ := still
      obtain ⟨after, done, progress', length, packet⟩ :=
        progress.visit todo (first z answer a c rest rfl rfl todo)
      have stepped : pictureStep (.visit answer) (.walking z) = after.next := by
        rw [pictureStep, done]
      rw [stepped] at later
      rw [List.map_cons, runSteps_cons, stepped]
      rw [todo, List.length_cons, List.length_cons] at enough
      obtain ⟨last, ends, progress'', none, packet'⟩ := ih progress' (by omega) later
      exact ⟨last, ends, progress'', none, packet'.trans packet⟩

end Progress

/-! ## With something moved -/

def Zipper.count (z : Zipper) : Nat := z.core.visits.length + z.todo.length

inductive Miscounted (count : Nat) : Picture → Prop where
  | walking {z : Zipper} : z.before ≠ [] → count < z.count → Miscounted count (.walking z)
  | selecting {l : Listing} : l.core.visits.length ≠ count → Miscounted count (.selecting l)
  | fault : Miscounted count .fault

section Counts

variable {z : Zipper} {answer : Answer} {a : Nat} {c : Client} {rest : Linked} {count : Nat}

theorem miscounted_next (before : z.before ≠ []) (more : count < z.count) :
    Miscounted count z.next := by
  rw [Zipper.next]
  by_cases todo : z.todo = []
  · rw [if_pos todo]
    rw [Zipper.count, todo, List.length_nil, Nat.add_zero] at more
    exact .selecting (Nat.ne_of_gt more)
  · rw [if_neg todo]
    exact .walking before more

theorem count_still (todo : z.todo = (a, c) :: rest)
    (still : sinks (answer.recv a) = true → z.before = [] ∧ rest = []) :
    ∃ next, z.visit answer = some next ∧ next.count = z.count ∧ (z.before ≠ [] → next.before ≠ []) := by
  obtain ⟨visits, _⟩ := received_visits z answer a c
  have length : (nudge rest).length = rest.length := by cases rest <;> rfl
  refine ⟨_, visit_still todo still, ?_, ?_⟩
  · rw [Zipper.count, Zipper.count, todo]
    split_ifs <;> simp [Core.drop, Core.keep, visits, length] <;> omega
  · intro some
    split_ifs <;> simp [some]

theorem count_moved (todo : z.todo = (a, c) :: rest) (moves : sinks (answer.recv a) = true)
    (before : z.before ≠ []) :
    match z.visit answer with
    | some next => next.count = z.count + 1 ∧ next.before ≠ []
    | none => True := by
  obtain ⟨visits, _⟩ := received_visits z answer a c
  obtain ⟨head, front, split⟩ := List.exists_cons_of_ne_nil before
  rw [Zipper.visit, todo]
  simp only [moves, around, if_true, split, reduceCtorEq, and_false, if_false, true_and]
  by_cases dropped : (z.received answer a c).2.state = .disconnected
  · rw [if_pos dropped]
    by_cases second : front = []
    · rw [if_pos second]
      trivial
    · rw [if_neg second, if_neg second]
      refine ⟨?_, second⟩
      simp [Zipper.count, Core.drop, visits, todo]
      omega
  · rw [if_neg dropped]
    refine ⟨?_, by simp⟩
    simp [Zipper.count, Core.keep, visits, todo]
    omega

theorem Miscounted.visit {p : Picture} (wrong : Miscounted count p) (answer : Answer) :
    Miscounted count (pictureStep (.visit answer) p) := by
  cases wrong with
  | selecting differs => exact .selecting differs
  | fault => exact .fault
  | @walking z before more =>
    rw [pictureStep]
    cases todo : z.todo with
    | nil =>
      have done : z.visit answer = some z := by rw [Zipper.visit, todo]
      rw [done]
      exact miscounted_next before more
    | cons node rest =>
      obtain ⟨a, c⟩ := node
      cases sink : sinks (answer.recv a) with
      | false =>
        have still : sinks (answer.recv a) = true → z.before = [] ∧ rest = [] := by simp [sink]
        obtain ⟨next, done, same, kept⟩ := count_still todo still
        rw [done]
        exact miscounted_next (kept before) (by omega)
      | true =>
        have moved := count_moved todo sink before
        cases done : z.visit answer with
        | none => exact .fault
        | some next =>
          rw [done] at moved
          exact miscounted_next moved.2 (by omega)

theorem Miscounted.visits {p : Picture} (wrong : Miscounted count p) (answers : List Answer) :
    Miscounted count (runSteps pictureStep (answers.map Event.visit) p) := by
  induction answers generalizing p with
  | nil => exact wrong
  | cons answer answers ih => exact ih (wrong.visit answer)

end Counts

/-! ## The machine on links -/

/-- The visits that the last loop has made. -/
def Machine.visits : Machine → List Visit
  | .selecting s => s.core.visits
  | .walking w => w.server.core.visits
  | .exited s => s.core.visits
  | .fault => []

end Lich.C
