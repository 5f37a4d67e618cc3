import Lich.RingHistory

/-! The C program's loop over the clients, on the list that the links spell out.

The loop stands between the clients before it and those still to come. What its
visits do to the memory is what `Zipper.visit` does to the two lists, so all that
is said of lists of clients is said of the program.
-/

set_option autoImplicit false

namespace Lich.C

open Foundation Foundation.Chain

/-- Clients in the order in which they are linked, with their addresses. -/
abbrev Linked := List (Nat × Client)

structure Zipper where
  core : Core
  before : Linked
  todo : Linked
  /-- clients in memory that nothing links to any more -/
  lost : Linked
  accepted : Nat
  serverPacket : Option Packet

/-! ## A visit -/

/-- Whether what is received has the head of the list moved behind the last client. -/
def sinks : Option (Option Received) → Bool
  | some (some pkt) => pkt.typ = msgAttach ∧ pkt.i &&& clientLowpriority ≠ 0
  | _ => false

def respond (core : Core) (a : Nat) (atHead : Bool) (c : Client) (pkt : Received) : Core × Client :=
  if pkt.typ = msgContent ∨ pkt.typ = msgSendKeys then (core.writePty a pkt, c)
  else if pkt.typ = msgAttach then
    (core, (sendAll (replay core.history false) { c with flags := pkt.i, attachSeen := true }).2)
  else if pkt.typ = msgDump then
    (core, { (sendAll (replay core.history true) c).2 with state := .disconnected })
  else if pkt.typ = msgResize then
    ((if c.flags &&& clientReadonly = 0 ∧ atHead then core.setWinsize a pkt else core).kill,
      { c with state := .attached })
  else if pkt.typ = msgExit then
    ({ core with exitPacketDelivered := true }, { c with state := .disconnected })
  else if pkt.typ = msgDetach then (core, { c with state := .disconnected })
  else (core, c)

theorem respond_attach (core : Core) (a : Nat) (atHead : Bool) (c : Client) {pkt : Received}
    (attach : pkt.typ = msgAttach) :
    respond core a atHead c pkt =
      (core, (sendAll (replay core.history false) { c with flags := pkt.i, attachSeen := true }).2) := by
  rw [respond, if_neg (by rw [attach]; decide), if_pos attach]

theorem respond_resize (core : Core) (a : Nat) (atHead : Bool) (c : Client) {pkt : Received}
    (resize : pkt.typ = msgResize) :
    respond core a atHead c pkt =
      ((if c.flags &&& clientReadonly = 0 ∧ atHead then core.setWinsize a pkt else core).kill,
        { c with state := .attached }) := by
  rw [respond, if_neg (by rw [resize]; decide), if_neg (by rw [resize]; decide),
    if_neg (by rw [resize]; decide), if_pos resize]

def receive (core : Core) (a : Nat) (atHead : Bool) (c : Client) :
    Option (Option Received) → Core × Client
  | none => (core, c)
  | some none => (core, { c with state := .disconnected })
  | some (some pkt) => respond core a atHead c pkt

/-- The clients before and behind the current one, once the head was moved or not. -/
def around (sink : Bool) (before rest : Linked) : Linked × Linked :=
  if sink then
    match before with
    | [] => (rest, [])
    | head :: before => (before, rest ++ [head])
  else (before, rest)

theorem mem_around {sink : Bool} {before rest : Linked} {node : Nat × Client} :
    node ∈ (around sink before rest).1 ++ (around sink before rest).2 ↔ node ∈ before ++ rest := by
  cases sink with
  | false => rfl
  | true =>
    cases before with
    | nil => simp [around]
    | cons head before =>
      simp only [around, if_true, List.mem_append, List.mem_cons, List.not_mem_nil, or_false]
      tauto

def nudge : Linked → Linked
  | [] => []
  | (a, c) :: rest => (a, (serverSendPacket c resizePacket).2) :: rest

def Zipper.received (z : Zipper) (answer : Answer) (a : Nat) (c : Client) : Core × Client :=
  receive (z.core.reap answer.sigchld) a z.before.isEmpty c (answer.recv a)

/-- A visit. When the head that was moved is also the place of the link to the
current client, giving this client up unlinks the wrong one: all others, where it
was the head itself; none, where it was the second, and the head then is freed
memory, which the program writes to. -/
def Zipper.visit (answer : Answer) (z : Zipper) : Option Zipper :=
  match z.todo with
  | [] => some z
  | (a, c) :: rest =>
    let sink := sinks (answer.recv a)
    let (core, c) := z.received answer a c
    let (front, back) := around sink z.before rest
    if c.state = .disconnected then
      let z := { z with core := core.drop a c }
      if sink ∧ z.before = [] then some { z with before := [], todo := [], lost := z.lost ++ rest }
      else if sink ∧ front = [] then none
      else some { z with before := front, todo := if front = [] then nudge back else back }
    else
      some { z with
        core := core.keep a
        before := front ++ [(a, core.serve z.serverPacket c)]
        todo := back }

theorem receive_visits {a : Nat} {c : Client} (core : Core) (atHead : Bool) (pkt : Option (Option Received)) :
    (receive core a atHead c pkt).1.visits = core.visits ∧
      (receive core a atHead c pkt).1.armed = core.armed ∧
      (receive core a atHead c pkt).1.freed = core.freed := by
  rcases pkt with _ | _ | pkt
  · exact ⟨rfl, rfl, rfl⟩
  · exact ⟨rfl, rfl, rfl⟩
  · simp only [receive, respond]
    split_ifs <;> exact ⟨rfl, rfl, rfl⟩

@[simp] theorem reap_history (core : Core) (status : Option Int32) :
    (core.reap status).history = core.history := by
  cases status <;> rfl

theorem reap_visits (core : Core) (status : Option Int32) :
    (core.reap status).visits = core.visits ∧ (core.reap status).armed = core.armed ∧
      (core.reap status).freed = core.freed := by
  cases status <;> exact ⟨rfl, rfl, rfl⟩

theorem received_visits (z : Zipper) (answer : Answer) (a : Nat) (c : Client) :
    (z.received answer a c).1.visits = z.core.visits ∧
      (z.received answer a c).1.armed = z.core.armed ∧
      (z.received answer a c).1.freed = z.core.freed := by
  obtain ⟨visits, armed, freed⟩ :=
    @receive_visits a c (z.core.reap answer.sigchld) z.before.isEmpty (answer.recv a)
  obtain ⟨visits', armed', freed'⟩ := reap_visits z.core answer.sigchld
  exact ⟨visits.trans visits', armed.trans armed', freed.trans freed'⟩

/-- What a visit can do: give the client up with all that the list has left, give
it up and unlink it, or keep it and send to it. -/
theorem visit_cases {answer : Answer} {z next : Zipper} {a : Nat} {c : Client} {rest : Linked}
    (todo : z.todo = (a, c) :: rest) (done : z.visit answer = some next) :
    ((z.received answer a c).2.state = .disconnected ∧ sinks (answer.recv a) = true ∧ z.before = [] ∧
      next = { z with
        core := (z.received answer a c).1.drop a (z.received answer a c).2
        before := []
        todo := []
        lost := z.lost ++ rest }) ∨
    ((z.received answer a c).2.state = .disconnected ∧
      (sinks (answer.recv a) = true → z.before ≠ [] ∧
        (around (sinks (answer.recv a)) z.before rest).1 ≠ []) ∧
      next = { z with
        core := (z.received answer a c).1.drop a (z.received answer a c).2
        before := (around (sinks (answer.recv a)) z.before rest).1
        todo := if (around (sinks (answer.recv a)) z.before rest).1 = [] then
            nudge (around (sinks (answer.recv a)) z.before rest).2
          else (around (sinks (answer.recv a)) z.before rest).2 }) ∨
    ((z.received answer a c).2.state ≠ .disconnected ∧
      next = { z with
        core := (z.received answer a c).1.keep a
        before := (around (sinks (answer.recv a)) z.before rest).1 ++
          [(a, (z.received answer a c).1.serve z.serverPacket (z.received answer a c).2)]
        todo := (around (sinks (answer.recv a)) z.before rest).2 }) := by
  rw [Zipper.visit, todo] at done
  dsimp only at done
  by_cases gone : (z.received answer a c).2.state = .disconnected
  · rw [if_pos gone] at done
    by_cases all : sinks (answer.recv a) = true ∧ z.before = []
    · rw [if_pos all] at done
      exact .inl ⟨gone, all.1, all.2, (Option.some.inj done).symm⟩
    · rw [if_neg all] at done
      by_cases freed : sinks (answer.recv a) = true ∧
          (around (sinks (answer.recv a)) z.before rest).1 = []
      · rw [if_pos freed] at done
        cases done
      · rw [if_neg freed] at done
        exact .inr (.inl ⟨gone, fun sink => ⟨fun none => all ⟨sink, none⟩, fun none =>
          freed ⟨sink, none⟩⟩, (Option.some.inj done).symm⟩)
  · rw [if_neg gone] at done
    exact .inr (.inr ⟨gone, (Option.some.inj done).symm⟩)

theorem visit_fault {answer : Answer} {z : Zipper} {a : Nat} {c : Client} {rest : Linked}
    (todo : z.todo = (a, c) :: rest) (done : z.visit answer = none) :
    sinks (answer.recv a) = true ∧ z.before.length = 1 := by
  rw [Zipper.visit, todo] at done
  dsimp only at done
  split_ifs at done with gone all freed
  obtain ⟨sink, none⟩ := freed
  refine ⟨sink, ?_⟩
  rcases before : z.before with _ | ⟨head, front⟩
  · exact absurd ⟨sink, before⟩ all
  · rw [sink, before] at none
    rw [show front = [] from none]
    rfl

theorem visit_keep {answer : Answer} {z : Zipper} {a : Nat} {c : Client} {rest : Linked}
    (todo : z.todo = (a, c) :: rest) (stays : (z.received answer a c).2.state ≠ .disconnected) :
    z.visit answer = some { z with
      core := (z.received answer a c).1.keep a
      before := (around (sinks (answer.recv a)) z.before rest).1 ++
        [(a, (z.received answer a c).1.serve z.serverPacket (z.received answer a c).2)]
      todo := (around (sinks (answer.recv a)) z.before rest).2 } := by
  rw [Zipper.visit, todo]
  exact if_neg stays

theorem visit_still {answer : Answer} {z : Zipper} {a : Nat} {c : Client} {rest : Linked}
    (todo : z.todo = (a, c) :: rest)
    (still : sinks (answer.recv a) = true → z.before = [] ∧ rest = []) :
    z.visit answer = some (
      if (z.received answer a c).2.state = .disconnected then
        { z with
          core := (z.received answer a c).1.drop a (z.received answer a c).2
          todo := if z.before = [] then nudge rest else rest }
      else
        { z with
          core := (z.received answer a c).1.keep a
          before := z.before ++
            [(a, (z.received answer a c).1.serve z.serverPacket (z.received answer a c).2)]
          todo := rest }) := by
  rw [Zipper.visit, todo]
  dsimp only
  by_cases gone : (z.received answer a c).2.state = .disconnected
  · rw [if_pos gone, if_pos gone]
    cases sink : sinks (answer.recv a) with
    | false => simp only [around, Bool.false_eq_true, if_false, false_and]
    | true =>
      obtain ⟨none, rfl⟩ := still sink
      simp only [around, none, if_true, and_self, nudge, List.append_nil]
  · rw [if_neg gone, if_neg gone]
    cases sink : sinks (answer.recv a) with
    | false => simp only [around, Bool.false_eq_true, if_false]
    | true =>
      obtain ⟨none, rfl⟩ := still sink
      simp only [around, none, if_true]

/-! ## The memory spells out the list -/

/-- The clients that the server's memory holds. -/
structure Server.Lists (s : Server) (clients lost : Linked) : Prop where
  holds : s.chain.Holds clients
  known : ∀ a node, s.chain.heap a = some node → (a, node.value) ∈ clients ++ lost
  fresh : ∀ a node, s.chain.heap a = some node → a < s.accepted
  valid : s.core.history.Valid

def Server.put (s : Server) (a : Nat) (c : Client) (next : Option Nat) : Server :=
  { s with chain := s.chain.set a ⟨c, next⟩ }

section Put

variable (s : Server) (a : Nat) (c : Client) (next : Option Nat)

@[simp] theorem Server.put_core : (s.put a c next).core = s.core := rfl
@[simp] theorem Server.put_accepted : (s.put a c next).accepted = s.accepted := rfl
@[simp] theorem Server.put_chain : (s.put a c next).chain = s.chain.set a ⟨c, next⟩ := rfl

end Put

section Lists

variable {s : Server} {before rest clients lost : Linked} {a : Nat} {c : Client}

theorem Server.Lists.heap (before : Linked) (lists : s.Lists (before ++ (a, c) :: rest) lost) :
    s.chain.heap a = some ⟨c, (addresses rest).head?⟩ :=
  lists.holds.node

theorem Server.Lists.update (lists : s.Lists (before ++ (a, c) :: rest) lost)
    (change : Client → Option Client) {next : Client} (done : change c = some next) :
    s.update a change = some (s.put a next (addresses rest).head?) := by
  rw [Server.update, lists.heap before, Option.bind_eq_bind, Option.bind_some, done, Option.bind_eq_bind,
    Option.bind_some]
  rfl

theorem Server.Lists.put (lists : s.Lists (before ++ (a, c) :: rest) lost) (next : Client) :
    (s.put a next (addresses rest).head?).Lists (before ++ (a, next) :: rest) lost where
  holds := lists.holds.put next
  known other node found := by
    by_cases same : other = a
    · subst same
      rw [Server.put_chain, set_heap_self] at found
      cases found
      simp
    · rw [Server.put_chain, set_heap_other _ same] at found
      have known := lists.known other node found
      simpa [same] using known
  fresh other node found := by
    by_cases same : other = a
    · subst same
      exact lists.fresh other _ (lists.heap before)
    · rw [Server.put_chain, set_heap_other _ same] at found
      exact lists.fresh other node found
  valid := lists.valid

theorem Server.Lists.core (lists : s.Lists clients lost) (core : Core)
    (same : core.history = s.core.history) : ({ s with core } : Server).Lists clients lost :=
  ⟨lists.holds, lists.known, lists.fresh, by rw [same]; exact lists.valid⟩

theorem Server.Lists.below (lists : s.Lists clients lost) :
    ∀ a ∈ addresses clients, a < s.accepted := by
  intro a member
  obtain ⟨⟨place, c⟩, inside, rfl⟩ := List.mem_map.mp member
  obtain ⟨next, found⟩ := lists.holds.links.find inside
  exact lists.fresh place _ found

theorem Server.Lists.length_le (lists : s.Lists clients lost) : clients.length ≤ s.accepted := by
  have inside : addresses clients ⊆ List.range s.accepted := fun a member =>
    List.mem_range.mpr (lists.below a member)
  have bound := (List.subperm_of_subset lists.holds.nodup inside).length_le
  rwa [addresses, List.length_map, List.length_range] at bound

theorem Server.Lists.head_iff (lists : s.Lists (before ++ (a, c) :: rest) lost) :
    some a = s.chain.head ↔ before = [] := by
  rw [lists.holds.head_eq]
  cases before with
  | nil => simp
  | cons first before =>
    have outside := lists.holds.outside.1
    simp only [List.cons_append, addresses_cons, List.head?_cons, Option.some.injEq]
    constructor
    · rintro rfl
      exact absurd (.head _) outside
    · intro none
      cases none

/-! ## Sinking -/

def sunk : Linked → Linked
  | [] => []
  | head :: rest => rest ++ [head]

theorem sunk_around (before rest : Linked) (node : Nat × Client) :
    sunk (before ++ node :: rest) = (around true before rest).1 ++ node :: (around true before rest).2 := by
  cases before with
  | nil => rfl
  | cons head before => simp [sunk, around]

theorem serverSinkClient_eq {place last : Nat} {moved kept : Client} {front : Linked}
    (lists : s.Lists ((place, moved) :: (front ++ [(last, kept)])) lost) :
    serverSinkClient s = some { s with
      chain := { (s.chain.set place ⟨moved, none⟩).set last ⟨kept, some place⟩ with
        head := (addresses (front ++ [(last, kept)])).head? } } := by
  have head := lists.holds.head_eq
  have target : s.chain.heap place = some ⟨moved, (addresses (front ++ [(last, kept)])).head?⟩ :=
    Server.Lists.heap [] lists
  have final : s.chain.heap last = some ⟨kept, none⟩ :=
    Server.Lists.heap ((place, moved) :: front) lists
  have differs : last ≠ place := by
    have nodup := lists.holds.nodup
    rw [addresses_cons, List.nodup_cons] at nodup
    rintro rfl
    exact nodup.1 (by simp)
  obtain ⟨_, next, found, later⟩ := lists.holds.links
  rw [target] at found
  obtain ⟨first, begins⟩ : ∃ first, (addresses (front ++ [(last, kept)])).head? = some first := by
    cases front <;> exact ⟨_, rfl⟩
  rw [begins] at target found ⊢
  cases found
  have enough : front.length < s.accepted := by
    have bound := lists.length_le
    simp only [List.length_cons, List.length_append, List.length_nil] at bound
    omega
  have walked := later.lastFrom enough
  have alive : (s.chain.set place ⟨moved, none⟩).heap last = some ⟨kept, none⟩ := by
    rw [set_heap_other _ differs, final]
  simp only [serverSinkClient, head, addresses_cons, List.head?_cons, target, walked, alive,
    Option.bind_eq_bind, Option.bind_some]
  rfl

theorem serverSinkClient_lists (lists : s.Lists clients lost) :
    ∃ next, serverSinkClient s = some next ∧ next.Lists (sunk clients) lost ∧
      next.core = s.core ∧ next.accepted = s.accepted := by
  have head := lists.holds.head_eq
  rcases clients with _ | ⟨⟨place, moved⟩, rest⟩
  · refine ⟨s, ?_, lists, rfl, rfl⟩
    rw [serverSinkClient, head]
    rfl
  · have target : s.chain.heap place = some ⟨moved, (addresses rest).head?⟩ :=
      Server.Lists.heap [] lists
    rcases List.eq_nil_or_concat rest with rfl | ⟨front, ⟨last, kept⟩, split⟩
    · refine ⟨s, ?_, lists, rfl, rfl⟩
      simp only [serverSinkClient, head, addresses_cons, List.head?_cons, target]
      rfl
    · rw [List.concat_eq_append] at split
      subst split
      have final : s.chain.heap last = some ⟨kept, none⟩ :=
        Server.Lists.heap ((place, moved) :: front) lists
      -- the values stay where they are
      have same : ∀ other node,
          ((s.chain.set place ⟨moved, none⟩).set last ⟨kept, some place⟩).heap other = some node →
            ∃ next, s.chain.heap other = some ⟨node.value, next⟩ := by
        intro other node found
        by_cases first : other = last
        · subst first
          rw [set_heap_self] at found
          cases found
          exact ⟨_, final⟩
        · rw [set_heap_other _ first] at found
          by_cases second : other = place
          · subst second
            rw [set_heap_self] at found
            cases found
            exact ⟨_, target⟩
          · rw [set_heap_other _ second] at found
            exact ⟨node.next, found⟩
      refine ⟨_, serverSinkClient_eq lists, ⟨lists.holds.rotate rfl, ?_, ?_, lists.valid⟩, rfl, rfl⟩
      · intro other node found
        obtain ⟨next, before⟩ := same other node found
        have known := lists.known other _ before
        simp only [sunk, List.cons_append, List.mem_cons, List.mem_append] at known ⊢
        tauto
      · intro other node found
        obtain ⟨next, before⟩ := same other node found
        exact lists.fresh other _ before

/-! ## Packets -/

structure Handled (s next : Server) (list lost : Linked) (core : Core) : Prop where
  lists : next.Lists list lost
  core : next.core = core
  accepted : next.accepted = s.accepted

theorem Server.Lists.handled (lists : s.Lists (before ++ (a, c) :: rest) lost)
    (change : Client → Option Client) {next : Client} (done : change c = some next) :
    ∃ after, s.update a change = some after ∧
      Handled s after (before ++ (a, next) :: rest) lost s.core :=
  ⟨_, lists.update change done, lists.put next, rfl, rfl⟩

theorem handlePacket_attach (lists : s.Lists (before ++ (a, c) :: rest) lost) {pkt : Received}
    (attach : pkt.typ = msgAttach) :
    ∃ next, handlePacket s a pkt = some next ∧
      Handled s next ((around (sinks (some (some pkt))) before rest).1 ++
        (a, (sendAll (replay s.core.history false)
          { c with flags := pkt.i, attachSeen := true }).2) ::
        (around (sinks (some (some pkt))) before rest).2) lost s.core := by
  have other : ¬ (pkt.typ = msgContent ∨ pkt.typ = msgSendKeys) := by
    rw [attach]
    decide
  obtain ⟨first, flagged, handled⟩ :=
    lists.handled (fun c => some { c with flags := pkt.i, attachSeen := true }) rfl
  simp only [handlePacket, if_neg other, if_pos attach, flagged, Option.bind_eq_bind,
    Option.bind_some]
  have replayed : ∀ {second : Server} {front back : Linked}, second.core = s.core →
      second.accepted = s.accepted →
      second.Lists (front ++ (a, { c with flags := pkt.i, attachSeen := true }) :: back) lost →
      ∃ next, (second.update a fun c => (serverSendHistory second.core.history c false).map Prod.snd) =
          some next ∧
        Handled s next (front ++ (a, (sendAll (replay s.core.history false)
          { c with flags := pkt.i, attachSeen := true }).2) :: back) lost s.core := by
    intro second front back core accepted lists
    obtain ⟨next, done, after⟩ :=
      lists.handled (fun c => (serverSendHistory second.core.history c false).map Prod.snd) (by
        rw [serverSendHistory_eq lists.valid]
        rfl)
    rw [core] at after
    exact ⟨next, done, after.lists, after.core, after.accepted.trans accepted⟩
  by_cases low : pkt.i &&& clientLowpriority = 0
  · have stays : sinks (some (some pkt)) = false := by simp [sinks, low]
    rw [if_neg (not_not.mpr low), stays]
    exact replayed handled.core handled.accepted handled.lists
  · have moves : sinks (some (some pkt)) = true := by simp [sinks, low, attach]
    obtain ⟨second, moved, lists', core, accepted⟩ := serverSinkClient_lists handled.lists
    rw [if_pos low, moves, moved, Option.bind_some]
    rw [sunk_around] at lists'
    exact replayed (core.trans handled.core) (accepted.trans handled.accepted) lists'

theorem handlePacket_lists (lists : s.Lists (before ++ (a, c) :: rest) lost) (pkt : Received) :
    ∃ next, handlePacket s a pkt = some next ∧
      Handled s next ((around (sinks (some (some pkt))) before rest).1 ++
        (a, (respond s.core a before.isEmpty c pkt).2) ::
        (around (sinks (some (some pkt))) before rest).2) lost
        (respond s.core a before.isEmpty c pkt).1 := by
  by_cases attach : pkt.typ = msgAttach
  · rw [respond_attach _ _ _ _ attach]
    exact handlePacket_attach lists attach
  · have stays : sinks (some (some pkt)) = false := by simp [sinks, attach]
    rw [stays]
    simp only [handlePacket, respond, around, if_neg attach, Bool.false_eq_true, if_false]
    by_cases content : pkt.typ = msgContent ∨ pkt.typ = msgSendKeys
    · rw [if_pos content, if_pos content]
      exact ⟨_, rfl, lists.core _ rfl, rfl, rfl⟩
    · rw [if_neg content, if_neg content]
      by_cases dump : pkt.typ = msgDump
      · rw [if_pos dump, if_pos dump]
        exact lists.handled _ (by rw [serverSendHistory_eq lists.valid]; rfl)
      · rw [if_neg dump, if_neg dump]
        by_cases resize : pkt.typ = msgResize
        · rw [if_pos resize, if_pos resize]
          obtain ⟨next, done, handled⟩ :=
            lists.handled (fun c => some { c with state := .attached }) rfl
          have head : some a = next.chain.head ↔ before.isEmpty = true := by
            rw [handled.lists.head_iff, List.isEmpty_iff]
          rw [done, Option.bind_eq_bind, Option.bind_some, handled.lists.heap before,
            Option.bind_eq_bind, Option.bind_some, handled.core]
          dsimp only
          simp only [head]
          refine ⟨_, rfl, handled.lists.core _ ?_, rfl, handled.accepted⟩
          rw [handled.core]
          split <;> rfl
        · rw [if_neg resize, if_neg resize]
          by_cases exit : pkt.typ = msgExit
          · rw [if_pos exit, if_pos exit]
            obtain ⟨next, done, handled⟩ :=
              lists.handled (fun c => some { c with state := .disconnected }) rfl
            rw [done, Option.bind_eq_bind, Option.bind_some, handled.core]
            exact ⟨_, rfl, handled.lists.core _ (by rw [handled.core]), rfl, handled.accepted⟩
          · rw [if_neg exit, if_neg exit]
            by_cases detach : pkt.typ = msgDetach
            · rw [if_pos detach, if_pos detach]
              exact lists.handled _ rfl
            · rw [if_neg detach, if_neg detach]
              exact ⟨s, rfl, lists, rfl, rfl⟩

theorem serverReceive_lists (lists : s.Lists (before ++ (a, c) :: rest) lost)
    (pkt : Option (Option Received)) :
    ∃ next, serverReceive s a pkt = some next ∧
      Handled s next ((around (sinks pkt) before rest).1 ++
        (a, (receive s.core a before.isEmpty c pkt).2) :: (around (sinks pkt) before rest).2) lost
        (receive s.core a before.isEmpty c pkt).1 := by
  rcases pkt with _ | _ | pkt
  · exact ⟨s, rfl, lists, rfl, rfl⟩
  · exact lists.handled (fun c => some { c with state := .disconnected }) rfl
  · exact handlePacket_lists lists pkt

end Lists

/-! ## Visits -/

/-- The place behind the clients before the current one is where the loop left it. -/
structure Zipper.Represents (z : Zipper) (w : Walk) : Prop where
  lists : w.server.Lists (z.before ++ z.todo) z.lost
  core : w.server.core = z.core
  accepted : w.server.accepted = z.accepted
  prevNext : w.prevNext = slotBehind z.before
  c : w.c = (addresses z.todo).head?
  serverPacket : w.serverPacket = z.serverPacket

section Visits

variable {w : Walk} {z : Zipper} {s : Server} {front back lost : Linked} {a : Nat} {c : Client}

theorem unlink_lists (lists : s.Lists (front ++ (a, c) :: back) lost) (core : Core)
    (same : core.history = s.core.history) :
    ∃ chain, (s.chain.free a).store (slotBehind front) (addresses back).head? = some chain ∧
      (⟨core, chain, s.accepted⟩ : Server).Lists (front ++ back) lost := by
  obtain ⟨chain, done, holds, gone, others⟩ := lists.holds.unlink
  refine ⟨chain, done, holds, ?_, ?_, by rw [same]; exact lists.valid⟩
  · intro other node found
    by_cases inside : other ∈ addresses front
    · obtain ⟨⟨place, kept⟩, member, rfl⟩ := List.mem_map.mp inside
      obtain ⟨next, found'⟩ := holds.links.find (List.mem_append_left back member)
      rw [found'] at found
      cases found
      exact List.mem_append_left _ (List.mem_append_left _ member)
    · have differs : other ≠ a := by
        rintro rfl
        rw [gone] at found
        cases found
      rw [others other inside differs] at found
      have known := lists.known other node found
      simp only [List.mem_append, List.mem_cons, Prod.mk.injEq] at known ⊢
      tauto
  · intro other node found
    by_cases inside : other ∈ addresses front
    · exact lists.below other (by simp [inside])
    · have differs : other ≠ a := by
        rintro rfl
        rw [gone] at found
        cases found
      rw [others other inside differs] at found
      exact lists.fresh other node found

@[simp] theorem addresses_nudge (list : Linked) : addresses (nudge list) = addresses list := by
  cases list <;> rfl

theorem drop_represents (lists : s.Lists (front ++ (a, c) :: back) lost)
    (slot : w.prevNext = slotBehind front) :
    ∃ next, w.drop s a ⟨c, (addresses back).head?⟩ = some next ∧
      Zipper.Represents ⟨s.core.drop a c, front, if front = [] then nudge back else back, lost,
        s.accepted, w.serverPacket⟩ next := by
  obtain ⟨chain, done, lists'⟩ := unlink_lists lists (s.core.drop a c) rfl
  have head := lists'.holds.head_eq
  dsimp only at head
  rw [Walk.drop, slot, done, Option.bind_eq_bind, Option.bind_some]
  dsimp only
  rw [head]
  simp only [lists.head_iff]
  rcases front with _ | ⟨⟨place, kept⟩, front⟩
  · rcases back with _ | ⟨⟨second, other⟩, back⟩
    · exact ⟨_, rfl, lists', rfl, rfl, rfl, rfl, rfl⟩
    · replace lists' : Server.Lists _ ([] ++ (second, other) :: back) lost := lists'
      have told := lists'.update (fun c => some (serverSendPacket c resizePacket).2) rfl
      simp only [List.nil_append, addresses_cons, List.head?_cons, if_true, told]
      exact ⟨_, rfl, lists'.put _, rfl, rfl, rfl, rfl, rfl⟩
  · simp only [List.cons_append, addresses_cons, List.head?_cons, List.cons_ne_nil, if_false]
    exact ⟨_, rfl, lists', rfl, rfl, rfl, rfl, rfl⟩

theorem drop_lost (lists : s.Lists (front ++ [(a, c)]) lost) (slot : w.prevNext = .head) :
    ∃ next, w.drop s a ⟨c, none⟩ = some next ∧
      Zipper.Represents ⟨s.core.drop a c, [], [], lost ++ front, s.accepted, w.serverPacket⟩ next := by
  rw [Walk.drop, slot]
  refine ⟨_, rfl, ⟨⟨rfl, List.nodup_nil⟩, ?_, ?_, lists.valid⟩, rfl, rfl, rfl, rfl, rfl⟩
  · intro other node found
    obtain ⟨_, found⟩ := free_heap_some.mp found
    have known := lists.known other node found
    simp only [List.mem_append, List.mem_singleton, Prod.mk.injEq, List.nil_append] at known ⊢
    tauto
  · intro other node found
    obtain ⟨_, found⟩ := free_heap_some.mp found
    exact lists.fresh other node found

theorem drop_fault {b : Nat} {kept : Client} (lists : s.Lists ((a, c) :: (back ++ [(b, kept)])) lost)
    (slot : w.prevNext = .next b) (next : Option Nat) : w.drop s a ⟨c, next⟩ = none := by
  have differs : b ≠ a := by
    have nodup := lists.holds.nodup
    rw [addresses_cons, List.nodup_cons] at nodup
    rintro rfl
    exact nodup.1 (by simp)
  have alive : (s.chain.free a).heap b = some ⟨kept, none⟩ := by
    rw [free_heap_other _ differs]
    exact Server.Lists.heap ((a, c) :: back) lists
  have head : s.chain.head = some a := lists.holds.head_eq
  have gone : ((s.chain.free a).set b ⟨kept, next⟩).heap a = none := by
    rw [set_heap_other _ differs.symm, free_heap_self]
  simp only [Walk.drop, slot, store, alive, Option.bind_eq_bind, Option.bind_some, Option.pure_def,
    set_head, free_head, head, if_true, Server.update, gone, Option.bind_none]

theorem keep_represents (lists : s.Lists (front ++ (a, c) :: back) lost) :
    ∃ next, w.keep s a ⟨c, (addresses back).head?⟩ = some next ∧
      Zipper.Represents ⟨s.core.keep a, front ++ [(a, s.core.serve w.serverPacket c)], back, lost,
        s.accepted, w.serverPacket⟩ next := by
  have served := lists.update (fun c => some (s.core.serve w.serverPacket c)) rfl
  rw [Walk.keep, served, Option.bind_eq_bind, Option.bind_some]
  refine ⟨_, rfl, ?_, rfl, rfl, ?_, rfl, rfl⟩
  · have lists' := (lists.put (s.core.serve w.serverPacket c)).core (s.core.keep a) rfl
    rw [List.append_assoc]
    exact lists'
  · simp [slotBehind]

theorem visit_represents (same : z.Represents w) (answer : Answer) :
    match z.visit answer with
    | some next => ∃ after, w.visit answer = some after ∧ next.Represents after
    | none => w.visit answer = none := by
  obtain ⟨core, before, todo, lost, accepted, serverPacket⟩ := z
  have current := same.c
  rcases todo with _ | ⟨⟨a, c⟩, rest⟩
  · refine ⟨w, ?_, same⟩
    rw [Walk.visit, current]
    rfl
  · obtain ⟨next, done, handled⟩ :=
      serverReceive_lists (same.lists.core _ (reap_history w.server.core answer.sigchld)) (answer.recv a)
    have accepted' : next.accepted = accepted := handled.accepted.trans same.accepted
    have core' := handled.core
    have lists := handled.lists
    dsimp only at core' lists done
    rw [same.core] at core' lists
    dsimp only at core' lists
    have visited : w.visit answer =
        if (receive (core.reap answer.sigchld) a before.isEmpty c (answer.recv a)).2.state =
          .disconnected then w.drop next a ⟨(receive (core.reap answer.sigchld) a before.isEmpty c
            (answer.recv a)).2, (addresses (around (sinks (answer.recv a)) before rest).2).head?⟩
        else w.keep next a ⟨(receive (core.reap answer.sigchld) a before.isEmpty c
            (answer.recv a)).2, (addresses (around (sinks (answer.recv a)) before rest).2).head?⟩ := by
      rw [Walk.visit, current]
      simp only [addresses_cons, List.head?_cons, done, Option.bind_eq_bind, Option.bind_some,
        lists.heap (around (sinks (answer.recv a)) before rest).1]
    rw [visited]
    simp only [Zipper.visit, Zipper.received]
    generalize receive (core.reap answer.sigchld) a before.isEmpty c (answer.recv a) = received at *
    generalize sinks (answer.recv a) = sink at *
    obtain ⟨core, c⟩ := received
    dsimp only at core' lists ⊢
    subst core'
    have packet : w.serverPacket = serverPacket := same.serverPacket
    subst packet
    subst accepted'
    by_cases gone : c.state = .disconnected
    · rw [if_pos gone, if_pos gone]
      have slot := same.prevNext
      dsimp only at slot
      cases sink with
      | false =>
        simp only [around, Bool.false_eq_true, if_false, false_and] at lists ⊢
        exact drop_represents lists slot
      | true =>
        rcases before with _ | ⟨⟨b, kept⟩, before⟩
        · simp only [around, if_true, and_self] at lists ⊢
          exact drop_lost lists slot
        · simp only [around, if_true, reduceCtorEq, and_false, if_false, true_and] at lists ⊢
          rcases before with _ | ⟨second, before⟩
          · rw [if_pos rfl]
            exact drop_fault lists slot _
          · rw [if_neg (List.cons_ne_nil _ _)]
            exact drop_represents lists (slot.trans rfl)
    · rw [if_neg gone, if_neg gone]
      exact keep_represents lists

end Visits

end Lich.C
