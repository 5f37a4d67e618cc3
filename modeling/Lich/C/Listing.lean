import Lich.C.Zipper

/-! Runs of the C program's server, on lists of clients.

The machine that works on lists takes the same events as the server that works on
links, and represents it after each of them.
-/

set_option autoImplicit false

namespace Lich.C

open Foundation Foundation.Chain

structure Listing where
  core : Core
  clients : Linked
  lost : Linked
  accepted : Nat

inductive Picture where
  | selecting (l : Listing)
  | walking (z : Zipper)
  | exited (l : Listing)
  | fault

def newClient (pid : UInt64) (writes : List WriteAnswer) : Client :=
  (serverSendPacket ⟨writes, [], .connected, 0, false⟩ (pidPacket pid)).2

def Listing.accept (l : Listing) (writes : List WriteAnswer) : Listing :=
  { l with
    core := { l.core with readPty := true }
    clients := (l.accepted, newClient l.core.pid writes) :: l.clients
    accepted := l.accepted + 1 }

def Listing.listen (l : Listing) : Option (List WriteAnswer) → Listing
  | none => l
  | some writes => l.accept writes

def Zipper.next (z : Zipper) : Picture :=
  if z.todo = [] then .selecting ⟨z.core, z.before, z.lost, z.accepted⟩ else .walking z

def Listing.walk (l : Listing) (serverPacket : Option Packet) : Picture :=
  Zipper.next ⟨l.core, [], l.clients, l.lost, l.accepted, serverPacket⟩

def Listing.select (answer : Selected) (l : Listing) : Picture :=
  if l.clients = [] ∧ l.core.exitPacketDelivered then .exited l
  else
    let l := { l with core := l.core.reap answer.sigchld }
    if answer.interrupted then .selecting l
    else
      let l := { l with core := l.core.clear }.listen answer.accept
      match l.core.readable answer.ptyRead with
      | none => .fault
      | some (core, serverPacket) => { l with core }.walk serverPacket

def Listing.woken (answer : Selected) (l : Listing) : Listing :=
  { l with core := (l.core.reap answer.sigchld).clear }.listen answer.accept

theorem select_cases (answer : Selected) (l : Listing) :
    (l.clients = [] ∧ l.core.exitPacketDelivered = true ∧ l.select answer = .exited l) ∨
    (answer.interrupted = true ∧
      l.select answer = .selecting { l with core := l.core.reap answer.sigchld }) ∨
    l.select answer = .fault ∨
    (answer.interrupted = false ∧ ∃ core serverPacket,
      (l.woken answer).core.readable answer.ptyRead = some (core, serverPacket) ∧
      l.select answer = { l.woken answer with core }.walk serverPacket) := by
  by_cases done : l.clients = [] ∧ l.core.exitPacketDelivered
  · exact .inl ⟨done.1, done.2, if_pos done⟩
  · rw [Listing.select, if_neg done]
    dsimp only
    by_cases interrupted : answer.interrupted
    · rw [if_pos interrupted]
      exact .inr (.inl ⟨interrupted, rfl⟩)
    · rw [if_neg interrupted]
      refine .inr (.inr ?_)
      cases read : (l.woken answer).core.readable answer.ptyRead with
      | none =>
        rw [Listing.woken] at read
        exact .inl (by rw [read])
      | some both =>
        rw [Listing.woken] at read
        exact .inr ⟨by simpa using interrupted, both.1, both.2, rfl, by rw [read]; rfl⟩

def pictureStep (event : Event) (picture : Picture) : Picture :=
  match picture, event with
  | .selecting l, .select answer => l.select answer
  | .walking z, .visit answer =>
    match z.visit answer with
    | some z => z.next
    | none => .fault
  | picture, _ => picture

theorem runSteps_selecting (answers : List Answer) (l : Listing) :
    runSteps pictureStep (answers.map Event.visit) (.selecting l) = .selecting l := by
  induction answers with
  | nil => rfl
  | cons answer answers ih => exact ih

/-! ## The machine on links -/

structure Listing.Represents (l : Listing) (s : Server) : Prop where
  lists : s.Lists l.clients l.lost
  core : s.core = l.core
  accepted : s.accepted = l.accepted

inductive Picture.Represents : Picture → Machine → Prop where
  | selecting {l : Listing} {s : Server} : l.Represents s → Represents (.selecting l) (.selecting s)
  | walking {z : Zipper} {w : Walk} : z.Represents w → z.todo ≠ [] → Represents (.walking z) (.walking w)
  | exited {l : Listing} {s : Server} : l.Represents s → Represents (.exited l) (.exited s)
  | fault : Represents .fault .fault

theorem start_represents (pid : UInt64) (readPty : Bool) (ptyWrites : List WriteAnswer) :
    (Picture.selecting ⟨(Server.start pid readPty ptyWrites).core, [], [], 0⟩).Represents
      (.selecting (Server.start pid readPty ptyWrites)) := by
  refine .selecting ⟨⟨⟨rfl, List.nodup_nil⟩, ?_, ?_, History.empty_valid⟩, rfl, rfl⟩
  · intro a node found
    cases found
  · intro a node found
    cases found

section Steps

variable {l : Listing} {s : Server} {z : Zipper} {w : Walk}

theorem next_represents (same : z.Represents w) : z.next.Represents w.next := by
  have current := same.c
  rw [Zipper.next, Walk.next, current]
  cases todo : z.todo with
  | nil =>
    have lists := same.lists
    rw [todo, List.append_nil] at lists
    exact .selecting ⟨lists, same.core, same.accepted⟩
  | cons node rest =>
    refine .walking same ?_
    rw [todo]
    exact List.cons_ne_nil _ _

theorem walk_represents (same : l.Represents s) (serverPacket : Option Packet) :
    (l.walk serverPacket).Represents (Walk.next ⟨s, .head, s.chain.head, serverPacket⟩) :=
  next_represents ⟨same.lists, same.core, same.accepted, rfl, same.lists.holds.head_eq, rfl⟩

theorem core_represents (same : l.Represents s) (change : Core → Core)
    (kept : ∀ core, (change core).history = core.history) :
    { l with core := change l.core }.Represents { s with core := change s.core } where
  lists := same.lists.core _ (kept s.core)
  core := congrArg change same.core
  accepted := same.accepted

theorem accept_represents (same : l.Represents s) (writes : List WriteAnswer) :
    (l.accept writes).Represents (serverAcceptClient s writes) := by
  have empty : s.chain.heap s.accepted = none := by
    cases found : s.chain.heap s.accepted with
    | none => rfl
    | some node => exact absurd (same.lists.fresh _ node found) (Nat.lt_irrefl _)
  have fresh : s.accepted ∉ addresses l.clients := fun member =>
    absurd (same.lists.below _ member) (Nat.lt_irrefl _)
  have accepted := same.accepted
  refine ⟨⟨?_, ?_, ?_, same.lists.valid⟩, ?_, ?_⟩
  · rw [Listing.accept, ← accepted, ← same.core]
    exact same.lists.holds.push fresh _
  · intro other node found
    by_cases new : other = s.accepted
    · subst new
      cases (set_heap_self s.chain _ _).symm.trans found
      rw [Listing.accept, ← accepted, ← same.core]
      exact List.mem_append_left _ (.head _)
    · exact List.mem_cons_of_mem _
        (same.lists.known other node ((set_heap_other s.chain new _).symm.trans found))
  · intro other node found
    by_cases new : other = s.accepted
    · rw [new]
      exact Nat.lt_succ_self _
    · exact Nat.lt_succ_of_lt
        (same.lists.fresh other node ((set_heap_other s.chain new _).symm.trans found))
  · rw [serverAcceptClient, same.core]
    rfl
  · rw [serverAcceptClient, accepted]
    rfl

theorem listen_represents (same : l.Represents s) (accept : Option (List WriteAnswer)) :
    (l.listen accept).Represents (s.listen accept) := by
  cases accept with
  | none => exact same
  | some writes => exact accept_represents same writes

theorem serverReadPty_valid {core : Core} (valid : core.history.Valid) (read : ReadAnswer maxPayload) :
    ∃ next serverPacket, serverReadPty core read = some (next, serverPacket) ∧ next.history.Valid := by
  cases read with
  | ok slice =>
    rw [serverReadPty]
    by_cases eof : slice.bytes = []
    · rw [if_pos eof]
      exact ⟨_, _, rfl, valid⟩
    · obtain ⟨history, done, valid', _⟩ := serverHistoryAppend_some valid slice.bytes
      rw [if_neg eof, done]
      exact ⟨_, _, rfl, valid'⟩
  | err kind => cases kind <;> exact ⟨_, _, rfl, valid⟩

theorem readable_valid {core : Core} (valid : core.history.Valid)
    (read : Option (ReadAnswer maxPayload)) :
    ∃ next serverPacket, core.readable read = some (next, serverPacket) ∧ next.history.Valid := by
  cases read with
  | none => exact ⟨_, _, rfl, valid⟩
  | some read => exact serverReadPty_valid valid read

theorem select_represents (same : l.Represents s) (answer : Selected) :
    (l.select answer).Represents (s.select answer) := by
  have head : s.chain.head = none ↔ l.clients = [] := by
    rw [same.lists.holds.head_eq]
    cases l.clients <;> simp
  by_cases done : l.clients = [] ∧ l.core.exitPacketDelivered
  · have done' : s.chain.head = none ∧ s.core.exitPacketDelivered := by
      rw [head, same.core]
      exact done
    rw [Listing.select, Server.select, if_pos done, if_pos done']
    exact .exited same
  · have done' : ¬ (s.chain.head = none ∧ s.core.exitPacketDelivered) := by
      rw [head, same.core]
      exact done
    have reaped := core_represents same (fun core => core.reap answer.sigchld) fun core =>
      reap_history core answer.sigchld
    rw [Listing.select, Server.select, if_neg done, if_neg done']
    dsimp only at reaped ⊢
    by_cases interrupted : answer.interrupted
    · rw [if_pos interrupted, if_pos interrupted]
      exact .selecting reaped
    · rw [if_neg interrupted, if_neg interrupted]
      have ready := listen_represents (core_represents reaped Core.clear fun core => rfl) answer.accept
      dsimp only at ready
      generalize Server.listen _ answer.accept = s at ready ⊢
      generalize Listing.listen _ answer.accept = l at ready ⊢
      obtain ⟨core, serverPacket, read, valid⟩ := readable_valid ready.lists.valid answer.ptyRead
      rw [← ready.core, read]
      have lists := ready.lists
      have later : Listing.Represents { l with core } { s with core } :=
        ⟨⟨lists.holds, lists.known, lists.fresh, valid⟩, rfl, ready.accepted⟩
      exact walk_represents later serverPacket

end Steps

theorem step_represents (event : Event) (p : Picture) (m : Machine) (same : p.Represents m) :
    (pictureStep event p).Represents (step event m) := by
  cases same with
  | selecting same =>
    cases event with
    | select answer => exact select_represents same answer
    | visit answer => exact .selecting same
  | @walking z w same more =>
    cases event with
    | select answer => exact .walking same more
    | visit answer =>
      have visited := visit_represents same answer
      rw [pictureStep, step]
      cases done : z.visit answer with
      | none =>
        rw [done] at visited
        rw [visited]
        exact .fault
      | some next =>
        rw [done] at visited
        obtain ⟨after, done', same'⟩ := visited
        rw [done']
        exact next_represents same'
  | exited same => cases event <;> exact .exited same
  | fault => cases event <;> exact .fault

theorem run_represents (pid : UInt64) (readPty : Bool) (ptyWrites : List WriteAnswer)
    (events : List Event) :
    (runSteps pictureStep events
      (.selecting ⟨(Server.start pid readPty ptyWrites).core, [], [], 0⟩)).Represents
      (runSteps step events (.selecting (Server.start pid readPty ptyWrites))) :=
  runSteps_simulate step_represents events (start_represents pid readPty ptyWrites)

end Lich.C
