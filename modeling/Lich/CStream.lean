import Lich.WireIntegrity
import Lich.Life
import Lich.Foundation.Feeding

/-! What the C program's server shows a client of the pty's output.

It sends each read of the pty to everybody who is connected, attached or not, and a
replay to whoever asks, out of a history that has that read already. So nothing is
missing from what a client is shown, but what was read between its connection and
its MSG_ATTACH comes twice.
-/

set_option autoImplicit false

namespace Lich.C

open Foundation Foundation.Chain

/-! ## What comes and what goes -/

def readBytes : Option (ReadAnswer maxPayload) → List UInt8
  | some (.ok slice) => slice.bytes
  | _ => []

/-- What an event has the server read of the pty. -/
def Machine.reads (machine : Machine) (event : Event) : List UInt8 :=
  match machine, event with
  | .selecting s, .select answer =>
    if (s.chain.head = none ∧ s.core.exitPacketDelivered) ∨ answer.interrupted then []
    else readBytes answer.ptyRead
  | _, _ => []

def requests : Option (Option Received) → List Received
  | some (some pkt) => if pkt.typ = msgAttach ∨ pkt.typ = msgDump then [pkt] else []
  | _ => []

def Machine.asks (a : Nat) (machine : Machine) (event : Event) : List Received :=
  match machine, event with
  | .walking w, .visit answer => if w.c = some a then requests (answer.recv a) else []
  | _, _ => []

def Machine.accepts (machine : Machine) (event : Event) : Option Nat :=
  match machine, event with
  | .selecting s, .select answer =>
    if (s.chain.head = none ∧ s.core.exitPacketDelivered) ∨ answer.interrupted then none
    else answer.accept.map fun _ => s.accepted
  | _, _ => none

def Machine.comesTo (machine : Machine) (event : Event) : Option Nat :=
  match machine, event with
  | .walking w, .visit _ => w.c
  | _, _ => none

def requested (read : Nat) (pkts : List Received) (course : Course) : Course :=
  pkts.foldl (fun course _ => course.ask read) course

/-- How far an event brings a client in the output, of which so much was read before:
it comes in where it is accepted, asks where the loop comes to it with its request,
and is shown all that was read when the loop leaves it connected. -/
def noteCourse (a read : Nat) (machine : Machine) (event : Event) (course : Course) : Course :=
  if machine.accepts event = some a then course.enter read
  else if machine.comesTo event = some a then
    let asked := requested read (machine.asks a event) course
    if a ∈ addresses (step event machine).freed then asked else asked.reveal read
  else course

/-- What was read of the pty, and how far the clients came in it. -/
structure Ledger where
  output : List UInt8
  course : Nat → Course

def Ledger.empty : Ledger := ⟨[], fun _ => ⟨0, [], 0⟩⟩

def Ledger.note (machine : Machine) (event : Event) (ledger : Ledger) : Ledger where
  output := ledger.output ++ machine.reads event
  course a := noteCourse a ledger.output.length machine event (ledger.course a)

/-- The loop moves no client to the end of the list but one that is alone in it. -/
def InPlace (machine : Machine) (event : Event) : Prop :=
  ∀ w answer before a c rest, machine = .walking w → event = .visit answer → w.c = some a →
    w.server.chain.Holds (before ++ (a, c) :: rest) → sinks (answer.recv a) = true →
    before = [] ∧ rest = []

def Client.shown (c : Client) : List UInt8 := contentOf (c.sends.map Send.pkt)

/-- Everything that was sent to the client got through. -/
def Client.Unharmed (c : Client) : Prop := ∀ send ∈ c.sends, ¬ send.Short

def Client.Fitting (c : Client) : Prop := ∀ send ∈ c.sends, send.pkt.Fits

def Client.FedBy (output lag : List UInt8) (course : Course) (c : Client) : Prop :=
  c.Unharmed → c.Fitting ∧
    Fed (fun log => log.rtake historyCap) maxPayload output lag course c.shown

/-! ## Sending -/

section Sending

variable {c : Client} {output lag : List UInt8} {course : Course}

theorem Client.after_shown (c : Client) (sent : List Send) (later : List WriteAnswer) (ok : Bool) :
    (c.after sent later ok).shown = c.shown ++ contentOf (sent.map Send.pkt) := by
  rw [shown, after_sends, List.map_append, contentOf_append, shown]

theorem Client.after_unharmed {sent : List Send} {later : List WriteAnswer} {ok : Bool}
    (unharmed : (c.after sent later ok).Unharmed) : c.Unharmed ∧ ∀ send ∈ sent, ¬ send.Short :=
  List.forall_mem_append.mp unharmed

theorem sendAll_shown {pkts : List Packet} (fits : ∀ pkt ∈ pkts, pkt.Fits)
    (unharmed : (sendAll pkts c).2.Unharmed) :
    c.Unharmed ∧ (c.Fitting → (sendAll pkts c).2.Fitting) ∧
      (sendAll pkts c).2.shown = c.shown ++ contentOf pkts := by
  obtain ⟨sent, later, ok, done, kind⟩ := sendAll_after fits c
  rw [done] at unharmed ⊢
  obtain ⟨before, whole⟩ := Client.after_unharmed unharmed
  cases kind with
  | all =>
    have same : (pkts.map Send.whole).map Send.pkt = pkts := by
      rw [List.map_map]
      exact List.map_id _
    refine ⟨before, fun fitting => List.forall_mem_append.mpr ⟨fitting, ?_⟩, ?_⟩
    · exact List.forall_mem_map.mpr fits
    · rw [Client.after_shown, same]
  | cut front pkt back taken _ short =>
    exact absurd short (whole _ (List.mem_append_right _ (List.mem_singleton_self _)))

theorem serverSendPacket_shown {pkt : Packet} (fits : pkt.Fits)
    (unharmed : (serverSendPacket c pkt).2.Unharmed) :
    c.Unharmed ∧ (c.Fitting → (serverSendPacket c pkt).2.Fitting) ∧
      (serverSendPacket c pkt).2.shown = c.shown ++ contentOf [pkt] := by
  have single : (sendAll [pkt] c).2 = (serverSendPacket c pkt).2 := by
    rw [sendAll]
    rcases serverSendPacket c pkt with ⟨_ | _, next⟩ <;> rfl
  rw [← single] at unharmed ⊢
  exact sendAll_shown (fun other member => List.mem_singleton.mp member ▸ fits) unharmed

theorem Client.FedBy.send (fed : c.FedBy output lag course) {pkt : Packet} (fits : pkt.Fits)
    (silent : contentOf [pkt] = []) : (serverSendPacket c pkt).2.FedBy output lag course := by
  intro unharmed
  obtain ⟨before, fitting, shown⟩ := serverSendPacket_shown fits unharmed
  rw [shown, silent, List.append_nil]
  exact (fed before).imp_left fitting

theorem exitPacket_silent (status : Int32) : contentOf [exitPacket status] = [] := rfl

theorem Client.FedBy.serve {core : Core} {serverPacket : Option Packet}
    (fits : ∀ pkt ∈ serverPacket, pkt.Fits)
    (fed : c.FedBy output (contentOf serverPacket.toList) course) :
    (core.serve serverPacket c).FedBy output [] (course.reveal output.length) := by
  have shown : (sendPtyData serverPacket c).FedBy output [] (course.reveal output.length) := by
    intro unharmed
    have told : c.Unharmed ∧ (c.Fitting → (sendPtyData serverPacket c).Fitting) ∧
        (sendPtyData serverPacket c).shown = c.shown ++ contentOf serverPacket.toList := by
      cases serverPacket with
      | none => exact ⟨unharmed, id, (List.append_nil _).symm⟩
      | some pkt => exact serverSendPacket_shown (fits pkt rfl) unharmed
    obtain ⟨before, fitting, shown⟩ := told
    obtain ⟨fits, fed⟩ := fed before
    rw [shown]
    exact ⟨fitting fits, fed.reveal⟩
  rw [Core.serve]
  split
  · exact shown.send (exitPacket_fits _) (exitPacket_silent _)
  · exact shown

theorem replay_content {h : History} (valid : h.Valid) (sendEnd : Bool) :
    contentOf (replay h sendEnd) = h.content := by
  obtain ⟨_, flat⟩ := replayPieces_cut valid.size valid.start valid.len (Nat.lt_succ_self h.len)
  have pieces (list : List (List UInt8)) :
      contentOf (list.map fun piece => (⟨msgContent, piece⟩ : Packet)) = list.flatten := by
    rw [contentOf, List.flatMap_map]
    exact List.flatMap_id'
  rw [replay, contentOf_append, pieces, flat]
  cases sendEnd <;> exact List.append_nil _

theorem Client.FedBy.replayed {core : Core} (valid : core.history.Valid)
    (history : core.history.content = output.rtake historyCap) (fed : c.FedBy output lag course)
    (sendEnd : Bool) :
    (sendAll (replay core.history sendEnd) c).2.FedBy output lag (course.ask output.length) := by
  intro unharmed
  obtain ⟨before, fitting, shown⟩ := sendAll_shown (replay_fits valid sendEnd) unharmed
  obtain ⟨fits, fed⟩ := fed before
  rw [shown, replay_content valid, history]
  exact ⟨fitting fits, fed.ask⟩

theorem Client.FedBy.congr {d : Client} (fed : c.FedBy output lag course) (same : d.sends = c.sends) :
    d.FedBy output lag course := by
  rw [FedBy, Unharmed, Fitting, shown, same]
  exact fed

theorem Client.FedBy.received {z : Zipper} {answer : Answer} {a : Nat}
    (valid : z.core.history.Valid) (history : z.core.history.content = output.rtake historyCap)
    (fed : c.FedBy output lag course) :
    (z.received answer a c).2.FedBy output lag
      (requested output.length (requests (answer.recv a)) course) := by
  rw [Zipper.received]
  rcases answer.recv a with _ | _ | pkt
  · exact fed
  · exact fed.congr rfl
  · rw [receive, respond, reap_history, requests]
    by_cases content : pkt.typ = msgContent ∨ pkt.typ = msgSendKeys
    · have other : ¬ (pkt.typ = msgAttach ∨ pkt.typ = msgDump) := by
        rcases content with same | same <;> rw [same] <;> decide
      rw [if_pos content, if_neg other]
      exact fed
    rw [if_neg content]
    by_cases attach : pkt.typ = msgAttach
    · rw [if_pos attach, if_pos (.inl attach)]
      have fresh : Client.FedBy output lag course { c with flags := pkt.i, attachSeen := true } :=
        fed.congr rfl
      exact fresh.replayed valid history false
    rw [if_neg attach]
    by_cases dump : pkt.typ = msgDump
    · rw [if_pos dump, if_pos (.inr dump)]
      exact (fed.replayed valid history true).congr rfl
    rw [if_neg dump, if_neg (not_or.mpr ⟨attach, dump⟩)]
    split_ifs
    · exact fed.congr rfl
    · exact fed.congr rfl
    · exact fed.congr rfl
    · exact fed.congr rfl
    · exact fed.congr rfl

end Sending

/-! ## The clients of a server -/

/-- A client that was given up was fed up to then. -/
def Client.FedBefore (output : List UInt8) (course : Course) (c : Client) : Prop :=
  ∃ part lag, part <+: output ∧ c.FedBy part lag course

/-- The clients that the loop is done with have been shown all that was read, and
those still to come all but the last read. -/
structure Feeds (output : List UInt8) (course : Nat → Course) (core : Core) (front back lost : Linked)
    (accepted : Nat) (serverPacket : Option Packet) : Prop where
  valid : core.history.Valid
  history : core.history.content = output.rtake historyCap
  fits : ∀ pkt ∈ serverPacket, pkt.Fits
  served : ∀ node ∈ front, node.2.FedBy output [] (course node.1)
  waiting : ∀ node ∈ back, node.2.FedBy output (contentOf serverPacket.toList) (course node.1)
  linked : lost = []
  freed : ∀ node ∈ core.freed, node.2.FedBefore output (course node.1)
  places : (addresses (front ++ back) ++ addresses core.freed).Nodup
  known : ∀ a ∈ addresses (front ++ back) ++ addresses core.freed, a < accepted
  fresh : ∀ a, accepted ≤ a → (course a).asked = []

def Listing.Feeds (output : List UInt8) (course : Nat → Course) (l : Listing) : Prop :=
  C.Feeds output course l.core l.clients [] l.lost l.accepted none

def Zipper.Feeds (output : List UInt8) (course : Nat → Course) (z : Zipper) : Prop :=
  C.Feeds output course z.core z.before z.todo z.lost z.accepted z.serverPacket

def Picture.Feeds (output : List UInt8) (course : Nat → Course) : Picture → Prop
  | .selecting l | .exited l => l.Feeds output course
  | .walking z => z.Feeds output course
  | .fault => True

section Steps

variable {output : List UInt8} {course moved : Nat → Course} {core : Core} {before todo rest lost : Linked}
  {accepted : Nat} {serverPacket : Option Packet} {a : Nat} {c : Client} {answer : Answer}
  {z : Zipper} {l : Listing}

theorem Client.FedBefore.later (fed : c.FedBefore output (course a)) (more : List UInt8) :
    c.FedBefore (output ++ more) (course a) := by
  obtain ⟨part, lag, front, fed⟩ := fed
  exact ⟨part, lag, front.trans (List.prefix_append _ _), fed⟩

theorem Zipper.Feeds.next (feeds : z.Feeds output course) : z.next.Feeds output course := by
  rw [Zipper.next]
  split
  · next done =>
    rw [Zipper.Feeds, done] at feeds
    exact {
      valid := feeds.valid
      history := feeds.history
      fits := fun _ member => by cases member
      served := feeds.served
      waiting := fun _ member => by cases member
      linked := feeds.linked
      freed := feeds.freed
      places := feeds.places
      known := feeds.known
      fresh := feeds.fresh }
  · exact feeds

theorem nudge_fed {list : Linked}
    (fed : ∀ node ∈ list, node.2.FedBy output (contentOf serverPacket.toList) (course node.1)) :
    ∀ node ∈ nudge list, node.2.FedBy output (contentOf serverPacket.toList) (course node.1) := by
  intro node member
  cases list with
  | nil => cases member
  | cons first more =>
    rcases List.mem_cons.mp member with rfl | member
    · exact (fed first (.head _)).send resizePacket_fits rfl
    · exact fed node (.tail _ member)

theorem receive_history (core : Core) (a : Nat) (atHead : Bool) (c : Client)
    (recv : Option (Option Received)) : (receive core a atHead c recv).1.history = core.history := by
  rcases recv with _ | _ | pkt
  · rfl
  · rfl
  · rw [receive, respond]
    split_ifs <;> rfl

theorem received_history (z : Zipper) (answer : Answer) (a : Nat) (c : Client) :
    (z.received answer a c).1.history = z.core.history := by
  rw [Zipper.received, receive_history, reap_history]

/-- The client that the loop has come to is in no other place. -/
theorem Zipper.Feeds.apart (feeds : z.Feeds output course) (comes : z.todo = (a, c) :: rest) :
    (a ∉ addresses z.before ∧ a ∉ addresses rest ∧ a ∉ addresses z.core.freed) ∧
      (a :: (addresses z.before ++ (addresses rest ++ addresses z.core.freed))).Nodup := by
  have places := Feeds.places feeds
  simp only [comes, addresses_append, addresses_cons, List.append_assoc, List.cons_append] at places
  rw [List.nodup_middle] at places
  have alone := (List.nodup_cons.mp places).1
  simp only [List.mem_append, not_or] at alone
  exact ⟨alone, places⟩

section Visited

variable (feeds : z.Feeds output course) (comes : z.todo = (a, c) :: rest)
  (same : ∀ other, other ≠ a → moved other = course other)

include same

theorem moved_elsewhere {list : Linked} (outside : a ∉ addresses list) {node : Nat × Client}
    (member : node ∈ list) : moved node.1 = course node.1 :=
  same node.1 fun here => outside (here ▸ List.mem_map_of_mem member)

include feeds comes

theorem Zipper.Feeds.moved_before : ∀ node ∈ z.before, node.2.FedBy output [] (moved node.1) :=
  fun node member => by
    rw [moved_elsewhere same (feeds.apart comes).1.1 member]
    exact Feeds.served feeds node member

theorem Zipper.Feeds.moved_rest :
    ∀ node ∈ rest, node.2.FedBy output (contentOf z.serverPacket.toList) (moved node.1) :=
  fun node member => by
    rw [moved_elsewhere same (feeds.apart comes).1.2.1 member]
    exact Feeds.waiting feeds node (comes ▸ .tail _ member)

theorem Zipper.Feeds.moved_freed : ∀ node ∈ z.core.freed, node.2.FedBefore output (moved node.1) :=
  fun node member => by
    rw [moved_elsewhere same (feeds.apart comes).1.2.2 member]
    exact Feeds.freed feeds node member

theorem Zipper.Feeds.moved_fresh : ∀ other, z.accepted ≤ other → (moved other).asked = [] :=
  fun other new => by
    have here : a < z.accepted := Feeds.known feeds a (by simp [comes])
    rw [same other (by omega), Feeds.fresh feeds other new]

omit same in
theorem Zipper.Feeds.mine :
    (z.received answer a c).2.FedBy output (contentOf z.serverPacket.toList)
      (requested output.length (requests (answer.recv a)) (course a)) :=
  Client.FedBy.received (Feeds.valid feeds) (Feeds.history feeds)
    (Feeds.waiting feeds (a, c) (comes ▸ .head _))

theorem Zipper.Feeds.drops
    (own : moved a = requested output.length (requests (answer.recv a)) (course a)) :
    Zipper.Feeds output moved { z with
      core := (z.received answer a c).1.drop a (z.received answer a c).2
      todo := if z.before = [] then nudge rest else rest } := by
  obtain ⟨_, _, freed⟩ := received_visits z answer a c
  have kept := received_history z answer a c
  have later := feeds.moved_rest comes same
  have list : ((z.received answer a c).1.drop a (z.received answer a c).2).freed =
      z.core.freed ++ [(a, (z.received answer a c).2)] := congrArg (· ++ _) freed
  have behind : addresses (if z.before = [] then nudge rest else rest) = addresses rest := by
    split
    · exact addresses_nudge rest
    · rfl
  have moves : (addresses (z.before ++ if z.before = [] then nudge rest else rest) ++
      addresses ((z.received answer a c).1.drop a (z.received answer a c).2).freed).Perm
      (a :: (addresses z.before ++ (addresses rest ++ addresses z.core.freed))) := by
    rw [list, addresses_append, behind, addresses_append, List.append_assoc,
      ← List.append_assoc (addresses rest), ← List.append_assoc]
    exact List.perm_append_singleton _ _
  exact {
    valid := by
      change (z.received answer a c).1.history.Valid
      rw [kept]
      exact Feeds.valid feeds
    history := by
      change (z.received answer a c).1.history.content = _
      rw [kept]
      exact Feeds.history feeds
    fits := Feeds.fits feeds
    served := feeds.moved_before comes same
    waiting := by
      dsimp only
      split
      · exact nudge_fed later
      · exact later
    linked := Feeds.linked feeds
    freed := by
      rw [list]
      refine List.forall_mem_append.mpr ⟨feeds.moved_freed comes same, fun node member => ?_⟩
      rw [List.mem_singleton.mp member, own]
      exact ⟨output, _, List.prefix_rfl, feeds.mine comes⟩
    places := (moves.nodup_iff).mpr (feeds.apart comes).2
    known := fun other member => by
      apply Feeds.known feeds other
      have member := moves.mem_iff.mp member
      simp only [comes, addresses_append, addresses_cons, List.mem_append, List.mem_cons] at member ⊢
      tauto
    fresh := feeds.moved_fresh comes same }

theorem Zipper.Feeds.keeps
    (own : moved a =
      (requested output.length (requests (answer.recv a)) (course a)).reveal output.length) :
    Zipper.Feeds output moved { z with
      core := (z.received answer a c).1.keep a
      before := z.before ++
        [(a, (z.received answer a c).1.serve z.serverPacket (z.received answer a c).2)]
      todo := rest } := by
  obtain ⟨_, _, freed⟩ := received_visits z answer a c
  have kept := received_history z answer a c
  have list : ((z.received answer a c).1.keep a).freed = z.core.freed := freed
  have stays : addresses ((z.before ++
        [(a, (z.received answer a c).1.serve z.serverPacket (z.received answer a c).2)]) ++ rest) ++
      addresses ((z.received answer a c).1.keep a).freed =
      addresses (z.before ++ z.todo) ++ addresses z.core.freed := by
    rw [list, comes]
    simp
  exact {
    valid := by
      change (z.received answer a c).1.history.Valid
      rw [kept]
      exact Feeds.valid feeds
    history := by
      change (z.received answer a c).1.history.content = _
      rw [kept]
      exact Feeds.history feeds
    fits := Feeds.fits feeds
    served := by
      refine List.forall_mem_append.mpr ⟨feeds.moved_before comes same, fun node member => ?_⟩
      rw [List.mem_singleton.mp member, own]
      exact (feeds.mine comes).serve (Feeds.fits feeds)
    waiting := feeds.moved_rest comes same
    linked := Feeds.linked feeds
    freed := by
      rw [list]
      exact feeds.moved_freed comes same
    places := by
      rw [stays]
      exact Feeds.places feeds
    known := by
      rw [stays]
      exact Feeds.known feeds
    fresh := feeds.moved_fresh comes same }

end Visited

/-- A visit that leaves the order alone. -/
theorem Zipper.Feeds.visit (feeds : z.Feeds output course) (todo : z.todo = (a, c) :: rest)
    (still : sinks (answer.recv a) = true → z.before = [] ∧ rest = []) :
    ∃ next, z.visit answer = some next ∧ ∀ moved : Nat → Course,
      (∀ other, other ≠ a → moved other = course other) →
      moved a = (if a ∈ addresses next.core.freed then
          requested output.length (requests (answer.recv a)) (course a)
        else (requested output.length (requests (answer.recv a)) (course a)).reveal output.length) →
      next.Feeds output moved := by
  refine ⟨_, visit_still todo still, fun moved same own => ?_⟩
  obtain ⟨_, _, freed⟩ := received_visits z answer a c
  by_cases dropped : (z.received answer a c).2.state = .disconnected
  · rw [if_pos dropped] at own ⊢
    have here : a ∈ addresses ((z.received answer a c).1.drop a (z.received answer a c).2).freed :=
      List.mem_map_of_mem (List.mem_append_right _ (List.mem_singleton_self _))
    rw [if_pos here] at own
    exact feeds.drops todo same own
  · rw [if_neg dropped] at own ⊢
    have elsewhere : a ∉ addresses ((z.received answer a c).1.keep a).freed := by
      change a ∉ addresses (z.received answer a c).1.freed
      rw [freed]
      exact (feeds.apart todo).1.2.2
    rw [if_neg elsewhere] at own
    exact feeds.keeps todo same own

theorem Feeds.congr {front back : Linked} {next : Core}
    (feeds : Feeds output course core front back lost accepted serverPacket)
    (history : next.history = core.history) (freed : next.freed = core.freed) :
    Feeds output course next front back lost accepted serverPacket := by
  obtain ⟨valid, content, fits, served, waiting, linked, gone, places, known, fresh⟩ := feeds
  rw [← history] at valid content
  rw [← freed] at gone places known
  exact ⟨valid, content, fits, served, waiting, linked, gone, places, known, fresh⟩

theorem Listing.Feeds.accept (feeds : l.Feeds output course) (writes : List WriteAnswer)
    (same : ∀ other, other ≠ l.accepted → moved other = course other)
    (own : moved l.accepted = (course l.accepted).enter output.length) :
    (l.accept writes).Feeds output moved := by
  have known := feeds.known
  have fresh := feeds.fresh
  have new : (newClient l.core.pid writes).FedBy output [] (moved l.accepted) := by
    rw [own, Course.enter, fresh l.accepted (Nat.le_refl _)]
    have start : Client.FedBy output [] ⟨output.length, [], output.length⟩
        ⟨writes, [], .connected, 0, false⟩ := fun _ =>
      ⟨fun _ member => (List.not_mem_nil member).elim, .start output⟩
    exact start.send (pidPacket_fits _) rfl
  have elsewhere {place : Nat}
      (member : place ∈ addresses (l.clients ++ []) ++ addresses l.core.freed) :
      moved place = course place := same place (known place member).ne
  exact {
    valid := feeds.valid
    history := feeds.history
    fits := feeds.fits
    served := List.forall_mem_cons.mpr ⟨new, fun node member => by
      have listed : node.1 ∈ addresses (l.clients ++ []) := by
        rw [List.append_nil]
        exact List.mem_map_of_mem member
      rw [elsewhere (List.mem_append_left _ listed)]
      exact feeds.served node member⟩
    waiting := fun _ member => by cases member
    linked := feeds.linked
    freed := fun node member => by
      rw [elsewhere (List.mem_append_right _ (List.mem_map_of_mem member))]
      exact feeds.freed node member
    places := List.nodup_cons.mpr ⟨fun member => Nat.lt_irrefl _ (known _ member), feeds.places⟩
    known := List.forall_mem_cons.mpr ⟨Nat.lt_succ_self _, fun a member =>
      Nat.lt_succ_of_lt (known a member)⟩
    fresh := fun a more => by
      have more : l.accepted + 1 ≤ a := more
      rw [same a (by omega), fresh a (by omega)] }

theorem Listing.Feeds.woken (feeds : l.Feeds output course) (answer : Selected)
    (same : ∀ other, (answer.accept.map fun _ => l.accepted) ≠ some other → moved other = course other)
    (own : (answer.accept.map fun _ => l.accepted) = some l.accepted → moved l.accepted = (course l.accepted).enter output.length) :
    (l.woken answer).Feeds output moved := by
  have reaped := reap_visits l.core answer.sigchld
  have cleared : Listing.Feeds output course { l with core := (l.core.reap answer.sigchld).clear } :=
    Feeds.congr feeds (reap_history _ _) reaped.2.2
  rw [Listing.woken]
  cases accept : answer.accept with
  | none =>
    have still : moved = course := funext fun other => same other (by simp [accept])
    rw [still]
    exact cleared
  | some writes =>
    exact cleared.accept writes (fun other distinct => same other (by simp [accept, distinct.symm]))
      (own (by simp [accept]))

theorem readable_reads {next : Core} {read : Option (ReadAnswer maxPayload)} (valid : core.history.Valid)
    (history : core.history.content = output.rtake historyCap)
    (done : core.readable read = some (next, serverPacket)) :
    next.history.Valid ∧ next.history.content = (output ++ readBytes read).rtake historyCap ∧
      contentOf serverPacket.toList = readBytes read ∧ (readBytes read).length ≤ maxPayload := by
  have nothing {kept : Core} (same : kept.history = core.history) :
      kept.history.Valid ∧ kept.history.content = (output ++ []).rtake historyCap ∧
        contentOf [] = [] ∧ ([] : List UInt8).length ≤ maxPayload := by
    rw [same, List.append_nil]
    exact ⟨valid, history, rfl, Nat.zero_le _⟩
  rcases read with _ | ⟨slice⟩ | kind
  · cases done
    exact nothing rfl
  · rw [Core.readable, serverReadPty] at done
    by_cases eof : slice.bytes = []
    · rw [if_pos eof] at done
      cases done
      rw [readBytes, eof]
      exact nothing rfl
    · rw [if_neg eof] at done
      obtain ⟨ring, appended, valid', content⟩ := serverHistoryAppend_some valid slice.bytes
      rw [appended] at done
      cases done
      refine ⟨valid', ?_, ?_, slice.bound⟩
      · rw [content, history, readBytes, rtake_rtake_append]
      · exact List.append_nil _
  · cases kind <;> cases done <;> exact nothing rfl

theorem Client.FedBy.read {course : Course} (fed : c.FedBy output [] course) {piece : List UInt8}
    (short : piece.length ≤ maxPayload) : c.FedBy (output ++ piece) piece course := by
  intro unharmed
  obtain ⟨fits, fed⟩ := fed unharmed
  exact ⟨fits, fed.read piece short⟩

theorem Listing.Feeds.select (feeds : l.Feeds output course) (answer : Selected)
    (same : ∀ other, (if (l.clients = [] ∧ l.core.exitPacketDelivered) ∨ answer.interrupted then none
      else answer.accept.map fun _ => l.accepted) ≠ some other → moved other = course other)
    (own : (if (l.clients = [] ∧ l.core.exitPacketDelivered) ∨ answer.interrupted then none
      else answer.accept.map fun _ => l.accepted) = some l.accepted → moved l.accepted = (course l.accepted).enter output.length) :
    (l.select answer).Feeds (output ++
      if (l.clients = [] ∧ l.core.exitPacketDelivered) ∨ answer.interrupted then []
      else readBytes answer.ptyRead) moved := by
  rcases select_cases answer l with
    ⟨alone, delivered, done⟩ | ⟨interrupted, done⟩ | done | ⟨awake, core, packet, read, done⟩
  · rw [if_pos (.inl ⟨alone, delivered⟩)] at same
    have still : moved = course := funext fun other => same other (Option.some_ne_none other).symm
    rw [done, if_pos (.inl ⟨alone, delivered⟩), List.append_nil, still]
    exact feeds
  · rw [if_pos (.inr interrupted)] at same
    have still : moved = course := funext fun other => same other (Option.some_ne_none other).symm
    rw [done, if_pos (.inr interrupted), List.append_nil, still]
    exact Feeds.congr feeds (reap_history _ _) (reap_visits l.core answer.sigchld).2.2
  · rw [done]
    exact trivial
  · have goes : ¬ ((l.clients = [] ∧ l.core.exitPacketDelivered) ∨ answer.interrupted) := by
      rintro (both | interrupted)
      · rw [Listing.select, if_pos both, Listing.walk, Zipper.next] at done
        split at done <;> cases done
      · rw [awake] at interrupted
        cases interrupted
    rw [if_neg goes] at same own
    have woken := feeds.woken answer same own
    obtain ⟨valid, history, content, short⟩ := readable_reads woken.valid woken.history read
    obtain ⟨freed, fits⟩ := readable_fits read
    rw [done, if_neg goes]
    apply Zipper.Feeds.next
    exact {
      valid := valid
      history := history
      fits := fits
      served := fun _ member => by cases member
      waiting := fun node member => by
        rw [content]
        exact (woken.served node member).read short
      linked := woken.linked
      freed := by
        change ∀ node ∈ core.freed, _
        rw [freed]
        exact fun node member => (woken.freed node member).later _
      places := by
        change (addresses (l.woken answer).clients ++ addresses core.freed).Nodup
        rw [freed]
        simpa using woken.places
      known := by
        change ∀ a ∈ addresses (l.woken answer).clients ++ addresses core.freed, _
        rw [freed]
        simpa using woken.known
      fresh := woken.fresh }

end Steps

/-! ## Runs -/

structure Client.ToldBy (output : List UInt8) (course : Course) (c : Client) : Prop where
  forward : course.Forward maxPayload output.length
  shown : c.shown = course.told (fun log => log.rtake historyCap) output

def ledgerOf (events : List Event) (machine : Machine) : Ledger :=
  noted step Ledger.note events machine .empty

section Runs

variable {output lag : List UInt8} {course : Nat → Course} {a : Nat} {c : Client} {p : Picture}
  {m : Machine} {ledger : Ledger}

theorem ledgerOf_output (events : List Event) (machine : Machine) :
    (ledgerOf events machine).output = emitted step Machine.reads events machine :=
  noted_emitted (fun _ _ _ => rfl) events machine Ledger.empty

theorem Client.FedBy.told {course : Course} (fed : c.FedBy output lag course)
    (unharmed : c.Unharmed) : c.ToldBy output course ∧ course.shown + lag.length = output.length := by
  have sound := (fed unharmed).2.sound
  exact ⟨⟨sound.forward, sound.told⟩, sound.upto⟩

theorem Client.ToldBy.later {course : Course} (told : c.ToldBy output course)
    (more : List UInt8) : c.ToldBy (output ++ more) course where
  forward := by
    rw [List.length_append]
    exact told.forward.read _
  shown := by rw [told.forward.told_append, told.shown]

theorem Client.FedBefore.told {course : Course} (fed : c.FedBefore output course)
    (unharmed : c.Unharmed) : c.ToldBy output course := by
  obtain ⟨part, lag, ⟨more, rfl⟩, fed⟩ := fed
  exact (fed.told unharmed).1.later more

theorem noteCourse_other {course : Course} {read : Nat} {event : Event}
    (accepts : m.accepts event ≠ some a) (visits : m.comesTo event ≠ some a) :
    noteCourse a read m event course = course := by
  rw [noteCourse, if_neg accepts, if_neg visits]

theorem requested_asked (read : Nat) (pkts : List Received) (course : Course) :
    (requested read pkts course).asked.length = course.asked.length + pkts.length := by
  induction pkts generalizing course with
  | nil => rfl
  | cons pkt pkts ih =>
    have one : (course.ask read).asked.length = course.asked.length + 1 := List.length_append
    rw [requested, List.foldl_cons, ← requested, ih, one, List.length_cons]
    omega

theorem Machine.asks_unvisited {event : Event} (visits : m.comesTo event ≠ some a) :
    m.asks a event = [] := by
  cases m with
  | walking w =>
    cases event with
    | select answer => rfl
    | visit answer => exact if_neg visits
  | selecting s => cases event <;> rfl
  | exited s => cases event <;> rfl
  | fault => cases event <;> rfl

theorem noteCourse_asked (a read : Nat) (m : Machine) (event : Event) (course : Course) :
    (noteCourse a read m event course).asked.length =
      course.asked.length + (m.asks a event).length := by
  by_cases visits : m.comesTo event = some a
  · have nobody : m.accepts event ≠ some a := by
      intro accepts
      cases m <;> cases event <;> first | cases accepts | cases visits
    rw [noteCourse, if_neg nobody, if_pos visits]
    dsimp only
    split <;> exact requested_asked read _ course
  · rw [Machine.asks_unvisited visits, noteCourse, if_neg visits]
    split <;> rfl

theorem ledgerOf_asked (a : Nat) (events : List Event) (machine : Machine) :
    ((ledgerOf events machine).course a).asked.length =
      (emitted step (Machine.asks a) events machine).length := by
  have grows (ledger : Ledger) : ((noted step Ledger.note events machine ledger).course a).asked.length =
      (ledger.course a).asked.length + (emitted step (Machine.asks a) events machine).length := by
    induction events generalizing machine ledger with
    | nil => rfl
    | cons event events ih =>
      rw [noted, ih, emitted, List.length_append, ← Nat.add_assoc]
      exact congrArg (· + _) (noteCourse_asked a _ machine event _)
  exact (grows .empty).trans (Nat.zero_add _)

theorem Ledger.note_still {event : Event} (reads : m.reads event = [])
    (accepts : m.accepts event = none) (visits : m.comesTo event = none) :
    ledger.note m event = ledger := by
  have courses (a : Nat) : noteCourse a ledger.output.length m event (ledger.course a) =
      ledger.course a := noteCourse_other (by simp [accepts]) (by simp [visits])
  simp only [Ledger.note, reads, List.append_nil, courses]

theorem Picture.Feeds.step (feeds : p.Feeds ledger.output ledger.course) (same : p.Represents m)
    (event : Event) (inPlace : InPlace m event) :
    (pictureStep event p).Feeds (ledger.note m event).output (ledger.note m event).course := by
  cases same with
  | @selecting l s same =>
    cases event with
    | visit answer =>
      rw [Ledger.note_still rfl rfl rfl]
      exact feeds
    | select answer =>
      have head : s.chain.head = none ↔ l.clients = [] := by
        rw [same.lists.holds.head_eq]
        cases l.clients <;> simp
      have accepts : Machine.accepts (.selecting s) (.select answer) =
          if (l.clients = [] ∧ l.core.exitPacketDelivered) ∨ answer.interrupted then none
          else answer.accept.map fun _ => l.accepted := by
        simp only [Machine.accepts, head, same.core, same.accepted]
      have others (other : Nat) (distinct : _ ≠ some other) :
          (ledger.note (.selecting s) (.select answer)).course other = ledger.course other :=
        noteCourse_other (accepts ▸ distinct) fun same => by cases same
      have selected := Listing.Feeds.select feeds answer others fun own => if_pos (accepts.trans own)
      simp only [← head, ← same.core] at selected
      exact selected
  | @exited l s same =>
    have still : ledger.note (.exited s) event = ledger := Ledger.note_still rfl rfl rfl
    rw [still]
    cases event <;> exact feeds
  | fault => cases event <;> exact trivial
  | @walking z w same more =>
    cases event with
    | select answer =>
      rw [Ledger.note_still rfl rfl rfl]
      exact feeds
    | visit answer =>
      obtain ⟨⟨a, c⟩, rest, todo⟩ := List.exists_cons_of_ne_nil more
      have current := same.c
      have holds := same.lists.holds
      rw [todo] at current holds
      obtain ⟨next, done, feeds'⟩ := Zipper.Feeds.visit feeds todo
        (inPlace w answer z.before a c rest rfl rfl current holds)
      have stepped := step_represents (.visit answer) _ _ (.walking same more)
      rw [pictureStep, done] at stepped ⊢
      have freed : (C.step (.visit answer) (.walking w)).freed = next.core.freed :=
        stepped.freed.trans next.next_freed
      have asks : Machine.asks a (.walking w) (.visit answer) = requests (answer.recv a) :=
        if_pos current
      have output : (ledger.note (.walking w) (.visit answer)).output = ledger.output :=
        List.append_nil _
      rw [output]
      have nobody (other : Nat) : Machine.accepts (.walking w) (.visit answer) ≠ some other :=
        fun same => by cases same
      have visits : Machine.comesTo (.walking w) (.visit answer) = some a := current
      refine (feeds' (ledger.note (.walking w) (.visit answer)).course (fun other distinct => ?_) ?_).next
      · refine noteCourse_other (nobody other) ?_
        rw [visits]
        exact fun same => distinct (Option.some.inj same).symm
      · change noteCourse a ledger.output.length (.walking w) (.visit answer) (ledger.course a) = _
        rw [noteCourse, if_neg (nobody a), if_pos visits, asks, freed]

theorem start_feeds (pid : UInt64) (readPty : Bool) (ptyWrites : List WriteAnswer) :
    (Picture.selecting ⟨(Server.start pid readPty ptyWrites).core, [], [], 0⟩).Feeds []
      Ledger.empty.course where
  valid := History.empty_valid
  history := History.empty_content
  fits _ member := by cases member
  served _ member := by cases member
  waiting _ member := by cases member
  linked := rfl
  freed _ member := by cases member
  places := List.nodup_nil
  known _ member := by cases member
  fresh _ _ := rfl

theorem run_feeds (pid : UInt64) (readPty : Bool) (ptyWrites : List WriteAnswer) (events : List Event)
    (inPlace : Along step InPlace events (.selecting (Server.start pid readPty ptyWrites))) :
    let start := Machine.selecting (Server.start pid readPty ptyWrites)
    ∃ p : Picture, p.Represents (runSteps step events start) ∧
      p.Feeds (ledgerOf events start).output (ledgerOf events start).course := by
  intro start
  induction events using List.reverseRecOn with
  | nil => exact ⟨_, start_represents pid readPty ptyWrites, start_feeds pid readPty ptyWrites⟩
  | append_singleton events event ih =>
    obtain ⟨before, last⟩ := along_append.mp inPlace
    obtain ⟨p, same, feeds⟩ := ih before
    have next := feeds.step same event last.1
    refine ⟨pictureStep event p, ?_, ?_⟩
    · rw [runSteps_append]
      exact step_represents event p _ same
    · rw [ledgerOf, noted_append]
      exact next

theorem Picture.Feeds.allocated (feeds : p.Feeds output course) (same : p.Represents m)
    (found : m.Allocated a c) :
    ∃ lag, c.FedBy output lag (course a) ∧ ((∃ s, m = .selecting s) → lag = []) := by
  obtain ⟨s, next, found, which⟩ := found
  have listed {l : Listing} (feeds : l.Feeds output course) (lists : s.Lists l.clients l.lost) :
      c.FedBy output [] (course a) := by
    have member := lists.known a _ found
    rw [feeds.linked, List.append_nil] at member
    exact feeds.served _ member
  cases same with
  | selecting same =>
    rcases which with ⟨⟨⟩⟩ | which | ⟨_, which, _⟩
    · exact ⟨[], listed feeds same.lists, fun _ => rfl⟩
    · cases which
    · cases which
  | exited same =>
    rcases which with which | ⟨⟨⟩⟩ | ⟨_, which, _⟩
    · cases which
    · exact ⟨[], listed feeds same.lists, fun _ => rfl⟩
    · cases which
  | walking same _ =>
    rcases which with which | which | ⟨_, ⟨⟨⟩⟩, rfl⟩
    · cases which
    · cases which
    · have member := same.lists.known a _ found
      have linked := Feeds.linked feeds
      rw [linked, List.append_nil] at member
      rcases List.mem_append.mp member with front | back
      · exact ⟨[], Feeds.served feeds _ front, fun _ => rfl⟩
      · refine ⟨_, Feeds.waiting feeds _ back, fun other => ?_⟩
        obtain ⟨_, no⟩ := other
        cases no
  | fault => rcases which with which | which | ⟨_, which, _⟩ <;> cases which

theorem Picture.Feeds.given (feeds : p.Feeds output course) (same : p.Represents m)
    (freed : (a, c) ∈ m.freed) : c.FedBefore output (course a) := by
  rw [same.freed] at freed
  cases p with
  | selecting l => exact Feeds.freed feeds _ freed
  | walking z => exact Feeds.freed feeds _ freed
  | exited l => exact Feeds.freed feeds _ freed
  | fault => cases freed

end Runs

-- Each client goes its own way through the loops; the ring has what they are replayed.
theorem shows_everything (pid : UInt64) (readPty : Bool) (ptyWrites : List WriteAnswer)
    (events : List Event)
    (inPlace : Along step InPlace events (.selecting (Server.start pid readPty ptyWrites))) :
    let start := Machine.selecting (Server.start pid readPty ptyWrites)
    let machine := runSteps step events start
    let output := emitted step Machine.reads events start
    let course := (ledgerOf events start).course
    (∀ a c, machine.Allocated a c → c.Unharmed →
      c.ToldBy output (course a) ∧ output.length ≤ (course a).shown + maxPayload ∧
        ((∃ s, machine = .selecting s) → (course a).shown = output.length)) ∧
    ∀ a c, (a, c) ∈ machine.freed → c.Unharmed → c.ToldBy output (course a) := by
  intro start machine output course
  obtain ⟨p, same, feeds⟩ := run_feeds pid readPty ptyWrites events inPlace
  rw [ledgerOf_output] at feeds
  refine ⟨fun a c found unharmed => ?_, fun a c freed => (feeds.given same freed).told⟩
  obtain ⟨lag, fed, upTo⟩ := feeds.allocated same found
  obtain ⟨told, stop⟩ := fed.told unharmed
  have near : lag.length ≤ maxPayload := (fed unharmed).2.sound.behind.2
  refine ⟨told, stop ▸ Nat.add_le_add_left near _, fun selecting => ?_⟩
  rw [← stop, upTo selecting]
  rfl

/-! ## A run with one client -/

def attaching : List Event :=
  [.select ⟨false, some [.ok 4096, .ok 4096], none, none⟩,
    .visit ⟨fun _ => some (some ⟨msgAttach, 4, [0, 0, 0, 0]⟩), none⟩]

def greeting : Event := .select ⟨false, none, some (.ok ⟨[104, 105], by decide⟩), none⟩

def passing : Event := .visit ⟨fun _ => none, none⟩

def liveRun : List Event := attaching ++ [greeting, passing]

theorem inPlace_select (machine : Machine) (answer : Selected) : InPlace machine (.select answer) := by
  intro _ _ _ _ _ _ _ same
  cases same

theorem inPlace_stays {machine : Machine} {answer : Answer}
    (stays : ∀ a, sinks (answer.recv a) = false) : InPlace machine (.visit answer) := by
  rintro _ _ _ a _ _ _ ⟨⟩ _ _ sink
  rw [stays a] at sink
  cases sink

theorem readable_ok (core : Core) {ring : History} {slice : Slice maxPayload}
    (more : slice.bytes ≠ []) (appended : serverHistoryAppend core.history slice.bytes = some ring) :
    core.readable (some (.ok slice)) =
      some ({ core with history := ring }, some ⟨msgContent, slice.bytes⟩) := by
  rw [Core.readable, serverReadPty, if_neg more, appended]
  rfl

theorem select_reads {s : Server} {ring : History} {slice : Slice maxPayload} {first : Nat}
    (head : s.chain.head = some first) (more : slice.bytes ≠ [])
    (appended : serverHistoryAppend s.core.history slice.bytes = some ring) :
    s.select ⟨false, none, some (.ok slice), none⟩ =
      .walking ⟨{ s with core := { s.core.clear with history := ring } }, .head, some first,
        some ⟨msgContent, slice.bytes⟩⟩ := by
  have kept : serverHistoryAppend s.core.clear.history slice.bytes = some ring := appended
  simp only [Server.select, head, Core.reap, Server.listen, readable_ok _ more kept, Walk.next]
  rfl

/-- The client is sent the output. The ring is as large as the history gets, so its
content is left alone. -/
theorem liveRun_sends :
    ∃ s w t c, runSteps step attaching (.selecting (Server.start 1 true [])) = .selecting s ∧
      s.chain.head = some 0 ∧ step greeting (.selecting s) = .walking w ∧ w.c = some 0 ∧
      step passing (.walking w) = .selecting t ∧ t.core.freed = [] ∧
      t.chain.heap 0 = some ⟨c, none⟩ ∧
      c.sends = [⟨pidPacket 1, 16⟩, ⟨⟨msgContent, [104, 105]⟩, 10⟩] := by
  obtain ⟨ring, appended, _⟩ := serverHistoryAppend_some History.empty_valid [104, 105]
  obtain ⟨s, run, head, history, t, c, last, freed, found, sends⟩ : ∃ s,
      runSteps step attaching (.selecting (Server.start 1 true [])) = .selecting s ∧
      s.chain.head = some 0 ∧ s.core.history = History.empty ∧
      ∃ t c, step passing (.walking
        ⟨{ s with core := { s.core.clear with history := ring } }, .head, some 0,
          some ⟨msgContent, [104, 105]⟩⟩) = .selecting t ∧ t.core.freed = [] ∧
        t.chain.heap 0 = some ⟨c, none⟩ ∧
        c.sends = [⟨pidPacket 1, 16⟩, ⟨⟨msgContent, [104, 105]⟩, 10⟩] :=
    ⟨_, rfl, rfl, rfl, _, _, rfl, rfl, rfl, rfl⟩
  have walking := @select_reads s ring ⟨[104, 105], by decide⟩ 0 head (by decide) (history ▸ appended)
  exact ⟨s, _, t, c, run, head, walking, rfl, last, freed, found, sends⟩

theorem liveRun_ends {s t : Server} {w : Walk}
    (run : runSteps step attaching (.selecting (Server.start 1 true [])) = .selecting s)
    (walking : step greeting (.selecting s) = .walking w)
    (last : step passing (.walking w) = .selecting t) :
    runSteps step liveRun (.selecting (Server.start 1 true [])) = .selecting t := by
  rw [liveRun, runSteps_append, run, runSteps_cons, runSteps_cons, runSteps_nil, walking, last]

theorem liveRun_reads :
    emitted step Machine.reads liveRun (.selecting (Server.start 1 true [])) = [104, 105] := by
  obtain ⟨s, w, _, _, run, head, walking, _⟩ := liveRun_sends
  have before : emitted step Machine.reads attaching (.selecting (Server.start 1 true [])) = [] := rfl
  rw [liveRun, emitted_append, before, run, emitted, emitted, emitted, walking]
  simp [Machine.reads, greeting, head, readBytes]

theorem liveRun_course :
    (ledgerOf liveRun (.selecting (Server.start 1 true []))).course 0 = ⟨0, [⟨0, 0⟩], 2⟩ := by
  obtain ⟨s, w, t, c, run, head, walking, current, last, freed, _⟩ := liveRun_sends
  have before : (ledgerOf attaching (.selecting (Server.start 1 true []))).course 0 =
      ⟨0, [⟨0, 0⟩], 0⟩ := rfl
  have empty : (ledgerOf attaching (.selecting (Server.start 1 true []))).output = [] := rfl
  have reads : Machine.reads (.selecting s) greeting = [104, 105] := by
    simp [Machine.reads, greeting, head, readBytes]
  have accepts : Machine.accepts (.selecting s) greeting ≠ some 0 := by
    simp [Machine.accepts, greeting]
  have nobody : Machine.accepts (.walking w) passing ≠ some 0 := fun same => by cases same
  have elsewhere : Machine.comesTo (.selecting s) greeting ≠ some 0 := fun same => by cases same
  have visits : Machine.comesTo (.walking w) passing = some 0 := current
  have asks : Machine.asks 0 (.walking w) passing = [] := if_pos current
  have stays : 0 ∉ addresses (step passing (.walking w)).freed := by
    rw [last, Machine.freed, freed]
    exact List.not_mem_nil
  rw [ledgerOf, liveRun, noted_append, run, noted, noted, noted, walking, ← ledgerOf]
  simp only [Ledger.note, before, empty, reads]
  rw [noteCourse_other accepts elsewhere, noteCourse, if_neg nobody, if_pos visits, asks, if_neg stays]
  rfl

theorem liveRun_inPlace : Along step InPlace liveRun (.selecting (Server.start 1 true [])) :=
  ⟨inPlace_select _ _, inPlace_stays fun _ => rfl, inPlace_select _ _, inPlace_stays fun _ => rfl,
    trivial⟩

theorem shows_everything_live :
    ∃ s c, runSteps step liveRun (.selecting (Server.start 1 true [])) = .selecting s ∧
      s.chain.heap 0 = some ⟨c, none⟩ ∧ c.shown = [104, 105] ∧
      c.ToldBy [104, 105] ⟨0, [⟨0, 0⟩], 2⟩ := by
  obtain ⟨s, w, t, c, run, head, walking, current, last, _, found, sends⟩ := liveRun_sends
  have ends := liveRun_ends run walking last
  have shown : c.shown = [104, 105] := by
    rw [Client.shown, sends]
    decide
  obtain ⟨told, _, _⟩ := (shows_everything 1 true [] liveRun liveRun_inPlace).1 0 c
    ⟨t, none, found, .inl ends⟩ (by simp [Client.Unharmed, sends, Send.Short, pidPacket]; rfl)
  rw [liveRun_reads, liveRun_course] at told
  exact ⟨t, c, ends, found, shown, told⟩

end Lich.C
