import Lich.C.Listing

/-! Who decides the window's size in the C program.

The client at the head of the list does. A client of low priority is kept behind
the normal ones only as long as it is itself at the head when it attaches, since
it is the head that is moved, and as long as nobody attaches normally behind it.
-/

set_option autoImplicit false

namespace Lich.C

open Foundation Foundation.Chain

def Client.Low (c : Client) : Prop := c.attachSeen = true ∧ c.flags &&& clientLowpriority ≠ 0

/-- It has attached, neither with low priority nor to watch only. -/
def Client.Normal (c : Client) : Prop :=
  c.attachSeen = true ∧ c.flags &&& clientLowpriority = 0 ∧ c.flags &&& clientReadonly = 0

/-- When the head's MSG_RESIZE is handled and the head is of low priority, no
client in memory is a normal one. -/
def NormalDecides (machine : Machine) (event : Event) : Prop :=
  ∀ w answer a c rest pkt, machine = .walking w → event = .visit answer → w.c = some a →
    answer.recv a = some (some pkt) → pkt.typ = msgResize →
    w.server.chain.Holds ((a, c) :: rest) → c.Low →
    ∀ b node, w.server.chain.heap b = some node → ¬ node.value.Normal

def Client.attach (c : Client) (pkt : Received) : Client :=
  { c with flags := pkt.i, attachSeen := true }

/-- A MSG_ATTACH, among the clients before and behind: a normal one has no client
of low priority ahead; one of low priority from behind the head has no normal
client behind it, and the head is none; and where moving the head takes away the
link to the client (it is the head, or the second), it stays connected. -/
structure Orderly (h : History) (before : Linked) (c : Client) (rest : Linked) (pkt : Received) :
    Prop where
  normal : (c.attach pkt).Normal → ∀ node ∈ before, ¬ node.2.Low
  low : (c.attach pkt).Low → ∀ head front, before = head :: front →
    ¬ head.2.Normal ∧ ∀ node ∈ rest, ¬ node.2.Normal
  stays : (c.attach pkt).Low → before ++ rest ≠ [] → before.length ≤ 1 →
    c.state ≠ .disconnected ∧
      (serverSendHistory h (c.attach pkt) false).map Prod.fst = some true

def AttachesOrderly (machine : Machine) (event : Event) : Prop :=
  ∀ w answer before a c rest pkt, machine = .walking w → event = .visit answer → w.c = some a →
    w.server.chain.Holds (before ++ (a, c) :: rest) → answer.recv a = some (some pkt) →
    pkt.typ = msgAttach → Orderly w.server.core.history before c rest pkt

/-! ## Standing -/

def Client.standing (c : Client) : Bool × UInt32 := (c.attachSeen, c.flags)

theorem Client.low_congr {c d : Client} (same : c.standing = d.standing) : c.Low ↔ d.Low := by
  obtain ⟨seen, flags⟩ := Prod.mk.inj same
  rw [Low, Low, seen, flags]

theorem Client.normal_congr {c d : Client} (same : c.standing = d.standing) :
    c.Normal ↔ d.Normal := by
  obtain ⟨seen, flags⟩ := Prod.mk.inj same
  rw [Normal, Normal, seen, flags]

theorem serverSendPacket_standing (c : Client) (pkt : Packet) :
    (serverSendPacket c pkt).2.standing = c.standing := by
  obtain ⟨sent, later, ok, done⟩ := serverSendPacket_any c pkt
  rw [done]
  rfl

theorem sendAll_standing (pkts : List Packet) (c : Client) :
    (sendAll pkts c).2.standing = c.standing := by
  obtain ⟨sent, later, ok, done⟩ := sendAll_any pkts c
  rw [done]
  rfl

theorem serve_standing (core : Core) (serverPacket : Option Packet) (c : Client) :
    (core.serve serverPacket c).standing = c.standing := by
  obtain ⟨sent, later, ok, done⟩ := serve_any core serverPacket c
  rw [done]
  rfl

theorem received_standing (z : Zipper) (answer : Answer) (a : Nat) (c : Client) :
    (∃ pkt, answer.recv a = some (some pkt) ∧ pkt.typ = msgAttach ∧
      (z.received answer a c).2.standing = (c.attach pkt).standing) ∨
    (sinks (answer.recv a) = false ∧ (z.received answer a c).2.standing = c.standing) := by
  rw [Zipper.received]
  rcases recv : answer.recv a with _ | _ | pkt
  · exact .inr ⟨rfl, rfl⟩
  · exact .inr ⟨rfl, rfl⟩
  · by_cases attach : pkt.typ = msgAttach
    · refine .inl ⟨pkt, rfl, attach, ?_⟩
      rw [receive, respond_attach _ _ _ _ attach]
      exact sendAll_standing _ _
    · refine .inr ⟨by simp [sinks, attach], ?_⟩
      rw [receive, respond, if_neg attach]
      split_ifs
      · rfl
      · exact sendAll_standing _ _
      all_goals rfl

/-! ## The order of the list -/

/-- No client of low priority stands ahead of a normal one. -/
def Ordered (list : Linked) : Prop := list.Pairwise fun x y => x.2.Low → ¬ y.2.Normal

def standings (list : Linked) : List (Bool × UInt32) := list.map fun node => node.2.standing

theorem standings_nudge (list : Linked) : standings (nudge list) = standings list := by
  cases list with
  | nil => rfl
  | cons node rest => simp [standings, nudge, serverSendPacket_standing]

theorem ordered_iff (list : Linked) :
    Ordered list ↔ (standings list).Pairwise fun x y =>
      (x.1 = true ∧ x.2 &&& clientLowpriority ≠ 0) →
        ¬ (y.1 = true ∧ y.2 &&& clientLowpriority = 0 ∧ y.2 &&& clientReadonly = 0) := by
  rw [standings, List.pairwise_map]
  rfl

theorem Ordered.congr {list other : Linked} (ordered : Ordered list)
    (same : standings other = standings list) : Ordered other := by
  rw [ordered_iff] at ordered ⊢
  rwa [same]

theorem ordered_middle {front back : Linked} {a : Nat} {c : Client} :
    Ordered (front ++ (a, c) :: back) ↔
      Ordered (front ++ back) ∧ (c.Normal → ∀ node ∈ front, ¬ node.2.Low) ∧
        (c.Low → ∀ node ∈ back, ¬ node.2.Normal) := by
  simp only [Ordered, List.pairwise_append, List.pairwise_cons, List.mem_cons]
  constructor
  · rintro ⟨first, ⟨later, second⟩, apart⟩
    exact ⟨⟨first, second, fun x member y member' => apart x member y (.inr member')⟩,
      fun normal x member low => apart x member (a, c) (.inl rfl) low normal,
      fun low y member => later y member low⟩
  · rintro ⟨⟨first, second, apart⟩, ahead, behind⟩
    refine ⟨first, ⟨fun y member low => behind low y member, second⟩, ?_⟩
    rintro x member y (rfl | member') low
    · exact fun normal => ahead normal x member low
    · exact apart x member y member' low

theorem Ordered.sublist {list other : Linked} (ordered : Ordered list) (part : other.Sublist list) :
    Ordered other :=
  List.Pairwise.sublist part ordered

section Visits

variable {z next : Zipper} {answer : Answer} {a : Nat} {c : Client} {rest : Linked}

theorem ordered_around (ordered : Ordered (z.before ++ (a, c) :: rest))
    (orderly : ∀ pkt, answer.recv a = some (some pkt) → pkt.typ = msgAttach →
      Orderly z.core.history z.before c rest pkt) :
    Ordered ((around (sinks (answer.recv a)) z.before rest).1 ++
      (a, (z.received answer a c).2) :: (around (sinks (answer.recv a)) z.before rest).2) := by
  obtain ⟨others, ahead, behind⟩ := ordered_middle.mp ordered
  rcases received_standing z answer a c with ⟨pkt, recv, attach, same⟩ | ⟨stays, same⟩
  · obtain ⟨normal, low, _⟩ := orderly pkt recv attach
    have lowIff := Client.low_congr same
    have normalIff := Client.normal_congr same
    cases sink : sinks (answer.recv a) with
    | false =>
      have high : ¬ (c.attach pkt).Low := by
        intro low
        simp only [recv, sinks, attach, true_and, decide_eq_false_iff_not, not_not] at sink
        exact low.2 sink
      simp only [around, Bool.false_eq_true, if_false]
      exact ordered_middle.mpr ⟨others, fun is => normal (normalIff.mp is),
        fun is => absurd (lowIff.mp is) high⟩
    | true =>
      have is : (c.attach pkt).Low := by
        simp only [recv, sinks, attach, true_and, decide_eq_true_eq] at sink
        exact ⟨rfl, sink⟩
      have isNot : ¬ (z.received answer a c).2.Normal := fun normal =>
        is.2 (normalIff.mp normal).2.1
      cases split : z.before with
      | nil =>
        rw [split] at others
        exact ordered_middle.mpr ⟨by simpa [around] using others, fun normal => absurd normal isNot, by simp [around]⟩
      | cons head front =>
        obtain ⟨plain, behind'⟩ := low is head front split
        rw [split] at others
        have moved : Ordered ((front ++ rest) ++ head :: []) :=
          ordered_middle.mpr ⟨by simpa using others.sublist (List.sublist_cons_self _ _),
            fun normal => absurd normal plain, by simp⟩
        refine ordered_middle.mpr ⟨by simpa [around] using moved, fun normal => absurd normal isNot, ?_⟩
        intro _ node member
        rcases List.mem_append.mp member with member | member
        · exact behind' node member
        · rw [List.mem_singleton.mp member]
          exact plain
  · rw [stays]
    exact ordered_middle.mpr ⟨others, fun is => ahead ((Client.normal_congr same).mp is),
      fun is => behind ((Client.low_congr same).mp is)⟩

theorem received_stays (valid : z.core.history.Valid) {pkt : Received}
    (recv : answer.recv a = some (some pkt)) (attach : pkt.typ = msgAttach)
    (connected : c.state ≠ .disconnected)
    (sent : (serverSendHistory z.core.history (c.attach pkt) false).map Prod.fst = some true) :
    (z.received answer a c).2.state ≠ .disconnected := by
  obtain ⟨more, later, ok, done, _⟩ := sendAll_after (replay_fits valid false) (c.attach pkt)
  rw [serverSendHistory_eq valid, done] at sent
  cases sent
  rw [Zipper.received, recv, receive, respond_attach _ _ _ _ attach, reap_history]
  rw [Client.attach] at done
  rw [done]
  exact connected

theorem ordered_visit (valid : z.core.history.Valid) (todo : z.todo = (a, c) :: rest)
    (ordered : Ordered (z.before ++ z.todo)) (none : z.lost = [])
    (orderly : ∀ pkt, answer.recv a = some (some pkt) → pkt.typ = msgAttach →
      Orderly z.core.history z.before c rest pkt) (done : z.visit answer = some next) :
    Ordered (next.before ++ next.todo) ∧ next.lost = [] := by
  rw [todo] at ordered
  have placed := ordered_around ordered orderly
  rcases visit_cases todo done with ⟨gone, sink, before, rfl⟩ | ⟨gone, _, rfl⟩ | ⟨_, rfl⟩
  · refine ⟨List.Pairwise.nil, ?_⟩
    dsimp only
    rw [none, List.nil_append]
    by_contra others
    rcases received_standing z answer a c with ⟨pkt, recv, attach, _⟩ | ⟨stays, _⟩
    · have low : (c.attach pkt).Low := by
        simp only [recv, sinks, attach, true_and, decide_eq_true_eq] at sink
        exact ⟨rfl, sink⟩
      obtain ⟨connected, sent⟩ := (orderly pkt recv attach).stays low (by simp [before, others])
        (by simp [before])
      exact received_stays valid recv attach connected sent gone
    · rw [stays] at sink
      cases sink
  · refine ⟨?_, none⟩
    have unlinked := (ordered_middle.mp placed).1
    dsimp only
    split
    · exact unlinked.congr (by simp only [standings, List.map_append]; congr 1; exact standings_nudge _)
    · exact unlinked
  · refine ⟨?_, none⟩
    refine placed.congr ?_
    simp [standings, serve_standing]

end Visits

/-! ## Runs -/

def Picture.Tidy : Picture → Prop
  | .selecting l => Ordered l.clients ∧ l.lost = []
  | .walking z => Ordered (z.before ++ z.todo) ∧ z.lost = []
  | .exited l => Ordered l.clients ∧ l.lost = []
  | .fault => True

theorem Zipper.next_tidy {z : Zipper} (ordered : Ordered (z.before ++ z.todo)) (none : z.lost = []) :
    z.next.Tidy := by
  rw [Zipper.next]
  by_cases todo : z.todo = []
  · rw [if_pos todo]
    rw [todo, List.append_nil] at ordered
    exact ⟨ordered, none⟩
  · rw [if_neg todo]
    exact ⟨ordered, none⟩

theorem Listing.select_tidy {l : Listing} (ordered : Ordered l.clients) (none : l.lost = [])
    (answer : Selected) : (l.select answer).Tidy := by
  have woken : Ordered (l.woken answer).clients ∧ (l.woken answer).lost = [] := by
    rw [Listing.woken]
    cases answer.accept with
    | none => exact ⟨ordered, none⟩
    | some writes =>
      have unseen : ∀ pid, (newClient pid writes).standing = (false, 0) := fun _ =>
        serverSendPacket_standing _ _
      refine ⟨List.Pairwise.cons ?_ ordered, none⟩
      intro node _ low
      have seen := low.1.symm.trans (congrArg Prod.fst (unseen _))
      cases seen
  rcases select_cases answer l with ⟨_, _, done⟩ | ⟨_, done⟩ | done | ⟨_, core, packet, _, done⟩
  · rw [done]
    exact ⟨ordered, none⟩
  · rw [done]
    exact ⟨ordered, none⟩
  · rw [done]
    trivial
  · rw [done]
    exact Zipper.next_tidy woken.1 woken.2

theorem Picture.Tidy.step {p : Picture} {m : Machine} (tidy : p.Tidy) (same : p.Represents m)
    (event : Event) (orderly : AttachesOrderly m event) : (pictureStep event p).Tidy := by
  cases same with
  | selecting same =>
    cases event with
    | select answer => exact Listing.select_tidy tidy.1 tidy.2 answer
    | visit answer => exact tidy
  | exited same => cases event <;> exact tidy
  | fault => cases event <;> exact tidy
  | @walking z w same more =>
    cases event with
    | select answer => exact tidy
    | visit answer =>
      obtain ⟨⟨a, c⟩, rest, todo⟩ := List.exists_cons_of_ne_nil more
      have current := same.c
      rw [todo] at current
      have holds := same.lists.holds
      rw [todo] at holds
      have valid := same.lists.valid
      rw [same.core] at valid
      rw [pictureStep]
      cases done : z.visit answer with
      | none => trivial
      | some next =>
        obtain ⟨ordered, none⟩ := ordered_visit valid todo tidy.1 tidy.2 (fun pkt recv attach => by
          have this := orderly w answer z.before a c rest pkt rfl rfl current holds recv attach
          rwa [same.core] at this) done
        exact Zipper.next_tidy ordered none

theorem Picture.Tidy.decides {p : Picture} {m : Machine} (tidy : p.Tidy) (same : p.Represents m)
    (event : Event) : NormalDecides m event := by
  rintro w answer a c rest pkt rfl rfl current recv resize holds low b node found
  cases same with
  | @walking z w same more =>
    have list := same.lists.holds.links.unique holds.links
    have known := same.lists.known b node found
    obtain ⟨ordered, none⟩ := tidy
    rw [none, List.append_nil, list] at known
    rw [list] at ordered
    rcases List.mem_cons.mp known with first | later
    · cases first
      exact fun normal => low.2 normal.2.1
    · exact (List.pairwise_cons.mp ordered).1 _ later low

-- The head of the list decides, and an orderly run never has a client of low
-- priority ahead of a normal one.
theorem normal_decides (pid : UInt64) (readPty : Bool) (ptyWrites : List WriteAnswer)
    (events : List Event)
    (orderly : Along step AttachesOrderly events (.selecting (Server.start pid readPty ptyWrites))) :
    Along step NormalDecides events (.selecting (Server.start pid readPty ptyWrites)) := by
  have start := start_represents pid readPty ptyWrites
  have tidy : (Picture.selecting ⟨(Server.start pid readPty ptyWrites).core, [], [], 0⟩).Tidy :=
    ⟨List.Pairwise.nil, rfl⟩
  generalize Picture.selecting ⟨(Server.start pid readPty ptyWrites).core, [], [], 0⟩ = p at start tidy
  generalize Machine.selecting (Server.start pid readPty ptyWrites) = m at start orderly ⊢
  induction events generalizing p m with
  | nil => trivial
  | cons event events ih =>
    exact ⟨tidy.decides start event,
      ih _ (tidy.step start event orderly.1) _ (step_represents event p m start) orderly.2⟩

/-! ## Runs with few clients -/

def connects : Event := .select ⟨false, some [.ok 4096], none, none⟩
def wakes : Event := .select ⟨false, none, none, none⟩

def quiet : Event := .visit ⟨fun _ => none, none⟩
def sending (pkt : Received) : Event := .visit ⟨fun _ => some (some pkt), none⟩

def attachPacket (flags : UInt32) : Received := ⟨msgAttach, 4, u32ToNeBytes flags⟩
def resizeReceived : Received := ⟨msgResize, 4, [24, 0, 80, 0]⟩

/-- Behind a client that has attached normally a second one attaches with low
priority, while a third is at the head: this one is moved. -/
def overtaking : List Event :=
  [connects, quiet, wakes, sending (attachPacket 0), connects, quiet, quiet,
    connects, quiet, quiet, quiet,
    wakes, quiet, sending (attachPacket clientLowpriority), quiet, quiet, wakes]

theorem low_decides :
    ¬ ∀ events, Along step NormalDecides events (.selecting (Server.start 1 true [])) := by
  intro always
  have last := along_iff.mp (always (overtaking ++ [sending resizeReceived])) overtaking
    (sending resizeReceived) [] rfl
  have same := run_represents 1 true [] overtaking
  obtain ⟨z, low, normal, rest, run, before, todo, lowSeen, lowFlags, normalSeen, normalFlags⟩ :
      ∃ z low normal rest, runSteps pictureStep overtaking
          (.selecting ⟨(Server.start 1 true []).core, [], [], 0⟩) = .walking z ∧
        z.before = [] ∧ z.todo = (1, low) :: (0, normal) :: rest ∧
        low.attachSeen = true ∧ low.flags = clientLowpriority ∧
        normal.attachSeen = true ∧ normal.flags = 0 :=
    ⟨_, _, _, _, rfl, rfl, rfl, rfl, rfl, rfl, rfl⟩
  rw [run] at same
  generalize runSteps step overtaking (.selecting (Server.start 1 true [])) = m at same last
  cases same with
  | @walking _ w same more =>
    have current := same.c
    have lists := same.lists
    rw [before, todo, List.nil_append] at lists
    rw [todo] at current
    have isLow : low.Low := ⟨lowSeen, by rw [lowFlags]; decide⟩
    have isNormal : normal.Normal := by
      refine ⟨normalSeen, ?_, ?_⟩ <;> rw [normalFlags] <;> decide
    exact last w _ 1 low _ resizeReceived rfl rfl current rfl rfl lists.holds isLow 0 _
      (Server.Lists.heap [(1, low)] lists) isNormal

theorem attachesOrderly_alone {w : Walk} {a : Nat} {c : Client} (holds : w.server.chain.Holds [(a, c)])
    (event : Event) : AttachesOrderly (.walking w) event := by
  rintro _ answer before a' c' rest pkt ⟨⟩ rfl _ holds' _ _
  have list := holds.links.unique holds'.links
  cases before with
  | nil =>
    obtain ⟨_, rfl⟩ := List.cons_eq_cons.mp list
    exact ⟨fun _ => nofun, fun _ => nofun, fun _ others => absurd rfl others⟩
  | cons head before =>
    obtain ⟨_, none⟩ := List.cons_eq_cons.mp list
    simp at none

theorem attachesOrderly_other (machine : Machine) {event : Event}
    (other : ∀ answer a pkt, event = .visit answer → answer.recv a = some (some pkt) →
      pkt.typ ≠ msgAttach) : AttachesOrderly machine event :=
  fun _ answer _ a _ _ pkt _ is _ _ recv attach => absurd attach (other answer a pkt is recv)

theorem normal_decides_alone :
    Along step NormalDecides
      [connects, quiet, wakes, sending (attachPacket clientLowpriority), wakes,
        sending resizeReceived] (.selecting (Server.start 1 true [])) := by
  apply normal_decides 1 true []
  have other : ∀ event ∈ [connects, quiet, wakes, sending resizeReceived], ∀ machine,
      AttachesOrderly machine event := by
    intro event member machine
    apply attachesOrderly_other
    rintro answer a pkt rfl recv
    simp only [connects, wakes, quiet, sending, List.mem_cons, Event.visit.injEq, reduceCtorEq,
      List.not_mem_nil, or_false, false_or] at member
    rcases member with rfl | rfl
    · cases recv
    · cases recv
      decide
  have same := run_represents 1 true [] [connects, quiet, wakes]
  obtain ⟨z, c, run, list⟩ : ∃ z c, runSteps pictureStep [connects, quiet, wakes]
      (.selecting ⟨(Server.start 1 true []).core, [], [], 0⟩) = .walking z ∧
      z.before ++ z.todo = [(0, c)] := ⟨_, _, rfl, rfl⟩
  rw [run] at same
  refine ⟨other _ (by simp) _, other _ (by simp) _, other _ (by simp) _, ?_, other _ (by simp) _,
    other _ (by simp) _, trivial⟩
  change AttachesOrderly (runSteps step [connects, quiet, wakes]
    (.selecting (Server.start 1 true []))) _
  generalize runSteps step [connects, quiet, wakes] (.selecting (Server.start 1 true [])) = m at same
  cases same with
  | walking same more =>
    have holds := same.lists.holds
    rw [list] at holds
    exact attachesOrderly_alone holds _

end Lich.C
