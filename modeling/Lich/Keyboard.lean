import Lich.Master
import Lich.Closing

/-! Keyboard input on its way to the command.

The master does not block. A payload of which a write would block is given up,
and its rest is lost; what comes behind it is written all the same as soon as
the pty has room again.
-/

set_option autoImplicit false

namespace Lich

open Foundation

/-- A payload that was handed to `fdWriteAll`, and what the pty accepted of it. -/
structure Handed where
  payload : List UInt8
  accepted : List UInt8

def PtyEntry.isInput : PtyEntry → Bool
  | .input _ _ => true
  | _ => false

/-- The payloads handed to the pty, in order, each with the writes before the next. -/
def handedOf : List PtyEntry → List Handed
  | [] => []
  | .input _ payload :: rest =>
    ⟨payload, acceptedOf (rest.takeWhile fun entry => !entry.isInput)⟩ :: handedOf rest
  | _ :: rest => handedOf rest

/-- All that clients typed and that the server took for the command. -/
def typedOf (journal : List PtyEntry) : List UInt8 := (handedOf journal).flatMap Handed.payload

/-- The pty has accepted a front of what was typed, and no byte behind one that
it has not. -/
structure InOrder (journal : List PtyEntry) : Prop where
  front : acceptedOf journal <+: typedOf journal
  fronts : ∀ handed ∈ handedOf journal, handed.accepted <+: handed.payload
  whole : (handedOf journal).Pairwise fun earlier later =>
    later.accepted ≠ [] → earlier.accepted = earlier.payload

/-! ## Adding the records of a packet -/

section Silent

variable {entries : List PtyEntry} (silent : ∀ entry ∈ entries, entry.isInput = false)

include silent

theorem takeWhile_silent : entries.takeWhile (fun entry => !entry.isInput) = entries := by
  apply List.takeWhile_eq_self_iff.mpr
  intro entry member
  rw [silent entry member]
  rfl

theorem handedOf_silent : handedOf entries = [] := by
  induction entries with
  | nil => rfl
  | cons entry entries ih =>
    have first := silent entry List.mem_cons_self
    have rest := ih fun other member => silent other (List.mem_cons_of_mem _ member)
    cases entry with
    | input client payload => cases first
    | _ => exact rest

end Silent

theorem handedOf_append_input (journal : List PtyEntry) (id : Nat) (payload : List UInt8)
    {entries : List PtyEntry} (follows : ∀ entry ∈ entries, entry.isInput = false) :
    handedOf (journal ++ .input id payload :: entries) =
      handedOf journal ++ [⟨payload, acceptedOf entries⟩] := by
  induction journal with
  | nil =>
    simp only [List.nil_append, handedOf, takeWhile_silent follows, handedOf_silent follows]
  | cons entry journal ih =>
    cases entry with
    | input client before =>
      have same : (journal ++ .input id payload :: entries).takeWhile
          (fun entry => !entry.isInput) = journal.takeWhile fun entry => !entry.isInput := by
        rw [List.takeWhile_append]
        split
        · next whole =>
          rw [List.takeWhile_cons_of_neg (by simp [PtyEntry.isInput]), List.append_nil]
          exact (List.takeWhile_sublist _).eq_of_length whole |>.symm
        · rfl
      rw [List.cons_append, handedOf, handedOf, same, ih, List.cons_append]
    | _ => exact ih

theorem handedOf_append_silent (journal : List PtyEntry) {entries : List PtyEntry}
    (silent : ∀ entry ∈ entries, entry.isInput = false) (nothing : acceptedOf entries = []) :
    handedOf (journal ++ entries) = handedOf journal := by
  induction journal with
  | nil => exact handedOf_silent silent
  | cons entry journal ih =>
    cases entry with
    | input client payload =>
      have same : acceptedOf ((journal ++ entries).takeWhile fun entry => !entry.isInput) =
          acceptedOf (journal.takeWhile fun entry => !entry.isInput) := by
        rw [List.takeWhile_append]
        split
        · next whole =>
          have kept := (List.takeWhile_sublist (fun entry : PtyEntry => !entry.isInput)).eq_of_length
            whole
          rw [takeWhile_silent silent, acceptedOf_append, nothing, List.append_nil, kept]
        · rfl
      rw [List.cons_append, handedOf, handedOf, same, ih]
    | _ => exact ih

theorem Written.isInput {buf : List UInt8} {entries : List PtyEntry}
    (written : Written buf entries) : ∀ entry ∈ entries, entry.isInput = false := by
  intro entry member
  have plain := written.plain entry member
  cases entry with
  | input client payload => cases plain
  | _ => rfl

/-! ## What a journal says about order -/

structure Tally (journal : List PtyEntry) : Prop where
  sum : acceptedOf journal = (handedOf journal).flatMap Handed.accepted
  fronts : ∀ handed ∈ handedOf journal, handed.accepted <+: handed.payload
  lost : (∃ entry ∈ journal, entry.Fails) ↔
    ∃ handed ∈ handedOf journal, handed.accepted ≠ handed.payload
  whole : NeverAfter PtyEntry.Fails PtyEntry.Accepts journal ↔
    (handedOf journal).Pairwise fun earlier later =>
      later.accepted ≠ [] → earlier.accepted = earlier.payload

theorem accepts_iff {entries : List PtyEntry} :
    (∃ entry ∈ entries, entry.Accepts) ↔ acceptedOf entries ≠ [] := by
  constructor
  · rintro ⟨entry, member, accepts⟩ none
    have each := List.flatMap_eq_nil_iff.mp none entry member
    cases entry with
    | wrote bytes => exact accepts each
    | _ => exact accepts
  · intro accepting
    by_contra none
    apply accepting
    apply List.flatMap_eq_nil_iff.mpr
    intro entry member
    cases entry with
    | wrote bytes => exact by_contra fun nonempty => none ⟨_, member, nonempty⟩
    | _ => rfl

theorem Tally.silent {journal entries : List PtyEntry} (tally : Tally journal)
    (silent : ∀ entry ∈ entries, entry.isInput = false ∧ ¬ entry.Fails ∧ ¬ entry.Accepts) :
    Tally (journal ++ entries) := by
  have nothing : acceptedOf entries = [] := by
    by_contra accepting
    obtain ⟨entry, member, accepts⟩ := accepts_iff.mpr accepting
    exact (silent entry member).2.2 accepts
  have same := handedOf_append_silent journal (fun entry member => (silent entry member).1) nothing
  constructor
  · rw [same, acceptedOf_append, nothing, List.append_nil]
    exact tally.sum
  · rw [same]
    exact tally.fronts
  · rw [same, ← tally.lost]
    constructor
    · rintro ⟨entry, member, fails⟩
      rcases List.mem_append.mp member with member | member
      · exact ⟨entry, member, fails⟩
      · exact absurd fails (silent entry member).2.1
    · rintro ⟨entry, member, fails⟩
      exact ⟨entry, List.mem_append_left _ member, fails⟩
  · rw [same, ← tally.whole, neverAfter_append]
    constructor
    · exact And.left
    · intro order
      refine ⟨order, neverAfter_of_none fun entry member => (silent entry member).2.2, ?_⟩
      exact fun _ _ entry member _ => (silent entry member).2.2

-- A payload adds to what is lost exactly when one of its writes fails, and it
-- breaks the order exactly when one of them succeeds after an earlier loss.
theorem Tally.keys {journal entries : List PtyEntry} (tally : Tally journal) (id : Nat)
    {payload : List UInt8} (written : Written payload entries) :
    Tally (journal ++ .input id payload :: entries) := by
  have handed := handedOf_append_input journal id payload written.isInput
  have accepted : acceptedOf (.input id payload :: entries) = acceptedOf entries := rfl
  constructor
  · rw [handed, acceptedOf_append, accepted, tally.sum, List.flatMap_append]
    simp
  · rw [handed]
    intro one member
    rcases List.mem_append.mp member with member | member
    · exact tally.fronts one member
    · rw [List.mem_singleton.mp member]
      exact written.front
  · rw [handed]
    constructor
    · rintro ⟨entry, member, fails⟩
      rcases List.mem_append.mp member with member | member
      · obtain ⟨one, inside, short⟩ := tally.lost.mp ⟨entry, member, fails⟩
        exact ⟨one, List.mem_append_left _ inside, short⟩
      · rcases List.mem_cons.mp member with rfl | member
        · exact fails.elim
        · exact ⟨_, List.mem_append_right _ (List.mem_singleton.mpr rfl),
            written.short.mp ⟨entry, member, fails⟩⟩
    · rintro ⟨one, member, short⟩
      rcases List.mem_append.mp member with member | member
      · obtain ⟨entry, inside, fails⟩ := tally.lost.mpr ⟨one, member, short⟩
        exact ⟨entry, List.mem_append_left _ inside, fails⟩
      · rw [List.mem_singleton.mp member] at short
        obtain ⟨entry, inside, fails⟩ := written.short.mpr short
        exact ⟨entry, List.mem_append_right _ (List.mem_cons_of_mem _ inside), fails⟩
  · have inside : NeverAfter PtyEntry.Fails PtyEntry.Accepts (.input id payload :: entries) :=
      List.pairwise_cons.mpr ⟨fun _ _ fails => fails.elim, written.stops⟩
    rw [handed, neverAfter_append, List.pairwise_append, tally.whole]
    constructor
    · rintro ⟨order, _, across⟩
      refine ⟨order, List.pairwise_singleton _ _, ?_⟩
      intro earlier member later single accepting
      rw [List.mem_singleton.mp single] at accepting
      obtain ⟨entry, last, accepts⟩ := accepts_iff.mpr accepting
      by_contra short
      obtain ⟨mark, before, fails⟩ := tally.lost.mpr ⟨earlier, member, short⟩
      exact across mark before entry (List.mem_cons_of_mem _ last) fails accepts
    · rintro ⟨order, _, across⟩
      refine ⟨order, inside, ?_⟩
      intro mark before entry last fails accepts
      obtain ⟨earlier, member, short⟩ := tally.lost.mp ⟨mark, before, fails⟩
      apply short
      apply across earlier member _ (List.mem_singleton.mpr rfl)
      rcases List.mem_cons.mp last with rfl | last
      · exact accepts.elim
      · exact accepts_iff.mp ⟨entry, last, accepts⟩

theorem Recorded.tally {journal : List PtyEntry} (recorded : Recorded journal) :
    Tally journal := by
  induction recorded with
  | nil =>
    refine ⟨rfl, nofun, ?_, fun _ => List.Pairwise.nil, fun _ => neverAfter_nil⟩
    simp [handedOf]
  | signal _ ih =>
    apply ih.silent
    intro entry member
    rw [List.mem_singleton.mp member]
    exact ⟨rfl, id, id⟩
  | packet _ obeys ih =>
    cases obeys with
    | keys entries _ written => exact ih.keys _ written
    | resize rows cols _ =>
      apply ih.silent
      intro entry member
      simp only [List.mem_cons, List.not_mem_nil, or_false] at member
      rcases member with rfl | rfl <;> exact ⟨rfl, id, id⟩
    | nothing _ => rwa [List.append_nil]

theorem front_of_pairwise {all : List Handed}
    (fronts : ∀ handed ∈ all, handed.accepted <+: handed.payload)
    (whole : all.Pairwise fun earlier later =>
      later.accepted ≠ [] → earlier.accepted = earlier.payload) :
    all.flatMap Handed.accepted <+: all.flatMap Handed.payload := by
  induction all with
  | nil => exact List.prefix_rfl
  | cons first all ih =>
    obtain ⟨after, rest⟩ := List.pairwise_cons.mp whole
    have later := ih (fun handed member => fronts handed (List.mem_cons_of_mem _ member)) rest
    rw [List.flatMap_cons, List.flatMap_cons]
    by_cases none : all.flatMap Handed.accepted = []
    · rw [none, List.append_nil]
      exact (fronts first List.mem_cons_self).trans (List.prefix_append _ _)
    · -- something behind it was accepted, so the first payload is whole
      have accepting : ∃ handed ∈ all, handed.accepted ≠ [] := by
        by_contra empty
        apply none
        apply List.flatMap_eq_nil_iff.mpr
        exact fun handed member => by_contra fun bytes => empty ⟨handed, member, bytes⟩
      obtain ⟨handed, member, bytes⟩ := accepting
      rw [after handed member bytes]
      exact (List.prefix_append_right_inj _).mpr later

theorem Tally.inOrder_iff {journal : List PtyEntry} (tally : Tally journal) :
    InOrder journal ↔ NeverAfter PtyEntry.Fails PtyEntry.Accepts journal := by
  rw [tally.whole]
  constructor
  · exact InOrder.whole
  · intro whole
    refine ⟨?_, tally.fronts, whole⟩
    rw [tally.sum]
    exact front_of_pairwise tally.fronts whole

/-! ## The share of one client -/

def handedBy (id : Nat) : List PtyEntry → List Handed
  | [] => []
  | .input client payload :: rest =>
    if client = id then
      ⟨payload, acceptedOf (rest.takeWhile fun entry => !entry.isInput)⟩ :: handedBy id rest
    else handedBy id rest
  | _ :: rest => handedBy id rest

/-- What the pty has accepted of what this client typed. -/
def acceptedBy (id : Nat) (journal : List PtyEntry) : List UInt8 :=
  (handedBy id journal).flatMap Handed.accepted

section Share

variable (id : Nat) {journal : List PtyEntry}

theorem handedBy_sublist : (handedBy id journal).Sublist (handedOf journal) := by
  induction journal with
  | nil => exact List.Sublist.slnil
  | cons entry journal ih =>
    cases entry with
    | input client payload =>
      rw [handedBy, handedOf]
      split
      · exact ih.cons_cons _
      · exact ih.cons _
    | _ => exact ih

theorem handedBy_payload :
    (handedBy id journal).flatMap Handed.payload = typedOf (commandsOf id journal) := by
  induction journal with
  | nil => rfl
  | cons entry journal ih =>
    cases entry with
    | input client payload =>
      rw [handedBy]
      by_cases mine : client = id
      · rw [if_pos mine, List.flatMap_cons, ih]
        simp [commandsOf, PtyEntry.client?, mine, typedOf, handedOf]
      · rw [if_neg mine, ih]
        simp [commandsOf, PtyEntry.client?, mine]
    | resized client rows cols =>
      by_cases mine : client = id <;>
        simpa [commandsOf, PtyEntry.client?, mine, typedOf, handedOf, handedBy] using ih
    | _ => simpa [commandsOf, PtyEntry.client?, handedBy] using ih

theorem Tally.acceptedBy_front (tally : Tally journal)
    (order : NeverAfter PtyEntry.Fails PtyEntry.Accepts journal) :
    acceptedBy id journal <+: typedOf (commandsOf id journal) := by
  have part := @handedBy_sublist id journal
  rw [← handedBy_payload]
  exact front_of_pairwise (fun handed member => tally.fronts handed (part.subset member))
    ((tally.whole.mp order).sublist part)

theorem Tally.acceptedBy_whole (tally : Tally journal)
    (fine : ∀ entry ∈ journal, ¬ entry.Fails) :
    acceptedBy id journal = typedOf (commandsOf id journal) := by
  rw [← handedBy_payload, acceptedBy]
  apply List.flatMap_congr
  intro handed member
  by_contra short
  obtain ⟨entry, inside, fails⟩ :=
    tally.lost.mpr ⟨handed, (handedBy_sublist id).subset member, short⟩
  exact fine entry inside fails

end Share

-- The outcomes of the writes decide alone: it takes one that fails, for want of
-- room, and one behind it that succeeds.
theorem keyboard_in_order (server : Server) (reached : Reached (fun _ _ => True) server) :
    InOrder server.master.journal ↔
      NeverAfter PtyEntry.Fails PtyEntry.Accepts server.master.journal :=
  reached.obeyed.recorded.tally.inOrder_iff

def typist : Accept :=
  ⟨[.ok ⟨packetBytes ⟨msgContent, [97, 98]⟩ ++ packetBytes ⟨msgContent, [99]⟩, by decide⟩], [], 16, true⟩

/-- The run of a server on whose pty the writes are answered as listed. -/
def typing (writes : List WriteAnswer) : Server :=
  (serverLoop [{ Tick.idle with accepts := [typist] }] (Server.start 1 false writes)).server

theorem typing_reached (writes : List WriteAnswer) : Reached (fun _ _ => True) (typing writes) :=
  ⟨1, false, writes, _, runMeets_of_forall (fun _ _ => trivial) _ _, rfl⟩

theorem keyboard_in_order_roomy :
    typedOf (typing [.ok 1, .err .interrupted, .ok 1, .ok 1]).master.journal = [97, 98, 99] ∧
      InOrder (typing [.ok 1, .err .interrupted, .ok 1, .ok 1]).master.journal := by
  refine ⟨by decide, ?_⟩
  exact (keyboard_in_order _ (typing_reached _)).mpr (by decide)

theorem keystroke_skipped :
    ¬ ∀ server, Reached (fun _ _ => True) server → InOrder server.master.journal := by
  intro law
  have order := law _ (typing_reached [.ok 1, .err .wouldBlock, .ok 1])
  have accepted : acceptedOf (typing [.ok 1, .err .wouldBlock, .ok 1]).master.journal = [97, 99] := by
    decide
  have typed : typedOf (typing [.ok 1, .err .wouldBlock, .ok 1]).master.journal = [97, 98, 99] := by
    decide
  have front := order.front
  rw [accepted, typed] at front
  exact absurd front (by decide)

end Lich
