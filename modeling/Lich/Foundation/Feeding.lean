import Mathlib.Data.List.Infix
import Mathlib.Data.List.Pairwise

/-! A log that is read piece by piece, and shown to a reader with a delay.

Each piece that is read is shown once, after it was read. In between the reader can
ask for what a replay makes of the log, and that already has the piece in it. What
the reader has been shown in the end is told by the places at which it asked.
-/

set_option autoImplicit false

namespace Lich.Foundation

variable {α : Type}

/-- A request, by how much of the log had been shown and how much had been read. -/
structure Place where
  shown : Nat
  read : Nat
  deriving DecidableEq

/-- A reader's way through the log: where it came to it, where it asked, and up to
where it has been shown it. -/
structure Course where
  start : Nat
  asked : List Place
  shown : Nat
  deriving DecidableEq

def Course.enter (read : Nat) (course : Course) : Course :=
  { course with start := read, shown := read }

def Course.ask (read : Nat) (course : Course) : Course :=
  { course with asked := course.asked ++ [⟨course.shown, read⟩] }

def Course.reveal (read : Nat) (course : Course) : Course := { course with shown := read }

/-- A reader that has gone this way is shown this, with the last piece of the log
still to come. -/
inductive Fed (replay : List α → List α) (bound : Nat) :
    (log lag : List α) → Course → (shown : List α) → Prop where
  | start (log : List α) : Fed replay bound log [] ⟨log.length, [], log.length⟩ []
  | read {log shown : List α} {course : Course} (piece : List α) : piece.length ≤ bound →
      Fed replay bound log [] course shown → Fed replay bound (log ++ piece) piece course shown
  | ask {log lag shown : List α} {course : Course} : Fed replay bound log lag course shown →
      Fed replay bound log lag (course.ask log.length) (shown ++ replay log)
  | reveal {log lag shown : List α} {course : Course} : Fed replay bound log lag course shown →
      Fed replay bound log [] (course.reveal log.length) (shown ++ lag)

def between (log : List α) (start stop : Nat) : List α := (log.take stop).drop start

/-- What is shown from a place on, up to another, by what is asked for in between. -/
def fedOf (replay : List α → List α) (log : List α) : (start : Nat) → List Place → (stop : Nat) → List α
  | start, [], stop => between log start stop
  | start, place :: asked, stop =>
    between log start place.shown ++ replay (log.take place.read) ++
      fedOf replay log place.shown asked stop

def Course.told (replay : List α → List α) (log : List α) (course : Course) : List α :=
  fedOf replay log course.start course.asked course.shown

section

variable {replay : List α → List α} {log lag piece shown : List α} {bound start stop : Nat}
  {asked : List Place} {course : Course}

theorem between_append (inside : stop ≤ log.length) (piece : List α) :
    between (log ++ piece) start stop = between log start stop := by
  rw [between, List.take_append_of_le_length inside, between]

theorem fedOf_append (inside : ∀ place ∈ asked, place.shown ≤ log.length ∧ place.read ≤ log.length)
    (stops : stop ≤ log.length) (piece : List α) :
    fedOf replay (log ++ piece) start asked stop = fedOf replay log start asked stop := by
  induction asked generalizing start with
  | nil => exact between_append stops piece
  | cons place asked ih =>
    obtain ⟨shown, read⟩ := inside place List.mem_cons_self
    rw [fedOf, fedOf, between_append shown, List.take_append_of_le_length read,
      ih fun other member => inside other (List.mem_cons_of_mem _ member)]

theorem between_split {middle : Nat} (before : start ≤ middle) (after : middle ≤ stop) :
    between log start middle ++ between log middle stop = between log start stop := by
  have front : log.take middle = (log.take stop).take middle := by
    rw [List.take_take, min_eq_left after]
  rw [between, between, between, front, List.drop_take]
  have place : middle = start + (middle - start) := by omega
  conv_lhs => rhs; rw [place]
  exact List.drop_take_append_drop _ _ _

theorem fedOf_stop {later : Nat} (forward : start ≤ stop) (inside : ∀ place ∈ asked, place.shown ≤ stop)
    (after : stop ≤ later) :
    fedOf replay log start asked later = fedOf replay log start asked stop ++ between log stop later := by
  induction asked generalizing start with
  | nil => exact (between_split forward after).symm
  | cons place asked ih =>
    rw [fedOf, fedOf, ih (inside place List.mem_cons_self) fun other member =>
      inside other (List.mem_cons_of_mem _ member), ← List.append_assoc]

theorem fedOf_ask (read : Nat) :
    fedOf replay log start (asked ++ [⟨stop, read⟩]) stop =
      fedOf replay log start asked stop ++ replay (log.take read) := by
  induction asked generalizing start with
  | nil => simp [fedOf, between]
  | cons place asked ih => rw [List.cons_append, fedOf, fedOf, ih, ← List.append_assoc]

/-- A reader goes forward, and asks for no more than is read and no less than it was
shown. -/
structure Course.Forward (bound read : Nat) (course : Course) : Prop where
  start_le : course.start ≤ course.shown
  shown_le : course.shown ≤ read
  places : ∀ place ∈ course.asked, course.start ≤ place.shown ∧ place.shown ≤ course.shown ∧
    place.shown ≤ place.read ∧ place.read ≤ place.shown + bound ∧ place.read ≤ read
  ordered : course.asked.Pairwise fun earlier later =>
    earlier.shown ≤ later.shown ∧ earlier.read ≤ later.read

theorem Course.Forward.read {read : Nat} (forward : course.Forward bound read) (more : Nat) :
    course.Forward bound (read + more) where
  start_le := forward.start_le
  shown_le := forward.shown_le.trans (Nat.le_add_right _ _)
  places place member := by
    obtain ⟨after, upto, less, most, inside⟩ := forward.places place member
    exact ⟨after, upto, less, most, inside.trans (Nat.le_add_right _ _)⟩
  ordered := forward.ordered

theorem Course.Forward.ask {read : Nat} (forward : course.Forward bound read)
    (near : read ≤ course.shown + bound) : (course.ask read).Forward bound read where
  start_le := forward.start_le
  shown_le := forward.shown_le
  places place member := by
    rcases List.mem_append.mp member with old | new
    · exact forward.places place old
    · rw [List.mem_singleton.mp new]
      exact ⟨forward.start_le, Nat.le_refl _, forward.shown_le, near, Nat.le_refl _⟩
  ordered := by
    refine List.pairwise_append.mpr ⟨forward.ordered, List.pairwise_singleton _ _, ?_⟩
    intro earlier old later new
    rw [List.mem_singleton.mp new]
    obtain ⟨_, upto, _, _, inside⟩ := forward.places earlier old
    exact ⟨upto, inside⟩

theorem Course.Forward.reveal {read : Nat} (forward : course.Forward bound read) :
    (course.reveal read).Forward bound read where
  start_le := forward.start_le.trans forward.shown_le
  shown_le := Nat.le_refl _
  places place member := by
    obtain ⟨after, upto, rest⟩ := forward.places place member
    exact ⟨after, upto.trans forward.shown_le, rest⟩
  ordered := forward.ordered

theorem Course.Forward.told_append (forward : course.Forward bound log.length) (piece : List α) :
    course.told replay (log ++ piece) = course.told replay log := by
  refine fedOf_append (fun place member => ?_) forward.shown_le piece
  obtain ⟨_, upto, _, _, inside⟩ := forward.places place member
  exact ⟨upto.trans forward.shown_le, inside⟩

/-- What a reader on this way is shown, with the last piece still to come. -/
structure FedSound (replay : List α → List α) (bound : Nat) (log lag : List α) (course : Course)
    (shown : List α) : Prop where
  behind : lag <:+ log ∧ lag.length ≤ bound
  upto : course.shown + lag.length = log.length
  forward : course.Forward bound log.length
  told : shown = course.told replay log

theorem Fed.sound (fed : Fed replay bound log lag course shown) :
    FedSound replay bound log lag course shown := by
  induction fed with
  | start log =>
    refine ⟨⟨List.nil_suffix, Nat.zero_le _⟩, rfl, ⟨Nat.le_refl _, Nat.le_refl _, ?_, .nil⟩, ?_⟩
    · exact fun _ member => (List.not_mem_nil member).elim
    · simp [Course.told, fedOf, between]
  | @read log shown course piece short _ ih =>
    have upto : course.shown = log.length := ih.upto
    refine ⟨⟨List.suffix_append _ _, short⟩, by rw [upto, List.length_append], ?_, ?_⟩
    · rw [List.length_append]
      exact ih.forward.read _
    · rw [ih.forward.told_append, ih.told]
  | @ask log lag shown course _ ih =>
    refine ⟨ih.behind, ih.upto, ih.forward.ask ?_, ?_⟩
    · have short := ih.behind.2
      have upto := ih.upto
      omega
    · rw [Course.told, Course.ask, fedOf_ask, List.take_length, ih.told, Course.told]
  | @reveal log lag shown course _ ih =>
    refine ⟨⟨List.nil_suffix, Nat.zero_le _⟩, rfl, ih.forward.reveal, ?_⟩
    obtain ⟨⟨front, whole⟩, _⟩ := ih.behind
    have stop : course.shown = front.length := by
      have upto := ih.upto
      rw [← whole, List.length_append] at upto
      exact Nat.add_right_cancel upto
    have rest : between log course.shown log.length = lag := by
      rw [between, List.take_length, ← whole, stop, List.drop_left]
    have more := @fedOf_stop _ replay log _ _ _ _ ih.forward.start_le
      (fun place member => (ih.forward.places place member).2.1) ih.forward.shown_le
    rw [Course.told, Course.reveal, more, rest, ih.told, Course.told]

end

end Lich.Foundation
