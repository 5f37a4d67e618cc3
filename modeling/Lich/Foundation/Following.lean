import Lich.Foundation.Runs

/-! Following a log that grows.

A follower asks for the log: once, or to follow it. It is shown what a replay
makes of the log as it is then, and whoever follows is shown all that is written
from then on. What it has been shown in the end is told by the log and by the
places in it at which it asked.
-/

set_option autoImplicit false

namespace Lich.Foundation

variable {α : Type}

inductive Request where
  | once
  | follow
  deriving DecidableEq

structure Follower (α : Type) where
  log : List α
  following : Bool
  /-- what was asked for, each at a length of the log -/
  asked : List (Request × Nat)
  shown : List α

inductive FollowEvent (α : Type) where
  | write (piece : List α)
  | ask (request : Request)

namespace Follower

def start : Follower α := ⟨[], false, [], []⟩

def write (piece : List α) (f : Follower α) : Follower α :=
  { f with
    log := f.log ++ piece
    shown := f.shown ++ if f.following then piece else [] }

def ask (replay : List α → List α) (request : Request) (f : Follower α) : Follower α :=
  { f with
    following := f.following || request == .follow
    asked := f.asked ++ [(request, f.log.length)]
    shown := f.shown ++ replay f.log }

def step (replay : List α → List α) (event : FollowEvent α) (f : Follower α) : Follower α :=
  match event with
  | .write piece => f.write piece
  | .ask request => f.ask replay request

end Follower

/-! ## What a follower is shown -/

/-- What is shown of a log from the given place on, by what is asked for behind it. -/
def shownOf (replay : List α → List α) (log : List α) :
    (following : Bool) → (place : Nat) → List (Request × Nat) → List α
  | following, place, [] => if following then log.drop place else []
  | following, place, (request, position) :: asked =>
    (if following then (log.take position).drop place else []) ++ replay (log.take position) ++
      shownOf replay log (following || request == .follow) position asked

section Shown

variable {replay : List α → List α} {log : List α}

theorem shownOf_unasked (place : Nat) : shownOf replay log false place [] = [] := rfl

theorem shownOf_follow (place position : Nat) :
    shownOf replay log false place [(.follow, position)] = replay (log.take position) ++ log.drop position := by
  simp [shownOf]

theorem shownOf_write {following : Bool} {place : Nat} {asked : List (Request × Nat)}
    (start : place ≤ log.length) (inside : ∀ entry ∈ asked, entry.2 ≤ log.length)
    (piece : List α) :
    shownOf replay (log ++ piece) following place asked =
      shownOf replay log following place asked ++
        if following || asked.any (·.1 == .follow) then piece else [] := by
  induction asked generalizing following place with
  | nil => cases following <;> simp [shownOf, List.drop_append_of_le_length start]
  | cons entry asked ih =>
    obtain ⟨request, position⟩ := entry
    have here : position ≤ log.length := inside _ List.mem_cons_self
    rw [shownOf, shownOf, List.take_append_of_le_length here,
      ih here fun entry member => inside entry (List.mem_cons_of_mem _ member),
      ← List.append_assoc, List.any_cons, Bool.or_assoc]

theorem shownOf_ask (request : Request) {following : Bool} {place : Nat}
    {asked : List (Request × Nat)} :
    shownOf replay log following place (asked ++ [(request, log.length)]) =
      shownOf replay log following place asked ++ replay log := by
  induction asked generalizing following place with
  | nil => simp [shownOf]
  | cons entry asked ih =>
    obtain ⟨request, position⟩ := entry
    rw [List.cons_append, shownOf, shownOf, ih, ← List.append_assoc]

/-- A follower's requests are for parts of the log, and what it was shown is told by them. -/
structure Follower.Sound (replay : List α → List α) (f : Follower α) : Prop where
  inside : ∀ entry ∈ f.asked, entry.2 ≤ f.log.length
  ordered : f.asked.Pairwise fun earlier later => earlier.2 ≤ later.2
  following : f.following = f.asked.any (·.1 == .follow)
  shown : f.shown = shownOf replay f.log false 0 f.asked

theorem Follower.start_sound : (start : Follower α).Sound replay where
  inside := nofun
  ordered := .nil
  following := rfl
  shown := rfl

theorem Follower.Sound.step {f : Follower α} (sound : f.Sound replay) (event : FollowEvent α) :
    (f.step replay event).Sound replay := by
  cases event with
  | write piece =>
    refine ⟨fun entry member => ?_, sound.ordered, sound.following, ?_⟩
    · have inside := sound.inside entry member
      simp only [Follower.step, Follower.write, List.length_append]
      omega
    · simp only [Follower.step, Follower.write]
      rw [shownOf_write (Nat.zero_le _) sound.inside, sound.shown, sound.following]
      rfl
  | ask request =>
    refine ⟨fun entry member => ?_, ?_, ?_, ?_⟩
    · rcases List.mem_append.mp member with old | new
      · exact sound.inside entry old
      · rw [List.mem_singleton.mp new]
        exact Nat.le_refl _
    · refine List.pairwise_append.mpr ⟨sound.ordered, List.pairwise_singleton _ _, ?_⟩
      intro earlier old later new
      rw [List.mem_singleton.mp new]
      exact sound.inside earlier old
    · simp [Follower.step, Follower.ask, sound.following]
    · simp only [Follower.step, Follower.ask]
      rw [shownOf_ask, sound.shown]

theorem Follower.sound (replay : List α → List α) (events : List (FollowEvent α)) :
    (runSteps (Follower.step replay) events Follower.start).Sound replay := by
  have along : Along (Follower.step replay) (fun _ _ => True) events Follower.start :=
    along_of_forall (fun _ _ => trivial) _ _
  exact along.invariant (fun f event _ sound => sound.step event) Follower.start_sound

end Shown

end Lich.Foundation
