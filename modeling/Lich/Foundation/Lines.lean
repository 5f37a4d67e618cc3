import Lich.Foundation.Cutting
import Mathlib.Data.List.Basic

/-! Lines: the segments of a list that a separator ends.

Every element belongs to a line, so the lines put together are the list; the
last one may lack its separator, and none is empty.
-/

set_option autoImplicit false

namespace Lich.Foundation

variable {α : Type} [DecidableEq α] (sep : α)

def lines : List α → List (List α)
  | [] => []
  | head :: tail =>
    if head = sep then [head] :: lines tail
    else match lines tail with
      | [] => [[head]]
      | line :: later => (head :: line) :: later

@[simp] theorem lines_nil : lines sep [] = [] := rfl

@[simp] theorem lines_sep (tail : List α) : lines sep (sep :: tail) = [sep] :: lines sep tail := by
  rw [lines, if_pos rfl]

theorem lines_cons {head : α} (plain : head ≠ sep) (tail : List α) :
    lines sep (head :: tail) =
      (head :: (lines sep tail).headD []) :: (lines sep tail).tail := by
  rw [lines, if_neg plain]
  cases lines sep tail <;> rfl

theorem lines_flatten (list : List α) : (lines sep list).flatten = list := by
  induction list with
  | nil => rfl
  | cons head tail ih =>
    by_cases same : head = sep
    · subst same
      rw [lines_sep, List.flatten_cons, ih]
      rfl
    · rw [lines_cons sep same]
      cases split : lines sep tail with
      | nil =>
        rw [split] at ih
        simp [← ih]
      | cons line later =>
        rw [split] at ih
        simp [← ih]

theorem lines_ne_nil {list : List α} (some : list ≠ []) : lines sep list ≠ [] := by
  intro none
  have whole := lines_flatten sep list
  rw [none] at whole
  exact some whole.symm

theorem lines_length {list : List α} (some : list ≠ []) :
    (lines sep list).length = list.dropLast.count sep + 1 := by
  induction list with
  | nil => exact absurd rfl some
  | cons head tail ih =>
    cases tail with
    | nil =>
      by_cases same : head = sep
      · subst same
        simp
      · simp [lines_cons sep same]
    | cons next rest =>
      have later := ih nofun
      rw [List.dropLast_cons_cons]
      by_cases same : head = sep
      · subst same
        rw [lines_sep, List.length_cons, later, List.count_cons_self]
      · have one : 0 < (lines sep (next :: rest)).length :=
          List.length_pos_iff.mpr (lines_ne_nil sep nofun)
        rw [lines_cons sep same, List.count_cons_of_ne same, List.length_cons, List.length_tail]
        omega

theorem lines_append {first : List α} (ends : first = [] ∨ first.getLast? = some sep)
    (second : List α) : lines sep (first ++ second) = lines sep first ++ lines sep second := by
  induction first with
  | nil => rfl
  | cons head tail ih =>
    cases tail with
    | nil =>
      have same : head = sep := by simpa using ends
      subst same
      rw [List.cons_append, lines_sep, lines_sep]
      rfl
    | cons next rest =>
      have more := ih (.inr (by simpa using ends))
      rw [List.cons_append]
      by_cases same : head = sep
      · subst same
        rw [lines_sep, lines_sep, more, List.cons_append]
      · rw [lines_cons sep same, lines_cons sep same, more]
        cases split : lines sep (next :: rest) with
        | nil => exact absurd split (lines_ne_nil sep nofun)
        | cons line later => rfl

/-! ## The last lines -/

def lastLines (count : Nat) (list : List α) : List α :=
  ((lines sep list).rtake count).flatten

/-- What starts a line and has as many lines as wanted, or all of them, is the last
lines. -/
theorem lastLines_eq_drop {count start : Nat} {list : List α}
    (begins : start = 0 ∨ list[start - 1]? = some sep)
    (enough : (lines sep (list.drop start)).length = min count (lines sep list).length) :
    lastLines sep count list = list.drop start ∧
      lines sep (list.drop start) = (lines sep list).rtake count := by
  have ends : list.take start = [] ∨ (list.take start).getLast? = some sep := by
    by_cases zero : start = 0
    · subst zero
      exact .inl rfl
    · rw [List.getLast?_take, if_neg zero, begins.resolve_left zero]
      exact .inr rfl
  have whole := lines_append sep ends (list.drop start)
  rw [List.take_append_drop] at whole
  have same : (lines sep list).rtake count = lines sep (list.drop start) := by
    by_cases few : count ≤ (lines sep list).length
    · rw [Nat.min_eq_left few] at enough
      rw [whole, rtake_append_of_le (by omega), rtake_of_length_le (by omega)]
    · have none : lines sep (list.take start) = [] := by
        have sizes := congrArg List.length whole
        rw [List.length_append] at sizes
        apply List.eq_nil_of_length_eq_zero
        omega
      rw [rtake_of_length_le (by omega), whole, none, List.nil_append]
  exact ⟨by rw [lastLines, same, lines_flatten], same.symm⟩

theorem lastLines_suffix {fewer count : Nat} (less : fewer ≤ count) (list : List α) :
    lastLines sep fewer list <:+ lastLines sep count list := by
  obtain ⟨front, split⟩ := rtake_suffix_rtake less (lines sep list)
  exact ⟨front.flatten, by rw [lastLines, lastLines, ← split, List.flatten_append]⟩

theorem lastLines_cons {count : Nat} (head : α) {tail : List α}
    (inside : (lastLines sep count (head :: tail)).length ≤ tail.length) :
    lastLines sep count (head :: tail) = lastLines sep count tail := by
  -- the element makes a line of its own, or the first line longer
  obtain ⟨first, rest, split, kept⟩ : ∃ first rest, lines sep (head :: tail) = first :: rest ∧
      rest <:+ lines sep tail ∧ rest.length + 1 ≥ (lines sep tail).length := by
    by_cases same : head = sep
    · subst same
      exact ⟨_, _, lines_sep head tail, List.suffix_rfl, by omega⟩
    · refine ⟨_, _, lines_cons sep same tail, List.tail_suffix _, ?_⟩
      rw [List.length_tail]
      omega
  by_cases few : count ≤ rest.length
  · obtain ⟨front, whole⟩ := kept.1
    rw [lastLines, lastLines, split, ← whole, ← List.singleton_append, rtake_append_of_le few,
      rtake_append_of_le few]
  · have whole : lastLines sep count (head :: tail) = head :: tail := by
      rw [lastLines, split, rtake_of_length_le (by rw [List.length_cons]; omega), ← split,
        lines_flatten]
    rw [whole, List.length_cons] at inside
    omega

theorem lastLines_suffix_of_length {count : Nat} {tail list : List α} (part : tail <:+ list)
    (inside : (lastLines sep count list).length ≤ tail.length) :
    lastLines sep count tail = lastLines sep count list := by
  obtain ⟨front, rfl⟩ := part
  induction front with
  | nil => rfl
  | cons head front ih =>
    rw [List.cons_append] at inside ⊢
    have same : lastLines sep count (head :: (front ++ tail)) =
        lastLines sep count (front ++ tail) := by
      apply lastLines_cons
      rw [List.length_append]
      omega
    rw [same] at inside ⊢
    exact ih inside

end Lich.Foundation
