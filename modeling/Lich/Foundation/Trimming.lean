import Mathlib.Data.List.Infix

/-! A pattern taken from the end of a list as often as it stands there. -/

set_option autoImplicit false

namespace Lich.Foundation

variable {α : Type} [DecidableEq α]

def trimEndMatches (pattern text : List α) : List α :=
  if pattern ≠ [] ∧ pattern <:+ text then
    trimEndMatches pattern (text.take (text.length - pattern.length))
  else text
termination_by text.length
decreasing_by
  next found =>
    have some := List.length_pos_of_ne_nil found.1
    have short := found.2.length_le
    rw [List.length_take]
    omega

theorem trimEndMatches_of_not_suffix {pattern text : List α} (other : ¬ pattern <:+ text) :
    trimEndMatches pattern text = text := by
  rw [trimEndMatches, if_neg fun found => other found.2]

theorem trimEndMatches_append {pattern : List α} (some : pattern ≠ []) (text : List α) :
    trimEndMatches pattern (text ++ pattern) = trimEndMatches pattern text := by
  have front : (text ++ pattern).take ((text ++ pattern).length - pattern.length) = text := by
    rw [List.length_append, Nat.add_sub_cancel, List.take_left]
  rw [trimEndMatches, if_pos ⟨some, List.suffix_append text pattern⟩, front]

theorem not_suffix_trimEndMatches {pattern : List α} (some : pattern ≠ []) (text : List α) :
    ¬ pattern <:+ trimEndMatches pattern text := by
  induction text using trimEndMatches.induct pattern with
  | case1 text found ih =>
    rw [trimEndMatches, if_pos found]
    exact ih
  | case2 text other =>
    rw [trimEndMatches, if_neg other]
    exact fun found => other ⟨some, found⟩

theorem trimEndMatches_eq_self {pattern : List α} (some : pattern ≠ []) {text : List α} :
    trimEndMatches pattern text = text ↔ ¬ pattern <:+ text := by
  constructor
  · intro same
    rw [← same]
    exact not_suffix_trimEndMatches some text
  · exact trimEndMatches_of_not_suffix

end Lich.Foundation
