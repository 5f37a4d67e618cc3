import Mathlib.Data.List.DropRight

/-! Cutting a list into pieces of bounded length, and keeping its tail. -/

set_option autoImplicit false

namespace Lich.Foundation

variable {α : Type}

/-- Cut from the front; `rounds` bounds the number of pieces. -/
def cut (size : Nat) : (rounds : Nat) → List α → List (List α)
  | 0, _ => []
  | _ + 1, [] => []
  | rounds + 1, list => list.take size :: cut size rounds (list.drop size)

/-- Consecutive pieces of `size` elements, the last one possibly shorter. -/
def chunks (size : Nat) (list : List α) : List (List α) :=
  cut size list.length list

theorem cut_cons (size rounds : Nat) (head : α) (tail : List α) :
    cut size (rounds + 1) (head :: tail) =
      (head :: tail).take size :: cut size rounds ((head :: tail).drop size) :=
  rfl

theorem cut_flatten {size : Nat} (positive : 0 < size) (rounds : Nat) (list : List α)
    (enough : list.length ≤ rounds) : (cut size rounds list).flatten = list := by
  induction rounds generalizing list with
  | zero =>
    have empty : list = [] := List.eq_nil_of_length_eq_zero (Nat.le_zero.mp enough)
    subst empty
    rfl
  | succ rounds ih =>
    cases list with
    | nil => rfl
    | cons head tail =>
      have shorter : ((head :: tail).drop size).length ≤ rounds := by
        simp only [List.length_drop, List.length_cons] at enough ⊢
        omega
      rw [cut_cons, List.flatten_cons, ih _ shorter, List.take_append_drop]

theorem chunks_flatten {size : Nat} (positive : 0 < size) (list : List α) :
    (chunks size list).flatten = list :=
  cut_flatten positive list.length list (Nat.le_refl _)

theorem cut_bound {size rounds : Nat} {list piece : List α} (member : piece ∈ cut size rounds list) :
    piece.length ≤ size := by
  induction rounds generalizing list with
  | zero => cases member
  | succ rounds ih =>
    cases list with
    | nil => cases member
    | cons head tail =>
      rcases List.mem_cons.mp member with rfl | member
      · exact List.length_take_le _ _
      · exact ih member

theorem chunks_bound {size : Nat} {list piece : List α} (member : piece ∈ chunks size list) :
    piece.length ≤ size :=
  cut_bound member

theorem cut_ne_nil {size rounds : Nat} (positive : 0 < size) {list piece : List α}
    (member : piece ∈ cut size rounds list) : piece ≠ [] := by
  induction rounds generalizing list with
  | zero => cases member
  | succ rounds ih =>
    cases list with
    | nil => cases member
    | cons head tail =>
      rcases List.mem_cons.mp member with rfl | member
      · intro empty
        rcases List.take_eq_nil_iff.mp empty with zero | none
        · omega
        · cases none
      · exact ih member

theorem chunks_ne_nil {size : Nat} (positive : 0 < size) {list piece : List α}
    (member : piece ∈ chunks size list) : piece ≠ [] :=
  cut_ne_nil positive member

theorem cut_length {size : Nat} (positive : 0 < size) (rounds : Nat) (list : List α) :
    (cut size rounds list).length ≤ list.length / size + 1 := by
  induction rounds generalizing list with
  | zero => simp [cut]
  | succ rounds ih =>
    cases list with
    | nil => simp [cut]
    | cons head tail =>
      have rest := ih ((head :: tail).drop size)
      simp only [cut, List.length_cons, List.length_drop] at rest ⊢
      by_cases small : tail.length + 1 < size
      · have gone : (head :: tail).drop size = [] := List.drop_eq_nil_of_le (by simp; omega)
        have none : cut size rounds (List.drop size (head :: tail)) = [] := by
          rw [gone]; cases rounds <;> rfl
        rw [none]
        simp
      · have once : (tail.length + 1) / size = (tail.length + 1 - size) / size + 1 := by
          rw [Nat.div_eq_sub_div positive (by omega)]
        omega

theorem chunks_length {size : Nat} (positive : 0 < size) (list : List α) :
    (chunks size list).length ≤ list.length / size + 1 :=
  cut_length positive list.length list

/-! The last elements of a list: `List.rtake`. -/

@[simp] theorem rtake_length (list : List α) (count : Nat) :
    (list.rtake count).length = min count list.length := by
  simp only [List.rtake, List.length_drop]
  omega

theorem rtake_of_length_le {list : List α} {count : Nat} (small : list.length ≤ count) :
    list.rtake count = list := by
  have none : list.length - count = 0 := by omega
  rw [List.rtake, none, List.drop_zero]

theorem rtake_append_of_le {first second : List α} {count : Nat} (long : count ≤ second.length) :
    (first ++ second).rtake count = second.rtake count := by
  have split : (first ++ second).length - count = first.length + (second.length - count) := by
    simp only [List.length_append]
    omega
  rw [List.rtake, split, List.drop_length_add_append, List.rtake]

theorem rtake_rtake_append (first second : List α) (count : Nat) :
    (first.rtake count ++ second).rtake count = (first ++ second).rtake count := by
  by_cases long : count ≤ second.length
  · rw [rtake_append_of_le long, rtake_append_of_le long]
  · have whole : first = first.take (first.length - count) ++ first.rtake count :=
      (List.take_append_drop _ _).symm
    by_cases small : first.length ≤ count
    · rw [rtake_of_length_le small]
    · have tail : count ≤ (first.rtake count ++ second).length := by
        simp only [List.length_append, rtake_length]
        omega
      conv_rhs => rw [whole, List.append_assoc, rtake_append_of_le tail]

theorem rtake_suffix_rtake {fewer count : Nat} (less : fewer ≤ count) (list : List α) :
    list.rtake fewer <:+ list.rtake count := by
  have split : list.length - fewer = (list.length - count) + ((list.length - fewer) -
      (list.length - count)) := by omega
  rw [List.rtake, List.rtake, split, ← List.drop_drop]
  exact List.drop_suffix _ _

end Lich.Foundation
