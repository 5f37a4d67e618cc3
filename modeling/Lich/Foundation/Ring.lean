import Lich.Foundation.Cutting
import Mathlib.Data.List.Rotate

/-! Rings: an array of which a window is in use that may run past its end.

What the window holds is read off the array rotated to its start. Dropping from
the front moves the start; pushing to the back writes behind the end, and what
does not fit there from the beginning of the array.
-/

set_option autoImplicit false

namespace Lich.Foundation

variable {α : Type}

def window (cells : List α) (start count : Nat) : List α := (cells.rotate start).take count

def overwrite (cells : List α) (place : Nat) (data : List α) : List α :=
  cells.take place ++ data ++ cells.drop (place + data.length)

/-- Writing from a place on, and on from the beginning where the array ends. -/
def overwriteAround (cells : List α) (place : Nat) (data : List α) : List α :=
  let first := min (cells.length - place) data.length
  overwrite (overwrite cells place (data.take first)) 0 (data.drop first)

@[simp] theorem window_length (cells : List α) (start count : Nat) :
    (window cells start count).length = min count cells.length := by
  rw [window, List.length_take, List.length_rotate]

theorem overwrite_length {cells data : List α} {place : Nat}
    (inside : place + data.length ≤ cells.length) :
    (overwrite cells place data).length = cells.length := by
  simp only [overwrite, List.length_append, List.length_take, List.length_drop]
  omega

theorem overwriteAround_length {cells data : List α} {place : Nat} (inside : place < cells.length)
    (small : data.length ≤ cells.length) :
    (overwriteAround cells place data).length = cells.length := by
  have first : (overwrite cells place
      (data.take (min (cells.length - place) data.length))).length = cells.length := by
    apply overwrite_length
    rw [List.length_take]
    omega
  rw [overwriteAround, overwrite_length, first]
  rw [first, List.length_drop]
  omega

theorem rotate_modulo {list : List α} {size : Nat} (same : list.length = size)
    (start count : Nat) :
    list.rotate ((start + count) % size) = (list.rotate start).rotate count := by
  rw [← same, List.rotate_mod, List.rotate_rotate]

theorem window_drop {cells : List α} {start count gone : Nat} (bound : count ≤ cells.length)
    (less : gone ≤ count) :
    window cells ((start + gone) % cells.length) (count - gone) =
      (window cells start count).drop gone := by
  have size : (cells.rotate start).length = cells.length := List.length_rotate _ _
  rw [window, window, rotate_modulo rfl, List.rotate_eq_drop_append_take (by omega),
    List.take_append_of_le_length (by rw [List.length_drop]; omega), List.drop_take]

theorem rotate_overwriteAround {cells data : List α} {place : Nat} (inside : place < cells.length)
    (small : data.length ≤ cells.length) :
    (overwriteAround cells place data).rotate place =
      data ++ (cells.rotate place).drop data.length := by
  have size := overwriteAround_length inside small
  rw [List.rotate_eq_drop_append_take (by omega), List.rotate_eq_drop_append_take (by omega)]
  by_cases fits : data.length ≤ cells.length - place
  · -- the data ends before the array does
    have all : min (cells.length - place) data.length = data.length := Nat.min_eq_right fits
    have one : overwriteAround cells place data = overwrite cells place data := by
      simp [overwriteAround, all, overwrite]
    have front : (cells.take place).length = place := by
      rw [List.length_take]
      omega
    rw [one, overwrite, List.append_assoc, List.drop_left' front, List.take_left' front,
      List.drop_append_of_le_length (by rw [List.length_drop]; omega), List.drop_drop,
      List.append_assoc]
  · -- the rest of the data goes to the beginning
    have part : min (cells.length - place) data.length = cells.length - place :=
      Nat.min_eq_left (by omega)
    have head : (data.take (cells.length - place)).length = cells.length - place := by
      rw [List.length_take]
      omega
    have tail : (data.drop (cells.length - place)).length = data.length - (cells.length - place) :=
      List.length_drop
    have two : overwriteAround cells place data =
        data.drop (cells.length - place) ++
          ((cells.take place).drop (data.length - (cells.length - place)) ++
            data.take (cells.length - place)) := by
      have none : cells.drop (place + (cells.length - place)) = [] :=
        List.drop_eq_nil_of_le (by omega)
      rw [overwriteAround, part, overwrite, overwrite, head, none, tail, List.append_nil,
        Nat.zero_add, List.take_zero, List.nil_append,
        List.drop_append_of_le_length (by rw [List.length_take]; omega)]
    have gap : (data.drop (cells.length - place) ++
        (cells.take place).drop (data.length - (cells.length - place))).length = place := by
      simp only [List.length_append, List.length_drop, List.length_take]
      omega
    have gone : (cells.drop place).length ≤ data.length := by
      rw [List.length_drop]
      omega
    have skip : data.length - (cells.drop place).length = data.length - (cells.length - place) := by
      rw [List.length_drop]
    rw [two, ← List.append_assoc, List.drop_left' gap, List.take_left' gap, ← List.append_assoc,
      List.take_append_drop, List.drop_append, List.drop_eq_nil_of_le gone, List.nil_append, skip]

theorem window_push {cells data : List α} {start count : Nat} (positive : 0 < cells.length)
    (room : count + data.length ≤ cells.length) :
    window (overwriteAround cells ((start + count) % cells.length) data) start
        (count + data.length) =
      window cells start count ++ data := by
  have inside : (start + count) % cells.length < cells.length := Nat.mod_lt _ positive
  have size := @overwriteAround_length _ cells data _ inside (by omega)
  have seen := @rotate_overwriteAround _ cells data _ inside (by omega)
  generalize overwriteAround cells ((start + count) % cells.length) data = written at size seen ⊢
  have sizeOld : (cells.rotate start).length = cells.length := List.length_rotate _ _
  have sizeNew : (written.rotate start).length = cells.length :=
    (List.length_rotate _ _).trans size
  -- both arrays, seen from the end of the window
  rw [rotate_modulo rfl, rotate_modulo size,
    @List.rotate_eq_drop_append_take _ (written.rotate start) count (by omega),
    @List.rotate_eq_drop_append_take _ (cells.rotate start) count (by omega),
    List.drop_append_of_le_length (by rw [List.length_drop]; omega), ← List.append_assoc] at seen
  obtain ⟨back, front⟩ := List.append_inj' seen (by simp only [List.length_take]; omega)
  have both := List.take_append_drop count (written.rotate start)
  rw [back, front, ← List.append_assoc] at both
  rw [window, window, ← both]
  apply List.take_left'
  simp only [List.length_append, List.length_take]
  omega

theorem window_take {cells : List α} {start count piece : Nat} (inside : start ≤ cells.length)
    (less : piece ≤ count) (before : piece ≤ cells.length - start) :
    (cells.drop start).take piece = (window cells start count).take piece := by
  rw [window, List.take_take, Nat.min_eq_left less, List.rotate_eq_drop_append_take inside,
    List.take_append_of_le_length (by rw [List.length_drop]; omega)]

end Lich.Foundation
