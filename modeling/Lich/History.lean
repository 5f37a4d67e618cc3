import Lich.Foundation.Cutting
import Lich.Packet

/-! The bounded replay history of a session's output. -/

set_option autoImplicit false

namespace Lich

open Foundation

def historyCap : Nat := 1024 * 1024

/-- The last bytes of the output, never more than the cap. -/
structure History where
  bytes : List UInt8
  bound : bytes.length ≤ historyCap
  deriving DecidableEq

def History.new : History := ⟨[], Nat.zero_le _⟩

/-- `pop_front` until the new data fits. -/
def History.evict (incoming : Nat) : List UInt8 → List UInt8
  | [] => []
  | byte :: rest =>
    if (byte :: rest).length + incoming > historyCap then evict incoming rest else byte :: rest

theorem History.evict_eq_drop (incoming : Nat) (bytes : List UInt8) :
    evict incoming bytes = bytes.drop (bytes.length + incoming - historyCap) := by
  induction bytes with
  | nil => simp [evict]
  | cons byte rest ih =>
    rw [evict]
    split
    · next full =>
      have excess : (byte :: rest).length + incoming - historyCap =
          rest.length + incoming - historyCap + 1 := by
        simp only [List.length_cons] at full ⊢
        omega
      rw [ih, excess, List.drop_succ_cons]
    · next room =>
      have none : (byte :: rest).length + incoming - historyCap = 0 := by omega
      rw [none, List.drop_zero]

def History.append (history : History) (data : List UInt8) : History :=
  if long : data.length ≥ historyCap then
    ⟨data.drop (data.length - historyCap), by simp only [List.length_drop]; omega⟩
  else
    ⟨evict data.length history.bytes ++ data, by
      rw [evict_eq_drop, List.length_append, List.length_drop]
      omega⟩

def History.snapshot (history : History) : List UInt8 := history.bytes

def History.after (output : List UInt8) : History :=
  ⟨output.rtake historyCap, by rw [rtake_length]; exact Nat.min_le_left _ _⟩

@[simp] theorem History.after_bytes (output : List UInt8) :
    (History.after output).bytes = output.rtake historyCap := by
  simp only [after]

theorem History.ext {first second : History} (same : first.bytes = second.bytes) :
    first = second := by
  cases first
  cases second
  simp only at same
  subst same
  rfl

@[simp] theorem History.after_nil : History.after [] = History.new := by
  apply History.ext
  simp [after, History.new]

theorem History.append_bytes (history : History) (data : List UInt8) :
    (history.append data).bytes = (history.bytes ++ data).rtake historyCap := by
  unfold append
  split
  · next long =>
    rw [rtake_append_of_le long, List.rtake]
  · next short =>
    have inside : history.bytes.length + data.length - historyCap ≤ history.bytes.length := by omega
    simp only [evict_eq_drop]
    rw [List.rtake, List.length_append, List.drop_append_of_le_length inside]

/-- Appending a read to the history of an output is the history of the longer
output. -/
theorem History.after_append (output data : List UInt8) :
    (History.after output).append data = History.after (output ++ data) := by
  apply History.ext
  rw [append_bytes, after_bytes, after_bytes, rtake_rtake_append]

end Lich
