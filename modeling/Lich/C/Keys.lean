import Lich.C.Client

/-! The C program's `send_keys_session`.

Arguments are NUL-terminated strings; what the program reads of one is its
bytes and the NUL behind them.
-/

set_option autoImplicit false

namespace Lich

def ascii (text : String) : List UInt8 := text.toUTF8.data.toList

namespace C

/-- A command line argument: any bytes but NUL. -/
structure Arg where
  bytes : List UInt8
  noNul : 0 ∉ bytes

def terminated (bytes : List UInt8) : List UInt8 := bytes ++ [0]

def strlen : List UInt8 → Nat
  | [] => 0
  | byte :: rest => if byte = 0 then 0 else strlen rest + 1

def strcmpZero : List UInt8 → List UInt8 → Bool
  | first :: firsts, second :: seconds =>
    if first ≠ second then false
    else if first = 0 then true
    else strcmpZero firsts seconds
  | _, _ => true

def ctrl (byte : UInt8) : UInt8 := byte &&& 0x1f

def ctrlChar (token : List UInt8) : Option UInt8 :=
  if token.getD 0 0 = 0 ∨ token.getD 1 0 ≠ 0 then none else some (ctrl (token.getD 0 0))

structure KeyName where
  name : List UInt8
  bytes : List UInt8

def keys : List KeyName := [
  ⟨ascii "Enter", [13]⟩,
  ⟨ascii "Return", [13]⟩,
  ⟨ascii "C-m", [13]⟩,
  ⟨ascii "Tab", [9]⟩,
  ⟨ascii "C-i", [9]⟩,
  ⟨ascii "Esc", [27]⟩,
  ⟨ascii "Escape", [27]⟩,
  ⟨ascii "Space", ascii " "⟩,
  ⟨ascii "Backspace", [127]⟩,
  ⟨ascii "BSpace", [127]⟩,
  ⟨ascii "Delete", 27 :: ascii "[3~"⟩,
  ⟨ascii "Insert", 27 :: ascii "[2~"⟩,
  ⟨ascii "Up", 27 :: ascii "[A"⟩,
  ⟨ascii "Down", 27 :: ascii "[B"⟩,
  ⟨ascii "Right", 27 :: ascii "[C"⟩,
  ⟨ascii "Left", 27 :: ascii "[D"⟩,
  ⟨ascii "Home", 27 :: ascii "[H"⟩,
  ⟨ascii "End", 27 :: ascii "[F"⟩,
  ⟨ascii "PageUp", 27 :: ascii "[5~"⟩,
  ⟨ascii "PageDown", 27 :: ascii "[6~"⟩]

/-- `bytes` and `len` as `key_token_bytes` sets them; `token` is in memory. -/
def keyTokenBytes (token : List UInt8) : Option (List UInt8) :=
  match keys.find? fun key => strcmpZero token (terminated key.name) with
  | some key => some ((terminated key.bytes).take (strlen (terminated key.bytes)))
  | none =>
    if token.getD 0 0 = 67 ∧ token.getD 1 0 = 45 ∧ (ctrlChar (token.drop 2)).isSome then
      (ctrlChar (token.drop 2)).map fun byte => [byte]
    else if token.getD 0 0 = 94 ∧ (ctrlChar (token.drop 1)).isSome then
      (ctrlChar (token.drop 1)).map fun byte => [byte]
    else none

/-- The packets `send_bytes` sends, if none fails; `rounds` is at least their
number. -/
def sendBytesLoop : (rounds : Nat) → List UInt8 → List Packet
  | 0, _ => []
  | rounds + 1, bytes =>
    if bytes.length > 0 then
      let chunk := if bytes.length > maxPayload then maxPayload else bytes.length
      ⟨msgSendKeys, bytes.take chunk⟩ :: sendBytesLoop rounds (bytes.drop chunk)
    else []

def sendBytes (bytes : List UInt8) : List Packet := sendBytesLoop bytes.length bytes

/-- The packets `send_keys_session` sends, if none fails. -/
def sendKeys (literal : Bool) : List Arg → List Packet
  | [] => []
  | arg :: later =>
    let token := terminated arg.bytes
    let bytes := token.take (strlen token)
    let bytes := if literal then bytes else (keyTokenBytes token).getD bytes
    sendBytes bytes ++ (if literal ∧ later ≠ [] then sendBytes (ascii " ") else []) ++
      sendKeys literal later

/-! ## Strings -/

theorem strlen_terminated {bytes : List UInt8} (noNul : 0 ∉ bytes) :
    strlen (terminated bytes) = bytes.length := by
  induction bytes with
  | nil => rfl
  | cons byte rest ih =>
    have some : byte ≠ 0 := fun same => noNul (by simp [same])
    have later := ih fun member => noNul (List.mem_cons_of_mem _ member)
    rw [terminated] at later
    rw [terminated, List.cons_append, strlen, if_neg some, later, List.length_cons]

theorem take_strlen {bytes : List UInt8} (noNul : 0 ∉ bytes) :
    (terminated bytes).take (strlen (terminated bytes)) = bytes := by
  rw [strlen_terminated noNul, terminated, List.take_left]

theorem strcmpZero_iff {first second : List UInt8} (noNul : 0 ∉ first) (noNul' : 0 ∉ second) :
    strcmpZero (terminated first) (terminated second) = true ↔ first = second := by
  induction first generalizing second with
  | nil =>
    cases second with
    | nil => simp [terminated, strcmpZero]
    | cons byte rest =>
      have some : byte ≠ 0 := fun same => noNul' (by simp [same])
      simp [terminated, strcmpZero, some.symm]
  | cons byte rest ih =>
    have some : byte ≠ 0 := fun same => noNul (by simp [same])
    have noNul := fun member => noNul (List.mem_cons_of_mem _ member)
    cases second with
    | nil => simp [terminated, strcmpZero, some]
    | cons byte' rest' =>
      have noNul' := fun member => noNul' (List.mem_cons_of_mem _ member)
      have later := ih noNul noNul'
      simp only [terminated] at later
      by_cases same : byte = byte'
      · subst same
        simp [terminated, strcmpZero, some, later]
      · simp [terminated, strcmpZero, same]

theorem keys_noNul : ∀ key ∈ keys, 0 ∉ key.name ∧ 0 ∉ key.bytes := by
  decide

/-! ## Packets -/

theorem sendBytesLoop_eq (rounds : Nat) (bytes : List UInt8) :
    sendBytesLoop rounds bytes =
      (Foundation.cut maxPayload rounds bytes).map fun piece => ⟨msgSendKeys, piece⟩ := by
  induction rounds generalizing bytes with
  | zero => rfl
  | succ rounds ih =>
    cases bytes with
    | nil => rfl
    | cons byte rest =>
      have positive : 0 < (byte :: rest).length := Nat.succ_pos _
      rw [sendBytesLoop, if_pos positive, Foundation.cut_cons, List.map_cons]
      dsimp only
      split
      · rw [ih]
      · next small =>
        have whole : (byte :: rest).take maxPayload = byte :: rest :=
          List.take_of_length_le (Nat.le_of_not_lt small)
        have none : (byte :: rest).drop maxPayload = [] :=
          List.drop_eq_nil_of_le (Nat.le_of_not_lt small)
        rw [ih, whole, none, List.take_length, List.drop_length]

end C

end Lich
