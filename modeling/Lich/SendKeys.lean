import Lich.C.Keys

/-! `send_keys_session`, against the C program's.

The two programs cut what they send into packets differently, but send the same
bytes.
-/

set_option autoImplicit false

namespace Lich

open Foundation

def keyTokenBytes (token : List UInt8) : Option (List UInt8) :=
  if token = ascii "Enter" ∨ token = ascii "Return" ∨ token = ascii "C-m" then some (ascii "\r")
  else if token = ascii "Tab" ∨ token = ascii "C-i" then some (ascii "\t")
  else if token = ascii "Esc" ∨ token = ascii "Escape" then some [0x1b]
  else if token = ascii "Space" then some (ascii " ")
  else if token = ascii "Backspace" ∨ token = ascii "BSpace" then some [0x7f]
  else if token = ascii "Delete" then some (0x1b :: ascii "[3~")
  else if token = ascii "Insert" then some (0x1b :: ascii "[2~")
  else if token = ascii "Up" then some (0x1b :: ascii "[A")
  else if token = ascii "Down" then some (0x1b :: ascii "[B")
  else if token = ascii "Right" then some (0x1b :: ascii "[C")
  else if token = ascii "Left" then some (0x1b :: ascii "[D")
  else if token = ascii "Home" then some (0x1b :: ascii "[H")
  else if token = ascii "End" then some (0x1b :: ascii "[F")
  else if token = ascii "PageUp" then some (0x1b :: ascii "[5~")
  else if token = ascii "PageDown" then some (0x1b :: ascii "[6~")
  else if ascii "C-" <+: token ∧ token.length = 3 then some [token.getD 2 0 &&& 0x1f]
  else if ascii "^" <+: token ∧ token.length = 2 then some [token.getD 1 0 &&& 0x1f]
  else none

def keysLoop (literal : Bool) : (idx : Nat) → List (List UInt8) → List UInt8 → List UInt8
  | _, [], bytes => bytes
  | idx, key :: later, bytes =>
    let bytes :=
      if literal then
        let bytes := if idx > 0 then bytes ++ ascii " " else bytes
        bytes ++ key
      else match keyTokenBytes key with
        | some encoded => bytes ++ encoded
        | none => bytes ++ key
    keysLoop literal (idx + 1) later bytes

/-- The packets `send_keys_session` sends, if none fails. -/
def sendKeys (literal : Bool) (keys : List (List UInt8)) : List Packet :=
  (chunks maxPayload (keysLoop literal 0 keys [])).map fun chunk => ⟨msgSendKeys, chunk⟩

/-! ## One token -/

theorem c_keys_find {token : List UInt8} (noNul : 0 ∉ token)
    (unnamed : token ∉ C.keys.map C.KeyName.name) :
    (C.keys.find? fun key => C.strcmpZero (C.terminated token) (C.terminated key.name)) = none := by
  apply List.find?_eq_none.mpr
  intro key member equal
  have same := (C.strcmpZero_iff noNul (C.keys_noNul key member).1).mp equal
  exact unnamed (List.mem_map.mpr ⟨key, member, same.symm⟩)

theorem ascii_control : ascii "C-" = [67, 45] := rfl

theorem ascii_caret : ascii "^" = [94] := rfl

def ctrlForms (token : List UInt8) : Option (List UInt8) :=
  if ascii "C-" <+: token ∧ token.length = 3 then some [token.getD 2 0 &&& 0x1f]
  else if ascii "^" <+: token ∧ token.length = 2 then some [token.getD 1 0 &&& 0x1f]
  else none

theorem c_ctrlForms {token : List UInt8} (noNul : 0 ∉ token)
    (unnamed : token ∉ C.keys.map C.KeyName.name) :
    C.keyTokenBytes (C.terminated token) = ctrlForms token := by
  rw [C.keyTokenBytes, c_keys_find noNul unnamed, ctrlForms, ascii_control, ascii_caret]
  match token with
  | [] => rfl
  | [_] => simp [C.terminated, C.ctrlChar]
  | [first, second] =>
    have nonzero : second ≠ 0 := fun same => noNul (by simp [same])
    simp [C.terminated, C.ctrlChar, C.ctrl, nonzero, @eq_comm UInt8 94 first]
  | [first, second, third] =>
    have nonzero : second ≠ 0 ∧ third ≠ 0 := by
      constructor <;> exact fun same => noNul (by simp [same])
    simp [C.terminated, C.ctrlChar, C.ctrl, nonzero, @eq_comm UInt8 67 first,
      @eq_comm UInt8 45 second]
  | first :: second :: third :: fourth :: later =>
    have nonzero : third ≠ 0 ∧ fourth ≠ 0 := by
      constructor <;> exact fun same => noNul (by simp [same])
    simp [C.terminated, C.ctrlChar, nonzero]

theorem c_keyTokenBytes {token : List UInt8} (noNul : 0 ∉ token) :
    C.keyTokenBytes (C.terminated token) = keyTokenBytes token := by
  by_cases named : token ∈ C.keys.map C.KeyName.name
  · simp only [C.keys, List.map_cons, List.map_nil, List.mem_cons, List.not_mem_nil, or_false]
      at named
    rcases named with rfl | rfl | rfl | rfl | rfl | rfl | rfl | rfl | rfl | rfl | rfl | rfl | rfl |
      rfl | rfl | rfl | rfl | rfl | rfl | rfl
    all_goals decide
  · rw [c_ctrlForms noNul named, keyTokenBytes, ctrlForms]
    simp only [C.keys, List.map_cons, List.map_nil, List.mem_cons, List.not_mem_nil, or_false,
      not_or] at named
    simp only [named, or_self, if_false]

/-! ## All of them -/

/-- The bytes that the arguments stand for, with their separators. -/
def keysBytes (literal : Bool) : List (List UInt8) → List UInt8
  | [] => []
  | key :: later =>
    (if literal then key else (keyTokenBytes key).getD key) ++
      (if literal ∧ later ≠ [] then ascii " " else []) ++ keysBytes literal later

theorem keysLoop_eq (literal : Bool) (idx : Nat) (keys : List (List UInt8)) (bytes : List UInt8) :
    keysLoop literal idx keys bytes =
      bytes ++ (if literal ∧ idx > 0 ∧ keys ≠ [] then ascii " " else []) ++
        keysBytes literal keys := by
  induction keys generalizing idx bytes with
  | nil => simp [keysLoop, keysBytes]
  | cons key later ih =>
    rw [keysLoop, ih, keysBytes]
    cases literal with
    | true =>
      by_cases first : idx > 0 <;> simp [first]
    | false =>
      cases keyTokenBytes key <;> simp

theorem c_sendKeys_bytes (literal : Bool) (args : List C.Arg) :
    (C.sendKeys literal args).flatMap Packet.payload = keysBytes literal (args.map C.Arg.bytes) := by
  have sent (bytes : List UInt8) : (C.sendBytes bytes).flatMap Packet.payload = bytes := by
    rw [C.sendBytes, C.sendBytesLoop_eq, List.flatMap_map]
    exact List.flatMap_id.trans (chunks_flatten (by decide) bytes)
  induction args with
  | nil => rfl
  | cons arg later ih =>
    have separator : (later.map C.Arg.bytes ≠ []) = (later ≠ []) := by simp
    rw [C.sendKeys, List.map_cons, keysBytes, C.take_strlen arg.noNul, c_keyTokenBytes arg.noNul]
    simp only [List.flatMap_append, ih, sent, separator]
    congr 2
    split
    · exact sent _
    · rfl

-- Arguments are all strings without NUL, so in particular those that are valid
-- UTF-8; neither program looks at characters.
theorem send_keys_parity (literal : Bool) (args : List C.Arg) :
    (∀ pkt ∈ sendKeys literal (args.map C.Arg.bytes),
      pkt.typ = msgSendKeys ∧ 1 ≤ pkt.payload.length ∧ pkt.payload.length ≤ maxPayload) ∧
    (sendKeys literal (args.map C.Arg.bytes)).flatMap Packet.payload =
      (C.sendKeys literal args).flatMap Packet.payload := by
  constructor
  · intro pkt member
    obtain ⟨piece, inside, rfl⟩ := List.mem_map.mp member
    have nonempty := chunks_ne_nil (by decide) inside
    exact ⟨rfl, List.length_pos_iff.mpr nonempty, chunks_bound inside⟩
  · rw [c_sendKeys_bytes, sendKeys, List.flatMap_map, keysLoop_eq]
    refine List.flatMap_id.trans ((chunks_flatten (by decide) _).trans ?_)
    simp

def someKeys : List C.Arg :=
  [⟨ascii "Up", by decide⟩, ⟨ascii "C-c", by decide⟩, ⟨ascii "^é", by decide⟩, ⟨ascii "", by decide⟩]

theorem send_keys_parity_some :
    (⟨msgSendKeys, 27 :: ascii "[A" ++ 3 :: ascii "^é"⟩ : Packet).payload.length ≤ maxPayload ∧
      (sendKeys false (someKeys.map C.Arg.bytes)).flatMap Packet.payload =
        (C.sendKeys false someKeys).flatMap Packet.payload :=
  ⟨((send_keys_parity false someKeys).1 _ (by decide)).2.2, (send_keys_parity false someKeys).2⟩

end Lich
