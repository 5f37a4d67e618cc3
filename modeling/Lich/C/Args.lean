import Lich.Args

/-! The command line of the C program: `getopt`, and `main` up to the action.

`getopt` is that of POSIX, which the Makefile asks for: it stops at the first argument
that is no option. Numbers have 64 bits.
-/

set_option autoImplicit false

namespace Lich.C

open Foundation

/-! ## Options -/

/-- Whether the letter is an option, and then whether it takes a value; a colon is none. -/
def takesValue (optstring : List UInt8) (letter : UInt8) : Option Bool :=
  match optstring with
  | [] => none
  | option :: rest =>
    if option = letter ∧ letter ≠ 58 then some (rest.head? = some 58) else takesValue rest letter

/-- What `getopt` keeps: the rest of the argument it is in, and the arguments from `optind` on. -/
structure Scan where
  next : List UInt8
  args : List Arg
  deriving DecidableEq

inductive Got where
  | option (letter : UInt8) (optarg : Option (List UInt8))
  /-- `?` -/
  | unknown
  /-- -1 -/
  | done
  deriving DecidableEq

def scanLetter (optstring : List UInt8) (letter : UInt8) (next : List UInt8) (args : List Arg) :
    Got × Scan :=
  match takesValue optstring letter with
  | none => (.unknown, ⟨next, args⟩)
  | some false => (.option letter none, ⟨next, args⟩)
  | some true =>
    if next ≠ [] then (.option letter (some next), ⟨[], args⟩)
    else match args with
      | [] => (.unknown, ⟨[], []⟩)
      | value :: args => (.option letter (some value.bytes), ⟨[], args⟩)

def getopt (optstring : List UInt8) (scan : Scan) : Got × Scan :=
  match scan.next with
  | letter :: next => scanLetter optstring letter next scan.args
  | [] =>
    match scan.args with
    | [] => (.done, scan)
    | arg :: args =>
      match arg.bytes with
      | 45 :: letter :: next =>
        if letter = 45 ∧ next = [] then (.done, ⟨[], args⟩) else scanLetter optstring letter next args
      | _ => (.done, scan)

def Scan.size (scan : Scan) : Nat :=
  scan.next.length + (scan.args.map fun arg => arg.bytes.length + 1).sum

theorem scanLetter_size {optstring : List UInt8} {letter option : UInt8} {next : List UInt8}
    {args : List Arg} {optarg : Option (List UInt8)} {scan : Scan}
    (got : scanLetter optstring letter next args = (.option option optarg, scan)) :
    scan.size ≤ Scan.size ⟨next, args⟩ := by
  unfold scanLetter at got
  cases takes : takesValue optstring letter with
  | none =>
    rw [takes] at got
    cases got
  | some value =>
    rw [takes] at got
    cases value with
    | false =>
      cases got
      exact Nat.le_refl _
    | true =>
      dsimp only at got
      split at got
      · cases got
        simp [Scan.size]
      · cases args with
        | nil => cases got
        | cons value args =>
          cases got
          simp only [Scan.size, List.map_cons, List.sum_cons, List.length_nil]
          omega

theorem getopt_size {optstring : List UInt8} {scan scan' : Scan} {option : UInt8}
    {optarg : Option (List UInt8)} (got : getopt optstring scan = (.option option optarg, scan')) :
    scan'.size < scan.size := by
  obtain ⟨next, args⟩ := scan
  cases next with
  | cons letter next =>
    have size := scanLetter_size got
    simp only [Scan.size, List.length_cons] at size ⊢
    omega
  | nil =>
    cases args with
    | nil => cases got
    | cons arg args =>
      rw [getopt] at got
      dsimp only at got
      split at got
      · next letter next bytes =>
        split at got
        · cases got
        · have size := scanLetter_size got
          simp only [Scan.size, List.map_cons, List.sum_cons, bytes, List.length_cons] at size ⊢
          simp only [List.length_nil]
          omega
      · cases got

section Scanning

variable {optstring next : List UInt8} {letter : UInt8} {args : List Arg}

theorem scanLetter_letter (takes : takesValue optstring letter = some false) :
    scanLetter optstring letter next args = (.option letter none, ⟨next, args⟩) := by
  unfold scanLetter
  rw [takes]

theorem scanLetter_value (takes : takesValue optstring letter = some true) (value : Arg) :
    scanLetter optstring letter [] (value :: args) =
      (.option letter (some value.bytes), ⟨[], args⟩) := by
  unfold scanLetter
  rw [takes]
  rfl

theorem scanLetter_unknown (unknown : takesValue optstring letter = none) :
    scanLetter optstring letter next args = (.unknown, ⟨next, args⟩) := by
  unfold scanLetter
  rw [unknown]

theorem takesValue_none (strange : letter ∈ optstring → letter = 58) :
    takesValue optstring letter = none := by
  induction optstring with
  | nil => rfl
  | cons option rest ih =>
    rw [takesValue, if_neg]
    · exact ih fun member => strange (List.mem_cons_of_mem _ member)
    · rintro ⟨rfl, known⟩
      exact known (strange List.mem_cons_self)

end Scanning

/-! ## Sizes -/

def isSpace (byte : UInt8) : Bool := byte = 32 || (9 ≤ byte && byte ≤ 13)

/-- The value, what stands behind the number, and whether `errno` is set. -/
def strtoull (s : List UInt8) : Nat × List UInt8 × Bool :=
  let text := s.dropWhile isSpace
  let unsigned := if text.head? = some 43 ∨ text.head? = some 45 then text.tail else text
  let digits := unsigned.takeWhile isDigit
  if digits = [] then (0, s, false)
  else if decimal digits ≥ 2 ^ 64 then (2 ^ 64 - 1, unsigned.dropWhile isDigit, true)
  else if text.head? = some 45 then
    ((2 ^ 64 - decimal digits) % 2 ^ 64, unsigned.dropWhile isDigit, false)
  else (decimal digits, unsigned.dropWhile isDigit, false)

def parseSizeArg (s : List UInt8) : Except Stop Nat :=
  let (value, rest, errno) := strtoull s
  if errno ∨ s = [] ∨ rest ≠ [] then .error .usage
  else if value > 2 ^ 64 - 1 then .error .usage
  else .ok value

/-! ## `main` -/

structure Config where
  /-- the letter, unless it is NUL -/
  action : Option Action
  keyLiteral : Bool
  dumpMaxBytes : Nat
  dumpMaxLines : Nat
  force : Bool
  passthrough : Bool
  quiet : Bool
  flags : UInt32
  /-- KEY_DETACH -/
  keyDetach : UInt8
  deriving DecidableEq

def Config.start : Config := ⟨none, false, 0, 0, false, false, false, 0, ctrl 92⟩

def optstring : List UInt8 := ascii "aAcdKN:L:xlne:fpqrv"

/-- KEY_DETACH as `-e` sets it; the value is in memory. -/
def detachOf (optarg : List UInt8) : UInt8 :=
  if optarg.getD 0 0 = 94 ∧ optarg.getD 1 0 ≠ 0 then ctrl (optarg.getD 1 0) else optarg.getD 0 0

/-- The `switch` on what `getopt` returned. -/
def Config.take (letter : UInt8) (optarg : Option (List UInt8)) (c : Config) : Except Stop Config :=
  if letter = 'a'.toUInt8 then .ok { c with action := some .attach }
  else if letter = 'A'.toUInt8 then .ok { c with action := some .attachOrCreate }
  else if letter = 'c'.toUInt8 then .ok { c with action := some .createAttach }
  else if letter = 'd'.toUInt8 then .ok { c with action := some .dump }
  else if letter = 'K'.toUInt8 then .ok { c with action := some .sendKeys }
  else if letter = 'n'.toUInt8 then .ok { c with action := some .create }
  else if letter = 'e'.toUInt8 then
    match optarg with
    | none => .error .usage
    | some value => .ok { c with keyDetach := detachOf (terminated value) }
  else if letter = 'N'.toUInt8 then
    (parseSizeArg (optarg.getD [])).map fun size => { c with dumpMaxBytes := size }
  else if letter = 'L'.toUInt8 then
    (parseSizeArg (optarg.getD [])).map fun size => { c with dumpMaxLines := size }
  else if letter = 'x'.toUInt8 then .ok { c with keyLiteral := true }
  else if letter = 'f'.toUInt8 then .ok { c with force := true }
  else if letter = 'p'.toUInt8 then .ok { c with passthrough := true }
  else if letter = 'q'.toUInt8 then .ok { c with quiet := true }
  else if letter = 'r'.toUInt8 then .ok { c with flags := c.flags ||| clientReadonly }
  else if letter = 'l'.toUInt8 then .ok { c with flags := c.flags ||| clientLowpriority }
  else if letter = 'v'.toUInt8 then .error .version
  else .error .usage

/-- The loop over the options, and the arguments from `optind` on after it. -/
def optionLoop (scan : Scan) (c : Config) : Except Stop (Config × List Arg) :=
  match _ : getopt optstring scan with
  | (.option letter optarg, scan') =>
    match c.take letter optarg with
    | .ok c => optionLoop scan' c
    | .error why => .error why
  | (.unknown, _) => .error .usage
  | (.done, scan') => .ok (c, scan'.args)
termination_by scan.size
decreasing_by exact getopt_size ‹_›

def Config.counted (operands : List Arg) (c : Config) : Bool :=
  match c.action with
  | some .sendKeys => 2 ≤ operands.length
  | some .dump => operands.length = 1
  | _ => true

/-- What `main` makes of passthrough, after a look at standard input. -/
def Config.piped (tty : Bool) (operands : List Arg) (c : Config) : Config :=
  if c.passthrough = true ∨
      operands ≠ [] ∧ tty = false ∧ c.action ≠ some .dump ∧ c.action ≠ some .sendKeys then
    { c with
      passthrough := true
      action := some (c.action.getD .attach)
      quiet := true
      flags := c.flags ||| clientLowpriority }
  else c

def Config.select (operands : List Arg) (c : Config) : Decision :=
  match c.action, operands with
  | none, [] => .list
  | some action, name :: rest =>
    if c.dumpMaxBytes ≠ 0 ∧ c.dumpMaxLines ≠ 0 then .stop .usage
    else if c.action ≠ some .dump ∧ (c.dumpMaxBytes ≠ 0 ∨ c.dumpMaxLines ≠ 0) then .stop .usage
    else if c.action ≠ some .sendKeys ∧ c.keyLiteral = true then .stop .usage
    else .run ⟨action, name, rest, c.dumpMaxBytes, c.dumpMaxLines, c.keyLiteral, c.flags, c.quiet,
      c.passthrough, c.force, c.keyDetach⟩
  | _, _ => .stop .usage

/-- `main` up to the action. -/
def main (tty : Bool) (args : List Arg) : Decision :=
  match optionLoop ⟨[], args⟩ .start with
  | .error why => .stop why
  | .ok (c, operands) =>
    if c.counted operands then (c.piped tty operands).select operands else .stop .usage

end Lich.C
