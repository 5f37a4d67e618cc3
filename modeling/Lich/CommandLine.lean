import Lich.C.Args

/-! Command lines with every option on its own, before the name, and what they say.

Where an option is repeated, the last one counts. Both programs' loops over the arguments
find what is said here.
-/

set_option autoImplicit false

namespace Lich

open Foundation

/-! ## Options -/

inductive Flag where
  | literal
  | quiet
  | force
  | passthrough
  | readonly
  | lowPriority
  deriving DecidableEq

/-- A decimal number that fits in a `usize`. -/
structure Size where
  digits : List UInt8
  nonempty : digits ≠ []
  numeral : ∀ digit ∈ digits, isDigit digit = true
  fits : decimal digits < 2 ^ 64

/-- No program knows it: neither an option, nor a name, nor `--`. -/
def Unknown (bytes : List UInt8) : Prop :=
  ∃ letter rest, bytes = 45 :: letter :: rest ∧ letter ∉ ascii "aAcdKNLxlnefpqrv" ∧
    (letter = 45 → rest ≠ [])

inductive Opt where
  | action (action : Action)
  | flag (flag : Flag)
  | maxBytes (size : Size)
  | maxLines (size : Size)
  | detachKey (key : C.Arg) (nonempty : key.bytes ≠ [])
  | unknown (arg : C.Arg) (unknown : Unknown arg.bytes)

def Action.letter : Action → UInt8
  | .attach => 97
  | .attachOrCreate => 65
  | .create => 110
  | .createAttach => 99
  | .dump => 100
  | .sendKeys => 75

def Flag.letter : Flag → UInt8
  | .literal => 120
  | .quiet => 113
  | .force => 102
  | .passthrough => 112
  | .readonly => 114
  | .lowPriority => 108

theorem Action.letter_ne (action : Action) : action.letter ≠ 0 := by cases action <;> decide

theorem Flag.letter_ne (flag : Flag) : flag.letter ≠ 0 := by cases flag <;> decide

theorem dash_noNul {letter : UInt8} (some : letter ≠ 0) : 0 ∉ [45, letter] := by
  simp [some.symm]

theorem digits_noNul (size : Size) : 0 ∉ size.digits := fun member =>
  absurd (size.numeral 0 member) (by decide)

def dash (letter : UInt8) (some : letter ≠ 0) : C.Arg := ⟨[45, letter], dash_noNul some⟩

def Size.arg (size : Size) : C.Arg := ⟨size.digits, digits_noNul size⟩

theorem bytesLetter_ne : (78 : UInt8) ≠ 0 := by decide

theorem linesLetter_ne : (76 : UInt8) ≠ 0 := by decide

theorem keyLetter_ne : (101 : UInt8) ≠ 0 := by decide

def Opt.args : Opt → List C.Arg
  | .action which => [dash which.letter which.letter_ne]
  | .flag which => [dash which.letter which.letter_ne]
  | .maxBytes size => [dash 78 bytesLetter_ne, size.arg]
  | .maxLines size => [dash 76 linesLetter_ne, size.arg]
  | .detachKey key _ => [dash 101 keyLetter_ne, key]
  | .unknown arg _ => [arg]

/-! ## Command lines -/

structure Operands where
  name : C.Arg
  plain : name.bytes.head? ≠ some 45 ∨ name.bytes = [45]
  rest : List C.Arg

structure CommandLine where
  options : List Opt
  operands : Option Operands

def operandArgs : Option Operands → List C.Arg
  | none => []
  | some operands => operands.name :: operands.rest

def CommandLine.args (line : CommandLine) : List C.Arg :=
  line.options.flatMap Opt.args ++ operandArgs line.operands

/-! ## What they say -/

@[simp] def Opt.action? : Opt → Option Action
  | .action which => some which
  | _ => none

@[simp] def Opt.flag? : Opt → Option Flag
  | .flag which => some which
  | _ => none

@[simp] def Opt.maxBytes? : Opt → Option Nat
  | .maxBytes size => some (decimal size.digits)
  | _ => none

@[simp] def Opt.maxLines? : Opt → Option Nat
  | .maxLines size => some (decimal size.digits)
  | _ => none

/-- The first byte; `^` and another byte are control and that byte. -/
def keyOf (bytes : List UInt8) : UInt8 :=
  if bytes.length ≥ 2 ∧ bytes.getD 0 0 = 94 then bytes.getD 1 0 &&& 0x1f else bytes.getD 0 0

@[simp] def Opt.detachKey? : Opt → Option UInt8
  | .detachKey key _ => some (keyOf key.bytes)
  | _ => none

def Opt.known : Opt → Bool
  | .unknown _ _ => false
  | _ => true

def lastOf {α : Type} (kind : Opt → Option α) (options : List Opt) : Option α :=
  (options.filterMap kind).getLast?

def given (flag : Flag) (options : List Opt) : Bool :=
  options.any fun option => option.flag? = some flag

def flagBits (readonly lowPriority : Bool) : UInt32 :=
  (if readonly then clientReadonly else 0) ||| (if lowPriority then clientLowpriority else 0)

def meaning (options : List Opt) : Opts where
  action := lastOf Opt.action? options
  name := none
  rest := []
  literal := given .literal options
  maxBytes := (lastOf Opt.maxBytes? options).getD 0
  maxLines := (lastOf Opt.maxLines? options).getD 0
  flags := flagBits (given .readonly options) (given .lowPriority options)
  quiet := given .quiet options
  force := given .force options
  passthrough := given .passthrough options
  detachKey := (lastOf Opt.detachKey? options).getD 0x1c

def Opt.say (option : Opt) (opts : Opts) : Opts :=
  match option with
  | .action which => { opts with action := some which }
  | .flag .literal => { opts with literal := true }
  | .flag .quiet => { opts with quiet := true }
  | .flag .force => { opts with force := true }
  | .flag .passthrough => { opts with passthrough := true }
  | .flag .readonly => { opts with flags := opts.flags ||| clientReadonly }
  | .flag .lowPriority => { opts with flags := opts.flags ||| clientLowpriority }
  | .maxBytes size => { opts with maxBytes := decimal size.digits }
  | .maxLines size => { opts with maxLines := decimal size.digits }
  | .detachKey key _ => { opts with detachKey := keyOf key.bytes }
  | .unknown _ _ => opts

@[simp] theorem flagBits_readonly (readonly lowPriority : Bool) :
    flagBits readonly lowPriority ||| clientReadonly = flagBits true lowPriority := by
  cases readonly <;> cases lowPriority <;> decide

@[simp] theorem flagBits_lowPriority (readonly lowPriority : Bool) :
    flagBits readonly lowPriority ||| clientLowpriority = flagBits readonly true := by
  cases readonly <;> cases lowPriority <;> decide

section Meaning

variable (front : List Opt)

@[simp] theorem lastOf_append {α : Type} (kind : Opt → Option α) (option : Opt) :
    lastOf kind (front ++ [option]) = (kind option).or (lastOf kind front) := by
  rw [lastOf, List.filterMap_append, List.getLast?_append]
  cases said : kind option with
  | none => simp [lastOf, said]
  | some value => simp [said]

@[simp] theorem given_append (flag : Flag) (option : Opt) :
    given flag (front ++ [option]) = (given flag front || option.flag? = some flag) := by
  simp [given]

theorem meaning_append (option : Opt) :
    meaning (front ++ [option]) = option.say (meaning front) := by
  cases option with
  | action which => simp [meaning, Opt.say]
  | flag which =>
    cases which <;> simp [meaning, Opt.say]
  | maxBytes size => simp [meaning, Opt.say]
  | maxLines size => simp [meaning, Opt.say]
  | detachKey key nonempty => simp [meaning, Opt.say]
  | unknown arg strange => simp [meaning, Opt.say]

theorem meaning_eq (options : List Opt) :
    meaning options = options.foldl (fun opts option => option.say opts) .start := by
  induction options using List.reverseRecOn with
  | nil => rfl
  | append_singleton front last ih => rw [meaning_append, ih, List.foldl_concat]

end Meaning

/-! ## The loop of the Rust program -/

attribute [local simp] parseLoop

section Rust

variable {opts : Opts} {more : List C.Arg}

theorem dash_utf8 {letter : UInt8} (small : letter < 128) (some : letter ≠ 0) :
    (dash letter some).Utf8 := by
  apply utf8_of_ascii
  intro byte member
  rcases List.mem_pair.mp member with rfl | rfl
  · decide
  · exact small

theorem Action.letter_small (action : Action) : action.letter < 128 := by cases action <;> decide

theorem Flag.letter_small (flag : Flag) : flag.letter < 128 := by cases flag <;> decide

theorem Size.utf8 (size : Size) : size.arg.Utf8 := utf8_of_digits size.numeral

theorem parseSize_size (size : Size) : parseSize size.arg.bytes = .ok (decimal size.digits) := by
  have unsigned : size.digits.head? ≠ some 43 := fun plus =>
    absurd (size.numeral 43 (List.mem_of_head? plus)) (by decide)
  have usize : parseUsize size.arg.bytes = some (decimal size.digits) := by
    rw [parseUsize, Size.arg]
    dsimp only
    rw [if_neg unsigned]
    exact if_pos ⟨size.nonempty, List.all_eq_true.mpr size.numeral, size.fits⟩
  rw [parseSize, usize]

theorem parseLoop_action (action : Action) :
    parseLoop (dash action.letter action.letter_ne :: more) opts =
      parseLoop more { opts with action := some action } := by
  rw [parseLoop.eq_def]
  dsimp only
  rw [if_neg (not_not.mpr (dash_utf8 action.letter_small _))]
  cases action <;> rfl

theorem parseLoop_flag (flag : Flag) :
    parseLoop (dash flag.letter flag.letter_ne :: more) opts =
      parseLoop more ((Opt.flag flag).say opts) := by
  rw [parseLoop.eq_def]
  dsimp only
  rw [if_neg (not_not.mpr (dash_utf8 flag.letter_small _))]
  cases flag <;> rfl

theorem parseLoop_maxBytes (size : Size) :
    parseLoop (dash 78 bytesLetter_ne :: size.arg :: more) opts =
      parseLoop more { opts with maxBytes := decimal size.digits } := by
  rw [parseLoop, if_neg (not_not.mpr (dash_utf8 (by decide) _))]
  change (if ¬ size.arg.Utf8 then _ else _) = _
  rw [if_neg (not_not.mpr size.utf8), parseSize_size]

theorem parseLoop_maxLines (size : Size) :
    parseLoop (dash 76 linesLetter_ne :: size.arg :: more) opts =
      parseLoop more { opts with maxLines := decimal size.digits } := by
  rw [parseLoop, if_neg (not_not.mpr (dash_utf8 (by decide) _))]
  change (if ¬ size.arg.Utf8 then _ else _) = _
  rw [if_neg (not_not.mpr size.utf8), parseSize_size]

theorem parseLoop_detachKey (key : C.Arg) :
    parseLoop (dash 101 keyLetter_ne :: key :: more) opts =
      if key.Utf8 then parseLoop more { opts with detachKey := parseDetachKey key.bytes }
      else .error .panics := by
  rw [parseLoop, if_neg (not_not.mpr (dash_utf8 (by decide) _))]
  change (if ¬ key.Utf8 then _ else _) = _
  by_cases utf8 : key.Utf8
  · rw [if_neg (not_not.mpr utf8), if_pos utf8]
  · rw [if_pos utf8, if_neg utf8]

theorem parseDetachKey_eq {bytes : List UInt8} (nonempty : bytes ≠ []) :
    parseDetachKey bytes = keyOf bytes := by
  obtain ⟨first, rest, rfl⟩ := List.exists_cons_of_ne_nil nonempty
  rfl

theorem parseLoop_panics {arg : C.Arg} (strange : ¬ arg.Utf8) :
    parseLoop (arg :: more) opts = .error .panics := by
  rw [parseLoop.eq_def]
  exact if_pos strange

theorem unknown_ne {letter known : UInt8} {rest text : List UInt8}
    (strange : letter ∉ ascii "aAcdKNLxlnefpqrv") (option : text = [45, known])
    (member : known ∈ ascii "aAcdKNLxlnefpqrv") : 45 :: letter :: rest ≠ text := by
  rintro rfl
  rw [List.cons.injEq, List.cons.injEq] at option
  rw [option.2.1] at strange
  exact strange member

theorem unknown_not_prefix {letter known : UInt8} {rest text : List UInt8}
    (strange : letter ∉ ascii "aAcdKNLxlnefpqrv") (option : text = [45, known])
    (member : known ∈ ascii "aAcdKNLxlnefpqrv") :
    ¬ (text <+: 45 :: letter :: rest ∧ (45 :: letter :: rest).length > 2) := by
  rintro ⟨⟨more, same⟩, _⟩
  rw [option, List.cons_append, List.cons_append, List.cons.injEq, List.cons.injEq] at same
  rw [← same.2.1] at strange
  exact strange member

theorem parseLoop_unknown {arg : C.Arg} (utf8 : arg.Utf8) (unknown : Unknown arg.bytes) :
    parseLoop (arg :: more) opts = .error .usage := by
  obtain ⟨letter, rest, bytes, strange, long⟩ := unknown
  have option : ¬ (¬ ascii "-" <+: 45 :: letter :: rest ∨ 45 :: letter :: rest = ascii "-") := by
    rintro (other | same)
    · exact other ⟨letter :: rest, rfl⟩
    · cases same
  rw [parseLoop.eq_def]
  dsimp only
  rw [if_neg (not_not.mpr utf8), bytes, if_neg option]
  simp (disch := (first
    | (refine unknown_ne strange rfl ?_; decide)
    | (refine unknown_not_prefix strange rfl ?_; decide))) only [if_neg]

theorem parseLoop_name (operands : Operands) (utf8 : operands.name.Utf8) :
    parseLoop (operands.name :: operands.rest) opts =
      if ∀ arg ∈ operands.rest, arg.Utf8 then
        .ok { opts with name := some operands.name, rest := operands.rest }
      else .error .panics := by
  have name : ¬ ascii "-" <+: operands.name.bytes ∨ operands.name.bytes = ascii "-" := by
    refine operands.plain.imp_left fun other => ?_
    rintro ⟨rest, bytes⟩
    exact other (by rw [← bytes]; rfl)
  rw [parseLoop.eq_def]
  exact (if_neg (not_not.mpr utf8)).trans (if_pos name)

def Opts.behind (operands : Option Operands) (opts : Opts) : Opts :=
  match operands with
  | none => opts
  | some operands => { opts with name := some operands.name, rest := operands.rest }

theorem parseLoop_known {option : Opt} (known : option.known = true)
    (utf8 : ∀ arg ∈ option.args, arg.Utf8) :
    parseLoop (option.args ++ more) opts = parseLoop more (option.say opts) := by
  cases option with
  | action which => exact parseLoop_action which
  | flag which => exact parseLoop_flag which
  | maxBytes size => exact parseLoop_maxBytes size
  | maxLines size => exact parseLoop_maxLines size
  | detachKey key nonempty =>
    have read : key.Utf8 := utf8 key (by simp [Opt.args])
    exact (parseLoop_detachKey key).trans (by rw [if_pos read, parseDetachKey_eq nonempty]; rfl)
  | unknown arg strange => cases known

theorem parseLoop_strange {option : Opt} (strange : option.known = false)
    (utf8 : ∀ arg ∈ option.args, arg.Utf8) :
    parseLoop (option.args ++ more) opts = .error .usage := by
  cases option with
  | unknown arg unknown => exact parseLoop_unknown (utf8 arg List.mem_cons_self) unknown
  | action | flag | maxBytes | maxLines | detachKey => cases strange

theorem dash_read {letter : UInt8} (small : letter < 128) (some : letter ≠ 0) :
    ∀ arg ∈ [dash letter some], arg.Utf8 := by
  intro arg member
  rw [List.mem_singleton.mp member]
  exact dash_utf8 small some

theorem size_read {letter : UInt8} (small : letter < 128) (some : letter ≠ 0) (size : Size) :
    ∀ arg ∈ [dash letter some, size.arg], arg.Utf8 := by
  intro arg member
  rcases List.mem_pair.mp member with rfl | rfl
  · exact dash_utf8 small some
  · exact size.utf8

theorem parseLoop_unread {option : Opt} (strange : ¬ ∀ arg ∈ option.args, arg.Utf8) :
    parseLoop (option.args ++ more) opts = .error .panics := by
  cases option with
  | action which => exact absurd (dash_read which.letter_small _) strange
  | flag which => exact absurd (dash_read which.letter_small _) strange
  | maxBytes size => exact absurd (size_read (by decide) _ size) strange
  | maxLines size => exact absurd (size_read (by decide) _ size) strange
  | detachKey key nonempty =>
    refine (parseLoop_detachKey key).trans (if_neg fun read => strange ?_)
    intro arg member
    rcases List.mem_pair.mp member with rfl | rfl
    · exact dash_utf8 (by decide) _
    · exact read
  | unknown arg unknown =>
    refine parseLoop_panics fun read => strange ?_
    intro other member
    rw [List.mem_singleton.mp member]
    exact read

end Rust

/-- Every argument that is read is UTF-8. Nothing is read after an option that is unknown. -/
def Readable : List Opt → List C.Arg → Prop
  | [], operands => ∀ arg ∈ operands, arg.Utf8
  | option :: options, operands =>
    (∀ arg ∈ option.args, arg.Utf8) ∧ (option.known = true → Readable options operands)

theorem parseLoop_operands (operands : Option Operands) (opts : Opts) :
    parseLoop (operandArgs operands) opts =
      if ∀ arg ∈ operandArgs operands, arg.Utf8 then .ok (opts.behind operands)
      else .error .panics := by
  cases operands with
  | none => simp [operandArgs, parseLoop, Opts.behind]
  | some operands =>
    rw [operandArgs]
    by_cases utf8 : operands.name.Utf8
    · simp only [parseLoop_name operands utf8, List.forall_mem_cons, utf8, true_and, Opts.behind]
    · rw [parseLoop_panics utf8, if_neg]
      exact fun read => utf8 (read _ List.mem_cons_self)

theorem parseLoop_line (options : List Opt) (operands : Option Operands) (opts : Opts) :
    (¬ Readable options (operandArgs operands) →
        parseLoop (options.flatMap Opt.args ++ operandArgs operands) opts = .error .panics) ∧
      (Readable options (operandArgs operands) →
        parseLoop (options.flatMap Opt.args ++ operandArgs operands) opts =
          if options.all Opt.known then
            .ok ((options.foldl (fun opts option => option.say opts) opts).behind operands)
          else .error .usage) := by
  induction options generalizing opts with
  | nil =>
    rw [List.flatMap_nil, List.nil_append, parseLoop_operands]
    exact ⟨fun strange => if_neg strange, fun readable => if_pos readable⟩
  | cons option options ih =>
    rw [List.flatMap_cons, List.append_assoc, Readable]
    by_cases read : ∀ arg ∈ option.args, arg.Utf8
    · rw [and_iff_right read]
      cases known : option.known with
      | true =>
        rw [parseLoop_known known read, List.all_cons, known, Bool.true_and, List.foldl_cons]
        simpa using ih (option.say opts)
      | false =>
        rw [parseLoop_strange known read, List.all_cons, known, Bool.false_and]
        simp
    · rw [parseLoop_unread read]
      exact ⟨fun _ => rfl, fun readable => absurd readable.1 read⟩

end Lich
