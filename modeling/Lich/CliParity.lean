import Lich.CommandLine

/-! When the two programs take a command line alike.

Their loops over the options agree. What differs is the order of what comes after: the
Rust program checks the options before it looks for a terminal, and leaves
passthrough at that.
-/

set_option autoImplicit false

namespace Lich

open Foundation

namespace C

/-- The same options, as the C program keeps them. -/
def Config.of (opts : Opts) : Config :=
  ⟨opts.action, opts.literal, opts.maxBytes, opts.maxLines, opts.force, opts.passthrough,
    opts.quiet, opts.flags, opts.detachKey⟩

/-! ## The loop of the C program -/

section Loop

variable {opts : Opts} {more : List Arg}

theorem optionLoop_option {scan scan' : Scan} {letter : UInt8} {optarg : Option (List UInt8)}
    (got : getopt optstring scan = (.option letter optarg, scan')) (c : Config) :
    optionLoop scan c =
      match c.take letter optarg with
      | .ok c => optionLoop scan' c
      | .error why => .error why := by
  rw [optionLoop]
  split
  · next letter' optarg' scan'' got' =>
    cases got.symm.trans got'
    rfl
  · next scan'' got' => cases got.symm.trans got'
  · next scan'' got' => cases got.symm.trans got'

theorem optionLoop_unknown {scan scan' : Scan} (got : getopt optstring scan = (.unknown, scan'))
    (c : Config) : optionLoop scan c = .error .usage := by
  rw [optionLoop]
  split
  · next got' => cases got.symm.trans got'
  · rfl
  · next got' => cases got.symm.trans got'

theorem optionLoop_done {scan scan' : Scan} (got : getopt optstring scan = (.done, scan'))
    (c : Config) : optionLoop scan c = .ok (c, scan'.args) := by
  rw [optionLoop]
  split
  · next got' => cases got.symm.trans got'
  · next got' => cases got.symm.trans got'
  · next got' =>
    cases got.symm.trans got'
    rfl

theorem getopt_arg (arg : Arg) :
    getopt optstring ⟨[], arg :: more⟩ =
      match arg.bytes with
      | 45 :: letter :: next =>
        if letter = 45 ∧ next = [] then (.done, ⟨[], more⟩)
        else scanLetter optstring letter next more
      | _ => (.done, ⟨[], arg :: more⟩) :=
  rfl

theorem getopt_dash {arg : Arg} {letter : UInt8} {next : List UInt8}
    (bytes : arg.bytes = 45 :: letter :: next) (other : letter = 45 → next ≠ []) :
    getopt optstring ⟨[], arg :: more⟩ = scanLetter optstring letter next more := by
  rw [getopt_arg, bytes]
  exact if_neg fun both => other both.1 both.2

theorem getopt_letter {letter : UInt8} (takes : takesValue optstring letter = some false)
    (some : letter ≠ 0) (other : letter ≠ 45) :
    getopt optstring ⟨[], dash letter some :: more⟩ = (.option letter none, ⟨[], more⟩) := by
  rw [getopt_dash rfl fun same => absurd same other, scanLetter_letter takes]

theorem getopt_value {letter : UInt8} (takes : takesValue optstring letter = some true)
    (some : letter ≠ 0) (other : letter ≠ 45) (value : Arg) :
    getopt optstring ⟨[], dash letter some :: value :: more⟩ =
      (.option letter (.some value.bytes), ⟨[], more⟩) := by
  rw [getopt_dash rfl fun same => absurd same other, scanLetter_value takes]

theorem getopt_strange {arg : Arg} (unknown : Unknown arg.bytes) :
    ∃ scan, getopt optstring ⟨[], arg :: more⟩ = (.unknown, scan) := by
  obtain ⟨letter, rest, bytes, strange, long⟩ := unknown
  have known : optstring.all (fun option =>
      option = 58 || (ascii "aAcdKNLxlnefpqrv").contains option) = true := by decide
  have none : takesValue optstring letter = none := by
    apply takesValue_none
    intro member
    have option := List.all_eq_true.mp known letter member
    simpa [strange] using option
  rw [getopt_dash bytes long, scanLetter_unknown none]
  exact ⟨_, rfl⟩

theorem getopt_operands (operands : Option Operands) :
    getopt optstring ⟨[], operandArgs operands⟩ = (.done, ⟨[], operandArgs operands⟩) := by
  cases operands with
  | none => rfl
  | some operands =>
    rw [operandArgs, getopt_arg]
    split
    · next letter next bytes =>
      rcases operands.plain with head | alone
      · exact absurd (congrArg List.head? bytes) head
      · rw [bytes] at alone
        cases alone
    · rfl

theorem optionLoop_action (action : Action) :
    optionLoop ⟨[], dash action.letter action.letter_ne :: more⟩ (.of opts) =
      optionLoop ⟨[], more⟩ (.of { opts with action := some action }) := by
  have takes : takesValue optstring action.letter = some false := by cases action <;> decide
  have other : action.letter ≠ 45 := by cases action <;> decide
  rw [optionLoop_option (getopt_letter takes action.letter_ne other)]
  cases action <;> rfl

theorem optionLoop_flag (flag : Flag) :
    optionLoop ⟨[], dash flag.letter flag.letter_ne :: more⟩ (.of opts) =
      optionLoop ⟨[], more⟩ (.of ((Opt.flag flag).say opts)) := by
  have takes : takesValue optstring flag.letter = some false := by cases flag <;> decide
  have other : flag.letter ≠ 45 := by cases flag <;> decide
  rw [optionLoop_option (getopt_letter takes flag.letter_ne other)]
  cases flag <;> rfl

theorem isSpace_digit {byte : UInt8} (digit : isDigit byte = true) : isSpace byte = false := by
  have low : 48 ≤ byte.toNat := (isDigit_bounds digit).1
  have other : byte ≠ 32 := by
    rintro rfl
    exact absurd low (by decide)
  have high : ¬ byte ≤ 13 := by
    intro small
    have small : byte.toNat ≤ 13 := small
    omega
  simp [isSpace, other, high]

theorem strtoull_size (size : Size) : strtoull size.digits = (decimal size.digits, [], false) := by
  have fits := size.fits
  have front : size.digits.dropWhile isSpace = size.digits := by
    obtain ⟨first, later, same⟩ := List.exists_cons_of_ne_nil size.nonempty
    have digit := isSpace_digit (size.numeral first (by rw [same]; exact List.mem_cons_self))
    rw [same, List.dropWhile_cons_of_neg (by rw [digit]; decide)]
  have unsigned : ¬ (size.digits.head? = some 43 ∨ size.digits.head? = some 45) := by
    rintro (sign | sign)
    · exact absurd (size.numeral _ (List.mem_of_head? sign)) (by decide)
    · exact absurd (size.numeral _ (List.mem_of_head? sign)) (by decide)
  have digits : size.digits.takeWhile isDigit = size.digits :=
    List.takeWhile_eq_self_iff.mpr size.numeral
  have rest : size.digits.dropWhile isDigit = [] := List.dropWhile_eq_nil_iff.mpr size.numeral
  rw [strtoull, front, if_neg unsigned, digits, rest, if_neg size.nonempty, if_neg (by omega),
    if_neg fun minus => unsigned (.inr minus)]

theorem parseSizeArg_size (size : Size) : parseSizeArg size.digits = .ok (decimal size.digits) := by
  have fits := size.fits
  rw [parseSizeArg, strtoull_size]
  dsimp only
  rw [if_neg (by simp [size.nonempty]), if_neg (by omega)]

theorem optionLoop_maxBytes (size : Size) :
    optionLoop ⟨[], dash 78 bytesLetter_ne :: size.arg :: more⟩ (.of opts) =
      optionLoop ⟨[], more⟩ (.of { opts with maxBytes := decimal size.digits }) := by
  have took : Config.take 78 (some size.digits) (.of opts) =
      (parseSizeArg size.digits).map fun value => { Config.of opts with dumpMaxBytes := value } := rfl
  rw [optionLoop_option (getopt_value (by decide) bytesLetter_ne (by decide) size.arg), Size.arg,
    took, parseSizeArg_size]
  rfl

theorem optionLoop_maxLines (size : Size) :
    optionLoop ⟨[], dash 76 linesLetter_ne :: size.arg :: more⟩ (.of opts) =
      optionLoop ⟨[], more⟩ (.of { opts with maxLines := decimal size.digits }) := by
  have took : Config.take 76 (some size.digits) (.of opts) =
      (parseSizeArg size.digits).map fun value => { Config.of opts with dumpMaxLines := value } := rfl
  rw [optionLoop_option (getopt_value (by decide) linesLetter_ne (by decide) size.arg), Size.arg,
    took, parseSizeArg_size]
  rfl

theorem detachOf_terminated {key : Arg} (nonempty : key.bytes ≠ []) :
    detachOf (terminated key.bytes) = keyOf key.bytes := by
  obtain ⟨bytes, noNul⟩ := key
  rcases bytes with _ | ⟨first, _ | ⟨second, later⟩⟩
  · exact absurd rfl nonempty
  · exact (if_neg fun both => both.2 rfl).trans (if_neg fun both => absurd both.1 (by simp)).symm
  · have some : second ≠ 0 := fun same => noNul (by simp [same])
    change (if first = 94 ∧ second ≠ 0 then ctrl second else first) =
      if later.length + 1 + 1 ≥ 2 ∧ first = 94 then second &&& 0x1f else first
    by_cases caret : first = 94
    · rw [if_pos ⟨caret, some⟩, if_pos ⟨Nat.le_add_left 2 later.length, caret⟩]
      rfl
    · rw [if_neg fun both => caret both.1, if_neg fun both => caret both.2]

theorem optionLoop_detachKey {key : Arg} (nonempty : key.bytes ≠ []) :
    optionLoop ⟨[], dash 101 keyLetter_ne :: key :: more⟩ (.of opts) =
      optionLoop ⟨[], more⟩ (.of { opts with detachKey := keyOf key.bytes }) := by
  rw [optionLoop_option (getopt_value (by decide) keyLetter_ne (by decide) key),
    ← detachOf_terminated nonempty]
  rfl

theorem optionLoop_line (options : List Opt) (operands : Option Operands) (opts : Opts) :
    optionLoop ⟨[], options.flatMap Opt.args ++ operandArgs operands⟩ (.of opts) =
      if options.all Opt.known then
        .ok (.of (options.foldl (fun opts option => option.say opts) opts), operandArgs operands)
      else .error .usage := by
  induction options generalizing opts with
  | nil =>
    rw [List.flatMap_nil, List.nil_append, optionLoop_done (getopt_operands operands)]
    rfl
  | cons option options ih =>
    rw [List.flatMap_cons, List.append_assoc, List.all_cons, List.foldl_cons]
    cases option with
    | action which => exact (optionLoop_action which).trans (ih _)
    | flag which => exact (optionLoop_flag which).trans (ih _)
    | maxBytes size => exact (optionLoop_maxBytes size).trans (ih _)
    | maxLines size => exact (optionLoop_maxLines size).trans (ih _)
    | detachKey key nonempty => exact (optionLoop_detachKey nonempty).trans (ih _)
    | unknown arg unknown =>
      obtain ⟨scan, got⟩ := getopt_strange unknown
      exact optionLoop_unknown got _

end Loop

end C

/-! ## What both programs refuse -/

/-- Sizes without a dump or both at once, literal keys where none are sent, a dump with
arguments behind the name, or no keys. -/
def Opts.Refused (opts : Opts) : Prop :=
  opts.maxBytes ≠ 0 ∧ opts.maxLines ≠ 0 ∨
    opts.action ≠ some .dump ∧ (opts.maxBytes ≠ 0 ∨ opts.maxLines ≠ 0) ∨
    opts.action ≠ some .sendKeys ∧ opts.literal = true ∨
    opts.action = some .dump ∧ opts.rest ≠ [] ∨
    opts.action = some .sendKeys ∧ opts.rest = []

/-- A command that takes standard input for what is typed, where it is no terminal. -/
def Opts.Pipes (said : Opts) (tty : Bool) : Prop :=
  tty = false ∧ ¬ (said.action = some .dump ∨ said.action = some .sendKeys)

/-- Passthrough is asked for only where it makes no difference. -/
def Opts.Agreeing (said : Opts) (tty : Bool) : Option Operands → Prop
  | none =>
    said.action ≠ none ∨
      (said.passthrough = true ↔ said.maxBytes ≠ 0 ∨ said.maxLines ≠ 0 ∨ said.literal = true)
  | some operands =>
    (said.behind (some operands)).Refused ∨ said.Pipes tty ∨ said.passthrough = false ∨
      said.action ≠ none ∧ said.quiet = true ∧ said.flags ||| clientLowpriority = said.flags

section Ends

variable {tty : Bool} {said : Opts} {operands : Operands}

def Opts.ends (tty : Bool) (opts : Opts) : Decision :=
  match opts.checked with
  | .ok opts => (opts.piped tty).select
  | .error why => .stop why

def C.Config.ends (tty : Bool) (operands : List C.Arg) (c : C.Config) : Decision :=
  if c.counted operands then (c.piped tty operands).select operands else .stop .usage

theorem Opts.checked_refused {opts : Opts} (refused : opts.Refused) :
    opts.checked = .error .usage := by
  rw [Opts.checked]
  split_ifs with both sized literal dump keys
  · rfl
  · rfl
  · rfl
  · rfl
  · rfl
  · rcases refused with h | h | h | h | h
    · exact absurd h both
    · exact absurd h sized
    · exact absurd h literal
    · exact absurd h dump
    · exact absurd h keys

theorem Opts.checked_fine {opts : Opts} (fine : ¬ opts.Refused) : opts.checked = .ok opts := by
  simp only [Opts.Refused, not_or] at fine
  obtain ⟨both, sized, literal, dump, keys⟩ := fine
  rw [Opts.checked, if_neg both, if_neg sized, if_neg literal, if_neg dump, if_neg keys]

def C.Config.Refused (c : C.Config) : Prop :=
  c.dumpMaxBytes ≠ 0 ∧ c.dumpMaxLines ≠ 0 ∨
    c.action ≠ some .dump ∧ (c.dumpMaxBytes ≠ 0 ∨ c.dumpMaxLines ≠ 0) ∨
    c.action ≠ some .sendKeys ∧ c.keyLiteral = true

theorem C.Config.piped_action {action : Action} (other : action ≠ .attach) (args : List C.Arg)
    (c : C.Config) : (c.piped tty args).action = some action ↔ c.action = some action := by
  unfold C.Config.piped
  split_ifs
  · cases c.action with
    | none => simp [other.symm]
    | some given => rfl
  · rfl

theorem C.Config.piped_refused (tty : Bool) (args : List C.Arg) (c : C.Config) :
    (c.piped tty args).Refused ↔ c.Refused := by
  have dump : Action.dump ≠ .attach := by decide
  have keys : Action.sendKeys ≠ .attach := by decide
  have bytes : (c.piped tty args).dumpMaxBytes = c.dumpMaxBytes := by
    unfold C.Config.piped
    split_ifs <;> rfl
  have lines : (c.piped tty args).dumpMaxLines = c.dumpMaxLines := by
    unfold C.Config.piped
    split_ifs <;> rfl
  have literal : (c.piped tty args).keyLiteral = c.keyLiteral := by
    unfold C.Config.piped
    split_ifs <;> rfl
  simp only [C.Config.Refused, ne_eq, bytes, lines, literal, C.Config.piped_action dump,
    C.Config.piped_action keys]

theorem C.Config.select_refused {name : C.Arg} {rest : List C.Arg} {c : C.Config}
    (refused : c.Refused) : c.select (name :: rest) = .stop .usage := by
  unfold C.Config.Refused at refused
  unfold C.Config.select
  cases action : c.action with
  | none => rfl
  | some given =>
    rw [action] at refused
    dsimp only
    split_ifs with both sized literal
    · rfl
    · rfl
    · rfl
    · rcases refused with h | h | h
      · exact absurd h both
      · exact absurd h sized
      · exact absurd h literal

theorem C.Config.select_given {name : C.Arg} {rest : List C.Arg} {c : C.Config} {action : Action}
    (given : c.action = some action) (valid : ¬ c.Refused) :
    c.select (name :: rest) = .run ⟨action, name, rest, c.dumpMaxBytes, c.dumpMaxLines,
      c.keyLiteral, c.flags, c.quiet, c.passthrough, c.force, c.keyDetach⟩ := by
  rw [C.Config.Refused, not_or, not_or] at valid
  unfold C.Config.select
  rw [given] at valid ⊢
  dsimp only
  rw [if_neg valid.1, if_neg valid.2.1, if_neg valid.2.2]

theorem C.Config.counted_iff :
    (C.Config.of said).counted (operandArgs (some operands)) = true ↔
      ¬ (said.action = some .dump ∧ operands.rest ≠ [] ∨
        said.action = some .sendKeys ∧ operands.rest = []) := by
  have action : (C.Config.of said).action = said.action := rfl
  unfold C.Config.counted
  rw [action]
  cases given : said.action with
  | none => simp
  | some action => cases action <;> simp [operandArgs, Nat.one_le_iff_ne_zero]

theorem Opts.refused_iff :
    (said.behind (some operands)).Refused ↔
      (C.Config.of said).Refused ∨
        ¬ (C.Config.of said).counted (operandArgs (some operands)) = true := by
  rw [C.Config.counted_iff, not_not, Opts.Refused, C.Config.Refused, or_assoc, or_assoc]
  rfl

theorem C.Config.ends_refused (refused : (said.behind (some operands)).Refused) :
    (C.Config.of said).ends tty (operandArgs (some operands)) = .stop .usage := by
  rw [C.Config.ends]
  by_cases counted : (C.Config.of said).counted (operandArgs (some operands)) = true
  · rw [if_pos counted, operandArgs]
    apply C.Config.select_refused
    rw [C.Config.piped_refused]
    exact (Opts.refused_iff.mp refused).resolve_right fun other => other counted
  · rw [if_neg counted]

def Opts.plain (said : Opts) (operands : Operands) : Decision :=
  match said.action with
  | none => .stop .usage
  | some action =>
    .run ⟨action, operands.name, operands.rest, said.maxBytes, said.maxLines, said.literal,
      said.flags, said.quiet, said.passthrough, said.force, said.detachKey⟩

def Opts.lowered (said : Opts) (operands : Operands) : Decision :=
  .run ⟨said.action.getD .attach, operands.name, operands.rest, said.maxBytes, said.maxLines,
    said.literal, said.flags ||| clientLowpriority, true, true, said.force, said.detachKey⟩

theorem Opts.ends_refused {opts : Opts} (refused : opts.Refused) :
    opts.ends tty = .stop .usage := by
  rw [Opts.ends, Opts.checked_refused refused]

theorem Opts.ends_of_pipes (fine : ¬ (said.behind (some operands)).Refused)
    (pipes : said.Pipes tty) :
    (said.behind (some operands)).ends tty = said.lowered operands := by
  rw [Opts.ends, Opts.checked_fine fine]
  dsimp only
  rw [Opts.piped, if_pos ⟨by simp [Opts.behind], pipes⟩]
  rfl

theorem Opts.ends_of_not_pipes (fine : ¬ (said.behind (some operands)).Refused)
    (terminal : ¬ said.Pipes tty) :
    (said.behind (some operands)).ends tty = said.plain operands := by
  rw [Opts.ends, Opts.checked_fine fine]
  dsimp only
  rw [Opts.piped, if_neg fun pipes => terminal pipes.2, Opts.plain]
  cases action : said.action with
  | none => simp only [Opts.select, Opts.behind, action]
  | some given => simp only [Opts.select, Opts.behind, action]

theorem C.Config.ends_of_passes (fine : ¬ (said.behind (some operands)).Refused)
    (passes : said.passthrough = true ∨ said.Pipes tty) :
    (C.Config.of said).ends tty (operandArgs (some operands)) = said.lowered operands := by
  rw [Opts.refused_iff, not_or, not_not] at fine
  have still := (C.Config.piped_refused tty (operands.name :: operands.rest) _).not.mpr fine.1
  have lowered : (C.Config.of said).piped tty (operands.name :: operands.rest) =
      { C.Config.of said with
        passthrough := true
        action := some (said.action.getD .attach)
        quiet := true
        flags := said.flags ||| clientLowpriority } := by
    rw [C.Config.piped, if_pos]
    · rfl
    · exact passes.imp_right fun pipes => ⟨List.cons_ne_nil _ _, pipes.1, not_or.mp pipes.2⟩
  rw [lowered] at still
  rw [C.Config.ends, if_pos fine.2, operandArgs, lowered]
  exact C.Config.select_given rfl still

theorem C.Config.ends_of_not_passes (fine : ¬ (said.behind (some operands)).Refused)
    (quiet : ¬ (said.passthrough = true ∨ said.Pipes tty)) :
    (C.Config.of said).ends tty (operandArgs (some operands)) = said.plain operands := by
  have still : (C.Config.of said).piped tty (operands.name :: operands.rest) = C.Config.of said := by
    rw [C.Config.piped, if_neg]
    rintro (asked | ⟨_, pipes⟩)
    · exact quiet (.inl asked)
    · exact quiet (.inr ⟨pipes.1, not_or.mpr pipes.2⟩)
  rw [Opts.refused_iff, not_or, not_not] at fine
  rw [C.Config.ends, if_pos fine.2, operandArgs, still, Opts.plain]
  cases action : said.action with
  | none =>
    unfold C.Config.select
    rw [show (C.Config.of said).action = none from action]
  | some given => exact C.Config.select_given action fine.1

theorem Opts.plain_eq_lowered (asked : said.passthrough = true) :
    said.plain operands = said.lowered operands ↔
      said.action ≠ none ∧ said.quiet = true ∧ said.flags ||| clientLowpriority = said.flags := by
  rw [Opts.plain, Opts.lowered]
  cases said.action with
  | none => simp
  | some action =>
    have flags : said.flags = said.flags ||| clientLowpriority ↔
      said.flags ||| clientLowpriority = said.flags := eq_comm
    simp [asked, flags, and_comm]

theorem ends_agree_named :
    (said.behind (some operands)).ends tty =
        (C.Config.of said).ends tty (operandArgs (some operands)) ↔
      said.Agreeing tty (some operands) := by
  rw [Opts.Agreeing]
  by_cases refused : (said.behind (some operands)).Refused
  · simp [Opts.ends_refused refused, C.Config.ends_refused refused, refused]
  · by_cases pipes : said.Pipes tty
    · simp [Opts.ends_of_pipes refused pipes, C.Config.ends_of_passes refused (.inr pipes), pipes]
    · rw [Opts.ends_of_not_pipes refused pipes]
      cases asked : said.passthrough with
      | false =>
        have still : ¬ (said.passthrough = true ∨ said.Pipes tty) := by simp [asked, pipes]
        simp [C.Config.ends_of_not_passes refused still]
      | true =>
        rw [C.Config.ends_of_passes refused (.inl asked), Opts.plain_eq_lowered asked]
        simp [refused, pipes]

theorem Opts.ends_unnamed (name : said.name = none) :
    said.ends tty =
      if said.action = none ∧ ¬ (said.maxBytes ≠ 0 ∨ said.maxLines ≠ 0 ∨ said.literal = true) then
        .list
      else .stop .usage := by
  have still : said.piped tty = said := if_neg fun pipes => pipes.1 name
  by_cases refused : said.Refused
  · rw [Opts.ends_refused refused, if_neg]
    rintro ⟨action, silent⟩
    rw [Opts.Refused, action] at refused
    rcases refused with both | sized | literal | ⟨⟨⟩, _⟩ | ⟨⟨⟩, _⟩
    · exact silent (.inl both.1)
    · exact silent (sized.2.imp_right .inl)
    · exact silent (.inr (.inr literal.2))
  · rw [Opts.ends, Opts.checked_fine refused]
    dsimp only
    rw [still, Opts.select, name]
    cases action : said.action with
    | some given => simp
    | none =>
      rw [if_pos]
      refine ⟨rfl, ?_⟩
      rintro (bytes | lines | literal)
      · exact refused (.inr (.inl ⟨by simp [action], .inl bytes⟩))
      · exact refused (.inr (.inl ⟨by simp [action], .inr lines⟩))
      · exact refused (.inr (.inr (.inl ⟨by simp [action], literal⟩)))

theorem C.Config.ends_unnamed (c : C.Config) :
    c.ends tty [] = if c.action = none ∧ c.passthrough = false then .list else .stop .usage := by
  have unnamed (action : Action) (c : C.Config) (given : c.action = some action) :
      c.select [] = .stop .usage := by
    unfold C.Config.select
    rw [given]
  have counted (none : c.action = none) : c.counted [] = true := by
    unfold C.Config.counted
    rw [none]
  by_cases list : c.action = none ∧ c.passthrough = false
  · have still : c.piped tty [] = c := if_neg (by simp [list.2])
    rw [if_pos list, C.Config.ends, if_pos (counted list.1), still]
    unfold C.Config.select
    rw [list.1]
  · rw [if_neg list, C.Config.ends]
    split_ifs
    · cases asked : c.passthrough with
      | true =>
        apply unnamed (c.action.getD .attach)
        unfold C.Config.piped
        rw [if_pos (.inl asked)]
      | false =>
        obtain ⟨given, action⟩ := Option.ne_none_iff_exists'.mp fun none => list ⟨none, asked⟩
        apply unnamed given
        have still : c.piped tty [] = c := if_neg (by simp [asked])
        rw [still, action]
    · rfl

theorem ends_agree_unnamed (name : said.name = none) :
    said.ends tty = (C.Config.of said).ends tty [] ↔ said.Agreeing tty none := by
  rw [Opts.ends_unnamed name, C.Config.ends_unnamed, Opts.Agreeing]
  have same : (C.Config.of said).action = said.action ∧
      (C.Config.of said).passthrough = said.passthrough := ⟨rfl, rfl⟩
  rw [same.1, same.2]
  by_cases action : said.action = none
  · by_cases silent : said.maxBytes ≠ 0 ∨ said.maxLines ≠ 0 ∨ said.literal = true
    · cases said.passthrough <;> simp [action, silent]
    · cases said.passthrough <;> simp [action, silent]
  · simp [action]

theorem ends_agree (name : said.name = none) (operands : Option Operands) :
    (said.behind operands).ends tty = (C.Config.of said).ends tty (operandArgs operands) ↔
      said.Agreeing tty operands := by
  cases operands with
  | none => exact ends_agree_unnamed name
  | some operands => exact ends_agree_named

theorem C.Config.select_ne_panics (args : List C.Arg) (c : C.Config) :
    c.select args ≠ .stop .panics := by
  unfold C.Config.select
  split
  · simp
  · split_ifs <;> simp
  · simp

theorem C.Config.ends_ne_panics (args : List C.Arg) (c : C.Config) :
    c.ends tty args ≠ .stop .panics := by
  unfold C.Config.ends
  split_ifs
  · exact C.Config.select_ne_panics _ _
  · simp

end Ends

/-! ## Command lines -/

section Lines

variable (tty : Bool) (line : CommandLine)

theorem realMain_unreadable (strange : ¬ Readable line.options (operandArgs line.operands)) :
    realMain tty line.args = .stop .panics := by
  rw [realMain, parseArgs, CommandLine.args, (parseLoop_line _ _ _).1 strange]
  rfl

theorem realMain_line (readable : Readable line.options (operandArgs line.operands)) :
    realMain tty line.args =
      if line.options.all Opt.known then ((meaning line.options).behind line.operands).ends tty
      else .stop .usage := by
  rw [realMain, parseArgs, CommandLine.args, (parseLoop_line _ _ _).2 readable, ← meaning_eq]
  split_ifs <;> rfl

theorem c_main_line :
    C.main tty line.args =
      if line.options.all Opt.known then
        (C.Config.of (meaning line.options)).ends tty (operandArgs line.operands)
      else .stop .usage := by
  rw [C.main, CommandLine.args, show C.Config.start = C.Config.of .start from rfl,
    C.optionLoop_line, ← meaning_eq]
  split_ifs <;> rfl

end Lines

-- The checks that come before the look at standard input see other options than those after it.
theorem cli_parity (tty : Bool) (line : CommandLine) :
    realMain tty line.args = C.main tty line.args ↔
      Readable line.options (operandArgs line.operands) ∧
        (line.options.all Opt.known = false ∨
          (meaning line.options).Agreeing tty line.operands) := by
  by_cases readable : Readable line.options (operandArgs line.operands)
  · rw [and_iff_right readable, realMain_line tty line readable, c_main_line]
    cases line.options.all Opt.known with
    | false => simp
    | true => simpa using ends_agree rfl line.operands
  · rw [realMain_unreadable tty line readable, c_main_line]
    refine ⟨fun same => ?_, fun both => absurd both.1 readable⟩
    split_ifs at same
    · exact absurd same.symm (C.Config.ends_ne_panics _ _)
    · cases same

def bareLiteral : CommandLine := ⟨[.flag .literal], none⟩

theorem bareLiteral_readable : Readable bareLiteral.options (operandArgs bareLiteral.operands) :=
  ⟨dash_read (by decide) _, fun _ => by simp [operandArgs, bareLiteral, Readable]⟩

theorem shortName_noNul : (0 : UInt8) ∉ [115] := by decide

theorem shortName_plain : ([115] : List UInt8).head? ≠ some 45 := by decide

def shortName : C.Arg := ⟨[115], shortName_noNul⟩

def passingAttach : CommandLine :=
  ⟨[.flag .passthrough, .action .attach], some ⟨shortName, .inl shortName_plain, []⟩⟩

theorem passingAttach_readable :
    Readable passingAttach.options (operandArgs passingAttach.operands) := by
  refine ⟨dash_read (by decide) _, fun _ => ⟨dash_read (by decide) _, fun _ arg member => ?_⟩⟩
  rw [List.mem_singleton.mp member]
  apply utf8_of_ascii
  intro byte member
  rw [List.mem_singleton.mp member]
  decide

/-- The C program lists the sessions on `-x`; with `-p -a` it is quiet and of low priority. -/
theorem decisions_differ :
    realMain true bareLiteral.args = .stop .usage ∧ C.main true bareLiteral.args = .list ∧
      realMain true passingAttach.args =
        .run ⟨.attach, shortName, [], 0, 0, false, 0, false, true, false, 0x1c⟩ ∧
      C.main true passingAttach.args =
        .run ⟨.attach, shortName, [], 0, 0, false, clientLowpriority, true, true, false, 0x1c⟩ ∧
      ¬ ∀ (tty : Bool) (line : CommandLine),
        Readable line.options (operandArgs line.operands) →
          realMain tty line.args = C.main tty line.args := by
  have refused : realMain true bareLiteral.args = .stop .usage := by
    rw [realMain_line true _ bareLiteral_readable]
    rfl
  have listed : C.main true bareLiteral.args = .list := by
    rw [c_main_line]
    rfl
  refine ⟨refused, listed, ?_, ?_, fun always => ?_⟩
  · rw [realMain_line true _ passingAttach_readable]
    rfl
  · rw [c_main_line]
    rfl
  · have same := always true bareLiteral bareLiteral_readable
    rw [refused, listed] at same
    cases same

end Lich
