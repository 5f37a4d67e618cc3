import Lich.OnlySockets
import Lich.Packet
import Lich.C.Keys
import Lich.Foundation.Decimal

/-! The command line: what `parse_args` and `real_main` make of it.

Arguments are bytes; `env::args` panics at one that is not UTF-8. Sizes are those of a
64-bit machine.
-/

set_option autoImplicit false

namespace Lich

open Foundation

deriving instance DecidableEq for C.Arg

def C.Arg.Utf8 (arg : C.Arg) : Prop := Foundation.Utf8 arg.bytes

instance (arg : C.Arg) : Decidable arg.Utf8 :=
  inferInstanceAs (Decidable (Foundation.Utf8 _))

/-- Why no command is run, and no session listed. -/
inductive Stop where
  | usage
  /-- after `-v` -/
  | version
  | panics
  deriving DecidableEq

structure Invocation where
  action : Action
  name : C.Arg
  rest : List C.Arg
  maxBytes : Nat
  maxLines : Nat
  literal : Bool
  flags : UInt32
  quiet : Bool
  passthrough : Bool
  force : Bool
  detachKey : UInt8
  deriving DecidableEq

inductive Decision where
  | list
  | run (invocation : Invocation)
  | stop (why : Stop)
  deriving DecidableEq

structure Opts where
  action : Option Action
  name : Option C.Arg
  rest : List C.Arg
  literal : Bool
  maxBytes : Nat
  maxLines : Nat
  flags : UInt32
  quiet : Bool
  force : Bool
  passthrough : Bool
  detachKey : UInt8
  deriving DecidableEq

def Opts.start : Opts := ⟨none, none, [], false, 0, 0, 0, false, false, false, 0x1c⟩

def parseUsize (bytes : List UInt8) : Option Nat :=
  let digits := if bytes.head? = some 43 then bytes.tail else bytes
  if digits ≠ [] ∧ digits.all isDigit ∧ decimal digits < 2 ^ 64 then some (decimal digits) else none

def parseSize (value : List UInt8) : Except Stop Nat :=
  match parseUsize value with
  | some size => .ok size
  | none => .error .usage

def parseDetachKey (key : List UInt8) : UInt8 :=
  if key.length ≥ 2 ∧ key.getD 0 0 = 94 then key.getD 1 0 &&& 0x1f else key.headD 0x1c

/-- The loop of `parse_args` over the arguments behind the program's name. -/
def parseLoop : List C.Arg → Opts → Except Stop Opts
  | [], opts => .ok opts
  | arg :: args, opts =>
    if ¬ arg.Utf8 then .error .panics
    else if ¬ ascii "-" <+: arg.bytes ∨ arg.bytes = ascii "-" then
      if ∀ later ∈ args, later.Utf8 then .ok { opts with name := some arg, rest := args }
      else .error .panics
    else if arg.bytes = ascii "-a" then parseLoop args { opts with action := some .attach }
    else if arg.bytes = ascii "-A" then parseLoop args { opts with action := some .attachOrCreate }
    else if arg.bytes = ascii "-c" then parseLoop args { opts with action := some .createAttach }
    else if arg.bytes = ascii "-n" then parseLoop args { opts with action := some .create }
    else if arg.bytes = ascii "-d" then parseLoop args { opts with action := some .dump }
    else if arg.bytes = ascii "-K" then parseLoop args { opts with action := some .sendKeys }
    else if arg.bytes = ascii "-x" then parseLoop args { opts with literal := true }
    else if arg.bytes = ascii "-q" then parseLoop args { opts with quiet := true }
    else if arg.bytes = ascii "-f" then parseLoop args { opts with force := true }
    else if arg.bytes = ascii "-p" then parseLoop args { opts with passthrough := true }
    else if arg.bytes = ascii "-r" then
      parseLoop args { opts with flags := opts.flags ||| clientReadonly }
    else if arg.bytes = ascii "-l" then
      parseLoop args { opts with flags := opts.flags ||| clientLowpriority }
    else if arg.bytes = ascii "-v" then .error .version
    else if arg.bytes = ascii "-N" then
      match args with
      | [] => .error .usage
      | value :: args =>
        if ¬ value.Utf8 then .error .panics
        else match parseSize value.bytes with
          | .ok size => parseLoop args { opts with maxBytes := size }
          | .error why => .error why
    else if arg.bytes = ascii "-L" then
      match args with
      | [] => .error .usage
      | value :: args =>
        if ¬ value.Utf8 then .error .panics
        else match parseSize value.bytes with
          | .ok size => parseLoop args { opts with maxLines := size }
          | .error why => .error why
    else if arg.bytes = ascii "-e" then
      match args with
      | [] => .error .usage
      | key :: args =>
        if ¬ key.Utf8 then .error .panics
        else parseLoop args { opts with detachKey := parseDetachKey key.bytes }
    else if ascii "-N" <+: arg.bytes ∧ arg.bytes.length > 2 then
      match parseSize (arg.bytes.drop 2) with
      | .ok size => parseLoop args { opts with maxBytes := size }
      | .error why => .error why
    else if ascii "-L" <+: arg.bytes ∧ arg.bytes.length > 2 then
      match parseSize (arg.bytes.drop 2) with
      | .ok size => parseLoop args { opts with maxLines := size }
      | .error why => .error why
    else .error .usage

/-- The checks at the end of `parse_args`. -/
def Opts.checked (opts : Opts) : Except Stop Opts :=
  if opts.maxBytes ≠ 0 ∧ opts.maxLines ≠ 0 then .error .usage
  else if opts.action ≠ some .dump ∧ (opts.maxBytes ≠ 0 ∨ opts.maxLines ≠ 0) then .error .usage
  else if opts.action ≠ some .sendKeys ∧ opts.literal = true then .error .usage
  else if opts.action = some .dump ∧ opts.rest ≠ [] then .error .usage
  else if opts.action = some .sendKeys ∧ opts.rest = [] then .error .usage
  else .ok opts

def parseArgs (args : List C.Arg) : Except Stop Opts :=
  (parseLoop args .start).bind Opts.checked

/-- What `real_main` does when standard input is no terminal. -/
def Opts.piped (tty : Bool) (opts : Opts) : Opts :=
  if opts.name ≠ none ∧ tty = false ∧
      ¬ (opts.action = some .dump ∨ opts.action = some .sendKeys) then
    { opts with
      passthrough := true
      quiet := true
      flags := opts.flags ||| clientLowpriority
      action := some (opts.action.getD .attach) }
  else opts

/-- The part of `real_main` behind `parse_args`. -/
def Opts.select (opts : Opts) : Decision :=
  match opts.action, opts.name with
  | none, none => .list
  | some action, some name =>
    .run ⟨action, name, opts.rest, opts.maxBytes, opts.maxLines, opts.literal, opts.flags,
      opts.quiet, opts.passthrough, opts.force, opts.detachKey⟩
  | _, _ => .stop .usage

def realMain (tty : Bool) (args : List C.Arg) : Decision :=
  match parseArgs args with
  | .ok opts => (opts.piped tty).select
  | .error why => .stop why

end Lich
