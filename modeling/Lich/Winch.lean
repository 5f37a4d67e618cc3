import Lich.Stdin

/-! The attached client, one step at a time, and the signal that its window has changed.

A step of `ClientLoop` is a whole iteration. Here the program stops wherever a
SIGWINCH makes a difference: before and after `send_resize` has found the size, before
and in `select`, and between `select` and what follows it. From there on the
model is that of `attach_session`, once MSG_ATTACH is sent.
-/

set_option autoImplicit false

namespace Lich

open Foundation

/-- Who calls `send_resize`. -/
inductive Asking where
  | attaching
  /-- the branch of EINTR -/
  | winch
  /-- the branch of the socket; standard input comes after it -/
  | server (stdin : Option (ReadAnswer 8192))
  deriving DecidableEq

/-- Where the program is, by what it does next. -/
inductive Point where
  /-- `current_winsize` -/
  | measure (asking : Asking)
  /-- `send_packet_blocking`, with the size as of that change -/
  | send (asking : Asking) (change : Nat)
  /-- `libc::signal` -/
  | handler
  /-- `RawMode::enter` -/
  | raw
  | head
  /-- in `select` -/
  | select
  /-- `WINCH_PENDING.swap` -/
  | interrupted
  | sock (sock : Option (Except IoError Packet)) (stdin : Option (ReadAnswer 8192))
  | stdin (stdin : Option (ReadAnswer 8192))
  | returned (status : Except IoError ClientStatus)
  deriving DecidableEq

structure Attaching where
  point : Point
  client : Attached
  /-- how often the window has changed -/
  changes : Nat
  /-- the change that the size last sent dates from -/
  told : Option Nat
  deriving DecidableEq

/-- `attach_session`, with MSG_ATTACH sent. -/
def Attaching.start (flags : UInt32) : Attaching :=
  { point := .measure .attaching
    client := { Attached.start with sent := [⟨msgAttach, u32ToNeBytes flags⟩] }
    changes := 0
    told := none }

def Asking.back : Asking → Point
  | .attaching => .handler
  | .winch => .head
  | .server stdin => .stdin stdin

/-- Up to here `handle_sigwinch` is not installed, and the signal is ignored. -/
def Point.deaf : Point → Bool
  | .measure .attaching => true
  | .send .attaching _ => true
  | .handler => true
  | _ => false

def Attaching.signal (a : Attaching) : Attaching :=
  { a with
    changes := a.changes + 1
    client := { a.client with winchPending := a.client.winchPending || !a.point.deaf }
    point := if a.point = .select then .interrupted else a.point }

def Attaching.goOn (a : Attaching) (point : Point) (loop : ClientLoop) : Attaching :=
  match loop with
  | .looping c => { a with client := c, point := point }
  | .returned c status => { a with client := c, point := .returned status }

/-- The program's next step; `size` is what `current_winsize` finds after so many changes. -/
def Attaching.next (opts : LoopOpts) (size : Nat → UInt16 × UInt16) (wakeup : Wakeup)
    (a : Attaching) : Attaching :=
  match a.point with
  | .measure asking => { a with point := .send asking a.changes }
  | .send asking change =>
    let wakeup := { wakeup with rows := (size change).1, cols := (size change).2 }
    let told := if wakeup.resizeError = none then some change else a.told
    { a with told := told }.goOn asking.back (sendResize wakeup a.client)
  | .handler => { a with point := .raw }
  | .raw => { a with point := .head }
  | .head => { a with point := .select }
  | .select =>
    match wakeup.awaited with
    | .interrupted winch => if winch then a.signal else { a with point := .interrupted }
    | .failed kind => { a with point := .returned (.error (.os kind)) }
    | .ready sock stdin => { a with point := .sock sock stdin }
  | .interrupted =>
    { a with
      client := { a.client with winchPending := false }
      point := if a.client.winchPending then .measure .winch else .head }
  | .sock sock stdin =>
    match sock with
    | some (.ok pkt) =>
      if pkt.typ = msgResize then { a with point := .measure (.server stdin) }
      else a.goOn (.stdin stdin) (handleSock opts wakeup sock a.client)
    | _ => a.goOn (.stdin stdin) (handleSock opts wakeup sock a.client)
  | .stdin stdin => a.goOn .head (handleStdin opts wakeup stdin a.client)
  | .returned _ => a

inductive AttachEvent where
  | signal
  | step (wakeup : Wakeup)

def attachStep (opts : LoopOpts) (size : Nat → UInt16 × UInt16) (event : AttachEvent)
    (a : Attaching) : Attaching :=
  match event with
  | .signal => a.signal
  | .step wakeup => a.next opts size wakeup

/-! ## Iterations -/

def Attaching.Ends (a : Attaching) : ClientLoop → Prop
  | .looping c => a.point = .head ∧ a.client = c
  | .returned c status => a.point = .returned status ∧ a.client = c

def Awaited.changes : Awaited → Nat
  | .interrupted true => 1
  | _ => 0

section Iterations

variable {opts : LoopOpts} {size : Nat → UInt16 × UInt16} {wakeup : Wakeup}

/-- By steps that are answered alike, with no signal in between. -/
def Attaching.Reaches (opts : LoopOpts) (size : Nat → UInt16 × UInt16) (wakeup : Wakeup)
    (a b : Attaching) : Prop :=
  ∃ count, runSteps (attachStep opts size) (List.replicate count (.step wakeup)) a = b

theorem Attaching.Reaches.refl (a : Attaching) : a.Reaches opts size wakeup a :=
  ⟨0, rfl⟩

theorem Attaching.Reaches.step {a b : Attaching}
    (reaches : (a.next opts size wakeup).Reaches opts size wakeup b) :
    a.Reaches opts size wakeup b := by
  obtain ⟨count, same⟩ := reaches
  exact ⟨count + 1, by rw [List.replicate_succ]; exact same⟩

theorem goOn_ends (a : Attaching) (loop : ClientLoop) : (a.goOn .head loop).Ends loop := by
  cases loop with
  | looping c => exact ⟨rfl, rfl⟩
  | returned c status => exact ⟨rfl, rfl⟩

theorem next_sock_resize {pkt : Packet} (resize : pkt.typ = msgResize)
    (stdin : Option (ReadAnswer 8192)) (c : Attached) (changes : Nat) (told : Option Nat) :
    (⟨.sock (some (.ok pkt)) stdin, c, changes, told⟩ : Attaching).next opts size wakeup =
      ⟨.measure (.server stdin), c, changes, told⟩ :=
  if_pos resize

theorem next_sock_other {sock : Option (Except IoError Packet)}
    (other : ∀ pkt, sock = some (.ok pkt) → pkt.typ ≠ msgResize)
    (stdin : Option (ReadAnswer 8192)) (c : Attached) (changes : Nat) (told : Option Nat) :
    (⟨.sock sock stdin, c, changes, told⟩ : Attaching).next opts size wakeup =
      (⟨.sock sock stdin, c, changes, told⟩ : Attaching).goOn (.stdin stdin)
        (handleSock opts wakeup sock c) := by
  rcases sock with _ | _ | pkt
  · rfl
  · rfl
  · exact if_neg (other pkt rfl)

theorem reaches_sendResize (opts : LoopOpts) {asking : Asking} (a : Attaching)
    (point : a.point = .measure asking) (found : size a.changes = (wakeup.rows, wakeup.cols)) :
    ∃ told, ({ a with told := told }.goOn asking.back (sendResize wakeup a.client)) =
      (a.next opts size wakeup).next opts size wakeup := by
  refine ⟨if wakeup.resizeError = none then some a.changes else a.told, ?_⟩
  rw [show a.next opts size wakeup = { a with point := .send asking a.changes } by
    rw [Attaching.next, point], Attaching.next]
  dsimp only
  rw [found]
  cases sendResize wakeup a.client <;> rfl

theorem ends_stdin (opts : LoopOpts) (size : Nat → UInt16 × UInt16) (wakeup : Wakeup)
    (a : Attaching) (stdin : Option (ReadAnswer 8192)) (loop : ClientLoop) :
    ∃ b, (a.goOn (.stdin stdin) loop).Reaches opts size wakeup b ∧
      b.Ends (loop.andThen (handleStdin opts wakeup stdin)) := by
  cases loop with
  | looping c =>
    refine ⟨_, .step (.refl _), ?_⟩
    exact goOn_ends _ _
  | returned c status => exact ⟨_, .refl _, rfl, rfl⟩

theorem reaches_wake {a : Attaching} (head : a.point = .head)
    (found : size (a.changes + wakeup.awaited.changes) = (wakeup.rows, wakeup.cols)) :
    ∃ b, a.Reaches opts size wakeup b ∧ b.Ends (a.client.wake opts wakeup) := by
  obtain ⟨point, c, changes, told⟩ := a
  subst head
  -- every iteration begins with these
  suffices rest : ∃ b, ((⟨.select, c, changes, told⟩ : Attaching).next opts size wakeup).Reaches
      opts size wakeup b ∧ b.Ends (c.wake opts wakeup) by
    obtain ⟨b, reaches, ends⟩ := rest
    exact ⟨b, .step (.step reaches), ends⟩
  rw [Attaching.next, Attached.wake]
  cases awaited : wakeup.awaited with
  | interrupted winch =>
    rw [awaited] at found
    have arrived : (if winch then (⟨.select, c, changes, told⟩ : Attaching).signal
          else ⟨.interrupted, c, changes, told⟩) =
        ⟨.interrupted, { c with winchPending := c.winchPending || winch },
          changes + (Awaited.interrupted winch).changes, told⟩ := by
      cases winch <;> simp [Attaching.signal, Awaited.changes, Point.deaf]
    dsimp only
    rw [arrived]
    by_cases pending : (c.winchPending || winch) = true
    · rw [if_pos pending]
      have swapped : (⟨.interrupted, { c with winchPending := c.winchPending || winch },
            changes + (Awaited.interrupted winch).changes, told⟩ : Attaching).next opts size wakeup =
          ⟨.measure .winch, { c with winchPending := false },
            changes + (Awaited.interrupted winch).changes, told⟩ := by
        simp [Attaching.next, pending]
      obtain ⟨told', asked⟩ := reaches_sendResize opts
        ⟨.measure .winch, { c with winchPending := false },
          changes + (Awaited.interrupted winch).changes, told⟩ rfl found
      refine ⟨_, .step (.step (.step (.refl _))), ?_⟩
      rw [swapped, ← asked]
      exact goOn_ends _ _
    · rw [if_neg pending]
      refine ⟨_, .step (.refl _), ?_⟩
      simp [Attaching.next, pending, Attaching.Ends]
  | failed kind => exact ⟨_, .refl _, rfl, rfl⟩
  | ready sock stdin =>
    dsimp only
    by_cases resize : ∃ pkt, sock = some (.ok pkt) ∧ pkt.typ = msgResize
    · obtain ⟨pkt, rfl, resize⟩ := resize
      have answered : handleSock opts wakeup (some (.ok pkt)) c = sendResize wakeup c := by
        rw [handleSock, resize, if_neg (by decide), if_pos rfl]
      rw [awaited] at found
      obtain ⟨told', asked⟩ := reaches_sendResize opts
        ⟨.measure (.server stdin), c, changes, told⟩ rfl found
      obtain ⟨b, reaches, ends⟩ := ends_stdin opts size wakeup
        ⟨.measure (.server stdin), c, changes, told'⟩ stdin (sendResize wakeup c)
      refine ⟨b, .step (.step (.step ?_)), ?_⟩
      · rw [next_sock_resize resize, ← asked]
        exact reaches
      · rw [answered]
        exact ends
    · obtain ⟨b, reaches, ends⟩ := ends_stdin opts size wakeup
        ⟨.sock sock stdin, c, changes, told⟩ stdin (handleSock opts wakeup sock c)
      refine ⟨b, .step ?_, ends⟩
      rw [next_sock_other fun pkt received same => resize ⟨pkt, received, same⟩]
      exact reaches

end Iterations

end Lich
