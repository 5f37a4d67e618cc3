import Lich.Winch

/-! Whether the server hears of the last change of the window.

`client_loop` looks at WINCH_PENDING only when `select` has been interrupted.
A signal at any other time stays pending, with the client back in `select`; and before the
handler is installed a signal leaves no trace at all.
-/

set_option autoImplicit false

namespace Lich

open Foundation

def winsize (size : UInt16 × UInt16) : List UInt8 := u16ToNeBytes size.1 ++ u16ToNeBytes size.2

def lastSize (sent : List Packet) : Option (List UInt8) :=
  (sent.filterMap fun pkt => if pkt.typ = msgResize then some pkt.payload else none).getLast?

theorem lastSize_resize (sent : List Packet) (payload : List UInt8) :
    lastSize (sent ++ [⟨msgResize, payload⟩]) = some payload := by
  simp [lastSize]

theorem lastSize_other (sent : List Packet) {pkt : Packet} (other : pkt.typ ≠ msgResize) :
    lastSize (sent ++ [pkt]) = lastSize sent := by
  simp [lastSize, other]

structure Attaching.UpToDate (size : Nat → UInt16 × UInt16) (a : Attaching) : Prop where
  pending : a.client.winchPending = false
  told : a.told = some a.changes
  sent : lastSize a.client.sent = some (winsize (size a.changes))

/-- Whenever the client waits in `select`, the server knows the size. -/
def NoLostResize (opts : LoopOpts) (size : Nat → UInt16 × UInt16) (events : List AttachEvent)
    (a : Attaching) : Prop :=
  ∀ front, front <+: events → (runSteps (attachStep opts size) front a).point = .select →
    (runSteps (attachStep opts size) front a).UpToDate size

/-- When a signal is not lost: before the size is first found, in `select`, and between
EINTR and the swap. -/
def Point.catches : Point → Bool
  | .measure .attaching => true
  | .select => true
  | .interrupted => true
  | _ => false

def Timely (a : Attaching) : AttachEvent → Prop
  | .signal => a.point.catches = true
  | .step _ => True

/-- The signals that have come when the client waits in `select` all came at a good time. -/
def TimelyRun (opts : LoopOpts) (size : Nat → UInt16 × UInt16) (events : List AttachEvent)
    (a : Attaching) : Prop :=
  ∀ front, front <+: events → (runSteps (attachStep opts size) front a).point = .select →
    Along (attachStep opts size) Timely front a

/-! ## What the steps leave alone -/

structure Attached.SameSize (c next : Attached) : Prop where
  pending : next.winchPending = c.winchPending
  size : lastSize next.sent = lastSize c.sent

def ClientLoop.client : ClientLoop → Attached
  | .looping c => c
  | .returned c _ => c

section Parts

variable {opts : LoopOpts} {wakeup : Wakeup} {c : Attached}

theorem sendPacketBlocking_sameSize (error : Option IoError) {pkt : Packet}
    (other : pkt.typ ≠ msgResize) : c.SameSize (sendPacketBlocking error pkt c).client := by
  cases error with
  | none => exact ⟨rfl, lastSize_other c.sent other⟩
  | some err => exact ⟨rfl, rfl⟩

theorem client_andThen_returned (loop : ClientLoop) (status : Except IoError ClientStatus) :
    (loop.andThen fun c => .returned c status).client = loop.client := by
  cases loop with
  | looping c => rfl
  | returned c other => rfl

theorem handleSock_sameSize {sock : Option (Except IoError Packet)}
    (other : ∀ pkt, sock = some (.ok pkt) → pkt.typ ≠ msgResize) :
    c.SameSize (handleSock opts wakeup sock c).client := by
  rcases sock with _ | _ | pkt
  · exact ⟨rfl, rfl⟩
  · exact ⟨rfl, rfl⟩
  · have other := other pkt rfl
    rw [handleSock, if_neg other]
    split_ifs with content quiet exit
    · exact ⟨rfl, rfl⟩
    · cases wakeup.printError with
      | none => exact ⟨rfl, rfl⟩
      | some err => exact ⟨rfl, rfl⟩
    · exact ⟨rfl, lastSize_other c.sent other⟩
    · exact ⟨rfl, rfl⟩
    · exact ⟨rfl, rfl⟩

theorem stdinRead_same (answer : ReadAnswer 8192) (c : Attached) :
    (stdinRead answer c).2.winchPending = c.winchPending ∧ (stdinRead answer c).2.sent = c.sent := by
  unfold stdinRead
  split_ifs with empty
  · cases answer with
    | ok slice => exact ⟨rfl, rfl⟩
    | err kind => exact ⟨rfl, rfl⟩
  · exact ⟨rfl, rfl⟩

theorem Attached.SameSize.trans {next last : Attached} (first : c.SameSize next)
    (rest : next.SameSize last) : c.SameSize last :=
  ⟨rest.pending.trans first.pending, rest.size.trans first.size⟩

theorem handleStdin_sameSize (stdin : Option (ReadAnswer 8192)) :
    c.SameSize (handleStdin opts wakeup stdin c).client := by
  cases stdin with
  | none => exact ⟨rfl, rfl⟩
  | some answer =>
    obtain ⟨pending, sent⟩ := stdinRead_same answer c
    rw [handleStdin]
    generalize stdinRead answer c = read at pending sent
    obtain ⟨result, c'⟩ := read
    have read : c.SameSize c' := ⟨pending, by rw [sent]⟩
    rcases result with kind | bytes
    · cases kind <;> exact read
    · cases bytes with
      | nil => exact read
      | cons first rest =>
        dsimp only
        split_ifs with detach writable
        · rw [client_andThen_returned]
          exact read.trans (sendPacketBlocking_sameSize _ (show msgDetach ≠ msgResize by decide))
        · exact read.trans (sendPacketBlocking_sameSize _ (show msgContent ≠ msgResize by decide))
        · exact read

end Parts

/-! ## The steps -/

/-- The steps that neither find nor send a size, nor look at WINCH_PENDING. -/
inductive Point.Moves : Point → Point → Prop
  | installed : Moves .handler .raw
  | entered : Moves .raw .head
  | waits : Moves .head .select
  | woken : Moves .select .interrupted
  | ready (sock : Option (Except IoError Packet)) (stdin : Option (ReadAnswer 8192)) :
      Moves .select (.sock sock stdin)
  | asked (sock : Option (Except IoError Packet)) (stdin : Option (ReadAnswer 8192)) :
      Moves (.sock sock stdin) (.measure (.server stdin))
  | received (sock : Option (Except IoError Packet)) (stdin : Option (ReadAnswer 8192)) :
      Moves (.sock sock stdin) (.stdin stdin)
  | typed (stdin : Option (ReadAnswer 8192)) : Moves (.stdin stdin) .head
  | ends (point : Point) (status : Except IoError ClientStatus) : Moves point (.returned status)

inductive Attaching.Does (size : Nat → UInt16 × UInt16) (a : Attaching) : Attaching → Prop
  | measures (asking : Asking) (point : a.point = .measure asking) :
      Does size a { a with point := .send asking a.changes }
  | tells (asking : Asking) (change : Nat) (point : a.point = .send asking change) :
      Does size a { a with
        point := asking.back
        client := { a.client with
          sent := a.client.sent ++ [⟨msgResize, winsize (size change)⟩] }
        told := some change }
  | swaps (point : a.point = .interrupted) :
      Does size a { a with
        point := if a.client.winchPending then .measure .winch else .head
        client := { a.client with winchPending := false } }
  | hears (point : a.point = .select) : Does size a a.signal
  | moves (point : Point) (client : Attached) (moves : a.point.Moves point)
      (same : a.client.SameSize client) : Does size a { a with point := point, client := client }

section Steps

variable {opts : LoopOpts} {size : Nat → UInt16 × UInt16} {wakeup : Wakeup} {a : Attaching}

theorem goOn_does {point : Point} {loop : ClientLoop} (moves : a.point.Moves point)
    (same : a.client.SameSize loop.client) : a.Does size (a.goOn point loop) := by
  cases loop with
  | looping c => exact .moves point c moves same
  | returned c status => exact .moves (.returned status) c (.ends _ status) same

theorem next_does (opts : LoopOpts) (size : Nat → UInt16 × UInt16) (wakeup : Wakeup)
    (a : Attaching) : a.Does size (a.next opts size wakeup) := by
  have still : a.client.SameSize a.client := ⟨rfl, rfl⟩
  obtain ⟨point, c, changes, told⟩ := a
  cases point with
  | measure asking => exact .measures asking rfl
  | send asking change =>
    rw [Attaching.next]
    dsimp only
    rw [sendResize]
    dsimp only
    cases wakeup.resizeError with
    | none => exact .tells asking change rfl
    | some err => exact .moves (.returned (.error err)) c (.ends _ _) still
  | interrupted => exact .swaps rfl
  | select =>
    rw [Attaching.next]
    cases wakeup.awaited with
    | interrupted winch =>
      cases winch with
      | true => exact .hears rfl
      | false => exact .moves .interrupted c .woken still
    | failed kind => exact .moves (.returned (.error (.os kind))) c (.ends _ _) still
    | ready sock stdin => exact .moves (.sock sock stdin) c (.ready sock stdin) still
  | handler => exact .moves .raw c .installed still
  | raw => exact .moves .head c .entered still
  | head => exact .moves .select c .waits still
  | sock sock stdin =>
    by_cases resize : ∃ pkt, sock = some (.ok pkt) ∧ pkt.typ = msgResize
    · obtain ⟨pkt, rfl, resize⟩ := resize
      rw [next_sock_resize resize]
      exact .moves (.measure (.server stdin)) c (.asked _ stdin) still
    · have other : ∀ pkt, sock = some (.ok pkt) → pkt.typ ≠ msgResize :=
        fun pkt received same => resize ⟨pkt, received, same⟩
      rw [next_sock_other other]
      exact goOn_does (.received sock stdin) (handleSock_sameSize other)
  | stdin stdin => exact goOn_does (.typed stdin) (handleStdin_sameSize stdin)
  | returned status => exact .moves (.returned status) c (.ends _ status) still

end Steps

/-! ## What every run keeps -/

/-- The size last sent is that of the change it dates from; no size is ahead of its time. -/
structure Attaching.Dated (size : Nat → UInt16 × UInt16) (a : Attaching) : Prop where
  sent : lastSize a.client.sent = a.told.map fun change => winsize (size change)
  told : ∀ change, a.told = some change → change ≤ a.changes
  sending : ∀ asking change, a.point = .send asking change → change ≤ a.changes

/-- As long as no signal is lost: WINCH_PENDING is set only where it is looked at, and
a size that is out of date is about to be sent anew. -/
def Attaching.Heard (a : Attaching) : Prop :=
  match a.point with
  | .measure .attaching | .measure .winch => a.client.winchPending = false
  | .send .attaching change | .send .winch change =>
    a.client.winchPending = false ∧ change = a.changes
  | .send (.server _) change =>
    a.client.winchPending = false ∧ a.told = some a.changes ∧ change = a.changes
  | .interrupted => a.client.winchPending = true ∨ a.told = some a.changes
  | .returned _ => True
  | _ => a.client.winchPending = false ∧ a.told = some a.changes

/-- A signal has been lost: nothing before the next `select` looks at it. -/
def Attaching.Missed (a : Attaching) : Prop :=
  match a.point with
  | .measure .attaching | .interrupted => False
  | .send .attaching change => change < a.changes
  | .handler | .raw | .head | .select =>
    a.client.winchPending = true ∨ ∀ change, a.told = some change → change < a.changes
  | .returned _ => True
  | _ => a.client.winchPending = true

section Runs

variable {opts : LoopOpts} {size : Nat → UInt16 × UInt16} {a next : Attaching}

theorem signal_dated (dated : a.Dated size) : a.signal.Dated size where
  sent := dated.sent
  told := fun change told => Nat.le_succ_of_le (dated.told change told)
  sending := by
    intro asking change point
    rw [Attaching.signal] at point
    dsimp only at point
    split_ifs at point with waits
    exact Nat.le_succ_of_le (dated.sending asking change point)

theorem Attaching.Does.dated (does : a.Does size next) (dated : a.Dated size) : next.Dated size := by
  cases does with
  | measures asking point =>
    refine ⟨dated.sent, dated.told, ?_⟩
    rintro _ _ ⟨⟩
    exact Nat.le_refl _
  | tells asking change point =>
    refine ⟨lastSize_resize _ _, ?_, ?_⟩
    · rintro _ ⟨⟩
      exact dated.sending asking change point
    · intro asking' change' point'
      cases asking <;> cases point'
  | swaps point =>
    refine ⟨dated.sent, dated.told, ?_⟩
    intro asking change point'
    dsimp only at point'
    split_ifs at point'
  | hears point => exact signal_dated dated
  | moves point client moves same =>
    refine ⟨same.size.trans dated.sent, dated.told, ?_⟩
    rintro asking change rfl
    generalize a.point = before at moves
    cases moves

theorem Attaching.Does.heard (does : a.Does size next) (heard : a.Heard) : next.Heard := by
  obtain ⟨point, c, changes, told⟩ := a
  cases does with
  | measures asking point =>
    cases point
    cases asking with
    | attaching => exact ⟨heard, rfl⟩
    | winch => exact ⟨heard, rfl⟩
    | server stdin => exact ⟨heard.1, heard.2, rfl⟩
  | tells asking change point =>
    cases point
    cases asking with
    | attaching => exact ⟨heard.1, congrArg some heard.2⟩
    | winch => exact ⟨heard.1, congrArg some heard.2⟩
    | server stdin => exact ⟨heard.1, congrArg some heard.2.2⟩
  | swaps point =>
    cases point
    by_cases pending : c.winchPending = true
    · rw [if_pos pending]
      rfl
    · rw [if_neg pending]
      exact ⟨rfl, heard.resolve_left pending⟩
  | hears point =>
    cases point
    exact .inl (Bool.or_true _)
  | moves point client moves same =>
    cases moves with
    | ends => trivial
    | woken => exact .inr heard.2
    | installed | entered | waits | ready | asked | received | typed =>
      exact ⟨same.pending.trans heard.1, heard.2⟩

theorem heard_start (flags : UInt32) : (Attaching.start flags).Heard :=
  rfl

theorem dated_start (size : Nat → UInt16 × UInt16) (flags : UInt32) :
    (Attaching.start flags).Dated size where
  sent := lastSize_other [] (by show msgAttach ≠ msgResize; decide)
  told := nofun
  sending := nofun

theorem signal_heard (catches : a.point.catches = true) (heard : a.Heard) : a.signal.Heard := by
  obtain ⟨point, c, changes, told⟩ := a
  cases point with
  | measure asking =>
    cases asking with
    | attaching =>
      rw [Attaching.Heard] at heard
      simpa [Attaching.signal, Attaching.Heard, Point.deaf] using heard
    | winch => cases catches
    | server stdin => cases catches
  | select => exact .inl (Bool.or_true _)
  | interrupted => exact .inl (Bool.or_true _)
  | send | handler | raw | head | sock | stdin | returned => cases catches

theorem missed_of_pending (pending : a.client.winchPending = true) (heard : a.point.deaf = false)
    (away : a.point ≠ .interrupted) : a.Missed := by
  obtain ⟨point, c, changes, told⟩ := a
  cases point with
  | measure asking =>
    cases asking with
    | attaching => cases heard
    | winch => exact pending
    | server stdin => exact pending
  | send asking change =>
    cases asking with
    | attaching => cases heard
    | winch => exact pending
    | server stdin => exact pending
  | handler => cases heard
  | raw | head | select => exact .inl pending
  | interrupted => exact absurd rfl away
  | sock | stdin => exact pending
  | returned => trivial

theorem signal_point (away : a.point ≠ .select) : a.signal.point = a.point :=
  if_neg away

theorem signal_pending (heard : a.point.deaf = false) : a.signal.client.winchPending = true := by
  rw [Attaching.signal, heard]
  exact Bool.or_true _

theorem signal_missed (dated : a.Dated size) (lost : a.point.catches = false) :
    a.signal.Missed := by
  cases heard : a.point.deaf with
  | false =>
    have away : a.point ≠ .select ∧ a.point ≠ .interrupted := by
      constructor
      · intro same
        rw [same] at lost
        cases lost
      · intro same
        rw [same] at lost
        cases lost
    have still := signal_point away.1
    exact missed_of_pending (signal_pending heard) (by rw [still, heard]) (by rw [still]; exact away.2)
  | true =>
    obtain ⟨point, c, changes, told⟩ := a
    cases point with
    | measure asking =>
      cases asking with
      | attaching => cases lost
      | winch | server => cases heard
    | send asking change =>
      cases asking with
      | attaching => exact Nat.lt_succ_of_le (dated.sending _ _ rfl)
      | winch | server => cases heard
    | handler => exact .inr fun change same => Nat.lt_succ_of_le (dated.told change same)
    | raw | head | select | interrupted | sock | stdin | returned => cases heard

theorem Attaching.Missed.signal (missed : a.Missed) (away : a.point ≠ .select) :
    a.signal.Missed := by
  cases heard : a.point.deaf with
  | false =>
    have still := signal_point away
    refine missed_of_pending (signal_pending heard) (by rw [still, heard]) ?_
    rw [still]
    intro same
    rw [Attaching.Missed, same] at missed
    exact missed
  | true =>
    obtain ⟨point, c, changes, told⟩ := a
    cases point with
    | measure asking =>
      cases asking with
      | attaching => exact missed
      | winch | server => cases heard
    | send asking change =>
      cases asking with
      | attaching => exact Nat.lt_succ_of_lt missed
      | winch | server => cases heard
    | handler =>
      rcases missed with already | behind
      · exact .inl (Bool.or_eq_true_iff.mpr (.inl already))
      · exact .inr fun change same => Nat.lt_succ_of_lt (behind change same)
    | raw | head | select | interrupted | sock | stdin | returned => cases heard

theorem Attaching.Does.missed (does : a.Does size next) (missed : a.Missed)
    (away : a.point ≠ .select) : next.Missed := by
  obtain ⟨point, c, changes, told⟩ := a
  cases does with
  | measures asking point =>
    cases point
    cases asking with
    | attaching => exact missed.elim
    | winch => exact missed
    | server stdin => exact missed
  | tells asking change point =>
    cases point
    cases asking with
    | attaching =>
      refine .inr ?_
      rintro _ ⟨⟩
      exact missed
    | winch => exact .inl missed
    | server stdin => exact missed
  | swaps point =>
    cases point
    exact missed.elim
  | hears point => exact absurd point away
  | moves point client moves same =>
    cases moves with
    | ends => trivial
    | woken | ready => exact absurd rfl away
    | installed | entered | waits =>
      rcases missed with pending | behind
      · exact .inl (same.pending.trans pending)
      · exact .inr behind
    | asked | received => exact same.pending.trans missed
    | typed => exact .inl (same.pending.trans missed)

theorem Attaching.Missed.not_upToDate (missed : a.Missed) (waits : a.point = .select) :
    ¬ a.UpToDate size := by
  intro upToDate
  obtain ⟨point, c, changes, told⟩ := a
  cases waits
  rcases missed with pending | behind
  · exact absurd (upToDate.pending.symm.trans pending) (by decide)
  · exact absurd (behind changes upToDate.told) (Nat.lt_irrefl _)

theorem Attaching.Heard.upToDate (heard : a.Heard) (dated : a.Dated size)
    (waits : a.point = .select) : a.UpToDate size := by
  obtain ⟨point, c, changes, told⟩ := a
  cases waits
  refine ⟨heard.1, heard.2, ?_⟩
  rw [dated.sent, show told = some changes from heard.2]
  rfl

/-! ## Runs -/

theorem runSteps_dated (opts : LoopOpts) (events : List AttachEvent) (dated : a.Dated size) :
    (runSteps (attachStep opts size) events a).Dated size := by
  have always : Along (attachStep opts size) (fun _ _ => True) events a :=
    along_of_forall (fun _ _ => trivial) events a
  refine always.invariant ?_ dated
  intro a event _ dated
  cases event with
  | signal => exact signal_dated dated
  | step wakeup => exact (next_does opts size wakeup a).dated dated

theorem runSteps_heard {events : List AttachEvent}
    (timely : Along (attachStep opts size) Timely events a) (heard : a.Heard) :
    (runSteps (attachStep opts size) events a).Heard := by
  refine timely.invariant ?_ heard
  intro a event timely heard
  cases event with
  | signal => exact signal_heard timely heard
  | step wakeup => exact (next_does opts size wakeup a).heard heard

theorem Attaching.Missed.waits {events : List AttachEvent} (missed : a.Missed)
    (waits : (runSteps (attachStep opts size) events a).point = .select) :
    ¬ NoLostResize opts size events a := by
  intro noLost
  induction events generalizing a with
  | nil => exact missed.not_upToDate waits (noLost [] (List.prefix_refl _) waits)
  | cons event events ih =>
    by_cases now : a.point = .select
    · exact missed.not_upToDate now (noLost [] List.nil_prefix now)
    · refine ih ?_ waits fun front part => noLost (event :: front) (List.prefix_cons_inj _ |>.mpr part)
      cases event with
      | signal => exact missed.signal now
      | step wakeup => exact (next_does opts size wakeup a).missed missed now

end Runs

-- Only the branch of EINTR looks at WINCH_PENDING.
theorem no_lost_resize (opts : LoopOpts) (size : Nat → UInt16 × UInt16)
    (events : List AttachEvent) (flags : UInt32) :
    NoLostResize opts size events (.start flags) ↔ TimelyRun opts size events (.start flags) := by
  constructor
  · intro noLost front part waits
    apply along_iff.mpr
    intro before event after split
    cases event with
    | step wakeup => trivial
    | signal =>
      by_contra late
      have dated := runSteps_dated opts before (dated_start size flags)
      have missed := signal_missed dated (Bool.eq_false_of_not_eq_true late)
      rw [split, runSteps_append, runSteps_cons] at waits
      refine missed.waits waits fun later short waits' => ?_
      have run : runSteps (attachStep opts size) (before ++ .signal :: later) (.start flags) =
          runSteps (attachStep opts size) later
            (runSteps (attachStep opts size) before (.start flags)).signal := by
        rw [runSteps_append, runSteps_cons]
        rfl
      rw [← run] at waits' ⊢
      refine noLost _ (List.IsPrefix.trans ?_ part) waits'
      rw [split, List.prefix_append_right_inj, List.prefix_cons_inj]
      exact short
  · intro timely front part waits
    have dated := runSteps_dated opts front (dated_start size flags)
    exact (runSteps_heard (timely front part waits) (heard_start flags)).upToDate dated waits

def grown (change : Nat) : UInt16 × UInt16 := (if change = 0 then 24 else 50, 80)

theorem key_bound : ([97] : List UInt8).length ≤ 8192 := by decide

def keystroke : Wakeup := .typing ⟨[97], key_bound⟩

/-- A key is typed, and the window grows before it is read. -/
def keyThenWinch : List AttachEvent :=
  List.replicate 7 (.step keystroke) ++ [.signal, .step keystroke, .step keystroke]

theorem resize_lost :
    (runSteps (attachStep ⟨0, false, 28⟩ grown) keyThenWinch (.start 0)).point = .select ∧
      (runSteps (attachStep ⟨0, false, 28⟩ grown) keyThenWinch (.start 0)).client.winchPending =
        true ∧
      lastSize (runSteps (attachStep ⟨0, false, 28⟩ grown) keyThenWinch (.start 0)).client.sent =
        some (winsize (24, 80)) ∧
      ¬ ∀ (opts : LoopOpts) (size : Nat → UInt16 × UInt16) (events : List AttachEvent)
        (flags : UInt32), NoLostResize opts size events (.start flags) := by
  have waits : (runSteps (attachStep ⟨0, false, 28⟩ grown) keyThenWinch (.start 0)).point =
      .select := by decide
  have pending : (runSteps (attachStep ⟨0, false, 28⟩ grown) keyThenWinch
      (.start 0)).client.winchPending = true := by decide
  refine ⟨waits, pending, by decide, fun always => ?_⟩
  have upToDate := always ⟨0, false, 28⟩ grown keyThenWinch 0 keyThenWinch (List.prefix_refl _) waits
  exact absurd (upToDate.pending.symm.trans pending) (by decide)

end Lich
