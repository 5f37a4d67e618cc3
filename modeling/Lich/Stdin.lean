import Lich.ClientLoop

/-! What is typed to an attached client.

Between two iterations, what was read from the descriptor is what was sent
followed by what the reader holds. The reader holds nothing as long as no read
brings in more than a packet.
-/

set_option autoImplicit false

namespace Lich

open Foundation

def keyedIn (sent : List Packet) : List UInt8 :=
  sent.flatMap fun pkt => if pkt.typ = msgContent then pkt.payload else []

@[simp] theorem keyedIn_content (bytes : List UInt8) : keyedIn [⟨msgContent, bytes⟩] = bytes := by
  simp [keyedIn]

@[simp] theorem keyedIn_append (first second : List Packet) :
    keyedIn (first ++ second) = keyedIn first ++ keyedIn second :=
  List.flatMap_append

structure Attached.Clear (c : Attached) : Prop where
  held : c.held = []
  sent : keyedIn c.sent = c.taken

/-- The iteration comes to standard input, after what the socket has. -/
def Wakeup.Passes (opts : LoopOpts) (wakeup : Wakeup) : Option (Except IoError Packet) → Prop
  | none => True
  | some (.error _) => False
  | some (.ok pkt) =>
    pkt.typ ≠ msgExit ∧
      (pkt.typ = msgContent → opts.passthrough = false → wakeup.printError = none) ∧
      (pkt.typ = msgResize → wakeup.resizeError = none)

/-- A read of the descriptor that returns more than a packet's worth is the last
thing that the loop does: it begins with the detach key, or is not sent. -/
def Wakeup.Roomy (opts : LoopOpts) (wakeup : Wakeup) : Prop :=
  ∀ sock slice, wakeup.awaited = .ready sock (some (.ok slice)) → wakeup.Passes opts sock →
    slice.bytes.length ≤ maxPayload ∨ slice.bytes.head? = some opts.detachKey ∨
      wakeup.inputError ≠ none

/-! ## The parts of an iteration -/

section Parts

variable {opts : LoopOpts} {wakeup : Wakeup} {c next : Attached}

@[simp] theorem andThen_looping (c : Attached) (rest : Attached → ClientLoop) :
    (ClientLoop.looping c).andThen rest = rest c :=
  rfl

theorem andThen_eq_looping {loop : ClientLoop} {rest : Attached → ClientLoop}
    (done : loop.andThen rest = .looping next) : ∃ c, loop = .looping c ∧ rest c = .looping next := by
  cases loop with
  | looping c => exact ⟨c, rfl, done⟩
  | returned c status => cases done

theorem sendPacketBlocking_looping {error : Option IoError} {pkt : Packet}
    (done : sendPacketBlocking error pkt c = .looping next) :
    error = none ∧ next = { c with sent := c.sent ++ [pkt] } := by
  cases error with
  | none => exact ⟨rfl, (ClientLoop.looping.inj done).symm⟩
  | some err => cases done

structure Attached.SameInput (c next : Attached) : Prop where
  held : next.held = c.held
  taken : next.taken = c.taken
  typed : keyedIn next.sent = keyedIn c.sent

theorem Attached.SameInput.clear (same : c.SameInput next) (clear : c.Clear) : next.Clear :=
  ⟨same.held.trans clear.held, by rw [same.typed, same.taken, clear.sent]⟩

theorem sendResize_same (done : sendResize wakeup c = .looping next) :
    wakeup.resizeError = none ∧ c.SameInput next := by
  obtain ⟨fine, rfl⟩ := sendPacketBlocking_looping done
  refine ⟨fine, rfl, rfl, ?_⟩
  simp [keyedIn, msgResize, msgContent]

theorem handleSock_same {sock : Option (Except IoError Packet)}
    (done : handleSock opts wakeup sock c = .looping next) :
    wakeup.Passes opts sock ∧ c.SameInput next := by
  rcases sock with _ | _ | pkt
  · cases done
    exact ⟨trivial, rfl, rfl, rfl⟩
  · cases done
  · rw [handleSock] at done
    by_cases content : pkt.typ = msgContent
    · rw [if_pos content] at done
      have exit : pkt.typ ≠ msgExit := by
        rw [content]
        decide
      have resize : pkt.typ ≠ msgResize := by
        rw [content]
        decide
      cases quiet : opts.passthrough with
      | true =>
        rw [if_pos quiet] at done
        cases done
        exact ⟨⟨exit, fun _ shown => absurd (quiet.symm.trans shown) (by decide),
          fun other => absurd other resize⟩, rfl, rfl, rfl⟩
      | false =>
        rw [if_neg (by rw [quiet]; decide)] at done
        cases failure : wakeup.printError with
        | some err =>
          rw [failure] at done
          cases done
        | none =>
          rw [failure] at done
          cases done
          exact ⟨⟨exit, fun _ _ => failure, fun other => absurd other resize⟩, rfl, rfl, rfl⟩
    · rw [if_neg content] at done
      by_cases resize : pkt.typ = msgResize
      · rw [if_pos resize] at done
        obtain ⟨fine, same⟩ := sendResize_same done
        refine ⟨⟨?_, fun shown => absurd shown content, fun _ => fine⟩, same⟩
        rw [resize]
        decide
      · rw [if_neg resize] at done
        by_cases exit : pkt.typ = msgExit
        · rw [if_pos exit] at done
          cases done
        · rw [if_neg exit] at done
          cases done
          exact ⟨⟨exit, fun shown => absurd shown content, fun other => absurd other resize⟩,
            rfl, rfl, rfl⟩

theorem handleSock_passes {sock : Option (Except IoError Packet)}
    (passes : wakeup.Passes opts sock) (c : Attached) :
    ∃ next, handleSock opts wakeup sock c = .looping next := by
  rcases sock with _ | _ | pkt
  · exact ⟨c, rfl⟩
  · exact passes.elim
  · obtain ⟨exit, shown, fine⟩ := passes
    rw [handleSock]
    by_cases content : pkt.typ = msgContent
    · rw [if_pos content]
      cases quiet : opts.passthrough with
      | true => exact ⟨c, rfl⟩
      | false =>
        rw [if_neg (by decide), shown content quiet]
        exact ⟨_, rfl⟩
    · rw [if_neg content]
      by_cases resize : pkt.typ = msgResize
      · rw [if_pos resize, sendResize, fine resize]
        exact ⟨_, rfl⟩
      · rw [if_neg resize, if_neg exit]
        exact ⟨c, rfl⟩

theorem handleStdin_looping (writable : opts.flags &&& clientReadonly = 0) (empty : c.held = [])
    (slice : Slice 8192) :
    handleStdin opts wakeup (some (.ok slice)) c = .looping next ↔
      slice.bytes ≠ [] ∧ slice.bytes.head? ≠ some opts.detachKey ∧ wakeup.inputError = none ∧
        next = { c with
          held := slice.bytes.drop maxPayload
          taken := c.taken ++ slice.bytes
          sent := c.sent ++ [⟨msgContent, slice.bytes.take maxPayload⟩] } := by
  obtain ⟨bytes, bound⟩ := slice
  have read : stdinRead (.ok ⟨bytes, bound⟩) c = (.ok (bytes.take maxPayload),
      { c with held := bytes.drop maxPayload, taken := c.taken ++ bytes }) := if_pos empty
  rw [handleStdin, read]
  cases bytes with
  | nil =>
    constructor
    · intro done
      cases done
    · rintro ⟨some, _⟩
      exact absurd rfl some
  | cons first rest =>
    have front : (first :: rest).take maxPayload = first :: rest.take (maxPayload - 1) :=
      List.take_succ_cons
    rw [front]
    dsimp only
    rw [List.head?_cons]
    by_cases detach : first = opts.detachKey
    · rw [if_pos detach]
      constructor
      · intro done
        obtain ⟨_, _, returned⟩ := andThen_eq_looping done
        cases returned
      · rintro ⟨_, differs, _⟩
        exact absurd (congrArg some detach) differs
    · rw [if_neg detach, if_pos writable]
      constructor
      · intro done
        obtain ⟨fine, same⟩ := sendPacketBlocking_looping done
        exact ⟨List.cons_ne_nil _ _, fun same => detach (Option.some.inj same), fine, same⟩
      · rintro ⟨_, _, fine, rfl⟩
        rw [fine]
        rfl

theorem handleStdin_error (empty : c.held = []) {kind : ErrorKind}
    (done : handleStdin opts wakeup (some (.err kind)) c = .looping next) : next = c := by
  have read : stdinRead (.err kind) c = (.error kind, c) := if_pos empty
  rw [handleStdin, read] at done
  cases kind <;> first | exact (ClientLoop.looping.inj done).symm | cases done

end Parts

/-! ## An iteration -/

section Iterations

variable {opts : LoopOpts} {wakeup : Wakeup} {c next : Attached}

theorem wake_clear (writable : opts.flags &&& clientReadonly = 0) (roomy : wakeup.Roomy opts)
    (clear : c.Clear) (done : c.wake opts wakeup = .looping next) : next.Clear := by
  cases awaited : wakeup.awaited with
  | interrupted winch =>
    rw [Attached.wake, awaited] at done
    dsimp only at done
    by_cases pending : (c.winchPending || winch) = true
    · rw [if_pos pending] at done
      have same := (sendResize_same done).2
      exact ⟨same.held.trans clear.held, by rw [same.typed, same.taken]; exact clear.sent⟩
    · rw [if_neg pending] at done
      cases done
      exact ⟨clear.held, clear.sent⟩
  | failed kind =>
    rw [Attached.wake, awaited] at done
    cases done
  | ready sock stdin =>
    rw [Attached.wake, awaited] at done
    obtain ⟨middle, before, done⟩ := andThen_eq_looping done
    obtain ⟨passes, same⟩ := handleSock_same before
    have clear' := same.clear clear
    cases stdin with
    | none =>
      cases done
      exact clear'
    | some answer =>
      cases answer with
      | err kind =>
        rw [handleStdin_error clear'.held done]
        exact clear'
      | ok slice =>
        obtain ⟨_, typed, fine, rfl⟩ := (handleStdin_looping writable clear'.held slice).mp done
        rcases roomy sock slice awaited passes with fits | detach | failed
        · refine ⟨List.drop_eq_nil_of_le fits, ?_⟩
          simp [clear'.sent, List.take_of_length_le fits]
        · exact absurd detach typed
        · exact absurd fine failed

theorem wake_held (writable : opts.flags &&& clientReadonly = 0) (cramped : ¬ wakeup.Roomy opts)
    (clear : c.Clear) : ∃ next, c.wake opts wakeup = .looping next ∧ next.held ≠ [] := by
  simp only [Wakeup.Roomy, not_forall, not_or, Nat.not_le, not_not] at cramped
  obtain ⟨sock, slice, awaited, passes, long, typed, fine⟩ := cramped
  obtain ⟨middle, before⟩ := handleSock_passes passes c
  have clear' := (handleSock_same before).2.clear clear
  have some : slice.bytes ≠ [] := by
    intro none
    rw [none] at long
    exact absurd long (by decide)
  have done := (handleStdin_looping writable clear'.held slice).mpr ⟨some, typed, fine, rfl⟩
  refine ⟨{ middle with
    held := slice.bytes.drop maxPayload
    taken := middle.taken ++ slice.bytes
    sent := middle.sent ++ [⟨msgContent, slice.bytes.take maxPayload⟩] }, ?_, ?_⟩
  · rw [Attached.wake, awaited]
    dsimp only
    rw [before]
    exact done
  · intro none
    have count := List.drop_eq_nil_iff.mp none
    omega

end Iterations

/-! ## Runs -/

def Roomy (opts : LoopOpts) (loop : ClientLoop) (event : ClientEvent) : Prop :=
  ∀ c wakeup, loop = .looping c → event = .wakeup wakeup → wakeup.Roomy opts

/-- Whenever the loop is about to wait in `select`, nothing waits in the reader. -/
def AlwaysClear (opts : LoopOpts) (events : List ClientEvent) (loop : ClientLoop) : Prop :=
  ∀ before after, events = before ++ after →
    ∀ c, runSteps (clientStep opts) before loop = .looping c → c.Clear

theorem alwaysClear_cons {opts : LoopOpts} {event : ClientEvent} {events : List ClientEvent}
    {loop : ClientLoop} :
    AlwaysClear opts (event :: events) loop ↔
      (∀ c, loop = .looping c → c.Clear) ∧ AlwaysClear opts events (clientStep opts event loop) := by
  constructor
  · intro always
    refine ⟨fun c same => always [] _ rfl c same, ?_⟩
    rintro before after rfl c same
    exact always (event :: before) after rfl c same
  · rintro ⟨first, rest⟩ before after split c same
    cases before with
    | nil => exact first c same
    | cons head before =>
      obtain ⟨rfl, later⟩ := List.cons_eq_cons.mp split
      exact rest before after later c same

theorem runSteps_returned {opts : LoopOpts} (events : List ClientEvent) (c : Attached)
    (status : Except IoError ClientStatus) :
    runSteps (clientStep opts) events (.returned c status) = .returned c status := by
  induction events with
  | nil => rfl
  | cons event events ih => exact ih

theorem alwaysClear_returned {opts : LoopOpts} {events : List ClientEvent} {c : Attached}
    {status : Except IoError ClientStatus} : AlwaysClear opts events (.returned c status) := by
  intro before after _ c same
  rw [runSteps_returned] at same
  cases same

theorem along_returned {opts : LoopOpts} {events : List ClientEvent} {c : Attached}
    {status : Except IoError ClientStatus} :
    Along (clientStep opts) (Roomy opts) events (.returned c status) := by
  apply along_iff.mpr
  intro before event after _ c wakeup same
  rw [runSteps_returned] at same
  cases same

theorem alwaysClear_iff {opts : LoopOpts} (writable : opts.flags &&& clientReadonly = 0)
    {events : List ClientEvent} {c : Attached} (clear : c.Clear) :
    AlwaysClear opts events (.looping c) ↔
      Along (clientStep opts) (Roomy opts) events (.looping c) := by
  induction events generalizing c with
  | nil =>
    refine ⟨fun _ => trivial, ?_⟩
    intro _ before after split next same
    obtain ⟨rfl, rfl⟩ := List.append_eq_nil_iff.mp split.symm
    cases same
    exact clear
  | cons event events ih =>
    have here : ∀ next, ClientLoop.looping c = .looping next → next.Clear := by
      rintro next ⟨⟩
      exact clear
    rw [alwaysClear_cons, Along, and_iff_right here]
    cases event with
    | winch =>
      have room : Roomy opts (.looping c) .winch := by
        rintro _ _ _ ⟨⟩
      rw [and_iff_right room]
      exact ih ⟨clear.held, clear.sent⟩
    | wakeup wakeup =>
      have room : Roomy opts (.looping c) (.wakeup wakeup) ↔ wakeup.Roomy opts := by
        constructor
        · intro room
          exact room c wakeup rfl rfl
        · rintro room _ _ ⟨⟩ ⟨⟩
          exact room
      rw [room, clientStep]
      by_cases roomy : wakeup.Roomy opts
      · rw [and_iff_right roomy]
        cases done : c.wake opts wakeup with
        | looping next => exact ih (wake_clear writable roomy clear done)
        | returned next status => exact ⟨fun _ => along_returned, fun _ => alwaysClear_returned⟩
      · refine ⟨fun always => ?_, fun along => absurd along.1 roomy⟩
        obtain ⟨next, done, held⟩ := wake_held writable roomy clear
        exact absurd (always [] _ rfl next done).held held

-- The reader is larger than a packet, and `select` does not see what is left in it.
theorem no_input_waits (opts : LoopOpts) (writable : opts.flags &&& clientReadonly = 0)
    (events : List ClientEvent) :
    AlwaysClear opts events (.looping .start) ↔
      Along (clientStep opts) (Roomy opts) events (.looping .start) :=
  alwaysClear_iff writable ⟨rfl, rfl⟩

def Wakeup.typing (slice : Slice 8192) : Wakeup :=
  ⟨.ready none (some (.ok slice)), 0, 0, none, none, none, none⟩

theorem no_input_waits_key :
    AlwaysClear ⟨0, false, 28⟩ [.wakeup (.typing ⟨[97], by decide⟩)] (.looping .start) :=
  (no_input_waits ⟨0, false, 28⟩ (by decide) _).mpr
    ⟨by
      rintro c wakeup _ ⟨⟩ sock slice ⟨⟩ _
      exact .inl (by decide), trivial⟩

theorem input_waits :
    ¬ ∀ (opts : LoopOpts) (events : List ClientEvent), opts.flags &&& clientReadonly = 0 →
      AlwaysClear opts events (.looping .start) := by
  intro always
  have bound : (List.replicate (maxPayload + 1) (97 : UInt8)).length ≤ 8192 := by
    rw [List.length_replicate]
    decide
  have clear := always ⟨0, false, 28⟩
    [.wakeup (.typing ⟨List.replicate (maxPayload + 1) 97, bound⟩)] (by decide)
  obtain ⟨next, done, held⟩ := @wake_held ⟨0, false, 28⟩
    (.typing ⟨List.replicate (maxPayload + 1) 97, bound⟩) .start (by decide) (by
      intro roomy
      rcases roomy none _ rfl trivial with short | detach | failed
      · rw [List.length_replicate] at short
        omega
      · cases detach
      · exact failed rfl) ⟨rfl, rfl⟩
  exact held (clear [_] [] rfl next done).held

end Lich
