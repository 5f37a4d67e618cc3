import Lich.C.Sending
import Lich.AttachProgram

/-! The C program's attached client, one step at a time.

SIGWINCH is blocked but in `pselect`, which a pending one interrupts. Nothing that
the window does in between is lost, then: not between `ioctl` and the packet, and
not before `need_resize` is cleared.
-/

set_option autoImplicit false

namespace Lich.C

open Foundation

structure LoopOpts where
  flags : UInt32
  passthrough : Bool
  keyDetach : UInt8
  /-- 0 is none -/
  keyRedraw : UInt8

/-- How `pselect` returns; with what is received from the socket, and what a read of
standard input returns, where they are readable. -/
inductive Awaited where
  | interrupted
  | failed
  | ready (sock : Option (Option Received)) (stdin : Option (ReadAnswer maxPayload))

structure Reply where
  /-- the bytes that `write_all` gets out -/
  written : Nat
  /-- `ioctl` finds the size -/
  ioctl : Bool
  awaited : Awaited

/-- Where the program is, by what it does next. -/
inductive Point where
  | attach
  /-- the test of the loop -/
  | head
  | ioctl
  /-- `client_send_packet`, with the size as of that change -/
  | resize (change : Nat)
  | pselect
  | sock (sock : Option (Option Received)) (stdin : Option (ReadAnswer maxPayload))
  | stdin (stdin : Option (ReadAnswer maxPayload))
  | returned (status : Int32)
  | died

structure Attaching where
  point : Point
  /-- `server.running` -/
  running : Bool
  needResize : Bool
  /-- SIGWINCH is pending -/
  pending : Bool
  /-- how often the window has changed -/
  changes : Nat
  sends : List Send
  printed : List UInt8
  /-- what has been read from standard input -/
  taken : List UInt8

/-- `client_mainloop`, once the signal is blocked. -/
def Attaching.start : Attaching := ⟨.attach, true, true, false, 0, [], [], []⟩

def eio : Int32 := 5

def resizeRequest (size : UInt16 × UInt16) : Packet :=
  ⟨msgResize, u16ToNeBytes size.1 ++ u16ToNeBytes size.2⟩

def Received.packet (pkt : Received) : Packet := ⟨pkt.typ, pkt.msg⟩

def Attaching.clientSendPacket (written : Nat) (pkt : Packet) (a : Attaching) : Bool × Attaching :=
  let size := 8 + pkt.payload.length
  if size > 8 + maxPayload then (false, { a with running := false })
  else
    let a := { a with sends := a.sends ++ [⟨pkt, min written size⟩] }
    if written ≥ size then (true, a) else (false, { a with running := false })

def Attaching.handleSock (opts : LoopOpts) (written : Nat) (sock : Option (Option Received))
    (stdin : Option (ReadAnswer maxPayload)) (a : Attaching) : Attaching :=
  match sock with
  | none => { a with point := .stdin stdin }
  | some none => { a with running := false, point := .stdin stdin }
  | some (some pkt) =>
    if pkt.typ = msgContent then
      if opts.passthrough then { a with point := .stdin stdin }
      else { a with printed := a.printed ++ pkt.msg.take written, point := .stdin stdin }
    else if pkt.typ = msgResize then { a with needResize := true, point := .stdin stdin }
    else if pkt.typ = msgExit then
      { (a.clientSendPacket written pkt.packet).2 with point := .returned pkt.i.toInt32 }
    else { a with point := .stdin stdin }

def Attaching.handleStdin (opts : LoopOpts) (written : Nat) (stdin : Option (ReadAnswer maxPayload))
    (a : Attaching) : Attaching :=
  match stdin with
  | none => { a with point := .head }
  | some (.err .wouldBlock) => { a with point := .head }
  | some (.err .interrupted) => { a with point := .head }
  | some (.err _) => { a with point := .died }
  | some (.ok slice) =>
    let a := { a with taken := a.taken ++ slice.bytes }
    match slice.bytes with
    | [] => { a with point := .returned (-1) }
    | first :: rest =>
      if opts.keyRedraw ≠ 0 ∧ first = opts.keyRedraw then { a with needResize := true, point := .head }
      else if first = opts.keyDetach then
        { (a.clientSendPacket written ⟨msgDetach, []⟩).2 with point := .returned (-1) }
      else if opts.flags &&& clientReadonly = 0 then
        { (a.clientSendPacket written ⟨msgContent, first :: rest⟩).2 with point := .head }
      else { a with point := .head }

/-- The program's next step; `size` is what `ioctl` finds after so many changes. -/
def Attaching.next (opts : LoopOpts) (size : Nat → UInt16 × UInt16) (reply : Reply) (a : Attaching) :
    Attaching :=
  match a.point with
  | .attach =>
    { (a.clientSendPacket reply.written ⟨msgAttach, u32ToNeBytes opts.flags⟩).2 with point := .head }
  | .head =>
    if a.running then { a with point := if a.needResize then .ioctl else .pselect }
    else { a with point := .returned (-eio) }
  | .ioctl => { a with point := if reply.ioctl then .resize a.changes else .pselect }
  | .resize change =>
    match a.clientSendPacket reply.written (resizeRequest (size change)) with
    | (true, a) => { a with needResize := false, point := .pselect }
    | (false, a) => { a with point := .pselect }
  | .pselect =>
    match reply.awaited with
    | .interrupted =>
      -- a pending signal is delivered
      { a with needResize := a.needResize || a.pending, pending := false, point := .head }
    | .failed => { a with point := .died }
    | .ready sock stdin => { a with point := .sock sock stdin }
  | .sock sock stdin => a.handleSock opts reply.written sock stdin
  | .stdin stdin => a.handleStdin opts reply.written stdin
  | .returned _ => a
  | .died => a

inductive AttachEvent where
  /-- the window changes -/
  | winch
  | step (reply : Reply)

def attachStep (opts : LoopOpts) (size : Nat → UInt16 × UInt16) (event : AttachEvent)
    (a : Attaching) : Attaching :=
  match event with
  | .winch => { a with changes := a.changes + 1, pending := true }
  | .step reply => a.next opts size reply

def whole (sends : List Send) : List Packet :=
  sends.filterMap fun send => if send.taken = 8 + send.pkt.payload.length then some send.pkt else none

def Attaching.told (a : Attaching) : List (UInt16 × UInt16) := sizesAsked (whole a.sends)

theorem whole_append (first second : List Send) :
    whole (first ++ second) = whole first ++ whole second :=
  List.filterMap_append

/-- What comes of a packet that is to be sent. -/
inductive Wrote (pkt : Packet) : Bool → List Send → Prop where
  | all : pkt.Fits → Wrote pkt true [Send.whole pkt]
  | part (taken : Nat) : pkt.Fits → taken < 8 + pkt.payload.length → Wrote pkt false [⟨pkt, taken⟩]
  | tooLong : ¬ pkt.Fits → Wrote pkt false []

theorem Wrote.tells {pkt : Packet} {ok : Bool} {sent : List Send} (sends : Wrote pkt ok sent) :
    whole sent = if ok then [pkt] else [] := by
  cases sends with
  | all _ => simp [whole, Send.whole]
  | part taken _ less => simp [whole, Nat.ne_of_lt less]
  | tooLong _ => rfl

theorem clientSendPacket_eq (written : Nat) (pkt : Packet) (a : Attaching) :
    ∃ ok sent, a.clientSendPacket written pkt =
        (ok, { a with sends := a.sends ++ sent, running := a.running && ok }) ∧
      Wrote pkt ok sent ∧ (pkt.Fits → 8 + pkt.payload.length ≤ written → ok = true) := by
  rw [Attaching.clientSendPacket]
  dsimp only
  by_cases long : 8 + pkt.payload.length > 8 + maxPayload
  · have unfit : ¬ pkt.Fits := fun fits => Nat.not_le_of_gt long (Nat.add_le_add_left fits 8)
    rw [if_pos long]
    exact ⟨false, [], by simp, .tooLong unfit, fun fits => absurd fits unfit⟩
  · rw [if_neg long]
    have fits : pkt.Fits := by
      rw [Packet.Fits]
      omega
    by_cases all : written ≥ 8 + pkt.payload.length
    · rw [if_pos all, Nat.min_eq_right all]
      exact ⟨true, _, by rw [Bool.and_true, Send.whole], .all fits, fun _ _ => rfl⟩
    · rw [if_neg all]
      refine ⟨false, _, by rw [Bool.and_false], .part _ fits ?_, fun _ enough => absurd enough all⟩
      omega

/-! ## What a step can do -/

def heard : Option (Option Received) → List Received
  | some (some pkt) => [pkt]
  | _ => []

def Attaching.takes (a : Attaching) : AttachEvent → List Received
  | .winch => []
  | .step _ =>
    match a.point with
    | .sock sock _ => heard sock
    | _ => []

def readAtOnce : Option (ReadAnswer maxPayload) → List (List UInt8)
  | some (.ok slice) => [slice.bytes]
  | _ => []

def Attaching.reads (a : Attaching) : AttachEvent → List (List UInt8)
  | .winch => []
  | .step _ =>
    match a.point with
    | .stdin stdin => readAtOnce stdin
    | _ => []

def typedOf (opts : LoopOpts) (bytes : List UInt8) : List UInt8 :=
  match bytes with
  | [] => []
  | first :: rest =>
    if opts.keyRedraw ≠ 0 ∧ first = opts.keyRedraw then []
    else if first = opts.keyDetach then []
    else if opts.flags &&& clientReadonly = 0 then first :: rest
    else []

def AttachEvent.output : AttachEvent → Nat
  | .winch => 0
  | .step reply => reply.written

/-- `ioctl` finds the size, and what is written is written whole. -/
def AttachEvent.Calm : AttachEvent → Prop
  | .winch => True
  | .step reply => reply.ioctl = true ∧ 8 + maxPayload ≤ reply.written

/-- The program does not wait here, and it sends nothing that opens the session or
tells a size. -/
def Point.plain : Point → Bool
  | .attach | .ioctl | .resize _ | .pselect => false
  | _ => true

/-- The changes that there are, with what is received and what is read. -/
inductive Attaching.Does (opts : LoopOpts) (size : Nat → UInt16 × UInt16) (event : AttachEvent)
    (a : Attaching) : List Received → List (List UInt8) → Attaching → Prop where
  | stays : Does opts size event a [] [] a
  | winch : Does opts size event a [] [] { a with changes := a.changes + 1, pending := true }
  | goes (point : Point) (running : Bool) (plain : point.plain = true) :
      Does opts size event a [] [] { a with point := point, running := running }
  | waits (told : event.Calm → a.needResize = false) :
      Does opts size event a [] [] { a with point := .pselect }
  | attaches (ok : Bool) (sent : List Send) (here : a.point = .attach)
      (sends : Wrote ⟨msgAttach, u32ToNeBytes opts.flags⟩ ok sent)
      (all : event.Calm → ok = true) :
      Does opts size event a [] []
        { a with sends := a.sends ++ sent, running := a.running && ok, point := .head }
  | asks (asked : a.needResize = true) : Does opts size event a [] [] { a with point := .ioctl }
  | measures (here : a.point = .ioctl) :
      Does opts size event a [] [] { a with point := .resize a.changes }
  | resizes (change : Nat) (ok : Bool) (sent : List Send) (here : a.point = .resize change)
      (sends : Wrote (resizeRequest (size change)) ok sent)
      (all : event.Calm → ok = true) :
      Does opts size event a [] [] { a with
        sends := a.sends ++ sent, running := a.running && ok, needResize := a.needResize && !ok,
        point := .pselect }
  | wakes : Does opts size event a [] []
      { a with needResize := a.needResize || a.pending, pending := false, point := .head }
  | ignores (pkt : Received) (point : Point) (asked : Bool) (plain : point.plain = true)
      (resize : asked = true ↔ pkt.typ = msgResize)
      (silent : pkt.typ = msgContent → opts.passthrough = true) :
      Does opts size event a [pkt] [] { a with needResize := a.needResize || asked, point := point }
  | prints (pkt : Received) (point : Point) (plain : point.plain = true)
      (content : pkt.typ = msgContent) (shown : opts.passthrough = false)
      (enough : event.Calm → 8 + maxPayload ≤ event.output) :
      Does opts size event a [pkt] []
        { a with printed := a.printed ++ pkt.msg.take event.output, point := point }
  | exits (pkt : Received) (ok : Bool) (sent : List Send) (exit : pkt.typ = msgExit)
      (sends : Wrote pkt.packet ok sent)
      (all : event.Calm → ok = true ∨ sent = []) :
      Does opts size event a [pkt] [] { a with
        sends := a.sends ++ sent, running := a.running && ok, point := .returned pkt.i.toInt32 }
  | drops (bytes : List UInt8) (point : Point) (asked : Bool) (plain : point.plain = true)
      (nothing : typedOf opts bytes = []) :
      Does opts size event a [] [bytes] { a with
        taken := a.taken ++ bytes, needResize := a.needResize || asked, point := point }
  | sends (bytes : List UInt8) (point : Point) (ok : Bool) (pkt : Packet) (sent : List Send)
      (plain : point.plain = true) (kind : pkt.typ = msgContent ∨ pkt.typ = msgDetach)
      (typed : keyedIn [pkt] = typedOf opts bytes)
      (sends : Wrote pkt ok sent)
      (all : event.Calm → ok = true) :
      Does opts size event a [] [bytes] { a with
        taken := a.taken ++ bytes, sends := a.sends ++ sent, running := a.running && ok,
        point := point }

section Steps

variable {opts : LoopOpts} {size : Nat → UInt16 × UInt16} {reply : Reply} {a : Attaching}

theorem Attaching.Does.skips (pkt : Received) {point : Point} (plain : point.plain = true)
    (other : pkt.typ ≠ msgResize) (silent : pkt.typ = msgContent → opts.passthrough = true) :
    a.Does opts size (.step reply) [pkt] [] { a with point := point } := by
  have does : a.Does opts size (.step reply) [pkt] []
      { a with needResize := a.needResize || false, point := point } :=
    .ignores pkt point false plain (by simp [other]) silent
  rwa [Bool.or_false] at does

theorem Attaching.Does.dropped (bytes : List UInt8) {point : Point} (plain : point.plain = true)
    (nothing : typedOf opts bytes = []) :
    a.Does opts size (.step reply) [] [bytes] { a with taken := a.taken ++ bytes, point := point } := by
  have does : a.Does opts size (.step reply) [] [bytes]
      { a with
        taken := a.taken ++ bytes, needResize := a.needResize || false, point := point } :=
    .drops bytes point false plain nothing
  rwa [Bool.or_false] at does

theorem handleSock_does (sock : Option (Option Received)) (stdin : Option (ReadAnswer maxPayload)) :
    a.Does opts size (.step reply) (heard sock) []
      (a.handleSock opts reply.written sock stdin) := by
  rcases sock with _ | _ | pkt
  · exact .goes (.stdin stdin) a.running rfl
  · exact .goes (.stdin stdin) false rfl
  · rw [Attaching.handleSock]
    by_cases content : pkt.typ = msgContent
    · rw [if_pos content]
      cases through : opts.passthrough with
      | true => exact .skips pkt rfl (by rw [content]; decide) fun _ => through
      | false => exact .prints pkt (.stdin stdin) rfl content through And.right
    rw [if_neg content]
    by_cases resize : pkt.typ = msgResize
    · rw [if_pos resize]
      have does : a.Does opts size (.step reply) [pkt] []
          { a with needResize := a.needResize || true, point := .stdin stdin } :=
        .ignores pkt (.stdin stdin) true rfl (by simp [resize]) fun same => absurd same content
      rwa [Bool.or_true] at does
    rw [if_neg resize]
    by_cases exit : pkt.typ = msgExit
    · rw [if_pos exit]
      obtain ⟨ok, sent, done, sends, all⟩ := clientSendPacket_eq reply.written pkt.packet a
      rw [done]
      refine .exits pkt ok sent exit sends fun calm => ?_
      cases sends with
      | all _ => exact .inl rfl
      | part taken fits _ => exact .inl (all fits (Nat.le_trans (Nat.add_le_add_left fits 8) calm.2))
      | tooLong _ => exact .inr rfl
    · rw [if_neg exit]
      exact .skips pkt rfl resize fun same => absurd same content

theorem handleStdin_does (stdin : Option (ReadAnswer maxPayload)) :
    a.Does opts size (.step reply) [] (readAtOnce stdin) (a.handleStdin opts reply.written stdin) := by
  rcases stdin with _ | ⟨bytes, bound⟩ | kind
  · exact .goes .head a.running rfl
  · rw [Attaching.handleStdin]
    cases bytes with
    | nil => exact .dropped [] rfl rfl
    | cons first rest =>
      dsimp only
      by_cases redraw : opts.keyRedraw ≠ 0 ∧ first = opts.keyRedraw
      · rw [if_pos redraw]
        have does : a.Does opts size (.step reply) [] [first :: rest]
            { a with
              taken := a.taken ++ (first :: rest), needResize := a.needResize || true,
              point := .head } :=
          .drops (first :: rest) .head true rfl (by rw [typedOf, if_pos redraw])
        rwa [Bool.or_true] at does
      rw [if_neg redraw]
      by_cases detach : first = opts.keyDetach
      · rw [if_pos detach]
        obtain ⟨ok, sent, done, sends, all⟩ := clientSendPacket_eq reply.written ⟨msgDetach, []⟩
          { a with taken := a.taken ++ (first :: rest) }
        rw [done]
        refine .sends (first :: rest) (.returned (-1)) ok ⟨msgDetach, []⟩ sent rfl (.inr rfl) ?_ sends ?_
        · rw [typedOf, if_neg redraw, if_pos detach]
          rfl
        · intro enough
          exact all (Nat.zero_le _) (Nat.le_trans (Nat.le_add_right _ _) enough.2)
      rw [if_neg detach]
      by_cases writable : opts.flags &&& clientReadonly = 0
      · rw [if_pos writable]
        obtain ⟨ok, sent, done, sends, all⟩ := clientSendPacket_eq reply.written
          ⟨msgContent, first :: rest⟩ { a with taken := a.taken ++ (first :: rest) }
        rw [done]
        refine .sends (first :: rest) .head ok ⟨msgContent, first :: rest⟩ sent rfl (.inl rfl) ?_ sends ?_
        · rw [typedOf, if_neg redraw, if_neg detach, if_pos writable]
          exact keyedIn_content _
        · intro enough
          exact all bound (Nat.le_trans (Nat.add_le_add_left bound 8) enough.2)
      · rw [if_neg writable]
        refine .dropped _ rfl ?_
        rw [typedOf, if_neg redraw, if_neg detach, if_neg writable]
  · cases kind <;> exact .goes _ a.running rfl

theorem resizeRequest_length (size : UInt16 × UInt16) : (resizeRequest size).payload.length = 4 := by
  simp [resizeRequest, u16ToNeBytes]

theorem attachStep_does (event : AttachEvent) :
    a.Does opts size event (a.takes event) (a.reads event) (attachStep opts size event a) := by
  cases event with
  | winch => exact .winch
  | step reply =>
    rw [attachStep, Attaching.next, Attaching.takes, Attaching.reads]
    rcases here : a.point with _ | _ | _ | change | _ | ⟨sock, stdin⟩ | stdin | status | _
    · obtain ⟨ok, sent, done, sends, all⟩ := clientSendPacket_eq reply.written
        ⟨msgAttach, u32ToNeBytes opts.flags⟩ a
      dsimp only
      rw [done]
      refine .attaches ok sent here sends fun enough => all ?_ ?_
      · simp [Packet.Fits, u32ToNeBytes, maxPayload]
      · have more : 8 + 4 ≤ 8 + maxPayload := by decide
        simpa [u32ToNeBytes] using more.trans enough.2
    · dsimp only
      by_cases running : a.running = true
      · rw [if_pos running]
        by_cases asked : a.needResize = true
        · rw [if_pos asked]
          exact .asks asked
        · rw [if_neg asked]
          exact .waits fun _ => Bool.not_eq_true _ ▸ asked
      · rw [if_neg running]
        exact .goes (.returned (-eio)) a.running rfl
    · dsimp only
      by_cases found : reply.ioctl = true
      · rw [if_pos found]
        exact .measures here
      · rw [if_neg found]
        exact .waits fun calm => absurd calm.1 found
    · obtain ⟨ok, sent, done, sends, all⟩ := clientSendPacket_eq reply.written
        (resizeRequest (size change)) a
      have enough (calm : (AttachEvent.step reply).Calm) : ok = true := by
        have more : 8 + 4 ≤ 8 + maxPayload := by decide
        refine all ?_ ?_
        · rw [Packet.Fits, resizeRequest_length]
          decide
        · rw [resizeRequest_length]
          exact more.trans calm.2
      have does : a.Does opts size (.step reply) [] []
          { a with
            sends := a.sends ++ sent, running := a.running && ok,
            needResize := a.needResize && !ok, point := .pselect } :=
        .resizes change ok sent here sends enough
      dsimp only
      rw [done]
      cases ok with
      | true => rwa [Bool.not_true, Bool.and_false] at does
      | false => rwa [Bool.not_false, Bool.and_true] at does
    · dsimp only
      cases reply.awaited with
      | interrupted => exact .wakes
      | failed => exact .goes .died a.running rfl
      | ready sock stdin => exact .goes (.sock sock stdin) a.running rfl
    · exact handleSock_does sock stdin
    · exact handleStdin_does stdin
    · exact .stays
    · exact .stays

end Steps

/-! ## The size of the window -/

def Point.asking : Point → Bool
  | .ioctl | .resize _ => true
  | _ => false

/-- The size that was sent last is the window's, or another is to follow. -/
structure Attaching.Fresh (size : Nat → UInt16 × UInt16) (a : Attaching) : Prop where
  told : a.needResize = true ∨ a.pending = true ∨ a.told.getLast? = some (size a.changes)
  ioctl : a.point = .ioctl → a.needResize = true
  resize : ∀ change, a.point = .resize change →
    a.needResize = true ∧ (a.pending = true ∨ change = a.changes)

section Size

variable {opts : LoopOpts} {size : Nat → UInt16 × UInt16} {event : AttachEvent} {a b : Attaching}
  {received : List Received} {reads : List (List UInt8)}

theorem Attaching.told_append (a : Attaching) (sent : List Send) :
    sizesAsked (whole (a.sends ++ sent)) = a.told ++ sizesAsked (whole sent) := by
  rw [whole_append, sizesAsked_append, told]

theorem sizesAsked_whole {sent : List Send} {ok : Bool} {pkt : Packet} (other : pkt.typ ≠ msgResize)
    (sends : Wrote pkt ok sent) : sizesAsked (whole sent) = [] := by
  rw [sends.tells]
  cases ok with
  | false => rfl
  | true => exact sizesAsked_other other

theorem Attaching.Fresh.of_told {a : Attaching}
    (told : a.needResize = true ∨ a.pending = true ∨ a.told.getLast? = some (size a.changes))
    (elsewhere : a.point.asking = false) : a.Fresh size where
  told := told
  ioctl here := by
    rw [here] at elsewhere
    cases elsewhere
  resize change here := by
    rw [here] at elsewhere
    cases elsewhere

theorem Attaching.Fresh.keeps (fresh : a.Fresh size) (plain : b.point.plain = true)
    (needResize : a.needResize = true → b.needResize = true) (pending : b.pending = a.pending)
    (changes : b.changes = a.changes) (told : b.told = a.told) : b.Fresh size := by
  refine .of_told ?_ ?_
  · rw [pending, changes, told]
    exact fresh.told.imp_left needResize
  · cases here : b.point with
    | ioctl => rw [here] at plain; cases plain
    | resize change => rw [here] at plain; cases plain
    | _ => rfl

theorem Attaching.Fresh.does (fresh : a.Fresh size) (does : a.Does opts size event received reads b) :
    b.Fresh size := by
  cases does with
  | stays => exact fresh
  | winch => exact ⟨.inr (.inl rfl), fresh.ioctl, fun change here => ⟨(fresh.resize change here).1, .inl rfl⟩⟩
  | goes point running plain => exact fresh.keeps plain id rfl rfl rfl
  | waits _ => exact .of_told fresh.told rfl
  | attaches ok sent here sends _ =>
    have attach : (⟨msgAttach, u32ToNeBytes opts.flags⟩ : Packet).typ ≠ msgResize := by
      change msgAttach ≠ msgResize
      decide
    refine fresh.keeps rfl id rfl rfl ?_
    rw [Attaching.told, told_append, sizesAsked_whole attach sends, List.append_nil]
  | asks asked => exact ⟨fresh.told, fun _ => asked, fun _ here => Point.noConfusion here⟩
  | measures here =>
    refine ⟨fresh.told, fun here => Point.noConfusion here, fun change same => ?_⟩
    exact ⟨fresh.ioctl here, .inr (Point.resize.inj same).symm⟩
  | resizes change ok sent here sends _ =>
    refine .of_told ?_ rfl
    obtain ⟨asked, date⟩ := fresh.resize change here
    cases ok with
    | false => exact .inl (by simp [asked])
    | true =>
      rcases date with pending | rfl
      · exact .inr (.inl pending)
      · refine .inr (.inr ?_)
        have last : sizesAsked (whole sent) = [size a.changes] := by
          rw [sends.tells, if_pos rfl]
          exact sizesAsked_resize _ _
        rw [Attaching.told, told_append, last]
        exact List.getLast?_concat
  | wakes =>
    refine .of_told ?_ rfl
    rcases fresh.told with asked | pending | told
    · exact .inl (by simp [asked])
    · exact .inl (by simp [pending])
    · exact .inr (.inr told)
  | ignores pkt point asked plain _ _ =>
    exact fresh.keeps plain (fun same => by simp [same]) rfl rfl rfl
  | prints pkt point plain _ _ _ => exact fresh.keeps plain id rfl rfl rfl
  | exits pkt ok sent exit sends _ =>
    refine fresh.keeps rfl id rfl rfl ?_
    have other : pkt.packet.typ ≠ msgResize := by
      change pkt.typ ≠ msgResize
      rw [exit]
      decide
    rw [Attaching.told, told_append, sizesAsked_whole other sends, List.append_nil]
  | drops bytes point asked plain _ =>
    exact fresh.keeps plain (fun same => by simp [same]) rfl rfl rfl
  | sends bytes point ok pkt sent plain kind _ sends _ =>
    have other : pkt.typ ≠ msgResize := by rcases kind with kind | kind <;> rw [kind] <;> decide
    refine fresh.keeps plain id rfl rfl ?_
    rw [Attaching.told, told_append, sizesAsked_whole other sends, List.append_nil]

theorem Attaching.Does.needs (does : a.Does opts size event received reads b) (calm : event.Calm)
    (before : a.point = .pselect → a.needResize = false) (here : b.point = .pselect) :
    b.needResize = false := by
  have plain {point : Point} (plain : point.plain = true) : point ≠ .pselect := by
    rintro rfl
    cases plain
  cases does with
  | stays => exact before here
  | winch => exact before here
  | goes point running kind => exact absurd here (plain kind)
  | waits told => exact told calm
  | attaches ok sent _ sends _ => cases here
  | asks asked => cases here
  | measures _ => cases here
  | resizes change ok sent _ sends all => simp [all calm]
  | wakes => cases here
  | ignores pkt point asked kind _ _ => exact absurd here (plain kind)
  | prints pkt point kind _ _ _ => exact absurd here (plain kind)
  | exits pkt ok sent exit sends _ => cases here
  | drops bytes point asked kind _ => exact absurd here (plain kind)
  | sends bytes point ok pkt sent kind _ _ sends _ => exact absurd here (plain kind)

theorem Attaching.Does.answers (does : a.Does opts size event received reads b) :
    ∃ more, b.told = a.told ++ more ∧
      (a.needResize = true → b.needResize = true ∨ more ≠ []) := by
  have same (told : b.told = a.told) (needs : a.needResize = true → b.needResize = true) :
      ∃ more, b.told = a.told ++ more ∧ (a.needResize = true → b.needResize = true ∨ more ≠ []) :=
    ⟨[], by rw [told, List.append_nil], fun asked => .inl (needs asked)⟩
  have sends {sent : List Send} (told : b.told = sizesAsked (whole (a.sends ++ sent)))
      (needs : a.needResize = true → b.needResize = true ∨ sizesAsked (whole sent) ≠ []) :
      ∃ more, b.told = a.told ++ more ∧ (a.needResize = true → b.needResize = true ∨ more ≠ []) :=
    ⟨sizesAsked (whole sent), by rw [told, told_append], needs⟩
  cases does with
  | stays => exact same rfl id
  | winch => exact same rfl id
  | goes point running plain => exact same rfl id
  | waits _ => exact same rfl id
  | attaches ok sent _ _ _ => exact sends rfl .inl
  | asks asked => exact same rfl id
  | measures _ => exact same rfl id
  | resizes change ok sent _ tells _ =>
    refine sends rfl fun asked => ?_
    cases ok with
    | false => exact .inl (by simp [asked])
    | true =>
      have last : sizesAsked (whole sent) = [size change] := by
        rw [tells.tells, if_pos rfl]
        exact sizesAsked_resize _ _
      exact .inr (by rw [last]; exact List.cons_ne_nil _ _)
  | wakes => exact same rfl fun asked => by simp [asked]
  | ignores pkt point asked plain _ _ => exact same rfl fun asked => by simp [asked]
  | prints pkt point plain _ _ _ => exact same rfl id
  | exits pkt ok sent exit _ _ => exact sends rfl .inl
  | drops bytes point asked plain _ => exact same rfl fun asked => by simp [asked]
  | sends bytes point ok pkt sent plain kind _ _ _ => exact sends rfl .inl

theorem run_answers (opts : LoopOpts) (size : Nat → UInt16 × UInt16) (events : List AttachEvent)
    (a : Attaching) :
    ∃ more, (runSteps (attachStep opts size) events a).told = a.told ++ more ∧
      (a.needResize = true →
        (runSteps (attachStep opts size) events a).needResize = true ∨ more ≠ []) := by
  induction events generalizing a with
  | nil => exact ⟨[], (List.append_nil _).symm, .inl⟩
  | cons event events ih =>
    have does : a.Does opts size event (a.takes event) (a.reads event) (attachStep opts size event a) :=
      attachStep_does event
    obtain ⟨first, told, needs⟩ := does.answers
    obtain ⟨rest, toldRest, needsRest⟩ := ih (attachStep opts size event a)
    rw [runSteps_cons, toldRest, told, List.append_assoc]
    refine ⟨_, rfl, fun asked => ?_⟩
    rcases needs asked with still | reported
    · exact (needsRest still).imp_right fun reported => List.append_ne_nil_of_right_ne_nil _ reported
    · exact .inr (List.append_ne_nil_of_left_ne_nil reported _)

theorem start_fresh (size : Nat → UInt16 × UInt16) : Attaching.start.Fresh size :=
  .of_told (.inl rfl) rfl

end Size

def attachedAfter (opts : LoopOpts) (size : Nat → UInt16 × UInt16) (events : List AttachEvent) :
    Attaching :=
  runSteps (attachStep opts size) events .start

theorem attachedAfter_fresh (opts : LoopOpts) (size : Nat → UInt16 × UInt16)
    (events : List AttachEvent) : (attachedAfter opts size events).Fresh size := by
  have always : Along (attachStep opts size) (fun _ _ => True) events Attaching.start :=
    along_of_forall (fun _ _ => trivial) _ _
  exact always.invariant (fun _ event _ fresh => fresh.does (attachStep_does event)) (start_fresh size)

theorem attachedAfter_needs (opts : LoopOpts) (size : Nat → UInt16 × UInt16)
    (events : List AttachEvent) (calm : ∀ event ∈ events, event.Calm)
    (here : (attachedAfter opts size events).point = .pselect) :
    (attachedAfter opts size events).needResize = false := by
  have along : Along (attachStep opts size) (fun _ event => event.Calm) events Attaching.start :=
    along_of_mem (fun event member _ => calm event member) _
  have keeps (a : Attaching) (event : AttachEvent) (calm : event.Calm)
      (before : a.point = .pselect → a.needResize = false)
      (here : (attachStep opts size event a).point = .pselect) :
      (attachStep opts size event a).needResize = false :=
    (attachStep_does event).needs calm before here
  exact along.invariant keeps (fun here => by cases here) here

-- The signal is not blocked in `pselect` alone, where `need_resize` is up to date.
theorem tells_its_size (opts : LoopOpts) (size : Nat → UInt16 × UInt16)
    (events : List AttachEvent) :
    let a := attachedAfter opts size events
    (a.needResize = true ∨ a.pending = true ∨ a.told.getLast? = some (size a.changes)) ∧
    ((∀ event ∈ events, event.Calm) → a.point = .pselect →
      (a.pending = true ∨ a.told.getLast? = some (size a.changes)) ∧
      ∀ before after, events = before ++ after →
        (attachedAfter opts size before).needResize = true →
        ∃ later, later ≠ [] ∧ a.told = (attachedAfter opts size before).told ++ later) := by
  intro a
  have fresh : a.Fresh size := attachedAfter_fresh opts size events
  refine ⟨fresh.told, fun calm here => ?_⟩
  have needs : a.needResize = false := attachedAfter_needs opts size events calm here
  constructor
  · rcases fresh.told with asked | rest
    · rw [needs] at asked
      cases asked
    · exact rest
  · rintro before after rfl asked
    obtain ⟨later, told, answered⟩ := run_answers opts size after (attachedAfter opts size before)
    have run : a = runSteps (attachStep opts size) after (attachedAfter opts size before) :=
      runSteps_append _ _ _ _
    rw [← run, needs] at answered
    rw [← run] at told
    exact ⟨later, (answered asked).resolve_left Bool.false_ne_true, told⟩

def promptly : AttachEvent := .step ⟨8 + maxPayload, true, .interrupted⟩

def racingEvents : List AttachEvent :=
  [promptly, promptly, promptly, .winch, promptly, promptly, promptly, promptly, promptly]

theorem tells_its_size_again :
    (attachedAfter ⟨0, false, 28, 0⟩ (fun change => (24, 80 + change.toUInt16)) racingEvents).told.getLast? =
      some (24, 81) := by
  have calm : ∀ event ∈ racingEvents, event.Calm := by
    intro event member
    simp only [racingEvents, List.mem_cons, List.not_mem_nil, or_false] at member
    rcases member with rfl | rfl | rfl | rfl | rfl | rfl | rfl | rfl | rfl <;> trivial
  have told := ((tells_its_size ⟨0, false, 28, 0⟩ (fun change => (24, 80 + change.toUInt16))
    racingEvents).2 calm rfl).1
  rcases told with pending | told
  · cases pending
  · exact told

end Lich.C
