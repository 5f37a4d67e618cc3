import Lich.ExitStatus
import Lich.ResizeSent

/-! What the attached client makes of what it receives and of what is typed.

It prints the output in the packets received and sends on what is typed, both in
order, and it returns an exit status only from MSG_EXIT. This holds at every
point of the program, wherever it is interrupted.
-/

set_option autoImplicit false

namespace Lich

open Foundation

def attachRequest (opts : LoopOpts) : Packet := ⟨msgAttach, u32ToNeBytes opts.flags⟩

def heard : Option (Except IoError Packet) → List Packet
  | some (.ok pkt) => [pkt]
  | _ => []

def Attaching.takes (a : Attaching) : AttachEvent → List Packet
  | .signal => []
  | .step _ =>
    match a.point with
    | .sock sock _ => heard sock
    | _ => []

def Attaching.tells (size : Nat → UInt16 × UInt16) (a : Attaching) :
    AttachEvent → List (UInt16 × UInt16)
  | .signal => []
  | .step wakeup =>
    match a.point with
    | .send _ change => if wakeup.resizeError = none then [size change] else []
    | _ => []

section Programs

variable (opts : LoopOpts) (size : Nat → UInt16 × UInt16) (events : List AttachEvent)

def attachedAfter : Attaching := runSteps (attachStep opts size) events (.start opts.flags)

def receivedAfter : List Packet :=
  emitted (attachStep opts size) Attaching.takes events (.start opts.flags)

def measuredAfter : List (UInt16 × UInt16) :=
  emitted (attachStep opts size) (Attaching.tells size) events (.start opts.flags)

end Programs

def toPrint (opts : LoopOpts) (received : List Packet) : List UInt8 :=
  if opts.passthrough then [] else contentOf received

def Point.status? : Point → Option (Except IoError ClientStatus)
  | .returned status => some status
  | _ => none

def ClientLoop.status? : ClientLoop → Option (Except IoError ClientStatus)
  | .looping _ => none
  | .returned _ status => some status

/-- Typed input is read, as far as a packet takes it. -/
structure Attached.Reads (bytes : List UInt8) (c next : Attached) : Prop where
  printed : next.printed = c.printed
  sent : next.sent = c.sent
  fits : bytes.length ≤ maxPayload
  read : ∃ fresh, next.taken = c.taken ++ fresh ∧ c.held ++ fresh = bytes ++ next.held

/-- What the parts of an iteration can do, with the size that is sent and the packet that
is taken from the socket. -/
inductive Attached.Does (opts : LoopOpts) (c : Attached) :
    List (UInt16 × UInt16) → List Packet → ClientLoop → Prop where
  | stays : Does opts c [] [] (.looping c)
  | ends (status : Except IoError ClientStatus) (other : ∀ code, status ≠ .ok (.exited code)) :
      Does opts c [] [] (.returned c status)
  | resizes (rows cols : UInt16) :
      Does opts c [(rows, cols)] []
        (.looping { c with sent := c.sent ++ [⟨msgResize, u16ToNeBytes rows ++ u16ToNeBytes cols⟩] })
  | prints (pkt : Packet) (content : pkt.typ = msgContent) (shown : opts.passthrough = false) :
      Does opts c [] [pkt] (.looping { c with printed := c.printed ++ pkt.payload })
  | chokes (pkt : Packet) (err : IoError) : Does opts c [] [pkt] (.returned c (.error err))
  | ignores (pkt : Packet) (silent : pkt.typ = msgContent → opts.passthrough = true) :
      Does opts c [] [pkt] (.looping c)
  | exits (pkt : Packet) (exit : pkt.typ = msgExit) (sent : List Packet)
      (back : sent = c.sent ∨ sent = c.sent ++ [pkt]) :
      Does opts c [] [pkt] (.returned { c with sent := sent } (.ok (.exited (exitCode pkt))))
  | types (bytes : List UInt8) (next : Attached) (reads : c.Reads bytes next)
      (writable : opts.flags &&& clientReadonly = 0) :
      Does opts c [] [] (.looping { next with sent := next.sent ++ [⟨msgContent, bytes⟩] })
  | drops (bytes : List UInt8) (next : Attached) (reads : c.Reads bytes next)
      (readonly : opts.flags &&& clientReadonly ≠ 0) : Does opts c [] [] (.looping next)
  | quits (bytes : List UInt8) (next : Attached) (reads : c.Reads bytes next) (sent : List Packet)
      (back : sent = next.sent ∨ sent = next.sent ++ [⟨msgDetach, []⟩])
      (status : Except IoError ClientStatus) (other : ∀ code, status ≠ .ok (.exited code)) :
      Does opts c [] [] (.returned { next with sent := sent } status)

section Parts

variable {opts : LoopOpts} {wakeup : Wakeup} {c : Attached}

theorem sendResize_does (opts : LoopOpts) (wakeup : Wakeup) (c : Attached) :
    c.Does opts (if wakeup.resizeError = none then [(wakeup.rows, wakeup.cols)] else []) []
      (sendResize wakeup c) := by
  unfold sendResize sendPacketBlocking
  cases wakeup.resizeError with
  | none => exact .resizes _ _
  | some err => exact .ends _ (fun _ no => by cases no)

theorem handleSock_does {sock : Option (Except IoError Packet)}
    (other : ∀ pkt, sock = some (.ok pkt) → pkt.typ ≠ msgResize) :
    c.Does opts [] (heard sock) (handleSock opts wakeup sock c) := by
  rcases sock with _ | err | pkt
  · exact .stays
  · exact .ends _ (fun _ no => by cases no)
  · have resize := other pkt rfl
    unfold handleSock
    dsimp only
    by_cases content : pkt.typ = msgContent
    · rw [if_pos content]
      cases shown : opts.passthrough with
      | true => exact .ignores pkt fun _ => shown
      | false =>
        cases wakeup.printError with
        | none => exact .prints pkt content shown
        | some err => exact .chokes pkt err
    · rw [if_neg content, if_neg resize]
      by_cases exit : pkt.typ = msgExit
      · rw [if_pos exit]
        cases wakeup.exitError with
        | none => exact .exits pkt exit _ (.inr rfl)
        | some err => exact .exits pkt exit _ (.inl rfl)
      · rw [if_neg exit]
        exact .ignores pkt fun same => absurd same content

theorem stdinRead_reads (answer : ReadAnswer 8192) (c : Attached) :
    (∃ bytes next, stdinRead answer c = (.ok bytes, next) ∧ c.Reads bytes next) ∨
      ∃ kind, stdinRead answer c = (.error kind, c) := by
  unfold stdinRead
  by_cases empty : c.held = []
  · rw [if_pos empty]
    cases answer with
    | ok slice =>
      refine .inl ⟨_, _, rfl, rfl, rfl, List.length_take_le _ _, slice.bytes, rfl, ?_⟩
      simp [empty]
    | err kind => exact .inr ⟨kind, rfl⟩
  · rw [if_neg empty]
    refine .inl ⟨_, _, rfl, rfl, rfl, List.length_take_le _ _, [], (List.append_nil _).symm, ?_⟩
    simp

theorem handleStdin_does (stdin : Option (ReadAnswer 8192)) :
    c.Does opts [] [] (handleStdin opts wakeup stdin c) := by
  cases stdin with
  | none => exact .stays
  | some answer =>
    unfold handleStdin
    dsimp only
    rcases stdinRead_reads answer c with ⟨bytes, next, read, reads⟩ | ⟨kind, read⟩
    · rw [read]
      cases bytes with
      | nil => exact .quits [] next reads next.sent (.inl rfl) _ (fun _ no => by cases no)
      | cons first rest =>
        dsimp only
        by_cases detach : first = opts.detachKey
        · rw [if_pos detach]
          unfold sendPacketBlocking
          cases wakeup.inputError with
          | none => exact .quits _ next reads _ (.inr rfl) _ (fun _ no => by cases no)
          | some err => exact .quits _ next reads _ (.inl rfl) _ (fun _ no => by cases no)
        · rw [if_neg detach]
          by_cases writable : opts.flags &&& clientReadonly = 0
          · rw [if_pos writable]
            unfold sendPacketBlocking
            cases wakeup.inputError with
            | none => exact .types _ next reads writable
            | some err => exact .quits _ next reads _ (.inl rfl) _ (fun _ no => by cases no)
          · rw [if_neg writable]
            exact .drops _ next reads writable
    · rw [read]
      cases kind with
      | interrupted => exact .stays
      | wouldBlock | writeZero | unexpectedEof | invalidData | brokenPipe | connectionReset | other =>
        exact .ends _ (fun _ no => by cases no)

end Parts

/-! ## What is kept account of -/

def Packet.size? (pkt : Packet) : Option (UInt16 × UInt16) :=
  if pkt.typ = msgResize ∧ pkt.payload.length ≥ 4 then
    some (u16FromNeBytes (pkt.payload.take 2), u16FromNeBytes ((pkt.payload.drop 2).take 2))
  else none

def sizesAsked (pkts : List Packet) : List (UInt16 × UInt16) := pkts.filterMap Packet.size?

/-- What has come of the sizes measured, of the packets received and of what was read
from the descriptor. -/
structure Attached.Accounts (opts : LoopOpts) (measured : List (UInt16 × UInt16))
    (received : List Packet) (status : Option (Except IoError ClientStatus)) (c : Attached) :
    Prop where
  printed : c.printed <+: toPrint opts received
  complete : status = none → c.printed = toPrint opts received
  /-- the output is asked for once, and first -/
  asks : ∃ later, c.sent = attachRequest opts :: later ∧
    ∀ pkt ∈ later, pkt.typ ∈ [msgContent, msgResize, msgDetach, msgExit]
  fits : (∀ pkt ∈ received, pkt.Fits) → ∀ pkt ∈ c.sent, pkt.Fits
  sizes : sizesAsked c.sent = measured
  typed : keyedIn c.sent <+: c.taken
  readonly : opts.flags &&& clientReadonly ≠ 0 → keyedIn c.sent = []
  writable : opts.flags &&& clientReadonly = 0 → status = none →
    keyedIn c.sent ++ c.held = c.taken
  exited : ∀ code, status = some (.ok (.exited code)) → c.printed = toPrint opts received ∧
    ∃ front pkt, received = front ++ [pkt] ∧ pkt.typ = msgExit ∧ exitCode pkt = code

section Accounts

variable {opts : LoopOpts} {measured : List (UInt16 × UInt16)} {received : List Packet}
  {c next : Attached}

theorem toPrint_append (opts : LoopOpts) (first second : List Packet) :
    toPrint opts (first ++ second) = toPrint opts first ++ toPrint opts second := by
  unfold toPrint
  split
  · rfl
  · exact contentOf_append _ _

theorem sizesAsked_append (first second : List Packet) :
    sizesAsked (first ++ second) = sizesAsked first ++ sizesAsked second :=
  List.filterMap_append

theorem sizesAsked_resize (rows cols : UInt16) :
    sizesAsked [⟨msgResize, u16ToNeBytes rows ++ u16ToNeBytes cols⟩] = [(rows, cols)] := by
  have back (size : UInt16) : u16FromNeBytes (u16ToNeBytes size) = size := by
    have small : size.toNat % 256 ^ 2 = size.toNat := Nat.mod_eq_of_lt size.toNat_lt
    rw [u16FromNeBytes, u16ToNeBytes, fromLe_toLe, small, UInt16.ofNat_toNat]
  have two : (u16ToNeBytes rows).length = 2 := by simp [u16ToNeBytes]
  have first : (u16ToNeBytes rows ++ u16ToNeBytes cols).take 2 = u16ToNeBytes rows := by
    rw [← two, List.take_left]
  have second : ((u16ToNeBytes rows ++ u16ToNeBytes cols).drop 2).take 2 = u16ToNeBytes cols := by
    rw [← two, List.drop_left, List.take_of_length_le]
    simp [u16ToNeBytes]
  have long : 4 ≤ (u16ToNeBytes rows ++ u16ToNeBytes cols).length := by simp [u16ToNeBytes]
  rw [sizesAsked, List.filterMap_cons, Packet.size?, if_pos ⟨rfl, long⟩]
  dsimp only
  rw [first, second, back, back]
  rfl

theorem sizesAsked_other {pkt : Packet} (other : pkt.typ ≠ msgResize) : sizesAsked [pkt] = [] := by
  simp [sizesAsked, Packet.size?, other]

theorem keyedIn_other {pkt : Packet} (other : pkt.typ ≠ msgContent) : keyedIn [pkt] = [] := by
  simp [keyedIn, other]

theorem Attached.Accounts.others {status next : Option (Except IoError ClientStatus)}
    (accounts : c.Accounts opts measured received status) (ended : next = none → status = none)
    (other : ∀ code, next ≠ some (.ok (.exited code))) : c.Accounts opts measured received next where
  printed := accounts.printed
  complete running := accounts.complete (ended running)
  asks := accounts.asks
  fits := accounts.fits
  sizes := accounts.sizes
  typed := accounts.typed
  readonly := accounts.readonly
  writable flags running := accounts.writable flags (ended running)
  exited code exit := absurd exit (other code)

theorem Attached.Accounts.ends {err : Except IoError ClientStatus}
    (accounts : c.Accounts opts measured received none) (other : ∀ code, err ≠ .ok (.exited code)) :
    c.Accounts opts measured received (some err) :=
  accounts.others (fun no => by cases no) fun code same => other code (Option.some.inj same)

theorem Attached.Accounts.sends {status : Option (Except IoError ClientStatus)}
    (accounts : c.Accounts opts measured received status) {pkt : Packet}
    (kind : pkt.typ ∈ [msgResize, msgDetach, msgExit])
    (fits : (∀ other ∈ received, other.Fits) → pkt.Fits) :
    { c with sent := c.sent ++ [pkt] }.Accounts opts (measured ++ sizesAsked [pkt]) received
      status := by
  have other : pkt.typ ≠ msgContent := by
    intro content
    rw [content] at kind
    exact absurd kind (by decide)
  have silent : keyedIn (c.sent ++ [pkt]) = keyedIn c.sent := by
    rw [keyedIn_append, keyedIn_other other, List.append_nil]
  obtain ⟨later, asked, others⟩ := accounts.asks
  exact {
    printed := accounts.printed
    complete := accounts.complete
    asks := by
      refine ⟨later ++ [pkt], by simp [asked], fun one member => ?_⟩
      rcases List.mem_append.mp member with old | new
      · exact others one old
      · rw [List.mem_singleton.mp new]
        exact List.mem_cons_of_mem _ kind
    fits := by
      intro all one member
      rcases List.mem_append.mp member with old | new
      · exact accounts.fits all one old
      · rw [List.mem_singleton.mp new]
        exact fits all
    sizes := by
      change sizesAsked (c.sent ++ [pkt]) = _
      rw [sizesAsked_append, accounts.sizes]
    typed := by rw [silent]; exact accounts.typed
    readonly := by rw [silent]; exact accounts.readonly
    writable := by rw [silent]; exact accounts.writable
    exited := accounts.exited }

theorem Attached.Accounts.receives (accounts : c.Accounts opts measured received none)
    {pkt : Packet} (silent : pkt.typ = msgContent → opts.passthrough = true) :
    c.Accounts opts measured (received ++ [pkt]) none := by
  have nothing : toPrint opts [pkt] = [] := by
    unfold toPrint
    cases quiet : opts.passthrough with
    | true => rfl
    | false =>
      have other : pkt.typ ≠ msgContent := fun content => by
        rw [silent content] at quiet
        cases quiet
      simp [contentOf, other]
  have same : toPrint opts (received ++ [pkt]) = toPrint opts received := by
    rw [toPrint_append, nothing, List.append_nil]
  exact {
    printed := by rw [same]; exact accounts.printed
    complete := by rw [same]; exact accounts.complete
    asks := accounts.asks
    fits := fun all => accounts.fits fun one member => all one (List.mem_append_left _ member)
    sizes := accounts.sizes
    typed := accounts.typed
    readonly := accounts.readonly
    writable := accounts.writable
    exited := fun _ no => by cases no }

theorem Attached.Reads.ends {bytes : List UInt8} (reads : c.Reads bytes next)
    (accounts : c.Accounts opts measured received none) {status : Except IoError ClientStatus}
    (other : ∀ code, status ≠ .ok (.exited code)) :
    next.Accounts opts measured received (some status) := by
  obtain ⟨fresh, taken, _⟩ := reads.read
  exact {
    printed := by rw [reads.printed]; exact accounts.printed
    complete := fun no => by cases no
    asks := by rw [reads.sent]; exact accounts.asks
    fits := by rw [reads.sent]; exact accounts.fits
    sizes := by rw [reads.sent]; exact accounts.sizes
    typed := by
      rw [reads.sent, taken]
      exact accounts.typed.trans (List.prefix_append _ _)
    readonly := by rw [reads.sent]; exact accounts.readonly
    writable := fun _ no => by cases no
    exited := fun code exit => absurd (Option.some.inj exit) (other code) }

theorem Attached.Reads.drops {bytes : List UInt8} (reads : c.Reads bytes next)
    (accounts : c.Accounts opts measured received none) (readonly : opts.flags &&& clientReadonly ≠ 0) :
    next.Accounts opts measured received none := by
  obtain ⟨fresh, taken, _⟩ := reads.read
  exact {
    printed := by rw [reads.printed]; exact accounts.printed
    complete := by rw [reads.printed]; exact accounts.complete
    asks := by rw [reads.sent]; exact accounts.asks
    fits := by rw [reads.sent]; exact accounts.fits
    sizes := by rw [reads.sent]; exact accounts.sizes
    typed := by
      rw [reads.sent, taken]
      exact accounts.typed.trans (List.prefix_append _ _)
    readonly := by rw [reads.sent]; exact accounts.readonly
    writable := fun flags => absurd flags readonly
    exited := fun _ no => by cases no }

theorem Attached.Reads.types {bytes : List UInt8} (reads : c.Reads bytes next)
    (accounts : c.Accounts opts measured received none) (writable : opts.flags &&& clientReadonly = 0) :
    ({ next with sent := next.sent ++ [⟨msgContent, bytes⟩] } : Attached).Accounts opts measured received
      none := by
  obtain ⟨fresh, taken, read⟩ := reads.read
  have balance : keyedIn (next.sent ++ [⟨msgContent, bytes⟩]) ++ next.held = next.taken :=
    calc keyedIn (next.sent ++ [⟨msgContent, bytes⟩]) ++ next.held
        = keyedIn c.sent ++ (bytes ++ next.held) := by
          rw [keyedIn_append, keyedIn_content, reads.sent, List.append_assoc]
      _ = keyedIn c.sent ++ c.held ++ fresh := by rw [← read, List.append_assoc]
      _ = next.taken := by rw [accounts.writable writable rfl, taken]
  obtain ⟨later, asked, others⟩ := accounts.asks
  exact {
    printed := by rw [reads.printed]; exact accounts.printed
    complete := by rw [reads.printed]; exact accounts.complete
    asks := by
      have asked : next.sent ++ [⟨msgContent, bytes⟩] =
          attachRequest opts :: (later ++ [⟨msgContent, bytes⟩]) := by
        rw [reads.sent, asked]
        rfl
      refine ⟨_, asked, fun one member => ?_⟩
      rcases List.mem_append.mp member with old | new
      · exact others one old
      · rw [List.mem_singleton.mp new]
        exact List.mem_cons_self
    fits := by
      intro all one member
      rcases List.mem_append.mp member with old | new
      · rw [reads.sent] at old
        exact accounts.fits all one old
      · rw [List.mem_singleton.mp new]
        exact reads.fits
    sizes := by
      have other : (⟨msgContent, bytes⟩ : Packet).typ ≠ msgResize :=
        show msgContent ≠ msgResize by decide
      change sizesAsked (next.sent ++ [⟨msgContent, bytes⟩]) = measured
      rw [sizesAsked_append, sizesAsked_other other, List.append_nil, reads.sent, accounts.sizes]
    typed := ⟨next.held, balance⟩
    readonly := fun flags => absurd writable flags
    writable := fun _ _ => balance
    exited := fun _ no => by cases no }

theorem Attached.Does.accounts {sizes : List (UInt16 × UInt16)} {pkts : List Packet}
    {loop : ClientLoop} (does : c.Does opts sizes pkts loop)
    (accounts : c.Accounts opts measured received none) :
    loop.client.Accounts opts (measured ++ sizes) (received ++ pkts) loop.status? := by
  cases does with
  | resizes rows cols =>
    rw [List.append_nil, ← sizesAsked_resize]
    have kind : msgResize ∈ [msgResize, msgDetach, msgExit] := List.mem_cons_self
    apply accounts.sends kind fun _ => ?_
    change (u16ToNeBytes rows ++ u16ToNeBytes cols).length ≤ maxPayload
    simp [u16ToNeBytes, maxPayload]
  | stays =>
    rw [List.append_nil, List.append_nil]
    exact accounts
  | ends status other =>
    rw [List.append_nil, List.append_nil]
    exact accounts.ends other
  | prints pkt content shown =>
    rw [List.append_nil]
    have more : toPrint opts (received ++ [pkt]) = c.printed ++ pkt.payload := by
      rw [toPrint_append, ← accounts.complete rfl]
      simp [toPrint, shown, contentOf, content]
    exact {
      printed := by rw [more]; exact List.prefix_rfl
      complete := fun _ => more.symm
      asks := accounts.asks
      fits := fun all => accounts.fits fun one member => all one (List.mem_append_left _ member)
      sizes := accounts.sizes
      typed := accounts.typed
      readonly := accounts.readonly
      writable := accounts.writable
      exited := fun _ no => by cases no }
  | chokes pkt err =>
    rw [List.append_nil]
    exact {
      printed := by
        rw [toPrint_append]
        exact accounts.printed.trans (List.prefix_append _ _)
      complete := fun no => by cases no
      asks := accounts.asks
      fits := fun all => accounts.fits fun one member => all one (List.mem_append_left _ member)
      sizes := accounts.sizes
      typed := accounts.typed
      readonly := accounts.readonly
      writable := fun _ no => by cases no
      exited := fun _ => by simp [ClientLoop.status?] }
  | ignores pkt silent =>
    rw [List.append_nil]
    exact accounts.receives silent
  | exits pkt exit sent back =>
    rw [List.append_nil]
    have other : pkt.typ = msgContent → opts.passthrough = true := fun content => by
      rw [exit] at content
      exact absurd content (by decide)
    have heard := accounts.receives other
    have sends : { c with sent := sent }.Accounts opts measured (received ++ [pkt]) none := by
      rcases back with rfl | rfl
      · exact heard
      · have more := heard.sends (by rw [exit]; decide) fun all => all pkt (by simp)
        rwa [sizesAsked_other (by rw [exit]; decide), List.append_nil] at more
    exact {
      printed := sends.printed
      complete := fun no => by cases no
      asks := sends.asks
      fits := sends.fits
      sizes := sends.sizes
      typed := sends.typed
      readonly := sends.readonly
      writable := fun _ no => by cases no
      exited := fun code same => by
        cases same
        exact ⟨sends.complete rfl, received, pkt, rfl, exit, rfl⟩ }
  | types bytes next reads writable =>
    rw [List.append_nil, List.append_nil]
    exact reads.types accounts writable
  | drops bytes next reads readonly =>
    rw [List.append_nil, List.append_nil]
    exact reads.drops accounts readonly
  | quits bytes next reads sent back status other =>
    rw [List.append_nil, List.append_nil]
    have ended := reads.ends accounts other
    rcases back with rfl | rfl
    · exact ended
    · have kind : msgDetach ∈ [msgResize, msgDetach, msgExit] := by decide
      have silent : (⟨msgDetach, []⟩ : Packet).typ ≠ msgResize := by decide
      have small : (⟨msgDetach, []⟩ : Packet).Fits := Nat.zero_le _
      have more := ended.sends kind fun _ => small
      rwa [sizesAsked_other silent, List.append_nil] at more

end Accounts

/-! ## Runs of the program -/

section Runs

variable {opts : LoopOpts} {size : Nat → UInt16 × UInt16} {measured : List (UInt16 × UInt16)}
  {received : List Packet}

def Attaching.Accounts (opts : LoopOpts) (measured : List (UInt16 × UInt16))
    (received : List Packet) (a : Attaching) : Prop :=
  a.client.Accounts opts measured received a.point.status?

theorem Attached.Accounts.pending {status : Option (Except IoError ClientStatus)} {c : Attached}
    (accounts : c.Accounts opts measured received status) (winchPending : Bool) :
    { c with winchPending := winchPending }.Accounts opts measured received status :=
  ⟨accounts.printed, accounts.complete, accounts.asks, accounts.fits, accounts.sizes,
    accounts.typed, accounts.readonly, accounts.writable, accounts.exited⟩

theorem goOn_accounts {a : Attaching} {point : Point} {loop : ClientLoop}
    (runs : point.status? = none) (accounts : loop.client.Accounts opts measured received loop.status?) :
    (a.goOn point loop).Accounts opts measured received := by
  cases loop with
  | looping c =>
    change c.Accounts opts measured received point.status?
    rw [runs]
    exact accounts
  | returned c status => exact accounts

theorem back_running (asking : Asking) : asking.back.status? = none := by
  cases asking <;> rfl

theorem signal_accounts {a : Attaching} (accounts : a.Accounts opts measured received) :
    a.signal.Accounts opts measured received := by
  have same : a.signal.point.status? = a.point.status? := by
    unfold Attaching.signal
    dsimp only
    split
    · next waits => rw [waits]; rfl
    · rfl
  rw [Attaching.Accounts, same]
  exact accounts.pending _

-- Only the socket's branch takes a packet, and only the parts of an iteration change
-- more than the point and the pending signal.
theorem attachStep_accounts (size : Nat → UInt16 × UInt16) {a : Attaching}
    (accounts : a.Accounts opts measured received) (event : AttachEvent) :
    (attachStep opts size event a).Accounts opts (measured ++ a.tells size event)
      (received ++ a.takes event) := by
  cases event with
  | signal =>
    rw [Attaching.takes, Attaching.tells, List.append_nil, List.append_nil]
    exact signal_accounts accounts
  | step wakeup =>
    obtain ⟨point, c, changes, told⟩ := a
    unfold attachStep Attaching.next Attaching.takes Attaching.tells
    cases point with
    | measure | handler | raw | head =>
      rw [List.append_nil, List.append_nil]
      exact accounts
    | returned status =>
      rw [List.append_nil, List.append_nil]
      exact accounts
    | send asking change =>
      have does := sendResize_does opts
        { wakeup with rows := (size change).1, cols := (size change).2 } c
      exact goOn_accounts (back_running asking) (does.accounts accounts)
    | select =>
      dsimp only
      rw [List.append_nil, List.append_nil]
      cases wakeup.awaited with
      | interrupted winch =>
        cases winch with
        | true => exact signal_accounts accounts
        | false => exact accounts
      | failed kind => exact Attached.Accounts.ends accounts (fun _ no => by cases no)
      | ready sock stdin => exact accounts
    | interrupted =>
      rw [List.append_nil, List.append_nil]
      change Attached.Accounts _ _ _ (Point.status? (if c.winchPending then _ else _)) _
      have runs : (if c.winchPending then Point.measure .winch else .head).status? = none := by
        split <;> rfl
      rw [runs]
      exact Attached.Accounts.pending accounts false
    | sock sock stdin =>
      rcases sock with _ | err | pkt
      · have does : c.Does opts [] (heard none) (handleSock opts wakeup none c) :=
          handleSock_does fun _ same => by cases same
        exact goOn_accounts rfl (does.accounts accounts)
      · have does : c.Does opts [] (heard (some (.error err)))
            (handleSock opts wakeup (some (.error err)) c) :=
          handleSock_does fun _ same => by cases same
        exact goOn_accounts rfl (does.accounts accounts)
      · dsimp only
        by_cases resize : pkt.typ = msgResize
        · rw [if_pos resize]
          have other : pkt.typ = msgContent → opts.passthrough = true := fun content => by
            rw [resize] at content
            exact absurd content (by decide)
          rw [List.append_nil]
          exact Attached.Accounts.receives accounts other
        · rw [if_neg resize]
          have does : c.Does opts [] (heard (some (.ok pkt)))
              (handleSock opts wakeup (some (.ok pkt)) c) :=
            handleSock_does fun one same => by
              cases same
              exact resize
          exact goOn_accounts rfl (does.accounts accounts)
    | stdin stdin =>
      exact goOn_accounts rfl ((handleStdin_does stdin).accounts accounts)

theorem start_accounts (opts : LoopOpts) : (Attaching.start opts.flags).Accounts opts [] [] where
  printed := List.nil_prefix
  complete _ := by
    unfold toPrint
    split <;> rfl
  asks := ⟨[], rfl, fun _ member => by cases member⟩
  fits _ pkt member := by
    rw [List.mem_singleton.mp member]
    exact Nat.le_of_ble_eq_true rfl
  sizes := rfl
  typed := List.prefix_rfl
  readonly _ := rfl
  writable _ _ := rfl
  exited := fun _ no => by cases no

end Runs

theorem attached_accounts (opts : LoopOpts) (size : Nat → UInt16 × UInt16)
    (events : List AttachEvent) :
    (attachedAfter opts size events).Accounts opts (measuredAfter opts size events)
      (receivedAfter opts size events) := by
  induction events using List.reverseRecOn with
  | nil => exact start_accounts opts
  | append_singleton events event ih =>
    have next := attachStep_accounts size ih event
    rw [attachedAfter, runSteps_append, receivedAfter, measuredAfter, emitted_append, emitted_append]
    simp only [emitted, List.append_nil]
    exact next

end Lich
