import Lich.Dump

/-! The C program's client side: packets on a blocking socket, and `dump_session`.

It is the reference that the Rust program replaces. A stream is what the server
sends before it closes. How much memory `realloc` grants is a parameter.
-/

set_option autoImplicit false

namespace Lich.C

open Foundation

/-! ## Receiving -/

/-- `read_all`: what there is, when the stream ends early. -/
def readAll (count : Nat) (stream : List UInt8) : List UInt8 × List UInt8 :=
  (stream.take count, stream.drop count)

def recvPacket (stream : List UInt8) : Option (Packet × List UInt8) :=
  let (hdr, stream) := readAll 8 stream
  if hdr.length ≠ 8 then none
  else if headerLen hdr > maxPayload then none
  else if headerLen hdr > 0 then
    let (msg, stream) := readAll (headerLen hdr) stream
    if msg.length ≠ headerLen hdr then none
    else some (⟨headerTyp hdr, msg⟩, stream)
  else some (⟨headerTyp hdr, []⟩, stream)

theorem recvPacket_next (stream : List UInt8) :
    recvPacket stream =
      match packetDecoder.next stream with
      | .whole pkt rest => some (pkt, rest)
      | _ => none := by
  simp only [recvPacket, readAll, packetDecoder_next, nextPacket]
  by_cases header : stream.length < 8
  · have short : ¬ 8 ≤ stream.length := by omega
    simp [header, short]
  · have full : 8 ≤ stream.length := by omega
    have typ := headerTyp_take stream
    have len := headerLen_take stream
    by_cases long : headerLen stream > maxPayload
    · simp [header, len, long]
    · by_cases empty : headerLen stream = 0
      · simp [header, full, typ, len, empty]
      · have positive : 0 < headerLen stream := by omega
        by_cases incomplete : stream.length < 8 + headerLen stream
        · have short : ¬ headerLen stream ≤ stream.length - 8 := by omega
          simp [header, full, len, long, positive, incomplete, short]
        · have whole : headerLen stream ≤ stream.length - 8 := by omega
          simp [header, full, typ, len, long, positive, incomplete, whole]

theorem recvPacket_iff (stream rest : List UInt8) (pkt : Packet) :
    recvPacket stream = some (pkt, rest) ↔ recvPacketBlocking stream = .ok (pkt, rest) := by
  rw [recvPacket_next, recvPacketBlocking_eq]
  cases packetDecoder.next stream <;> simp

/-! ## The buffer of a dump -/

def sizeMax : Nat := 2 ^ 64 - 1

/-- The bytes received so far in an allocation of the given size. -/
structure Buffer where
  bytes : List UInt8
  cap : Nat
  inside : bytes.length ≤ cap

def Buffer.empty : Buffer := ⟨[], 0, Nat.le_refl _⟩

/-- Doubles the capacity until it suffices; a size doubles at most 64 times. -/
def growLoop (need : Nat) : (rounds : Nat) → (newCap : Nat) → Option Nat
  | 0, _ => none
  | rounds + 1, newCap =>
    if newCap < need then
      if newCap > sizeMax / 2 then none else growLoop need rounds (newCap * 2)
    else some newCap

theorem growLoop_enough {need rounds newCap grown : Nat}
    (done : growLoop need rounds newCap = some grown) : need ≤ grown := by
  induction rounds generalizing newCap with
  | zero => cases done
  | succ rounds ih =>
    rw [growLoop] at done
    split at done
    · split at done
      · cases done
      · exact ih done
    · next enough =>
      cases done
      omega

/-- The capacity `buffer_append` asks for, when it needs more than it has. -/
def newCapacity (cap need : Nat) : Option Nat :=
  growLoop need 64 (if cap = 0 then 4096 else cap)

/-- `buffer_append`; `realloc` grants sizes up to `room`. -/
def bufferAppend (room : Nat) (buf : Buffer) (data : List UInt8) : Option Buffer :=
  if data.length > sizeMax - buf.bytes.length then none
  else if fits : (buf.bytes ++ data).length ≤ buf.cap then some ⟨buf.bytes ++ data, buf.cap, fits⟩
  else
    match grown : newCapacity buf.cap (buf.bytes ++ data).length with
    | none => none
    | some newCap =>
      if newCap ≤ room then some ⟨buf.bytes ++ data, newCap, growLoop_enough grown⟩ else none

theorem growLoop_some {need rounds newCap : Nat} (reach : need < newCap * 2 ^ rounds)
    (small : need ≤ sizeMax / 2) :
    ∃ grown, growLoop need (rounds + 1) newCap = some grown ∧ grown ≤ max newCap (2 * need) := by
  induction rounds generalizing newCap with
  | zero =>
    have enough : ¬ newCap < need := by omega
    exact ⟨newCap, by rw [growLoop, if_neg enough], Nat.le_max_left _ _⟩
  | succ rounds ih =>
    rw [growLoop]
    by_cases more : newCap < need
    · have doubled : need < newCap * 2 * 2 ^ rounds := by
        rw [Nat.pow_succ] at reach
        calc need < newCap * (2 ^ rounds * 2) := reach
          _ = newCap * 2 * 2 ^ rounds := by rw [Nat.mul_comm (2 ^ rounds), Nat.mul_assoc]
      have half : ¬ newCap > sizeMax / 2 := by omega
      obtain ⟨grown, done, bound⟩ := ih doubled
      rw [if_pos more, if_neg half]
      exact ⟨grown, done, by omega⟩
    · rw [if_neg more]
      exact ⟨newCap, rfl, Nat.le_max_left _ _⟩

theorem bufferAppend_bytes {room : Nat} {buf next : Buffer} {data : List UInt8}
    (done : bufferAppend room buf data = some next) : next.bytes = buf.bytes ++ data := by
  unfold bufferAppend at done
  split at done
  · cases done
  · split at done
    · cases done
      rfl
    · split at done
      · cases done
      · split at done
        · cases done
          rfl
        · cases done

theorem bufferAppend_some {room : Nat} (buf : Buffer) (data : List UInt8) (page : 4096 ≤ room)
    (twice : 2 * (buf.bytes ++ data).length ≤ room)
    (small : (buf.bytes ++ data).length ≤ sizeMax / 2) :
    ∃ next, bufferAppend room buf data = some next := by
  have sizes : (buf.bytes ++ data).length = buf.bytes.length + data.length := List.length_append
  unfold bufferAppend
  rw [if_neg (by omega)]
  split
  · exact ⟨_, rfl⟩
  · next full =>
    have start : (buf.bytes ++ data).length <
        (if buf.cap = 0 then 4096 else buf.cap) * 2 ^ 63 := by
      have max : sizeMax / 2 < 1 * 2 ^ 63 := by decide
      have one : 1 ≤ if buf.cap = 0 then 4096 else buf.cap := by split <;> omega
      have more := Nat.mul_le_mul_right (2 ^ 63) one
      omega
    obtain ⟨grown, done, bound⟩ := growLoop_some start small
    have fits : grown ≤ room := by
      split at bound <;> omega
    have capacity : newCapacity buf.cap (buf.bytes ++ data).length = some grown := done
    split
    · next none =>
      rw [capacity] at none
      cases none
    · next newCap positive =>
      rw [capacity] at positive
      cases positive
      rw [if_pos fits]
      exact ⟨_, rfl⟩

/-! ## `dump_session` -/

/-- The receive loop; `rounds` exceeds the packets of the stream. -/
def dumpLoop (room : Nat) : (rounds : Nat) → List UInt8 → Buffer → Option Buffer
  | 0, _, _ => none
  | rounds + 1, stream, buf => do
    let (pkt, stream) ← recvPacket stream
    if pkt.typ = msgContent then
      let buf ← bufferAppend room buf pkt.payload
      dumpLoop room rounds stream buf
    else if pkt.typ = msgDumpEnd then some buf
    else dumpLoop room rounds stream buf

/-- The loop of `tailLineStart`, going down from `pos`. -/
def tailLineLoop (buf : List UInt8) (lines : Nat) : (pos found : Nat) → Nat
  | 0, _ => 0
  | pos + 1, found =>
    if buf[pos]? = some 10 then
      let found := found + 1
      if found = lines then pos + 1 else tailLineLoop buf lines pos found
    else tailLineLoop buf lines pos found

def tailLineStart (buf : List UInt8) (len lines : Nat) : Nat :=
  if lines = 0 ∨ len = 0 then 0
  else
    let pos := len
    let pos := if pos > 0 ∧ buf[pos - 1]? = some 10 then pos - 1 else pos
    tailLineLoop buf lines pos 0

def dumpTail (maxBytes maxLines : Nat) (buf : List UInt8) : List UInt8 :=
  let len := buf.length
  let start := if maxBytes ≠ 0 ∧ maxBytes < len then len - maxBytes else 0
  let start :=
    if maxLines ≠ 0 then start + tailLineStart (buf.drop start) (len - start) maxLines else start
  (buf.drop start).take (len - start)

/-- `client_expect_pid`, sending MSG_DUMP, and the loop. -/
def collectDump (room : Nat) (sent : Bool) (stream : List UInt8) : Option (List UInt8) := do
  let (pkt, stream) ← recvPacket stream
  if pkt.typ ≠ msgPid then none
  else if sent = false then none
  else
    let buf ← dumpLoop room (stream.length + 1) stream Buffer.empty
    some buf.bytes

/-- What `dump_session` prints, when it succeeds. -/
def dumpSession (room : Nat) (sent : Bool) (maxBytes maxLines : Nat) (stream : List UInt8) :
    Option (List UInt8) :=
  (collectDump room sent stream).map (dumpTail maxBytes maxLines)

end Lich.C
