import Lich.Foundation.LittleEndian
import Lich.Foundation.Framing

/-! The wire format: packets, their encoder and the two decoders.

The server decodes what has arrived so far with `popPacket`; the clients decode
a blocking stream with `recvPacketBlocking`. Both are translated as written and
then related to one incremental decoder.
-/

set_option autoImplicit false

namespace Lich

open Foundation

def msgContent : UInt32 := 0
def msgAttach : UInt32 := 1
def msgDetach : UInt32 := 2
def msgResize : UInt32 := 3
def msgExit : UInt32 := 4
def msgPid : UInt32 := 5
def msgDump : UInt32 := 6
def msgDumpEnd : UInt32 := 7
def msgSendKeys : UInt32 := 8

def clientReadonly : UInt32 := (1 : UInt32) <<< 0
def clientLowpriority : UInt32 := (1 : UInt32) <<< 1

def maxPayload : Nat := 4096 - 8

/-! ## Errors of the operating system and of the program -/

inductive ErrorKind where
  | wouldBlock
  | interrupted
  | writeZero
  | unexpectedEof
  | invalidData
  | brokenPipe
  | connectionReset
  | other
  deriving DecidableEq, Repr

/-- An error made by the program with its message, or one passed on from a
system call. -/
inductive IoError where
  | new (kind : ErrorKind) (message : String)
  | os (kind : ErrorKind)
  deriving DecidableEq, Repr

/-! ## Packets -/

structure Packet where
  typ : UInt32
  payload : List UInt8
  deriving DecidableEq, Repr

/-- `to_ne_bytes` on the little-endian targets the program is released for. -/
def u32ToNeBytes (value : UInt32) : List UInt8 := toLe 4 value.toNat

def u32FromNeBytes (bytes : List UInt8) : UInt32 := UInt32.ofNat (fromLe bytes)

def u64ToNeBytes (value : UInt64) : List UInt8 := toLe 8 value.toNat

def u16FromNeBytes (bytes : List UInt8) : UInt16 := UInt16.ofNat (fromLe bytes)

def packetBytes (pkt : Packet) : List UInt8 :=
  u32ToNeBytes pkt.typ ++ u32ToNeBytes (UInt32.ofNat pkt.payload.length) ++ pkt.payload

def headerTyp (bytes : List UInt8) : UInt32 := u32FromNeBytes (bytes.take 4)

def headerLen (bytes : List UInt8) : Nat := (u32FromNeBytes ((bytes.drop 4).take 4)).toNat

/-- Takes one packet off the front of a receive buffer, and gives back what the
buffer then holds. A header that announces too long a payload empties it. -/
def popPacket (buf : List UInt8) : Option Packet × List UInt8 :=
  if buf.length < 8 then (none, buf)
  else
    let typ := headerTyp buf
    let len := headerLen buf
    if len > maxPayload then (none, [])
    else if buf.length < 8 + len then (none, buf)
    else (some ⟨typ, (buf.drop 8).take len⟩, buf.drop (8 + len))

/-- `read_exact` from a peer whose remaining bytes are `stream`, after which it
closes. -/
def readExact (count : Nat) (stream : List UInt8) : Except IoError (List UInt8 × List UInt8) :=
  if stream.length < count then
    .error (.new .unexpectedEof "failed to fill whole buffer")
  else .ok (stream.take count, stream.drop count)

def recvPacketBlocking (stream : List UInt8) : Except IoError (Packet × List UInt8) := do
  let (hdr, stream) ← readExact 8 stream
  let typ := headerTyp hdr
  let len := headerLen hdr
  if len > maxPayload then
    throw (.new .invalidData "packet too large")
  let (payload, stream) ← readExact len stream
  return (⟨typ, payload⟩, stream)

def readU32 (bytes : List UInt8) : Option UInt32 :=
  if bytes.length ≥ 4 then some (u32FromNeBytes (bytes.take 4)) else none

/-! ## Sizes and round trips of the fields -/

@[simp] theorem u32ToNeBytes_length (value : UInt32) : (u32ToNeBytes value).length = 4 :=
  toLe_length 4 _

@[simp] theorem u32FromNeBytes_toNeBytes (value : UInt32) :
    u32FromNeBytes (u32ToNeBytes value) = value := by
  have bound := value.toNat_lt
  rw [u32FromNeBytes, u32ToNeBytes, fromLe_toLe, Nat.mod_eq_of_lt (by simpa using bound),
    UInt32.ofNat_toNat]

theorem u32ToNeBytes_fromNeBytes {bytes : List UInt8} (size : bytes.length = 4) :
    u32ToNeBytes (u32FromNeBytes bytes) = bytes := by
  have bound := fromLe_lt bytes
  rw [size] at bound
  have value : (UInt32.ofNat (fromLe bytes)).toNat = fromLe bytes := by
    rw [UInt32.toNat_ofNat', Nat.mod_eq_of_lt (by simpa using bound)]
  rw [u32FromNeBytes, u32ToNeBytes, value, ← size, toLe_fromLe]

@[simp] theorem readU32_toNeBytes (value : UInt32) : readU32 (u32ToNeBytes value) = some value := by
  have whole : (u32ToNeBytes value).take 4 = u32ToNeBytes value := by
    rw [List.take_of_length_le (by simp)]
  simp [readU32, whole]

theorem packetBytes_length (pkt : Packet) : (packetBytes pkt).length = 8 + pkt.payload.length := by
  simp only [packetBytes, List.length_append, u32ToNeBytes_length]

/-- Payloads that fit are the ones whose length the header can tell. -/
def Packet.Fits (pkt : Packet) : Prop := pkt.payload.length ≤ maxPayload

theorem headerTyp_append {buf : List UInt8} (header : 8 ≤ buf.length) (more : List UInt8) :
    headerTyp (buf ++ more) = headerTyp buf := by
  rw [headerTyp, headerTyp, List.take_append_of_le_length (by omega)]

theorem headerLen_append {buf : List UInt8} (header : 8 ≤ buf.length) (more : List UInt8) :
    headerLen (buf ++ more) = headerLen buf := by
  have enough : 4 ≤ (buf.drop 4).length := by
    rw [List.length_drop]
    omega
  rw [headerLen, headerLen, List.drop_append_of_le_length (by omega),
    List.take_append_of_le_length enough]

theorem headerTyp_packetBytes (pkt : Packet) (more : List UInt8) :
    headerTyp (packetBytes pkt ++ more) = pkt.typ := by
  rw [headerTyp, packetBytes, List.append_assoc, List.append_assoc,
    List.take_append_of_le_length (by simp), List.take_of_length_le (by simp),
    u32FromNeBytes_toNeBytes]

theorem headerLen_packetBytes {pkt : Packet} (fits : pkt.Fits) (more : List UInt8) :
    headerLen (packetBytes pkt ++ more) = pkt.payload.length := by
  have small : pkt.payload.length < 2 ^ 32 := by
    have bound : maxPayload < 2 ^ 32 := by decide
    exact Nat.lt_of_le_of_lt fits bound
  have skip : (packetBytes pkt ++ more).drop 4 =
      u32ToNeBytes (UInt32.ofNat pkt.payload.length) ++ (pkt.payload ++ more) := by
    rw [packetBytes, List.append_assoc, List.append_assoc]
    exact List.drop_left' (u32ToNeBytes_length _)
  rw [headerLen, skip, List.take_append_of_le_length (by simp), List.take_of_length_le (by simp),
    u32FromNeBytes_toNeBytes, UInt32.toNat_ofNat', Nat.mod_eq_of_lt small]

/-! ## The decoder -/

def nextPacket (buf : List UInt8) : Frame UInt8 Packet :=
  if buf.length < 8 then .short
  else if headerLen buf > maxPayload then .corrupt
  else if buf.length < 8 + headerLen buf then .short
  else .whole ⟨headerTyp buf, (buf.drop 8).take (headerLen buf)⟩ (buf.drop (8 + headerLen buf))

theorem nextPacket_whole {buf rest : List UInt8} {pkt : Packet} :
    nextPacket buf = .whole pkt rest ↔
      8 + headerLen buf ≤ buf.length ∧ headerLen buf ≤ maxPayload ∧
        pkt = ⟨headerTyp buf, (buf.drop 8).take (headerLen buf)⟩ ∧
        rest = buf.drop (8 + headerLen buf) := by
  unfold nextPacket
  constructor
  · intro found
    split at found
    · cases found
    · split at found
      · cases found
      · split at found
        · cases found
        · cases found
          exact ⟨by omega, by omega, rfl, rfl⟩
  · rintro ⟨complete, bound, rfl, rfl⟩
    rw [if_neg (by omega), if_neg (by omega), if_neg (by omega)]

theorem nextPacket_corrupt {buf : List UInt8} :
    nextPacket buf = .corrupt ↔ 8 ≤ buf.length ∧ maxPayload < headerLen buf := by
  unfold nextPacket
  constructor
  · intro found
    split at found
    · cases found
    · split at found
      · exact ⟨by omega, by assumption⟩
      · split at found <;> cases found
  · rintro ⟨header, long⟩
    rw [if_neg (by omega), if_pos long]

def packetDecoder : Decoder UInt8 Packet where
  next := nextPacket
  consumes := by
    intro input rest pkt found
    obtain ⟨complete, _, _, rfl⟩ := nextPacket_whole.mp found
    refine ⟨input.take (8 + headerLen input), ?_, (List.take_append_drop _ _).symm⟩
    apply List.ne_nil_of_length_pos
    rw [List.length_take]
    omega
  whole_append := by
    intro input rest pkt more found
    obtain ⟨complete, bound, rfl, rfl⟩ := nextPacket_whole.mp found
    have header : 8 ≤ input.length := by omega
    have len := headerLen_append header more
    have typ := headerTyp_append header more
    apply nextPacket_whole.mpr
    refine ⟨by simp only [len, List.length_append]; omega, by omega, ?_, ?_⟩
    · have inside : headerLen input ≤ (input.drop 8).length := by
        rw [List.length_drop]
        omega
      rw [len, typ, List.drop_append_of_le_length (by omega),
        List.take_append_of_le_length inside]
    · rw [len, List.drop_append_of_le_length complete]
  corrupt_append := by
    intro input more found
    obtain ⟨header, long⟩ := nextPacket_corrupt.mp found
    apply nextPacket_corrupt.mpr
    rw [headerLen_append header, List.length_append]
    exact ⟨by omega, long⟩

theorem packetDecoder_next (buf : List UInt8) : packetDecoder.next buf = nextPacket buf := rfl

theorem packetBytes_inverts {pkt : Packet} (fits : pkt.Fits) :
    packetDecoder.Inverts packetBytes pkt := by
  intro more
  have len := headerLen_packetBytes fits more
  have size := packetBytes_length pkt
  rw [packetDecoder_next]
  apply nextPacket_whole.mpr
  refine ⟨by simp only [len, List.length_append, size]; omega, len ▸ fits, ?_, ?_⟩
  · have body : (packetBytes pkt ++ more).drop 8 = pkt.payload ++ more := by
      rw [packetBytes, List.append_assoc]
      exact List.drop_left' (by simp)
    rw [len, body, headerTyp_packetBytes, List.take_left]
  · rw [len, ← size, List.drop_left]

theorem packetBytes_of_whole {buf rest : List UInt8} {pkt : Packet}
    (found : packetDecoder.next buf = .whole pkt rest) : packetBytes pkt ++ rest = buf := by
  rw [packetDecoder_next] at found
  obtain ⟨complete, _, rfl, rfl⟩ := nextPacket_whole.mp found
  have typ : u32ToNeBytes (headerTyp buf) = buf.take 4 := by
    apply u32ToNeBytes_fromNeBytes
    rw [List.length_take]
    omega
  have size : ((buf.drop 8).take (headerLen buf)).length = headerLen buf := by
    rw [List.length_take, List.length_drop]
    omega
  have len : u32ToNeBytes (UInt32.ofNat (headerLen buf)) = (buf.drop 4).take 4 := by
    rw [headerLen, UInt32.ofNat_toNat]
    apply u32ToNeBytes_fromNeBytes
    rw [List.length_take, List.length_drop]
    omega
  have parts : buf = buf.take 4 ++ ((buf.drop 4).take 4 ++ ((buf.drop 8).take (headerLen buf) ++
      buf.drop (8 + headerLen buf))) := by
    rw [← List.drop_drop, List.take_append_drop, ← List.drop_drop (i := 4) (j := 4),
      List.take_append_drop, List.take_append_drop]
  rw [packetBytes, size, typ, len]
  simp only [List.append_assoc]
  exact parts.symm

theorem fits_of_whole {buf rest : List UInt8} {pkt : Packet}
    (found : packetDecoder.next buf = .whole pkt rest) : pkt.Fits := by
  rw [packetDecoder_next] at found
  obtain ⟨_, bound, rfl, _⟩ := nextPacket_whole.mp found
  rw [Packet.Fits, List.length_take]
  omega

theorem popPacket_eq (buf : List UInt8) :
    popPacket buf =
      match packetDecoder.next buf with
      | .whole pkt rest => (some pkt, rest)
      | .short => (none, buf)
      | .corrupt => (none, []) := by
  simp only [popPacket, packetDecoder_next, nextPacket]
  by_cases header : buf.length < 8
  · simp [header]
  · by_cases long : headerLen buf > maxPayload
    · simp [header, long]
    · by_cases incomplete : buf.length < 8 + headerLen buf
      · simp [header, long, incomplete]
      · simp [header, long, incomplete]

theorem headerTyp_take (stream : List UInt8) : headerTyp (stream.take 8) = headerTyp stream := by
  simp [headerTyp, List.take_take]

theorem headerLen_take (stream : List UInt8) : headerLen (stream.take 8) = headerLen stream := by
  simp [headerLen, List.drop_take, List.take_take]

/-- `recvPacketBlocking` is the decoder on the whole stream, with an error
where no packet is whole. -/
theorem recvPacketBlocking_eq (stream : List UInt8) :
    recvPacketBlocking stream =
      match packetDecoder.next stream with
      | .whole pkt rest => .ok (pkt, rest)
      | .short => .error (.new .unexpectedEof "failed to fill whole buffer")
      | .corrupt => .error (.new .invalidData "packet too large") := by
  simp only [recvPacketBlocking, readExact, packetDecoder_next, nextPacket]
  by_cases header : stream.length < 8
  · simp [header, bind, Except.bind]
  · have typ := headerTyp_take stream
    have len := headerLen_take stream
    by_cases long : headerLen stream > maxPayload
    · simp [header, len, long, bind, Except.bind, throw, throwThe, MonadExceptOf.throw]
    · by_cases incomplete : stream.length < 8 + headerLen stream
      · have body : stream.length - 8 < headerLen stream := by omega
        simp [header, len, long, incomplete, body, bind, Except.bind]
      · have body : ¬ stream.length - 8 < headerLen stream := by omega
        simp [header, len, typ, long, incomplete, body, bind, Except.bind, pure, Except.pure]

theorem recvPacketBlocking_ok_iff (stream rest : List UInt8) (pkt : Packet) :
    recvPacketBlocking stream = .ok (pkt, rest) ↔ popPacket stream = (some pkt, rest) := by
  rw [recvPacketBlocking_eq, popPacket_eq]
  cases packetDecoder.next stream <;> simp

end Lich
