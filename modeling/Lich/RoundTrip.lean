import Lich.Packet

/-! Framing: the packet loop on a stream that arrives in pieces. -/

set_option autoImplicit false

namespace Lich

open Foundation

/-- `popPacket` until it returns `None`. A packet takes eight bytes at least,
so the length of the buffer bounds the rounds. -/
def popPackets : (rounds : Nat) → List UInt8 → List Packet × List UInt8
  | 0, buf => ([], buf)
  | rounds + 1, buf =>
    match popPacket buf with
    | (none, buf) => ([], buf)
    | (some pkt, buf) =>
      let (pkts, buf) := popPackets rounds buf
      (pkt :: pkts, buf)

/-- Append each read to the receive buffer and take the whole packets off it. -/
def feedReads : List UInt8 → List (List UInt8) → List Packet × List UInt8
  | buf, [] => ([], buf)
  | buf, read :: reads =>
    let (pkts, buf) := popPackets ((buf ++ read).length + 1) (buf ++ read)
    let (more, buf) := feedReads buf reads
    (pkts ++ more, buf)

def recvPackets : (count : Nat) → List UInt8 → Except IoError (List Packet × List UInt8)
  | 0, stream => .ok ([], stream)
  | count + 1, stream => do
    let (pkt, stream) ← recvPacketBlocking stream
    let (pkts, stream) ← recvPackets count stream
    return (pkt :: pkts, stream)

def discardCorrupt (buf : List UInt8) : List UInt8 :=
  match packetDecoder.next buf with
  | .corrupt => []
  | _ => buf

theorem popPackets_eq (rounds : Nat) (buf : List UInt8) (enough : buf.length < rounds) :
    popPackets rounds buf =
      ((packetDecoder.drain buf).1, discardCorrupt (packetDecoder.drain buf).2) := by
  induction rounds generalizing buf with
  | zero => omega
  | succ rounds ih =>
    rw [popPackets, popPacket_eq]
    cases found : packetDecoder.next buf with
    | whole pkt rest =>
      have shorter := packetDecoder.next_shrinks found
      simp only [packetDecoder.drain_whole found, ih rest (by omega)]
    | short =>
      simp only [packetDecoder.drain_short found, discardCorrupt, found]
    | corrupt =>
      simp only [packetDecoder.drain_corrupt found, discardCorrupt, found]

theorem feedReads_eq_feed (buf : List UInt8) (reads : List (List UInt8))
    (sound : packetDecoder.next (packetDecoder.drain (buf ++ reads.flatten)).2 ≠ .corrupt) :
    feedReads buf reads = packetDecoder.feed buf reads := by
  induction reads generalizing buf with
  | nil => rfl
  | cons read reads ih =>
    rw [List.flatten_cons, ← List.append_assoc] at sound
    have kept : packetDecoder.next (packetDecoder.drain (buf ++ read)).2 ≠ .corrupt := by
      intro corrupt
      rw [packetDecoder.drain_append_corrupt _ corrupt] at sound
      exact sound (packetDecoder.corrupt_append _ corrupt)
    have whole : discardCorrupt (packetDecoder.drain (buf ++ read)).2 =
        (packetDecoder.drain (buf ++ read)).2 := by
      unfold discardCorrupt
      split
      · contradiction
      · rfl
    rw [packetDecoder.drain_append (buf ++ read)] at sound
    rw [feedReads, popPackets_eq _ _ (Nat.lt_succ_self _), Decoder.feed]
    simp only [whole, ih _ sound]

theorem recvPackets_drain (stream : List UInt8) :
    recvPackets (packetDecoder.drain stream).1.length stream =
      .ok (packetDecoder.drain stream) := by
  induction stream using packetDecoder.drain_induction with
  | stuck stream none => rw [packetDecoder.drain_stuck none]; rfl
  | whole stream pkt rest found ih =>
    have first : recvPacketBlocking stream = .ok (pkt, rest) := by
      rw [recvPacketBlocking_eq, found]
    rw [packetDecoder.drain_whole found]
    simp only [List.length_cons, recvPackets, first, ih, bind, Except.bind, pure, Except.pure]

theorem next_short_of_encoded {pkts : List Packet} (fits : ∀ pkt ∈ pkts, pkt.Fits)
    {front back : List UInt8} (same : front ++ back = pkts.flatMap packetBytes) :
    packetDecoder.next (packetDecoder.drain front).2 = .short := by
  have inverts : ∀ pkt ∈ pkts, packetDecoder.Inverts packetBytes pkt :=
    fun pkt member => packetBytes_inverts (fits pkt member)
  cases found : packetDecoder.next (packetDecoder.drain front).2 with
  | short => rfl
  | whole pkt rest => exact absurd found (packetDecoder.drain_rest_stuck front pkt rest)
  | corrupt =>
    -- a corrupt rest would stay corrupt, but the whole stream decodes to its end
    have whole := packetDecoder.drain_append_corrupt back found
    rw [same, Decoder.drain_encode inverts] at whole
    have none := (List.append_eq_nil_iff.mp (congrArg Prod.snd whole).symm).1
    rw [none] at found
    cases found

/-- However the encoding of some packets is cut into reads, the server's packet
loop and the clients' blocking reads take the same packets off any front of it,
those complete there, and leave the same rest. -/
theorem framing_round_trip (pkts : List Packet) (fits : ∀ pkt ∈ pkts, pkt.payload.length ≤ maxPayload)
    (reads : List (List UInt8)) (back : List UInt8)
    (same : reads.flatten ++ back = pkts.flatMap packetBytes) :
    ∃ done left rest, pkts = done ++ left ∧
      feedReads [] reads = (done, rest) ∧
      reads.flatten = done.flatMap packetBytes ++ rest ∧
      (∀ pkt more, left = pkt :: more → rest.length < (packetBytes pkt).length) ∧
      (back = [] → done = pkts ∧ rest = []) ∧
      recvPackets done.length reads.flatten = .ok (done, rest) ∧
      recvPacketBlocking rest = .error (.new .unexpectedEof "failed to fill whole buffer") := by
  have inverts : ∀ pkt ∈ pkts, packetDecoder.Inverts packetBytes pkt :=
    fun pkt member => packetBytes_inverts (fits pkt member)
  obtain ⟨done, left, parts, decoded, front, bound⟩ := Decoder.drain_encode_of_append_eq inverts same
  have short := next_short_of_encoded fits same
  have fed : feedReads [] reads = packetDecoder.drain reads.flatten := by
    rw [feedReads_eq_feed, packetDecoder.feed_nil_eq_drain]
    simp [short]
  have received := recvPackets_drain reads.flatten
  rw [decoded] at received
  refine ⟨done, left, _, parts, fed.trans decoded, front, bound, fun empty => ?_, received, ?_⟩
  · rw [empty, List.append_nil] at same
    have all := Decoder.drain_encode inverts
    rw [← same, decoded] at all
    exact ⟨congrArg Prod.fst all, congrArg Prod.snd all⟩
  · rw [recvPacketBlocking_eq, short]

theorem framing_round_trip_two :
    feedReads [] [[1, 0, 0], [0, 4, 0, 0, 0, 1, 2, 3, 4, 2], [0, 0, 0, 0, 0, 0, 0]] =
      ([⟨msgAttach, [1, 2, 3, 4]⟩, ⟨msgDetach, []⟩], []) := by
  obtain ⟨done, left, rest, _, fed, _, _, whole, _⟩ :=
    framing_round_trip [⟨msgAttach, [1, 2, 3, 4]⟩, ⟨msgDetach, []⟩] (by decide)
      [[1, 0, 0], [0, 4, 0, 0, 0, 1, 2, 3, 4, 2], [0, 0, 0, 0, 0, 0, 0]] [] (by decide)
  rw [fed, (whole rfl).1, (whole rfl).2]

end Lich
