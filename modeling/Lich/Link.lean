import Lich.StreamLaw
import Lich.Gate

/-! A program and the server's end of its socket.

The socket is a byte stream: what one side has read is a front of what the other
has written. Packets go through it in both directions whole and in order.
-/

set_option autoImplicit false

namespace Lich

open Foundation

/-- The program has sent these packets, and has received these after MSG_PID. -/
structure Link (pid : UInt64) (client : Client) (sent received : List Packet) : Prop where
  greeted : client.stream.greeting = packetBytes (pidPacket pid)
  /-- a packet that the program could not send may be there in part -/
  sends : ∃ torn : Packet, torn.Fits ∧ client.input <+: (sent ++ [torn]).flatMap packetBytes ∧
    client.input.length < ((sent ++ [torn]).flatMap packetBytes).length
  receives : ∃ front first rest, front <+: client.stream.greeting ++ client.wire ∧
    recvPackets (received.length + 1) front = .ok (first :: received, rest)

theorem recvPackets_prefix {count : Nat} {stream rest : List UInt8} {pkts : List Packet}
    (ok : recvPackets count stream = .ok (pkts, rest)) : pkts <+: (packetDecoder.drain stream).1 := by
  induction count generalizing stream rest pkts with
  | zero =>
    cases ok
    exact List.nil_prefix
  | succ count ih =>
    rw [recvPackets, recvPacketBlocking_eq] at ok
    cases found : packetDecoder.next stream with
    | short => rw [found] at ok; cases ok
    | corrupt => rw [found] at ok; cases ok
    | whole pkt later =>
      rw [found] at ok
      simp only [bind, Except.bind, pure, Except.pure] at ok
      cases more : recvPackets count later with
      | error err => rw [more] at ok; cases ok
      | ok result =>
        rw [more] at ok
        cases ok
        rw [packetDecoder.drain_whole found]
        exact List.cons_prefix_cons.mpr ⟨rfl, ih more⟩

theorem pidPacket_fits (pid : UInt64) : (pidPacket pid).Fits := by
  simp only [Packet.Fits, pidPacket, u64ToNeBytes, toLe_length]
  decide

section Linked

variable {pid : UInt64} {client : Client} {sent received : List Packet} {output : List UInt8}
  {childExit : Option Int32} {ok : Client → Op → Prop}

theorem Link.received_prefix (link : Link pid client sent received)
    (life : Life ok output childExit client) : received <+: client.queued := by
  obtain ⟨front, first, rest, part, taken⟩ := link.receives
  have fits : ∀ pkt ∈ pidPacket pid :: client.queued, pkt.Fits := by
    intro pkt member
    rcases List.mem_cons.mp member with rfl | member
    · exact pidPacket_fits pid
    · exact life.fits pkt member
  have stream : client.stream.greeting ++ client.wire <+:
      (pidPacket pid :: client.queued).flatMap packetBytes := by
    rw [List.flatMap_cons, link.greeted, ← life.outbound, List.prefix_append_right_inj]
    exact List.prefix_append _ _
  obtain ⟨back, same⟩ := part.trans stream
  obtain ⟨done, left, parts, decoded, _⟩ := Decoder.drain_encode_of_append_eq
    (fun pkt member => packetBytes_inverts (fits pkt member)) same
  have packets := recvPackets_prefix taken
  rw [decoded] at packets
  have whole : first :: received <+: pidPacket pid :: client.queued := by
    rw [parts]
    exact packets.trans (List.prefix_append _ _)
  exact (List.cons_prefix_cons.mp whole).2

theorem Link.handled_prefix (link : Link pid client sent received)
    (life : Life ok output childExit client) (fits : ∀ pkt ∈ sent, pkt.Fits) :
    client.handled <+: sent := by
  obtain ⟨torn, tornFits, front, short⟩ := link.sends
  have all : ∀ pkt ∈ sent ++ [torn], pkt.Fits := by
    intro pkt member
    rcases List.mem_append.mp member with member | member
    · exact fits pkt member
    · rw [List.mem_singleton.mp member]
      exact tornFits
  have place := life.place (fun overlong => absurd overlong (not_overlong all front)) List.prefix_rfl
  obtain ⟨back, same⟩ := front
  obtain ⟨done, left, parts, decoded, split, _⟩ := Decoder.drain_encode_of_append_eq
    (fun pkt member => packetBytes_inverts (all pkt member)) same
  -- the torn packet is not among those that have come whole
  have inside : done <+: sent := by
    cases left using List.reverseRecOn with
    | nil =>
      have length := congrArg List.length split
      rw [List.append_nil] at parts
      rw [← parts, List.length_append] at length
      omega
    | append_singleton left last =>
      rw [← List.append_assoc] at parts
      rw [(List.append_inj' parts rfl).1]
      exact List.prefix_append _ _
  have drained : (packetDecoder.drain client.input).1 = done := by rw [decoded]
  have served : client.handled <+: done := by
    rw [← drained]
    cases place with
    | inStep parsed =>
      rw [← parsed, drain_served life.served_fits]
      exact List.prefix_append _ _
    | behind header after long parsed _ =>
      have stopped := Client.behind_drain life.served_fits long parsed []
      rw [List.append_nil] at stopped
      rw [stopped]
      exact List.prefix_rfl
  exact served.trans inside

end Linked

end Lich
