import Lich.Master
import Lich.Overlong

/-! The input gate.

What a client types reaches the command unless the client's last MSG_ATTACH was
read-only. The server keeps this as the flags of the client, which packets of
the same stream change while others are judged by them; here it is told of the
packets alone.
-/

set_option autoImplicit false

namespace Lich

open Foundation

/-! ## The gate, told of the packets -/

def Packet.Types (pkt : Packet) : Prop := pkt.typ = msgContent ∨ pkt.typ = msgSendKeys

instance : DecidablePred Packet.Types := fun _ => inferInstanceAs (Decidable (_ ∨ _))

/-- The flags of a MSG_ATTACH. A payload too short for them has none. -/
def attachFlags (payload : List UInt8) : UInt32 :=
  if payload.length < 4 then 0 else u32FromNeBytes (payload.take 4)

/-- The latest MSG_ATTACH of these packets, if any, has the read-only bit. -/
def ReadOnlyAfter (before : List Packet) : Prop :=
  ∃ attach ∈ before.reverse.find? fun pkt => pkt.typ == msgAttach,
    attachFlags attach.payload &&& clientReadonly ≠ 0

instance : DecidablePred ReadOnlyAfter := fun before =>
  decidable_of_iff ((before.reverse.find? fun pkt => pkt.typ == msgAttach).any
      (fun attach => attachFlags attach.payload &&& clientReadonly != 0) = true) (by
    unfold ReadOnlyAfter
    cases before.reverse.find? fun pkt => pkt.typ == msgAttach <;> simp)

/-- The payloads that pass the gate, where these packets came before. -/
def admitted (before : List Packet) : List Packet → List (List UInt8)
  | [] => []
  | pkt :: pkts =>
    (if pkt.Types ∧ ¬ ReadOnlyAfter before then [pkt.payload] else []) ++
      admitted (before ++ [pkt]) pkts

/-- The packets of a stream of which every byte has come in. -/
structure Received (sent : List Packet) (input : List UInt8) (whole : List Packet) : Prop where
  front : whole <+: sent
  inside : whole.flatMap packetBytes <+: input
  most : ∀ pkt, whole ++ [pkt] <+: sent → ¬ (whole ++ [pkt]).flatMap packetBytes <+: input

def PtyEntry.payload? (id : Nat) : PtyEntry → Option (List UInt8)
  | .input client payload => if client = id then some payload else none
  | _ => none

/-- The payloads handed to `fdWriteAll` on behalf of a client, oldest first. -/
def payloadsOf (id : Nat) (journal : List PtyEntry) : List (List UInt8) :=
  journal.filterMap (PtyEntry.payload? id)

/-! ## The flags tell what the packets told -/

theorem readU32_attachFlags (payload : List UInt8) :
    (readU32 payload).getD 0 = attachFlags payload := by
  unfold readU32 attachFlags
  by_cases short : payload.length < 4
  · rw [if_pos short, if_neg (Nat.not_le_of_lt short)]
    rfl
  · rw [if_neg short, if_pos (Nat.le_of_not_lt short)]
    rfl

-- The flags are those of the latest MSG_ATTACH, so the induction is on the
-- packets from the last one back.
theorem flagsAfter_readOnly (before : List Packet) :
    flagsAfter 0 before &&& clientReadonly = 0 ↔ ¬ ReadOnlyAfter before := by
  induction before using List.reverseRecOn with
  | nil => simp [flagsAfter, ReadOnlyAfter]
  | append_singleton before pkt ih =>
    have last : flagsAfter 0 (before ++ [pkt]) = pkt.setFlags (flagsAfter 0 before) := by
      rw [flagsAfter_append]
      rfl
    rw [last]
    unfold Packet.setFlags
    by_cases attach : pkt.typ = msgAttach
    · rw [if_pos attach, readU32_attachFlags]
      simp [ReadOnlyAfter, attach]
    · rw [if_neg attach, ih]
      simp [ReadOnlyAfter, attach]

theorem payloadsOf_append (id : Nat) (first second : List PtyEntry) :
    payloadsOf id (first ++ second) = payloadsOf id first ++ payloadsOf id second :=
  List.filterMap_append

theorem payloadsOf_commandsOf (id : Nat) (journal : List PtyEntry) :
    payloadsOf id (commandsOf id journal) = payloadsOf id journal := by
  induction journal with
  | nil => rfl
  | cons entry journal ih =>
    rw [← List.singleton_append, commandsOf_append, payloadsOf_append, payloadsOf_append, ih]
    apply congrArg (· ++ payloadsOf id journal)
    by_cases own : entry.client? = some id
    · simp [commandsOf, own]
    · have none : entry.payload? id = none := by
        cases entry with
        | input client payload =>
          apply if_neg
          exact fun same => own (congrArg some same)
        | _ => rfl
      simp [commandsOf, own, payloadsOf, none]

theorem payloadsOf_command (pkt : Packet) (id : Nat) (flags : UInt32) :
    payloadsOf id (pkt.command id flags) =
      if pkt.Types ∧ flags &&& clientReadonly = 0 then [pkt.payload] else [] := by
  unfold Packet.command
  by_cases types : pkt.typ = msgContent ∨ pkt.typ = msgSendKeys
  · rw [if_pos types]
    by_cases writable : flags &&& clientReadonly = 0
    · rw [if_pos writable, if_pos ⟨types, writable⟩]
      simp [payloadsOf, PtyEntry.payload?]
    · rw [if_neg writable, if_neg fun both => writable both.2]
      rfl
  · have shut : ¬ (pkt.Types ∧ flags &&& clientReadonly = 0) := fun both => types both.1
    rw [if_neg types, if_neg shut]
    split <;> rfl

theorem payloadsOf_commands (id : Nat) (before pkts : List Packet) :
    payloadsOf id (commands id (flagsAfter 0 before) pkts) = admitted before pkts := by
  induction pkts generalizing before with
  | nil => rfl
  | cons pkt pkts ih =>
    have next : pkt.setFlags (flagsAfter 0 before) = flagsAfter 0 (before ++ [pkt]) := by
      rw [flagsAfter_append]
      rfl
    rw [commands, payloadsOf_append, payloadsOf_command, next, ih, admitted]
    simp only [flagsAfter_readOnly]

theorem Client.Obeyed.payloads {journal : List PtyEntry} {client : Client}
    (obeyed : client.Obeyed journal) :
    payloadsOf client.stream.id journal = admitted [] client.handled := by
  rw [← payloadsOf_commandsOf, obeyed.commands]
  exact payloadsOf_commands _ [] _

/-! ## A client that attached read-only -/

theorem readOnlyAfter_append {before pkts : List Packet} (shut : ReadOnlyAfter before)
    (none : ∀ pkt ∈ pkts, pkt.typ ≠ msgAttach) : ReadOnlyAfter (before ++ pkts) := by
  have skip : pkts.reverse.find? (fun pkt => pkt.typ == msgAttach) = .none := by
    apply List.find?_eq_none.mpr
    intro pkt member same
    exact none pkt (List.mem_reverse.mp member) (beq_iff_eq.mp same)
  unfold ReadOnlyAfter
  rw [List.reverse_append, List.find?_append, skip, Option.none_or]
  exact shut

theorem admitted_append (before first second : List Packet) :
    admitted before (first ++ second) = admitted before first ++ admitted (before ++ first) second := by
  induction first generalizing before with
  | nil => simp [admitted]
  | cons pkt first ih =>
    rw [List.cons_append, admitted, admitted, ih, List.append_assoc, List.append_assoc,
      List.singleton_append]

theorem admitted_shut {before pkts : List Packet} (shut : ReadOnlyAfter before)
    (none : ∀ pkt ∈ pkts, pkt.typ ≠ msgAttach) : admitted before pkts = [] := by
  induction pkts generalizing before with
  | nil => rfl
  | cons pkt pkts ih =>
    have first : ∀ other ∈ [pkt], other.typ ≠ msgAttach := by
      intro other member
      rw [List.mem_singleton.mp member]
      exact none pkt List.mem_cons_self
    rw [admitted, if_neg fun both => both.2 shut, List.nil_append]
    apply ih
    · exact readOnlyAfter_append shut first
    · exact fun other member => none other (List.mem_cons_of_mem _ member)

theorem admitted_silent {before pkts : List Packet} (silent : ∀ pkt ∈ pkts, ¬ pkt.Types) :
    admitted before pkts = [] := by
  induction pkts generalizing before with
  | nil => rfl
  | cons pkt pkts ih =>
    rw [admitted, if_neg fun both => silent pkt List.mem_cons_self both.1, List.nil_append]
    exact ih fun other member => silent other (List.mem_cons_of_mem _ member)

theorem admitted_readOnly {sent whole early later : List Packet} {attach : Packet}
    (front : whole <+: sent) (order : sent = early ++ attach :: later)
    (silent : ∀ pkt ∈ early, ¬ pkt.Types) (typ : attach.typ = msgAttach)
    (bit : attachFlags attach.payload &&& clientReadonly ≠ 0)
    (never : ∀ pkt ∈ later, pkt.typ ≠ msgAttach) : admitted [] whole = [] := by
  have all : admitted [] sent = [] := by
    have mute : ∀ pkt ∈ [attach], ¬ pkt.Types := by
      intro pkt member
      rw [List.mem_singleton.mp member, Packet.Types, typ]
      decide
    have shut : ReadOnlyAfter ([] ++ early ++ [attach]) := by
      refine ⟨attach, ?_, bit⟩
      simp [typ]
    rw [order, List.append_cons, admitted_append, admitted_append, admitted_silent silent,
      admitted_silent mute, ← List.append_assoc, admitted_shut shut never]
    rfl
  obtain ⟨rest, rfl⟩ := front
  rw [admitted_append] at all
  exact (List.append_eq_nil_iff.mp all).1

/-! ## The packets that have come in -/

section Stream

variable {sent : List Packet} {input : List UInt8} (valid : ∀ pkt ∈ sent, pkt.Fits)
  (front : input <+: sent.flatMap packetBytes)

include valid front

theorem drain_received {whole : List Packet} (received : Received sent input whole) :
    (packetDecoder.drain input).1 = whole := by
  obtain ⟨back, same⟩ := front
  obtain ⟨done, left, parts, drained, split, bound⟩ := Decoder.drain_encode_of_append_eq
    (fun pkt member => packetBytes_inverts (valid pkt member)) same
  rw [drained]
  obtain ⟨rest, order⟩ := received.front
  have both : done ++ left = whole ++ rest := parts.symm.trans order.symm
  -- neither list of whole packets can be shorter than the other
  rcases List.append_eq_append_iff.mp both with ⟨more, rfl, rfl⟩ | ⟨more, rfl, rfl⟩
  · cases more with
    | nil => exact (List.append_nil _).symm
    | cons pkt more =>
      have short := bound pkt (more ++ rest) rfl
      have inside := received.inside
      rw [split, List.flatMap_append, List.prefix_append_right_inj, List.flatMap_cons] at inside
      have long := ((List.prefix_append _ _).trans inside).length_le
      omega
  · cases more with
    | nil => exact List.append_nil _
    | cons pkt more =>
      have one : whole ++ pkt :: more = (whole ++ [pkt]) ++ more := List.append_cons _ _ _
      have next : whole ++ [pkt] <+: sent := by
        rw [parts, one, List.append_assoc]
        exact List.prefix_append _ _
      apply absurd _ (received.most pkt next)
      have bytes : input = (whole ++ [pkt]).flatMap packetBytes ++
          (more.flatMap packetBytes ++ (packetDecoder.drain input).2) := by
        rw [← List.append_assoc, ← List.flatMap_append, ← one]
        exact split
      exact ⟨_, bytes.symm⟩

theorem not_overlong : ¬ Overlong input := by
  intro overlong
  obtain ⟨back, same⟩ := front
  obtain ⟨done, left, parts, _, split, _⟩ := Decoder.drain_encode_of_append_eq
    (fun pkt member => packetBytes_inverts (valid pkt member)) same
  have rest : (packetDecoder.drain input).2 ++ back = left.flatMap packetBytes := by
    rw [split, parts, List.flatMap_append, List.append_assoc] at same
    exact List.append_cancel_left same
  have found := packetDecoder.corrupt_append back overlong
  rw [rest] at found
  cases left with
  | nil => cases found
  | cons pkt left =>
    have member : pkt ∈ sent := by
      rw [parts]
      simp
    rw [List.flatMap_cons, packetBytes_inverts (valid pkt member)] at found
    cases found

end Stream

/-! ## One call of `readClientPackets` -/

def masterAfter (tick : Tick) (server : Server) (before : List Client) : Pty :=
  (readClients (drained tick server).history tick.dumpClock before (drained tick server).master).2

def answerOne (tick : Tick) (server : Server) (before : List Client) (client : Client) :
    Client × Pty :=
  readClientPackets client (masterAfter tick server before) (drained tick server).history
    (tick.dumpClock client.stream.id)

theorem answerOne_obeyed {server : Server} (obeyed : server.Obeyed) (tick : Tick)
    {before after : List Client} {client : Client}
    (turn : (drained tick server).clients = before ++ client :: after) :
    (answerOne tick server before client).1.Obeyed
      (answerOne tick server before client).2.journal := by
  have start := drained_obeyed obeyed tick
  have member (other : Client) (inside : other ∈ before ++ client :: after) :
      other.Obeyed (drained tick server).master.journal := by
    rw [← turn] at inside
    exact start.clients other (List.mem_append_left _ inside)
  have distinct := (List.nodup_append.mp start.distinct).1
  rw [turn, idsOf, List.map_append] at distinct
  obtain ⟨first, _, apart⟩ := List.nodup_append.mp distinct
  obtain ⟨added, journal, serving, _⟩ := readClients_obeyed (drained tick server).history
    tick.dumpClock before (drained tick server).master first
    fun other inside => member other (List.mem_append_left _ inside)
  have waiting : client.Obeyed (masterAfter tick server before).journal := by
    rw [masterAfter, journal]
    apply (member client (by simp)).other
    apply serving.others
    exact fun inside => apart _ inside _ List.mem_cons_self rfl
  obtain ⟨own, recorded, _, next⟩ := readClientPackets_obeyed client
    (masterAfter tick server before) (drained tick server).history
    (tick.dumpClock client.stream.id) waiting
  rw [answerOne, recorded]
  exact next

theorem answerOne_life {server : Server} (sound : server.Sound fun _ _ => True) (tick : Tick)
    (before : List Client) {client : Client} (member : client ∈ (drained tick server).clients) :
    (∃ output childExit,
      Life (fun _ _ => True) output childExit (answerOne tick server before client).1) ∧
    (answerOne tick server before client).1.Settled := by
  obtain ⟨_, _, drainedEq⟩ := drained_eq tick server
  have clients : (drained tick server).clients = (opened tick server).clients.map
      (runSteps Client.step ((tickChunks tick server).map Op.broadcast)) := by
    rw [drainedEq]
    rfl
  have output : (masterAfter tick server before).output = (drained tick server).master.output :=
    (readClients_eq _ _ _ _).2
  have same : (answerOne tick server before client).1 = runSteps Client.step
      (readOps client (drained tick server).history (drained tick server).master.output.length
        (tick.dumpClock client.stream.id)) client := by
    rw [answerOne, readClientPackets_fst, output]
  constructor
  · rw [clients] at member
    obtain ⟨old, inside, rfl⟩ := List.mem_map.mp member
    have life := (opened_life sound tick inside).answered (opened_history sound tick)
      (along_of_forall (fun _ _ => trivial) _ _)
    rw [answerOps, runSteps_append] at life
    rw [same, Client.runSteps_id]
    exact ⟨_, _, life⟩
  · rw [same]
    exact readOps_settled _ _ _ _

-- Each of the two records is per client: the flags follow the packets of one
-- stream, and the journal of the shared master names the client of each entry.
theorem input_gate (server : Server) (reached : Reached (fun _ _ => True) server) (tick : Tick)
    (before after : List Client) (client : Client)
    (turn : (drained tick server).clients = before ++ client :: after)
    (sent : List Packet) (valid : ∀ pkt ∈ sent, pkt.Fits ∧ pkt.Stays)
    (front : (answerOne tick server before client).1.input <+: sent.flatMap packetBytes)
    (read : Entry.left .readError ∉ (answerOne tick server before client).1.stream.journal)
    (whole : List Packet)
    (received : Received sent (answerOne tick server before client).1.input whole) :
    payloadsOf client.stream.id (answerOne tick server before client).2.journal =
      admitted [] whole ∧
    ∀ early attach later, sent = early ++ attach :: later → (∀ pkt ∈ early, ¬ pkt.Types) →
      attach.typ = msgAttach → attachFlags attach.payload &&& clientReadonly ≠ 0 →
      (∀ pkt ∈ later, pkt.typ ≠ msgAttach) →
      payloadsOf client.stream.id (answerOne tick server before client).2.journal = [] := by
  have member : client ∈ (drained tick server).clients := by
    rw [turn]
    simp
  have fits : ∀ pkt ∈ sent, pkt.Fits := fun pkt inside => (valid pkt inside).1
  obtain ⟨⟨output, childExit, life⟩, settled⟩ :=
    answerOne_life reached.sound tick before member
  have sound : NoStrayPacket (answerOne tick server before client).1.input :=
    fun overlong => absurd overlong (not_overlong fits front)
  have stuck := settled.resolve_left fun broken => read (by simpa [Client.intake] using broken)
  have served : (answerOne tick server before client).1.handled = whole := by
    rw [← drain_received fits front received]
    exact life.served_all sound stuck
  have payloads := (answerOne_obeyed reached.obeyed tick turn).payloads
  have id : (answerOne tick server before client).1.stream.id = client.stream.id :=
    readClientPackets_id _ _ _ _
  rw [id, served] at payloads
  refine ⟨payloads, ?_⟩
  intro early attach later order silent typ bit never
  rw [payloads]
  exact admitted_readOnly received.front order silent typ bit never

def watching : List Packet :=
  [⟨msgContent, [97]⟩, ⟨msgAttach, [1, 0, 0, 0]⟩, ⟨msgContent, [98]⟩]

def watcher : Accept := ⟨[.ok ⟨watching.flatMap packetBytes, by decide⟩], [], 16, true⟩

theorem input_gate_watcher :
    payloadsOf 0 (answerOne (accepting [watcher]) (Server.start 1 false []) []
      (Client.accept 1 0 watcher)).2.journal = [[97]] := by
  have input : (answerOne (accepting [watcher]) (Server.start 1 false []) []
      (Client.accept 1 0 watcher)).1.input = watching.flatMap packetBytes := by
    decide
  have whole : Received watching (watching.flatMap packetBytes) watching := by
    refine ⟨List.prefix_rfl, List.prefix_rfl, fun pkt longer => ?_⟩
    have size := longer.length_le
    rw [List.length_append, List.length_singleton] at size
    omega
  have valid : ∀ pkt ∈ watching, pkt.Fits ∧ pkt.Stays := by
    simp [watching, Packet.Fits, Packet.Stays, maxPayload, msgContent, msgAttach, msgDetach,
      msgExit]
  have gate := input_gate (Server.start 1 false []) ⟨1, false, [], [], trivial, rfl⟩
    (accepting [watcher]) [] [] (Client.accept 1 0 watcher) rfl watching valid
    (by rw [input]) (by decide) watching (by rw [input]; exact whole)
  exact gate.1.trans (by decide)

end Lich
