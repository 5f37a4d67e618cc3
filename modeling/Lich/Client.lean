import Lich.Foundation.Runs
import Lich.Descriptor
import Lich.History

/-! A connected client and its outbound queue.

Everything the server sends to a client goes through `sendPacketNonblocking`
and leaves through `tryFlushClient`. What either can do to a client is said
once, by `Sent`.
-/

set_option autoImplicit false

namespace Lich

open Foundation

def sendQueueCap : Nat := 16 * 1024 * 1024

def exitDrainDeadline : Nat := 5 * 1000000000

structure Client where
  stream : UnixStream
  buf : List UInt8
  attached : Bool
  flags : UInt32
  disconnected : Bool
  /-- The deque's two slices are one list: a write of the front slice that the
  kernel takes whole is a write of the list that it takes in part. -/
  sendQueue : List UInt8
  closeAfterDrain : Option Instant
  deriving DecidableEq

namespace Client

def log (client : Client) (entry : Entry) : Client :=
  { client with stream := client.stream.log entry }

def leave (client : Client) (why : Departure) : Client :=
  { client with disconnected := true, stream := client.stream.log (.left why) }

/-- `close_after_drain = Some(since)`. -/
def close (client : Client) (cause : Terminal) (since : Instant) : Client :=
  { client with closeAfterDrain := some since, stream := client.stream.log (.closing cause since) }

def wire (client : Client) : List UInt8 := wireOf client.stream.journal

def queued (client : Client) : List Packet := queuedOf client.stream.journal

def served (client : Client) : List (Packet × Nat) := servedOf client.stream.journal

def input (client : Client) : List UInt8 := inputOf client.stream.journal

end Client

/-! ## Sending -/

/-- The loop of `tryFlushClient`; `rounds` exceeds the answers left. -/
def tryFlushLoop : (rounds : Nat) → Client → Except IoError Unit × Client
  | 0, client => (.ok (), client)
  | rounds + 1, client =>
    if client.sendQueue = [] then (.ok (), client)
    else match client.stream.write client.sendQueue with
      | (.ok 0, stream) =>
        (.error (.new .writeZero "client send returned 0"), { client with stream })
      | (.err .wouldBlock, stream) => (.ok (), { client with stream })
      | (.err .interrupted, stream) => tryFlushLoop rounds { client with stream }
      | (.err kind, stream) => (.error (.os kind), { client with stream })
      | (.ok written, stream) =>
        tryFlushLoop rounds { client with stream, sendQueue := client.sendQueue.drop written }

def tryFlushClient (client : Client) : Except IoError Unit × Client :=
  tryFlushLoop (client.stream.writes.length + 1) client

def sendPacketNonblocking (client : Client) (pkt : Packet) : Except IoError Unit × Client :=
  let bytes := packetBytes pkt
  if client.sendQueue.length + bytes.length > sendQueueCap then
    (.error (.new .writeZero "client send queue overflow"), client.log (.refused pkt))
  else
    tryFlushClient ({ client with sendQueue := client.sendQueue ++ bytes }.log (.queued pkt))

/-- Sends the pieces of a snapshot in turn, and gives the client up at the
first that fails. -/
def sendChunks : List (List UInt8) → Client → Bool × Client
  | [], client => (true, client)
  | chunk :: rest, client =>
    match sendPacketNonblocking client ⟨msgContent, chunk⟩ with
    | (.ok _, client) => sendChunks rest client
    | (.error _, client) => (false, client.leave .sendFailed)

def sendHistory (client : Client) (history : History) (sendEnd : Bool) : Client :=
  match sendChunks (chunks maxPayload history.snapshot) client with
  | (false, client) => client
  | (true, client) =>
    if sendEnd then (sendPacketNonblocking client ⟨msgDumpEnd, []⟩).2 else client

/-- The body of the loop in `broadcastContent`. -/
def broadcastTo (bytes : List UInt8) (client : Client) : Client :=
  match sendPacketNonblocking client ⟨msgContent, bytes⟩ with
  | (.ok _, client) => client
  | (.error _, client) => client.leave .sendFailed

def broadcastContent (clients : List Client) (bytes : List UInt8) : List Client :=
  clients.map fun client => if client.attached then broadcastTo bytes client else client

/-! ## What sending does -/

def Entry.Queues : Entry → Prop
  | .queued _ => True
  | _ => False

def Entry.Refuses : Entry → Prop
  | .refused _ => True
  | _ => False

def Entry.Outbound : Entry → Prop
  | .queued _ | .refused _ | .wrote _ | .writeFailed _ => True
  | _ => False

namespace Client

/-- A client after it was sent to: only its script, journal and queue moved. -/
def sent (client : Client) (entries : List Entry) (later : List WriteAnswer)
    (rest : List UInt8) : Client :=
  { client with
    stream := { client.stream with
      writes := later
      journal := client.stream.journal ++ entries }
    sendQueue := rest }

section Fields

variable (client : Client) (entries : List Entry) (later : List WriteAnswer) (rest : List UInt8)

@[simp] theorem sent_buf : (client.sent entries later rest).buf = client.buf := rfl
@[simp] theorem sent_attached : (client.sent entries later rest).attached = client.attached := rfl
@[simp] theorem sent_flags : (client.sent entries later rest).flags = client.flags := rfl
@[simp] theorem sent_disconnected :
    (client.sent entries later rest).disconnected = client.disconnected := rfl
@[simp] theorem sent_closeAfterDrain :
    (client.sent entries later rest).closeAfterDrain = client.closeAfterDrain := rfl
@[simp] theorem sent_sendQueue : (client.sent entries later rest).sendQueue = rest := rfl
@[simp] theorem sent_id : (client.sent entries later rest).stream.id = client.stream.id := rfl
@[simp] theorem sent_reads :
    (client.sent entries later rest).stream.reads = client.stream.reads := rfl
@[simp] theorem sent_greeting :
    (client.sent entries later rest).stream.greeting = client.stream.greeting := rfl
@[simp] theorem sent_journal :
    (client.sent entries later rest).stream.journal = client.stream.journal ++ entries := rfl

theorem sent_sent (entries' : List Entry) (later' : List WriteAnswer) (rest' : List UInt8) :
    (client.sent entries later rest).sent entries' later' rest' =
      client.sent (entries ++ entries') later' rest' := by
  simp [sent, List.append_assoc]

theorem sent_self : client.sent [] client.stream.writes client.sendQueue = client := by
  simp [sent]

end Fields

end Client

/-- What becomes of a queue and the packets offered to it: the entries recorded
and what the queue then holds. -/
structure Sent (queue : List UInt8) (packets : List Packet) (entries : List Entry)
    (rest : List UInt8) : Prop where
  outbound : ∀ entry ∈ entries, entry.Outbound
  /-- no byte is lost, doubled or reordered -/
  conserved : wireOf entries ++ rest = queue ++ (queuedOf entries).flatMap packetBytes
  queued : queuedOf entries <+: packets
  bounded : queue.length ≤ sendQueueCap → rest.length ≤ sendQueueCap
  roomy : queue.length + (packets.flatMap packetBytes).length ≤ sendQueueCap →
    ∀ pkt, Entry.refused pkt ∉ entries
  /-- sending stops at a first packet that finds no room -/
  full : ∀ pkt more, packets = pkt :: more →
    sendQueueCap < queue.length + (packetBytes pkt).length → entries = [.refused pkt]
  first : ∀ pkt more, packets = pkt :: more →
    queue.length + (packetBytes pkt).length ≤ sendQueueCap → queuedOf entries ≠ []
  refusedLast : NeverAfter Entry.Refuses Entry.Queues entries
  lossy : (∃ entry ∈ entries, entry.Refuses) → queuedOf entries ≠ packets

def Idle (packets : List Packet) (entries : List Entry) (more : List Packet) : Prop :=
  packets = [] → entries = [] ∨ more = []

theorem Idle.of_cons {pkt : Packet} {packets more : List Packet} {entries : List Entry} :
    Idle (pkt :: packets) entries more := nofun

theorem Idle.of_nil {packets : List Packet} {entries : List Entry} : Idle packets entries [] :=
  fun _ => .inr rfl

theorem Sent.rest_length {queue rest : List UInt8} {packets : List Packet} {entries : List Entry}
    (sent : Sent queue packets entries rest) :
    rest.length ≤ queue.length + ((queuedOf entries).flatMap packetBytes).length := by
  have sizes := congrArg List.length sent.conserved
  simp only [List.length_append] at sizes
  omega

theorem Sent.nil (queue : List UInt8) : Sent queue [] [] queue where
  outbound := by simp
  conserved := by simp
  queued := List.prefix_rfl
  bounded := id
  roomy := by simp
  full := nofun
  first := nofun
  refusedLast := neverAfter_nil
  lossy := by simp

theorem Sent.append {queue middle rest : List UInt8} {first second : List Packet}
    {before after : List Entry} (start : Sent queue first before middle)
    (all : queuedOf before = first) (idle : Idle first before second)
    (more : Sent middle second after rest) :
    Sent queue (first ++ second) (before ++ after) rest where
  outbound entry member := by
    rcases List.mem_append.mp member with member | member
    · exact start.outbound entry member
    · exact more.outbound entry member
  conserved := by
    rw [wireOf_append, queuedOf_append, List.flatMap_append, List.append_assoc, more.conserved,
      ← List.append_assoc, start.conserved, List.append_assoc]
  queued := by
    rw [queuedOf_append, all]
    exact (List.prefix_append_right_inj first).mpr more.queued
  bounded small := more.bounded (start.bounded small)
  roomy room pkt member := by
    have kept := start.rest_length
    rw [List.flatMap_append, List.length_append] at room
    rw [all] at kept
    rcases List.mem_append.mp member with member | member
    · exact start.roomy (by omega) pkt member
    · exact more.roomy (by omega) pkt member
  full pkt later split excess := by
    cases first with
    | cons head tail =>
      -- the first packet was queued, so it had room
      obtain ⟨rfl, _⟩ := List.cons_eq_cons.mp split
      rw [start.full _ _ rfl excess] at all
      cases all
    | nil =>
      rcases idle rfl with none | none
      · subst none
        have same : queue = middle := by simpa using start.conserved.symm
        rw [List.nil_append]
        exact more.full pkt later (by simpa using split) (same ▸ excess)
      · subst none
        cases split
  first pkt later split room := by
    rw [queuedOf_append]
    cases first with
    | cons head tail =>
      rw [all]
      exact nofun
    | nil =>
      rcases idle rfl with none | none
      · subst none
        have same : queue = middle := by simpa using start.conserved.symm
        have later := more.first pkt later (by simpa using split) (same ▸ room)
        simpa using later
      · subst none
        cases split
  refusedLast := by
    refine neverAfter_append.mpr ⟨start.refusedLast, more.refusedLast, ?_⟩
    intro entry member _ _ kind
    exact absurd all (start.lossy ⟨entry, member, kind⟩)
  lossy := by
    rintro ⟨entry, member, kind⟩ same
    rcases List.mem_append.mp member with member | member
    · exact start.lossy ⟨entry, member, kind⟩ all
    · rw [queuedOf_append, all] at same
      exact more.lossy ⟨entry, member, kind⟩ (List.append_cancel_left same)

theorem Sent.weaken {queue rest : List UInt8} {packets more : List Packet} {entries : List Entry}
    (sent : Sent queue packets entries rest) (started : packets = [] → more = []) :
    Sent queue (packets ++ more) entries rest where
  outbound := sent.outbound
  conserved := sent.conserved
  queued := sent.queued.trans (List.prefix_append _ _)
  bounded := sent.bounded
  roomy room := by
    apply sent.roomy
    rw [List.flatMap_append, List.length_append] at room
    omega
  full pkt later split excess := by
    cases packets with
    | cons head tail =>
      obtain ⟨rfl, _⟩ := List.cons_eq_cons.mp split
      exact sent.full _ _ rfl excess
    | nil =>
      rw [started rfl] at split
      cases split
  first pkt later split room := by
    cases packets with
    | cons head tail =>
      obtain ⟨rfl, _⟩ := List.cons_eq_cons.mp split
      exact sent.first _ _ rfl room
    | nil =>
      rw [started rfl] at split
      cases split
  refusedLast := sent.refusedLast
  lossy lost same := by
    have whole : packets <+: queuedOf entries := same ▸ List.prefix_append _ _
    exact sent.lossy lost (sent.queued.eq_of_length_le whole.length_le)

theorem Sent.wrote (queue : List UInt8) (count : Nat) :
    Sent queue [] [.wrote (queue.take count)] (queue.drop count) where
  outbound := by simp [Entry.Outbound]
  conserved := by simp [List.take_append_drop]
  queued := List.prefix_rfl
  bounded small := by
    rw [List.length_drop]
    omega
  roomy := by simp
  full := nofun
  first := nofun
  refusedLast := List.pairwise_singleton _ _
  lossy := by simp [Entry.Refuses]

theorem Sent.writeFailed (queue : List UInt8) (kind : ErrorKind) :
    Sent queue [] [.writeFailed kind] queue where
  outbound := by simp [Entry.Outbound]
  conserved := by simp
  queued := List.prefix_rfl
  bounded := id
  roomy := by simp
  full := nofun
  first := nofun
  refusedLast := List.pairwise_singleton _ _
  lossy := by simp [Entry.Refuses]

theorem Sent.refused {queue : List UInt8} {pkt : Packet}
    (full : sendQueueCap < queue.length + (packetBytes pkt).length) :
    Sent queue [pkt] [.refused pkt] queue where
  outbound := by simp [Entry.Outbound]
  conserved := by simp
  queued := List.nil_prefix
  bounded := id
  roomy room := by
    simp only [List.flatMap_cons, List.flatMap_nil, List.append_nil] at room
    omega
  full other more split _ := by
    cases split
    rfl
  first other more split room := by
    cases split
    omega
  refusedLast := List.pairwise_singleton _ _
  lossy _ := by simp

theorem Sent.queued_one {queue : List UInt8} {pkt : Packet}
    (room : queue.length + (packetBytes pkt).length ≤ sendQueueCap) :
    Sent queue [pkt] [.queued pkt] (queue ++ packetBytes pkt) where
  outbound := by simp [Entry.Outbound]
  conserved := by simp
  queued := List.prefix_rfl
  bounded _ := by rwa [List.length_append]
  roomy := by simp
  full other more split excess := by
    cases split
    omega
  first _ _ _ _ := by simp
  refusedLast := List.pairwise_singleton _ _
  lossy := by simp [Entry.Refuses]

/-! ## The flush loop -/

/-- A flush offers no packet, moves bytes from the queue to the wire, and stops
without an error only at an empty queue or a write that would block. -/
theorem tryFlushLoop_sent (rounds : Nat) (client : Client) :
    ∃ entries later rest, (tryFlushLoop rounds client).2 = client.sent entries later rest ∧
      Sent client.sendQueue [] entries rest ∧
      (client.stream.writes.length < rounds → (tryFlushLoop rounds client).1 = .ok () →
        rest = [] ∨ entries.getLast? = some (.writeFailed .wouldBlock)) := by
  induction rounds generalizing client with
  | zero => exact ⟨[], _, _, client.sent_self.symm, .nil _, fun short => by omega⟩
  | succ rounds ih =>
    rw [tryFlushLoop]
    split
    · next empty =>
      exact ⟨[], _, _, client.sent_self.symm, .nil _, fun _ _ => .inl empty⟩
    · rcases client.stream.write_cases client.sendQueue with
        ⟨count, later, inside, shorter, answer⟩ | ⟨kind, later, shorter, answer⟩
      · rw [answer]
        cases count with
        | zero =>
          refine ⟨[.wrote (client.sendQueue.take 0)], later, client.sendQueue, rfl, ?_, ?_⟩
          · simpa using Sent.wrote client.sendQueue 0
          · intro _ failed
            cases failed
        | succ count =>
          -- the loop goes on with the rest of the queue
          obtain ⟨entries, last, rest, after, sent, stop⟩ := ih
            (client.sent [.wrote (client.sendQueue.take (count + 1))] later
              (client.sendQueue.drop (count + 1)))
          refine ⟨[.wrote (client.sendQueue.take (count + 1))] ++ entries, last, rest, ?_, ?_, ?_⟩
          · exact after.trans (client.sent_sent _ _ _ _ _ _)
          · simpa using (Sent.wrote client.sendQueue (count + 1)).append rfl .of_nil sent
          · intro enough ended
            rcases stop (Nat.lt_of_lt_of_le shorter (Nat.le_of_lt_succ enough)) ended with
              empty | blocked
            · exact .inl empty
            · exact .inr (by rw [List.getLast?_append, blocked]; rfl)
      · rw [answer]
        by_cases retry : kind = .interrupted
        · subst retry
          obtain ⟨entries, last, rest, after, sent, stop⟩ := ih
            (client.sent [.writeFailed .interrupted] later client.sendQueue)
          refine ⟨[.writeFailed .interrupted] ++ entries, last, rest, ?_, ?_, ?_⟩
          · exact after.trans (client.sent_sent _ _ _ _ _ _)
          · simpa using (Sent.writeFailed client.sendQueue .interrupted).append rfl .of_nil sent
          · intro enough ended
            have fewer : later.length < rounds := by
              rcases shorter with blocked | shorter
              · cases blocked
              · exact Nat.lt_of_lt_of_le shorter (Nat.le_of_lt_succ enough)
            rcases stop fewer ended with empty | blocked
            · exact .inl empty
            · exact .inr (by rw [List.getLast?_append, blocked]; rfl)
        · refine ⟨[.writeFailed kind], later, client.sendQueue, ?_, .writeFailed _ _, ?_⟩
          · cases kind <;> first | rfl | exact absurd rfl retry
          · intro _ ended
            cases kind <;> first | exact .inr rfl | exact absurd rfl retry | cases ended

theorem tryFlushClient_sent (client : Client) :
    ∃ entries later rest, (tryFlushClient client).2 = client.sent entries later rest ∧
      Sent client.sendQueue [] entries rest ∧
      ((tryFlushClient client).1 = .ok () →
        rest = [] ∨ entries.getLast? = some (.writeFailed .wouldBlock)) := by
  obtain ⟨entries, later, rest, after, sent, stop⟩ :=
    tryFlushLoop_sent (client.stream.writes.length + 1) client
  exact ⟨entries, later, rest, after, sent, stop (Nat.lt_succ_self _)⟩

/-! ## One packet -/

/-- A packet that finds no room changes nothing but the journal; any other one
is queued whole, and then flushed. -/
theorem sendPacketNonblocking_sent (client : Client) (pkt : Packet) :
    ∃ entries later rest,
      (sendPacketNonblocking client pkt).2 = client.sent entries later rest ∧
      Sent client.sendQueue [pkt] entries rest ∧
      (client.sendQueue.length + (packetBytes pkt).length ≤ sendQueueCap →
        queuedOf entries = [pkt] ∧
        ((sendPacketNonblocking client pkt).1 = .ok () →
          rest = [] ∨ entries.getLast? = some (.writeFailed .wouldBlock))) ∧
      (sendQueueCap < client.sendQueue.length + (packetBytes pkt).length →
        entries = [.refused pkt] ∧ rest = client.sendQueue ∧
        (sendPacketNonblocking client pkt).1 =
          .error (.new .writeZero "client send queue overflow")) := by
  unfold sendPacketNonblocking
  by_cases full : client.sendQueue.length + (packetBytes pkt).length > sendQueueCap
  · rw [if_pos full]
    exact ⟨[.refused pkt], client.stream.writes, client.sendQueue, rfl, .refused full,
      fun room => by omega, fun _ => ⟨rfl, rfl, rfl⟩⟩
  · rw [if_neg full]
    obtain ⟨entries, later, rest, after, sent, stop⟩ := tryFlushClient_sent
      (({ client with sendQueue := client.sendQueue ++ packetBytes pkt } : Client).log (.queued pkt))
    have none : queuedOf entries = [] := List.prefix_nil.mp sent.queued
    refine ⟨[.queued pkt] ++ entries, later, rest, ?_, ?_, ?_, fun excess => absurd excess full⟩
    · exact after.trans (client.sent_sent [.queued pkt] client.stream.writes _ _ _ _)
    · simpa using (Sent.queued_one (Nat.le_of_not_lt full)).append rfl .of_nil sent
    · intro _
      refine ⟨by simp [none], fun ended => ?_⟩
      rcases stop ended with empty | blocked
      · exact .inl empty
      · exact .inr (by rw [List.getLast?_append, blocked]; rfl)

/-! ## Broadcast and replay -/

def Client.leaveIf (client : Client) (failed : Bool) : Client :=
  if failed then client.leave .sendFailed else client

theorem broadcastTo_sent (bytes : List UInt8) (client : Client) :
    ∃ entries later rest failed,
      broadcastTo bytes client = (client.sent entries later rest).leaveIf failed ∧
      Sent client.sendQueue [⟨msgContent, bytes⟩] entries rest ∧
      (failed = false → queuedOf entries = [⟨msgContent, bytes⟩]) := by
  obtain ⟨entries, later, rest, after, sent, room, full⟩ :=
    sendPacketNonblocking_sent client ⟨msgContent, bytes⟩
  unfold broadcastTo
  rcases answer : sendPacketNonblocking client ⟨msgContent, bytes⟩ with ⟨result, next⟩
  rw [answer] at after room full
  subst after
  cases result with
  | ok =>
    refine ⟨entries, later, rest, false, rfl, sent, fun _ => ?_⟩
    by_cases fits : client.sendQueue.length + (packetBytes ⟨msgContent, bytes⟩).length ≤ sendQueueCap
    · exact (room fits).1
    · cases (full (Nat.lt_of_not_le fits)).2.2
  | error => exact ⟨entries, later, rest, true, rfl, sent, fun same => by cases same⟩

def contentPackets (pieces : List (List UInt8)) : List Packet :=
  pieces.map fun piece => ⟨msgContent, piece⟩

theorem sendChunks_sent (pieces : List (List UInt8)) (client : Client) :
    ∃ entries later rest,
      Sent client.sendQueue (contentPackets pieces) entries rest ∧
      (sendChunks pieces client).2 =
        (client.sent entries later rest).leaveIf (!(sendChunks pieces client).1) ∧
      ((sendChunks pieces client).1 = true → queuedOf entries = contentPackets pieces) ∧
      (pieces = [] → entries = []) := by
  induction pieces generalizing client with
  | nil =>
    exact ⟨[], client.stream.writes, client.sendQueue, .nil _, client.sent_self.symm, fun _ => rfl,
      fun _ => rfl⟩
  | cons piece pieces ih =>
    obtain ⟨entries, later, rest, after, sent, room, full⟩ :=
      sendPacketNonblocking_sent client ⟨msgContent, piece⟩
    rw [sendChunks]
    rcases answer : sendPacketNonblocking client ⟨msgContent, piece⟩ with ⟨result, next⟩
    rw [answer] at after room full
    subst after
    cases result with
    | error =>
      exact ⟨entries, later, rest, sent.weaken nofun, rfl, nofun, nofun⟩
    | ok =>
      have all : queuedOf entries = [⟨msgContent, piece⟩] := by
        by_cases fits :
            client.sendQueue.length + (packetBytes ⟨msgContent, piece⟩).length ≤ sendQueueCap
        · exact (room fits).1
        · cases (full (Nat.lt_of_not_le fits)).2.2
      obtain ⟨entries', later', rest', sent', after', all', _⟩ :=
        ih (client.sent entries later rest)
      refine ⟨entries ++ entries', later', rest', sent.append all .of_cons sent', ?_,
        fun done => ?_, nofun⟩
      · rw [after', Client.sent_sent]
      · rw [queuedOf_append, all, all' done]
        rfl

def replayPackets (snapshot : List UInt8) (sendEnd : Bool) : List Packet :=
  contentPackets (chunks maxPayload snapshot) ++ if sendEnd then [⟨msgDumpEnd, []⟩] else []

theorem sendHistory_sent (client : Client) (history : History) (sendEnd : Bool) :
    ∃ entries later rest failed,
      sendHistory client history sendEnd = (client.sent entries later rest).leaveIf failed ∧
      Sent client.sendQueue (replayPackets history.snapshot sendEnd) entries rest ∧
      (failed = false →
        contentPackets (chunks maxPayload history.snapshot) <+: queuedOf entries) ∧
      (replayPackets history.snapshot sendEnd = [] → entries = []) := by
  obtain ⟨entries, later, rest, sent, after, all, none⟩ :=
    sendChunks_sent (chunks maxPayload history.snapshot) client
  have started : (sendChunks (chunks maxPayload history.snapshot) client).1 = false →
      contentPackets (chunks maxPayload history.snapshot) ≠ [] := by
    intro failed empty
    rw [List.map_eq_nil_iff.mp empty] at failed
    cases failed
  have idle (more : List Packet) :
      Idle (contentPackets (chunks maxPayload history.snapshot)) entries more :=
    fun empty => .inl (none (List.map_eq_nil_iff.mp empty))
  unfold sendHistory
  rcases answer : sendChunks (chunks maxPayload history.snapshot) client with ⟨done, next⟩
  rw [answer] at after all started
  simp only at after all started
  subst after
  cases done with
  | false =>
    exact ⟨entries, later, rest, true, rfl,
      sent.weaken fun empty => absurd empty (started rfl), nofun,
      fun empty => absurd (List.append_eq_nil_iff.mp empty).1 (started rfl)⟩
  | true =>
    cases sendEnd with
    | false =>
      exact ⟨entries, later, rest, false, rfl, sent.weaken fun _ => rfl, fun _ => by rw [all rfl],
        fun empty => none (List.map_eq_nil_iff.mp (List.append_eq_nil_iff.mp empty).1)⟩
    | true =>
      -- the result of sending the end mark is ignored
      obtain ⟨entries', later', rest', after', sent', _⟩ :=
        sendPacketNonblocking_sent (client.sent entries later rest) ⟨msgDumpEnd, []⟩
      refine ⟨entries ++ entries', later', rest', false, ?_, sent.append (all rfl) (idle _) sent',
        fun _ => ?_, fun empty => ?_⟩
      · exact after'.trans (Client.sent_sent _ _ _ _ _ _ _)
      · rw [queuedOf_append, all rfl]
        exact List.prefix_append _ _
      · exact absurd (List.append_eq_nil_iff.mp empty).2 (by simp)

end Lich
