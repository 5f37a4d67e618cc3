import Lich.Conservation
import Lich.RoundTrip

/-! An attached client sees the output without a gap.

The replay that answers MSG_ATTACH ends where the broadcasts go on: both are cut
from one output, at the byte that had been read when the packet was served.
-/

set_option autoImplicit false

namespace Lich

open Foundation

def Client.servedAt (client : Client) (typ : UInt32) : List Nat :=
  client.served.filterMap fun taken => if taken.1.typ = typ then some taken.2 else none

/-- What a client that attached at one point is to see of the output. -/
def replayThenLive (output : List UInt8) (seen : Nat) : List UInt8 :=
  (output.take seen).rtake historyCap ++ output.drop seen

theorem replayThenLive_append {output : List UInt8} {seen : Nat} (inside : seen ≤ output.length)
    (bytes : List UInt8) :
    replayThenLive (output ++ bytes) seen = replayThenLive output seen ++ bytes := by
  rw [replayThenLive, replayThenLive, List.take_append_of_le_length inside,
    List.drop_append_of_le_length inside, List.append_assoc]

theorem replayThenLive_now (output : List UInt8) :
    replayThenLive output output.length = output.rtake historyCap := by
  rw [replayThenLive, List.take_length, List.drop_length, List.append_nil]

theorem contentOf_prefix {first second : List Packet} (front : first <+: second) :
    contentOf first <+: contentOf second := by
  obtain ⟨more, rfl⟩ := front
  rw [contentOf_append]
  exact List.prefix_append _ _

/-- The content queued for a client, as long as it has not asked for a dump. -/
structure Client.Gapless (output : List UInt8) (client : Client) : Prop where
  fresh : client.servedAt msgAttach = [] → client.attached = false
  silent : client.servedAt msgAttach = [] → client.servedAt msgDump = [] →
    contentOf client.queued = []
  gapless : client.disconnected = false → client.servedAt msgDump = [] →
    ∀ seen, client.servedAt msgAttach = [seen] →
      client.attached = true ∧ seen ≤ output.length ∧
        contentOf client.queued = replayThenLive output seen

variable {output : List UInt8} {childExit : Option Int32} {client : Client}

section Steps

variable {next : Client} {op : Op} {head send tail : List Entry}
  (trace : Trace client next (op.offered client) (op.taken client) head send tail)

include trace

theorem Trace.servedAt (typ : UInt32) :
    next.servedAt typ = client.servedAt typ ++
      (op.taken client).toList.filterMap fun taken =>
        if taken.1.typ = typ then some taken.2 else none := by
  rw [Client.servedAt, trace.serves, List.filterMap_append]
  rfl

theorem Trace.content_nil (none : contentOf (op.offered client) = []) :
    contentOf next.queued = contentOf client.queued := by
  have empty : contentOf (queuedOf send) = [] :=
    List.prefix_nil.mp (none ▸ contentOf_prefix trace.sent.queued)
  rw [trace.queued, contentOf_append, empty, List.append_nil]

theorem Trace.connected (still : next.disconnected = false) : client.disconnected = false := by
  cases gone : client.disconnected with
  | false => rfl
  | true => exact absurd (trace.disconnected.mpr (.inl gone)) (by simp [still])

theorem Trace.content (still : next.disconnected = false) :
    contentOf next.queued = contentOf client.queued ++ contentOf (op.offered client) := by
  rw [trace.queued, contentOf_append, trace.complete still]

theorem Trace.servedAt_other {typ : UInt32}
    (others : ∀ taken ∈ op.taken client, taken.1.typ ≠ typ) :
    next.servedAt typ = client.servedAt typ := by
  rw [trace.servedAt]
  cases found : op.taken client with
  | none => simp
  | some taken => simp [others taken found]

theorem Trace.attached_other (others : ∀ taken ∈ op.taken client, taken.1.typ ≠ msgAttach) :
    next.attached = client.attached := by
  rw [trace.attached]
  cases found : op.taken client with
  | none => simp
  | some taken => simp [others taken found]

theorem Trace.gapless_still (ih : client.Gapless output)
    (attach : ∀ taken ∈ op.taken client, taken.1.typ ≠ msgAttach)
    (dump : ∀ taken ∈ op.taken client, taken.1.typ ≠ msgDump)
    (none : contentOf (op.offered client) = []) : next.Gapless output := by
  have attaches := trace.servedAt_other attach
  have dumps := trace.servedAt_other dump
  have attached := trace.attached_other attach
  constructor
  · rw [attaches, attached]
    exact ih.fresh
  · rw [attaches, dumps, trace.content_nil none]
    exact ih.silent
  · intro still
    rw [attaches, dumps, attached, trace.content_nil none]
    exact ih.gapless (trace.connected still)

theorem Trace.gapless_untaken (ih : client.Gapless output) (untaken : op.taken client = none)
    (none : contentOf (op.offered client) = []) : next.Gapless output :=
  trace.gapless_still ih (by simp [untaken]) (by simp [untaken]) none

end Steps

theorem Client.Gapless.broadcast (ih : client.Gapless output) (bytes : List UInt8) :
    (client.step (.broadcast bytes)).Gapless (output ++ bytes) := by
  obtain ⟨head, send, tail, trace⟩ := client.step_trace (.broadcast bytes)
  have attaches : (client.step (.broadcast bytes)).servedAt msgAttach = client.servedAt msgAttach :=
    trace.servedAt_other (by simp [Op.taken])
  have dumps : (client.step (.broadcast bytes)).servedAt msgDump = client.servedAt msgDump :=
    trace.servedAt_other (by simp [Op.taken])
  have attached : (client.step (.broadcast bytes)).attached = client.attached :=
    trace.attached_other (by simp [Op.taken])
  constructor
  · rw [attaches, attached]
    exact ih.fresh
  · intro none dumped
    rw [attaches] at none
    rw [dumps] at dumped
    rw [trace.content_nil (by simp [Op.offered, ih.fresh none])]
    exact ih.silent none dumped
  · intro still dumped seen once
    rw [attaches] at once
    rw [dumps] at dumped
    obtain ⟨on, inside, content⟩ := ih.gapless (trace.connected still) dumped seen once
    refine ⟨attached.trans on, ?_, ?_⟩
    · rw [List.length_append]
      omega
    · have live : contentOf (Op.offered (.broadcast bytes) client) = bytes := by
        simp [Op.offered, on, contentOf]
      rw [trace.content still, content, live, replayThenLive_append inside]

theorem Client.Gapless.packet (ih : client.Gapless output) {history : History}
    (kept : history.snapshot = output.rtake historyCap) (now : Instant) :
    (client.step (.packet history output.length now)).Gapless output := by
  obtain ⟨head, send, tail, trace⟩ := client.step_trace (.packet history output.length now)
  cases found : (popPacket client.buf).1 with
  | none =>
    refine trace.gapless_untaken ih ?_ ?_
    · simp [Op.taken, found]
    · simp [Op.offered, found]
  | some pkt =>
    have taken : Op.taken (.packet history output.length now) client =
        some (pkt, output.length) := by
      simp [Op.taken, found]
    by_cases attach : pkt.typ = msgAttach
    · have other : msgAttach ≠ msgDump := by decide
      have attaches := trace.servedAt msgAttach
      have attached := trace.attached
      have dumps : (client.step (.packet history output.length now)).servedAt msgDump =
          client.servedAt msgDump :=
        trace.servedAt_other (by simp [taken, attach, other])
      simp only [taken, Option.toList_some, Option.any_some, attach, if_true, List.filterMap_cons,
        List.filterMap_nil, beq_self_eq_true, Bool.or_true] at attaches attached
      constructor
      · rw [attaches]
        simp
      · rw [attaches]
        simp
      · intro still dumped seen once
        rw [dumps] at dumped
        rw [attaches] at once
        -- the one attach is this one, so nothing was sent before
        obtain ⟨none, rfl⟩ : client.servedAt msgAttach = [] ∧ output.length = seen := by
          cases before : client.servedAt msgAttach with
          | nil => exact ⟨rfl, by simpa [before] using once⟩
          | cons first rest => simp [before] at once
        refine ⟨attached, Nat.le_refl _, ?_⟩
        have replay : contentOf (Op.offered (.packet history output.length now) client) =
            output.rtake historyCap := by
          simp only [Op.offered, found, attach, if_true, contentOf_replayPackets, kept]
        rw [trace.content still, ih.silent none dumped, replay, replayThenLive_now, List.nil_append]
    · have noAttach : ∀ taken ∈ Op.taken (.packet history output.length now) client,
          taken.1.typ ≠ msgAttach := by
        simpa [taken] using attach
      by_cases dump : pkt.typ = msgDump
      · have dumps := trace.servedAt msgDump
        simp only [taken, Option.toList_some, dump, if_true, List.filterMap_cons,
          List.filterMap_nil] at dumps
        constructor
        · rw [trace.servedAt_other noAttach, trace.attached_other noAttach]
          exact ih.fresh
        · intro _ dumped
          simp [dumps] at dumped
        · intro _ dumped
          simp [dumps] at dumped
      · refine trace.gapless_still ih noAttach ?_ ?_
        · simpa [taken] using dump
        · simp [Op.offered, found, attach, dump]

theorem contentOf_exitPacket (status : Int32) : contentOf [exitPacket status] = [] := rfl

theorem Life.gapless {ok : Client → Op → Prop} (life : Life ok output childExit client) :
    client.Gapless output := by
  induction life with
  | start => exact ⟨fun _ => rfl, fun _ _ => rfl, nofun⟩
  | reap status _ ih => exact ih
  | @step output childExit client op _ legal _ ih =>
    cases op with
    | broadcast bytes => exact ih.broadcast bytes
    | packet history seen now =>
      obtain ⟨kept, rfl⟩ := legal
      change Client.Gapless (output ++ []) _
      rw [List.append_nil]
      exact ih.packet (by rw [kept, History.snapshot, History.after_bytes]) now
    | notice status now =>
      obtain ⟨head, send, tail, trace⟩ := client.step_trace (.notice status now)
      change Client.Gapless (output ++ []) _
      rw [List.append_nil]
      refine trace.gapless_untaken ih rfl ?_
      simp only [Op.offered]
      split
      · rfl
      · exact contentOf_exitPacket status
    | _ =>
      obtain ⟨head, send, tail, trace⟩ := client.step_trace _
      change Client.Gapless (output ++ []) _
      rw [List.append_nil]
      exact trace.gapless_untaken ih rfl rfl

/-- After every tick of every run: what a connected client that attached once,
and asked for no dump, has been sent and is still to be sent decodes to the tail
of the output read before it attached, and all the output read since. -/
theorem attach_gapless (server : Server) (reached : Reached (fun _ _ => True) server)
    (client : Client) (member : client ∈ server.clients) (seen : Nat)
    (attached : client.servedAt msgAttach = [seen]) (noDump : client.servedAt msgDump = []) :
    seen ≤ server.master.output.length ∧
    ∃ pkts, recvPackets pkts.length (client.wire ++ client.sendQueue) = .ok (pkts, []) ∧
      contentOf pkts = (server.master.output.take seen).rtake historyCap ++
        server.master.output.drop seen := by
  obtain ⟨life, connected⟩ := reached.sound.clients client member
  obtain ⟨_, inside, content⟩ := life.gapless.gapless connected noDump seen attached
  refine ⟨inside, client.queued, ?_, content⟩
  have received := recvPackets_drain (client.wire ++ client.sendQueue)
  have decoded : packetDecoder.drain (client.wire ++ client.sendQueue) = (client.queued, []) :=
    life.decoded
  rwa [decoded] at received

def outputAroundAttach : List Tick :=
  [{ Tick.idle with accepts := [attacher], ptyReads := [.ok ⟨[1, 2], Nat.le_of_ble_eq_true rfl⟩] },
    { Tick.idle with ptyReads := [.ok ⟨[3], Nat.le_of_ble_eq_true rfl⟩] }]

theorem attach_gapless_three :
    ∃ client ∈ (serverLoop outputAroundAttach (Server.start 1 false [])).server.clients,
      ∃ pkts, recvPackets pkts.length (client.wire ++ client.sendQueue) = .ok (pkts, []) ∧
        contentOf pkts = [1, 2, 3] := by
  have attached : ∃ client ∈ (serverLoop outputAroundAttach (Server.start 1 false [])).server.clients,
      client.servedAt msgAttach = [2] ∧ client.servedAt msgDump = [] := by
    decide
  obtain ⟨client, member, attached, noDump⟩ := attached
  obtain ⟨_, pkts, decoded, content⟩ := attach_gapless _
    ⟨1, false, [], outputAroundAttach, runMeets_of_forall (fun _ _ => trivial) _ _, rfl⟩
    client member 2 attached noDump
  refine ⟨client, member, pkts, decoded, content.trans ?_⟩
  decide

end Lich
