import Lich.Backlog
import Lich.Conservation

/-! The exit notice.

The exit branch ignores whether its packet was taken by the queue. A queue that
has room for it is all it takes for the notice to be sent, and a client that
leaves as drained has then been given it.
-/

set_option autoImplicit false

namespace Lich

open Foundation

def Entry.Exited : Entry → Prop
  | .closing .exited _ => True
  | _ => False

/-- The exit branch finds room for MSG_EXIT in the queue of a client that it is
going to close. -/
def Client.RoomForNotice (client : Client) : Op → Prop
  | .notice _ _ =>
    client.disconnected = false → client.closeAfterDrain = none →
      client.sendQueue.length + 12 ≤ sendQueueCap
  | _ => True

instance (client : Client) : (op : Op) → Decidable (client.RoomForNotice op)
  | .notice _ _ => inferInstanceAs (Decidable (_ → _ → _))
  | .broadcast _ | .receive | .packet _ _ _ | .endOfStream | .flush | .expire _ => .isTrue trivial

/-- Whenever the exit branch marked the client, the notice with the exit status
was in its queue before, and whenever a client so marked was given up as
drained, what it had been sent holds the notice. -/
structure Client.Noticed (childExit : Option Int32) (client : Client) : Prop where
  queued : Whenever Entry.Exited
    (fun before => ∃ status, childExit = some status ∧
      Entry.queued (exitPacket status) ∈ before) client.stream.journal
  received : Whenever Entry.Drained
    (fun before => (∃ entry ∈ before, entry.Exited) →
      ∃ status, childExit = some status ∧
        exitPacket status ∈ (packetDecoder.drain (wireOf before)).1) client.stream.journal

theorem exitPacket_injective {first second : Int32} (same : exitPacket first = exitPacket second) :
    first = second := by
  have payload : u32ToNeBytes first.toUInt32 = u32ToNeBytes second.toUInt32 :=
    congrArg Packet.payload same
  have value := congrArg u32FromNeBytes payload
  rw [u32FromNeBytes_toNeBytes, u32FromNeBytes_toNeBytes] at value
  rw [← first.toInt32_toUInt32, value, second.toInt32_toUInt32]

theorem notice_of_offered {op : Op} {client : Client} {status : Int32}
    (offered : op.offered client = [exitPacket status]) : ∃ now, op = .notice status now := by
  have replay (snapshot : List UInt8) (sendEnd : Bool) :
      replayPackets snapshot sendEnd ≠ [exitPacket status] := by
    intro same
    rcases replayPackets_head snapshot sendEnd with ⟨none, _⟩ | ⟨pkt, more, split, _, _, other⟩
    · rw [none] at same
      cases same
    · obtain ⟨rfl, _⟩ := List.cons_eq_cons.mp (split.symm.trans same)
      exact other rfl
  have offers := op.offers client
  generalize op.offered client = packets at offered offers
  cases offers with
  | nothing => cases offered
  | content bytes _ =>
    have typ : msgContent = msgExit := congrArg Packet.typ (List.cons_eq_cons.mp offered).1
    exact absurd typ (by decide)
  | attach => exact absurd offered (replay _ _)
  | dump => exact absurd offered (replay _ _)
  | notice other now =>
    rw [exitPacket_injective (List.cons_eq_cons.mp offered).1]
    exact ⟨now, rfl⟩

variable {output : List UInt8} {childExit : Option Int32} {client : Client}

theorem Life.notice_queued (life : Life Client.RoomForNotice output childExit client) :
    Whenever Entry.Exited
      (fun before => ∃ status, childExit = some status ∧
        Entry.queued (exitPacket status) ∈ before) client.stream.journal := by
  induction life with
  | start => exact whenever_nil
  | reap status _ ih =>
    refine ih.mono ?_
    rintro before ⟨_, none, _⟩
    cases none
  | @step output childExit client op _ legal room ih =>
    obtain ⟨head, send, tail, trace⟩ := client.step_trace op
    rw [trace.journal]
    refine ih.append fun before entry after same found => ?_
    have ending : entry.Ending := by cases entry <;> first | exact found.elim | trivial
    obtain ⟨more, rfl, rest⟩ := trace.behind same ending
    obtain ⟨since, rfl⟩ : ∃ since, entry = .closing .exited since := by
      cases entry with
      | closing cause since => cases cause <;> first | exact found.elim | exact ⟨since, rfl⟩
      | _ => exact found.elim
    -- the mark is the exit branch's, so the notice was offered and had room
    obtain ⟨connected, remains, status, offered⟩ := trace.exited since (by simp [rest])
    obtain ⟨now, rfl⟩ := notice_of_offered offered
    refine ⟨status, legal, ?_⟩
    have fits : client.sendQueue.length + (packetBytes (exitPacket status)).length ≤ sendQueueCap := by
      rw [exitPacket_length]
      exact room connected remains
    have taken : queuedOf send = [exitPacket status] := by
      have offers := trace.sent.first _ _ offered fits
      rcases List.prefix_cons_iff.mp (offered ▸ trace.sent.queued) with none | ⟨rest, same, none⟩
      · exact absurd none offers
      · rw [same, List.prefix_nil.mp none]
    have member : Entry.queued (exitPacket status) ∈ send := by
      have inside : exitPacket status ∈ queuedOf send := by simp [taken]
      obtain ⟨entry, member, same⟩ := List.mem_filterMap.mp inside
      cases entry <;> cases same
      exact member
    simp [member]

theorem Life.noticed (life : Life Client.RoomForNotice output childExit client) :
    client.Noticed childExit where
  queued := life.notice_queued
  received := by
    intro before entry after same found
    rintro ⟨mark, member, exited⟩
    have wire := life.drained before entry after same found
    obtain ⟨front, back, rfl⟩ := List.append_of_mem member
    obtain ⟨status, exit, queued⟩ := life.notice_queued front mark (back ++ entry :: after)
      (by rw [same]; simp) exited
    refine ⟨status, exit, ?_⟩
    have fits : ∀ pkt ∈ queuedOf (front ++ mark :: back), pkt.Fits := by
      intro pkt inside
      apply life.fits
      rw [Client.queued, same, queuedOf_append]
      exact List.mem_append_left _ inside
    rw [wire, Decoder.drain_encode fun pkt inside => packetBytes_inverts (fits pkt inside)]
    rw [queuedOf_append]
    exact List.mem_append_left _ (List.mem_filterMap.mpr ⟨_, queued, rfl⟩)

theorem Client.Noticed.later {first second : Option Int32} (noticed : client.Noticed first)
    (once : first = none ∨ first = second) : client.Noticed second := by
  rcases once with rfl | rfl
  · constructor
    · refine noticed.queued.mono ?_
      rintro before ⟨_, none, _⟩
      cases none
    · refine noticed.received.mono fun before received exited => ?_
      obtain ⟨_, none, _⟩ := received exited
      cases none
  · exact noticed

theorem noticeExit_queued_iff (status : Int32) (now : Instant)
    (connected : client.disconnected = false) (remains : client.closeAfterDrain = none) :
    (noticeExit status now client).queued = client.queued ++ [exitPacket status] ↔
      client.sendQueue.length + 12 ≤ sendQueueCap := by
  obtain ⟨head, send, tail, trace⟩ := client.step_trace (.notice status now)
  have offered : Op.offered (.notice status now) client = [exitPacket status] := by
    simp [Op.offered, connected, remains]
  have queued : (noticeExit status now client).queued = client.queued ++ queuedOf send :=
    trace.queued
  rw [queued, List.append_cancel_left_eq, ← exitPacket_length status]
  constructor
  · intro taken
    by_contra full
    rw [trace.sent.full _ _ offered (Nat.lt_of_not_le full)] at taken
    cases taken
  · intro room
    have offers := trace.sent.first _ _ offered room
    rcases List.prefix_cons_iff.mp (offered ▸ trace.sent.queued) with none | ⟨rest, same, none⟩
    · exact absurd none offers
    · rw [same, List.prefix_nil.mp none]

/-- In a run in which the exit branch always finds room, no exit notice is
dropped. Without room for it, the next one is. -/
theorem exit_notice_never_dropped (server : Server) (reached : Reached Client.RoomForNotice server)
    (client : Client) (member : client ∈ server.everyone) :
    client.Noticed server.childExit ∧
    ∀ status now, client.disconnected = false → client.closeAfterDrain = none →
      (noticeExit status now client).closeAfterDrain = some now ∧
        ((noticeExit status now client).queued = client.queued ++ [exitPacket status] ↔
          client.RoomForNotice (.notice status now)) := by
  obtain ⟨_, _, _, once, life⟩ := reached.sound.life member
  refine ⟨life.noticed.later once, fun status now connected remains => ⟨?_, ?_⟩⟩
  · simp [noticeExit, connected, remains, Client.close]
  · rw [noticeExit_queued_iff status now connected remains]
    exact ⟨fun room _ _ => room, fun room => room connected remains⟩

def fullThenExit : List (ReadAnswer maxPayload) := (List.replicate 4096 fullSlice).map .ok

theorem exit_notice_never_dropped_empty :
    ∃ client ∈ (serverLoop (lateOutput.take 2) (Server.start 1 true [])).server.everyone,
      client.closeAfterDrain.isSome = true ∧ client.Noticed (some 0) := by
  have closing : ∃ client ∈ (serverLoop (lateOutput.take 2)
      (Server.start 1 true [])).server.everyone, client.closeAfterDrain.isSome = true := by
    decide
  obtain ⟨client, member, closing⟩ := closing
  have noticed := exit_notice_never_dropped _
    ⟨1, true, [], lateOutput.take 2, by decide, rfl⟩ client member
  exact ⟨client, member, closing, noticed.1⟩

theorem noticeExit_full {status : Int32} {now : Instant} (connected : client.disconnected = false)
    (remains : client.closeAfterDrain = none) (full : client.sendQueue.length = sendQueueCap) :
    noticeExit status now client =
      (client.log (.refused (exitPacket status))).close .exited now := by
  have excess : client.sendQueue.length + (packetBytes (exitPacket status)).length > sendQueueCap := by
    rw [exitPacket_length]
    omega
  simp [noticeExit, connected, remains, sendPacketNonblocking, excess]

theorem exit_notice_dropped :
    ¬ ∀ server, Reached (fun _ _ => True) server →
      ∀ client ∈ server.everyone, client.Noticed server.childExit := by
  intro law
  obtain ⟨client, member, ops, after⟩ := outputTick_client fullThenExit (some 0)
  have noticed := (law _ (outputTick_reached fullThenExit (some 0)) client member).queued
  obtain ⟨entries, rest, filled, size, kinds⟩ :=
    parked_filled fullSlice.bytes 4096 (Nat.le_of_eq full_backlog)
  rw [full_backlog] at size
  have broadcasts : (ptyChunks fullThenExit).map Op.broadcast =
      List.replicate 4096 (.broadcast fullSlice.bytes) := by
    have offers : ∀ slice ∈ List.replicate 4096 fullSlice, slice.bytes ≠ [] := by
      intro slice member
      rw [List.eq_of_mem_replicate member]
      exact fullSlice_ne_nil
    rw [fullThenExit, ptyChunks_ok offers, List.map_replicate, List.map_replicate]
  have zero : exitStatus 0 = 0 := by decide
  rw [Option.map_some, Option.map_some, zero, broadcasts, runSteps_append, runSteps_append,
    runSteps_append, filled, readOps_idle rfl rfl] at after
  have full : runSteps Client.step [.notice 0 0] (parked.sent entries [] rest) = _ :=
    @noticeExit_full (parked.sent entries [] rest) 0 0 rfl rfl size
  -- the mark stands in the journal, and only output was queued before it
  obtain ⟨more, journal⟩ := runSteps_journal ops
    (((parked.sent entries [] rest).log (.refused (exitPacket 0))).close .exited 0)
  rw [Option.toList_some, full] at after
  rw [after, journal] at noticed
  obtain ⟨status, _, queued⟩ := noticed
    (parked.stream.journal ++ entries ++ [.refused (exitPacket 0)]) (.closing .exited 0) more
    (by simp [Client.close, Client.log, UnixStream.log]) trivial
  rcases List.mem_append.mp queued with queued | queued
  · rcases List.mem_append.mp queued with queued | queued
    · simp [parked] at queued
    · rcases kinds _ queued with same | same
      · have typ : msgExit = msgContent := congrArg Packet.typ (Entry.queued.inj same)
        exact absurd typ (by decide)
      · cases same
  · simp at queued

end Lich
