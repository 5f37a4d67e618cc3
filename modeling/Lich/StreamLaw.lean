import Lich.Attach
import Lich.Closure
import Lich.Foundation.Following

/-! What a client is sent, for any number of requests.

The output of the command is a log, and a client is a follower of it: MSG_ATTACH
asks to follow, MSG_DUMP asks once, and a replay is what the history keeps. The
server does for each client what is done for a follower.
-/

set_option autoImplicit false

namespace Lich

open Foundation

def Packet.request? (pkt : Packet) : Option Request :=
  if pkt.typ = msgAttach then some .follow
  else if pkt.typ = msgDump then some .once
  else none

def requestsOf (served : List (Packet × Nat)) : List (Request × Nat) :=
  served.filterMap fun taken => taken.1.request?.map fun request => (request, taken.2)

def replayed (output : List UInt8) : List UInt8 := output.rtake historyCap

/-- A client is followed as long as it is connected, and behind that if none of what it was
sent was refused or failed. -/
def Client.Whole (client : Client) : Prop := client.disconnected = false ∨ ¬ client.Harmed

@[simp] theorem requestsOf_append (first second : List (Packet × Nat)) :
    requestsOf (first ++ second) = requestsOf first ++ requestsOf second :=
  List.filterMap_append ..

/-! ## What a step sends -/

section Content

variable (client : Client)

theorem Client.sent_content (entries : List Entry) (later : List WriteAnswer) (rest : List UInt8) :
    contentOf (client.sent entries later rest).queued =
      contentOf client.queued ++ contentOf (queuedOf entries) := by
  simp [Client.queued]

theorem Client.leave_queued (why : Departure) : (client.leave why).queued = client.queued := by
  simp [Client.queued, Client.leave, UnixStream.log]

theorem sendPacketNonblocking_silent {pkt : Packet} (silent : contentOf [pkt] = []) :
    contentOf (sendPacketNonblocking client pkt).2.queued = contentOf client.queued := by
  obtain ⟨entries, later, rest, after, sent, _⟩ := sendPacketNonblocking_sent client pkt
  have none : contentOf (queuedOf entries) = [] :=
    List.prefix_nil.mp (silent ▸ contentOf_prefix sent.queued)
  rw [after, client.sent_content, none, List.append_nil]

theorem sendPacketNonblocking_queued {pkt : Packet} {done : Unit}
    (sent : (sendPacketNonblocking client pkt).1 = .ok done) :
    contentOf (sendPacketNonblocking client pkt).2.queued =
      contentOf client.queued ++ contentOf [pkt] := by
  obtain ⟨entries, later, rest, after, _, room, full⟩ := sendPacketNonblocking_sent client pkt
  by_cases fits : client.sendQueue.length + (packetBytes pkt).length ≤ sendQueueCap
  · rw [after, client.sent_content, (room fits).1]
  · cases (full (Nat.lt_of_not_le fits)).2.2.symm.trans sent

theorem broadcastTo_content (bytes : List UInt8) :
    (broadcastTo bytes client).Harmed ∨
      contentOf (broadcastTo bytes client).queued = contentOf client.queued ++ bytes := by
  have queued := @sendPacketNonblocking_queued client ⟨msgContent, bytes⟩
  have harmed := @sendPacketNonblocking_harmed client ⟨msgContent, bytes⟩
  unfold broadcastTo
  rcases answer : sendPacketNonblocking client ⟨msgContent, bytes⟩ with ⟨result, next⟩
  rw [answer] at queued harmed
  cases result with
  | ok done => exact .inr (by simpa [contentOf] using queued rfl)
  | error => exact .inl ((harmed rfl).leave .sendFailed)

theorem sendChunks_content (pieces : List (List UInt8)) :
    (sendChunks pieces client).1 = false ∧ (sendChunks pieces client).2.Harmed ∨
      (sendChunks pieces client).1 = true ∧
        contentOf (sendChunks pieces client).2.queued =
          contentOf client.queued ++ pieces.flatten := by
  induction pieces generalizing client with
  | nil => exact .inr ⟨rfl, by simp [sendChunks]⟩
  | cons piece pieces ih =>
    have queued := @sendPacketNonblocking_queued client ⟨msgContent, piece⟩
    have harmed := @sendPacketNonblocking_harmed client ⟨msgContent, piece⟩
    rw [sendChunks]
    rcases answer : sendPacketNonblocking client ⟨msgContent, piece⟩ with ⟨result, next⟩
    rw [answer] at queued harmed
    cases result with
    | error => exact .inl ⟨rfl, (harmed rfl).leave .sendFailed⟩
    | ok done =>
      rcases ih next with cut | ⟨all, content⟩
      · exact .inl cut
      refine .inr ⟨all, ?_⟩
      have first : contentOf next.queued = contentOf client.queued ++ piece := by
        simpa [contentOf] using queued rfl
      rw [content, first, List.append_assoc, List.flatten_cons]

theorem sendHistory_content (history : History) (sendEnd : Bool) :
    (sendHistory client history sendEnd).Harmed ∨
      contentOf (sendHistory client history sendEnd).queued =
        contentOf client.queued ++ history.snapshot := by
  have content := sendChunks_content client (chunks maxPayload history.snapshot)
  rw [chunks_flatten (by decide)] at content
  unfold sendHistory
  rcases answer : sendChunks (chunks maxPayload history.snapshot) client with ⟨done, next⟩
  rw [answer] at content
  rcases content with ⟨rfl, harmed⟩ | ⟨rfl, content⟩
  · exact .inl harmed
  · cases sendEnd with
    | false => exact .inr content
    | true => exact .inr ((sendPacketNonblocking_silent next rfl).trans content)

end Content

theorem Client.serve_content (client : Client) (history : History) (seen : Nat) (now : Instant)
    (pkt : Packet) :
    (client.serve history seen now pkt).Harmed ∨
      contentOf (client.serve history seen now pkt).queued =
        contentOf client.queued ++ if pkt.request?.isSome then history.snapshot else [] := by
  have logged : contentOf (client.log (.served pkt seen)).queued = contentOf client.queued := by
    simp [Client.queued, Client.log, UnixStream.log]
  unfold Client.serve
  dsimp only
  by_cases attach : pkt.typ = msgAttach
  · have content := sendHistory_content
      { client.log (.served pkt seen) with
        attached := true
        flags := (readU32 pkt.payload).getD 0 } history false
    change _ ∨ _ = contentOf (client.log (.served pkt seen)).queued ++ _ at content
    rw [logged] at content
    simpa [attach, Packet.request?] using content
  · by_cases dump : pkt.typ = msgDump
    · have content := sendHistory_content (client.log (.served pkt seen)) history true
      rw [logged] at content
      rw [if_neg attach, if_pos dump]
      simp only [Packet.request?, if_neg attach, if_pos dump, Option.isSome_some, if_true]
      split
      · rcases content with ⟨entry, member, kind⟩ | content
        · exact .inl ⟨entry, List.mem_append_left _ member, kind⟩
        · rw [← content]
          simp [Client.queued, Client.close, UnixStream.log]
      · exact content
    · right
      simp only [Packet.request?, if_neg attach, if_neg dump, Option.isSome_none, List.append_nil,
        Bool.false_eq_true, if_false]
      split
      · rw [Client.leave_queued, logged]
      · exact logged

theorem Op.offered_packet (client : Client) (history : History) (seen : Nat) (now : Instant) :
    contentOf (Op.offered (.packet history seen now) client) =
      if ((popPacket client.buf).1.bind Packet.request?).isSome then history.snapshot else [] := by
  simp only [Op.offered]
  cases (popPacket client.buf).1 with
  | none => rfl
  | some pkt =>
    simp only [Option.bind_some, Packet.request?]
    split
    · exact contentOf_replayPackets _ _
    · split
      · exact contentOf_replayPackets _ _
      · rfl

theorem Client.step_content (op : Op) (client : Client) :
    (client.step op).Harmed ∨
      contentOf (client.step op).queued =
        contentOf client.queued ++ contentOf (op.offered client) := by
  cases op with
  | broadcast bytes =>
    simp only [step, Op.offered]
    split
    · simpa [contentOf] using broadcastTo_content client bytes
    · exact .inr (by simp)
  | packet history seen now =>
    rw [Op.offered_packet]
    simp only [step, packet]
    rcases answer : popPacket client.buf with ⟨found, buf⟩
    cases found with
    | none => exact .inr (by simp [queued])
    | some pkt => exact serve_content { client with buf } history seen now pkt
  | notice status now =>
    right
    have silent := sendPacketNonblocking_silent client
      (show contentOf [exitPacket status] = [] from rfl)
    simp only [step, noticeExit, Op.offered]
    split
    · simp
    · rw [contentOf_exitPacket, List.append_nil, ← silent]
      simp [queued, close, UnixStream.log]
  | receive | endOfStream | flush | expire =>
    obtain ⟨head, send, tail, trace⟩ := client.step_trace _
    exact .inr ((trace.content_nil rfl).trans (List.append_nil _).symm)

/-! ## A client as a follower -/

def Op.followed (op : Op) (client : Client) : List (FollowEvent UInt8) :=
  match op with
  | .broadcast bytes => [.write bytes]
  | .packet _ _ _ => ((popPacket client.buf).1.bind Packet.request?).toList.map .ask
  | _ => []

structure Client.Reflects (f : Follower UInt8) (output : List UInt8) (client : Client) :
    Prop where
  log : f.log = output
  following : f.following = client.attached
  asked : f.asked = requestsOf client.served

theorem Client.Harmed.later {client next : Client} (harmed : client.Harmed)
    (front : client.stream.journal <+: next.stream.journal) : next.Harmed := by
  obtain ⟨entry, member, kind⟩ := harmed
  exact ⟨entry, front.subset member, kind⟩

theorem Client.Whole.step {client : Client} {op : Op} (whole : (client.step op).Whole) :
    client.Whole := by
  refine whole.imp (fun connected => ?_) fun unharmed harmed => ?_
  · obtain ⟨_, _, _, trace⟩ := client.step_trace op
    exact trace.connected connected
  · exact unharmed (harmed.later (client.step_journal op))

theorem Client.Whole.content {client : Client} {op : Op} (whole : (client.step op).Whole) :
    contentOf (client.step op).queued =
      contentOf client.queued ++ contentOf (op.offered client) := by
  rcases whole with connected | unharmed
  · obtain ⟨_, _, _, trace⟩ := client.step_trace op
    exact trace.content connected
  · exact (client.step_content op).resolve_left unharmed

section Followed

variable {f : Follower UInt8} {output : List UInt8} {client : Client}

theorem Client.Reflects.still (same : client.Reflects f output) {op : Op}
    (untaken : op.taken client = none) (silent : op.output = []) :
    (client.step op).Reflects f (output ++ op.output) := by
  obtain ⟨_, _, _, trace⟩ := client.step_trace op
  constructor
  · rw [silent, List.append_nil, same.log]
  · rw [same.following, trace.attached_other (by simp [untaken])]
  · rw [same.asked, trace.serves, untaken, Option.toList_none, List.append_nil]

theorem requestsOf_one (pkt : Packet) (seen : Nat) :
    requestsOf [(pkt, seen)] = (pkt.request?.map fun request => (request, seen)).toList := by
  cases request : pkt.request? with
  | none => simp [requestsOf, request]
  | some asked => simp [requestsOf, request]

theorem attach_asks (pkt : Packet) :
    (pkt.typ == msgAttach) = (pkt.request?.any fun request => request == .follow) := by
  unfold Packet.request?
  by_cases attach : pkt.typ = msgAttach
  · simp [attach]
  · rw [if_neg attach, beq_eq_false_iff_ne.mpr attach]
    split <;> rfl

-- Each step of a client is at most one step of a follower.
theorem Client.Reflects.step (same : client.Reflects f output) {op : Op}
    {childExit : Option Int32} (legal : op.Legal output childExit) :
    (client.step op).Reflects (runSteps (Follower.step replayed) (op.followed client) f)
      (output ++ op.output) ∧
    (runSteps (Follower.step replayed) (op.followed client) f).shown =
      f.shown ++ contentOf (op.offered client) := by
  cases op with
  | broadcast bytes =>
    obtain ⟨_, _, _, trace⟩ := client.step_trace (.broadcast bytes)
    refine ⟨⟨?_, ?_, ?_⟩, ?_⟩
    · exact congrArg (· ++ bytes) same.log
    · rw [trace.attached_other (by simp [Op.taken])]
      exact same.following
    · rw [trace.serves]
      exact same.asked.trans (List.append_nil _ ▸ rfl)
    · simp only [Op.followed, runSteps_cons, runSteps_nil, Follower.step, Follower.write,
        same.following, Op.offered]
      cases client.attached <;> simp [contentOf]
  | packet history seen now =>
    obtain ⟨kept, rfl⟩ := legal
    obtain ⟨_, _, _, trace⟩ := client.step_trace (.packet history output.length now)
    have snapshot : history.snapshot = replayed output := by
      rw [kept, History.snapshot, History.after_bytes, replayed]
    rw [Op.offered_packet]
    cases found : (popPacket client.buf).1 with
    | none =>
      have none : Op.followed (.packet history output.length now) client = [] := by
        simp [Op.followed, found]
      rw [none]
      exact ⟨same.still (by simp [Op.taken, found]) rfl, (List.append_nil _).symm⟩
    | some pkt =>
      have taken : Op.taken (.packet history output.length now) client =
          some (pkt, output.length) := by
        simp [Op.taken, found]
      have attached := trace.attached
      have served := trace.serves
      rw [taken] at attached served
      rw [Option.any_some, attach_asks] at attached
      rw [Option.toList_some] at served
      cases asks : pkt.request? with
      | none =>
        have none : Op.followed (.packet history output.length now) client = [] := by
          simp [Op.followed, found, asks]
        rw [none]
        refine ⟨⟨?_, ?_, ?_⟩, ?_⟩
        · exact same.log.trans (List.append_nil _).symm
        · rw [attached, asks, Option.any_none, Bool.or_false]
          exact same.following
        · rw [served, requestsOf_append, requestsOf_one, asks]
          exact same.asked.trans (List.append_nil _).symm
        · simp [asks]
      | some request =>
        have one : Op.followed (.packet history output.length now) client = [.ask request] := by
          simp [Op.followed, found, asks]
        rw [one, runSteps_cons, runSteps_nil]
        refine ⟨⟨?_, ?_, ?_⟩, ?_⟩
        · exact same.log.trans (List.append_nil _).symm
        · rw [attached, asks, Option.any_some, ← same.following]
          rfl
        · rw [served, requestsOf_append, requestsOf_one, asks, ← same.asked, ← same.log]
          rfl
        · simp [asks, snapshot, Follower.step, Follower.ask, same.log]
  | receive | endOfStream | flush | expire =>
    exact ⟨same.still rfl rfl, (List.append_nil _).symm⟩
  | notice status now =>
    refine ⟨same.still rfl rfl, ?_⟩
    simp only [Op.followed, runSteps_nil, Op.offered]
    split
    · simp
    · rw [contentOf_exitPacket, List.append_nil]

/-- What a client has been sent is what a follower is shown that asked for the same. -/
structure Client.Followed (output : List UInt8) (client : Client) (f : Follower UInt8) :
    Prop where
  reflects : client.Reflects f output
  shown : client.Whole → f.shown = contentOf client.queued

-- A life is a run of the follower: each step of the client is some of its steps.
theorem Life.followed {ok : Client → Op → Prop} {childExit : Option Int32}
    (life : Life ok output childExit client) :
    ∃ events, client.Followed output (runSteps (Follower.step replayed) events Follower.start) := by
  induction life with
  | start output childExit pid id accept =>
    exact ⟨[.write output], ⟨rfl, rfl, rfl⟩, fun _ => rfl⟩
  | reap status _ ih => exact ih
  | @step output childExit client op _ legal _ ih =>
    obtain ⟨events, same, shown⟩ := ih
    obtain ⟨next, more⟩ := same.step legal
    refine ⟨events ++ op.followed client, ?_, fun whole => ?_⟩
    · rw [runSteps_append]
      exact next
    · rw [runSteps_append, more, shown whole.step, whole.content]

theorem Life.shown {ok : Client → Op → Prop} {childExit : Option Int32}
    (life : Life ok output childExit client) :
    client.attached = (requestsOf client.served).any (·.1 == .follow) ∧
    (∀ request ∈ requestsOf client.served, request.2 ≤ output.length) ∧
    (client.Whole → contentOf client.queued =
      shownOf replayed output false 0 (requestsOf client.served)) := by
  obtain ⟨events, same, shown⟩ := life.followed
  obtain ⟨inside, _, following, closed⟩ := Follower.sound replayed events
  rw [same.asked, same.log] at inside
  rw [same.asked, same.following] at following
  rw [closed, same.log, same.asked] at shown
  exact ⟨following, inside, fun whole => (shown whole).symm⟩

theorem Life.attached_of_served {ok : Client → Op → Prop} {childExit : Option Int32}
    (life : Life ok output childExit client) {taken : Packet × Nat}
    (member : taken ∈ client.served) (typ : taken.1.typ = msgAttach) : client.attached = true := by
  rw [life.shown.1, List.any_eq_true]
  refine ⟨(.follow, taken.2), List.mem_filterMap.mpr ⟨taken, member, ?_⟩, rfl⟩
  rw [Packet.request?, if_pos typ]
  rfl

end Followed

/-! ## Runs -/

theorem Server.Sound.life_current {ok : Client → Op → Prop} {server : Server}
    (sound : server.Sound ok) {client : Client} (member : client ∈ server.everyone) :
    ∃ output childExit, output <+: server.master.output ∧
      (client ∈ server.clients → output = server.master.output) ∧
        Life ok output childExit client := by
  by_cases kept : client ∈ server.clients
  · exact ⟨_, _, List.prefix_rfl, fun _ => rfl, (sound.clients client kept).1⟩
  · obtain ⟨output, childExit, front, _, life⟩ := sound.life member
    exact ⟨output, childExit, front, fun member => absurd member kept, life⟩

-- The server keeps for each client the state of a follower of the output.
theorem stream_follows (server : Server) (reached : Reached (fun _ _ => True) server)
    (client : Client) (member : client ∈ server.everyone) (whole : client.Whole) :
    ∃ output, output <+: server.master.output ∧
      (client ∈ server.clients → output = server.master.output) ∧
      (∃ events, runSteps (Follower.step replayed) events Follower.start =
        ⟨output, client.attached, requestsOf client.served, contentOf client.queued⟩) ∧
      (requestsOf client.served).Pairwise (fun earlier later => earlier.2 ≤ later.2) ∧
      (∀ request ∈ requestsOf client.served, request.2 ≤ output.length) ∧
      ∃ pkts, recvPackets pkts.length (client.wire ++ client.sendQueue) = .ok (pkts, []) ∧
        contentOf pkts = shownOf replayed output false 0 (requestsOf client.served) := by
  obtain ⟨output, childExit, front, current, life⟩ := reached.sound.life_current member
  obtain ⟨events, same, shown⟩ := life.followed
  obtain ⟨inside, ordered, _, closed⟩ := Follower.sound replayed events
  rw [same.asked] at ordered inside
  rw [same.log] at inside
  rw [closed, same.log, same.asked] at shown
  refine ⟨output, front, current, ⟨events, ?_⟩, ordered, inside, client.queued, ?_,
    (shown whole).symm⟩
  · rw [← shown whole, ← same.log, ← same.following, ← same.asked, ← closed]
  · have received := recvPackets_drain (client.wire ++ client.sendQueue)
    have decoded : packetDecoder.drain (client.wire ++ client.sendQueue) = (client.queued, []) :=
      life.decoded
    rwa [decoded] at received

def attachPacket : Packet := ⟨msgAttach, [0, 0, 0, 0]⟩

def attachedTwice : List Tick :=
  [{ Tick.idle with
      accepts := [⟨[.ok ⟨packetBytes attachPacket, by decide⟩, .err .wouldBlock,
        .ok ⟨packetBytes attachPacket, by decide⟩], [], 16, true⟩]
      ptyReads := [.ok ⟨[1, 2], by decide⟩] },
    { Tick.idle with ptyReads := [.ok ⟨[3], by decide⟩] }]

theorem stream_follows_twice :
    ∃ client ∈ (serverLoop attachedTwice (Server.start 1 false [])).server.everyone,
      ∃ pkts, recvPackets pkts.length (client.wire ++ client.sendQueue) = .ok (pkts, []) ∧
        contentOf pkts = [1, 2, 3, 1, 2, 3] := by
  have asked : ∃ client ∈ (serverLoop attachedTwice (Server.start 1 false [])).server.clients,
      client.disconnected = false ∧ requestsOf client.served = [(.follow, 2), (.follow, 3)] := by
    decide
  have output : (serverLoop attachedTwice (Server.start 1 false [])).server.master.output =
      [1, 2, 3] := by
    decide
  obtain ⟨client, member, connected, asked⟩ := asked
  obtain ⟨seen, _, current, _, _, _, pkts, decoded, content⟩ := stream_follows _
    ⟨1, false, [], attachedTwice, runMeets_of_forall (fun _ _ => trivial) _ _, rfl⟩
    client (List.mem_append_left _ member) (.inl connected)
  refine ⟨client, List.mem_append_left _ member, pkts, decoded, ?_⟩
  rw [content, asked, current member, output]
  decide

end Lich
