import Lich.Server
import Lich.C.Deliver

/-! Who sets the window's size, in the two programs.

The Rust program sets what any connected client asks for. The C program sets what
the client at the head of its list asks for, unless that client only watches.
-/

set_option autoImplicit false

namespace Lich

open Foundation

/-! ## Delivery -/

theorem nil_bound : ([] : List UInt8).length ≤ 8192 := Nat.zero_le _

theorem packetBytes_bound {pkt : Packet} (fits : pkt.Fits) : (packetBytes pkt).length ≤ 8192 := by
  rw [Packet.Fits, maxPayload] at fits
  rw [packetBytes_length]
  omega

def arrival : Option (Option { pkt : Packet // pkt.Fits }) → List (ReadAnswer 8192)
  | none => [.err .wouldBlock]
  | some none => [.ok ⟨[], nil_bound⟩]
  | some (some pkt) => [.ok ⟨packetBytes pkt.1, packetBytes_bound pkt.2⟩, .err .wouldBlock]

def readsOf (who : Nat) (events : List RoomEvent) : List (ReadAnswer 8192) :=
  events.flatMap fun event => arrival (event.comes who)

def accepts (accepted : Nat) (event : RoomEvent) (later : List RoomEvent) : List Accept :=
  if event = .accept then [⟨readsOf accepted (event :: later), [], 16, true⟩] else []

/-- An iteration in which the pty is silent and the child lives. -/
def tickOf (accepts : List Accept) : Tick :=
  ⟨false, accepts, [], none, fun _ => 0, fun _ => 0, 0⟩

def ticks : (accepted : Nat) → List RoomEvent → List Tick
  | _, [] => []
  | accepted, event :: later =>
    tickOf (accepts accepted event later) ::
      ticks (if event = .accept then accepted + 1 else accepted) later

def sizes (pid : UInt64) (readPty : Bool) (ptyWrites : List WriteAnswer) (events : List RoomEvent) :
    List (UInt16 × UInt16) :=
  sizesOf (serverLoop (ticks 0 events) (Server.start pid readPty ptyWrites)).server.master.journal

/-! ## One client -/

def Client.streamId (client : Client) : Nat := client.stream.id

/-- A client with which nothing is going on, and what its socket will answer. -/
structure Client.Awaits (client : Client) (events : List RoomEvent) : Prop where
  buf : client.buf = []
  sendQueue : client.sendQueue = []
  connected : client.disconnected = false
  closeAfterDrain : client.closeAfterDrain = none
  reads : client.stream.reads = readsOf client.stream.id events

def Client.Behind (client : Client) (event : RoomEvent) (later : List RoomEvent) : Prop :=
  if event = .disconnect client.stream.id then client.disconnected = true else client.Awaits later

section Behind

variable {client : Client} {event : RoomEvent} {later : List RoomEvent}

theorem Client.Behind.stays (awaits : client.Awaits later)
    (other : event ≠ .disconnect client.stream.id) : client.Behind event later := by
  rw [Behind, if_neg other]
  exact awaits

theorem Client.Behind.leaves (gone : client.disconnected = true)
    (same : event = .disconnect client.stream.id) : client.Behind event later := by
  rw [Behind, if_pos same]
  exact gone

theorem Client.Behind.kept (behind : client.Behind event later) :
    (!client.disconnected) = decide (event ≠ .disconnect client.streamId) ∧
      (client.disconnected = false → client.Awaits later) := by
  rw [Behind] at behind
  split at behind
  · next same =>
    refine ⟨by rw [behind]; simp [streamId, same], fun connected => ?_⟩
    rw [behind] at connected
    cases connected
  · next other =>
    exact ⟨by rw [behind.connected]; simp [streamId, other], fun _ => behind⟩

end Behind

def RoomEvent.asks (who : Nat) : RoomEvent → List (UInt16 × UInt16)
  | .resize a ws => if a = who then [(ws.rows, ws.cols)] else []
  | _ => []

theorem RoomEvent.asks_other {who : Nat} {event : RoomEvent} (other : event.source ≠ some who) :
    event.asks who = [] := by
  cases event with
  | resize a ws => exact if_neg fun same => other (congrArg some same)
  | _ => rfl

theorem popPacket_empty : popPacket [] = (none, []) := rfl

theorem popPacket_one {pkt : Packet} (fits : pkt.Fits) : popPacket (packetBytes pkt) = (some pkt, []) := by
  have whole := packetBytes_inverts fits []
  rw [List.append_nil] at whole
  rw [popPacket_eq, whole]

section Reads

variable {client : Client} {event : RoomEvent} {events : List RoomEvent} {now : Instant}
  {master : Pty} {history : History} {later : List (ReadAnswer 8192)} {pkt : Packet}

theorem packetLoop_empty (empty : client.buf = []) (rounds : Nat) :
    packetLoop history now rounds client master = (client, master) := by
  cases rounds with
  | zero => rfl
  | succ rounds =>
    rw [packetLoop, empty, popPacket_empty, ← empty]

theorem readClientPackets_nothing (empty : client.buf = [])
    (reads : client.stream.reads = .err .wouldBlock :: later) :
    readClientPackets client master history now = (client.received [] later, master) := by
  have none : (client.received [] later).buf = [] := by simp [empty]
  rw [readClientPackets, reads, readLoop]
  exact packetLoop_empty none _

theorem readClientPackets_end (empty : client.buf = []) {size : ([] : List UInt8).length ≤ 8192}
    (reads : client.stream.reads = .ok ⟨[], size⟩ :: later) :
    readClientPackets client master history now =
      ((client.received [] later).leave .endOfStream, master) := by
  have none : (client.received [] later).buf = [] := by simp [empty]
  rw [readClientPackets, reads, readLoop, if_pos rfl]
  dsimp only
  rw [packetLoop_empty none]

theorem readClientPackets_one (empty : client.buf = []) (fits : pkt.Fits)
    {size : (packetBytes pkt).length ≤ 8192}
    (reads : client.stream.reads = .ok ⟨packetBytes pkt, size⟩ :: .err .wouldBlock :: later)
    (rest : (handlePacket history now pkt { client.received [packetBytes pkt] later with buf := [] }
      master).1.buf = []) :
    readClientPackets client master history now =
      handlePacket history now pkt { client.received [packetBytes pkt] later with buf := [] } master := by
  have some : packetBytes pkt ≠ [] := by
    rw [← List.length_pos_iff, packetBytes_length]
    omega
  have got : ((client.received [packetBytes pkt] (.err .wouldBlock :: later)).received [] later) =
      client.received [packetBytes pkt] later := Client.received_received _ _ _ _ _
  have buf : (client.received [packetBytes pkt] later).buf = packetBytes pkt := by simp [empty]
  rw [readClientPackets, reads, readLoop, if_neg some, readLoop, got]
  dsimp only
  rw [packetLoop, buf, popPacket_one fits]
  exact packetLoop_empty rest _

theorem handlePacket_resize (client : Client) (ws : Winsize) :
    handlePacket history now ⟨msgResize, ws.bytes⟩ client master =
      (client.log (.served ⟨msgResize, ws.bytes⟩ master.output.length),
        (master.log (.resized client.stream.id ws.rows ws.cols)).log (.signalled .winch)) := by
  rw [handlePacket]
  dsimp only
  rw [if_neg (by decide), if_neg (by decide), if_neg (by decide), if_pos rfl,
    if_pos (Nat.le_of_eq ws.size.symm)]
  rfl

theorem readClientPackets_awaits (awaits : client.Awaits (event :: events)) :
    ∃ next master', readClientPackets client master History.new now = (next, master') ∧
      next.stream.id = client.stream.id ∧ next.Behind event events ∧
      sizesOf master'.journal = sizesOf master.journal ++ event.asks client.stream.id := by
  obtain ⟨empty, queue, connected, staying, reads⟩ := awaits
  rw [readsOf, List.flatMap_cons] at reads
  by_cases other : event.source ≠ some client.stream.id
  · rw [RoomEvent.comes_other other] at reads
    refine ⟨_, _, readClientPackets_nothing empty reads, rfl,
      .stays ⟨by simp [empty], queue, connected, staying, rfl⟩ ?_, ?_⟩
    · rintro rfl
      exact other rfl
    · rw [RoomEvent.asks_other other, List.append_nil]
  · rw [not_not] at other
    cases event with
    | accept => cases other
    | attach who flags =>
      cases other
      obtain ⟨fits, comes⟩ := RoomEvent.comes_attach client.stream.id flags
      rw [comes] at reads
      exact ⟨_, _, readClientPackets_one empty fits reads rfl, rfl,
        .stays ⟨rfl, queue, connected, staying, rfl⟩ nofun, (List.append_nil _).symm⟩
    | resize who ws =>
      cases other
      obtain ⟨fits, comes⟩ := RoomEvent.comes_resize client.stream.id ws
      rw [comes] at reads
      have done := @readClientPackets_one client now master History.new _ _ empty fits _ reads (by
        rw [handlePacket_resize]
        rfl)
      rw [handlePacket_resize] at done
      refine ⟨_, _, done, rfl, .stays ⟨rfl, queue, connected, staying, rfl⟩ nofun, ?_⟩
      rw [RoomEvent.asks, if_pos rfl]
      simp [Pty.log, sizesOf, PtyEntry.size?]
    | disconnect who =>
      cases other
      rw [RoomEvent.comes_disconnect] at reads
      exact ⟨_, _, readClientPackets_end empty reads, rfl, .leaves rfl rfl, (List.append_nil _).symm⟩

end Reads

/-! ## An iteration -/

section Iteration

variable {clients : List Client} {event : RoomEvent} {events : List RoomEvent} {server : Server}
  {room : Room} {journal : List PtyEntry}

theorem readClients_awaits (awaits : ∀ client ∈ clients, client.Awaits (event :: events))
    (clock : Nat → Instant) (master : Pty) :
    ∃ next master', readClients History.new clock clients master = (next, master') ∧
      next.map Client.streamId = clients.map Client.streamId ∧ (∀ client ∈ next, client.Behind event events) ∧
      sizesOf master'.journal =
        sizesOf master.journal ++ (clients.map Client.streamId).flatMap fun who => event.asks who := by
  induction clients generalizing master with
  | nil => exact ⟨[], master, rfl, rfl, nofun, (List.append_nil _).symm⟩
  | cons client clients ih =>
    obtain ⟨first, middle, read, id, behind, sizes⟩ :=
      @readClientPackets_awaits client event events (clock client.stream.id) master
        (awaits client (.head _))
    obtain ⟨rest, last, read', ids, behind', sizes'⟩ :=
      ih (fun client member => awaits client (.tail _ member)) middle
    refine ⟨first :: rest, last, ?_, ?_, ?_, ?_⟩
    · rw [readClients, read]
      dsimp only
      rw [read']
    · rw [List.map_cons, List.map_cons, ids, Client.streamId, id]
      rfl
    · intro client member
      rcases List.mem_cons.mp member with rfl | member
      · exact behind
      · exact behind' client member
    · rw [sizes', sizes, List.map_cons, List.flatMap_cons, List.append_assoc]
      rfl

theorem expire_flush_behind {client : Client} (behind : client.Behind event events) (now : Instant) :
    expireClient now (flushClient client) = client := by
  by_cases gone : client.disconnected
  · rw [flushClient, if_pos gone, expireClient, if_pos gone]
  · have awaits := behind.kept.2 (by simpa using gone)
    have flushed : flushClient client = client := by
      rw [flushClient, if_neg gone, tryFlushClient, tryFlushLoop, if_pos awaits.sendQueue]
    rw [flushed, expireClient, if_neg gone, awaits.closeAfterDrain]

structure Server.Follows (server : Server) (room : Room) (events : List RoomEvent) : Prop where
  history : server.history = History.new
  childExit : server.childExit = none
  accepted : server.accepted = room.accepted
  ids : (server.clients.map Client.streamId).Perm room.ids
  awaits : ∀ client ∈ server.clients, client.Awaits events

theorem drained_tickOf (accepts : List Accept) (server : Server) :
    drained (tickOf accepts) server = acceptLoop accepts server := by
  have same : opened (tickOf accepts) server = acceptLoop accepts server := rfl
  rw [drained, same]
  dsimp only [tickOf]
  rw [ptyLoop, ite_self, reapChild]
  intro status _ same
  cases same

theorem iterate_tickOf {accepts : List Accept} {opened : Server} (accepted : acceptLoop accepts server = opened)
    (follows : opened.Follows room (event :: events)) :
    ∃ next, iterate (tickOf accepts) server = .running next ∧
      next.history = History.new ∧ next.childExit = none ∧ next.accepted = room.accepted ∧
      next.clients.map Client.streamId =
        (opened.clients.map Client.streamId).filter (fun who => event ≠ .disconnect who) ∧
      (∀ client ∈ next.clients, client.Awaits events) ∧
      sizesOf next.master.journal = sizesOf opened.master.journal ++
        (opened.clients.map Client.streamId).flatMap fun who => event.asks who := by
  obtain ⟨clients, master, read, ids, behind, sizes⟩ :=
    readClients_awaits follows.awaits (tickOf accepts).dumpClock opened.master
  have still : (clients.map flushClient).map (expireClient (tickOf accepts).now) = clients := by
    rw [List.map_map]
    exact (List.map_congr_left fun client member =>
      expire_flush_behind (behind client member) _).trans (List.map_id _)
  have settled' : settled (tickOf accepts) server = { opened with clients, master } := by
    rw [settled, drained_tickOf, accepted]
    dsimp only
    rw [follows.history, read]
    dsimp only
    rw [follows.childExit]
    dsimp only
    rw [still]
  refine ⟨retainClients { opened with clients, master }, ?_, follows.history, follows.childExit,
    follows.accepted, ?_, ?_, sizes⟩
  · rw [iterate, settled']
    exact if_neg fun both => by
      have exit := both.1
      rw [retainClients, follows.childExit] at exit
      cases exit
  · rw [← ids, List.filter_map]
    exact congrArg (List.map Client.streamId) (List.filter_congr fun client member =>
      (behind client member).kept.1)
  · intro client member
    obtain ⟨member, kept⟩ := List.mem_filter.mp member
    exact (behind client member).kept.2 (by simpa using kept)

theorem asks_of_nodup {ids : List Nat} (nodup : ids.Nodup) (a : Nat) (ws : Winsize) :
    ids.flatMap (fun who => RoomEvent.asks who (.resize a ws)) =
      if a ∈ ids then [(ws.rows, ws.cols)] else [] := by
  induction ids with
  | nil => rfl
  | cons who ids ih =>
    obtain ⟨fresh, nodup⟩ := List.nodup_cons.mp nodup
    rw [List.flatMap_cons, ih nodup, RoomEvent.asks]
    by_cases same : a = who
    · subst same
      simp [fresh]
    · simp [same]

def Room.opened (event : RoomEvent) (room : Room) : Room :=
  if event = .accept then room.step .accept else room

theorem Room.opened_step (event : RoomEvent) (room : Room) :
    (room.opened event).accepted = (room.step event).accepted ∧
      ((room.opened event).ids.filter fun who => event ≠ .disconnect who).Perm (room.step event).ids := by
  cases event with
  | accept => exact ⟨rfl, by simp [opened]⟩
  | attach who flags =>
    refine ⟨?_, ?_⟩
    · rw [opened, if_neg (by simp), step]
      split <;> rfl
    · simpa [opened] using (room.ids_attach who flags).symm
  | resize who ws => exact ⟨rfl, by simp [opened, step]⟩
  | disconnect who =>
    refine ⟨rfl, ?_⟩
    rw [ids_disconnect, opened, if_neg (by simp)]
    simp [eq_comm]

theorem Room.asked_opened {room : Room} (sound : room.Sound) {ids : List Nat}
    (same : ids.Perm (room.opened event).ids) :
    ids.flatMap (fun who => event.asks who) = room.asked event := by
  cases event with
  | resize who ws =>
    have same : ids.Perm room.ids := same
    rw [asks_of_nodup (same.nodup_iff.mpr sound.nodup), asked]
    simp only [same.mem_iff]
  | _ => simp [RoomEvent.asks, asked]

theorem acceptLoop_follows (follows : server.Follows room (event :: events)) :
    (acceptLoop (accepts server.accepted event events) server).Follows (room.opened event)
        (event :: events) ∧
      (acceptLoop (accepts server.accepted event events) server).master = server.master := by
  by_cases comes : event = .accept
  · rw [accepts, Room.opened, if_pos comes, if_pos comes]
    refine ⟨⟨follows.history, follows.childExit, congrArg (· + 1) follows.accepted, ?_, ?_⟩, rfl⟩
    · have new : (server.clients ++ [Client.accept server.pid server.accepted
          ⟨readsOf server.accepted (event :: events), [], 16, true⟩]).map Client.streamId =
            server.clients.map Client.streamId ++ [room.accepted] := by
        rw [List.map_append, ← follows.accepted]
        rfl
      change (List.map Client.streamId (server.clients ++ _)).Perm (room.accepted :: room.ids)
      rw [new]
      exact (List.perm_append_singleton _ _).trans (follows.ids.cons _)
    · intro client member
      rcases List.mem_append.mp member with member | member
      · exact follows.awaits client member
      · rw [List.mem_singleton.mp member]
        exact ⟨rfl, rfl, rfl, rfl, rfl⟩
  · rw [accepts, Room.opened, if_neg comes, if_neg comes]
    exact ⟨follows, rfl⟩

theorem iterate_follows (follows : server.Follows room (event :: events)) (sound : room.Sound) :
    ∃ next, iterate (tickOf (accepts server.accepted event events)) server = .running next ∧
      next.Follows (room.step event) events ∧
      sizesOf next.master.journal = sizesOf server.master.journal ++ room.asked event := by
  obtain ⟨opened, master⟩ := acceptLoop_follows follows
  obtain ⟨next, run, history, childExit, accepted, ids, awaits, sizes⟩ := iterate_tickOf rfl opened
  obtain ⟨accepted', filtered⟩ := Room.opened_step event room
  refine ⟨next, run, ⟨history, childExit, accepted.trans accepted', ?_, awaits⟩, ?_⟩
  · rw [ids]
    exact (opened.ids.filter _).trans filtered
  · rw [sizes, master, Room.asked_opened sound opened.ids]

theorem ticks_cons (accepted : Nat) :
    ticks accepted (event :: events) = tickOf (accepts accepted event events) ::
      ticks (if event = .accept then accepted + 1 else accepted) events := rfl

theorem serverLoop_follows (follows : server.Follows room events) (sound : room.Sound) :
    sizesOf (serverLoop (ticks server.accepted events) server).server.master.journal =
      sizesOf server.master.journal ++ emitted Room.step Room.asked events room := by
  induction events generalizing server room with
  | nil => exact (List.append_nil _).symm
  | cons event events ih =>
    obtain ⟨next, run, follows', sizes⟩ := iterate_follows follows sound
    have accepted : (if event = .accept then server.accepted + 1 else server.accepted) =
        next.accepted := by
      rw [follows'.accepted, follows.accepted, ← (Room.opened_step event room).1, Room.opened]
      split <;> rfl
    rw [ticks_cons, serverLoop, run, accepted, emitted, ← List.append_assoc, ← sizes]
    exact ih follows' (sound.step event)

end Iteration

/-! ## Both programs -/

-- The Rust program sets the sizes that any connected client asks for.
theorem sizes_eq (pid : UInt64) (readPty : Bool) (ptyWrites : List WriteAnswer)
    (events : List RoomEvent) :
    sizes pid readPty ptyWrites events = emitted Room.step Room.asked events Room.empty := by
  have start : (Server.start pid readPty ptyWrites).Follows Room.empty events :=
    ⟨rfl, rfl, rfl, List.Perm.refl _, by simp [Server.start]⟩
  exact serverLoop_follows start Room.empty_sound

-- A size that the C program does not set is one too many, so the two agree on a
-- run only where they agree on every MSG_RESIZE in it.
theorem sizes_agree_iff (pid : UInt64) (readPty : Bool) (ptyWrites : List WriteAnswer)
    (events : List RoomEvent) :
    sizes pid readPty ptyWrites events = C.sizes pid readPty ptyWrites events ↔
      Along Room.step Room.Decides events Room.empty := by
  rw [sizes_eq, C.sizes_eq, emitted_eq_iff Room.granted_sublist]
  simp only [Room.asked_eq_granted_iff]

def onlyWatching : List RoomEvent :=
  [.accept, .attach 0 clientReadonly, .resize 0 ⟨[24, 0, 80, 0], rfl⟩]

theorem watcher_resizes :
    ¬ ∀ events, sizes 1 true [] events = C.sizes 1 true [] events := by
  intro always
  have rust : sizes 1 true [] onlyWatching = [(24, 80)] := by decide
  have c : C.sizes 1 true [] onlyWatching = [] := by rfl
  have same := always onlyWatching
  rw [rust, c] at same
  cases same

end Lich
