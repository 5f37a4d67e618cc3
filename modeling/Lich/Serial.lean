import Lich.Closing
import Lich.StreamEnd

/-! What the server does to the command, in the order in which it does it.

Packets of many clients wait at a time, but each is done with before the next is
looked at: what reaches the pty is a list of whole deeds. A size is always followed
by the signal that tells of it, and the command is asked to end once at most.
-/

set_option autoImplicit false

namespace Lich

open Foundation

/-- One thing done to the pty or the command. -/
inductive Deed where
  /-- SIGTERM -/
  | term
  | typed (id : Nat) (payload : List UInt8) (writes : List PtyEntry)
  | sized (id : Nat) (rows cols : UInt16)

def Deed.entries : Deed → List PtyEntry
  | .term => [.signalled .term]
  | .typed id payload writes => .input id payload :: writes
  | .sized id rows cols => [.resized id rows cols, .signalled .winch]

/-- The write loop wrote a front of the payload, all of it if no write failed. -/
def Deed.Sound : Deed → Prop
  | .typed _ payload writes => Written payload writes
  | _ => True

def Deed.command : Deed → Option PtyEntry
  | .term => none
  | .typed id payload _ => some (.input id payload)
  | .sized id rows cols => some (.resized id rows cols)

structure Serial (journal : List PtyEntry) (deeds : List Deed) : Prop where
  sound : ∀ deed ∈ deeds, deed.Sound
  whole : journal = deeds.flatMap Deed.entries

theorem Serial.append {first second : List PtyEntry} {deeds more : List Deed}
    (serial : Serial first deeds) (later : Serial second more) :
    Serial (first ++ second) (deeds ++ more) where
  sound := List.forall_mem_append.mpr ⟨serial.sound, later.sound⟩
  whole := by rw [serial.whole, later.whole, List.flatMap_append]

theorem Recorded.serial {journal : List PtyEntry} (recorded : Recorded journal) :
    ∃ deeds, Serial journal deeds := by
  have one (deed : Deed) (sound : deed.Sound) : Serial deed.entries [deed] :=
    ⟨fun _ member => List.mem_singleton.mp member ▸ sound, (List.append_nil _).symm⟩
  induction recorded with
  | nil => exact ⟨[], ⟨fun _ member => (List.not_mem_nil member).elim, rfl⟩⟩
  | signal _ ih =>
    obtain ⟨deeds, serial⟩ := ih
    have term : Serial [.signalled .term] [.term] := one .term trivial
    exact ⟨deeds ++ [.term], serial.append term⟩
  | packet _ obeys ih =>
    obtain ⟨deeds, serial⟩ := ih
    cases obeys with
    | keys writes _ written => exact ⟨_, serial.append (one (.typed _ _ writes) written)⟩
    | resize rows cols _ => exact ⟨_, serial.append (one (.sized _ rows cols) trivial)⟩
    | nothing _ => exact ⟨deeds, by rwa [List.append_nil]⟩

theorem Deed.command_client {deeds : List Deed} {command : PtyEntry}
    (member : command ∈ deeds.filterMap Deed.command) : ∃ id, command.client? = some id := by
  obtain ⟨deed, _, same⟩ := List.mem_filterMap.mp member
  cases deed with
  | term => cases same
  | typed id payload writes =>
    cases same
    exact ⟨id, rfl⟩
  | sized id rows cols =>
    cases same
    exact ⟨id, rfl⟩

theorem Serial.commandsOf {journal : List PtyEntry} {deeds : List Deed} (serial : Serial journal deeds)
    (id : Nat) : commandsOf id journal =
      (deeds.filterMap Deed.command).filter (·.client? == some id) := by
  obtain ⟨sound, rfl⟩ := serial
  induction deeds with
  | nil => rfl
  | cons deed deeds ih =>
    rw [List.flatMap_cons, commandsOf_append, ih fun other member => sound other (List.mem_cons_of_mem _ member)]
    have own : Lich.commandsOf id deed.entries =
        deed.command.toList.filter (·.client? == some id) := by
      cases deed with
      | term => rfl
      | sized other rows cols =>
        simp only [Deed.entries, Deed.command, Option.toList, Lich.commandsOf, List.filter_cons,
          List.filter_nil, PtyEntry.client?]
        rfl
      | typed other payload writes =>
        have written : Written payload writes := sound _ List.mem_cons_self
        have plain : Lich.commandsOf id writes = [] :=
          commandsOf_eq_nil fun entry member => by
            rw [written.plain entry member]
            exact fun no => by cases no
        rw [Deed.entries, ← List.singleton_append, commandsOf_append, plain, List.append_nil]
        rfl
    rw [own]
    cases command : deed.command with
    | none =>
      rw [List.filterMap_cons_none command]
      rfl
    | some entry =>
      rw [List.filterMap_cons_some command, ← List.filter_append]
      rfl

/-! ## How often the command is asked to end -/

def terms (journal : List PtyEntry) : Nat := journal.count (.signalled .term)

theorem terms_append (first second : List PtyEntry) :
    terms (first ++ second) = terms first + terms second := List.count_append

theorem Pty.log_terms (master : Pty) {entry : PtyEntry} (other : entry ≠ .signalled .term) :
    terms (master.log entry).journal = terms master.journal := by
  rw [Pty.log, terms_append, terms, terms, List.count_singleton]
  simp [other]

theorem Pty.write_terms (master : Pty) (offered : List UInt8) :
    terms (master.write offered).2.journal = terms master.journal := by
  unfold Pty.write
  split
  · exact master.log_terms PtyEntry.noConfusion
  · exact Pty.log_terms _ PtyEntry.noConfusion
  · exact Pty.log_terms _ PtyEntry.noConfusion

theorem fdWriteLoop_terms (rounds : Nat) (master : Pty) (buf : List UInt8) :
    terms (fdWriteLoop rounds master buf).2.journal = terms master.journal := by
  induction rounds generalizing master buf with
  | zero => rfl
  | succ rounds ih =>
    have kept := master.write_terms buf
    rw [fdWriteLoop]
    split
    · rfl
    · rcases answer : master.write buf with ⟨outcome, next⟩
      rw [answer] at kept
      split
      · next same => cases same; exact (ih _ _).trans kept
      · next same => cases same; exact kept
      · next same => cases same; exact kept
      · next same => cases same; exact (ih _ _).trans kept

theorem handlePacket_terms (history : History) (now : Instant) (pkt : Packet) (client : Client)
    (master : Pty) :
    terms (handlePacket history now pkt client master).2.journal = terms master.journal := by
  unfold handlePacket
  dsimp only
  split
  · split
    · exact (fdWriteLoop_terms _ _ _).trans (master.log_terms PtyEntry.noConfusion)
    · rfl
  · split
    · rfl
    · split
      · rfl
      · split
        · split
          · exact (Pty.log_terms _ (by decide)).trans (master.log_terms PtyEntry.noConfusion)
          · rfl
        · split <;> rfl

theorem packetLoop_terms (history : History) (now : Instant) (rounds : Nat) (client : Client)
    (master : Pty) :
    terms (packetLoop history now rounds client master).2.journal = terms master.journal := by
  induction rounds generalizing client master with
  | zero => rfl
  | succ rounds ih =>
    rw [packetLoop]
    rcases popPacket client.buf with ⟨_ | pkt, buf⟩
    · rfl
    · exact (ih _ _).trans (handlePacket_terms _ _ _ _ _)

theorem readClientPackets_terms (client : Client) (master : Pty) (history : History)
    (now : Instant) :
    terms (readClientPackets client master history now).2.journal = terms master.journal := by
  unfold readClientPackets
  rcases readLoop client.stream.reads client with ⟨_ | _ | _, next⟩
  · exact packetLoop_terms _ _ _ _ _
  · exact packetLoop_terms _ _ _ _ _
  · rfl

theorem readClients_terms (history : History) (clock : Nat → Instant) (clients : List Client)
    (master : Pty) :
    terms (readClients history clock clients master).2.journal = terms master.journal := by
  induction clients generalizing master with
  | nil => rfl
  | cons client clients ih =>
    rw [readClients]
    exact (ih _).trans (readClientPackets_terms _ _ _ _)

/-- Once the command has been asked to end, that is its exit status. -/
structure Server.Asked (server : Server) : Prop where
  once : terms server.master.journal ≤ 1
  status : terms server.master.journal = 1 → server.childExit = some (128 + sigterm)

theorem iterate_asked {server : Server} (asked : server.Asked) (tick : Tick) :
    (iterate tick server).server.Asked := by
  have asOpened : (opened tick server).Asked := by
    obtain ⟨accepted, readPty, same⟩ := acceptLoop_eq tick.accepts (pollShutdown tick.shutdown server)
    rw [opened, same]
    unfold pollShutdown
    split
    · next due =>
      have alive : server.childExit = none :=
        Option.isNone_iff_eq_none.mp (Bool.and_eq_true_iff.mp due).2
      have quiet : terms server.master.journal = 0 := by
        have once := asked.once
        by_contra signalled
        have status := asked.status (by omega)
        rw [alive] at status
        cases status
      refine ⟨?_, fun _ => rfl⟩
      change terms (server.master.journal ++ [.signalled .term]) ≤ 1
      rw [terms_append, quiet]
      decide
    · exact ⟨asked.once, asked.status⟩
  have asDrained : (drained tick server).master.journal = (opened tick server).master.journal := by
    obtain ⟨readPty, childExit, after⟩ := drained_eq tick server
    rw [after]
    rfl
  have journal : terms (iterate tick server).server.master.journal =
      terms (opened tick server).master.journal := by
    rw [iterate_server]
    change terms (settled tick server).master.journal = _
    rw [settled_master, readClients_terms, asDrained]
  refine ⟨journal ▸ asOpened.once, fun one => ?_⟩
  have status := asOpened.status (journal ▸ one)
  rw [iterate_childExit, drained_childExit, status]
  rfl

-- What the journal holds of each client is known from its packets; here the pieces of
-- all of them are put side by side.
theorem pty_is_serial (server : Server) (reached : Reached (fun _ _ => True) server) :
    (∃ deeds, Serial server.master.journal deeds ∧
      (∀ client ∈ server.everyone, client.Decoded ∧
        (deeds.filterMap Deed.command).filter (·.client? == some client.stream.id) =
          commands client.stream.id 0 client.handled) ∧
      ∀ command ∈ deeds.filterMap Deed.command, ∃ client ∈ server.everyone,
        command.client? = some client.stream.id) ∧
    terms server.master.journal ≤ 1 ∧
    (terms server.master.journal = 1 → server.childExit = some (128 + sigterm)) := by
  have sound := reached.sound
  have obeyed := reached.obeyed
  obtain ⟨deeds, serial⟩ := obeyed.recorded.serial
  obtain ⟨pid, readPty, writes, ticks, _, rfl⟩ := reached
  have start : (Server.start pid readPty writes).Asked :=
    ⟨Nat.zero_le 1, fun one => by cases one⟩
  have keeps (server : Server) (tick : Tick) (asked : server.Asked) :
      (iterate tick server).server.Asked := iterate_asked asked tick
  have asked := serverLoop_invariant keeps ticks start
  refine ⟨⟨deeds, serial, fun client member => ?_, fun command member => ?_⟩, asked.once, asked.status⟩
  · obtain ⟨_, _, _, _, life⟩ := sound.life member
    rw [← serial.commandsOf]
    exact ⟨life.place_decoded, (obeyed.clients client member).commands⟩
  · obtain ⟨id, own⟩ := Deed.command_client member
    have mine : command ∈ commandsOf id
        (serverLoop ticks (Server.start pid readPty writes)).server.master.journal := by
      rw [serial.commandsOf]
      exact List.mem_filter.mpr ⟨member, by simp [own]⟩
    have known : id < (serverLoop ticks (Server.start pid readPty writes)).server.accepted := by
      by_contra new
      rw [obeyed.unused id (Nat.le_of_not_lt new)] at mine
      cases mine
    have listed := obeyed.numbered.mem_iff.mpr (List.mem_range.mpr known)
    obtain ⟨client, inside, same⟩ := List.mem_map.mp listed
    exact ⟨client, inside, by rw [own, same]⟩

def typingClient : Accept :=
  ⟨[.ok ⟨[⟨msgAttach, [0, 0, 0, 0]⟩, ⟨msgContent, [104, 105]⟩,
    (⟨msgResize, [24, 0, 80, 0]⟩ : Packet)].flatMap packetBytes, by decide⟩], [], 16, true⟩

def askedTwice : Server :=
  (serverLoop [{ Tick.idle with accepts := [typingClient] }, { Tick.idle with shutdown := true },
    { Tick.idle with shutdown := true }] (Server.start 1 true [])).server

theorem pty_is_serial_asked :
    (∃ deeds, Serial askedTwice.master.journal deeds ∧
      (deeds.filterMap Deed.command).filter (·.client? == some 0) =
        [.input 0 [104, 105], .resized 0 24 80]) ∧
    askedTwice.childExit = some 143 := by
  have reached : Reached (fun _ _ => True) askedTwice :=
    ⟨1, true, [], _, runMeets_of_forall (fun _ _ => trivial) _ _, rfl⟩
  obtain ⟨⟨deeds, serial, clients, _⟩, _, status⟩ := pty_is_serial askedTwice reached
  have commands : askedTwice.everyone.map (fun client =>
      (client.stream.id, commands client.stream.id 0 client.handled)) =
      [(0, [.input 0 [104, 105], .resized 0 24 80])] := by decide
  obtain ⟨client, list, same⟩ := List.map_eq_singleton_iff.mp commands
  obtain ⟨id, told⟩ := Prod.mk.inj same
  have own := (clients client (list ▸ .head _)).2
  rw [told, id] at own
  exact ⟨⟨deeds, serial, own⟩, status (by decide)⟩

end Lich
