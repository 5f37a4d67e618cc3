import Lich.Closure

/-! How long a session lasts.

The server outlives its clients, whatever they do, and not its command: once there
is an exit status every client is closing, and a closing client is let go after the
deadline, whether it reads or not.
-/

set_option autoImplicit false

namespace Lich

open Foundation

/-- All that closes a client in this iteration does so by then. -/
def Tick.Before (latest : Instant) (tick : Tick) : Prop :=
  ∀ id, tick.dumpClock id ≤ latest ∧ tick.exitClock id ≤ latest

def Tick.Alone (tick : Tick) : Prop := ∀ accept ∈ tick.accepts, accept.nonblocking = false

structure Server.Winding (latest : Instant) (server : Server) : Prop where
  early : ∀ client ∈ server.clients, ∀ since, client.closeAfterDrain = some since → since ≤ latest
  all : server.childExit.isSome = true → ∀ client ∈ server.clients,
    client.closeAfterDrain.isSome = true

section

variable {latest : Instant} {tick : Tick} {server : Server} {client : Client}

theorem readOps_closes {history : History} {seen : Nat} {now : Instant} {op : Op} {state : Client}
    {since : Instant} (member : op ∈ readOps client history seen now)
    (closes : op.closes state = some since) : since = now := by
  have packet (inside : op ∈ List.replicate ((readLoop client.stream.reads client).2.buf.length + 1)
      (Op.packet history seen now)) : since = now := by
    rw [List.eq_of_mem_replicate inside, Op.closes] at closes
    obtain ⟨_, _, same⟩ := Option.map_eq_some_iff.mp closes
    exact same.symm
  unfold readOps at member
  split at member
  · rw [List.mem_singleton.mp member] at closes
    cases closes
  · next read =>
    rw [read] at packet
    rcases List.mem_cons.mp member with rfl | inside
    · cases closes
    · exact packet inside
  · next read =>
    rw [read] at packet
    rcases List.mem_append.mp member with inside | last
    · rcases List.mem_cons.mp inside with rfl | inside
      · cases closes
      · exact packet inside
    · rw [List.mem_singleton.mp last] at closes
      cases closes

theorem tickOps_closes {op : Op} {state : Client} {since : Instant} (before : tick.Before latest)
    (member : op ∈ tickOps tick server client) (closes : op.closes state = some since) :
    since ≤ latest := by
  rw [tickOps_expire, servingOps, answerOps] at member
  simp only [List.mem_append] at member
  rcases member with (((shown | read) | notice) | flush) | expire
  · obtain ⟨_, _, rfl⟩ := List.mem_map.mp shown
    cases closes
  · rw [readOps_closes read closes]
    exact (before _).1
  · obtain ⟨status, _, rfl⟩ := List.mem_map.mp notice
    simp only [Op.closes] at closes
    split at closes
    · cases closes
    · cases closes
      exact (before _).2
  · rw [List.mem_singleton.mp flush] at closes
    cases closes
  · rw [List.mem_singleton.mp expire] at closes
    cases closes

theorem runSteps_early {ops : List Op}
    (each : ∀ op ∈ ops, ∀ state since, op.closes state = some since → since ≤ latest)
    (early : ∀ since, client.closeAfterDrain = some since → since ≤ latest) :
    ∀ since, (runSteps Client.step ops client).closeAfterDrain = some since → since ≤ latest := by
  induction ops generalizing client with
  | nil => exact early
  | cons op ops ih =>
    apply ih (fun other member => each other (List.mem_cons_of_mem _ member))
    intro since closing
    rw [Client.step_closing] at closing
    rcases Option.or_eq_some_iff.mp closing with old | ⟨_, new⟩
    · exact early since old
    · exact each op List.mem_cons_self client since new

theorem runSteps_closing {ops : List Op} {since : Instant}
    (closing : client.closeAfterDrain = some since) :
    (runSteps Client.step ops client).closeAfterDrain = some since := by
  rw [closings_first, closing]
  rfl

theorem tickOps_closing {status : Int32} (exit : (drained tick server).childExit = some status)
    (kept : (runSteps Client.step (tickOps tick server client) client).disconnected = false) :
    (runSteps Client.step (tickOps tick server client) client).closeAfterDrain.isSome = true := by
  rw [tickOps_expire, servingOps, exit] at kept ⊢
  simp only [Option.toList, List.map_cons, List.map_nil, runSteps_append, runSteps_cons,
    runSteps_nil] at kept ⊢
  generalize runSteps Client.step (answerOps tick server client) client = answered at kept ⊢
  cases gone : answered.disconnected with
  | true =>
    have still : ((answered.step (.notice status (tick.exitClock client.stream.id))).step
        .flush).step (.expire tick.now) = answered := by
      simp [Client.step, noticeExit, flushClient, expireClient, gone]
    rw [still, gone] at kept
    cases kept
  | false =>
    rw [Client.step_closing, Client.step_closing, Client.step_closing]
    simp [Op.closes, gone]

theorem tickOps_late {since : Instant} (closing : client.closeAfterDrain = some since)
    (late : since + exitDrainDeadline ≤ tick.now) :
    (runSteps Client.step (tickOps tick server client) client).disconnected = true := by
  have still : (runSteps Client.step (servingOps tick server client) client).closeAfterDrain =
      some since := runSteps_closing closing
  rw [tickOps_expire, runSteps_append, runSteps_cons, runSteps_nil]
  generalize runSteps Client.step (servingOps tick server client) client = served at still ⊢
  change (expireClient tick.now served).disconnected = true
  unfold expireClient
  split
  · next gone => exact gone
  · rw [still]
    dsimp only
    split
    · rfl
    · rw [if_pos (Nat.le_sub_of_add_le' late)]
      rfl

theorem opened_alone (alone : tick.Alone) :
    (opened tick server).clients = server.clients := by
  have nobody (first : Nat) : acceptedClients server.pid first tick.accepts = [] := by
    have each := alone
    rw [Tick.Alone] at each
    generalize tick.accepts = accepts at each ⊢
    induction accepts generalizing first with
    | nil => rfl
    | cons accept accepts ih =>
      rw [acceptedClients, if_neg (by rw [each accept List.mem_cons_self]; decide)]
      exact ih first fun other member => each other (List.mem_cons_of_mem _ member)
  obtain ⟨accepted, readPty, childExit, journal, _, same⟩ := opened_eq tick server
  rw [same]
  dsimp only
  rw [nobody, List.append_nil]

theorem mem_iterate_clients (member : client ∈ (iterate tick server).server.clients) :
    ∃ old ∈ (opened tick server).clients,
      runSteps Client.step (tickOps tick server old) old = client ∧ client.disconnected = false := by
  rw [iterate_server] at member
  obtain ⟨inside, kept⟩ := List.mem_filter.mp member
  rw [settled_clients] at inside
  obtain ⟨old, known, same⟩ := List.mem_map.mp inside
  exact ⟨old, known, same, by simpa using kept⟩

theorem iterate_all (tick : Tick) (server : Server)
    (exit : (iterate tick server).server.childExit.isSome = true) :
    ∀ client ∈ (iterate tick server).server.clients, client.closeAfterDrain.isSome = true := by
  intro client member
  obtain ⟨old, _, rfl, kept⟩ := mem_iterate_clients member
  rw [iterate_childExit] at exit
  obtain ⟨status, exit⟩ := Option.isSome_iff_exists.mp exit
  exact tickOps_closing exit kept

theorem Server.Winding.before (winding : server.Winding latest) (before : tick.Before latest) :
    (iterate tick server).server.Winding latest := by
  refine ⟨fun client member => ?_, iterate_all tick server⟩
  obtain ⟨old, known, rfl, _⟩ := mem_iterate_clients member
  refine runSteps_early (fun op inside state since => tickOps_closes before inside) ?_
  rcases mem_opened known with already | new
  · exact winding.early old already
  · obtain ⟨id, accept, rfl⟩ := mem_acceptedClients new
    intro since closing
    cases closing

theorem Server.Winding.alone (winding : server.Winding latest) (exit : server.childExit.isSome = true)
    (alone : tick.Alone) : (iterate tick server).server.Winding latest := by
  refine ⟨fun client member => ?_, iterate_all tick server⟩
  obtain ⟨old, known, rfl, _⟩ := mem_iterate_clients member
  rw [opened_alone alone] at known
  obtain ⟨first, closing⟩ := Option.isSome_iff_exists.mp (winding.all exit old known)
  intro since same
  rw [runSteps_closing closing] at same
  cases same
  exact winding.early old known first closing

theorem iterate_exit (tick : Tick) (exit : server.childExit.isSome = true) :
    (iterate tick server).server.childExit.isSome = true := by
  rw [iterate_childExit]
  rcases drained_exit_once tick server with same | running
  · rw [same, exit]
  · rw [running] at exit
    cases exit

theorem Server.Winding.late (winding : server.Winding latest) (exit : server.childExit.isSome = true)
    (alone : tick.Alone) (late : latest + exitDrainDeadline ≤ tick.now) :
    iterate tick server = .returned (iterate tick server).server := by
  have nobody : (iterate tick server).server.clients = [] := by
    apply List.eq_nil_iff_forall_not_mem.mpr
    intro client member
    obtain ⟨old, known, rfl, kept⟩ := mem_iterate_clients member
    rw [opened_alone alone] at known
    obtain ⟨since, closing⟩ := Option.isSome_iff_exists.mp (winding.all exit old known)
    have early : since + exitDrainDeadline ≤ tick.now :=
      (Nat.add_le_add_right (winding.early old known since closing) _).trans late
    rw [tickOps_late closing early] at kept
    cases kept
  have exit := iterate_exit tick exit
  rw [iterate_server] at exit nobody ⊢
  rw [iterate]
  exact if_pos ⟨exit, nobody⟩

end

/-! ## Runs -/

section

variable {latest : Instant} {server : Server}

theorem serverLoop_before {ticks : List Tick} (winding : server.Winding latest)
    (before : ∀ tick ∈ ticks, tick.Before latest) :
    (serverLoop ticks server).server.Winding latest := by
  induction ticks generalizing server with
  | nil => exact winding
  | cons tick ticks ih =>
    have next := winding.before (before tick List.mem_cons_self)
    rw [serverLoop]
    cases outcome : iterate tick server with
    | running _ =>
      rw [outcome] at next
      exact ih next fun other member => before other (List.mem_cons_of_mem _ member)
    | returned _ =>
      rw [outcome] at next
      exact next

theorem serverLoop_late {ticks : List Tick} {tick : Tick} (winding : server.Winding latest)
    (exit : server.childExit.isSome = true) (alone : ∀ other ∈ ticks ++ [tick], other.Alone)
    (late : latest + exitDrainDeadline ≤ tick.now) :
    ∃ last, serverLoop (ticks ++ [tick]) server = .returned last := by
  induction ticks generalizing server with
  | nil =>
    have returned := winding.late exit (alone tick (List.mem_singleton_self _)) late
    refine ⟨(iterate tick server).server, ?_⟩
    rw [List.nil_append, serverLoop, returned]
    rfl
  | cons first ticks ih =>
    have quiet := alone first List.mem_cons_self
    have next := winding.alone exit quiet
    have still := iterate_exit first exit
    rw [List.cons_append, serverLoop]
    cases outcome : iterate first server with
    | running _ =>
      rw [outcome] at next still
      exact ih next still fun other member => alone other (List.mem_cons_of_mem _ member)
    | returned last => exact ⟨last, rfl⟩

theorem serverLoop_returned {ticks : List Tick} {last : Server}
    (run : serverLoop ticks server = .returned last) (more : List Tick) :
    serverLoop (ticks ++ more) server = .returned last := by
  induction ticks generalizing server with
  | nil => cases run
  | cons tick ticks ih =>
    rw [List.cons_append, serverLoop]
    rw [serverLoop] at run
    cases outcome : iterate tick server with
    | running _ =>
      rw [outcome] at run
      exact ih run
    | returned _ =>
      rw [outcome] at run
      exact run

theorem serverLoop_ended {ticks : List Tick} {last : Server}
    (run : serverLoop ticks server = .returned last) :
    last.childExit.isSome = true ∧ last.clients = [] := by
  induction ticks generalizing server with
  | nil => cases run
  | cons tick ticks ih =>
    rw [serverLoop] at run
    cases outcome : iterate tick server with
    | running _ =>
      rw [outcome] at run
      exact ih run
    | returned _ =>
      rw [outcome] at run
      cases run
      exact iterate_returned outcome

theorem serverLoop_exit {ticks : List Tick} (running : server.childExit = none)
    (exit : (serverLoop ticks server).server.childExit.isSome = true) :
    ∃ tick ∈ ticks, tick.shutdown = true ∨ tick.waitpid.isSome = true := by
  induction ticks generalizing server with
  | nil =>
    change server.childExit.isSome = true at exit
    rw [running] at exit
    cases exit
  | cons tick ticks ih =>
    by_cases cause : tick.shutdown = true ∨ tick.waitpid.isSome = true
    · exact ⟨tick, List.mem_cons_self, cause⟩
    · have still : (iterate tick server).server.childExit = none := by
        obtain ⟨quiet, alive⟩ := not_or.mp cause
        obtain ⟨accepted, readPty, same⟩ := acceptLoop_eq tick.accepts server
        have quiet : tick.shutdown = false := Bool.not_eq_true _ ▸ quiet
        rw [iterate_childExit, drained_childExit, opened, quiet, Option.not_isSome_iff_eq_none.mp alive]
        change (acceptLoop tick.accepts server).childExit.or none = none
        rw [same, Option.or_none]
        exact running
      rw [serverLoop] at exit
      cases outcome : iterate tick server with
      | running _ =>
        rw [outcome] at exit still
        obtain ⟨other, member, cause⟩ := ih still exit
        exact ⟨other, List.mem_cons_of_mem _ member, cause⟩
      | returned _ =>
        rw [outcome] at exit still
        rw [still] at exit
        cases exit

end

theorem Server.start_winding (pid : UInt64) (readPty : Bool) (writes : List WriteAnswer)
    (latest : Instant) : (Server.start pid readPty writes).Winding latest where
  early _ member := by cases member
  all exit := by cases exit

-- The deadline counts from the last event that could close a client.
theorem session_ends (pid : UInt64) (readPty : Bool) (writes : List WriteAnswer)
    (ticks : List Tick) :
    (∀ last, serverLoop ticks (Server.start pid readPty writes) = .returned last →
      (∃ tick ∈ ticks, tick.shutdown = true ∨ tick.waitpid.isSome = true) ∧ last.clients = []) ∧
    ∀ latest quiet tick, (∀ tick ∈ ticks, tick.Before latest) →
      (serverLoop ticks (Server.start pid readPty writes)).server.childExit.isSome = true →
      (∀ other ∈ quiet ++ [tick], other.Alone) → latest + exitDrainDeadline ≤ tick.now →
      ∃ last, serverLoop (ticks ++ (quiet ++ [tick])) (Server.start pid readPty writes) =
        .returned last := by
  constructor
  · intro last run
    obtain ⟨exit, nobody⟩ := serverLoop_ended run
    have start : (Server.start pid readPty writes).childExit = none := rfl
    refine ⟨serverLoop_exit start ?_, nobody⟩
    rw [run]
    exact exit
  · intro latest quiet tick before exit alone late
    cases run : serverLoop ticks (Server.start pid readPty writes) with
    | returned last => exact ⟨last, serverLoop_returned run _⟩
    | running server =>
      have winding := serverLoop_before (Server.start_winding pid readPty writes latest) before
      rw [run] at winding exit
      rw [serverLoop_append run]
      exact serverLoop_late winding exit alone late

def stuckTicks : List Tick :=
  [{ Tick.idle with accepts := [{ attacher with writes := [.err .wouldBlock, .err .wouldBlock] }] },
    { Tick.idle with waitpid := some 0 }]

theorem session_ends_stuck :
    (∃ server, serverLoop stuckTicks (Server.start 1 true []) = .running server) ∧
    ∃ last, serverLoop (stuckTicks ++ [{ Tick.idle with now := exitDrainDeadline }])
      (Server.start 1 true []) = .returned last := by
  refine ⟨⟨_, rfl⟩, (session_ends 1 true [] stuckTicks).2 0 [] _ ?_ rfl ?_ (Nat.le_of_eq rfl)⟩
  · intro tick member id
    rcases List.mem_pair.mp member with rfl | rfl <;> exact ⟨Nat.le_refl 0, Nat.le_refl 0⟩
  · intro other member accept inside
    rw [List.mem_singleton.mp member] at inside
    cases inside

end Lich
