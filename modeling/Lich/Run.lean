import Lich.Life

/-! Runs of the server and the lives of its clients.

`Life` collects the steps a client can go through, with the output of the child
and its exit status as the client's steps saw them. Every client of every run
has such a life (`serverLoop_sound`), so what all lives keep is kept by all
clients, in any interleaving.
-/

set_option autoImplicit false

namespace Lich

open Foundation

def Op.output : Op → List UInt8
  | .broadcast bytes => bytes
  | _ => []

/-- What a step may refer to, after the given output and exit status. -/
def Op.Legal (output : List UInt8) (childExit : Option Int32) : Op → Prop
  | .broadcast bytes => bytes.length ≤ maxPayload
  | .packet history seen _ => history = History.after output ∧ seen = output.length
  | .notice status _ => childExit = some status
  | _ => True

/-- A client that has come from its connection to here by legal steps, each of
which met the condition. -/
inductive Life (ok : Client → Op → Prop) : List UInt8 → Option Int32 → Client → Prop where
  | start (output : List UInt8) (childExit : Option Int32) (pid : UInt64) (id : Nat)
      (accept : Accept) : Life ok output childExit (Client.accept pid id accept)
  | reap {output : List UInt8} {client : Client} (status : Int32) :
      Life ok output none client → Life ok output (some status) client
  | step {output : List UInt8} {childExit : Option Int32} {client : Client} (op : Op) :
      Life ok output childExit client → op.Legal output childExit → ok client op →
      Life ok (output ++ op.output) childExit (client.step op)

/-- Each step of each client in the run meets the condition. -/
def RunMeets (ok : Client → Op → Prop) : List Tick → Server → Prop
  | [], _ => True
  | tick :: ticks, server =>
    (∀ client ∈ (opened tick server).clients,
      Along Client.step ok (tickOps tick server client) client) ∧
    match iterate tick server with
    | .running server => RunMeets ok ticks server
    | .returned _ => True

instance decidableRunMeets {ok : Client → Op → Prop} [∀ client op, Decidable (ok client op)] :
    (ticks : List Tick) → (server : Server) → Decidable (RunMeets ok ticks server)
  | [], _ => .isTrue trivial
  | tick :: ticks, server =>
    let _ : Decidable (match iterate tick server with
        | .running server => RunMeets ok ticks server
        | .returned _ => True) :=
      match iterate tick server with
      | .running server => decidableRunMeets ticks server
      | .returned _ => .isTrue trivial
    inferInstanceAs (Decidable (_ ∧ _))

structure Server.Sound (ok : Client → Op → Prop) (server : Server) : Prop where
  history : server.history = History.after server.master.output
  clients : ∀ client ∈ server.clients,
    Life ok server.master.output server.childExit client ∧ client.disconnected = false
  dropped : ∀ client ∈ server.dropped, ∃ output childExit,
    output <+: server.master.output ∧ (childExit = none ∨ childExit = server.childExit) ∧
      Life ok output childExit client ∧ client.disconnected = true

variable {ok : Client → Op → Prop}

/-! ## Taking an iteration apart -/

def acceptedClients (pid : UInt64) : (first : Nat) → List Accept → List Client
  | _, [] => []
  | first, accept :: accepts =>
    if accept.nonblocking then
      Client.accept pid first accept :: acceptedClients pid (first + 1) accepts
    else acceptedClients pid first accepts

theorem acceptLoop_eq (accepts : List Accept) (server : Server) :
    ∃ accepted readPty, acceptLoop accepts server =
      { server with
        clients := server.clients ++ acceptedClients server.pid server.accepted accepts
        accepted
        readPty } := by
  induction accepts generalizing server with
  | nil => exact ⟨server.accepted, server.readPty, by simp [acceptLoop, acceptedClients]⟩
  | cons accept accepts ih =>
    rw [acceptLoop, acceptedClients]
    split
    · obtain ⟨accepted, readPty, after⟩ := ih _
      refine ⟨accepted, readPty, after.trans ?_⟩
      simp only [List.append_assoc, List.singleton_append]
    · exact ih server

theorem mem_acceptedClients {pid : UInt64} {first : Nat} {accepts : List Accept} {client : Client}
    (member : client ∈ acceptedClients pid first accepts) :
    ∃ id accept, client = Client.accept pid id accept := by
  induction accepts generalizing first with
  | nil => cases member
  | cons accept accepts ih =>
    rw [acceptedClients] at member
    split at member
    · rcases List.mem_cons.mp member with same | member
      · exact ⟨first, accept, same⟩
      · exact ih member
    · exact ih member

theorem pollShutdown_eq (shutdown : Bool) (server : Server) :
    ∃ childExit journal, (childExit = server.childExit ∨ server.childExit = none) ∧
      pollShutdown shutdown server =
        { server with childExit, master := { server.master with journal } } := by
  unfold pollShutdown
  split
  · next asked =>
    simp only [Bool.and_eq_true, Option.isNone_iff_eq_none] at asked
    exact ⟨_, _, .inr asked.2, rfl⟩
  · exact ⟨server.childExit, server.master.journal, .inl rfl, rfl⟩

theorem opened_eq (tick : Tick) (server : Server) :
    ∃ accepted readPty childExit journal,
      (childExit = server.childExit ∨ server.childExit = none) ∧
      opened tick server =
        { server with
          clients := server.clients ++ acceptedClients server.pid server.accepted tick.accepts
          accepted
          readPty
          childExit
          master := { server.master with journal } } := by
  obtain ⟨childExit, journal, kept, polled⟩ := pollShutdown_eq tick.shutdown server
  obtain ⟨accepted, readPty, after⟩ :=
    acceptLoop_eq tick.accepts (pollShutdown tick.shutdown server)
  refine ⟨accepted, readPty, childExit, journal, kept, ?_⟩
  rw [opened, after, polled]

theorem drained_childExit (tick : Tick) (server : Server) :
    (drained tick server).childExit =
      (opened tick server).childExit.or (tick.waitpid.map exitStatus) := by
  have loop : (if (opened tick server).readPty then
      ptyLoop tick.ptyReads (opened tick server) else opened tick server).childExit =
        (opened tick server).childExit := by
    split
    · obtain ⟨readPty, fed⟩ := ptyLoop_fed tick.ptyReads (opened tick server)
      rw [fed]
      rfl
    · rfl
  unfold drained reapChild
  dsimp only
  rw [← loop]
  split
  · next none found => simp [none, found]
  · next other =>
    cases exit : Server.childExit (if (opened tick server).readPty then
        ptyLoop tick.ptyReads (opened tick server) else opened tick server) with
    | some status => rfl
    | none =>
      cases found : tick.waitpid with
      | none => rfl
      | some status => exact absurd found (other status exit)

theorem drained_childExit_once (tick : Tick) (server : Server) :
    (drained tick server).childExit = (opened tick server).childExit ∨
      (opened tick server).childExit = none := by
  rw [drained_childExit]
  cases (opened tick server).childExit with
  | none => exact .inr rfl
  | some status => exact .inl rfl

theorem Client.runSteps_id (ops : List Op) (client : Client) :
    (runSteps Client.step ops client).stream.id = client.stream.id := by
  induction ops generalizing client with
  | nil => rfl
  | cons op ops ih =>
    obtain ⟨_, _, _, trace⟩ := client.step_trace op
    rw [runSteps_cons, ih, trace.id]

theorem drained_clients (tick : Tick) (server : Server) :
    (drained tick server).clients = (opened tick server).clients.map
      (runSteps Client.step ((tickChunks tick server).map Op.broadcast)) := by
  obtain ⟨_, _, after⟩ := drained_eq tick server
  rw [after]
  rfl

theorem settled_clients (tick : Tick) (server : Server) :
    (settled tick server).clients = (opened tick server).clients.map fun client =>
      runSteps Client.step (tickOps tick server client) client := by
  have clients := drained_clients tick server
  obtain ⟨read, _⟩ := readClients_eq (drained tick server).history tick.dumpClock
    (drained tick server).clients (drained tick server).master
  rw [clients] at read
  unfold settled tickOps
  cases exit : (drained tick server).childExit with
  | none =>
    simp only [exit, clients, read, List.map_map]
    apply List.map_congr_left
    intro client _
    simp only [Function.comp_apply, Client.runSteps_id, List.append_nil, runSteps_append,
      runSteps_cons, runSteps_nil, Client.step]
  | some status =>
    simp only [exit, clients, read, List.map_map]
    apply List.map_congr_left
    intro client _
    simp only [Function.comp_apply, Client.runSteps_id, runSteps_append, runSteps_cons,
      runSteps_nil, Client.step]

theorem drained_exit_once (tick : Tick) (server : Server) :
    (drained tick server).childExit = server.childExit ∨ server.childExit = none := by
  obtain ⟨_, _, childExit, _, once, after⟩ := opened_eq tick server
  have opened : (opened tick server).childExit = childExit := by rw [after]
  rcases once with same | none
  · have last := drained_childExit_once tick server
    rwa [opened, same] at last
  · exact .inr none

theorem settled_eq (tick : Tick) (server : Server) :
    ∃ clients master, master.output = (drained tick server).master.output ∧
      settled tick server = { drained tick server with clients, master } := by
  obtain ⟨_, kept⟩ := readClients_eq (drained tick server).history tick.dumpClock
    (drained tick server).clients (drained tick server).master
  refine ⟨(settled tick server).clients, _, kept, ?_⟩
  unfold settled
  cases exit : (drained tick server).childExit <;> simp only [exit]

theorem settled_dropped (tick : Tick) (server : Server) :
    (settled tick server).dropped = server.dropped := by
  obtain ⟨_, _, _, _, _, openedEq⟩ := opened_eq tick server
  obtain ⟨_, _, fedEq⟩ := drained_eq tick server
  obtain ⟨_, _, _, settledEq⟩ := settled_eq tick server
  rw [settledEq, fedEq]
  simp only [Server.fed, openedEq]

theorem iterate_server (tick : Tick) (server : Server) :
    (iterate tick server).server = retainClients (settled tick server) := by
  unfold iterate
  dsimp only
  split <;> rfl

theorem iterate_output (tick : Tick) (server : Server) :
    (iterate tick server).server.master.output = (drained tick server).master.output := by
  obtain ⟨_, _, output, after⟩ := settled_eq tick server
  rw [iterate_server, retainClients, after]
  exact output

theorem iterate_childExit (tick : Tick) (server : Server) :
    (iterate tick server).server.childExit = (drained tick server).childExit := by
  obtain ⟨_, _, _, after⟩ := settled_eq tick server
  rw [iterate_server, retainClients, after]

/-! ## Lives along an iteration -/

theorem Life.run {output : List UInt8} {childExit : Option Int32} {client : Client}
    (life : Life ok output childExit client) {ops : List Op}
    (legal : ∀ before op after, ops = before ++ op :: after →
      op.Legal (output ++ before.flatMap Op.output) childExit)
    (along : Along Client.step ok ops client) :
    Life ok (output ++ ops.flatMap Op.output) childExit (runSteps Client.step ops client) := by
  induction ops generalizing output client with
  | nil => simpa using life
  | cons op ops ih =>
    have first := life.step op (by simpa using legal [] op ops rfl) along.1
    have rest := ih first
      (fun before other after same => by
        have later := legal (op :: before) other after (by rw [same]; rfl)
        simpa [List.append_assoc] using later)
      along.2
    simpa [List.append_assoc] using rest

theorem Life.exit {output : List UInt8} {childExit later : Option Int32} {client : Client}
    (life : Life ok output childExit client) (once : later = childExit ∨ childExit = none) :
    Life ok output later client := by
  rcases once with rfl | rfl
  · exact life
  · cases later with
    | none => exact life
    | some status => exact life.reap status

theorem Life.quiet {output : List UInt8} {childExit : Option Int32} {client : Client}
    (life : Life ok output childExit client) {ops : List Op}
    (legal : ∀ op ∈ ops, op.output = [] ∧ op.Legal output childExit)
    (along : Along Client.step ok ops client) :
    Life ok output childExit (runSteps Client.step ops client) := by
  have none : ∀ part : List Op, (∀ op ∈ part, op ∈ ops) → part.flatMap Op.output = [] := by
    intro part inside
    rw [List.flatMap_eq_nil_iff]
    exact fun op member => (legal op (inside op member)).1
  have still : ∀ before op after, ops = before ++ op :: after →
      op.Legal (output ++ before.flatMap Op.output) childExit := by
    intro before op after same
    have inside : ∀ other ∈ before, other ∈ ops := by
      intro other member
      simp [same, member]
    rw [none before inside, List.append_nil]
    exact (legal op (by simp [same])).2
  have life := life.run still along
  rwa [none ops fun _ member => member, List.append_nil] at life

theorem ptyChunks_bound {answers : List (ReadAnswer maxPayload)} {piece : List UInt8}
    (member : piece ∈ ptyChunks answers) : piece.length ≤ maxPayload := by
  induction answers with
  | nil => cases member
  | cons answer answers ih =>
    cases answer with
    | ok slice =>
      rw [ptyChunks] at member
      split at member
      · cases member
      · rcases List.mem_cons.mp member with rfl | member
        · exact slice.bound
        · exact ih member
    | err kind =>
      cases kind with
      | interrupted => exact ih member
      | _ => cases member

theorem tickChunks_bound {tick : Tick} {server : Server} {piece : List UInt8}
    (member : piece ∈ tickChunks tick server) : piece.length ≤ maxPayload := by
  unfold tickChunks at member
  split at member
  · exact ptyChunks_bound member
  · cases member

theorem Life.broadcasts {output : List UInt8} {childExit : Option Int32} {client : Client}
    (life : Life ok output childExit client) {pieces : List (List UInt8)}
    (bound : ∀ piece ∈ pieces, piece.length ≤ maxPayload)
    (along : Along Client.step ok (pieces.map Op.broadcast) client) :
    Life ok (output ++ pieces.flatten) childExit
      (runSteps Client.step (pieces.map Op.broadcast) client) := by
  have taken : (pieces.map Op.broadcast).flatMap Op.output = pieces.flatten := by
    simp [List.flatMap_map, Op.output, List.flatMap_id']
  rw [← taken]
  refine life.run (fun before op after same => ?_) along
  have member : op ∈ pieces.map Op.broadcast := by simp [same]
  obtain ⟨piece, inside, rfl⟩ := List.mem_map.mp member
  exact bound piece inside

theorem readOps_legal {client : Client} {output : List UInt8} {now : Instant} {op : Op}
    (member : op ∈ readOps client (History.after output) output.length now)
    (childExit : Option Int32) : op.output = [] ∧ op.Legal output childExit := by
  unfold readOps at member
  split at member
  · cases List.mem_singleton.mp member
    exact ⟨rfl, trivial⟩
  · rcases List.mem_cons.mp member with rfl | member
    · exact ⟨rfl, trivial⟩
    · rw [List.eq_of_mem_replicate member]
      exact ⟨rfl, rfl, rfl⟩
  · rcases List.mem_append.mp member with member | member
    · rcases List.mem_cons.mp member with rfl | member
      · exact ⟨rfl, trivial⟩
      · rw [List.eq_of_mem_replicate member]
        exact ⟨rfl, rfl, rfl⟩
    · cases List.mem_singleton.mp member
      exact ⟨rfl, trivial⟩

theorem foldl_history (output : List UInt8) (pieces : List (List UInt8)) :
    pieces.foldl History.append (History.after output) = History.after (output ++ pieces.flatten) := by
  induction pieces generalizing output with
  | nil => simp
  | cons piece pieces ih =>
    rw [List.foldl_cons, History.after_append, ih, List.flatten_cons, List.append_assoc]

theorem drained_output (tick : Tick) (server : Server) :
    (drained tick server).master.output =
      (opened tick server).master.output ++ (tickChunks tick server).flatten := by
  obtain ⟨_, _, after⟩ := drained_eq tick server
  rw [after]
  rfl

theorem drained_history (tick : Tick) (server : Server)
    (history : (opened tick server).history = History.after (opened tick server).master.output) :
    (drained tick server).history = History.after (drained tick server).master.output := by
  obtain ⟨_, _, after⟩ := drained_eq tick server
  rw [drained_output, ← foldl_history, ← history, after]
  rfl

theorem tickOps_legal {tick : Tick} {server : Server} {client : Client}
    (history : (opened tick server).history = History.after (opened tick server).master.output) :
    ∃ rest, tickOps tick server client = (tickChunks tick server).map Op.broadcast ++ rest ∧
      ∀ op ∈ rest, op.output = [] ∧
        op.Legal (drained tick server).master.output (drained tick server).childExit := by
  refine ⟨_, by simp only [tickOps, List.append_assoc]; rfl, fun op member => ?_⟩
  rw [drained_history tick server history] at member
  rcases List.mem_append.mp member with member | member
  · exact readOps_legal member _
  · rcases List.mem_append.mp member with member | member
    · split at member
      · next status exit =>
        rw [List.mem_singleton.mp member]
        exact ⟨rfl, exit⟩
      · cases member
    · simp only [List.mem_cons, List.not_mem_nil, or_false] at member
      rcases member with rfl | rfl <;> exact ⟨rfl, trivial⟩

theorem Life.fed {tick : Tick} {server : Server} {client : Client}
    (life : Life ok (opened tick server).master.output (opened tick server).childExit client)
    (along : Along Client.step ok ((tickChunks tick server).map Op.broadcast) client) :
    Life ok (drained tick server).master.output (drained tick server).childExit
      (runSteps Client.step ((tickChunks tick server).map Op.broadcast) client) := by
  rw [drained_output]
  apply Life.exit _ (drained_childExit_once tick server)
  exact life.broadcasts (fun _ => tickChunks_bound) along

theorem Life.tick {tick : Tick} {server : Server} {client : Client}
    (history : (opened tick server).history = History.after (opened tick server).master.output)
    (life : Life ok (opened tick server).master.output (opened tick server).childExit client)
    (along : Along Client.step ok (tickOps tick server client) client) :
    Life ok (drained tick server).master.output (drained tick server).childExit
      (runSteps Client.step (tickOps tick server client) client) := by
  obtain ⟨rest, ops, legal⟩ := @tickOps_legal tick server client history
  rw [ops] at along ⊢
  rw [along_append] at along
  rw [runSteps_append]
  exact (life.fed along.1).quiet legal along.2

theorem Life.within {tick : Tick} {server : Server} {client : Client}
    (history : (opened tick server).history = History.after (opened tick server).master.output)
    (life : Life ok (opened tick server).master.output (opened tick server).childExit client)
    (along : Along Client.step ok (tickOps tick server client) client) {before after : List Op}
    (split : tickOps tick server client = before ++ after) :
    ∃ output childExit, Life ok output childExit (runSteps Client.step before client) := by
  obtain ⟨rest, ops, legal⟩ := @tickOps_legal tick server client history
  rw [ops] at along split
  rcases List.append_eq_append_iff.mp split with ⟨part, rfl, rfl⟩ | ⟨more, pieces, _⟩
  · rw [← List.append_assoc, along_append, along_append] at along
    rw [runSteps_append]
    have early : ∀ op ∈ part, op.output = [] ∧
        op.Legal (drained tick server).master.output (drained tick server).childExit :=
      fun op member => legal op (List.mem_append.mpr (.inl member))
    exact ⟨_, _, (life.fed along.1.1).quiet early along.1.2⟩
  · obtain ⟨early, late, both, rfl, _⟩ := List.map_eq_append_iff.mp pieces
    rw [along_append, pieces, along_append] at along
    refine ⟨_, _, life.broadcasts (fun piece member => ?_) along.1.1⟩
    apply tickChunks_bound
    rw [both]
    exact List.mem_append.mpr (.inl member)

/-! The clients when an iteration turns to the exit notices. -/

def answered (tick : Tick) (server : Server) : List Client :=
  (readClients (drained tick server).history tick.dumpClock (drained tick server).clients
    (drained tick server).master).1

def answerOps (tick : Tick) (server : Server) (client : Client) : List Op :=
  let broadcasts := (tickChunks tick server).map Op.broadcast
  broadcasts ++ readOps (runSteps Client.step broadcasts client) (drained tick server).history
    (drained tick server).master.output.length (tick.dumpClock client.stream.id)

def closingOps (tick : Tick) (server : Server) (client : Client) : List Op :=
  (drained tick server).childExit.toList.map (Op.notice · (tick.exitClock client.stream.id)) ++
    [.flush, .expire tick.now]

theorem tickOps_eq (tick : Tick) (server : Server) (client : Client) :
    tickOps tick server client = answerOps tick server client ++ closingOps tick server client := by
  simp only [tickOps, answerOps, closingOps, List.append_assoc]
  cases (drained tick server).childExit <;> rfl

theorem answered_eq (tick : Tick) (server : Server) :
    answered tick server = (opened tick server).clients.map fun client =>
      runSteps Client.step (answerOps tick server client) client := by
  rw [answered, (readClients_eq _ _ _ _).1, drained_clients, List.map_map]
  apply List.map_congr_left
  intro client _
  simp only [Function.comp_apply, Client.runSteps_id, answerOps, runSteps_append]

theorem Life.answered {tick : Tick} {server : Server} {client : Client}
    (history : (opened tick server).history = History.after (opened tick server).master.output)
    (life : Life ok (opened tick server).master.output (opened tick server).childExit client)
    (along : Along Client.step ok (answerOps tick server client) client) :
    Life ok (drained tick server).master.output (drained tick server).childExit
      (runSteps Client.step (answerOps tick server client) client) := by
  rw [answerOps, along_append] at along
  rw [answerOps, runSteps_append]
  apply (life.fed along.1).quiet _ along.2
  intro op member
  rw [drained_history tick server history] at member
  exact readOps_legal member _

/-! ## Lives along a run -/

theorem Server.start_sound (pid : UInt64) (readPty : Bool) (writes : List WriteAnswer) :
    (Server.start pid readPty writes).Sound ok where
  history := History.after_nil.symm
  clients := by simp [Server.start]
  dropped := by simp [Server.start]

theorem mem_opened {tick : Tick} {server : Server} {client : Client}
    (member : client ∈ (opened tick server).clients) :
    client ∈ server.clients ∨ client ∈ acceptedClients server.pid server.accepted tick.accepts := by
  obtain ⟨_, _, _, _, _, after⟩ := opened_eq tick server
  rw [after] at member
  exact List.mem_append.mp member

theorem opened_life {server : Server} (sound : server.Sound ok) (tick : Tick) {client : Client}
    (member : client ∈ (opened tick server).clients) :
    Life ok (opened tick server).master.output (opened tick server).childExit client := by
  rcases mem_opened member with old | new
  · obtain ⟨_, _, childExit, _, once, after⟩ := opened_eq tick server
    rw [after]
    exact (sound.clients client old).1.exit once
  · obtain ⟨id, accept, rfl⟩ := mem_acceptedClients new
    exact .start _ _ _ _ _

theorem opened_connected {server : Server} (sound : server.Sound ok) (tick : Tick) {client : Client}
    (member : client ∈ (opened tick server).clients) : client.disconnected = false := by
  rcases mem_opened member with old | new
  · exact (sound.clients client old).2
  · obtain ⟨_, _, rfl⟩ := mem_acceptedClients new
    rfl

theorem opened_history {server : Server} (sound : server.Sound ok) (tick : Tick) :
    (opened tick server).history = History.after (opened tick server).master.output := by
  obtain ⟨_, _, _, _, _, after⟩ := opened_eq tick server
  have kept := sound.history
  rw [after]
  exact kept

theorem iterate_sound {server : Server} (sound : server.Sound ok) (tick : Tick)
    (meets : ∀ client ∈ (opened tick server).clients,
      Along Client.step ok (tickOps tick server client) client) :
    (iterate tick server).server.Sound ok := by
  obtain ⟨_, _, openExit, _, once, openedEq⟩ := opened_eq tick server
  obtain ⟨_, _, fedEq⟩ := drained_eq tick server
  obtain ⟨_, master, output, settledEq⟩ := settled_eq tick server
  have openedOutput : (opened tick server).master.output = server.master.output := by rw [openedEq]
  have openedHistory := opened_history sound tick
  have settledOutput : (settled tick server).master.output = (drained tick server).master.output := by
    rw [settledEq]
    exact output
  have settledExit : (settled tick server).childExit = (drained tick server).childExit := by
    rw [settledEq]
  have dropped := settled_dropped tick server
  have lives : ∀ client ∈ (settled tick server).clients,
      Life ok (settled tick server).master.output (settled tick server).childExit client := by
    intro client member
    rw [settled_clients] at member
    obtain ⟨old, inside, rfl⟩ := List.mem_map.mp member
    rw [settledOutput, settledExit]
    exact (opened_life sound tick inside).tick openedHistory (meets old inside)
  rw [iterate_server]
  refine ⟨?_, fun client member => ?_, fun client member => ?_⟩
  · have kept := drained_history tick server openedHistory
    rw [← settledOutput] at kept
    simp only [retainClients, ← kept]
    rw [settledEq]
  · obtain ⟨inside, connected⟩ := List.mem_filter.mp member
    exact ⟨lives client inside, by simpa using connected⟩
  · rcases List.mem_append.mp member with member | member
    · rw [dropped] at member
      obtain ⟨part, childExit, front, exit, life⟩ := sound.dropped client member
      refine ⟨part, childExit, ?_, ?_, life⟩
      · simp only [retainClients, settledOutput, drained_output, openedOutput]
        exact front.trans (List.prefix_append _ _)
      · simp only [retainClients, settledExit]
        rcases exit with none | same
        · exact .inl none
        · rcases drained_exit_once tick server with kept | none
          · exact .inr (same.trans kept.symm)
          · exact .inl (same.trans none)
    · obtain ⟨inside, closed⟩ := List.mem_filter.mp member
      exact ⟨_, _, List.prefix_rfl, .inr rfl, lives client inside, closed⟩

theorem RunMeets.invariant {holds : Server → Prop}
    (keeps : ∀ server tick, holds server →
      (∀ client ∈ (opened tick server).clients,
        Along Client.step ok (tickOps tick server client) client) →
      holds (iterate tick server).server)
    {ticks : List Tick} {server : Server} (meets : RunMeets ok ticks server) (start : holds server) :
    holds (serverLoop ticks server).server := by
  induction ticks generalizing server with
  | nil => exact start
  | cons tick ticks ih =>
    have next := keeps server tick start meets.1
    have later := meets.2
    rw [serverLoop]
    split
    · next running =>
      rw [running] at next later
      exact ih later next
    · next returned =>
      rw [returned] at next
      exact next

theorem runMeets_of_forall (always : ∀ client op, ok client op) (ticks : List Tick)
    (server : Server) : RunMeets ok ticks server := by
  induction ticks generalizing server with
  | nil => trivial
  | cons tick ticks ih =>
    refine ⟨fun _ _ => along_of_forall always _ _, ?_⟩
    split
    · exact ih _
    · trivial

theorem serverLoop_sound {ticks : List Tick} {server : Server} (sound : server.Sound ok)
    (meets : RunMeets ok ticks server) : (serverLoop ticks server).server.Sound ok :=
  meets.invariant (fun _ tick sound each => iterate_sound sound tick each) sound

theorem serverLoop_invariant {holds : Server → Prop}
    (keeps : ∀ server tick, holds server → holds (iterate tick server).server)
    (ticks : List Tick) {server : Server} (start : holds server) :
    holds (serverLoop ticks server).server := by
  have meets := runMeets_of_forall (fun (_ : Client) (_ : Op) => trivial) ticks server
  exact meets.invariant (fun server tick before _ => keeps server tick before) start

theorem runMeets_of_lives {holds : Client → Op → Prop}
    (every : ∀ output childExit client op,
      Life (fun _ _ => True) output childExit client → holds client op)
    (ticks : List Tick) {server : Server} (sound : server.Sound fun _ _ => True) :
    RunMeets holds ticks server := by
  induction ticks generalizing server with
  | nil => trivial
  | cons tick ticks ih =>
    have history := opened_history sound tick
    refine ⟨fun client member => ?_, ?_⟩
    · apply along_iff.mpr
      intro before op after split
      obtain ⟨_, _, life⟩ := (opened_life sound tick member).within history
        (along_of_forall (fun _ _ => trivial) _ _) split
      exact every _ _ _ op life
    · have next := iterate_sound sound tick fun _ _ => along_of_forall (fun _ _ => trivial) _ _
      split
      · next running =>
        rw [running] at next
        exact ih next
      · trivial

/-- All the clients there have been. -/
def Server.everyone (server : Server) : List Client := server.clients ++ server.dropped

theorem Server.Sound.life {server : Server} (sound : server.Sound ok) {client : Client}
    (member : client ∈ server.everyone) : ∃ output childExit,
      output <+: server.master.output ∧ (childExit = none ∨ childExit = server.childExit) ∧
        Life ok output childExit client := by
  rcases List.mem_append.mp member with member | member
  · exact ⟨_, _, List.prefix_rfl, .inr rfl, (sound.clients client member).1⟩
  · obtain ⟨output, childExit, front, exit, life, _⟩ := sound.dropped client member
    exact ⟨output, childExit, front, exit, life⟩

/-- The clients there have been after an iteration: each went through it, but for
those dropped before. -/
theorem mem_iterate_everyone {tick : Tick} {server : Server} {client : Client} :
    client ∈ (iterate tick server).server.everyone ↔
      client ∈ server.dropped ∨ ∃ old ∈ (opened tick server).clients,
        runSteps Client.step (tickOps tick server old) old = client := by
  rw [iterate_server, Server.everyone]
  simp only [retainClients, settled_dropped, settled_clients, List.mem_append, List.mem_filter,
    List.mem_map]
  constructor
  · rintro (⟨stepped, _⟩ | dropped | ⟨stepped, _⟩)
    · exact .inr stepped
    · exact .inl dropped
    · exact .inr stepped
  · rintro (dropped | stepped)
    · exact .inr (.inl dropped)
    · cases client.disconnected with
      | false => exact .inl ⟨stepped, rfl⟩
      | true => exact .inr (.inr ⟨stepped, rfl⟩)

theorem iterate_everyone {tick : Tick} {server : Server} {client : Client}
    (member : client ∈ (opened tick server).clients) :
    runSteps Client.step (tickOps tick server client) client ∈
      (iterate tick server).server.everyone :=
  mem_iterate_everyone.mpr (.inr ⟨client, member, rfl⟩)

/-- A server as it is after some iterations, each step of which met the
condition. -/
def Reached (ok : Client → Op → Prop) (server : Server) : Prop :=
  ∃ pid readPty writes ticks, RunMeets ok ticks (Server.start pid readPty writes) ∧
    (serverLoop ticks (Server.start pid readPty writes)).server = server

theorem Reached.sound {server : Server} (reached : Reached ok server) : server.Sound ok := by
  obtain ⟨pid, readPty, writes, ticks, meets, rfl⟩ := reached
  exact serverLoop_sound (Server.start_sound pid readPty writes) meets

end Lich
