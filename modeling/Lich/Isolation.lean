import Lich.Master
import Lich.Closing

/-! One client cannot disturb another.

Two runs are compared in which one connection behaves differently. The loops of
the server go through one list of clients, from which that client may be gone
in one run and not in the other; the rest of the list is the same in both.
-/

set_option autoImplicit false

namespace Lich

open Foundation

/-! ## Two runs -/

/-- The same connections, but for what the one that gets this number sends and
takes. A connection that cannot be made non-blocking gets no number. -/
inductive AcceptsAlike (id : Nat) : (first : Nat) → List Accept → List Accept → Prop where
  | nil (first : Nat) : AcceptsAlike id first [] []
  | refused {first : Nat} {accept accept' : Accept} {accepts accepts' : List Accept} :
      accept.nonblocking = false → accept'.nonblocking = false →
      AcceptsAlike id first accepts accepts' →
      AcceptsAlike id first (accept :: accepts) (accept' :: accepts')
  | client {first : Nat} {accept accept' : Accept} {accepts accepts' : List Accept} :
      accept.nonblocking = true → accept'.nonblocking = true →
      (first ≠ id → accept = accept') → AcceptsAlike id (first + 1) accepts accepts' →
      AcceptsAlike id first (accept :: accepts) (accept' :: accepts')

def clientCount (accepts : List Accept) : Nat := accepts.countP Accept.nonblocking

/-- The same answers from outside, but for those to the sockets of one client. -/
inductive TicksAlike (id : Nat) : (first : Nat) → List Tick → List Tick → Prop where
  | nil (first : Nat) : TicksAlike id first [] []
  | cons {first : Nat} {accepts' : List Accept} {tick : Tick} {ticks ticks' : List Tick} :
      AcceptsAlike id first tick.accepts accepts' →
      TicksAlike id (first + clientCount tick.accepts) ticks ticks' →
      TicksAlike id first (tick :: ticks) ({ tick with accepts := accepts' } :: ticks')

/-- The states after each iteration that a run executes. -/
def states : List Tick → Server → List Server
  | [], _ => []
  | tick :: ticks, server =>
    (iterate tick server).server ::
      match iterate tick server with
      | .running server => states ticks server
      | .returned _ => []

def othersOf (id : Nat) (clients : List Client) : List Client :=
  clients.filter fun client => client.stream.id != id

/-- The same but for one client, what it typed, and how the pty took that. -/
structure Server.Alike (id : Nat) (server server' : Server) : Prop where
  pid : server.pid = server'.pid
  history : server.history = server'.history
  childExit : server.childExit = server'.childExit
  readPty : server.readPty = server'.readPty
  accepted : server.accepted = server'.accepted
  output : server.master.output = server'.master.output
  clients : othersOf id server.clients = othersOf id server'.clients
  dropped : othersOf id server.dropped = othersOf id server'.dropped

/-! ## Lists of clients without one of them -/

section Others

variable {id : Nat}

@[simp] theorem othersOf_append (first second : List Client) :
    othersOf id (first ++ second) = othersOf id first ++ othersOf id second :=
  List.filter_append ..

theorem othersOf_map {clients : List Client} {act : Client → Client}
    (keeps : ∀ client, (act client).stream.id = client.stream.id) :
    othersOf id (clients.map act) = (othersOf id clients).map act := by
  rw [othersOf, List.filter_map]
  have same : (fun client : Client => client.stream.id != id) ∘ act =
      fun client => client.stream.id != id := by
    funext client
    rw [Function.comp_apply, keeps]
  rw [same]
  rfl

theorem othersOf_filter (clients : List Client) (keep : Client → Bool) :
    othersOf id (clients.filter keep) = (othersOf id clients).filter keep := by
  rw [othersOf, othersOf, List.filter_filter, List.filter_filter]
  apply List.filter_congr
  exact fun client _ => Bool.and_comm _ _

theorem others_map {clients clients' : List Client} {act : Client → Client}
    (same : othersOf id clients = othersOf id clients')
    (keeps : ∀ client, (act client).stream.id = client.stream.id) :
    othersOf id (clients.map act) = othersOf id (clients'.map act) := by
  rw [othersOf_map keeps, othersOf_map keeps, same]

end Others

/-! ## One iteration -/

variable {id : Nat} {server server' : Server}

theorem pollShutdown_alike (alike : server.Alike id server') (shutdown : Bool) :
    (pollShutdown shutdown server).Alike id (pollShutdown shutdown server') := by
  unfold pollShutdown
  rw [← alike.childExit]
  split
  · exact ⟨alike.pid, alike.history, rfl, alike.readPty, alike.accepted, alike.output,
      alike.clients, alike.dropped⟩
  · exact alike

theorem acceptLoop_alike {first : Nat} {accepts accepts' : List Accept}
    (connections : AcceptsAlike id first accepts accepts') (alike : server.Alike id server')
    (number : server.accepted = first) :
    (acceptLoop accepts server).Alike id (acceptLoop accepts' server') := by
  induction connections generalizing server server' with
  | nil first => exact alike
  | refused one other _ ih =>
    rw [acceptLoop, acceptLoop, if_neg (by simp [one]), if_neg (by simp [other])]
    exact ih alike number
  | @client first accept accept' accepts accepts' one other same _ ih =>
    rw [acceptLoop, acceptLoop, if_pos one, if_pos other]
    apply ih
    · refine ⟨alike.pid, alike.history, alike.childExit, rfl, ?_, alike.output, ?_, alike.dropped⟩
      · exact congrArg (· + 1) alike.accepted
      · -- the new client is either the same in both or the one left out
        rw [othersOf_append, othersOf_append, alike.clients, ← alike.accepted, ← alike.pid]
        apply congrArg (othersOf id server'.clients ++ ·)
        by_cases own : first = id
        · have unaccepted (accept : Accept) :
              othersOf id [Client.accept server.pid server.accepted accept] = [] := by
            simp [othersOf, Client.accept, number, own]
          rw [unaccepted, unaccepted]
        · rw [same own]
    · exact congrArg (· + 1) number

theorem broadcastContent_alike {clients clients' : List Client}
    (same : othersOf id clients = othersOf id clients') (bytes : List UInt8) :
    othersOf id (broadcastContent clients bytes) = othersOf id (broadcastContent clients' bytes) :=
  others_map same fun client => client.step_id (.broadcast bytes)

theorem ptyLoop_alike (answers : List (ReadAnswer maxPayload)) (alike : server.Alike id server') :
    (ptyLoop answers server).Alike id (ptyLoop answers server') := by
  induction answers generalizing server server' with
  | nil => exact alike
  | cons answer answers ih =>
    have stopped : Server.Alike id { server with readPty := false }
        { server' with readPty := false } :=
      ⟨alike.pid, alike.history, alike.childExit, rfl, alike.accepted, alike.output,
        alike.clients, alike.dropped⟩
    cases answer with
    | ok slice =>
      rw [ptyLoop, ptyLoop]
      split
      · exact stopped
      · apply ih
        refine ⟨alike.pid, ?_, alike.childExit, alike.readPty, alike.accepted, ?_, ?_, alike.dropped⟩
        · exact congrArg (·.append slice.bytes) alike.history
        · exact congrArg (· ++ slice.bytes) alike.output
        · exact broadcastContent_alike alike.clients slice.bytes
    | err kind =>
      cases kind with
      | wouldBlock => exact alike
      | interrupted => exact ih alike
      | _ => exact stopped

theorem reapChild_alike (alike : server.Alike id server') (waitpid : Option Int32) :
    (reapChild waitpid server).Alike id (reapChild waitpid server') := by
  unfold reapChild
  rw [← alike.childExit]
  split
  · exact ⟨alike.pid, alike.history, rfl, alike.readPty, alike.accepted, alike.output,
      alike.clients, alike.dropped⟩
  · exact alike

section Iteration

variable {tick : Tick} {accepts' : List Accept} (alike : server.Alike id server')
  (connections : AcceptsAlike id server.accepted tick.accepts accepts')

include alike connections

theorem opened_alike :
    (opened tick server).Alike id (opened { tick with accepts := accepts' } server') := by
  obtain ⟨_, _, _, polled⟩ := pollShutdown_eq tick.shutdown server
  have number : (pollShutdown tick.shutdown server).accepted = server.accepted := by
    rw [polled]
  exact acceptLoop_alike connections (pollShutdown_alike alike tick.shutdown) number

theorem drained_alike :
    (drained tick server).Alike id (drained { tick with accepts := accepts' } server') := by
  have start := opened_alike alike connections
  unfold drained
  dsimp only
  rw [← start.readPty]
  apply reapChild_alike
  split
  · exact ptyLoop_alike tick.ptyReads start
  · exact start

-- What an iteration does to a client depends on the client, and on what the two
-- servers have in common.
theorem tickOps_alike (client : Client) :
    tickOps tick server client = tickOps { tick with accepts := accepts' } server' client := by
  have start := opened_alike alike connections
  have next := drained_alike alike connections
  have pieces : tickChunks tick server = tickChunks { tick with accepts := accepts' } server' := by
    rw [tickChunks, tickChunks, start.readPty]
  rw [tickOps, tickOps, pieces, next.history, next.output, next.childExit]

theorem settled_alike :
    (settled tick server).Alike id (settled { tick with accepts := accepts' } server') := by
  have start := opened_alike alike connections
  have next := drained_alike alike connections
  obtain ⟨_, _, output, after⟩ := settled_eq tick server
  obtain ⟨_, _, output', after'⟩ := settled_eq { tick with accepts := accepts' } server'
  have clients : othersOf id (settled tick server).clients =
      othersOf id (settled { tick with accepts := accepts' } server').clients := by
    have ops : tickOps tick server = tickOps { tick with accepts := accepts' } server' := by
      funext client
      exact tickOps_alike alike connections client
    rw [settled_clients, settled_clients, ← ops]
    exact others_map start.clients fun client => Client.runSteps_id _ _
  rw [after, after'] at clients ⊢
  exact ⟨next.pid, next.history, next.childExit, next.readPty, next.accepted,
    output.trans (next.output.trans output'.symm), clients, next.dropped⟩

theorem iterate_alike :
    (iterate tick server).server.Alike id
      (iterate { tick with accepts := accepts' } server').server := by
  have next := settled_alike alike connections
  rw [iterate_server, iterate_server]
  refine ⟨next.pid, next.history, next.childExit, next.readPty, next.accepted, next.output, ?_, ?_⟩
  · simp only [retainClients, othersOf_filter, next.clients]
  · simp only [retainClients, othersOf_append, othersOf_filter, next.clients, next.dropped]

end Iteration

theorem iterate_clientCount (tick : Tick) (server : Server) :
    (iterate tick server).server.accepted = server.accepted + clientCount tick.accepts := by
  have count (first : Nat) (accepts : List Accept) :
      (acceptedClients server.pid first accepts).length = clientCount accepts := by
    induction accepts generalizing first with
    | nil => rfl
    | cons accept accepts ih =>
      rw [acceptedClients, clientCount, List.countP_cons]
      split
      · rw [List.length_cons, ih]
        rfl
      · exact ih first
  obtain ⟨_, _, _, settledEq⟩ := settled_eq tick server
  obtain ⟨_, _, drainedEq⟩ := drained_eq tick server
  obtain ⟨_, _, _, polled⟩ := pollShutdown_eq tick.shutdown server
  have accepted : (iterate tick server).server.accepted = (opened tick server).accepted := by
    rw [iterate_server, retainClients, settledEq, drainedEq]
    rfl
  rw [accepted, opened, acceptLoop_accepted, polled, count]

/-! ## Runs -/

theorem states_alike {first : Nat} {ticks ticks' : List Tick}
    (inputs : TicksAlike id first ticks ticks') (alike : server.Alike id server')
    (number : server.accepted = first) {count : Nat} {last last' : Server}
    (reached : (states ticks server)[count]? = some last)
    (reached' : (states ticks' server')[count]? = some last') : last.Alike id last' := by
  induction inputs generalizing server server' count with
  | nil first => cases reached
  | @cons first accepts' tick ticks ticks' connections _ ih =>
    rw [← number] at connections
    have next := iterate_alike alike connections
    have counted := iterate_clientCount tick server
    rw [states] at reached reached'
    cases count with
    | zero =>
      cases reached
      cases reached'
      exact next
    | succ count =>
      rw [List.getElem?_cons_succ] at reached reached'
      -- both runs have gone on
      cases outcome : iterate tick server with
      | returned ended =>
        rw [outcome] at reached
        cases reached
      | running server =>
        cases outcome' : iterate { tick with accepts := accepts' } server' with
        | returned ended =>
          rw [outcome'] at reached'
          cases reached'
        | running server' =>
          rw [outcome] at reached next counted
          rw [outcome'] at reached' next
          exact ih next (counted.trans (by rw [number])) reached reached'

-- A client is a record of all that the server keeps of it and of what was written
-- to it, so lists of equal clients differ in nothing.
theorem clients_isolated (id : Nat) (pid : UInt64) (readPty : Bool)
    (writes writes' : List WriteAnswer) (ticks ticks' : List Tick)
    (inputs : TicksAlike id 0 ticks ticks') (count : Nat) (server server' : Server)
    (reached : (states ticks (Server.start pid readPty writes))[count]? = some server)
    (reached' : (states ticks' (Server.start pid readPty writes'))[count]? = some server') :
    server.history = server'.history ∧
      othersOf id server.clients = othersOf id server'.clients ∧
      othersOf id server.dropped = othersOf id server'.dropped := by
  have start : (Server.start pid readPty writes).Alike id (Server.start pid readPty writes') :=
    ⟨rfl, rfl, rfl, rfl, rfl, rfl, rfl, rfl⟩
  have alike := states_alike inputs start rfl reached reached'
  exact ⟨alike.history, alike.clients, alike.dropped⟩

def leaver : Accept := ⟨[.ok ⟨[], by decide⟩], [], 16, true⟩

def twoPeers (first : Accept) : Tick :=
  { Tick.idle with accepts := [first, attacher], ptyReads := [.ok ⟨[90], by decide⟩] }

theorem clients_isolated_leaver :
    othersOf 0 (iterate (twoPeers attacher) (Server.start 1 true [])).server.clients =
        othersOf 0 (iterate (twoPeers leaver) (Server.start 1 true [])).server.clients ∧
      (iterate (twoPeers attacher) (Server.start 1 true [])).server.clients.length = 2 ∧
      (iterate (twoPeers leaver) (Server.start 1 true [])).server.clients.length = 1 := by
  have connections : AcceptsAlike 0 0 (twoPeers attacher).accepts (twoPeers leaver).accepts :=
    .client rfl rfl (fun other => absurd rfl other)
      (.client rfl rfl (fun _ => rfl) (.nil _))
  have alike := clients_isolated 0 1 true [] [] [twoPeers attacher] [twoPeers leaver]
    (.cons connections (.nil _)) 0 _ _ rfl rfl
  exact ⟨alike.2.1, by decide, by decide⟩

end Lich
