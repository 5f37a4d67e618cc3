import Lich.C.Server

/-! What sending does to a client of the C program.

A packet goes out whole, or is cut short and the client is marked as
disconnected; `writeAll` says which, and nothing else of the client changes.
-/

set_option autoImplicit false

namespace Lich.C

theorem writeAll_spec (answers : List WriteAnswer) (done left : Nat) :
    (writeAll answers done left).2.1 ≤ done + left ∧
      ((writeAll answers done left).1 = ((done + left : Nat) : Int) ↔
        (writeAll answers done left).2.1 = done + left) := by
  induction answers generalizing done left with
  | nil =>
    unfold writeAll
    exact ⟨Nat.le_add_right _ _, Int.ofNat_inj⟩
  | cons answer later ih =>
    unfold writeAll
    by_cases none : left = 0
    · subst none
      rw [if_pos rfl]
      exact ⟨Nat.le_refl _, Int.ofNat_inj⟩
    · rw [if_neg none]
      cases answer with
      | err kind =>
        cases kind with
        | interrupted => exact ih done left
        | wouldBlock => exact ⟨Nat.le_add_right _ _, Int.ofNat_inj⟩
        | _ =>
          refine ⟨Nat.le_add_right _ _, ?_⟩
          dsimp only
          omega
      | ok count =>
        dsimp only
        by_cases zero : min count left = 0
        · rw [if_pos zero]
          exact ⟨Nat.le_add_right _ _, Int.ofNat_inj⟩
        · rw [if_neg zero]
          have rest := ih (done + min count left) (left - min count left)
          have sum : done + min count left + (left - min count left) = done + left := by omega
          rw [sum] at rest
          exact rest

def Send.whole (pkt : Packet) : Send := ⟨pkt, 8 + pkt.payload.length⟩

def Send.Short (send : Send) : Prop := send.taken < 8 + send.pkt.payload.length

def Client.after (c : Client) (sent : List Send) (later : List WriteAnswer) (ok : Bool) : Client :=
  { c with
    writes := later
    sends := c.sends ++ sent
    state := if ok then c.state else .disconnected }

section After

variable (c : Client) (sent : List Send) (later : List WriteAnswer) (ok : Bool)

@[simp] theorem Client.after_sends : (c.after sent later ok).sends = c.sends ++ sent := rfl
@[simp] theorem Client.after_flags : (c.after sent later ok).flags = c.flags := rfl
@[simp] theorem Client.after_attachSeen : (c.after sent later ok).attachSeen = c.attachSeen := rfl
@[simp] theorem Client.after_writes : (c.after sent later ok).writes = later := rfl
@[simp] theorem Client.after_state :
    (c.after sent later ok).state = if ok then c.state else .disconnected := rfl

end After

theorem serverSendPacket_after (c : Client) {pkt : Packet} (fits : pkt.Fits) :
    ∃ taken later ok, serverSendPacket c pkt = (ok, c.after [⟨pkt, taken⟩] later ok) ∧
      (ok = true ↔ taken = 8 + pkt.payload.length) ∧ taken ≤ 8 + pkt.payload.length := by
  have small : ¬ 8 + pkt.payload.length > 8 + maxPayload := by
    rw [Packet.Fits] at fits
    omega
  have spec := writeAll_spec c.writes 0 (8 + pkt.payload.length)
  rw [Nat.zero_add] at spec
  simp only [serverSendPacket, sendPacket, if_neg small]
  rcases result : writeAll c.writes 0 (8 + pkt.payload.length) with ⟨ret, taken, later⟩
  rw [result] at spec
  obtain ⟨bound, whole⟩ := spec
  dsimp only at bound whole ⊢
  generalize same : decide (ret = ((8 + pkt.payload.length : Nat) : Int)) = ok
  refine ⟨taken, later, ok, by cases ok <;> rfl, ?_, bound⟩
  rw [← same, decide_eq_true_iff]
  exact whole

/-- Sends one packet after the other until one fails. -/
def sendAll : List Packet → Client → Bool × Client
  | [], c => (true, c)
  | pkt :: pkts, c =>
    match serverSendPacket c pkt with
    | (false, c) => (false, c)
    | (true, c) => sendAll pkts c

theorem sendAll_append (first second : List Packet) (c : Client) :
    sendAll (first ++ second) c =
      match sendAll first c with
      | (false, c) => (false, c)
      | (true, c) => sendAll second c := by
  induction first generalizing c with
  | nil => rfl
  | cons pkt first ih =>
    rw [List.cons_append, sendAll, sendAll]
    rcases serverSendPacket c pkt with ⟨sent, c⟩
    cases sent with
    | false => rfl
    | true => exact ih c

/-- What a sequence of sends leaves: all packets whole, or a front of them and one
cut short. -/
inductive Sent (pkts : List Packet) : Bool → List Send → Prop where
  | all : Sent pkts true (pkts.map Send.whole)
  | cut (front : List Packet) (pkt : Packet) (back : List Packet) (taken : Nat) :
      pkts = front ++ pkt :: back → Send.Short ⟨pkt, taken⟩ →
      Sent pkts false (front.map Send.whole ++ [⟨pkt, taken⟩])

theorem sendAll_after {pkts : List Packet} (fits : ∀ pkt ∈ pkts, pkt.Fits) (c : Client) :
    ∃ sent later ok, sendAll pkts c = (ok, c.after sent later ok) ∧ Sent pkts ok sent := by
  induction pkts generalizing c with
  | nil => exact ⟨[], c.writes, true, by simp [sendAll, Client.after], .all⟩
  | cons pkt pkts ih =>
    obtain ⟨taken, later, ok, send, whole, bound⟩ := serverSendPacket_after c (fits pkt (.head _))
    rw [sendAll, send]
    cases ok with
    | false =>
      have short : taken ≠ 8 + pkt.payload.length := fun same => by
        have done := whole.mpr same
        cases done
      refine ⟨[⟨pkt, taken⟩], later, false, rfl, .cut [] pkt pkts taken rfl ?_⟩
      exact Nat.lt_of_le_of_ne bound short
    | true =>
      have all := whole.mp rfl
      subst all
      obtain ⟨sent, later', ok, rest, kind⟩ :=
        ih (fun pkt member => fits pkt (.tail _ member)) (c.after [Send.whole pkt] later true)
      refine ⟨Send.whole pkt :: sent, later', ok, rest.trans ?_, ?_⟩
      · simp [Client.after]
      · cases kind with
        | all => exact .all
        | cut front other back taken split short =>
          exact .cut (pkt :: front) other back taken (by rw [split]; rfl) short

theorem serverSendPacket_any (c : Client) (pkt : Packet) :
    ∃ sent later ok, serverSendPacket c pkt = (ok, c.after sent later ok) := by
  by_cases large : 8 + pkt.payload.length > 8 + maxPayload
  · refine ⟨[], c.writes, false, ?_⟩
    simp only [serverSendPacket, sendPacket, if_pos large, Client.after, List.append_nil]
    rfl
  · obtain ⟨taken, later, ok, sent, _⟩ := serverSendPacket_after c (show pkt.Fits by
      rw [Packet.Fits]
      omega)
    exact ⟨_, later, ok, sent⟩

theorem sendAll_any (pkts : List Packet) (c : Client) :
    ∃ sent later ok, sendAll pkts c = (ok, c.after sent later ok) := by
  induction pkts generalizing c with
  | nil => exact ⟨[], c.writes, true, by simp [sendAll, Client.after]⟩
  | cons pkt pkts ih =>
    obtain ⟨sent, later, ok, first⟩ := serverSendPacket_any c pkt
    rw [sendAll, first]
    cases ok with
    | false => exact ⟨sent, later, false, rfl⟩
    | true =>
      obtain ⟨more, later', ok, rest⟩ := ih (c.after sent later true)
      refine ⟨sent ++ more, later', ok, rest.trans ?_⟩
      simp [Client.after]

theorem Client.after_after (c : Client) (sent more : List Send) (later later' : List WriteAnswer)
    (ok ok' : Bool) :
    (c.after sent later ok).after more later' ok' = c.after (sent ++ more) later' (ok && ok') := by
  cases ok <;> cases ok' <;> simp [Client.after]

theorem sendPtyData_any (serverPacket : Option Packet) (c : Client) :
    ∃ sent later ok, sendPtyData serverPacket c = c.after sent later ok := by
  cases serverPacket with
  | none => exact ⟨[], c.writes, true, by simp [sendPtyData, Client.after]⟩
  | some pkt =>
    obtain ⟨sent, later, ok, done⟩ := serverSendPacket_any c pkt
    exact ⟨sent, later, ok, by rw [sendPtyData, done]⟩

theorem serve_any (core : Core) (serverPacket : Option Packet) (c : Client) :
    ∃ sent later ok, core.serve serverPacket c = c.after sent later ok := by
  obtain ⟨sent, later, ok, done⟩ := sendPtyData_any serverPacket c
  unfold Core.serve
  dsimp only
  rw [done]
  split
  · obtain ⟨more, later', ok', done'⟩ :=
      serverSendPacket_any (c.after sent later ok) (exitPacket core.exitStatus)
    exact ⟨sent ++ more, later', ok && ok', by rw [done', Client.after_after]⟩
  · exact ⟨sent, later, ok, rfl⟩

theorem serverSendPacket_sends (c : Client) (pkt : Packet) :
    ∃ extra, (serverSendPacket c pkt).2.sends = c.sends ++ extra := by
  obtain ⟨sent, later, ok, done⟩ := serverSendPacket_any c pkt
  exact ⟨sent, by rw [done, Client.after_sends]⟩

theorem sendAll_sends (pkts : List Packet) (c : Client) :
    ∃ extra, (sendAll pkts c).2.sends = c.sends ++ extra := by
  obtain ⟨sent, later, ok, done⟩ := sendAll_any pkts c
  exact ⟨sent, by rw [done, Client.after_sends]⟩

/-! ## The packets the server makes up -/

theorem pidPacket_fits (pid : UInt64) : (pidPacket pid).Fits := by
  simp [Packet.Fits, pidPacket, maxPayload, u64ToNeBytes, Foundation.toLe_length]

theorem exitPacket_fits (status : Int32) : (exitPacket status).Fits := by
  simp [Packet.Fits, exitPacket, maxPayload]

theorem resizePacket_fits : resizePacket.Fits := Nat.zero_le _

/-! ## Sockets that take everything -/

theorem writeAll_willing (later : List WriteAnswer) {size : Nat} (positive : 0 < size)
    (small : size ≤ 8 + maxPayload) :
    writeAll (.ok (8 + maxPayload) :: later) 0 size = ((size : Int), size, later) := by
  have res : min (8 + maxPayload) size = size := Nat.min_eq_right small
  have rest : writeAll later size 0 = ((size : Int), size, later) := by
    cases later <;> rfl
  rw [writeAll, if_neg (by omega)]
  dsimp only
  rw [res, if_neg (by omega), Nat.zero_add, Nat.sub_self, rest]

theorem serverSendPacket_willing {c : Client} {later : List WriteAnswer}
    (willing : c.writes = .ok (8 + maxPayload) :: later) {pkt : Packet} (fits : pkt.Fits) :
    serverSendPacket c pkt = (true, c.after [Send.whole pkt] later true) := by
  have small : 8 + pkt.payload.length ≤ 8 + maxPayload := Nat.add_le_add_left fits 8
  have written := writeAll_willing later (show 0 < 8 + pkt.payload.length by omega) small
  simp only [serverSendPacket, sendPacket, if_neg (Nat.not_lt.mpr small), willing]
  rw [written]
  simp [Client.after, Send.whole]

theorem sendAll_willing {pkts : List Packet} (fits : ∀ pkt ∈ pkts, pkt.Fits) {c : Client}
    {later : List WriteAnswer}
    (willing : c.writes = List.replicate pkts.length (.ok (8 + maxPayload)) ++ later) :
    sendAll pkts c = (true, c.after (pkts.map Send.whole) later true) := by
  induction pkts generalizing c with
  | nil =>
    rw [List.length_nil, List.replicate_zero, List.nil_append] at willing
    simp [sendAll, Client.after, ← willing]
  | cons pkt pkts ih =>
    rw [List.length_cons, List.replicate_succ, List.cons_append] at willing
    rw [sendAll, serverSendPacket_willing willing (fits pkt (.head _))]
    dsimp only
    rw [ih (fun other member => fits other (.tail _ member)) rfl]
    simp [Client.after]

end Lich.C
