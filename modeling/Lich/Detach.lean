import Lich.Master
import Lich.Overlong

/-! What comes behind a detach.

MSG_DETACH and MSG_EXIT only mark the client. The packet loop goes on through
what else has come in with them, so packets behind a detach are obeyed when they
came in the same iteration.
-/

set_option autoImplicit false

namespace Lich

open Foundation

instance : DecidablePred Packet.Stays := fun _ => inferInstanceAs (Decidable (_ ∧ _))

/-- The packets before the first that leaves. -/
def untilDetach (pkts : List Packet) : List Packet := pkts.takeWhile fun pkt => decide pkt.Stays

/-- The command changes something: bytes for the pty, or a window size. -/
def PtyEntry.effective : PtyEntry → Bool
  | .input _ payload => !payload.isEmpty
  | .resized _ _ _ => true
  | _ => false

def effectsOf (entries : List PtyEntry) : List PtyEntry := entries.filter PtyEntry.effective

/-- A MSG_DETACH or MSG_EXIT of the client has been processed. -/
def Client.Detached (client : Client) : Prop := ∃ pkt ∈ client.handled, ¬ pkt.Stays

instance (client : Client) : Decidable client.Detached :=
  inferInstanceAs (Decidable (∃ pkt ∈ client.handled, ¬ pkt.Stays))

theorem Client.stays_of_not_detached {client : Client} (on : ¬ client.Detached) :
    ∀ pkt ∈ client.handled, pkt.Stays := by
  intro pkt member
  by_contra leaves
  exact on ⟨pkt, member, leaves⟩

/-- Nothing is done for the packets behind the first that leaves: neither to the
pty nor for the client's stream. -/
structure Client.Final (client : Client) : Prop where
  effects : effectsOf (commands client.stream.id 0 client.handled) =
    effectsOf (commands client.stream.id 0 (untilDetach client.handled))
  silent : Whenever Entry.Sends (fun before => ∀ taken ∈ servedOf before, taken.1.Stays)
    client.stream.journal

def Client.Acts (client : Client) (op : Op) : Prop :=
  ∃ taken ∈ op.taken client, effectsOf (taken.1.command client.stream.id client.flags) ≠ []

instance (client : Client) (op : Op) : Decidable (client.Acts op) :=
  decidable_of_iff ((op.taken client).any (fun taken =>
      decide (effectsOf (taken.1.command client.stream.id client.flags) ≠ [])) = true) (by
    unfold Client.Acts
    cases op.taken client <;> simp)

def Client.Rests (client : Client) (op : Op) : Prop :=
  client.Detached → ¬ client.Acts op ∧ ¬ client.Disturbs op

instance (client : Client) (op : Op) : Decidable (client.Rests op) :=
  inferInstanceAs (Decidable (_ → _ ∧ _))

/-! ## Packets behind a detach -/

@[simp] theorem effectsOf_append (first second : List PtyEntry) :
    effectsOf (first ++ second) = effectsOf first ++ effectsOf second :=
  List.filter_append ..

theorem command_of_leaves {pkt : Packet} (leaves : ¬ pkt.Stays) (id : Nat) (flags : UInt32) :
    pkt.command id flags = [] := by
  have typ : pkt.typ = msgDetach ∨ pkt.typ = msgExit := by
    by_contra other
    exact leaves (not_or.mp other)
  have keys : ¬ (pkt.typ = msgContent ∨ pkt.typ = msgSendKeys) := by
    rcases typ with typ | typ <;> rw [typ] <;> decide
  have resize : pkt.typ ≠ msgResize := by
    rcases typ with typ | typ <;> rw [typ] <;> decide
  rw [Packet.command, if_neg keys, if_neg fun both => resize both.1]

theorem untilDetach_of_stay {pkts : List Packet} (stay : ∀ pkt ∈ pkts, pkt.Stays) :
    untilDetach pkts = pkts := by
  apply List.takeWhile_eq_self_iff.mpr
  exact fun pkt member => decide_eq_true (stay pkt member)

theorem untilDetach_append {pkts : List Packet} (detached : ∃ pkt ∈ pkts, ¬ pkt.Stays)
    (more : List Packet) : untilDetach (pkts ++ more) = untilDetach pkts := by
  have short : (untilDetach pkts).length ≠ pkts.length := by
    intro same
    obtain ⟨pkt, member, leaves⟩ := detached
    have whole := (List.takeWhile_prefix _).eq_of_length same
    have all := List.takeWhile_eq_self_iff.mp whole pkt member
    exact leaves (of_decide_eq_true all)
  rw [untilDetach, List.takeWhile_append]
  exact if_neg short

theorem flags_of_life {ok : Client → Op → Prop} {output : List UInt8} {childExit : Option Int32}
    {client : Client} (life : Life ok output childExit client) :
    client.flags = flagsAfter 0 client.handled := by
  induction life with
  | start => rfl
  | reap status _ ih => exact ih
  | @step output childExit client op _ _ _ ih =>
    rw [client.step_flags, client.step_handled, flagsAfter_append, ← ih]
    cases op.taken client <;> rfl

/-! ## One step -/

section Step

variable {client : Client} {op : Op}

theorem Client.step_leaves {taken : Packet × Nat} (found : op.taken client = some taken)
    (leaves : ¬ taken.1.Stays) :
    (client.step op).stream.journal =
        client.stream.journal ++ [.served taken.1 taken.2, .left .detached] ∧
      (client.step op).disconnected = true := by
  cases op with
  | packet history seen now =>
    simp only [Op.taken] at found
    simp only [step, packet]
    rcases answer : popPacket client.buf with ⟨first, buf⟩
    rw [answer] at found
    cases first with
    | none => cases found
    | some pkt =>
      cases found
      have typ : pkt.typ = msgDetach ∨ pkt.typ = msgExit := by
        by_contra other
        exact leaves (not_or.mp other)
      have attach : pkt.typ ≠ msgAttach := by
        rcases typ with typ | typ <;> rw [typ] <;> decide
      have dump : pkt.typ ≠ msgDump := by
        rcases typ with typ | typ <;> rw [typ] <;> decide
      simp only [serve, if_neg attach, if_neg dump, if_pos typ]
      refine ⟨?_, rfl⟩
      simp [leave, log, UnixStream.log]
  | _ => cases found

theorem Client.Detached.gone {ok : Client → Op → Prop} {output : List UInt8}
    {childExit : Option Int32} (life : Life ok output childExit client) (detached : client.Detached) :
    client.disconnected = true := by
  induction life with
  | start =>
    obtain ⟨pkt, member, _⟩ := detached
    cases member
  | reap status _ ih => exact ih detached
  | @step output childExit client op _ _ _ ih =>
    obtain ⟨_, _, _, trace⟩ := client.step_trace op
    obtain ⟨pkt, member, leaves⟩ := detached
    rw [client.step_handled] at member
    rcases List.mem_append.mp member with old | new
    · exact trace.disconnected.mpr (.inl (ih ⟨pkt, old, leaves⟩))
    · cases found : op.taken client with
      | none =>
        rw [found] at new
        cases new
      | some taken =>
        rw [found, Option.map_some, Option.toList_some, List.mem_singleton] at new
        exact (client.step_leaves found (new ▸ leaves)).2

theorem Client.Final.silent_iff (final : client.Final)
    (gone : client.Detached → client.disconnected = true) :
    Whenever Entry.Sends (fun before => ∀ taken ∈ servedOf before, taken.1.Stays)
        (client.step op).stream.journal ↔
      (client.Detached → ¬ client.Disturbs op) := by
  obtain ⟨head, send, tail, trace⟩ := client.step_trace op
  have journal := trace.journal
  constructor
  · intro silent detached
    apply (trace.sends_iff (gone detached)).mp
    intro entry member sends
    obtain ⟨pkt, inside, leaves⟩ := detached
    obtain ⟨taken, served, rfl⟩ := List.mem_map.mp inside
    obtain ⟨front, back, split⟩ := List.append_of_mem member
    apply leaves
    apply silent (client.stream.journal ++ (head ++ front)) entry (back ++ tail) _ sends taken
    · rw [servedOf_append]
      exact List.mem_append_left _ served
    · rw [journal, split]
      simp
  · intro calm
    rw [journal]
    apply final.silent.append
    intro before entry after same sends taken member
    have sent : entry ∈ send := by
      have inside : entry ∈ head ++ send ++ tail := by simp [same]
      rcases List.mem_append.mp inside with inside | inside
      · rcases List.mem_append.mp inside with inside | inside
        · exact absurd sends (trace.not_sends (.inl inside))
        · exact inside
      · exact absurd sends (trace.not_sends (.inr inside))
    by_cases detached : client.Detached
    · have none := (trace.sends_iff (gone detached)).mpr (calm detached)
      exact absurd sends (none entry sent)
    · by_contra leaves
      rw [servedOf_append] at member
      rcases List.mem_append.mp member with old | new
      · exact detached ⟨taken.1, List.mem_map_of_mem old, leaves⟩
      · -- the packet is the one taken, and a packet that leaves sends nothing
        have found : op.taken client = some taken := by
          have serves := trace.serves
          rw [Client.served, journal, servedOf_append, same, servedOf_append] at serves
          have all := List.append_cancel_left serves
          have inside : taken ∈ (op.taken client).toList := by
            rw [← all]
            exact List.mem_append_left _ new
          simpa using inside
        have short := (client.step_leaves found leaves).1
        rw [journal] at short
        have added := List.append_cancel_left short
        have inside : entry ∈ head ++ send ++ tail := by simp [same]
        rw [added] at inside
        simp only [List.mem_cons, List.not_mem_nil, or_false] at inside
        rcases inside with rfl | rfl <;> exact sends

theorem Client.Final.effects_iff (final : client.Final)
    (flags : client.flags = flagsAfter 0 client.handled) :
    effectsOf (commands (client.step op).stream.id 0 (client.step op).handled) =
        effectsOf (commands (client.step op).stream.id 0 (untilDetach (client.step op).handled)) ↔
      (client.Detached → ¬ client.Acts op) := by
  rw [client.step_id, client.step_handled]
  cases found : op.taken client with
  | none =>
    have still : ¬ client.Acts op := by
      rintro ⟨taken, member, _⟩
      rw [found] at member
      cases member
    rw [Option.map_none, Option.toList_none, List.append_nil]
    exact ⟨fun _ _ => still, fun _ => final.effects⟩
  | some taken =>
    have acts : client.Acts op ↔
        effectsOf (taken.1.command client.stream.id client.flags) ≠ [] := by
      simp [Client.Acts, found]
    have one : commands client.stream.id client.flags [taken.1] =
        taken.1.command client.stream.id client.flags := by
      simp [Lich.commands]
    rw [Option.map_some, Option.toList_some, commands_append, ← flags, one, effectsOf_append]
    by_cases detached : client.Detached
    · rw [untilDetach_append detached, final.effects, acts, not_not]
      constructor
      · exact fun same _ => List.append_right_eq_self.mp same
      · intro none
        rw [none detached, List.append_nil]
    · have stay := Client.stays_of_not_detached detached
      refine ⟨fun _ on => absurd on detached, fun _ => ?_⟩
      by_cases stays : taken.1.Stays
      · have all : ∀ pkt ∈ client.handled ++ [taken.1], pkt.Stays := by
          intro pkt member
          rcases List.mem_append.mp member with old | new
          · exact stay pkt old
          · rw [List.mem_singleton.mp new]
            exact stays
        rw [untilDetach_of_stay all, commands_append, ← flags, one, effectsOf_append]
      · have last : untilDetach (client.handled ++ [taken.1]) = client.handled := by
          rw [untilDetach, List.takeWhile_append_of_pos fun pkt member =>
            decide_eq_true (stay pkt member)]
          simp [stays]
        rw [command_of_leaves stays, last]
        exact List.append_nil _

theorem Client.Final.step_iff {ok : Client → Op → Prop} {output : List UInt8}
    {childExit : Option Int32} (life : Life ok output childExit client) (final : client.Final)
    (op : Op) : (client.step op).Final ↔ client.Rests op := by
  have effects := @Client.Final.effects_iff client op final (flags_of_life life)
  have silent := @Client.Final.silent_iff client op final (Client.Detached.gone life)
  constructor
  · intro after detached
    exact ⟨effects.mp after.effects detached, silent.mp after.silent detached⟩
  · intro rests
    constructor
    · exact effects.mpr fun detached => (rests detached).1
    · exact silent.mpr fun detached => (rests detached).2

end Step

theorem Life.final {output : List UInt8} {childExit : Option Int32} {client : Client}
    (life : Life Client.Rests output childExit client) : client.Final := by
  induction life with
  | start => exact ⟨rfl, whenever_nil⟩
  | reap status _ ih => exact ih
  | step op life _ rests ih => exact (ih.step_iff life op).mpr rests

end Lich
