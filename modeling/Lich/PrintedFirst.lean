import Lich.EndToEnd

/-! An attached client prints the output before it reports the exit.

It returns on MSG_EXIT, so what it has printed is what was queued before the
exit notice. If the pty has been read to the end of what the command wrote whenever
somebody is told, that is all of the output, from where it attached.
-/

set_option autoImplicit false

namespace Lich

open Foundation

/-! ## The program at the other end -/

section Ends

variable {pid : UInt64} {opts : LoopOpts} {size : Nat → UInt16 × UInt16}
  {events : List AttachEvent} {client : Client} {output : List UInt8} {childExit : Option Int32}
  {ok : Client → Op → Prop}

def Entry.Attaches : Entry → Prop
  | .served pkt _ => pkt.typ = msgAttach
  | _ => False

theorem queuedOf_split {journal : List Entry} {front more : List Packet} {pkt : Packet}
    (same : queuedOf journal = front ++ pkt :: more) :
    ∃ before after, journal = before ++ .queued pkt :: after ∧ queuedOf before = front ∧
      queuedOf after = more := by
  obtain ⟨first, rest, rfl, before, tail⟩ := List.filterMap_eq_append_iff.mp same
  obtain ⟨silent, entry, after, rfl, none, found, later⟩ := List.filterMap_eq_cons_iff.mp tail
  cases entry <;> cases found
  refine ⟨first ++ silent, after, by simp, ?_, later⟩
  rw [queuedOf_append, queuedOf_eq_nil none, List.append_nil]
  exact before

theorem Client.AttachedBy.asked (program : client.AttachedBy pid opts size events)
    (life : Life ok output childExit client) {before after : List Entry}
    (split : client.stream.journal = before ++ after) :
    (∀ entry ∈ before, ¬ entry.Attaches) ∧ requestsOf (servedOf before) = [] ∨
      ∃ seen, client.servedAt msgAttach = [seen] ∧
        requestsOf (servedOf before) = [(.follow, seen)] := by
  have parts : client.served = servedOf before ++ servedOf after := by
    rw [Client.served, split, servedOf_append]
  cases early : servedOf before with
  | nil =>
    refine .inl ⟨fun entry member kind => ?_, rfl⟩
    cases entry with
    | served pkt seen =>
      have inside : (pkt, seen) ∈ servedOf before := List.mem_filterMap.mpr ⟨_, member, rfl⟩
      rw [early] at inside
      cases inside
    | _ => exact kind
  | cons first rest =>
    rcases program.served life with none | ⟨seen, others, served, follows⟩
    · rw [none, early] at parts
      cases parts
    · rw [served, early, List.cons_append, List.cons.injEq] at parts
      obtain ⟨rfl, parts⟩ := parts
      have silent : requestsOf rest = [] := by
        apply requestsOf_follows
        intro taken member
        exact follows taken (by rw [parts]; exact List.mem_append_left _ member)
      refine .inr ⟨seen, servedAt_attached served follows, ?_⟩
      rw [← List.singleton_append, requestsOf_append, silent, requestsOf_one,
        attachRequest_request]
      rfl

theorem attach_of_asked {served : List (Packet × Nat)} {seen : Nat}
    (asked : requestsOf served = [(.follow, seen)]) :
    ∃ taken ∈ served, taken.1.typ = msgAttach := by
  have member : (Request.follow, seen) ∈ requestsOf served := by
    rw [asked]
    exact List.mem_singleton_self _
  obtain ⟨taken, inside, found⟩ := List.mem_filterMap.mp member
  refine ⟨taken, inside, ?_⟩
  by_contra other
  rw [Packet.request?, if_neg other] at found
  split at found <;> simp at found

theorem Shows.followed {before : List Entry} (shown : Shows output before) {seen : Nat}
    (asked : requestsOf (servedOf before) = [(.follow, seen)]) :
    seen ≤ output.length ∧ contentOf (queuedOf before) = replayThenLive output seen := by
  have inside := shown.inside
  have content := shown.content
  rw [asked] at inside content
  refine ⟨inside _ (List.mem_singleton_self _), ?_⟩
  rw [content, shownOf_follow]
  rfl

end Ends

-- The exit notice is one entry of the journal. What the program has printed was queued in
-- front of it, and that is told by the request, as of when the notice was queued.
theorem prints_before_exit (pid : UInt64) (readPty : Bool) (writes : List WriteAnswer)
    (turns : List Turn) (opts : LoopOpts) (size : Nat → UInt16 × UInt16)
    (events : List AttachEvent) (client : Client) (code : Int32) :
    let session := runSteps Session.turn turns (Session.start pid readPty writes)
    let program := attachedAfter opts size events
    client ∈ session.server.everyone → client.AttachedBy pid opts size events →
    opts.passthrough = false → program.point.status? = some (.ok (.exited code)) →
      (NeverAfter Entry.Attaches Entry.Notices client.stream.journal ∧
        program.client.printed = []) ∨
      ∃ seen cut, client.servedAt msgAttach = [seen] ∧ seen ≤ cut ∧ cut ≤ session.child.taken ∧
        program.client.printed = replayThenLive (session.child.output.take cut) seen ∧
        ((∀ turn ∈ turns, turn.shutdown = false) →
          Along Session.turn Session.Complete turns (Session.start pid readPty writes) →
          session.child.written.length ≤ cut) := by
  intro session program member linked shown returned
  have sound : session.Sound True := Session.run_sound pid readPty writes fun _ _ _ => trivial
  obtain ⟨output, childExit, part, _, life⟩ := sound.server.life_current member
  rw [sound.output] at part
  obtain ⟨printed, front, pkt, received, typ, _⟩ :=
    (attached_accounts opts size events).exited code returned
  obtain ⟨more, queued⟩ := linked.received_prefix life
  rw [received, List.append_assoc, List.singleton_append] at queued
  obtain ⟨before, after, split, sent, rest⟩ := queuedOf_split queued.symm
  have content : program.client.printed = contentOf (queuedOf before) := by
    have silent : contentOf [pkt] = [] := by
      have other : pkt.typ ≠ msgContent := by
        rw [typ]
        decide
      simp [contentOf, other]
    rw [printed, toPrint, shown, if_neg (by decide), received, contentOf_append, silent,
      List.append_nil, sent]
  -- what it was shown of: a part of what was read, and of a complete session all that was written
  obtain ⟨read, taken, shows, all⟩ : ∃ read, read <+: session.child.output.take session.child.taken ∧
      Shows read before ∧ ((∀ turn ∈ turns, turn.shutdown = false) →
        Along Session.turn Session.Complete turns (Session.start pid readPty writes) →
        (∃ taken ∈ servedOf before, taken.1.typ = msgAttach) → session.child.written <+: read) := by
    by_cases both : (∀ turn ∈ turns, turn.shutdown = false) ∧
        Along Session.turn Session.Complete turns (Session.start pid readPty writes)
    · have told := (Session.told_start pid readPty writes).run both.1 both.2
      obtain ⟨read, taken, shows, all⟩ := told.first client member before _ after split typ
      exact ⟨read, taken, shows, fun _ _ => all⟩
    · obtain ⟨read, front, shows⟩ := life.shows before _ after split typ
      exact ⟨read, front.trans part, shows, fun calm complete => absurd ⟨calm, complete⟩ both⟩
  rcases linked.asked life split with ⟨none, unasked⟩ | ⟨seen, once, asked⟩
  · refine .inl ⟨?_, by rw [content, shows.content, unasked, shownOf_unasked]⟩
    have last : (queuedOf after).countP (fun pkt => pkt.typ == msgExit) = 0 := by
      have count := life.told_once.once
      rw [← queued, ← rest, List.countP_append, List.countP_cons, beq_iff_eq.mpr typ] at count
      simp only [if_true] at count
      omega
    have silent : ∀ entry ∈ after, ¬ entry.Notices := by
      intro entry member kind
      cases entry with
      | queued other =>
        have inside : other ∈ queuedOf after := List.mem_filterMap.mpr ⟨_, member, rfl⟩
        exact absurd (beq_iff_eq.mpr kind) (List.countP_eq_zero.mp last other inside)
      | _ => exact kind
    rw [split, neverAfter_append]
    refine ⟨neverAfter_of_no_first none, ?_, fun entry member _ _ kind =>
      absurd kind (none entry member)⟩
    exact List.pairwise_cons.mpr ⟨fun entry member _ => silent entry member,
      neverAfter_of_none silent⟩
  · obtain ⟨inside, followed⟩ := shows.followed asked
    have front : read <+: session.child.output := taken.trans (List.take_prefix _ _)
    have bound : read.length ≤ session.child.taken := by
      have length := taken.length_le
      rw [List.length_take] at length
      omega
    refine .inr ⟨seen, read.length, once, inside, bound, ?_, fun calm complete =>
      (all calm complete (attach_of_asked asked)).length_le⟩
    rw [content, followed, ← List.prefix_iff_eq_take.mp front]

theorem prints_before_exit_hello :
    (attachedAfter terminalOpts terminalSize exitEvents).client.printed = [] ∨
      ∃ seen cut, 2 ≤ cut ∧ cut ≤ 2 ∧
        (attachedAfter terminalOpts terminalSize exitEvents).client.printed =
          replayThenLive ([104, 105].take cut) seen := by
  obtain ⟨client, member, linked⟩ := terminal_gone
  rcases prints_before_exit 1 true [.ok 1] terminalTurns terminalOpts terminalSize exitEvents
      client 0 member linked rfl (by decide) with late | first
  · exact .inl late.2
  · obtain ⟨seen, cut, _, _, taken, printed, written⟩ := first
    exact .inr ⟨seen, cut, written (by decide) (by decide), taken, printed⟩

end Lich
