import Lich.EndToEnd
import Lich.DumpTail
import Lich.SendKeys

/-! The programs that connect, do one thing and leave: a dump, and send-keys.

A dump prints what was asked for of the whole output, if the history still holds that
much. The keys that are sent get to the pty as they were encoded, and in order.
-/

set_option autoImplicit false

namespace Lich

open Foundation

/-! ## A dump -/

/-- What `-N` and `-L` ask for of an output: its last bytes, of these the last lines. -/
def tailOf (maxBytes maxLines : Nat) (output : List UInt8) : List UInt8 :=
  let bytes := if maxBytes = 0 then output else output.rtake maxBytes
  if maxLines = 0 then bytes else lastLines 10 maxLines bytes

theorem dumpStart_tailOf (maxBytes maxLines : Nat) (out : List UInt8) :
    out.drop (dumpStart maxBytes maxLines out) = tailOf maxBytes maxLines out := by
  -- the bytes are cut off first, and the lines are looked for in what is left
  have bytes : out.drop (if maxBytes ≠ 0 ∧ maxBytes < out.length then out.length - maxBytes else 0) =
      if maxBytes = 0 then out else out.rtake maxBytes := by
    by_cases none : maxBytes = 0
    · simp [none]
    · rw [if_neg none]
      by_cases less : maxBytes < out.length
      · rw [if_pos ⟨none, less⟩, List.rtake]
      · rw [if_neg (fun both => less both.2), List.drop_zero, rtake_of_length_le (by omega)]
  unfold tailOf dumpStart
  dsimp only
  rw [← bytes]
  generalize (if maxBytes ≠ 0 ∧ maxBytes < out.length then out.length - maxBytes else 0) = start
  by_cases none : maxLines = 0
  · rw [if_neg (fun given => given none), if_pos none]
  · have lines := (dumpStart_lines (out.drop start) (Nat.one_le_iff_ne_zero.mpr none)).2.1
    rw [dumpStart, if_pos none] at lines
    simp only [ne_eq, not_true_eq_false, false_and, if_false, List.drop_zero, Nat.zero_add] at lines
    rw [if_pos none, if_neg none, ← List.drop_drop, lines]

theorem tailOf_suffix {maxBytes maxLines : Nat} {tail output : List UInt8} (part : tail <:+ output)
    (inside : (tailOf maxBytes maxLines output).length ≤ tail.length) :
    tailOf maxBytes maxLines tail = tailOf maxBytes maxLines output := by
  have longer : tail.length ≤ output.length := part.length_le
  -- the bytes that are asked for lie in the tail, or the tail lies in them
  have bytes : (if maxBytes = 0 then tail else tail.rtake maxBytes) =
        (if maxBytes = 0 then output else output.rtake maxBytes) ∨
      (if maxBytes = 0 then tail else tail.rtake maxBytes) = tail ∧
        tail <:+ if maxBytes = 0 then output else output.rtake maxBytes := by
    by_cases none : maxBytes = 0
    · rw [if_pos none, if_pos none]
      exact .inr ⟨rfl, part⟩
    · rw [if_neg none, if_neg none]
      obtain ⟨front, rfl⟩ := part
      by_cases few : maxBytes ≤ tail.length
      · exact .inl (rtake_append_of_le few).symm
      · refine .inr ⟨rtake_of_length_le (by omega), ?_⟩
        have small : (front ++ tail).rtake tail.length = tail := by
          rw [rtake_append_of_le (Nat.le_refl _), rtake_of_length_le (Nat.le_refl _)]
        have suffix := rtake_suffix_rtake (show tail.length ≤ maxBytes by omega) (front ++ tail)
        rwa [small] at suffix
  unfold tailOf at inside ⊢
  dsimp only at inside ⊢
  rcases bytes with same | ⟨whole, part⟩
  · rw [same]
  · rw [whole]
    by_cases none : maxLines = 0
    · rw [if_pos none] at inside
      rw [if_pos none, if_pos none]
      exact part.eq_of_length_le inside
    · rw [if_neg none] at inside
      rw [if_neg none, if_neg none]
      exact lastLines_suffix_of_length 10 part inside

theorem rtake_suffix (count : Nat) (output : List UInt8) : output.rtake count <:+ output :=
  List.drop_suffix _ _

theorem dump_prints_the_tail (server : Server) (reached : Reached (fun _ _ => True) server)
    (client : Client) (member : client ∈ server.everyone) (pid : UInt64)
    (greeted : client.stream.greeting = packetBytes (pidPacket pid)) (follows : client.Follows)
    (received printed : List UInt8) (part : received <+: client.stream.greeting ++ client.wire)
    (sent : Except IoError Unit) (maxBytes maxLines : Nat)
    (done : dumpSession sent maxBytes maxLines received = .ok printed) :
    ∃ seen ≤ server.master.output.length, client.served = [(dumpPacket, seen)] ∧
      printed = tailOf maxBytes maxLines ((server.master.output.take seen).rtake historyCap) ∧
      ((tailOf maxBytes maxLines (server.master.output.take seen)).length ≤ historyCap →
        printed = tailOf maxBytes maxLines (server.master.output.take seen)) := by
  obtain ⟨_, out, collected, rfl⟩ := (dumpSession_eq sent maxBytes maxLines received printed).mp done
  obtain ⟨seen, inside, served, snapshot⟩ :=
    reached.collected member greeted follows part collected
  refine ⟨seen, inside, served, ?_, fun fits => ?_⟩
  · rw [dumpStart_tailOf, snapshot]
  · rw [dumpStart_tailOf, snapshot]
    by_cases small : (server.master.output.take seen).length ≤ historyCap
    · rw [rtake_of_length_le small]
    · apply tailOf_suffix (rtake_suffix _ _)
      rw [rtake_length]
      omega

def linesThenDump : List Tick :=
  [{ Tick.idle with
      accepts := [⟨[.ok ⟨packetBytes dumpPacket, by decide⟩], [.ok 12, .ok 8], 16, true⟩]
      ptyReads := [.ok ⟨[97, 10, 98, 10], by decide⟩] }]

theorem dump_prints_the_tail_line :
    ∃ client ∈ (serverLoop linesThenDump (Server.start 1 true [])).server.everyone,
      ∃ seen ≤ 4, dumpSession (.ok ()) 0 1 (client.stream.greeting ++ client.wire) = .ok [98, 10] ∧
        [98, 10] = tailOf 0 1 ((([97, 10, 98, 10] : List UInt8).take seen).rtake historyCap) := by
  have dumped : ∃ client ∈ (serverLoop linesThenDump (Server.start 1 true [])).server.everyone,
      client.stream.greeting = packetBytes (pidPacket 1) ∧ client.input = packetBytes dumpPacket ∧
        dumpSession (.ok ()) 0 1 (client.stream.greeting ++ client.wire) = .ok [98, 10] := by
    decide
  obtain ⟨client, member, greeted, input, done⟩ := dumped
  obtain ⟨seen, inside, _, printed, _⟩ := dump_prints_the_tail _
    ⟨1, true, [], linesThenDump, runMeets_of_forall (fun _ _ => trivial) _ _, rfl⟩ client member 1
    greeted ⟨[], by rw [List.append_nil, input]⟩ _ [98, 10] List.prefix_rfl (.ok ()) 0 1 done
  exact ⟨client, member, seen, inside, done, printed⟩

/-! ## Keys -/

theorem sendKeys_payload (literal : Bool) (keys : List (List UInt8)) :
    (sendKeys literal keys).flatMap Packet.payload = keysBytes literal keys := by
  rw [sendKeys, List.flatMap_map]
  change (chunks maxPayload (keysLoop literal 0 keys [])).flatMap id = _
  rw [List.flatMap_id, chunks_flatten (by decide), keysLoop_eq]
  simp

theorem sendKeys_kind {literal : Bool} {keys : List (List UInt8)} {pkt : Packet}
    (member : pkt ∈ sendKeys literal keys) : pkt.typ = msgSendKeys ∧ pkt.Fits := by
  obtain ⟨chunk, inside, rfl⟩ := List.mem_map.mp member
  exact ⟨rfl, chunks_bound inside⟩

theorem commands_keys {pkts : List Packet} (keys : ∀ pkt ∈ pkts, pkt.typ = msgSendKeys) (id : Nat) :
    typedOf (commands id 0 pkts) = pkts.flatMap Packet.payload ∧ sizesOf (commands id 0 pkts) = [] := by
  induction pkts with
  | nil => exact ⟨rfl, rfl⟩
  | cons pkt pkts ih =>
    have typ := keys pkt List.mem_cons_self
    obtain ⟨typed, sizes⟩ := ih fun other member => keys other (List.mem_cons_of_mem _ member)
    have same : pkt.setFlags 0 = 0 := by
      rw [Packet.setFlags, if_neg]
      rw [typ]
      decide
    have one : pkt.command id 0 = [.input id pkt.payload] := by
      simp [Packet.command, typ]
    rw [commands, same, one, List.flatMap_cons, ← typed]
    exact ⟨rfl, sizes⟩

-- The program never attaches, so no output comes back that it would have to read.
theorem keys_reach_the_pty (server : Server) (reached : Reached (fun _ _ => True) server)
    (pid : UInt64) (literal : Bool) (keys : List (List UInt8)) (sent : List Packet)
    (front : sent <+: sendKeys literal keys) (client : Client) (member : client ∈ server.everyone)
    (link : Link pid client sent []) :
    let journal := server.master.journal
    let commands := commandsOf client.stream.id journal
    typedOf commands <+: keysBytes literal keys ∧ sizesOf commands = [] ∧
    contentOf client.queued = [] ∧
    (NeverAfter PtyEntry.Fails PtyEntry.Accepts journal →
      acceptedBy client.stream.id journal <+: keysBytes literal keys) ∧
    (sent = sendKeys literal keys → client.Took (sent.flatMap packetBytes) →
      typedOf commands = keysBytes literal keys ∧
      ((∀ entry ∈ journal, ¬ entry.Fails) →
        acceptedBy client.stream.id journal = keysBytes literal keys)) := by
  intro journal commands
  obtain ⟨output, childExit, _, _, life⟩ := reached.sound.life member
  have fits (pkt : Packet) (inside : pkt ∈ sent) : pkt.Fits := (sendKeys_kind (front.subset inside)).2
  have handled : client.handled <+: sent := link.handled_prefix life fits
  have kind (pkt : Packet) (inside : pkt ∈ client.handled) : pkt.typ = msgSendKeys :=
    (sendKeys_kind (front.subset (handled.subset inside))).1
  have obeyed : commands = Lich.commands client.stream.id 0 client.handled :=
    (reached.obeyed.clients client member).commands
  obtain ⟨typed, sizes⟩ := commands_keys kind client.stream.id
  have never (typ : UInt32) (other : typ ≠ msgSendKeys) : client.servedAt typ = [] := by
    apply List.filterMap_eq_nil_iff.mpr
    intro taken inside
    have keys := kind taken.1 (List.mem_map_of_mem inside)
    rw [keys, if_neg other.symm]
  rw [← obeyed] at typed sizes
  have tally : Tally journal := reached.obeyed.recorded.tally
  have part : typedOf commands <+: keysBytes literal keys := by
    obtain ⟨more, whole⟩ := handled.trans front
    rw [typed, ← sendKeys_payload, ← whole, List.flatMap_append]
    exact List.prefix_append _ _
  refine ⟨part, sizes, ?_, fun order => (tally.acceptedBy_front _ order).trans part, ?_⟩
  · exact life.gapless.silent (never _ (by decide)) (never _ (by decide))
  · intro all took
    have stray : NoStrayPacket (sent.flatMap packetBytes) :=
      fun overlong => absurd overlong (not_overlong fits List.prefix_rfl)
    have served := reached.served member stray took
    rw [Decoder.drain_encode fun pkt inside => packetBytes_inverts (fits pkt inside)] at served
    have same : client.handled = sent := served
    have whole : typedOf commands = keysBytes literal keys := by
      rw [typed, same, all, sendKeys_payload]
    exact ⟨whole, fun fine => by rw [tally.acceptedBy_whole _ fine, whole]⟩

def keysAccept : Accept :=
  ⟨[.ok ⟨(sendKeys false [ascii "Up", ascii "hi"]).flatMap packetBytes, by decide⟩], [], 16, true⟩

theorem keys_reach_the_pty_up :
    let server := (serverLoop [{ Tick.idle with accepts := [keysAccept] }]
      (Server.start 1 true [.ok 5])).server
    ∃ client ∈ server.everyone,
      acceptedBy client.stream.id server.master.journal = [27, 91, 65, 104, 105] := by
  intro server
  have reached : Reached (fun _ _ => True) server :=
    ⟨1, true, [.ok 5], _, runMeets_of_forall (fun _ _ => trivial) _ _, rfl⟩
  have found : ∃ client ∈ server.clients,
      client.stream.greeting = packetBytes (pidPacket 1) ∧ client.wire = [] ∧
        client.input = (sendKeys false [ascii "Up", ascii "hi"]).flatMap packetBytes ∧
        Entry.left .readError ∉ client.stream.journal := by
    decide
  obtain ⟨client, member, greeted, wire, input, fine⟩ := found
  have link : Link 1 client (sendKeys false [ascii "Up", ascii "hi"]) [] := by
    refine ⟨greeted, ⟨⟨0, []⟩, Nat.zero_le _, ?_, ?_⟩, ?_⟩
    · rw [input]
      decide
    · rw [input]
      decide
    · refine ⟨_, pidPacket 1, [], List.prefix_rfl, ?_⟩
      rw [greeted, wire]
      rfl
  obtain ⟨_, _, _, _, all⟩ := keys_reach_the_pty server reached 1 false [ascii "Up", ascii "hi"] _
    List.prefix_rfl client (List.mem_append_left _ member) link
  refine ⟨client, List.mem_append_left _ member, ((all rfl ⟨input, fine⟩).2 (by decide)).trans ?_⟩
  decide

end Lich
