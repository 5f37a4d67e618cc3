import Lich.Input
import Lich.Foundation.Runs

/-! What a packet makes the server do to the pty.

It follows from the type of the packet, its payload and the flags of the client
it comes from. What one call of `fdWriteAll` can do with a payload is said once,
by `Written`, and what one packet can do to the master by `Obeys`.
-/

set_option autoImplicit false

namespace Lich

open Foundation

/-! ## Commands -/

def PtyEntry.client? : PtyEntry → Option Nat
  | .input client _ | .resized client _ _ => some client
  | _ => none

/-- What was done to the pty on behalf of one client. -/
def commandsOf (id : Nat) (journal : List PtyEntry) : List PtyEntry :=
  journal.filter fun entry => entry.client? == some id

def Packet.setFlags (pkt : Packet) (flags : UInt32) : UInt32 :=
  if pkt.typ = msgAttach then (readU32 pkt.payload).getD 0 else flags

/-- What the packet does to the pty when it comes from a client with these flags. -/
def Packet.command (pkt : Packet) (id : Nat) (flags : UInt32) : List PtyEntry :=
  if pkt.typ = msgContent ∨ pkt.typ = msgSendKeys then
    if flags &&& clientReadonly = 0 then [.input id pkt.payload] else []
  else if pkt.typ = msgResize ∧ pkt.payload.length ≥ 4 then
    [.resized id (u16FromNeBytes (pkt.payload.take 2))
      (u16FromNeBytes ((pkt.payload.drop 2).take 2))]
  else []

def flagsAfter (flags : UInt32) (pkts : List Packet) : UInt32 :=
  pkts.foldl (fun flags pkt => pkt.setFlags flags) flags

def commands (id : Nat) : (flags : UInt32) → List Packet → List PtyEntry
  | _, [] => []
  | flags, pkt :: pkts => pkt.command id flags ++ commands id (pkt.setFlags flags) pkts

@[simp] theorem commandsOf_nil (id : Nat) : commandsOf id [] = [] := rfl

@[simp] theorem commandsOf_append (id : Nat) (first second : List PtyEntry) :
    commandsOf id (first ++ second) = commandsOf id first ++ commandsOf id second :=
  List.filter_append ..

theorem commandsOf_eq_nil {id : Nat} {entries : List PtyEntry}
    (other : ∀ entry ∈ entries, entry.client? ≠ some id) : commandsOf id entries = [] := by
  apply List.filter_eq_nil_iff.mpr
  intro entry member same
  exact other entry member (beq_iff_eq.mp same)

theorem flagsAfter_append (flags : UInt32) (first second : List Packet) :
    flagsAfter flags (first ++ second) = flagsAfter (flagsAfter flags first) second :=
  List.foldl_append

theorem commands_append (id : Nat) (flags : UInt32) (first second : List Packet) :
    commands id flags (first ++ second) =
      commands id flags first ++ commands id (flagsAfter flags first) second := by
  induction first generalizing flags with
  | nil => rfl
  | cons pkt first ih =>
    rw [List.cons_append, commands, commands, ih, List.append_assoc]
    rfl

/-! ## One call of `fdWriteAll` -/

def acceptedOf (journal : List PtyEntry) : List UInt8 :=
  journal.flatMap fun entry => match entry with
    | .wrote bytes => bytes
    | _ => []

def PtyEntry.Accepts : PtyEntry → Prop
  | .wrote bytes => bytes ≠ []
  | _ => False

/-- A write accepted nothing, and was not interrupted. -/
def PtyEntry.Fails : PtyEntry → Prop
  | .wrote bytes => bytes = []
  | .writeFailed kind => kind ≠ .interrupted
  | _ => False

instance : DecidablePred PtyEntry.Accepts := fun entry => by
  cases entry <;> unfold PtyEntry.Accepts <;> infer_instance

instance : DecidablePred PtyEntry.Fails := fun entry => by
  cases entry <;> unfold PtyEntry.Fails <;> infer_instance

@[simp] theorem acceptedOf_nil : acceptedOf [] = [] := rfl

@[simp] theorem acceptedOf_append (first second : List PtyEntry) :
    acceptedOf (first ++ second) = acceptedOf first ++ acceptedOf second :=
  List.flatMap_append

/-- What the write loop can do with a buffer: it writes a front of it, and gives
up at the first write that fails. -/
structure Written (buf : List UInt8) (entries : List PtyEntry) : Prop where
  plain : ∀ entry ∈ entries, entry.client? = none
  front : acceptedOf entries <+: buf
  short : (∃ entry ∈ entries, entry.Fails) ↔ acceptedOf entries ≠ buf
  stops : NeverAfter PtyEntry.Fails PtyEntry.Accepts entries

theorem Written.done : Written [] [] where
  plain := by simp
  front := List.prefix_rfl
  short := by simp
  stops := neverAfter_nil

theorem Written.failed {buf : List UInt8} (waiting : buf ≠ []) {entry : PtyEntry}
    (plain : entry.client? = none) (fails : entry.Fails) (none : acceptedOf [entry] = []) :
    Written buf [entry] where
  plain := by simpa using plain
  front := none ▸ List.nil_prefix
  short := by
    rw [none]
    exact ⟨fun _ same => waiting same.symm, fun _ => ⟨entry, List.mem_singleton.mpr rfl, fails⟩⟩
  stops := List.pairwise_singleton _ _

theorem Written.later {buf bytes rest : List UInt8} {entry : PtyEntry} {entries : List PtyEntry}
    (whole : buf = bytes ++ rest) (plain : entry.client? = none) (goes : ¬ entry.Fails)
    (taken : acceptedOf [entry] = bytes) (later : Written rest entries) :
    Written buf (entry :: entries) where
  plain := by
    intro other member
    rcases List.mem_cons.mp member with rfl | member
    · exact plain
    · exact later.plain other member
  front := by
    have sum : acceptedOf (entry :: entries) = bytes ++ acceptedOf entries := by
      rw [← List.singleton_append, acceptedOf_append, taken]
    rw [sum, whole]
    exact (List.prefix_append_right_inj bytes).mpr later.front
  short := by
    have sum : acceptedOf (entry :: entries) = bytes ++ acceptedOf entries := by
      rw [← List.singleton_append, acceptedOf_append, taken]
    rw [sum, whole, ne_eq, List.append_cancel_left_eq, ← ne_eq, ← later.short]
    constructor
    · rintro ⟨other, member, fails⟩
      rcases List.mem_cons.mp member with rfl | member
      · exact absurd fails goes
      · exact ⟨other, member, fails⟩
    · rintro ⟨other, member, fails⟩
      exact ⟨other, List.mem_cons_of_mem _ member, fails⟩
  stops := List.pairwise_cons.mpr ⟨fun _ _ fails => absurd fails goes, later.stops⟩

theorem Pty.write_cases (master : Pty) (offered : List UInt8) :
    (∃ count later, count ≤ offered.length ∧ later.length < master.writes.length ∧
      master.write offered = (.ok count,
        { master with
          writes := later
          journal := master.journal ++ [.wrote (offered.take count)] })) ∨
    (∃ kind later, (kind = .wouldBlock ∨ later.length < master.writes.length) ∧
      master.write offered = (.err kind,
        { master with
          writes := later
          journal := master.journal ++ [.writeFailed kind] })) := by
  unfold write
  split
  · next none => exact .inr ⟨.wouldBlock, master.writes, .inl rfl, rfl⟩
  · next count later next =>
    have front : offered.take (min count offered.length) = offered.take count := by
      rw [List.take_eq_take_iff]
      omega
    refine .inl ⟨min count offered.length, later, Nat.min_le_right _ _, by simp [next], ?_⟩
    rw [front]
    rfl
  · next kind later next => exact .inr ⟨kind, later, .inr (by simp [next]), rfl⟩

-- The rounds are enough: each takes an answer of the script, and a write that
-- would block for want of one ends the loop.
theorem fdWriteLoop_written {rounds : Nat} {master : Pty} (buf : List UInt8)
    (enough : master.writes.length < rounds) :
    ∃ entries, (fdWriteLoop rounds master buf).2.journal = master.journal ++ entries ∧
      Written buf entries := by
  induction rounds generalizing master buf with
  | zero => omega
  | succ rounds ih =>
    rw [fdWriteLoop]
    split
    · next empty =>
      subst empty
      exact ⟨[], (List.append_nil _).symm, .done⟩
    · next waiting =>
      rcases master.write_cases buf with
        ⟨count, later, inside, shorter, answer⟩ | ⟨kind, later, shorter, answer⟩
      · rw [answer]
        cases count with
        | zero =>
          refine ⟨[.wrote (buf.take 0)], rfl, ?_⟩
          exact .failed waiting rfl (List.take_zero ..) rfl
        | succ count =>
          -- the loop goes on with the rest of the buffer
          have fewer : later.length < rounds := by omega
          obtain ⟨entries, journal, written⟩ := @ih
            { master with
              writes := later
              journal := master.journal ++ [.wrote (buf.take (count + 1))] }
            (buf.drop (count + 1)) fewer
          refine ⟨.wrote (buf.take (count + 1)) :: entries, ?_, ?_⟩
          · exact journal.trans (List.append_assoc _ _ _)
          · have taken : buf.take (count + 1) ≠ [] := by
              simp [waiting]
            exact .later (List.take_append_drop _ _).symm rfl taken (List.append_nil _) written
      · rw [answer]
        by_cases retry : kind = .interrupted
        · subst retry
          have fewer : later.length < rounds := by
            rcases shorter with blocked | shorter
            · cases blocked
            · omega
          obtain ⟨entries, journal, written⟩ := @ih
            { master with
              writes := later
              journal := master.journal ++ [.writeFailed .interrupted] } buf fewer
          refine ⟨.writeFailed .interrupted :: entries, ?_, ?_⟩
          · exact journal.trans (List.append_assoc _ _ _)
          · exact .later rfl rfl (fun fails => fails rfl) rfl written
        · refine ⟨[.writeFailed kind], ?_, .failed waiting rfl retry rfl⟩
          cases kind <;> first | rfl | exact absurd rfl retry

theorem fdWriteAll_written (master : Pty) (buf : List UInt8) :
    ∃ entries, (fdWriteAll master buf).2.journal = master.journal ++ entries ∧
      Written buf entries :=
  fdWriteLoop_written buf (Nat.lt_succ_self _)

/-! ## One packet -/

inductive Obeys (pkt : Packet) (id : Nat) (flags : UInt32) : List PtyEntry → Prop where
  | keys (entries : List PtyEntry) : pkt.command id flags = [.input id pkt.payload] →
      Written pkt.payload entries → Obeys pkt id flags (.input id pkt.payload :: entries)
  | resize (rows cols : UInt16) : pkt.command id flags = [.resized id rows cols] →
      Obeys pkt id flags [.resized id rows cols, .signalled .winch]
  | nothing : pkt.command id flags = [] → Obeys pkt id flags []

theorem handlePacket_obeys (history : History) (now : Instant) (pkt : Packet) (client : Client)
    (master : Pty) : ∃ entries,
      (handlePacket history now pkt client master).2.journal = master.journal ++ entries ∧
        Obeys pkt client.stream.id client.flags entries := by
  unfold handlePacket
  dsimp only
  by_cases keys : pkt.typ = msgContent ∨ pkt.typ = msgSendKeys
  · rw [if_pos keys]
    split
    · next writable =>
      obtain ⟨entries, journal, written⟩ :=
        fdWriteAll_written (master.log (.input client.stream.id pkt.payload)) pkt.payload
      refine ⟨.input client.stream.id pkt.payload :: entries, ?_, .keys entries ?_ written⟩
      · exact journal.trans (List.append_assoc _ _ _)
      · rw [Packet.command, if_pos keys]
        exact if_pos writable
    · next readonly =>
      refine ⟨[], (List.append_nil _).symm, .nothing ?_⟩
      rw [Packet.command, if_pos keys]
      exact if_neg readonly
  · rw [if_neg keys]
    have plain (other : ¬ (pkt.typ = msgResize ∧ pkt.payload.length ≥ 4)) :
        Obeys pkt client.stream.id client.flags [] := by
      apply Obeys.nothing
      rw [Packet.command, if_neg keys, if_neg other]
    have still (other : pkt.typ ≠ msgResize) : ∃ entries,
        master.journal = master.journal ++ entries ∧
          Obeys pkt client.stream.id client.flags entries :=
      ⟨[], (List.append_nil _).symm, plain fun both => other both.1⟩
    by_cases attach : pkt.typ = msgAttach
    · rw [if_pos attach]
      exact still (by rw [attach]; decide)
    · rw [if_neg attach]
      by_cases dump : pkt.typ = msgDump
      · rw [if_pos dump]
        exact still (by rw [dump]; decide)
      · rw [if_neg dump]
        by_cases resize : pkt.typ = msgResize
        · rw [if_pos resize]
          split
          · next long =>
            have same : pkt.command client.stream.id client.flags =
                [.resized client.stream.id (u16FromNeBytes (pkt.payload.take 2))
                  (u16FromNeBytes ((pkt.payload.drop 2).take 2))] := by
              rw [Packet.command, if_neg keys, if_pos ⟨resize, long⟩]
            exact ⟨_, List.append_assoc _ _ _, .resize _ _ same⟩
          · next short =>
            exact ⟨[], (List.append_nil _).symm, plain fun both => short both.2⟩
        · rw [if_neg resize]
          split
          · exact still resize
          · exact still resize

theorem Obeys.mem_client {pkt : Packet} {id : Nat} {flags : UInt32} {entries : List PtyEntry}
    (obeys : Obeys pkt id flags entries) :
    ∀ entry ∈ entries, entry.client? = none ∨ entry.client? = some id := by
  intro entry member
  cases obeys with
  | keys entries _ written =>
    rcases List.mem_cons.mp member with rfl | member
    · exact .inr rfl
    · exact .inl (written.plain entry member)
  | resize rows cols _ =>
    simp only [List.mem_cons, List.not_mem_nil, or_false] at member
    rcases member with rfl | rfl
    · exact .inr rfl
    · exact .inl rfl
  | nothing _ => cases member

theorem Obeys.commandsOf_self {pkt : Packet} {id : Nat} {flags : UInt32}
    {entries : List PtyEntry} (obeys : Obeys pkt id flags entries) :
    commandsOf id entries = pkt.command id flags := by
  cases obeys with
  | keys entries same written =>
    have silent : commandsOf id entries = [] := by
      apply commandsOf_eq_nil
      intro entry member own
      rw [written.plain entry member] at own
      cases own
    rw [same, ← List.singleton_append, commandsOf_append, silent]
    simp [commandsOf, PtyEntry.client?]
  | resize rows cols same =>
    rw [same]
    simp [commandsOf, PtyEntry.client?]
  | nothing same => exact same.symm

theorem Obeys.commandsOf_other {pkt : Packet} {id other : Nat} {flags : UInt32}
    {entries : List PtyEntry} (obeys : Obeys pkt id flags entries) (distinct : other ≠ id) :
    commandsOf other entries = [] := by
  apply commandsOf_eq_nil
  intro entry member own
  rcases obeys.mem_client entry member with none | same
  · rw [none] at own
    cases own
  · exact distinct (Option.some.inj (own.symm.trans same))

end Lich
