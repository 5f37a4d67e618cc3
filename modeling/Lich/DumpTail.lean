import Lich.Foundation.Lines
import Lich.C.Client

/-! The part of a dump that is printed: the last bytes, or the last lines.

Both programs scan for the last lines in the same way. What the scan finds is
stated by the lines of the dump alone.
-/

set_option autoImplicit false

namespace Lich

open Foundation

/-- The loop stops behind the newline that completes the count, or at the start. -/
theorem tailLineLoop_cases (buf : List UInt8) (wanted : Nat) {pos found : Nat}
    (inside : pos ≤ buf.length) (fewer : found < wanted) :
    (tailLineLoop buf wanted pos found = 0 ∧ found + (buf.take pos).count 10 < wanted) ∨
      ∃ place < pos, tailLineLoop buf wanted pos found = place + 1 ∧ buf[place]? = some 10 ∧
        found + ((buf.take pos).drop (place + 1)).count 10 + 1 = wanted := by
  induction pos generalizing found with
  | zero => exact .inl ⟨rfl, by simpa using fewer⟩
  | succ pos ih =>
    have room : pos < buf.length := inside
    have last : buf.take (pos + 1) = buf.take pos ++ [buf[pos]] := by
      rw [List.take_add_one, List.getElem?_eq_getElem room]
      rfl
    have entry : buf[pos]? = some buf[pos] := List.getElem?_eq_getElem room
    rw [tailLineLoop]
    by_cases newline : buf[pos] = 10
    · rw [entry, newline, if_pos rfl]
      have one : (buf.take (pos + 1)).count 10 = (buf.take pos).count 10 + 1 := by
        rw [last, newline, List.count_append, List.count_singleton_self]
      by_cases done : found + 1 = wanted
      · rw [if_pos done]
        refine .inr ⟨pos, Nat.lt_succ_self pos, rfl, by rw [entry, newline], ?_⟩
        have none : (buf.take (pos + 1)).drop (pos + 1) = [] :=
          List.drop_eq_nil_of_le (List.length_take_le _ _)
        rw [none, List.count_nil]
        exact done
      · rw [if_neg done]
        rcases ih (Nat.le_of_lt room) (show found + 1 < wanted by omega) with
          ⟨zero, few⟩ | ⟨place, before, stop, same, count⟩
        · exact .inl ⟨zero, by omega⟩
        · refine .inr ⟨place, Nat.lt_succ_of_lt before, stop, same, ?_⟩
          rw [last, newline, List.drop_append_of_le_length (by rw [List.length_take]; omega),
            List.count_append, List.count_singleton_self]
          omega
    · have plain : ¬ buf[pos]? = some 10 := by simpa [entry] using newline
      have same : (buf.take (pos + 1)).count 10 = (buf.take pos).count 10 := by
        rw [last, List.count_append, List.count_singleton]
        simp [newline]
      rw [if_neg plain]
      rcases ih (Nat.le_of_lt room) fewer with ⟨zero, few⟩ | ⟨place, before, stop, found', count⟩
      · exact .inl ⟨zero, by omega⟩
      · refine .inr ⟨place, Nat.lt_succ_of_lt before, stop, found', ?_⟩
        rw [last, List.drop_append_of_le_length (by rw [List.length_take]; omega),
          List.count_append, List.count_singleton]
        simp only [beq_iff_eq, newline, if_false]
        omega

def contentEnd (buf : List UInt8) : Nat :=
  if buf[buf.length - 1]? = some 10 then buf.length - 1 else buf.length

theorem tailLineStart_eq {buf : List UInt8} (some : buf ≠ []) {wanted : Nat} (positive : 1 ≤ wanted) :
    tailLineStart buf wanted = tailLineLoop buf wanted (contentEnd buf) 0 := by
  have ask : ¬ (wanted = 0 ∨ buf = []) := by
    rintro (none | none)
    · omega
    · exact some none
  rw [tailLineStart, if_neg ask, contentEnd]
  split <;> rfl

theorem contentEnd_count {buf : List UInt8} {start : Nat} (inside : start < buf.length) :
    ((buf.take (contentEnd buf)).drop start).count 10 = (buf.drop start).dropLast.count 10 := by
  have back : (buf.drop start).dropLast = (buf.take (buf.length - 1)).drop start := by
    rw [List.dropLast_eq_take, List.length_drop, List.take_drop]
    congr 2
    omega
  unfold contentEnd
  split
  · rw [back]
  · next other =>
    have last : buf.length - 1 < buf.length := by omega
    have whole : buf = buf.take (buf.length - 1) ++ [buf[buf.length - 1]] := by
      have parts := List.take_append_drop (buf.length - 1) buf
      rw [List.drop_eq_getElem_cons last, List.drop_eq_nil_of_le (by omega)] at parts
      exact parts.symm
    have plain : buf[buf.length - 1] ≠ 10 := by
      intro newline
      rw [List.getElem?_eq_getElem last, newline] at other
      exact other rfl
    have split : (buf.drop start) =
        (buf.take (buf.length - 1)).drop start ++ [buf[buf.length - 1]] := by
      conv_lhs => rw [whole]
      exact List.drop_append_of_le_length (by rw [List.length_take]; omega)
    rw [List.take_length, back, split, List.count_append, List.count_singleton]
    simp [plain]

theorem tailLineStart_lines (out : List UInt8) {wanted : Nat} (positive : 1 ≤ wanted) :
    (tailLineStart out wanted = 0 ∨ out[tailLineStart out wanted - 1]? = some 10) ∧
      (lines 10 (out.drop (tailLineStart out wanted))).length =
        min wanted (lines 10 out).length := by
  by_cases none : out = []
  · subst none
    simp [tailLineStart]
  · have some : 0 < out.length := List.length_pos_iff.mpr none
    have whole := contentEnd_count some
    rw [List.drop_zero, List.drop_zero] at whole
    have size := lines_length (10 : UInt8) none
    have within : contentEnd out ≤ out.length := by
      unfold contentEnd
      split <;> omega
    rw [tailLineStart_eq none positive]
    rcases tailLineLoop_cases out wanted within positive with
      ⟨zero, few⟩ | ⟨place, before, stop, newline, count⟩
    · rw [zero]
      refine ⟨.inl rfl, ?_⟩
      rw [List.drop_zero, Nat.min_eq_right]
      omega
    · have ends : place + 1 < out.length := by
        have short : place ≠ out.length - 1 := by
          rintro rfl
          rw [contentEnd, if_pos newline] at before
          exact Nat.lt_irrefl _ before
        omega
      have rest : out.drop (place + 1) ≠ [] := by
        intro empty
        have gone := List.drop_eq_nil_iff.mp empty
        omega
      have front : (out.take (contentEnd out)).count 10 =
          ((out.take (contentEnd out)).take (place + 1)).count 10 +
            ((out.take (contentEnd out)).drop (place + 1)).count 10 := by
        rw [← List.count_append, List.take_append_drop]
      rw [stop, lines_length 10 rest, ← contentEnd_count ends]
      refine ⟨.inr newline, ?_⟩
      rw [Nat.min_eq_left]
      all_goals omega

theorem dumpStart_lines (out : List UInt8) {wanted : Nat} (positive : 1 ≤ wanted) :
    (dumpStart 0 wanted out = 0 ∨ out[dumpStart 0 wanted out - 1]? = some 10) ∧
      out.drop (dumpStart 0 wanted out) = lastLines 10 wanted out ∧
      lines 10 (out.drop (dumpStart 0 wanted out)) = (lines 10 out).rtake wanted := by
  have start : dumpStart 0 wanted out = tailLineStart out wanted := by
    have ask : wanted ≠ 0 := by omega
    simp [dumpStart, ask]
  obtain ⟨ends, enough⟩ := tailLineStart_lines out positive
  obtain ⟨last, same⟩ := lastLines_eq_drop 10 ends enough
  rw [start]
  exact ⟨ends, last.symm, same⟩

theorem dumpStart_bytes (out : List UInt8) {wanted : Nat} (positive : 1 ≤ wanted) :
    out.drop (dumpStart wanted 0 out) = out.rtake wanted := by
  have start : dumpStart wanted 0 out = out.length - wanted := by
    by_cases long : wanted < out.length
    · have ask : wanted ≠ 0 := by omega
      simp [dumpStart, ask, long]
    · have all : out.length - wanted = 0 := by omega
      simp [dumpStart, long, all]
  rw [start, List.rtake]

/-! ## The C program -/

theorem c_tailLineLoop_eq (buf : List UInt8) (wanted pos found : Nat) :
    C.tailLineLoop buf wanted pos found = tailLineLoop buf wanted pos found := by
  induction pos generalizing found with
  | zero => rfl
  | succ pos ih =>
    rw [C.tailLineLoop, tailLineLoop]
    simp only [ih]

theorem c_tailLineStart_eq (buf : List UInt8) (wanted : Nat) :
    C.tailLineStart buf buf.length wanted = tailLineStart buf wanted := by
  unfold C.tailLineStart tailLineStart
  by_cases none : wanted = 0 ∨ buf = []
  · have empty : wanted = 0 ∨ buf.length = 0 := none.imp_right fun none => by rw [none]; rfl
    rw [if_pos none, if_pos empty]
  · have some : ¬ (wanted = 0 ∨ buf.length = 0) := by
      rintro (zero | zero)
      · exact none (.inl zero)
      · exact none (.inr (List.eq_nil_of_length_eq_zero zero))
    have positive : buf.length > 0 := by omega
    rw [if_neg none, if_neg some]
    simp only [c_tailLineLoop_eq, positive, true_and]
    split <;> rfl

theorem c_dumpTail_eq (maxBytes maxLines : Nat) (out : List UInt8) :
    C.dumpTail maxBytes maxLines out = out.drop (dumpStart maxBytes maxLines out) := by
  have scan (start : Nat) : C.tailLineStart (out.drop start) (out.length - start) maxLines =
      tailLineStart (out.drop start) maxLines := by
    rw [← List.length_drop, c_tailLineStart_eq]
  unfold C.dumpTail dumpStart
  simp only [scan]
  rw [← List.length_drop, List.take_length]

theorem c_dumpLoop_ok {room rounds : Nat} {stream : List UInt8} {buf final : C.Buffer}
    (done : C.dumpLoop room rounds stream buf = some final) :
    dumpLoop rounds stream buf.bytes = .ok final.bytes := by
  induction rounds generalizing stream buf with
  | zero => cases done
  | succ rounds ih =>
    rw [C.dumpLoop] at done
    cases received : C.recvPacket stream with
    | none =>
      rw [received] at done
      cases done
    | some pair =>
      obtain ⟨pkt, rest⟩ := pair
      have blocking := (C.recvPacket_iff stream rest pkt).mp received
      simp only [received, Option.bind_eq_bind, Option.bind_some] at done
      simp only [dumpLoop, blocking, bind, Except.bind]
      by_cases content : pkt.typ = msgContent
      · rw [if_pos content] at done ⊢
        cases appended : C.bufferAppend room buf pkt.payload with
        | none =>
          rw [appended] at done
          cases done
        | some next =>
          rw [appended] at done
          rw [← C.bufferAppend_bytes appended]
          exact ih done
      · rw [if_neg content] at done ⊢
        by_cases ending : pkt.typ = msgDumpEnd
        · rw [if_pos ending] at done ⊢
          cases done
          rfl
        · rw [if_neg ending] at done ⊢
          exact ih done

theorem dumpLoop_length {rounds : Nat} {stream out final : List UInt8}
    (done : dumpLoop rounds stream out = .ok final) : out.length ≤ final.length := by
  induction rounds generalizing stream out with
  | zero => cases done
  | succ rounds ih =>
    cases received : recvPacketBlocking stream with
    | error err => simp [dumpLoop, received, bind, Except.bind] at done
    | ok pair =>
      simp only [dumpLoop, received, bind, Except.bind] at done
      split at done
      · have more := ih done
        rw [List.length_append] at more
        omega
      · split at done
        · cases done
          exact Nat.le_refl _
        · exact ih done

/-- Memory that holds a dump twice, which is what doubling may take. -/
structure C.Roomy (room : Nat) (out : List UInt8) : Prop where
  page : 4096 ≤ room
  twice : 2 * out.length ≤ room
  small : out.length ≤ C.sizeMax / 2

theorem c_dumpLoop_some {room rounds : Nat} {stream final : List UInt8} {buf : C.Buffer}
    (roomy : C.Roomy room final) (done : dumpLoop rounds stream buf.bytes = .ok final) :
    ∃ last, C.dumpLoop room rounds stream buf = some last ∧ last.bytes = final := by
  induction rounds generalizing stream buf with
  | zero => cases done
  | succ rounds ih =>
    cases received : recvPacketBlocking stream with
    | error err => simp [dumpLoop, received, bind, Except.bind] at done
    | ok pair =>
      obtain ⟨pkt, rest⟩ := pair
      have same := (C.recvPacket_iff stream rest pkt).mpr received
      simp only [dumpLoop, received, bind, Except.bind] at done
      simp only [C.dumpLoop, same, Option.bind_eq_bind, Option.bind_some]
      by_cases content : pkt.typ = msgContent
      · rw [if_pos content] at done ⊢
        have size := dumpLoop_length done
        obtain ⟨next, appended⟩ := C.bufferAppend_some buf pkt.payload roomy.page
          (by have twice := roomy.twice; omega) (by have small := roomy.small; omega)
        rw [appended]
        rw [← C.bufferAppend_bytes appended] at done
        exact ih done
      · rw [if_neg content] at done ⊢
        by_cases ending : pkt.typ = msgDumpEnd
        · rw [if_pos ending] at done ⊢
          cases done
          exact ⟨buf, rfl, rfl⟩
        · rw [if_neg ending] at done ⊢
          exact ih done

theorem c_collectDump_ok {room : Nat} {stream out : List UInt8}
    (done : C.collectDump room true stream = some out) : collectDump stream = .ok out := by
  unfold C.collectDump at done
  cases received : C.recvPacket stream with
  | none =>
    rw [received] at done
    cases done
  | some pair =>
    obtain ⟨pkt, rest⟩ := pair
    have blocking := (C.recvPacket_iff stream rest pkt).mp received
    simp only [received, Option.bind_eq_bind, Option.bind_some] at done
    split at done
    · cases done
    · rw [if_neg (by decide)] at done
      obtain ⟨final, loop, same⟩ := Option.bind_eq_some_iff.mp done
      cases same
      have collected := c_dumpLoop_ok loop
      simp only [collectDump, blocking, bind, Except.bind]
      exact collected

theorem c_collectDump_some {room : Nat} {stream rest out : List UInt8} {pkt : Packet}
    (first : recvPacketBlocking stream = .ok (pkt, rest)) (pid : pkt.typ = msgPid)
    (roomy : C.Roomy room out) (done : collectDump stream = .ok out) :
    C.collectDump room true stream = some out := by
  have same := (C.recvPacket_iff stream rest pkt).mpr first
  simp only [collectDump, first, bind, Except.bind] at done
  have loops : dumpLoop _ rest C.Buffer.empty.bytes = .ok out := done
  obtain ⟨last, loop, bytes⟩ := c_dumpLoop_some roomy loops
  simp only [C.collectDump, same, Option.bind_eq_bind, Option.bind_some]
  rw [if_neg (by simp [pid]), if_neg (by decide), loop]
  simp [bytes]

/-! ## The selection -/

-- The scan is never looked at again: by lines a dump prints the last lines, by
-- bytes the last bytes, and both programs print the same.
theorem dump_tail_selection (out : List UInt8) (wanted : Nat) (positive : 1 ≤ wanted) :
    (dumpStart 0 wanted out = 0 ∨ out[dumpStart 0 wanted out - 1]? = some 10) ∧
    (lines 10 (out.drop (dumpStart 0 wanted out))).length = min wanted (lines 10 out).length ∧
    lines 10 (out.drop (dumpStart 0 wanted out)) = (lines 10 out).rtake wanted ∧
    out.drop (dumpStart wanted 0 out) = out.drop (out.length - min wanted out.length) ∧
    (∀ fewer, 1 ≤ fewer → fewer ≤ wanted →
      out.drop (dumpStart 0 fewer out) <:+ out.drop (dumpStart 0 wanted out) ∧
      out.drop (dumpStart fewer 0 out) <:+ out.drop (dumpStart wanted 0 out)) ∧
    (∀ maxBytes maxLines,
      C.dumpTail maxBytes maxLines out = out.drop (dumpStart maxBytes maxLines out)) ∧
    (∀ stream, collectDump stream = .ok out → ∀ maxBytes maxLines,
      dumpSession (.ok ()) maxBytes maxLines stream =
        .ok (out.drop (dumpStart maxBytes maxLines out))) ∧
    ∀ room stream,
      (C.collectDump room true stream = some out → ∀ maxBytes maxLines,
        C.dumpSession room true maxBytes maxLines stream =
          some (out.drop (dumpStart maxBytes maxLines out)) ∧
        dumpSession (.ok ()) maxBytes maxLines stream =
          .ok (out.drop (dumpStart maxBytes maxLines out))) ∧
      ∀ pkt rest, recvPacketBlocking stream = .ok (pkt, rest) → pkt.typ = msgPid →
        C.Roomy room out → collectDump stream = .ok out →
        C.collectDump room true stream = some out := by
  obtain ⟨ends, last, same⟩ := dumpStart_lines out positive
  have bytes := dumpStart_bytes out positive
  have rust {stream : List UInt8} (done : collectDump stream = .ok out) (maxBytes maxLines : Nat) :
      dumpSession (.ok ()) maxBytes maxLines stream =
        .ok (out.drop (dumpStart maxBytes maxLines out)) :=
    (dumpSession_eq (.ok ()) maxBytes maxLines stream _).mpr ⟨rfl, out, done, rfl⟩
  refine ⟨ends, ?_, same, ?_, ?_, fun maxBytes maxLines => c_dumpTail_eq maxBytes maxLines out,
    fun stream done => rust done, fun room stream => ⟨?_, ?_⟩⟩
  · rw [same, rtake_length]
  · rw [bytes, List.rtake]
    congr 1
    omega
  · intro fewer one less
    obtain ⟨_, last', _⟩ := dumpStart_lines out one
    rw [last, last', bytes, dumpStart_bytes out one]
    exact ⟨lastLines_suffix 10 less out, rtake_suffix_rtake less out⟩
  · intro done maxBytes maxLines
    refine ⟨?_, rust (c_collectDump_ok done) maxBytes maxLines⟩
    rw [C.dumpSession, done, Option.map_some, c_dumpTail_eq]
  · intro pkt rest first pid roomy done
    exact c_collectDump_some first pid roomy done

def threeLines : List UInt8 := [97, 10, 10, 98]

def threeLinesDump : List UInt8 :=
  packetBytes (pidPacket 1) ++ packetBytes ⟨msgContent, threeLines⟩ ++ packetBytes ⟨msgDumpEnd, []⟩

theorem dump_tail_selection_two :
    (lines 10 (threeLines.drop (dumpStart 0 2 threeLines))).length = 2 ∧
      threeLines.drop (dumpStart 0 1 threeLines) <:+ threeLines.drop (dumpStart 0 2 threeLines) ∧
      dumpSession (.ok ()) 0 2 threeLinesDump = .ok [10, 98] ∧
      C.dumpSession 4096 true 0 2 threeLinesDump = some [10, 98] := by
  obtain ⟨_, count, _, _, suffix, _, rust, c⟩ := dump_tail_selection threeLines 2 (by decide)
  have collected : collectDump threeLinesDump = .ok threeLines := by decide
  have first : recvPacketBlocking threeLinesDump =
      .ok (pidPacket 1, threeLinesDump.drop 16) := by decide
  have reference := (c 4096 threeLinesDump).2 _ _ first rfl
    ⟨by decide, by decide, by decide⟩ collected
  refine ⟨count.trans (by decide), (suffix 1 (by decide) (by decide)).1, ?_, ?_⟩
  · exact (rust _ collected 0 2).trans (by decide)
  · exact ((c 4096 threeLinesDump).1 reference 0 2).1.trans (by decide)

end Lich
