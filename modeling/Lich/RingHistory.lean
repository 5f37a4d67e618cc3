import Lich.C.Sending
import Lich.Bounded

/-! The C program's ring buffer against the history.

The ring is a window on its array, and appending to it is dropping from the front
and pushing to the back of that window.
-/

set_option autoImplicit false

namespace Lich

open Foundation

namespace C

/-! ## Appending -/

theorem historyCap_pos : 0 < historyCap := by decide

structure History.Valid (h : History) : Prop where
  size : h.history.length = historyCap
  start : h.start < historyCap
  len : h.len ≤ historyCap

def History.content (h : History) : List UInt8 := window h.history h.start h.len

theorem History.content_length {h : History} (valid : h.Valid) : h.content.length = h.len := by
  have size := valid.size
  have len := valid.len
  rw [content, window_length]
  omega

theorem History.empty_valid : History.empty.Valid where
  size := List.length_replicate
  start := historyCap_pos
  len := Nat.zero_le _

theorem History.full_valid {data : List UInt8} (whole : data.length = historyCap) :
    History.Valid ⟨data, 0, historyCap⟩ where
  size := whole
  start := historyCap_pos
  len := Nat.le_refl historyCap

theorem History.empty_content : History.empty.content = [] := by
  rw [content, window]
  exact List.take_zero

theorem region_some {array : List UInt8} {place count : Nat}
    (inside : place + count ≤ array.length) :
    region array place count = some ((array.drop place).take count) :=
  if_pos inside

theorem memcpy_some {array data : List UInt8} {place : Nat}
    (inside : place + data.length ≤ array.length) :
    memcpy array place data = some (overwrite array place data) :=
  if_pos inside

theorem serverHistoryAppend_long {h : History} (valid : h.Valid) {buf : List UInt8}
    (long : buf.length ≥ historyCap) :
    serverHistoryAppend h buf = some ⟨buf.drop (buf.length - historyCap), 0, historyCap⟩ := by
  have size := valid.size
  have rest : (buf.drop (buf.length - historyCap)).length = historyCap := by
    rw [List.length_drop]
    omega
  have taken : region buf (buf.length - historyCap) historyCap =
      some (buf.drop (buf.length - historyCap)) := by
    rw [region_some (by omega), List.take_of_length_le (Nat.le_of_eq rest)]
  have none : h.history.drop (0 + (buf.drop (buf.length - historyCap)).length) = [] :=
    List.drop_eq_nil_of_le (by omega)
  have fits : memcpy h.history 0 (buf.drop (buf.length - historyCap)) =
      some (buf.drop (buf.length - historyCap)) := by
    rw [memcpy_some (by omega), overwrite, none, List.append_nil, List.take_zero, List.nil_append]
  unfold serverHistoryAppend
  refine (if_pos long).trans ?_
  rw [taken, Option.bind_eq_bind, Option.bind_some, fits, Option.bind_some]

theorem serverHistoryAppend_short {h : History} (valid : h.Valid) {buf : List UInt8}
    (short : buf.length < historyCap) {overflow start : Nat}
    (excess : h.len + buf.length - historyCap = overflow)
    (moved : (h.start + overflow) % historyCap = start) :
    serverHistoryAppend h buf =
      some ⟨overwriteAround h.history ((start + (h.len - overflow)) % historyCap) buf, start,
        h.len - overflow + buf.length⟩ := by
  have size := valid.size
  unfold serverHistoryAppend
  generalize historyCap = cap at short excess moved size ⊢
  have spill : (if h.len + buf.length > cap then h.len + buf.length - cap else 0) = overflow := by
    split <;> omega
  have inside : (start + (h.len - overflow)) % cap < cap := Nat.mod_lt _ (by omega)
  generalize place : (start + (h.len - overflow)) % cap = stop at inside
  have first : (if cap - stop > buf.length then buf.length else cap - stop) =
      min (h.history.length - stop) buf.length := by
    rw [size]
    split <;> omega
  generalize part : min (h.history.length - stop) buf.length = count at first
  have head : (buf.take count).length = count := by
    rw [List.length_take]
    omega
  have fits : memcpy h.history stop (buf.take count) =
      some (overwrite h.history stop (buf.take count)) :=
    memcpy_some (by omega)
  have length : (overwrite h.history stop (buf.take count)).length = h.history.length :=
    overwrite_length (by omega)
  have back : memcpy (overwrite h.history stop (buf.take count)) 0 (buf.drop count) =
      some (overwriteAround h.history stop buf) := by
    rw [memcpy_some (by rw [length, List.length_drop]; omega), overwriteAround, part]
  have front : region buf 0 count = some (buf.take count) := by
    rw [region_some (by omega), List.drop_zero]
  have rest : region buf count (buf.length - count) = some (buf.drop count) := by
    rw [region_some (by omega), List.take_of_length_le (by rw [List.length_drop])]
  simp only [if_neg (Nat.not_le_of_lt short), spill, moved, place, first, front, fits, rest, back,
    Option.bind_eq_bind, Option.bind_some]

theorem serverHistoryAppend_some {h : History} (valid : h.Valid) (buf : List UInt8) :
    ∃ next, serverHistoryAppend h buf = some next ∧ next.Valid ∧
      next.content = (h.content ++ buf).rtake historyCap := by
  have cap := historyCap_pos
  have len := valid.len
  have size := valid.size
  have count := History.content_length valid
  by_cases long : buf.length ≥ historyCap
  · have rest : (buf.drop (buf.length - historyCap)).length = historyCap := by
      rw [List.length_drop]
      omega
    refine ⟨_, serverHistoryAppend_long valid long, History.full_valid rest, ?_⟩
    rw [rtake_append_of_le long, List.rtake, History.content, window, List.rotate_zero,
      List.take_of_length_le (Nat.le_of_eq rest)]
  · have short : buf.length < historyCap := Nat.lt_of_not_le long
    generalize excess : h.len + buf.length - historyCap = overflow
    generalize moved : (h.start + overflow) % historyCap = start
    have inside : start < historyCap := moved ▸ Nat.mod_lt _ cap
    have place : (start + (h.len - overflow)) % historyCap < h.history.length := by
      rw [size]
      exact Nat.mod_lt _ cap
    have room : h.len - overflow + buf.length ≤ historyCap := by omega
    have length := overwriteAround_length place (by omega : buf.length ≤ h.history.length)
    refine ⟨_, serverHistoryAppend_short valid short excess moved,
      ⟨length.trans size, inside, room⟩, ?_⟩
    have dropped := @window_drop _ h.history h.start h.len overflow (by omega) (by omega)
    have pushed := @window_push _ h.history buf start (h.len - overflow) (by omega) (by omega)
    rw [size] at dropped pushed
    have tail : h.content.length + buf.length - historyCap = overflow := by omega
    rw [History.content, pushed, ← moved, dropped, List.rtake, List.length_append, tail,
      List.drop_append_of_le_length (by omega), History.content]

theorem serverHistoryAppend_all {h : History} (valid : h.Valid) (pieces : List (List UInt8)) :
    ∃ next, pieces.foldlM serverHistoryAppend h = some next ∧ next.Valid ∧
      next.content = (h.content ++ pieces.flatten).rtake historyCap := by
  induction pieces generalizing h with
  | nil =>
    have count := History.content_length valid
    have len := valid.len
    refine ⟨h, rfl, valid, ?_⟩
    rw [List.flatten_nil, List.append_nil, rtake_of_length_le (by omega)]
  | cons piece pieces ih =>
    obtain ⟨next, done, valid', content⟩ := serverHistoryAppend_some valid piece
    obtain ⟨last, done', valid'', content'⟩ := ih valid'
    refine ⟨last, ?_, valid'', ?_⟩
    · rw [List.foldlM_cons, done]
      exact done'
    · rw [content', content, rtake_rtake_append, List.flatten_cons, List.append_assoc]

/-! ## The replay -/

def replayPieces (h : History) : (rounds pos remaining : Nat) → List (List UInt8)
  | 0, _, _ => []
  | rounds + 1, pos, remaining =>
    if remaining > 0 then
      let chunk := min (min (historyCap - pos) remaining) maxPayload
      (h.history.drop pos).take chunk ::
        replayPieces h rounds ((pos + chunk) % historyCap) (remaining - chunk)
    else []

theorem sendHistoryLoop_eq {h : History} (size : h.history.length = historyCap) {rounds pos : Nat}
    {remaining : Nat} (start : pos < historyCap) (enough : remaining < rounds) (c : Client) :
    sendHistoryLoop h rounds pos remaining c =
      some (sendAll ((replayPieces h rounds pos remaining).map fun piece => ⟨msgContent, piece⟩) c) := by
  induction rounds generalizing pos remaining c with
  | zero => exact absurd enough (Nat.not_lt_zero _)
  | succ rounds ih =>
    rw [sendHistoryLoop, replayPieces]
    by_cases more : remaining > 0
    · have positive : 0 < maxPayload := by decide
      generalize part : min (min (historyCap - pos) remaining) maxPayload = chunk
      have clamped : (if historyCap - pos > remaining then remaining else historyCap - pos) =
          min (historyCap - pos) remaining := by
        split <;> omega
      have clamped' : (if min (historyCap - pos) remaining > maxPayload then maxPayload
          else min (historyCap - pos) remaining) = chunk := by
        rw [← part]
        split <;> omega
      have read : region h.history pos chunk = some ((h.history.drop pos).take chunk) :=
        region_some (by omega)
      have next : (pos + chunk) % historyCap < historyCap := Nat.mod_lt _ historyCap_pos
      rw [if_pos more, if_pos more]
      dsimp only
      rw [clamped, clamped', read, Option.bind_eq_bind, Option.bind_some, List.map_cons, sendAll]
      rcases serverSendPacket c ⟨msgContent, (h.history.drop pos).take chunk⟩ with ⟨sent, c⟩
      cases sent with
      | false => rfl
      | true => exact ih next (by omega) c
    · rw [if_neg more, if_neg more]
      rfl

theorem replayPieces_cut {h : History} (size : h.history.length = historyCap) {rounds pos : Nat}
    {remaining : Nat} (start : pos < historyCap) (bound : remaining ≤ historyCap)
    (enough : remaining < rounds) :
    (∀ piece ∈ replayPieces h rounds pos remaining, 1 ≤ piece.length ∧ piece.length ≤ maxPayload) ∧
      (replayPieces h rounds pos remaining).flatten = window h.history pos remaining := by
  induction rounds generalizing pos remaining with
  | zero => exact absurd enough (Nat.not_lt_zero _)
  | succ rounds ih =>
    rw [replayPieces]
    by_cases more : remaining > 0
    · have positive : 0 < maxPayload := by decide
      rw [if_pos more]
      generalize part : min (min (historyCap - pos) remaining) maxPayload = chunk
      have next : (pos + chunk) % historyCap < historyCap := Nat.mod_lt _ historyCap_pos
      obtain ⟨each, rest⟩ := ih next (by omega : remaining - chunk ≤ historyCap) (by omega)
      have first := @window_take _ h.history pos remaining chunk (by omega) (by omega) (by omega)
      have later := @window_drop _ h.history pos remaining chunk (by omega) (by omega)
      rw [size] at later
      constructor
      · intro piece member
        rcases List.mem_cons.mp member with rfl | member
        · rw [List.length_take, List.length_drop]
          omega
        · exact each piece member
      · rw [List.flatten_cons, rest, later, first, List.take_append_drop]
    · have none : remaining = 0 := by omega
      subst none
      rw [if_neg more]
      exact ⟨nofun, (List.take_zero).symm⟩

def replay (h : History) (sendEnd : Bool) : List Packet :=
  (replayPieces h (h.len + 1) h.start h.len).map (fun piece => ⟨msgContent, piece⟩) ++
    if sendEnd then [⟨msgDumpEnd, []⟩] else []

theorem replay_empty {h : History} (empty : h.len = 0) : replay h false = [] := by
  rw [replay, empty]
  rfl

theorem replay_length (h : History) (sendEnd : Bool) :
    (replay h sendEnd).length =
      (replayPieces h (h.len + 1) h.start h.len).length + if sendEnd then 1 else 0 := by
  rw [replay, List.length_append, List.length_map]
  cases sendEnd <;> rfl

theorem serverSendHistory_eq {h : History} (valid : h.Valid) (c : Client) (sendEnd : Bool) :
    serverSendHistory h c sendEnd = some (sendAll (replay h sendEnd) c) := by
  have loop := sendHistoryLoop_eq valid.size valid.start (Nat.lt_succ_self h.len) c
  rw [serverSendHistory, loop, replay, sendAll_append, Option.bind_eq_bind, Option.bind_some]
  rcases sendAll _ c with ⟨sent, c⟩
  cases sent with
  | false => rfl
  | true =>
    cases sendEnd with
    | false => rfl
    | true =>
      simp only [sendAll, if_true]
      rcases serverSendPacket c ⟨msgDumpEnd, []⟩ with ⟨sent, c⟩
      cases sent <;> rfl

theorem replay_fits {h : History} (valid : h.Valid) (sendEnd : Bool) :
    ∀ pkt ∈ replay h sendEnd, pkt.Fits := by
  intro pkt member
  obtain ⟨each, _⟩ := replayPieces_cut valid.size valid.start valid.len (Nat.lt_succ_self h.len)
  rcases List.mem_append.mp member with member | member
  · obtain ⟨piece, inside, rfl⟩ := List.mem_map.mp member
    exact (each piece inside).2
  · cases sendEnd with
    | false => cases member
    | true =>
      rw [List.mem_singleton.mp member]
      exact Nat.zero_le _

theorem serverSendHistory_sends {h : History} (valid : h.Valid) {c next : Client} {sendEnd : Bool}
    (done : serverSendHistory h c sendEnd = some (true, next)) :
    next.sends = c.sends ++ (replay h sendEnd).map Send.whole := by
  obtain ⟨sent, later, ok, after, kind⟩ := sendAll_after (replay_fits valid sendEnd) c
  rw [serverSendHistory_eq valid, after] at done
  cases done
  cases kind with
  | all => rfl

theorem serverSendHistory_willing {h : History} (valid : h.Valid) {c : Client} {sendEnd : Bool}
    {later : List WriteAnswer}
    (willing : c.writes = List.replicate (replay h sendEnd).length (.ok (8 + maxPayload)) ++ later) :
    serverSendHistory h c sendEnd =
      some (true, c.after ((replay h sendEnd).map Send.whole) later true) := by
  rw [serverSendHistory_eq valid, sendAll_willing (replay_fits valid sendEnd) willing]

end C

/-! ## Both replays -/

/-- The packets that a replay is made of, as both programs send them: pieces of the
content, none empty or too long for a packet. -/
structure Pieces (content : List UInt8) (pieces : List (List UInt8)) : Prop where
  sizes : ∀ piece ∈ pieces, 1 ≤ piece.length ∧ piece.length ≤ maxPayload
  flat : pieces.flatten = content

theorem chunks_pieces (content : List UInt8) : Pieces content (chunks maxPayload content) where
  sizes piece member :=
    ⟨List.length_pos_iff.mpr (chunks_ne_nil (by decide) member), chunks_bound member⟩
  flat := chunks_flatten (by decide) content

theorem sendHistory_queued {client : Client} {history : History} {sendEnd : Bool}
    (connected : (sendHistory client history sendEnd).disconnected = false) :
    ∃ mark, (sendHistory client history sendEnd).queued =
      client.queued ++ contentPackets (chunks maxPayload history.snapshot) ++ mark ∧
        mark <+: if sendEnd then [⟨msgDumpEnd, []⟩] else [] := by
  obtain ⟨entries, later, rest, failed, after, sent, whole, _⟩ :=
    sendHistory_sent client history sendEnd
  cases failed with
  | true =>
    rw [after] at connected
    cases connected
  | false =>
    obtain ⟨mark, split⟩ := whole rfl
    refine ⟨mark, ?_, ?_⟩
    · rw [after, List.append_assoc, split]
      exact queuedOf_append _ _
    · have inside := sent.queued
      rw [← split, replayPackets] at inside
      exact (List.prefix_append_right_inj _).mp inside

-- The ring holds the tail of what was appended, as the history does. Their
-- replays may be cut differently, where the ring wraps around.
theorem ring_refines_history (appended : List (List UInt8)) :
    ∃ ring, appended.foldlM C.serverHistoryAppend C.History.empty = some ring ∧
      (ring.history.length = C.historyCap ∧ ring.start < C.historyCap ∧ ring.len ≤ C.historyCap) ∧
      ring.content = (appended.foldl History.append History.new).snapshot ∧
      (∀ (c : C.Client) rounds, ring.len < rounds →
        (C.sendHistoryLoop ring rounds ring.start ring.len c).isSome) ∧
      ∃ pieces, Pieces ring.content pieces ∧
        (∀ c sendEnd next, C.serverSendHistory ring c sendEnd = some (true, next) →
          next.sends = c.sends ++ (contentPackets pieces ++
            if sendEnd then ([⟨msgDumpEnd, []⟩] : List Packet) else []).map C.Send.whole) ∧
        (∀ (c : C.Client) sendEnd later,
          c.writes = List.replicate (pieces.length + if sendEnd then 1 else 0)
            (.ok (8 + maxPayload)) ++ later →
          ∃ next, C.serverSendHistory ring c sendEnd = some (true, next)) ∧
        ∃ pieces', Pieces ring.content pieces' ∧
          ∀ client sendEnd,
            (sendHistory client (appended.foldl History.append History.new) sendEnd).disconnected =
                false →
              ∃ mark, (sendHistory client (appended.foldl History.append History.new)
                  sendEnd).queued = client.queued ++ contentPackets pieces' ++ mark ∧
                mark <+: if sendEnd then [⟨msgDumpEnd, []⟩] else [] := by
  obtain ⟨ring, done, valid, content⟩ :=
    C.serverHistoryAppend_all C.History.empty_valid appended
  obtain ⟨sizes, flat⟩ := C.replayPieces_cut valid.size valid.start valid.len
    (Nat.lt_succ_self ring.len)
  have same : ring.content = (appended.foldl History.append History.new).snapshot := by
    have after := foldl_history [] appended
    rw [History.after_nil, List.nil_append] at after
    rw [content, C.History.empty_content, List.nil_append, after, History.snapshot,
      History.after_bytes]
    rfl
  have pieces : Pieces ring.content (C.replayPieces ring (ring.len + 1) ring.start ring.len) :=
    ⟨sizes, flat⟩
  refine ⟨ring, done, ⟨valid.size, valid.start, valid.len⟩, same, ?_, _, pieces, ?_, ?_, _,
    chunks_pieces ring.content, ?_⟩
  · intro c rounds enough
    rw [C.sendHistoryLoop_eq valid.size valid.start enough]
    rfl
  · intro c sendEnd next sent
    exact C.serverSendHistory_sends valid sent
  · intro c sendEnd later willing
    rw [← C.replay_length] at willing
    exact ⟨_, C.serverSendHistory_willing valid willing⟩
  · intro client sendEnd connected
    rw [same]
    exact sendHistory_queued connected

theorem ring_refines_history_byte :
    ∃ ring pieces c next pieces' mark,
      [[65]].foldlM C.serverHistoryAppend C.History.empty = some ring ∧
      (C.sendHistoryLoop ring (ring.len + 1) ring.start ring.len ⟨[], [], .connected, 0, false⟩).isSome ∧
      Pieces [65] pieces ∧ Pieces [65] pieces' ∧
      C.serverSendHistory ring c true = some (true, next) ∧
      next.sends = (contentPackets pieces ++ ([⟨msgDumpEnd, []⟩] : List Packet)).map C.Send.whole ∧
      (sendHistory (Client.accept 1 0 ⟨[], [], 16, true⟩) (History.new.append [65]) true).queued =
        [] ++ contentPackets pieces' ++ mark := by
  have done := ring_refines_history [[65]]
  obtain ⟨ring, run, _, content, ends, pieces, cut, sent, willing, pieces', cut', queued⟩ := done
  have history : ([[65]].foldl History.append History.new).snapshot = [65] := by decide
  obtain ⟨mark, whole, _⟩ := queued (Client.accept 1 0 ⟨[], [], 16, true⟩) true (by decide)
  obtain ⟨next, replayed⟩ := willing ⟨List.replicate (pieces.length + 1) (.ok (8 + maxPayload)), [],
    .connected, 0, false⟩ true [] (List.append_nil _).symm
  rw [content, history] at cut cut'
  exact ⟨ring, pieces, _, next, pieces', mark, run, ends _ _ (Nat.lt_succ_self _), cut, cut',
    replayed, sent _ true next replayed, whole⟩

end Lich
