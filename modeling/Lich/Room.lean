import Mathlib.Data.List.Rotate
import Lich.Foundation.Runs
import Lich.Descriptor

/-! What clients do, and who is there.

Both servers are given the same events, one in an iteration. A room follows
them: it knows who is connected, with which flags, in the order in which the C
program links its clients.
-/

set_option autoImplicit false

namespace Lich

open Foundation

structure Winsize where
  bytes : List UInt8
  size : bytes.length = 4
  deriving DecidableEq

def Winsize.rows (ws : Winsize) : UInt16 := u16FromNeBytes (ws.bytes.take 2)
def Winsize.cols (ws : Winsize) : UInt16 := u16FromNeBytes ((ws.bytes.drop 2).take 2)

/-- A client is its position among those accepted. -/
inductive RoomEvent where
  | accept
  | attach (who : Nat) (flags : UInt32)
  | resize (who : Nat) (ws : Winsize)
  | disconnect (who : Nat)
  deriving DecidableEq

def RoomEvent.comes (who : Nat) : RoomEvent → Option (Option { pkt : Packet // pkt.Fits })
  | .accept => none
  | .attach a flags =>
    if a = who then some (some ⟨⟨msgAttach, u32ToNeBytes flags⟩, by
      rw [Packet.Fits, u32ToNeBytes_length]
      decide⟩)
    else none
  | .resize a ws =>
    if a = who then some (some ⟨⟨msgResize, ws.bytes⟩, by
      rw [Packet.Fits, ws.size]
      decide⟩)
    else none
  | .disconnect a => if a = who then some none else none

section Comes

variable (who : Nat) (flags : UInt32) (ws : Winsize)

theorem RoomEvent.comes_attach :
    ∃ fits, (RoomEvent.attach who flags).comes who =
      some (some ⟨⟨msgAttach, u32ToNeBytes flags⟩, fits⟩) := ⟨_, if_pos rfl⟩

theorem RoomEvent.comes_resize :
    ∃ fits, (RoomEvent.resize who ws).comes who = some (some ⟨⟨msgResize, ws.bytes⟩, fits⟩) :=
  ⟨_, if_pos rfl⟩

theorem RoomEvent.comes_disconnect : (RoomEvent.disconnect who).comes who = some none :=
  if_pos rfl

def RoomEvent.source : RoomEvent → Option Nat
  | .accept => none
  | .attach who _ | .resize who _ | .disconnect who => some who

variable {who} {event : RoomEvent}

theorem RoomEvent.comes_other (other : event.source ≠ some who) : event.comes who = none := by
  cases event with
  | accept => rfl
  | attach a flags => exact if_neg fun same => other (congrArg some same)
  | resize a ws => exact if_neg fun same => other (congrArg some same)
  | disconnect a => exact if_neg fun same => other (congrArg some same)

end Comes

/-! ## The sizes set -/

def PtyEntry.size? : PtyEntry → Option (UInt16 × UInt16)
  | .resized _ rows cols => some (rows, cols)
  | _ => none

/-- The sizes that were set with `TIOCSWINSZ`, oldest first. -/
def sizesOf (journal : List PtyEntry) : List (UInt16 × UInt16) := journal.filterMap PtyEntry.size?

@[simp] theorem sizesOf_append (first second : List PtyEntry) :
    sizesOf (first ++ second) = sizesOf first ++ sizesOf second := List.filterMap_append

/-! ## The room -/

structure Room where
  accepted : Nat
  /-- the clients and their flags, the head of the list first -/
  seats : List (Nat × UInt32)
  deriving DecidableEq

namespace Room

def empty : Room := ⟨0, []⟩

def ids (room : Room) : List Nat := room.seats.map Prod.fst

/-- A client is put at the head. Attaching with low priority, whoever does it,
moves the head behind the last. -/
def step : RoomEvent → Room → Room
  | .accept, room => ⟨room.accepted + 1, (room.accepted, 0) :: room.seats⟩
  | .attach who flags, room =>
    if who ∈ room.ids then
      let seats := room.seats.map fun seat => if seat.1 = who then (who, flags) else seat
      { room with seats := if flags &&& clientLowpriority ≠ 0 then seats.rotate 1 else seats }
    else room
  | .resize _ _, room => room
  | .disconnect who, room => { room with seats := room.seats.filter fun seat => seat.1 ≠ who }

/-- It is at the head, and not there to watch only. -/
def Decider (room : Room) (who : Nat) : Prop :=
  ∃ seat ∈ room.seats.head?, seat.1 = who ∧ seat.2 &&& clientReadonly = 0

instance (room : Room) (who : Nat) : Decidable (room.Decider who) :=
  inferInstanceAs (Decidable (∃ seat ∈ room.seats.head?, _))

/-- A MSG_RESIZE from a connected client comes from the one that decides. -/
def Decides (room : Room) : RoomEvent → Prop
  | .resize who _ => who ∈ room.ids → room.Decider who
  | _ => True

instance (room : Room) : (event : RoomEvent) → Decidable (room.Decides event)
  | .resize who _ => inferInstanceAs (Decidable (who ∈ room.ids → room.Decider who))
  | .accept | .attach _ _ | .disconnect _ => .isTrue trivial

def asked (room : Room) : RoomEvent → List (UInt16 × UInt16)
  | .resize who ws => if who ∈ room.ids then [(ws.rows, ws.cols)] else []
  | _ => []

def granted (room : Room) : RoomEvent → List (UInt16 × UInt16)
  | .resize who ws => if room.Decider who then [(ws.rows, ws.cols)] else []
  | _ => []

theorem Decider.seated {room : Room} {who : Nat} (decider : room.Decider who) : who ∈ room.ids := by
  obtain ⟨seat, head, rfl, _⟩ := decider
  exact List.mem_map_of_mem (List.mem_of_mem_head? head)

theorem granted_sublist (room : Room) (event : RoomEvent) :
    (room.granted event).Sublist (room.asked event) := by
  cases event with
  | resize who ws =>
    rw [granted, asked]
    by_cases decider : room.Decider who
    · rw [if_pos decider, if_pos decider.seated]
    · rw [if_neg decider]
      exact List.nil_sublist _
  | _ => exact List.Sublist.refl _

theorem asked_eq_granted_iff (room : Room) (event : RoomEvent) :
    room.asked event = room.granted event ↔ room.Decides event := by
  cases event with
  | resize who ws =>
    rw [granted, asked, Decides]
    by_cases decider : room.Decider who
    · simp [decider, decider.seated]
    · by_cases seated : who ∈ room.ids <;> simp [decider, seated]
  | _ => simp [granted, asked, Decides]

/-! ## Who is there -/

structure Sound (room : Room) : Prop where
  nodup : room.ids.Nodup
  below : ∀ who ∈ room.ids, who < room.accepted

theorem empty_sound : empty.Sound := ⟨List.nodup_nil, by simp [empty, ids]⟩

theorem ids_attach (who : Nat) (flags : UInt32) (room : Room) :
    (room.step (.attach who flags)).ids.Perm room.ids := by
  have same : (room.seats.map fun seat => if seat.1 = who then (who, flags) else seat).map Prod.fst =
      room.ids := by
    rw [List.map_map, ids]
    refine List.map_congr_left fun seat _ => ?_
    by_cases is : seat.1 = who <;> simp [is]
  rw [step]
  split
  · rw [← same]
    dsimp only [ids]
    split
    · exact (List.rotate_perm _ 1).map Prod.fst
    · exact List.Perm.refl _
  · exact List.Perm.refl _

theorem ids_disconnect (who : Nat) (room : Room) :
    (room.step (.disconnect who)).ids = room.ids.filter fun other => other ≠ who := by
  simp only [step, ids, List.filter_map]
  rfl

theorem step_length (event : RoomEvent) (room : Room) :
    (room.step event).seats.length ≤ room.seats.length + 1 := by
  cases event with
  | accept => exact Nat.le_refl _
  | attach who flags =>
    have same := (room.ids_attach who flags).length_eq
    rw [ids, ids, List.length_map, List.length_map] at same
    omega
  | resize who ws => exact Nat.le_succ _
  | disconnect who => exact Nat.le_succ_of_le (List.length_filter_le _ _)

theorem Sound.step {room : Room} (sound : room.Sound) (event : RoomEvent) :
    (room.step event).Sound := by
  cases event with
  | accept =>
    have fresh : room.accepted ∉ room.ids := fun member =>
      absurd (sound.below _ member) (Nat.lt_irrefl _)
    refine ⟨List.nodup_cons.mpr ⟨fresh, sound.nodup⟩, ?_⟩
    intro who member
    rcases List.mem_cons.mp member with rfl | member
    · exact Nat.lt_succ_self _
    · exact Nat.lt_succ_of_lt (sound.below who member)
  | attach who flags =>
    have same := room.ids_attach who flags
    have accepted : (room.step (.attach who flags)).accepted = room.accepted := by
      rw [Room.step]
      split <;> rfl
    refine ⟨same.nodup_iff.mpr sound.nodup, fun other member => ?_⟩
    rw [accepted]
    exact sound.below other (same.mem_iff.mp member)
  | resize who ws => exact sound
  | disconnect who =>
    refine ⟨?_, fun other member => ?_⟩
    · rw [ids_disconnect]
      exact sound.nodup.filter _
    · rw [ids_disconnect] at member
      exact sound.below other (List.mem_of_mem_filter member)

/-! ## Who is absent, and who is somewhere -/

theorem step_absent {room : Room} {event : RoomEvent} (other : event ≠ .accept)
    (absent : ∀ who ∈ room.ids, event.source ≠ some who) : room.step event = room := by
  cases event with
  | accept => exact absurd rfl other
  | attach who flags => exact if_neg fun member => absent who member rfl
  | resize who ws => rfl
  | disconnect who =>
    have all : room.seats.filter (fun seat => seat.1 ≠ who) = room.seats := by
      refine List.filter_eq_self.mpr fun seat member => decide_eq_true ?_
      rintro rfl
      exact absent seat.1 (List.mem_map_of_mem member) rfl
    rw [step, all]

theorem granted_absent {room : Room} {event : RoomEvent}
    (absent : ∀ who ∈ room.ids, event.source ≠ some who) : room.granted event = [] := by
  cases event with
  | resize who ws => exact if_neg fun decider => absent who decider.seated rfl
  | _ => rfl

section Middle

variable {accepted who : Nat} {flags : UInt32} {front back : List (Nat × UInt32)}

theorem Sound.middle (sound : (Room.mk accepted (front ++ (who, flags) :: back)).Sound) :
    ∀ seat ∈ front ++ back, seat.1 ≠ who := by
  have nodup := sound.nodup
  rw [ids, List.map_append, List.map_cons] at nodup
  have outside := (List.nodup_cons.mp (List.nodup_middle.mp nodup)).1
  rw [← List.map_append] at outside
  intro seat member is
  have inside : seat.1 ∈ (front ++ back).map Prod.fst := List.mem_map_of_mem member
  rw [is] at inside
  exact outside inside

theorem attach_middle (sound : (Room.mk accepted (front ++ (who, flags) :: back)).Sound)
    (next : UInt32) :
    (Room.mk accepted (front ++ (who, flags) :: back)).step (.attach who next) =
      ⟨accepted, if next &&& clientLowpriority ≠ 0 then (front ++ (who, next) :: back).rotate 1
        else front ++ (who, next) :: back⟩ := by
  have others := sound.middle
  have same : ∀ seats : List (Nat × UInt32), (∀ seat ∈ seats, seat.1 ≠ who) →
      seats.map (fun seat => if seat.1 = who then (who, next) else seat) = seats := fun seats apart =>
    (List.map_congr_left fun seat member => if_neg (apart seat member)).trans (List.map_id _)
  have seated : who ∈ (Room.mk accepted (front ++ (who, flags) :: back)).ids := by simp [ids]
  rw [step, if_pos seated]
  dsimp only
  rw [List.map_append, List.map_cons, if_pos rfl,
    same front fun seat member => others seat (List.mem_append_left _ member),
    same back fun seat member => others seat (List.mem_append_right _ member)]

theorem disconnect_middle (sound : (Room.mk accepted (front ++ (who, flags) :: back)).Sound) :
    (Room.mk accepted (front ++ (who, flags) :: back)).step (.disconnect who) =
      ⟨accepted, front ++ back⟩ := by
  have others := sound.middle
  have same : ∀ seats : List (Nat × UInt32), (∀ seat ∈ seats, seat.1 ≠ who) →
      seats.filter (fun seat => seat.1 ≠ who) = seats := fun seats apart =>
    List.filter_eq_self.mpr fun seat member => decide_eq_true (apart seat member)
  rw [step, List.filter_append, List.filter_cons_of_neg (by simp),
    same front fun seat member => others seat (List.mem_append_left _ member),
    same back fun seat member => others seat (List.mem_append_right _ member)]

theorem decider_middle (sound : (Room.mk accepted (front ++ (who, flags) :: back)).Sound) :
    (Room.mk accepted (front ++ (who, flags) :: back)).Decider who ↔
      flags &&& clientReadonly = 0 ∧ front.isEmpty := by
  cases front with
  | nil => simp [Decider]
  | cons head front =>
    have apart := sound.middle head (by simp)
    simp [Decider, apart]

end Middle

end Room

end Lich
