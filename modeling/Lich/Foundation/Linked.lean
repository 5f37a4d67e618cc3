import Mathlib.Logic.Function.Basic
import Mathlib.Data.List.Nodup

/-! Singly linked lists in memory.

Memory maps addresses to nodes; a freed node is absent, so following a link to
one fails. `Holds` says which list a chain of nodes spells out, and there is one
lemma about it for each operation on the links.
-/

set_option autoImplicit false

namespace Lich.Foundation

structure Node (ν : Type) where
  value : ν
  next : Option Nat

/-- A memory of nodes, and the address of the first one. -/
structure Chain (ν : Type) where
  heap : Nat → Option (Node ν)
  head : Option Nat

/-- A place that holds a link. -/
inductive Slot where
  | head
  | next (address : Nat)
  deriving DecidableEq

variable {ν : Type}

namespace Chain

def set (chain : Chain ν) (address : Nat) (node : Node ν) : Chain ν :=
  { chain with heap := Function.update chain.heap address (some node) }

def free (chain : Chain ν) (address : Nat) : Chain ν :=
  { chain with heap := Function.update chain.heap address none }

def store (chain : Chain ν) (slot : Slot) (target : Option Nat) : Option (Chain ν) :=
  match slot with
  | .head => some { chain with head := target }
  | .next address => do
    let node ← chain.heap address
    return chain.set address { node with next := target }

/-- Follows the links to the last node; `rounds` bounds the nodes passed. -/
def lastFrom (chain : Chain ν) : (rounds : Nat) → (address : Nat) → Option Nat
  | 0, _ => none
  | rounds + 1, address => do
    let node ← chain.heap address
    match node.next with
    | none => return address
    | some next => chain.lastFrom rounds next

/-- From the link `first` come these nodes, and then the link `last`. -/
def Segment (chain : Chain ν) : Option Nat → List (Nat × ν) → Option Nat → Prop
  | first, [], last => first = last
  | first, (address, value) :: rest, last =>
    first = some address ∧
      ∃ next, chain.heap address = some ⟨value, next⟩ ∧ chain.Segment next rest last

def addresses (list : List (Nat × ν)) : List Nat := list.map Prod.fst

structure Holds (chain : Chain ν) (list : List (Nat × ν)) : Prop where
  links : chain.Segment chain.head list none
  nodup : (addresses list).Nodup

@[simp] theorem addresses_nil : addresses ([] : List (Nat × ν)) = [] := rfl

@[simp] theorem addresses_cons (node : Nat × ν) (list : List (Nat × ν)) :
    addresses (node :: list) = node.1 :: addresses list :=
  rfl

@[simp] theorem addresses_append (first second : List (Nat × ν)) :
    addresses (first ++ second) = addresses first ++ addresses second :=
  List.map_append

@[simp] theorem set_head (chain : Chain ν) (address : Nat) (node : Node ν) :
    (chain.set address node).head = chain.head :=
  rfl

@[simp] theorem free_head (chain : Chain ν) (address : Nat) :
    (chain.free address).head = chain.head :=
  rfl

@[simp] theorem set_heap_self (chain : Chain ν) (address : Nat) (node : Node ν) :
    (chain.set address node).heap address = some node := by
  simp [set]

theorem set_heap_other (chain : Chain ν) {address other : Nat} (differs : other ≠ address)
    (node : Node ν) : (chain.set address node).heap other = chain.heap other := by
  simp [set, differs]

@[simp] theorem free_heap_self (chain : Chain ν) (address : Nat) :
    (chain.free address).heap address = none := by
  simp [free]

theorem free_heap_other (chain : Chain ν) {address other : Nat} (differs : other ≠ address) :
    (chain.free address).heap other = chain.heap other := by
  simp [free, differs]

theorem free_heap_some {chain : Chain ν} {address other : Nat} {node : Node ν} :
    (chain.free address).heap other = some node ↔
      other ≠ address ∧ chain.heap other = some node := by
  by_cases same : other = address
  · simp [same]
  · simp [same, free_heap_other chain same]

/-! ## Segments -/

section Segments

variable {chain other : Chain ν} {first last : Option Nat} {list front back : List (Nat × ν)}

theorem segment_append :
    chain.Segment first (front ++ back) last ↔
      ∃ middle, chain.Segment first front middle ∧ chain.Segment middle back last := by
  induction front generalizing first with
  | nil => simp [Segment]
  | cons node front ih =>
    obtain ⟨address, value⟩ := node
    simp only [List.cons_append, Segment, ih]
    constructor
    · rintro ⟨same, next, found, middle, before, after⟩
      exact ⟨middle, ⟨same, next, found, before⟩, after⟩
    · rintro ⟨middle, ⟨same, next, found, before⟩, after⟩
      exact ⟨same, next, found, middle, before, after⟩

theorem Segment.frame (segment : chain.Segment first list last)
    (same : ∀ address ∈ addresses list, other.heap address = chain.heap address) :
    other.Segment first list last := by
  induction list generalizing first with
  | nil => exact segment
  | cons node rest ih =>
    obtain ⟨rfl, next, found, later⟩ := segment
    refine ⟨rfl, next, ?_, ih later fun address member => same address (.tail _ member)⟩
    rw [same _ (.head _), found]

theorem Segment.set (segment : chain.Segment first list last) {address : Nat}
    (outside : address ∉ addresses list) (node : Node ν) :
    (chain.set address node).Segment first list last :=
  segment.frame fun _ member =>
    set_heap_other chain (by rintro rfl; exact outside member) node

theorem Segment.free (segment : chain.Segment first list last) {address : Nat}
    (outside : address ∉ addresses list) : (chain.free address).Segment first list last :=
  segment.frame fun _ member => free_heap_other chain (by rintro rfl; exact outside member)

theorem Segment.find (segment : chain.Segment first list last) {address : Nat} {value : ν}
    (member : (address, value) ∈ list) : ∃ next, chain.heap address = some ⟨value, next⟩ := by
  induction list generalizing first with
  | nil => cases member
  | cons node rest ih =>
    obtain ⟨_, next, found, later⟩ := segment
    rcases List.mem_cons.mp member with rfl | member
    · exact ⟨next, found⟩
    · exact ih later member

theorem Segment.unique {second : List (Nat × ν)} (segment : chain.Segment first list none)
    (segment' : chain.Segment first second none) : list = second := by
  induction list generalizing first second with
  | nil =>
    cases second with
    | nil => rfl
    | cons node rest => cases segment.symm.trans segment'.1
  | cons node rest ih =>
    obtain ⟨address, value⟩ := node
    obtain ⟨same, next, found, later⟩ := segment
    cases second with
    | nil => cases same.symm.trans segment'
    | cons node' rest' =>
      obtain ⟨address', value'⟩ := node'
      obtain ⟨same', next', found', later'⟩ := segment'
      cases same.symm.trans same'
      cases found.symm.trans found'
      rw [ih later later']

theorem Segment.first_eq (segment : chain.Segment first list last) :
    first = ((addresses list).head?).or last := by
  cases list with
  | nil => exact segment
  | cons node rest => exact segment.1

theorem Segment.redirect {address : Nat} {value : ν}
    (segment : chain.Segment first (front ++ [(address, value)]) last)
    (outside : address ∉ addresses front) (target : Option Nat) :
    (chain.set address ⟨value, target⟩).Segment first (front ++ [(address, value)]) target := by
  obtain ⟨middle, before, here, _⟩ := segment_append.mp segment
  exact segment_append.mpr ⟨middle, before.set outside _, here, target, set_heap_self _ _ _, rfl⟩

theorem Segment.lastFrom {start address : Nat} {value : ν} {rounds : Nat}
    (segment : chain.Segment (some start) (front ++ [(address, value)]) none)
    (enough : front.length < rounds) : chain.lastFrom rounds start = some address := by
  induction front generalizing start rounds with
  | nil =>
    obtain ⟨same, next, found, rfl⟩ := segment
    cases same
    cases rounds with
    | zero => exact absurd enough (Nat.not_lt_zero _)
    | succ rounds => simp [Chain.lastFrom, found]
  | cons node front ih =>
    obtain ⟨same, next, found, later⟩ := segment
    cases same
    cases rounds with
    | zero => exact absurd enough (Nat.not_lt_zero _)
    | succ rounds =>
      have more := later.first_eq
      cases next with
      | none => cases front <;> simp at more
      | some next =>
        simp only [Chain.lastFrom, found, Option.bind_eq_bind, Option.bind_some]
        exact ih later (Nat.lt_of_succ_lt_succ enough)

end Segments

/-! ## Operations on the list that a chain holds -/

/-- The place that holds the link behind these nodes. -/
def slotBehind (before : List (Nat × ν)) : Slot :=
  match before.getLast? with
  | none => .head
  | some node => .next node.1

section Operations

variable {chain : Chain ν} {before after list : List (Nat × ν)} {address : Nat} {value : ν}

theorem Holds.head_eq (holds : chain.Holds list) : chain.head = (addresses list).head? := by
  have first := holds.links.first_eq
  rwa [Option.or_none] at first

theorem Holds.node (holds : chain.Holds (before ++ (address, value) :: after)) :
    chain.heap address = some ⟨value, (addresses after).head?⟩ := by
  obtain ⟨_, _, _, next, found, later⟩ := segment_append.mp holds.links
  have first := later.first_eq
  rw [Option.or_none] at first
  rw [found, first]

theorem Holds.outside (holds : chain.Holds (before ++ (address, value) :: after)) :
    address ∉ addresses before ∧ address ∉ addresses after := by
  have nodup := holds.nodup
  rw [addresses_append, addresses_cons, List.nodup_middle] at nodup
  have fresh := (List.nodup_cons.mp nodup).1
  rw [List.mem_append, not_or] at fresh
  exact fresh

theorem Holds.put (holds : chain.Holds (before ++ (address, value) :: after)) (next : ν) :
    (chain.set address ⟨next, (addresses after).head?⟩).Holds
      (before ++ (address, next) :: after) := by
  obtain ⟨front, back⟩ := holds.outside
  have found := holds.node
  obtain ⟨middle, links, here, link, same, later⟩ := segment_append.mp holds.links
  have first := later.first_eq
  rw [Option.or_none] at first
  refine ⟨segment_append.mpr ⟨middle, links.set front _, here, link, ?_, later.set back _⟩, ?_⟩
  · rw [set_heap_self, first]
  · simpa using holds.nodup

theorem Holds.push (holds : chain.Holds list) (fresh : address ∉ addresses list) (value : ν) :
    ({ chain.set address ⟨value, chain.head⟩ with head := some address } : Chain ν).Holds
      ((address, value) :: list) := by
  refine ⟨⟨rfl, chain.head, set_heap_self _ _ _, ?_⟩, ?_⟩
  · exact (holds.links.set fresh _).frame fun _ _ => rfl
  · exact List.nodup_cons.mpr ⟨fresh, holds.nodup⟩

theorem Holds.unlink (holds : chain.Holds (before ++ (address, value) :: after)) :
    ∃ rest, (chain.free address).store (slotBehind before) (addresses after).head? = some rest ∧
      rest.Holds (before ++ after) ∧ rest.heap address = none ∧
      ∀ other, other ∉ addresses before → other ≠ address → rest.heap other = chain.heap other := by
  obtain ⟨front, back⟩ := holds.outside
  obtain ⟨middle, links, here, next, _, later⟩ := segment_append.mp holds.links
  have first := later.first_eq
  rw [Option.or_none] at first
  have nodup : (addresses (before ++ after)).Nodup := by
    have nodup := holds.nodup
    rw [addresses_append, addresses_cons, List.nodup_middle] at nodup
    rw [addresses_append]
    exact (List.nodup_cons.mp nodup).2
  have rest := later.free back
  rw [first] at rest
  rcases List.eq_nil_or_concat before with rfl | ⟨before, node, rfl⟩
  · refine ⟨_, rfl, ⟨rest.frame fun _ _ => rfl, nodup⟩, free_heap_self _ _, ?_⟩
    intro other _ differs
    exact free_heap_other chain differs
  · obtain ⟨place, kept⟩ := node
    rw [List.concat_eq_append] at *
    have slot : slotBehind (before ++ [(place, kept)]) = .next place := by
      simp [slotBehind]
    have differs : place ≠ address := by
      rintro rfl
      exact front (by simp)
    have inside := (segment_append.mp links)
    obtain ⟨inner, links', here', link, found, _⟩ := inside
    have alive : (chain.free address).heap place = some ⟨kept, link⟩ := by
      rw [free_heap_other chain differs, found]
    rw [addresses_append, List.nodup_append] at nodup
    obtain ⟨nodupFront, nodupBack, apart⟩ := nodup
    have lastFresh : place ∉ addresses before := by
      rw [addresses_append, List.nodup_append] at nodupFront
      intro member
      exact nodupFront.2.2 place member place (by simp) rfl
    have behindFresh : place ∉ addresses after := fun member =>
      apart place (by simp) place member rfl
    refine ⟨(chain.free address).set place ⟨kept, (addresses after).head?⟩, ?_, ⟨?_, ?_⟩, ?_, ?_⟩
    · rw [slot, store, alive]
      rfl
    · apply segment_append.mpr
      refine ⟨_, (links.free front).redirect lastFresh _, rest.set behindFresh _⟩
    · rw [addresses_append, List.nodup_append]
      exact ⟨nodupFront, nodupBack, apart⟩
    · rw [set_heap_other _ differs.symm, free_heap_self]
    · intro other outside differs'
      have apart : other ≠ place := by
        rintro rfl
        exact outside (by simp)
      rw [set_heap_other _ apart, free_heap_other _ differs']

theorem Holds.rotate {place last : Nat} {moved kept : ν} {front : List (Nat × ν)} {link : Option Nat}
    (holds : chain.Holds ((place, moved) :: (front ++ [(last, kept)])))
    (next : link = (addresses (front ++ [(last, kept)])).head?) :
    ({ (chain.set place ⟨moved, none⟩).set last ⟨kept, some place⟩ with head := link } :
      Chain ν).Holds (front ++ [(last, kept)] ++ [(place, moved)]) := by
  subst next
  obtain ⟨here, link, found, later⟩ := holds.links
  have first := later.first_eq
  rw [Option.or_none] at first
  have nodup := holds.nodup
  rw [addresses_cons, List.nodup_cons] at nodup
  obtain ⟨fresh, nodup⟩ := nodup
  have differs : place ≠ last := by
    rintro rfl
    exact fresh (by simp)
  have lastFresh : last ∉ addresses front := by
    rw [addresses_append, List.nodup_append] at nodup
    intro member
    exact nodup.2.2 last member last (by simp) rfl
  refine ⟨segment_append.mpr ⟨some place, ?_, rfl, none, ?_, rfl⟩, ?_⟩
  · rw [← first]
    exact ((later.set fresh ⟨moved, none⟩).redirect lastFresh (some place)).frame fun _ _ => rfl
  · exact (set_heap_other _ differs _).trans (set_heap_self _ _ _)
  · rw [addresses_append, List.nodup_append]
    refine ⟨nodup, by simp, ?_⟩
    intro address member other same
    rw [addresses_cons, addresses_nil, List.mem_singleton] at same
    rintro rfl
    exact fresh (same ▸ member)

end Operations

end Chain

end Lich.Foundation
