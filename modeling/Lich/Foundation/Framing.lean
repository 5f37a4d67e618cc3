import Mathlib.Data.List.Infix

/-! Incremental decoding of a byte stream into items.

A decoder looks at the front of what has been received and finds one whole
item, finds that more input is needed, or finds that the stream is corrupt.
The laws say that a verdict other than "more input" is final: input that
arrives later cannot change it. From them, how a stream is cut into reads does
not matter to the items it yields.
-/

set_option autoImplicit false

namespace Lich.Foundation

variable {α β : Type}

/-- What a decoder finds at the front of the input received so far. -/
inductive Frame (α β : Type) where
  | short
  | corrupt
  | whole (item : β) (rest : List α)

structure Decoder (α β : Type) where
  next : List α → Frame α β
  consumes {input rest : List α} {item : β} :
    next input = .whole item rest → ∃ used, used ≠ [] ∧ input = used ++ rest
  whole_append {input rest : List α} {item : β} (more : List α) :
    next input = .whole item rest → next (input ++ more) = .whole item (rest ++ more)
  corrupt_append {input : List α} (more : List α) :
    next input = .corrupt → next (input ++ more) = .corrupt

namespace Decoder

variable (decoder : Decoder α β)

theorem next_shrinks {input rest : List α} {item : β}
    (found : decoder.next input = .whole item rest) : rest.length < input.length := by
  obtain ⟨used, nonempty, same⟩ := decoder.consumes found
  have positive := List.length_pos_of_ne_nil nonempty
  simp only [same, List.length_append]
  omega

theorem next_nil_ne_whole (item : β) (rest : List α) : decoder.next [] ≠ .whole item rest := by
  intro found
  have shrinks := decoder.next_shrinks found
  simp at shrinks

/-- The whole items at the front of an input, and what is left when the next
one is not whole. -/
def drain (input : List α) : List β × List α :=
  match _found : decoder.next input with
  | .whole item rest => (item :: (drain rest).1, (drain rest).2)
  | .short => ([], input)
  | .corrupt => ([], input)
  termination_by input.length
  decreasing_by all_goals exact decoder.next_shrinks _found

theorem drain_whole {input rest : List α} {item : β}
    (found : decoder.next input = .whole item rest) :
    decoder.drain input = (item :: (decoder.drain rest).1, (decoder.drain rest).2) := by
  rw [drain]
  split
  · next other tail same =>
    rw [found] at same
    cases same
    rfl
  · next same => rw [found] at same; cases same
  · next same => rw [found] at same; cases same

theorem drain_stuck {input : List α} (stuck : ∀ item rest, decoder.next input ≠ .whole item rest) :
    decoder.drain input = ([], input) := by
  rw [drain]
  split
  · next item rest same => exact absurd same (stuck item rest)
  · rfl
  · rfl

theorem drain_short {input : List α} (found : decoder.next input = .short) :
    decoder.drain input = ([], input) :=
  decoder.drain_stuck (by simp [found])

theorem drain_corrupt {input : List α} (found : decoder.next input = .corrupt) :
    decoder.drain input = ([], input) :=
  decoder.drain_stuck (by simp [found])

@[simp] theorem drain_nil : decoder.drain [] = ([], []) :=
  decoder.drain_stuck decoder.next_nil_ne_whole

theorem drain_induction {motive : List α → Prop}
    (stuck : ∀ input, (∀ item rest, decoder.next input ≠ .whole item rest) → motive input)
    (whole : ∀ input item rest, decoder.next input = .whole item rest → motive rest → motive input)
    (input : List α) : motive input := by
  induction size : input.length using Nat.strongRecOn generalizing input with
  | ind bound ih =>
    cases found : decoder.next input with
    | whole item rest =>
      exact whole input item rest found (ih _ (size ▸ decoder.next_shrinks found) rest rfl)
    | short => exact stuck input (by simp [found])
    | corrupt => exact stuck input (by simp [found])

theorem drain_rest_stuck (input : List α) (item : β) (rest : List α) :
    decoder.next (decoder.drain input).2 ≠ .whole item rest := by
  induction input using decoder.drain_induction with
  | stuck input none => rw [decoder.drain_stuck none]; exact none item rest
  | whole input first tail found ih => rw [decoder.drain_whole found]; exact ih

theorem drain_suffix (input : List α) : (decoder.drain input).2 <:+ input := by
  induction input using decoder.drain_induction with
  | stuck input none => rw [decoder.drain_stuck none]
  | whole input first tail found ih =>
    obtain ⟨used, _, same⟩ := decoder.consumes found
    rw [decoder.drain_whole found]
    exact ih.trans ⟨used, same.symm⟩

/-- Decoding a concatenation is decoding the first part, then what it leaves
followed by the second. -/
theorem drain_append (first second : List α) :
    decoder.drain (first ++ second) =
      ((decoder.drain first).1 ++ (decoder.drain ((decoder.drain first).2 ++ second)).1,
        (decoder.drain ((decoder.drain first).2 ++ second)).2) := by
  induction first using decoder.drain_induction with
  | stuck input none => simp [decoder.drain_stuck none]
  | whole input item rest found ih =>
    rw [decoder.drain_whole found, decoder.drain_whole (decoder.whole_append second found), ih]
    simp

theorem drain_append_corrupt {first : List α} (second : List α)
    (corrupt : decoder.next (decoder.drain first).2 = .corrupt) :
    decoder.drain (first ++ second) = ((decoder.drain first).1, (decoder.drain first).2 ++ second) := by
  have later := decoder.corrupt_append second corrupt
  have stuck : ∀ item rest,
      decoder.next ((decoder.drain first).2 ++ second) ≠ .whole item rest := by
    intro item rest found
    rw [later] at found
    cases found
  rw [drain_append, decoder.drain_stuck stuck, List.append_nil]

/-- Feed reads one after another, keeping the undecoded rest between them. -/
def feed : List α → List (List α) → List β × List α
  | kept, [] => ([], kept)
  | kept, read :: reads =>
    let now := decoder.drain (kept ++ read)
    (now.1 ++ (feed now.2 reads).1, (feed now.2 reads).2)

theorem feed_eq_drain (kept : List α) (reads : List (List α))
    (stuck : ∀ item rest, decoder.next kept ≠ .whole item rest) :
    decoder.feed kept reads = decoder.drain (kept ++ reads.flatten) := by
  induction reads generalizing kept with
  | nil => simp [feed, decoder.drain_stuck stuck]
  | cons read reads ih =>
    rw [feed, ih _ (decoder.drain_rest_stuck (kept ++ read)), List.flatten_cons,
      ← List.append_assoc, decoder.drain_append (kept ++ read)]

/-- However a stream is cut into reads, feeding it yields what decoding it
whole does. -/
theorem feed_nil_eq_drain (reads : List (List α)) :
    decoder.feed [] reads = decoder.drain reads.flatten :=
  decoder.feed_eq_drain [] reads decoder.next_nil_ne_whole

/-! An encoder that the decoder inverts. -/

variable {decoder} {encode : β → List α} {items : List β}

def Inverts (decoder : Decoder α β) (encode : β → List α) (item : β) : Prop :=
  ∀ more, decoder.next (encode item ++ more) = .whole item more

theorem drain_encode_append (inverts : ∀ item ∈ items, decoder.Inverts encode item)
    (more : List α) :
    decoder.drain (items.flatMap encode ++ more) =
      (items ++ (decoder.drain more).1, (decoder.drain more).2) := by
  induction items with
  | nil => simp
  | cons item items ih =>
    have found := inverts item (by simp) (items.flatMap encode ++ more)
    rw [List.flatMap_cons, List.append_assoc, decoder.drain_whole found,
      ih fun other member => inverts other (by simp [member])]
    simp

theorem drain_encode (inverts : ∀ item ∈ items, decoder.Inverts encode item) :
    decoder.drain (items.flatMap encode) = (items, []) := by
  simpa using drain_encode_append inverts []

/-- A stream that starts the encoding of some items decodes to the items it
holds whole, and keeps less than the next one. -/
theorem drain_encode_of_append_eq (inverts : ∀ item ∈ items, decoder.Inverts encode item)
    {front back : List α} (same : front ++ back = items.flatMap encode) :
    ∃ done left, items = done ++ left ∧
      decoder.drain front = (done, (decoder.drain front).2) ∧
      front = done.flatMap encode ++ (decoder.drain front).2 ∧
      ∀ item later, left = item :: later →
        (decoder.drain front).2.length < (encode item).length := by
  induction items generalizing front with
  | nil =>
    have empty : front = [] := (List.append_eq_nil_iff.mp same).1
    subst empty
    exact ⟨[], [], rfl, by simp, by simp, by simp⟩
  | cons item items ih =>
    have valid : ∀ other ∈ items, decoder.Inverts encode other :=
      fun other member => inverts other (by simp [member])
    rw [List.flatMap_cons] at same
    by_cases fits : (encode item).length ≤ front.length
    · -- the first item lies whole in the front
      obtain ⟨tail, split⟩ : ∃ tail, front = encode item ++ tail := by
        have start : encode item <+: front ++ back := ⟨_, same.symm⟩
        obtain ⟨tail, split⟩ := List.prefix_of_prefix_length_le start (List.prefix_append _ _) fits
        exact ⟨tail, split.symm⟩
      subst split
      have rest : tail ++ back = items.flatMap encode := by
        rw [List.append_assoc] at same
        exact List.append_cancel_left same
      obtain ⟨done, left, parts, decoded, front, bound⟩ := ih valid rest
      have found := inverts item (by simp) tail
      refine ⟨item :: done, left, by simp [parts], ?_, ?_, ?_⟩
      · rw [decoder.drain_whole found]
        exact congrArg (fun pair => (item :: pair.1, pair.2)) decoded
      · rw [decoder.drain_whole found, List.flatMap_cons, List.append_assoc]
        exact congrArg (encode item ++ ·) front
      · rw [decoder.drain_whole found]
        exact bound
    · -- the front stops inside the first item, so nothing is whole yet
      have stuck : ∀ other rest, decoder.next front ≠ .whole other rest := by
        intro other rest found
        obtain ⟨used, _, split⟩ := decoder.consumes found
        have whole := decoder.whole_append back found
        have first := inverts item (by simp) (items.flatMap encode)
        rw [same, first] at whole
        have tails : (items.flatMap encode).length = (rest ++ back).length := by
          injection whole with _ tails
          rw [tails]
        have sizes := congrArg List.length same
        simp only [split, List.length_append] at sizes tails fits
        omega
      refine ⟨[], item :: items, rfl, ?_, ?_, ?_⟩
      · simp [decoder.drain_stuck stuck]
      · simp [decoder.drain_stuck stuck]
      · intro other later split
        cases split
        rw [decoder.drain_stuck stuck]
        exact Nat.lt_of_not_le fits

end Decoder

end Lich.Foundation
