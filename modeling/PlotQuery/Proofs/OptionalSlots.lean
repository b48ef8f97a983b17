import Mathlib.Data.Bool.Count
import PlotQuery.Proofs.Expansions

/-! The choices of the slots of an alternative. Every choice that keeps what has to be kept is made
once, in the order in which a slot is first absent and then present, and the first slot changes last.
A reference follows the slot that it is written for. -/
namespace PlotQuery

/-- What can be done with a slot: leave it out, if it is optional, or keep it. -/
def Slot.choices (slot : Slot) : List Bool :=
  if slot.optional then [false, true] else [true]

namespace Production

/-- A choice for each slot that leaves out none but optional ones. -/
def KeepsRequired (slots : List Slot) (mask : List Bool) : Prop :=
  List.Forall₂ (fun slot keeps => keeps = true ∨ slot.optional = true) slots mask

/-- The slots that are present, each with its position in the alternative. -/
def kept (slots : List Slot) (mask : List Bool) : List (Slot × Nat) :=
  ((slots.zipIdx.zip mask).filter Prod.snd).map Prod.fst

variable {slots : List Slot} {mask : List Bool}

theorem mem_choices_iff {slot : Slot} {keeps : Bool} :
    keeps ∈ slot.choices ↔ keeps = true ∨ slot.optional = true := by
  unfold Slot.choices
  cases slot.optional <;> cases keeps <;> decide

theorem expansions_cons (slot : Slot) (slots : List Slot) :
    expansions (slot :: slots) =
      slot.choices.flatMap fun keeps => (expansions slots).map (keeps :: ·) :=
  rfl

/-- The choices of slots are those that keep all slots which are not optional. -/
theorem mem_expansions_iff : mask ∈ expansions slots ↔ KeepsRequired slots mask := by
  induction slots generalizing mask with
  | nil => simp [expansions, KeepsRequired]
  | cons slot slots ih =>
      rw [expansions_cons, KeepsRequired, List.forall₂_cons_left_iff]
      simp only [List.mem_flatMap, List.mem_map, mem_choices_iff, ih]
      constructor
      · rintro ⟨keeps, hKeeps, rest, hRest, rfl⟩
        exact ⟨keeps, rest, hKeeps, hRest, rfl⟩
      · rintro ⟨keeps, rest, hKeeps, hRest, rfl⟩
        exact ⟨keeps, hKeeps, rest, hRest, rfl⟩

/-- The choices stand in strict lexicographic order. Leaving a slot out comes before keeping
it. -/
theorem pairwise_expansions (slots : List Slot) : (expansions slots).Pairwise (· < ·) := by
  induction slots with
  | nil => exact List.pairwise_singleton _ _
  | cons slot slots ih =>
      have hRest (keeps : Bool) : ((expansions slots).map (keeps :: ·)).Pairwise (· < ·) :=
        List.pairwise_map.2 (ih.imp fun hLess => List.cons_lt_cons_iff.2 (.inr ⟨rfl, hLess⟩))
      have hFirst : slot.choices.Pairwise (· < ·) := by
        unfold Slot.choices
        cases slot.optional <;> decide
      -- Choices that agree on the first slot are ordered by the rest, all others by the first slot.
      rw [expansions_cons, List.pairwise_flatMap]
      refine ⟨fun keeps _ => hRest keeps, hFirst.imp fun hLess => ?_⟩
      simp only [List.mem_map]
      rintro _ ⟨first, -, rfl⟩ _ ⟨second, -, rfl⟩
      exact List.cons_lt_cons_iff.2 (.inl hLess)

/-- Each optional slot doubles the choices. A slot that is not optional leaves their number as it
is. -/
theorem length_expansions (slots : List Slot) :
    (expansions slots).length = 2 ^ slots.countP Slot.optional := by
  induction slots with
  | nil => rfl
  | cons slot slots ih =>
      rw [expansions_cons, List.length_flatMap, List.countP_cons, Slot.choices]
      cases hOptional : slot.optional with
      | false => simp [ih]
      | true =>
          simp [ih]
          omega

/-- A slot at the end of an alternative extends every choice that has been made before it. By
induction on the slots in front of it. -/
theorem expansions_concat (slots : List Slot) (slot : Slot) :
    expansions (slots ++ [slot]) =
      (expansions slots).flatMap fun mask => slot.choices.map fun keeps => mask ++ [keeps] := by
  induction slots with
  | nil =>
      rw [List.nil_append, expansions_cons, expansions, List.flatMap_singleton, List.map_eq_flatMap]
      rfl
  | cons first slots ih =>
      rw [List.cons_append, expansions_cons, expansions_cons, ih, List.flatMap_assoc]
      simp only [List.map_flatMap, List.flatMap_map, List.map_map, List.cons_append,
        Function.comp_def]

/-- Extend each choice by all that can be done with one more slot. -/
def grow (masks : List (List Bool)) (slot : Slot) : List (List Bool) :=
  masks.flatMap fun mask => slot.choices.map fun keeps => mask ++ [keeps]

/-- The choices grow slot by slot, as for a reader that goes through the slots from left to
right. -/
theorem foldl_grow (slots : List Slot) : slots.foldl grow [[]] = expansions slots := by
  induction slots using List.reverseRecOn with
  | nil => rfl
  | append_singleton slots slot ih => rw [List.foldl_concat, ih, expansions_concat, grow]

/-- A member that passes stands behind those before it that pass as well. So the place of a member
is counted, not searched. -/
theorem getElem?_filter_countP {α : Type} {p : α → Bool} {xs : List α} {i : Nat} {x : α}
    (h : xs[i]? = some x) (hPasses : p x = true) :
    (xs.filter p)[(xs.take i).countP p]? = some x := by
  induction xs generalizing i with
  | nil => cases h
  | cons y ys ih =>
      cases i with
      | zero =>
          obtain rfl : y = x := by simpa using h
          simp [hPasses]
      | succ i =>
          have hRest := ih (i := i) (by simpa using h)
          rw [List.take_succ_cons, List.countP_cons, List.filter_cons]
          split
          · rwa [List.getElem?_cons_succ]
          · rwa [Nat.add_zero]

/-- The slots before a position, less those of them that are left out, are those that are kept.
The subtraction is exact, as no more are left out than there are. -/
theorem countP_take_zip {α : Type} {xs : List α} {i : Nat} (hItem : i < xs.length)
    (hMask : i < mask.length) :
    ((xs.zip mask).take i).countP Prod.snd = i - (mask.take i).count false := by
  have hLengths : (mask.take i).length ≤ (xs.take i).length := by
    rw [List.length_take, List.length_take]
    omega
  have hKept : ((xs.zip mask).take i).map Prod.snd = mask.take i := by
    rw [List.zip_eq_zipWith, List.take_zipWith, ← List.zip_eq_zipWith, List.map_snd_zip hLengths]
  have hPasses : ((xs.zip mask).take i).countP Prod.snd = (mask.take i).count true := by
    rw [← hKept, List.count_eq_countP, List.countP_map]
    exact List.countP_congr fun pair _ => by simp
  have hCount := List.count_true_add_count_false (mask.take i)
  rw [List.length_take] at hCount
  omega

/-- The terms of a choice are those of the slots that are kept. -/
theorem present_eq_map_kept (slots : List Slot) (mask : List Bool) :
    present slots mask = (kept slots mask).map fun entry => entry.1.term := by
  rw [present, kept]
  conv_lhs => rw [← List.zipIdx_map_fst 0 slots]
  rw [List.zip_map_left, List.filter_map, List.map_map, List.map_map]
  rfl

/-- Counted among the slots that are kept, a slot is as far on as there are slots before it that
are kept. This is the place to which a reference has to be changed. -/
theorem getElem?_kept {slot : Slot} {index : Nat} (hSlot : slots[index]? = some slot)
    (hMask : mask[index]? = some true) :
    (kept slots mask)[index - (mask.take index).count false]? = some (slot, index) := by
  have hSlotBound := (List.getElem?_eq_some_iff.1 hSlot).1
  have hMaskBound := (List.getElem?_eq_some_iff.1 hMask).1
  have hPair : (slots.zipIdx.zip mask)[index]? = some ((slot, index), true) := by
    rw [List.getElem?_zip_eq_some, List.getElem?_zipIdx, hSlot, Nat.zero_add]
    exact ⟨rfl, hMask⟩
  have hPlace := getElem?_filter_countP (p := Prod.snd) hPair rfl
  rw [countP_take_zip (by rwa [List.length_zipIdx]) hMaskBound] at hPlace
  rw [kept, List.getElem?_map, hPlace]
  rfl

/-- A reference to a slot that is kept goes down by the number of slots left out before it. -/
theorem reindex_child (mask : List Bool) (key : String) (index : Nat) (property : String) :
    reindex mask ⟨key, .child index property⟩ =
      if mask[index]? = some true then
        some ⟨key, .child (index - (mask.take index).count false) property⟩
      else none := by
  cases hMask : mask[index]? with
  | none => simp [reindex, hMask]
  | some keeps => simp [reindex, hMask]

/-- The choices of slots are those that keep what has to be kept, each once and in lexicographic
order. For each of them an assignment of a text stays as it is, an assignment that refers to a
slot that is absent goes, and any other refers to the same slot by its place among those that are
kept. Nothing is asked of the slots, and there may be any number of them. -/
theorem expansions_and_reindex_exact (slots : List Slot) :
    (∀ mask, mask ∈ expansions slots ↔ KeepsRequired slots mask) ∧
    (expansions slots).Pairwise (· < ·) ∧
    (expansions slots).length = 2 ^ slots.countP Slot.optional ∧
    ∀ mask ∈ expansions slots, ∀ key : String,
      (∀ text, reindex mask ⟨key, .literal text⟩ = some ⟨key, .literal text⟩) ∧
      ∀ index property,
        (mask[index]? ≠ some true → reindex mask ⟨key, .child index property⟩ = none) ∧
        (mask[index]? = some true → ∃ slot place, slots[index]? = some slot ∧
          reindex mask ⟨key, .child index property⟩ = some ⟨key, .child place property⟩ ∧
          (kept slots mask)[place]? = some (slot, index) ∧
          (present slots mask)[place]? = some slot.term) := by
  refine ⟨fun mask => mem_expansions_iff, pairwise_expansions slots, length_expansions slots, ?_⟩
  intro mask hMask key
  refine ⟨fun text => rfl, fun index property => ⟨fun hAbsent => ?_, fun hPresent => ?_⟩⟩
  · rw [reindex_child, if_neg hAbsent]
  · have hLength : slots.length = mask.length := (mem_expansions_iff.1 hMask).length_eq
    have hBound : index < slots.length := hLength ▸ (List.getElem?_eq_some_iff.1 hPresent).1
    have hSlot : slots[index]? = some slots[index] := List.getElem?_eq_getElem hBound
    have hPlace := getElem?_kept hSlot hPresent
    refine ⟨slots[index], index - (mask.take index).count false, hSlot, ?_, hPlace, ?_⟩
    · rw [reindex_child, if_pos hPresent]
    · rw [present_eq_map_kept, List.getElem?_map, hPlace]
      rfl

/-- A word with an optional symbol on either side. -/
def rangeSlots : List Slot :=
  [⟨.nonterminal "RangeFrom", true⟩, ⟨.literal "bin", false⟩, ⟨.placeholder "$number", true⟩]

/-- Without its first slot, the reference to the third is one to the second of those that are kept. -/
theorem expansions_and_reindex_exact_rangeSlots :
    [false, true, true] ∈ expansions rangeSlots ∧
    reindex [false, true, true] ⟨"histobins", .child 0 "Value"⟩ = none ∧
    ∃ slot place, rangeSlots[2]? = some slot ∧
      reindex [false, true, true] ⟨"histobins", .child 2 "Value"⟩ =
        some ⟨"histobins", .child place "Value"⟩ ∧
      (kept rangeSlots [false, true, true])[place]? = some (slot, 2) ∧
      (present rangeSlots [false, true, true])[place]? = some slot.term := by
  have hMask : [false, true, true] ∈ expansions rangeSlots := by decide
  obtain ⟨-, -, -, hReindex⟩ := expansions_and_reindex_exact rangeSlots
  obtain ⟨-, hChild⟩ := hReindex _ hMask "histobins"
  exact ⟨hMask, (hChild 0 "Value").1 (by decide), (hChild 2 "Value").2 (by decide)⟩

end Production

end PlotQuery
