import Mathlib.Data.List.DropRight
import PlotQuery.Proofs.UnionValue

/-! The items of values with several members. Uniting two values or putting one after the other does
to their items what it does to the values. -/
namespace PlotQuery

namespace Text

theorem dropEndWhile_eq_rdropWhile (p : Char → Bool) (cs : List Char) :
    dropEndWhile p cs = cs.rdropWhile p := rfl

/-- Dropping from the end of two parts reaches the first one only if the second is dropped as a
whole. -/
theorem dropEndWhile_append (p : Char → Bool) (before after : List Char) :
    dropEndWhile p (before ++ after) =
      if dropEndWhile p after = [] then dropEndWhile p before
      else before ++ dropEndWhile p after := by
  simp only [dropEndWhile, List.reverse_append, List.dropWhile_append, List.isEmpty_iff,
    List.reverse_eq_nil_iff]
  split <;> simp

theorem trim_eq_nil_iff {cs : List Char} : trim cs = [] ↔ allBlank cs = true := by
  rw [trim, trimEnd, dropEndWhile_eq_rdropWhile, List.rdropWhile_eq_nil_iff, allBlank,
    List.all_eq_true]
  constructor
  · intro h c hc
    rw [← List.takeWhile_append_dropWhile (p := isBlank) (l := cs), List.mem_append] at hc
    exact hc.elim (List.all_eq_true.1 List.all_takeWhile c) (h c)
  · exact fun h c hc => h c ((List.dropWhile_suffix _).subset hc)

theorem trim_of_forall {cs : List Char} (h : ∀ c ∈ cs, isBlank c = false) : trim cs = cs := by
  have hFront : cs.dropWhile isBlank = cs :=
    List.dropWhile_eq_self_iff.2 fun hl => by simp [h _ (List.getElem_mem hl)]
  rw [trim, hFront, trimEnd, dropEndWhile_eq_rdropWhile, List.rdropWhile_eq_self_iff]
  exact fun hNil => by simp [h _ (List.getLast_mem hNil)]

/-- A character of a piece is one of the text. No character is made up by cutting. -/
theorem mem_of_mem_splitOnP {p : Char → Bool} {cs piece : List Char} {c : Char}
    (hPiece : piece ∈ cs.splitOnP p) (hc : c ∈ piece) : c ∈ cs := by
  induction cs generalizing piece with
  | nil =>
      rw [List.splitOnP_nil, List.mem_singleton] at hPiece
      exact hPiece ▸ hc
  | cons d cs ih =>
      rw [List.splitOnP_cons_eq_if_modifyHead] at hPiece
      cases hPieces : cs.splitOnP p with
      | nil => exact absurd hPieces (List.splitOnP_ne_nil p cs)
      | cons first rest =>
          rw [hPieces] at hPiece ih
          split at hPiece
          · rcases List.mem_cons.1 hPiece with rfl | hPiece
            · cases hc
            · exact List.mem_cons_of_mem d (ih hPiece hc)
          · rw [List.modifyHead_cons, List.mem_cons] at hPiece
            rcases hPiece with rfl | hPiece
            · rcases List.mem_cons.1 hc with rfl | hc
              · exact List.mem_cons_self
              · exact List.mem_cons_of_mem d (ih List.mem_cons_self hc)
            · exact List.mem_cons_of_mem d (ih (List.mem_cons_of_mem first hPiece) hc)

theorem mem_of_mem_trim {cs : List Char} {c : Char} (hc : c ∈ trim cs) : c ∈ cs := by
  rw [trim, trimEnd, dropEndWhile_eq_rdropWhile] at hc
  exact (List.dropWhile_suffix _).subset ((List.rdropWhile_prefix _ _).subset hc)

theorem trim_trim (cs : List Char) : trim (trim cs) = trim cs := by
  have hFront : (trim cs).dropWhile isBlank = trim cs := by
    refine List.dropWhile_eq_self_iff.2 fun hPos hBlank => ?_
    have hPrefix : trim cs <+: cs.dropWhile isBlank := List.rdropWhile_prefix isBlank _
    rw [hPrefix.getElem hPos] at hBlank
    exact List.dropWhile_get_zero_not isBlank cs (Nat.lt_of_lt_of_le hPos hPrefix.length_le) hBlank
  calc trim (trim cs) = trimEnd (trim cs) := by rw [trim, hFront]
    _ = trim cs := List.rdropWhile_idempotent isBlank _

variable {separator : Char}

/-- The items of a text are its pieces without blanks at their ends, less the empty ones. -/
theorem items_eq_filter_split (text : String) :
    items separator text = ((split separator text).map trimmed).filter (· ≠ "") := by
  have hEmpty (cs : List Char) : (!cs.isEmpty) = decide (String.ofList cs ≠ "") := by
    cases cs <;> simp
  simp only [items, split, List.map_map, List.filter_map, hEmpty]
  simp [Function.comp_def, trimmed]

theorem mem_items_iff {text item : String} :
    item ∈ items separator text ↔
      item ≠ "" ∧ ∃ piece ∈ split separator text, trimmed piece = item := by
  rw [items_eq_filter_split, List.mem_filter, List.mem_map, decide_eq_true_eq, and_comm]

/-- A text without the separator has one item at most. It has none if it is blank. -/
theorem items_of_not_mem {text : String} (h : separator ∉ text.toList) :
    items separator text = if allBlank text.toList then [] else [trimmed text] := by
  rw [items, List.splitOn_eq_singleton h, List.map_singleton]
  by_cases hBlank : allBlank text.toList
  · rw [if_pos hBlank, trim_eq_nil_iff.2 hBlank]
    rfl
  · have hSome : trim text.toList ≠ [] := fun hNil => hBlank (trim_eq_nil_iff.1 hNil)
    rw [if_neg hBlank, List.filter_cons_of_pos (by simpa using hSome)]
    rfl

/-- Two texts with the separator between them have the items of both, one after the other. -/
theorem items_append_separator (a b : String) :
    items separator (a ++ String.singleton separator ++ b) =
      items separator a ++ items separator b := by
  simp only [items, String.toList_append, String.toList_singleton, List.append_assoc,
    List.singleton_append, List.splitOn_append_cons_self, List.map_append, List.filter_append]

theorem items_join (pieces : List String) :
    items separator (join (String.singleton separator) pieces) =
      pieces.flatMap (items separator) := by
  induction pieces with
  | nil => simp [join, items, trim, trimEnd, dropEndWhile]
  | cons piece pieces ih =>
      cases pieces with
      | nil => simp [join]
      | cons next pieces =>
          rw [join, items_append_separator, ih]
          · rfl
          · exact List.cons_ne_nil next pieces

/-- A text that is an item of itself, as it has no separator and no blank at either end. So a text
that is an item can be listed and read again. -/
theorem items_subset_singleton {text : String} (hSeparator : separator ∉ text.toList)
    (hTrim : trimmed text = text) : ∀ item ∈ items separator text, item = text := by
  rw [items_of_not_mem hSeparator]
  split
  · simp
  · simp [hTrim]

/-- A text that can be an item: not empty, without the separator, and trimmed. -/
structure IsItem (separator : Char) (text : String) : Prop where
  nonempty : text ≠ ""
  plain : separator ∉ text.toList
  trimmed : Text.trimmed text = text

/-- Every item of a text is an item of itself, so listing once more changes nothing. -/
theorem isItem_of_mem_items {text item : String} (h : item ∈ items separator text) :
    IsItem separator item := by
  obtain ⟨hSome, piece, hPiece, rfl⟩ := mem_items_iff.1 h
  refine ⟨hSome, fun hMem => ?_, ?_⟩
  · obtain ⟨cs, hcs, rfl⟩ := List.mem_map.1 hPiece
    rw [Text.trimmed, String.toList_ofList, String.toList_ofList] at hMem
    exact not_mem_of_mem_splitOn hcs (mem_of_mem_trim hMem)
  · rw [Text.trimmed, Text.trimmed, String.toList_ofList, trim_trim]

theorem IsItem.items_eq {text : String} (h : IsItem separator text) :
    items separator text = [text] := by
  rw [items_of_not_mem h.plain, h.trimmed, if_neg]
  intro hBlank
  refine h.nonempty ?_
  rw [← h.trimmed, Text.trimmed, trim_eq_nil_iff.2 hBlank]

/-- A text of one word: some characters, none of them blank and none the separator. -/
def IsWord (separator : Char) (text : String) : Prop :=
  text.toList ≠ [] ∧ ∀ c ∈ text.toList, c ≠ separator ∧ isBlank c = false

theorem IsWord.isItem {text : String} (h : IsWord separator text) : IsItem separator text where
  nonempty hEmpty := h.1 (by rw [hEmpty]; rfl)
  plain hMem := (h.2 separator hMem).1 rfl
  trimmed := by
    rw [Text.trimmed, trim_of_forall fun c hc => (h.2 c hc).2, String.ofList_toList]

theorem items_of_isWord {text : String} (h : IsWord separator text) :
    items separator text = [text] :=
  h.isItem.items_eq

/-- Items come back when they are written as one text. This is how lists of names are kept under a
key. -/
theorem items_join_of_isItem {pieces : List String}
    (h : ∀ piece ∈ pieces, IsItem separator piece) :
    items separator (join (String.singleton separator) pieces) = pieces := by
  rw [items_join, List.flatMap_congr fun piece hPiece => (h piece hPiece).items_eq,
    List.flatMap_singleton']

end Text

namespace Semantics

/-- Values that are put one after the other have the items of both. -/
theorem items_concatValue (a b : String) :
    Text.items listSeparator (concatValue a b) =
      Text.items listSeparator a ++ Text.items listSeparator b :=
  Text.items_append_separator a b

/-- Values that are united have the items of both, though each once and not always in this
order. -/
theorem mem_items_unionValue {a b item : String} :
    item ∈ Text.items listSeparator (unionValue a b) ↔
      item ∈ Text.items listSeparator a ∨ item ∈ Text.items listSeparator b := by
  simp only [Text.mem_items_iff, split_unionValue, List.mem_eraseDups, List.mem_append,
    or_and_right, exists_or, and_or_left]

end Semantics

end PlotQuery
