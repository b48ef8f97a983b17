import Mathlib.Data.List.Basic
import PlotQuery.Semantics.Merge

/-! Values with several members as lists. A united value is written as one text and taken apart
again when it is united once more, and nothing changes on the way. -/
namespace PlotQuery

namespace Text

theorem toList_join (separator : String) (pieces : List String) :
    (join separator pieces).toList = separator.toList.intercalate (pieces.map String.toList) := by
  induction pieces with
  | nil => rfl
  | cons piece pieces ih =>
      cases pieces with
      | nil => simp [join]
      | cons next pieces =>
          rw [join, String.toList_append, String.toList_append, ih]
          · simp only [List.map_cons, List.intercalate_cons_cons]
          · exact List.cons_ne_nil _ _

theorem not_mem_of_mem_splitOn {separator : Char} {cs piece : List Char}
    (h : piece ∈ cs.splitOn separator) : separator ∉ piece := by
  induction cs generalizing piece with
  | nil => simp_all
  | cons c cs ih =>
      rw [List.splitOn_cons_eq_if_modifyHead] at h
      cases hPieces : cs.splitOn separator with
      | nil => exact absurd hPieces (List.splitOn_ne_nil separator cs)
      | cons first rest =>
          rw [hPieces] at h ih
          split at h
          · rcases List.mem_cons.1 h with rfl | h
            · exact List.not_mem_nil
            · exact ih h
          · next hNot =>
            rw [List.modifyHead_cons, List.mem_cons] at h
            rcases h with rfl | h
            · have hFirst := ih List.mem_cons_self
              simp_all [Ne.symm]
            · exact ih (List.mem_cons_of_mem first h)

theorem split_ne_nil (separator : Char) (text : String) : split separator text ≠ [] := by
  simp [split]

/-- Pieces without the separator come back when they are joined and split. At least one piece is
needed, as an empty text has one. -/
theorem split_join {separator : Char} {pieces : List String} (hPieces : pieces ≠ [])
    (h : ∀ piece ∈ pieces, separator ∉ piece.toList) :
    split separator (join (String.singleton separator) pieces) = pieces := by
  have hSplit : ([separator].intercalate (pieces.map String.toList)).splitOn separator =
      pieces.map String.toList := by
    refine List.splitOn_intercalate separator ?_ (by simpa using hPieces)
    intro piece hPiece
    obtain ⟨text, hText, rfl⟩ := List.mem_map.1 hPiece
    exact h text hText
  rw [split, toList_join, String.toList_singleton, hSplit, List.map_map]
  simp [Function.comp_def]

end Text

section EraseDups

variable {α : Type} [BEq α] [LawfulBEq α]

theorem eraseDups_filter (p : α → Bool) (l : List α) :
    (l.filter p).eraseDups = l.eraseDups.filter p := by
  induction hLength : l.length using Nat.strongRecOn generalizing l with
  | _ length ih =>
      cases l with
      | nil => rfl
      | cons a l =>
          have hShorter : (l.filter fun b => !b == a).length < length :=
            hLength ▸ Nat.lt_succ_of_le (List.length_filter_le _ l)
          have hRest := ih _ hShorter (l.filter fun b => !b == a) rfl
          rw [List.eraseDups_cons]
          by_cases ha : p a
          · rw [List.filter_cons_of_pos ha, List.filter_cons_of_pos ha, List.eraseDups_cons,
              ← hRest, List.filter_filter, List.filter_filter]
            simp only [Bool.and_comm]
          · have hSame : (l.filter fun b => !b == a).filter p = l.filter p := by
              rw [List.filter_filter]
              refine List.filter_congr fun b _ => ?_
              by_cases hb : b = a <;> simp [hb, ha]
            rw [List.filter_cons_of_neg ha, List.filter_cons_of_neg ha, ← hRest, hSame]

theorem eraseDups_eraseDups (l : List α) : l.eraseDups.eraseDups = l.eraseDups := by
  induction hLength : l.length using Nat.strongRecOn generalizing l with
  | _ length ih =>
      cases l with
      | nil => rfl
      | cons a l =>
          have hShorter : (l.filter fun b => !b == a).length < length :=
            hLength ▸ Nat.lt_succ_of_le (List.length_filter_le _ l)
          rw [List.eraseDups_cons, List.eraseDups_cons, ← eraseDups_filter, List.filter_filter]
          simp only [Bool.and_self]
          rw [ih _ hShorter _ rfl]

/-- Repetitions may be removed from the first part in advance. -/
theorem eraseDups_append_left (as bs : List α) :
    (as.eraseDups ++ bs).eraseDups = (as ++ bs).eraseDups := by
  have hRemove : bs.removeAll as.eraseDups = bs.removeAll as := by
    refine List.filter_congr fun b _ => ?_
    rw [Bool.eq_iff_iff]
    simp
  rw [List.eraseDups_append, List.eraseDups_append, eraseDups_eraseDups, hRemove]

/-- Repetitions may be removed from the second part in advance. -/
theorem eraseDups_append_right (as bs : List α) :
    (as ++ bs.eraseDups).eraseDups = (as ++ bs).eraseDups := by
  rw [List.eraseDups_append, List.eraseDups_append, List.removeAll, List.removeAll,
    ← eraseDups_filter, eraseDups_eraseDups]

end EraseDups

namespace Semantics

/-- The members of several values, each once, come back when they are written as one text. This
needs a value, be it empty. -/
theorem split_join_eraseDups {values : List String} (hValues : values ≠ []) :
    Text.split listSeparator (Text.join (String.singleton listSeparator)
        (values.flatMap (Text.split listSeparator)).eraseDups) =
      (values.flatMap (Text.split listSeparator)).eraseDups := by
  refine Text.split_join (fun hNil => ?_) fun piece hPiece => ?_
  · obtain ⟨value, hValue⟩ := List.exists_mem_of_ne_nil values hValues
    obtain ⟨piece, hPiece⟩ :=
      List.exists_mem_of_ne_nil _ (Text.split_ne_nil listSeparator value)
    have hMem := List.mem_eraseDups.2 (List.mem_flatMap.2 ⟨value, hValue, hPiece⟩)
    rw [hNil] at hMem
    cases hMem
  · obtain ⟨value, -, hPiece⟩ := List.mem_flatMap.1 (List.mem_eraseDups.1 hPiece)
    obtain ⟨cs, hcs, rfl⟩ := List.mem_map.1 hPiece
    simpa using Text.not_mem_of_mem_splitOn hcs

/-- The members of a united value are those of the two values, each once. Those of the first value
come first. -/
theorem split_unionValue (a b : String) :
    Text.split listSeparator (unionValue a b) =
      (Text.split listSeparator a ++ Text.split listSeparator b).eraseDups := by
  have hPair := split_join_eraseDups (List.cons_ne_nil a [b])
  simp only [List.flatMap_cons, List.flatMap_nil, List.append_nil] at hPair
  exact hPair

/-- Uniting three values gives the members of all, each once, from whichever side it is done. -/
theorem unionValue_assoc (a b c : String) :
    unionValue (unionValue a b) c = unionValue a (unionValue b c) := by
  rw [unionValue, split_unionValue, unionValue, split_unionValue, eraseDups_append_left,
    eraseDups_append_right, List.append_assoc]

theorem concatValue_assoc (a b c : String) :
    concatValue (concatValue a b) c = concatValue a (concatValue b c) := by
  simp only [concatValue, String.append_assoc]

/-- Values under a key of three maps may be merged from either side. Each law is associative by
itself, and the key decides which one applies. -/
theorem mergeValue_assoc {S : Type} (policy : MergePolicy S) (key a b c : String) :
    mergeValue policy key (mergeValue policy key a b) c =
      mergeValue policy key a (mergeValue policy key b c) := by
  simp only [mergeValue]
  split
  · exact unionValue_assoc a b c
  · split
    · exact concatValue_assoc a b c
    · rfl

end Semantics

end PlotQuery
