import PlotQuery.Proofs.GroupLayout
import PlotQuery.Proofs.LeafValues
import PlotQuery.Proofs.SymbolTables

/-! Names of columns in one value. Merging writes them one after the other and interpretation reads
them back. Writing keeps every piece as it is, while reading trims pieces and drops those that are
blank, so the names that come back are those that are items of such a value. -/
namespace PlotQuery

namespace Text

/-- Trimming leaves a text as it is unless there is a blank at one of its ends. The empty text has
no ends. -/
theorem trimmed_eq_self_iff {text : String} :
    trimmed text = text ↔ (∀ c ∈ text.toList.head?, isBlank c = false) ∧
      ∀ c ∈ text.toList.getLast?, isBlank c = false := by
  have hFront : text.toList.dropWhile isBlank = text.toList ↔
      ∀ c ∈ text.toList.head?, isBlank c = false := by
    rw [List.dropWhile_eq_self_iff]
    cases text.toList <;> simp
  have hBack : text.toList.rdropWhile isBlank = text.toList ↔
      ∀ c ∈ text.toList.getLast?, isBlank c = false := by
    rw [List.rdropWhile_eq_self_iff]
    by_cases hEmpty : text.toList = []
    · simp [hEmpty]
    · simp [List.getLast?_eq_some_getLast hEmpty, hEmpty]
  rw [← hFront, ← hBack, ← String.toList_inj, trimmed, String.toList_ofList, trim, trimEnd,
    dropEndWhile_eq_rdropWhile]
  constructor
  · intro hTrim
    -- The trimmed text is as long as the text, so nothing has been dropped at the front.
    have hDropped : text.toList.dropWhile isBlank = text.toList := by
      refine (List.dropWhile_suffix isBlank).eq_of_length_le ?_
      have hShorter := (List.rdropWhile_prefix isBlank (text.toList.dropWhile isBlank)).length_le
      rwa [hTrim] at hShorter
    rw [hDropped] at hTrim
    exact ⟨hDropped, hTrim⟩
  · rintro ⟨hFrontKept, hBackKept⟩
    rw [hFrontKept, hBackKept]

end Text

namespace Semantics

variable {S : Type} {policy : MergePolicy S} {key : String}

/-- Different names that can be items are the items of their common value. They come in the order
of the row. -/
theorem map_items_rowValue? {names : List String} (hUnion : policy.unionKeys.contains key = true)
    (hSome : names ≠ []) (hNodup : names.Nodup)
    (hItems : ∀ name ∈ names, Text.IsItem listSeparator name) :
    (rowValue? policy key names).map (Text.items listSeparator) = some names := by
  have hSplit := map_split_rowValue? policy hUnion fun name hName => (hItems name hName).plain
  rw [if_neg hSome, eraseDups_of_nodup hNodup] at hSplit
  obtain ⟨value, hValue, hPieces⟩ := Option.map_eq_some_iff.1 hSplit
  rw [hValue, Option.map_some, Text.items_eq_filter_split, hPieces,
    List.map_congr_left fun name hName => (hItems name hName).trimmed, List.map_id']
  exact congrArg some (List.filter_eq_self.2 fun name hName => by
    simpa using (hItems name hName).nonempty)

def ofColumn (name : String) : Semantics :=
  empty.insert "ColName" name

theorem get?_ofColumn (name : String) : (ofColumn name).get? "ColName" = some name := by
  rw [ofColumn, get?_insert, if_pos rfl]

variable [Scalar S]

def mergeRow (policy : MergePolicy S) (first : Semantics) (rest : List Semantics) : Semantics :=
  rest.foldl (fun merged s => (merge policy merged s).1) first

/-- The maps of a row settle the value under a key in the order in which they stand. No rule of a
tree has a part in this. -/
theorem get?_mergeRow (first : Semantics) (rest : List Semantics) :
    (mergeRow policy first rest).get? key =
      rowValue? policy key ((first :: rest).filterMap (·.get? key)) := by
  have hOne (s : Semantics) :
      s.get? key = rowValue? policy key ([s].filterMap (·.get? key)) := by
    cases hValue : s.get? key with
    | none => simp [hValue, rowValue?_nil]
    | some value => simp [hValue, rowValue?_singleton]
  induction rest using List.reverseRecOn with
  | nil => exact hOne first
  | append_singleton rest s ih =>
      rw [mergeRow, List.foldl_append, List.foldl_cons, List.foldl_nil, ← mergeRow, get?_merge, ih,
        hOne s, ← rowValue?_append, ← List.filterMap_append, List.cons_append]

end Semantics

namespace Schema

open Semantics

variable {S : Type} [Scalar S] {schema : Schema S} {first : String} {rest : List String}

/-- Different names of a schema come back from their common value just where none of them is
empty, has the separator in it, or has a blank at one of its ends. All three can happen to the
name of a column, which is any text. -/
theorem knownItems_mergeRow_eq_iff (hNodup : (first :: rest).Nodup)
    (hNames : ∀ name ∈ first :: rest, name ∈ schema.candidateNames) :
    schema.knownItems (mergeRow (MergePolicy.standard : MergePolicy S) (ofColumn first)
        (rest.map ofColumn)) "ColName" = first :: rest ↔
      ∀ name ∈ first :: rest, name ≠ "" ∧ listSeparator ∉ name.toList ∧
        (∀ c ∈ name.toList.head?, Text.isBlank c = false) ∧
        ∀ c ∈ name.toList.getLast?, Text.isBlank c = false := by
  constructor
  · intro hBack name hName
    have hItem : Text.IsItem listSeparator name :=
      isItem_of_mem_knownItems (hBack ▸ hName)
    exact ⟨hItem.nonempty, hItem.plain, Text.trimmed_eq_self_iff.1 hItem.trimmed⟩
  · intro hPlain
    have hItems (name : String) (hName : name ∈ first :: rest) :
        Text.IsItem listSeparator name := by
      obtain ⟨hSome, hSeparator, hEnds⟩ := hPlain name hName
      exact ⟨hSome, hSeparator, Text.trimmed_eq_self_iff.2 hEnds⟩
    have hValues : (ofColumn first :: rest.map ofColumn).filterMap (·.get? "ColName") =
        first :: rest := by
      rw [← List.map_cons, List.filterMap_map]
      exact (List.filterMap_congr fun name _ => get?_ofColumn name).trans List.filterMap_some
    rw [knownItems, items?, get?_mergeRow, hValues,
      map_items_rowValue? rfl (List.cons_ne_nil _ _) hNodup hItems, Option.getD_some,
      List.filter_eq_self]
    exact fun name hName => isKnown_iff.2 (hNames name hName)

/-- Cars with a name that begins with a blank. -/
def paddedSchema : Schema ℚ :=
  ⟨"cars", ["Miles per gallon", "Cylinders"], ["Origin", " Weight"], []⟩

/-- Blanks inside of a name do no harm, and one at its front does. -/
theorem knownItems_mergeRow_eq_iff_paddedSchema :
    paddedSchema.knownItems (mergeRow (MergePolicy.standard : MergePolicy ℚ) (ofColumn "Origin")
        (["Miles per gallon", "Cylinders"].map ofColumn)) "ColName" =
      ["Origin", "Miles per gallon", "Cylinders"] ∧
    paddedSchema.knownItems (mergeRow (MergePolicy.standard : MergePolicy ℚ) (ofColumn "Origin")
        ([" Weight"].map ofColumn)) "ColName" ≠ ["Origin", " Weight"] := by
  constructor
  · refine (knownItems_mergeRow_eq_iff (by decide) (by decide)).2 ?_
    simp [listSeparator, Text.isBlank]
  · intro hBack
    have hPlain := (knownItems_mergeRow_eq_iff (by decide) (by decide)).1 hBack
    obtain ⟨-, -, hFront, -⟩ := hPlain " Weight" (by simp)
    exact absurd (hFront ' ' rfl) (by decide)

end Schema

end PlotQuery
