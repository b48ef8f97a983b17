import PlotQuery.Proofs.CellTable
import PlotQuery.Proofs.Derives
import PlotQuery.Proofs.ListItems

/-! The statements of a text. The parse of a text goes from one segment to the next and takes nothing
over, so it may be cut at any separator. A blank text alone is parsed as something else than it is. -/
namespace PlotQuery

namespace Text

theorem not_isBlankText_of_mem {text : String} {c : Char} (h : c ∈ text.toList)
    (hBlank : isBlank c = false) : isBlankText text = false := by
  rw [isBlankText, allBlank, List.all_eq_false]
  exact ⟨c, h, by simp [hBlank]⟩

theorem trimmed_eq_empty_iff {text : String} : trimmed text = "" ↔ isBlankText text = true := by
  rw [isBlankText, ← trim_eq_nil_iff, trimmed]
  cases trim text.toList <;> simp

/-- The pieces of a text between separators, less those that are blank. -/
def segments (separator : Char) (text : String) : List String :=
  (split separator text).filter fun piece => !isBlankText piece

/-- The items of a text are its segments without the blanks around them. -/
theorem items_eq_map_segments (separator : Char) (text : String) :
    items separator text = (segments separator text).map trimmed := by
  rw [items_eq_filter_split, List.filter_map, segments]
  congr 1
  apply List.filter_congr
  intro piece _
  simp [trimmed_eq_empty_iff]

/-- A segment of a text is a text of one segment. So it has one parse by itself. -/
theorem items_of_mem_segments {separator : Char} {text segment : String}
    (h : segment ∈ segments separator text) : items separator segment = [trimmed segment] := by
  rw [segments, List.mem_filter, Bool.not_eq_true'] at h
  obtain ⟨hPiece, hBlank⟩ := h
  obtain ⟨cs, hcs, rfl⟩ := List.mem_map.1 hPiece
  have hPlain : separator ∉ (String.ofList cs).toList := by
    rw [String.toList_ofList]
    exact not_mem_of_mem_splitOn hcs
  rw [items_of_not_mem hPlain, ← isBlankText, hBlank]
  rfl

theorem items_of_isBlankText {separator : Char} (hSeparator : isBlank separator = false)
    {text : String} (h : isBlankText text = true) : items separator text = [] := by
  have hPlain : separator ∉ text.toList := by
    intro hMem
    rw [not_isBlankText_of_mem hMem hSeparator] at h
    cases h
  rw [items_of_not_mem hPlain, ← isBlankText, h]
  rfl

end Text

namespace Grammar

open Text

variable {S : Type} [Scalar S] (grammar : Grammar S) (schema : Schema S)

/-- A text that is not blank is parsed segment by segment. -/
theorem parse_of_not_blank {text : String} (h : isBlankText text = false) :
    grammar.parse schema text = (items ';' text).map (grammar.parseStatement schema) := by
  rw [parse, statements, h]
  rfl

theorem length_parse_of_blank {text : String} (h : isBlankText text = true) :
    (grammar.parse schema text).length = 1 := by
  have hItems : items ';' blankStatement = [blankStatement] := by decide
  rw [parse, statements, if_pos h, hItems]
  rfl

/-- Two texts with a separator between them have the parses of the segments of both. With the
separator in it the whole is never blank. -/
theorem parse_append_separator (a b : String) :
    grammar.parse schema (a ++ ";" ++ b) =
      (items ';' a ++ items ';' b).map (grammar.parseStatement schema) := by
  have hSeparator : isBlankText (a ++ ";" ++ b) = false :=
    not_isBlankText_of_mem (c := ';') (by simp) (by decide)
  rw [parse_of_not_blank _ _ hSeparator]
  exact congrArg _ (items_append_separator a b)

/-- Statements are parsed one by one. A separator between two texts that are not blank puts the
parses of the one in front of those of the other, and a separator beside a blank text makes no
difference. A text that is not blank has the parses of its segments, one for each, and a blank
text has one parse. Blank segments are passed over. -/
theorem parse_by_segments :
    (∀ a b, isBlankText a = false → isBlankText b = false →
      grammar.parse schema (a ++ ";" ++ b) =
        grammar.parse schema a ++ grammar.parse schema b) ∧
    (∀ blank text, isBlankText blank = true → isBlankText text = false →
      grammar.parse schema (blank ++ ";" ++ text) = grammar.parse schema text ∧
      grammar.parse schema (text ++ ";" ++ blank) = grammar.parse schema text) ∧
    (∀ text, isBlankText text = false →
      grammar.parse schema text = (segments ';' text).flatMap (grammar.parse schema)) ∧
    ∀ text, (grammar.parse schema text).length =
      if isBlankText text then 1
      else (split ';' text).countP fun piece => !isBlankText piece := by
  refine ⟨?_, ?_, ?_, ?_⟩
  · intro a b ha hb
    rw [parse_append_separator, List.map_append, ← parse_of_not_blank _ _ ha,
      ← parse_of_not_blank _ _ hb]
  · intro blank text hBlank hText
    have hNone : items ';' blank = [] := items_of_isBlankText (by decide) hBlank
    rw [parse_append_separator, parse_append_separator, hNone, List.nil_append, List.append_nil,
      parse_of_not_blank _ _ hText]
    exact ⟨rfl, rfl⟩
  · intro text hText
    rw [parse_of_not_blank _ _ hText, items_eq_map_segments, List.map_map, List.map_eq_flatMap]
    apply List.flatMap_congr
    intro segment hSegment
    have hBlank : isBlankText segment = false := by
      simpa [segments] using (List.mem_filter.1 hSegment).2
    rw [parse_of_not_blank _ _ hBlank, items_of_mem_segments hSegment, List.map_singleton,
      Function.comp_apply]
  · intro text
    cases hText : isBlankText text with
    | true => exact grammar.length_parse_of_blank schema hText
    | false =>
        rw [parse_of_not_blank _ _ hText, items_eq_map_segments, List.length_map, List.length_map,
          segments, List.countP_eq_length_filter]
        rfl

/-- Two statements with blank segments around them. The blanks are a wide one and a no-break space. -/
def spacedText : String :=
  "Bar age ; ;\u3000"

/-- Blanks here are any of Unicode, and a text of them alone has one parse. -/
theorem parse_by_segments_spacedText :
    isBlankText spacedText = false ∧ isBlankText "\u00a0;bar income" = false ∧
    isBlankText "\u00a0\u3000" = true ∧
    barGrammar.parse barSchema (spacedText ++ ";" ++ "\u00a0;bar income") =
      barGrammar.parse barSchema spacedText ++ barGrammar.parse barSchema "\u00a0;bar income" ∧
    barGrammar.parse barSchema (spacedText ++ ";" ++ "\u00a0\u3000") =
      barGrammar.parse barSchema spacedText ∧
    (barGrammar.parse barSchema (spacedText ++ ";" ++ "\u00a0;bar income")).length = 2 ∧
    (barGrammar.parse barSchema spacedText).map (·.bind (·.semantics.get? "ColName")) =
      [some "Age"] := by
  obtain ⟨hBoth, hBeside, -, hLength⟩ := parse_by_segments barGrammar barSchema
  have hSpaced : isBlankText spacedText = false := by decide +kernel
  have hSecond : isBlankText "\u00a0;bar income" = false := by decide +kernel
  have hBlank : isBlankText "\u00a0\u3000" = true := by decide +kernel
  refine ⟨hSpaced, hSecond, hBlank, hBoth _ _ hSpaced hSecond, (hBeside _ _ hBlank hSpaced).2,
    ?_, ?_⟩
  · rw [hLength]
    decide +kernel
  · rw [parse_eq_best?_listedCell]
    decide +kernel

end Grammar

end PlotQuery
