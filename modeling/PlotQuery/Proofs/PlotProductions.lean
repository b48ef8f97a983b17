import Mathlib.Data.List.Forall2
import PlotQuery.Grammar.RuleSet
import PlotQuery.PlotGrammar
import PlotQuery.Proofs.ListItems

/-! The productions of the grammar for plots, as they are read from its text. -/
namespace PlotQuery

namespace Text

variable {separator : Char}

/-- A text with another character at its end has no empty piece there. -/
theorem getLast?_splitOn_ne {cs : List Char} {c : Char} (hc : c ≠ separator) :
    ((cs ++ [c]).splitOn separator).getLast? ≠ some [] := by
  induction cs with
  | nil => simp [List.splitOn_cons_eq_if_modifyHead, hc]
  | cons d cs ih =>
      rw [List.cons_append, List.splitOn_cons_eq_if_modifyHead]
      cases hPieces : (cs ++ [c]).splitOn separator with
      | nil => exact absurd hPieces (List.splitOn_ne_nil separator _)
      | cons first rest =>
          rw [hPieces] at ih
          split
          · exact ih
          · cases rest with
            | nil => simp
            | cons second rest => exact ih

/-- Without carriage returns the lines of a text are its pieces between line feeds, unless a line
feed stands at the end. So the lines of the grammar can be joined and cut again. -/
theorem lines_eq_splitOn {cs : List Char} {c : Char} (hReturn : '\r' ∉ cs ++ [c])
    (hc : c ≠ '\n') : lines (cs ++ [c]) = (cs ++ [c]).splitOn '\n' := by
  have hLast : ((cs ++ [c]).splitOn '\n').getLast? ≠ some [] := getLast?_splitOn_ne hc
  have hPieces := List.splitOn_ne_nil '\n' (cs ++ [c])
  have hKept : ((cs ++ [c]).splitOn '\n').dropLast.map
      (fun line => if line.getLast? = some '\r' then line.dropLast else line) =
        ((cs ++ [c]).splitOn '\n').dropLast := by
    rw [List.map_congr_left (g := id), List.map_id]
    intro line hLine
    refine if_neg fun hEnd => hReturn ?_
    exact mem_of_mem_splitOnP (List.dropLast_subset _ hLine) (List.mem_of_getLast? hEnd)
  rw [lines, hKept]
  rw [List.getLast?_eq_some_getLast hPieces] at hLast ⊢
  split
  · next hNone => cases hNone
  · next hNil => exact absurd hNil hLast
  · next rest _ hRest =>
    rw [← Option.some.inj hRest, List.dropLast_concat_getLast]

/-- A text without the mark of comments is left as it is. It must not have carriage returns
either, nor a line feed at its end. -/
theorem stripComments_eq_self {cs : List Char} {c : Char}
    (hPlain : ∀ d ∈ cs ++ [c], d ≠ '#' ∧ d ≠ '\r') (hc : c ≠ '\n') :
    stripComments (cs ++ [c]) = cs ++ [c] := by
  rw [stripComments, lines_eq_splitOn (fun hMem => (hPlain _ hMem).2 rfl) hc,
    List.map_congr_left (g := id), List.map_id, List.intercalate_splitOn]
  intro line hLine
  refine List.takeWhile_eq_self_iff.2 fun d hd => ?_
  simpa using (hPlain d (mem_of_mem_splitOnP hLine hd)).1

theorem trim_cons_of_isBlank {b : Char} (h : isBlank b = true) (cs : List Char) :
    trim (b :: cs) = trim cs := by
  rw [trim, List.dropWhile_cons_of_pos h, trim]

theorem trim_concat_of_isBlank {b : Char} (h : isBlank b = true) (cs : List Char) :
    trim (cs ++ [b]) = trim cs := by
  rw [trim, trim, List.dropWhile_append]
  split
  · next hNil =>
    rw [List.dropWhile_cons_of_pos h, List.isEmpty_iff.1 hNil]
    rfl
  · exact List.rdropWhile_concat_pos _ _ _ h

theorem items_cons_of_isBlank {b : Char} (h : isBlank b = true) (hSeparator : b ≠ separator)
    (text : String) : items separator (String.singleton b ++ text) = items separator text := by
  rw [items, String.toList_append, String.toList_singleton, List.singleton_append,
    List.splitOn_cons_eq_if_modifyHead, if_neg (by simpa using hSeparator), items]
  cases hPieces : text.toList.splitOn separator with
  | nil => rfl
  | cons first rest =>
      rw [List.modifyHead_cons, List.map_cons, List.map_cons, trim_cons_of_isBlank h]

/-- A joined text has the characters of its parts and of the glue, and no others. -/
theorem mem_toList_join {glue : String} {texts : List String} {c : Char}
    (h : c ∈ (join glue texts).toList) : c ∈ glue.toList ∨ ∃ text ∈ texts, c ∈ text.toList := by
  induction texts with
  | nil => simp [join] at h
  | cons text texts ih =>
      cases texts with
      | nil => exact .inr ⟨text, List.mem_cons_self, h⟩
      | cons next texts =>
          rw [join, String.toList_append, String.toList_append, List.append_assoc] at h
          · rcases List.mem_append.1 h with h | h
            · exact .inr ⟨text, List.mem_cons_self, h⟩
            · rcases List.mem_append.1 h with h | h
              · exact .inl h
              · rcases ih h with hGlue | ⟨later, hMem, hc⟩
                · exact .inl hGlue
                · exact .inr ⟨later, List.mem_cons_of_mem text hMem, hc⟩
          · exact List.cons_ne_nil next texts

/-- The last character of a joined text is the last one of a part. -/
theorem exists_last_of_join {glue : String} {texts : List String} (hTexts : texts ≠ [])
    (h : ∀ text ∈ texts, text.toList ≠ []) :
    ∃ text ∈ texts, ∃ c ∈ text.toList, ∃ cs, (join glue texts).toList = cs ++ [c] := by
  induction texts with
  | nil => exact absurd rfl hTexts
  | cons text texts ih =>
      cases texts with
      | nil =>
          have hText := h text List.mem_cons_self
          exact ⟨text, List.mem_cons_self, text.toList.getLast hText, List.getLast_mem hText,
            text.toList.dropLast, (List.dropLast_append_getLast hText).symm⟩
      | cons next texts =>
          obtain ⟨last, hLast, c, hc, cs, hEnd⟩ := ih (List.cons_ne_nil next texts)
            fun later hMem => h later (List.mem_cons_of_mem text hMem)
          refine ⟨last, List.mem_cons_of_mem text hLast, c, hc,
            text.toList ++ glue.toList ++ cs, ?_⟩
          rw [join, String.toList_append, String.toList_append, hEnd, List.append_assoc _ cs]
          exact List.cons_ne_nil next texts

end Text

/-- The characters of a production that can stand among others: none of them ends a production or a
line or begins a comment, and there is no blank at either end. -/
def Production.IsPlain (cs : List Char) : Prop :=
  cs ≠ [] ∧ Text.trim cs = cs ∧ ∀ c ∈ cs, c ∉ ['#', ';', '\r', '\n']

instance (cs : List Char) : Decidable (Production.IsPlain cs) :=
  decidable_of_iff (cs ≠ [] ∧ Text.trim cs = cs ∧
    (cs.all fun c => c ∉ ['#', ';', '\r', '\n']) = true) (by simp [Production.IsPlain])

/-- What stands between two productions. -/
def productionGlue : String :=
  " ;\n"

/-- Productions without the separator come back from their joined text. -/
theorem items_join_of_isPlain {texts : List String}
    (h : ∀ text ∈ texts, Production.IsPlain text.toList) :
    Text.items ';' (Text.join productionGlue texts) = texts := by
  induction texts with
  | nil => rfl
  | cons text texts ih =>
      obtain ⟨hNonempty, hTrim, hChars⟩ := h text List.mem_cons_self
      have hSeparator : ';' ∉ text.toList := fun hMem => absurd (hChars _ hMem) (by decide)
      have hText : text = String.ofList text.toList := String.ofList_toList.symm
      cases texts with
      | nil =>
          rw [Text.join, Text.items_of_not_mem hSeparator, if_neg, Text.trimmed, hTrim, ← hText]
          rw [← Text.trim_eq_nil_iff, hTrim]
          exact hNonempty
      | cons next texts =>
          have hRest := ih fun later hMem => h later (List.mem_cons_of_mem text hMem)
          have hGlue : text ++ productionGlue ++ Text.join productionGlue (next :: texts) =
              text ++ String.singleton ' ' ++ String.singleton ';' ++
                (String.singleton '\n' ++ Text.join productionGlue (next :: texts)) := by
            rw [show productionGlue = String.singleton ' ' ++ String.singleton ';' ++
              String.singleton '\n' by decide]
            simp only [String.append_assoc]
          have hFirst : Text.items ';' (text ++ String.singleton ' ') = [text] := by
            have hSpaced : ';' ∉ (text ++ String.singleton ' ').toList := by simpa using hSeparator
            rw [Text.items_of_not_mem hSpaced, if_neg, Text.trimmed, String.toList_append,
              String.toList_singleton, Text.trim_concat_of_isBlank (by decide), hTrim, ← hText]
            rw [← Text.trim_eq_nil_iff, String.toList_append, String.toList_singleton,
              Text.trim_concat_of_isBlank (by decide), hTrim]
            exact hNonempty
          rw [Text.join, hGlue, Text.items_append_separator, hFirst,
            Text.items_cons_of_isBlank (by decide) (by decide), hRest]
          · rfl
          · exact List.cons_ne_nil next texts

/-- The text of productions falls apart into these productions. The productions have to be plain
for this: no separator, no comment and no blanks at the ends. -/
theorem productionTexts_join {texts : List String} (hTexts : texts ≠ [])
    (h : ∀ text ∈ texts, Production.IsPlain text.toList) :
    productionTexts (Text.join productionGlue texts) = texts := by
  obtain ⟨last, hLast, c, hc, cs, hEnd⟩ :=
    Text.exists_last_of_join hTexts fun text hMem => (h text hMem).1
  have hPlain : ∀ d ∈ cs ++ [c], d ≠ '#' ∧ d ≠ '\r' := by
    intro d hd
    rw [← hEnd] at hd
    rcases Text.mem_toList_join hd with hGlue | ⟨text, hMem, hd⟩
    · have hSigns : (productionGlue.toList.all fun e => e != '#' && e != '\r') = true := by decide
      simpa using List.all_eq_true.1 hSigns d hGlue
    · have hNot := (h text hMem).2.2 d hd
      simp only [List.mem_cons, List.not_mem_nil, or_false, not_or] at hNot
      exact ⟨hNot.1, hNot.2.2.1⟩
  have hFeed : c ≠ '\n' := by
    rintro rfl
    exact (h last hLast).2.2 _ hc (by decide)
  have hStrip := Text.stripComments_eq_self hPlain hFeed
  rw [← hEnd] at hStrip
  rw [productionTexts, hStrip]
  exact items_join_of_isPlain h

/-- The characters of a text that is put together from literals. -/
inductive Spells : String → List Char → Prop where
  | literal (cs : List Char) : Spells (String.ofList cs) cs
  | append {a b : String} {as bs : List Char} (first : Spells a as) (second : Spells b bs) :
      Spells (a ++ b) (as ++ bs)

theorem Spells.toList_eq {text : String} {cs : List Char} (h : Spells text cs) :
    text.toList = cs := by
  induction h with
  | literal cs => exact String.toList_ofList
  | append _ _ ihFirst ihSecond => rw [String.toList_append, ihFirst, ihSecond]

/-- The text of a production can stand among others and is read as the production. -/
def ReadsAs (text : String) (production : Production) : Prop :=
  Production.IsPlain text.toList ∧ Production.read text = .ok production

/-- Texts put together from literals are read as these productions, if their characters are. This
keeps the evaluation to one production at a time. -/
theorem readsAs_of_spells {texts : List String} {css : List (List Char)}
    {productions : List Production} (hSpells : List.Forall₂ Spells texts css)
    (hPlain : ∀ cs ∈ css, Production.IsPlain cs)
    (hRead : (List.zipWith Production.readChars texts css).map Except.toOption =
      productions.map some) :
    List.Forall₂ ReadsAs texts productions := by
  induction hSpells generalizing productions with
  | nil =>
      rw [List.map_eq_nil_iff.1 hRead.symm]
      exact .nil
  | @cons text cs texts css hFirst hRest ih =>
      rw [List.zipWith_cons_cons, List.map_cons, eq_comm, List.map_eq_cons_iff] at hRead
      obtain ⟨production, rest, rfl, hOption, hRead⟩ := hRead
      obtain ⟨hPlainFirst, hPlain⟩ := List.forall_mem_cons.1 hPlain
      refine .cons ⟨hFirst.toList_eq.symm ▸ hPlainFirst, ?_⟩ (ih hPlain hRead.symm)
      rw [Production.read, hFirst.toList_eq]
      cases hResult : Production.readChars text cs with
      | error reason =>
          rw [hResult] at hOption
          cases hOption
      | ok result =>
          rw [hResult] at hOption
          exact congrArg Except.ok (Option.some.inj hOption).symm

theorem forall_isPlain_of_forall₂ {texts : List String} {productions : List Production}
    (h : List.Forall₂ ReadsAs texts productions) :
    ∀ text ∈ texts, Production.IsPlain text.toList := by
  induction h with
  | nil => simp
  | cons hFirst _ ih => exact List.forall_mem_cons.2 ⟨hFirst.1, ih⟩

theorem mapM_read_of_forall₂ {texts : List String} {productions : List Production}
    (h : List.Forall₂ ReadsAs texts productions) :
    texts.mapM Production.read = .ok productions := by
  induction h with
  | nil => rfl
  | cons hFirst _ ih =>
      rw [List.mapM_cons, hFirst.2, ih]
      rfl

namespace PlotGrammar

def queryRules : List Production :=
  [⟨"Root", [⟨.unary (.nonterminal "Overview"), none⟩, ⟨.unary (.nonterminal "Plot"), none⟩]⟩,
   ⟨"Overview", [⟨.unary (.nonterminal "OverviewWord"), some ⟨"type", .literal "overview"⟩⟩]⟩,
   ⟨"OverviewWord", [⟨.words ["overview"], none⟩, ⟨.words ["profil"], none⟩,
     ⟨.words ["profil"], none⟩, ⟨.words ["summari"], none⟩, ⟨.words ["describ"], none⟩]⟩,
   ⟨"Plot", [⟨.unary (.nonterminal "Chart"), none⟩, ⟨.unary (.nonterminal "Column"), none⟩,
     ⟨.binary (.nonterminal "Plot") (.nonterminal "Option"), none⟩,
     ⟨.binary (.nonterminal "Option") (.nonterminal "Plot"), none⟩]⟩,
   ⟨"Chart", [⟨.unary (.nonterminal "HistWord"), some ⟨"type", .literal "histogram"⟩⟩,
     ⟨.unary (.nonterminal "ScatterWord"), some ⟨"type", .literal "scatter"⟩⟩,
     ⟨.unary (.nonterminal "LineWord"), some ⟨"type", .literal "lineplot"⟩⟩,
     ⟨.unary (.nonterminal "RegressionWord"), some ⟨"regress", .literal "true"⟩⟩]⟩,
   ⟨"HistWord", [⟨.words ["histogram"], none⟩, ⟨.words ["hist"], none⟩,
     ⟨.words ["distribut"], none⟩, ⟨.words ["frequenc"], none⟩]⟩,
   ⟨"ScatterWord", [⟨.words ["scatter"], none⟩, ⟨.words ["scatterplot"], none⟩,
     ⟨.words ["scatter", "plot"], none⟩]⟩,
   ⟨"LineWord", [⟨.words ["line"], none⟩, ⟨.words ["lineplot"], none⟩,
     ⟨.words ["line", "plot"], none⟩, ⟨.words ["line", "chart"], none⟩, ⟨.words ["trend"], none⟩]⟩,
   ⟨"RegressionWord", [⟨.words ["regress"], none⟩, ⟨.words ["linear", "regress"], none⟩,
     ⟨.words ["lmplot"], none⟩]⟩,
   ⟨"Option", [⟨.unary (.nonterminal "Column"), none⟩, ⟨.unary (.nonterminal "Bins"), none⟩,
     ⟨.unary (.nonterminal "Density"), none⟩, ⟨.unary (.nonterminal "Log"), none⟩,
     ⟨.unary (.nonterminal "Stacked"), none⟩, ⟨.unary (.nonterminal "Marker"), none⟩,
     ⟨.unary (.nonterminal "Color"), none⟩, ⟨.unary (.nonterminal "LineStyle"), none⟩,
     ⟨.unary (.nonterminal "Group"), none⟩, ⟨.unary (.nonterminal "GroupOp"), none⟩,
     ⟨.unary (.nonterminal "Filter"), none⟩]⟩,
   ⟨"Column", [⟨.unary (.placeholder "$column"), none⟩]⟩]

def histogramRules : List Production :=
  [⟨"Bins", [
     ⟨.binary (.literal "bin") (.nonterminal "BinSpec"), some ⟨"histobins", .literal "true"⟩⟩,
     ⟨.binary (.nonterminal "BinSpec") (.literal "bin"), some ⟨"histobins", .literal "true"⟩⟩,
     ⟨.words ["bin"], some ⟨"histobins", .literal "true"⟩⟩]⟩,
   ⟨"BinSpec", [⟨.unary (.nonterminal "BinRange"), none⟩,
     ⟨.binary (.nonterminal "BinRange") (.nonterminal "BinStep"), none⟩,
     ⟨.unary (.nonterminal "BinStep"), none⟩, ⟨.unary (.nonterminal "BinCount"), none⟩]⟩,
   ⟨"BinRange", [⟨.unary (.nonterminal "RangeFrom"), none⟩,
     ⟨.binary (.nonterminal "RangeFrom") (.nonterminal "RangeTo"), none⟩]⟩,
   ⟨"RangeFrom", [
     ⟨.binary (.literal "from") (.placeholder "$number"),
       some ⟨"bin_pair_first", .child 1 "Value"⟩⟩]⟩,
   ⟨"RangeTo", [
     ⟨.binary (.literal "to") (.placeholder "$number"),
       some ⟨"bin_pair_second", .child 1 "Value"⟩⟩]⟩,
   ⟨"BinStep", [
     ⟨.binary (.literal "step") (.placeholder "$number"), some ⟨"bin_pair_step", .child 1 "Value"⟩⟩,
     ⟨.binary (.literal "width") (.placeholder "$number"),
       some ⟨"bin_pair_step", .child 1 "Value"⟩⟩]⟩,
   ⟨"BinCount", [⟨.unary (.placeholder "$number"), some ⟨"bin_single", .child 0 "Value"⟩⟩,
     ⟨.unary (.placeholder "$number_list"), some ⟨"bin_single", .child 0 "Value"⟩⟩]⟩,
   ⟨"Density", [⟨.words ["densiti"], some ⟨"histodens", .literal "true"⟩⟩,
     ⟨.words ["normal"], some ⟨"histodens", .literal "true"⟩⟩]⟩,
   ⟨"Log", [⟨.words ["log"], some ⟨"histolog", .literal "true"⟩⟩,
     ⟨.words ["logarithm"], some ⟨"histolog", .literal "true"⟩⟩]⟩,
   ⟨"Stacked", [⟨.words ["stack"], some ⟨"histostack", .literal "true"⟩⟩]⟩]

def styleRules : List Production :=
  [⟨"Marker", [⟨.unary (.placeholder "$markerfmt"), some ⟨"scattermarker", .literal "true"⟩⟩,
     ⟨.binary (.placeholder "$markerfmt") (.literal "marker"),
       some ⟨"scattermarker", .literal "true"⟩⟩,
     ⟨.binary (.nonterminal "MarkerWord") (.nonterminal "MarkerSize"), none⟩]⟩,
   ⟨"MarkerWord", [⟨.words ["marker"], none⟩, ⟨.words ["size"], none⟩,
     ⟨.words ["marker", "size"], none⟩]⟩,
   ⟨"MarkerSize", [⟨.unary (.placeholder "$number"), some ⟨"marker", .child 0 "Value"⟩⟩,
     ⟨.unary (.placeholder "$auxcolumn"), some ⟨"marker_col", .child 0 "Value"⟩⟩]⟩,
   ⟨"Color", [⟨.unary (.placeholder "$precolor"), some ⟨"scattercolor", .literal "true"⟩⟩,
     ⟨.binary (.placeholder "$precolor") (.literal "color"),
       some ⟨"scattercolor", .literal "true"⟩⟩,
     ⟨.binary (.nonterminal "ColorWord") (.placeholder "$auxcolumn"),
       some ⟨"color_col", .child 1 "Value"⟩⟩]⟩,
   ⟨"ColorWord", [⟨.words ["color"], none⟩, ⟨.words ["colour"], none⟩,
     ⟨.words ["color", "by"], none⟩, ⟨.words ["colour", "by"], none⟩]⟩,
   ⟨"LineStyle", [⟨.unary (.placeholder "$linefmt"), none⟩,
     ⟨.binary (.placeholder "$linefmt") (.literal "line"), none⟩]⟩]

def rowRules : List Production :=
  [⟨"Group", [
     ⟨.binary (.nonterminal "GroupWord") (.placeholder "$auxcolumn"),
       some ⟨"group_col", .child 1 "Value"⟩⟩]⟩,
   ⟨"GroupWord", [⟨.words ["by"], none⟩, ⟨.words ["group", "by"], none⟩, ⟨.words ["per"], none⟩,
     ⟨.words ["each"], none⟩, ⟨.words ["for", "each"], none⟩]⟩,
   ⟨"GroupOp", [⟨.unary (.placeholder "$aggreop"), some ⟨"group_op", .child 0 "Value"⟩⟩]⟩,
   ⟨"Filter", [⟨.binary (.nonterminal "FilterWord") (.nonterminal "Condition"), none⟩,
     ⟨.unary (.nonterminal "Condition"), none⟩]⟩,
   ⟨"FilterWord", [⟨.words ["where"], none⟩, ⟨.words ["when"], none⟩, ⟨.words ["if"], none⟩,
     ⟨.words ["for"], none⟩]⟩,
   ⟨"Condition", [
     ⟨.binary (.placeholder "$auxcolumn") (.nonterminal "Comparison"),
       some ⟨"filter_col", .child 0 "Value"⟩⟩]⟩,
   ⟨"Comparison", [
     ⟨.binary (.placeholder "$operator") (.nonterminal "FilterValue"),
       some ⟨"filter_op", .child 0 "Value"⟩⟩]⟩,
   ⟨"FilterValue", [⟨.unary (.placeholder "$number"), some ⟨"filter_v", .child 0 "Value"⟩⟩,
     ⟨.unary (.placeholder "$quotedstring"), some ⟨"filter_v", .child 0 "Value"⟩⟩]⟩]

/-- The productions of the grammar for plots. -/
def productions : List Production :=
  queryRules ++ histogramRules ++ styleRules ++ rowRules

/-- The texts of the grammar, one by one, are read as its productions. -/
theorem readsAs_productions : List.Forall₂ ReadsAs
    (queryProductions ++ histogramProductions ++ styleProductions ++ rowProductions)
    productions := by
  have hQuery : List.Forall₂ Spells queryProductions _ :=
    .cons (.literal _) <|
    .cons (.literal _) <|
    .cons (.append (.literal _) (.literal _)) <|
    .cons (.literal _) <|
    .cons (.append (.literal _) (.literal _)) <|
    .cons (.literal _) <|
    .cons (.literal _) <|
    .cons (.append (.literal _) (.literal _)) <|
    .cons (.literal _) <|
    .cons (.append (.literal _) (.literal _)) <|
    .cons (.literal _) <|
    .nil
  have hHistogram : List.Forall₂ Spells histogramProductions _ :=
    .cons (.append (.literal _) (.literal _)) <|
    .cons (.literal _) <|
    .cons (.literal _) <|
    .cons (.literal _) <|
    .cons (.literal _) <|
    .cons (.append (.literal _) (.literal _)) <|
    .cons (.append (.literal _) (.literal _)) <|
    .cons (.append (.literal _) (.literal _)) <|
    .cons (.literal _) <|
    .cons (.literal _) <|
    .nil
  have hStyle : List.Forall₂ Spells styleProductions _ :=
    .cons (.append (.literal _) (.literal _)) <|
    .cons (.literal _) <|
    .cons (.append (.literal _) (.literal _)) <|
    .cons (.append (.append (.literal _) (.literal _)) (.literal _)) <|
    .cons (.literal _) <|
    .cons (.literal _) <|
    .nil
  have hRow : List.Forall₂ Spells rowProductions _ :=
    .cons (.literal _) <|
    .cons (.literal _) <|
    .cons (.literal _) <|
    .cons (.literal _) <|
    .cons (.literal _) <|
    .cons (.literal _) <|
    .cons (.literal _) <|
    .cons (.append (.literal _) (.literal _)) <|
    .nil
  -- All texts are read in one evaluation, so that the endings the stemmer knows are spelled once.
  refine readsAs_of_spells
    (List.rel_append (List.rel_append (List.rel_append hQuery hHistogram) hStyle) hRow) ?_ ?_
  · decide +kernel
  · decide +kernel

/-- The text of the grammar is read as its productions, the last one first. The whole text is
never evaluated at once. -/
theorem mapM_read_text :
    (productionTexts text).reverse.mapM Production.read = .ok productions.reverse := by
  have hTexts : productionTexts text =
      queryProductions ++ histogramProductions ++ styleProductions ++ rowProductions :=
    productionTexts_join (by simp [queryProductions])
      (forall_isPlain_of_forall₂ readsAs_productions)
  rw [hTexts]
  exact mapM_read_of_forall₂ (List.rel_reverse readsAs_productions)

end PlotGrammar

end PlotQuery
