import PlotQuery.Annotator.Standard
import PlotQuery.Proofs.DerivationTrees

/-! What the annotators of the library find. Each finding has a value, and one more entry if it is a
column to plot, a colour, a line style or a marker. Names of columns are those of the schema. -/
namespace PlotQuery

namespace NameMatch

variable {S : Type} [Scalar S]

/-- What holds of every name that is better than those before it holds of the best of all names.
By induction on the names, where the best so far either stays or is the next one. -/
theorem foldl_better_invariant {text : String} {P : NameMatch S → Prop} {names : List String}
    (hStep : ∀ best name, (∀ found ∈ best, P found) → name ∈ names →
      Scalar.lt (bound best) (PlotQuery.similarity text name : S) = true →
      P ⟨name, PlotQuery.similarity text name⟩)
    {best : Option (NameMatch S)} (hBest : ∀ found ∈ best, P found) :
    ∀ found ∈ names.foldl (better text) best, P found := by
  induction names generalizing best with
  | nil => exact hBest
  | cons name names ih =>
      refine ih (fun best later hBest' hMem => hStep best later hBest' (.tail name hMem)) ?_
      intro found hFound
      rw [better] at hFound
      split at hFound
      · dsimp only at hFound
        split at hFound
        · next hLess =>
          obtain rfl := Option.some.inj hFound
          exact hStep best name hBest List.mem_cons_self hLess
        · exact hBest found hFound
      · exact hBest found hFound

/-- The name that is found is one of those that have been searched. -/
theorem name_mem_of_best?_eq_some {text : String} {names : List String} {threshold : S}
    {found : NameMatch S} (h : best? text names threshold = some found) : found.name ∈ names := by
  have hFold := (Option.filter_eq_some_iff.1 h).1
  exact foldl_better_invariant (P := fun found => found.name ∈ names)
    (fun _ _ _ hMem _ => hMem) (by simp) found hFold

end NameMatch

namespace Annotator

variable {S : Type} [Scalar S] [ScalarText S]

/-- The annotators of the library, with any threshold for column names. -/
inductive Supplied : Annotator S → Prop where
  | number : Supplied number
  | numberList : Supplied numberList
  | column (threshold : S) : Supplied (column threshold)
  | auxiliaryColumn (threshold : S) : Supplied (auxiliaryColumn threshold)
  | color : Supplied color
  | lineStyle : Supplied lineStyle
  | marker : Supplied marker
  | quotedText : Supplied quotedText
  | operator : Supplied operator
  | aggregate : Supplied aggregate

/-- The annotators that a session registers are among those of the library. -/
theorem supplied_of_mem_standard {annotator : Annotator S} (h : annotator ∈ standard S) :
    Supplied annotator := by
  simp only [standard, List.mem_cons, List.not_mem_nil, or_false] at h
  rcases h with rfl | rfl | rfl | rfl | rfl | rfl | rfl | rfl | rfl | rfl
  · exact .number
  · exact .numberList
  · exact .column _
  · exact .auxiliaryColumn _
  · exact .color
  · exact .lineStyle
  · exact .marker
  · exact .quotedText
  · exact .operator
  · exact .aggregate

/-- The finding of an annotator of the library, known by its symbol, on a run of tokens. -/
inductive Finds (span : Query) (schema : Schema S) : String → Finding S → Prop where
  | number (n : S) : Finds span schema "$number" (.ofValue (ScalarText.text n))
  | numberList {texts : List String} (nonempty : texts ≠ []) (share : texts.length ≤ span.size) :
      Finds span schema "$number_list" ((Finding.ofValue (Text.join "," texts)).rated
        (Scalar.ofNat texts.length / Scalar.ofNat span.size))
  | column {threshold : S} {found : NameMatch S}
      (matched : matchName threshold span schema = some found) :
      Finds span schema "$column"
        (((Finding.ofValue found.name).put "ColName" found.name).rated found.similarity)
  | auxiliaryColumn {threshold : S} {found : NameMatch S}
      (matched : matchName threshold span schema = some found) :
      Finds span schema "$auxcolumn" ((Finding.ofValue found.name).rated found.similarity)
  | color (code : String) : Finds span schema "$precolor" (coded "color" code)
  | lineStyle (code : String) : Finds span schema "$linefmt" (coded "line" code)
  | marker (code : String) : Finds span schema "$markerfmt" (coded "marker" code)
  | quotedText {token : Token} (single : span.single? = some token)
      (quoted : isQuoted token.raw.toList = true) :
      Finds span schema "$quotedstring" (.ofValue token.raw)
  | operator {sign : String} (listed : sign ∈ operatorSigns) :
      Finds span schema "$operator" (.ofValue sign)
  | aggregate {function : String} (listed : function ∈ aggregates.map Prod.snd) :
      Finds span schema "$aggreop" (.ofValue function)

theorem mem_operatorSigns_of_combine? {first second : Comparison} {sign : String}
    (h : first.combine? second = some sign) : sign ∈ operatorSigns := by
  cases first <;> cases second <;> simp_all [Comparison.combine?, operatorSigns]

/-- Whatever phrase is read as an operator, its sign is one of six. -/
theorem mem_operatorSigns_of_operatorIn? {tokens : List Token} {sign : String}
    (h : operatorIn? tokens = some sign) : sign ∈ operatorSigns := by
  simp only [operatorIn?] at h
  split at h
  · split at h
    · next hSign =>
      obtain rfl := Option.some.inj h
      exact List.contains_iff_mem.1 hSign
    · obtain ⟨word, -, hWord⟩ := Option.bind_eq_some_iff.1 h
      exact mem_operatorSigns_of_combine? hWord
  · obtain ⟨first, -, h⟩ := Option.bind_eq_some_iff.1 h
    obtain ⟨second, -, h⟩ := Option.bind_eq_some_iff.1 h
    exact mem_operatorSigns_of_combine? h
  · cases h

theorem snd_mem_of_lookup {entries : List (String × String)} {key value : String}
    (h : entries.lookup key = some value) : value ∈ entries.map Prod.snd := by
  induction entries with
  | nil => cases h
  | cons head rest ih =>
      rw [List.lookup_cons] at h
      split at h
      · obtain rfl := Option.some.inj h
        exact List.mem_cons_self
      · exact List.mem_cons_of_mem _ (ih h)

/-- What an annotator of the library makes of a run of tokens is one of its findings. The list of
findings says all that later proofs need to know of the annotators. -/
theorem finds_of_annotate {annotator : Annotator S} (hSupplied : Supplied annotator)
    {span : Query} {schema : Schema S} {finding : Finding S}
    (h : annotator.annotate span schema = some finding) :
    Finds span schema annotator.symbol finding := by
  cases hSupplied with
  | number =>
      obtain ⟨token, -, h⟩ := Option.bind_eq_some_iff.1 h
      obtain ⟨n, -, h⟩ := Option.bind_eq_some_iff.1 h
      obtain rfl := Option.some.inj h
      exact .number n
  | numberList =>
      simp only [numberList] at h
      split at h
      · next hList =>
        obtain rfl := Option.some.inj h
        simp only [Bool.and_eq_true, decide_eq_true_eq] at hList
        have hSome : leastListSize ≤ (numberTexts S span.tokens).length := hList.2
        refine .numberList (fun hNil => ?_) (List.length_filterMap_le _ _)
        rw [hNil] at hSome
        simp [leastListSize] at hSome
      · cases h
  | column threshold =>
      obtain ⟨found, hFound, rfl⟩ := Option.map_eq_some_iff.1 h
      exact .column hFound
  | auxiliaryColumn threshold =>
      obtain ⟨found, hFound, rfl⟩ := Option.map_eq_some_iff.1 h
      exact .auxiliaryColumn hFound
  | color =>
      obtain ⟨token, -, h⟩ := Option.bind_eq_some_iff.1 h
      obtain ⟨code, -, h⟩ := Option.bind_eq_some_iff.1 h
      obtain rfl := Option.some.inj h
      exact .color code
  | lineStyle =>
      obtain ⟨token, -, h⟩ := Option.bind_eq_some_iff.1 h
      obtain ⟨code, -, h⟩ := Option.bind_eq_some_iff.1 h
      obtain rfl := Option.some.inj h
      exact .lineStyle code
  | marker =>
      obtain ⟨token, -, h⟩ := Option.bind_eq_some_iff.1 h
      obtain ⟨code, -, h⟩ := Option.bind_eq_some_iff.1 h
      obtain rfl := Option.some.inj h
      exact .marker code
  | quotedText =>
      obtain ⟨token, hSingle, h⟩ := Option.bind_eq_some_iff.1 h
      split at h
      · next hQuoted =>
        obtain rfl := Option.some.inj h
        exact .quotedText hSingle hQuoted
      · cases h
  | operator =>
      obtain ⟨sign, hSign, rfl⟩ := Option.map_eq_some_iff.1 h
      exact .operator (mem_operatorSigns_of_operatorIn? hSign)
  | aggregate =>
      simp only [aggregate] at h
      split at h
      · obtain ⟨function, hFunction, rfl⟩ := Option.map_eq_some_iff.1 h
        obtain ⟨form, -, hForm⟩ := List.exists_of_findSome?_eq_some hFunction
        exact .aggregate (snd_mem_of_lookup hForm)
      · cases h

theorem mem_tokens_of_single? {span : Query} {token : Token} (h : span.single? = some token) :
    token ∈ span.tokens := by
  rw [Query.single?] at h
  split at h
  · next tokens =>
    obtain rfl := Option.some.inj h
    rw [tokens]
    exact List.mem_singleton_self _
  · cases h

namespace Finds

variable {span : Query} {schema : Schema S} {symbol : String} {finding : Finding S}

/-- The key that a finding has beside its value. -/
def ownKeys : List (String × String) :=
  [("$column", "ColName"), ("$precolor", "color"), ("$linefmt", "line"), ("$markerfmt", "marker")]

/-- A finding has a value, and the same value under the key of its own if its annotator has one.
No other key has any. -/
theorem get?_eq (h : Finds span schema symbol finding) (key : String) :
    finding.semantics.get? key =
      if key = valueKey ∨ ownKeys.lookup symbol = some key then
        finding.semantics.get? valueKey else none := by
  cases h <;>
    simp [Finding.rated, Finding.put, Finding.ofValue, coded, ownKeys, valueKey,
      List.lookup_cons] <;> grind

/-- A finding has no value under a key that no annotator has for its own. -/
theorem get?_eq_none (h : Finds span schema symbol finding) {key : String}
    (hKey : key ∉ valueKey :: ownKeys.map Prod.snd) : finding.semantics.get? key = none := by
  rw [List.mem_cons, not_or] at hKey
  rw [h.get?_eq, if_neg]
  rintro (hValue | hOwn)
  · exact hKey.1 hValue
  · exact hKey.2 (snd_mem_of_lookup hOwn)

/-- Only columns have the key of column names. -/
theorem get?_colName_of_ne (h : Finds span schema symbol finding) (hSymbol : symbol ≠ "$column") :
    finding.semantics.get? "ColName" = none := by
  rw [h.get?_eq, if_neg]
  cases h <;> simp_all [ownKeys, valueKey, List.lookup_cons]

/-- The symbols of annotators are variables, which no production may define. -/
theorem head?_symbol (h : Finds span schema symbol finding) : symbol.toList.head? = some '$' := by
  cases h <;> rfl

theorem contains_colName (h : Finds span schema "$column" finding) :
    finding.semantics.contains "ColName" = true := by
  generalize hSymbol : "$column" = symbol at h
  cases h with
  | column matched => rfl
  | _ => simp at hSymbol

/-- An auxiliary column is a name of the schema. It may be a column or one of the loose names. -/
theorem mem_candidateNames (h : Finds span schema "$auxcolumn" finding) :
    ∀ value ∈ finding.semantics.get? valueKey, value ∈ schema.candidateNames := by
  generalize hSymbol : "$auxcolumn" = symbol at h
  cases h with
  | auxiliaryColumn matched =>
      rintro _ ⟨⟩
      exact NameMatch.name_mem_of_best?_eq_some matched
  | _ => simp at hSymbol

theorem mem_operatorSigns (h : Finds span schema "$operator" finding) :
    ∀ value ∈ finding.semantics.get? valueKey, value ∈ operatorSigns := by
  generalize hSymbol : "$operator" = symbol at h
  cases h with
  | operator listed =>
      rintro _ ⟨⟩
      exact listed
  | _ => simp at hSymbol

theorem mem_functions (h : Finds span schema "$aggreop" finding) :
    ∀ value ∈ finding.semantics.get? valueKey, value ∈ aggregates.map Prod.snd := by
  generalize hSymbol : "$aggreop" = symbol at h
  cases h with
  | aggregate listed =>
      rintro _ ⟨⟩
      exact listed
  | _ => simp at hSymbol

/-- What is found as a number is a number in writing. It need not be the text of the token. -/
theorem exists_number (h : Finds span schema "$number" finding) :
    ∀ value ∈ finding.semantics.get? valueKey, ∃ n : S, value = ScalarText.text n := by
  generalize hSymbol : "$number" = symbol at h
  cases h with
  | number n =>
      rintro _ ⟨⟩
      exact ⟨n, rfl⟩
  | _ => simp at hSymbol

/-- What is found as a quoted string is a token in quotes, and the quotes stay in the value. -/
theorem exists_quoted (h : Finds span schema "$quotedstring" finding) :
    ∀ value ∈ finding.semantics.get? valueKey,
      ∃ token ∈ span.tokens, value = token.raw ∧ isQuoted token.raw.toList = true := by
  generalize hSymbol : "$quotedstring" = symbol at h
  cases h with
  | quotedText single quoted =>
      rintro _ ⟨⟩
      exact ⟨_, mem_tokens_of_single? single, rfl, quoted⟩
  | _ => simp at hSymbol

end Finds

end Annotator

end PlotQuery
