import PlotQuery.Annotator.Number
import PlotQuery.Plot.Binning
import PlotQuery.Proofs.FiniteNumbers
import PlotQuery.Proofs.NumberTexts

/-! The bins of a histogram, by the part of the map that settles them. A range has finite ends in order
and bins of a finite positive width, edges are several, and a list of numbers found in a query comes
back as the edges that it names. -/
namespace PlotQuery

/-- Reading a list of texts as numbers succeeds where each of them is one. -/
theorem mapM_eq_some_iff {α β : Type} {f : α → Option β} {l : List α} {r : List β} :
    l.mapM f = some r ↔ l.map f = r.map some := by
  induction l generalizing r with
  | nil => cases r <;> simp
  | cons a l ih =>
      rw [List.mapM_cons, List.map_cons]
      cases r with
      | nil => cases f a <;> cases l.mapM f <;> simp
      | cons b r =>
          rw [List.map_cons, List.cons.injEq, ← ih]
          cases f a <;> cases l.mapM f <;> simp

namespace Text

/-- A separator makes at least two pieces. -/
theorem two_le_length_split {separator : Char} {text : String} (h : separator ∈ text.toList) :
    2 ≤ (split separator text).length := by
  obtain ⟨before, after, hText⟩ := List.append_of_mem h
  have hFirst := List.length_pos_iff.2 (List.splitOn_ne_nil separator before)
  have hSecond := List.length_pos_iff.2 (List.splitOn_ne_nil separator after)
  rw [split, List.length_map, hText, List.splitOn_append_cons_self, List.length_append]
  omega

/-- Two pieces or more have a separator between them. -/
theorem separator_mem_join {separator : Char} {pieces : List String} (h : 2 ≤ pieces.length) :
    separator ∈ (join (String.singleton separator) pieces).toList := by
  match pieces, h with
  | first :: next :: rest, _ => simp [join]

end Text

/-- A schema that knows only ranges between finite numbers in order. -/
def Schema.HasProperRanges {S : Type} [Scalar S] (schema : Schema S) : Prop :=
  ∀ profile ∈ schema.profiles, ∀ low high, profile.range = some (low, high) →
    Scalar.isFinite low = true ∧ Scalar.isFinite high = true ∧ Scalar.le low high = true

/-- The range of a column is that of the schema, so it is finite and in order. -/
theorem Schema.HasProperRanges.range? {S : Type} [Scalar S] {schema : Schema S} {name : String}
    {low high : S} (h : schema.HasProperRanges) (hRange : schema.range? name = some (low, high)) :
    Scalar.isFinite low = true ∧ Scalar.isFinite high = true ∧ Scalar.le low high = true := by
  obtain ⟨profile, hProfile, hRange⟩ := Option.bind_eq_some_iff.1 hRange
  obtain ⟨i, -, hi⟩ := Option.bind_eq_some_iff.1 hProfile
  exact h profile (List.mem_of_getElem? hi) low high hRange

/-- A table of cars in which one column has a range. -/
def carSchema : Schema Float :=
  ⟨"cars", ["Name", "Horsepower"], [], [⟨"object", none⟩, ⟨"float64", some (46, 230)⟩]⟩

namespace Binning

section Comparing

variable {S : Type} [Scalar S] {first second : S}

/-- A range between finite ends in order, with bins of a finite positive width if one is given. -/
structure IsProper (start stop : S) (step : Option S) : Prop where
  start_finite : Scalar.isFinite start = true
  stop_finite : Scalar.isFinite stop = true
  ordered : Scalar.le start stop = true
  width_proper : ∀ width ∈ step, Scalar.isFinite width = true ∧ Scalar.lt Scalar.zero width = true

/-- A range goes from one of its ends to the other. Two numbers are ends in either order. -/
theorem exists_between_eq (first second : S) (step : Option S) :
    ∃ start stop, between first second step = .range start stop step ∧
      (start = first ∧ stop = second ∧ Scalar.lt second first = false ∨
        start = second ∧ stop = first ∧ Scalar.lt second first = true) := by
  cases hLess : Scalar.lt second first with
  | false => exact ⟨first, second, by simp [between, hLess], .inl ⟨rfl, rfl, rfl⟩⟩
  | true => exact ⟨second, first, by simp [between, hLess], .inr ⟨rfl, rfl, rfl⟩⟩

variable [FiniteScalar S]

/-- A width is a finite number above zero. It is the magnitude of the number that is given, and a
zero gives none. -/
theorem width_proper_of_width? {n : Option S} (hFinite : ∀ m ∈ n, Scalar.isFinite m = true) :
    ∀ width ∈ width? n, Scalar.isFinite width = true ∧ Scalar.lt Scalar.zero width = true := by
  intro width hWidth
  obtain ⟨hAbs, hPositive⟩ := Option.filter_eq_some_iff.1 hWidth
  obtain ⟨m, hm, rfl⟩ := Option.map_eq_some_iff.1 hAbs
  exact ⟨FiniteScalar.isFinite_abs (hFinite m hm), hPositive⟩

/-- A range between two finite numbers has them as its ends in order. -/
theorem isProper_of_between_eq {start stop : S} {step step' : Option S}
    (hFirst : Scalar.isFinite first = true) (hSecond : Scalar.isFinite second = true)
    (hStep : ∀ width ∈ step, Scalar.isFinite width = true ∧ Scalar.lt Scalar.zero width = true)
    (h : between first second step = .range start stop step') :
    IsProper start stop step' ∧
      (start = first ∧ stop = second ∨ start = second ∧ stop = first) := by
  obtain ⟨low, high, hRange, hEnds⟩ := exists_between_eq first second step
  rw [hRange] at h
  cases h
  rcases hEnds with ⟨rfl, rfl, hLess⟩ | ⟨rfl, rfl, hLess⟩
  · exact ⟨⟨hFirst, hSecond, FiniteScalar.le_of_not_lt hSecond hFirst hLess, hStep⟩,
      .inl ⟨rfl, rfl⟩⟩
  · exact ⟨⟨hSecond, hFirst, FiniteScalar.le_of_lt hLess, hStep⟩, .inr ⟨rfl, rfl⟩⟩

end Comparing

section Single

variable {S : Type} [ScalarText S] {value : String} {bins : Binning S}

/-- A single value is a number of bins, or edges of which there are several. Several edges need a
separator, and a number of bins has none. -/
theorem edges_or_count_of_ofSingle? (h : ofSingle? value = some bins) :
    (∃ edges, bins = .edges edges ∧ 2 ≤ edges.length) ∨ ∃ count, bins = .count count := by
  rw [ofSingle?] at h
  split at h
  · next hComma =>
    obtain ⟨edges, hEdges, rfl⟩ := Option.map_eq_some_iff.1 h
    have hLength := congrArg List.length (mapM_eq_some_iff.1 hEdges)
    rw [List.length_map, List.length_map] at hLength
    exact .inl ⟨edges, rfl, hLength ▸ Text.two_le_length_split (List.contains_iff_mem.1 hComma)⟩
  · obtain ⟨count, -, rfl⟩ := Option.map_eq_some_iff.1 h
    exact .inr ⟨count, rfl⟩

end Single

/-- A width without ends is put to the range of the first column, if this has one. -/
theorem overColumn?_eq_some_iff {S : Type} {schema : Schema S} {columns : List String}
    {step : Option S} {bins : Binning S} :
    overColumn? schema columns step = some bins ↔ ∃ width name low high, step = some width ∧
      columns.head? = some name ∧ schema.range? name = some (low, high) ∧
      bins = .range low high (some width) := by
  constructor
  · intro h
    obtain ⟨width, hWidth, h⟩ := Option.bind_eq_some_iff.1 h
    obtain ⟨name, hName, h⟩ := Option.bind_eq_some_iff.1 h
    obtain ⟨low, hLow, h⟩ := Option.bind_eq_some_iff.1 h
    obtain ⟨high, hHigh, h⟩ := Option.bind_eq_some_iff.1 h
    obtain ⟨⟨_, _⟩, hRange, rfl⟩ := Option.map_eq_some_iff.1 hLow
    rw [Schema.greatest?, hRange] at hHigh
    cases hHigh
    exact ⟨width, name, _, _, hWidth, hName, hRange, (Option.some.inj h).symm⟩
  · rintro ⟨width, name, low, high, rfl, hName, hRange, rfl⟩
    simp [overColumn?, hName, Schema.least?, Schema.greatest?, hRange]

variable {S : Type} [Scalar S] [ScalarText S] {schema : Schema S} {columns : List String}
  {s : Semantics} {bins : Binning S}

/-- Whether a map has finite numbers for both ends of a range. -/
def HasPair (S : Type) [Scalar S] [ScalarText S] (s : Semantics) : Prop :=
  (number? s "bin_pair_first" : Option S).isSome ∧ (number? s "bin_pair_second" : Option S).isSome

instance (s : Semantics) : Decidable (HasPair S s) :=
  inferInstanceAs (Decidable (_ ∧ _))

/-- The bins that a map asks for: a range between two numbers, what a single value says, or bins of a
given width over the range of the first column. -/
inductive AskedBy (schema : Schema S) (columns : List String) (s : Semantics) : Binning S → Prop where
  | pair {first second : S} (hFirst : number? s "bin_pair_first" = some first)
      (hSecond : number? s "bin_pair_second" = some second) :
      AskedBy schema columns s (between first second
        (width? ((number? s "bin_pair_step").or (number? s "bin_single"))))
  | single {value : String} {bins : Binning S} (noPair : ¬HasPair S s)
      (given : s.get? "bin_single" = some value) (read : ofSingle? value = some bins) :
      AskedBy schema columns s bins
  | column {name : String} {low high width : S} (noPair : ¬HasPair S s)
      (noSingle : s.get? "bin_single" = none)
      (hWidth : width? (number? s "bin_pair_step") = some width) (hColumn : columns.head? = some name)
      (hRange : schema.range? name = some (low, high)) :
      AskedBy schema columns s (.range low high (some width))

/-- Without the key for bins nothing else in the map is looked at. -/
theorem ofSemantics?_of_not_contains (h : s.contains "histobins" = false) :
    ofSemantics? schema columns s = none := by
  rw [ofSemantics?, h]
  rfl

/-- Two numbers for the ends come first. The width then is that of the pair, or the single number
if the pair has none. -/
theorem ofSemantics?_of_pair {first second : S} (h : s.contains "histobins" = true)
    (hFirst : number? s "bin_pair_first" = some first)
    (hSecond : number? s "bin_pair_second" = some second) :
    ofSemantics? schema columns s = some (between first second
      (width? ((number? s "bin_pair_step").or (number? s "bin_single")))) := by
  rw [ofSemantics?, if_pos h, hFirst, hSecond]

/-- Without two numbers for the ends a single value comes next, and the range of a column last. -/
theorem ofSemantics?_of_not_hasPair (h : s.contains "histobins" = true) (hPair : ¬HasPair S s) :
    ofSemantics? schema columns s =
      match s.get? "bin_single" with
      | some value => ofSingle? value
      | none => overColumn? schema columns (width? (number? s "bin_pair_step")) := by
  rw [ofSemantics?, if_pos h]
  split
  · next hFirst hSecond => exact absurd ⟨by rw [hFirst]; rfl, by rw [hSecond]; rfl⟩ hPair
  · rfl

/-- The bins are settled by the first of the three sources that the map has. The later sources are
not looked at. -/
theorem ofSemantics?_eq_some_iff : ofSemantics? schema columns s = some bins ↔
    s.contains "histobins" = true ∧ AskedBy schema columns s bins := by
  constructor
  · intro h
    have hBins : s.contains "histobins" = true := by
      by_contra hNot
      rw [ofSemantics?_of_not_contains (Bool.not_eq_true _ ▸ hNot)] at h
      cases h
    refine ⟨hBins, ?_⟩
    by_cases hPair : HasPair S s
    · obtain ⟨first, hFirst⟩ := Option.isSome_iff_exists.1 hPair.1
      obtain ⟨second, hSecond⟩ := Option.isSome_iff_exists.1 hPair.2
      rw [ofSemantics?_of_pair hBins hFirst hSecond] at h
      obtain rfl := Option.some.inj h
      exact .pair hFirst hSecond
    · rw [ofSemantics?_of_not_hasPair hBins hPair] at h
      cases hSingle : s.get? "bin_single" with
      | some value =>
          rw [hSingle] at h
          exact .single hPair hSingle h
      | none =>
          rw [hSingle] at h
          obtain ⟨width, name, low, high, hWidth, hName, hRange, rfl⟩ :=
            overColumn?_eq_some_iff.1 h
          exact .column hPair hSingle hWidth hName hRange
  · rintro ⟨hBins, hAsked⟩
    cases hAsked with
    | pair hFirst hSecond => exact ofSemantics?_of_pair hBins hFirst hSecond
    | single noPair given read =>
        rw [ofSemantics?_of_not_hasPair hBins noPair, given]
        exact read
    | column noPair noSingle hWidth hColumn hRange =>
        rw [ofSemantics?_of_not_hasPair hBins noPair, noSingle]
        exact overColumn?_eq_some_iff.2 ⟨_, _, _, _, hWidth, hColumn, hRange, rfl⟩

/-- A number in a map is finite, as any other is passed over when it is read. -/
theorem isFinite_of_number? {key : String} {n : S} (h : number? s key = some n) :
    Scalar.isFinite n = true := by
  obtain ⟨value, -, hValue⟩ := Option.bind_eq_some_iff.1 h
  exact (Option.filter_eq_some_iff.1 hValue).2

/-- The width that goes with two ends comes from a finite number. -/
theorem isFinite_of_mem_or :
    ∀ n ∈ (number? s "bin_pair_step" : Option S).or (number? s "bin_single"),
      Scalar.isFinite n = true := by
  intro n hn
  rcases Option.or_eq_some_iff.1 hn with hStep | ⟨-, hSingle⟩
  · exact isFinite_of_number? hStep
  · exact isFinite_of_number? hSingle

/-- Edges come from a single value with a separator, so there are two at least. -/
theorem AskedBy.two_le_length {edges : List S} (h : AskedBy schema columns s (.edges edges)) :
    2 ≤ edges.length := by
  generalize hBins : Binning.edges edges = bins at h
  cases h with
  | @pair first second _ _ =>
      obtain ⟨start, stop, hRange, -⟩ := exists_between_eq first second
        (width? ((number? s "bin_pair_step").or (number? s "bin_single")))
      rw [hRange] at hBins
      cases hBins
  | single _ _ read =>
      rcases edges_or_count_of_ofSingle? read with ⟨edges', rfl, hLength⟩ | ⟨count, rfl⟩
      · cases hBins
        exact hLength
      · cases hBins
  | column => cases hBins

/-- Where the ends of a range come from, with or without numbers for both of them. -/
def EndsGiven (schema : Schema S) (columns : List String) (s : Semantics) (start stop : S)
    (step : Option S) : Prop :=
  (∃ first second, number? s "bin_pair_first" = some first ∧
      number? s "bin_pair_second" = some second ∧
      (start = first ∧ stop = second ∨ start = second ∧ stop = first)) ∨
    ¬HasPair S s ∧ ∃ name width, columns.head? = some name ∧ schema.least? name = some start ∧
      schema.greatest? name = some stop ∧ step = some width

/-- A range is proper, be it between two numbers of the map or over a column. -/
theorem AskedBy.isProper [FiniteScalar S] {start stop : S} {step : Option S}
    (hRanges : schema.HasProperRanges) (h : AskedBy schema columns s (.range start stop step)) :
    IsProper start stop step ∧ EndsGiven schema columns s start stop step := by
  generalize hBins : Binning.range start stop step = bins at h
  cases h with
  | pair hFirst hSecond =>
      have hProper := isProper_of_between_eq (isFinite_of_number? hFirst)
        (isFinite_of_number? hSecond) (width_proper_of_width? isFinite_of_mem_or) hBins.symm
      exact ⟨hProper.1, .inl ⟨_, _, hFirst, hSecond, hProper.2⟩⟩
  | single _ _ read =>
      rcases edges_or_count_of_ofSingle? read with ⟨edges, rfl, -⟩ | ⟨count, rfl⟩ <;> cases hBins
  | @column name low high width noPair _ hWidth hColumn hRange =>
      cases hBins
      obtain ⟨hLow, hHigh, hOrdered⟩ := hRanges.range? hRange
      have hProper := width_proper_of_width? (fun _ => isFinite_of_number?) width hWidth
      refine ⟨⟨hLow, hHigh, hOrdered, fun w hw => Option.some.inj hw ▸ hProper⟩, .inr ⟨noPair, name,
        width, hColumn, ?_, ?_, rfl⟩⟩
      · rw [Schema.least?, hRange, Option.map_some]
      · rw [Schema.greatest?, hRange, Option.map_some]

/-- Every binning is well formed. A range has finite ends in order and a finite positive width if
any: it lies between the two numbers of the map if there are two, and else it is the range of the
first column, with a width. Edges are two or more, and without a request for bins there are none.
Nothing is asked of the map. -/
theorem ofSemantics?_wellFormed [FiniteScalar S] (schema : Schema S) (hRanges : schema.HasProperRanges)
    (columns : List String) (s : Semantics) :
    (∀ start stop step, ofSemantics? schema columns s = some (.range start stop step) →
      IsProper start stop step ∧ EndsGiven schema columns s start stop step) ∧
    (s.contains "histobins" = true → HasPair S s → ∃ start stop step,
      ofSemantics? schema columns s = some (.range start stop step)) ∧
    (∀ edges, ofSemantics? schema columns s = some (.edges edges) → 2 ≤ edges.length) ∧
    (s.contains "histobins" = false → ofSemantics? schema columns s = none) := by
  refine ⟨fun start stop step h => ?_, fun hBins hPair => ?_, fun edges h => ?_,
    ofSemantics?_of_not_contains⟩
  · exact (ofSemantics?_eq_some_iff.1 h).2.isProper hRanges
  · obtain ⟨first, hFirst⟩ := Option.isSome_iff_exists.1 hPair.1
    obtain ⟨second, hSecond⟩ := Option.isSome_iff_exists.1 hPair.2
    obtain ⟨start, stop, hRange, -⟩ := exists_between_eq first second
      (width? ((number? s "bin_pair_step").or (number? s "bin_single")))
    exact ⟨start, stop, _, (ofSemantics?_of_pair hBins hFirst hSecond).trans (congrArg some hRange)⟩
  · exact (ofSemantics?_eq_some_iff.1 h).2.two_le_length

deriving instance DecidableEq for Binning

/-- Bins between two numbers that are given the wrong way round, with a negative width. -/
def reversedRange : Semantics :=
  .ofList [("histobins", "true"), ("bin_pair_first", "20"), ("bin_pair_second", " -5 "),
    ("bin_pair_step", "-2.5")]

/-- One end alone, which says nothing, and a width. -/
def widthOnly : Semantics :=
  .ofList [("histobins", "true"), ("bin_pair_first", "20"), ("bin_pair_second", "inf"),
    ("bin_pair_step", "10")]

/-- Two ends in the wrong order with a negative width, and a width on its own. -/
theorem ofSemantics?_wellFormed_carSchema :
    carSchema.HasProperRanges ∧
    ofSemantics? carSchema ["Horsepower"] reversedRange = some (.range (-5) 20 (some 2.5)) ∧
    IsProper (-5 : Float) 20 (some 2.5) ∧
    ofSemantics? carSchema ["Horsepower"] widthOnly = some (.range 46 230 (some 10)) ∧
    EndsGiven carSchema ["Horsepower"] widthOnly 46 230 (some 10) := by
  have hRanges : carSchema.HasProperRanges := by
    intro profile hProfile low high hRange
    simp only [carSchema, List.mem_cons, List.not_mem_nil, or_false] at hProfile
    rcases hProfile with rfl | rfl
    · cases hRange
    · obtain ⟨rfl, rfl⟩ := Prod.mk.inj (Option.some.inj hRange)
      decide +kernel
  have hReversed : ofSemantics? carSchema ["Horsepower"] reversedRange =
      some (.range (-5) 20 (some 2.5)) := by decide +kernel
  have hWidth : ofSemantics? carSchema ["Horsepower"] widthOnly =
      some (.range 46 230 (some 10)) := by decide +kernel
  exact ⟨hRanges, hReversed,
    ((ofSemantics?_wellFormed carSchema hRanges ["Horsepower"] reversedRange).1 _ _ _ hReversed).1,
    hWidth,
    ((ofSemantics?_wellFormed carSchema hRanges ["Horsepower"] widthOnly).1 _ _ _ hWidth).2⟩

end Binning

/-- A number that is written with digits, a minus sign and a point only, and that is read back. -/
structure ReadsBack {S : Type} [ScalarText S] (n : S) : Prop where
  plain : ∀ c ∈ (ScalarText.text n).toList, c.isDigit = true ∨ c = '-' ∨ c = '.'
  read_text : ScalarText.read? (ScalarText.text n) = some n

namespace ReadsBack

variable {S : Type} [ScalarText S] {n : S}

/-- A number that reads back is written without a comma, so in a row of numbers it is one
piece. -/
theorem comma_not_mem (h : ReadsBack n) : ',' ∉ (ScalarText.text n).toList := by
  intro hComma
  rcases h.plain ',' hComma with hDigit | hMinus | hPoint
  · exact absurd hDigit (by decide)
  · exact absurd hMinus (by decide)
  · exact absurd hPoint (by decide)

/-- A number that reads back does so after its text has been trimmed. -/
theorem read_trimmed_text (h : ReadsBack n) :
    ScalarText.read? (Text.trimmed (ScalarText.text n)) = some n := by
  have hTrim : Text.trim (ScalarText.text n).toList = (ScalarText.text n).toList := by
    refine Text.trim_of_forall fun c hc => ?_
    rcases h.plain c hc with hDigit | rfl | rfl
    · exact (Decimal.not_blank_of_isPositional (by rw [Decimal.isPositional, hDigit]; rfl)).2
    · decide
    · decide
  rw [Text.trimmed, hTrim, String.ofList_toList]
  exact h.read_text

end ReadsBack

namespace Binning

/-- Numbers that are written in a row are read as edges. This is what puts the list of the
annotator and the reading of bins together. -/
theorem ofSingle?_join {S : Type} [ScalarText S] {numbers : List S} (hMore : 2 ≤ numbers.length)
    (hText : ∀ n ∈ numbers, ReadsBack n) :
    ofSingle? (Text.join "," (numbers.map ScalarText.text)) = some (.edges numbers) := by
  have hSeparator : "," = String.singleton ',' := rfl
  have hSome : numbers.map ScalarText.text ≠ [] := by
    rw [← List.length_pos_iff, List.length_map]
    omega
  have hComma : ',' ∈ (Text.join (String.singleton ',') (numbers.map ScalarText.text)).toList :=
    Text.separator_mem_join (by rwa [List.length_map])
  have hSplit : Text.split ',' (Text.join (String.singleton ',') (numbers.map ScalarText.text)) =
      numbers.map ScalarText.text := by
    refine Text.split_join hSome fun text hMem => ?_
    obtain ⟨n, hn, rfl⟩ := List.mem_map.1 hMem
    exact (hText n hn).comma_not_mem
  have hRead : ((numbers.map ScalarText.text).mapM fun edge =>
      (ScalarText.read? (Text.trimmed edge) : Option S)) = some numbers := by
    rw [mapM_eq_some_iff, List.map_map]
    exact List.map_congr_left fun n hn => (hText n hn).read_trimmed_text
  rw [hSeparator, ofSingle?, if_pos (List.contains_iff_mem.2 hComma), hSplit, hRead]
  rfl

end Binning

namespace Annotator

variable {S : Type} [Scalar S] [ScalarText S]

def numbersIn (S : Type) [Scalar S] [ScalarText S] (tokens : List Token) : List S :=
  tokens.filterMap fun token => finite? token.normal

theorem numberTexts_eq_map (tokens : List Token) :
    numberTexts S tokens = (numbersIn S tokens).map ScalarText.text :=
  List.map_filterMap.symm

/-- A token counts as a number only if it is finite. -/
theorem isFinite_of_mem_numbersIn {tokens : List Token} {n : S} (h : n ∈ numbersIn S tokens) :
    Scalar.isFinite n = true := by
  obtain ⟨token, -, hNumber⟩ := List.mem_filterMap.1 h
  exact (Option.filter_eq_some_iff.1 hNumber).2

/-- A list of numbers has three of them at least, and its value is their texts in a row. -/
theorem of_numberList_eq_some {span : Query} {schema : Schema S} {finding : Finding S}
    (h : numberList.annotate span schema = some finding) :
    3 ≤ (numbersIn S span.tokens).length ∧ finding.semantics.get? valueKey =
      some (Text.join "," ((numbersIn S span.tokens).map ScalarText.text)) := by
  simp only [numberList] at h
  split at h
  · next hAccepted =>
    have hThree : 3 ≤ (numberTexts S span.tokens).length :=
      of_decide_eq_true (Bool.and_eq_true_iff.1 hAccepted).2
    rw [numberTexts_eq_map, List.length_map] at hThree
    obtain rfl := Option.some.inj h
    refine ⟨hThree, ?_⟩
    rw [← numberTexts_eq_map, Finding.rated, Finding.ofValue, Semantics.get?_insert, if_pos rfl]
  · cases h

/-- A list of numbers that is found in a query comes back as edges: whatever else a map says, if its
single value is the text of the list and it has no numbers for both ends of a range, then the bins have
the numbers of the list as their edges, in order, and these are three finite numbers or more. -/
theorem edges_of_numberList (span : Query) (schema schema' : Schema S) (columns : List String)
    {finding : Finding S} (hFinding : numberList.annotate span schema = some finding)
    (hText : ∀ n ∈ numbersIn S span.tokens, ReadsBack n) :
    3 ≤ (numbersIn S span.tokens).length ∧
    (∀ n ∈ numbersIn S span.tokens, Scalar.isFinite n = true) ∧
    ∃ value, finding.semantics.get? valueKey = some value ∧
      ∀ s : Semantics, s.contains "histobins" = true → s.get? "bin_single" = some value →
        ¬Binning.HasPair S s →
        Binning.ofSemantics? schema' columns s = some (.edges (numbersIn S span.tokens)) := by
  obtain ⟨hThree, hValue⟩ := of_numberList_eq_some hFinding
  refine ⟨hThree, fun n => isFinite_of_mem_numbersIn, _, hValue, fun s hBins hSingle hPair => ?_⟩
  exact Binning.ofSemantics?_eq_some_iff.2 ⟨hBins, .single hPair hSingle
    (Binning.ofSingle?_join (Nat.le_of_succ_le hThree) hText)⟩

/-- A map with a list of edges beside one end of a range. -/
def edgesAndEnd : Semantics :=
  .ofList [("histobins", "true"), ("bin_single", "-5,0.5,10,2"), ("bin_pair_first", "3")]

/-- A list with a gap, in which numbers are not written in their shortest form. -/
def gappedList : Query :=
  .ofText "-5 .50 1E1 to 2.0"

/-- A list with a word inside and with numbers out of order, in a map that also has a number for
one end of a range. -/
theorem edges_of_numberList_gappedList :
    ∃ finding : Finding Float, numberList.annotate gappedList carSchema = some finding ∧
      (∀ n ∈ numbersIn Float gappedList.tokens, ReadsBack n) ∧
      edgesAndEnd.contains "histobins" = true ∧
      edgesAndEnd.get? "bin_single" = finding.semantics.get? valueKey ∧
      ¬Binning.HasPair Float edgesAndEnd ∧
      numbersIn Float gappedList.tokens = [-5, 0.5, 10, 2] ∧
      Binning.ofSemantics? carSchema ["Horsepower"] edgesAndEnd =
        some (.edges (numbersIn Float gappedList.tokens)) := by
  have hNumbers : numbersIn Float gappedList.tokens = [-5, 0.5, 10, 2] := by decide +kernel
  have hText : ∀ n ∈ numbersIn Float gappedList.tokens, ReadsBack n := by
    have hAll : ∀ n ∈ ([-5, 0.5, 10, 2] : List Float),
        ((ScalarText.text n).toList.all fun c => c.isDigit || (c == '-' || c == '.')) = true ∧
          ScalarText.read? (ScalarText.text n) = some n := by decide +kernel
    rw [hNumbers]
    exact fun n hn => ⟨by simpa using (hAll n hn).1, (hAll n hn).2⟩
  have hBins : edgesAndEnd.contains "histobins" = true := by decide +kernel
  have hPair : ¬Binning.HasPair Float edgesAndEnd := by decide +kernel
  obtain ⟨finding, hFinding⟩ := Option.isSome_iff_exists.1
    (show (numberList.annotate gappedList carSchema).isSome = true by decide +kernel)
  obtain ⟨-, -, value, hValue, hEdges⟩ :=
    edges_of_numberList gappedList carSchema carSchema ["Horsepower"] hFinding hText
  have hSame : (numberList.annotate gappedList carSchema).bind (·.semantics.get? valueKey) =
      edgesAndEnd.get? "bin_single" := by decide +kernel
  rw [hFinding, Option.bind_some] at hSame
  exact ⟨finding, hFinding, hText, hBins, hSame.symm, hPair, hNumbers,
    hEdges edgesAndEnd hBins (hSame.symm.trans hValue) hPair⟩

end Annotator

end PlotQuery
