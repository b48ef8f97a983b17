import PlotQuery.Annotator.Column
import PlotQuery.Proofs.ExactShares
import PlotQuery.Proofs.NameSearch

/-! Names that a text spells exactly, in any case. The first of them is always found, with the full
similarity. Lengths are counted before case is put aside, and a character may become two characters in
lower case, so that a name may be half as long as a text that spells it, but never shorter. -/
namespace PlotQuery

namespace Text

/-- A character becomes one or two characters in lower case. The dotted capital I is one that
becomes two. -/
theorem length_lowerChar (c : Char) : (lowerChar c).length = 1 ∨ (lowerChar c).length = 2 := by
  rw [lowerChar]
  split
  · exact .inr rfl
  · exact .inl rfl

/-- A text is not shortened in lower case, and at most doubled. -/
theorem length_lowerEach_bounds (cs : List Char) :
    cs.length ≤ (lowerEach cs).length ∧ (lowerEach cs).length ≤ cs.length * 2 := by
  induction cs with
  | nil => exact ⟨Nat.le_refl _, Nat.le_refl _⟩
  | cons c cs ih =>
      have hFirst := length_lowerChar c
      rw [lowerEach] at ih
      rw [lowerEach, List.flatMap_cons, List.length_append, List.length_cons]
      omega

end Text

namespace NameMatch

/-- A text spells a name, in any case. No text spells the empty name. -/
def IsExact (text name : String) : Prop :=
  name ≠ "" ∧ Text.lowerEach text.toList = Text.lowerEach name.toList

instance (text name : String) : Decidable (IsExact text name) :=
  inferInstanceAs (Decidable (name ≠ "" ∧ Text.lowerEach text.toList = Text.lowerEach name.toList))

/-- The first of the names that a text spells. -/
def exactName? (text : String) (names : List String) : Option String :=
  names.find? fun name => IsExact text name

variable {text name : String} {names : List String}

/-- There is no distance between texts that are the same in lower case, and only between those. -/
theorem ofTexts_eq_zero_iff : EditDistance.ofTexts text name = 0 ↔
    Text.lowerEach text.toList = Text.lowerEach name.toList := by
  have hLeast :=
    EditDistance.isLeast_between (Text.lowerEach text.toList) (Text.lowerEach name.toList)
  constructor
  · exact hLeast.1.eq_of_cost_eq_zero
  · intro hSame
    exact Nat.le_zero.1 (hLeast.2 (hSame ▸ EditDistance.Script.done _))

/-- No name is too short for a text that spells it. Lower case makes a name twice as long at most,
and a text may be as long as that. -/
theorem IsExact.isEligible (h : IsExact text name) : isEligible text name = true := by
  -- The text is no longer than the lower case of both, which is at most twice as long as the name.
  have hText := (Text.length_lowerEach_bounds text.toList).1
  have hName := (Text.length_lowerEach_bounds name.toList).2
  rw [h.2] at hText
  rw [NameMatch.isEligible, decide_eq_true_iff]
  exact hText.trans hName

/-- The full similarity is that of a name which the text spells. The empty name never has it. -/
theorem similarity_eq_one_iff : (PlotQuery.similarity text name : ℚ) = 1 ↔ IsExact text name := by
  by_cases hSome : name = ""
  · subst hSome
    rw [similarity_empty]
    exact iff_of_false (by norm_num) fun h => h.1 rfl
  · have hSize : (Text.size name : ℚ) ≠ 0 := by exact_mod_cast (size_pos_iff.2 hSome).ne'
    rw [similarity_of_ne_empty hSome, likeness, sub_eq_self, div_eq_zero_iff, or_iff_left hSize,
      Nat.cast_eq_zero, ofTexts_eq_zero_iff]
    exact (and_iff_right hSome).symm

theorem similarity_lt_one (h : ¬IsExact text name) : (PlotQuery.similarity text name : ℚ) < 1 :=
  (Annotator.similarity_le_one text name).lt_of_ne (mt similarity_eq_one_iff.1 h)

/-- What a further name has to exceed is less than the full similarity as long as no name has been
spelled. -/
theorem bound_lt_one {best : Option (NameMatch ℚ)} (hBest : ∀ found ∈ best, found.similarity < 1) :
    bound best < 1 := by
  cases best with
  | none => exact zero_lt_one
  | some found => exact hBest found rfl

/-- A name that the text spells is better than any that it does not spell. It takes the place of
the best name so far, if that one is less than fully similar. -/
theorem better_of_isExact {best : Option (NameMatch ℚ)}
    (hBest : ∀ found ∈ best, found.similarity < 1) (h : IsExact text name) :
    better text best name = some ⟨name, 1⟩ := by
  have hBound := bound_lt_one hBest
  rw [better, if_pos h.isEligible, similarity_eq_one_iff.2 h]
  exact if_pos ((Scalar.rat_lt_iff _ _).2 hBound)

/-- A name that is not spelled leaves the best name so far below the full similarity. -/
theorem similarity_lt_one_of_mem_better {best : Option (NameMatch ℚ)}
    (hBest : ∀ found ∈ best, found.similarity < 1) (h : ¬IsExact text name) :
    ∀ found ∈ better text best name, found.similarity < 1 := by
  intro found hFound
  rw [better] at hFound
  split at hFound
  · dsimp only at hFound
    split at hFound
    · obtain rfl := Option.some.inj hFound
      exact similarity_lt_one h
    · exact hBest found hFound
  · exact hBest found hFound

/-- Nothing is better than a name with the full similarity. So the first name of this kind is kept
to the end. -/
theorem foldl_better_of_similarity_eq_one (text : String) (names : List String) (name : String) :
    names.foldl (better text) (some ⟨name, (1 : ℚ)⟩) = some ⟨name, 1⟩ := by
  induction names with
  | nil => rfl
  | cons later names ih =>
      have hStays : better text (some ⟨name, (1 : ℚ)⟩) later = some ⟨name, 1⟩ := by
        rw [better]
        split
        · exact if_neg (mt (Scalar.rat_lt_iff _ _).1 (Annotator.similarity_le_one _ _).not_gt)
        · rfl
      rw [List.foldl_cons, hStays, ih]

/-- From the first name that the text spells on, the search keeps that name. By induction on the
names, where those in front of it stay below the full similarity. -/
theorem foldl_better_of_exactName? {best : Option (NameMatch ℚ)}
    (hBest : ∀ found ∈ best, found.similarity < 1) (hFirst : exactName? text names = some name) :
    names.foldl (better text) best = some ⟨name, 1⟩ := by
  induction names generalizing best with
  | nil => cases hFirst
  | cons first names ih =>
      rw [List.foldl_cons]
      by_cases hExact : IsExact text first
      · obtain rfl : first = name := by
          rw [exactName?, List.find?_cons_of_pos (by simpa using hExact)] at hFirst
          exact Option.some.inj hFirst
        rw [better_of_isExact hBest hExact, foldl_better_of_similarity_eq_one]
      · rw [exactName?, List.find?_cons_of_neg (by simpa using hExact)] at hFirst
        exact ih (similarity_lt_one_of_mem_better hBest hExact) hFirst

/-- The search finds the first name that the text spells, unless the threshold is above the full
similarity. -/
theorem best?_of_exactName? {threshold : ℚ} (hThreshold : threshold ≤ 1)
    (hFirst : exactName? text names = some name) : best? text names threshold = some ⟨name, 1⟩ := by
  rw [best?, foldl_better_of_exactName? (by simp) hFirst, Option.filter_some,
    if_pos ((Scalar.rat_le_iff _ _).2 hThreshold)]

theorem exists_exactName? (h : ∃ name ∈ names, IsExact text name) :
    ∃ name, exactName? text names = some name := by
  rw [← Option.isSome_iff_exists, exactName?, List.find?_isSome]
  simpa using h

/-- With a threshold of at most one, the first name that the text spells is found with the full
similarity, whatever other names there are and whatever lower case does to lengths. Both annotators
for column names then find it among the columns and the loose names, with the full score. -/
theorem exact_name_wins {threshold : ℚ} (hThreshold : threshold ≤ 1) :
    (∀ (text : String) (names : List String), (∃ name ∈ names, IsExact text name) →
      ∃ name, exactName? text names = some name ∧
        best? text names threshold = some ⟨name, 1⟩) ∧
    ∀ (span : Query) (schema : Schema ℚ),
      (∃ name ∈ schema.candidateNames, IsExact span.rawText name) →
      ∃ name, exactName? span.rawText (schema.columns ++ schema.looseNames) = some name ∧
        (Annotator.column threshold).annotate span schema =
          some ⟨(Semantics.empty.insert valueKey name).insert "ColName" name, 1⟩ ∧
        (Annotator.auxiliaryColumn threshold).annotate span schema =
          some ⟨Semantics.empty.insert valueKey name, 1⟩ := by
  constructor
  · intro text names hExact
    obtain ⟨name, hFirst⟩ := exists_exactName? hExact
    exact ⟨name, hFirst, best?_of_exactName? hThreshold hFirst⟩
  · intro span schema hExact
    obtain ⟨name, hFirst⟩ := exists_exactName? hExact
    have hFound : Annotator.matchName threshold span schema = some ⟨name, 1⟩ :=
      best?_of_exactName? hThreshold hFirst
    refine ⟨name, hFirst, ?_, ?_⟩
    · simp only [Annotator.column, hFound, Option.map_some]
      rfl
    · simp only [Annotator.auxiliaryColumn, hFound, Option.map_some]
      rfl

/-- A column and a loose name that begin with a dotted capital I, and another spelling of the latter. -/
def dottedSchema : Schema ℚ :=
  ⟨"cities", ["\u0130s"], ["\u0130\u0130", "i\u0307i\u0307"], []⟩

/-- The text is twice as long as the name that it spells, and it is itself a name further on. -/
theorem exact_name_wins_dottedSchema :
    (Annotator.standardThreshold : ℚ) ≤ 1 ∧
    IsExact "i\u0307i\u0307" "\u0130\u0130" ∧
    Text.size "i\u0307i\u0307" = 2 * Text.size "\u0130\u0130" ∧
    best? "i\u0307i\u0307" dottedSchema.candidateNames (Annotator.standardThreshold : ℚ) =
      some ⟨"\u0130\u0130", 1⟩ ∧
    (Annotator.column Annotator.standardThreshold).annotate
        ⟨[Token.ofWord "i\u0307i\u0307"]⟩ dottedSchema =
      some ⟨(Semantics.empty.insert valueKey "\u0130\u0130").insert "ColName" "\u0130\u0130", 1⟩ := by
  have hThreshold : (Annotator.standardThreshold : ℚ) ≤ 1 := by decide +kernel
  have hExact : IsExact "i\u0307i\u0307" "\u0130\u0130" := by decide
  have hName : "\u0130\u0130" ∈ dottedSchema.candidateNames := by decide
  have hFirst : exactName? "i\u0307i\u0307" dottedSchema.candidateNames = some "\u0130\u0130" := by
    decide
  obtain ⟨hSearch, hAnnotators⟩ := exact_name_wins hThreshold
  refine ⟨hThreshold, hExact, by decide, ?_, ?_⟩
  · obtain ⟨name, hSame, hFound⟩ := hSearch _ _ ⟨_, hName, hExact⟩
    obtain rfl : "\u0130\u0130" = name := Option.some.inj (hFirst.symm.trans hSame)
    exact hFound
  · obtain ⟨name, hSame, hFound, -⟩ :=
      hAnnotators ⟨[Token.ofWord "i\u0307i\u0307"]⟩ dottedSchema ⟨_, hName, hExact⟩
    obtain rfl : "\u0130\u0130" = name := Option.some.inj (hFirst.symm.trans hSame)
    exact hFound

end NameMatch

end PlotQuery
