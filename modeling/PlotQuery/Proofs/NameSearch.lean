import Mathlib.Algebra.Order.Field.Basic
import Mathlib.Data.List.MinMax
import PlotQuery.NameMatch
import PlotQuery.Proofs.EditScripts
import PlotQuery.Proofs.ScoreLaws

/-! The search for a name in exact arithmetic. Names that are too short for a text are passed over,
and nothing is lost by it: their distance from the text is greater than their length, so they would
not have been found. -/
namespace PlotQuery

/-- Whether the lower case of each character of a text is one character. -/
def LowersEvenly (text : String) : Prop :=
  ∀ c ∈ text.toList, (Text.lowerChar c).length = 1

instance (text : String) : Decidable (LowersEvenly text) :=
  List.decidableBAll (fun c => (Text.lowerChar c).length = 1) text.toList

theorem LowersEvenly.length_lowerEach {text : String} (h : LowersEvenly text) :
    (Text.lowerEach text.toList).length = Text.size text := by
  rw [Text.lowerEach, List.length_flatMap, List.map_congr_left h, List.map_const',
    List.sum_replicate_nat, Nat.mul_one, Text.size]

namespace NameMatch

/-- One less the distance of a name from a text per character of the name. -/
def likeness (text name : String) : ℚ :=
  1 - (EditDistance.ofTexts text name : ℚ) / (Text.size name : ℚ)

def ofName (text name : String) : NameMatch ℚ :=
  ⟨name, likeness text name⟩

/-- The first of the names that are most like a text, among all that are not empty and like it at
all. -/
def mostAlike? (text : String) (names : List String) : Option String :=
  (names.filter fun name => name ≠ "" ∧ 0 < likeness text name).argmax (likeness text)

/-- The search among names of any length. -/
def plainBest? (text : String) (names : List String) (threshold : ℚ) : Option (NameMatch ℚ) :=
  ((mostAlike? text names).filter (threshold ≤ likeness text ·)).map (ofName text)

def moreAlike (text : String) (best : Option String) (name : String) : Option String :=
  match best with
  | none => some name
  | some found => if likeness text found < likeness text name then some name else some found

variable {text name : String} {names : List String}

theorem size_pos_iff : 0 < Text.size name ↔ name ≠ "" := by
  rw [Text.size, List.length_pos_iff, Ne, String.toList_eq_nil_iff]

/-- For a name that is not empty the similarity is the plain one. -/
theorem similarity_of_ne_empty (h : name ≠ "") :
    (PlotQuery.similarity text name : ℚ) = likeness text name := by
  rw [PlotQuery.similarity, if_neg (size_pos_iff.2 h).ne']
  rfl

theorem similarity_empty (text : String) : (PlotQuery.similarity text "" : ℚ) = 0 := by
  rw [PlotQuery.similarity, if_pos (by rfl)]
  rfl

/-- A name that is too short is further from the text than it is long. So it is not like the text
at all, and leaving it out changes nothing. -/
theorem isEligible_of_likeness_pos (hText : LowersEvenly text) (hName : LowersEvenly name)
    (hSome : name ≠ "") (hLike : 0 < likeness text name) : isEligible text name = true := by
  have hSize : (0 : ℚ) < Text.size name := by exact_mod_cast size_pos_iff.2 hSome
  have hNear : EditDistance.ofTexts text name < Text.size name := by
    rw [likeness, sub_pos, div_lt_one hSize] at hLike
    exact_mod_cast hLike
  have hLengths : Text.size text ≤ EditDistance.ofTexts text name + Text.size name := by
    rw [← hText.length_lowerEach, ← hName.length_lowerEach]
    exact EditDistance.length_le_between_add _ _
  rw [isEligible, decide_eq_true_iff]
  omega

/-- The name most alike is like the text at all, or there would be none. -/
theorem likeness_pos_of_mostAlike? (h : mostAlike? text names = some name) :
    0 < likeness text name := by
  have hMem := List.argmax_mem h
  rw [List.mem_filter, decide_eq_true_iff] at hMem
  exact hMem.2.2

/-- One more name is the most alike if it is more like the text than all before it. -/
theorem mostAlike?_concat (text : String) (names : List String) (name : String) :
    mostAlike? text (names ++ [name]) =
      if name ≠ "" ∧ 0 < likeness text name then moreAlike text (mostAlike? text names) name
      else mostAlike? text names := by
  rw [mostAlike?, List.filter_append, List.filter_singleton]
  by_cases hLike : name ≠ "" ∧ 0 < likeness text name
  · rw [if_pos hLike, decide_eq_true hLike, cond_true, List.argmax_concat, ← mostAlike?]
    cases mostAlike? text names <;> rfl
  · rw [if_neg hLike, decide_eq_false hLike, cond_false, List.append_nil]
    rfl

/-- A name that is like the text at all is never passed over for its length. It takes the place of
the best name so far if it is more like the text. -/
theorem better_of_likeness_pos (hText : LowersEvenly text) (hName : LowersEvenly name)
    (best : Option String) (hSome : name ≠ "") (hLike : 0 < likeness text name) :
    better text (best.map (ofName text)) name = (moreAlike text best name).map (ofName text) := by
  rw [better, if_pos (isEligible_of_likeness_pos hText hName hSome hLike),
    similarity_of_ne_empty hSome]
  cases best with
  | none => exact if_pos (decide_eq_true hLike)
  | some found =>
      by_cases hMore : likeness text found < likeness text name
      · rw [moreAlike, if_pos hMore]
        exact if_pos (decide_eq_true hMore)
      · rw [moreAlike, if_neg hMore]
        exact if_neg (mt of_decide_eq_true hMore)

/-- A name that is not like the text at all is never taken. It cannot exceed the similarity of
zero that the search starts from. -/
theorem better_of_not_likeness_pos {best : Option String}
    (hBest : ∀ found ∈ best, 0 < likeness text found)
    (hNot : ¬(name ≠ "" ∧ 0 < likeness text name)) :
    better text (best.map (ofName text)) name = best.map (ofName text) := by
  have hLow : (PlotQuery.similarity text name : ℚ) ≤ 0 := by
    by_cases hSome : name = ""
    · rw [hSome, similarity_empty]
    · rw [similarity_of_ne_empty hSome]
      exact not_lt.1 fun hLike => hNot ⟨hSome, hLike⟩
  have hBound : 0 ≤ bound (best.map (ofName text)) := by
    cases best with
    | none => exact le_rfl
    | some found => exact (hBest found rfl).le
  rw [better]
  split
  · exact if_neg (mt of_decide_eq_true (hLow.trans hBound).not_gt)
  · rfl

/-- The search finds the first of the names most alike, without any regard to lengths. By
induction on the names, with the last one taken apart. -/
theorem foldl_better_eq_mostAlike? (hText : LowersEvenly text)
    (hNames : ∀ name ∈ names, LowersEvenly name) :
    names.foldl (better text) none = (mostAlike? text names).map (ofName text) := by
  induction names using List.reverseRecOn with
  | nil => rfl
  | append_singleton names name ih =>
      have hName : LowersEvenly name := hNames name (by simp)
      rw [List.foldl_concat, ih fun earlier hMem => hNames earlier (List.mem_append_left _ hMem),
        mostAlike?_concat]
      split
      · next hLike => exact better_of_likeness_pos hText hName _ hLike.1 hLike.2
      · next hLike =>
        exact better_of_not_likeness_pos (fun found => likeness_pos_of_mostAlike?) hLike

/-- If case does not change lengths, passing over names of less than half the length of the text
loses nothing: the search finds the first of all names that are most like the text, given that it
reaches the threshold. An empty name is never found, whatever the threshold. -/
theorem best?_eq_plainBest? (hText : LowersEvenly text)
    (hNames : ∀ name ∈ names, LowersEvenly name) (threshold : ℚ) :
    best? text names threshold = plainBest? text names threshold := by
  rw [best?, foldl_better_eq_mostAlike? hText hNames, plainBest?, Option.filter_map]
  rfl

/-- Two of the names are too short for the text, one is empty, and two are equally like it. -/
theorem best?_eq_plainBest?_milesPerGalon :
    LowersEvenly "Miles per galon" ∧
    (∀ name ∈ ["MPG", "", "Miles", "miles per gallon", "Miles per Gallon"], LowersEvenly name) ∧
    isEligible "Miles per galon" "Miles" = false ∧
    (best? "Miles per galon" ["MPG", "", "Miles", "miles per gallon", "Miles per Gallon"]
      (1 / 2 : ℚ)).map (fun found => (found.name, found.similarity)) =
        some ("miles per gallon", 15 / 16) ∧
    best? "Miles per galon" ["MPG", "", "Miles", "miles per gallon", "Miles per Gallon"]
        (1 / 2 : ℚ) =
      plainBest? "Miles per galon" ["MPG", "", "Miles", "miles per gallon", "Miles per Gallon"]
        (1 / 2) := by
  have hText : LowersEvenly "Miles per galon" := by decide +kernel
  have hNames : ∀ name ∈ ["MPG", "", "Miles", "miles per gallon", "Miles per Gallon"],
      LowersEvenly name := by decide +kernel
  refine ⟨hText, hNames, by decide +kernel, ?_, best?_eq_plainBest? hText hNames _⟩
  decide +kernel

/-- A dotted capital I gets longer in lower case. A name of two of them is passed over for a text of
five characters, from which it differs by one. -/
example :
    let name := String.ofList [Char.ofNat 0x130, Char.ofNat 0x130]
    let text := String.ofList ['i', Char.ofNat 0x307, 'i', Char.ofNat 0x307, 's']
    (best? text [name] (1 / 2 : ℚ)).isNone ∧ (plainBest? text [name] (1 / 2)).isSome := by
  decide +kernel

end NameMatch

end PlotQuery
