import Mathlib
import PlotQuery.Proofs.LexemeLayout
import PlotQuery.Query

/-! Stop words in a query. A stop word leaves no token, but it is still part of the text when the end of
the text is stripped. So it can be left out wherever another word follows. As the last word of a text
it keeps the marks in front of it from being stripped. -/
namespace PlotQuery

namespace Text

/-- A Latin letter has one letter as its lower case. -/
theorem lowerChar_of_isAlpha {c : Char} (h : c.isAlpha = true) : lowerChar c = [c.toLower] := by
  have hAscii : ∀ n < 128, lowerChar (Char.ofNat n) = [(Char.ofNat n).toLower] := by decide +kernel
  have hCode : c.toNat < 128 := by
    simp only [Char.isAlpha, Char.isUpper, Char.isLower, Bool.or_eq_true, Bool.and_eq_true,
      decide_eq_true_eq, ge_iff_le, UInt32.le_iff_toNat_le] at h
    have hLast : 'Z'.val.toNat < 128 ∧ 'z'.val.toNat < 128 := by decide
    have hSame : c.toNat = c.val.toNat := rfl
    omega
  simpa using hAscii c.toNat hCode

/-- In a text of Latin letters each is lowered by itself, as none of them depends on its
neighbours. -/
theorem lowerAfter_of_forall_isAlpha (before : List Char) {cs : List Char}
    (h : ∀ c ∈ cs, c.isAlpha = true) : lowerAfter before cs = cs.map Char.toLower := by
  induction cs generalizing before with
  | nil => rfl
  | cons c cs ih =>
      obtain ⟨hFirst, hRest⟩ := List.forall_mem_cons.1 h
      have hSigma : c ≠ capitalSigma := by
        rintro rfl
        exact absurd hFirst (by decide)
      rw [lowerAfter, if_neg hSigma, lowerChar_of_isAlpha hFirst, ih _ hRest]
      rfl

/-- A character that is its own lower case stays in the text. Only the lower case of a capital
sigma depends on its neighbours. -/
theorem mem_lowerAfter {c : Char} (hSame : lowerChar c = [c]) (hSigma : c ≠ capitalSigma)
    (before : List Char) {cs : List Char} (hc : c ∈ cs) : c ∈ lowerAfter before cs := by
  induction cs generalizing before with
  | nil => cases hc
  | cons d cs ih =>
      rw [lowerAfter]
      rcases List.mem_cons.1 hc with rfl | hc
      · rw [if_neg hSigma, hSame]
        exact List.mem_cons_self
      · split
        · exact List.mem_cons_of_mem _ (ih _ hc)
        · exact List.mem_append_right _ (ih _ hc)

end Text

namespace Query

open Text

/-- A stop word in small or capital letters. -/
def IsStopWord (word : String) : Prop :=
  ∃ stop ∈ stopWords, word.toList.map Char.toLower = stop.toList

instance (word : String) : Decidable (IsStopWord word) :=
  inferInstanceAs (Decidable (∃ stop ∈ stopWords, word.toList.map Char.toLower = stop.toList))

def isGap (c : Char) : Bool :=
  c == ' ' || c == '\t'

def isMark (c : Char) : Bool :=
  c == '.' || c == '?'

/-- A character that is stripped from the end of a query. -/
def isTrailing (c : Char) : Bool :=
  isBlank c || isMark c

/-- Whether a text, but for spaces and tabs, has nothing at its end to be stripped. -/
def EndsPlainly (text : String) : Prop :=
  ∀ c ∈ (dropEndWhile isGap text.toList).getLast?, isTrailing c = false

/-- The words of a text that is not stripped, without stop words. -/
def keptWords (text : List Char) : List String :=
  ((text.splitOnP isSeparator).filter (!·.isEmpty)).map String.ofList
    |>.filter fun word => !stopWords.contains (lower word)

/-- Two texts give the same query just if the same words are left of them after stripping. -/
theorem ofText_eq_ofText_iff {text text' : String} :
    ofText text = ofText text' ↔
      keptWords (stripEnd text.toList) = keptWords (stripEnd text'.toList) := by
  have hInjective : Function.Injective Token.ofWord := fun _ _ h => congrArg Token.raw h
  rw [ofText, ofText, ofTextWithout, ofTextWithout, Query.mk.injEq,
    hInjective.list_map.eq_iff]
  rfl

section Letters

/-- Stop words have Latin letters only. -/
theorem IsStopWord.isAlpha {word : String} (h : IsStopWord word) :
    ∀ c ∈ word.toList, c.isAlpha = true := by
  obtain ⟨stop, hStop, hWord⟩ := h
  have hLetters : ∀ stop ∈ stopWords, stop.toList.all Char.isLower = true := by decide +kernel
  intro c hc
  rw [← Char.isLower_toLower_eq_isAlpha]
  exact List.all_eq_true.1 (hLetters stop hStop) _ (hWord ▸ List.mem_map_of_mem hc)

theorem IsStopWord.lower_mem {word : String} (h : IsStopWord word) : lower word ∈ stopWords := by
  have hLetters := h.isAlpha
  obtain ⟨stop, hStop, hWord⟩ := h
  rwa [lower, lowerAfter_of_forall_isAlpha [] hLetters, hWord, String.ofList_toList]

theorem IsStopWord.ne_nil {word : String} (h : IsStopWord word) : word.toList ≠ [] := by
  obtain ⟨stop, hStop, hWord⟩ := h
  have hSome : ∀ stop ∈ stopWords, stop.toList ≠ [] := by decide +kernel
  intro hEmpty
  exact hSome stop hStop (by rw [← hWord, hEmpty, List.map_nil])

/-- The code points of the characters that are stripped. -/
def trailingCodes : List Nat :=
  List.range' 0x09 5 ++ List.range' 0x2000 11 ++
    [0x20, 0x2E, 0x3F, 0x85, 0xA0, 0x1680, 0x2028, 0x2029, 0x202F, 0x205F, 0x3000]

theorem toNat_mem_trailingCodes {c : Char} (h : isTrailing c = true) : c.toNat ∈ trailingCodes := by
  rw [isTrailing, isMark, Bool.or_eq_true, Bool.or_eq_true, beq_iff_eq, beq_iff_eq] at h
  rcases h with hBlank | rfl | rfl
  · simp only [isBlank, Bool.or_eq_true, Bool.and_eq_true, decide_eq_true_eq, beq_iff_eq] at hBlank
    simp only [trailingCodes, List.mem_append, List.mem_range'_1, List.mem_cons, List.not_mem_nil,
      or_false]
    omega
  · decide
  · decide

/-- What is stripped is neither a letter nor changed by casing. So a word with such a character in
it is never a stop word. -/
theorem isTrailing_spec {c : Char} (h : isTrailing c = true) :
    c.isAlpha = false ∧ lowerChar c = [c] ∧ c ≠ capitalSigma := by
  have hCodes : ∀ n ∈ trailingCodes, (Char.ofNat n).isAlpha = false ∧
      lowerChar (Char.ofNat n) = [Char.ofNat n] ∧ Char.ofNat n ≠ capitalSigma := by
    decide +kernel
  simpa using hCodes c.toNat (toNat_mem_trailingCodes h)

theorem isTrailing_of_isAlpha {c : Char} (h : c.isAlpha = true) : isTrailing c = false := by
  by_contra hTrailing
  rw [(isTrailing_spec (Bool.not_eq_false _ ▸ hTrailing)).1] at h
  cases h

theorem IsStopWord.allBlank_append {word : String} (h : IsStopWord word) (after : List Char) :
    allBlank (word.toList ++ after) = false := by
  obtain ⟨c, hc⟩ := List.exists_mem_of_ne_nil _ h.ne_nil
  have hPlain := Bool.or_eq_false_iff.1 (isTrailing_of_isAlpha (h.isAlpha c hc))
  exact List.all_eq_false.2 ⟨c, List.mem_append_left _ hc, Bool.eq_false_iff.1 hPlain.1⟩

/-- A word in which something could be stripped is no stop word. What could be stripped stays in
the lower case of the word, and no stop word has such a character. -/
theorem lower_not_mem_stopWords {word : String} {c : Char} (hc : c ∈ word.toList)
    (h : isTrailing c = true) : lower word ∉ stopWords := by
  obtain ⟨-, hSame, hSigma⟩ := isTrailing_spec h
  have hLetters : ∀ stop ∈ stopWords, stop.toList.any isTrailing = false := by decide +kernel
  intro hStop
  have hMem : c ∈ (lower word).toList := by
    rw [lower, String.toList_ofList]
    exact mem_lowerAfter hSame hSigma [] hc
  exact List.any_eq_false.1 (hLetters _ hStop) c hMem h

end Letters

section Words

variable {text before after marks : List Char} {c : Char}

/-- Words on the two sides of a separator do not meet. So the words of two texts can be counted
apart. -/
theorem keptWords_append_separator (h : isSeparator c = true) (before after : List Char) :
    keptWords (before ++ c :: after) = keptWords before ++ keptWords after := by
  simp only [keptWords, List.splitOnP_append_cons before after h, List.filter_append,
    List.map_append]

/-- Separators at the end make no words. -/
theorem keptWords_append_separators (h : ∀ c ∈ after, isSeparator c = true) :
    keptWords (before ++ after) = keptWords before := by
  induction after generalizing before with
  | nil => rw [List.append_nil]
  | cons c after ih =>
      obtain ⟨hFirst, hRest⟩ := List.forall_mem_cons.1 h
      have hNone : keptWords after = [] := (List.nil_append after ▸ ih hRest : _ = keptWords [])
      rw [keptWords_append_separator hFirst, hNone, List.append_nil]

/-- A text without separators is one word at most. It is none if it is empty or a stop word. -/
theorem keptWords_of_forall (h : ∀ c ∈ text, isSeparator c = false) :
    keptWords text =
      if text = [] ∨ lower (String.ofList text) ∈ stopWords then [] else [String.ofList text] := by
  rw [keptWords, List.splitOnP_eq_singleton h]
  by_cases hEmpty : text = []
  · simp [hEmpty]
  · by_cases hStop : lower (String.ofList text) ∈ stopWords <;> simp [hEmpty, hStop]

theorem not_isSeparator_of_isAlpha (h : c.isAlpha = true) : isSeparator c = false := by
  by_contra hNot
  rw [Bool.not_eq_false, isSeparator, Bool.or_eq_true, Bool.or_eq_true, beq_iff_eq, beq_iff_eq,
    beq_iff_eq] at hNot
  rcases hNot with (rfl | rfl) | rfl <;> exact absurd h (by decide)

/-- A stop word by itself leaves no word. -/
theorem IsStopWord.keptWords_eq_nil {word : String} (h : IsStopWord word) :
    keptWords word.toList = [] := by
  rw [keptWords_of_forall fun c hc => not_isSeparator_of_isAlpha (h.isAlpha c hc),
    String.ofList_toList, if_pos (.inr h.lower_mem)]

/-- A text has a last piece without separators. Proofs about the end of a text go by this case
analysis. -/
theorem last_piece (text : List Char) : (∀ c ∈ text, isSeparator c = false) ∨
    ∃ before c piece, text = before ++ c :: piece ∧ isSeparator c = true ∧
      ∀ d ∈ piece, isSeparator d = false := by
  induction text using List.reverseRecOn with
  | nil => exact .inl (by simp)
  | append_singleton text d ih =>
      cases hd : isSeparator d with
      | true => exact .inr ⟨text, d, [], rfl, hd, by simp⟩
      | false =>
          rcases ih with hNone | ⟨before, c, piece, rfl, hc, hPiece⟩
          · exact .inl (by simpa [or_imp, forall_and] using ⟨hNone, hd⟩)
          · exact .inr ⟨before, c, piece ++ [d], by simp, hc,
              by simpa [or_imp, forall_and] using ⟨hPiece, hd⟩⟩

def wordSize (text : List Char) : Nat :=
  ((keptWords text).flatMap String.toList).length

/-- The characters in words of two texts add up if there is a separator between them. -/
theorem wordSize_append_separator (h : isSeparator c = true) (before after : List Char) :
    wordSize (before ++ c :: after) = wordSize before + wordSize after := by
  rw [wordSize, keptWords_append_separator h, List.flatMap_append, List.length_append, wordSize,
    wordSize]

theorem wordSize_le_length (h : ∀ c ∈ text, isSeparator c = false) :
    wordSize text ≤ text.length := by
  rw [wordSize, keptWords_of_forall h]
  split <;> simp

/-- A mark that is written behind a word becomes a part of it, and a stop word with a mark is
none. In both cases there are more characters in the words than before. -/
theorem wordSize_lt_concat (hMark : isTrailing c = true) (hPart : isSeparator c = false)
    (text : List Char) : wordSize text < wordSize (text ++ [c]) := by
  have hPiece {piece : List Char} (h : ∀ d ∈ piece, isSeparator d = false) :
      wordSize piece < wordSize (piece ++ [c]) := by
    have hWord : ∀ d ∈ piece ++ [c], isSeparator d = false := by
      simpa [or_imp, forall_and] using ⟨h, hPart⟩
    have hKept : ¬(piece ++ [c] = [] ∨ lower (String.ofList (piece ++ [c])) ∈ stopWords) := by
      rintro (hEmpty | hStop)
      · simp at hEmpty
      · exact lower_not_mem_stopWords (c := c) (by simp) hMark hStop
    have hSize : wordSize (piece ++ [c]) = piece.length + 1 := by
      rw [wordSize, keptWords_of_forall hWord, if_neg hKept]
      simp
    exact hSize ▸ Nat.lt_succ_of_le (wordSize_le_length h)
  rcases last_piece text with hNone | ⟨before, d, piece, rfl, hd, hRest⟩
  · exact hPiece hNone
  · rw [List.append_assoc, List.cons_append, wordSize_append_separator hd,
      wordSize_append_separator hd]
    exact Nat.add_lt_add_left (hPiece hRest) _

/-- Marks at the end take no character away from the words. -/
theorem wordSize_le_append (h : ∀ c ∈ marks, isTrailing c = true) (text : List Char) :
    wordSize text ≤ wordSize (text ++ marks) := by
  induction marks generalizing text with
  | nil => rw [List.append_nil]
  | cons c marks ih =>
      obtain ⟨hFirst, hRest⟩ := List.forall_mem_cons.1 h
      have hOne : wordSize text ≤ wordSize (text ++ [c]) := by
        cases hc : isSeparator c with
        | false => exact (wordSize_lt_concat hFirst hc text).le
        | true =>
            rw [wordSize_append_separator hc]
            exact Nat.le_add_right _ _
      exact hOne.trans (by simpa using ih hRest (text ++ [c]))

end Words

section Stripping

variable {text before after : List Char} {c : Char}

/-- Blanks are stripped first and marks then, so a blank in front of marks is left. -/
theorem stripEnd_eq_rdropWhile (text : List Char) :
    stripEnd text = (text.rdropWhile isBlank).rdropWhile isMark := rfl

theorem stripEnd_append_of_blank (h : allBlank after = true) (before : List Char) :
    stripEnd (before ++ after) = stripEnd before := by
  rw [stripEnd, trimEnd_append, if_pos (trimEnd_eq_nil_iff.2 h), stripEnd]

/-- Nothing is stripped in front of a space behind which there is more than blanks. The text in
front keeps its end for this reason. -/
theorem stripEnd_append_space (h : allBlank after = false) (before : List Char) :
    stripEnd (before ++ ' ' :: after) = before ++ ' ' :: stripEnd after := by
  have hSome : trimEnd after ≠ [] := fun hNil => by simp [trimEnd_eq_nil_iff.1 hNil] at h
  have hSpace : dropEndWhile isMark (before ++ [' ']) = before ++ [' '] :=
    List.rdropWhile_concat_neg _ _ _ (by decide)
  have hStrip (cs : List Char) : stripEnd cs = dropEndWhile isMark (trimEnd cs) := rfl
  rw [List.append_cons, hStrip, trimEnd_append, if_neg hSome, dropEndWhile_append, hSpace, hStrip]
  split
  · next hNone => rw [hNone]
  · exact List.append_assoc before [' '] _

/-- A text that ends in nothing to be stripped stays as it is. -/
theorem stripEnd_eq_self (h : ∀ c ∈ text.getLast?, isTrailing c = false) : stripEnd text = text := by
  have hLast (hSome : text ≠ []) :
      isBlank (text.getLast hSome) = false ∧ isMark (text.getLast hSome) = false :=
    Bool.or_eq_false_iff.1 (h _ (List.getLast?_eq_some_getLast hSome))
  have hBlank : text.rdropWhile isBlank = text :=
    List.rdropWhile_eq_self_iff.2 fun hSome => Bool.eq_false_iff.1 (hLast hSome).1
  rw [stripEnd_eq_rdropWhile, hBlank]
  exact List.rdropWhile_eq_self_iff.2 fun hSome => Bool.eq_false_iff.1 (hLast hSome).2

/-- What is stripped from a text with a character to be stripped at its end is that character and
perhaps more in front of it, every one of them to be stripped. -/
theorem exists_stripped_of_concat (h : isTrailing c = true) (front : List Char) :
    ∃ marks, front = stripEnd (front ++ [c]) ++ marks ∧ ∀ d ∈ marks, isTrailing d = true := by
  have hMarks (text : List Char) : ∀ d ∈ text.rtakeWhile isMark, isTrailing d = true := by
    intro d hd
    rw [isTrailing, List.mem_rtakeWhile_imp hd, Bool.or_true]
  rw [stripEnd_eq_rdropWhile]
  cases hBlank : isBlank c with
  | true =>
      rw [List.rdropWhile_concat_pos _ _ _ hBlank]
      refine ⟨(front.rdropWhile isBlank).rtakeWhile isMark ++ front.rtakeWhile isBlank, ?_, ?_⟩
      · rw [← List.append_assoc, List.rdropWhile_append_rtakeWhile,
          List.rdropWhile_append_rtakeWhile]
      · intro d hd
        rcases List.mem_append.1 hd with hd | hd
        · exact hMarks _ d hd
        · rw [isTrailing, List.mem_rtakeWhile_imp hd, Bool.true_or]
  | false =>
      have hMark : isMark c = true := by rwa [isTrailing, hBlank, Bool.false_or] at h
      rw [List.rdropWhile_concat_neg _ _ _ (Bool.eq_false_iff.1 hBlank),
        List.rdropWhile_concat_pos _ _ _ hMark]
      exact ⟨front.rtakeWhile isMark, List.rdropWhile_append_rtakeWhile.symm, hMarks front⟩

/-- A text that ends in a word with a mark has fewer characters in its words when it is stripped.
This is what shows that its words have changed. -/
theorem wordSize_stripEnd_lt (h : isTrailing c = true) (hPart : isSeparator c = false)
    (front : List Char) : wordSize (stripEnd (front ++ [c])) < wordSize (front ++ [c]) := by
  obtain ⟨marks, hMarks, hAll⟩ := exists_stripped_of_concat h front
  calc wordSize (stripEnd (front ++ [c]))
      ≤ wordSize (stripEnd (front ++ [c]) ++ marks) := wordSize_le_append hAll _
    _ = wordSize front := by rw [← hMarks]
    _ < wordSize (front ++ [c]) := wordSize_lt_concat h hPart front

theorem isBlank_of_isGap (h : isGap c = true) : isBlank c = true := by
  rw [isGap, Bool.or_eq_true, beq_iff_eq, beq_iff_eq] at h
  rcases h with rfl | rfl <;> decide

/-- Of the separators, only the comma is not stripped. So a comma at the end is a separator and
stays. -/
theorem isGap_eq_and (c : Char) : isGap c = (isSeparator c && isTrailing c) := by
  by_cases hComma : c = ','
  · rw [hComma]
    decide
  · have hSame : isSeparator c = isGap c := by
      rw [isSeparator, beq_eq_false_iff_ne.2 hComma, Bool.or_false, isGap]
    rw [hSame]
    cases hGap : isGap c with
    | false => rfl
    | true => rw [isTrailing, isBlank_of_isGap hGap, Bool.true_or, Bool.and_true]

/-- Stripping the end of a text leaves its words alone just where the text ends plainly. Elsewhere
a word loses characters, which is seen by counting them. -/
theorem keptWords_stripEnd_iff {text : String} :
    keptWords text.toList = keptWords (stripEnd text.toList) ↔ EndsPlainly text := by
  let core := text.toList.rdropWhile isGap
  let gaps := text.toList.rtakeWhile isGap
  have hText : text.toList = core ++ gaps := List.rdropWhile_append_rtakeWhile.symm
  have hGaps : ∀ c ∈ gaps, isGap c = true := fun c => List.mem_rtakeWhile_imp
  have hSeparators : ∀ c ∈ gaps, isSeparator c = true := fun c hc => by
    have hGap := hGaps c hc
    rw [isGap_eq_and, Bool.and_eq_true] at hGap
    exact hGap.1
  have hBlanks : allBlank gaps = true :=
    List.all_eq_true.2 fun c hc => isBlank_of_isGap (hGaps c hc)
  have hWords : keptWords text.toList = keptWords core := by
    rw [hText, keptWords_append_separators hSeparators]
  have hStrip : stripEnd text.toList = stripEnd core := by
    rw [hText, stripEnd_append_of_blank hBlanks]
  have hEnds : EndsPlainly text ↔ ∀ c ∈ core.getLast?, isTrailing c = false := Iff.rfl
  rw [hWords, hStrip, hEnds]
  refine ⟨fun hSame c hc => ?_, fun hPlain => by rw [stripEnd_eq_self hPlain]⟩
  by_contra hNot
  have hTrailing : isTrailing c = true := Bool.not_eq_false _ ▸ hNot
  obtain ⟨front, hFront⟩ := List.getLast?_eq_some_iff.1 hc
  have hPart : isSeparator c = false := by
    obtain ⟨hSome, rfl⟩ := List.mem_getLast?_eq_getLast hc
    have hGap := List.rdropWhile_last_not isGap _ hSome
    rwa [isGap_eq_and, hTrailing, Bool.and_true, Bool.not_eq_true] at hGap
  have hLess := wordSize_stripEnd_lt hTrailing hPart front
  rw [← hFront, wordSize, wordSize, ← hSame] at hLess
  exact lt_irrefl _ hLess

end Stripping

/-- A stop word between two texts leaves no trace, unless it comes last and the text in front of
it ends in something that is stripped when the stop word is not there. Nothing else is asked of
the two texts. -/
theorem ofText_stopWord_iff (a b : String) {word : String} (h : IsStopWord word) :
    ofText (a ++ " " ++ word ++ " " ++ b) = ofText (a ++ " " ++ b) ↔
      isBlankText b = false ∨ EndsPlainly a := by
  have hSpace : isSeparator ' ' = true := by decide
  have hStays : stripEnd word.toList = word.toList := stripEnd_eq_self fun c hc =>
    isTrailing_of_isAlpha (h.isAlpha c (List.mem_of_mem_getLast? hc))
  have hMore := h.allBlank_append (' ' :: b.toList)
  have hWith : (a ++ " " ++ word ++ " " ++ b).toList =
      a.toList ++ ' ' :: (word.toList ++ ' ' :: b.toList) := by simp
  have hWithout : (a ++ " " ++ b).toList = a.toList ++ ' ' :: b.toList := by simp
  rw [ofText_eq_ofText_iff, hWith, hWithout, isBlankText]
  cases hBlank : allBlank b.toList with
  | false =>
      rw [stripEnd_append_space hMore, stripEnd_append_space hBlank, stripEnd_append_space hBlank,
        keptWords_append_separator hSpace, keptWords_append_separator hSpace,
        keptWords_append_separator hSpace, h.keptWords_eq_nil, List.nil_append]
      simp
  | true =>
      have hBlank' : allBlank (' ' :: b.toList) = true := by
        rw [allBlank, List.all_cons]
        exact hBlank
      rw [stripEnd_append_of_blank hBlank', stripEnd_append_space hMore,
        stripEnd_append_of_blank hBlank', hStays,
        keptWords_append_separator hSpace, h.keptWords_eq_nil, List.append_nil,
        keptWords_stripEnd_iff]
      simp

instance (text : String) : Decidable (EndsPlainly text) :=
  decidable_of_iff ((dropEndWhile isGap text.toList).getLast?.all (!isTrailing ·) = true) (by
    simp [EndsPlainly, Option.all_eq_true])

/-- A stop word after a question mark can be left out in front of another word, and not at the end. -/
theorem ofText_stopWord_iff_please :
    IsStopWord "PLEASE" ∧
    ofText ("histogram Age?" ++ " " ++ "PLEASE" ++ " " ++ "by Year. ") =
      ofText ("histogram Age?" ++ " " ++ "by Year. ") ∧
    ofText ("histogram Age ," ++ " " ++ "PLEASE" ++ " " ++ "\n") =
      ofText ("histogram Age ," ++ " " ++ "\n") ∧
    ofText ("histogram Age?" ++ " " ++ "PLEASE" ++ " " ++ "") ≠
      ofText ("histogram Age?" ++ " " ++ "") := by
  have hWord : IsStopWord "PLEASE" := by decide +kernel
  refine ⟨hWord, (ofText_stopWord_iff _ _ hWord).2 (.inl (by decide +kernel)),
    (ofText_stopWord_iff _ _ hWord).2 (.inr (by decide +kernel)), ?_⟩
  rw [Ne, ofText_stopWord_iff _ _ hWord]
  decide +kernel

/-- With a stop word behind it, a question mark stays part of the word in front of it. At the end
of a text it would have been stripped. -/
theorem mark_stays_before_stopWord :
    ¬∀ a b word : String, IsStopWord word →
      ofText (a ++ " " ++ word ++ " " ++ b) = ofText (a ++ " " ++ b) := by
  intro hTransparent
  have hSame := congrArg Query.raw (hTransparent "histogram Age?" "" "please" (by decide +kernel))
  have hWith : (ofText ("histogram Age?" ++ " " ++ "please" ++ " " ++ "")).raw =
      ["histogram", "Age?"] := by decide +kernel
  have hWithout : (ofText ("histogram Age?" ++ " " ++ "")).raw = ["histogram", "Age"] := by
    decide +kernel
  rw [hWith, hWithout] at hSame
  exact absurd hSame (by decide)

end Query

end PlotQuery
