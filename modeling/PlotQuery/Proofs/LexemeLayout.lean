import PlotQuery.Grammar.Production
import PlotQuery.Proofs.ListItems

/-! Texts as rows of lexemes. Between two lexemes stand blanks and comments, and at least one of them
where the lexemes would run together. Taking the comments out of a text, cutting it at a sign, trimming
it and taking its words apart do to the text what they do to its lexemes. -/
namespace PlotQuery

open Text

/-- The characters of signs and the one that begins a comment. -/
def isSign (c : Char) : Bool :=
  ['#', ';', '|', '\x7b', '\x7d', ':', '='].contains c

/-- Where one of these characters stands next to a lexeme, nothing else has to keep the two apart. -/
def isStop (c : Char) : Bool :=
  isBlank c || isSign c

/-- A lexeme does not run into the text behind it. -/
def Apart (lexeme rest : List Char) : Prop :=
  ∀ a ∈ lexeme.getLast?, ∀ b ∈ rest.head?, isStop a = true ∨ isStop b = true

/-- Lexemes written as a text, with any blanks and comments before, between and behind them. A comment
goes on to the end of its line. -/
inductive Laid : List (List Char) → List Char → Prop where
  | nil : Laid [] []
  | blank {lexemes : List (List Char)} {rest : List Char} {c : Char} (blank : isBlank c = true)
      (laid : Laid lexemes rest) : Laid lexemes (c :: rest)
  | comment {lexemes : List (List Char)} {line rest : List Char} (inLine : '\n' ∉ line)
      (ended : ∀ c ∈ rest.head?, c = '\n') (laid : Laid lexemes rest) :
      Laid lexemes ('#' :: (line ++ rest))
  | lexeme {lexemes : List (List Char)} {rest : List Char} (first : List Char)
      (laid : Laid lexemes rest) (apart : Apart first rest) : Laid (first :: lexemes) (first ++ rest)

/-- What a lexeme is like: it neither begins nor ends with a blank, and has neither the end of a line
nor the beginning of a comment inside. -/
structure IsLexeme (lexeme : List Char) : Prop where
  nonempty : lexeme ≠ []
  first : ∀ c ∈ lexeme.head?, isBlank c = false
  last : ∀ c ∈ lexeme.getLast?, isBlank c = false
  inLine : ∀ c ∈ lexeme, c ≠ '\n' ∧ c ≠ '#'

/-- Lexemes written as a text with blanks only around them. -/
inductive Spaced : List (List Char) → List Char → Prop where
  | nil : Spaced [] []
  | blank {lexemes : List (List Char)} {rest : List Char} {c : Char} (blank : isBlank c = true)
      (spaced : Spaced lexemes rest) : Spaced lexemes (c :: rest)
  | lexeme {lexemes : List (List Char)} {rest first : List Char} (isLexeme : IsLexeme first)
      (spaced : Spaced lexemes rest) (apart : Apart first rest) :
      Spaced (first :: lexemes) (first ++ rest)

/-- Single spaces between lexemes keep them apart. So every list of lexemes can be laid out. -/
theorem laid_intercalate (lexemes : List (List Char)) : Laid lexemes ([' '].intercalate lexemes) := by
  induction lexemes with
  | nil => exact .nil
  | cons first lexemes ih =>
      cases lexemes with
      | nil =>
          have hOnly : Laid [first] (first ++ []) := .lexeme first .nil (by simp [Apart])
          simpa using hOnly
      | cons next lexemes =>
          rw [List.intercalate_cons_cons, List.append_assoc]
          apply Laid.lexeme first (.blank (by decide) ih)
          intro a _ b hb
          cases hb
          exact .inr (by decide)

section Comments

def chopReturn (line : List Char) : List Char :=
  if line.getLast? = some '\r' then line.dropLast else line

theorem lines_of_not_mem {line : List Char} (h : '\n' ∉ line) :
    lines line = if line = [] then [] else [line] := by
  rw [lines, List.splitOn_eq_singleton h]
  cases line <;> rfl

/-- The first line goes up to the first newline and loses a carriage return at its end. -/
theorem lines_append_newline {line : List Char} (h : '\n' ∉ line) (rest : List Char) :
    lines (line ++ '\n' :: rest) = chopReturn line :: lines rest := by
  rw [lines, List.splitOn_append_cons_self_of_not_mem h]
  cases hPieces : rest.splitOn '\n' with
  | nil => exact absurd hPieces (List.splitOn_ne_nil _ _)
  | cons piece pieces =>
      rw [lines, hPieces, List.getLast?_cons_cons, List.dropLast_cons_cons, List.map_cons]
      split <;> rfl

/-- A text is a single line, or it has a first line. Proofs about lines go by this case
analysis. -/
theorem eq_line_or_append (cs : List Char) :
    '\n' ∉ cs ∨ ∃ line rest, '\n' ∉ line ∧ cs = line ++ '\n' :: rest := by
  by_cases h : '\n' ∈ cs
  · obtain ⟨line, rest, hSplit, hLine⟩ := List.eq_append_cons_of_mem h
    exact .inr ⟨line, rest, hLine, hSplit⟩
  · exact .inl h

theorem lines_ne_nil {cs : List Char} (h : cs ≠ []) : lines cs ≠ [] := by
  rcases eq_line_or_append cs with hLine | ⟨line, rest, hLine, rfl⟩
  · simp [lines_of_not_mem hLine, h]
  · simp [lines_append_newline hLine]

theorem chopReturn_cons {c : Char} {line : List Char} (h : c ≠ '\r' ∨ line ≠ []) :
    chopReturn (c :: line) = c :: chopReturn line := by
  cases line with
  | nil => simpa [chopReturn] using h
  | cons next line =>
      rw [chopReturn, chopReturn, List.getLast?_cons_cons]
      split <;> rfl

theorem stripComments_of_not_mem {line : List Char} (h : '\n' ∉ line) :
    stripComments line = line.takeWhile (· != '#') := by
  rw [stripComments, lines_of_not_mem h]
  cases line <;> simp [List.intercalate]

/-- Comments are taken away line by line. The last newline of a text goes with its line. -/
theorem stripComments_append_newline {line : List Char} (h : '\n' ∉ line) (rest : List Char) :
    stripComments (line ++ '\n' :: rest) = (chopReturn line).takeWhile (· != '#') ++
      if rest = [] then [] else '\n' :: stripComments rest := by
  rw [stripComments, stripComments, lines_append_newline h, List.map_cons]
  by_cases hRest : rest = []
  · rw [if_pos hRest, hRest]
    simp [lines, List.intercalate]
  · rw [if_neg hRest]
    cases hMore : lines rest with
    | nil => exact absurd hMore (lines_ne_nil hRest)
    | cons next more => simp [List.intercalate]

theorem stripComments_newline (rest : List Char) :
    stripComments ('\n' :: rest) = if rest = [] then [] else '\n' :: stripComments rest :=
  stripComments_append_newline List.not_mem_nil rest

/-- A carriage return goes with the newline behind it. -/
theorem stripComments_return (rest : List Char) :
    stripComments ('\r' :: '\n' :: rest) = stripComments ('\n' :: rest) := by
  have hLine : '\n' ∉ ['\r'] := by decide
  rw [stripComments_newline]
  exact stripComments_append_newline hLine rest

/-- A comment goes without the end of its line. The newline separates what is in front of the
comment from what follows. -/
theorem stripComments_comment {line rest : List Char} (hLine : '\n' ∉ line)
    (hRest : ∀ c ∈ rest.head?, c = '\n') :
    stripComments ('#' :: (line ++ rest)) = stripComments rest := by
  have hStart : '\n' ∉ '#' :: line := by simpa using hLine
  cases rest with
  | nil =>
      rw [List.append_nil, stripComments_of_not_mem hStart]
      simp [stripComments, lines]
  | cons c rest =>
      obtain rfl := hRest c rfl
      rw [← List.cons_append, stripComments_append_newline hStart, chopReturn_cons (by simp),
        stripComments_newline]
      simp

/-- A character outside comments stays, unless it belongs to the end of a line. The carriage
return is a case of its own, as it is lost in front of a newline. -/
theorem stripComments_cons {c : Char} {rest : List Char} (hLine : c ≠ '\n') (hComment : c ≠ '#')
    (hReturn : c = '\r' → rest.head? ≠ some '\n') :
    stripComments (c :: rest) = c :: stripComments rest := by
  have hKept : (c != '#') = true := by simpa using hComment
  rcases eq_line_or_append rest with hRest | ⟨line, more, hRest, rfl⟩
  · rw [stripComments_of_not_mem hRest, stripComments_of_not_mem (by simp [hRest, hLine.symm]),
      List.takeWhile_cons, if_pos hKept]
  · have hStart : '\n' ∉ c :: line := by simp [hRest, hLine.symm]
    have hChop : c ≠ '\r' ∨ line ≠ [] := by
      by_contra hBoth
      rw [not_or, not_not, not_not] at hBoth
      obtain ⟨rfl, rfl⟩ := hBoth
      exact hReturn rfl rfl
    rw [← List.cons_append, stripComments_append_newline hStart, chopReturn_cons hChop,
      stripComments_append_newline hRest, List.takeWhile_cons, if_pos hKept, List.cons_append]

/-- A piece of text without comments and newlines stays as it is. -/
theorem stripComments_append {text rest : List Char} (hInside : ∀ c ∈ text, c ≠ '\n' ∧ c ≠ '#')
    (hLast : text.getLast? ≠ some '\r') :
    stripComments (text ++ rest) = text ++ stripComments rest := by
  induction text with
  | nil => rfl
  | cons c text ih =>
      obtain ⟨hFirst, hInside⟩ := List.forall_mem_cons.1 hInside
      cases text with
      | nil =>
          apply stripComments_cons hFirst.1 hFirst.2
          rintro rfl
          exact absurd rfl hLast
      | cons next text =>
          have hNext : (next :: text ++ rest).head? ≠ some '\n' := fun hNext =>
            (hInside next List.mem_cons_self).1 (Option.some.inj hNext)
          rw [List.getLast?_cons_cons] at hLast
          rw [List.cons_append, stripComments_cons hFirst.1 hFirst.2 fun _ => hNext,
            ih hInside hLast]
          rfl

/-- Without its comments a text has the same lexemes, with blanks around them. It begins as
before, or with a sign or a blank. By induction on the layout. -/
theorem Laid.spaced {lexemes : List (List Char)} {cs : List Char} (h : Laid lexemes cs)
    (hLexemes : ∀ lexeme ∈ lexemes, IsLexeme lexeme) :
    Spaced lexemes (stripComments cs) ∧
      ∀ b ∈ (stripComments cs).head?, isStop b = true ∨ cs.head? = some b := by
  induction h with
  | nil => exact ⟨.nil, by simp [stripComments, lines]⟩
  | @blank lexemes rest c blank laid ih =>
      obtain ⟨hRest, hHead⟩ := ih hLexemes
      by_cases hLine : c = '\n'
      · subst hLine
        rw [stripComments_newline]
        split
        · next hEnd =>
          subst hEnd
          exact ⟨hRest, by simp⟩
        · exact ⟨.blank blank hRest, by simp⟩
      · by_cases hReturn : c = '\r' ∧ rest.head? = some '\n'
        · obtain ⟨rfl, hNext⟩ := hReturn
          obtain ⟨more, rfl⟩ := List.head?_eq_some_iff.1 hNext
          rw [stripComments_return]
          refine ⟨hRest, fun b hb => ?_⟩
          rcases hHead b hb with hStop | hSame
          · exact .inl hStop
          · obtain rfl := Option.some.inj hSame
            exact .inl (by decide)
        · have hComment : c ≠ '#' := by
            rintro rfl
            exact absurd blank (by decide)
          rw [stripComments_cons hLine hComment fun hc hNext => hReturn ⟨hc, hNext⟩]
          exact ⟨.blank blank hRest, fun b hb => .inr hb⟩
  | @comment lexemes line rest inLine ended laid ih =>
      obtain ⟨hRest, hHead⟩ := ih hLexemes
      rw [stripComments_comment inLine ended]
      refine ⟨hRest, fun b hb => ?_⟩
      rcases hHead b hb with hStop | hSame
      · exact .inl hStop
      · obtain rfl := ended b hSame
        exact .inl (by decide)
  | @lexeme lexemes rest first laid apart ih =>
      obtain ⟨hFirst, hLexemes⟩ := List.forall_mem_cons.1 hLexemes
      obtain ⟨hRest, hHead⟩ := ih hLexemes
      have hReturn : first.getLast? ≠ some '\r' := by
        intro hLast
        exact absurd (hFirst.last _ hLast) (by decide)
      rw [stripComments_append hFirst.inLine hReturn]
      refine ⟨.lexeme hFirst hRest fun a ha b hb => ?_, fun b hb => .inr ?_⟩
      · rcases hHead b hb with hStop | hSame
        · exact .inr hStop
        · exact apart a ha b hSame
      · rw [List.head?_append_of_ne_nil _ hFirst.nonempty] at hb ⊢
        exact hb

end Comments

section Trimming

/-- Trimming the end of a text reaches into its first part only if the last part is blank. -/
theorem trimEnd_append (before after : List Char) :
    trimEnd (before ++ after) =
      if trimEnd after = [] then trimEnd before else before ++ trimEnd after :=
  dropEndWhile_append isBlank before after

theorem trimEnd_eq_nil_iff {cs : List Char} : trimEnd cs = [] ↔ allBlank cs = true := by
  rw [trimEnd, dropEndWhile_eq_rdropWhile, List.rdropWhile_eq_nil_iff, allBlank, List.all_eq_true]

theorem getLast?_trimEnd (cs : List Char) : ∀ c ∈ (trimEnd cs).getLast?, isBlank c = false := by
  intro c hc
  rw [trimEnd, dropEndWhile_eq_rdropWhile] at hc
  obtain ⟨hSome, hLast⟩ := List.mem_getLast?_eq_getLast hc
  have hNot := List.rdropWhile_last_not isBlank cs hSome
  simpa [← hLast] using hNot

theorem head?_trimEnd {cs : List Char} {b : Char} (h : b ∈ (trimEnd cs).head?) : b ∈ cs.head? := by
  rw [trimEnd, dropEndWhile_eq_rdropWhile] at h
  obtain ⟨after, hAfter⟩ := List.rdropWhile_prefix isBlank cs
  rw [← hAfter]
  exact List.mem_head?_append_of_mem_head? h

/-- A lexeme has no blank in front to be dropped. -/
theorem IsLexeme.dropWhile {lexeme : List Char} (h : IsLexeme lexeme) (rest : List Char) :
    (lexeme ++ rest).dropWhile isBlank = lexeme ++ rest := by
  cases lexeme with
  | nil => exact absurd rfl h.nonempty
  | cons c lexeme =>
      rw [List.cons_append, List.dropWhile_cons, h.first c rfl]
      rfl

/-- Nothing in front of the end of a lexeme is trimmed. -/
theorem IsLexeme.trimEnd_append {lexeme : List Char} (h : IsLexeme lexeme) (rest : List Char) :
    trimEnd (lexeme ++ rest) = lexeme ++ trimEnd rest := by
  have hSelf : trimEnd lexeme = lexeme := by
    rw [trimEnd, dropEndWhile_eq_rdropWhile, List.rdropWhile_eq_self_iff]
    intro hSome
    simpa using h.last _ (List.getLast?_eq_some_getLast hSome)
  rw [PlotQuery.trimEnd_append]
  split
  · next hRest => rw [hSelf, hRest, List.append_nil]
  · rfl

end Trimming

section Cutting

theorem words_cons_blank {c : Char} (h : isBlank c = true) (rest : List Char) :
    Text.words (c :: rest) = Text.words rest := by
  rw [Text.words, List.splitOnP_cons_eq_if_modifyHead, if_pos h]
  rfl

/-- What does not hold the sign belongs to the first piece. -/
theorem splitOn_append_of_not_mem {sign : Char} {first : List Char} (h : sign ∉ first)
    (rest : List Char) :
    (first ++ rest).splitOn sign = (rest.splitOn sign).modifyHead (first ++ ·) := by
  induction first with
  | nil => cases h : rest.splitOn sign <;> simp [h]
  | cons c first ih =>
      rw [List.mem_cons, not_or] at h
      rw [List.cons_append, List.splitOn_cons_eq_if_modifyHead, if_neg (by simpa using Ne.symm h.1),
        ih h.2, List.modifyHead_modifyHead]
      rfl

theorem head?_splitOn {sign : Char} {rest piece : List Char}
    (h : piece ∈ (rest.splitOn sign).head?) {b : Char} (hb : b ∈ piece.head?) : b ∈ rest.head? := by
  cases rest with
  | nil =>
      cases h
      cases hb
  | cons c rest =>
      rw [List.splitOn_cons_eq_if_modifyHead] at h
      split at h
      · cases h
        cases hb
      · cases hPieces : rest.splitOn sign with
        | nil => exact absurd hPieces (List.splitOn_ne_nil _ _)
        | cons first more =>
            rw [hPieces] at h
            cases h
            exact hb

theorem splitSides_ne_nil (cs : List Char) : Production.splitSides cs ≠ [] := by
  fun_cases Production.splitSides cs <;> simp_all

/-- A character that does not begin the sign `:=` belongs to the first piece. The sign is of two
characters, so the one behind has to be looked at as well. -/
theorem splitSides_cons {c : Char} {rest : List Char} (h : c = ':' → rest.head? ≠ some '=') :
    Production.splitSides (c :: rest) = (Production.splitSides rest).modifyHead (c :: ·) := by
  rw [Production.splitSides]
  · cases hPieces : Production.splitSides rest with
    | nil => exact absurd hPieces (splitSides_ne_nil rest)
    | cons piece pieces => rfl
  · rintro more rfl rfl
    exact h rfl rfl

/-- What holds no colon belongs to the first piece. -/
theorem splitSides_append_of_not_mem {first : List Char} (h : ':' ∉ first) (rest : List Char) :
    Production.splitSides (first ++ rest) =
      (Production.splitSides rest).modifyHead (first ++ ·) := by
  induction first with
  | nil => cases h : Production.splitSides rest <;> simp [h]
  | cons c first ih =>
      rw [List.mem_cons, not_or] at h
      rw [List.cons_append, splitSides_cons fun hc => absurd hc.symm h.1, ih h.2,
        List.modifyHead_modifyHead]
      rfl

theorem head?_splitSides {rest piece : List Char}
    (h : piece ∈ (Production.splitSides rest).head?) {b : Char} (hb : b ∈ piece.head?) :
    b ∈ rest.head? := by
  fun_cases Production.splitSides rest with
  | case1 =>
      cases h
      cases hb
  | case2 =>
      cases h
      cases hb
  | case3 c rest hSign hNil => exact absurd hNil (splitSides_ne_nil rest)
  | case4 c rest hSign first pieces hPieces =>
      rw [splitSides_cons fun hc hNext => ?_, hPieces] at h
      · cases h
        exact hb
      · obtain ⟨more, rfl⟩ := List.head?_eq_some_iff.1 hNext
        exact hSign more hc rfl

end Cutting

namespace Spaced

variable {lexemes : List (List Char)} {cs : List Char}

/-- Every character of a text is a blank or belongs to a lexeme. -/
theorem blank_or_mem (h : Spaced lexemes cs) {c : Char} (hc : c ∈ cs) :
    isBlank c = true ∨ ∃ lexeme ∈ lexemes, c ∈ lexeme := by
  induction h with
  | nil => cases hc
  | blank blank spaced ih =>
      rcases List.mem_cons.1 hc with rfl | hc
      · exact .inl blank
      · exact ih hc
  | lexeme isLexeme spaced apart ih =>
      rcases List.mem_append.1 hc with hc | hc
      · exact .inr ⟨_, List.mem_cons_self, hc⟩
      · exact (ih hc).imp_right fun ⟨found, hMem, hc⟩ => ⟨found, List.mem_cons_of_mem _ hMem, hc⟩

theorem mem_of_mem (h : Spaced lexemes cs) {lexeme : List Char} (hMem : lexeme ∈ lexemes) {c : Char}
    (hc : c ∈ lexeme) : c ∈ cs := by
  induction h with
  | nil => cases hMem
  | blank blank spaced ih => exact List.mem_cons_of_mem _ (ih hMem)
  | lexeme isLexeme spaced apart ih =>
      rcases List.mem_cons.1 hMem with rfl | hMem
      · exact List.mem_append_left _ hc
      · exact List.mem_append_right _ (ih hMem)

theorem isLexeme_of_mem (h : Spaced lexemes cs) {lexeme : List Char} (hMem : lexeme ∈ lexemes) :
    IsLexeme lexeme := by
  induction h with
  | nil => cases hMem
  | blank blank spaced ih => exact ih hMem
  | lexeme isLexeme spaced apart ih =>
      rcases List.mem_cons.1 hMem with rfl | hMem
      · exact isLexeme
      · exact ih hMem

/-- A text begins with a blank or with its first lexeme. Which of them it is decides whether a
sign of two characters can arise. -/
theorem blank_or_head? (h : Spaced lexemes cs) {b : Char} (hb : b ∈ cs.head?) :
    isBlank b = true ∨ ∃ lexeme ∈ lexemes, b ∈ lexeme.head? := by
  cases h with
  | nil => cases hb
  | blank blank spaced =>
      cases hb
      exact .inl blank
  | lexeme isLexeme spaced apart =>
      rw [List.head?_append_of_ne_nil _ isLexeme.nonempty] at hb
      exact .inr ⟨_, List.mem_cons_self, hb⟩

theorem allBlank_of_nil (h : Spaced [] cs) : allBlank cs = true := by
  apply List.all_eq_true.2
  intro c hc
  simpa using h.blank_or_mem hc

/-- Trimming a text changes none of its lexemes. -/
theorem trim (h : Spaced lexemes cs) : Spaced lexemes (Text.trim cs) := by
  have hEnd {lexemes : List (List Char)} {cs : List Char} (h : Spaced lexemes cs) :
      Spaced lexemes (trimEnd cs) := by
    induction h with
    | nil => exact .nil
    | @blank lexemes rest c blank spaced ih =>
        rw [← List.singleton_append, PlotQuery.trimEnd_append]
        split
        · next hNil =>
          rw [hNil] at ih
          rwa [trimEnd_eq_nil_iff.2 (by simpa [allBlank] using blank)]
        · exact .blank blank ih
    | lexeme isLexeme spaced apart ih =>
        rw [isLexeme.trimEnd_append]
        exact .lexeme isLexeme ih fun a ha b hb => apart a ha b (head?_trimEnd hb)
  rw [Text.trim]
  apply hEnd
  induction h with
  | nil => exact .nil
  | blank blank spaced ih =>
      rw [List.dropWhile_cons, if_pos blank]
      exact ih
  | lexeme isLexeme spaced apart ih =>
      rw [isLexeme.dropWhile]
      exact .lexeme isLexeme spaced apart

theorem trim_ne_nil (h : Spaced lexemes cs) (hSome : lexemes ≠ []) : Text.trim cs ≠ [] := by
  obtain ⟨lexeme, rest, rfl⟩ := List.exists_cons_of_ne_nil hSome
  have hLexeme := h.isLexeme_of_mem List.mem_cons_self
  obtain ⟨c, more, rfl⟩ := List.exists_cons_of_ne_nil hLexeme.nonempty
  have hc := h.mem_of_mem List.mem_cons_self List.mem_cons_self
  intro hNil
  have hBlank := List.all_eq_true.1 (trim_eq_nil_iff.1 hNil) c hc
  rw [hLexeme.first c rfl] at hBlank
  cases hBlank

/-- Trimming leaves nothing but the lexeme of a text with one lexeme. So the parts of a production
come out as they were written. -/
theorem trim_eq_of_singleton {lexeme : List Char} (h : Spaced [lexeme] cs) :
    Text.trim cs = lexeme := by
  generalize hOnly : [lexeme] = lexemes at h
  induction h with
  | nil => cases hOnly
  | blank blank spaced ih =>
      rw [Text.trim, List.dropWhile_cons, if_pos blank]
      exact ih hOnly
  | lexeme isLexeme spaced apart =>
      cases hOnly
      rw [Text.trim, isLexeme.dropWhile, isLexeme.trimEnd_append,
        trimEnd_eq_nil_iff.2 spaced.allBlank_of_nil, List.append_nil]

/-- The words of a text are its lexemes if these are separated by nothing but blanks. Two lexemes
that touch would be one word. -/
theorem words_eq (h : Spaced lexemes cs)
    (hWords : ∀ lexeme ∈ lexemes, ∀ c ∈ lexeme, isStop c = false) : Text.words cs = lexemes := by
  induction h with
  | nil => rfl
  | blank blank spaced ih =>
      rw [words_cons_blank blank]
      exact ih hWords
  | @lexeme lexemes rest first isLexeme spaced apart ih =>
      obtain ⟨hFirst, hWords⟩ := List.forall_mem_cons.1 hWords
      have hInside : ∀ c ∈ first, isBlank c = false := by
        intro c hc
        have hStop := hFirst c hc
        rw [isStop, Bool.or_eq_false_iff] at hStop
        exact hStop.1
      have hFilled : (!first.isEmpty) = true := by simpa using isLexeme.nonempty
      cases rest with
      | nil =>
          have hRest := ih hWords
          rw [List.append_nil, Text.words, List.splitOnP_eq_singleton hInside,
            List.filter_cons, if_pos hFilled, ← hRest]
          rfl
      | cons b rest =>
          have hBlank : isBlank b = true := by
            rcases spaced.blank_or_mem List.mem_cons_self with hBlank | ⟨next, hNext, hb⟩
            · exact hBlank
            · have hLast := List.getLast?_eq_some_getLast isLexeme.nonempty
              have hStop := apart _ hLast b rfl
              rw [hFirst _ (List.getLast_mem _), hWords next hNext b hb] at hStop
              simp at hStop
          rw [Text.words, List.splitOnP_append_cons_of_forall_mem hInside b hBlank,
            List.filter_cons, if_pos hFilled, ← ih hWords, words_cons_blank hBlank]
          rfl

/-- Behind the last lexeme are blanks only. So a text that ends in a sign can be cut there. -/
theorem exists_append {last : List Char} (h : Spaced (lexemes ++ [last]) cs) :
    ∃ before after, cs = before ++ (last ++ after) ∧ Spaced lexemes before ∧
      allBlank after = true := by
  generalize hAll : lexemes ++ [last] = all at h
  induction h generalizing lexemes with
  | nil => simp at hAll
  | @blank all rest c blank spaced ih =>
      obtain ⟨before, after, rfl, hBefore, hAfter⟩ := ih hAll
      exact ⟨c :: before, after, rfl, .blank blank hBefore, hAfter⟩
  | @lexeme all rest first isLexeme spaced apart ih =>
      cases lexemes with
      | nil =>
          cases hAll
          exact ⟨[], rest, rfl, .nil, spaced.allBlank_of_nil⟩
      | cons _ lexemes =>
          cases hAll
          obtain ⟨before, after, rfl, hBefore, hAfter⟩ := ih rfl
          refine ⟨first ++ before, after, by simp, .lexeme isLexeme hBefore ?_, hAfter⟩
          exact fun a ha b hb => apart a ha b (List.mem_head?_append_of_mem_head? hb)

/-- A text that ends in a sign, without this sign. The sign is the last lexeme, and the others are
laid out as before. -/
theorem dropLast?_trim {sign : Char} (h : Spaced (lexemes ++ [[sign]]) cs) :
    ∃ inner, Production.dropLast? sign (Text.trim cs) = some inner ∧ Spaced lexemes inner := by
  obtain ⟨before, after, hTrim, hBefore, hAfter⟩ := h.trim.exists_append
  obtain rfl : after = [] := by
    by_contra hSome
    have hLast : after.getLast hSome ∈ (Text.trim cs).getLast? := by
      rw [hTrim, List.getLast?_append_of_ne_nil _ (by simp), List.getLast?_append_of_ne_nil _ hSome]
      exact List.getLast?_eq_some_getLast hSome
    have hBlank := List.all_eq_true.1 hAfter _ (List.getLast_mem hSome)
    rw [getLast?_trimEnd _ _ hLast] at hBlank
    cases hBlank
  refine ⟨before, ?_, hBefore⟩
  simp [Production.dropLast?, hTrim]

theorem forall₂_blank {c : Char} (blank : isBlank c = true) {rows : List (List (List Char))}
    {pieces : List (List Char)} (h : List.Forall₂ Spaced rows pieces) :
    List.Forall₂ Spaced rows (pieces.modifyHead (c :: ·)) := by
  cases h with
  | nil => exact .nil
  | cons first rest => exact .cons (.blank blank first) rest

theorem forall₂_lexeme {first : List Char} (isLexeme : IsLexeme first)
    {rows : List (List (List Char))} {pieces : List (List Char)}
    (h : List.Forall₂ Spaced rows pieces) (apart : ∀ piece ∈ pieces.head?, Apart first piece) :
    List.Forall₂ Spaced (rows.modifyHead (first :: ·)) (pieces.modifyHead (first ++ ·)) := by
  cases h with
  | nil => exact .nil
  | cons head rest => exact .cons (.lexeme isLexeme head (apart _ rfl)) rest

/-- Cutting a text at a sign cuts its lexemes where they are this sign. The sign must be a lexeme
of its own wherever it occurs. -/
theorem splitOn (sign : Char) (hSign : isBlank sign = false) (h : Spaced lexemes cs)
    (hLexemes : ∀ lexeme ∈ lexemes, lexeme = [sign] ∨ sign ∉ lexeme) :
    List.Forall₂ Spaced (lexemes.splitOn [sign]) (cs.splitOn sign) := by
  induction h with
  | nil => exact .cons .nil .nil
  | @blank lexemes rest c blank spaced ih =>
      have hOther : ¬(c == sign) = true := by
        intro hSame
        rw [← beq_iff_eq.1 hSame, blank] at hSign
        cases hSign
      rw [List.splitOn_cons_eq_if_modifyHead, if_neg hOther]
      exact forall₂_blank blank (ih hLexemes)
  | @lexeme lexemes rest first isLexeme spaced apart ih =>
      obtain ⟨hFirst, hMore⟩ := List.forall_mem_cons.1 hLexemes
      rw [List.splitOn_cons_eq_if_modifyHead]
      by_cases hSame : first = [sign]
      · obtain rfl := hSame
        rw [List.singleton_append, List.splitOn_cons_eq_if_modifyHead, if_pos (by simp),
          if_pos (by simp)]
        exact .cons .nil (ih hMore)
      · rw [if_neg (by simpa using hSame), splitOn_append_of_not_mem (hFirst.resolve_left hSame)]
        apply forall₂_lexeme isLexeme (ih hMore)
        intro piece hPiece a ha b hb
        exact apart a ha b (head?_splitOn hPiece hb)

/-- Cutting a production at the sign `:=` cuts its lexemes there, as no other lexemes make that
sign together. A colon may be a lexeme, but none that follows it begins with an equals sign. -/
theorem splitSides (h : Spaced lexemes cs)
    (hLexemes : ∀ lexeme ∈ lexemes, lexeme = [':', '='] ∨
      (lexeme = [':'] ∨ ':' ∉ lexeme) ∧ lexeme.head? ≠ some '=') :
    List.Forall₂ Spaced (lexemes.splitOn [':', '=']) (Production.splitSides cs) := by
  induction h with
  | nil => exact .cons .nil .nil
  | @blank lexemes rest c blank spaced ih =>
      rw [splitSides_cons]
      · exact forall₂_blank blank (ih hLexemes)
      · rintro rfl
        exact absurd blank (by decide)
  | @lexeme lexemes rest first isLexeme spaced apart ih =>
      obtain ⟨hFirst, hMore⟩ := List.forall_mem_cons.1 hLexemes
      have hRows := ih hMore
      rw [List.splitOn_cons_eq_if_modifyHead]
      rcases hFirst with rfl | ⟨hFirst, hHead⟩
      · rw [if_pos (by decide)]
        exact .cons .nil hRows
      · have hOther : first ≠ [':', '='] := by
          rintro rfl
          simp at hFirst
        have hPieces : Production.splitSides (first ++ rest) =
            (Production.splitSides rest).modifyHead (first ++ ·) := by
          rcases hFirst with rfl | hFirst
          · apply splitSides_cons
            intro _ hNext
            -- what follows the colon begins with a blank or with a lexeme, and none begins with `=`
            rcases spaced.blank_or_head? hNext with hBlank | ⟨next, hMem, hb⟩
            · exact absurd hBlank (by decide)
            · rcases hMore next hMem with rfl | ⟨-, hNext⟩
              · cases hb
              · exact hNext hb
          · exact splitSides_append_of_not_mem hFirst rest
        rw [if_neg (by simpa using hOther), hPieces]
        apply forall₂_lexeme isLexeme hRows
        intro piece hPiece a ha b hb
        exact apart a ha b (head?_splitSides hPiece hb)

/-- Pieces without lexemes are blank, and no others are. So dropping blank pieces drops rows
without lexemes. -/
theorem forall₂_filter {rows : List (List (List Char))} {pieces : List (List Char)}
    (h : List.Forall₂ Spaced rows pieces) :
    List.Forall₂ Spaced (rows.filter (!·.isEmpty)) ((pieces.map Text.trim).filter (!·.isEmpty)) := by
  induction h with
  | nil => exact .nil
  | @cons row piece _ _ hFirst _ ih =>
      rw [List.map_cons]
      by_cases hRow : row = []
      · subst hRow
        rw [trim_eq_nil_iff.2 (Spaced.allBlank_of_nil hFirst)]
        exact ih
      · rw [List.filter_cons_of_pos (by simpa using hRow),
          List.filter_cons_of_pos (by simpa using Spaced.trim_ne_nil hFirst hRow)]
        exact .cons (Spaced.trim hFirst) ih

end Spaced

end PlotQuery
