import PlotQuery.Proofs.Expansions
import PlotQuery.Proofs.LexemeLayout

/-! Grammars before they are written. Names have neither blanks nor signs in them, a production has an
alternative, and an alternative has a slot. The lexemes of a grammar are what its text has to have, in
this order and with any layout. -/
namespace PlotQuery.Source

open Text

def isNameChar (c : Char) : Bool :=
  !(isStop c || ['"', '$', '?'].contains c)

/-- A name: some characters, without blanks and without the marks of the notation. -/
structure Name where
  chars : List Char
  nonempty : chars ≠ [] := by decide
  plain : chars.all isNameChar = true := by decide

/-- Characters that texts to assign are made of. -/
def isPhraseChar (c : Char) : Bool :=
  isNameChar c || isBlank c && c != '\n'

/-- A text to assign, which may have blanks inside but no end of a line. -/
structure Phrase where
  chars : List Char
  nonempty : chars ≠ [] := by decide
  plain : chars.all isPhraseChar = true := by decide
  first : chars.head?.any isBlank = false := by decide
  last : chars.getLast?.any isBlank = false := by decide

inductive Term where
  | nonterminal (name : Name)
  | literal (word : Name)
  | placeholder (name : Name)

structure Slot where
  term : Term
  optional : Bool

/-- What is assigned: a text, or the value of a slot under a key. -/
inductive Value where
  | phrase (text : Phrase)
  | reference (index : Nat) (property : Name)

structure Assignment where
  key : Name
  value : Value

/-- An alternative: slots, no more of them than there are positions, and at most one assignment. -/
structure Alternative where
  slots : List Slot
  nonempty : slots ≠ [] := by decide
  bounded : slots.length ≤ Production.indexBound := by decide
  assignment : Option Assignment

structure Production where
  name : Name
  alternatives : List Alternative
  nonempty : alternatives ≠ [] := by decide

/-- The lexeme of a term: a literal between double quotes, a placeholder behind a dollar sign. -/
def Term.lexeme : Term → List Char
  | nonterminal name => name.chars
  | literal word => '"' :: (word.chars ++ ['"'])
  | placeholder name => '$' :: name.chars

/-- The term that is meant. A literal stands for the normal form of its word. -/
def Term.meant : Term → PlotQuery.Term
  | nonterminal name => .nonterminal (String.ofList name.chars)
  | literal word => .literal (normalForm (String.ofList word.chars))
  | placeholder name => .placeholder (String.ofList ('$' :: name.chars))

def Slot.lexeme (slot : Slot) : List Char :=
  slot.term.lexeme ++ if slot.optional then ['?'] else []

def Slot.meant (slot : Slot) : PlotQuery.Slot :=
  ⟨slot.term.meant, slot.optional⟩

def Value.lexeme : Value → List Char
  | phrase text => text.chars
  | reference index property => '$' :: (Nat.toDigits 10 index ++ '.' :: property.chars)

def Value.meant : Value → ActionValue
  | phrase text => .literal (String.ofList text.chars)
  | reference index property => .child index (String.ofList property.chars)

def Assignment.lexemes (assignment : Assignment) : List (List Char) :=
  [['\x7b'], assignment.key.chars, [':'], assignment.value.lexeme, ['\x7d']]

def Assignment.meant (assignment : Assignment) : Action :=
  ⟨String.ofList assignment.key.chars, assignment.value.meant⟩

def Alternative.lexemes (alternative : Alternative) : List (List Char) :=
  alternative.slots.map Slot.lexeme ++ (alternative.assignment.map Assignment.lexemes).getD []

def Alternative.meant (alternative : Alternative) : PlotQuery.Production.Row :=
  ⟨alternative.slots.map Slot.meant, alternative.assignment.map Assignment.meant⟩

/-- The lexemes on the right side of a production, which has a `|` between its alternatives. -/
def Production.right (production : Production) : List (List Char) :=
  [['|']].intercalate (production.alternatives.map Alternative.lexemes)

def Production.lexemes (production : Production) : List (List Char) :=
  production.name.chars :: [':', '='] :: production.right

/-- The production that is meant: all the rules of all its alternatives. -/
def Production.meant (production : Production) : PlotQuery.Production :=
  ⟨String.ofList production.name.chars,
    production.alternatives.flatMap fun alternative => alternative.meant.rules⟩

/-- The lexemes of a grammar, which has a `;` between its productions and may end in one. -/
def lexemes (productions : List Production) (ended : Bool) : List (List Char) :=
  [[';']].intercalate (productions.map Production.lexemes) ++ if ended then [[';']] else []

/-- A lexeme that is no sign. -/
structure IsContent (lexeme : List Char) : Prop extends IsLexeme lexeme where
  unsigned : ∀ c ∈ lexeme, isSign c = false

section Lexemes

/-- A name may have any character but blanks, signs and the marks of literals, placeholders and
options. -/
theorem isNameChar_iff {c : Char} :
    isNameChar c = true ↔ isBlank c = false ∧ isSign c = false ∧ c ≠ '"' ∧ c ≠ '$' ∧ c ≠ '?' := by
  simp [isNameChar, isStop, and_assoc]

/-- A phrase may have blanks as well, but no newline. -/
theorem isPhraseChar_iff {c : Char} :
    isPhraseChar c = true ↔ isNameChar c = true ∨ isBlank c = true ∧ c ≠ '\n' := by
  simp [isPhraseChar]

theorem Name.isNameChar_of_mem (name : Name) {c : Char} (hc : c ∈ name.chars) :
    isNameChar c = true :=
  List.all_eq_true.1 name.plain c hc

theorem Name.not_mem (name : Name) {c : Char} (h : isNameChar c = false) : c ∉ name.chars := by
  intro hc
  rw [name.isNameChar_of_mem hc] at h
  cases h

theorem Name.not_blank (name : Name) : ∀ c ∈ name.chars, isBlank c = false :=
  fun _ hc => (isNameChar_iff.1 (name.isNameChar_of_mem hc)).1

theorem Name.any_isBlank (name : Name) : name.chars.any isBlank = false := by
  rw [List.any_eq_false]
  intro c hc
  simp [name.not_blank c hc]

/-- A name begins with none of the marks of literals and placeholders. So it is read as a
nonterminal. -/
theorem Name.exists_cons (name : Name) :
    ∃ c rest, name.chars = c :: rest ∧ c ≠ '"' ∧ c ≠ '$' := by
  obtain ⟨c, rest, hChars⟩ := List.exists_cons_of_ne_nil name.nonempty
  have hMem : c ∈ name.chars := by simp [hChars]
  obtain ⟨-, -, hQuote, hSign, -⟩ := isNameChar_iff.1 (name.isNameChar_of_mem hMem)
  exact ⟨c, rest, hChars, hQuote, hSign⟩

theorem ne_newline_of_not_blank {c : Char} (h : isBlank c = false) : c ≠ '\n' := by
  rintro rfl
  exact absurd h (by decide)

theorem ne_comment_of_not_sign {c : Char} (h : isSign c = false) : c ≠ '#' := by
  rintro rfl
  exact absurd h (by decide)

/-- A lexeme without blanks and without the beginning of a comment. It may have signs in it. -/
theorem isLexeme_of_all {lexeme : List Char} (hSome : lexeme ≠ [])
    (h : lexeme.all (fun c => !isBlank c && c != '#') = true) : IsLexeme lexeme := by
  have hPlain : ∀ c ∈ lexeme, isBlank c = false ∧ c ≠ '#' := by
    simpa using h
  exact {
    nonempty := hSome
    first := fun c hc => (hPlain c (List.mem_of_mem_head? hc)).1
    last := fun c hc => (hPlain c (List.mem_of_mem_getLast? hc)).1
    inLine := fun c hc => ⟨ne_newline_of_not_blank (hPlain c hc).1, (hPlain c hc).2⟩ }

/-- A lexeme without blanks and signs. It is never taken for a sign. -/
theorem isContent_of_forall {lexeme : List Char} (hSome : lexeme ≠ [])
    (h : ∀ c ∈ lexeme, isStop c = false) : IsContent lexeme := by
  have hPlain : ∀ c ∈ lexeme, isBlank c = false ∧ isSign c = false := by
    simpa [isStop] using h
  refine ⟨isLexeme_of_all hSome ?_, fun c hc => (hPlain c hc).2⟩
  apply List.all_eq_true.2
  intro c hc
  simp [(hPlain c hc).1, ne_comment_of_not_sign (hPlain c hc).2]

theorem Name.not_stop (name : Name) : ∀ c ∈ name.chars, isStop c = false := by
  intro c hc
  obtain ⟨hBlank, hSign, -⟩ := isNameChar_iff.1 (name.isNameChar_of_mem hc)
  rw [isStop, hBlank, hSign]
  rfl

theorem Name.isContent (name : Name) : IsContent name.chars :=
  isContent_of_forall name.nonempty name.not_stop

/-- A property that no sign has rules signs out. There are few signs, and each is looked at. -/
theorem isSign_eq_false {p : Char → Bool}
    (hSigns : ['#', ';', '|', '\x7b', '\x7d', ':', '='].any p = false) {c : Char}
    (h : p c = true) : isSign c = false := by
  by_contra hSign
  rw [Bool.not_eq_false, isSign, List.contains_iff_mem] at hSign
  exact List.any_eq_false.1 hSigns c hSign h

theorem Phrase.isContent (text : Phrase) : IsContent text.chars := by
  have hPlain : ∀ c ∈ text.chars, isSign c = false ∧ c ≠ '\n' := by
    intro c hc
    rcases isPhraseChar_iff.1 (List.all_eq_true.1 text.plain c hc) with hName | ⟨hBlank, hLine⟩
    · obtain ⟨hBlank, hSign, -⟩ := isNameChar_iff.1 hName
      exact ⟨hSign, ne_newline_of_not_blank hBlank⟩
    · exact ⟨isSign_eq_false (by decide) hBlank, hLine⟩
  exact {
    nonempty := text.nonempty
    first := (Option.any_eq_false _ _).1 text.first
    last := (Option.any_eq_false _ _).1 text.last
    inLine := fun c hc => ⟨(hPlain c hc).2, ne_comment_of_not_sign (hPlain c hc).1⟩
    unsigned := fun c hc => (hPlain c hc).1 }

/-- No term ends an alternative, a production or a line. -/
theorem Term.not_stop (term : Term) : ∀ c ∈ term.lexeme, isStop c = false := by
  cases term with
  | nonterminal name => exact name.not_stop
  | placeholder name => exact List.forall_mem_cons.2 ⟨by decide, name.not_stop⟩
  | literal word =>
      rw [Term.lexeme, List.forall_mem_cons, List.forall_mem_append]
      exact ⟨by decide, word.not_stop, List.forall_mem_singleton.2 (by decide)⟩

theorem Slot.not_stop (slot : Slot) : ∀ c ∈ slot.lexeme, isStop c = false := by
  rw [Slot.lexeme, List.forall_mem_append]
  refine ⟨slot.term.not_stop, ?_⟩
  split
  · exact List.forall_mem_singleton.2 (by decide)
  · exact List.forall_mem_nil _

theorem Slot.isContent (slot : Slot) : IsContent slot.lexeme := by
  apply isContent_of_forall _ slot.not_stop
  obtain ⟨term, optional⟩ := slot
  cases term with
  | nonterminal name => simp [Slot.lexeme, Term.lexeme, name.nonempty]
  | literal word => simp [Slot.lexeme, Term.lexeme]
  | placeholder name => simp [Slot.lexeme, Term.lexeme]

theorem not_stop_of_isDigit {c : Char} (h : c.isDigit = true) : isStop c = false := by
  have hRange : 48 ≤ c.toNat ∧ c.toNat ≤ 57 := by
    simpa [Char.isDigit, UInt32.le_iff_toNat_le] using h
  rw [isStop, Bool.or_eq_false_iff]
  constructor
  · simp only [isBlank, Bool.or_eq_false_iff, Bool.and_eq_false_iff, decide_eq_false_iff_not,
      beq_eq_false_iff_ne]
    omega
  · exact isSign_eq_false (by decide) h

/-- A value is a text or a reference, and neither has a sign in it. -/
theorem Value.isContent (value : Value) : IsContent value.lexeme := by
  cases value with
  | phrase text => exact text.isContent
  | reference index property =>
      apply isContent_of_forall (List.cons_ne_nil _ _)
      rw [List.forall_mem_cons, List.forall_mem_append, List.forall_mem_cons]
      refine ⟨by decide, fun c hc => ?_, by decide, property.not_stop⟩
      exact not_stop_of_isDigit (Nat.isDigit_of_mem_toDigits (by decide) (by decide) hc)

/-- Each sign is a lexeme by itself, also that of two characters. -/
theorem isLexeme_sign {sign : List Char}
    (h : sign ∈ [['\x7b'], [':'], ['\x7d'], ['|'], [':', '='], [';']]) : IsLexeme sign := by
  simp only [List.mem_cons, List.not_mem_nil, or_false] at h
  rcases h with rfl | rfl | rfl | rfl | rfl | rfl <;>
    exact isLexeme_of_all (by decide) (by decide)

/-- What has no sign in it is no sign. -/
theorem IsContent.ne_sign {lexeme : List Char} (h : IsContent lexeme) (sign : Char)
    (hSign : isSign sign = true) : lexeme ≠ [sign] := by
  rintro rfl
  rw [h.unsigned sign List.mem_cons_self] at hSign
  cases hSign

/-- A row without a sign among its own does not have the sign. This is how the rows between signs
are told apart from the signs. -/
theorem sign_not_mem {signs row : List (List Char)}
    (hRow : ∀ lexeme ∈ row, IsContent lexeme ∨ lexeme ∈ signs) {sign : Char}
    (hSign : isSign sign = true) (hSigns : [sign] ∉ signs) : [sign] ∉ row := by
  intro hMem
  rcases hRow _ hMem with hContent | hOther
  · exact hContent.ne_sign sign hSign rfl
  · exact hSigns hOther

/-- Cutting a text at a sign cuts its lexemes, as the sign is in no other of them. The pieces go
with the rows between the signs, one by one. -/
theorem forall₂_splitOn (sign : Char) {signs row : List (List Char)} {text : List Char}
    (h : Spaced row text) (hRow : ∀ lexeme ∈ row, IsContent lexeme ∨ lexeme ∈ signs)
    (hSign : isSign sign = true) (hSigns : ∀ other ∈ signs, other = [sign] ∨ sign ∉ other) :
    List.Forall₂ Spaced (row.splitOn [sign]) (text.splitOn sign) := by
  have hBlank : isBlank sign = false := by
    by_contra hBlank
    rw [isSign_eq_false (by decide) (Bool.not_eq_false _ ▸ hBlank)] at hSign
    cases hSign
  apply h.splitOn sign hBlank
  intro lexeme hMem
  rcases hRow lexeme hMem with hContent | hOther
  · right
    intro hc
    rw [hContent.unsigned sign hc] at hSign
    cases hSign
  · exact hSigns lexeme hOther

/-- What stands in rows with a sign between them is the sign or a member of a row. -/
theorem mem_intercalate {α : Type} {sign : α} {rows : List (List α)} {a : α}
    (h : a ∈ [sign].intercalate rows) : a = sign ∨ ∃ row ∈ rows, a ∈ row := by
  induction rows with
  | nil => simp [List.intercalate] at h
  | cons row rows ih =>
      cases rows with
      | nil => exact .inr ⟨row, List.mem_cons_self, by simpa [List.intercalate] using h⟩
      | cons next rows =>
          have hParts : a ∈ row ∨ a = sign ∨ a ∈ [sign].intercalate (next :: rows) := by
            simpa [List.intercalate] using h
          rcases hParts with ha | ha | ha
          · exact .inr ⟨row, List.mem_cons_self, ha⟩
          · exact .inl ha
          · exact (ih ha).imp_right fun ⟨found, hFound, ha⟩ =>
              ⟨found, List.mem_cons_of_mem row hFound, ha⟩

/-- An alternative has no signs but those of its action. -/
theorem Alternative.content_or_sign (alternative : Alternative) :
    ∀ lexeme ∈ alternative.lexemes,
      IsContent lexeme ∨ lexeme ∈ [['\x7b'], [':'], ['\x7d']] := by
  intro lexeme h
  rw [lexemes, List.mem_append] at h
  rcases h with h | h
  · obtain ⟨slot, -, rfl⟩ := List.mem_map.1 h
    exact .inl slot.isContent
  · cases hAssignment : alternative.assignment with
    | none => simp [hAssignment] at h
    | some assignment =>
        simp only [hAssignment, Option.map_some, Option.getD_some, Assignment.lexemes, List.mem_cons,
          List.not_mem_nil, or_false] at h
        rcases h with rfl | rfl | rfl | rfl | rfl
        · exact .inr (by simp)
        · exact .inl assignment.key.isContent
        · exact .inr (by simp)
        · exact .inl assignment.value.isContent
        · exact .inr (by simp)

theorem Production.content_or_sign_right (production : Production) :
    ∀ lexeme ∈ production.right,
      IsContent lexeme ∨ lexeme ∈ [['\x7b'], [':'], ['\x7d'], ['|']] := by
  intro lexeme h
  rcases mem_intercalate h with rfl | ⟨row, hRow, h⟩
  · exact .inr (by simp)
  · obtain ⟨alternative, -, rfl⟩ := List.mem_map.1 hRow
    refine (alternative.content_or_sign lexeme h).imp_right fun hSign => ?_
    exact List.mem_append_left [['|']] hSign

/-- A production has no semicolon in it, so it can be found in a text by cutting at these. -/
theorem Production.content_or_sign (production : Production) :
    ∀ lexeme ∈ production.lexemes,
      IsContent lexeme ∨ lexeme ∈ [['\x7b'], [':'], ['\x7d'], ['|'], [':', '=']] := by
  intro lexeme h
  simp only [lexemes, List.mem_cons] at h
  rcases h with rfl | rfl | h
  · exact .inl production.name.isContent
  · exact .inr (by simp)
  · refine (production.content_or_sign_right lexeme h).imp_right fun hSign => ?_
    exact List.mem_append_left [[':', '=']] hSign

theorem content_or_sign (productions : List Production) (ended : Bool) :
    ∀ lexeme ∈ lexemes productions ended,
      IsContent lexeme ∨ lexeme ∈ [['\x7b'], [':'], ['\x7d'], ['|'], [':', '='], [';']] := by
  intro lexeme h
  rcases List.mem_append.1 h with h | h
  · rcases mem_intercalate h with rfl | ⟨row, hRow, h⟩
    · exact .inr (by simp)
    · obtain ⟨production, -, rfl⟩ := List.mem_map.1 hRow
      refine (production.content_or_sign lexeme h).imp_right fun hSign => ?_
      exact List.mem_append_left [[';']] hSign
  · have hEnd : lexeme = [';'] := by
      cases ended with
      | false => cases h
      | true => exact List.mem_singleton.1 h
    exact .inr (by simp [hEnd])

end Lexemes

end PlotQuery.Source
