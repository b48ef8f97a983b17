import PlotQuery.Proofs.RuleForms
import PlotQuery.Proofs.SourceGrammar

/-! Reading what has been written. A text that lays a grammar out is read exactly where every reference
is to a slot that its alternative has and every choice of slots makes a rule. The rules that are read
are then those that are meant. -/
namespace PlotQuery.Source

open Text

theorem dropLast?_append (last : Char) (text : List Char) :
    PlotQuery.Production.dropLast? last (text ++ [last]) = some text := by
  simp [PlotQuery.Production.dropLast?]

theorem dropLast?_of_not_mem {last : Char} {text : List Char} (h : last ∉ text) :
    PlotQuery.Production.dropLast? last text = none := by
  rw [PlotQuery.Production.dropLast?, if_neg]
  exact fun hLast => h (List.mem_of_getLast? hLast)

theorem Name.allBlank (name : Name) : allBlank name.chars = false := by
  obtain ⟨c, rest, hChars, -⟩ := name.exists_cons
  have hBlank := name.not_blank c (by simp [hChars])
  simp [Text.allBlank, hChars, hBlank]

/-- A term is read as it is meant, by the mark in front of it. -/
theorem readTerm_lexeme (production : String) (term : Term) :
    PlotQuery.Production.readTerm production term.lexeme = .ok term.meant := by
  cases term with
  | nonterminal name =>
      obtain ⟨c, rest, hChars, hQuote, hSign⟩ := name.exists_cons
      rw [Term.lexeme, Term.meant, hChars]
      unfold PlotQuery.Production.readTerm
      split
      · next hNil => cases hNil
      · next hHead => exact absurd (List.cons.inj hHead).1 hQuote
      · next hHead => exact absurd (List.cons.inj hHead).1 hSign
      · rfl
  | literal word =>
      simp [PlotQuery.Production.readTerm, PlotQuery.Production.readLiteral?, Term.lexeme, Term.meant,
        dropLast?_append, word.allBlank, pure, Except.pure]
  | placeholder name =>
      simp [PlotQuery.Production.readTerm, Term.lexeme, Term.meant, name.nonempty, pure, Except.pure]

theorem Term.not_mem (term : Term) : '?' ∉ term.lexeme := by
  cases term with
  | nonterminal name => exact name.not_mem (by decide)
  | literal word =>
      have hWord : '?' ∉ word.chars := word.not_mem (by decide)
      simp [Term.lexeme, hWord]
  | placeholder name =>
      have hName : '?' ∉ name.chars := name.not_mem (by decide)
      simp [Term.lexeme, hName]

/-- A slot is read as it is meant, with the question mark taken for the option and not for a part
of the name. -/
theorem readSlot_lexeme (production : String) (slot : Slot) :
    PlotQuery.Production.readSlot production slot.lexeme = .ok slot.meant := by
  obtain ⟨term, optional⟩ := slot
  cases optional with
  | true =>
      simp [PlotQuery.Production.readSlot, Slot.lexeme, Slot.meant, dropLast?_append,
        readTerm_lexeme, Except.map]
  | false =>
      simp [PlotQuery.Production.readSlot, Slot.lexeme, Slot.meant,
        dropLast?_of_not_mem term.not_mem, readTerm_lexeme, Except.map]

/-- A number in decimal digits is read as this number. -/
theorem readNat?_toDigits (n : Nat) : Decimal.readNat? (Nat.toDigits 10 n) = some n := by
  have hDigits : ∀ c ∈ Nat.toDigits 10 n, c.isDigit = true := fun c hc =>
    Nat.isDigit_of_mem_toDigits (by decide) (by decide) hc
  unfold Decimal.readNat?
  split
  · next rest hText =>
    exact absurd (hDigits '+' (by rw [hText]; exact List.mem_cons_self)) (by decide)
  · have hAll : (Nat.toDigits 10 n).all Decimal.isDigit = true := by
      apply List.all_eq_true.2
      intro c hc
      have h := hDigits c hc
      rw [Char.isDigit, Bool.and_eq_true, decide_eq_true_eq, decide_eq_true_eq] at h
      rw [Decimal.isDigit, Bool.and_eq_true, decide_eq_true_eq, decide_eq_true_eq]
      exact h
    have hNumber : Decimal.ofDigits (Nat.toDigits 10 n) = n := by
      rw [Decimal.ofDigits, ← Nat.ofDigitChars_eq_foldl, Nat.ofDigitChars_ten_toDigits]
    simp [hAll, hNumber, Nat.toDigits_ne_nil]

/-- Whether the position that a value refers to can be counted. -/
def Value.inRange : Value → Bool
  | phrase _ => true
  | reference index _ => decide (index < PlotQuery.Production.indexBound)

/-- A reference is read as it is meant, if the position is below the bound on positions. -/
theorem readReference?_append (index : Nat) (property : Name) :
    PlotQuery.Production.readReference? (Nat.toDigits 10 index ++ '.' :: property.chars) =
      if index < PlotQuery.Production.indexBound then
        some (.child index (String.ofList property.chars)) else none := by
  have hPoint : ∀ c ∈ Nat.toDigits 10 index, (c != '.') = true := by
    intro c hc
    have hDigit := Nat.isDigit_of_mem_toDigits (by decide) (by decide) hc
    rw [bne_iff_ne]
    rintro rfl
    exact absurd hDigit (by decide)
  have hSplit : PlotQuery.Production.splitFirst? '.'
      (Nat.toDigits 10 index ++ '.' :: property.chars) =
        some (Nat.toDigits 10 index, property.chars) := by
    simp only [PlotQuery.Production.splitFirst?]
    rw [List.dropWhile_append_of_pos hPoint, List.takeWhile_append_of_pos hPoint]
    simp
  simp +contextual [PlotQuery.Production.readReference?, hSplit, readNat?_toDigits,
    property.not_blank, property.nonempty]

/-- A value is read as it is meant, if a position in it can be counted. Texts have no such
bound. -/
theorem readValue?_lexeme (value : Value) :
    PlotQuery.Production.readValue? value.lexeme =
      if value.inRange then some value.meant else none := by
  cases value with
  | phrase text =>
      obtain ⟨c, rest, hChars⟩ := List.exists_cons_of_ne_nil text.nonempty
      have hSign : c ≠ '$' := by
        rintro rfl
        exact absurd (List.all_eq_true.1 text.plain '$' (by simp [hChars])) (by decide)
      rw [Value.lexeme, Value.meant, hChars]
      unfold PlotQuery.Production.readValue?
      split
      · next hHead => exact absurd (List.cons.inj hHead).1 hSign
      · rfl
  | reference index property =>
      rw [Value.lexeme, PlotQuery.Production.readValue?, readReference?_append, Value.inRange]
      simp [Value.meant]

/-- An action is read as it is meant, unless its position is beyond the bound. -/
theorem readAction?_of_spaced (assignment : Assignment) {clause : List Char}
    (h : Spaced [assignment.key.chars, [':'], assignment.value.lexeme, ['\x7d']] clause) :
    PlotQuery.Production.readAction? clause =
      if assignment.value.inRange then some assignment.meant else none := by
  have hEnd : Spaced ([assignment.key.chars, [':'], assignment.value.lexeme] ++ [['\x7d']])
      clause := h
  obtain ⟨inner, hInner, hSpaced⟩ := hEnd.dropLast?_trim
  have hKey := assignment.key.isContent
  have hValue := assignment.value.isContent
  have hInside : ∀ lexeme ∈ [assignment.key.chars, [':'], assignment.value.lexeme],
      IsContent lexeme ∨ lexeme ∈ [[':']] := by
    simp [hKey, hValue]
  have hPieces := forall₂_splitOn ':' hSpaced hInside (by decide) (by decide)
  have hRows : [assignment.key.chars, [':'], assignment.value.lexeme].splitOn [':'] =
      [[assignment.key.chars], [assignment.value.lexeme]] := by
    simp [List.splitOn_cons_eq_if_modifyHead, hKey.ne_sign ':' (by decide),
      hValue.ne_sign ':' (by decide)]
  rw [hRows] at hPieces
  generalize hSplit : inner.splitOn ':' = pieces at hPieces
  obtain _ | ⟨hFirst, _ | ⟨hSecond, _ | _⟩⟩ := hPieces
  simp only [PlotQuery.Production.readAction?, hInner, Option.bind_eq_bind, Option.bind_some, hSplit,
    List.map_cons, List.map_nil, hFirst.trim_eq_of_singleton, hSecond.trim_eq_of_singleton]
  rw [if_neg (by simp [assignment.key.any_isBlank, hKey.nonempty, hValue.nonempty]),
    readValue?_lexeme]
  split <;> rfl

/-- Whether the position that the assignment refers to, if it does, can be counted. -/
def Alternative.inRange (alternative : Alternative) : Bool :=
  alternative.assignment.all (·.value.inRange)

/-- An alternative falls apart into its slots and its action, wherever there are blanks. -/
theorem splitAction?_of_spaced (alternative : Alternative) {text : List Char}
    (h : Spaced alternative.lexemes text) :
    ∃ body, Spaced (alternative.slots.map Slot.lexeme) body ∧
      PlotQuery.Production.splitAction? text =
        if alternative.inRange then some (body, alternative.meant.action) else none := by
  have hPieces := forall₂_splitOn '\x7b' h alternative.content_or_sign (by decide) (by decide)
  have hSlots : ['\x7b'] ∉ alternative.slots.map Slot.lexeme := by
    intro hMem
    obtain ⟨slot, -, hSlot⟩ := List.mem_map.1 hMem
    exact slot.isContent.ne_sign _ (by decide) hSlot
  -- a closing brace is neither a blank nor part of a slot
  have hClosed {body : List Char} (hBody : Spaced (alternative.slots.map Slot.lexeme) body) :
      body.contains '\x7d' = false := by
    rw [Bool.eq_false_iff, Ne, List.contains_iff_mem]
    intro hMem
    rcases hBody.blank_or_mem hMem with hBlank | ⟨lexeme, hLexeme, hMem⟩
    · exact absurd hBlank (by decide)
    · obtain ⟨slot, -, rfl⟩ := List.mem_map.1 hLexeme
      exact absurd (slot.isContent.unsigned _ hMem) (by decide)
  rw [Alternative.lexemes] at hPieces
  rw [Alternative.inRange, Alternative.meant]
  generalize hSplit : text.splitOn '\x7b' = pieces at hPieces
  cases hAssignment : alternative.assignment with
  | none =>
      rw [hAssignment, Option.map_none, Option.getD_none, List.append_nil,
        List.splitOn_eq_singleton hSlots] at hPieces
      obtain _ | ⟨hBody, _ | _⟩ := hPieces
      refine ⟨_, hBody, ?_⟩
      simp only [PlotQuery.Production.splitAction?, hSplit, hClosed hBody]
      rfl
  | some assignment =>
      have hRest : ['\x7b'] ∉
          [assignment.key.chars, [':'], assignment.value.lexeme, ['\x7d']] := by
        have hKey := assignment.key.isContent.ne_sign '\x7b' (by decide)
        have hValue := assignment.value.isContent.ne_sign '\x7b' (by decide)
        simp [hKey.symm, hValue.symm]
      rw [hAssignment, Option.map_some, Option.getD_some, Assignment.lexemes,
        List.splitOn_append_cons_self_of_not_mem hSlots, List.splitOn_eq_singleton hRest] at hPieces
      obtain _ | ⟨hBody, _ | ⟨hClause, _ | _⟩⟩ := hPieces
      refine ⟨_, hBody, ?_⟩
      simp only [PlotQuery.Production.splitAction?, hSplit, hClosed hBody,
        readAction?_of_spaced assignment hClause, Option.all_some]
      cases assignment.value.inRange <;> rfl

/-- A position that the alternative has can be counted. So the bound on positions never decides
whether a text can be read. -/
theorem Alternative.inRange_of_fits {alternative : Alternative} (h : alternative.meant.Fits) :
    alternative.inRange = true := by
  rw [inRange, Option.all_eq_true]
  intro assignment hAssignment
  obtain ⟨key, value⟩ := assignment
  cases value with
  | phrase text => rfl
  | reference index property =>
      have hIndex := h.reference (String.ofList key.chars) index (String.ofList property.chars) (by
        rw [meant, hAssignment]
        rfl)
      rw [meant, List.length_map] at hIndex
      exact decide_eq_true (Nat.lt_of_lt_of_le hIndex alternative.bounded)

/-- An alternative is read where its slots fit together. Both errors, of a reference and of a
choice, are among the ways not to fit. -/
theorem readAlternative_of_spaced (quoted : String) (alternative : Alternative) {text : List Char}
    (h : Spaced alternative.lexemes text) (rules : List TermRule) :
    PlotQuery.Production.readAlternative quoted text = .ok rules ↔
      alternative.meant.Fits ∧ rules = alternative.meant.rules := by
  obtain ⟨body, hBody, hSplit⟩ := splitAction?_of_spaced alternative h
  have hWords : Text.words body = alternative.slots.map Slot.lexeme :=
    hBody.words_eq (by simpa using fun slot _ => slot.not_stop)
  have hSlots : (Text.words body).mapM (PlotQuery.Production.readSlot quoted) =
      .ok alternative.meant.slots := by
    rw [hWords, mapM_eq_ok_iff, Alternative.meant, List.forall₂_map_left_iff,
      List.forall₂_map_right_iff, List.forall₂_same]
    exact fun slot _ => readSlot_lexeme quoted slot
  rw [PlotQuery.Production.readAlternative_eq_ok_iff, hSplit]
  constructor
  · rintro ⟨found, ⟨slots, action⟩, hAction, hFound, -, hFits, rfl⟩
    split at hAction
    · cases hAction
      rw [hSlots] at hFound
      cases hFound
      exact ⟨hFits, rfl⟩
    · cases hAction
  · rintro ⟨hFits, rfl⟩
    refine ⟨body, alternative.meant, ?_, hSlots, ?_, hFits, rfl⟩
    · rw [if_pos (Alternative.inRange_of_fits hFits)]
    · simpa [Alternative.meant] using alternative.nonempty

/-- Where each thing is read as it is meant from what is written for it, a list of them is read as
they are meant. It is used for alternatives and for productions. -/
theorem forall₂_iff_of_forall₂ {α β γ : Type} {R : α → β → Prop} {S : β → γ → Prop} {P : α → Prop}
    {g : α → γ} (hRead : ∀ x y, R x y → ∀ z, S y z ↔ P x ∧ z = g x) {xs : List α} {ys : List β}
    (h : List.Forall₂ R xs ys) (zs : List γ) :
    List.Forall₂ S ys zs ↔ (∀ x ∈ xs, P x) ∧ zs = xs.map g := by
  induction h generalizing zs with
  | nil => simp
  | cons hFirst hRest ih =>
      simp only [List.forall₂_cons_left_iff, hRead _ _ hFirst, ih, List.forall_mem_cons, List.map_cons]
      constructor
      · rintro ⟨_, _, ⟨hFits, rfl⟩, ⟨hAll, rfl⟩, rfl⟩
        exact ⟨⟨hFits, hAll⟩, rfl⟩
      · rintro ⟨⟨hFits, hAll⟩, rfl⟩
        exact ⟨_, _, ⟨hFits, rfl⟩, ⟨hAll, rfl⟩, rfl⟩

theorem Name.isSymbolName (name : Name) :
    PlotQuery.Production.isSymbolName name.chars = true := by
  have hBlank := name.any_isBlank
  obtain ⟨c, rest, hChars, hQuote, hSign⟩ := name.exists_cons
  rw [hChars] at hBlank ⊢
  simp [PlotQuery.Production.isSymbolName, hBlank, hQuote, hSign]

theorem Production.right_ne_nil (production : Production) : production.right ≠ [] := by
  obtain ⟨alternative, others, hAll⟩ := List.exists_cons_of_ne_nil production.nonempty
  have hFirst : alternative.lexemes ≠ [] := by
    simp [Alternative.lexemes, alternative.nonempty]
  rw [right, hAll]
  cases others <;> simp [List.intercalate, hFirst]

/-- A production has two sides, and the sign between them stands nowhere else in it. -/
theorem Production.splitSides_of_spaced (production : Production) {text : List Char}
    (h : Spaced production.lexemes text) :
    ∃ lhs rhs, PlotQuery.Production.splitSides text = [lhs, rhs] ∧
      Spaced [production.name.chars] lhs ∧ Spaced production.right rhs := by
  have hSigns : ∀ sign ∈ [['\x7b'], [':'], ['\x7d'], ['|'], [':', '=']], sign = [':', '='] ∨
      (sign = [':'] ∨ ':' ∉ sign) ∧ sign.head? ≠ some '=' := by
    decide
  have hLexemes : ∀ lexeme ∈ production.lexemes, lexeme = [':', '='] ∨
      (lexeme = [':'] ∨ ':' ∉ lexeme) ∧ lexeme.head? ≠ some '=' := by
    intro lexeme hMem
    rcases production.content_or_sign lexeme hMem with hContent | hSign
    · refine .inr ⟨.inr fun hc => ?_, fun hHead => ?_⟩
      · exact absurd (hContent.unsigned _ hc) (by decide)
      · exact absurd (hContent.unsigned _ (List.mem_of_mem_head? hHead)) (by decide)
    · exact hSigns lexeme hSign
  have hOther {lexeme : List Char} (h : IsContent lexeme) : lexeme ≠ [':', '='] := by
    rintro rfl
    exact absurd (h.unsigned ':' List.mem_cons_self) (by decide)
  have hLeft : [':', '='] ∉ [production.name.chars] := by
    simpa using (hOther production.name.isContent).symm
  have hRight : [':', '='] ∉ production.right := by
    intro hMem
    rcases production.content_or_sign_right _ hMem with hContent | hSign
    · exact hOther hContent rfl
    · exact absurd hSign (by decide)
  have hRows : production.lexemes.splitOn [':', '='] =
      [[production.name.chars], production.right] := by
    rw [← List.splitOn_eq_singleton hRight]
    exact List.splitOn_append_cons_self_of_not_mem hLeft production.right
  have hSides := h.splitSides hLexemes
  rw [hRows] at hSides
  generalize PlotQuery.Production.splitSides text = sides at hSides
  obtain _ | ⟨hLhs, _ | ⟨hRhs, _ | _⟩⟩ := hSides
  exact ⟨_, _, rfl, hLhs, hRhs⟩

/-- The right side of a production falls apart into its alternatives. -/
theorem Production.splitOn_right (production : Production) :
    production.right.splitOn ['|'] = production.alternatives.map Alternative.lexemes := by
  apply List.splitOn_intercalate
  · intro row hRow
    obtain ⟨alternative, -, rfl⟩ := List.mem_map.1 hRow
    exact sign_not_mem alternative.content_or_sign (by decide) (by decide)
  · simpa using production.nonempty

/-- A production is read where each of its alternatives is. Its name is always one that can be
read. -/
theorem readChars_of_spaced (quoted : String) (production : Production) {text : List Char}
    (h : Spaced production.lexemes text) (result : PlotQuery.Production) :
    PlotQuery.Production.readChars quoted text = .ok result ↔
      (∀ alternative ∈ production.alternatives, alternative.meant.Fits) ∧
        result = production.meant := by
  obtain ⟨lhs, rhs, hSides, hLhs, hRhs⟩ := production.splitSides_of_spaced h
  have hName := hLhs.trim_eq_of_singleton
  have hPieces :=
    forall₂_splitOn '|' hRhs.trim production.content_or_sign_right (by decide) (by decide)
  rw [production.splitOn_right, List.forall₂_map_left_iff] at hPieces
  have hRead (alternative : Alternative) (piece : List Char) (h : Spaced alternative.lexemes piece)
      (rules : List TermRule) :
      PlotQuery.Production.readAlternative quoted (Text.trim piece) = .ok rules ↔
        alternative.meant.Fits ∧ rules = alternative.meant.rules :=
    readAlternative_of_spaced quoted alternative h.trim rules
  have hRules := forall₂_iff_of_forall₂ hRead hPieces
  rw [PlotQuery.Production.readChars_eq_ok_iff, hSides, List.map_cons, List.map_singleton, hName]
  constructor
  · rintro ⟨_, _, rules, hSame, -, -, hAll, rfl⟩
    cases hSame
    obtain ⟨hFits, rfl⟩ := (hRules rules).1 hAll
    exact ⟨hFits, rfl⟩
  · rintro ⟨hFits, rfl⟩
    exact ⟨_, _, _, rfl, production.name.isSymbolName, hRhs.trim_ne_nil production.right_ne_nil,
      (hRules _).2 ⟨hFits, rfl⟩, rfl⟩

/-- A sign at the end leaves an empty piece behind it. -/
theorem splitOn_intercalate_append {sign : List Char} {rows : List (List (List Char))}
    (h : ∀ row ∈ rows, sign ∉ row) (hSome : rows ≠ []) :
    ([sign].intercalate rows ++ [sign]).splitOn sign = rows ++ [[]] := by
  have hEnd : [sign].intercalate rows ++ [sign] = [sign].intercalate (rows ++ [[]]) := by
    induction rows with
    | nil => exact absurd rfl hSome
    | cons row rows ih =>
        cases rows with
        | nil => simp
        | cons next rows =>
            have hRest := ih (fun row hRow => h row (List.mem_cons_of_mem _ hRow)) (by simp)
            simp only [List.cons_append, List.intercalate_cons_cons, List.append_assoc] at hRest ⊢
            rw [hRest]
  rw [hEnd]
  apply List.splitOn_intercalate
  · simpa [or_imp, forall_and] using h
  · simp

/-- Cut at the sign `;`, a grammar has the lexemes of its productions, and no others. A sign at
the end makes an empty piece, which is dropped. -/
theorem filter_splitOn_lexemes (productions : List Production) (ended : Bool) :
    ((lexemes productions ended).splitOn [';']).filter (!·.isEmpty) =
      productions.map Production.lexemes := by
  have hSign : ∀ row ∈ productions.map Production.lexemes, [';'] ∉ row := by
    intro row hRow
    obtain ⟨production, -, rfl⟩ := List.mem_map.1 hRow
    exact sign_not_mem production.content_or_sign (by decide) (by decide)
  have hFilled : (productions.map Production.lexemes).filter (!·.isEmpty) =
      productions.map Production.lexemes := by
    simp [Production.lexemes]
  by_cases hNone : productions = []
  · subst hNone
    cases ended <;> rfl
  · have hSome : productions.map Production.lexemes ≠ [] := by simpa using hNone
    cases ended with
    | false =>
        rw [lexemes, if_neg (by simp), List.append_nil, List.splitOn_intercalate _ hSign hSome,
          hFilled]
    | true =>
        rw [lexemes, if_pos rfl, splitOn_intercalate_append hSign hSome, List.filter_append, hFilled]
        simp

theorem isLexeme_of_mem {productions : List Production} {ended : Bool} :
    ∀ lexeme ∈ lexemes productions ended, IsLexeme lexeme := by
  intro lexeme hMem
  rcases content_or_sign productions ended lexeme hMem with hContent | hSign
  · exact hContent.toIsLexeme
  · exact isLexeme_sign hSign

/-- The text of a grammar has a piece for each of its productions. The pieces are laid out with
blanks around the lexemes, as comments are gone. -/
theorem forall₂_productionTexts {productions : List Production} {ended : Bool} {text : String}
    (h : Laid (lexemes productions ended) text.toList) :
    List.Forall₂ (fun production piece => Spaced production.lexemes piece.toList) productions
      (productionTexts text) := by
  obtain ⟨hText, -⟩ := h.spaced isLexeme_of_mem
  have hPieces :=
    forall₂_splitOn ';' hText (content_or_sign productions ended) (by decide) (by decide)
  have hFilled := Spaced.forall₂_filter hPieces
  rw [filter_splitOn_lexemes, List.forall₂_map_left_iff] at hFilled
  rw [productionTexts, List.forall₂_map_right_iff]
  simpa using hFilled

/-- Each production of a grammar is read where each of its alternatives is. The productions are
those meant. -/
theorem forall₂_read_iff {productions : List Production} {ended : Bool} {text : String}
    (h : Laid (lexemes productions ended) text.toList) (results : List PlotQuery.Production) :
    List.Forall₂ (fun piece result => PlotQuery.Production.read piece = .ok result)
        (productionTexts text).reverse results ↔
      (∀ production ∈ productions, ∀ alternative ∈ production.alternatives,
        alternative.meant.Fits) ∧ results = productions.reverse.map Production.meant := by
  have hRead (production : Production) (piece : String) (h : Spaced production.lexemes piece.toList)
      (result : PlotQuery.Production) : PlotQuery.Production.read piece = .ok result ↔
        (∀ alternative ∈ production.alternatives, alternative.meant.Fits) ∧
          result = production.meant :=
    readChars_of_spaced piece production h result
  rw [forall₂_iff_of_forall₂ hRead (List.rel_reverse (forall₂_productionTexts h))]
  simp only [List.mem_reverse]

end PlotQuery.Source
