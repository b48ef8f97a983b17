import PlotQuery.Grammar

/-! What reading a grammar leaves: the rules of its text, the settings, and the annotators under the
numbers of their symbols. -/
namespace PlotQuery

/-- A spelling keeps its number when further symbols are numbered. So what has been looked up once
need not be looked up again. -/
theorem SymbolTable.find?_intern_of_find? {table : SymbolTable} {spelling : String} {id : SymbolId}
    (symbol : Symbol) (h : table.find? spelling = some id) :
    (table.intern symbol).1.find? spelling = some id := by
  rw [intern]
  split
  · exact h
  · rw [find?] at h
    rw [find?, push, List.findIdx?_append, h]
    rfl

/-- A number belongs to one spelling only. Two spellings of one number would be two symbols at one
place. -/
theorem SymbolTable.spelling_unique {table : SymbolTable} {first second : String} {id : SymbolId}
    (h : table.find? first = some id) (h' : table.find? second = some id) : first = second := by
  obtain ⟨_, hFirst, -⟩ := List.findIdx?_eq_some_iff_getElem.1 h
  obtain ⟨_, hSecond, -⟩ := List.findIdx?_eq_some_iff_getElem.1 h'
  rw [beq_iff_eq] at hFirst hSecond
  exact hFirst.symm.trans hSecond

namespace Grammar

variable {S : Type}

/-- The grammar has the rules of a text, the given annotators in their order, each under the number
of its symbol, the given settings, and the number of their root. -/
structure BuiltFrom (grammar : Grammar S) (settings : Settings S) (annotators : List (Annotator S))
    (text : String) : Prop where
  rules_eq : ∃ set, RuleSet.read text = .ok set ∧ grammar.rules = set.rules
  settings_eq : grammar.settings = settings
  annotators_eq : grammar.annotators.map Prod.snd = annotators
  find?_annotator : ∀ entry ∈ grammar.annotators,
    grammar.symbols.find? entry.2.symbol = some entry.1
  find?_root : grammar.symbols.find? settings.root = some grammar.root

/-- Under the spelling of its symbol an annotator's entry is found, and under no other. -/
theorem BuiltFrom.find?_eq_some_iff {grammar : Grammar S} {settings : Settings S}
    {annotators : List (Annotator S)} {text : String}
    (hBuilt : grammar.BuiltFrom settings annotators text) {symbol : SymbolId}
    {annotator : Annotator S} (hEntry : (symbol, annotator) ∈ grammar.annotators)
    (spelling : String) :
    grammar.symbols.find? spelling = some symbol ↔ annotator.symbol = spelling := by
  have hFind := hBuilt.find?_annotator _ hEntry
  refine ⟨fun h => SymbolTable.spelling_unique hFind h, ?_⟩
  rintro rfl
  exact hFind

/-- An annotator is registered under the number of its symbol, behind those registered before
it. -/
theorem register_eq_ok {symbols symbols' : SymbolTable}
    {registered registered' : List (SymbolId × Annotator S)} {annotator : Annotator S}
    (h : register (symbols, registered) annotator = .ok (symbols', registered')) :
    (symbols', registered') = ((symbols.intern ⟨annotator.symbol, .placeholder⟩).1,
      registered ++ [((symbols.intern ⟨annotator.symbol, .placeholder⟩).2, annotator)]) := by
  simp only [register] at h
  split at h
  · cases h
  · exact (Except.ok.inj h).symm

/-- Each annotator is found under its own symbol when all of them have been registered. By
induction on the annotators, since later ones change no number. -/
theorem foldlM_register_eq_ok {annotators : List (Annotator S)} {symbols symbols' : SymbolTable}
    {registered registered' : List (SymbolId × Annotator S)}
    (h : annotators.foldlM register (symbols, registered) = .ok (symbols', registered'))
    (hOld : ∀ entry ∈ registered, symbols.find? entry.2.symbol = some entry.1) :
    registered'.map Prod.snd = registered.map Prod.snd ++ annotators ∧
      ∀ entry ∈ registered', symbols'.find? entry.2.symbol = some entry.1 := by
  induction annotators generalizing symbols registered with
  | nil =>
      cases h
      exact ⟨(List.append_nil _).symm, hOld⟩
  | cons annotator annotators ih =>
      rw [List.foldlM_cons] at h
      cases hRegister : register (symbols, registered) annotator with
      | error reason =>
          rw [hRegister] at h
          cases h
      | ok state =>
          obtain ⟨symbols₁, registered₁⟩ := state
          rw [hRegister] at h
          have hState := register_eq_ok hRegister
          simp only [Prod.mk.injEq] at hState
          obtain ⟨rfl, rfl⟩ := hState
          have hNew : ∀ entry ∈ registered ++
              [((symbols.intern ⟨annotator.symbol, .placeholder⟩).2, annotator)],
              (symbols.intern ⟨annotator.symbol, .placeholder⟩).1.find? entry.2.symbol =
                some entry.1 := by
            intro entry hEntry
            rcases List.mem_append.1 hEntry with hEntry | hEntry
            · exact SymbolTable.find?_intern_of_find? _ (hOld entry hEntry)
            · obtain rfl := List.mem_singleton.1 hEntry
              exact SymbolTable.find?_intern symbols ⟨annotator.symbol, .placeholder⟩
          obtain ⟨hAnnotators, hFind⟩ := ih h hNew
          exact ⟨by simpa using hAnnotators, hFind⟩

/-- A grammar that has been read has the rules of its text, the given annotators and settings, and
nothing else. -/
theorem builtFrom_of_read {settings : Settings S} {annotators : List (Annotator S)}
    {text : String} {grammar : Grammar S} (h : read settings annotators text = .ok grammar) :
    grammar.BuiltFrom settings annotators text := by
  rw [read] at h
  cases hSet : RuleSet.read text with
  | error reason =>
      rw [hSet] at h
      cases h
  | ok set =>
      rw [hSet] at h
      cases hRegister : annotators.foldlM register (set.symbols, []) with
      | error reason =>
          simp only [bind, Except.bind, hRegister] at h
          cases h
      | ok state =>
          obtain ⟨symbols, registered⟩ := state
          simp only [bind, Except.bind, hRegister, pure, Except.pure, Except.ok.injEq] at h
          obtain ⟨hAnnotators, hFind⟩ := foldlM_register_eq_ok hRegister (by simp)
          subst h
          exact {
            rules_eq := ⟨set, hSet, rfl⟩
            settings_eq := rfl
            annotators_eq := by simpa using hAnnotators
            find?_annotator := fun entry hEntry =>
              SymbolTable.find?_intern_of_find? _ (hFind entry hEntry)
            find?_root := SymbolTable.find?_intern symbols ⟨settings.root, .nonterminal⟩ }

end Grammar

end PlotQuery
