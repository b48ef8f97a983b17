import PlotQuery.Grammar.RuleSet
import PlotQuery.Proofs.OptionalSlots

/-! Reading a grammar in one pass. Each symbol is numbered as soon as it has been read, and what has
been read before is at hand when a production turns out to be malformed. The rules are the same as
those of productions that are read first and numbered afterwards, and so are the errors: what is wrong
with a production is never a matter of what has been read before it. -/
namespace PlotQuery

/-- Work that goes from one state to the next and may fail does what reading everything first and
adding it up afterwards does, if each step does. Reading must not look at the state for this. -/
theorem foldlM_eq_map_foldl {ε σ α β : Type} {step : σ → α → Except ε σ} {read : α → Except ε β}
    {add : σ → β → σ} (hStep : ∀ state x, step state x = (read x).map (add state)) (xs : List α)
    (state : σ) : xs.foldlM step state = (xs.mapM read).map fun ys => ys.foldl add state := by
  induction xs generalizing state with
  | nil => rfl
  | cons x xs ih =>
      rw [List.foldlM_cons, List.mapM_cons, hStep]
      cases read x with
      | error reason => rfl
      | ok y =>
          refine (ih (add state y)).trans ?_
          cases hRest : xs.mapM read with
          | error reason => rfl
          | ok ys => rfl

def failure? {ε α : Type} : Except ε α → Option ε
  | .error reason => some reason
  | .ok _ => none

theorem failure?_eq_some_iff {ε α : Type} {x : Except ε α} {reason : ε} :
    failure? x = some reason ↔ x = .error reason := by
  cases x <;> simp [failure?]

/-- Reading a list fails for the reason of the first member that cannot be read. What comes after
that member is not read. -/
theorem failure?_mapM {ε α β : Type} (f : α → Except ε β) (xs : List α) :
    failure? (xs.mapM f) = xs.findSome? fun x => failure? (f x) := by
  induction xs with
  | nil => rfl
  | cons x xs ih =>
      rw [List.mapM_cons, List.findSome?_cons, ← ih]
      cases f x with
      | error reason => rfl
      | ok y => cases xs.mapM f <;> rfl

namespace RuleSet

open Production

def push (set : RuleSet) (rule : Rule) : RuleSet :=
  { set with productionRules := set.productionRules ++ [rule] }

def addTerms (set : RuleSet) : List Term → RuleSet × List SymbolId
  | [] => (set, [])
  | term :: terms =>
    let (set, id) := set.addTerm term
    let (set, ids) := set.addTerms terms
    (set, id :: ids)

/-- Add the rule for the terms that are present. Their number is looked at when they have been
numbered. -/
def addTermRow (production : String) (lhs : SymbolId) (set : RuleSet) (terms : List Term)
    (action : Option Action) : Except GrammarError RuleSet :=
  if terms.all fun term => (literal? term).isSome then
    match action with
    | some ⟨_, .child index property⟩ =>
      throw (.invalidReference (referenceText index property) production)
    | _ => return set.push ⟨lhs, .words (terms.filterMap literal?), action⟩
  else
    let (set, ids) := set.addTerms terms
    match ids with
    | [child] => return set.push ⟨lhs, .unary child, action⟩
    | [left, right] => return set.push ⟨lhs, .binary left right, action⟩
    | _ => throw (.arityTooLarge ids.length production)

/-- Add the rule for a choice of slots, unless it leaves none. -/
def addChoice (production : String) (lhs : SymbolId) (slots : List Slot) (action : Option Action)
    (set : RuleSet) (mask : List Bool) : Except GrammarError RuleSet :=
  if !(present slots mask).isEmpty then
    addTermRow production lhs set (present slots mask) (action.bind (reindex mask))
  else return set

/-- Read an alternative and add its rules. -/
def addAlternative (production : String) (lhs : SymbolId) (set : RuleSet) (alternative : List Char) :
    Except GrammarError RuleSet := do
  match splitAction? alternative with
  | none => throw (.invalidSemantics production)
  | some (body, action) =>
    let slots ← (Text.words body).mapM (readSlot production)
    if slots.isEmpty then throw (.emptyAlternative production)
    match danglingReference? slots.length action with
    | some reference => throw (.invalidReference reference production)
    | none => (slots.foldl grow [[]]).foldlM (addChoice production lhs slots action) set

/-- Read a production and add its rules to those that are there. -/
def addText (set : RuleSet) (text : String) : Except GrammarError RuleSet :=
  match (splitSides text.toList).map Text.trim with
  | [lhs, rhs] =>
    if isSymbolName lhs && !rhs.isEmpty then
      let (symbols, id) := set.symbols.intern ⟨String.ofList lhs, .nonterminal⟩
      (rhs.splitOn '|').foldlM
        (fun set alternative => addAlternative text id set (Text.trim alternative))
        { set with symbols }
    else throw (.invalidProduction text)
  | _ => throw (.invalidProduction text)

theorem length_addTerms (set : RuleSet) (terms : List Term) :
    (set.addTerms terms).2.length = terms.length := by
  induction terms generalizing set with
  | nil => rfl
  | cons term terms ih => exact congrArg (· + 1) (ih _)

/-- A choice of terms is read first and then added, whatever has been added before. -/
theorem addTermRow_eq (production : String) (lhs : SymbolId) (set : RuleSet) (terms : List Term)
    (action : Option Action) :
    addTermRow production lhs set terms action =
      (ruleOf production terms action).map (addRule lhs set) := by
  unfold addTermRow ruleOf
  split
  · match action with
    | none => rfl
    | some ⟨key, .literal text⟩ => rfl
    | some ⟨key, .child index property⟩ => rfl
  · match terms with
    | [] => rfl
    | [child] => rfl
    | [left, right] => rfl
    | first :: second :: third :: terms =>
      have hLength := length_addTerms set (first :: second :: third :: terms)
      change throw (GrammarError.arityTooLarge
        (set.addTerms (first :: second :: third :: terms)).2.length production) = _
      rw [hLength]
      rfl

/-- The choices of an alternative are read first and then added, one by one. A choice without
terms is passed over in both. -/
theorem addChoice_eq (production : String) (lhs : SymbolId) (slots : List Slot)
    (action : Option Action) (set : RuleSet) (masks : List (List Bool)) :
    masks.foldlM (addChoice production lhs slots action) set =
      ((masks.filter fun mask => !(present slots mask).isEmpty).mapM fun mask =>
        ruleOf production (present slots mask) (action.bind (reindex mask))).map
          fun rules => rules.foldl (addRule lhs) set := by
  have hStep (set : RuleSet) (mask : List Bool) :=
    addTermRow_eq production lhs set (present slots mask) (action.bind (reindex mask))
  rw [← foldlM_eq_map_foldl hStep, List.foldlM_filter]
  rfl

/-- From any state, an alternative is read first and then added. By the same argument as for its
choices. -/
theorem addAlternative_eq (production : String) (lhs : SymbolId) (set : RuleSet)
    (alternative : List Char) :
    addAlternative production lhs set alternative =
      (readAlternative production alternative).map fun rules => rules.foldl (addRule lhs) set := by
  unfold addAlternative readAlternative
  cases splitAction? alternative with
  | none => rfl
  | some parts =>
      obtain ⟨body, action⟩ := parts
      dsimp only
      cases (Text.words body).mapM (readSlot production) with
      | error reason => rfl
      | ok slots =>
          simp only [bind, Except.bind]
          cases slots.isEmpty with
          | true => rfl
          | false =>
              cases danglingReference? slots.length action with
              | some reference => rfl
              | none =>
                  rw [foldl_grow]
                  exact addChoice_eq production lhs slots action set (expansions slots)

/-- From any state, a production is read first and then added. So errors cannot depend on the
state. -/
theorem addText_eq (set : RuleSet) (text : String) :
    addText set text = (Production.read text).map (addProduction set) := by
  unfold addText Production.read readChars
  generalize (splitSides text.toList).map Text.trim = sides
  match sides with
  | [] => rfl
  | [_] => rfl
  | _ :: _ :: _ :: _ => rfl
  | [lhs, rhs] =>
      dsimp only
      split
      -- The left side has been numbered before the first alternative, so that all of them find it.
      · have hStep (before : RuleSet) (alternative : List Char) :=
          addAlternative_eq text (set.symbols.intern ⟨String.ofList lhs, .nonterminal⟩).2 before
            (Text.trim alternative)
        rw [foldlM_eq_map_foldl hStep]
        cases (rhs.splitOn '|').mapM fun alternative =>
            readAlternative text (Text.trim alternative) with
        | error reason => rfl
        | ok rows => exact congrArg Except.ok List.foldl_flatten.symm
      · rfl

/-- A grammar is read in one pass, from the last production to the first. It stops at the first
production that cannot be read in this order. -/
theorem read_eq_foldlM_addText (text : String) :
    read text = (productionTexts text).reverse.foldlM addText empty :=
  (foldlM_eq_map_foldl addText_eq _ empty).symm

/-- What is wrong with a production, if anything is, where nothing else has been read. -/
def fault? (piece : String) : Option GrammarError :=
  failure? (addText empty piece)

/-- What is wrong with a production is the same whatever has been read before it. Only the rules
that are added depend on the state. -/
theorem failure?_addText (set : RuleSet) (piece : String) :
    failure? (addText set piece) = failure? (Production.read piece) := by
  rw [addText_eq]
  cases Production.read piece <;> rfl

/-- The reason for which reading fails is the last one among the productions, since it goes from
the last to the first. -/
theorem failure?_read (text : String) :
    failure? (read text) = ((productionTexts text).filterMap fault?).getLast? := by
  have hRead : failure? (read text) =
      failure? ((productionTexts text).reverse.mapM Production.read) := by
    rw [read]
    cases (productionTexts text).reverse.mapM Production.read <;> rfl
  have hFault : fault? = fun piece => failure? (Production.read piece) :=
    funext (failure?_addText empty)
  rw [hRead, failure?_mapM, List.getLast?_filterMap, hFault]

/-- Reading fails for what is wrong with a production behind which nothing is wrong. -/
theorem failure?_read_eq_some_iff {text : String} {reason : GrammarError} :
    failure? (read text) = some reason ↔ ∃ before piece after,
      productionTexts text = before ++ piece :: after ∧ fault? piece = some reason ∧
        ∀ later ∈ after, fault? later = none := by
  rw [failure?_read, List.getLast?_filterMap, List.findSome?_eq_some_iff]
  constructor
  · rintro ⟨after, piece, before, hSplit, hFault, hAfter⟩
    refine ⟨before.reverse, piece, after.reverse, ?_, hFault, by simpa using hAfter⟩
    rw [List.reverse_eq_iff.1 hSplit]
    simp
  · rintro ⟨before, piece, after, hSplit, hFault, hAfter⟩
    exact ⟨after.reverse, piece, before.reverse, by simp [hSplit], hFault, by simpa using hAfter⟩

/-- Reading a grammar fails just where one of its productions is malformed by itself, and the reason
is that of the last one. What has been read before a production does not matter for what is wrong with
it, and productions with which nothing is wrong do not matter at all: with more of them, fewer of them
or the same in another order, reading fails for the same reason or does not fail. -/
theorem read_fails_at_last_malformed (text : String) :
    read text = (productionTexts text).reverse.foldlM addText empty ∧
    (∀ set piece reason, addText set piece = .error reason ↔ fault? piece = some reason) ∧
    ((∃ reason, read text = .error reason) ↔
      ∃ piece ∈ productionTexts text, (fault? piece).isSome) ∧
    (∀ reason, read text = .error reason ↔ ∃ before piece after,
      productionTexts text = before ++ piece :: after ∧ fault? piece = some reason ∧
        ∀ later ∈ after, fault? later = none) ∧
    ∀ other : String, (productionTexts other).filter (fun piece => (fault? piece).isSome) =
        (productionTexts text).filter (fun piece => (fault? piece).isSome) →
      ∀ reason, read other = .error reason ↔ read text = .error reason := by
  refine ⟨read_eq_foldlM_addText text, fun set piece reason => ?_, ?_, fun reason => ?_, ?_⟩
  · rw [← failure?_eq_some_iff, failure?_addText, fault?, failure?_addText]
  · simp only [← failure?_eq_some_iff, failure?_read]
    rw [← Option.isSome_iff_exists, List.getLast?_isSome, Ne, List.filterMap_eq_nil_iff]
    simp [Option.isSome_iff_ne_none]
  · rw [← failure?_eq_some_iff, failure?_read_eq_some_iff]
  · intro other hMalformed reason
    have hFaults (pieces : List String) : pieces.filterMap fault? =
        (pieces.filter fun piece => (fault? piece).isSome).filterMap fault? := by
      rw [List.filterMap_filter]
      exact List.filterMap_congr fun piece _ => by cases fault? piece <;> rfl
    rw [← failure?_eq_some_iff, ← failure?_eq_some_iff, failure?_read, failure?_read,
      hFaults (productionTexts other), hMalformed, ← hFaults]

/-- Two malformed productions among valid ones. -/
def faultyText : String :=
  "A := B C D; Root := Plot; B := \"\"; C := \"bin\""

/-- The same malformed productions among others. -/
def faultyVariant : String :=
  "C := $number; Root := C?; A := B C D; B := \"\""

/-- The later of the two malformed productions is at fault, in both texts. -/
theorem read_fails_at_last_malformed_faultyText :
    productionTexts faultyText = ["A := B C D", "Root := Plot", "B := \"\"", "C := \"bin\""] ∧
    fault? "A := B C D" = some (.arityTooLarge 3 "A := B C D") ∧
    read faultyText = .error (.invalidLiteral "\"\"" "B := \"\"") ∧
    read faultyVariant = .error (.invalidLiteral "\"\"" "B := \"\"") := by
  have hPieces : productionTexts faultyText =
      ["A := B C D", "Root := Plot", "B := \"\"", "C := \"bin\""] := by decide +kernel
  have hFault : fault? "B := \"\"" = some (.invalidLiteral "\"\"" "B := \"\"") := by
    decide +kernel
  have hLater : ∀ later ∈ ["C := \"bin\""], fault? later = none := by decide +kernel
  obtain ⟨-, -, -, hLast, hOther⟩ := read_fails_at_last_malformed faultyText
  have hRead := (hLast _).2
    ⟨["A := B C D", "Root := Plot"], "B := \"\"", ["C := \"bin\""], hPieces, hFault, hLater⟩
  refine ⟨hPieces, by decide +kernel, hRead, (hOther faultyVariant ?_ _).2 hRead⟩
  decide +kernel

end RuleSet

end PlotQuery
