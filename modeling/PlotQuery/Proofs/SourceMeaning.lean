import PlotQuery.Proofs.SourceReading

/-! What a grammar means. Its productions are taken from the last to the first, and their rules are
kept as they are written, behind a rule for each literal beside other terms. A text of the grammar
says nothing else, however it is laid out. -/
namespace PlotQuery

/-- The rule by which a literal is derived, before it is numbered. -/
def Symbol.literalRule (literal : Symbol) : Symbol × TermRule :=
  (literal, ⟨.words [literal.name], none⟩)

/-- The rules of a set before they were numbered: those of the literals among the symbols
mentioned, each once, and those written. The former come first, though both are numbered in one
go. -/
theorem RuleSet.Numbers.map_rule? {set : RuleSet} {mentioned : List Symbol}
    {written : List (Symbol × TermRule)} (h : set.Numbers mentioned written) :
    set.rules.map set.symbols.rule? =
      ((mentioned.eraseDups.filter (·.kind = .constant)).map Symbol.literalRule ++
        written).map some := by
  have hLiteral : ∀ entry ∈ set.symbols.ofKind .constant,
      set.symbols.rule? (RuleSet.literalRule entry.2 entry.1.name) =
        some entry.1.literalRule := by
    intro entry hEntry
    exact SymbolTable.rule?_eq_some_iff.2 ⟨(SymbolTable.mem_ofKind.1 hEntry).1, rfl, rfl⟩
  have hLiterals : set.literalRules.map set.symbols.rule? =
      ((mentioned.eraseDups.filter (·.kind = .constant)).map Symbol.literalRule).map some := by
    rw [h.literalRules_eq, ← h.symbols_eq, ← SymbolTable.map_fst_ofKind]
    simp only [List.map_map]
    exact List.map_congr_left hLiteral
  rw [RuleSet.rules, List.map_append, hLiterals, h.rules_eq, List.map_append]

namespace Source

/-- The literals that stand beside other terms in a choice of slots, each once, in the order of their
first use. -/
def literals (productions : List PlotQuery.Production) : List Symbol :=
  (productions.flatMap PlotQuery.Production.symbols).eraseDups.filter (·.kind = .constant)

/-- The rules that a grammar stands for: first those of its literals, then those of its productions,
which are taken from the last to the first. -/
def meaning (productions : List Production) : List (Symbol × TermRule) :=
  let taken := productions.reverse.map Production.meant
  (literals taken).map Symbol.literalRule ++ taken.flatMap PlotQuery.Production.written

/-- A text of a grammar can be read exactly if every reference is to a slot that there is and
every choice of slots makes a rule. Through the table of symbols its rules are the ones that are
meant. How the lexemes are laid out does not matter, nor do comments. -/
theorem read_iff_and_rules_eq_meaning {productions : List Production} {ended : Bool} {text : String}
    (h : Laid (lexemes productions ended) text.toList) :
    ((∃ set, RuleSet.read text = .ok set) ↔ ∀ production ∈ productions,
        ∀ alternative ∈ production.alternatives, alternative.meant.Fits) ∧
      ∀ set, RuleSet.read text = .ok set →
        set.rules.map set.symbols.rule? = (meaning productions).map some := by
  have hRead := forall₂_read_iff h
  constructor
  · simp only [RuleSet.read_eq_ok_iff, hRead]
    constructor
    · rintro ⟨_, _, ⟨hFits, -⟩, -⟩
      exact hFits
    · intro hFits
      exact ⟨_, _, ⟨hFits, rfl⟩, rfl⟩
  · intro set hSet
    obtain ⟨results, hResults, rfl⟩ := RuleSet.read_eq_ok_iff.1 hSet
    obtain ⟨-, rfl⟩ := (hRead results).1 hResults
    apply (RuleSet.numbers_ofProductions fun result hResult => ?_).map_rule?
    obtain ⟨piece, -, hPiece⟩ := exists_mem_of_forall₂ hResults hResult
    obtain ⟨hLhs, hRules⟩ := PlotQuery.Production.proper_of_read hPiece
    exact PlotQuery.Production.wellSpelled_symbols hLhs hRules

/-- A grammar with an optional slot, references, and a literal beside another term. -/
def orderSource : List Production :=
  let root : Name := { chars := "Root".toList }
  let order : Name := { chars := "Order".toList }
  let rest : Name := { chars := "Rest".toList }
  let sort : Name := { chars := "sort".toList }
  let byWord : Name := { chars := "by".toList }
  let column : Name := { chars := "column".toList }
  let key : Name := { chars := "key".toList }
  let value : Name := { chars := "Value".toList }
  [{ name := root
     alternatives := [
      { slots := [⟨.nonterminal order, false⟩, ⟨.nonterminal rest, true⟩]
        assignment := some ⟨key, .reference 0 value⟩ }] },
    { name := rest
      alternatives := [
      { slots := [⟨.literal byWord, false⟩, ⟨.placeholder column, false⟩]
        assignment := some ⟨column, .reference 1 value⟩ }] },
    { name := order
      alternatives := [
      { slots := [⟨.literal sort, false⟩], assignment := none },
      { slots := [⟨.literal sort, false⟩, ⟨.literal byWord, false⟩]
        assignment := some ⟨key, .phrase { chars := "going up".toList }⟩ }] }]

/-- A text of this grammar, with a comment. -/
def orderText : String :=
  "# orders\nRoot := Order Rest? \x7b key : $0.Value \x7d ; " ++
    "Rest := \"by\" $column \x7b column : $1.Value \x7d ; " ++
    "Order := \"sort\" | \"sort\" \"by\" \x7b key : going up \x7d ;"

/-- A comment in front, and single spaces between the lexemes. -/
theorem laid_orderText : Laid (lexemes orderSource true) orderText.toList := by
  have hText : orderText.toList = '#' :: (" orders".toList ++
      '\n' :: [' '].intercalate (lexemes orderSource true)) := by
    decide +kernel
  rw [hText]
  exact .comment (by decide) (by simp) (.blank (by decide) (laid_intercalate _))

/-- A literal that stands beside another term has a rule of its own, in front of all others. The
productions come from the last one to the first. -/
theorem read_iff_and_rules_eq_meaning_orderText :
    Laid (lexemes orderSource true) orderText.toList ∧
      ∃ set, RuleSet.read orderText = .ok set ∧ set.rules.map set.symbols.rule? =
        [(⟨"by", .constant⟩, ⟨.words ["by"], none⟩),
          (⟨"Order", .nonterminal⟩, ⟨.words ["sort"], none⟩),
          (⟨"Order", .nonterminal⟩, ⟨.words ["sort", "by"], some ⟨"key", .literal "going up"⟩⟩),
          (⟨"Rest", .nonterminal⟩, ⟨.binary (.literal "by") (.placeholder "$column"),
            some ⟨"column", .child 1 "Value"⟩⟩),
          (⟨"Root", .nonterminal⟩, ⟨.unary (.nonterminal "Order"),
            some ⟨"key", .child 0 "Value"⟩⟩),
          (⟨"Root", .nonterminal⟩, ⟨.binary (.nonterminal "Order") (.nonterminal "Rest"),
            some ⟨"key", .child 0 "Value"⟩⟩)].map some := by
  obtain ⟨hRead, hRules⟩ := read_iff_and_rules_eq_meaning laid_orderText
  obtain ⟨set, hSet⟩ := hRead.2 (by decide +kernel)
  refine ⟨laid_orderText, set, hSet, (hRules set hSet).trans (congrArg (List.map some) ?_)⟩
  decide +kernel

/-- A grammar with a reference to a literal that stands alone. -/
def logSource : List Production :=
  let value : Name := { chars := "Value".toList }
  [{ name := { chars := "A".toList }
     alternatives := [
      { slots := [⟨.literal { chars := "log".toList }, false⟩]
        assignment := some ⟨{ chars := "k".toList }, .reference 0 value⟩ }] }]

def logText : String :=
  "A := \"log\" \x7b k : $0.Value \x7d"

theorem laid_logText : Laid (lexemes logSource false) logText.toList := by
  have hText : logText.toList = [' '].intercalate (lexemes logSource false) := by decide +kernel
  rw [hText]
  exact laid_intercalate _

/-- At most two terms are not enough for a rule: literals alone have no child to refer to, however few
of them there are. -/
theorem read_logText_eq_error :
    Laid (lexemes logSource false) logText.toList ∧
      (∀ production ∈ logSource, ∀ alternative ∈ production.alternatives,
        (∀ key index property, alternative.meant.action = some ⟨key, .child index property⟩ →
          index < alternative.meant.slots.length) ∧
        ∀ selection ∈ alternative.meant.choices,
          ((∀ entry ∈ selection, entry.1.symbol.kind = .constant) ∧
            ∀ action ∈ alternative.meant.actionOf selection, action.refers = false) ∨
          selection.length ≤ 2) ∧
      RuleSet.read logText = .error (.invalidReference "$0.Value" logText) := by
  have hRun : (match RuleSet.read logText with
      | .ok _ => none
      | .error reason => some reason) = some (.invalidReference "$0.Value" logText) := by
    decide +kernel
  have hRead : RuleSet.read logText = .error (.invalidReference "$0.Value" logText) := by
    split at hRun
    · cases hRun
    · next reason hReason => rw [hReason, Option.some.inj hRun]
  refine ⟨laid_logText, ?_, hRead⟩
  simp only [← PlotQuery.Production.danglingReference?_eq_none_iff]
  decide +kernel

end Source

end PlotQuery
