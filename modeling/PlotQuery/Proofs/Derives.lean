import PlotQuery.Annotator.Column
import PlotQuery.Proofs.GrammarReading
import PlotQuery.Proofs.Pruning
import PlotQuery.Proofs.SpanCell

/-! The grammar with noise as a relation between spans and trees. The relation knows no chart, no
limit on candidates and no order of rules. Every tree in a chart stands in it. -/
namespace PlotQuery.Grammar

variable {S : Type}

/-- The leaves of a span are what the annotators find in it, each under the symbol for which its
annotator has been registered. -/
theorem mem_annotate_iff {grammar : Grammar S} {schema : Schema S} {span : Query}
    {d : Derivation S} :
    d ∈ grammar.annotate schema span ↔ ∃ symbol annotator finding,
      (symbol, annotator) ∈ grammar.annotators ∧ annotator.annotate span schema = some finding ∧
        d = .leaf symbol finding.semantics finding.score := by
  simp only [annotate, List.mem_filterMap, Option.map_eq_some_iff, Prod.exists,
    Derivation.ofFinding]
  grind

variable [Scalar S]

/-- The tree derives the tokens of a query from the position `start` up to the position `stop`. Each
node says which tokens it passes over, and its semantics and score are settled by its children. -/
inductive Derives (grammar : Grammar S) (schema : Schema S) (query : Query) :
    Nat → Nat → Derivation S → Prop where
  /-- A finding of an annotator on the span. -/
  | finding {start stop : Nat} {symbol : SymbolId} {annotator : Annotator S} {finding : Finding S}
      (nonempty : start < stop) (inside : stop ≤ query.size)
      (registered : (symbol, annotator) ∈ grammar.annotators)
      (found : annotator.annotate (query.slice start stop) schema = some finding) :
      Derives grammar schema query start stop
        (.leaf symbol finding.semantics finding.score)
  /-- The words of a rule, with the text of the span as their value. -/
  | words {start stop : Nat} {rule : Rule} {literals : List String} {semantics : Semantics}
      (nonempty : start < stop) (inside : stop ≤ query.size)
      (listed : rule ∈ grammar.rules) (body : rule.body = .words literals)
      (spelled : (query.slice start stop).normals = literals)
      (acted : applyAction rule.action
        (Semantics.empty.insert valueKey (query.slice start stop).rawText) [] = some semantics) :
      Derives grammar schema query start stop (.words rule semantics)
  /-- A rule with one child, which derives the tokens from `a` up to `b`. -/
  | unary {start a b stop : Nat} {rule : Rule} {child : Derivation S} {semantics : Semantics}
      (inner : Derives grammar schema query a b child)
      (leading : start ≤ a) (trailing : b ≤ stop) (inside : stop ≤ query.size)
      (listed : rule ∈ grammar.rules) (body : rule.body = .unary child.lhs)
      (leadingLimit : a - start ≤ min grammar.settings.maxLeadingNoise grammar.settings.maxNoise)
      (limit : (a - start) + (stop - b) ≤ grammar.settings.maxNoise)
      (acted : applyAction rule.action child.semantics [child.semantics] = some semantics) :
      Derives grammar schema query start stop
        (.unary rule child semantics
          ((query.noise [(start, a), (b, stop)]).decay grammar.settings.noisePenalty
            (stop - start) child.score))
  /-- A rule with two children, which derive the tokens from `a` up to `split` and those from `next`
  up to `b`. -/
  | binary {start a split next b stop : Nat} {rule : Rule} {first second : Derivation S}
      {semantics : Semantics}
      (left : Derives grammar schema query a split first)
      (right : Derives grammar schema query next b second)
      (leading : start ≤ a) (between : split ≤ next) (trailing : b ≤ stop)
      (inside : stop ≤ query.size)
      (listed : rule ∈ grammar.rules) (body : rule.body = .binary first.lhs second.lhs)
      (limit : (a - start) + (next - split) + (stop - b) ≤ grammar.settings.maxNoise)
      (acted : applyAction rule.action
        (Semantics.merge grammar.settings.merge first.semantics second.semantics).1
        [first.semantics, second.semantics] = some semantics) :
      Derives grammar schema query start stop
        (.binary rule first second semantics
          ((Semantics.merge grammar.settings.merge first.semantics second.semantics).2 *
            (query.noise [(start, a), (split, next), (b, stop)]).decay
              grammar.settings.noisePenalty (stop - start) (first.score * second.score)))

variable {grammar : Grammar S} {schema : Schema S} {query : Query} {start stop : Nat}
  {d : Derivation S}

/-- Nothing derives an empty span, since every tree has a leaf. -/
theorem Derives.start_lt_stop (h : grammar.Derives schema query start stop d) : start < stop := by
  induction h with
  | finding nonempty => exact nonempty
  | words nonempty => exact nonempty
  | unary _ leading trailing _ _ _ _ _ _ ih => omega
  | binary _ _ leading between trailing _ _ _ _ _ ihLeft ihRight => omega

/-- A tree derives no span that reaches beyond the query. -/
theorem Derives.stop_le_size (h : grammar.Derives schema query start stop d) :
    stop ≤ query.size := by
  cases h <;> assumption

/-- What a rule yields from trees that derive their spans derives its span. The caps on noise are
those of the relation, so nothing is to be checked but the children. -/
theorem derives_of_yields {rule : Rule} (listed : rule ∈ grammar.rules)
    {cell : Nat → Nat → List (Derivation S)} (hSpan : start < stop) (hStop : stop ≤ query.size)
    (hCell : ∀ a b, start ≤ a → a < b → b ≤ stop → ∀ d ∈ cell a b,
      grammar.Derives schema query a b d)
    (h : rule.Yields grammar.settings cell query start stop d) :
    grammar.Derives schema query start stop d := by
  cases h with
  | words body spelled acted => exact .words hSpan hStop listed body spelled acted
  | unary found leading nonempty trailing body leadingLimit limit acted =>
      exact .unary (hCell _ _ leading nonempty trailing _ found) leading trailing hStop listed
        body (Nat.le_min.2 ⟨leadingLimit, by omega⟩) limit acted
  | binary foundFirst foundSecond leading nonemptyFirst between nonemptySecond trailing body limit
      acted =>
      exact .binary (hCell _ _ leading nonemptyFirst (by omega) _ foundFirst)
        (hCell _ _ (by omega) nonemptySecond trailing _ foundSecond) leading between trailing hStop
        listed body limit acted

/-- The trees that are gathered for a span derive it, if those in the cells inside it do so. By
induction on the rules that have had their turn, since a later rule may use what an earlier one
has added. -/
theorem derives_of_mem_gather {cell : Nat → Nat → List (Derivation S)} (hSpan : start < stop)
    (hStop : stop ≤ query.size) {rules : List Rule} (listed : ∀ rule ∈ rules, rule ∈ grammar.rules)
    (hCell : ∀ a b, start ≤ a → a < b → b ≤ stop → b - a < stop - start → ∀ d ∈ cell a b,
      grammar.Derives schema query a b d)
    (h : d ∈ grammar.gather schema query cell start stop rules) :
    grammar.Derives schema query start stop d := by
  induction rules using List.reverseRecOn generalizing d with
  | nil =>
      obtain ⟨symbol, annotator, finding, registered, found, rfl⟩ := mem_annotate_iff.1 h
      exact .finding hSpan hStop registered found
  | append_singleton rules rule ih =>
      have hBefore (d : Derivation S)
          (hMem : d ∈ grammar.gather schema query cell start stop rules) :=
        ih (fun rule hRule => listed rule (List.mem_append_left _ hRule)) hMem
      rw [gather, List.foldl_append, List.foldl_cons, List.foldl_nil, addRule,
        List.mem_append] at h
      rcases h with h | h
      · exact hBefore d h
      · refine derives_of_yields (listed rule (by simp)) hSpan hStop ?_
          ((Rule.mem_derive_iff hStop).1 h)
        intro a b ha hab hb d hd
        by_cases hHere : a = start ∧ b = stop
        · obtain ⟨rfl, rfl⟩ := hHere
          rw [withCell_self] at hd
          exact hBefore d hd
        · rw [withCell_of_ne _ _ hHere] at hd
          exact hCell a b ha hab hb (by omega) d hd

/-- Pruning leaves trees that derive their span. By strong induction on the size of the span. -/
theorem derives_of_mem_spanCell (hStop : stop ≤ query.size)
    (h : d ∈ grammar.spanCell schema query start stop) :
    grammar.Derives schema query start stop d := by
  induction hSize : stop - start using Nat.strongRecOn generalizing start stop d with
  | _ size ih =>
      by_cases hSpan : start < stop
      · rw [spanCell_eq_prune_gather _ _ _ hSpan] at h
        refine derives_of_mem_gather hSpan hStop (fun _ hRule => hRule) ?_
          (Candidates.mem_of_mem_prune h)
        intro a b _ _ hb hSmaller d hd
        exact ih (b - a) (by omega) (hb.trans hStop) hd rfl
      · rw [spanCell_of_not_lt _ _ _ hSpan] at h
        cases h

/-- The chart of a grammar that has been read from a text holds no tree but those that derive
their span by the rules of the text and the given annotators. Nothing is asked of the grammar but
that its text can be read. -/
theorem derives_of_mem_chart {settings : Settings S} {annotators : List (Annotator S)}
    {text : String} (hRead : read settings annotators text = .ok grammar)
    (hStart : start ≤ query.size) (hStop : stop ≤ query.size)
    (h : d ∈ (grammar.chart schema query).cell start stop) :
    grammar.BuiltFrom settings annotators text ∧ grammar.Derives schema query start stop d := by
  rw [cell_chart _ _ _ hStart hStop] at h
  exact ⟨builtFrom_of_read hRead, derives_of_mem_spanCell hStop h⟩

/-- A grammar for bar plots of one column. -/
def barText : String :=
  "Root := Plot Column ; Plot := \"bar\" \x7btype : bar\x7d ; Column := $column"

/-- The grammar of the text, with its symbols numbered. -/
def barGrammar : Grammar ℚ where
  symbols := ⟨[⟨"Column", .nonterminal⟩, ⟨"$column", .placeholder⟩, ⟨"Plot", .nonterminal⟩,
    ⟨"Root", .nonterminal⟩], by decide⟩
  rules := [⟨0, .unary 1, none⟩, ⟨2, .words ["bar"], some ⟨"type", .literal "bar"⟩⟩,
    ⟨3, .binary 2 0, none⟩]
  annotators := [(1, Annotator.column Annotator.standardThreshold)]
  root := 3
  settings := Settings.standard

def barSchema : Schema ℚ :=
  Schema.ofColumns "df" ["Age", "Income"]

/-- A query with a word that the grammar does not know, and a column in lower case. -/
def barQuery : Query :=
  ⟨[⟨"Fancy", "fanci"⟩, ⟨"Bar", "bar"⟩, ⟨"age", "age"⟩]⟩

/-- One token of six characters is passed over. The score has lost a third for the token, and a
twentieth of the rest for each character. -/
theorem derives_of_mem_chart_barQuery :
    ∃ (grammar : Grammar ℚ) (d : Derivation ℚ),
      read Settings.standard [Annotator.column Annotator.standardThreshold] barText =
        .ok grammar ∧
      grammar.rules = barGrammar.rules ∧ grammar.root = barGrammar.root ∧
      d ∈ (grammar.chart barSchema barQuery).cell 0 3 ∧
      d.lhs = grammar.root ∧ d.score = 2 / 3 * (19 / 20) ^ 6 ∧
      grammar.BuiltFrom Settings.standard [Annotator.column Annotator.standardThreshold] barText ∧
      grammar.Derives barSchema barQuery 0 3 d := by
  have hRun : (match (read Settings.standard [Annotator.column Annotator.standardThreshold]
        barText : Except GrammarError (Grammar ℚ)) with
      | .ok grammar => grammar.rules == barGrammar.rules && grammar.root == barGrammar.root &&
          (grammar.cellBy barSchema barQuery
            (Candidates.pruneByInsertion grammar.settings.cellLimit) 0 3).any fun d =>
              d.lhs == grammar.root && d.score == 2 / 3 * (19 / 20) ^ 6
      | .error _ => false) = true := by decide +kernel
  split at hRun
  · next grammar hRead =>
    rw [← cell_chart_eq_cellBy _ _ _ (by decide) (by decide)] at hRun
    simp only [Bool.and_eq_true, beq_iff_eq, List.any_eq_true] at hRun
    obtain ⟨⟨hRules, hRoot⟩, d, hMem, hLhs, hScore⟩ := hRun
    exact ⟨grammar, d, hRead, hRules, hRoot, hMem, hLhs, hScore,
      derives_of_mem_chart hRead (by decide) (by decide) hMem⟩
  · cases hRun

end PlotQuery.Grammar
