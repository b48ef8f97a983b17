import PlotQuery.Proofs.Findings
import PlotQuery.Proofs.NumberTexts
import PlotQuery.Proofs.RuleForms
import PlotQuery.Proofs.WrittenTrees

/-! The keys of trees. A tree has the keys of its leaves and those that its rules assign, and no node
loses one. So every tree has a value, and a reference to the value of a child never fails: wherever a
rule refers to values only, it derives as much as it would without its assignment, at any time while
the chart is filled. -/
namespace PlotQuery

namespace Annotator.Finds

variable {S : Type} [Scalar S] [ScalarText S] {span : Query} {schema : Schema S} {symbol : String}
  {finding : Finding S}

/-- Every finding has a value. -/
theorem contains_value (h : Finds span schema symbol finding) :
    finding.semantics.contains valueKey = true := by
  cases h <;> simp [Semantics.contains, Finding.rated, Finding.put, Finding.ofValue, coded, valueKey]

end Annotator.Finds

namespace Rule

def unassigned (rule : Rule) : Rule :=
  { rule with action := none }

/-- The rule refers to no key of a child but its value. -/
def RefersToValues (rule : Rule) : Prop :=
  ∀ key index property, rule.action = some ⟨key, .child index property⟩ → property = valueKey

/-- The assignment of a rule with references to values goes through if every child has a value. No
reference is to a child that the rule does not have. -/
theorem FindsChildren.isSome_applyAction {rule : Rule} (hFinds : rule.FindsChildren)
    (hRefers : rule.RefersToValues) {children : List Semantics}
    (hLength : children.length = rule.body.children.length)
    (hValues : ∀ child ∈ children, child.contains valueKey = true) (target : Semantics) :
    (applyAction rule.action target children).isSome = true := by
  cases hAction : rule.action with
  | none => rfl
  | some action =>
      rw [applyAction, Option.isSome_map, Option.isSome_iff_ne_none]
      intro hFails
      obtain ⟨index, property, child, hValue, hChild, hNone⟩ :=
        hFinds action hAction children hLength hFails
      obtain ⟨key, _⟩ := action
      obtain rfl := hValue
      rw [hRefers key index property hAction] at hNone
      have hContains := hValues child (List.mem_of_getElem? hChild)
      rw [Semantics.contains, hNone] at hContains
      cases hContains

section Derive

variable {S : Type} [Scalar S] {settings : Settings S} {rule : Rule}
  {cell : Nat → Nat → List (Derivation S)} {query : Query} {start stop : Nat}

/-- What a rule is applied to and the score that comes of it. -/
def application (d : Derivation S) : List (Derivation S) × S :=
  (d.children, d.score)

/-- A rule whose assignment always goes through derives what it derives without it, but for the
semantics at the root. The children, the gaps and the scores are the same. -/
theorem map_application_derive (hSpan : start < stop)
    (hActs : ∀ children : List Semantics, children.length = rule.body.children.length →
      (∀ child ∈ children, child.contains valueKey = true) →
        ∀ target, (applyAction rule.action target children).isSome = true)
    (hCell : ∀ a b, start ≤ a → a < b → b ≤ stop → ∀ d ∈ cell a b,
      d.semantics.contains valueKey = true) :
    (rule.derive settings cell query start stop).map application =
      (rule.unassigned.derive settings cell query start stop).map application := by
  rw [derive, derive, unassigned]
  cases hBody : rule.body with
  | words literals =>
      have hSome := hActs [] (by rw [hBody]; rfl) (by simp)
        (Semantics.empty.insert valueKey (query.slice start stop).rawText)
      obtain ⟨semantics, hSemantics⟩ := Option.isSome_iff_exists.1 hSome
      simp only [deriveWords]
      split
      · rw [hSemantics]
        rfl
      · rfl
  | unary symbol =>
      simp only [deriveUnary_eq_flatMap, List.map_flatMap, List.map_filterMap]
      apply List.flatMap_congr
      intro gaps hGaps
      obtain ⟨-, -, hNarrow⟩ := mem_outerGaps.1 hGaps
      apply List.filterMap_congr
      intro child hChild
      have hValue := hCell _ _ (by omega) (by omega) (by omega) child (List.mem_filter.1 hChild).1
      have hSome := hActs [child.semantics] (by rw [hBody]; rfl) (by simpa using hValue)
        child.semantics
      obtain ⟨semantics, hSemantics⟩ := Option.isSome_iff_exists.1 hSome
      simp only [deriveFromChild?, hSemantics]
      rfl
  | binary left right =>
      simp only [deriveBinary, deriveAtSplit_eq_flatMap, List.map_flatMap, List.map_filterMap]
      apply List.flatMap_congr
      rintro ⟨before, between, after⟩ hGaps
      obtain ⟨-, hNarrow⟩ := mem_innerGaps.1 hGaps
      apply List.flatMap_congr
      intro split hSplit
      obtain ⟨hBefore, hAfter⟩ := mem_splits.1 hSplit
      apply List.flatMap_congr
      intro first hFirst
      apply List.filterMap_congr
      intro second hSecond
      have hValue := hCell (start + before) split (by omega) (by omega) (by omega) first
        (List.mem_filter.1 hFirst).1
      have hValue' := hCell (split + between) (stop - after) (by omega) (by omega) (by omega) second
        (List.mem_filter.1 hSecond).1
      have hSome := hActs [first.semantics, second.semantics] (by rw [hBody]; rfl)
        (by simpa using ⟨hValue, hValue'⟩)
        (Semantics.merge settings.merge first.semantics second.semantics).1
      obtain ⟨semantics, hSemantics⟩ := Option.isSome_iff_exists.1 hSome
      simp only [deriveFromChildren?, hSemantics]
      rfl

end Derive

end Rule

namespace Grammar

variable {S : Type} [Scalar S] (grammar : Grammar S) (schema : Schema S) (query : Query)

/-- The chart at the turn of a rule. The spans in `done` have been visited, and at a further span the
annotators and the rules in `before` have had their turn. -/
def chartAt (done : List (Nat × Nat)) (span : Nat × Nat) (before : List Rule) : Chart S :=
  before.foldl (fun chart rule => chart.extend span.1 span.2
      (rule.derive grammar.settings chart.cell query span.1 span.2))
    ((done.foldl (grammar.fillCell schema query) (Chart.empty query.size)).extend span.1 span.2
      (grammar.annotate schema (query.slice span.1 span.2)))

variable {grammar schema query} {done rest : List (Nat × Nat)} {start stop : Nat}
  {before : List Rule} {d : Derivation S}

/-- At the turn of a rule the chart shows the finished cells, and for the span what has been
gathered so far. -/
theorem shows_chartAt (h : spans query.size = done ++ (start, stop) :: rest) (before : List Rule) :
    (grammar.chartAt schema query done (start, stop) before).Shows query.size
      (withCell (grammar.visitedCell schema query done) start stop
        (grammar.gather schema query (grammar.visitedCell schema query done) start stop before)) := by
  obtain ⟨hSpan, hStop⟩ : start < stop ∧ stop ≤ query.size :=
    mem_spans.1 (h ▸ List.mem_append_right done List.mem_cons_self)
  have hFound := (grammar.shows_foldl_fillCell schema query h).modify start hStop
    (· ++ grammar.annotate schema (query.slice start stop))
  have hEmpty : grammar.visitedCell schema query done start stop = [] :=
    if_neg (visited_before h).1
  rw [hEmpty, List.nil_append] at hFound
  exact grammar.shows_foldl_rules query hSpan hStop hFound before

/-- Nothing but derivations of its span ever enters a cell. This is said of every stage of the
chart, between any two rules. -/
theorem derives_of_mem_chartAt (h : spans query.size = done ++ (start, stop) :: rest)
    (hBefore : ∀ rule ∈ before, rule ∈ grammar.rules) {a b : Nat} (ha : a ≤ query.size)
    (hb : b ≤ query.size)
    (hMem : d ∈ (grammar.chartAt schema query done (start, stop) before).cell a b) :
    grammar.Derives schema query a b d := by
  obtain ⟨hSpan, hStop⟩ : start < stop ∧ stop ≤ query.size :=
    mem_spans.1 (h ▸ List.mem_append_right done List.mem_cons_self)
  have hVisited (a b : Nat) (hb : b ≤ query.size) (d : Derivation S)
      (hMem : d ∈ grammar.visitedCell schema query done a b) :
      grammar.Derives schema query a b d := by
    rw [visitedCell] at hMem
    split at hMem
    · exact derives_of_mem_spanCell hb hMem
    · cases hMem
  rw [(shows_chartAt h before).cell_eq a b ha hb, withCell] at hMem
  split at hMem
  · next hHere =>
    obtain ⟨rfl, rfl⟩ := hHere
    exact derives_of_mem_gather hSpan hStop hBefore
      (fun a' b' _ _ hb' _ d hd => hVisited a' b' (hb'.trans hStop) d hd) hMem
  · exact hVisited a b hb d hMem

/-- The keys of a tree are those of its leaves and those that are assigned at its nodes. By
induction on the tree, as merging takes no key away. -/
theorem Derives.contains_iff (h : grammar.Derives schema query start stop d) (key : String) :
    d.semantics.contains key = true ↔
      (∃ leaf ∈ d.leaves, leaf.semantics.contains key = true) ∨ d.Assigns key := by
  induction h with
  | finding => simp [Derivation.Assigns, Derivation.subtrees, Derivation.rule?]
  | @words _ _ rule _ semantics nonempty inside listed body spelled acted =>
      have hAssigns : (Derivation.words rule semantics : Derivation S).Assigns key →
          semantics.contains key = true := by
        rintro ⟨node, hNode, assigned⟩
        rw [Derivation.subtrees_of_children_eq_nil rfl, List.mem_singleton] at hNode
        obtain rfl := hNode
        exact (contains_applyAction_iff acted).2 (.inr assigned)
      simpa [Derivation.semantics] using hAssigns
  | unary inner leading trailing inside listed body leadingLimit limit acted ih =>
      rw [Derivation.leaves_unary, Derivation.assigns_unary_iff, Derivation.semantics,
        contains_applyAction_iff acted, ih]
      exact or_assoc.trans (or_congr_right or_comm)
  | binary left right leading between trailing inside listed body limit acted ihLeft ihRight =>
      rw [Derivation.semantics, contains_applyAction_iff acted, Semantics.contains_merge,
        Bool.or_eq_true, ihLeft, ihRight]
      simp only [Derivation.leaves_binary, Derivation.assigns_binary_iff, List.mem_append,
        or_and_right, exists_or]
      grind

variable [ScalarText S] {settings : Settings S} {annotators : List (Annotator S)} {text : String}

/-- Every tree has a value. It comes from its leaves, and no assignment takes it away. -/
theorem Derives.contains_value (hBuilt : grammar.BuiltFrom settings annotators text)
    (hAnnotators : ∀ annotator ∈ annotators, annotator.Supplied)
    (h : grammar.Derives schema query start stop d) :
    d.semantics.contains valueKey = true := by
  induction h with
  | @finding _ _ symbol annotator finding nonempty inside registered found =>
      have hMem : annotator ∈ annotators :=
        hBuilt.annotators_eq ▸ List.mem_map_of_mem (f := Prod.snd) registered
      exact (Annotator.finds_of_annotate (hAnnotators annotator hMem) found).contains_value
  | words nonempty inside listed body spelled acted =>
      exact (contains_applyAction_iff acted).2 (.inl (by simp [Semantics.contains]))
  | unary inner leading trailing inside listed body leadingLimit limit acted ih =>
      exact (contains_applyAction_iff acted).2 (.inl ih)
  | binary left right leading between trailing inside listed body limit acted ihLeft ihRight =>
      refine (contains_applyAction_iff acted).2 (.inl ?_)
      rw [Semantics.contains_merge, ihLeft, Bool.true_or]

/-- In the charts of a grammar with annotators of the library every tree has exactly the keys of
its leaves and those that are assigned at its nodes, among them a value. At its turn a rule that
refers to values only derives a span from the same children, with the same scores, as without its
assignment. So with such an action no application of a rule is lost. -/
theorem keys_of_mem_chart (hRead : read settings annotators text = .ok grammar)
    (hAnnotators : ∀ annotator ∈ annotators, annotator.Supplied) :
    (∀ schema query start stop, start ≤ query.size → stop ≤ query.size →
      ∀ d ∈ (grammar.chart schema query).cell start stop,
        (∀ key, d.semantics.contains key = true ↔
          (∃ leaf ∈ d.leaves, leaf.semantics.contains key = true) ∨ d.Assigns key) ∧
        d.semantics.contains valueKey = true) ∧
    ∀ schema query done start stop rest, spans query.size = done ++ (start, stop) :: rest →
      ∀ before rule after, grammar.rules = before ++ rule :: after → rule.RefersToValues →
        let cell := (grammar.chartAt schema query done (start, stop) before).cell
        (rule.derive grammar.settings cell query start stop).map Rule.application =
          (rule.unassigned.derive grammar.settings cell query start stop).map Rule.application := by
  have hBuilt := builtFrom_of_read hRead
  constructor
  · intro schema query start stop hStart hStop d hMem
    rw [cell_chart _ _ _ hStart hStop] at hMem
    have hDerives := derives_of_mem_spanCell hStop hMem
    exact ⟨hDerives.contains_iff, hDerives.contains_value hBuilt hAnnotators⟩
  · intro schema query done start stop rest hSpans before rule after hRules hRefers
    obtain ⟨hSpan, hStop⟩ : start < stop ∧ stop ≤ query.size :=
      mem_spans.1 (hSpans ▸ List.mem_append_right done List.mem_cons_self)
    obtain ⟨set, hSet, hSame⟩ := hBuilt.rules_eq
    obtain ⟨productions, hNumbers, hProper⟩ := RuleSet.numbers_of_read hSet
    have hListed : rule ∈ set.rules := by simp [← hSame, hRules]
    have hFinds := (hNumbers.wellFormed hProper).findsChildren hListed
    have hBefore : ∀ rule ∈ before, rule ∈ grammar.rules := by
      intro earlier hEarlier
      rw [hRules]
      exact List.mem_append_left _ hEarlier
    apply Rule.map_application_derive hSpan
    · intro children hLength hValues target
      exact hFinds.isSome_applyAction hRefers hLength hValues target
    · intro a b ha hab hb d hMem
      have hDerives := derives_of_mem_chartAt hSpans hBefore (by omega) (by omega) hMem
      exact hDerives.contains_value hBuilt hAnnotators

/-- A grammar for bar plots that names the column by the value of its tree. -/
def namedBarText : String :=
  "Root := Plot Column \x7bcolumn : $1.Value\x7d ; Plot := \"bar\" \x7btype : bar\x7d ; Column := $column"

/-- The turn of the last rule on the whole query, which assigns a key from one of its children. -/
theorem keys_of_mem_chart_barQuery :
    ∃ (grammar : Grammar ℚ) (d : Derivation ℚ) (before : List Rule) (rule : Rule),
      read Settings.standard [Annotator.column Annotator.standardThreshold] namedBarText =
        .ok grammar ∧
      d ∈ (grammar.chart barSchema barQuery).cell 0 3 ∧
      d.semantics.keys = ["ColName", "Value", "column", "type"] ∧
      (∀ key, d.semantics.contains key = true ↔
        (∃ leaf ∈ d.leaves, leaf.semantics.contains key = true) ∨ d.Assigns key) ∧
      d.semantics.contains valueKey = true ∧
      grammar.rules = before ++ [rule] ∧ rule.action = some ⟨"column", .child 1 "Value"⟩ ∧
      let cell := (grammar.chartAt barSchema barQuery [(0, 1), (1, 2), (2, 3), (0, 2), (1, 3)] (0, 3)
        before).cell
      (rule.derive grammar.settings cell barQuery 0 3).map Rule.application =
        (rule.unassigned.derive grammar.settings cell barQuery 0 3).map Rule.application := by
  have hRun : (match (read Settings.standard [Annotator.column Annotator.standardThreshold]
        namedBarText : Except GrammarError (Grammar ℚ)) with
      | .ok grammar =>
          grammar.rules == [⟨0, .unary 1, none⟩, ⟨2, .words ["bar"], some ⟨"type", .literal "bar"⟩⟩,
            ⟨3, .binary 2 0, some ⟨"column", .child 1 "Value"⟩⟩] &&
          (grammar.cellBy barSchema barQuery
            (Candidates.pruneByInsertion grammar.settings.cellLimit) 0 3).any fun d =>
              d.semantics.keys == ["ColName", "Value", "column", "type"]
      | .error _ => false) = true := by decide +kernel
  split at hRun
  · next grammar hRead =>
    rw [← cell_chart_eq_cellBy _ _ _ (by decide) (by decide)] at hRun
    simp only [Bool.and_eq_true, beq_iff_eq, List.any_eq_true] at hRun
    obtain ⟨hRules, d, hMem, hKeys⟩ := hRun
    obtain ⟨hTree, hTurn⟩ := keys_of_mem_chart hRead (by
      intro annotator hAnnotator
      rw [List.mem_singleton.1 hAnnotator]
      exact .column _)
    obtain ⟨hContains, hValue⟩ := hTree barSchema barQuery 0 3 (by decide) (by decide) d hMem
    refine ⟨grammar, d, [⟨0, .unary 1, none⟩, ⟨2, .words ["bar"], some ⟨"type", .literal "bar"⟩⟩],
      ⟨3, .binary 2 0, some ⟨"column", .child 1 "Value"⟩⟩, hRead, hMem, hKeys, hContains, hValue,
      hRules, rfl, ?_⟩
    apply hTurn barSchema barQuery _ 0 3 [] (by decide) _ _ [] hRules
    intro key index property hAction
    cases hAction
    rfl
  · cases hRun

end Grammar

end PlotQuery
