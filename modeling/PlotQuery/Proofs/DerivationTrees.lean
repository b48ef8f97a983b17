import PlotQuery.Proofs.Derives

/-! Trees taken apart: the trees within a tree, its leaves from left to right, and the keys that are
assigned at its nodes. The leaves of a tree that derives a span derive parts of the span, and these
parts stand in the order of the leaves. -/
namespace PlotQuery

/-- An assignment changes nothing or puts a value under its key. A rule without an action keeps
what its children have. -/
theorem applyAction_eq_some_iff {action : Option Action} {target s : Semantics}
    {children : List Semantics} :
    applyAction action target children = some s ↔
      (action = none ∧ s = target) ∨ ∃ assignment value, action = some assignment ∧
        assignment.resolve children = some value ∧ s = target.insert assignment.key value := by
  cases action with
  | none => simp [applyAction, eq_comm]
  | some assignment => simp [applyAction, eq_comm]

/-- An action leaves all keys alone that it does not assign. -/
theorem get?_of_applyAction {action : Option Action} {target s : Semantics}
    {children : List Semantics} {key : String} (h : applyAction action target children = some s)
    (hKey : ∀ assignment ∈ action, assignment.key ≠ key) : s.get? key = target.get? key := by
  rcases applyAction_eq_some_iff.1 h with ⟨-, rfl⟩ | ⟨assignment, value, rfl, -, rfl⟩
  · rfl
  · rw [Semantics.get?_insert, if_neg (hKey assignment rfl).symm]

namespace Derivation

variable {S : Type}

/-- The trees within a tree, from the root down and from left to right. -/
def subtrees : Derivation S → List (Derivation S)
  | leaf symbol semantics score => [leaf symbol semantics score]
  | words rule semantics => [words rule semantics]
  | unary rule child semantics score => unary rule child semantics score :: child.subtrees
  | binary rule first second semantics score =>
    binary rule first second semantics score :: (first.subtrees ++ second.subtrees)

/-- The trees without children, from left to right. -/
def leaves (d : Derivation S) : List (Derivation S) :=
  d.subtrees.filter (·.children.isEmpty)

variable (rule : Rule) (first second child : Derivation S) (semantics : Semantics) (score : S)

@[simp] theorem leaves_leaf (symbol : SymbolId) :
    (leaf symbol semantics score).leaves = [leaf symbol semantics score] := rfl

@[simp] theorem leaves_words :
    (words rule semantics : Derivation S).leaves = [words rule semantics] := rfl

@[simp] theorem leaves_unary : (unary rule child semantics score).leaves = child.leaves := rfl

@[simp] theorem leaves_binary :
    (binary rule first second semantics score).leaves = first.leaves ++ second.leaves := by
  simp [leaves, subtrees, children, List.filter_append]

theorem mem_subtrees_self (d : Derivation S) : d ∈ d.subtrees := by
  cases d <;> simp [subtrees]

theorem subtrees_of_children_eq_nil {d : Derivation S} (h : d.children = []) :
    d.subtrees = [d] := by
  cases d with
  | leaf => rfl
  | words => rfl
  | unary => cases h
  | binary => cases h

/-- The rule at some node of the tree assigns a value to the key. -/
def Assigns (d : Derivation S) (key : String) : Prop :=
  ∃ node ∈ d.subtrees, ∃ assignment ∈ node.rule?.bind Rule.action, assignment.key = key

instance (d : Derivation S) (key : String) : Decidable (d.Assigns key) :=
  inferInstanceAs (Decidable (∃ node ∈ d.subtrees,
    ∃ assignment ∈ node.rule?.bind Rule.action, assignment.key = key))

/-- A key is assigned in a tree by the rule at the root or by one of the rules below. -/
theorem assigns_unary_iff {key : String} :
    (unary rule child semantics score).Assigns key ↔
      (∃ assignment ∈ rule.action, assignment.key = key) ∨ child.Assigns key := by
  simp [Assigns, subtrees, rule?]

theorem assigns_binary_iff {key : String} :
    (binary rule first second semantics score).Assigns key ↔
      (∃ assignment ∈ rule.action, assignment.key = key) ∨
        first.Assigns key ∨ second.Assigns key := by
  simp [Assigns, subtrees, rule?, or_and_right, exists_or]

end Derivation

namespace Grammar

variable {S : Type} [Scalar S] {grammar : Grammar S} {schema : Schema S} {query : Query}
  {start stop : Nat} {d : Derivation S}

/-- Every tree within a tree derives a part of its span. So whatever holds of trees that derive
something holds of all their parts. -/
theorem Derives.of_mem_subtrees (h : grammar.Derives schema query start stop d)
    {node : Derivation S} (hNode : node ∈ d.subtrees) :
    ∃ a b, start ≤ a ∧ b ≤ stop ∧ grammar.Derives schema query a b node := by
  induction h with
  | @finding start stop symbol annotator finding nonempty inside registered found =>
      obtain rfl := List.mem_singleton.1 hNode
      exact ⟨start, stop, le_rfl, le_rfl, .finding nonempty inside registered found⟩
  | @words start stop rule literals semantics nonempty inside listed body spelled acted =>
      obtain rfl := List.mem_singleton.1 hNode
      exact ⟨start, stop, le_rfl, le_rfl, .words nonempty inside listed body spelled acted⟩
  | @unary start a b stop rule child semantics inner leading trailing inside listed body
      leadingLimit limit acted ih =>
      rcases List.mem_cons.1 hNode with rfl | hNode
      · exact ⟨start, stop, le_rfl, le_rfl, .unary inner leading trailing inside listed body
          leadingLimit limit acted⟩
      · obtain ⟨a', b', hStart, hStop, hDerives⟩ := ih hNode
        exact ⟨a', b', leading.trans hStart, hStop.trans trailing, hDerives⟩
  | @binary start a split next b stop rule first second semantics left right leading between
      trailing inside listed body limit acted ihLeft ihRight =>
      have hLeft := left.start_lt_stop
      have hRight := right.start_lt_stop
      rcases List.mem_cons.1 hNode with rfl | hNode
      · exact ⟨start, stop, le_rfl, le_rfl, .binary left right leading between trailing inside
          listed body limit acted⟩
      · rcases List.mem_append.1 hNode with hNode | hNode
        · obtain ⟨a', b', hStart, hStop, hDerives⟩ := ihLeft hNode
          exact ⟨a', b', by omega, by omega, hDerives⟩
        · obtain ⟨a', b', hStart, hStop, hDerives⟩ := ihRight hNode
          exact ⟨a', b', by omega, by omega, hDerives⟩

/-- The leaves derive parts of the span of the tree, one after the other. Between them there may
be tokens that are passed over. -/
theorem Derives.exists_leaf_spans (h : grammar.Derives schema query start stop d) :
    ∃ spans : List (Nat × Nat),
      List.Forall₂ (fun span leaf => grammar.Derives schema query span.1 span.2 leaf)
        spans d.leaves ∧
      spans.Pairwise (fun earlier later => earlier.2 ≤ later.1) ∧
      ∀ span ∈ spans, start ≤ span.1 ∧ span.2 ≤ stop := by
  induction h with
  | @finding start stop symbol annotator finding nonempty inside registered found =>
      refine ⟨[(start, stop)], ?_, by simp, by simp⟩
      exact .cons (.finding nonempty inside registered found) .nil
  | @words start stop rule literals semantics nonempty inside listed body spelled acted =>
      refine ⟨[(start, stop)], ?_, by simp, by simp⟩
      exact .cons (.words nonempty inside listed body spelled acted) .nil
  | unary inner leading trailing inside listed body leadingLimit limit acted ih =>
      obtain ⟨spans, hLeaves, hOrder, hInside⟩ := ih
      refine ⟨spans, hLeaves, hOrder, fun span hSpan => ?_⟩
      have hSpan := hInside span hSpan
      omega
  | binary left right leading between trailing inside listed body limit acted ihLeft ihRight =>
      have hLeft := left.start_lt_stop
      have hRight := right.start_lt_stop
      obtain ⟨before, hBefore, hBeforeOrder, hBeforeInside⟩ := ihLeft
      obtain ⟨after, hAfter, hAfterOrder, hAfterInside⟩ := ihRight
      refine ⟨before ++ after, ?_, ?_, ?_⟩
      · rw [Derivation.leaves_binary]
        exact List.rel_append hBefore hAfter
      · refine List.pairwise_append.2 ⟨hBeforeOrder, hAfterOrder, ?_⟩
        intro earlier hEarlier later hLater
        have hEarlier := hBeforeInside earlier hEarlier
        have hLater := hAfterInside later hLater
        omega
      · intro span hSpan
        rcases List.mem_append.1 hSpan with hSpan | hSpan
        · have hSpan := hBeforeInside span hSpan
          omega
        · have hSpan := hAfterInside span hSpan
          omega

end Grammar

end PlotQuery
