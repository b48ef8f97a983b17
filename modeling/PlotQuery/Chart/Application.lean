import PlotQuery.Chart
import PlotQuery.Noise
import PlotQuery.Settings

/-! The application of a rule to a span. The rule sees the cells of the chart through a function, and
reads only cells of spans within its own. -/
namespace PlotQuery.Rule

variable {S : Type} [Scalar S]

/-- The derivation of a span by the words of a rule, if these are its normal forms. -/
def deriveWords (rule : Rule) (literals : List String) (span : Query) : List (Derivation S) :=
  if span.normals = literals then
    match applyAction rule.action (Semantics.empty.insert valueKey span.rawText) [] with
    | some semantics => [.words rule semantics]
    | none => []
  else []

/-- The noise on a span when tokens are passed over at its ends. -/
def outerNoise (span : Query) (left right : Nat) : Noise where
  tokens := left + right
  chars := (span.slice 0 left).charCount + (span.slice (span.size - right) span.size).charCount

def deriveFromChild? (settings : Settings S) (rule : Rule) (size : Nat) (noise : Noise)
    (child : Derivation S) : Option (Derivation S) :=
  (applyAction rule.action child.semantics [child.semantics]).map fun semantics =>
    .unary rule child semantics (noise.decay settings.noisePenalty size child.score)

def deriveUnary (settings : Settings S) (rule : Rule) (symbol : SymbolId)
    (cell : Nat → Nat → List (Derivation S)) (query : Query) (start stop : Nat) :
    List (Derivation S) :=
  (outerGaps settings.maxLeadingNoise settings.maxNoise (stop - start)).flatMap fun gaps =>
    match (cell (start + gaps.1) (stop - gaps.2)).filter (·.lhs == symbol) with
    | [] => []
    | children =>
      let noise := outerNoise (query.slice start stop) gaps.1 gaps.2
      children.filterMap (deriveFromChild? settings rule (stop - start) noise)

def deriveFromChildren? (settings : Settings S) (rule : Rule) (size : Nat) (noise : Noise)
    (first second : Derivation S) : Option (Derivation S) :=
  let merged := Semantics.merge settings.merge first.semantics second.semantics
  (applyAction rule.action merged.1 [first.semantics, second.semantics]).map fun semantics =>
    .binary rule first second semantics
      (merged.2 * noise.decay settings.noisePenalty size (first.score * second.score))

/-- The noise on a span when tokens are passed over at its ends and `middle` tokens from the position
`split` on. -/
def innerNoise (query : Query) (start stop left middle right split : Nat) : Noise where
  tokens := left + middle + right
  chars := (query.slice start (start + left)).charCount + (query.slice (stop - right) stop).charCount
    + (query.slice split (split + middle)).charCount

/-- The derivations of a span by a binary rule whose first child ends at the position `split`. -/
def deriveAtSplit (settings : Settings S) (rule : Rule) (left right : SymbolId)
    (cell : Nat → Nat → List (Derivation S)) (query : Query) (start stop : Nat)
    (gaps : Nat × Nat × Nat) (split : Nat) : List (Derivation S) :=
  match (cell (start + gaps.1) split).filter (·.lhs == left) with
  | [] => []
  | firsts =>
    match (cell (split + gaps.2.1) (stop - gaps.2.2)).filter (·.lhs == right) with
    | [] => []
    | seconds =>
      let noise := innerNoise query start stop gaps.1 gaps.2.1 gaps.2.2 split
      firsts.flatMap fun first =>
        seconds.filterMap (deriveFromChildren? settings rule (stop - start) noise first)

/-- The positions at which the first child of a binary rule may end. -/
def splits (start stop : Nat) (gaps : Nat × Nat × Nat) : List Nat :=
  List.range' (start + gaps.1 + 1) (stop - gaps.2.2 - gaps.2.1 - (start + gaps.1 + 1))

def deriveBinary (settings : Settings S) (rule : Rule) (left right : SymbolId)
    (cell : Nat → Nat → List (Derivation S)) (query : Query) (start stop : Nat) :
    List (Derivation S) :=
  (innerGaps settings.maxNoise (stop - start)).flatMap fun gaps =>
    (splits start stop gaps).flatMap
      (deriveAtSplit settings rule left right cell query start stop gaps)

def derive (settings : Settings S) (rule : Rule) (cell : Nat → Nat → List (Derivation S))
    (query : Query) (start stop : Nat) : List (Derivation S) :=
  match rule.body with
  | .words literals => rule.deriveWords literals (query.slice start stop)
  | .unary child => rule.deriveUnary settings child cell query start stop
  | .binary left right => rule.deriveBinary settings left right cell query start stop

end PlotQuery.Rule
