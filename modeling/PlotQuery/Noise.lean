import PlotQuery.Scalar

/-! Noise: the tokens that an application of a rule passes over, and what they cost. -/
namespace PlotQuery

/-- The tokens passed over and the characters of their normal forms. -/
structure Noise where
  tokens : Nat
  chars : Nat
  deriving DecidableEq, Repr

namespace Noise

def none : Noise :=
  ⟨0, 0⟩

/-- How often the penalty counts: once for each token and each character, as a signed integer of 32
bits. -/
def exponent (noise : Noise) : Int :=
  Int.bmod (noise.tokens + noise.chars : Nat) (Nat.pow 2 32)

variable {S : Type} [Scalar S]

/-- The share of the tokens of a span that is not noise. -/
def kept (noise : Noise) (span : Nat) : S :=
  Scalar.ofNat (span - noise.tokens) / Scalar.ofNat span

/-- The score `base` of what is left of a span of the given size, less what the noise costs. -/
def decay (noise : Noise) (penalty : S) (span : Nat) (base : S) : S :=
  if span = 0 then base
  else base * noise.kept span * Scalar.power penalty noise.exponent

end Noise

/-- How many tokens are passed over before and after the child of a unary rule on a span of the given
size, in the order in which the rule is applied. Something of the span always remains. -/
def outerGaps (maxLeading maxNoise span : Nat) : List (Nat × Nat) :=
  let cap := min maxNoise span
  (List.range (min maxLeading cap + 1)).flatMap fun left =>
    ((List.range (cap - left + 1)).filter fun right => left + right < span).map fun right =>
      (left, right)

/-- How many tokens are passed over before, between and after the children of a binary rule on a span
of the given size, in the order in which the rule is applied. -/
def innerGaps (maxNoise span : Nat) : List (Nat × Nat × Nat) :=
  let cap := min maxNoise span
  (List.range (cap + 1)).flatMap fun left =>
    (List.range (cap - left + 1)).flatMap fun middle =>
      ((List.range (cap - left - middle + 1)).filter fun right => left + middle + right < span).map
        fun right => (left, middle, right)

end PlotQuery
