import Mathlib.Data.List.Forall2
import Mathlib.Data.List.Nodup
import Mathlib.Data.Prod.Basic
import PlotQuery.Proofs.Derives

/-! What a rule may choose on a span: how many tokens to pass over at each place, where the first child
ends, and which entries of the cells to take as children. An application of a rule goes through all
choices and through none of them twice. -/
namespace PlotQuery

/-- Pairs that are formed from different members, or from one member and different partners of it,
differ. So choices made one after the other never come up twice. -/
theorem nodup_flatMap_map_mk {α β : Type} {xs : List α} {partners : α → List β} (hxs : xs.Nodup)
    (hPartners : ∀ x ∈ xs, (partners x).Nodup) :
    (xs.flatMap fun x => (partners x).map (Prod.mk x)).Nodup := by
  rw [List.nodup_flatMap]
  constructor
  · intro x hx
    exact (hPartners x hx).map (Prod.mk_right_injective x)
  · refine hxs.imp fun hne pair hx hy => hne ?_
    obtain ⟨_, _, rfl⟩ := List.mem_map.1 hx
    obtain ⟨_, _, hPair⟩ := List.mem_map.1 hy
    exact (congrArg Prod.fst hPair).symm

theorem nodup_outerGaps (maxLeading maxNoise span : Nat) :
    (outerGaps maxLeading maxNoise span).Nodup :=
  nodup_flatMap_map_mk List.nodup_range fun _ _ => List.nodup_range.filter _

theorem nodup_innerGaps (maxNoise span : Nat) : (innerGaps maxNoise span).Nodup := by
  have hPairs : innerGaps maxNoise span =
      (List.range (min maxNoise span + 1)).flatMap fun left =>
        ((List.range (min maxNoise span - left + 1)).flatMap fun middle =>
          ((List.range (min maxNoise span - left - middle + 1)).filter fun right =>
            left + middle + right < span).map (Prod.mk middle)).map (Prod.mk left) := by
    simp only [innerGaps, List.map_flatMap, List.map_map, Function.comp_def]
  rw [hPairs]
  exact nodup_flatMap_map_mk List.nodup_range fun _ _ =>
    nodup_flatMap_map_mk List.nodup_range fun _ _ => List.nodup_range.filter _

/-- The entries that satisfy a condition stand at the places where it holds. They are in the same
order there. -/
theorem map_getElem?_findIdxs {α : Type} (p : α → Bool) (xs : List α) :
    (xs.findIdxs p).map (xs[·]?) = (xs.filter p).map some := by
  apply List.ext_getElem
  · simp [List.countP_eq_length_filter]
  · intro i hi hi'
    simp [List.getElem_filter_eq_getElem_getElem_findIdxs]

/-- To go through the places of the entries that satisfy a condition is to go through these
entries. -/
theorem filterMap_findIdxs {α β : Type} (p : α → Bool) (xs : List α) (f : α → Option β) :
    (xs.findIdxs p).filterMap (fun i => xs[i]?.bind f) = (xs.filter p).filterMap f := by
  have hEntries := congrArg (List.filterMap (·.bind f)) (map_getElem?_findIdxs p xs)
  rwa [List.filterMap_map, List.filterMap_map] at hEntries

theorem flatMap_findIdxs {α β γ : Type} (p : α → Bool) (xs : List α) (ys : List β)
    (f : β → α → Option γ) :
    ((xs.findIdxs p).flatMap fun i => ys.filterMap fun y => xs[i]?.bind (f y)) =
      (xs.filter p).flatMap fun x => ys.filterMap fun y => f y x := by
  have hEntries := congrArg (List.flatMap fun entry : Option α => ys.filterMap fun y =>
    entry.bind (f y)) (map_getElem?_findIdxs p xs)
  rwa [List.flatMap_map, List.flatMap_map] at hEntries

/-- Where a relation holds just between the members of a list and what a function makes of them,
the members that are related to anything correspond to what the function makes of the list. The
order is that of the list. -/
theorem exists_nodup_forall₂ {α β : Type} {R : α → β → Prop} {f : α → Option β} {all : List α}
    (hNodup : all.Nodup) (hR : ∀ x y, R x y ↔ x ∈ all ∧ f x = some y) :
    ∃ xs : List α, xs.Nodup ∧ (∀ x, x ∈ xs ↔ ∃ y, R x y) ∧
      List.Forall₂ R xs (all.filterMap f) := by
  have hForall (part : List α) (hPart : ∀ x ∈ part, x ∈ all) :
      List.Forall₂ R (part.filter fun x => (f x).isSome) (part.filterMap f) := by
    induction part with
    | nil => exact .nil
    | cons x part ih =>
        have ih := ih fun y hy => hPart y (List.mem_cons_of_mem x hy)
        cases hx : f x with
        | none => simpa [hx] using ih
        | some y => simpa [hx] using And.intro ((hR x y).2 ⟨hPart x List.mem_cons_self, hx⟩) ih
  refine ⟨all.filter fun x => (f x).isSome, hNodup.filter _, ?_, hForall all fun _ hx => hx⟩
  intro x
  simp only [List.mem_filter, Option.isSome_iff_exists, hR, exists_and_left]

namespace Rule

variable {S : Type}

section Choices

variable (settings : Settings S) (cell : Nat → Nat → List (Derivation S)) (start stop : Nat)

/-- The choices for a unary rule: how many tokens are passed over in front of the child and behind it,
and a place where the cell of what is left has the symbol of the child. -/
def unaryChoices (symbol : SymbolId) : List ((Nat × Nat) × Nat) :=
  (outerGaps settings.maxLeadingNoise settings.maxNoise (stop - start)).flatMap fun gaps =>
    ((cell (start + gaps.1) (stop - gaps.2)).findIdxs (·.lhs == symbol)).map (Prod.mk gaps)

/-- The choices for a binary rule: how many tokens are passed over in front of the children, between
them and behind them, where the first child ends, and places where the cells of both parts have the
symbols of the children. -/
def binaryChoices (left right : SymbolId) : List ((Nat × Nat × Nat) × Nat × Nat × Nat) :=
  (innerGaps settings.maxNoise (stop - start)).flatMap fun gaps =>
    ((splits start stop gaps).flatMap fun split =>
      (((cell (start + gaps.1) split).findIdxs (·.lhs == left)).flatMap fun i =>
        ((cell (split + gaps.2.1) (stop - gaps.2.2)).findIdxs (·.lhs == right)).map
          (Prod.mk i)).map (Prod.mk split)).map (Prod.mk gaps)

theorem nodup_unaryChoices (symbol : SymbolId) :
    (unaryChoices settings cell start stop symbol).Nodup :=
  nodup_flatMap_map_mk (nodup_outerGaps _ _ _) fun _ _ => List.nodup_findIdxs

theorem nodup_binaryChoices (left right : SymbolId) :
    (binaryChoices settings cell start stop left right).Nodup := by
  apply nodup_flatMap_map_mk (nodup_innerGaps _ _)
  intro gaps _
  apply nodup_flatMap_map_mk List.nodup_range'
  intro split _
  exact nodup_flatMap_map_mk List.nodup_findIdxs fun _ _ => List.nodup_findIdxs

variable {settings cell start stop}

theorem mem_findIdxs_lhs {ds : List (Derivation S)} {symbol : SymbolId} {place : Nat} :
    place ∈ ds.findIdxs (·.lhs == symbol) ↔ ∃ d, ds[place]? = some d ∧ d.lhs = symbol := by
  simp [List.getElem?_eq_some_iff]

/-- A choice for a unary rule is two gaps within the limits and the place of a derivation of its
child. -/
theorem mem_unaryChoices {symbol : SymbolId} {left right place : Nat} :
    ((left, right), place) ∈ unaryChoices settings cell start stop symbol ↔
      (left ≤ min settings.maxLeadingNoise settings.maxNoise ∧
        left + right ≤ settings.maxNoise ∧ start + left < stop - right) ∧
      ∃ child, (cell (start + left) (stop - right))[place]? = some child ∧ child.lhs = symbol := by
  have hBounds : (left ≤ settings.maxLeadingNoise ∧ left + right ≤ settings.maxNoise ∧
      left + right < stop - start) ↔ left ≤ min settings.maxLeadingNoise settings.maxNoise ∧
        left + right ≤ settings.maxNoise ∧ start + left < stop - right := by omega
  simp only [unaryChoices, List.mem_flatMap, List.mem_map, Prod.mk.injEq, ↓existsAndEq, and_true,
    mem_findIdxs_lhs, Prod.exists, mem_outerGaps, hBounds]

/-- A choice for a binary rule is three gaps, a split, and a place for each of the children. -/
theorem mem_binaryChoices {left right : SymbolId} {before between behind split i j : Nat} :
    ((before, between, behind), split, i, j) ∈
        binaryChoices settings cell start stop left right ↔
      (before + between + behind ≤ settings.maxNoise ∧ start + before < split ∧
        split + between < stop - behind) ∧
      (∃ first, (cell (start + before) split)[i]? = some first ∧ first.lhs = left) ∧
      ∃ second, (cell (split + between) (stop - behind))[j]? = some second ∧
        second.lhs = right := by
  have hBounds : ((before + between + behind ≤ settings.maxNoise ∧
      before + between + behind < stop - start) ∧
        start + before < split ∧ split + between + behind < stop) ↔
      before + between + behind ≤ settings.maxNoise ∧ start + before < split ∧
        split + between < stop - behind := by omega
  rw [← hBounds, and_assoc]
  simp only [binaryChoices, List.mem_flatMap, List.mem_map, Prod.mk.injEq, ↓existsAndEq, and_true,
    mem_findIdxs_lhs, Prod.exists, mem_innerGaps, mem_splits]

end Choices

variable [Scalar S]

/-- An application of a unary rule to a span. The choice gives the numbers of tokens passed over in
front of the child and behind it, and the place of the child in the cell of what is left. -/
inductive UnaryStep (settings : Settings S) (rule : Rule) (symbol : SymbolId)
    (cell : Nat → Nat → List (Derivation S)) (query : Query) (start stop : Nat) :
    (Nat × Nat) × Nat → Derivation S → Prop where
  | mk {left right place : Nat} {child : Derivation S} {semantics : Semantics}
      (leading : left ≤ min settings.maxLeadingNoise settings.maxNoise)
      (limit : left + right ≤ settings.maxNoise) (nonempty : start + left < stop - right)
      (found : (cell (start + left) (stop - right))[place]? = some child)
      (symbol_eq : child.lhs = symbol)
      (acted : applyAction rule.action child.semantics [child.semantics] = some semantics) :
      UnaryStep settings rule symbol cell query start stop ((left, right), place)
        (.unary rule child semantics
          ((query.noise [(start, start + left), (stop - right, stop)]).decay settings.noisePenalty
            (stop - start) child.score))

/-- An application of a binary rule to a span. The choice gives the numbers of tokens passed over in
front of the children, between them and behind them, the end of the first child, and the places of
both in their cells. -/
inductive BinaryStep (settings : Settings S) (rule : Rule) (left right : SymbolId)
    (cell : Nat → Nat → List (Derivation S)) (query : Query) (start stop : Nat) :
    (Nat × Nat × Nat) × Nat × Nat × Nat → Derivation S → Prop where
  | mk {before between behind split i j : Nat} {first second : Derivation S}
      {semantics : Semantics}
      (limit : before + between + behind ≤ settings.maxNoise)
      (nonemptyFirst : start + before < split) (nonemptySecond : split + between < stop - behind)
      (foundFirst : (cell (start + before) split)[i]? = some first)
      (left_eq : first.lhs = left)
      (foundSecond : (cell (split + between) (stop - behind))[j]? = some second)
      (right_eq : second.lhs = right)
      (acted : applyAction rule.action
        (Semantics.merge settings.merge first.semantics second.semantics).1
        [first.semantics, second.semantics] = some semantics) :
      BinaryStep settings rule left right cell query start stop
        ((before, between, behind), split, i, j)
        (.binary rule first second semantics
          ((Semantics.merge settings.merge first.semantics second.semantics).2 *
            (query.noise [(start, start + before), (split, split + between),
              (stop - behind, stop)]).decay settings.noisePenalty (stop - start)
                (first.score * second.score)))

variable (settings : Settings S) (rule : Rule) (cell : Nat → Nat → List (Derivation S))
  (query : Query) (start stop : Nat)

/-- What comes of a choice for a unary rule, unless its action fails. -/
def unaryResult? : (Nat × Nat) × Nat → Option (Derivation S)
  | ((left, right), place) =>
    (cell (start + left) (stop - right))[place]?.bind
      (rule.deriveFromChild? settings (stop - start)
        (query.noise [(start, start + left), (stop - right, stop)]))

/-- What comes of a choice for a binary rule, unless its action fails. -/
def binaryResult? : (Nat × Nat × Nat) × Nat × Nat × Nat → Option (Derivation S)
  | ((before, between, behind), split, i, j) =>
    (cell (start + before) split)[i]?.bind fun first =>
      (cell (split + between) (stop - behind))[j]?.bind
        (rule.deriveFromChildren? settings (stop - start)
          (query.noise [(start, start + before), (split, split + between), (stop - behind, stop)])
          first)

variable {settings rule cell query start stop}

/-- A choice leads to a tree just if it is one of the choices and the action of the rule does not
fail. -/
theorem unaryStep_iff {symbol : SymbolId} {choice : (Nat × Nat) × Nat} {d : Derivation S} :
    UnaryStep settings rule symbol cell query start stop choice d ↔
      choice ∈ unaryChoices settings cell start stop symbol ∧
        rule.unaryResult? settings cell query start stop choice = some d := by
  obtain ⟨⟨left, right⟩, place⟩ := choice
  constructor
  · rintro ⟨leading, limit, nonempty, found, symbol_eq, acted⟩
    refine ⟨mem_unaryChoices.2 ⟨⟨leading, limit, nonempty⟩, _, found, symbol_eq⟩, ?_⟩
    rw [unaryResult?, found, Option.bind_some, deriveFromChild?, acted, Option.map_some]
  · rintro ⟨hChoice, hResult⟩
    obtain ⟨⟨leading, limit, nonempty⟩, child, found, symbol_eq⟩ := mem_unaryChoices.1 hChoice
    rw [unaryResult?, found, Option.bind_some] at hResult
    obtain ⟨semantics, acted, rfl⟩ := Option.map_eq_some_iff.1 hResult
    exact .mk leading limit nonempty found symbol_eq acted

/-- A choice for two children leads to a tree just if it is one of the choices and the action of
the rule does not fail. -/
theorem binaryStep_iff {left right : SymbolId} {choice : (Nat × Nat × Nat) × Nat × Nat × Nat}
    {d : Derivation S} :
    BinaryStep settings rule left right cell query start stop choice d ↔
      choice ∈ binaryChoices settings cell start stop left right ∧
        rule.binaryResult? settings cell query start stop choice = some d := by
  obtain ⟨⟨before, between, behind⟩, split, i, j⟩ := choice
  constructor
  · rintro ⟨limit, nonemptyFirst, nonemptySecond, foundFirst, left_eq, foundSecond, right_eq, acted⟩
    refine ⟨mem_binaryChoices.2 ⟨⟨limit, nonemptyFirst, nonemptySecond⟩, ⟨_, foundFirst, left_eq⟩,
      _, foundSecond, right_eq⟩, ?_⟩
    simp only [binaryResult?, foundFirst, foundSecond, Option.bind_some, deriveFromChildren?, acted,
      Option.map_some]
  · rintro ⟨hChoice, hResult⟩
    obtain ⟨⟨limit, nonemptyFirst, nonemptySecond⟩, ⟨first, foundFirst, left_eq⟩,
      second, foundSecond, right_eq⟩ := mem_binaryChoices.1 hChoice
    simp only [binaryResult?, foundFirst, foundSecond, Option.bind_some] at hResult
    obtain ⟨semantics, acted, rfl⟩ := Option.map_eq_some_iff.1 hResult
    exact .mk limit nonemptyFirst nonemptySecond foundFirst left_eq foundSecond right_eq acted

/-- A unary rule goes through its choices in their order and leaves out those with which its
action fails. -/
theorem deriveUnary_eq_filterMap (symbol : SymbolId) (hStop : stop ≤ query.size) :
    rule.deriveUnary settings symbol cell query start stop =
      (unaryChoices settings cell start stop symbol).filterMap
        (rule.unaryResult? settings cell query start stop) := by
  rw [deriveUnary_eq_flatMap, unaryChoices, List.filterMap_flatMap]
  apply List.flatMap_congr
  rintro ⟨left, right⟩ hGaps
  obtain ⟨-, -, hSpan⟩ := mem_outerGaps.1 hGaps
  rw [outerNoise_slice query hStop hSpan, List.filterMap_map]
  exact (filterMap_findIdxs _ _ _).symm

/-- A binary rule goes through its choices in their order and leaves out those with which its
action fails. -/
theorem deriveBinary_eq_filterMap (left right : SymbolId) :
    rule.deriveBinary settings left right cell query start stop =
      (binaryChoices settings cell start stop left right).filterMap
        (rule.binaryResult? settings cell query start stop) := by
  simp only [deriveBinary, binaryChoices, List.filterMap_flatMap, List.filterMap_map,
    Function.comp_def]
  apply List.flatMap_congr
  rintro ⟨before, between, behind⟩ hGaps
  obtain ⟨-, hSpan⟩ := mem_innerGaps.1 hGaps
  apply List.flatMap_congr
  intro split _
  rw [deriveAtSplit_eq_flatMap]
  dsimp only
  rw [innerNoise_eq_noise query between split (by omega)]
  simp only [binaryResult?, flatMap_findIdxs, filterMap_findIdxs]

/-- A rule that is applied to a span derives one tree for each choice, in the order of the
choices, less those with which its action fails, and nothing else. No choice comes up twice. The
cells may hold anything, also one derivation several times over. -/
theorem derive_each_choice_once (settings : Settings S) (rule : Rule)
    (cell : Nat → Nat → List (Derivation S)) {query : Query} (start : Nat) {stop : Nat}
    (hStop : stop ≤ query.size) :
    (∀ left right, ∃ choices : List ((Nat × Nat × Nat) × Nat × Nat × Nat), choices.Nodup ∧
      (∀ choice, choice ∈ choices ↔
        ∃ d, BinaryStep settings rule left right cell query start stop choice d) ∧
      List.Forall₂ (BinaryStep settings rule left right cell query start stop) choices
        (rule.deriveBinary settings left right cell query start stop)) ∧
    ∀ symbol, ∃ choices : List ((Nat × Nat) × Nat), choices.Nodup ∧
      (∀ choice, choice ∈ choices ↔
        ∃ d, UnaryStep settings rule symbol cell query start stop choice d) ∧
      List.Forall₂ (UnaryStep settings rule symbol cell query start stop) choices
        (rule.deriveUnary settings symbol cell query start stop) := by
  constructor
  · intro left right
    rw [deriveBinary_eq_filterMap]
    exact exists_nodup_forall₂ (nodup_binaryChoices settings cell start stop left right)
      fun _ _ => binaryStep_iff
  · intro symbol
    rw [deriveUnary_eq_filterMap symbol hStop]
    exact exists_nodup_forall₂ (nodup_unaryChoices settings cell start stop symbol)
      fun _ _ => unaryStep_iff

/-- Two derivations for every span, one of each symbol. -/
def evenCell (_ _ : Nat) : List (Derivation ℚ) :=
  [.leaf 0 Semantics.empty 1, .leaf 1 Semantics.empty (1 / 2)]

/-- The limits on noise exceed what a span of three tokens can spare. -/
theorem derive_each_choice_once_evenCell :
    3 ≤ Grammar.barQuery.size ∧
    (∃ choices : List ((Nat × Nat × Nat) × Nat × Nat × Nat), choices.Nodup ∧ choices.length = 5 ∧
      (∀ choice, choice ∈ choices ↔ ∃ d,
        BinaryStep Settings.standard ⟨2, .binary 0 1, none⟩ 0 1 evenCell Grammar.barQuery 0 3
          choice d)) ∧
    ∃ choices : List ((Nat × Nat) × Nat), choices.Nodup ∧ choices.length = 6 ∧
      (∀ choice, choice ∈ choices ↔ ∃ d,
        UnaryStep Settings.standard ⟨2, .unary 1, none⟩ 1 evenCell Grammar.barQuery 0 3
          choice d) := by
  have hStop : 3 ≤ Grammar.barQuery.size := by decide
  obtain ⟨binary, hBinary, hBinarySteps, hBinaryResults⟩ :=
    (derive_each_choice_once Settings.standard ⟨2, .binary 0 1, none⟩ evenCell 0 hStop).1 0 1
  obtain ⟨unary, hUnary, hUnarySteps, hUnaryResults⟩ :=
    (derive_each_choice_once Settings.standard ⟨2, .unary 1, none⟩ evenCell 0 hStop).2 1
  refine ⟨hStop, ⟨binary, hBinary, ?_, hBinarySteps⟩, unary, hUnary, ?_, hUnarySteps⟩
  · rw [hBinaryResults.length_eq]
    decide +kernel
  · rw [hUnaryResults.length_eq]
    decide +kernel

end Rule

end PlotQuery
