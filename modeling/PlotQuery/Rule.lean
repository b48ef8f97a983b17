import PlotQuery.Semantics
import PlotQuery.Symbol

/-! Rules of a grammar, and the actions by which a rule adds to the semantics of what it derives. -/
namespace PlotQuery

inductive ActionValue where
  /-- A fixed text. -/
  | literal (text : String)
  /-- The value under a key of a child, which is given by its position. -/
  | child (index : Nat) (property : String)
  deriving DecidableEq, Repr

/-- An assignment of a value to a key. -/
structure Action where
  key : String
  value : ActionValue
  deriving DecidableEq, Repr

/-- The value to assign, given the semantics of the children. There is none if the action refers to a
child or to a key that does not exist. -/
def Action.resolve (action : Action) (children : List Semantics) : Option String :=
  match action.value with
  | .literal text => some text
  | .child index property => children[index]?.bind (·.get? property)

/-- Carry out an assignment, if there is one, on top of a map. -/
def applyAction (action : Option Action) (target : Semantics) (children : List Semantics) :
    Option Semantics :=
  match action with
  | none => some target
  | some action => (action.resolve children).map (target.insert action.key)

inductive RuleBody where
  /-- Words in normal form, exactly as the query has them. -/
  | words (literals : List String)
  /-- One symbol. -/
  | unary (child : SymbolId)
  /-- Two symbols, one after the other. -/
  | binary (left right : SymbolId)
  deriving DecidableEq, Repr

/-- A rule: a symbol, what it derives, and what this adds to the semantics. -/
structure Rule where
  lhs : SymbolId
  body : RuleBody
  action : Option Action
  deriving DecidableEq, Repr

end PlotQuery
