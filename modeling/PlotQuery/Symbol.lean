/-! Symbols of a grammar and the table that numbers them. A symbol is known by its spelling, in which
a literal stands between double quotes, so a literal and a nonterminal of the same name differ. -/
namespace PlotQuery

/-- What a symbol stands for, fixed where its spelling first appears. -/
inductive SymbolKind where
  /-- A symbol with rules. -/
  | nonterminal
  /-- A word of the query. -/
  | constant
  /-- What an annotator recognises. -/
  | placeholder
  deriving DecidableEq, Repr

structure Symbol where
  name : String
  kind : SymbolKind
  deriving DecidableEq, Repr

/-- The name, between double quotes if the symbol is a literal. -/
def Symbol.spelling (symbol : Symbol) : String :=
  match symbol.kind with
  | .constant => "\"" ++ symbol.name ++ "\""
  | _ => symbol.name

/-- The number of a symbol in its table. A table has fewer than 2 ^ 32 symbols, so that 32 bits
would do for its numbers, and nothing here depends on that bound. -/
abbrev SymbolId := Nat

/-- Symbols in the order of their first appearance, no two of them spelled alike. So a spelling has
one number at most, and a search through the symbols stands for a map from spellings to numbers. -/
structure SymbolTable where
  symbols : List Symbol
  distinct : (symbols.map Symbol.spelling).Nodup

namespace SymbolTable

def empty : SymbolTable :=
  ⟨[], List.Pairwise.nil⟩

instance : Inhabited SymbolTable := ⟨empty⟩

def size (table : SymbolTable) : Nat :=
  table.symbols.length

/-- The number of the symbol with the given spelling, as a map from spellings would give it. -/
def find? (table : SymbolTable) (spelling : String) : Option SymbolId :=
  table.symbols.findIdx? fun symbol => symbol.spelling == spelling

def get? (table : SymbolTable) (id : SymbolId) : Option Symbol :=
  table.symbols[id]?

def spelling (table : SymbolTable) (id : SymbolId) : String :=
  ((table.get? id).map Symbol.spelling).getD ""

def name (table : SymbolTable) (id : SymbolId) : String :=
  ((table.get? id).map Symbol.name).getD ""

theorem spelling_not_mem_of_find?_eq_none {table : SymbolTable} {spelling : String}
    (h : table.find? spelling = none) : spelling ∉ table.symbols.map Symbol.spelling := by
  intro hMem
  obtain ⟨symbol, hSymbol, rfl⟩ := List.mem_map.1 hMem
  simpa using List.findIdx?_eq_none_iff.1 h symbol hSymbol

/-- A table with one more symbol, whose spelling is new. -/
def push (table : SymbolTable) (symbol : Symbol) (isNew : table.find? symbol.spelling = none) :
    SymbolTable where
  symbols := table.symbols ++ [symbol]
  distinct := by
    have h := spelling_not_mem_of_find?_eq_none isNew
    rw [List.map_append, List.nodup_append]
    refine ⟨table.distinct, by simp, ?_⟩
    rintro a ha b hb rfl
    simp only [List.map_cons, List.map_nil, List.mem_singleton] at hb
    exact h (hb ▸ ha)

/-- The number of a symbol, and the table that has it. A spelling that the table knows keeps its
number and its kind. -/
def intern (table : SymbolTable) (symbol : Symbol) : SymbolTable × SymbolId :=
  match h : table.find? symbol.spelling with
  | some id => (table, id)
  | none => (table.push symbol h, table.size)

/-- The number that a spelling gets is the one it is found under from then on. -/
theorem find?_intern (table : SymbolTable) (symbol : Symbol) :
    (table.intern symbol).1.find? symbol.spelling = some (table.intern symbol).2 := by
  rw [intern]
  split
  · next id h => exact h
  · next h =>
    rw [find?, push, List.findIdx?_append]
    have hNone : table.symbols.findIdx? (fun s => s.spelling == symbol.spelling) = none := h
    simp [hNone, size, List.findIdx?_cons]

/-- Further symbols do not change the numbers of those that are there. -/
theorem get?_intern (table : SymbolTable) (symbol : Symbol) {id : SymbolId}
    (h : id < table.size) : (table.intern symbol).1.get? id = table.get? id := by
  rw [intern]
  split
  · rfl
  · exact List.getElem?_append_left h

end SymbolTable

end PlotQuery
