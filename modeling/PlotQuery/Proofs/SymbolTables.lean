import Mathlib.Data.List.Nodup
import PlotQuery.Proofs.RuleNumbering
import PlotQuery.Proofs.UnionValue

/-! Symbol tables as lists of symbols. Looking a spelling up and reading a number off undo each other
in every table. Where the spelling of a symbol tells its kind, a table holds the symbols that it has
been given, each once, in the order of their first appearance. -/
namespace PlotQuery

theorem eraseDups_of_nodup {α : Type} [BEq α] [LawfulBEq α] {l : List α} (h : l.Nodup) :
    l.eraseDups = l := by
  induction l with
  | nil => rfl
  | cons a l ih =>
      obtain ⟨hHead, hRest⟩ := List.nodup_cons.1 h
      have hSame : (l.filter fun b => !b == a) = l := by
        apply List.filter_eq_self.2
        intro b hb
        have hne : b ≠ a := fun heq => hHead (heq ▸ hb)
        simpa using hne
      rw [List.eraseDups_cons, hSame, ih hRest]

namespace Symbol

/-- The spelling of the symbol tells its kind: the name of a placeholder begins with a dollar sign,
and that of a nonterminal with neither a dollar sign nor a double quote. -/
def WellSpelled (symbol : Symbol) : Prop :=
  match symbol.kind with
  | .nonterminal => symbol.name.toList.head? ≠ some '"' ∧ symbol.name.toList.head? ≠ some '$'
  | .constant => True
  | .placeholder => symbol.name.toList.head? = some '$'

theorem spelling_constant_injective {word word' : String}
    (h : Symbol.spelling ⟨word, .constant⟩ = Symbol.spelling ⟨word', .constant⟩) : word = word' := by
  have hChars := congrArg String.toList h
  simpa [spelling, String.toList_inj] using hChars

/-- Symbols whose spellings tell their kinds are the same if they are spelled alike. Names alone
do not tell them apart. -/
theorem WellSpelled.eq_of_spelling_eq {a b : Symbol} (ha : a.WellSpelled) (hb : b.WellSpelled)
    (h : a.spelling = b.spelling) : a = b := by
  obtain ⟨name, kind⟩ := a
  obtain ⟨name', kind'⟩ := b
  have hHead := congrArg (fun text : String => text.toList.head?) h
  cases kind <;> cases kind'
  case nonterminal.nonterminal => rw [show name = name' from h]
  case placeholder.placeholder => rw [show name = name' from h]
  case constant.constant => rw [spelling_constant_injective h]
  all_goals
    clear h
    simp_all [WellSpelled, spelling]

end Symbol

namespace SymbolTable

variable {table : SymbolTable} {spelling : String} {symbol : Symbol} {id : SymbolId}

/-- A spelling is found under the number of the one symbol that has it. There is one such symbol
at most, by their spellings. -/
theorem find?_eq_some_iff :
    table.find? spelling = some id ↔ ∃ symbol, table.get? id = some symbol ∧
      symbol.spelling = spelling := by
  rw [find?, List.findIdx?_eq_some_iff_getElem]
  simp only [beq_iff_eq, get?, List.getElem?_eq_some_iff]
  constructor
  · rintro ⟨hSize, hSpelling, -⟩
    exact ⟨table.symbols[id], ⟨hSize, rfl⟩, hSpelling⟩
  · rintro ⟨symbol, ⟨hSize, rfl⟩, hSpelling⟩
    refine ⟨hSize, hSpelling, fun j hj hSame => ?_⟩
    have hDistinct := List.pairwise_iff_getElem.1 table.distinct j id (by simp; omega)
      (by simpa using hSize) hj
    simp only [List.getElem_map] at hDistinct
    exact hDistinct (hSame.trans hSpelling.symm)

theorem find?_of_get? (h : table.get? id = some symbol) :
    table.find? symbol.spelling = some id :=
  find?_eq_some_iff.2 ⟨symbol, h, rfl⟩

theorem get?_injective {id' : SymbolId} (h : table.get? id = some symbol)
    (h' : table.get? id' = some symbol) : id = id' :=
  Option.some.inj ((find?_of_get? h).symm.trans (find?_of_get? h'))

theorem lt_size_of_get? (h : table.get? id = some symbol) : id < table.size :=
  (List.getElem?_eq_some_iff.1 h).1

theorem mem_symbols_iff : symbol ∈ table.symbols ↔ ∃ id, table.get? id = some symbol :=
  List.mem_iff_getElem?

/-- In a table of symbols whose spellings tell their kinds a symbol is found under its own number.
Both ways of looking up are inverse to each other. -/
theorem get?_of_find? (hTable : ∀ symbol ∈ table.symbols, symbol.WellSpelled)
    (hSymbol : symbol.WellSpelled) (h : table.find? symbol.spelling = some id) :
    table.get? id = some symbol := by
  obtain ⟨found, hFound, hSpelling⟩ := find?_eq_some_iff.1 h
  have hSame := (hTable found (mem_symbols_iff.2 ⟨id, hFound⟩)).eq_of_spelling_eq hSymbol hSpelling
  exact hSame ▸ hFound

/-- A further symbol leaves the symbols that are there under their numbers. Numbers are given in
order and never taken back. -/
theorem get?_intern_of_get? (h : table.get? id = some symbol) (further : Symbol) :
    (table.intern further).1.get? id = some symbol :=
  (table.get?_intern further (lt_size_of_get? h)).trans h

/-- A symbol that the table knows changes nothing, and has its number there. So mentioning it
again does no harm. -/
theorem intern_of_mem (hTable : ∀ symbol ∈ table.symbols, symbol.WellSpelled)
    (hMem : symbol ∈ table.symbols) :
    (table.intern symbol).1 = table ∧ table.get? (table.intern symbol).2 = some symbol := by
  rw [intern]
  split
  · next id hFind => exact ⟨rfl, get?_of_find? hTable (hTable symbol hMem) hFind⟩
  · next hFind =>
    exact absurd (List.mem_map_of_mem hMem) (spelling_not_mem_of_find?_eq_none hFind)

/-- A new symbol gets the next number. The numbers of a table are those below its size. -/
theorem intern_of_not_mem (hTable : ∀ symbol ∈ table.symbols, symbol.WellSpelled)
    (hSymbol : symbol.WellSpelled) (hMem : symbol ∉ table.symbols) :
    (table.intern symbol).1.symbols = table.symbols ++ [symbol] ∧
      (table.intern symbol).2 = table.size := by
  rw [intern]
  split
  · next id hFind =>
    exact absurd (mem_symbols_iff.2 ⟨id, get?_of_find? hTable hSymbol hFind⟩) hMem
  · exact ⟨rfl, rfl⟩

/-- The number that a symbol gets is its own. -/
theorem get?_intern_self (hTable : ∀ symbol ∈ table.symbols, symbol.WellSpelled)
    (hSymbol : symbol.WellSpelled) :
    (table.intern symbol).1.get? (table.intern symbol).2 = some symbol := by
  by_cases hMem : symbol ∈ table.symbols
  · obtain ⟨hTable', hGet⟩ := intern_of_mem hTable hMem
    rwa [hTable']
  · obtain ⟨hSymbols, hId⟩ := intern_of_not_mem hTable hSymbol hMem
    rw [get?, hSymbols, hId, size]
    simp

/-- A table lists the symbols that it has been given, each once. They stand in the order in which
they first came. -/
theorem symbols_intern (hTable : ∀ symbol ∈ table.symbols, symbol.WellSpelled)
    (hSymbol : symbol.WellSpelled) :
    (table.intern symbol).1.symbols = (table.symbols ++ [symbol]).eraseDups := by
  have hNodup : table.symbols.Nodup := List.Nodup.of_map _ table.distinct
  by_cases hMem : symbol ∈ table.symbols
  · rw [(intern_of_mem hTable hMem).1, List.eraseDups_append, eraseDups_of_nodup hNodup]
    simp [List.removeAll, hMem]
  · rw [(intern_of_not_mem hTable hSymbol hMem).1, eraseDups_of_nodup]
    exact List.nodup_append_comm.2 (List.nodup_cons.2 ⟨hMem, hNodup⟩)

/-- The symbols of a kind and their numbers, in order. -/
def ofKind (table : SymbolTable) (kind : SymbolKind) : List (Symbol × SymbolId) :=
  table.symbols.zipIdx.filter (·.1.kind = kind)

/-- The symbols of a kind are listed with their numbers. -/
theorem mem_ofKind {kind : SymbolKind} :
    (symbol, id) ∈ table.ofKind kind ↔ table.get? id = some symbol ∧ symbol.kind = kind := by
  simp [ofKind, get?, List.mem_zipIdx_iff_getElem?]

/-- Numbers are listed once. The list goes along the table. -/
theorem nodup_ofKind (table : SymbolTable) (kind : SymbolKind) :
    ((table.ofKind kind).map Prod.snd).Nodup := by
  have hAll : (table.symbols.zipIdx.map Prod.snd).Nodup := by
    rw [List.zipIdx_map_snd]
    exact List.nodup_range'
  exact hAll.sublist (List.filter_sublist.map Prod.snd)

/-- Less the numbers, the list is the symbols of the table that have the kind. -/
theorem map_fst_ofKind (table : SymbolTable) (kind : SymbolKind) :
    (table.ofKind kind).map Prod.fst = table.symbols.filter (·.kind = kind) := by
  have hSymbols : table.symbols = table.symbols.zipIdx.map Prod.fst :=
    (List.zipIdx_map_fst 0 _).symm
  rw [ofKind, hSymbols, List.filter_map, ← hSymbols]
  rfl

/-- A further symbol does not count among those of another kind. -/
theorem ofKind_intern_of_ne (hTable : ∀ symbol ∈ table.symbols, symbol.WellSpelled)
    (hSymbol : symbol.WellSpelled) {kind : SymbolKind} (hKind : symbol.kind ≠ kind) :
    (table.intern symbol).1.ofKind kind = table.ofKind kind := by
  by_cases hMem : symbol ∈ table.symbols
  · rw [(intern_of_mem hTable hMem).1]
  · rw [ofKind, (intern_of_not_mem hTable hSymbol hMem).1, List.zipIdx_append, List.filter_append]
    simp [ofKind, hKind]

/-- A further symbol counts among those of its kind, at the end unless its number is there. So the
lists that a set of rules keeps by kind can be made of its table. -/
theorem ofKind_intern_self (hTable : ∀ symbol ∈ table.symbols, symbol.WellSpelled)
    (hSymbol : symbol.WellSpelled) :
    (table.intern symbol).1.ofKind symbol.kind =
      if (table.intern symbol).2 ∈ (table.ofKind symbol.kind).map Prod.snd then
        table.ofKind symbol.kind
      else table.ofKind symbol.kind ++ [(symbol, (table.intern symbol).2)] := by
  by_cases hMem : symbol ∈ table.symbols
  · obtain ⟨hTable', hGet⟩ := intern_of_mem hTable hMem
    rw [hTable', if_pos]
    exact List.mem_map.2 ⟨_, mem_ofKind.2 ⟨hGet, rfl⟩, rfl⟩
  · obtain ⟨hSymbols, hId⟩ := intern_of_not_mem hTable hSymbol hMem
    rw [hId, if_neg, ofKind, hSymbols, List.zipIdx_append, List.filter_append]
    · simp [ofKind, size]
    · intro hOld
      obtain ⟨⟨old, _⟩, hOld, rfl⟩ := List.mem_map.1 hOld
      exact Nat.lt_irrefl _ (lt_size_of_get? (mem_ofKind.1 hOld).1)

end SymbolTable

end PlotQuery
