/-! Semantic maps: what a part of a query says, as values under keys. The entries are kept in the
order of their keys, so two maps with the same values under the same keys are equal. -/
namespace PlotQuery

/-- Values under keys, sorted by key without repetition. Keys are ordered by code points. -/
structure Semantics where
  entries : List (String × String)
  sorted : entries.Pairwise fun a b => a.1 < b.1
  deriving DecidableEq

namespace Semantics

def empty : Semantics :=
  ⟨[], List.Pairwise.nil⟩

instance : EmptyCollection Semantics := ⟨empty⟩

instance : Inhabited Semantics := ⟨empty⟩

/-- Put a value under a key of a sorted list of entries, in place of a value that is there. -/
def insertEntry (key value : String) : List (String × String) → List (String × String)
  | [] => [(key, value)]
  | (k, v) :: rest =>
    if key < k then (key, value) :: (k, v) :: rest
    else if key = k then (key, value) :: rest
    else (k, v) :: insertEntry key value rest

theorem eq_or_mem_of_mem_insertEntry {key value : String} {e : String × String}
    {entries : List (String × String)} (h : e ∈ insertEntry key value entries) :
    e = (key, value) ∨ e ∈ entries := by
  induction entries with
  | nil => simpa [insertEntry] using h
  | cons head rest ih =>
    obtain ⟨k, v⟩ := head
    grind [insertEntry]

theorem pairwise_insertEntry {entries : List (String × String)} (key value : String)
    (h : entries.Pairwise fun a b => a.1 < b.1) :
    (insertEntry key value entries).Pairwise fun a b => a.1 < b.1 := by
  induction entries with
  | nil => simp [insertEntry]
  | cons head rest ih =>
    obtain ⟨k, v⟩ := head
    obtain ⟨hHead, hRest⟩ := List.pairwise_cons.1 h
    rw [insertEntry]
    split
    · next hlt =>
      refine List.pairwise_cons.2 ⟨fun a ha => ?_, h⟩
      rcases List.mem_cons.1 ha with rfl | ha
      · exact hlt
      · exact String.lt_trans hlt (hHead a ha)
    · split
      · next heq =>
        subst heq
        exact List.pairwise_cons.2 ⟨hHead, hRest⟩
      · next hge hne =>
        refine List.pairwise_cons.2 ⟨fun a ha => ?_, ih hRest⟩
        rcases eq_or_mem_of_mem_insertEntry ha with rfl | ha
        · grind
        · exact hHead a ha

/-- Put a value under a key, in place of a value that is there. -/
def insert (s : Semantics) (key value : String) : Semantics :=
  ⟨insertEntry key value s.entries, pairwise_insertEntry key value s.sorted⟩

def get? (s : Semantics) (key : String) : Option String :=
  s.entries.lookup key

def contains (s : Semantics) (key : String) : Bool :=
  (s.get? key).isSome

/-- The map with the given entries, of which a later one counts where a key is repeated. -/
def ofList (entries : List (String × String)) : Semantics :=
  entries.foldl (fun s e => s.insert e.1 e.2) empty

def keys (s : Semantics) : List String :=
  s.entries.map Prod.fst

theorem lookup_insertEntry (key value k : String) (entries : List (String × String)) :
    (insertEntry key value entries).lookup k =
      if k = key then some value else entries.lookup k := by
  induction entries with
  | nil => simp [insertEntry]
  | cons head rest ih =>
    obtain ⟨k', v'⟩ := head
    rw [insertEntry]
    split
    · by_cases h : k = key
      · simp [h]
      · have hb : (k == key) = false := by simpa using h
        simp [List.lookup_cons, h, hb]
    · split
      · next heq =>
        subst heq
        by_cases h : k = key
        · simp [h]
        · have hb : (k == key) = false := by simpa using h
          simp [List.lookup_cons, h, hb]
      · next hne =>
        rw [List.lookup_cons, List.lookup_cons, ih]
        by_cases h : k = k'
        · subst h
          simp [Ne.symm hne]
        · have hb : (k == k') = false := by simpa using h
          simp [hb]

@[simp] theorem get?_insert (s : Semantics) (key value k : String) :
    (s.insert key value).get? k = if k = key then some value else s.get? k :=
  lookup_insertEntry key value k s.entries

@[simp] theorem get?_empty (k : String) : empty.get? k = none := rfl

end Semantics

end PlotQuery
