import PlotQuery.Proofs.MergeLaws

/-! Merging key by key. Entries with different keys do not touch each other, so the entries of the
right map may be taken in any order, and what becomes of a key is told by the two maps before the
merge. -/
namespace PlotQuery

/-- The members of a list, each once, in the order of their first places in it. -/
structure FirstAppearances (all members : List String) : Prop where
  mem_iff (member : String) : member ∈ members ↔ member ∈ all
  ordered : members.Pairwise fun a b => all.idxOf a < all.idxOf b

/-- Removing repetitions keeps the order in which members first appear. -/
theorem firstAppearances_eraseDups (all : List String) :
    FirstAppearances all all.eraseDups where
  mem_iff _ := List.mem_eraseDups
  ordered := by
    induction all using List.reverseRecOn with
    | nil => exact List.Pairwise.nil
    | append_singleton all last ih =>
        have hPlace {a : String} (ha : a ∈ all.eraseDups) :
            (all ++ [last]).idxOf a = all.idxOf a :=
          List.idxOf_append_of_mem (List.mem_eraseDups.1 ha)
        have hOrdered : all.eraseDups.Pairwise fun a b =>
            (all ++ [last]).idxOf a < (all ++ [last]).idxOf b :=
          ih.imp_of_mem fun ha hb h => by rwa [hPlace ha, hPlace hb]
        rw [List.eraseDups_append, List.removeAll]
        by_cases hLast : last ∈ all
        · simpa [hLast] using hOrdered
        · rw [List.filter_cons_of_pos (by simpa using hLast), List.filter_nil]
          refine List.pairwise_append.2 ⟨hOrdered, List.pairwise_singleton _ _, fun a ha b hb => ?_⟩
          obtain rfl := List.mem_singleton.1 hb
          rw [hPlace ha, List.idxOf_append_of_notMem hLast, List.idxOf_cons_self]
          exact List.idxOf_lt_length_iff.2 (List.mem_eraseDups.1 ha)

namespace Semantics

variable {S : Type} (policy : MergePolicy S)

theorem get?_eq_none_iff {s : Semantics} {key : String} : s.get? key = none ↔ key ∉ s.keys := by
  rw [← contains_iff, contains, Option.not_isSome_iff_eq_none]

/-- The keys of both maps whose repetition is penalised. -/
def repeatedKeys (left right : Semantics) : Finset String :=
  (left.keys.toFinset ∩ right.keys.toFinset).filter fun key =>
    key ≠ valueKey ∧ key ∈ policy.nonRepeated

/-- Repetitions are counted once for each key, since a key has one entry. -/
theorem repeats_eq_card_repeatedKeys (left right : Semantics) :
    repeats policy left right = (repeatedKeys policy left right).card := by
  rw [repeats]
  congr 1
  ext key
  simp only [repeatedKeys, penalizedKeys, penalizes, Finset.mem_inter, Finset.mem_filter,
    List.mem_toFinset, Bool.and_eq_true, bne_iff_ne, List.contains_iff_mem]
  tauto

variable [Scalar S]

/-- An entry that is merged changes no key but its own. -/
theorem get?_mergeEntry_of_ne {entry : String × String} {key : String} (h : key ≠ entry.1)
    (merged : Semantics × S) :
    (mergeEntry policy merged entry).1.get? key = merged.1.get? key := by
  rw [get?_mergeEntry, if_neg h]

/-- An entry is penalised if its key is there already and must not be repeated. -/
theorem snd_mergeEntry (merged : Semantics × S) (entry : String × String) :
    (mergeEntry policy merged entry).2 =
      if (merged.1.get? entry.1).isSome ∧ penalizes policy entry.1 = true then
        merged.2 * policy.repeatPenalty
      else merged.2 := by
  rw [mergeEntry]
  split <;> simp [*]

/-- Entries with different keys may change places. Penalties are factors and the order in which
they count does not matter. -/
theorem mergeEntry_comm {entry entry' : String × String} (h : entry.1 ≠ entry'.1)
    (merged : Semantics × S) :
    mergeEntry policy (mergeEntry policy merged entry) entry' =
      mergeEntry policy (mergeEntry policy merged entry') entry := by
  refine Prod.ext (ext_get? fun key => ?_) ?_
  · by_cases hFirst : key = entry.1
    · subst hFirst
      rw [get?_mergeEntry_of_ne policy h, get?_mergeEntry, get?_mergeEntry,
        get?_mergeEntry_of_ne policy h]
    · rw [get?_mergeEntry_of_ne policy hFirst, get?_mergeEntry,
        get?_mergeEntry_of_ne policy hFirst, get?_mergeEntry]
  · rw [snd_mergeEntry, snd_mergeEntry, snd_mergeEntry, snd_mergeEntry,
      get?_mergeEntry_of_ne policy h, get?_mergeEntry_of_ne policy h.symm]
    split <;> split <;> rfl

/-- A map has one entry for each key. -/
theorem eq_of_mem_entries_of_fst_eq {s : Semantics} {entry entry' : String × String}
    (h : entry ∈ s.entries) (h' : entry' ∈ s.entries) (hKey : entry.1 = entry'.1) :
    entry = entry' := by
  have hFirst : s.get? entry.1 = some entry.2 := get?_eq_some_iff.2 h
  have hSecond : s.get? entry.1 = some entry'.2 := hKey ▸ get?_eq_some_iff.2 h'
  exact Prod.ext hKey (Option.some.inj (hFirst.symm.trans hSecond))

/-- The entries of the right map may be taken in any order. Their keys differ, so any two of them
may change places. -/
theorem foldl_mergeEntry_of_perm (left right : Semantics) {entries : List (String × String)}
    (h : entries.Perm right.entries) :
    entries.foldl (mergeEntry policy) (left, Scalar.one) = merge policy left right := by
  refine h.foldl_eq' (fun entry hEntry entry' hEntry' merged => ?_) _
  by_cases hKey : entry.1 = entry'.1
  · rw [eq_of_mem_entries_of_fst_eq (h.subset hEntry) (h.subset hEntry') hKey]
  · exact mergeEntry_comm policy hKey merged

/-- What becomes of a key is told by the two maps before the merge, and so is the penalty: the merged
map has the keys of both, a value under a key of one map stays, two values under a common key are
merged by the first law of the policy that has the key, and every repeated key that is penalised
counts once. The order in which entries are taken has no part in it. -/
theorem merge_keywise (left right : Semantics) :
    (∀ entries : List (String × String), entries.Perm right.entries →
      entries.foldl (mergeEntry policy) (left, Scalar.one) = merge policy left right) ∧
    (∀ key, key ∈ (merge policy left right).1.keys ↔ key ∈ left.keys ∨ key ∈ right.keys) ∧
    (∀ key, key ∉ right.keys → (merge policy left right).1.get? key = left.get? key) ∧
    (∀ key, key ∉ left.keys → (merge policy left right).1.get? key = right.get? key) ∧
    (∀ key a b, left.get? key = some a → right.get? key = some b →
      (key ∈ policy.unionKeys → ∃ members,
        FirstAppearances (Text.split ';' a ++ Text.split ';' b) members ∧
        (merge policy left right).1.get? key = some (Text.join ";" members)) ∧
      (key ∉ policy.unionKeys → key ∈ policy.concatKeys →
        (merge policy left right).1.get? key = some (a ++ ";" ++ b)) ∧
      (key ∉ policy.unionKeys → key ∉ policy.concatKeys →
        (merge policy left right).1.get? key = some b)) ∧
    (merge policy left right).2 = repeatFactor policy (repeatedKeys policy left right).card := by
  refine ⟨fun entries => foldl_mergeEntry_of_perm policy left right, fun key => ?_,
    fun key hKey => ?_, fun key hKey => ?_, fun key a b hLeft hRight => ?_, ?_⟩
  · rw [← contains_iff, contains_merge, Bool.or_eq_true, contains_iff, contains_iff]
  · rw [get?_merge, get?_eq_none_iff.2 hKey, mergedValue?_none_right]
  · rw [get?_merge, get?_eq_none_iff.2 hKey, mergedValue?]
  · rw [get?_merge, hLeft, hRight, mergedValue?, mergeValue]
    refine ⟨fun hUnion => ?_, fun hUnion hConcat => ?_, fun hUnion hConcat => ?_⟩
    · rw [if_pos (List.contains_iff_mem.2 hUnion)]
      exact ⟨_, firstAppearances_eraseDups _, rfl⟩
    · rw [if_neg (mt List.contains_iff_mem.1 hUnion), if_pos (List.contains_iff_mem.2 hConcat)]
      rfl
    · rw [if_neg (mt List.contains_iff_mem.1 hUnion), if_neg (mt List.contains_iff_mem.1 hConcat)]
  · rw [merge_snd, repeats_eq_card_repeatedKeys]

/-- A policy whose sets of keys overlap. -/
def overlappingPolicy : MergePolicy ℚ where
  nonRepeated := ["Value", "ColName", "histobins"]
  repeatPenalty := 4 / 5
  unionKeys := ["ColName"]
  concatKeys := ["ColName", "filter_v"]

/-- A map with keys of all kinds. -/
def scatterPart : Semantics :=
  ofList [("ColName", "Age;Income"), ("Value", "scatter"), ("filter_v", "1"), ("type", "scatter")]

/-- A map that repeats most of these keys. -/
def histogramPart : Semantics :=
  ofList [("ColName", "Income;Year"), ("Value", "bins"), ("filter_v", "1"), ("histobins", "10"),
    ("type", "histogram")]

/-- The united key is penalised, `Value` is not, and `histobins` is not repeated. So one
repetition counts. -/
theorem merge_keywise_histogramPart :
    histogramPart.entries.reverse.Perm histogramPart.entries ∧
    histogramPart.entries.reverse.foldl (mergeEntry overlappingPolicy)
        (scatterPart, Scalar.one) = merge overlappingPolicy scatterPart histogramPart ∧
    (merge overlappingPolicy scatterPart histogramPart).1 =
      ofList [("ColName", "Age;Income;Year"), ("Value", "bins"), ("filter_v", "1;1"),
        ("histobins", "10"), ("type", "histogram")] ∧
    "histobins" ∉ scatterPart.keys ∧
    (merge overlappingPolicy scatterPart histogramPart).1.get? "histobins" =
      histogramPart.get? "histobins" ∧
    repeatedKeys overlappingPolicy scatterPart histogramPart = {"ColName"} ∧
    (merge overlappingPolicy scatterPart histogramPart).2 = 4 / 5 := by
  have hReversed := List.reverse_perm histogramPart.entries
  have hNew : "histobins" ∉ scatterPart.keys := by decide +kernel
  have hRepeated : repeatedKeys overlappingPolicy scatterPart histogramPart = {"ColName"} := by
    decide +kernel
  obtain ⟨hOrder, -, -, hRight, -, hPenalty⟩ :=
    merge_keywise overlappingPolicy scatterPart histogramPart
  refine ⟨hReversed, hOrder _ hReversed, by decide +kernel, hNew, hRight _ hNew, hRepeated, ?_⟩
  rw [hPenalty, hRepeated, Finset.card_singleton]
  decide +kernel

end Semantics

end PlotQuery
