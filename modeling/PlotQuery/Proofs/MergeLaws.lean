import Mathlib.Data.Finset.Card
import Mathlib.Data.List.Sort
import PlotQuery.Chart.Application
import PlotQuery.Proofs.ScoreLaws
import PlotQuery.Proofs.UnionValue

/-! Merging as an operation on maps and penalties. A merged map is told by the values under each
key, and the penalty by the number of keys that are repeated. Neither depends on the order in which
a row of maps is merged. -/
namespace PlotQuery

namespace Semantics

/-- A key in front of all keys of a list is not in the list. -/
theorem lookup_eq_none_of_forall_lt {entries : List (String × String)} {key : String}
    (h : ∀ e ∈ entries, key < e.1) : entries.lookup key = none := by
  induction entries with
  | nil => rfl
  | cons head rest ih =>
      have hHead : (key == head.1) = false := by
        simpa using String.ne_of_lt (h head List.mem_cons_self)
      rw [List.lookup_cons, hHead]
      exact ih fun e he => h e (List.mem_cons_of_mem head he)

/-- In a list with its keys in order, a value is found under a key just if they are an entry
together. -/
theorem lookup_eq_some_iff {entries : List (String × String)}
    (hSorted : entries.Pairwise fun a b => a.1 < b.1) {key value : String} :
    entries.lookup key = some value ↔ (key, value) ∈ entries := by
  induction entries with
  | nil => simp
  | cons head rest ih =>
      obtain ⟨k, v⟩ := head
      obtain ⟨hHead, hRest⟩ := List.pairwise_cons.1 hSorted
      rw [List.lookup_cons, List.mem_cons, Prod.mk.injEq]
      by_cases h : key = k
      · subst h
        have hNone := lookup_eq_none_of_forall_lt hHead
        have hNot : (key, value) ∉ rest := by simp [← ih hRest, hNone]
        simp [hNot, eq_comm]
      · have hb : (key == k) = false := by simpa using h
        simp [hb, h, ih hRest]

theorem get?_eq_some_iff {s : Semantics} {key value : String} :
    s.get? key = some value ↔ (key, value) ∈ s.entries :=
  lookup_eq_some_iff s.sorted

/-- Two maps with the same values under the same keys are the same. Entries stand in the order of
their keys, so they cannot differ in that. -/
theorem ext_get? {s t : Semantics} (h : ∀ key, s.get? key = t.get? key) : s = t := by
  let precedes := fun a b : String × String => a.1 < b.1
  have hIrrefl : Std.Irrefl precedes := ⟨fun a => String.lt_irrefl a.1⟩
  have hAntisymm : Std.Antisymm precedes :=
    ⟨fun a b hab hba => absurd (String.lt_trans hab hba) (String.lt_irrefl a.1)⟩
  have hEntries : s.entries = t.entries := by
    refine List.Pairwise.eq_of_mem_iff s.sorted t.sorted fun e => ?_
    rw [← Prod.mk.eta (p := e), ← get?_eq_some_iff, ← get?_eq_some_iff, h]
  cases s
  cases t
  cases hEntries
  rfl

variable {S : Type} (policy : MergePolicy S)

/-- The value under a key of a merged map, given the values of the two maps. -/
def mergedValue? (key : String) : Option String → Option String → Option String
  | some left, some right => some (mergeValue policy key left right)
  | some left, none => some left
  | none, right => right

theorem mergedValue?_none_right (key : String) (value : Option String) :
    mergedValue? policy key value none = value := by
  cases value <;> rfl

/-- Merging loses no value, and makes none where there is none. -/
theorem isSome_mergedValue? (key : String) (left right : Option String) :
    (mergedValue? policy key left right).isSome = (left.isSome || right.isSome) := by
  cases left <;> cases right <;> rfl

/-- What becomes of three values under a key does not depend on which two are merged first. Each
of the laws of a policy has this property. -/
theorem mergedValue?_assoc (key : String) (a b c : Option String) :
    mergedValue? policy key (mergedValue? policy key a b) c =
      mergedValue? policy key a (mergedValue? policy key b c) := by
  cases a with
  | none => rfl
  | some a =>
      cases b with
      | none => rfl
      | some b =>
          cases c with
          | none => rfl
          | some c => exact congrArg some (mergeValue_assoc policy key a b c)

/-- The keys of a map that are penalised where they are repeated. -/
def penalizedKeys (s : Semantics) : Finset String :=
  s.keys.toFinset.filter fun key => penalizes policy key

/-- How many penalised keys two maps have in common. -/
def repeats (left right : Semantics) : Nat :=
  (penalizedKeys policy left ∩ penalizedKeys policy right).card

theorem contains_iff {s : Semantics} {key : String} :
    s.contains key = true ↔ key ∈ s.keys := by
  rw [contains, Option.isSome_iff_exists, keys, List.mem_map]
  simp only [get?_eq_some_iff, Prod.exists, exists_and_right, exists_eq_right]

theorem mem_penalizedKeys {s : Semantics} {key : String} :
    key ∈ penalizedKeys policy s ↔ penalizes policy key = true ∧ s.contains key = true := by
  rw [penalizedKeys, Finset.mem_filter, List.mem_toFinset, contains_iff, and_comm]

/-- The repetitions can be counted along the entries of the right map, as a key has one entry
there. -/
theorem repeats_eq_length (left right : Semantics) :
    repeats policy left right =
      (right.entries.filter fun e => penalizes policy e.1 && left.contains e.1).length := by
  have hKeys : penalizedKeys policy left ∩ penalizedKeys policy right = ((right.entries.filter
      fun e => penalizes policy e.1 && left.contains e.1).map Prod.fst).toFinset := by
    ext key
    simp only [Finset.mem_inter, mem_penalizedKeys, List.mem_toFinset, List.mem_map,
      List.mem_filter, contains_iff (s := right), keys, Bool.and_eq_true]
    grind
  have hNodup : ((right.entries.filter
      fun e => penalizes policy e.1 && left.contains e.1).map Prod.fst).Nodup :=
    List.pairwise_map.2 ((right.sorted.filter _).imp String.ne_of_lt)
  rw [repeats, hKeys, List.toFinset_card_of_nodup hNodup, List.length_map]

variable [Scalar S]

/-- Merging an entry settles the value under its key, and no other. -/
theorem get?_mergeEntry (merged : Semantics × S) (entry : String × String) (key : String) :
    (mergeEntry policy merged entry).1.get? key =
      if key = entry.1 then mergedValue? policy key (merged.1.get? key) (some entry.2)
      else merged.1.get? key := by
  rw [mergeEntry]
  split
  · next hNone =>
    rw [get?_insert]
    split
    · next hKey => rw [hKey, hNone, mergedValue?]
    · rfl
  · next value hSome =>
    rw [get?_insert]
    split
    · next hKey => rw [hKey, hSome, mergedValue?]
    · rfl

/-- After some entries have been merged, the value under a key is that before them, merged with
that among them. By induction on the entries, which have different keys. -/
theorem get?_foldl_mergeEntry (key : String) {entries : List (String × String)}
    (hSorted : entries.Pairwise fun a b => a.1 < b.1) (merged : Semantics × S) :
    (entries.foldl (mergeEntry policy) merged).1.get? key =
      mergedValue? policy key (merged.1.get? key) (entries.lookup key) := by
  induction entries generalizing merged with
  | nil => exact (mergedValue?_none_right policy key _).symm
  | cons head rest ih =>
      obtain ⟨hHead, hRest⟩ := List.pairwise_cons.1 hSorted
      rw [List.foldl_cons, ih hRest, get?_mergeEntry, List.lookup_cons]
      by_cases h : key = head.1
      · -- No further entry has this key, so its value is settled.
        subst h
        rw [lookup_eq_none_of_forall_lt hHead, mergedValue?_none_right]
        simp
      · have hb : (key == head.1) = false := by simpa using h
        rw [if_neg h, hb]

/-- The value under each key of a merged map comes from the values of the two maps under it. All
other laws of merging follow from this one. -/
theorem get?_merge (left right : Semantics) (key : String) :
    (merge policy left right).1.get? key =
      mergedValue? policy key (left.get? key) (right.get? key) :=
  get?_foldl_mergeEntry policy key right.sorted (left, Scalar.one)

/-- Merging is associative, since it is so under each key. -/
theorem merge_assoc (a b c : Semantics) :
    (merge policy (merge policy a b).1 c).1 = (merge policy a (merge policy b c).1).1 := by
  refine ext_get? fun key => ?_
  rw [get?_merge, get?_merge, get?_merge, get?_merge, mergedValue?_assoc]

theorem contains_merge (left right : Semantics) (key : String) :
    (merge policy left right).1.contains key = (left.contains key || right.contains key) := by
  rw [contains, get?_merge, isSome_mergedValue?, contains, contains]

/-- The factor for a number of repetitions: a power of the penalty for one. -/
def repeatFactor : Nat → S
  | 0 => Scalar.one
  | n + 1 => repeatFactor n * policy.repeatPenalty

/-- The penalised keys of a merged map are those of the two maps. -/
theorem penalizedKeys_merge (left right : Semantics) :
    penalizedKeys policy (merge policy left right).1 =
      penalizedKeys policy left ∪ penalizedKeys policy right := by
  ext key
  simp only [Finset.mem_union, mem_penalizedKeys, contains_merge, Bool.or_eq_true, and_or_left]

/-- Each penalised key of two maps is a key of the merged map or a repetition. So repetitions can
be counted by what is left after merging. -/
theorem card_penalizedKeys_merge_add_repeats (left right : Semantics) :
    (penalizedKeys policy (merge policy left right).1).card + repeats policy left right =
      (penalizedKeys policy left).card + (penalizedKeys policy right).card := by
  rw [penalizedKeys_merge, repeats, Finset.card_union_add_card_inter]

/-- The repetitions in three maps are as many from either side. Either way they are the penalised
keys of the three maps beyond those of the merged one. -/
theorem repeats_assoc (a b c : Semantics) :
    repeats policy a b + repeats policy (merge policy a b).1 c =
      repeats policy b c + repeats policy a (merge policy b c).1 := by
  have hLeft := card_penalizedKeys_merge_add_repeats policy (merge policy a b).1 c
  have hRight := card_penalizedKeys_merge_add_repeats policy a (merge policy b c).1
  have hFirst := card_penalizedKeys_merge_add_repeats policy a b
  have hLast := card_penalizedKeys_merge_add_repeats policy b c
  rw [merge_assoc] at hLeft
  omega

/-- Merging entries puts one more factor to the penalty for each of them that repeats a key. By
induction on the entries, since an entry that has been merged adds no key of a later one. -/
theorem foldl_mergeEntry_snd {entries : List (String × String)}
    (hSorted : entries.Pairwise fun a b => a.1 < b.1) (merged : Semantics × S) (n : Nat)
    (h : merged.2 = repeatFactor policy n) :
    (entries.foldl (mergeEntry policy) merged).2 = repeatFactor policy
      (n + (entries.filter fun e => penalizes policy e.1 && merged.1.contains e.1).length) := by
  induction entries generalizing merged n with
  | nil => exact h
  | cons head rest ih =>
      obtain ⟨hHead, hRest⟩ := List.pairwise_cons.1 hSorted
      have hLater : (rest.filter fun e =>
          penalizes policy e.1 && (mergeEntry policy merged head).1.contains e.1) =
          rest.filter fun e => penalizes policy e.1 && merged.1.contains e.1 := by
        refine List.filter_congr fun e he => ?_
        rw [contains, get?_mergeEntry, if_neg (String.ne_of_lt (hHead e he)).symm, contains]
      rw [List.foldl_cons, List.filter_cons]
      cases hFound : merged.1.get? head.1 with
      | none =>
          have hSame : (mergeEntry policy merged head).2 = repeatFactor policy n := by
            rw [mergeEntry, hFound]
            exact h
          rw [ih hRest _ _ hSame, hLater]
          simp [contains, hFound]
      | some value =>
          cases hPenal : penalizes policy head.1 with
          | false =>
              have hSame : (mergeEntry policy merged head).2 = repeatFactor policy n := by
                simp only [mergeEntry, hFound, hPenal]
                exact h
              rw [ih hRest _ _ hSame, hLater]
              simp
          | true =>
              have hNext : (mergeEntry policy merged head).2 = repeatFactor policy (n + 1) := by
                simp only [mergeEntry, hFound, hPenal, if_true, h, repeatFactor]
              rw [ih hRest _ _ hNext, hLater]
              simp [contains, hFound, Nat.add_assoc, Nat.add_comm 1]

/-- The penalty of a merge is the factor for the number of its repetitions. Factors are multiplied
one by one, so this holds for any scalars. -/
theorem merge_snd (left right : Semantics) :
    (merge policy left right).2 = repeatFactor policy (repeats policy left right) := by
  have hFold := foldl_mergeEntry_snd policy right.sorted (left, Scalar.one) 0 rfl
  rw [merge, hFold, repeats_eq_length, Nat.zero_add]

theorem merge_empty_right (s : Semantics) : merge policy s empty = (s, Scalar.one) :=
  rfl

theorem merge_empty_left (s : Semantics) : merge policy empty s = (s, Scalar.one) := by
  have hMap : (merge policy empty s).1 = s := by
    refine ext_get? fun key => ?_
    rw [get?_merge, get?_empty, mergedValue?]
  have hPenalty : (merge policy empty s).2 = Scalar.one := by
    have hKeys : penalizedKeys policy empty = ∅ := rfl
    rw [merge_snd, repeats, hKeys, Finset.empty_inter, Finset.card_empty, repeatFactor]
  exact Prod.ext hMap hPenalty

/-- In exact arithmetic the factors for repetitions multiply. -/
theorem repeatFactor_add [ExactScalar S] (m n : Nat) :
    (repeatFactor policy (m + n) : S) = repeatFactor policy m * repeatFactor policy n := by
  induction n with
  | zero => exact (ExactScalar.mul_one _).symm
  | succ n ih => rw [← Nat.add_assoc, repeatFactor, ih, repeatFactor, ExactScalar.mul_assoc]

/-- The trees that rules without actions build over a row of parts, whatever the order in which they
are put together. With a tree come the semantics of its parts from left to right and the product of
the penalties in all its merges. -/
inductive Brackets (settings : Settings S) : List Semantics → Derivation S → S → Prop where
  | part (d : Derivation S) : Brackets settings [d.semantics] d Scalar.one
  | join {rule : Rule} {size : Nat} {noise : Noise} {first second d : Derivation S}
      {before after : List Semantics} {left right : S}
      (firstBrackets : Brackets settings before first left)
      (secondBrackets : Brackets settings after second right)
      (actionless : rule.action = none)
      (joined : rule.deriveFromChildren? settings size noise first second = some d) :
      Brackets settings (before ++ after) d
        (left * right * (merge settings.merge first.semantics second.semantics).2)

/-- The merge of a row of maps, from right to left. -/
def mergeAll : List Semantics → Semantics
  | [] => empty
  | s :: rest => (merge policy s (mergeAll rest)).1

/-- A row in two parts is merged as the parts are. By associativity. -/
theorem mergeAll_append (before after : List Semantics) :
    mergeAll policy (before ++ after) =
      (merge policy (mergeAll policy before) (mergeAll policy after)).1 := by
  induction before with
  | nil => rw [List.nil_append, mergeAll, merge_empty_left]
  | cons s before ih => rw [List.cons_append, mergeAll, mergeAll, ih, merge_assoc]

variable {settings : Settings S} {parts : List Semantics} {d d' : Derivation S} {p p' : S}

/-- However a row of parts is put together, its semantics is that of the row. -/
theorem Brackets.semantics_eq (h : Brackets settings parts d p) :
    d.semantics = mergeAll settings.merge parts := by
  induction h with
  | part d => rfl
  | join _ _ actionless joined ihFirst ihSecond =>
      rw [mergeAll_append, ← ihFirst, ← ihSecond]
      simp only [Rule.deriveFromChildren?, actionless, applyAction, Option.map_some,
        Option.some.injEq] at joined
      subst joined
      rfl

/-- The penalties in a tree come from as many repetitions as there are penalised keys in its parts
beyond those that are left in its semantics. This number does not depend on how the tree is put
together. -/
theorem Brackets.penalty_eq [ExactScalar S] (h : Brackets settings parts d p) :
    ∃ n, p = repeatFactor settings.merge n ∧
      (penalizedKeys settings.merge d.semantics).card + n =
        (parts.map fun s => (penalizedKeys settings.merge s).card).sum := by
  induction h with
  | part d => exact ⟨0, rfl, by simp⟩
  | @join rule size noise first second d before after left right hFirst hSecond actionless joined
      ihFirst ihSecond =>
      obtain ⟨m, rfl, hm⟩ := ihFirst
      obtain ⟨n, rfl, hn⟩ := ihSecond
      have hAll := (Brackets.join hFirst hSecond actionless joined).semantics_eq
      rw [mergeAll_append, ← hFirst.semantics_eq, ← hSecond.semantics_eq] at hAll
      have hCard := card_penalizedKeys_merge_add_repeats settings.merge first.semantics
        second.semantics
      refine ⟨m + n + repeats settings.merge first.semantics second.semantics, ?_, ?_⟩
      · rw [repeatFactor_add, repeatFactor_add, merge_snd]
      · rw [hAll, List.map_append, List.sum_append]
        omega

/-- Merging is associative, and the map without entries is neutral. The penalties on both sides come
from equally many repetitions, and so have the same product where products are exact. A row of parts
has the same semantics and the same penalty however it is put together. -/
theorem merge_assoc_and_brackets_unique (settings : Settings S) :
    (∀ s, merge settings.merge s empty = (s, Scalar.one) ∧
      merge settings.merge empty s = (s, Scalar.one)) ∧
    (∀ a b c, (merge settings.merge (merge settings.merge a b).1 c).1 =
      (merge settings.merge a (merge settings.merge b c).1).1) ∧
    (∀ a b, (merge settings.merge a b).2 =
      repeatFactor settings.merge (repeats settings.merge a b)) ∧
    (∀ a b c, repeats settings.merge a b +
        repeats settings.merge (merge settings.merge a b).1 c =
      repeats settings.merge b c + repeats settings.merge a (merge settings.merge b c).1) ∧
    (ExactScalar S → ∀ a b c, (merge settings.merge a b).2 *
        (merge settings.merge (merge settings.merge a b).1 c).2 =
      (merge settings.merge b c).2 * (merge settings.merge a (merge settings.merge b c).1).2) ∧
    ∀ parts d d' p p', Brackets settings parts d p → Brackets settings parts d' p' →
      d.semantics = d'.semantics ∧ (ExactScalar S → p = p') := by
  refine ⟨fun s => ⟨merge_empty_right _ s, merge_empty_left _ s⟩, merge_assoc _, merge_snd _,
    repeats_assoc _, ?_, ?_⟩
  · intro _ a b c
    rw [merge_snd, merge_snd, merge_snd, merge_snd, ← repeatFactor_add, ← repeatFactor_add,
      repeats_assoc]
  · intro parts d d' p p' h h'
    have hSame : d.semantics = d'.semantics := h.semantics_eq.trans h'.semantics_eq.symm
    refine ⟨hSame, fun _ => ?_⟩
    obtain ⟨n, rfl, hn⟩ := h.penalty_eq
    obtain ⟨n', rfl, hn'⟩ := h'.penalty_eq
    rw [hSame] at hn
    obtain rfl : n = n' := by omega
    rfl

/-- Three parts of a query, of which the first two repeat a penalised key. -/
def histogramParts : List Semantics :=
  [ofList [("ColName", "Age"), ("histobins", "10")],
    ofList [("ColName", "Income;Age"), ("histobins", "20"), ("filter_v", "1")],
    ofList [("filter_v", "2")]]

/-- Three parts put together from the left and from the right, with one repetition among them. -/
theorem merge_assoc_and_brackets_unique_histogramParts :
    ∃ (d d' : Derivation ℚ) (p p' : ℚ),
      Brackets Settings.standard histogramParts d p ∧
      Brackets Settings.standard histogramParts d' p' ∧
      (d.children.map fun child => child.children.length) = [2, 0] ∧
      (d'.children.map fun child => child.children.length) = [0, 2] ∧
      p = 4 / 5 ∧
      d.semantics =
        ofList [("ColName", "Age;Income"), ("histobins", "20"), ("filter_v", "1;2")] ∧
      d.semantics = d'.semantics ∧ p = p' := by
  let rule : Rule := ⟨0, .binary 0 0, none⟩
  let part (i : Nat) : Derivation ℚ := .leaf 0 (histogramParts.getD i empty) 1
  have hLeft := Brackets.join (Brackets.join (.part (part 0)) (.part (part 1))
    (rfl : rule.action = none)
    (rfl : rule.deriveFromChildren? Settings.standard 2 Noise.none _ _ = some _)) (.part (part 2))
    (rfl : rule.action = none)
    (rfl : rule.deriveFromChildren? Settings.standard 3 Noise.none _ _ = some _)
  have hRight := Brackets.join (.part (part 0)) (Brackets.join (.part (part 1)) (.part (part 2))
    (rfl : rule.action = none)
    (rfl : rule.deriveFromChildren? Settings.standard 2 Noise.none _ _ = some _))
    (rfl : rule.action = none)
    (rfl : rule.deriveFromChildren? Settings.standard 3 Noise.none _ _ = some _)
  have hSame := (merge_assoc_and_brackets_unique (Settings.standard : Settings ℚ)).2.2.2.2.2
    histogramParts _ _ _ _ hLeft hRight
  exact ⟨_, _, _, _, hLeft, hRight, rfl, rfl, by decide +kernel, by decide +kernel, hSame.1,
    hSame.2 inferInstance⟩

end Semantics

end PlotQuery
