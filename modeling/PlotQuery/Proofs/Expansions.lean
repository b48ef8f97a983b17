import Mathlib.Data.List.Forall2
import PlotQuery.Grammar.Production

/-! The rules of a production. Each choice of slots that leaves any gives one rule, and a reference
goes with the slot that it refers to. Positions tell which slot a term comes from, so no slot that has
been left out needs to be counted. A production is read exactly where its parts are. -/
namespace PlotQuery

theorem bind_eq_ok_iff {ε α β : Type} {x : Except ε α} {f : α → Except ε β} {b : β} :
    (x >>= f) = .ok b ↔ ∃ a, x = .ok a ∧ f a = .ok b := by
  cases x <;> simp [bind, Except.bind]

theorem map_eq_ok_iff {ε α β : Type} {x : Except ε α} {f : α → β} {b : β} :
    x.map f = .ok b ↔ ∃ a, x = .ok a ∧ f a = b := by
  cases x <;> simp [Except.map]

/-- Reading a list succeeds where reading each of its members does. The results stand in the order
of the members. -/
theorem mapM_eq_ok_iff {ε α β : Type} {f : α → Except ε β} {xs : List α} {ys : List β} :
    xs.mapM f = .ok ys ↔ List.Forall₂ (fun x y => f x = .ok y) xs ys := by
  induction xs generalizing ys with
  | nil => simp [pure, Except.pure, eq_comm]
  | cons x xs ih =>
      simp only [List.mapM_cons, bind_eq_ok_iff, ih, pure, Except.pure, Except.ok.injEq]
      cases ys with
      | nil => simp
      | cons y ys => simp

theorem exists_mem_of_forall₂ {α β : Type} {R : α → β → Prop} {xs : List α} {ys : List β}
    (h : List.Forall₂ R xs ys) {y : β} (hMem : y ∈ ys) : ∃ x ∈ xs, R x y := by
  induction h with
  | nil => cases hMem
  | @cons x _ xs _ hFirst _ ih =>
      rcases List.mem_cons.1 hMem with rfl | hMem
      · exact ⟨x, List.mem_cons_self, hFirst⟩
      · obtain ⟨x', hMem', hRest⟩ := ih hMem
        exact ⟨x', List.mem_cons_of_mem x hMem', hRest⟩

/-- A list is read where each of its members fits, and what is read from it is what the members
stand for. A member that fits stands for something, so none is skipped. -/
theorem mapM_eq_ok_iff_filterMap {ε α β : Type} {f : α → Except ε β} {g : α → Option β}
    {P : α → Prop} {xs : List α} {ys : List β}
    (hRead : ∀ x ∈ xs, ∀ y, f x = .ok y ↔ P x ∧ g x = some y)
    (hSome : ∀ x ∈ xs, P x → (g x).isSome = true) :
    xs.mapM f = .ok ys ↔ (∀ x ∈ xs, P x) ∧ ys = xs.filterMap g := by
  induction xs generalizing ys with
  | nil => simp [pure, Except.pure, eq_comm]
  | cons x xs ih =>
      rw [List.forall_mem_cons] at hRead hSome
      simp only [List.mapM_cons, bind_eq_ok_iff, hRead.1, ih hRead.2 hSome.2, pure, Except.pure,
        Except.ok.injEq, List.forall_mem_cons]
      constructor
      · rintro ⟨y, ⟨hFirst, hValue⟩, _, ⟨hRest, rfl⟩, rfl⟩
        exact ⟨⟨hFirst, hRest⟩, by rw [List.filterMap_cons_some hValue]⟩
      · rintro ⟨⟨hFirst, hRest⟩, rfl⟩
        obtain ⟨y, hValue⟩ := Option.isSome_iff_exists.1 (hSome.1 hFirst)
        exact ⟨y, ⟨hFirst, hValue⟩, _, ⟨hRest, rfl⟩, by rw [List.filterMap_cons_some hValue]⟩

/-- Lists whose members correspond are read alike, less the members that are skipped in both. By
induction on how the members correspond. -/
theorem mapM_filter_congr {ε α β γ : Type} {R : α → β → Prop} {p : α → Bool} {q : β → Bool}
    {f : α → Except ε γ} {g : β → Except ε γ} {xs : List α} {ys : List β}
    (h : List.Forall₂ R xs ys) (hFilter : ∀ x y, R x y → p x = q y)
    (hRead : ∀ x y, R x y → f x = g y) : (xs.filter p).mapM f = (ys.filter q).mapM g := by
  induction h with
  | nil => rfl
  | cons hFirst _ ih =>
      simp only [List.filter_cons, hFilter _ _ hFirst]
      split
      · rw [List.mapM_cons, List.mapM_cons, hRead _ _ hFirst, ih]
      · exact ih

namespace Production

/-- The choices of terms with the positions of their slots. A slot that may be left out is first left
out and then kept. -/
def selections : List (Slot × Nat) → List (List (Term × Nat))
  | [] => [[]]
  | (slot, position) :: slots =>
    (if slot.optional then selections slots else []) ++
      (selections slots).map ((slot.term, position) :: ·)

/-- The assignment for a choice of terms. A reference follows its term, and goes if that is left
out. -/
def follow (selection : List (Term × Nat)) (action : Action) : Option Action :=
  match action.value with
  | .literal _ => some action
  | .child index property =>
    (selection.findIdx? (·.2 == index)).map fun place => ⟨action.key, .child place property⟩

/-- A choice of slots says which terms are kept and at which place the term of a position stands. -/
structure Selects (slots : List Slot) (first : Nat) (mask : List Bool)
    (selection : List (Term × Nat)) : Prop where
  terms : present slots mask = selection.map Prod.fst
  positions : ∀ entry ∈ selection, first ≤ entry.2
  place : ∀ i, selection.findIdx? (·.2 == first + i) =
    if mask[i]?.getD false then some (i - (mask.take i).count false) else none

/-- A choice of the later slots is a choice of all slots that leaves out the first one. -/
theorem Selects.absent {slots : List Slot} {first : Nat} {mask : List Bool}
    {selection : List (Term × Nat)} (h : Selects slots (first + 1) mask selection) (slot : Slot) :
    Selects (slot :: slots) first (false :: mask) selection where
  terms := h.terms
  positions entry hEntry := Nat.le_trans (Nat.le_succ first) (h.positions entry hEntry)
  place i := by
    cases i with
    | zero =>
        simp only [Nat.add_zero, List.getElem?_cons_zero, Option.getD_some, Bool.false_eq_true,
          if_false, List.findIdx?_eq_none_iff, beq_eq_false_iff_ne]
        intro entry hEntry
        have hLater := h.positions entry hEntry
        omega
    | succ i =>
        rw [show first + (i + 1) = first + 1 + i by omega, h.place i]
        simp only [List.getElem?_cons_succ, List.take_succ_cons, List.count_cons_self]
        congr 2
        omega

/-- A choice of the later slots, with the first one in front of it, is a choice of all slots. -/
theorem Selects.kept {slots : List Slot} {first : Nat} {mask : List Bool}
    {selection : List (Term × Nat)} (h : Selects slots (first + 1) mask selection) (slot : Slot) :
    Selects (slot :: slots) first (true :: mask) ((slot.term, first) :: selection) where
  terms := congrArg (slot.term :: ·) h.terms
  positions := by
    intro entry hEntry
    rcases List.mem_cons.1 hEntry with rfl | hEntry
    · exact Nat.le_refl _
    · exact Nat.le_trans (Nat.le_succ first) (h.positions entry hEntry)
  place i := by
    cases i with
    | zero => simp [List.findIdx?_cons]
    | succ i =>
        have hCount := List.count_le_length (a := false) (l := mask.take i)
        rw [List.length_take] at hCount
        rw [List.findIdx?_cons, if_neg (by simp), show first + (i + 1) = first + 1 + i by omega,
          h.place i]
        simp only [List.getElem?_cons_succ, List.take_succ_cons]
        split
        · simp
          omega
        · rfl

/-- The choices of slots that are present go with the choices of terms, one by one and in
order. -/
theorem forall₂_selects (slots : List Slot) (first : Nat) :
    List.Forall₂ (Selects slots first) (expansions slots) (selections (slots.zipIdx first)) := by
  induction slots generalizing first with
  | nil => exact .cons ⟨rfl, by simp, by simp⟩ .nil
  | cons slot slots ih =>
      have hAbsent : List.Forall₂ (Selects (slot :: slots) first)
          ((expansions slots).map (false :: ·)) (selections (slots.zipIdx (first + 1))) :=
        List.forall₂_map_left_iff.2 ((ih (first + 1)).imp fun _ _ h => h.absent slot)
      have hKept : List.Forall₂ (Selects (slot :: slots) first)
          ((expansions slots).map (true :: ·))
          ((selections (slots.zipIdx (first + 1))).map ((slot.term, first) :: ·)) :=
        List.forall₂_map_left_iff.2
          (List.forall₂_map_right_iff.2 ((ih (first + 1)).imp fun _ _ h => h.kept slot))
      rw [expansions, List.zipIdx_cons, selections]
      by_cases hOptional : slot.optional
      · simpa [hOptional] using List.rel_append hAbsent hKept
      · simpa [hOptional] using hKept

/-- Counting the slots that are left out gives the place of the slot that is referred to. A
reference to a slot that is left out refers to nothing. -/
theorem Selects.reindex_eq {slots : List Slot} {mask : List Bool} {selection : List (Term × Nat)}
    (h : Selects slots 0 mask selection) (action : Action) :
    reindex mask action = follow selection action := by
  obtain ⟨key, value⟩ := action
  cases value with
  | literal text => rfl
  | child index property =>
      have hPlace := h.place index
      rw [Nat.zero_add] at hPlace
      simp only [reindex, follow, hPlace]
      split <;> rfl

/-- The body for a row of terms. There is none for more than two terms that are not all literals. -/
def body? (terms : List Term) : Option TermBody :=
  if terms.all fun term => (literal? term).isSome then
    some (.words (terms.filterMap literal?))
  else
    match terms with
    | [child] => some (.unary child)
    | [left, right] => some (.binary left right)
    | _ => none

/-- An alternative as it is written. -/
structure Row where
  slots : List Slot
  action : Option Action
  deriving DecidableEq, Repr

namespace Row

/-- The choices of slots that leave any term. -/
def choices (row : Row) : List (List (Term × Nat)) :=
  (selections row.slots.zipIdx).filter (!·.isEmpty)

def actionOf (row : Row) (selection : List (Term × Nat)) : Option Action :=
  row.action.bind (follow selection)

/-- The rules of an alternative, one for each choice of slots. -/
def rules (row : Row) : List TermRule :=
  row.choices.filterMap fun selection =>
    (body? (selection.map Prod.fst)).map fun body => ⟨body, row.actionOf selection⟩

end Row

end Production

def Action.refers (action : Action) : Bool :=
  match action.value with
  | .literal _ => false
  | .child _ _ => true

namespace Production

/-- Whether a choice of terms makes a rule. Literals alone have no child to refer to, and any other
choice has at most two terms. -/
def Suits (terms : List Term) (action : Option Action) : Prop :=
  if terms.all fun term => (literal? term).isSome then ∀ assignment ∈ action, assignment.refers = false
  else terms.length ≤ 2

/-- What an alternative has to be like to have rules: a reference is to one of its slots, and every
choice of slots makes a rule. -/
structure Row.Fits (row : Row) : Prop where
  reference : ∀ key index property, row.action = some ⟨key, .child index property⟩ →
    index < row.slots.length
  choice : ∀ selection ∈ row.choices, Suits (selection.map Prod.fst) (row.actionOf selection)

instance (terms : List Term) (action : Option Action) : Decidable (Suits terms action) :=
  inferInstanceAs (Decidable (if terms.all fun term => (literal? term).isSome then
    ∀ assignment ∈ action, assignment.refers = false else terms.length ≤ 2))

/-- Any choice of terms that makes a rule has a body, if there is a term at all. -/
theorem isSome_body? {terms : List Term} {action : Option Action} (hTerms : terms ≠ [])
    (hSuits : Suits terms action) : (body? terms).isSome = true := by
  unfold body?
  by_cases hAll : terms.all (fun term => (literal? term).isSome) = true
  · rw [if_pos hAll]
    rfl
  · rw [Suits, if_neg hAll] at hSuits
    rw [if_neg hAll]
    match terms, hTerms, hSuits with
    | [child], _, _ => rfl
    | [left, right], _, _ => rfl

/-- A choice of terms that makes a rule makes the rule for its body. All other choices are
errors. -/
theorem ruleOf_eq_ok_iff {production : String} {terms : List Term} {action : Option Action}
    {rule : TermRule} (hTerms : terms ≠ []) :
    ruleOf production terms action = .ok rule ↔
      Suits terms action ∧ (body? terms).map (fun body => ⟨body, action⟩) = some rule := by
  unfold ruleOf Suits body?
  by_cases hAll : terms.all (fun term => (literal? term).isSome) = true
  · rw [if_pos hAll, if_pos hAll, if_pos hAll]
    match action with
    | none => simp [pure, Except.pure]
    | some ⟨key, .literal text⟩ => simp [pure, Except.pure, Action.refers]
    | some ⟨key, .child index property⟩ => simp [throw, throwThe, MonadExceptOf.throw, Action.refers]
  · rw [if_neg hAll, if_neg hAll, if_neg hAll]
    match terms with
    | [] => exact absurd rfl hTerms
    | [child] => simp [pure, Except.pure]
    | [left, right] => simp [pure, Except.pure]
    | first :: second :: third :: terms => simp [throw, throwThe, MonadExceptOf.throw]

/-- No reference dangles if the number that is referred to is one of a slot, present or not. -/
theorem danglingReference?_eq_none_iff {row : Row} :
    danglingReference? row.slots.length row.action = none ↔
      ∀ key index property, row.action = some ⟨key, .child index property⟩ →
        index < row.slots.length := by
  obtain ⟨slots, action⟩ := row
  match action with
  | none => simp [danglingReference?]
  | some ⟨key, .literal text⟩ => simp [danglingReference?]
  | some ⟨key, .child index property⟩ => simp [danglingReference?]

instance (row : Row) : Decidable row.Fits :=
  decidable_of_iff (danglingReference? row.slots.length row.action = none ∧
      ∀ selection ∈ row.choices, Suits (selection.map Prod.fst) (row.actionOf selection))
    (danglingReference?_eq_none_iff.and Iff.rfl |>.trans
      ⟨fun h => ⟨h.1, h.2⟩, fun h => ⟨h.reference, h.choice⟩⟩)

/-- The choices by the slots that are present give the rules that the choices of terms give. The
actions correspond as well, though the one counts slots and the other looks for the place of a
term. -/
theorem mapM_expansions (production : String) (row : Row) :
    ((expansions row.slots).filter fun mask => !(present row.slots mask).isEmpty).mapM
        (fun mask => ruleOf production (present row.slots mask) (row.action.bind (reindex mask))) =
      row.choices.mapM fun selection =>
        ruleOf production (selection.map Prod.fst) (row.actionOf selection) := by
  apply mapM_filter_congr (forall₂_selects row.slots 0)
  · intro mask selection h
    rw [h.terms, List.isEmpty_map]
  · intro mask selection h
    rw [h.terms, Row.actionOf, funext h.reindex_eq]

/-- The rules of an alternative are read if each of its choices makes a rule. -/
theorem Row.mapM_choices_eq_ok_iff {production : String} {row : Row} {rules : List TermRule} :
    (row.choices.mapM fun selection =>
        ruleOf production (selection.map Prod.fst) (row.actionOf selection)) = .ok rules ↔
      (∀ selection ∈ row.choices, Suits (selection.map Prod.fst) (row.actionOf selection)) ∧
        rules = row.rules := by
  have hTerms : ∀ selection ∈ row.choices, selection.map Prod.fst ≠ [] := by
    intro selection hSelection
    simpa [choices] using (List.mem_filter.1 hSelection).2
  apply mapM_eq_ok_iff_filterMap
  · exact fun selection hSelection rule => ruleOf_eq_ok_iff (hTerms selection hSelection)
  · intro selection hSelection hSuits
    rw [Option.isSome_map]
    exact isSome_body? (hTerms selection hSelection) hSuits

/-- An alternative fits together just if its choices can be read by which slots are present, as
the reader does. -/
theorem Row.fits_iff {production : String} {row : Row} {rules : List TermRule} :
    row.Fits ∧ rules = row.rules ↔
      danglingReference? row.slots.length row.action = none ∧
        ((expansions row.slots).filter fun mask => !(present row.slots mask).isEmpty).mapM
          (fun mask => ruleOf production (present row.slots mask) (row.action.bind (reindex mask))) =
            .ok rules := by
  rw [mapM_expansions, mapM_choices_eq_ok_iff, danglingReference?_eq_none_iff]
  exact ⟨fun ⟨h, hRules⟩ => ⟨h.reference, h.choice, hRules⟩,
    fun ⟨hReference, hChoice, hRules⟩ => ⟨⟨hReference, hChoice⟩, hRules⟩⟩

/-- An alternative is read where its parts are and its slots fit together. The rules are then
those of its slots. -/
theorem readAlternative_eq_ok_iff {production : String} {alternative : List Char}
    {rules : List TermRule} :
    readAlternative production alternative = .ok rules ↔
      ∃ (body : List Char) (row : Row), splitAction? alternative = some (body, row.action) ∧
        (Text.words body).mapM (readSlot production) = .ok row.slots ∧ row.slots ≠ [] ∧ row.Fits ∧
          rules = row.rules := by
  simp only [@Row.fits_iff production]
  unfold readAlternative
  cases hSplit : splitAction? alternative with
  | none => simp [throw, throwThe, MonadExceptOf.throw]
  | some parts =>
      obtain ⟨body, action⟩ := parts
      simp only [bind_eq_ok_iff, Option.some.injEq, Prod.mk.injEq]
      constructor
      · rintro ⟨slots, hSlots, hRules⟩
        cases slots with
        | nil => cases hRules
        | cons slot slots =>
            cases hDangling : danglingReference? (slots.length + 1) action with
            | some reference => simp [hDangling, throw, throwThe, MonadExceptOf.throw] at hRules
            | none =>
                refine ⟨body, ⟨slot :: slots, action⟩, ⟨rfl, rfl⟩, hSlots, by simp, hDangling, ?_⟩
                simpa [hDangling] using hRules
      · rintro ⟨_, ⟨slots, _⟩, ⟨rfl, rfl⟩, hSlots, hSome, hDangling, hRules⟩
        refine ⟨slots, hSlots, ?_⟩
        cases slots with
        | nil => exact absurd rfl hSome
        | cons slot slots =>
            rw [List.length_cons] at hDangling
            simpa [hDangling] using hRules

/-- A production is read where its two sides are. -/
theorem readChars_eq_ok_iff {production : String} {text : List Char} {result : Production} :
    readChars production text = .ok result ↔
      ∃ (lhs rhs : List Char) (rules : List (List TermRule)),
        (splitSides text).map Text.trim = [lhs, rhs] ∧ isSymbolName lhs = true ∧ rhs ≠ [] ∧
          List.Forall₂ (fun alternative rules =>
            readAlternative production (Text.trim alternative) = .ok rules) (rhs.splitOn '|') rules ∧
          result = ⟨String.ofList lhs, rules.flatten⟩ := by
  unfold readChars
  constructor
  · intro h
    split at h
    · next lhs rhs hSides =>
      split at h
      · next hNamed =>
        rw [Bool.and_eq_true] at hNamed
        obtain ⟨rules, hRules, hResult⟩ := map_eq_ok_iff.1 h
        exact ⟨lhs, rhs, rules, hSides, hNamed.1, by simpa using hNamed.2, mapM_eq_ok_iff.1 hRules,
          hResult.symm⟩
      · cases h
    · cases h
  · rintro ⟨lhs, rhs, rules, hSides, hName, hSome, hRules, rfl⟩
    rw [hSides]
    simp only [hName, Bool.true_and]
    rw [if_pos (by simpa using hSome)]
    exact map_eq_ok_iff.2 ⟨rules, mapM_eq_ok_iff.2 hRules, rfl⟩

end Production

end PlotQuery
