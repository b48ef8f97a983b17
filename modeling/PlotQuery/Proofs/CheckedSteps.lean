import Mathlib.Data.List.Basic
import PlotQuery.Query

/-! Steps that may fail: sums and differences of positions, and access to tokens and to members of a
list by position. Each step reports what is wrong, and a loop over such steps stops at the first
failure. A loop whose steps all succeed gives what it gives without the checks. -/
namespace PlotQuery

/-- What can be wrong with a step. -/
inductive Fault where
  /-- The sum does not fit into a machine word. -/
  | overflow (a b : Nat)
  /-- The difference would be negative. -/
  | underflow (a b : Nat)
  /-- A list of the given length has no member there. -/
  | index (place length : Nat)
  /-- The query has no such run of tokens. -/
  | tokens (start stop : Nat)
  /-- The chart has no cell for such a span. -/
  | cell (start stop : Nat)
  /-- The cell is not finished, or its span is not inside the one that is derived. -/
  | unfinished (start stop : Nat)
  deriving DecidableEq, Repr

namespace Checked

def add (a b : Nat) : Except Fault Nat :=
  if a + b < UInt64.size then .ok (a + b) else .error (.overflow a b)

def sub (a b : Nat) : Except Fault Nat :=
  if b ≤ a then .ok (a - b) else .error (.underflow a b)

def read {α : Type} (xs : List α) (place : Nat) : Except Fault α :=
  match xs[place]? with
  | some x => .ok x
  | none => .error (.index place xs.length)

def write {α : Type} (xs : List α) (place : Nat) (x : α) : Except Fault (List α) :=
  if place < xs.length then .ok (xs.set place x) else .error (.index place xs.length)

def slice (query : Query) (start stop : Nat) : Except Fault Query :=
  if start ≤ stop ∧ stop ≤ query.size then .ok (query.slice start stop)
  else .error (.tokens start stop)

def charCount (query : Query) (start stop : Nat) : Except Fault Nat := do
  return (← slice query start stop).charCount

/-- What a step gives for each member of a list, one result after the other. -/
def each {α β : Type} (xs : List α) (step : α → Except Fault (List β)) : Except Fault (List β) := do
  return (← xs.mapM step).flatten

/-- What a step gives for each member of a list until it gives nothing for one of them. -/
def eachUntil {α β : Type} (step : α → Except Fault (Option (List β))) :
    List α → Except Fault (List β)
  | [] => return []
  | x :: xs => do
    match ← step x with
    | none => return []
    | some here => return here ++ (← eachUntil step xs)

variable {α β σ ε : Type}

@[simp] theorem ok_bind (a : α) (f : α → Except ε β) : (Except.ok a >>= f) = f a := rfl

@[simp] theorem pure_eq_ok (a : α) : (pure a : Except ε α) = .ok a := rfl

theorem add_eq_ok {a b : Nat} (h : a + b < UInt64.size) : add a b = .ok (a + b) :=
  if_pos h

theorem sub_eq_ok {a b : Nat} (h : b ≤ a) : sub a b = .ok (a - b) :=
  if_pos h

theorem read_eq_ok {xs : List α} {place : Nat} {x : α} (h : xs[place]? = some x) :
    read xs place = .ok x := by
  rw [read, h]

theorem write_eq_ok {xs : List α} {place : Nat} (x : α) (h : place < xs.length) :
    write xs place x = .ok (xs.set place x) :=
  if_pos h

theorem slice_eq_ok {query : Query} {start stop : Nat} (hStart : start ≤ stop)
    (hStop : stop ≤ query.size) : slice query start stop = .ok (query.slice start stop) :=
  if_pos ⟨hStart, hStop⟩

theorem charCount_eq_ok {query : Query} {start stop : Nat} (hStart : start ≤ stop)
    (hStop : stop ≤ query.size) :
    charCount query start stop = .ok (query.slice start stop).charCount := by
  rw [charCount, slice_eq_ok hStart hStop, ok_bind, pure_eq_ok]

theorem each_eq_ok {xs : List α} {step : α → Except Fault (List β)} {result : α → List β}
    (h : ∀ x ∈ xs, step x = .ok (result x)) : each xs step = .ok (xs.flatMap result) := by
  have hAll : xs.mapM step = .ok (xs.map result) := by
    induction xs with
    | nil => rfl
    | cons x xs ih =>
        rw [List.forall_mem_cons] at h
        rw [List.mapM_cons, h.1, ok_bind, ih h.2, ok_bind, pure_eq_ok, List.map_cons]
  rw [each, hAll, ok_bind, pure_eq_ok, List.flatMap_def]

theorem eachUntil_eq_ok {xs : List α} {step : α → Except Fault (Option (List β))} {go : α → Bool}
    {result : α → List β} (hGo : ∀ x ∈ xs, go x = true → step x = .ok (some (result x)))
    (hStop : ∀ x ∈ xs, go x = false → step x = .ok none) :
    eachUntil step xs = .ok ((xs.takeWhile go).flatMap result) := by
  induction xs with
  | nil => rfl
  | cons x xs ih =>
      rw [List.forall_mem_cons] at hGo hStop
      rw [eachUntil, List.takeWhile_cons]
      cases hHere : go x with
      | false => simp [hStop.1 hHere, pure_eq_ok]
      | true => simp [hGo.1 hHere, ih hGo.2 hStop.2, pure_eq_ok]

/-- A loop over positions that takes a state on to the next one at each of them. -/
theorem foldlM_range'_eq_ok {step : σ → Nat → Except ε σ} (state : Nat → σ) (start size : Nat)
    (h : ∀ i, i < size → step (state i) (start + i) = .ok (state (i + 1))) :
    (List.range' start size).foldlM step (state 0) = .ok (state size) := by
  induction size with
  | zero => rfl
  | succ size ih =>
      rw [List.range'_concat, List.foldlM_append, ih fun i hi => h i (Nat.lt_succ_of_lt hi),
        ok_bind, List.foldlM_cons, Nat.one_mul, h size (Nat.lt_succ_self size), ok_bind,
        List.foldlM_nil, pure_eq_ok]

end Checked

end PlotQuery
