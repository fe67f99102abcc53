/-
  Jobs that retire in order, and a mark that says so.

  A queue accepts jobs and retires them one at a time, in the order in which it accepted them.
  If of the jobs pending only the last is marked, a marked job that retires says that every job
  accepted has (`LastMarked.retire`). A mark that may be an earlier job's says nothing.
-/
import Mathlib.Data.List.Basic

namespace OopsMesa.Lib

/-- The jobs accepted and retired, and those accepted and not retired yet. -/
structure InOrder (J : Type) where
  retired : List J
  pending : List J

namespace InOrder

variable {J : Type} {q q' : InOrder J} {j : J} {mark : J → Prop}

/-- Nothing accepted. -/
def empty : InOrder J := ⟨[], []⟩

/-- All jobs accepted, in order. -/
def accepted (q : InOrder J) : List J := q.retired ++ q.pending

/-- One more job accepted. -/
def accept (q : InOrder J) (j : J) : InOrder J := { q with pending := q.pending ++ [j] }

/-- The oldest job pending, `j`, retires. -/
inductive Retires (j : J) : InOrder J → InOrder J → Prop
  | mk {done rest : List J} : Retires j ⟨done, j :: rest⟩ ⟨done ++ [j], rest⟩

/-- Every job accepted has retired. -/
def Idle (q : InOrder J) : Prop := q.pending = []

/-- No marked job is pending. -/
def Unmarked (mark : J → Prop) (q : InOrder J) : Prop := ∀ j ∈ q.pending, ¬ mark j

/-- Of the jobs pending only the last may be marked. -/
def LastMarked (mark : J → Prop) (q : InOrder J) : Prop :=
  Unmarked mark { q with pending := q.pending.dropLast }

theorem Idle.not_retires (h : Idle q) : ¬ Retires j q q' := by
  intro hr
  cases hr
  cases h

theorem Idle.unmarked (h : Idle q) : Unmarked mark q := by
  intro j hj
  rw [h] at hj
  cases hj

/-- All of the accepted jobs are among the retired. -/
theorem Idle.length_retired (h : Idle q) : q.retired.length = q.accepted.length := by
  rw [InOrder.accepted, h, List.append_nil]

theorem Unmarked.accept (h : Unmarked mark q) (hj : ¬ mark j) : Unmarked mark (q.accept j) := by
  intro i hi
  rcases List.mem_append.mp hi with hi | hi
  · exact h i hi
  · rw [List.mem_singleton.mp hi]
    exact hj

theorem Unmarked.retire (h : Unmarked mark q) (hr : Retires j q q') :
    ¬ mark j ∧ Unmarked mark q' := by
  cases hr
  exact ⟨h j (List.mem_cons_self ..), fun i hi => h i (List.mem_cons_of_mem _ hi)⟩

/-- A marked job may be accepted when none is pending. -/
theorem Unmarked.lastMarked (h : Unmarked mark q) : LastMarked mark (q.accept j) := by
  intro i hi
  have hi' : i ∈ q.pending := by simpa [InOrder.accept] using hi
  exact h i hi'

/-- When a marked job retires, nothing is pending any more. -/
theorem LastMarked.retire (h : LastMarked mark q) (hr : Retires j q q') :
    (mark j → Idle q') ∧ LastMarked mark q' := by
  cases hr with
  | @mk done rest =>
    cases rest with
    | nil => exact ⟨fun _ => rfl, fun i hi => nomatch hi⟩
    | cons i rest =>
      have hj : ¬ mark j := h j (List.mem_cons_self ..)
      exact ⟨fun hm => absurd hm hj, fun i hi => h i (List.mem_cons_of_mem _ hi)⟩

end InOrder

end OopsMesa.Lib
