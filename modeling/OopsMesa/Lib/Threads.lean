/-
  Threads that take turns on a shared state.

  A thread is known by the place in its code it has come to. One thread moves at a time, by a
  relation `act` on its place and the shared state, and may leave events behind; `Turns` is a run
  of such moves that all meet a condition `ok`. Threads are any type, and there may be infinitely
  many.

  `Held Q b c` is what a lock word says of the threads: at most one is in the places `Q`, and one
  is exactly if `b`. `EachAfter` is a property of every event and of what came before it. Nothing
  here names a system.
-/
import Mathlib.Logic.Function.Basic
import Mathlib.Logic.Relation

namespace OopsMesa.Lib

variable {ι P S E : Type}

/-- Where each thread is, what they share, and the events so far, the last one first. -/
structure Threads (ι P S E : Type) where
  pc : ι → P
  shared : S
  past : List E

namespace Threads

section Move

variable [DecidableEq ι] {c c' : Threads ι P S E} {i j : ι} {p : P} {s : S} {es : List E}

/-- Thread `i` has moved to `p`. -/
def move (c : Threads ι P S E) (i : ι) (p : P) (s : S) (es : List E) : Threads ι P S E :=
  ⟨Function.update c.pc i p, s, es ++ c.past⟩

@[simp] theorem move_pc_self : (c.move i p s es).pc i = p := Function.update_self ..

@[simp] theorem move_pc_of_ne (h : j ≠ i) : (c.move i p s es).pc j = c.pc j :=
  Function.update_of_ne h ..

@[simp] theorem move_shared : (c.move i p s es).shared = s := rfl

@[simp] theorem move_past : (c.move i p s es).past = es ++ c.past := rfl

/-- A property of each thread and its place, after a move. -/
theorem forall_move {R : ι → P → Prop} (hi : R i p) (hne : ∀ j, j ≠ i → R j (c.pc j)) (j : ι) :
    R j ((c.move i p s es).pc j) := by
  rcases Classical.em (j = i) with rfl | hj
  · rwa [move_pc_self]
  · rw [move_pc_of_ne hj]
    exact hne j hj

/-- Runs in which each move is one that `act` has for the thread, and meets `ok`. -/
inductive Turns (act : ι → P → S → P → S → List E → Prop)
    (ok : Threads ι P S E → ι → P → S → Prop) (c₀ : Threads ι P S E) : Threads ι P S E → Prop
  | start : Turns act ok c₀ c₀
  | turn {c : Threads ι P S E} (i : ι) (p : P) (s : S) (es : List E) :
      Turns act ok c₀ c → act i (c.pc i) c.shared p s es → ok c i p s →
        Turns act ok c₀ (c.move i p s es)

variable {act : ι → P → S → P → S → List E → Prop} {ok : Threads ι P S E → ι → P → S → Prop}
  {c₀ : Threads ι P S E}

/-- What holds at the start and is kept by every move holds wherever a run ends. -/
theorem Turns.invariant {I : Threads ι P S E → Prop} (h : Turns act ok c₀ c) (h₀ : I c₀)
    (hmove : ∀ c i p s es, I c → act i (c.pc i) c.shared p s es → ok c i p s →
      I (c.move i p s es)) : I c := by
  induction h with
  | start => exact h₀
  | turn i p s es _ hact hok ih => exact hmove _ i p s es ih hact hok

end Move

/-! ## Places that one thread may be in -/

section Places

variable {Q : P → Prop} {c : Threads ι P S E} {i j : ι} {p : P} {s : S} {es : List E} {b : Bool}

/-- At most one thread is in the places `Q`, and one is exactly if `b`. -/
structure Held (Q : P → Prop) (b : Bool) (c : Threads ι P S E) : Prop where
  one : ∀ i j, Q (c.pc i) → Q (c.pc j) → i = j
  taken : b = true ↔ ∃ i, Q (c.pc i)

theorem Held.of_free (h : ∀ i, ¬ Q (c.pc i)) : Held Q false c where
  one i _ hi := absurd hi (h i)
  taken := ⟨nofun, fun ⟨i, hi⟩ => absurd hi (h i)⟩

/-- While one thread is there, the word is set. -/
theorem Held.set (h : Held Q b c) (hi : Q (c.pc i)) : b = true := h.taken.mpr ⟨i, hi⟩

/-- While the word is clear, no thread is there. -/
theorem Held.clear (h : Held Q false c) (i : ι) : ¬ Q (c.pc i) := fun hi => nomatch h.set hi

variable [DecidableEq ι]

/-- A thread that is there as much as before. -/
theorem Held.stay (h : Held Q b c) (hp : Q p ↔ Q (c.pc i)) : Held Q b (c.move i p s es) := by
  have hsame : ∀ j, Q ((c.move i p s es).pc j) ↔ Q (c.pc j) := by
    intro j
    rcases Decidable.em (j = i) with rfl | hj
    · rw [move_pc_self]
      exact hp
    · rw [move_pc_of_ne hj]
  refine ⟨fun j k hj hk => h.one j k ((hsame j).mp hj) ((hsame k).mp hk), h.taken.trans ?_⟩
  exact exists_congr fun j => (hsame j).symm

/-- A thread that comes there while the word is clear. -/
theorem Held.take (h : Held Q false c) (hp : Q p) : Held Q true (c.move i p s es) := by
  have hself : ∀ j, Q ((c.move i p s es).pc j) → j = i := by
    intro j hj
    refine Classical.byContradiction fun hne => h.clear j ?_
    rwa [move_pc_of_ne hne] at hj
  refine ⟨fun j k hj hk => (hself j hj).trans (hself k hk).symm, fun _ => ⟨i, ?_⟩, fun _ => rfl⟩
  rwa [move_pc_self]

/-- The thread that is there leaves. -/
theorem Held.give (h : Held Q b c) (hi : Q (c.pc i)) (hp : ¬ Q p) :
    Held Q false (c.move i p s es) := by
  refine .of_free fun j hj => ?_
  rcases Decidable.em (j = i) with rfl | hne
  · rw [move_pc_self] at hj
    exact hp hj
  · rw [move_pc_of_ne hne] at hj
    exact hne (h.one j i hj hi)

end Places

/-! ## Events -/

/-- Every event has the property, with the events before it. -/
def EachAfter (R : E → List E → Prop) : List E → Prop
  | [] => True
  | e :: past => R e past ∧ EachAfter R past

/-- Every event, taken where it stands. -/
theorem EachAfter.split {R : E → List E → Prop} {past : List E} (h : EachAfter R past)
    {pre post : List E} {e : E} (hp : past = post ++ e :: pre) : R e pre := by
  induction post generalizing past with
  | nil =>
    subst hp
    exact h.1
  | cons x post ih =>
    subst hp
    exact ih h.2 rfl

/-- Events that have the property after any others that come after `base`. -/
theorem EachAfter.append {R : E → List E → Prop} {base : List E} (h : EachAfter R base)
    (hR : ∀ e l, R e (l ++ base)) (after : List E) : EachAfter R (after ++ base) := by
  induction after with
  | nil => exact h
  | cons e after ih => exact ⟨hR e after, ih⟩

end Threads

end OopsMesa.Lib
