/-
  States reached by a deterministic step function when every step meets a condition.

  `Reach step ok s₀ s`: some run from `s₀` ends in `s`, and every step `i` of it was taken in a
  state `t` with `ok t i`. A safety result is then `Reach.invariant` (the induction, once) and
  one preservation lemma.

  `EachStep step P s is`: every step of the run from `s` with the inputs `is` meets `P`, which may
  speak of the state before it. `Always step Q s is`: every state of the run meets `Q`. If a step
  keeps `Q` exactly when it meets `ok`, the states all meet `Q` exactly when the steps all meet
  `ok` (`always_iff_eachStep`). Nothing here names a system.
-/
import Mathlib.Logic.Basic

namespace OopsMesa.Lib

section Reach

variable {σ ι : Type} {step : σ → ι → σ} {ok ok' : σ → ι → Prop} {s₀ s t : σ}

/-- The states a run from `s₀` ends in, every step of it meeting `ok`. -/
inductive Reach (step : σ → ι → σ) (ok : σ → ι → Prop) (s₀ : σ) : σ → Prop
  | refl : Reach step ok s₀ s₀
  | tail {s : σ} (i : ι) : Reach step ok s₀ s → ok s i → Reach step ok s₀ (step s i)

/-- What holds at the start and is kept by every admitted step holds wherever a run ends. -/
theorem Reach.invariant {P : σ → Prop} (h : Reach step ok s₀ s) (h₀ : P s₀)
    (hstep : ∀ s i, P s → ok s i → P (step s i)) : P s := by
  induction h with
  | refl => exact h₀
  | tail i _ hok ih => exact hstep _ i ih hok

theorem Reach.trans (h : Reach step ok s₀ s) (h' : Reach step ok s t) : Reach step ok s₀ t := by
  induction h' with
  | refl => exact h
  | tail i _ hok ih => exact .tail i ih hok

/-- A list of inputs that are admitted in any state is a run. -/
theorem Reach.foldl (is : List ι) (h : ∀ i ∈ is, ∀ s, ok s i) :
    Reach step ok s₀ (is.foldl step s₀) := by
  induction is generalizing s₀ with
  | nil => exact .refl
  | cons i is ih =>
    have hi : Reach step ok s₀ (step s₀ i) := Reach.refl.tail i (h i (by simp) s₀)
    exact hi.trans (ih fun j hj => h j (by simp [hj]))

end Reach

section Runs

variable {σ ι : Type} {step : σ → ι → σ} {P ok : σ → ι → Prop} {Q I : σ → Prop} {s : σ}

/-- Every step of the run meets `P`. -/
def EachStep (step : σ → ι → σ) (P : σ → ι → Prop) : σ → List ι → Prop
  | _, [] => True
  | s, i :: is => P s i ∧ EachStep step P (step s i) is

/-- Every state of the run meets `Q`. -/
def Always (step : σ → ι → σ) (Q : σ → Prop) : σ → List ι → Prop
  | s, [] => Q s
  | s, i :: is => Q s ∧ Always step Q (step s i) is

/-- Two conditions on steps that come to the same wherever a run comes. -/
theorem eachStep_congr (is : List ι) (hs : I s) (hiff : ∀ s i, I s → i ∈ is → (P s i ↔ ok s i))
    (hkeep : ∀ s i, I s → ok s i → I (step s i)) :
    EachStep step P s is ↔ EachStep step ok s is := by
  induction is generalizing s with
  | nil => exact Iff.rfl
  | cons i is ih =>
    have hi := hiff s i hs List.mem_cons_self
    constructor
    · intro ⟨hp, hrest⟩
      have hok := hi.mp hp
      exact ⟨hok, (ih (hkeep s i hs hok) fun t j ht hj =>
        hiff t j ht (List.mem_cons_of_mem _ hj)).mp hrest⟩
    · intro ⟨hok, hrest⟩
      exact ⟨hi.mpr hok, (ih (hkeep s i hs hok) fun t j ht hj =>
        hiff t j ht (List.mem_cons_of_mem _ hj)).mpr hrest⟩

/-- What each step keeps exactly if it meets `ok`, all states meet exactly if all steps do. `I` is
    kept in any case. -/
theorem always_iff_eachStep (is : List ι) (hI : I s) (hs : Q s)
    (hkeep : ∀ s i, I s → i ∈ is → I (step s i))
    (hstep : ∀ s i, I s → Q s → i ∈ is → (Q (step s i) ↔ ok s i)) :
    Always step Q s is ↔ EachStep step ok s is := by
  induction is generalizing s with
  | nil => exact ⟨fun _ => trivial, fun _ => hs⟩
  | cons i is ih =>
    have hi := hstep s i hI hs List.mem_cons_self
    have hrest : Q (step s i) → (Always step Q (step s i) is ↔ EachStep step ok (step s i) is) :=
      fun h => ih (hkeep s i hI List.mem_cons_self) h
        (fun t j ht hj => hkeep t j ht (List.mem_cons_of_mem _ hj))
        fun t j hIt ht hj => hstep t j hIt ht (List.mem_cons_of_mem _ hj)
    have hhead : Always step Q (step s i) is → Q (step s i) := by
      intro h
      cases is with
      | nil => exact h
      | cons j is => exact h.1
    constructor
    · intro ⟨_, h⟩
      exact ⟨hi.mp (hhead h), (hrest (hhead h)).mp h⟩
    · intro ⟨hok, h⟩
      exact ⟨hs, (hrest (hi.mpr hok)).mpr h⟩

/-- Where what an admitted step keeps also holds at first, what it implies of each step. -/
theorem EachStep.imp {is : List ι} (h : EachStep step ok s is) (hs : I s)
    (himp : ∀ s i, I s → ok s i → P s i) (hkeep : ∀ s i, I s → ok s i → I (step s i)) :
    EachStep step P s is := by
  induction is generalizing s with
  | nil => trivial
  | cons i is ih => exact ⟨himp s i hs h.1, ih h.2 (hkeep s i hs h.1)⟩

/-- The same as `always_iff_eachStep`, in a run whose steps all meet `P`. -/
theorem always_iff_eachStep_of {is : List ι} (hP : EachStep step P s is) (hI : I s) (hs : Q s)
    (hkeep : ∀ s i, I s → P s i → I (step s i))
    (hstep : ∀ s i, I s → P s i → Q s → (Q (step s i) ↔ ok s i)) :
    Always step Q s is ↔ EachStep step ok s is := by
  induction is generalizing s with
  | nil => exact ⟨fun _ => trivial, fun _ => hs⟩
  | cons i is ih =>
    have hi := hstep s i hI hP.1 hs
    have hhead : Always step Q (step s i) is → Q (step s i) := by
      intro h
      cases is with
      | nil => exact h
      | cons j is => exact h.1
    constructor
    · intro ⟨_, h⟩
      have hnext := hhead h
      exact ⟨hi.mp hnext, (ih hP.2 (hkeep s i hI hP.1) hnext).mp h⟩
    · intro ⟨hok, h⟩
      exact ⟨hs, (ih hP.2 (hkeep s i hI hP.1) (hi.mpr hok)).mpr h⟩

end Runs

end OopsMesa.Lib
