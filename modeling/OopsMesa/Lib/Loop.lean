/-
  Bounded loops.

  `whileUpTo g f n s` runs `while (g(s)) s = f(s);` for at most `n` rounds. An invariant of a
  round is an invariant of the loop; a measure that every round decreases and that starts at
  most at `n` says that the loop ended because its guard failed, so the bound was not felt.
  `Ends g f k s s'` says of the loop itself, without a bound, that it ends.

  A loop may also return from its body, and its body may go wrong: `body` then gives the next
  state, or what is returned, or nothing. `Returns body s r` says that the loop ends, returning
  `r`, and that no round goes wrong; `Visits body s t` that it comes to `t`.
-/
import Mathlib.Logic.Basic

namespace OopsMesa.Lib

variable {σ : Type} {g : σ → Bool} {f : σ → σ}

/-- At most `n` rounds of `while (g(s)) s = f(s);`. -/
def whileUpTo (g : σ → Bool) (f : σ → σ) : Nat → σ → σ
  | 0, s => s
  | n + 1, s => if g s then whileUpTo g f n (f s) else s

theorem whileUpTo_invariant {P : σ → Prop} (hf : ∀ s, P s → g s = true → P (f s)) (n : Nat)
    {s : σ} (hs : P s) : P (whileUpTo g f n s) := by
  induction n generalizing s with
  | zero => exact hs
  | succ n ih =>
    unfold whileUpTo
    split
    · exact ih (hf s hs ‹_›)
    · exact hs

/-- Enough rounds: the loop ends on its guard. -/
theorem whileUpTo_done {P : σ → Prop} (μ : σ → Nat)
    (hf : ∀ s, P s → g s = true → P (f s) ∧ μ (f s) < μ s) (n : Nat) {s : σ} (hs : P s)
    (hn : μ s ≤ n) : g (whileUpTo g f n s) = false := by
  induction n generalizing s with
  | zero =>
    cases hg : g s with
    | false => exact hg
    | true =>
      have := (hf s hs hg).2
      omega
  | succ n ih =>
    unfold whileUpTo
    split
    · have h := hf s hs ‹_›
      exact ih h.1 (by omega)
    · exact Bool.eq_false_iff.mpr ‹_›

/-- `while (g(s)) s = f(s);` ends in `s'`, after `k` rounds. -/
inductive Ends (g : σ → Bool) (f : σ → σ) : Nat → σ → σ → Prop
  | stop {s : σ} : g s = false → Ends g f 0 s s
  | round {s s' : σ} {k : Nat} : g s = true → Ends g f k (f s) s' → Ends g f (k + 1) s s'

/-- A bound that is not felt. -/
theorem Ends.whileUpTo_eq {s s' : σ} {k n : Nat} (h : Ends g f k s s') (hn : k ≤ n) :
    whileUpTo g f n s = s' := by
  induction h generalizing n with
  | stop hg =>
    cases n with
    | zero => rfl
    | succ n =>
      unfold whileUpTo
      rw [if_neg (Bool.eq_false_iff.mp hg)]
  | round hg _ ih =>
    obtain ⟨m, rfl⟩ : ∃ m, n = m + 1 := ⟨n - 1, by omega⟩
    unfold whileUpTo
    rw [if_pos hg]
    exact ih (by omega)

-- A bound of hundreds of rounds must not be unrolled by a unifier.
attribute [irreducible] whileUpTo

/-! ## Loops that return -/

section Body

variable {ρ : Type} {body : σ → Option (σ ⊕ ρ)} {s s' t : σ} {r r' : ρ}

/-- The loop ends in `r`, and no round of it goes wrong. -/
inductive Returns (body : σ → Option (σ ⊕ ρ)) : σ → ρ → Prop
  | ret {s : σ} {r : ρ} : body s = some (.inr r) → Returns body s r
  | next {s s' : σ} {r : ρ} : body s = some (.inl s') → Returns body s' r → Returns body s r

/-- The loop comes to `t`. -/
inductive Visits (body : σ → Option (σ ⊕ ρ)) : σ → σ → Prop
  | here (s : σ) : Visits body s s
  | next {s s' t : σ} : body s = some (.inl s') → Visits body s' t → Visits body s t

/-- A loop returns one value. -/
theorem Returns.unique (h : Returns body s r) (h' : Returns body s r') : r = r' := by
  induction h with
  | ret hb =>
    cases h' with
    | ret hb' => exact Sum.inr.inj (Option.some.inj (hb.symm.trans hb'))
    | next hb' => exact nomatch hb.symm.trans hb'
  | next hb _ ih =>
    cases h' with
    | ret hb' => exact nomatch hb.symm.trans hb'
    | next hb' h' =>
      obtain rfl := Sum.inl.inj (Option.some.inj (hb.symm.trans hb'))
      exact ih h'

theorem Visits.trans {u : σ} (h : Visits body s t) (h' : Visits body t u) :
    Visits body s u := by
  induction h with
  | here => exact h'
  | next hb _ ih => exact .next hb (ih h')

/-- A loop returns what it returns from where it comes to. -/
theorem Visits.returns (h : Visits body s t) (h' : Returns body t r) : Returns body s r := by
  induction h with
  | here => exact h'
  | next hb _ ih => exact .next hb (ih h')

end Body

end OopsMesa.Lib
