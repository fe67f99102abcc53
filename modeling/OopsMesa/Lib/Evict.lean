/-
  Eviction from the front of a queue.

  `Evicts p l k`: `k` is the least number of entries to take off the front of `l` for `p` to hold
  of the rest. A loop that takes off one entry a round, and stops when `p` holds, takes off that
  many (`loop_evicts`); two such loops one after the other take off the least number for both
  conditions, if the first stays true (`Evicts.and_then`).
-/
import Mathlib.Order.Bounds.Basic
import OopsMesa.Lib.Loop

namespace OopsMesa.Lib

variable {α σ : Type} {p q : List α → Prop} {l : List α} {a : α} {k m : Nat}

/-- The least number of entries to take off the front. -/
def Evicts (p : List α → Prop) (l : List α) (k : Nat) : Prop := IsLeast {k | p (l.drop k)} k

theorem evicts_zero (h : p l) : Evicts p l 0 := ⟨h, fun _ _ => Nat.zero_le _⟩

theorem evicts_succ (h : ¬ p (a :: l)) (hk : Evicts p l k) : Evicts p (a :: l) (k + 1) := by
  refine ⟨hk.1, fun j hj => ?_⟩
  obtain ⟨i, rfl⟩ : ∃ i, j = i + 1 := by
    refine Nat.exists_eq_succ_of_ne_zero fun hj0 => h ?_
    rw [hj0] at hj
    exact hj
  exact Nat.succ_le_succ (hk.2 hj)

theorem Evicts.le_length (h : Evicts p l k) (hnil : p []) : k ≤ l.length := by
  refine h.2 ?_
  show p (l.drop l.length)
  rwa [List.drop_length]

/-- For one condition, and then for another. -/
theorem Evicts.and_then (hmono : ∀ a l, p (a :: l) → p l) (hk : Evicts p l k)
    (hm : Evicts q (l.drop k) m) : Evicts (fun l => p l ∧ q l) l (k + m) := by
  have hstay : ∀ m l, p l → p (l.drop m) := by
    intro m
    induction m with
    | zero => exact fun _ h => h
    | succ m ih =>
      intro l h
      cases l with
      | nil => exact h
      | cons a l => exact ih l (hmono a l h)
  constructor
  · show p (l.drop (k + m)) ∧ q (l.drop (k + m))
    rw [← List.drop_drop]
    exact ⟨hstay m _ hk.1, hm.1⟩
  · intro j hj
    have hkj : k ≤ j := hk.2 hj.1
    have hmj : m ≤ j - k := by
      refine hm.2 ?_
      show q ((l.drop k).drop (j - k))
      rw [List.drop_drop, Nat.add_sub_cancel' hkj]
      exact hj.2
    omega

/-- A loop that takes off the first entry while `p` fails. `R s l` relates a state to the queue it
    holds, and `release s a` is the state without the entry `a`. -/
theorem loop_evicts {R : σ → List α → Prop} {g : σ → Bool} {f : σ → σ} {release : σ → α → σ}
    (hguard : ∀ s l, R s l → (g s = false ↔ p l)) (hnil : p [])
    (hround : ∀ s a l, R s (a :: l) → f s = release s a ∧ R (release s a) l) {s : σ}
    (hs : R s l) :
    ∃ k, Evicts p l k ∧ R ((l.take k).foldl release s) (l.drop k) ∧
      Ends g f k s ((l.take k).foldl release s) := by
  induction l generalizing s with
  | nil => exact ⟨0, evicts_zero hnil, hs, .stop ((hguard s [] hs).mpr hnil)⟩
  | cons a l ih =>
    have hg := hguard s (a :: l) hs
    rcases Classical.em (p (a :: l)) with hp | hp
    · exact ⟨0, evicts_zero hp, hs, .stop (hg.mpr hp)⟩
    · obtain ⟨hf, hR⟩ := hround s a l hs
      obtain ⟨k, hk, hRk, hends⟩ := ih hR
      refine ⟨k + 1, evicts_succ hp hk, hRk, .round ?_ ?_⟩
      · exact Bool.eq_true_of_not_eq_false fun hgf => hp (hg.mp hgf)
      · rw [hf]
        exact hends

end OopsMesa.Lib
