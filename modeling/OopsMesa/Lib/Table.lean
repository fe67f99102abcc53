/-
  Fixed tables: functions from `Fin n`, searched from index zero up.

  `firstIdx p` is what a C loop `for (i = 0; i < n; i++) if (p(i)) return i;` answers. Entries
  are written with `Function.update`.
-/
import Mathlib.Data.List.FinRange
import Mathlib.Data.List.Induction
import Mathlib.Order.Basic
import Mathlib.Logic.Function.Basic

namespace OopsMesa.Lib

variable {n : Nat} {p : Fin n → Bool} {i j : Fin n}

/-- The lowest index satisfying `p`. -/
def firstIdx (p : Fin n → Bool) : Option (Fin n) := (List.finRange n).find? p

theorem firstIdx_some (h : firstIdx p = some i) : p i = true := List.find?_some h

theorem firstIdx_eq_none : firstIdx p = none ↔ ∀ i, p i = false := by
  simp [firstIdx, List.find?_eq_none, List.mem_finRange]

theorem firstIdx_isSome (h : p i = true) : ∃ j, firstIdx p = some j := by
  cases hf : firstIdx p with
  | some j => exact ⟨j, rfl⟩
  | none => rw [firstIdx_eq_none.mp hf i] at h; cases h

theorem firstIdx_lowest (h : firstIdx p = some i) (hj : j < i) : p j = false := by
  obtain ⟨-, as, bs, heq, has⟩ := List.find?_eq_some_iff_append.mp h
  have hsorted := List.pairwise_lt_finRange n
  rw [heq] at hsorted
  have hmem : j ∈ as ++ i :: bs := heq ▸ List.mem_finRange j
  rcases List.mem_append.mp hmem with hja | hjb
  · simpa using has j hja
  · have hle : i ≤ j := by
      rcases List.mem_cons.mp hjb with rfl | hjb
      · exact le_rfl
      · exact ((List.pairwise_cons.mp (List.pairwise_append.mp hsorted).2.1).1 j hjb).le
    exact absurd hj hle.not_gt

theorem firstIdx_eq_some (hi : p i = true) (hlow : ∀ j < i, p j = false) :
    firstIdx p = some i := by
  obtain ⟨j, hj⟩ := firstIdx_isSome hi
  rcases lt_trichotomy i j with h | rfl | h
  · rw [firstIdx_lowest hj h] at hi
    exact nomatch hi
  · exact hj
  · have hp := firstIdx_some hj
    rw [hlow j h] at hp
    exact nomatch hp

/-- The index satisfying `p` that comes first in the order `lt`, an earlier index winning a tie:
    the loop that keeps the best entry seen so far. -/
def bestIdx (p : Fin n → Bool) (lt : Fin n → Fin n → Bool) : Option (Fin n) :=
  (List.finRange n).foldl
    (fun best i =>
      if p i then
        match best with
        | none => some i
        | some b => if lt i b then some i else some b
      else best)
    none

/-- One round of the loop `bestIdx` folds. -/
private theorem bestIdx_foldl (p : Fin n → Bool) (lt : Fin n → Fin n → Bool) (l : List (Fin n)) :
    ∀ best : Option (Fin n), (∀ b, best = some b → p b = true) →
      let r := l.foldl (fun best i =>
        if p i then
          match best with
          | none => some i
          | some b => if lt i b then some i else some b
        else best) best
      (∀ b, r = some b → p b = true) ∧
        (r = none → best = none ∧ ∀ i ∈ l, p i = false) := by
  induction l with
  | nil => exact fun best hb => ⟨hb, fun h => ⟨h, fun i hi => by simp at hi⟩⟩
  | cons i l ih =>
    intro best hb
    simp only [List.foldl_cons]
    cases hp : p i with
    | false =>
      obtain ⟨h1, h2⟩ := ih best hb
      refine ⟨by simpa [hp] using h1, fun h => ?_⟩
      obtain ⟨hbest, hl⟩ := h2 (by simpa [hp] using h)
      refine ⟨hbest, fun k hk => ?_⟩
      rcases List.mem_cons.mp hk with rfl | hk
      · exact hp
      · exact hl k hk
    | true =>
      -- whichever entry is kept satisfies `p`, so the rest of the loop cannot end empty
      have hstep : ∀ b, p b = true →
          (∀ c, l.foldl _ (some b) = some c → p c = true) ∧
            (l.foldl _ (some b) = none → some b = none ∧ ∀ i ∈ l, p i = false) :=
        fun b hpb => ih (some b) fun c hc => by cases hc; exact hpb
      cases best with
      | none => exact ⟨(hstep i hp).1, fun h => nomatch ((hstep i hp).2 h).1⟩
      | some b =>
        have hpb := hb b rfl
        cases hlt : lt i b with
        | true =>
          simp only [if_true, hlt]
          exact ⟨(hstep i hp).1, fun h => nomatch ((hstep i hp).2 h).1⟩
        | false =>
          simp only [if_true, hlt, Bool.false_eq_true, if_false]
          exact ⟨(hstep b hpb).1, fun h => nomatch ((hstep b hpb).2 h).1⟩

theorem bestIdx_some {lt : Fin n → Fin n → Bool} (h : bestIdx p lt = some i) : p i = true :=
  (bestIdx_foldl p lt (List.finRange n) none (fun _ hb => nomatch hb)).1 i h

theorem bestIdx_none {lt : Fin n → Fin n → Bool} (h : bestIdx p lt = none) (i : Fin n) :
    p i = false :=
  ((bestIdx_foldl p lt (List.finRange n) none (fun _ hb => nomatch hb)).2 h).2 i
    (List.mem_finRange i)

section Key

variable {α : Type} [LinearOrder α] {key : Fin n → α}

/-- The loop that keeps the entry of smallest key, after the entries of a list in order. -/
private theorem bestIdx_foldl_key (p : Fin n → Bool) (key : Fin n → α) (l : List (Fin n))
    (hl : l.Pairwise (· < ·)) :
    let r := l.foldl (fun best i =>
      if p i then
        match best with
        | none => some i
        | some b => if decide (key i < key b) then some i else some b
      else best) none
    (r = none → ∀ i ∈ l, p i = false) ∧
      ∀ b, r = some b → b ∈ l ∧ ∀ i ∈ l, p i = true → key b < key i ∨ key b = key i ∧ b ≤ i := by
  induction l using List.reverseRecOn with
  | nil => exact ⟨fun _ i hi => by simp at hi, nofun⟩
  | append_singleton l i ih =>
    obtain ⟨hsorted, -, hlast⟩ := List.pairwise_append.mp hl
    obtain ⟨hnone, hsome⟩ := ih hsorted
    have hlt : ∀ j ∈ l, j < i := fun j hj => hlast j hj i (List.mem_singleton_self i)
    rw [List.foldl_append, List.foldl_cons, List.foldl_nil]
    generalize l.foldl _ none = best at hnone hsome
    dsimp only
    rcases Bool.eq_false_or_eq_true (p i) with hp | hp
    · rw [if_pos hp]
      cases best with
      | none =>
        refine ⟨nofun, fun b hb => ?_⟩
        obtain rfl := Option.some.inj hb
        refine ⟨by simp, fun j hj hpj => ?_⟩
        rcases List.mem_append.mp hj with hj | hj
        · rw [hnone rfl j hj] at hpj
          exact nomatch hpj
        · rw [List.mem_singleton.mp hj]
          exact .inr ⟨rfl, le_rfl⟩
      | some b =>
        obtain ⟨hmem, hmin⟩ := hsome b rfl
        dsimp only
        rcases lt_or_ge (key i) (key b) with hk | hk
        · -- the new entry is smaller than what was smallest
          rw [if_pos (decide_eq_true hk)]
          refine ⟨nofun, fun c hc => ?_⟩
          obtain rfl := Option.some.inj hc
          refine ⟨by simp, fun j hj hpj => ?_⟩
          rcases List.mem_append.mp hj with hj | hj
          · rcases hmin j hj hpj with h | h
            · exact .inl (hk.trans h)
            · exact .inl (h.1 ▸ hk)
          · rw [List.mem_singleton.mp hj]
            exact .inr ⟨rfl, le_rfl⟩
        · rw [if_neg (by simpa using hk)]
          refine ⟨nofun, fun c hc => ?_⟩
          obtain rfl := Option.some.inj hc
          refine ⟨by simp [hmem], fun j hj hpj => ?_⟩
          rcases List.mem_append.mp hj with hj | hj
          · exact hmin j hj hpj
          · rw [List.mem_singleton.mp hj]
            rcases hk.lt_or_eq with h | h
            · exact .inl h
            · exact .inr ⟨h, (hlt _ hmem).le⟩
    · rw [if_neg (by simp [hp])]
      refine ⟨fun hb j hj => ?_, fun b hb => ?_⟩
      · rcases List.mem_append.mp hj with hj | hj
        · exact hnone hb j hj
        · rw [List.mem_singleton.mp hj, hp]
      · obtain ⟨hmem, hmin⟩ := hsome b hb
        refine ⟨by simp [hmem], fun j hj hpj => ?_⟩
        rcases List.mem_append.mp hj with hj | hj
        · exact hmin j hj hpj
        · rw [List.mem_singleton.mp hj, hp] at hpj
          exact nomatch hpj

/-- The entry of smallest key, and of these the lowest. -/
theorem bestIdx_min (h : bestIdx p (fun i j => decide (key i < key j)) = some i)
    (hj : p j = true) : key i < key j ∨ key i = key j ∧ i ≤ j :=
  ((bestIdx_foldl_key p key (List.finRange n) (List.pairwise_lt_finRange n)).2 i h).2 j
    (List.mem_finRange j) hj

end Key

-- A table of hundreds of entries must not be unrolled by a unifier.
attribute [irreducible] firstIdx bestIdx

end OopsMesa.Lib
