/-
  Blocks and their owners.

  An allocator has handed out blocks, each a start `κ` and some data `ν` (its size, say); owners
  each name at most one block. `Custody`: an owner names an allocated block, every block has an
  owner, and no block has two. The rules are the three things that happen to a block: it is
  taken from the allocator, given back, and handed from one owner to another.
-/
import Mathlib.Algebra.BigOperators.Group.Finset.Basic
import Mathlib.Logic.ExistsUnique
import Mathlib.Logic.Function.Basic

namespace OopsMesa.Lib

variable {ι κ ν : Type} {blocks : κ → Option ν} {own own' : ι → Option (κ × ν)}
  {o o' : ι} {p : κ} {n : ν}

/-- Every block has one owner, and every owner a block. -/
structure Custody (blocks : κ → Option ν) (own : ι → Option (κ × ν)) : Prop where
  sound : ∀ o p n, own o = some (p, n) → blocks p = some n
  covered : ∀ p n, blocks p = some n → ∃ o, own o = some (p, n)
  unique : ∀ o o' p n n', own o = some (p, n) → own o' = some (p, n') → o = o'

theorem Custody.empty (hb : ∀ p, blocks p = none) (ho : ∀ o, own o = none) :
    Custody blocks own where
  sound o p n h := by rw [ho o] at h; cases h
  covered p n h := by rw [hb p] at h; cases h
  unique o _ p n _ h := by rw [ho o] at h; cases h

/-- The owner of a block is the only one. -/
theorem Custody.existsUnique (h : Custody blocks own) (hp : blocks p = some n) :
    ∃! o, ∃ m, own o = some (p, m) := by
  obtain ⟨o, ho⟩ := h.covered p n hp
  refine ⟨o, ⟨n, ho⟩, ?_⟩
  rintro o' ⟨m, ho'⟩
  exact h.unique o' o p m n ho' ho

/-- Owners of different blocks are different. -/
theorem Custody.ne_of_ne {p' : κ} {n' : ν} (ho : own o = some (p, n))
    (ho' : own o' = some (p', n')) (hp : p ≠ p') : o ≠ o' := by
  rintro rfl
  rw [ho, Option.some.injEq, Prod.mk.injEq] at ho'
  exact hp ho'.1

/-- The start of what an owner names. -/
def startOf (own : ι → Option (κ × ν)) (o : ι) : Finset κ := (own o).elim ∅ fun b => {b.1}

theorem mem_startOf : p ∈ startOf own o ↔ ∃ m, own o = some (p, m) := by
  unfold startOf
  cases own o with
  | none => exact iff_of_false (Finset.notMem_empty p) nofun
  | some b =>
    rw [Option.elim_some, Finset.mem_singleton]
    constructor
    · rintro rfl
      exact ⟨b.2, rfl⟩
    · rintro ⟨m, hm⟩
      rw [Option.some.inj hm]

/-- What is out can be summed over its owners. -/
theorem Custody.sum_eq [Fintype ι] [DecidableEq κ] (h : Custody blocks own) (f : κ → ν → ℕ) :
    ∃ starts : Finset κ, (∀ p, p ∈ starts ↔ (blocks p).isSome) ∧
      ∑ p ∈ starts, (blocks p).elim 0 (f p) = ∑ o, (own o).elim 0 fun b => f b.1 b.2 := by
  refine ⟨Finset.univ.biUnion (startOf own), fun p => ?_, ?_⟩
  · rw [Finset.mem_biUnion, Option.isSome_iff_exists]
    constructor
    · rintro ⟨o, -, hp⟩
      obtain ⟨m, ho⟩ := mem_startOf.mp hp
      exact ⟨m, h.sound o p m ho⟩
    · rintro ⟨m, hm⟩
      obtain ⟨o, ho⟩ := h.covered p m hm
      exact ⟨o, Finset.mem_univ o, mem_startOf.mpr ⟨m, ho⟩⟩
  · rw [Finset.sum_biUnion]
    · refine Finset.sum_congr rfl fun o _ => ?_
      unfold startOf
      cases ho : own o with
      | none => exact Finset.sum_empty
      | some b =>
        rw [Option.elim_some, Finset.sum_singleton, h.sound o b.1 b.2 ho]
        rfl
    · -- two owners name different blocks
      intro o _ o' _ hne
      refine Finset.disjoint_left.mpr fun p hp hp' => hne ?_
      obtain ⟨m, ho⟩ := mem_startOf.mp hp
      obtain ⟨m', ho'⟩ := mem_startOf.mp hp'
      exact h.unique o o' p m m' ho ho'

variable [DecidableEq ι]

/-- An owner of nothing takes a new block. -/
theorem Custody.take [DecidableEq κ] (h : Custody blocks own) (hp : blocks p = none)
    (ho : own o = none) :
    Custody (Function.update blocks p (some n)) (Function.update own o (some (p, n))) := by
  -- whoever owns a block already owns another one, and is not `o`
  have hold : ∀ o' q m, Function.update own o (some (p, n)) o' = some (q, m) →
      o' = o ∧ q = p ∧ m = n ∨ o' ≠ o ∧ q ≠ p ∧ own o' = some (q, m) := by
    intro o' q m hq
    by_cases hoo : o' = o
    · subst hoo
      rw [Function.update_self, Option.some.injEq, Prod.mk.injEq] at hq
      exact .inl ⟨rfl, hq.1.symm, hq.2.symm⟩
    · rw [Function.update_of_ne hoo] at hq
      refine .inr ⟨hoo, ?_, hq⟩
      rintro rfl
      rw [h.sound o' q m hq] at hp
      cases hp
  refine ⟨fun o' q m hq => ?_, fun q m hq => ?_, fun o₁ o₂ q m m' h₁ h₂ => ?_⟩
  · obtain ⟨-, rfl, rfl⟩ | ⟨-, hqp, hq⟩ := hold o' q m hq
    · exact Function.update_self ..
    · rw [Function.update_of_ne hqp]
      exact h.sound o' q m hq
  · by_cases hqp : q = p
    · subst hqp
      rw [Function.update_self, Option.some.injEq] at hq
      subst hq
      exact ⟨o, Function.update_self ..⟩
    · rw [Function.update_of_ne hqp] at hq
      obtain ⟨o', ho'⟩ := h.covered q m hq
      refine ⟨o', ?_⟩
      rw [Function.update_of_ne, ho']
      rintro rfl
      rw [ho] at ho'
      cases ho'
  · obtain ⟨rfl, rfl, -⟩ | ⟨-, hqp, h₁⟩ := hold o₁ q m h₁
    · obtain ⟨rfl, -⟩ | ⟨-, hqp, -⟩ := hold o₂ q m' h₂
      · rfl
      · exact absurd rfl hqp
    · obtain ⟨-, rfl, -⟩ | ⟨-, -, h₂⟩ := hold o₂ q m' h₂
      · exact absurd rfl hqp
      · exact h.unique o₁ o₂ q m m' h₁ h₂

/-- An owner gives its block back. -/
theorem Custody.give [DecidableEq κ] (h : Custody blocks own) (ho : own o = some (p, n)) :
    Custody (Function.update blocks p none) (Function.update own o none) := by
  have hold : ∀ o' q m, Function.update own o none o' = some (q, m) →
      q ≠ p ∧ own o' = some (q, m) := by
    intro o' q m hq
    by_cases hoo : o' = o
    · subst hoo
      simp at hq
    · rw [Function.update_of_ne hoo] at hq
      refine ⟨?_, hq⟩
      rintro rfl
      exact hoo (h.unique o' o q m n hq ho)
  refine ⟨fun o' q m hq => ?_, fun q m hq => ?_, fun o₁ o₂ q m m' h₁ h₂ => ?_⟩
  · obtain ⟨hqp, hq⟩ := hold o' q m hq
    rw [Function.update_of_ne hqp]
    exact h.sound o' q m hq
  · by_cases hqp : q = p
    · subst hqp
      simp at hq
    · rw [Function.update_of_ne hqp] at hq
      obtain ⟨o', ho'⟩ := h.covered q m hq
      exact ⟨o', by rw [Function.update_of_ne (ne_of_ne ho' ho hqp), ho']⟩
  · exact h.unique o₁ o₂ q m m' (hold o₁ q m h₁).2 (hold o₂ q m' h₂).2

/-- What is known of a block may change: as if it was given back and taken anew. -/
theorem Custody.change [DecidableEq κ] {m : ν} (h : Custody blocks own)
    (ho : own o = some (p, n)) :
    Custody (Function.update blocks p (some m)) (Function.update own o (some (p, m))) := by
  have hgiven := h.give ho
  have htaken := hgiven.take (n := m) (Function.update_self p none blocks)
    (Function.update_self o none own)
  rwa [Function.update_idem, Function.update_idem] at htaken

/-- An owner hands its block to an owner of nothing. -/
theorem Custody.hand (h : Custody blocks own) (ho : own o = some (p, n)) (ho' : own o' = none) :
    Custody blocks (Function.update (Function.update own o none) o' (some (p, n))) := by
  have hne : o ≠ o' := by
    rintro rfl
    rw [ho] at ho'
    cases ho'
  -- every other owner keeps its block, and that is not the one handed over
  have hold : ∀ o₁ q m,
      Function.update (Function.update own o none) o' (some (p, n)) o₁ = some (q, m) →
        o₁ = o' ∧ q = p ∧ m = n ∨ q ≠ p ∧ own o₁ = some (q, m) := by
    intro o₁ q m hq
    by_cases h' : o₁ = o'
    · subst h'
      rw [Function.update_self, Option.some.injEq, Prod.mk.injEq] at hq
      exact .inl ⟨rfl, hq.1.symm, hq.2.symm⟩
    · rw [Function.update_of_ne h'] at hq
      by_cases h₁ : o₁ = o
      · subst h₁
        simp at hq
      · rw [Function.update_of_ne h₁] at hq
        refine .inr ⟨?_, hq⟩
        rintro rfl
        exact h₁ (h.unique o₁ o q m n hq ho)
  refine ⟨fun o₁ q m hq => ?_, fun q m hq => ?_, fun o₁ o₂ q m m' h₁ h₂ => ?_⟩
  · obtain ⟨-, rfl, rfl⟩ | ⟨-, hq⟩ := hold o₁ q m hq
    · exact h.sound o q m ho
    · exact h.sound o₁ q m hq
  · obtain ⟨o₁, h₁⟩ := h.covered q m hq
    by_cases hqp : q = p
    · subst hqp
      obtain rfl := h.unique o₁ o q m n h₁ ho
      rw [ho, Option.some.injEq, Prod.mk.injEq] at h₁
      exact ⟨o', by rw [Function.update_self, h₁.2]⟩
    · have h₂ : o₁ ≠ o' := by
        rintro rfl
        rw [ho'] at h₁
        cases h₁
      refine ⟨o₁, ?_⟩
      rw [Function.update_of_ne h₂, Function.update_of_ne (ne_of_ne h₁ ho hqp), h₁]
  · obtain ⟨rfl, rfl, -⟩ | ⟨hqp, h₁⟩ := hold o₁ q m h₁
    · obtain ⟨rfl, -⟩ | ⟨hqp, -⟩ := hold o₂ q m' h₂
      · rfl
      · exact absurd rfl hqp
    · obtain ⟨-, rfl, -⟩ | ⟨-, h₂⟩ := hold o₂ q m' h₂
      · exact absurd rfl hqp
      · exact h.unique o₁ o₂ q m m' h₁ h₂

end OopsMesa.Lib
