/-
  How much direct memory the shim holds.

  Closing a buffer does not give its pages back: they stay mapped, retained, for a later buffer at
  the same address. What keeps that from growing is the budget of the retained ranges. Where every
  block has one owner, the blocks that are out are the live buffers' and the ranges' own, byte for
  byte, so the shim never holds more than its client's buffers and the budget, or one range that
  exceeds the budget by itself. `oops_winsys_bo_bytes_live` reports the first part.

  The conditions are those of custody: the platform's blocks are disjoint and take-overs clean
  (`TakesOverCleanly`), without which a block may be out that nobody owns. Sizes are below 2^63,
  so that sums of them do not wrap.
-/
import Mathlib.Algebra.BigOperators.Fin
import Mathlib.Algebra.Order.BigOperators.Group.Finset
import Mathlib.Data.Fintype.Sum
import OopsMesa.Winsys.Evicted
import OopsMesa.Winsys.Ledger
import OopsMesa.Winsys.Ownership

namespace OopsMesa.Winsys

open OopsMesa.Lib

variable {w : Shim}

/-- The bytes of the live buffers. -/
def liveSum (w : Shim) : Nat := ∑ i with (w.bo i).live = true, (w.bo i).size.toNat

/-- The bytes of the retained ranges whose buffers are closed. -/
def keptSum (w : Shim) : Nat :=
  ∑ k with ((w.retained k).used && (w.retained k).ownsPhys) = true, (w.retained k).size.toNat

/-- The blocks that are out, and their bytes. -/
structure Footprint (w : Shim) : Prop where
  exact : ∃ starts : Finset Int, (∀ p, p ∈ starts ↔ (w.mem.blocks p).isSome) ∧
    ∑ p ∈ starts, (w.mem.blocks p).elim 0 UInt64.toNat = liveSum w + keptSum w
  budget : keptSum w ≤ winsysRetainedBytes.toNat ∨
    ∃ k, ∀ j, (w.retained j).used = true ↔ j = k
  reported : boBytesLive w = UInt64.ofNat (liveSum w)

/-! ## The sums -/

theorem elim_block_bo (b : Bo) :
    (b.block.elim 0 fun p => p.2.toNat) = if b.live = true then b.size.toNat else 0 := by
  unfold Bo.block
  split <;> rfl

theorem elim_block_retained (r : RetainedRange) :
    (r.block.elim 0 fun p => p.2.toNat) =
      if (r.used && r.ownsPhys) = true then r.size.toNat else 0 := by
  unfold RetainedRange.block
  split <;> rfl

/-- What the owners name, buffers and ranges apart. -/
theorem sum_ownedBlock (w : Shim) :
    (∑ o, (ownedBlock w o).elim 0 fun b => b.2.toNat) = liveSum w + keptSum w := by
  have hlive : (∑ i, (ownedBlock w (.inl i)).elim 0 fun b => b.2.toNat) = liveSum w := by
    unfold liveSum
    rw [Finset.sum_filter]
    exact Finset.sum_congr rfl fun i _ => elim_block_bo (w.bo i)
  have hkept : (∑ k, (ownedBlock w (.inr k)).elim 0 fun b => b.2.toNat) = keptSum w := by
    unfold keptSum
    rw [Finset.sum_filter]
    exact Finset.sum_congr rfl fun k _ => elim_block_retained (w.retained k)
  rw [Fintype.sum_sum_type, hlive, hkept]

/-- A range that owns its pages is a retained one. -/
theorem keptSum_le (w : Shim) : keptSum w ≤ retainedSum w := by
  refine Finset.sum_le_sum_of_subset fun k hk => ?_
  have hk := (Finset.mem_filter.mp hk).2
  rw [Bool.and_eq_true] at hk
  exact Finset.mem_filter.mpr ⟨Finset.mem_univ k, hk.1⟩

theorem boBytesLive_eq (w : Shim) : boBytesLive w = UInt64.ofNat (liveSum w) := by
  have hcreated : ∀ i, ((w.bo i).created.elim 0 fun r => r.boSize.toNat) =
      if (w.bo i).live = true then (w.bo i).size.toNat else 0 := by
    intro i
    unfold Bo.created
    split <;> rfl
  unfold boBytesLive liveSum
  rw [foldl_live, UInt64.zero_add, Finset.sum_filter, Fin.sum_univ_def]
  simp only [hcreated]

/-! ## Runs -/

/-- What a run keeps. -/
structure Holds (w : Shim) : Prop where
  owned : Owned w
  balanced : Balanced w
  positive : AllSizes (0 < ·) w
  small : AllSizes (fun size => size.toNat < 2 ^ 63) w

theorem Holds.step {op : Op} (h : Holds w) (hplat : PlatformAllocs w op)
    (hclean : TakesOverCleanly w op) (hsmall : SmallCreate op) : Holds (step w op) where
  owned := h.owned.effect (step_effect op) hplat hclean
  balanced := h.balanced.step h.positive (h.balanced.sumsFit h.small)
  positive := h.positive.step fun _ _ _ hne => UInt64.pos_iff_ne_zero.mpr hne
  small := h.small.step fun arg alloc heq _ => hsmall arg alloc heq

/-- **Direct memory is bounded.** The blocks that are out come to the live buffers and the closed
    ones retained, and these to no more than the budget, or to one. -/
theorem direct_memory_bounded
    (h : Reach step (fun w op => PlatformAllocs w op ∧ TakesOverCleanly w op ∧ SmallCreate op)
      .init w) : Footprint w := by
  have hall : Holds w := h.invariant
    ⟨.init, Accounts.init.balanced, .init _, .init _⟩
    fun _ op hw hok => hw.step hok.1 hok.2.1 hok.2.2
  refine ⟨?_, ?_, boBytesLive_eq w⟩
  · rw [← sum_ownedBlock]
    exact hall.owned.custody.sum_eq fun _ n => n.toNat
  · rcases hall.balanced.budget with hle | hone
    · exact .inl ((keptSum_le w).trans hle)
    · exact .inr hone

/-- Of two pages that are out, one is of a live buffer, and one of a closed one that was mapped. -/
theorem direct_memory_bounded_kept :
    let w := run .init [createOnePage 0, createOnePage 0x4000, wholeAt 2 vaOpMap 0x500000000,
      .gemClose 2]
    Footprint w ∧ (w.bo 0).block = some (0, 0x4000) ∧
      (w.retained 0).block = some (0x4000, 0x4000) := by
  refine ⟨?_, by decide +kernel, by decide +kernel⟩
  let ok (w : Shim) (op : Op) : Prop :=
    PlatformAllocs w op ∧ TakesOverCleanly w op ∧ SmallCreate op
  let map : Op := wholeAt 2 vaOpMap 0x500000000
  let u := step .init (createOnePage 0)
  let v := step u (createOnePage 0x4000)
  have hcreate : ∀ phys, SmallCreate (createOnePage phys) := by
    intro phys arg alloc h
    cases h
    decide
  have hv : Reach step ok .init v := by
    have hu : Reach step ok .init u :=
      Reach.refl.tail _ ⟨platformAllocs_first 0, trivial, hcreate 0⟩
    exact hu.tail _ ⟨platformAllocs_second, trivial, hcreate 0x4000⟩
  have hclean : TakesOverCleanly v map := by
    intro i k hi hk
    have ht : mapTarget v ⟨2, vaOpMap, 6, 0x500000000, 0, 0⟩ = some 1 := by decide +kernel
    obtain rfl : i = 1 := Option.some.inj (hi.symm.trans ht)
    have hnone : servedBy v 1 0x500000000 (mapBytes (v.bo 1) ⟨2, vaOpMap, 6, 0x500000000, 0, 0⟩)
        (vaProt 6) = none := by decide +kernel
    cases hnone.symm.trans hk
  have hmap : Reach step ok .init (step v map) := hv.tail map ⟨trivial, hclean, nofun⟩
  have hclose : ok (step v map) (.gemClose 2) := ⟨trivial, trivial, nofun⟩
  have hrun : Reach step ok .init (step (step v map) (.gemClose 2)) := hmap.tail _ hclose
  exact direct_memory_bounded hrun

end OopsMesa.Winsys
