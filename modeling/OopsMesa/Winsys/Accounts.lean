/-
  In every run the counter is the sum of the retained ranges, and within the budget.

  `RangeEffect` says once what a call does to the retained ranges: it releases some, or a MAP takes
  one over, or it calls `retain`. The sum and the budget are kept in each case (`Balanced`), and so
  is the numbering: a range carries the number of the call of `retain` that stored it, modulo
  2^64 (`Numbered`).
-/
import OopsMesa.Lib.Reach
import OopsMesa.Winsys.Budget

namespace OopsMesa.Winsys

open OopsMesa.Lib

variable {w w' v : Shim} {op : Op} {i : Fin winsysMaxBo} {j k : Fin winsysMaxRetained}
  {a : RetainArgs} {n : Nat}

/-! ## What a call does to the ranges -/

/-- The call of `retain` that a call makes, and the state it is made in. -/
def retainCall (w : Shim) : Op → Option (Shim × RetainArgs)
  | .gemClose handle =>
    ((boOf w handle).filter fun i => (w.bo i).gpuVa != 0).map fun i =>
      (closeCpu w i,
        ⟨(w.bo i).gpuVa, (w.bo i).size, (w.bo i).phys, (w.bo i).gpuProt, true⟩)
  | .gemVa arg _ =>
    (unmapTarget w arg).map fun i =>
      (w, ⟨(w.bo i).gpuVa, (w.bo i).size, (w.bo i).phys, (w.bo i).gpuProt, false⟩)
  | _ => none

/-- The same ranges, counter and numbering. -/
structure SameRanges (w w' : Shim) : Prop where
  ranges : ∀ k, SameRange (w.retained k) (w'.retained k)
  bytes : w'.retainedBytes = w.retainedBytes
  seq : w'.retainedSeq = w.retainedSeq

theorem SameRanges.of_eq (h : w'.retained = w.retained)
    (hbytes : w'.retainedBytes = w.retainedBytes) (hseq : w'.retainedSeq = w.retainedSeq) :
    SameRanges w w' := by
  refine ⟨fun k => ?_, hbytes, hseq⟩
  rw [h]
  exact .refl _

theorem closeCpu_sameRanges : SameRanges w (closeCpu w i) := by
  unfold closeCpu
  split <;> exact .of_eq rfl rfl rfl

theorem closePages_sameRanges (hg : (w.bo i).gpuVa = 0) : SameRanges w (closePages w i) := by
  rw [closePages_unmapped hg]
  split
  · exact ⟨setRetained_owns_same _ true, rfl, rfl⟩
  · exact .of_eq rfl rfl rfl

theorem SameRanges.trans (h : SameRanges w v) (h' : SameRanges v w') : SameRanges w w' :=
  ⟨fun k => (h.ranges k).trans (h'.ranges k), h'.bytes.trans h.bytes, h'.seq.trans h.seq⟩

/-- What a call does to the retained ranges. -/
inductive RangeEffect (w w' : Shim) : Option (Shim × RetainArgs) → Prop
  | released (v : Shim) : Releases w v → SameRanges v w' → RangeEffect w w' none
  | taken (k : Fin winsysMaxRetained) : (w.retained k).used = true →
      SameRanges (retainedDrop w k) w' → RangeEffect w w' none
  | retained (v : Shim) (a : RetainArgs) : SameRanges w v → w' = { a.retain v with bo := w'.bo } →
      RangeEffect w w' (some (v, a))

theorem RangeEffect.of_same (h : SameRanges w w') : RangeEffect w w' none := .released w .refl h

theorem retainCall_idle (h : Idle w op) : retainCall w op = none := by
  cases op with
  | gemClose handle =>
    unfold retainCall
    dsimp only
    rw [show boOf w handle = none from h]
    rfl
  | gemVa arg mapOk =>
    unfold retainCall
    dsimp only
    rw [h.2]
    rfl
  | _ => rfl

theorem retainCall_close {handle : UInt32} (h : boOf w handle = some i) :
    retainCall w (.gemClose handle) = if (w.bo i).gpuVa ≠ 0 then some (closeCpu w i,
      ⟨(w.bo i).gpuVa, (w.bo i).size, (w.bo i).phys, (w.bo i).gpuProt, true⟩) else none := by
  unfold retainCall
  dsimp only
  rw [h, Option.filter_some]
  simp only [bne_iff_ne]
  split <;> rfl

/-- MAP and UNMAP are different operations. -/
theorem unmapTarget_of_mapTarget {arg : GemVaArg} (h : mapTarget w arg = some i) :
    unmapTarget w arg = none := by
  obtain ⟨hb, hc⟩ := Option.filter_eq_some_iff.mp h
  simp only [Bool.and_eq_true, beq_iff_eq] at hc
  unfold unmapTarget
  rw [hb, Option.filter_some, hc.1.2]
  exact if_neg (by simp [vaOpMap, vaOpUnmap])

theorem mapFromRetained_sameRanges (va : UInt64) (prot : Prot) :
    SameRanges (retainedDrop w k) (mapFromRetained w i k va prot) := by
  unfold mapFromRetained
  dsimp only
  split <;> exact .of_eq rfl rfl rfl

theorem mapAfresh_sameRanges (va size : UInt64) (prot : Prot) (mapOk : Bool) :
    SameRanges (releaseOverlapping w va size) (mapAfresh w i va size prot mapOk).2 := by
  cases mapOk with
  | true =>
    rw [mapAfresh_true]
    exact .of_eq rfl rfl rfl
  | false =>
    rw [mapAfresh_false]
    exact .of_eq rfl rfl rfl

theorem step_ranges (op : Op) : RangeEffect w (step w op) (retainCall w op) := by
  have he := step_effect (w := w) op
  generalize step w op = w' at he ⊢
  cases he with
  | idle op h =>
    rw [retainCall_idle h]
    exact .of_same (.of_eq rfl rfl rfl)
  | create arg phys i _ _ => exact .of_same (.of_eq rfl rfl rfl)
  | close handle i h =>
    rw [retainCall_close h]
    rcases Decidable.em ((w.bo i).gpuVa = 0) with hg | hg
    · rw [if_neg fun hne => hne hg]
      have hg' : ((closeCpu w i).bo i).gpuVa = 0 := by rwa [closeCpu_bo]
      exact .of_same ((closeCpu_sameRanges.trans (closePages_sameRanges hg')).trans
        (.of_eq rfl rfl rfl))
    · rw [if_pos hg]
      have hg' : ((closeCpu w i).bo i).gpuVa ≠ 0 := by rwa [closeCpu_bo]
      refine .retained _ _ closeCpu_sameRanges ?_
      rw [closePages_mapped hg', closeCpu_bo]
      rfl
  | cpu op i v h _ _ =>
    have hnone : retainCall w op = none := by
      cases op with
      | mmap | boCpuRange | cpuMapVa => rfl
      | _ => exact nomatch h
    rw [hnone]
    exact .of_same (.of_eq rfl rfl rfl)
  | served arg mapOk i k h hk =>
    unfold retainCall
    dsimp only
    rw [unmapTarget_of_mapTarget h]
    exact .taken k (servedBy_eq_some hk).1 (mapFromRetained_sameRanges _ _)
  | afresh arg mapOk i h _ =>
    unfold retainCall
    dsimp only
    rw [unmapTarget_of_mapTarget h]
    exact .released _ (releaseOverlapping_releases _ _) (mapAfresh_sameRanges _ _ _ _)
  | unmap arg mapOk i h =>
    unfold retainCall
    dsimp only
    rw [h]
    exact .retained _ _ (.of_eq rfl rfl rfl) rfl

/-! ## The sizes -/

/-- A released range is gone, and the others are as they were. -/
theorem Releases.range (h : Releases w v) (hk : (v.retained k).used = true) :
    SameRange (w.retained k) (v.retained k) := by
  induction h with
  | refl => exact .refl _
  | @tail u l _ _ ih =>
    rcases Decidable.em (k = l) with rfl | hne
    · rw [retainedRelease_self] at hk
      exact nomatch hk
    · have hsame := retainedRelease_of_ne (w := u) hne
      rw [hsame.used] at hk
      exact (ih hk).trans hsame

theorem Releases.retainedSeq (h : Releases w v) : v.retainedSeq = w.retainedSeq :=
  h.invariant (P := fun v => v.retainedSeq = w.retainedSeq) rfl
    fun _ _ ih _ => retainedRelease_retainedSeq.trans ih

theorem store_self (a : RetainArgs) (w : Shim) : (a.store w k).retained k =
    ⟨true, a.ownsPhys, a.prot, a.va, a.size, a.phys, w.retainedSeq + 1⟩ :=
  Function.update_self ..

theorem store_of_ne (a : RetainArgs) (w : Shim) (h : j ≠ k) :
    (a.store w k).retained j = w.retained j := Function.update_of_ne h ..

/-- `retain` is releases, and then a store. -/
theorem RetainArgs.retain_eq (a : RetainArgs) (w : Shim) :
    ∃ v k, Releases w v ∧ (v.retained k).used = false ∧ a.retain w = a.store v k :=
  Winsys.retain_eq a.va a.size a.phys a.prot a.ownsPhys

/-- A range after a call is one there was, or the one the call retained. -/
theorem RangeEffect.range {c : Option (Shim × RetainArgs)} (h : RangeEffect w w' c)
    (hk : (w'.retained k).used = true) :
    SameRange (w.retained k) (w'.retained k) ∨
      ∃ v a, c = some (v, a) ∧ (w'.retained k).size = a.size := by
  cases h with
  | released v hrel hsame =>
    rw [(hsame.ranges k).used] at hk
    exact .inl ((hrel.range hk).trans (hsame.ranges k))
  | taken l _ hsame =>
    have hrange := hsame.ranges k
    rw [hrange.used] at hk
    rcases Decidable.em (k = l) with rfl | hne
    · rw [retainedDrop_self] at hk
      exact nomatch hk
    · rw [retainedDrop_of_ne hne] at hrange
      exact .inl hrange
  | retained v a hsame heq =>
    obtain ⟨u, l, hrel, -, hstore⟩ := a.retain_eq v
    rw [hstore] at heq
    rw [heq] at hk ⊢
    dsimp only at hk ⊢
    rcases Decidable.em (k = l) with rfl | hne
    · exact .inr ⟨v, a, rfl, by rw [store_self]⟩
    · rw [store_of_ne _ _ hne] at hk ⊢
      exact .inl ((hsame.ranges k).trans (hrel.range hk))

theorem retainCall_size (h : retainCall w op = some (v, a)) :
    ∃ i, (w.bo i).live = true ∧ a.size = (w.bo i).size := by
  cases op with
  | gemClose handle =>
    obtain ⟨i, hi, heq⟩ := Option.map_eq_some_iff.mp h
    cases heq
    exact ⟨i, boOf_live (Option.eq_some_of_filter_eq_some hi), rfl⟩
  | gemVa arg mapOk =>
    obtain ⟨i, hi, heq⟩ := Option.map_eq_some_iff.mp h
    cases heq
    exact ⟨i, unmapTarget_live hi, rfl⟩
  | _ => exact nomatch h

/-- A live buffer after a call has the size it had, or was created by it. -/
theorem step_bo_size (hlive : ((step w op).bo i).live = true) :
    (w.bo i).live = true ∧ ((step w op).bo i).size = (w.bo i).size ∨
      ∃ arg alloc, op = .gemCreate arg alloc ∧ roundUpPage arg.boSize ≠ 0 ∧
        ((step w op).bo i).size = roundUpPage arg.boSize := by
  obtain ⟨arg, alloc, hop, _, hne, hsize⟩ | ⟨handle, _, _, hzero⟩ | ⟨hsame, hsize⟩ :=
    step_bo_cases (w := w) op i
  · exact .inr ⟨arg, alloc, hop, hne, hsize⟩
  · rw [hzero] at hlive
    exact nomatch hlive
  · exact .inl ⟨hsame.symm.trans hlive, hsize⟩

/-- Every buffer and every retained range is of a size that meets `p`. -/
structure AllSizes (p : UInt64 → Prop) (w : Shim) : Prop where
  bo : ∀ i, (w.bo i).live = true → p (w.bo i).size
  retained : ∀ k, (w.retained k).used = true → p (w.retained k).size

theorem AllSizes.init (p : UInt64 → Prop) : AllSizes p .init := ⟨fun _ => nofun, fun _ => nofun⟩

theorem AllSizes.step {p : UInt64 → Prop} (h : AllSizes p w)
    (hop : ∀ arg alloc, op = .gemCreate arg alloc → roundUpPage arg.boSize ≠ 0 →
      p (roundUpPage arg.boSize)) : AllSizes p (step w op) := by
  refine ⟨fun i hi => ?_, fun k hk => ?_⟩
  · obtain ⟨hlive, hsize⟩ | ⟨arg, alloc, hcreate, hne, hsize⟩ := step_bo_size hi
    · rw [hsize]
      exact h.bo i hlive
    · rw [hsize]
      exact hop arg alloc hcreate hne
  · obtain hsame | ⟨v, a, hcall, hsize⟩ := (step_ranges op).range hk
    · rw [hsame.used] at hk
      rw [hsame.size]
      exact h.retained k hk
    · obtain ⟨i, hlive, ha⟩ := retainCall_size hcall
      rw [hsize, ha]
      exact h.bo i hlive

/-! ## The counter -/

/-- The counter is the sum, and the sum within the budget unless one range exceeds it alone. -/
structure Balanced (w : Shim) : Prop where
  bytes : w.retainedBytes.toNat = retainedSum w
  budget : retainedSum w ≤ winsysRetainedBytes.toNat ∨
    ∃ k, ∀ j, (w.retained j).used = true ↔ j = k

theorem retainedSum_same (h : ∀ k, SameRange (w.retained k) (w'.retained k)) :
    retainedSum w' = retainedSum w := by
  have hused := fun k => (h k).used
  have hsize := fun k => (h k).size
  unfold retainedSum
  simp only [hused, hsize]

theorem Balanced.same (hb : Balanced w) (h : SameRanges w w') : Balanced w' := by
  constructor
  · rw [h.bytes, retainedSum_same h.ranges, hb.bytes]
  · rw [retainedSum_same h.ranges]
    have hused := fun k => (h.ranges k).used
    simp only [hused]
    exact hb.budget

theorem retainedSum_drop (hk : (w.retained k).used = true) :
    retainedSum w = (w.retained k).size.toNat + retainedSum (retainedDrop w k) := by
  unfold retainedSum
  rw [← Finset.add_sum_erase _ _ (Finset.mem_filter.mpr ⟨Finset.mem_univ k, hk⟩)]
  rw [Nat.add_left_cancel_iff]
  have hleft : Finset.univ.filter (fun j => ((retainedDrop w k).retained j).used = true) =
      (Finset.univ.filter fun j => (w.retained j).used = true).erase k := by
    ext j
    rw [Finset.mem_erase, Finset.mem_filter, Finset.mem_filter]
    rcases Decidable.em (j = k) with rfl | hne
    · rw [retainedDrop_self]
      exact iff_of_false (fun h => nomatch h.2) fun h => h.1 rfl
    · rw [retainedDrop_of_ne hne]
      exact (and_iff_right hne).symm
  rw [hleft]
  refine Finset.sum_congr rfl fun j hj => ?_
  rw [retainedDrop_of_ne (Finset.ne_of_mem_erase hj)]

theorem Balanced.drop (hb : Balanced w) (hk : (w.retained k).used = true) :
    Balanced (retainedDrop w k) := by
  have hsum := retainedSum_drop hk
  have hbytes := hb.bytes
  constructor
  · have hle : (w.retained k).size ≤ w.retainedBytes := by
      rw [UInt64.le_iff_toNat_le]
      omega
    show (w.retainedBytes - (w.retained k).size).toNat = _
    rw [UInt64.toNat_sub_of_le _ _ hle]
    omega
  · refine .inl ?_
    rcases hb.budget with h | ⟨l, hl⟩
    · omega
    · -- the only range is the one dropped
      obtain rfl := (hl k).mp hk
      have hzero : retainedSum (retainedDrop w k) = 0 := by
        refine Finset.sum_eq_zero fun j hj => ?_
        have hj := (Finset.mem_filter.mp hj).2
        rcases Decidable.em (j = k) with rfl | hne
        · rw [retainedDrop_self] at hj
          exact nomatch hj
        · rw [retainedDrop_of_ne hne] at hj
          exact absurd ((hl j).mp hj) hne
      omega

theorem Balanced.release (hb : Balanced w) (hk : (w.retained k).used = true) :
    Balanced (retainedRelease w k) := by
  have hpages : SameRanges w (releasePages
      (w.setMem (w.mem.unmap (w.retained k).va (w.retained k).size)) k) :=
    ⟨fun j => releasePages_same (w := w.setMem _) j, releasePages_retainedBytes,
      releasePages_retainedSeq⟩
  refine (hb.same hpages).drop ?_
  rw [(hpages.ranges k).used]
  exact hk

theorem Balanced.releases (hb : Balanced w) (h : Releases w v) : Balanced v :=
  h.invariant hb fun _ _ ih hk => ih.release hk

theorem retainedSum_store (a : RetainArgs) (hi : (w.retained k).used = false) :
    retainedSum (a.store w k) = a.size.toNat + retainedSum w := by
  have hused : ((a.store w k).retained k).used = true := by rw [store_self]
  rw [retainedSum_drop hused, store_self]
  rw [Nat.add_left_cancel_iff]
  have hleft : ∀ j, ((retainedDrop (a.store w k) k).retained j).used = (w.retained j).used ∧
      ((w.retained j).used = true →
        ((retainedDrop (a.store w k) k).retained j).size = (w.retained j).size) := by
    intro j
    rcases Decidable.em (j = k) with rfl | hne
    · rw [retainedDrop_self, hi]
      exact ⟨rfl, nofun⟩
    · rw [retainedDrop_of_ne hne, store_of_ne _ _ hne]
      exact ⟨rfl, fun _ => rfl⟩
  unfold retainedSum
  simp only [fun j => (hleft j).1]
  refine Finset.sum_congr rfl fun j hj => ?_
  rw [(hleft j).2 (Finset.mem_filter.mp hj).2]

theorem Balanced.retain (hb : Balanced w)
    (hpos : ∀ k, (w.retained k).used = true → 0 < (w.retained k).size)
    (hsum : retainedSum w + a.size.toNat < 2 ^ 64) : Balanced (a.retain w) := by
  obtain ⟨ks, hks⟩ := exists_byAge w
  have hpos' : ∀ k ∈ ks, 0 < (w.retained k).size.toNat := fun k hk =>
    UInt64.lt_iff_toNat_lt.mp (hpos k ((hks.used k).mp hk))
  obtain ⟨k, i, hends, hq⟩ := retain_evicts a hks hb.bytes hpos' hsum
  have hfree := firstIdx_some hends.slot
  rw [Bool.not_eq_true'] at hfree
  have hleft := hq.sum_eq hks
  have hle := sizes_le_of_suffix (w := w) hq.suffix
  have hfits := hends.least.1.1
  rw [hks.sum_eq] at hsum
  rw [hends.stored]
  generalize (ks.take k).foldl retainedRelease w = s at hq hfree hleft ⊢
  have hstore := retainedSum_store a hfree
  constructor
  · show (s.retainedBytes + a.size).toNat = _
    rw [hstore, UInt64.toNat_add, hq.bytes, Nat.mod_eq_of_lt (by omega)]
    omega
  · rcases hfits with hfits | hnil
    · exact .inl (by omega)
    · refine .inr ⟨i, fun j => ?_⟩
      rcases Decidable.em (j = i) with rfl | hne
      · rw [store_self]
        exact iff_of_true rfl rfl
      · rw [store_of_ne _ _ hne, ← hq.used, hnil]
        exact iff_of_false List.not_mem_nil hne

end OopsMesa.Winsys
