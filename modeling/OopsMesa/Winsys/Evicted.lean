/-
  Retention over whole runs: the accounts hold in every state, and every call of `retain` releases
  the oldest ranges and no more than it must (`retention_in_order`).

  The claims about sums are for sizes whose sums stay in 64 bits (`SumsFit`), which is so in every
  run whose buffers are below 2^63 bytes (`sumsFit_of_small`). The numbers of the ranges are
  distinct for 2^64 calls of `retain`; `s_retained_seq` then starts again, and a range that has
  been retained all the while can meet its number again (`not_distinct_numbers`).
-/
import OopsMesa.Winsys.Accounts

namespace OopsMesa.Winsys

open OopsMesa.Lib

variable {w w' v : Shim} {op : Op} {i : Fin winsysMaxBo} {j k : Fin winsysMaxRetained}
  {a : RetainArgs} {n : Nat} {s : Shim × Nat}

/-! ## The numbers of the ranges -/

/-- After `n` calls of `retain` each range has the number of the call that stored it. -/
structure Numbered (n : Nat) (w : Shim) : Prop where
  seq : w.retainedSeq = UInt64.ofNat n
  number : ∃ no : Fin winsysMaxRetained → Nat,
    (∀ k, (w.retained k).used = true →
      0 < no k ∧ no k ≤ n ∧ (w.retained k).seq = UInt64.ofNat (no k)) ∧
    ∀ j k, (w.retained j).used = true → (w.retained k).used = true → no j = no k → j = k

theorem Numbered.init : Numbered 0 .init := ⟨rfl, fun _ => 0, fun _ => nofun, fun _ _ => nofun⟩

/-- Fewer ranges, with the numbers they had. -/
theorem Numbered.fewer (h : Numbered n w) (hseq : w'.retainedSeq = w.retainedSeq)
    (hsame : ∀ k, (w'.retained k).used = true → SameRange (w.retained k) (w'.retained k)) :
    Numbered n w' := by
  obtain ⟨hn, no, hno, hinj⟩ := h
  have hused : ∀ k, (w'.retained k).used = true → (w.retained k).used = true := by
    intro k hk
    rw [← (hsame k hk).used]
    exact hk
  refine ⟨hseq.trans hn, no, fun k hk => ?_, fun j k hj hk => hinj j k (hused j hj) (hused k hk)⟩
  rw [(hsame k hk).seq]
  exact hno k (hused k hk)

theorem Numbered.same (h : Numbered n w) (hsame : SameRanges w w') : Numbered n w' :=
  h.fewer hsame.seq fun k _ => hsame.ranges k

theorem Numbered.store (h : Numbered n w) (a : RetainArgs) (i : Fin winsysMaxRetained) :
    Numbered (n + 1) (a.store w i) := by
  obtain ⟨hn, no, hno, hinj⟩ := h
  have hseq : w.retainedSeq + 1 = UInt64.ofNat (n + 1) := by
    rw [hn, UInt64.ofNat_add]
    rfl
  have hused : ∀ k, k ≠ i → ((a.store w i).retained k).used = true →
      (w.retained k).used = true := by
    intro k hne hk
    rwa [store_of_ne _ _ hne] at hk
  refine ⟨hseq, Function.update no i (n + 1), fun k hk => ?_, fun j k hj hk heq => ?_⟩
  · rcases Decidable.em (k = i) with rfl | hne
    · rw [Function.update_self, store_self]
      exact ⟨n.succ_pos, le_rfl, hseq⟩
    · obtain ⟨hpos, hle, hk⟩ := hno k (hused k hne hk)
      rw [Function.update_of_ne hne, store_of_ne _ _ hne]
      exact ⟨hpos, hle.trans n.le_succ, hk⟩
  · -- an older range has a lower number than the new one
    rcases Decidable.em (j = i) with rfl | hji
    · rcases Decidable.em (k = j) with rfl | hkj
      · rfl
      · have hle := (hno k (hused k hkj hk)).2.1
        rw [Function.update_self, Function.update_of_ne hkj] at heq
        omega
    · rcases Decidable.em (k = i) with rfl | hki
      · have hle := (hno j (hused j hji hj)).2.1
        rw [Function.update_self, Function.update_of_ne hji] at heq
        omega
      · rw [Function.update_of_ne hji, Function.update_of_ne hki] at heq
        exact hinj j k (hused j hji hj) (hused k hki hk) heq

/-- The numbers of 2^64 calls are distinct in 64 bits. -/
theorem Numbered.distinct (h : Numbered n w) (hn : n ≤ 2 ^ 64)
    (hj : (w.retained j).used = true) (hk : (w.retained k).used = true)
    (heq : (w.retained j).seq = (w.retained k).seq) : j = k := by
  obtain ⟨-, no, hno, hinj⟩ := h
  obtain ⟨hposj, hlej, hseqj⟩ := hno j hj
  obtain ⟨hposk, hlek, hseqk⟩ := hno k hk
  refine hinj j k hj hk ?_
  rw [hseqj, hseqk] at heq
  have hmod := congrArg UInt64.toNat heq
  rw [UInt64.toNat_ofNat', UInt64.toNat_ofNat'] at hmod
  omega

theorem Numbered.step (h : Numbered n w) :
    Numbered (if (retainCall w op).isSome then n + 1 else n) (step w op) := by
  have he := step_ranges (w := w) op
  generalize Winsys.step w op = w' at he ⊢
  generalize retainCall w op = c at he ⊢
  cases he with
  | released v hrel hsame =>
    exact (h.fewer hrel.retainedSeq fun k hk => hrel.range hk).same hsame
  | taken k _ hsame =>
    have hdrop : Numbered n (retainedDrop w k) := by
      refine h.fewer rfl fun j hj => ?_
      rcases Decidable.em (j = k) with rfl | hne
      · rw [retainedDrop_self] at hj
        exact nomatch hj
      · rw [retainedDrop_of_ne hne]
        exact .refl _
    exact hdrop.same hsame
  | retained v a hsame heq =>
    obtain ⟨u, i, hrel, -, hstore⟩ := a.retain_eq v
    have hu := (h.same hsame).fewer hrel.retainedSeq fun k hk => hrel.range hk
    rw [heq, hstore]
    exact (hu.store a i).same (.of_eq rfl rfl rfl)

/-! ## Runs -/

/-- A call, and the calls of `retain` so far. -/
def countedStep (s : Shim × Nat) (op : Op) : Shim × Nat :=
  (step s.1 op, if (retainCall s.1 op).isSome then s.2 + 1 else s.2)

theorem countedStep_fst (s : Shim × Nat) (op : Op) : (countedStep s op).1 = step s.1 op := rfl

/-- Retaining a buffer beside what is retained does not wrap the sum. -/
def SumsFit (w : Shim) : Prop :=
  ∀ i, (w.bo i).live = true → retainedSum w + (w.bo i).size.toNat < 2 ^ 64

/-- What every run keeps. -/
structure Accounts (n : Nat) (w : Shim) : Prop where
  balanced : Balanced w
  sizes : AllSizes (0 < ·) w
  numbered : Numbered n w

theorem Accounts.init : Accounts 0 .init := by
  have hzero : retainedSum .init = 0 := by
    refine Finset.sum_eq_zero fun k hk => ?_
    exact nomatch (Finset.mem_filter.mp hk).2
  refine ⟨⟨hzero.symm, .inl ?_⟩, .init _, .init⟩
  rw [hzero]
  exact Nat.zero_le _

/-- The call of `retain` that a call makes fits in 64 bits. -/
theorem retainCall_sum (hfit : SumsFit w) (h : retainCall w op = some (v, a))
    (hsame : SameRanges w v) : retainedSum v + a.size.toNat < 2 ^ 64 := by
  obtain ⟨i, hlive, hsize⟩ := retainCall_size h
  rw [retainedSum_same hsame.ranges, hsize]
  exact hfit i hlive

theorem SameRanges.sizes {p : UInt64 → Prop} (hsame : SameRanges w v)
    (h : ∀ k, (w.retained k).used = true → p (w.retained k).size) (k : Fin winsysMaxRetained)
    (hk : (v.retained k).used = true) : p (v.retained k).size := by
  rw [(hsame.ranges k).used] at hk
  rw [(hsame.ranges k).size]
  exact h k hk

theorem Balanced.step (hb : Balanced w) (hsizes : AllSizes (0 < ·) w) (hfit : SumsFit w) :
    Balanced (step w op) := by
  have he := step_ranges (w := w) op
  generalize Winsys.step w op = w' at he ⊢
  generalize hc : retainCall w op = c at he
  cases he with
  | released v hrel hsame => exact (hb.releases hrel).same hsame
  | taken k hk hsame => exact (hb.drop hk).same hsame
  | retained v a hsame heq =>
    have hv := (hb.same hsame).retain (hsame.sizes hsizes.retained) (retainCall_sum hfit hc hsame)
    rw [heq]
    exact hv.same (.of_eq rfl rfl rfl)

theorem Accounts.step (h : Accounts s.2 s.1) (hfit : SumsFit s.1) (op : Op) :
    Accounts (countedStep s op).2 (countedStep s op).1 where
  balanced := h.balanced.step h.sizes hfit
  sizes := h.sizes.step fun _ _ _ hne => UInt64.pos_iff_ne_zero.mpr hne
  numbered := h.numbered.step

theorem accounts_of_reach (h : Reach countedStep (fun s _ => SumsFit s.1) (.init, 0) s) :
    Accounts s.2 s.1 :=
  h.invariant (P := fun s => Accounts s.2 s.1) .init fun _ op hs hfit => hs.step hfit op

/-! ## Buffers below 2^63 bytes -/

/-- A buffer the call makes is below 2^63 bytes. -/
def SmallCreate (op : Op) : Prop :=
  ∀ arg alloc, op = .gemCreate arg alloc → (roundUpPage arg.boSize).toNat < 2 ^ 63

/-- Beside at most the budget, or one other buffer, a small one fits in 64 bits. -/
theorem Balanced.sumsFit (hb : Balanced w) (hsmall : AllSizes (fun size => size.toNat < 2 ^ 63) w) :
    SumsFit w := by
  have hsum : retainedSum w < 2 ^ 63 := by
    rcases hb.budget with hle | ⟨k, hk⟩
    · exact Nat.lt_of_le_of_lt hle (by decide)
    · have hone : ByAge w [k] := ⟨List.pairwise_singleton _ _, fun j => by
        rw [List.mem_singleton, hk]⟩
      have hlt := hsmall.retained k ((hk k).mpr rfl)
      rw [hone.sum_eq, sizes_cons]
      exact hlt
  intro i hi
  have hlt := hsmall.bo i hi
  omega

theorem sumsFit_of_small (h : Reach countedStep (fun _ op => SmallCreate op) (.init, 0) s) :
    Reach countedStep (fun s _ => SumsFit s.1) (.init, 0) s ∧ SumsFit s.1 := by
  suffices hall : Reach countedStep (fun s _ => SumsFit s.1) (.init, 0) s ∧
      AllSizes (fun size => size.toNat < 2 ^ 63) s.1 from
    ⟨hall.1, (accounts_of_reach hall.1).balanced.sumsFit hall.2⟩
  refine h.invariant (P := fun s => Reach countedStep (fun s _ => SumsFit s.1) (.init, 0) s ∧
    AllSizes (fun size => size.toNat < 2 ^ 63) s.1) ⟨.refl, .init _⟩ ?_
  intro s op hs hop
  have hfit := (accounts_of_reach hs.1).balanced.sumsFit hs.2
  exact ⟨hs.1.tail op hfit, hs.2.step fun arg alloc heq _ => hop arg alloc heq⟩

/-! ## A range that outlasts the numbering -/

private def parkCreate : Op := .gemCreate ⟨0x4000, 0x4000, 0, 0⟩ (some 0)

private def parkMap (va : UInt64) : Op := .gemVa ⟨1, vaOpMap, 0, va, 0, 0⟩ true

private def parkUnmap : Op := .gemVa ⟨1, vaOpUnmap, 0, 0, 0, 0⟩ true

/-- A buffer of one page retained at two addresses, then mapped and unmapped at the second. -/
private def parkOps : Nat → List Op
  | 0 => [parkCreate, parkMap 0x100000, parkUnmap, parkMap 0x200000, parkUnmap]
  | n + 1 => parkOps n ++ [parkMap 0x200000, parkUnmap]

private theorem parkCreate_small : SmallCreate parkCreate := by
  intro arg alloc h
  cases h
  decide

private theorem parkMap_small (va : UInt64) : SmallCreate (parkMap va) := fun _ _ h => nomatch h

private theorem parkUnmap_small : SmallCreate parkUnmap := fun _ _ h => nomatch h

private theorem parkOps_small (n : Nat) : ∀ op ∈ parkOps n, SmallCreate op := by
  induction n with
  | zero => simp [parkOps, parkCreate_small, parkMap_small, parkUnmap_small]
  | succ n ih =>
    intro op hop
    rcases List.mem_append.mp hop with hop | hop
    · exact ih op hop
    · simp only [List.mem_cons, List.not_mem_nil, or_false] at hop
      rcases hop with rfl | rfl
      · exact parkMap_small _
      · exact parkUnmap_small

private theorem parkOps_reach (n : Nat) :
    Reach countedStep (fun _ op => SmallCreate op) (.init, 0)
      ((parkOps n).foldl countedStep (.init, 0)) :=
  Reach.foldl _ fun op hop _ => parkOps_small n op hop

private theorem foldl_countedStep (ops : List Op) (s : Shim × Nat) :
    (ops.foldl countedStep s).1 = run s.1 ops := by
  induction ops generalizing s with
  | nil => rfl
  | cons op ops ih => exact ih (countedStep s op)

/-- The page is retained at both addresses, at the second with the number `q`. -/
private structure Parked (w : Shim) (q : UInt64) : Prop where
  bo : w.bo 0 = ⟨true, 0x4000, 0x4000, 0, 0, 0, 0, 0, vaProt 0⟩
  first : w.retained 0 = ⟨true, false, vaProt 0, 0x100000, 0x4000, 0, 1⟩
  second : w.retained 1 = ⟨true, false, vaProt 0, 0x200000, 0x4000, 0, q⟩
  seq : w.retainedSeq = q
  bytes : w.retainedBytes = 0x8000

/-- The page is mapped at the second address, and retained at the first. -/
private structure Mapped (w : Shim) (q : UInt64) : Prop where
  bo : w.bo 0 = ⟨true, 0x4000, 0x4000, 0, 0, 0x200000, 0, 0, vaProt 0⟩
  first : w.retained 0 = ⟨true, false, vaProt 0, 0x100000, 0x4000, 0, 1⟩
  second : w.retained 1 = .zero
  seq : w.retainedSeq = q
  bytes : w.retainedBytes = 0x4000

private theorem Parked.start : Parked (run .init (parkOps 0)) 2 := by
  constructor <;> decide +kernel

private theorem boOf_first (h : (w.bo 0).live = true) : boOf w 1 = some 0 := by
  unfold boOf
  rw [dif_pos (by decide)]
  exact if_pos h

private theorem lt_one {k : Fin winsysMaxRetained} (h : k < 1) : k = 0 := by
  rw [Fin.lt_def] at h
  exact Fin.ext (Nat.lt_one_iff.mp h)

/-- The MAP takes over the second range. -/
private theorem Parked.map {q : UInt64} (h : Parked w q) :
    Mapped (step w (parkMap 0x200000)) q := by
  have hbytes : mapBytes (w.bo 0) ⟨1, vaOpMap, 0, 0x200000, 0, 0⟩ = 0x4000 := by
    unfold mapBytes
    rw [h.bo]
    rfl
  have hhandle : boOf w 1 = some 0 := boOf_first (by rw [h.bo])
  have htarget : mapTarget w ⟨1, vaOpMap, 0, 0x200000, 0, 0⟩ = some 0 := by
    unfold mapTarget
    rw [hhandle, Option.filter_some, hbytes, h.bo]
    rfl
  have hserved : servedBy w 0 0x200000 0x4000 (vaProt 0) = some 1 := by
    unfold servedBy
    refine firstIdx_eq_some ?_ fun k hk => ?_
    · dsimp only
      rw [h.second, h.bo]
      rfl
    · obtain rfl := lt_one hk
      dsimp only
      rw [h.first, h.bo]
      rfl
  have hphys : ((w.retained 1).phys == (w.bo 0).phys) = true := by
    rw [h.second, h.bo]
    rfl
  have hstep : step w (parkMap 0x200000) = (retainedDrop w 1).setBo 0
      { w.bo 0 with gpuVa := 0x200000, gpuProt := vaProt 0 } := by
    show (gemVa w _ true).2 = _
    rw [gemVa_of_servedBy htarget (by rw [hbytes]; exact hserved)]
    unfold mapFromRetained
    dsimp only
    rw [if_pos hphys]
  rw [hstep]
  constructor
  · rw [setBo_bo_self, h.bo]
  · rw [setBo_retained, retainedDrop_of_ne (by decide), h.first]
  · rw [setBo_retained, retainedDrop_self]
  · exact h.seq
  · have hdrop : (retainedDrop w 1).retainedBytes = w.retainedBytes - (w.retained 1).size := rfl
    rw [setBo_retainedBytes, hdrop, h.bytes, h.second]
    exact (by decide : (0x8000 : UInt64) - 0x4000 = 0x4000)

private theorem Mapped.unmapTarget {q : UInt64} (h : Mapped w q) :
    unmapTarget w ⟨1, vaOpUnmap, 0, 0, 0, 0⟩ = some 0 := by
  have hhandle : boOf w 1 = some 0 := boOf_first (by rw [h.bo])
  unfold Winsys.unmapTarget
  rw [hhandle, Option.filter_some, h.bo]
  rfl

private theorem Mapped.retainCall {q : UInt64} (h : Mapped w q) :
    retainCall w parkUnmap = some (w, ⟨0x200000, 0x4000, 0, vaProt 0, false⟩) := by
  show (Winsys.unmapTarget w _).map _ = _
  rw [h.unmapTarget, Option.map_some, h.bo]

/-- The UNMAP retains it again, under the next number. -/
private theorem Mapped.unmap {q : UInt64} (h : Mapped w q) : Parked (step w parkUnmap) (q + 1) := by
  have hslot : freeSlot w = some 1 := by
    unfold freeSlot
    refine firstIdx_eq_some ?_ fun k hk => ?_
    · rw [h.second]
      rfl
    · obtain rfl := lt_one hk
      rw [h.first]
      rfl
  have hbudget : overBudget 0x4000 w = false := by
    unfold overBudget
    rw [h.bytes]
    decide
  have hretain := RetainArgs.retain_room ⟨0x200000, 0x4000, 0, vaProt 0, false⟩ hbudget hslot
  have hstep : step w parkUnmap =
      ((RetainArgs.mk 0x200000 0x4000 0 (vaProt 0) false).store w 1).setBo 0
        { w.bo 0 with gpuVa := 0 } := by
    show (gemVa w _ true).2 = _
    rw [gemVa_of_unmapTarget h.unmapTarget, ← hretain, h.bo]
    rfl
  rw [hstep]
  constructor
  · rw [setBo_bo_self, h.bo]
  · rw [setBo_retained, store_of_ne _ _ (by decide), h.first]
  · rw [setBo_retained, store_self, h.seq]
  · show w.retainedSeq + 1 = _
    rw [h.seq]
  · show w.retainedBytes + 0x4000 = _
    rw [h.bytes]
    rfl

private theorem parked_run (n : Nat) : Parked (run .init (parkOps n)) (UInt64.ofNat (n + 2)) := by
  induction n with
  | zero => exact .start
  | succ n ih =>
    have hrun : run .init (parkOps (n + 1)) =
        run (run .init (parkOps n)) [parkMap 0x200000, parkUnmap] := List.foldl_append ..
    have hseq : UInt64.ofNat (n + 1 + 2) = UInt64.ofNat (n + 2) + 1 := by
      rw [show n + 1 + 2 = n + 2 + 1 from rfl, UInt64.ofNat_add]
      rfl
    rw [hrun, hseq]
    exact ih.map.unmap

/-! ## Retention -/

/-- **Retention accounting and eviction order.** -/
theorem retention_in_order
    (h : Reach countedStep (fun s _ => SumsFit s.1) (.init, 0) (w, n)) :
    w.retainedBytes.toNat = retainedSum w ∧
    (retainedSum w ≤ winsysRetainedBytes.toNat ∨
      ∃ k, ∀ j, (w.retained j).used = true ↔ j = k) ∧
    (n ≤ 2 ^ 64 → ∀ j k, (w.retained j).used = true → (w.retained k).used = true →
      (w.retained j).seq = (w.retained k).seq → j = k) ∧
    (SumsFit w → ∀ op v a, retainCall w op = some (v, a) →
      step w op = { a.retain v with bo := (step w op).bo } ∧
        ∃ ks k i, RetainEnds v a ks k i) := by
  obtain ⟨hb, hsizes, hnum⟩ := accounts_of_reach h
  refine ⟨hb.bytes, hb.budget, fun hn j k => hnum.distinct hn, fun hfit op v a hcall => ?_⟩
  have he := step_ranges (w := w) op
  rw [hcall] at he
  generalize step w op = w' at he ⊢
  cases he with
  | retained v a hsame heq =>
    obtain ⟨ks, hks⟩ := exists_byAge v
    have hpos : ∀ k ∈ ks, 0 < (v.retained k).size.toNat := fun k hk =>
      UInt64.lt_iff_toNat_lt.mp (hsame.sizes hsizes.retained k ((hks.used k).mp hk))
    obtain ⟨k, i, hends, -⟩ := retain_evicts a hks (hb.same hsame).bytes hpos
      (retainCall_sum hfit hcall hsame)
    exact ⟨heq, ks, k, i, hends⟩

theorem retention_in_order_page :
    let w := step (run .init (parkOps 0)) (parkMap 0x200000)
    w.retainedBytes.toNat = retainedSum w ∧
      ∃ ks k i, RetainEnds w ⟨0x200000, 0x4000, 0, vaProt 0, false⟩ ks k i := by
  have hmapped := Parked.start.map
  have hreach := (parkOps_reach 0).tail (parkMap 0x200000) (parkMap_small _)
  obtain ⟨h, hfit⟩ := sumsFit_of_small hreach
  obtain ⟨hbytes, -, -, hretain⟩ := retention_in_order h
  have hrun := foldl_countedStep (parkOps 0) (.init, 0)
  rw [countedStep_fst, hrun] at hfit
  rw [hrun] at hbytes hretain
  exact ⟨hbytes, (hretain hfit parkUnmap _ _ hmapped.retainCall).2⟩

/-- **The numbers can meet again.** A range is retained while another is mapped and unmapped
    2^64 - 1 times. -/
theorem not_distinct_numbers :
    ¬ ∀ w n, Reach countedStep (fun s _ => SumsFit s.1) (.init, 0) (w, n) →
      ∀ j k, (w.retained j).used = true → (w.retained k).used = true →
        (w.retained j).seq = (w.retained k).seq → j = k := by
  intro hall
  obtain ⟨n, hn⟩ : ∃ n, UInt64.ofNat (n + 2) = 1 := ⟨2 ^ 64 - 1, by decide⟩
  have hparked := parked_run n
  have hreach := (sumsFit_of_small (parkOps_reach n)).1
  have hrun := foldl_countedStep (parkOps n) (.init, 0)
  have h := hall _ _ hreach 0 1
  rw [hrun, hparked.first, hparked.second, hn] at h
  exact nomatch h rfl rfl rfl

end OopsMesa.Winsys
