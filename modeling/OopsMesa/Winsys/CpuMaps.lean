/-
  CPU mappings stay in place.

  A buffer's CPU mapping is made once, at an address the platform picks, and stays until the
  buffer is closed. Nothing else is to be mapped or unmapped over it: not a MAP, and not a
  retained range, which may be released at any later call. `LeavesCpu` is the condition that a
  step brings neither about. Under it every live CPU mapping leads to its buffer's pages in every
  state (`CpuKept`).
-/
import OopsMesa.Winsys.Coverage

namespace OopsMesa.Winsys

open OopsMesa.Lib

variable {w w' : Shim} {i j : Fin winsysMaxBo} {k : Fin winsysMaxRetained} {op : Op}

/-- `oops_mem_map_direct` answers an address aligned as asked, to a page; a cache line is enough
    here. -/
def PlatformAligns (w : Shim) (op : Op) : Prop :=
  ∀ i v, cpuCall w op = some (i, some v) → (w.bo i).cpuPtr = 0 → v.toNat % 64 = 0

theorem PlatformAligns.of_cpuCall {op : Op} {v : UInt64} (hcall : cpuCall w op = some (i, some v))
    (hv : v.toNat % 64 = 0) : PlatformAligns w op := by
  intro j a h _
  obtain ⟨-, ha⟩ := Prod.mk.inj (Option.some.inj (hcall.symm.trans h))
  obtain rfl := Option.some.inj ha
  exact hv

/-- No live CPU mapping meets the span. -/
def OffCpu (w : Shim) (va size : UInt64) : Prop :=
  ∀ j l, (w.bo j).cpuLease = some l → Apart va size l.base l.size

/-- The condition on a step. The range of a MAP that takes effect, and a recorded range about to be
    retained, meet no live CPU mapping but one that the call takes away; and a CPU mapping is made
    off every retained range. -/
def LeavesCpu (w : Shim) (op : Op) : Prop :=
  (match op with
    | .gemVa arg mapOk =>
      (∀ i, MapTakesEffect w arg mapOk i → OffCpu w arg.vaAddress (mapBytes (w.bo i) arg)) ∧
        ∀ i, unmapTarget w arg = some i → OffCpu w (w.bo i).gpuVa (w.bo i).size
    | .gemClose handle => ∀ i, boOf w handle = some i → (w.bo i).gpuVa ≠ 0 →
      ∀ j l, j ≠ i → (w.bo j).cpuLease = some l →
        Apart (w.bo i).gpuVa (w.bo i).size l.base l.size
    | _ => True) ∧
  ∀ i v, cpuCall w op = some (i, some v) → (w.bo i).cpuPtr = 0 →
    ∀ k m, leases w k = some m → Apart m.base m.size v (w.bo i).size

/-- Every live CPU mapping leads to its buffer's pages, from an aligned address, and neither
    another one nor a retained range meets it. -/
structure CpuKept (w : Shim) : Prop where
  kept : Kept w.mem.pageTable fun j => (w.bo j).cpuLease
  aligned : ∀ j l, (w.bo j).cpuLease = some l → l.base.toNat % 64 = 0
  retained : ∀ k m, leases w k = some m → OffCpu w m.base m.size

theorem CpuKept.init : CpuKept .init where
  kept := .empty fun _ => rfl
  aligned _ _ h := nomatch h
  retained _ _ h := nomatch h

/-- Where no CPU mapping is added, it is enough that those left lie off what the call touches. -/
theorem CpuKept.frame (h : CpuKept w)
    (hsub : ∀ j l, (w'.bo j).cpuLease = some l → (w.bo j).cpuLease = some l)
    (hpt : ∀ j l, (w'.bo j).cpuLease = some l → ∀ a, InSpan l.base l.size a →
      w'.mem.pageTable a = w.mem.pageTable a)
    (hret : ∀ k m, leases w' k = some m → OffCpu w' m.base m.size) : CpuKept w' where
  kept := (h.kept.forget hsub).congr fun j l a hl ha => hpt j l hl a ha
  aligned j l hl := h.aligned j l (hsub j l hl)
  retained := hret

/-- What lies off the CPU mappings lies off those that are left. -/
theorem OffCpu.sub {va size : UInt64} (h : OffCpu w va size)
    (hsub : ∀ j l, (w'.bo j).cpuLease = some l → (w.bo j).cpuLease = some l) :
    OffCpu w' va size := fun j l hl => h j l (hsub j l hl)

/-- Retaining a range off the CPU mappings keeps them. -/
theorem CpuKept.retain (h : CpuKept w) {va size : UInt64} {phys : Int} {prot : Prot} {owns : Bool}
    {b : Bo} (hb : b.cpuLease = none ∨ b.cpuLease = (w.bo i).cpuLease)
    (hoff : ∀ j l, (((Winsys.retain w va size phys prot owns).setBo i b).bo j).cpuLease = some l →
      Apart va size l.base l.size) :
    CpuKept ((Winsys.retain w va size phys prot owns).setBo i b) := by
  have hsub : ∀ j l, (((Winsys.retain w va size phys prot owns).setBo i b).bo j).cpuLease =
      some l → (w.bo j).cpuLease = some l := by
    intro j l hl
    by_cases hji : j = i
    · subst hji
      rw [setBo_bo_self] at hl
      rcases hb with hb | hb
      · rw [hb] at hl
        cases hl
      · rw [← hb, hl]
    · rwa [setBo_bo_of_ne _ _ _ _ hji, retain_bo] at hl
  refine h.frame hsub (fun j l hl a ha => ?_) fun k m hm j l hl => ?_
  · exact retain_pageTable _ _ _ _ _ fun k m hm hin => h.retained k m hm j l (hsub j l hl) a hin ha
  · rcases leases_retain _ _ _ _ _ hm with hm | rfl
    · exact h.retained k m hm j l (hsub j l hl)
    · exact hoff j l hl

theorem CpuKept.closeCpu (h : CpuKept w) (hlive : (w.bo i).live = true) :
    CpuKept ((Winsys.closeCpu w i).setBo i .zero) := by
  have hsub : ∀ j l, (((Winsys.closeCpu w i).setBo i .zero).bo j).cpuLease = some l →
      j ≠ i ∧ (w.bo j).cpuLease = some l := by
    intro j l hl
    by_cases hji : j = i
    · subst hji
      rw [setBo_bo_self] at hl
      cases hl
    · rw [setBo_bo_of_ne _ _ _ _ hji, closeCpu_bo] at hl
      exact ⟨hji, hl⟩
  refine h.frame (fun j l hl => (hsub j l hl).2) (fun j l hl a ha => ?_) fun k m hm => ?_
  · obtain ⟨hji, hl⟩ := hsub j l hl
    refine closeCpu_pageTable fun h0 hin => ?_
    exact h.kept.apart j i l _ hji hl (cpuLease_of_live hlive h0) a ha hin
  · have hm' : leases (Winsys.closeCpu w i) k = some m := hm
    rw [leases_closeCpu] at hm'
    exact (h.retained k m hm').sub fun j l hl => (hsub j l hl).2

/-- The CPU mapping of a closing buffer goes, and its GPU range is retained. -/
theorem CpuKept.close (h : CpuKept w) {handle : UInt32} (hi : boOf w handle = some i)
    (hc : LeavesCpu w (.gemClose handle)) :
    CpuKept ((closePages (Winsys.closeCpu w i) i).setBo i .zero) := by
  have hcpu := h.closeCpu (boOf_live hi)
  have hoff := hc.1 i hi
  have hbo : (Winsys.closeCpu w i).bo = w.bo := closeCpu_bo
  rw [← hbo] at hoff
  generalize Winsys.closeCpu w i = v at hcpu hoff hbo ⊢
  have hsub : ∀ j l, (((closePages v i).setBo i .zero).bo j).cpuLease = some l →
      j ≠ i ∧ (v.bo j).cpuLease = some l ∧ ((v.setBo i .zero).bo j).cpuLease = some l := by
    intro j l hl
    by_cases hji : j = i
    · subst hji
      rw [setBo_bo_self] at hl
      cases hl
    · rw [setBo_bo_of_ne _ _ _ _ hji, closePages_bo] at hl
      exact ⟨hji, hl, by rwa [setBo_bo_of_ne _ _ _ _ hji]⟩
  by_cases hg : (v.bo i).gpuVa = 0
  · refine hcpu.frame (fun j l hl => (hsub j l hl).2.2) (fun j l _ a _ => ?_) fun k m hm => ?_
    · exact congrFun (closePages_unmapped_pageTable hg) a
    · have hm' : leases (closePages v i) k = some m := hm
      rw [leases_closePages_unmapped hg] at hm'
      exact (hcpu.retained k m hm').sub fun j l hl => (hsub j l hl).2.2
  · refine hcpu.frame (fun j l hl => (hsub j l hl).2.2) (fun j l hl a ha => ?_)
      fun k m hm j l hl => ?_
    · show (closePages v i).mem.pageTable a = v.mem.pageTable a
      rw [closePages_mapped hg]
      refine retain_pageTable _ _ _ _ _ fun k m hm hin => ?_
      exact hcpu.retained k m hm j l (hsub j l hl).2.2 a hin ha
    · obtain ⟨hji, hl, hl'⟩ := hsub j l hl
      have hm' : leases (closePages v i) k = some m := hm
      rw [closePages_mapped hg] at hm'
      rcases leases_retain _ _ _ _ _ hm' with hm' | rfl
      · exact hcpu.retained k m hm' j l hl'
      · exact hoff hg j l hji hl

/-- A CPU mapping is made where nothing is mapped and nothing retained. -/
theorem CpuKept.cpu (h : CpuKept w) {v : UInt64} (hcall : cpuCall w op = some (i, some v))
    (hlive : (w.bo i).live = true) (hnone : (w.bo i).cpuPtr = 0) (hplat : PlatformMaps w op)
    (halign : PlatformAligns w op) (hc : LeavesCpu w op) : CpuKept (cpuMapped w i v) := by
  obtain ⟨hv, hclear⟩ := hplat i v hcall hnone
  have hself : ((cpuMapped w i v).bo i).cpuLease =
      some ⟨v, (w.bo i).size, pageOf (w.bo i).phys .cpuRw⟩ := by
    simp [cpuMapped, Bo.cpuLease, hlive, hv]
  have hne : ∀ j, j ≠ i → (cpuMapped w i v).bo j = w.bo j :=
    fun j hji => setBo_bo_of_ne _ _ _ _ hji
  have hleases : (fun j => ((cpuMapped w i v).bo j).cpuLease) =
      Function.update (fun j => (w.bo j).cpuLease) i
        (some ⟨v, (w.bo i).size, pageOf (w.bo i).phys .cpuRw⟩) := by
    funext j
    by_cases hji : j = i
    · subst hji
      rw [Function.update_self, hself]
    · rw [Function.update_of_ne hji, hne j hji]
  refine ⟨?_, fun j l hl => ?_, fun k m hm j l hl => ?_⟩
  · rw [hleases]
    exact h.kept.mapSpan (l := ⟨v, (w.bo i).size, pageOf (w.bo i).phys .cpuRw⟩) fun j m _ hj =>
      (h.kept.backed j m hj).apart_of_clear hclear
  · by_cases hji : j = i
    · subst hji
      rw [hself, Option.some.injEq] at hl
      subst hl
      exact halign j v hcall hnone
    · rw [hne j hji] at hl
      exact h.aligned j l hl
  · by_cases hji : j = i
    · subst hji
      rw [hself, Option.some.injEq] at hl
      subst hl
      exact hc.2 j v hcall hnone k m hm
    · rw [hne j hji] at hl
      exact h.retained k m hm j l hl

theorem CpuKept.served (h : CpuKept w) {arg : GemVaArg}
    (hk : servedBy w i arg.vaAddress (mapBytes (w.bo i) arg) (vaProt arg.flags) = some k) :
    CpuKept (mapFromRetained w i k arg.vaAddress (vaProt arg.flags)) := by
  obtain ⟨-, -, -, -, hphys⟩ := servedBy_eq_some hk
  have hsub : ∀ j l, ((mapFromRetained w i k arg.vaAddress (vaProt arg.flags)).bo j).cpuLease =
      some l → (w.bo j).cpuLease = some l := by
    intro j l hl
    rw [mapFromRetained_bo] at hl
    by_cases hji : j = i
    · subst hji
      rw [Function.update_self] at hl
      -- a buffer with a CPU mapping is served from its own pages
      obtain ⟨-, h0, -⟩ := cpuLease_eq_some hl
      have hown : (w.retained k).phys = (w.bo j).phys := hphys.resolve_right fun h' => h0 h'.2.1
      rw [← hl]
      simp [Bo.cpuLease, hown]
    · rwa [Function.update_of_ne hji] at hl
  refine h.frame hsub (fun _ _ _ a _ => by rw [mapFromRetained_pageTable]) fun l m hm => ?_
  rw [leases_mapFromRetained] at hm
  by_cases hlk : l = k
  · subst hlk
    rw [Function.update_self] at hm
    cases hm
  · rw [Function.update_of_ne hlk] at hm
    exact (h.retained l m hm).sub hsub

theorem CpuKept.afresh (h : CpuKept w) {arg : GemVaArg} {mapOk : Bool}
    (hoff : mapOk = true → OffCpu w arg.vaAddress (mapBytes (w.bo i) arg)) :
    CpuKept
      (mapAfresh w i arg.vaAddress (mapBytes (w.bo i) arg) (vaProt arg.flags) mapOk).2 := by
  have hbo := (releaseOverlapping_releases (w := w) arg.vaAddress (mapBytes (w.bo i) arg)).bo
  have hsub : ∀ j l, ((mapAfresh w i arg.vaAddress (mapBytes (w.bo i) arg) (vaProt arg.flags)
      mapOk).2.bo j).cpuLease = some l → (w.bo j).cpuLease = some l := by
    intro j l hl
    by_cases hji : j = i
    · subst hji
      cases mapOk with
      | true =>
        rw [mapAfresh_true] at hl
        replace hl : (Bo.cpuLease ((Shim.setBo _ j _).bo j)) = some l := hl
        rw [setBo_bo_self, hbo] at hl
        exact hl
      | false => rwa [mapAfresh_false, hbo] at hl
    · rwa [mapAfresh_bo_of_ne hji] at hl
  refine h.frame hsub (fun j l hl a ha => ?_) fun k m hm =>
    (h.retained k m (leases_mapAfresh hm).1).sub hsub
  have hl' := hsub j l hl
  exact mapAfresh_pageTable (fun k m hm hin => h.retained k m hm j l hl' a hin ha)
    fun hok hin => hoff hok j l hl' a hin ha

/-- One call keeps the CPU mappings. -/
theorem CpuKept.effect (h : CpuKept w) (he : Effect w op w') (hplat : PlatformMaps w op)
    (halign : PlatformAligns w op) (hc : LeavesCpu w op) : CpuKept w' := by
  cases he with
  | idle => exact h
  | create arg phys i _ hi =>
    have hsub : ∀ j l, (((w.setMem (w.mem.allocDirect phys (roundUpPage arg.boSize))).setBo i
        (createdBo w i arg phys)).bo j).cpuLease = some l → (w.bo j).cpuLease = some l := by
      intro j l hl
      by_cases hji : j = i
      · subst hji
        rw [setBo_bo_self] at hl
        cases (cpuLease_of_zero (b := createdBo w j arg phys) rfl).symm.trans hl
      · rwa [setBo_bo_of_ne _ _ _ _ hji] at hl
    exact h.frame hsub (fun _ _ _ _ _ => rfl) fun k m hm => (h.retained k m hm).sub hsub
  | close handle i hi => exact h.close hi hc
  | cpu op i v hcall hlive hnone => exact h.cpu hcall hlive hnone hplat halign hc
  | served arg mapOk i k hi hk => exact h.served hk
  | afresh arg mapOk i hi => exact h.afresh fun hok => hc.1.1 i ⟨hi, .inr hok⟩
  | unmap arg mapOk i hi =>
    have hoff := hc.1.2 i hi
    have hlease : Bo.cpuLease { w.bo i with gpuVa := 0 } = (w.bo i).cpuLease := rfl
    refine h.retain (.inr hlease) fun j l hl => hoff j l ?_
    by_cases hji : j = i
    · subst hji
      rwa [setBo_bo_self, hlease] at hl
    · rwa [setBo_bo_of_ne _ _ _ _ hji, retain_bo] at hl

/-- In every state of a run whose steps leave the CPU mappings alone. -/
theorem cpu_kept
    (h : Reach step (fun w op => PlatformMaps w op ∧ PlatformAligns w op ∧ LeavesCpu w op) .init
      w) : CpuKept w :=
  h.invariant CpuKept.init fun _ op hw hok => hw.effect (step_effect op) hok.1 hok.2.1 hok.2.2

end OopsMesa.Winsys
