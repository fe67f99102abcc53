/-
  No translation is forgotten.

  Every address the shim has mapped should lie in a range it still records: a live buffer's GPU
  range, a live buffer's CPU mapping, or a retained range. The records are leases of address
  space (`records`), and the invariant is that they account for every translation. One call keeps
  it, for any reading of the leases (`records_effect`), provided that a MAP does not overwrite a
  record: a buffer has one `gpu_va`, and a MAP of a buffer that is mapped elsewhere writes it
  over. `OverwritesNothing` is that condition. With it no translation is forgotten
  (`nothing_forgotten`); without it one outlives its buffer (`not_nothing_forgotten`).
-/
import OopsMesa.Lib.Account
import OopsMesa.Lib.Reach
import OopsMesa.Winsys.Retention

namespace OopsMesa.Winsys

open OopsMesa.Lib

variable {R : Pte → Pte → Prop} {w w' : Shim} {i : Fin winsysMaxBo}
  {k : Fin winsysMaxRetained}

/-- The places of the shim that record a range. -/
inductive Holder where
  | gpu (i : Fin winsysMaxBo)
  | cpu (i : Fin winsysMaxBo)
  | retained (k : Fin winsysMaxRetained)
  deriving DecidableEq

/-- The recorded GPU range of a live buffer, `gpu_va` with its size. -/
def Bo.gpuLease (b : Bo) : Option (Lease Pte) :=
  if b.live = true ∧ b.gpuVa ≠ 0 then some ⟨b.gpuVa, b.size, pageOf b.phys b.gpuProt⟩ else none

/-- The CPU mapping of a live buffer. -/
def Bo.cpuLease (b : Bo) : Option (Lease Pte) :=
  if b.live = true ∧ b.cpuPtr ≠ 0 then some ⟨b.cpuPtr, b.size, pageOf b.phys .cpuRw⟩ else none

/-- Every range the shim records. -/
def records (w : Shim) : Holder → Option (Lease Pte)
  | .gpu i => (w.bo i).gpuLease
  | .cpu i => (w.bo i).cpuLease
  | .retained k => leases w k

/-- The shim's records account for the page table. -/
def Recorded (R : Pte → Pte → Prop) (w : Shim) : Prop :=
  Accounted R w.mem.pageTable (records w)

/-- A call of the buffer interface proper: create, close, map, unmap. -/
def IsGem : Op → Prop
  | .gemCreate _ _ => True
  | .gemClose _ => True
  | .gemVa _ _ => True
  | _ => False

/-- Every address that translates lies in the recorded range of a live buffer or in a retained
    range; so once no buffer is live and no range retained, nothing translates. -/
structure NothingForgotten (w : Shim) : Prop where
  covered : ∀ a, w.mem.pageTable a ≠ none →
    (∃ i, (w.bo i).live = true ∧ (w.bo i).gpuVa ≠ 0 ∧ InSpan (w.bo i).gpuVa (w.bo i).size a) ∨
      ∃ k, (w.retained k).used = true ∧ InSpan (w.retained k).va (w.retained k).size a
  emptied : (∀ i, (w.bo i).live = false) → (∀ k, (w.retained k).used = false) →
    ∀ a, w.mem.pageTable a = none

/-- A MAP takes effect: a retained range serves it, or the platform accepts it. -/
def MapTakesEffect (w : Shim) (arg : GemVaArg) (mapOk : Bool) (i : Fin winsysMaxBo) : Prop :=
  mapTarget w arg = some i ∧
    ((servedBy w i arg.vaAddress (mapBytes (w.bo i) arg) (vaProt arg.flags)).isSome = true ∨
      mapOk = true)

/-- The condition on a step: a MAP that takes effect is at a non-zero address, of a buffer that
    records no range, or one at that same address. -/
def OverwritesNothing (w : Shim) : Op → Prop
  | .gemVa arg mapOk => ∀ i, MapTakesEffect w arg mapOk i →
    arg.vaAddress ≠ 0 ∧ ((w.bo i).gpuVa = 0 ∨ (w.bo i).gpuVa = arg.vaAddress)
  | _ => True

/-! ## Records that move -/

theorem gpuLease_of_zero {b : Bo} (h : b.gpuVa = 0) : b.gpuLease = none := by
  simp [Bo.gpuLease, h]

theorem cpuLease_of_zero {b : Bo} (h : b.cpuPtr = 0) : b.cpuLease = none := by
  simp [Bo.cpuLease, h]

theorem gpuLease_of_dead {b : Bo} (h : b.live = false) : b.gpuLease = none := by
  simp [Bo.gpuLease, h]

theorem cpuLease_of_dead {b : Bo} (h : b.live = false) : b.cpuLease = none := by
  simp [Bo.cpuLease, h]

theorem gpuLease_eq_some {b : Bo} {l : Lease Pte} (h : b.gpuLease = some l) :
    b.live = true ∧ b.gpuVa ≠ 0 ∧ l = ⟨b.gpuVa, b.size, pageOf b.phys b.gpuProt⟩ := by
  unfold Bo.gpuLease at h
  split at h
  · next hc => exact ⟨hc.1, hc.2, (Option.some.inj h).symm⟩
  · cases h

theorem cpuLease_eq_some {b : Bo} {l : Lease Pte} (h : b.cpuLease = some l) :
    b.live = true ∧ b.cpuPtr ≠ 0 ∧ l = ⟨b.cpuPtr, b.size, pageOf b.phys .cpuRw⟩ := by
  unfold Bo.cpuLease at h
  split at h
  · next hc => exact ⟨hc.1, hc.2, (Option.some.inj h).symm⟩
  · cases h

theorem cpuLease_of_live {b : Bo} (h : b.live = true) (hc : b.cpuPtr ≠ 0) :
    b.cpuLease = some ⟨b.cpuPtr, b.size, pageOf b.phys .cpuRw⟩ := if_pos ⟨h, hc⟩

/-- The record `l` is still held in `w'`. -/
def StillHeld (R : Pte → Pte → Prop) (w' : Shim) (l : Lease Pte) : Prop :=
  ∃ o m, records w' o = some m ∧ m.Subsumes R l

theorem StillHeld.of_records {o : Holder} {l : Lease Pte} (h : records w' o = some l) :
    StillHeld R w' l :=
  ⟨o, l, h, .refl R l⟩

/-- When only entry `i` of the buffer table is written, only its records and the retained ranges
    have to be found again. -/
theorem StillHeld.of_bo (hbo : ∀ j, j ≠ i → w'.bo j = w.bo j) {P : Lease Pte → Prop}
    (hgpu : ∀ l, (w.bo i).gpuLease = some l → P l → StillHeld R w' l)
    (hcpu : ∀ l, (w.bo i).cpuLease = some l → P l → StillHeld R w' l)
    (hret : ∀ k l, leases w k = some l → P l → StillHeld R w' l) :
    ∀ o l, records w o = some l → P l → StillHeld R w' l := by
  intro o l hl hP
  cases o with
  | gpu j =>
    by_cases hji : j = i
    · subst hji
      exact hgpu l hl hP
    · refine StillHeld.of_records (o := .gpu j) ?_
      rw [← hl]
      exact congrArg Bo.gpuLease (hbo j hji)
  | cpu j =>
    by_cases hji : j = i
    · subst hji
      exact hcpu l hl hP
    · refine StillHeld.of_records (o := .cpu j) ?_
      rw [← hl]
      exact congrArg Bo.cpuLease (hbo j hji)
  | retained k => exact hret k l hl hP

/-- A range that is stored in a free entry leaves the ranges of the others. -/
theorem StillHeld.of_stored {k m : Fin winsysMaxRetained} {l stored : Lease Pte}
    (hstored : leases w' = Function.update (leases w) k (some stored))
    (hk : (w.retained k).used = false) (hl : leases w m = some l) : StillHeld R w' l := by
  have hmk : m ≠ k := by
    rintro rfl
    exact nomatch (used_of_leases hl).1.symm.trans hk
  refine StillHeld.of_records (o := .retained m) ?_
  exact (congrFun hstored m).trans ((Function.update_of_ne hmk ..).trans hl)

/-! ## Each call -/

theorem Recorded.release (h : Recorded R w) (hk : (w.retained k).used = true) :
    Recorded R (retainedRelease w k) := by
  unfold Recorded
  rw [retainedRelease_pageTable]
  refine h.unmapSpan fun o l hl => ?_
  cases o with
  | gpu i => exact .inl (StillHeld.of_records (o := .gpu i) (by simpa [records] using hl))
  | cpu i => exact .inl (StillHeld.of_records (o := .cpu i) (by simpa [records] using hl))
  | retained m =>
    by_cases hmk : m = k
    · subst hmk
      obtain ⟨-, rfl⟩ := used_of_leases hl
      exact .inr ⟨rfl, rfl⟩
    · refine .inl (StillHeld.of_records (o := .retained m) ?_)
      show leases (retainedRelease w k) m = some l
      rw [leases_retainedRelease, Function.update_of_ne hmk]
      exact hl

theorem Releases.recorded (h : Releases w w') (hw : Recorded R w) : Recorded R w' :=
  h.invariant hw fun _ _ hv hk => hv.release hk

/-- UNMAP: the buffer's record becomes a retained range. -/
theorem Recorded.unmap (h : Recorded R w) :
    Recorded R ((retain w (w.bo i).gpuVa (w.bo i).size (w.bo i).phys (w.bo i).gpuProt false).setBo
      i { w.bo i with gpuVa := 0 }) := by
  obtain ⟨v, k, hrel, hk, heq⟩ := retain_eq (w := w) (w.bo i).gpuVa (w.bo i).size (w.bo i).phys
    (w.bo i).gpuProt false
  have hbo := hrel.bo
  rw [heq]
  refine (hrel.recorded h).move fun o l hl => ?_
  have hstored := leases_retainedStore (w := v) (k := k) (w.bo i).gpuVa (w.bo i).size
    (w.bo i).phys (w.bo i).gpuProt false
  refine StillHeld.of_bo (w := v) (i := i) (P := fun _ => True) ?_ ?_ ?_ ?_ o l hl trivial
  · intro j hji
    rw [setBo_bo_of_ne _ _ _ _ hji, retainedStore_bo]
  · intro l hl _
    rw [hbo] at hl
    obtain ⟨-, -, rfl⟩ := gpuLease_eq_some hl
    refine StillHeld.of_records (o := .retained k) ?_
    exact (congrFun hstored k).trans (Function.update_self ..)
  · intro l hl _
    rw [hbo] at hl
    refine StillHeld.of_records (o := .cpu i) ?_
    rw [← hl]
    simp [records, Bo.cpuLease]
  · intro m l hl _
    exact StillHeld.of_stored hstored hk hl

theorem Recorded.closeCpu (h : Recorded R w) : Recorded R (closeCpu w i) := by
  unfold Winsys.closeCpu
  split
  · exact Accounted.sub h fun a e he => (of_unmapSpan_eq_some he).2
  · exact h

/-- CLOSE: the CPU mapping is cleared, and the GPU range becomes a retained range. -/
theorem Recorded.close (h : Recorded R w) :
    Recorded R ((closePages (Winsys.closeCpu w i) i).setBo i .zero) := by
  have hcpu := fun a h0 hin => closeCpu_cleared (w := w) (i := i) (a := a) h0 hin
  have hv : Recorded R (Winsys.closeCpu w i) := h.closeCpu
  have hbo : (Winsys.closeCpu w i).bo = w.bo := closeCpu_bo
  generalize Winsys.closeCpu w i = v at hcpu hv hbo ⊢
  -- what is left of the CPU mapping after the clearing translates to nothing
  have hgone : ∀ a, v.mem.pageTable a ≠ none → ∀ l, (w.bo i).cpuLease = some l →
      ¬ InSpan l.base l.size a := by
    intro a ha l hl hin
    obtain ⟨-, h0, rfl⟩ := cpuLease_eq_some hl
    exact ha (hcpu a h0 hin)
  by_cases hg : (v.bo i).gpuVa = 0
  · intro a e he
    replace he : v.mem.pageTable a = some e := by rwa [← closePages_unmapped_pageTable hg]
    refine (hv a e he).move fun o l hl hin => ?_
    refine StillHeld.of_bo (w := v) (i := i) (P := fun l => InSpan l.base l.size a) ?_ ?_ ?_ ?_
      o l hl hin
    · intro j hji
      rw [setBo_bo_of_ne _ _ _ _ hji, closePages_unmapped hg]
      split <;> rfl
    · intro l hl _
      rw [gpuLease_of_zero hg] at hl
      cases hl
    · intro l hl hin
      rw [hbo] at hl
      exact absurd hin (hgone a (by simp [he]) l hl)
    · intro m l hl _
      refine StillHeld.of_records (o := .retained m) ?_
      exact (congrFun (leases_closePages_unmapped hg) m).trans hl
  · rw [closePages_mapped hg]
    obtain ⟨u, k, hrel, hk, heq⟩ := retain_eq (w := v) (v.bo i).gpuVa (v.bo i).size (v.bo i).phys
      (v.bo i).gpuProt true
    rw [heq]
    have hstored := leases_retainedStore (w := u) (k := k) (v.bo i).gpuVa (v.bo i).size
      (v.bo i).phys (v.bo i).gpuProt true
    intro a e he
    refine (hrel.recorded hv a e he).move fun o l hl hin => ?_
    refine StillHeld.of_bo (w := u) (i := i) (P := fun l => InSpan l.base l.size a) ?_ ?_ ?_ ?_
      o l hl hin
    · intro j hji
      rw [setBo_bo_of_ne _ _ _ _ hji, retainedStore_bo]
    · intro l hl _
      rw [hrel.bo] at hl
      obtain ⟨-, -, rfl⟩ := gpuLease_eq_some hl
      refine StillHeld.of_records (o := .retained k) ?_
      exact (congrFun hstored k).trans (Function.update_self ..)
    · intro l hl hin
      rw [hrel.bo, hbo] at hl
      have := hrel.pageTable_eq_some he
      exact absurd hin (hgone a (by simp [this]) l hl)
    · intro m l hl _
      exact StillHeld.of_stored hstored hk hl

/-- A CPU mapping is recorded where it is made. -/
theorem Recorded.cpu (h : Recorded R w) (hR : ∀ e, R e e) (hlive : (w.bo i).live = true)
    (hnone : (w.bo i).cpuPtr = 0) {v : UInt64} (hv : v ≠ 0) : Recorded R (cpuMapped w i v) := by
  have hrec : records (cpuMapped w i v) (.cpu i) =
      some ⟨v, (w.bo i).size, pageOf (w.bo i).phys .cpuRw⟩ := by
    simp [records, cpuMapped, Bo.cpuLease, hlive, hv]
  refine Accounted.mapSpan (h.move fun o l hl => ?_) hrec rfl (UInt64.le_refl _) fun _ => hR _
  refine StillHeld.of_bo (w := w) (i := i) (P := fun _ => True) ?_ ?_ ?_ ?_ o l hl trivial
  · intro j hji
    exact setBo_bo_of_ne _ _ _ _ hji
  · intro l hl _
    refine StillHeld.of_records (o := .gpu i) ?_
    rw [← hl]
    simp [records, cpuMapped, Bo.gpuLease]
  · intro l hl _
    rw [cpuLease_of_zero hnone] at hl
    cases hl
  · intro m l hl _
    exact StillHeld.of_records (o := .retained m) hl

/-- What a MAP must find: a non-zero address, and no other record of the buffer to write over. -/
def MapKeepsRecord (R : Pte → Pte → Prop) (bo : Bo) (va : UInt64) : Prop :=
  va ≠ 0 ∧ (bo.gpuVa = 0 ∨ bo.gpuVa = va ∧ ∀ e e', R e e')

/-- The record a MAP writes takes the place of the one that was there. -/
theorem MapKeepsRecord.stillHeld {va : UInt64} {phys : Int} {prot : Prot}
    (h : MapKeepsRecord R (w.bo i) va)
    (hnew : records w' (.gpu i) = some ⟨va, (w.bo i).size, pageOf phys prot⟩) {l : Lease Pte}
    (hl : (w.bo i).gpuLease = some l) : StillHeld R w' l := by
  obtain ⟨-, hg, rfl⟩ := gpuLease_eq_some hl
  obtain ⟨hva, hR⟩ := h.2.resolve_left hg
  exact ⟨.gpu i, _, hnew, ⟨hva.symm, UInt64.le_refl _, fun e off _ => hR e _⟩⟩

theorem Recorded.served (h : Recorded R w) {arg : GemVaArg} (hi : mapTarget w arg = some i)
    (hk : servedBy w i arg.vaAddress (mapBytes (w.bo i) arg) (vaProt arg.flags) = some k)
    (hmap : MapKeepsRecord R (w.bo i) arg.vaAddress) :
    Recorded R (mapFromRetained w i k arg.vaAddress (vaProt arg.flags)) := by
  have hlive := mapTarget_live hi
  have hsize := mapTarget_size hi
  obtain ⟨-, -, -, -, hphys⟩ := servedBy_eq_some hk
  have hbo := mapFromRetained_bo (w := w) (i := i) (k := k) arg.vaAddress (vaProt arg.flags)
  have hnew : records (mapFromRetained w i k arg.vaAddress (vaProt arg.flags)) (.gpu i) =
      some ⟨arg.vaAddress, (w.bo i).size,
        pageOf (w.retained k).phys (vaProt arg.flags)⟩ := by
    simp [records, hbo, Bo.gpuLease, hlive, hmap.1]
  unfold Recorded
  rw [mapFromRetained_pageTable]
  refine h.move fun o l hl => ?_
  refine StillHeld.of_bo (w := w) (i := i) (P := fun _ => True) ?_ ?_ ?_ ?_ o l hl trivial
  · intro j hji
    rw [hbo, Function.update_of_ne hji]
  · intro l hl _
    exact hmap.stillHeld hnew hl
  · intro l hl _
    -- a buffer with a CPU mapping is served from its own pages
    obtain ⟨-, h0, -⟩ := cpuLease_eq_some hl
    have hown : (w.retained k).phys = (w.bo i).phys := hphys.resolve_right fun h' => h0 h'.2.1
    refine StillHeld.of_records (o := .cpu i) ?_
    rw [← hl]
    simp [records, hbo, Bo.cpuLease, hown]
  · intro m l hl _
    by_cases hmk : m = k
    · subst hmk
      rw [leases_of_servedBy hk, Option.some.injEq] at hl
      subst hl
      exact ⟨.gpu i, _, hnew, rfl, hsize, fun _ _ he => he⟩
    · refine StillHeld.of_records (o := .retained m) ?_
      show leases _ m = some l
      rw [leases_mapFromRetained, Function.update_of_ne hmk]
      exact hl

theorem Recorded.afresh (h : Recorded R w) (hR : ∀ e, R e e) {arg : GemVaArg} {mapOk : Bool}
    (hi : mapTarget w arg = some i)
    (hmap : mapOk = true → MapKeepsRecord R (w.bo i) arg.vaAddress) :
    Recorded R
      (mapAfresh w i arg.vaAddress (mapBytes (w.bo i) arg) (vaProt arg.flags) mapOk).2 := by
  have hrel := releaseOverlapping_releases (w := w) arg.vaAddress (mapBytes (w.bo i) arg)
  have hv := hrel.recorded h
  cases mapOk with
  | false =>
    rw [mapAfresh_false]
    exact hv
  | true =>
    rw [mapAfresh_true]
    have hbo := hrel.bo
    generalize releaseOverlapping w arg.vaAddress (mapBytes (w.bo i) arg) = v at hv hbo ⊢
    have hkeep := hmap rfl
    have hlive := mapTarget_live hi
    have hsize := mapTarget_size hi
    rw [← hbo] at hkeep hlive hsize ⊢
    let u := (v.setMem (v.mem.batchMap arg.vaAddress (v.bo i).phys (mapBytes (v.bo i) arg)
      (vaProt arg.flags))).setBo i
        { v.bo i with gpuVa := arg.vaAddress, gpuProt := vaProt arg.flags }
    have hnew : records u (.gpu i) =
        some ⟨arg.vaAddress, (v.bo i).size, pageOf (v.bo i).phys (vaProt arg.flags)⟩ := by
      simp [u, records, Bo.gpuLease, hlive, hkeep.1]
    show Recorded R u
    refine Accounted.mapSpan (hv.move fun o l hl => ?_) hnew rfl hsize fun _ => hR _
    refine StillHeld.of_bo (w := v) (i := i) (P := fun _ => True) ?_ ?_ ?_ ?_ o l hl trivial
    · intro j hji
      exact setBo_bo_of_ne _ _ _ _ hji
    · intro l hl _
      exact hkeep.stillHeld hnew hl
    · intro l hl _
      refine StillHeld.of_records (o := .cpu i) ?_
      rw [← hl]
      simp [u, records, Bo.cpuLease]
    · intro m l hl _
      exact StillHeld.of_records (o := .retained m) hl

/-- One call keeps the page table accounted for, if a MAP that takes effect writes over no
    record. -/
theorem Recorded.effect (h : Recorded R w) (hR : ∀ e, R e e) {op : Op} (he : Effect w op w')
    (hplat : PlatformMaps w op)
    (hmap : ∀ arg mapOk i, op = .gemVa arg mapOk → MapTakesEffect w arg mapOk i →
      MapKeepsRecord R (w.bo i) arg.vaAddress) : Recorded R w' := by
  cases he with
  | idle => exact h
  | create arg phys i _ hi =>
    refine Accounted.move h fun o l hl => ?_
    refine StillHeld.of_bo (w := w) (i := i) (P := fun _ => True) ?_ ?_ ?_ ?_ o l hl trivial
    · intro j hji
      exact setBo_bo_of_ne _ _ _ _ hji
    · intro l hl _
      rw [gpuLease_of_dead (freeBo_dead hi)] at hl
      cases hl
    · intro l hl _
      rw [cpuLease_of_dead (freeBo_dead hi)] at hl
      cases hl
    · intro m l hl _
      exact StillHeld.of_records (o := .retained m) hl
  | close => exact h.close
  | cpu op i v hcall hlive hnone => exact h.cpu hR hlive hnone (hplat i v hcall hnone).1
  | served arg mapOk i k hi hk =>
    exact h.served hi hk (hmap arg mapOk i rfl ⟨hi, .inl (by rw [hk]; rfl)⟩)
  | afresh arg mapOk i hi => exact h.afresh hR hi fun hok => hmap arg mapOk i rfl ⟨hi, .inr hok⟩
  | unmap arg mapOk i => exact h.unmap

/-! ## Nothing is forgotten -/

/-- In a run without CPU-mapping calls no buffer has a CPU mapping. -/
def NoCpuPtr (w : Shim) : Prop := ∀ i, (w.bo i).cpuPtr = 0

theorem NoCpuPtr.effect (h : NoCpuPtr w) {op : Op} (he : Effect w op w') (hgem : IsGem op) :
    NoCpuPtr w' := by
  have hset : ∀ (v : Shim) (i : Fin winsysMaxBo) (b : Bo), v.bo = w.bo → b.cpuPtr = 0 →
      NoCpuPtr (v.setBo i b) := by
    intro v i b hv hb j
    by_cases hji : j = i
    · subst hji
      rw [setBo_bo_self]
      exact hb
    · rw [setBo_bo_of_ne _ _ _ _ hji, hv]
      exact h j
  cases he with
  | idle => exact h
  | create arg phys i => exact hset _ i _ rfl rfl
  | close handle i hi =>
    exact hset _ i _ (closePages_bo.trans closeCpu_bo) rfl
  | cpu op i v hcall => cases op <;> first | exact hgem.elim | cases hcall
  | served arg mapOk i k =>
    intro j
    rw [mapFromRetained_bo]
    by_cases hji : j = i
    · subst hji
      rw [Function.update_self]
      exact h j
    · rw [Function.update_of_ne hji]
      exact h j
  | afresh arg mapOk i =>
    have hbo := (releaseOverlapping_releases (w := w) arg.vaAddress (mapBytes (w.bo i) arg)).bo
    cases mapOk with
    | true =>
      rw [mapAfresh_true]
      refine hset _ i _ hbo ?_
      show (Shim.bo _ i).cpuPtr = 0
      rw [hbo]
      exact h i
    | false =>
      rw [mapAfresh_false]
      intro j
      rw [hbo]
      exact h j
  | unmap arg mapOk i => exact hset _ i _ (retain_bo _ _ _ _ _) (h i)

/-- Without CPU mappings the records are the GPU ranges and the retained ranges. -/
theorem Recorded.nothingForgotten (h : Recorded R w) (hcpu : NoCpuPtr w) : NothingForgotten w := by
  refine ⟨fun a ha => ?_, fun hdead hfree => ?_⟩
  · obtain ⟨e, he⟩ := Option.ne_none_iff_exists'.mp ha
    obtain ⟨o, l, hl, hin, -⟩ := h a e he
    cases o with
    | gpu i =>
      obtain ⟨hlive, hg, rfl⟩ := gpuLease_eq_some hl
      exact .inl ⟨i, hlive, hg, hin⟩
    | cpu i =>
      obtain ⟨-, h0, -⟩ := cpuLease_eq_some hl
      exact absurd (hcpu i) h0
    | retained k =>
      obtain ⟨hused, rfl⟩ := used_of_leases hl
      exact .inr ⟨k, hused, hin⟩
  · refine Accounted.none_of_no_lease h fun o => ?_
    cases o with
    | gpu i => exact gpuLease_of_dead (hdead i)
    | cpu i => exact cpuLease_of_dead (hdead i)
    | retained k => simp [records, leases, RetainedRange.lease, hfree k]

/-- **No translation is forgotten.** In every state of a run whose MAPs write over no record. -/
theorem nothing_forgotten
    (h : Reach step (fun w op => IsGem op ∧ OverwritesNothing w op) .init w) :
    NothingForgotten w := by
  have hinv : Recorded (fun _ _ => True) w ∧ NoCpuPtr w := by
    refine h.invariant (P := fun w => Recorded (fun _ _ => True) w ∧ NoCpuPtr w) ⟨?_, ?_⟩ ?_
    · exact fun _ _ he => nomatch he
    · exact fun _ => rfl
    · rintro v op ⟨hv, hcpu⟩ ⟨hgem, hok⟩
      have heff := step_effect (w := v) op
      refine ⟨hv.effect (fun _ => trivial) heff ?_ ?_, hcpu.effect heff hgem⟩
      · intro i u hcall
        cases op <;> first | exact hgem.elim | cases hcall
      · rintro arg mapOk i rfl hmap
        obtain ⟨hva, hg⟩ := hok i hmap
        exact ⟨hva, hg.imp_right fun heq => ⟨heq, fun _ _ => trivial⟩⟩
  exact hinv.1.nothingForgotten hinv.2

/-- A buffer of one page. -/
private def createAPage : GemCreateIn := ⟨0x4000, 0x4000, 4, 0⟩

/-- The whole of buffer 1 mapped at `va`. -/
private def mapFirstAt (va : UInt64) : GemVaArg := ⟨1, vaOpMap, 6, va, 0, 0⟩

theorem nothing_forgotten_map :
    let w := run .init [.gemCreate createAPage (some 0), .gemVa (mapFirstAt 0x400000000) true]
    (∃ i, (w.bo i).live = true ∧ (w.bo i).gpuVa ≠ 0 ∧
      InSpan (w.bo i).gpuVa (w.bo i).size 0x400000000) ∨
        ∃ k, (w.retained k).used = true ∧
          InSpan (w.retained k).va (w.retained k).size 0x400000000 := by
  let create : Op := .gemCreate createAPage (some 0)
  let first : Op := .gemVa (mapFirstAt 0x400000000) true
  let u := step .init create
  have hmap : IsGem first ∧ OverwritesNothing u first := by
    refine ⟨trivial, ?_⟩
    rintro i ⟨hi, -⟩
    have ht : mapTarget u (mapFirstAt 0x400000000) = some 0 := by decide +kernel
    obtain rfl : i = 0 := Option.some.inj (hi.symm.trans ht)
    exact ⟨by decide, .inl (by decide +kernel)⟩
  have hu : Reach step (fun w op => IsGem op ∧ OverwritesNothing w op) .init u :=
    Reach.refl.tail create ⟨trivial, trivial⟩
  exact (nothing_forgotten (hu.tail first hmap)).covered 0x400000000 (by decide +kernel)

/-- **A second MAP forgets the first.** Buffer 1 is mapped at one address and then at another.
    The first still translates, and no record holds it. -/
theorem not_nothing_forgotten :
    ¬ ∀ w, Reach step (fun _ op => IsGem op) .init w → NothingForgotten w := by
  intro hall
  let create : Op := .gemCreate createAPage (some 0)
  let first : Op := .gemVa (mapFirstAt 0x400000000) true
  let second : Op := .gemVa (mapFirstAt 0x500000000) true
  let u := step .init create
  let w := step (step u first) second
  have hreach : Reach step (fun _ op => IsGem op) .init w :=
    ((Reach.refl.tail create trivial).tail first trivial).tail second trivial
  rcases (hall w hreach).covered 0x400000000 (by decide +kernel) with
    ⟨i, hlive, -, hin⟩ | ⟨k, hused, -⟩
  · by_cases hi : i = 0
    · subst hi
      have hout : ¬ InSpan (w.bo 0).gpuVa (w.bo 0).size 0x400000000 := by decide +kernel
      exact hout hin
    · -- every call of the run is about buffer 1
      have hne : some (0 : Fin winsysMaxBo) ≠ some i := fun h => hi (Option.some.inj h).symm
      have h1 : opTarget .init create = some 0 := by decide +kernel
      have h2 : opTarget u first = some 0 := by decide +kernel
      have h3 : opTarget (step u first) second = some 0 := by decide +kernel
      have hdead : w.bo i = .zero := by
        rw [step_bo_of_ne (h3 ▸ hne), step_bo_of_ne (h2 ▸ hne), step_bo_of_ne (h1 ▸ hne)]
        rfl
      rw [hdead] at hlive
      cases hlive
  · have hfree : ∀ k, (w.retained k).used = false := by decide +kernel
    rw [hfree k] at hused
    cases hused

end OopsMesa.Winsys
