/-
  A buffer keeps its contents.

  Once the CPU or the GPU may have written a buffer, its pages must stay its own: the same block
  until the buffer is closed, and the same page through its CPU pointer and its GPU address. A
  MAP that takes a closed buffer's range over replaces the pages, and looks only at the CPU
  pointer before it does. What the CPU or the GPU wrote through an earlier MAP is lost. And an
  address stays a buffer's only while nobody maps or unmaps over it. `KeepsPages` is the
  condition that a step does neither. Under it the mappings, the CPU mappings and the retained
  ranges form one ledger of the address space, and contents are kept (`contents_kept`). Without
  it they are not (`not_contents_kept`).
-/
import OopsMesa.Winsys.Coverage
import OopsMesa.Winsys.Ownership
import OopsMesa.Winsys.Standing

namespace OopsMesa.Winsys

open OopsMesa.Lib

variable {w w' : Shim} {st : Fin winsysMaxBo → Option (UInt64 × UInt64)} {i j : Fin winsysMaxBo}
  {k : Fin winsysMaxRetained} {o : Holder} {B B' : Holder → Option (Lease Pte)}

/-- From `t` to `u` buffer `i` has kept its contents: it has the pages it had, a recorded address
    is where its last MAP stands, and that mapping and its CPU mapping both lead to those pages. -/
structure KeepsContents (t u : Tracked) (i : Fin winsysMaxBo) : Prop where
  phys : (u.shim.bo i).phys = (t.shim.bo i).phys
  mapped : (u.shim.bo i).gpuVa ≠ 0 → ∃ size, u.standing i = some ((u.shim.bo i).gpuVa, size)
  gpu : ∀ va size, u.standing i = some (va, size) → ∀ a, InSpan va size a →
    ∃ prot, u.shim.mem.pageTable a = some (pageOf (t.shim.bo i).phys prot (a - va))
  cpu : (u.shim.bo i).cpuPtr ≠ 0 → ∀ a, InSpan (u.shim.bo i).cpuPtr (u.shim.bo i).size a →
    ∃ prot, u.shim.mem.pageTable a =
      some (pageOf (t.shim.bo i).phys prot (a - (u.shim.bo i).cpuPtr))

/-- The call does not close buffer `i`. -/
def LeavesOpen (t : Tracked) (i : Fin winsysMaxBo) : Op → Prop
  | .gemClose handle => boOf t.shim handle ≠ some i
  | _ => True

/-- The condition on a step. A MAP that takes effect ends below the top, meets no other buffer's
    standing mapping and no CPU mapping, and takes other pages over only for a buffer not mapped
    since its creation. UNMAP and CLOSE retain a range only if it is mapped as a whole. -/
def KeepsPages (t : Tracked) : Op → Prop
  | .gemVa arg mapOk =>
    (∀ i, MapTakesEffect t.shim arg mapOk i →
      EndsBelowTop arg.vaAddress (mapBytes (t.shim.bo i) arg) ∧
        (∀ j s, j ≠ i → t.standing j = some s →
          Apart s.1 s.2 arg.vaAddress (mapBytes (t.shim.bo i) arg)) ∧
        (∀ j l, (t.shim.bo j).cpuLease = some l →
          Apart l.base l.size arg.vaAddress (mapBytes (t.shim.bo i) arg)) ∧
        ∀ k, servedBy t.shim i arg.vaAddress (mapBytes (t.shim.bo i) arg) (vaProt arg.flags) =
            some k →
          (t.shim.retained k).phys ≠ (t.shim.bo i).phys → t.touched i = false) ∧
      ∀ i, unmapTarget t.shim arg = some i →
        t.standing i = some ((t.shim.bo i).gpuVa, (t.shim.bo i).size)
  | .gemClose handle => ∀ i, boOf t.shim handle = some i → (t.shim.bo i).gpuVa ≠ 0 →
    t.standing i = some ((t.shim.bo i).gpuVa, (t.shim.bo i).size)
  | _ => True

/-! ## The ledger -/

/-- Leases of the buffers, together with the retained ranges. -/
def withRetained (B : Holder → Option (Lease Pte)) (w : Shim) : Holder → Option (Lease Pte)
  | .retained k => leases w k
  | o => B o

/-- The leases of the buffers: the mappings that stand, and the CPU mappings. -/
def bufferLeases (w : Shim) (st : Fin winsysMaxBo → Option (UInt64 × UInt64)) :
    Holder → Option (Lease Pte)
  | .gpu i => (st i).map fun s => ⟨s.1, s.2, pageOf (w.bo i).phys (w.bo i).gpuProt⟩
  | .cpu i => (w.bo i).cpuLease
  | .retained _ => none

/-- Buffers and retained ranges keep the address space. -/
def KeptBy (w : Shim) (B : Holder → Option (Lease Pte)) : Prop :=
  Kept w.mem.pageTable (withRetained B w)

theorem KeptBy.forget (h : KeptBy w B) (hpt : w'.mem.pageTable = w.mem.pageTable)
    (hret : ∀ k l, leases w' k = some l → leases w k = some l)
    (hB : ∀ o l, B' o = some l → B o = some l) : KeptBy w' B' := by
  unfold KeptBy
  rw [hpt]
  refine Kept.forget h fun o l hl => ?_
  cases o with
  | retained k => exact hret k l hl
  | gpu i => exact hB (.gpu i) l hl
  | cpu i => exact hB (.cpu i) l hl

theorem KeptBy.release (h : KeptBy w B) (hk : (w.retained k).used = true) :
    KeptBy (retainedRelease w k) B := by
  have hl : withRetained B (retainedRelease w k) =
      Function.update (withRetained B w) (.retained k) none := by
    funext o
    cases o with
    | retained m =>
      show leases (retainedRelease w k) m = _
      rw [leases_retainedRelease]
      by_cases hmk : m = k
      · subst hmk; simp
      · rw [Function.update_of_ne hmk, Function.update_of_ne (by simpa using hmk)]
        rfl
    | gpu i => simp [withRetained]
    | cpu i => simp [withRetained]
  have hlease : withRetained B w (.retained k) = some ⟨(w.retained k).va, (w.retained k).size,
      pageOf (w.retained k).phys (w.retained k).prot⟩ := leases_of_used hk
  have hkept : Kept w.mem.pageTable (withRetained B w) := h
  have hreleased := hkept.release hlease
  unfold KeptBy
  rw [retainedRelease_pageTable, hl]
  exact hreleased

theorem Releases.keptBy (hrel : Releases w w') (h : KeptBy w B) : KeptBy w' B :=
  hrel.invariant (P := fun v => KeptBy v B) h fun _ _ hv hk => hv.release hk

/-- A buffer's mapping becomes a retained range. -/
theorem KeptBy.retain (h : KeptBy w B) (owns : Bool) (ho : ∀ k, o ≠ .retained k)
    {va size : UInt64} {phys : Int} {prot : Prot} (hB : B o = some ⟨va, size, pageOf phys prot⟩) :
    KeptBy (retain w va size phys prot owns) (Function.update B o none) := by
  obtain ⟨v, k, hrel, hk, heq⟩ := retain_eq (w := w) va size phys prot owns
  have hv : KeptBy v B := hrel.keptBy h
  have hnone : withRetained B v (.retained k) = none := by
    simp [withRetained, leases, RetainedRange.lease, hk]
  have hsome : withRetained B v o = some ⟨va, size, pageOf phys prot⟩ := by
    rw [← hB]
    cases o with
    | retained k => exact absurd rfl (ho k)
    | gpu i => rfl
    | cpu i => rfl
  have hl : withRetained (Function.update B o none) (retainedStore v k va size phys prot owns) =
      Function.update (Function.update (withRetained B v) o none) (.retained k)
        (some ⟨va, size, pageOf phys prot⟩) := by
    funext o'
    by_cases hok : o' = .retained k
    · subst hok
      rw [Function.update_self]
      exact (congrFun (leases_retainedStore _ _ _ _ _) k).trans (Function.update_self ..)
    · rw [Function.update_of_ne hok]
      by_cases hoo : o' = o
      · subst hoo
        rw [Function.update_self]
        cases o' with
        | retained m => exact absurd rfl (ho m)
        | gpu i => exact Function.update_self ..
        | cpu i => exact Function.update_self ..
      · rw [Function.update_of_ne hoo]
        cases o' with
        | retained m =>
          have hmk : m ≠ k := fun heq => hok (heq ▸ rfl)
          exact (congrFun (leases_retainedStore _ _ _ _ _) m).trans (Function.update_of_ne hmk ..)
        | gpu i => exact Function.update_of_ne hoo ..
        | cpu i => exact Function.update_of_ne hoo ..
  unfold KeptBy
  rw [heq, retainedStore_mem, hl]
  exact Kept.pass hv hsome hnone

/-- The CPU mapping of a closing buffer ends. -/
theorem KeptBy.closeCpu (h : KeptBy w (bufferLeases w st)) (hlive : (w.bo i).live = true) :
    KeptBy (closeCpu w i) (Function.update (bufferLeases w st) (.cpu i) none) := by
  have hl : withRetained (Function.update (bufferLeases w st) (.cpu i) none) (Winsys.closeCpu w i) =
      Function.update (withRetained (bufferLeases w st) w) (.cpu i) none := by
    funext o
    cases o with
    | retained k =>
      rw [Function.update_of_ne (by simp)]
      exact congrFun leases_closeCpu k
    | gpu j => simp [withRetained]
    | cpu j =>
      by_cases hji : j = i
      · subst hji; simp [withRetained]
      · simp [withRetained, hji]
  unfold KeptBy
  rw [hl]
  by_cases h0 : (w.bo i).cpuPtr = 0
  · have hsame : (Winsys.closeCpu w i).mem.pageTable = w.mem.pageTable := by
      simp [Winsys.closeCpu, h0]
    rw [hsame]
    refine Kept.forget h fun o l hl => ?_
    by_cases ho : o = .cpu i
    · subst ho; simp at hl
    · rwa [Function.update_of_ne ho] at hl
  · have hgone : (Winsys.closeCpu w i).mem.pageTable =
        unmapSpan w.mem.pageTable (w.bo i).cpuPtr (w.bo i).size := by
      simp [Winsys.closeCpu, h0]
    have hlease : withRetained (bufferLeases w st) w (.cpu i) =
        some ⟨(w.bo i).cpuPtr, (w.bo i).size, pageOf (w.bo i).phys .cpuRw⟩ :=
      cpuLease_of_live hlive h0
    have hkept : Kept w.mem.pageTable (withRetained (bufferLeases w st) w) := h
    have hreleased := hkept.release hlease
    rw [hgone]
    exact hreleased

/-- A MAP made afresh adds its range, which meets no other. -/
theorem KeptBy.batchMap (h : KeptBy w B) (va size : UInt64) (phys : Int) (prot : Prot)
    (hret : ∀ k l, leases w k = some l → Apart l.base l.size va size)
    (ho : ∀ k, o ≠ .retained k)
    (hB : ∀ o' l, o' ≠ o → B o' = some l → Apart l.base l.size va size) :
    KeptBy (w.setMem (w.mem.batchMap va phys size prot))
      (Function.update B o (some ⟨va, size, pageOf phys prot⟩)) := by
  let l : Lease Pte := ⟨va, size, pageOf phys prot⟩
  have hl : withRetained (Function.update B o (some l))
      (w.setMem (w.mem.batchMap va phys size prot)) =
        Function.update (withRetained B w) o (some l) := by
    funext o'
    by_cases hoo : o' = o
    · subst hoo
      rw [Function.update_self]
      cases o' with
      | retained k => exact absurd rfl (ho k)
      | gpu i => exact Function.update_self ..
      | cpu i => exact Function.update_self ..
    · rw [Function.update_of_ne hoo]
      cases o' with
      | retained k => rfl
      | gpu i => exact Function.update_of_ne hoo ..
      | cpu i => exact Function.update_of_ne hoo ..
  unfold KeptBy
  rw [hl]
  refine Kept.mapSpan (l := l) h fun o' m hoo hm => ?_
  cases o' with
  | retained k => exact hret k m hm
  | gpu i => exact hB (.gpu i) m hoo hm
  | cpu i => exact hB (.cpu i) m hoo hm

/-- A MAP served from a retained range makes that range the buffer's. -/
theorem KeptBy.served (h : KeptBy w B) (ho : ∀ k, o ≠ .retained k) {l : Lease Pte}
    (hk : leases w k = some l) (hpt : w'.mem.pageTable = w.mem.pageTable)
    (hret : leases w' = Function.update (leases w) k none) :
    KeptBy w' (Function.update B o (some l)) := by
  have hfree : Kept w.mem.pageTable (Function.update (withRetained B w) o none) :=
    Kept.forget h fun o' m hm => by
      by_cases hoo : o' = o
      · subst hoo; simp at hm
      · rwa [Function.update_of_ne hoo] at hm
  have hpass := hfree.pass (i := Holder.retained k) (j := o) (l := l)
    (by rw [Function.update_of_ne (ho k).symm]; exact hk) (Function.update_self ..)
  unfold KeptBy
  rw [hpt]
  refine hpass.forget fun o' m hm => ?_
  by_cases hoo : o' = o
  · subst hoo
    rw [Function.update_self]
    cases o' with
    | retained k => exact absurd rfl (ho k)
    | gpu i => simpa [withRetained] using hm
    | cpu i => simpa [withRetained] using hm
  · rw [Function.update_of_ne hoo]
    cases o' with
    | retained n =>
      replace hm : leases w' n = some m := hm
      rw [hret] at hm
      by_cases hnk : n = k
      · subst hnk; simp at hm
      · rw [Function.update_of_ne hnk] at hm
        rw [Function.update_of_ne (by simpa using hnk), Function.update_of_ne hoo]
        exact hm
    | gpu i =>
      rw [Function.update_of_ne (by simp), Function.update_of_ne hoo]
      simpa [withRetained, Function.update_of_ne hoo] using hm
    | cpu i =>
      rw [Function.update_of_ne (by simp), Function.update_of_ne hoo]
      simpa [withRetained, Function.update_of_ne hoo] using hm

/-! ## The invariant -/

/-- The ledger is kept; every range of it that a test by ends will meet ends below the top; a
    recorded address is where a mapping stands; and what was not mapped has no mapping. -/
structure Steady (t : Tracked) : Prop where
  kept : KeptBy t.shim (bufferLeases t.shim t.standing)
  below : ∀ i s, t.standing i = some s → EndsBelowTop s.1 s.2
  retainedBelow : ∀ k l, leases t.shim k = some l → EndsBelowTop l.base l.size
  stands : ∀ i, (t.shim.bo i).gpuVa ≠ 0 → ∃ size, t.standing i = some ((t.shim.bo i).gpuVa, size)
  live : ∀ i, t.touched i = true → (t.shim.bo i).live = true
  untouched : ∀ i, t.touched i = false → t.standing i = none ∧ (t.shim.bo i).cpuPtr = 0

theorem Steady.init : Steady .init where
  kept := .empty fun o => by cases o <;> rfl
  below _ _ h := nomatch h
  retainedBelow _ _ h := nomatch h
  stands _ h := absurd rfl h
  live _ h := nomatch h
  untouched _ _ := ⟨rfl, rfl⟩

variable {t u : Tracked} {op : Op}

/-- A buffer whose entry and standing mapping a call leaves keeps its leases. -/
theorem bufferLeases_eq {st' : Fin winsysMaxBo → Option (UInt64 × UInt64)}
    (hbo : ∀ j, j ≠ i → w'.bo j = w.bo j) (hst : ∀ j s, j ≠ i → st' j = some s → st j = some s)
    {l : Lease Pte} (ho : o ≠ .gpu i) (ho' : o ≠ .cpu i) (hl : bufferLeases w' st' o = some l) :
    bufferLeases w st o = some l := by
  cases o with
  | gpu j =>
    have hji : j ≠ i := fun h => ho (h ▸ rfl)
    obtain ⟨s, hs, rfl⟩ := Option.map_eq_some_iff.mp hl
    rw [hbo j hji]
    exact Option.map_eq_some_iff.mpr ⟨s, hst j s hji hs, rfl⟩
  | cpu j =>
    have hji : j ≠ i := fun h => ho' (h ▸ rfl)
    show (w.bo j).cpuLease = some l
    rw [← hbo j hji]
    exact hl
  | retained k => cases hl

/-- What is retained after a MAP was served from a retained range was retained before. -/
theorem of_leases_mapFromRetained {l : Fin winsysMaxRetained} {m : Lease Pte} {va : UInt64}
    {prot : Prot} (hm : leases (mapFromRetained w i k va prot) l = some m) :
    leases w l = some m := by
  rw [leases_mapFromRetained] at hm
  by_cases hlk : l = k
  · subst hlk; simp at hm
  · rwa [Function.update_of_ne hlk] at hm

/-- Where a mapping that meets no other is made, the others stand as before. -/
theorem standAt_of_apart {va size : UInt64} {s : UInt64 × UInt64} (hji : j ≠ i)
    (hj : st j = some s) (hap : Apart s.1 s.2 va size) : standAt st i va size j = some s := by
  rw [standAt, Function.update_of_ne hji, hj]
  simp [not_meet_of_apart hap]

/-- A call that changes the entry of one buffer and what stands of it: the ledger apart, only that
    buffer is to be looked at. -/
theorem Steady.entry (h : Steady t) {st' : Fin winsysMaxBo → Option (UInt64 × UInt64)}
    {touched' : Fin winsysMaxBo → Bool} (i : Fin winsysMaxBo)
    (hbo : ∀ j, j ≠ i → w'.bo j = t.shim.bo j) (hst : ∀ j, j ≠ i → st' j = t.standing j)
    (ht : ∀ j, j ≠ i → touched' j = false → t.touched j = false)
    (hlive : ∀ j, touched' j = true → (w'.bo j).live = true)
    (hkept : KeptBy w' (bufferLeases w' st'))
    (hret : ∀ k l, leases w' k = some l → EndsBelowTop l.base l.size)
    (hbelow : ∀ s, st' i = some s → EndsBelowTop s.1 s.2)
    (hstands : (w'.bo i).gpuVa ≠ 0 → ∃ size, st' i = some ((w'.bo i).gpuVa, size))
    (hun : touched' i = false → st' i = none ∧ (w'.bo i).cpuPtr = 0) :
    Steady ⟨w', st', touched'⟩ where
  kept := hkept
  below j s hs := by
    by_cases hji : j = i
    · subst hji
      exact hbelow s hs
    · exact h.below j s ((hst j hji).symm.trans hs)
  retainedBelow := hret
  stands j := by
    by_cases hji : j = i
    · subst hji
      exact hstands
    · show (w'.bo j).gpuVa ≠ 0 → ∃ size, st' j = some ((w'.bo j).gpuVa, size)
      rw [hbo j hji, hst j hji]
      exact h.stands j
  live := hlive
  untouched j hj := by
    by_cases hji : j = i
    · subst hji
      exact hun hj
    · show st' j = none ∧ (w'.bo j).cpuPtr = 0
      rw [hbo j hji, hst j hji]
      exact h.untouched j (ht j hji hj)

/-! ## One call

Each call keeps the ledger; the buffers that are live are as `step_live` has it. -/

private theorem Steady.create (h : Steady t) (arg : GemCreateIn) (phys : Int)
    (hi : freeBo t.shim = some i) :
    let v := (t.shim.setMem (t.shim.mem.allocDirect phys (roundUpPage arg.boSize))).setBo i
      (createdBo t.shim i arg phys)
    (∀ j, t.touched j = true → (v.bo j).live = true) → Steady ⟨v, t.standing, t.touched⟩ := by
  intro v hlive
  have hnew : t.touched i = false := by
    rw [Bool.eq_false_iff]
    intro ht
    have := h.live i ht
    rw [freeBo_dead hi] at this
    cases this
  have hbo : ∀ j, j ≠ i → v.bo j = t.shim.bo j := fun j hji => setBo_bo_of_ne _ _ _ _ hji
  have hself : v.bo i = createdBo t.shim i arg phys := setBo_bo_self _ _ _
  refine h.entry i hbo (fun _ _ => rfl) (fun _ _ hj => hj) hlive
    (h.kept.forget rfl (fun _ _ hl => hl) fun o l hl => ?_) h.retainedBelow
    (h.below i) (fun hg => ?_) fun hi => ⟨(h.untouched i hi).1, ?_⟩
  · by_cases ho : o = .gpu i
    · subst ho
      simp [bufferLeases, (h.untouched i hnew).1] at hl
    · by_cases ho' : o = .cpu i
      · subst ho'
        have hnone : bufferLeases v t.standing (.cpu i) = none := by
          show (v.bo i).cpuLease = none
          rw [hself]
          exact cpuLease_of_zero rfl
        rw [hnone] at hl
        cases hl
      · exact bufferLeases_eq hbo (fun _ _ _ hs => hs) ho ho' hl
  · rw [hself] at hg
    exact absurd rfl hg
  · rw [hself]
    rfl

private theorem Steady.close (h : Steady t) {handle : UInt32} (hi : boOf t.shim handle = some i)
    (hc : KeepsPages t (.gemClose handle)) :
    let v := (closePages (closeCpu t.shim i) i).setBo i .zero
    let touched := Function.update t.touched i false
    (∀ j, touched j = true → (v.bo j).live = true) →
      Steady ⟨v, Function.update t.standing i none, touched⟩ := by
  intro v touched hlive
  have hcpu := h.kept.closeCpu (boOf_live hi)
  have hbo : (closeCpu t.shim i).bo = t.shim.bo := closeCpu_bo
  -- what the ledger of the closed table holds, it held before, and not for entry `i`
  have hsub : ∀ o l, bufferLeases v (Function.update t.standing i none) o = some l →
      o ≠ .gpu i ∧ Function.update (bufferLeases t.shim t.standing) (.cpu i) none o = some l := by
    intro o l hl
    have ho : o ≠ .gpu i := by
      rintro rfl
      simp [bufferLeases] at hl
    have ho' : o ≠ .cpu i := by
      rintro rfl
      have hnone : bufferLeases v (Function.update t.standing i none) (.cpu i) = none := by
        show (v.bo i).cpuLease = none
        rw [setBo_bo_self]
        rfl
      rw [hnone] at hl
      cases hl
    refine ⟨ho, ?_⟩
    rw [Function.update_of_ne ho']
    refine bufferLeases_eq (i := i) (fun j hji => ?_) (fun j s _ hs => ?_) ho ho' hl
    · rw [setBo_bo_of_ne _ _ _ _ hji, closePages_bo, hbo]
    · exact (update_none_eq_some hs).2
  have hretained : ∀ k l, leases (closeCpu t.shim i) k = some l → EndsBelowTop l.base l.size := by
    rw [leases_closeCpu]
    exact h.retainedBelow
  -- the ledger, and the ranges retained in it
  have hledger : KeptBy v (bufferLeases v (Function.update t.standing i none)) ∧
      ∀ k l, leases v k = some l → EndsBelowTop l.base l.size := by
    by_cases hg : (t.shim.bo i).gpuVa = 0
    · have hg' : ((closeCpu t.shim i).bo i).gpuVa = 0 := by rw [hbo]; exact hg
      have hl : leases v = leases (closeCpu t.shim i) := leases_closePages_unmapped hg'
      refine ⟨hcpu.forget (closePages_unmapped_pageTable hg') ?_ fun o l hl => (hsub o l hl).2, ?_⟩
      · rw [hl]
        exact fun _ _ hl => hl
      · rw [hl]
        exact hretained
    · have hst := hc i hi hg
      have hg' : ((closeCpu t.shim i).bo i).gpuVa ≠ 0 := by rw [hbo]; exact hg
      have heq := closePages_mapped hg'
      rw [hbo] at heq
      have hB : Function.update (bufferLeases t.shim t.standing) (.cpu i) none (.gpu i) =
          some ⟨(t.shim.bo i).gpuVa, (t.shim.bo i).size,
            pageOf (t.shim.bo i).phys (t.shim.bo i).gpuProt⟩ := by
        rw [Function.update_of_ne (by simp)]
        simp [bufferLeases, hst]
      have hret := hcpu.retain true (by simp) hB
      rw [← heq] at hret
      refine ⟨hret.forget rfl (fun _ _ hl => hl) fun o l hl => ?_, fun k l hl => ?_⟩
      · obtain ⟨ho, hl⟩ := hsub o l hl
        rw [Function.update_of_ne ho]
        exact hl
      · replace hl : leases (closePages (closeCpu t.shim i) i) k = some l := hl
        rw [heq] at hl
        rcases leases_retain _ _ _ _ _ hl with hl | rfl
        · exact hretained k l hl
        · exact h.below i _ hst
  refine h.entry i (fun j hji => ?_) (fun j hji => Function.update_of_ne hji ..) (fun j hji hj => ?_)
    hlive hledger.1 hledger.2 (fun s hs => ?_) (fun hg => ?_) fun _ => ⟨Function.update_self .., ?_⟩
  · rw [setBo_bo_of_ne _ _ _ _ hji, closePages_bo, hbo]
  · exact (Function.update_of_ne hji ..).symm.trans hj
  · rw [Function.update_self] at hs
    cases hs
  · rw [setBo_bo_self] at hg
    exact absurd rfl hg
  · rw [setBo_bo_self]
    rfl

private theorem Steady.cpu (h : Steady t) {v : UInt64} (hcall : cpuCall t.shim op = some (i, some v))
    (hnone : (t.shim.bo i).cpuPtr = 0) (hplat : PlatformMaps t.shim op) :
    let touched := Function.update t.touched i true
    (∀ j, touched j = true → ((cpuMapped t.shim i v).bo j).live = true) →
      Steady ⟨cpuMapped t.shim i v, t.standing, touched⟩ := by
  intro touched hlive
  obtain ⟨-, hclear⟩ := hplat i v hcall hnone
  have hkept : Kept t.shim.mem.pageTable
      (withRetained (bufferLeases t.shim t.standing) t.shim) := h.kept
  -- nothing is mapped at the new address, and every lease is backed
  have hnew := h.kept.batchMap (o := Holder.cpu i) v (t.shim.bo i).size (t.shim.bo i).phys .cpuRw
    (fun k l hl => (hkept.backed (.retained k) l hl).apart_of_clear hclear)
    (by simp)
    (fun o l _ hl => by
      cases o with
      | gpu j => exact (hkept.backed (.gpu j) l hl).apart_of_clear hclear
      | cpu j => exact (hkept.backed (.cpu j) l hl).apart_of_clear hclear
      | retained k => cases hl)
  have hself : (cpuMapped t.shim i v).bo i = { t.shim.bo i with cpuPtr := v } :=
    setBo_bo_self _ _ _
  have hbo : ∀ j, j ≠ i → (cpuMapped t.shim i v).bo j = t.shim.bo j :=
    fun j hji => setBo_bo_of_ne _ _ _ _ hji
  refine h.entry i hbo (fun _ _ => rfl)
    (fun j hji hj => (Function.update_of_ne hji ..).symm.trans hj) hlive
    (hnew.forget rfl (fun _ _ hl => hl) fun o l hl => ?_) h.retainedBelow (h.below i)
    (fun hg => ?_) fun hj => ?_
  · by_cases ho' : o = .cpu i
    · subst ho'
      rw [Function.update_self]
      replace hl : ((cpuMapped t.shim i v).bo i).cpuLease = some l := hl
      rw [hself] at hl
      obtain ⟨-, -, rfl⟩ := cpuLease_eq_some hl
      rfl
    · rw [Function.update_of_ne ho']
      by_cases ho : o = .gpu i
      · subst ho
        rw [← hl]
        simp [bufferLeases, hself]
      · exact bufferLeases_eq hbo (fun _ _ _ hs => hs) ho ho' hl
  · rw [hself] at hg ⊢
    exact h.stands i hg
  · cases (Function.update_self i true t.touched).symm.trans hj

private theorem Steady.served (h : Steady t) {arg : GemVaArg}
    (hi : mapTarget t.shim arg = some i)
    (hk : servedBy t.shim i arg.vaAddress (mapBytes (t.shim.bo i) arg) (vaProt arg.flags) =
      some k) :
    let v := mapFromRetained t.shim i k arg.vaAddress (vaProt arg.flags)
    KeptBy v
      (bufferLeases v (standAt t.standing i arg.vaAddress (mapBytes (t.shim.bo i) arg))) := by
  intro v
  obtain ⟨-, -, -, -, hphys⟩ := servedBy_eq_some hk
  have hbo : v.bo = _ := mapFromRetained_bo arg.vaAddress (vaProt arg.flags)
  have hpt : v.mem.pageTable = _ := mapFromRetained_pageTable arg.vaAddress (vaProt arg.flags)
  have hnew := h.kept.served (o := .gpu i) (by simp) (leases_of_servedBy hk) hpt
    (leases_mapFromRetained _ _)
  refine hnew.forget rfl (fun _ _ hl => hl) fun o l hl => ?_
  by_cases ho : o = .gpu i
  · subst ho
    rw [Function.update_self, ← hl]
    simp [bufferLeases, standAt, hbo]
  · rw [Function.update_of_ne ho]
    by_cases ho' : o = .cpu i
    · subst ho'
      replace hl : (v.bo i).cpuLease = some l := hl
      obtain ⟨-, h0, -⟩ := cpuLease_eq_some hl
      rw [hbo, Function.update_self] at h0
      -- a buffer with a CPU mapping is served from its own pages
      have hown : (t.shim.retained k).phys = (t.shim.bo i).phys :=
        hphys.resolve_right fun h' => h0 h'.2.1
      rw [← hl]
      simp [bufferLeases, hbo, Bo.cpuLease, hown]
    · refine bufferLeases_eq (i := i) (fun j hji => ?_) (fun j s hji hs => ?_) ho ho' hl
      · rw [hbo, Function.update_of_ne hji]
      · rcases standAt_eq_some hs with ⟨rfl, -⟩ | ⟨-, hs, -⟩
        · exact absurd rfl hji
        · exact hs

private theorem Steady.afresh (h : Steady t) {arg : GemVaArg} (hi : mapTarget t.shim arg = some i)
    (hc : KeepsPages t (.gemVa arg true)) :
    let v := (mapAfresh t.shim i arg.vaAddress (mapBytes (t.shim.bo i) arg)
      (vaProt arg.flags) true).2
    KeptBy v
      (bufferLeases v (standAt t.standing i arg.vaAddress (mapBytes (t.shim.bo i) arg))) := by
  obtain ⟨hbelow, hst, hcpu, -⟩ := hc.1 i ⟨hi, .inr rfl⟩
  have hrel := releaseOverlapping_releases (w := t.shim) arg.vaAddress
    (mapBytes (t.shim.bo i) arg)
  have hkept : KeptBy _ (bufferLeases t.shim t.standing) := hrel.keptBy h.kept
  have hclear : ∀ k l, leases (releaseOverlapping t.shim arg.vaAddress
        (mapBytes (t.shim.bo i) arg)) k = some l →
      endsOverlap arg.vaAddress (mapBytes (t.shim.bo i) arg) l.base l.size = false :=
    fun _ _ hl => releaseOverlapping_clear hl
  have hbo := hrel.bo
  have hold := fun k l => hrel.leases (k := k) (m := l)
  rw [mapAfresh_true]
  generalize releaseOverlapping t.shim arg.vaAddress (mapBytes (t.shim.bo i) arg) = u at *
  intro v
  have hnew := hkept.batchMap (o := .gpu i) arg.vaAddress (mapBytes (t.shim.bo i) arg) (u.bo i).phys
    (vaProt arg.flags)
    (fun k l hl => (apart_of_no_overlap hbelow (h.retainedBelow k l (hold k l hl))
      (hclear k l hl)).symm)
    (by simp)
    (fun o l ho hl => by
      cases o with
      | gpu j =>
        obtain ⟨s, hs, rfl⟩ := Option.map_eq_some_iff.mp hl
        exact hst j s (fun hji => ho (hji ▸ rfl)) hs
      | cpu j => exact hcpu j l hl
      | retained k => cases hl)
  have hself : v.bo i = { u.bo i with gpuVa := arg.vaAddress, gpuProt := vaProt arg.flags } :=
    setBo_bo_self _ _ _
  refine hnew.forget rfl (fun _ _ hl => hl) fun o l hl => ?_
  by_cases ho : o = .gpu i
  · subst ho
    rw [Function.update_self, ← hl]
    simp [bufferLeases, standAt, hself]
  · rw [Function.update_of_ne ho]
    by_cases ho' : o = .cpu i
    · subst ho'
      replace hl : (v.bo i).cpuLease = some l := hl
      rw [← hl, hself, hbo]
      simp [bufferLeases, Bo.cpuLease]
    · refine bufferLeases_eq (i := i) (fun j hji => ?_) (fun j s hji hs => ?_) ho ho' hl
      · exact (setBo_bo_of_ne _ _ _ _ hji).trans (congrFun hbo j)
      · rcases standAt_eq_some hs with ⟨rfl, -⟩ | ⟨-, hs, -⟩
        · exact absurd rfl hji
        · exact hs

private theorem Steady.unmap (h : Steady t) {touched' : Fin winsysMaxBo → Bool}
    (hst : t.standing i = some ((t.shim.bo i).gpuVa, (t.shim.bo i).size)) :
    let v := (retain t.shim (t.shim.bo i).gpuVa (t.shim.bo i).size (t.shim.bo i).phys
      (t.shim.bo i).gpuProt false).setBo i { t.shim.bo i with gpuVa := 0 }
    (∀ j, touched' j = true → (v.bo j).live = true) →
      (∀ j, touched' j = false → t.touched j = false) →
        Steady ⟨v, Function.update t.standing i none, touched'⟩ := by
  intro v hlive ht
  have hB : bufferLeases t.shim t.standing (.gpu i) = some ⟨(t.shim.bo i).gpuVa,
      (t.shim.bo i).size, pageOf (t.shim.bo i).phys (t.shim.bo i).gpuProt⟩ := by
    simp [bufferLeases, hst]
  have hret := h.kept.retain false (by simp) hB
  have hself : v.bo i = { t.shim.bo i with gpuVa := 0 } := setBo_bo_self _ _ _
  have hbo : ∀ j, j ≠ i → v.bo j = t.shim.bo j := fun j hji => by
    rw [setBo_bo_of_ne _ _ _ _ hji, retain_bo]
  refine h.entry i hbo (fun j hji => Function.update_of_ne hji ..) (fun j _ hj => ht j hj) hlive
    (hret.forget rfl (fun _ _ hl => hl) fun o l hl => ?_) (fun k l hl => ?_) (fun s hs => ?_)
    (fun hg => ?_) fun hj => ⟨Function.update_self .., ?_⟩
  · have ho : o ≠ .gpu i := by
      rintro rfl
      simp [bufferLeases] at hl
    rw [Function.update_of_ne ho]
    by_cases ho' : o = .cpu i
    · subst ho'
      replace hl : (v.bo i).cpuLease = some l := hl
      rw [← hl, hself]
      simp [bufferLeases, Bo.cpuLease]
    · exact bufferLeases_eq hbo (fun j s _ hs => (update_none_eq_some hs).2) ho ho' hl
  · rcases leases_retain _ _ _ _ _ hl with hl | rfl
    · exact h.retainedBelow k l hl
    · exact h.below i _ hst
  · rw [Function.update_self] at hs
    cases hs
  · rw [hself] at hg
    exact absurd rfl hg
  · rw [hself]
    exact (h.untouched i (ht i hj)).2

/-- A MAP that takes effect and keeps the ledger. -/
private theorem Steady.mapped (h : Steady t) {arg : GemVaArg} {mapOk : Bool}
    (hmap : MapTakesEffect t.shim arg mapOk i) (hc : KeepsPages t (.gemVa arg mapOk))
    (hbo : ∀ j, j ≠ i → w'.bo j = t.shim.bo j) (hva : (w'.bo i).gpuVa = arg.vaAddress)
    (hlive : ∀ j, Function.update t.touched i true j = true → (w'.bo j).live = true)
    (hkept : KeptBy w'
      (bufferLeases w' (standAt t.standing i arg.vaAddress (mapBytes (t.shim.bo i) arg))))
    (hret : ∀ k l, leases w' k = some l → EndsBelowTop l.base l.size) :
    Steady ⟨w', standAt t.standing i arg.vaAddress (mapBytes (t.shim.bo i) arg),
      Function.update t.touched i true⟩ := by
  obtain ⟨hbelow, hst, -, -⟩ := hc.1 i hmap
  have hself : standAt t.standing i arg.vaAddress (mapBytes (t.shim.bo i) arg) i =
      some (arg.vaAddress, mapBytes (t.shim.bo i) arg) := Function.update_self ..
  refine h.entry i hbo (fun j hji => ?_)
    (fun j hji hj => (Function.update_of_ne hji ..).symm.trans hj) hlive hkept hret
    (fun s hs => ?_) (fun _ => ⟨_, by rw [hva]; exact hself⟩) fun hj => ?_
  · cases hs : t.standing j with
    | none => rw [standAt, Function.update_of_ne hji, hs]; rfl
    | some s => exact standAt_of_apart hji hs (hst j s hji hs)
  · obtain rfl := Option.some.inj (hself.symm.trans hs)
    exact hbelow
  · cases (Function.update_self i true t.touched).symm.trans hj

/-- A MAP refused has released retained ranges, and nothing else. -/
private theorem Steady.refused (h : Steady t) {touched' : Fin winsysMaxBo → Bool}
    (hrel : Releases t.shim w')
    (hret : ∀ k l, leases w' k = some l → EndsBelowTop l.base l.size)
    (hlive : ∀ j, touched' j = true → (w'.bo j).live = true)
    (ht : ∀ j, touched' j = false → t.touched j = false) : Steady ⟨w', t.standing, touched'⟩ := by
  have hbo := hrel.bo
  have hkept : KeptBy w' (bufferLeases t.shim t.standing) := hrel.keptBy h.kept
  have hleases : bufferLeases w' t.standing = bufferLeases t.shim t.standing := by
    funext o
    cases o with
    | gpu j => simp [bufferLeases, hbo]
    | cpu j => simp [bufferLeases, hbo]
    | retained k => rfl
  refine ⟨hleases ▸ hkept, h.below, hret, ?_, hlive, fun j hj => ?_⟩
  · rw [show (Tracked.mk w' t.standing touched').shim.bo = t.shim.bo from hbo]
    exact h.stands
  · rw [show (Tracked.mk w' t.standing touched').shim.bo = t.shim.bo from hbo]
    exact h.untouched j (ht j hj)

/-- One call keeps the ledger. -/
theorem Steady.step (h : Steady t) (hplat : PlatformMaps t.shim op) (hc : KeepsPages t op) :
    Steady (trackedStep t op) := by
  have hlive : ∀ j, touchedAfter t.shim t.touched op j = true →
      ((Winsys.step t.shim op).bo j).live = true := by
    intro j hj
    obtain ⟨hj, hopen⟩ := touchedAfter_true hj
    exact step_live (hj.elim (h.live j) id) hopen
  have htouched : ∀ j, touchedAfter t.shim t.touched op j = false →
      (∀ handle, op = .gemClose handle → boOf t.shim handle ≠ some j) → t.touched j = false := by
    intro j hj hopen
    rw [Bool.eq_false_iff]
    intro ht
    rw [touchedAfter_of_touched ht hopen] at hj
    cases hj
  have he := step_effect (w := t.shim) op
  show Steady ⟨Winsys.step t.shim op, standingAfter t.shim t.standing op,
    touchedAfter t.shim t.touched op⟩
  generalize Winsys.step t.shim op = w' at he hlive ⊢
  cases he with
  | idle op hidle =>
    rw [standingAfter_idle hidle]
    refine ⟨h.kept, h.below, h.retainedBelow, h.stands, hlive, fun j hj => ?_⟩
    refine h.untouched j (htouched j hj ?_)
    rintro handle rfl hb
    rw [show boOf t.shim handle = none from hidle] at hb
    cases hb
  | create arg phys i hsize hi => exact h.create arg phys hi hlive
  | close handle i hi =>
    rw [touchedAfter_close hi] at hlive ⊢
    rw [standingAfter_close hi]
    exact h.close hi hc hlive
  | cpu op i v hcall hl hnone =>
    rw [touchedAfter_cpu hcall] at hlive ⊢
    rw [cpuCall_standing hcall]
    exact h.cpu hcall hnone hplat hlive
  | served arg mapOk i k hi hk =>
    have hret := gemVa_ret_served hi hk mapOk
    rw [touchedAfter_map hi hret] at hlive ⊢
    rw [standingAfter_map hi hret]
    have hmap : MapTakesEffect t.shim arg mapOk i := ⟨hi, .inl (by rw [hk]; rfl)⟩
    exact h.mapped hmap hc (fun j hji => by rw [mapFromRetained_bo, Function.update_of_ne hji])
      (by rw [mapFromRetained_bo, Function.update_self]) hlive (h.served hi hk)
      fun l m hm => h.retainedBelow l m (of_leases_mapFromRetained hm)
  | afresh arg mapOk i hi hk =>
    have hretained : ∀ l m, leases (mapAfresh t.shim i arg.vaAddress (mapBytes (t.shim.bo i) arg)
        (vaProt arg.flags) mapOk).2 l = some m → EndsBelowTop m.base m.size :=
      fun l m hm => h.retainedBelow l m (leases_mapAfresh hm).1
    cases mapOk with
    | true =>
      have hret := (gemVa_ret_afresh hi hk true).mpr rfl
      rw [touchedAfter_map hi hret] at hlive ⊢
      rw [standingAfter_map hi hret]
      have hself : ((mapAfresh t.shim i arg.vaAddress (mapBytes (t.shim.bo i) arg)
          (vaProt arg.flags) true).2.bo i).gpuVa = arg.vaAddress := by
        rw [mapAfresh_true]
        show (Shim.bo (Shim.setBo _ i _) i).gpuVa = _
        rw [setBo_bo_self]
      exact h.mapped ⟨hi, .inr rfl⟩ hc (fun j hji => mapAfresh_bo_of_ne hji) hself hlive
        (h.afresh hi hc) hretained
    | false =>
      have hret : (gemVa t.shim arg false).1 ≠ .ok := by
        rw [ne_eq, gemVa_ret_afresh hi hk]
        decide
      rw [standingAfter_refused hi hret]
      rw [mapAfresh_false] at hlive hretained ⊢
      exact h.refused (releaseOverlapping_releases _ _) hretained hlive
        fun j hj => htouched j hj (by simp)
  | unmap arg mapOk i hi =>
    rw [standingAfter_unmap hi]
    exact h.unmap (hc.2 i hi) hlive fun j hj => htouched j hj (by simp)

/-! ## Contents -/

/-- A call that leaves a mapped buffer open leaves its pages. -/
theorem Steady.phys_step (h : Steady t) (hi : t.touched i = true) (hc : KeepsPages t op)
    (hopen : LeavesOpen t i op) :
    ((Winsys.step t.shim op).bo i).phys = (t.shim.bo i).phys := by
  have hlive := h.live i hi
  have hset : ∀ (v : Shim) (j : Fin winsysMaxBo) (b : Bo), v.bo = t.shim.bo →
      b.phys = (t.shim.bo j).phys → ((v.setBo j b).bo i).phys = (t.shim.bo i).phys := by
    intro v j b hv hb
    by_cases hij : i = j
    · subst hij
      rw [setBo_bo_self, hb]
    · rw [setBo_bo_of_ne _ _ _ _ hij, hv]
  have he := step_effect (w := t.shim) op
  generalize Winsys.step t.shim op = w' at he ⊢
  cases he with
  | idle => rfl
  | create arg phys j _ hj =>
    have hij : i ≠ j := by
      rintro rfl
      rw [freeBo_dead hj] at hlive
      cases hlive
    rw [setBo_bo_of_ne _ _ _ _ hij, setMem_bo]
  | close handle j hj =>
    have hij : i ≠ j := by
      rintro rfl
      exact hopen hj
    rw [setBo_bo_of_ne _ _ _ _ hij, closePages_bo, closeCpu_bo]
  | cpu op j v => exact hset _ j _ rfl rfl
  | served arg mapOk j k hj hk =>
    rw [mapFromRetained_bo]
    by_cases hij : i = j
    · subst hij
      rw [Function.update_self]
      -- a take-over is for a buffer not mapped before, and this one was
      by_contra hne
      have := (hc.1 i ⟨hj, .inl (by rw [hk]; rfl)⟩).2.2.2 k hk hne
      rw [hi] at this
      cases this
    · rw [Function.update_of_ne hij]
  | afresh arg mapOk j =>
    have hbo := (releaseOverlapping_releases (w := t.shim) arg.vaAddress
      (mapBytes (t.shim.bo j) arg)).bo
    cases mapOk with
    | true =>
      rw [mapAfresh_true]
      exact hset _ j _ hbo (by rw [hbo])
    | false => rw [mapAfresh_false, hbo]
  | unmap arg mapOk j => exact hset _ j _ (retain_bo _ _ _ _ _) rfl

/-- In a steady state the mapping that stands and the CPU mapping lead to the buffer's pages. -/
theorem Steady.keepsContents (h : Steady u) (hlive : (u.shim.bo i).live = true)
    (hphys : (u.shim.bo i).phys = (t.shim.bo i).phys) : KeepsContents t u i where
  phys := hphys
  mapped := h.stands i
  gpu va size hs a ha := by
    have hl : bufferLeases u.shim u.standing (.gpu i) =
        some ⟨va, size, pageOf (u.shim.bo i).phys (u.shim.bo i).gpuProt⟩ := by
      simp [bufferLeases, hs]
    have hkept : Kept _ _ := h.kept
    rw [← hphys]
    exact ⟨_, hkept.backed (.gpu i) _ hl a ha⟩
  cpu h0 a ha := by
    have hkept : Kept _ _ := h.kept
    rw [← hphys]
    exact ⟨_, hkept.backed (.cpu i) _ (cpuLease_of_live hlive h0) a ha⟩

/-- **A buffer keeps its contents.** From any state of a run in which it has been mapped, until it
    is closed, when every step of the run keeps pages. -/
theorem contents_kept
    (h : Reach trackedStep (fun t op => PlatformMaps t.shim op ∧ KeepsPages t op) .init t)
    (hi : t.touched i = true)
    (hrun : Reach trackedStep (fun t op => (PlatformMaps t.shim op ∧ KeepsPages t op) ∧
      LeavesOpen t i op) t u) : KeepsContents t u i := by
  have ht : Steady t := h.invariant Steady.init fun _ _ hs hok => hs.step hok.1 hok.2
  have hu : Steady u ∧ u.touched i = true ∧ (u.shim.bo i).phys = (t.shim.bo i).phys := by
    refine hrun.invariant (P := fun u => Steady u ∧ u.touched i = true ∧
      (u.shim.bo i).phys = (t.shim.bo i).phys) ⟨ht, hi, rfl⟩ ?_
    rintro v op ⟨hv, htouched, hphys⟩ ⟨⟨hplat, hok⟩, hopen⟩
    refine ⟨hv.step hplat hok, touchedAfter_of_touched htouched ?_, ?_⟩
    · rintro handle rfl
      exact hopen
    · exact (hv.phys_step htouched hok hopen).trans hphys
  exact hu.1.keepsContents (hu.1.live i hu.2.1) hu.2.2

/-- The first page there is may be mapped. -/
theorem keepsPages_first :
    KeepsPages (trackedStep .init (createOnePage 0)) (wholeAt 1 vaOpMap 0x400000000) := by
  let map : GemVaArg := ⟨1, vaOpMap, 6, 0x400000000, 0, 0⟩
  let s := trackedStep .init (createOnePage 0)
  have htarget : mapTarget s.shim map = some 0 := by decide +kernel
  have hserved : servedBy s.shim 0 map.vaAddress (mapBytes (s.shim.bo 0) map)
      (vaProt map.flags) = none := by decide +kernel
  refine ⟨?_, fun i hi => ?_⟩
  · rintro i ⟨hi, -⟩
    obtain rfl : i = 0 := Option.some.inj (hi.symm.trans htarget)
    refine ⟨by decide +kernel, fun j p _ hp => ?_, fun j l hl => ?_, fun k hk => ?_⟩
    · cases hp
    · have hcpu : (s.shim.bo j).cpuPtr = 0 := create_init_cpuPtr
      rw [cpuLease_of_zero hcpu] at hl
      cases hl
    · cases hserved.symm.trans hk
  · rw [show unmapTarget s.shim map = none by decide +kernel] at hi
    cases hi

theorem contents_kept_unmap :
    let t := [createOnePage 0, wholeAt 1 vaOpMap 0x400000000].foldl trackedStep .init
    ((trackedStep t (wholeAt 1 vaOpUnmap 0x400000000)).shim.bo 0).phys = (t.shim.bo 0).phys := by
  intro t
  let map : GemVaArg := ⟨1, vaOpMap, 6, 0x400000000, 0, 0⟩
  let unmap : GemVaArg := ⟨1, vaOpUnmap, 6, 0x400000000, 0, 0⟩
  have hunmap : KeepsPages t (.gemVa unmap true) := by
    refine ⟨?_, fun i hi => ?_⟩
    · rintro i ⟨hi, -⟩
      rw [show mapTarget t.shim unmap = none by decide +kernel] at hi
      cases hi
    · have hut : unmapTarget t.shim unmap = some 0 := by decide +kernel
      obtain rfl : i = 0 := Option.some.inj (hi.symm.trans hut)
      decide +kernel
  have ht : Reach trackedStep (fun t op => PlatformMaps t.shim op ∧ KeepsPages t op) .init t :=
    (Reach.refl.tail (createOnePage 0) ⟨.of_no_cpuCall rfl, trivial⟩).tail (.gemVa map true)
      ⟨.of_no_cpuCall rfl, keepsPages_first⟩
  have hopen : LeavesOpen t 0 (.gemVa unmap true) := trivial
  have h := contents_kept ht (by decide +kernel)
    (Reach.refl.tail (.gemVa unmap true) ⟨⟨.of_no_cpuCall rfl, hunmap⟩, hopen⟩)
  exact h.phys

/-- **A buffer the GPU wrote loses its pages.** Buffer 1 is mapped, unmapped, and mapped where
    closed buffer 2 was, while it has no CPU mapping. -/
theorem not_contents_kept :
    ¬ ∀ (t u : Tracked) (i : Fin winsysMaxBo),
      Reach trackedStep (fun t op => PlatformMaps t.shim op) .init t → t.touched i = true →
        Reach trackedStep (fun t op => PlatformMaps t.shim op ∧ LeavesOpen t i op) t u →
          KeepsContents t u i := by
  intro hall
  let before : List Op :=
    [createOnePage 0, createOnePage 0x4000, wholeAt 1 vaOpMap 0x400000000]
  let after : List Op :=
    [wholeAt 1 vaOpUnmap 0x400000000, wholeAt 2 vaOpMap 0x500000000, .gemClose 2,
      wholeAt 1 vaOpMap 0x500000000]
  let t := before.foldl trackedStep .init
  let u := after.foldl trackedStep t
  have ht : Reach trackedStep (fun t op => PlatformMaps t.shim op) .init t := by
    refine Reach.foldl before fun op hop t => ?_
    simp only [before, List.mem_cons, List.not_mem_nil, or_false] at hop
    rcases hop with rfl | rfl | rfl <;> exact .of_no_cpuCall rfl
  have hu : Reach trackedStep (fun t op => PlatformMaps t.shim op ∧ LeavesOpen t 0 op) t u := by
    refine Reach.foldl after fun op hop t => ?_
    simp only [after, List.mem_cons, List.not_mem_nil, or_false] at hop
    rcases hop with rfl | rfl | rfl | rfl
    · exact ⟨.of_no_cpuCall rfl, trivial⟩
    · exact ⟨.of_no_cpuCall rfl, trivial⟩
    · refine ⟨.of_no_cpuCall rfl, fun hb => ?_⟩
      have := boOf_val hb
      revert this
      decide
    · exact ⟨.of_no_cpuCall rfl, trivial⟩
  have h := (hall t u 0 ht (by decide +kernel) hu).phys
  have hne : (u.shim.bo 0).phys ≠ (t.shim.bo 0).phys := by decide +kernel
  exact hne h

end OopsMesa.Winsys
