/-
  What the retained-range functions and one call can do, said once.

  A retained range is a lease: its address span, and the pages it should translate to. Releasing
  a range clears its span and ends its lease; nothing else the shim does to `s_retained` before
  storing a new range is anything but releases (`Releases`). So `retain` is releases and then one
  store (`retain_eq`), and a MAP afresh is releases, after which no retained range overlaps the
  span by the code's test, and then the batch map.

  `Effect w op w'` lists what one call does, by the branch it takes (`step_effect`). Every
  invariant of the development is proved along these cases.
-/
import Mathlib.Tactic.SplitIfs
import OopsMesa.Winsys.Buffers

namespace OopsMesa.Winsys

open OopsMesa.Lib

variable {w w' : Shim} {i : Fin winsysMaxBo} {k l : Fin winsysMaxRetained}

/-! ## Releasing a range -/

/-- A used range, as a lease of its span. -/
def RetainedRange.lease (r : RetainedRange) : Option (Lease Pte) :=
  if r.used then some ⟨r.va, r.size, pageOf r.phys r.prot⟩ else none

/-- The retained ranges as a ledger. -/
def leases (w : Shim) (k : Fin winsysMaxRetained) : Option (Lease Pte) := (w.retained k).lease

theorem leases_of_used (h : (w.retained k).used = true) :
    leases w k = some ⟨(w.retained k).va, (w.retained k).size,
      pageOf (w.retained k).phys (w.retained k).prot⟩ := if_pos h

theorem used_of_leases {m : Lease Pte} (h : leases w k = some m) :
    (w.retained k).used = true ∧
      m = ⟨(w.retained k).va, (w.retained k).size,
        pageOf (w.retained k).phys (w.retained k).prot⟩ := by
  unfold leases RetainedRange.lease at h
  split at h
  · exact ⟨‹_›, (Option.some.inj h).symm⟩
  · cases h

/-- Marking a range as the owner of its pages leaves its lease. -/
theorem leases_setRetained_owns (b : Bool) :
    leases (w.setRetained k { w.retained k with ownsPhys := b }) = leases w := by
  funext l
  by_cases h : l = k
  · subst h; simp [leases, RetainedRange.lease]
  · simp [leases, h]

theorem leases_retainedDrop :
    leases (retainedDrop w k) = Function.update (leases w) k none := by
  funext l
  by_cases h : l = k
  · subst h; simp [leases, retainedDrop, RetainedRange.lease, RetainedRange.zero]
  · simp [leases, retainedDrop, h]

@[simp] theorem retainedDrop_bo : (retainedDrop w k).bo = w.bo := rfl
@[simp] theorem retainedDrop_mem : (retainedDrop w k).mem = w.mem := rfl

@[simp] theorem releasePages_bo : (releasePages w k).bo = w.bo := by
  unfold releasePages
  split
  · split <;> rfl
  · rfl

@[simp] theorem releasePages_pageTable :
    (releasePages w k).mem.pageTable = w.mem.pageTable := by
  unfold releasePages
  split
  · split <;> rfl
  · rfl

theorem leases_releasePages : leases (releasePages w k) = leases w := by
  unfold releasePages
  split
  · split
    · exact leases_setRetained_owns true
    · rfl
  · rfl

@[simp] theorem retainedRelease_bo : (retainedRelease w k).bo = w.bo := by
  simp [retainedRelease]

theorem retainedRelease_pageTable :
    (retainedRelease w k).mem.pageTable =
      unmapSpan w.mem.pageTable (w.retained k).va (w.retained k).size := by
  simp [retainedRelease]

theorem leases_retainedRelease :
    leases (retainedRelease w k) = Function.update (leases w) k none := by
  rw [retainedRelease, leases_retainedDrop, leases_releasePages]
  rfl

/-! ## Runs of releases -/

/-- `w'` is `w` after some used ranges were released. -/
inductive Releases (w : Shim) : Shim → Prop
  | refl : Releases w w
  | tail {w' : Shim} (k : Fin winsysMaxRetained) :
      Releases w w' → (w'.retained k).used = true → Releases w (retainedRelease w' k)

theorem Releases.invariant {P : Shim → Prop} (h : Releases w w') (hw : P w)
    (hrel : ∀ w k, P w → (w.retained k).used = true → P (retainedRelease w k)) : P w' := by
  induction h with
  | refl => exact hw
  | tail k _ hused ih => exact hrel _ k ih hused

theorem Releases.trans {w'' : Shim} (h : Releases w w') (h' : Releases w' w'') :
    Releases w w'' := by
  induction h' with
  | refl => exact h
  | tail k _ hused ih => exact ih.tail k hused

theorem Releases.bo (h : Releases w w') : w'.bo = w.bo :=
  h.invariant (P := fun v => v.bo = w.bo) rfl fun _ _ ih _ => retainedRelease_bo.trans ih

/-- Releases end leases and start none. -/
theorem Releases.leases (h : Releases w w') {m : Lease Pte} (hm : leases w' k = some m) :
    leases w k = some m := by
  revert hm
  refine h.invariant (P := fun v => Winsys.leases v k = some m → Winsys.leases w k = some m)
    id ?_
  intro v l ih _ hm
  rw [leases_retainedRelease] at hm
  by_cases hkl : k = l
  · subst hkl; simp at hm
  · rw [Function.update_of_ne hkl] at hm
    exact ih hm

/-- Off the retained ranges, releases change no translation. -/
theorem Releases.pageTable (h : Releases w w') {a : UInt64}
    (ha : ∀ k m, Winsys.leases w k = some m → ¬ InSpan m.base m.size a) :
    w'.mem.pageTable a = w.mem.pageTable a := by
  induction h with
  | refl => rfl
  | tail k hrel hused ih =>
    have hk := hrel.leases (leases_of_used hused)
    rw [retainedRelease_pageTable, unmapSpan_of_not_inSpan (ha k _ hk), ih]

/-- Releases remove translations and add none. -/
theorem Releases.pageTable_eq_some (h : Releases w w') {a : UInt64} {e : Pte}
    (he : w'.mem.pageTable a = some e) : w.mem.pageTable a = some e := by
  revert he
  refine h.invariant (P := fun v => v.mem.pageTable a = some e → w.mem.pageTable a = some e)
    id ?_
  intro v l ih _ he
  rw [retainedRelease_pageTable] at he
  exact ih (of_unmapSpan_eq_some he).2

theorem retainedReleaseOldest_releases : Releases w (retainedReleaseOldest w) := by
  unfold retainedReleaseOldest
  split
  · exact Releases.refl.tail _ (bestIdx_some ‹_›)
  · exact .refl

private theorem releaseLoop_releases (g : Shim → Bool) (n : Nat) {v : Shim} (h : Releases w v) :
    Releases w (whileUpTo g retainedReleaseOldest n v) :=
  whileUpTo_invariant (P := Releases w)
    (fun _ hv _ => hv.trans retainedReleaseOldest_releases) n h

theorem makeRoom_releases (size : UInt64) : Releases w (makeRoom w size) := by
  unfold makeRoom
  exact releaseLoop_releases _ _ (releaseLoop_releases _ _ .refl)

/-- With every slot used, one release frees a slot. -/
theorem freeSlot_after_release (h : freeSlot w = none) :
    (freeSlot (retainedReleaseOldest w)).isNone = false := by
  have hused : ∀ k, (w.retained k).used = true := by
    intro k
    simpa using firstIdx_eq_none.mp h k
  cases ho : oldest w with
  | none =>
    have := bestIdx_none ho ⟨0, by decide⟩
    simp [hused] at this
  | some k =>
    have hk : (!((retainedReleaseOldest w).retained k).used) = true := by
      simp [retainedReleaseOldest, ho, retainedRelease, retainedDrop, RetainedRange.zero]
    obtain ⟨j, hj⟩ : ∃ j, freeSlot (retainedReleaseOldest w) = some j := firstIdx_isSome hk
    rw [hj]
    rfl

private theorem slotLoop_freeSlot {n : Nat} (hn : 1 ≤ n) (v : Shim) :
    (freeSlot (whileUpTo (fun w => (freeSlot w).isNone) retainedReleaseOldest n v)).isNone =
      false := by
  refine whileUpTo_done (g := fun w => (freeSlot w).isNone) (P := fun _ => True)
    (fun v => if (freeSlot v).isNone then 1 else 0) ?_ n trivial ?_
  · intro v _ hv
    refine ⟨trivial, ?_⟩
    simp only [freeSlot_after_release (Option.isNone_iff_eq_none.mp hv), hv]
    decide
  · split <;> omega

/-- `retain`'s second loop ends with a slot. -/
theorem makeRoom_freeSlot (size : UInt64) : ∃ k, freeSlot (makeRoom w size) = some k := by
  have hdone : (freeSlot (makeRoom w size)).isNone = false := by
    unfold makeRoom
    exact slotLoop_freeSlot (by decide) _
  cases h : freeSlot (makeRoom w size) with
  | none => rw [h] at hdone; cases hdone
  | some k => exact ⟨k, rfl⟩

/-- `retain` is releases, and then the new range stored in an unused slot. -/
theorem retain_eq (va size : UInt64) (phys : Int) (prot : Prot) (owns : Bool) :
    ∃ v k, Releases w v ∧ (v.retained k).used = false ∧
      retain w va size phys prot owns = retainedStore v k va size phys prot owns := by
  obtain ⟨k, hk⟩ := makeRoom_freeSlot (w := w) size
  refine ⟨makeRoom w size, k, makeRoom_releases size, ?_, ?_⟩
  · simpa using firstIdx_some hk
  · simp only [retain, hk]

section Store

variable (va size : UInt64) (phys : Int) (prot : Prot) (owns : Bool)

@[simp] theorem retainedStore_bo : (retainedStore w k va size phys prot owns).bo = w.bo := rfl
@[simp] theorem retainedStore_mem : (retainedStore w k va size phys prot owns).mem = w.mem := rfl

theorem leases_retainedStore :
    leases (retainedStore w k va size phys prot owns) =
      Function.update (leases w) k (some ⟨va, size, pageOf phys prot⟩) := by
  funext l
  by_cases h : l = k
  · subst h; simp [leases, retainedStore, RetainedRange.lease]
  · simp [leases, retainedStore, h]

@[simp] theorem retain_bo : (retain w va size phys prot owns).bo = w.bo := by
  obtain ⟨v, k, hrel, -, heq⟩ := retain_eq (w := w) va size phys prot owns
  rw [heq, retainedStore_bo, hrel.bo]

/-- Off the retained ranges, `retain` changes no translation. -/
theorem retain_pageTable {a : UInt64} (ha : ∀ k m, leases w k = some m → ¬ InSpan m.base m.size a) :
    (retain w va size phys prot owns).mem.pageTable a = w.mem.pageTable a := by
  obtain ⟨v, k, hrel, -, heq⟩ := retain_eq (w := w) va size phys prot owns
  rw [heq, retainedStore_mem, hrel.pageTable ha]

/-- After `retain` a retained range is an old one or the new one. -/
theorem leases_retain {m : Lease Pte} (h : leases (retain w va size phys prot owns) k = some m) :
    leases w k = some m ∨ m = ⟨va, size, pageOf phys prot⟩ := by
  obtain ⟨v, l, hrel, -, heq⟩ := retain_eq (w := w) va size phys prot owns
  rw [heq, leases_retainedStore] at h
  by_cases hkl : k = l
  · subst hkl
    rw [Function.update_self, Option.some.injEq] at h
    exact .inr h.symm
  · rw [Function.update_of_ne hkl] at h
    exact .inl (hrel.leases h)

end Store

/-! ## Closing a buffer -/

theorem leases_closeCpu : leases (closeCpu w i) = leases w := by
  unfold closeCpu
  split <;> rfl

@[simp] theorem closeCpu_bo : (closeCpu w i).bo = w.bo := by
  unfold closeCpu
  split <;> rfl

/-- Off the buffer's CPU mapping, removing it changes no translation. -/
theorem closeCpu_pageTable {a : UInt64}
    (ha : (w.bo i).cpuPtr ≠ 0 → ¬ InSpan (w.bo i).cpuPtr (w.bo i).size a) :
    (closeCpu w i).mem.pageTable a = w.mem.pageTable a := by
  unfold closeCpu
  split
  · exact unmapSpan_of_not_inSpan (ha ‹_›)
  · rfl

/-- The CPU mapping of a closing buffer is gone. -/
theorem closeCpu_cleared {a : UInt64} (h : (w.bo i).cpuPtr ≠ 0)
    (ha : InSpan (w.bo i).cpuPtr (w.bo i).size a) : (closeCpu w i).mem.pageTable a = none := by
  simp only [closeCpu, ne_eq, h, not_false_eq_true, if_true, setMem_mem, unmap_pageTable]
  exact unmapSpan_of_inSpan ha

theorem closePages_mapped (hg : (w.bo i).gpuVa ≠ 0) :
    closePages w i =
      retain w (w.bo i).gpuVa (w.bo i).size (w.bo i).phys (w.bo i).gpuProt true := by
  simp only [closePages, hg, ne_eq, not_false_eq_true, if_true]

theorem closePages_unmapped (hg : (w.bo i).gpuVa = 0) :
    closePages w i =
      match adopter w (w.bo i).phys with
      | some j => w.setRetained j { w.retained j with ownsPhys := true }
      | none => w.setMem (w.mem.freeDirect (w.bo i).phys (w.bo i).size) :=
  if_neg fun hne => hne hg

@[simp] theorem closePages_bo : (closePages w i).bo = w.bo := by
  by_cases hg : (w.bo i).gpuVa = 0
  · rw [closePages_unmapped hg]
    split <;> rfl
  · rw [closePages_mapped hg, retain_bo]

/-- Closing an unmapped buffer moves its pages and nothing else. -/
theorem leases_closePages_unmapped (hg : (w.bo i).gpuVa = 0) :
    leases (closePages w i) = leases w := by
  rw [closePages_unmapped hg]
  split
  · exact leases_setRetained_owns true
  · rfl

theorem closePages_unmapped_pageTable (hg : (w.bo i).gpuVa = 0) :
    (closePages w i).mem.pageTable = w.mem.pageTable := by
  rw [closePages_unmapped hg]
  split <;> rfl

/-! ## Releasing what overlaps a span -/

theorem retainedOverlaps_false {va size : UInt64} (h : retainedOverlaps w va size k = false)
    {m : Lease Pte} (hm : leases w k = some m) : endsOverlap va size m.base m.size = false := by
  obtain ⟨hused, rfl⟩ := used_of_leases hm
  simpa [retainedOverlaps, hused] using h

private theorem releaseOverlapping_foldl (va size : UInt64) (ks : List (Fin winsysMaxRetained)) :
    ∀ w : Shim,
      let v := ks.foldl
        (fun w k => if retainedOverlaps w va size k then retainedRelease w k else w) w
      Releases w v ∧
        ∀ k ∈ ks, ∀ m, leases v k = some m → endsOverlap va size m.base m.size = false := by
  induction ks with
  | nil => exact fun w => ⟨.refl, fun k hk => by simp at hk⟩
  | cons k ks ih =>
    intro w
    simp only [List.foldl_cons]
    cases ho : retainedOverlaps w va size k with
    | true =>
      simp only [if_true]
      have hused : (w.retained k).used = true := by
        simp only [retainedOverlaps, Bool.and_eq_true] at ho
        exact ho.1
      have hk : leases (retainedRelease w k) k = none := by
        rw [leases_retainedRelease, Function.update_self]
      obtain ⟨hrel, hclear⟩ := ih (retainedRelease w k)
      refine ⟨(Releases.refl.tail k hused).trans hrel, fun j hj m hm => ?_⟩
      rcases List.mem_cons.mp hj with rfl | hj
      · rw [hrel.leases hm] at hk; cases hk
      · exact hclear j hj m hm
    | false =>
      simp only [Bool.false_eq_true, if_false]
      obtain ⟨hrel, hclear⟩ := ih w
      refine ⟨hrel, fun j hj m hm => ?_⟩
      rcases List.mem_cons.mp hj with rfl | hj
      · exact retainedOverlaps_false ho (hrel.leases hm)
      · exact hclear j hj m hm

theorem releaseOverlapping_releases (va size : UInt64) :
    Releases w (releaseOverlapping w va size) := by
  unfold releaseOverlapping
  exact (releaseOverlapping_foldl va size (List.finRange _) w).1

/-- Afterwards no retained range overlaps the span, by the code's test. -/
theorem releaseOverlapping_clear {va size : UInt64} {m : Lease Pte}
    (hm : leases (releaseOverlapping w va size) k = some m) :
    endsOverlap va size m.base m.size = false := by
  unfold releaseOverlapping at hm
  exact (releaseOverlapping_foldl va size (List.finRange _) w).2 k (List.mem_finRange k) m hm

/-- A MAP afresh that the platform accepts. -/
theorem mapAfresh_true (va size : UInt64) (prot : Prot) :
    (mapAfresh w i va size prot true).2 =
      let v := releaseOverlapping w va size
      (v.setMem (v.mem.batchMap va (v.bo i).phys size prot)).setBo i
        { v.bo i with gpuVa := va, gpuProt := prot } := by
  simp only [mapAfresh, if_true]

/-- A MAP afresh that the platform refuses. -/
theorem mapAfresh_false (va size : UInt64) (prot : Prot) :
    (mapAfresh w i va size prot false).2 = releaseOverlapping w va size := by
  simp only [mapAfresh, Bool.false_eq_true, if_false]

/-- A MAP afresh writes no other entry of the buffer table. -/
theorem mapAfresh_bo_of_ne {j : Fin winsysMaxBo} (hji : j ≠ i) {va size : UInt64} {prot : Prot}
    {mapOk : Bool} : (mapAfresh w i va size prot mapOk).2.bo j = w.bo j := by
  have hbo := (releaseOverlapping_releases (w := w) va size).bo
  cases mapOk with
  | true =>
    rw [mapAfresh_true]
    show (Shim.setBo _ i _).bo j = w.bo j
    rw [setBo_bo_of_ne _ _ _ _ hji, setMem_bo, hbo]
  | false => rw [mapAfresh_false, hbo]

/-- Off the retained ranges, and off its own span if it is accepted, a MAP afresh changes no
    translation. -/
theorem mapAfresh_pageTable {va size a : UInt64} {prot : Prot} {mapOk : Bool}
    (ha : ∀ k m, leases w k = some m → ¬ InSpan m.base m.size a)
    (hs : mapOk = true → ¬ InSpan va size a) :
    (mapAfresh w i va size prot mapOk).2.mem.pageTable a = w.mem.pageTable a := by
  have hrel := (releaseOverlapping_releases (w := w) va size).pageTable ha
  cases mapOk with
  | true =>
    simp only [mapAfresh_true, setBo_mem, setMem_mem, batchMap_pageTable]
    rw [mapSpan_of_not_inSpan (hs rfl), hrel]
  | false => rw [mapAfresh_false, hrel]

/-- After a MAP afresh a retained range is an old one that does not overlap the span. -/
theorem leases_mapAfresh {va size : UInt64} {prot : Prot} {mapOk : Bool} {m : Lease Pte}
    (h : leases (mapAfresh w i va size prot mapOk).2 k = some m) :
    leases w k = some m ∧ endsOverlap va size m.base m.size = false := by
  have h' : leases (releaseOverlapping w va size) k = some m := by
    cases mapOk with
    | true =>
      rw [mapAfresh_true] at h
      exact h
    | false =>
      rw [mapAfresh_false] at h
      exact h
  exact ⟨(releaseOverlapping_releases va size).leases h', releaseOverlapping_clear h'⟩

/-! ## Serving a MAP from a retained range -/

/-- What `servedBy` checked of the range it found. -/
theorem servedBy_eq_some {va size : UInt64} {prot : Prot}
    (h : servedBy w i va size prot = some k) :
    let r := w.retained k
    r.used = true ∧ r.va = va ∧ r.size = size ∧ r.prot = prot ∧
      (r.phys = (w.bo i).phys ∨
        r.ownsPhys = true ∧ (w.bo i).cpuPtr = 0 ∧ (w.bo i).size = size) := by
  have := firstIdx_some h
  simp only [Bool.and_eq_true, Bool.or_eq_true, beq_iff_eq] at this
  obtain ⟨⟨⟨⟨h1, h2⟩, h3⟩, h4⟩, h5⟩ := this
  refine ⟨h1, h2, h3, h4, ?_⟩
  rcases h5 with h5 | ⟨⟨h5, h6⟩, h7⟩
  · exact .inl h5
  · exact .inr ⟨h5, h6, h7⟩

theorem leases_of_servedBy {va size : UInt64} {prot : Prot}
    (h : servedBy w i va size prot = some k) :
    leases w k = some ⟨va, size, pageOf (w.retained k).phys prot⟩ := by
  obtain ⟨hused, rfl, rfl, rfl, -⟩ := servedBy_eq_some h
  exact leases_of_used hused

/-- The buffer after a MAP served from a retained range has that range's pages. -/
theorem mapFromRetained_bo (va : UInt64) (prot : Prot) :
    (mapFromRetained w i k va prot).bo =
      Function.update w.bo i
        { w.bo i with phys := (w.retained k).phys, gpuVa := va, gpuProt := prot } := by
  unfold mapFromRetained
  by_cases hp : (w.retained k).phys = (w.bo i).phys
  · simp [hp, Shim.setBo]
  · simp [hp, Shim.setBo, Shim.setMem]

@[simp] theorem mapFromRetained_pageTable (va : UInt64) (prot : Prot) :
    (mapFromRetained w i k va prot).mem.pageTable = w.mem.pageTable := by
  unfold mapFromRetained
  dsimp only
  split <;> rfl

theorem leases_mapFromRetained (va : UInt64) (prot : Prot) :
    leases (mapFromRetained w i k va prot) = Function.update (leases w) k none := by
  unfold mapFromRetained
  dsimp only
  split
  · exact leases_retainedDrop
  · exact leases_retainedDrop

/-- The buffer after a MAP served from a retained range translates there already. -/
theorem backs_of_servedBy {va size : UInt64} {prot : Prot}
    (hkept : Kept w.mem.pageTable (leases w)) (h : servedBy w i va size prot = some k) :
    Backs w.mem.pageTable va size (pageOf (w.retained k).phys prot) :=
  hkept.backed k _ (leases_of_servedBy h)

/-! ## What one call does -/

/-- The buffer a GEM_VA call maps, once its checks have passed. -/
def mapTarget (w : Shim) (arg : GemVaArg) : Option (Fin winsysMaxBo) :=
  (boOf w arg.handle).filter fun i =>
    arg.offsetInBo == 0 && arg.operation == vaOpMap && !decide ((w.bo i).size < mapBytes (w.bo i) arg)

/-- The buffer whose recorded range a GEM_VA call retains. -/
def unmapTarget (w : Shim) (arg : GemVaArg) : Option (Fin winsysMaxBo) :=
  (boOf w arg.handle).filter fun i =>
    arg.offsetInBo == 0 && arg.operation == vaOpUnmap && (w.bo i).gpuVa != 0

/-- The buffer a CPU-mapping call reaches, and what the platform would answer. -/
def cpuCall (w : Shim) : Op → Option (Fin winsysMaxBo × Option UInt64)
  | .mmap length offset map => (mmapTarget w length offset).map (·, map)
  | .boCpuRange handle offset bytes map => (boCpuRangeTarget w handle offset bytes).map (·, map)
  | .cpuMapVa va _ map => (cpuMapVaTarget w va).map (·, map)
  | _ => none

/-- A buffer's CPU mapping made at `v`. -/
def cpuMapped (w : Shim) (i : Fin winsysMaxBo) (v : UInt64) : Shim :=
  (w.setMem (w.mem.batchMap v (w.bo i).phys (w.bo i).size .cpuRw)).setBo i
    { w.bo i with cpuPtr := v }

/-- The table entry GEM_CREATE fills in. -/
def createdBo (w : Shim) (i : Fin winsysMaxBo) (arg : GemCreateIn) (phys : Int) : Bo :=
  { w.bo i with
    live := true
    size := roundUpPage arg.boSize
    alignment := if arg.alignment < winsysPage then winsysPage else arg.alignment
    domainFlags := arg.domainFlags
    phys := phys, gpuVa := 0, cpuPtr := 0, domain := arg.domains.toUInt32 }

/-- The call names no buffer it maps, unmaps or closes. -/
def Idle (w : Shim) : Op → Prop
  | .gemVa arg _ => mapTarget w arg = none ∧ unmapTarget w arg = none
  | .gemClose handle => boOf w handle = none
  | _ => True

/-- What a call does to the state, by the branch it takes. -/
inductive Effect (w : Shim) : Op → Shim → Prop
  | idle (op : Op) (h : Idle w op) : Effect w op w
  | create (arg : GemCreateIn) (phys : Int) (i : Fin winsysMaxBo)
      (hsize : roundUpPage arg.boSize ≠ 0) (hi : freeBo w = some i) :
      Effect w (.gemCreate arg (some phys))
        ((w.setMem (w.mem.allocDirect phys (roundUpPage arg.boSize))).setBo i
          (createdBo w i arg phys))
  | close (handle : UInt32) (i : Fin winsysMaxBo) (h : boOf w handle = some i) :
      Effect w (.gemClose handle) ((closePages (closeCpu w i) i).setBo i .zero)
  | cpu (op : Op) (i : Fin winsysMaxBo) (v : UInt64) (h : cpuCall w op = some (i, some v))
      (hlive : (w.bo i).live = true) (hnone : (w.bo i).cpuPtr = 0) :
      Effect w op (cpuMapped w i v)
  | served (arg : GemVaArg) (mapOk : Bool) (i : Fin winsysMaxBo) (k : Fin winsysMaxRetained)
      (h : mapTarget w arg = some i)
      (hk : servedBy w i arg.vaAddress (mapBytes (w.bo i) arg) (vaProt arg.flags) = some k) :
      Effect w (.gemVa arg mapOk) (mapFromRetained w i k arg.vaAddress (vaProt arg.flags))
  | afresh (arg : GemVaArg) (mapOk : Bool) (i : Fin winsysMaxBo) (h : mapTarget w arg = some i)
      (hk : servedBy w i arg.vaAddress (mapBytes (w.bo i) arg) (vaProt arg.flags) = none) :
      Effect w (.gemVa arg mapOk)
        (mapAfresh w i arg.vaAddress (mapBytes (w.bo i) arg) (vaProt arg.flags) mapOk).2
  | unmap (arg : GemVaArg) (mapOk : Bool) (i : Fin winsysMaxBo)
      (h : unmapTarget w arg = some i) :
      Effect w (.gemVa arg mapOk)
        ((retain w (w.bo i).gpuVa (w.bo i).size (w.bo i).phys (w.bo i).gpuProt false).setBo i
          { w.bo i with gpuVa := 0 })

/-- A handle names the entry one below it. -/
theorem boOf_val {handle : UInt32} (h : boOf w handle = some i) : i.val + 1 = handle.toNat := by
  unfold boOf at h
  split at h
  · next hr =>
    simp only at h
    split at h
    · cases h
      show handle.toNat - 1 + 1 = handle.toNat
      omega
    · cases h
  · cases h

/-- The entry GEM_CREATE picks is not live. -/
theorem freeBo_dead (h : freeBo w = some i) : (w.bo i).live = false := by
  simpa using firstIdx_some h

theorem boOf_live {handle : UInt32} (h : boOf w handle = some i) : (w.bo i).live = true := by
  unfold boOf at h
  split at h
  · simp only at h
    split at h
    · cases h; assumption
    · cases h
  · cases h

theorem mapTarget_live {arg : GemVaArg} (h : mapTarget w arg = some i) :
    (w.bo i).live = true := boOf_live (Option.eq_some_of_filter_eq_some h)

/-- A MAP asks for no more than the buffer. -/
theorem mapTarget_size {arg : GemVaArg} (h : mapTarget w arg = some i) :
    mapBytes (w.bo i) arg ≤ (w.bo i).size := by
  have := (Option.filter_eq_some_iff.mp h).2
  simp only [Bool.and_eq_true, Bool.not_eq_true', decide_eq_false_iff_not] at this
  exact UInt64.not_lt.mp this.2

theorem unmapTarget_live {arg : GemVaArg} (h : unmapTarget w arg = some i) :
    (w.bo i).live = true := boOf_live (Option.eq_some_of_filter_eq_some h)

/-- A CPU-mapping call maps the buffer it reaches, if that has no CPU mapping and the platform
    gives one, and otherwise changes nothing. -/
private theorem cpuMap_effect {op : Op} {map : Option UInt64} (h : cpuCall w op = some (i, map))
    (hidle : Idle w op) (hlive : (w.bo i).live = true) : Effect w op (cpuMap w i map).2 := by
  unfold cpuMap
  by_cases h0 : (w.bo i).cpuPtr = 0
  · cases map with
    | none => simpa [h0] using Effect.idle op hidle
    | some v => simpa [h0, cpuMapped] using Effect.cpu op i v h hlive h0
  · simpa [h0] using Effect.idle op hidle

/-- A MAP whose checks pass is served from a retained range, or made afresh. -/
theorem gemVa_of_mapTarget {arg : GemVaArg} (h : mapTarget w arg = some i) (mapOk : Bool) :
    gemVa w arg mapOk =
      match servedBy w i arg.vaAddress (mapBytes (w.bo i) arg) (vaProt arg.flags) with
      | some k => (.ok, mapFromRetained w i k arg.vaAddress (vaProt arg.flags))
      | none =>
        mapAfresh w i arg.vaAddress (mapBytes (w.bo i) arg) (vaProt arg.flags) mapOk := by
  obtain ⟨hb, hc⟩ := Option.filter_eq_some_iff.mp h
  simp only [Bool.and_eq_true, beq_iff_eq, Bool.not_eq_true', decide_eq_false_iff_not] at hc
  obtain ⟨⟨ho, hop⟩, hs⟩ := hc
  unfold gemVa
  rw [hb]
  dsimp only
  rw [if_neg (fun hne => hne ho), if_pos hop]
  exact if_neg hs

/-- A MAP served from a retained range. -/
theorem gemVa_of_servedBy {arg : GemVaArg} (h : mapTarget w arg = some i)
    (hk : servedBy w i arg.vaAddress (mapBytes (w.bo i) arg) (vaProt arg.flags) = some k)
    (mapOk : Bool) :
    gemVa w arg mapOk = (.ok, mapFromRetained w i k arg.vaAddress (vaProt arg.flags)) := by
  rw [gemVa_of_mapTarget h, hk]

/-- A MAP that returns 0 passed its checks. -/
theorem mapTarget_of_ok {arg : GemVaArg} {mapOk : Bool} (hb : boOf w arg.handle = some i)
    (hop : arg.operation = vaOpMap) (hret : (gemVa w arg mapOk).1 = .ok) :
    mapTarget w arg = some i := by
  unfold gemVa at hret
  simp only [hb, hop, if_true] at hret
  split_ifs at hret with ho
  unfold gemVaMap at hret
  dsimp only at hret
  split_ifs at hret with hs
  simpa [mapTarget, hb, Option.filter, hop, hs] using ho

theorem gemVa_of_unmapTarget {arg : GemVaArg} (h : unmapTarget w arg = some i) (mapOk : Bool) :
    gemVa w arg mapOk = (.ok,
      (retain w (w.bo i).gpuVa (w.bo i).size (w.bo i).phys (w.bo i).gpuProt false).setBo i
        { w.bo i with gpuVa := 0 }) := by
  obtain ⟨hb, hc⟩ := Option.filter_eq_some_iff.mp h
  simp only [Bool.and_eq_true, beq_iff_eq, bne_iff_ne] at hc
  obtain ⟨⟨ho, hop⟩, hg⟩ := hc
  have hne : ¬ vaOpUnmap = vaOpMap := by decide
  simp only [gemVa, hb, ho, hop, hne, gemVaUnmap, hg, ne_eq, not_true_eq_false, not_false_eq_true,
    if_false, if_true, retain_bo]

/-- Any other GEM_VA call changes nothing. -/
theorem gemVa_of_no_target {arg : GemVaArg} (h : mapTarget w arg = none)
    (h' : unmapTarget w arg = none) (mapOk : Bool) : (gemVa w arg mapOk).2 = w := by
  unfold gemVa
  cases hb : boOf w arg.handle with
  | none => rfl
  | some i =>
    simp only [mapTarget, unmapTarget, hb, Option.filter_some] at h h'
    simp only
    split_ifs with h1 h2 h3 h4
    · rfl
    · -- the checks before MAP passed, so it is the size that is refused
      have hs : (w.bo i).size < mapBytes (w.bo i) arg := by
        have h1' : arg.offsetInBo = 0 := by simpa using h1
        simpa [h1', h2] using h
      simp only [gemVaMap, hs, if_true]
    · have hg : (w.bo i).gpuVa = 0 := by
        have h1' : arg.offsetInBo = 0 := by simpa using h1
        simpa [h1', h3] using h'
      simp only [gemVaUnmap, hg, ne_eq, not_true_eq_false, if_false]
    · rfl
    · rfl

theorem gemVa_effect (arg : GemVaArg) (mapOk : Bool) :
    Effect w (.gemVa arg mapOk) (gemVa w arg mapOk).2 := by
  cases hm : mapTarget w arg with
  | some i =>
    cases hk : servedBy w i arg.vaAddress (mapBytes (w.bo i) arg) (vaProt arg.flags) with
    | some k =>
      rw [gemVa_of_servedBy hm hk]
      exact .served arg mapOk i k hm hk
    | none =>
      rw [gemVa_of_mapTarget hm, hk]
      exact .afresh arg mapOk i hm hk
  | none =>
    cases hu : unmapTarget w arg with
    | some i =>
      rw [gemVa_of_unmapTarget hu]
      exact .unmap arg mapOk i hu
    | none =>
      rw [gemVa_of_no_target hm hu]
      exact .idle _ ⟨hm, hu⟩

/-- What a call does. -/
theorem step_effect (op : Op) : Effect w op (step w op) := by
  cases op with
  | gemCreate arg alloc =>
    unfold step gemCreate
    dsimp only
    by_cases hsize : roundUpPage arg.boSize = 0
    · rw [if_pos hsize]
      exact .idle _ trivial
    · rw [if_neg hsize]
      cases hf : freeBo w with
      | none => exact .idle _ trivial
      | some i =>
        cases alloc with
        | none => exact .idle _ trivial
        | some phys => exact .create arg phys i hsize hf
  | gemClose handle =>
    unfold step gemClose
    dsimp only
    cases hb : boOf w handle with
    | none => exact .idle _ hb
    | some i => exact .close handle i hb
  | mmap length offset map =>
    unfold step mmap
    dsimp only
    cases ht : mmapTarget w length offset with
    | none => exact .idle _ trivial
    | some i =>
      have hlive := boOf_live (Option.eq_some_of_filter_eq_some ht)
      have h : cpuCall w (.mmap length offset map) = some (i, map) := by simp [cpuCall, ht]
      have := cpuMap_effect h trivial hlive
      dsimp only
      rcases hm : cpuMap w i map with ⟨_ | _, v⟩ <;> rw [hm] at this <;> exact this
  | boCpuRange handle offset bytes map =>
    unfold step boCpuRange
    dsimp only
    cases ht : boCpuRangeTarget w handle offset bytes with
    | none => exact .idle _ trivial
    | some i =>
      have hlive := boOf_live (Option.eq_some_of_filter_eq_some ht)
      have h : cpuCall w (.boCpuRange handle offset bytes map) = some (i, map) := by
        simp [cpuCall, ht]
      have := cpuMap_effect h trivial hlive
      dsimp only
      rcases hm : cpuMap w i map with ⟨_ | _, v⟩ <;> rw [hm] at this <;> exact this
  | cpuMapVa va bytes map =>
    unfold step cpuMapVa
    dsimp only
    cases ht : cpuMapVaTarget w va with
    | none => exact .idle _ trivial
    | some i =>
      have hlive : (w.bo i).live = true := by
        have := firstIdx_some ht
        simp only [Bool.and_eq_true] at this
        exact this.1
      have h : cpuCall w (.cpuMapVa va bytes map) = some (i, map) := by simp [cpuCall, ht]
      have := cpuMap_effect h trivial hlive
      dsimp only
      rcases hm : cpuMap w i map with ⟨_ | _, v⟩ <;> rw [hm] at this <;> exact this
  | gemVa arg mapOk => exact gemVa_effect arg mapOk

/-- The entry a call writes, if it writes one. -/
def opTarget (w : Shim) : Op → Option (Fin winsysMaxBo)
  | .gemCreate _ _ => freeBo w
  | .gemClose handle => boOf w handle
  | .gemVa arg _ => boOf w arg.handle
  | op => (cpuCall w op).map (·.1)

theorem opTarget_cpu {op : Op} {v : Option UInt64} (h : cpuCall w op = some (i, v)) :
    opTarget w op = some i := by
  cases op <;> first | cases h | simp [opTarget, h]

/-- A call writes no other entry of the buffer table than its target. -/
theorem step_bo_of_ne {op : Op} {j : Fin winsysMaxBo} (hj : opTarget w op ≠ some j) :
    (step w op).bo j = w.bo j := by
  have hne : ∀ i, opTarget w op = some i → j ≠ i := by
    rintro i hi rfl
    exact hj hi
  have he := step_effect (w := w) op
  generalize step w op = w' at he ⊢
  cases he with
  | idle => rfl
  | create arg phys i _ hi => exact setBo_bo_of_ne _ _ _ _ (hne i hi)
  | close handle i hi =>
    rw [setBo_bo_of_ne _ _ _ _ (hne i hi), closePages_bo, closeCpu_bo]
  | cpu op i v h => exact setBo_bo_of_ne _ _ _ _ (hne i (opTarget_cpu h))
  | served _ _ i k h =>
    have hi := hne i (Option.eq_some_of_filter_eq_some h)
    rw [mapFromRetained_bo, Function.update_of_ne hi]
  | afresh _ _ i h => exact mapAfresh_bo_of_ne (hne i (Option.eq_some_of_filter_eq_some h))
  | unmap _ _ i h =>
    have hi := hne i (Option.eq_some_of_filter_eq_some h)
    rw [setBo_bo_of_ne _ _ _ _ hi, retain_bo]

theorem cpuCall_live {op : Op} {v : Option UInt64} (h : cpuCall w op = some (i, v)) :
    (w.bo i).live = true := by
  have hfind : ∀ {t : Option (Fin winsysMaxBo)} {m : Option UInt64},
      t.map (·, m) = some (i, v) → t = some i := by
    intro t m ht
    obtain ⟨j, hj, heq⟩ := Option.map_eq_some_iff.mp ht
    cases heq
    exact hj
  cases op with
  | mmap => exact boOf_live (Option.eq_some_of_filter_eq_some (hfind h))
  | boCpuRange => exact boOf_live (Option.eq_some_of_filter_eq_some (hfind h))
  | cpuMapVa =>
    have := firstIdx_some (hfind h)
    simp only [Bool.and_eq_true] at this
    exact this.1
  | _ => cases h

/-- What a call does to one entry of the buffer table: it fills it in, clears it, or leaves it live
    or not, and its size. -/
theorem step_bo_cases (op : Op) (i : Fin winsysMaxBo) :
    (∃ arg alloc, op = .gemCreate arg alloc ∧ (w.bo i).live = false ∧
      roundUpPage arg.boSize ≠ 0 ∧ ((step w op).bo i).size = roundUpPage arg.boSize) ∨
    (∃ handle, op = .gemClose handle ∧ boOf w handle = some i ∧ (step w op).bo i = .zero) ∨
    ((step w op).bo i).live = (w.bo i).live ∧ ((step w op).bo i).size = (w.bo i).size := by
  by_cases hi : opTarget w op = some i
  · have he := step_effect (w := w) op
    generalize step w op = w' at he ⊢
    have htarget : ∀ {j}, opTarget w op = some j → j = i := fun hj =>
      Option.some.inj (hj.symm.trans hi)
    cases he with
    | idle => exact .inr (.inr ⟨rfl, rfl⟩)
    | create arg phys j hsize hj =>
      obtain rfl := htarget hj
      refine .inl ⟨arg, some phys, rfl, freeBo_dead hj, hsize, ?_⟩
      rw [setBo_bo_self]
      rfl
    | close handle j hj =>
      obtain rfl := htarget hj
      exact .inr (.inl ⟨handle, rfl, hj, setBo_bo_self ..⟩)
    | cpu op j v hj =>
      obtain rfl := htarget (opTarget_cpu hj)
      refine .inr (.inr ?_)
      unfold cpuMapped
      rw [setBo_bo_self]
      exact ⟨rfl, rfl⟩
    | served arg _ j k hj =>
      obtain rfl := htarget (Option.eq_some_of_filter_eq_some hj)
      refine .inr (.inr ?_)
      rw [mapFromRetained_bo, Function.update_self]
      exact ⟨rfl, rfl⟩
    | afresh arg mapOk j hj =>
      obtain rfl := htarget (Option.eq_some_of_filter_eq_some hj)
      refine .inr (.inr ?_)
      have hbo := (releaseOverlapping_releases (w := w) arg.vaAddress
        (mapBytes (w.bo j) arg)).bo
      cases mapOk with
      | true =>
        rw [mapAfresh_true]
        show ((Shim.setBo _ j _).bo j).live = _ ∧ ((Shim.setBo _ j _).bo j).size = _
        rw [setBo_bo_self, hbo]
        exact ⟨rfl, rfl⟩
      | false =>
        rw [mapAfresh_false, hbo]
        exact ⟨rfl, rfl⟩
    | unmap arg _ j hj =>
      obtain rfl := htarget (Option.eq_some_of_filter_eq_some hj)
      refine .inr (.inr ?_)
      rw [setBo_bo_self]
      exact ⟨rfl, rfl⟩
  · rw [step_bo_of_ne hi]
    exact .inr (.inr ⟨rfl, rfl⟩)

/-- A live buffer stays live until it is closed. -/
theorem step_live {op : Op} (h : (w.bo i).live = true)
    (hopen : ∀ handle, op = .gemClose handle → boOf w handle ≠ some i) :
    ((step w op).bo i).live = true := by
  obtain ⟨_, _, _, hdead, _⟩ | ⟨handle, hop, hi, _⟩ | ⟨hlive, _⟩ := step_bo_cases (w := w) op i
  · rw [h] at hdead
    cases hdead
  · exact absurd hi (hopen handle hop)
  · rw [hlive, h]

/-! ## What the platform promises -/

/-- `oops_mem_map_direct` gives a non-null address of a range in which nothing is mapped. -/
def PlatformMaps (w : Shim) (op : Op) : Prop :=
  ∀ i v, cpuCall w op = some (i, some v) → (w.bo i).cpuPtr = 0 →
    v ≠ 0 ∧ ∀ a, InSpan v (w.bo i).size a → w.mem.pageTable a = none

/-- A call that reaches no CPU mapping asks for none. -/
theorem PlatformMaps.of_no_cpuCall {op : Op} (h : cpuCall w op = none) : PlatformMaps w op := by
  intro i v hcall
  rw [h] at hcall
  cases hcall

/-- Where nothing is mapped, any address but null may be given. -/
theorem PlatformMaps.of_empty {op : Op} {v : UInt64} (hcall : cpuCall w op = some (i, some v))
    (hne : v ≠ 0) (hempty : w.mem.pageTable = fun _ => none) : PlatformMaps w op := by
  intro j a h _
  obtain ⟨-, hv⟩ := Prod.mk.inj (Option.some.inj (hcall.symm.trans h))
  obtain rfl := Option.some.inj hv
  exact ⟨hne, fun a _ => congrFun hempty a⟩

/-! ## The first buffer -/

section First

variable {arg : GemCreateIn} {alloc : Option Int}

theorem create_init_pageTable :
    (step .init (.gemCreate arg alloc)).mem.pageTable = fun _ => none := by
  have he := step_effect (w := .init) (.gemCreate arg alloc)
  generalize step .init (.gemCreate arg alloc) = w at he
  cases he <;> rfl

theorem create_init_leases : leases (step .init (.gemCreate arg alloc)) k = none := by
  have he := step_effect (w := .init) (.gemCreate arg alloc)
  generalize step .init (.gemCreate arg alloc) = w at he
  cases he <;> rfl

theorem create_init_cpuPtr : ((step .init (.gemCreate arg alloc)).bo i).cpuPtr = 0 := by
  have he := step_effect (w := .init) (.gemCreate arg alloc)
  generalize step .init (.gemCreate arg alloc) = w at he ⊢
  cases he with
  | idle => rfl
  | create _ phys j =>
    rcases Decidable.em (i = j) with rfl | hij
    · rw [setBo_bo_self]
      rfl
    · rw [setBo_bo_of_ne _ _ _ _ hij]
      rfl
  | cpu _ j v hcall => cases hcall

end First

end OopsMesa.Winsys
