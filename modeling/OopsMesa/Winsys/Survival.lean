/-
  A live mapping survives what is done to other buffers.

  Retained ranges are unmapped late, by eviction or by a neighbour's MAP, at the address and the
  full size recorded when they were retained. So a mapping survives as long as no retained range
  meets it, and the shim keeps that by releasing what a MAP afresh overlaps. Three steps do not
  look: an UNMAP or CLOSE retains the recorded range whoever is mapped over it by then, a MAP
  served from one retained range leaves another over the same addresses, and a CLOSE unmaps its
  CPU range. `SparesStanding` says that a step does none of these to a mapping that stands. Under
  it every mapping that stands survives (`standing_survives`), collisions included. The
  collision the code logs and permits breaks it once the leaked buffer is closed
  (`not_standing_survives`).
-/
import OopsMesa.Winsys.Coverage
import OopsMesa.Winsys.Standing

namespace OopsMesa.Winsys

open OopsMesa.Lib

/-- The call is a CLOSE or UNMAP of another buffer than `i`, or a MAP of another buffer at a
    range apart from `[va, va + size)`. -/
def Elsewhere (w : Shim) (i : Fin winsysMaxBo) (va size : UInt64) : Op → Prop
  | .gemClose handle => boOf w handle ≠ some i
  | .gemVa arg _ =>
    (arg.operation = vaOpUnmap ∨ arg.operation = vaOpMap) ∧ boOf w arg.handle ≠ some i ∧
      (arg.operation = vaOpMap →
        ∀ j, boOf w arg.handle = some j →
          Apart va size arg.vaAddress (mapBytes (w.bo j) arg))
  | _ => False

/-- Every mapping that stands translates as before after a call that concerns other buffers. -/
def StandingSurvives (t : Tracked) (op : Op) : Prop :=
  ∀ i va size, t.standing i = some (va, size) → Elsewhere t.shim i va size op →
    ∀ a, InSpan va size a → (step t.shim op).mem.pageTable a = t.shim.mem.pageTable a

/-- What entry `i` records ends below the top and meets no other buffer's standing mapping. -/
def RetainsApart (t : Tracked) (i : Fin winsysMaxBo) : Prop :=
  EndsBelowTop (t.shim.bo i).gpuVa (t.shim.bo i).size ∧
    ∀ j s, j ≠ i → t.standing j = some s →
      Apart s.1 s.2 (t.shim.bo i).gpuVa (t.shim.bo i).size

/-- The condition on a step. -/
def SparesStanding (t : Tracked) : Op → Prop
  | .gemVa arg mapOk =>
    (∀ i, MapTakesEffect t.shim arg mapOk i →
      EndsBelowTop arg.vaAddress (mapBytes (t.shim.bo i) arg) ∧
        ∀ k, servedBy t.shim i arg.vaAddress (mapBytes (t.shim.bo i) arg) (vaProt arg.flags) =
            some k →
          ∀ l m, l ≠ k → leases t.shim l = some m →
            Apart arg.vaAddress (mapBytes (t.shim.bo i) arg) m.base m.size) ∧
      ∀ i, unmapTarget t.shim arg = some i → RetainsApart t i
  | .gemClose handle => ∀ i, boOf t.shim handle = some i →
    ((t.shim.bo i).gpuVa ≠ 0 → RetainsApart t i) ∧
      ((t.shim.bo i).cpuPtr ≠ 0 → ∀ j s, j ≠ i → t.standing j = some s →
        Apart s.1 s.2 (t.shim.bo i).cpuPtr (t.shim.bo i).size)
  | _ => True

/-! ## Retained ranges and standing mappings stay apart -/

/-- No retained range meets a standing mapping, and every one ends below the top. -/
structure RetainedClear (w : Shim) (st : Fin winsysMaxBo → Option (UInt64 × UInt64)) : Prop where
  apart : ∀ i s k l, st i = some s → leases w k = some l → Apart s.1 s.2 l.base l.size
  below : ∀ k l, leases w k = some l → EndsBelowTop l.base l.size

variable {w w' : Shim} {st st' : Fin winsysMaxBo → Option (UInt64 × UInt64)}
  {i j : Fin winsysMaxBo}

theorem RetainedClear.init : RetainedClear .init fun _ => none where
  apart _ _ _ _ h := nomatch h
  below _ _ h := nomatch h

/-- Leases may end and mappings may cease to stand. -/
theorem RetainedClear.shrink (h : RetainedClear w st)
    (hl : ∀ k l, leases w' k = some l → leases w k = some l)
    (hs : ∀ i s, st' i = some s → st i = some s) : RetainedClear w' st' where
  apart i s k l hi hk := h.apart i s k l (hs i s hi) (hl k l hk)
  below k l hk := h.below k l (hl k l hk)

/-- A range is retained that meets nothing that still stands. -/
theorem RetainedClear.retain (h : RetainedClear w st) {va size : UInt64} {phys : Int}
    {prot : Prot} {owns : Bool} (hbelow : EndsBelowTop va size)
    (hap : ∀ j s, st j = some s → Apart s.1 s.2 va size) :
    RetainedClear (retain w va size phys prot owns) st := by
  refine ⟨fun j s l m hj hm => ?_, fun l m hm => ?_⟩
  · rcases leases_retain _ _ _ _ _ hm with hm | rfl
    · exact h.apart j s l m hj hm
    · exact hap j s hj
  · rcases leases_retain _ _ _ _ _ hm with hm | rfl
    · exact h.below l m hm
    · exact hbelow

/-- One call keeps retained ranges and standing mappings apart. -/
theorem RetainedClear.effect {t : Tracked} {op : Op} (h : RetainedClear t.shim t.standing)
    (he : Effect t.shim op w') (hc : SparesStanding t op) :
    RetainedClear w' (standingAfter t.shim t.standing op) := by
  cases he with
  | idle _ hidle =>
    rw [standingAfter_idle hidle]
    exact h
  | create => exact h.shrink (fun _ _ hl => hl) fun _ _ hs => hs
  | close handle i hi =>
    rw [standingAfter_close hi]
    have hst : RetainedClear t.shim (Function.update t.standing i none) :=
      h.shrink (fun _ _ hl => hl) fun j s hs => (update_none_eq_some hs).2
    have hcpu : RetainedClear (closeCpu t.shim i) (Function.update t.standing i none) :=
      hst.shrink (fun k l hl => by rwa [leases_closeCpu] at hl) fun _ _ hs => hs
    suffices RetainedClear (closePages (closeCpu t.shim i) i) (Function.update t.standing i none)
      from this.shrink (fun _ _ hl => hl) fun _ _ hs => hs
    by_cases hg : (t.shim.bo i).gpuVa = 0
    · rw [← closeCpu_bo (w := t.shim) (i := i)] at hg
      refine hcpu.shrink (fun k l hl => ?_) fun _ _ hs => hs
      rwa [leases_closePages_unmapped hg] at hl
    · obtain ⟨hbelow, hap⟩ := (hc i hi).1 hg
      rw [← closeCpu_bo (w := t.shim) (i := i)] at hg
      rw [closePages_mapped hg, closeCpu_bo]
      refine hcpu.retain hbelow fun j s hs => ?_
      obtain ⟨hji, hs⟩ := update_none_eq_some hs
      exact hap j s hji hs
  | cpu _ i v hcall =>
    rw [cpuCall_standing hcall]
    exact h.shrink (fun _ _ hl => hl) fun _ _ hs => hs
  | served arg mapOk i k hi hk =>
    rw [standingAfter_map hi (gemVa_ret_served hi hk mapOk)]
    obtain ⟨-, hother⟩ := hc.1 i ⟨hi, .inl (by rw [hk]; rfl)⟩
    have hold : ∀ l m, leases (mapFromRetained t.shim i k arg.vaAddress (vaProt arg.flags)) l =
        some m → l ≠ k ∧ leases t.shim l = some m := by
      intro l m hm
      rw [leases_mapFromRetained] at hm
      by_cases hlk : l = k
      · subst hlk; simp at hm
      · exact ⟨hlk, by rwa [Function.update_of_ne hlk] at hm⟩
    refine ⟨fun j s l m hj hm => ?_, fun l m hm => h.below l m (hold l m hm).2⟩
    obtain ⟨hlk, hm⟩ := hold l m hm
    rcases standAt_eq_some hj with ⟨-, rfl⟩ | ⟨-, hj, -⟩
    · exact hother k hk l m hlk hm
    · exact h.apart j s l m hj hm
  | afresh arg mapOk i hi hk =>
    cases mapOk with
    | false =>
      have hret : (gemVa t.shim arg false).1 ≠ .ok := by
        rw [ne_eq, gemVa_ret_afresh hi hk]
        decide
      rw [standingAfter_refused hi hret]
      exact h.shrink (fun k l hl => (leases_mapAfresh hl).1) fun _ _ hs => hs
    | true =>
      obtain ⟨hbelow, -⟩ := hc.1 i ⟨hi, .inr rfl⟩
      rw [standingAfter_map hi ((gemVa_ret_afresh hi hk true).mpr rfl)]
      refine ⟨fun j s l m hj hm => ?_, fun l m hm => h.below l m (leases_mapAfresh hm).1⟩
      obtain ⟨hm, ho⟩ := leases_mapAfresh hm
      rcases standAt_eq_some hj with ⟨-, rfl⟩ | ⟨-, hj, -⟩
      · exact apart_of_no_overlap hbelow (h.below l m hm) ho
      · exact h.apart j s l m hj hm
  | unmap arg mapOk i hi =>
    rw [standingAfter_unmap hi]
    obtain ⟨hbelow, hap⟩ := hc.2 i hi
    have hst : RetainedClear t.shim (Function.update t.standing i none) :=
      h.shrink (fun _ _ hl => hl) fun j s hs => (update_none_eq_some hs).2
    refine (hst.retain hbelow fun j s hs => ?_).shrink (fun _ _ hl => hl) fun _ _ hs => hs
    obtain ⟨hji, hs⟩ := update_none_eq_some hs
    exact hap j s hji hs

/-! ## Survival -/

/-- With retained ranges apart from what stands, a call that concerns other buffers leaves every
    standing mapping. -/
theorem RetainedClear.survives {t : Tracked} {op : Op} (h : RetainedClear t.shim t.standing)
    (hc : SparesStanding t op) : StandingSurvives t op := by
  intro i va size hi hother a ha
  have hoff : ∀ k l, leases t.shim k = some l → ¬ InSpan l.base l.size a :=
    fun k l hk => h.apart i _ k l hi hk a ha
  have he := step_effect (w := t.shim) op
  generalize step t.shim op = w' at he ⊢
  cases he with
  | idle => rfl
  | create => rfl
  | close handle j hj =>
    have hji : j ≠ i := fun heq => hother (heq ▸ hj)
    have hcpu : (closeCpu t.shim j).mem.pageTable a = t.shim.mem.pageTable a :=
      closeCpu_pageTable fun h0 => (hc j hj).2 h0 i _ hji.symm hi a ha
    show (closePages (closeCpu t.shim j) j).mem.pageTable a = _
    rw [← hcpu]
    by_cases hg : ((closeCpu t.shim j).bo j).gpuVa = 0
    · rw [closePages_unmapped_pageTable hg]
    · rw [closePages_mapped hg]
      exact retain_pageTable _ _ _ _ _ fun k l hk => hoff k l (by rwa [leases_closeCpu] at hk)
  | cpu _ j v hcall => cases op <;> first | exact hother.elim | simp [cpuCall] at hcall
  | served arg mapOk j k => rw [mapFromRetained_pageTable]
  | afresh arg mapOk j hj =>
    obtain ⟨hb, hc'⟩ := Option.filter_eq_some_iff.mp hj
    simp only [Bool.and_eq_true, beq_iff_eq] at hc'
    exact mapAfresh_pageTable hoff fun _ => hother.2.2 hc'.1.2 j hb a ha
  | unmap arg mapOk j => exact retain_pageTable _ _ _ _ _ hoff

/-- **A mapping that stands survives.** In a run whose steps spare what stands, every CLOSE,
    UNMAP, or MAP elsewhere of another buffer, with all the releases it brings, leaves the range
    translating as before. -/
theorem standing_survives {t : Tracked} (h : Reach trackedStep SparesStanding .init t) {op : Op}
    (hc : SparesStanding t op) : StandingSurvives t op := by
  have hclear : RetainedClear t.shim t.standing :=
    h.invariant (P := fun t => RetainedClear t.shim t.standing) .init
      fun t op ht hok => ht.effect (step_effect op) hok
  exact hclear.survives hc

/-- A buffer of one page. -/
private def createPage (phys : Int) : Op := .gemCreate ⟨0x4000, 0x4000, 4, 0⟩ (some phys)

/-- The whole of a buffer mapped at `va`. -/
private def mapWholeAt (handle : UInt32) (va : UInt64) : GemVaArg :=
  ⟨handle, vaOpMap, 6, va, 0, 0⟩

theorem standing_survives_close :
    let t := [createPage 0, createPage 0x4000, .gemVa (mapWholeAt 1 0x400000000) true].foldl
      trackedStep .init
    (step t.shim (.gemClose 2)).mem.pageTable 0x400000000 = some ⟨0, ⟨true, true, true, true⟩⟩ := by
  intro t
  let u := trackedStep (trackedStep .init (createPage 0)) (createPage 0x4000)
  have hu : Reach trackedStep SparesStanding .init u := .tail _ (.tail _ .refl trivial) trivial
  have hmap : mapTarget u.shim (mapWholeAt 1 0x400000000) = some 0 := by decide +kernel
  have hserved : servedBy u.shim 0 (mapWholeAt 1 0x400000000).vaAddress
      (mapBytes (u.shim.bo 0) (mapWholeAt 1 0x400000000))
      (vaProt (mapWholeAt 1 0x400000000).flags) = none := by decide +kernel
  have hstep : SparesStanding u (.gemVa (mapWholeAt 1 0x400000000) true) := by
    refine ⟨fun i hi => ?_, fun i hi => ?_⟩
    · obtain rfl : i = 0 := Option.some.inj (hi.1.symm.trans hmap)
      refine ⟨by decide +kernel, fun k hk => ?_⟩
      rw [hserved] at hk
      cases hk
    · rw [show unmapTarget u.shim (mapWholeAt 1 0x400000000) = none by decide +kernel] at hi
      cases hi
  have hclose : SparesStanding t (.gemClose 2) := by
    intro i hi
    have h2 : boOf t.shim 2 = some 1 := by decide +kernel
    obtain rfl : i = 1 := Option.some.inj (hi.symm.trans h2)
    have hg : (t.shim.bo 1).gpuVa = 0 := by decide +kernel
    have hp : (t.shim.bo 1).cpuPtr = 0 := by decide +kernel
    exact ⟨fun h => absurd hg h, fun h => absurd hp h⟩
  have h := standing_survives (t := t) (hu.tail _ hstep) hclose 0 0x400000000 0x4000
    (by decide +kernel) (show boOf t.shim 2 ≠ some 0 by decide +kernel) 0x400000000
    (by decide +kernel)
  rw [h]
  decide +kernel

/-- **A permitted collision kills a live mapping.** Buffer 2 is mapped over leaked buffer 1, which
    is closed: its range is retained with buffer 2's pages in it. An UNMAP of buffer 3 evicts it,
    and the range buffer 2 still has translates to nothing. -/
theorem not_standing_survives :
    ¬ ∀ t, Reach trackedStep (fun t op => PlatformMaps t.shim op) .init t →
      ∀ op, StandingSurvives t op := by
  intro hall
  let ops : List Op :=
    [createPage 0, createPage 0x4000, .gemCreate ⟨0x10000000, 0x4000, 4, 0⟩ (some 0x8000),
      .gemVa (mapWholeAt 1 0x400000000) true, .gemVa (mapWholeAt 2 0x400000000) true,
      .gemClose 1, .gemVa (mapWholeAt 3 0x500000000) true]
  let t := ops.foldl trackedStep .init
  have hreach : Reach trackedStep (fun t op => PlatformMaps t.shim op) .init t := by
    refine Reach.foldl ops fun op hop t => ?_
    simp only [ops, List.mem_cons, List.not_mem_nil, or_false] at hop
    rcases hop with rfl | rfl | rfl | rfl | rfl | rfl | rfl <;> exact fun _ _ h => nomatch h
  let unmap3 : GemVaArg := ⟨3, vaOpUnmap, 6, 0x500000000, 0, 0⟩
  have hother : Elsewhere t.shim 1 0x400000000 0x4000 (.gemVa unmap3 true) := by
    refine ⟨.inl rfl, by decide +kernel, fun h => ?_⟩
    exact absurd h (by decide)
  have h := hall t hreach (.gemVa unmap3 true) 1 0x400000000 0x4000 (by decide +kernel) hother
    0x400000000 (by decide +kernel)
  have hgone : (step t.shim (.gemVa unmap3 true)).mem.pageTable 0x400000000 = none := by
    decide +kernel
  have hwas : t.shim.mem.pageTable 0x400000000 = some ⟨0x4000, ⟨true, true, true, true⟩⟩ := by
    decide +kernel
  rw [hgone, hwas] at h
  cases h

end OopsMesa.Winsys
