/-
  A MAP that returns 0 has mapped the buffer.

  Afresh this is what the batch map does. A MAP served from a retained range makes no platform
  call at all, so it rests on the range being mapped as it was recorded, and that was decided by
  the UNMAP or CLOSE that retained it: `retain` is given the buffer's recorded address and its
  full size, whatever the last MAP covered and whatever was mapped there since. `RetainsBacked`
  is the condition under which that record is true. With it every retained range stays backed
  and no two overlap (`RetainedTrue`), and every MAP tells the truth (`map_tells_truth`).
  Without it a MAP of half a buffer, an UNMAP and a MAP of the whole return 0 over a hole
  (`not_map_tells_truth`).
-/
import OopsMesa.Lib.Reach
import OopsMesa.Winsys.Coverage

namespace OopsMesa.Winsys

open OopsMesa.Lib

variable {w w' : Shim} {i : Fin winsysMaxBo} {k : Fin winsysMaxRetained}

/-- What a MAP that returns 0 leaves: the range translates to the buffer's pages with the
    protection asked for, and if a retained range served it, the page table is the one that
    unmapping the range and mapping the buffer there gives. -/
def MapTellsTruth (w : Shim) (arg : GemVaArg) (mapOk : Bool) : Prop :=
  ∀ i, boOf w arg.handle = some i → arg.operation = vaOpMap → (gemVa w arg mapOk).1 = .ok →
    let w' := (gemVa w arg mapOk).2
    let size := mapBytes (w.bo i) arg
    let pages := pageOf (w'.bo i).phys (vaProt arg.flags)
    Backs w'.mem.pageTable arg.vaAddress size pages ∧
      ∀ k, servedBy w i arg.vaAddress size (vaProt arg.flags) = some k →
        w'.mem.pageTable =
          mapSpan (unmapSpan w.mem.pageTable arg.vaAddress size) arg.vaAddress size pages

/-- What buffer `i` records can be retained as it stands: the range ends below the top of the
    address space, the whole of it translates to the buffer's pages with the recorded
    protection, and no range retained already overlaps it. -/
structure Retainable (w : Shim) (i : Fin winsysMaxBo) : Prop where
  below : EndsBelowTop (w.bo i).gpuVa (w.bo i).size
  backed : Backs w.mem.pageTable (w.bo i).gpuVa (w.bo i).size
    (pageOf (w.bo i).phys (w.bo i).gpuProt)
  apart : ∀ k l, leases w k = some l → Apart l.base l.size (w.bo i).gpuVa (w.bo i).size

/-- The condition on a step: a MAP that takes effect ends below the top, UNMAP and CLOSE
    retain only what they can, and a CLOSE does not unmap a retained range, or the one it is
    about to retain, as the buffer's CPU mapping. -/
def RetainsBacked (w : Shim) : Op → Prop
  | .gemVa arg mapOk =>
    (∀ i, MapTakesEffect w arg mapOk i →
      EndsBelowTop arg.vaAddress (mapBytes (w.bo i) arg)) ∧
      ∀ i, unmapTarget w arg = some i → Retainable w i
  | .gemClose handle => ∀ i, boOf w handle = some i →
    ((w.bo i).gpuVa ≠ 0 → Retainable w i) ∧
      ((w.bo i).cpuPtr ≠ 0 →
        ((w.bo i).gpuVa ≠ 0 →
          Apart (w.bo i).gpuVa (w.bo i).size (w.bo i).cpuPtr (w.bo i).size) ∧
        ∀ k l, leases w k = some l → Apart l.base l.size (w.bo i).cpuPtr (w.bo i).size)
  | _ => True

/-! ## Retained ranges stay true -/

/-- Every retained range is backed, no two overlap, and each ends below the top. -/
structure RetainedTrue (w : Shim) : Prop where
  kept : Kept w.mem.pageTable (leases w)
  below : ∀ k l, leases w k = some l → EndsBelowTop l.base l.size

theorem RetainedTrue.init : RetainedTrue .init where
  kept := .empty fun _ => rfl
  below _ _ h := nomatch h

theorem RetainedTrue.congr (h : RetainedTrue w) (hpt : w'.mem.pageTable = w.mem.pageTable)
    (hl : leases w' = leases w) : RetainedTrue w' := by
  refine ⟨?_, ?_⟩
  · rw [hpt, hl]
    exact h.kept
  · rw [hl]
    exact h.below

theorem RetainedTrue.release (h : RetainedTrue w) (hk : (w.retained k).used = true) :
    RetainedTrue (retainedRelease w k) := by
  refine ⟨?_, fun l m hm => ?_⟩
  · rw [retainedRelease_pageTable, leases_retainedRelease]
    exact h.kept.release (leases_of_used hk)
  · rw [leases_retainedRelease] at hm
    by_cases hlk : l = k
    · subst hlk; simp at hm
    · rw [Function.update_of_ne hlk] at hm
      exact h.below l m hm

theorem Releases.retainedTrue (h : Releases w w') (hw : RetainedTrue w) : RetainedTrue w' :=
  h.invariant hw fun _ _ hv hk => hv.release hk

/-- Storing a range that is backed and overlaps no other. -/
theorem RetainedTrue.store (h : RetainedTrue w) {va size : UInt64} {phys : Int} {prot : Prot}
    {owns : Bool} (hbelow : EndsBelowTop va size)
    (hb : Backs w.mem.pageTable va size (pageOf phys prot))
    (hap : ∀ k l, leases w k = some l → Apart l.base l.size va size) :
    RetainedTrue (retainedStore w k va size phys prot owns) := by
  refine ⟨?_, fun l m hm => ?_⟩
  · rw [leases_retainedStore, retainedStore_mem]
    exact h.kept.record hb fun j m _ hj => hap j m hj
  · rw [leases_retainedStore] at hm
    by_cases hlk : l = k
    · subst hlk
      rw [Function.update_self, Option.some.injEq] at hm
      subst hm
      exact hbelow
    · rw [Function.update_of_ne hlk] at hm
      exact h.below l m hm

theorem RetainedTrue.retain (h : RetainedTrue w) {va size : UInt64} {phys : Int} {prot : Prot}
    {owns : Bool} (hbelow : EndsBelowTop va size)
    (hb : Backs w.mem.pageTable va size (pageOf phys prot))
    (hap : ∀ k l, leases w k = some l → Apart l.base l.size va size) :
    RetainedTrue (retain w va size phys prot owns) := by
  obtain ⟨v, k, hrel, -, heq⟩ := retain_eq (w := w) va size phys prot owns
  rw [heq]
  refine (hrel.retainedTrue h).store hbelow ?_ fun j l hj => hap j l (hrel.leases hj)
  -- the evictions clear retained ranges only, and those are apart from the new one
  exact hb.congr fun a ha => hrel.pageTable fun j l hj hin => hap j l hj a hin ha

/-- The CPU mapping of a closing buffer goes first, and is apart from every retained range. -/
theorem RetainedTrue.closeCpu (h : RetainedTrue w)
    (hcpu : (w.bo i).cpuPtr ≠ 0 →
      ∀ k l, leases w k = some l → Apart l.base l.size (w.bo i).cpuPtr (w.bo i).size) :
    RetainedTrue (closeCpu w i) := by
  refine ⟨?_, ?_⟩
  · rw [leases_closeCpu]
    exact h.kept.congr fun k l a hk ha => closeCpu_pageTable fun h0 => hcpu h0 k l hk a ha
  · rw [leases_closeCpu]
    exact h.below

/-- A buffer's recorded range is still backed once its CPU mapping elsewhere is gone. -/
theorem Retainable.backed_closeCpu (h : Retainable w i)
    (hcpu : (w.bo i).cpuPtr ≠ 0 →
      Apart (w.bo i).gpuVa (w.bo i).size (w.bo i).cpuPtr (w.bo i).size) :
    Backs (closeCpu w i).mem.pageTable (w.bo i).gpuVa (w.bo i).size
      (pageOf (w.bo i).phys (w.bo i).gpuProt) :=
  h.backed.congr fun a ha => closeCpu_pageTable fun h0 => hcpu h0 a ha

theorem RetainedTrue.close (h : RetainedTrue w) {handle : UInt32} (hi : boOf w handle = some i)
    (hc : RetainsBacked w (.gemClose handle)) :
    RetainedTrue ((closePages (Winsys.closeCpu w i) i).setBo i .zero) := by
  obtain ⟨hret, hcpu⟩ := hc i hi
  have hw := h.closeCpu fun h0 => (hcpu h0).2
  suffices RetainedTrue (closePages (Winsys.closeCpu w i) i) from this.congr rfl rfl
  by_cases hg : (w.bo i).gpuVa = 0
  · rw [← closeCpu_bo (w := w) (i := i)] at hg
    exact hw.congr (closePages_unmapped_pageTable hg) (leases_closePages_unmapped hg)
  · have hr := hret hg
    rw [← closeCpu_bo (w := w) (i := i)] at hg
    rw [closePages_mapped hg, closeCpu_bo]
    rw [closeCpu_bo] at hg
    refine hw.retain hr.below (hr.backed_closeCpu fun h0 => (hcpu h0).1 hg) ?_
    rw [leases_closeCpu]
    exact hr.apart

/-- A MAP afresh releases every retained range over its span, so the batch map spoils none. -/
theorem RetainedTrue.afresh (h : RetainedTrue w) {va size : UInt64} {prot : Prot} {mapOk : Bool}
    (hbelow : mapOk = true → EndsBelowTop va size) :
    RetainedTrue (mapAfresh w i va size prot mapOk).2 := by
  have hv := (releaseOverlapping_releases (w := w) va size).retainedTrue h
  cases mapOk with
  | false =>
    rw [mapAfresh_false]
    exact hv
  | true =>
    rw [mapAfresh_true]
    refine ⟨hv.kept.congr fun k l a hk ha => mapSpan_of_not_inSpan ?_, hv.below⟩
    exact (apart_of_no_overlap (hbelow rfl) (hv.below k l hk)
      (releaseOverlapping_clear hk)).symm a ha

/-- One call keeps the retained ranges true. -/
theorem RetainedTrue.effect (h : RetainedTrue w) {op : Op} (he : Effect w op w')
    (hmap : PlatformMaps w op) (hc : RetainsBacked w op) : RetainedTrue w' := by
  cases he with
  | idle => exact h
  | create arg phys i => exact h.congr rfl rfl
  | close handle i hi => exact h.close hi hc
  | cpu _ i v hcall _ hnone =>
    -- nothing was mapped at the new CPU address, so no retained range lies there
    obtain ⟨-, hclear⟩ := hmap i v hcall hnone
    refine ⟨h.kept.congr fun k l a hk ha => mapSpan_of_not_inSpan ?_, h.below⟩
    exact (h.kept.backed k l hk).apart_of_clear hclear a ha
  | served arg mapOk i k _ hk =>
    refine ⟨?_, fun l m hm => ?_⟩
    · rw [mapFromRetained_pageTable, leases_mapFromRetained]
      refine h.kept.forget fun j m hj => ?_
      by_cases hjk : j = k
      · subst hjk; simp at hj
      · rwa [Function.update_of_ne hjk] at hj
    · rw [leases_mapFromRetained] at hm
      by_cases hlk : l = k
      · subst hlk; simp at hm
      · rw [Function.update_of_ne hlk] at hm
        exact h.below l m hm
  | afresh arg mapOk i hi => exact h.afresh fun hok => hc.1 i ⟨hi, .inr hok⟩
  | unmap arg mapOk i hi =>
    have hr := hc.2 i hi
    exact (h.retain hr.below hr.backed hr.apart).congr rfl rfl

/-! ## MAP -/

/-- With true retained ranges a MAP that returns 0 has mapped the buffer. -/
theorem RetainedTrue.map (h : RetainedTrue w) (arg : GemVaArg) (mapOk : Bool) :
    MapTellsTruth w arg mapOk := by
  intro i hi hop hret
  have ht := mapTarget_of_ok hi hop hret
  rw [gemVa_of_mapTarget ht] at hret ⊢
  cases hk : servedBy w i arg.vaAddress (mapBytes (w.bo i) arg) (vaProt arg.flags) with
  | some k =>
    have hb := backs_of_servedBy h.kept hk
    simp only [mapFromRetained_pageTable, mapFromRetained_bo, Function.update_self]
    exact ⟨hb, fun _ _ => hb.eq_map_unmap.symm⟩
  | none =>
    refine ⟨?_, fun k hk' => by rw [hk] at hk'; cases hk'⟩
    rw [hk] at hret
    cases mapOk with
    | true =>
      simp only [mapAfresh_true, setBo_mem, setMem_mem, batchMap_pageTable, setBo_bo_self]
      exact backs_mapSpan
    | false => simp [mapAfresh] at hret

/-- **MAP tells the truth.** In every state a run reaches whose steps retain only what is
    mapped, a MAP that returns 0 leaves the range mapped to the buffer's pages, and a MAP served
    from a retained range leaves the page table as unmapping and mapping afresh would. -/
theorem map_tells_truth
    (h : Reach step (fun w op => PlatformMaps w op ∧ RetainsBacked w op) .init w)
    (arg : GemVaArg) (mapOk : Bool) : MapTellsTruth w arg mapOk :=
  (h.invariant RetainedTrue.init fun _ op hw hok =>
    hw.effect (step_effect op) hok.1 hok.2).map arg mapOk

/-- A buffer of two pages, on the direct memory from 0 on. -/
private def createTwoPages : Op := .gemCreate ⟨0x8000, 0x4000, 4, 0⟩ (some 0)

/-- The whole of the buffer mapped, and unmapped. -/
private def mapBoth : GemVaArg := ⟨1, vaOpMap, 6, 0x400000000, 0, 0⟩

private def unmapBoth : GemVaArg := ⟨1, vaOpUnmap, 6, 0x400000000, 0, 0⟩

/-- A buffer mapped, unmapped and mapped again, from the range that was retained: the platform is
    not asked, and both pages are there. -/
theorem map_tells_truth_again :
    let w := run .init [createTwoPages, .gemVa mapBoth true, .gemVa unmapBoth true]
    servedBy w 0 0x400000000 0x8000 ⟨true, true, true, true⟩ = some 0 ∧
      Backs (gemVa w mapBoth false).2.mem.pageTable 0x400000000 0x8000
        (pageOf 0 ⟨true, true, true, true⟩) := by
  let ok (w : Shim) (op : Op) : Prop := PlatformMaps w op ∧ RetainsBacked w op
  let u := step .init createTwoPages
  let v := step u (.gemVa mapBoth true)
  let w := step v (.gemVa unmapBoth true)
  have htarget : mapTarget u mapBoth = some 0 := by decide +kernel
  have hserved : servedBy u 0 mapBoth.vaAddress (mapBytes (u.bo 0) mapBoth)
      (vaProt mapBoth.flags) = none := by decide +kernel
  have hu : Reach step ok .init u := Reach.refl.tail createTwoPages ⟨.of_no_cpuCall rfl, trivial⟩
  have hmap : ok u (.gemVa mapBoth true) := by
    refine ⟨.of_no_cpuCall rfl, fun i hi => ?_, fun i hi => ?_⟩
    · obtain rfl : i = 0 := Option.some.inj (hi.1.symm.trans htarget)
      decide +kernel
    · have hno : unmapTarget u mapBoth = none := by decide +kernel
      cases hno.symm.trans hi
  have hv : Reach step ok .init v := hu.tail (.gemVa mapBoth true) hmap
  have hmapped : Backs v.mem.pageTable 0x400000000 0x8000 (pageOf 0 ⟨true, true, true, true⟩) := by
    have h := (map_tells_truth hu mapBoth true 0 (by decide +kernel) rfl (by decide +kernel)).1
    have hsize : mapBytes (u.bo 0) mapBoth = 0x8000 := by decide +kernel
    have hphys : ((gemVa u mapBoth true).2.bo 0).phys = 0 := by decide +kernel
    rw [hsize, hphys] at h
    exact h
  have hnone : ∀ k l, leases v k ≠ some l := by
    intro k l hl
    have hstep : v = (mapAfresh u 0 mapBoth.vaAddress (mapBytes (u.bo 0) mapBoth)
        (vaProt mapBoth.flags) true).2 := by
      show (gemVa u mapBoth true).2 = _
      rw [gemVa_of_mapTarget htarget, hserved]
    rw [hstep] at hl
    have hold : leases u k = some l := (leases_mapAfresh hl).1
    have hfresh : leases u k = none := create_init_leases
    cases hfresh.symm.trans hold
  have hunmap : ok v (.gemVa unmapBoth true) := by
    refine ⟨.of_no_cpuCall rfl, fun i hi => ?_, fun i hi => ?_⟩
    · have hno : mapTarget v unmapBoth = none := by decide +kernel
      cases hno.symm.trans hi.1
    · have ht : unmapTarget v unmapBoth = some 0 := by decide +kernel
      obtain rfl : i = 0 := Option.some.inj (hi.symm.trans ht)
      have hva : (v.bo 0).gpuVa = 0x400000000 := by decide +kernel
      have hsize : (v.bo 0).size = 0x8000 := by decide +kernel
      have hpages : pageOf (v.bo 0).phys (v.bo 0).gpuProt = pageOf 0 ⟨true, true, true, true⟩ := by
        rw [show (v.bo 0).phys = 0 by decide +kernel,
          show (v.bo 0).gpuProt = ⟨true, true, true, true⟩ by decide +kernel]
      refine ⟨by decide +kernel, ?_, fun k l hl => absurd hl (hnone k l)⟩
      rw [hva, hsize, hpages]
      exact hmapped
  have hw : Reach step ok .init w := hv.tail (.gemVa unmapBoth true) hunmap
  have h := (map_tells_truth hw mapBoth false 0 (by decide +kernel) rfl (by decide +kernel)).1
  have hsize : mapBytes (w.bo 0) mapBoth = 0x8000 := by decide +kernel
  have hphys : ((gemVa w mapBoth false).2.bo 0).phys = 0 := by decide +kernel
  rw [hsize, hphys] at h
  exact ⟨by decide +kernel, h⟩

/-- Half of the buffer mapped. -/
private def mapHalf : GemVaArg := ⟨1, vaOpMap, 6, 0x400000000, 0, 0x4000⟩

/-- **Without the condition a MAP can lie.** Half of a two-page buffer is mapped and unmapped;
    the retained range claims both pages, and the MAP of the whole buffer it serves returns 0
    with the second page untranslated. -/
theorem not_map_tells_truth :
    ¬ ∀ w, Reach step PlatformMaps .init w → ∀ arg mapOk, MapTellsTruth w arg mapOk := by
  intro hall
  let ops : List Op :=
    [createTwoPages, .gemVa mapHalf true, .gemVa ⟨1, vaOpUnmap, 6, 0x400000000, 0, 0x4000⟩ true]
  let whole : GemVaArg := ⟨1, vaOpMap, 6, 0x400000000, 0, 0x8000⟩
  have hreach : Reach step PlatformMaps .init (run .init ops) := by
    refine Reach.foldl ops fun op hop w => ?_
    simp only [ops, List.mem_cons, List.not_mem_nil, or_false] at hop
    rcases hop with rfl | rfl | rfl <;> exact fun _ _ h => nomatch h
  have h := (hall _ hreach whole true 0 (by decide +kernel) rfl (by decide +kernel)).1
    0x400004000 (by decide +kernel)
  have hhole : (gemVa (run .init ops) whole true).2.mem.pageTable 0x400004000 = none := by
    decide +kernel
  rw [hhole] at h
  cases h

end OopsMesa.Winsys
