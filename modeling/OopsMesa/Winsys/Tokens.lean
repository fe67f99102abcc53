/-
  CPU pointers last.

  libdrm asks for the token of a buffer and maps that; the shim's own callers name the handle.
  The mapping is made the first time anyone asks, and belongs to the buffer: `munmap` does nothing,
  and everyone who asks later gets the same pointer, without another call of the platform. As long
  as the buffer is not closed the pointer leads to the buffer's own memory, and no other buffer's
  pointer meets it (`pointer_lasts`).
-/
import OopsMesa.Winsys.CpuMaps
import OopsMesa.Winsys.Ledger
import OopsMesa.Winsys.Ownership

namespace OopsMesa.Winsys

open OopsMesa.Lib

variable {w w' : Shim} {op : Op} {i j : Fin winsysMaxBo} {handle : UInt32} {l : Lease Pte}
  {p length offset token : UInt64} {map : Option UInt64}

/-! ## The code -/

/-- `oops_winsys_mmap_or_failed`: `MAP_FAILED` for a null pointer. -/
def mmapOrFailed (w : Shim) (length offset : UInt64) (map : Option UInt64) : UInt64 × Shim :=
  let r := mmap w length offset map
  (if r.1 ≠ 0 then r.1 else 0xffffffffffffffff, r.2)

/-! ## The statement -/

/-- The steps of runs that leave the CPU mappings alone. -/
def LeavesPointers (w : Shim) (op : Op) : Prop :=
  PlatformMaps w op ∧ PlatformAligns w op ∧ LeavesCpu w op

/-- The offset is one of the token that GEM_MMAP gives for the handle. -/
def IsToken (w : Shim) (handle : UInt32) (offset : UInt64) : Prop :=
  ∃ token, gemMmap w handle = (.ok, token) ∧ token ≤ offset ∧ offset - token < winsysPage

/-- `p` is the pointer of a buffer of `size` bytes from `phys` on. -/
structure PointsTo (w : Shim) (handle : UInt32) (p size : UInt64) (phys : Int) : Prop where
  live : boIsLive w handle = true
  sized : boSize w handle = size
  /-- Whoever maps the buffer gets the pointer, and nothing else happens. -/
  mapped : ∀ length offset map, IsToken w handle offset → length ≤ size →
    mmapOrFailed w length offset map = (p, w)
  ranged : ∀ offset bytes map, offset.toNat + bytes.toNat ≤ size.toNat →
    boCpuRange w handle offset bytes map = (p + offset, w)
  /-- It leads to the buffer's memory. -/
  backed : Backs w.mem.pageTable p size (pageOf phys .cpuRw)
  /-- The pointers of other buffers lead elsewhere. -/
  apart : ∀ other j l, other ≠ handle → boOf w other = some j → (w.bo j).cpuLease = some l →
    Apart p size l.base l.size

/-! ## One call -/

/-- A buffer with a CPU mapping keeps it, and its memory, unless the call closes it. -/
theorem step_cpuLease (hl : (w.bo i).cpuLease = some l)
    (hopen : ∀ handle, op = .gemClose handle → boOf w handle ≠ some i) :
    ((step w op).bo i).cpuLease = some l := by
  by_cases hi : opTarget w op = some i
  · have he := step_effect (w := w) op
    generalize step w op = w' at he ⊢
    have htarget : ∀ {j}, opTarget w op = some j → j = i := fun hj =>
      Option.some.inj (hj.symm.trans hi)
    obtain ⟨hlive, hcpu, rfl⟩ := cpuLease_eq_some hl
    cases he with
    | idle => exact hl
    | create arg phys j hsize hj =>
      obtain rfl := htarget hj
      exact nomatch hlive.symm.trans (freeBo_dead hj)
    | close handle j hj =>
      obtain rfl := htarget hj
      exact absurd hj (hopen handle rfl)
    | cpu op j v hj _ hnone =>
      obtain rfl := htarget (opTarget_cpu hj)
      exact absurd hnone hcpu
    | served arg _ j k hj hk =>
      obtain rfl := htarget (Option.eq_some_of_filter_eq_some hj)
      -- a buffer with a CPU mapping is served from its own pages
      obtain ⟨-, -, -, -, hphys⟩ := servedBy_eq_some hk
      have hown : (w.retained k).phys = (w.bo j).phys := hphys.resolve_right fun h => hcpu h.2.1
      rw [mapFromRetained_bo, Function.update_self, ← hl]
      simp [Bo.cpuLease, hown]
    | afresh arg mapOk j hj =>
      obtain rfl := htarget (Option.eq_some_of_filter_eq_some hj)
      have hbo := (releaseOverlapping_releases (w := w) arg.vaAddress (mapBytes (w.bo j) arg)).bo
      cases mapOk with
      | true =>
        rw [mapAfresh_true]
        show Bo.cpuLease ((Shim.setBo _ j _).bo j) = _
        rw [setBo_bo_self, hbo]
        exact hl
      | false =>
        rw [mapAfresh_false, hbo]
        exact hl
    | unmap arg _ j hj =>
      obtain rfl := htarget (Option.eq_some_of_filter_eq_some hj)
      rw [setBo_bo_self]
      exact hl
  · rw [step_bo_of_ne hi]
    exact hl

/-- Only its own handle closes a buffer. -/
theorem boOf_ne_of_handle {other : UInt32} (h : boOf w handle = some i) (hne : other ≠ handle) :
    boOf w other ≠ some i := by
  intro hother
  have hval := boOf_val h
  have hval' := boOf_val hother
  exact hne (UInt32.toNat_inj.mp (by omega))

/-! ## The pointer -/

theorem winsysPage_eq : winsysPage.toNat = 0x4000 := rfl

/-- An offset of the token names the handle. -/
theorem IsToken.names (h : IsToken w handle offset) :
    (offset / winsysPage).toUInt32 = handle := by
  obtain ⟨token, htoken, hle, hlt⟩ := h
  have hhandle := handle.toNat_lt
  have hvalue : token.toNat = handle.toNat * 0x4000 := by
    unfold gemMmap at htoken
    split at htoken
    · cases htoken
    · cases htoken
      rw [UInt64.toNat_mul, UInt32.toNat_toUInt64, winsysPage_eq, Nat.mod_eq_of_lt (by omega)]
  have hdiff := UInt64.toNat_sub_of_le _ _ hle
  rw [UInt64.lt_iff_toNat_lt, hdiff, winsysPage_eq, hvalue] at hlt
  rw [UInt64.le_iff_toNat_le, hvalue] at hle
  refine UInt32.toNat_inj.mp ?_
  rw [UInt64.toNat_toUInt32, UInt64.toNat_div, winsysPage_eq]
  omega

/-- A buffer that has a CPU mapping is not mapped again. -/
theorem cpuMap_of_lease (hl : (w.bo i).cpuLease = some l) : cpuMap w i map = (true, w) := by
  obtain ⟨-, hcpu, -⟩ := cpuLease_eq_some hl
  unfold cpuMap
  dsimp only
  exact if_pos hcpu

theorem CpuKept.pointsTo (h : CpuKept w) (hi : boOf w handle = some i)
    (hl : (w.bo i).cpuLease = some l) :
    PointsTo w handle l.base l.size (w.bo i).phys := by
  obtain ⟨hlive, hcpu, rfl⟩ := cpuLease_eq_some hl
  refine ⟨?_, ?_, fun length offset map htoken hle => ?_, fun offset bytes map hin => ?_,
    h.kept.backed i _ hl, fun other j m hne hj hm => ?_⟩
  · unfold boIsLive
    rw [hi]
    rfl
  · unfold boSize
    rw [hi]
  · have htarget : mmapTarget w length offset = some i := by
      unfold mmapTarget
      rw [htoken.names, hi, Option.filter_some, if_pos]
      simpa using hle
    unfold mmapOrFailed mmap
    rw [htarget]
    dsimp only
    rw [cpuMap_of_lease hl]
    dsimp only
    rw [if_pos hcpu]
  · have hoff : offset ≤ (w.bo i).size := by
      rw [UInt64.le_iff_toNat_le]
      show offset.toNat ≤ (w.bo i).size.toNat
      have hin' : offset.toNat + bytes.toNat ≤ (w.bo i).size.toNat := hin
      omega
    have htarget : boCpuRangeTarget w handle offset bytes = some i := by
      unfold boCpuRangeTarget
      rw [hi, Option.filter_some, if_pos]
      simpa using ⟨hoff, (le_sub_iff hoff).mpr hin⟩
    unfold boCpuRange
    rw [htarget]
    dsimp only
    rw [cpuMap_of_lease hl]
  · refine h.kept.apart i j _ m ?_ hl hm
    rintro rfl
    exact boOf_ne_of_handle hi hne hj

/-- Where a buffer is mapped, the pointer is the one its record has. -/
theorem mmap_lease (htoken : IsToken w handle offset) (hne : (mmap w length offset map).1 ≠ 0) :
    ∃ i l, boOf (mmap w length offset map).2 handle = some i ∧
      ((mmap w length offset map).2.bo i).cpuLease = some l ∧
      l.base = (mmap w length offset map).1 ∧ l.size = boSize w handle := by
  cases ht : mmapTarget w length offset with
  | none =>
    unfold mmap at hne
    rw [ht] at hne
    exact absurd rfl hne
  | some i =>
    have hi : boOf w handle = some i := htoken.names ▸ Option.eq_some_of_filter_eq_some ht
    have hsize : boSize w handle = (w.bo i).size := by
      unfold boSize
      rw [hi]
    obtain ⟨hentry, hlive⟩ := boOf_eq_some.mp hi
    unfold mmap at hne ⊢
    rw [ht] at hne ⊢
    dsimp only at hne ⊢
    by_cases hcpu : (w.bo i).cpuPtr = 0
    · cases map with
      | none =>
        have hrefused : cpuMap w i none = (false, w) := by
          unfold cpuMap
          dsimp only
          rw [if_neg (not_not_intro hcpu)]
        rw [hrefused] at hne
        exact absurd rfl hne
      | some v =>
        have hmapped : cpuMap w i (some v) = (true, cpuMapped w i v) := by
          unfold cpuMap
          dsimp only
          rw [if_neg (not_not_intro hcpu)]
          rfl
        rw [hmapped] at hne ⊢
        dsimp only at hne ⊢
        have hbo : (cpuMapped w i v).bo i = { w.bo i with cpuPtr := v } := setBo_bo_self ..
        rw [hbo] at hne ⊢
        refine ⟨i, ⟨v, (w.bo i).size, pageOf (w.bo i).phys .cpuRw⟩,
          boOf_eq_some.mpr ⟨hentry, ?_⟩, ?_, rfl, hsize.symm⟩
        · rw [hbo]
          exact hlive
        · rw [hbo]
          exact cpuLease_of_live hlive hne
    · have hl := cpuLease_of_live hlive hcpu
      rw [cpuMap_of_lease hl]
      exact ⟨i, _, hi, hl, rfl, hsize.symm⟩

theorem cpuKept_step (h : CpuKept w) (hop : LeavesPointers w op) : CpuKept (step w op) :=
  h.effect (step_effect op) hop.1 hop.2.1 hop.2.2

/-- **A CPU pointer lasts as long as its buffer.** Once a buffer was mapped by its token, whatever
    is called, except to close it, leaves the pointer good, and the only one, and it leads to the
    pages that the buffer has. -/
theorem pointer_lasts (h : Reach step LeavesPointers .init w) (htoken : IsToken w handle offset)
    (hop : LeavesPointers w (.mmap length offset map))
    (hmap : (mmap w length offset map).1 = p) (hne : p ≠ 0)
    (hrun : Reach step (fun w op => LeavesPointers w op ∧ op ≠ .gemClose handle)
      (mmap w length offset map).2 w') :
    ∃ i, boOf w' handle = some i ∧ PointsTo w' handle p (boSize w handle) (w'.bo i).phys := by
  subst hmap
  obtain ⟨i, l, hi, hl, hbase, hsize⟩ := mmap_lease htoken hne
  have hstart : CpuKept (step w (.mmap length offset map)) := cpuKept_step (cpu_kept h) hop
  have hkept : CpuKept w' ∧ boOf w' handle = some i ∧ (w'.bo i).cpuLease = some l := by
    refine hrun.invariant (P := fun w => CpuKept w ∧ boOf w handle = some i ∧
      (w.bo i).cpuLease = some l) ⟨hstart, hi, hl⟩ fun v op hv hv' => ?_
    obtain ⟨hcpu, hv, hlease⟩ := hv
    have hopen : ∀ other, op = .gemClose other → boOf v other ≠ some i := by
      rintro other rfl
      refine boOf_ne_of_handle hv fun heq => ?_
      exact hv'.2 (heq ▸ rfl)
    refine ⟨cpuKept_step hcpu hv'.1, ?_, step_cpuLease hlease hopen⟩
    obtain ⟨hentry, hlive⟩ := boOf_eq_some.mp hv
    exact boOf_eq_some.mpr ⟨hentry, step_live hlive hopen⟩
  obtain ⟨hcpu, hi', hl'⟩ := hkept
  refine ⟨i, hi', ?_⟩
  rw [← hbase, ← hsize]
  exact hcpu.pointsTo hi' hl'

/-- A page mapped by an offset of its token, and another one created and closed. -/
theorem pointer_lasts_page :
    let w := step .init (createOnePage 0)
    PointsTo (run (mmap w 0x1000 0x5000 (some 0x700000000)).2
      [createOnePage 0x4000, .gemClose 2]) 1 0x700000000 0x4000 0 := by
  intro w
  let op : Op := .mmap 0x1000 0x5000 (some 0x700000000)
  have hcall : cpuCall w op = some (0, some 0x700000000) := by decide +kernel
  have hop : LeavesPointers w op := by
    refine ⟨.of_empty hcall (by decide) create_init_pageTable, .of_cpuCall hcall (by decide),
      trivial, fun i v _ _ k m hm => ?_⟩
    have hnone : leases w k = none := create_init_leases
    cases hnone.symm.trans hm
  have hcreate : ∀ (w : Shim) (phys : Int), LeavesPointers w (createOnePage phys) := fun _ _ =>
    ⟨.of_no_cpuCall rfl, nofun, trivial, nofun⟩
  let v := step (step w op) (createOnePage 0x4000)
  have hclose : LeavesPointers v (.gemClose 2) := by
    refine ⟨.of_no_cpuCall rfl, nofun, fun i hi hva => ?_, nofun⟩
    have ht : boOf v 2 = some ⟨1, by decide⟩ := by decide +kernel
    obtain rfl := Option.some.inj (hi.symm.trans ht)
    exact absurd (by decide +kernel) hva
  have hrun : Reach step (fun w op => LeavesPointers w op ∧ op ≠ .gemClose 1) (step w op)
      (step v (.gemClose 2)) :=
    (Reach.refl.tail (createOnePage 0x4000) ⟨hcreate _ _, nofun⟩).tail (.gemClose 2)
      ⟨hclose, by decide⟩
  have hsize : boSize w 1 = 0x4000 := by decide +kernel
  have htoken : IsToken w 1 0x5000 := ⟨0x4000, by decide +kernel, by decide, by decide⟩
  have hptr : (mmap w 0x1000 0x5000 (some 0x700000000)).1 = 0x700000000 := by decide +kernel
  obtain ⟨i, hi, hlasts⟩ := pointer_lasts (Reach.refl.tail (createOnePage 0) (hcreate _ _)) htoken
    hop hptr (by decide) hrun
  have hentry : boOf (step v (.gemClose 2)) 1 = some 0 := by decide +kernel
  have hphys : ((step v (.gemClose 2)).bo 0).phys = 0 := by decide +kernel
  obtain rfl := Option.some.inj (hi.symm.trans hentry)
  rw [hsize, hphys] at hlasts
  exact hlasts

end OopsMesa.Winsys
