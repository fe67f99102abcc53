/-
  The statics of buffers.c, and the platform memory they are kept on.

  The shim's own state is the buffer table `s_bo`, the retained ranges `s_retained`, and the two
  counters beside them. The platform (oops-sdk's memory calls, not in this repository) is what
  those calls act on: one page table for the CPU and the GPU ("a virtual address means the same
  thing to both sides here"), the direct-memory blocks handed out and not yet given back, and,
  so that a statement can speak of them, the calls of `oops_mem_free_direct` with the platform
  state each was made in.

  The page table is a translation of byte addresses: `oops_mem_batch_map` writes `size` bytes
  from `va` with consecutive physical offsets. `batchMap_eq_writePages` is the same thing page
  by page. Sizes and addresses are `UInt64` and wrap as the source's `uint64_t` do; physical
  offsets are only compared and passed on, and are `Int`.
-/
import Mathlib.Logic.Function.Basic
import Mathlib.Tactic.Ring
import OopsMesa.Lib.Span

namespace OopsMesa.Winsys

open OopsMesa.Lib

/-! ## Constants of the source -/

/-- `OOPS_WINSYS_PAGE` -/
def winsysPage : UInt64 := 0x4000

/-- `OOPS_WINSYS_MAX_BO` -/
abbrev winsysMaxBo : Nat := 4096

/-- `OOPS_WINSYS_MAX_RETAINED` -/
abbrev winsysMaxRetained : Nat := 512

/-- `OOPS_WINSYS_RETAINED_BYTES`, 256 MiB -/
def winsysRetainedBytes : UInt64 := 0x10000000

/-- The codes the winsys returns negated. -/
inductive Errno where
  | EINVAL | ENOMEM | ENOSYS | EIO | ENODEV | ETIMEDOUT
  deriving DecidableEq, Repr

/-- What a call returns: `0`, or `-e`. -/
inductive Ret where
  | ok
  | err (e : Errno)
  deriving DecidableEq, Repr

/-- A protection byte, as the set of its four `OOPS_PROT_*` bits. -/
structure Prot where
  cpuRead : Bool
  cpuWrite : Bool
  gpuRead : Bool
  gpuWrite : Bool
  deriving DecidableEq, Repr

/-- No bit set. -/
def Prot.zero : Prot := ⟨false, false, false, false⟩

/-- `OOPS_PROT_CPU_RW` -/
def Prot.cpuRw : Prot := ⟨true, true, false, false⟩

/-! ## The platform -/

/-- What an address translates to: a direct-memory offset, and the protection. -/
structure Pte where
  phys : Int
  prot : Prot
  deriving DecidableEq, Repr

/-- The translation of every byte address. -/
abbrev PageTable := UInt64 → Option Pte

/-- Consecutive direct memory from `phys` on. -/
def pageOf (phys : Int) (prot : Prot) (off : UInt64) : Pte := ⟨phys + off.toNat, prot⟩

/-- One call of `oops_mem_free_direct`, with the page table and the blocks it met. -/
structure FreeCall where
  phys : Int
  size : UInt64
  pageTable : PageTable
  blocks : Int → Option UInt64

/-- The platform's memory: its page table, the size of the allocated block starting at an offset,
    and the free calls so far, the last one first. -/
structure Platform where
  pageTable : PageTable
  blocks : Int → Option UInt64
  frees : List FreeCall

/-- `oops_mem_alloc_direct` having answered `phys`. -/
def Platform.allocDirect (m : Platform) (phys : Int) (size : UInt64) : Platform :=
  { m with blocks := Function.update m.blocks phys (some size) }

/-- `oops_mem_free_direct` -/
def Platform.freeDirect (m : Platform) (phys : Int) (size : UInt64) : Platform :=
  { m with
    blocks := Function.update m.blocks phys none
    frees := ⟨phys, size, m.pageTable, m.blocks⟩ :: m.frees }

/-- `oops_mem_batch_map`, accepted; `oops_mem_map_direct` writes its own span the same way. -/
def Platform.batchMap (m : Platform) (va : UInt64) (phys : Int) (size : UInt64) (prot : Prot) :
    Platform :=
  { m with pageTable := mapSpan m.pageTable va size (pageOf phys prot) }

/-- `oops_mem_unmap` -/
def Platform.unmap (m : Platform) (va size : UInt64) : Platform :=
  { m with pageTable := unmapSpan m.pageTable va size }

/-- The batch-map walk: page `k` of the range gets the page at `phys + k`. -/
def writePages (t : PageTable) (va : UInt64) (phys : Int) (prot : Prot) : Nat → PageTable
  | 0 => t
  | k + 1 =>
    mapSpan (writePages t va phys prot k) (va + UInt64.ofNat k * winsysPage) winsysPage
      (pageOf (phys + (UInt64.ofNat k * winsysPage).toNat) prot)

/-- Writing a span of whole pages at once is the page by page walk. -/
theorem batchMap_eq_writePages (m : Platform) (va : UInt64) (phys : Int) (prot : Prot) (n : Nat)
    (hn : n * winsysPage.toNat < 2 ^ 64) :
    (m.batchMap va phys (UInt64.ofNat n * winsysPage) prot).pageTable =
      writePages m.pageTable va phys prot n := by
  have hpage : winsysPage.toNat = 16384 := rfl
  rw [hpage] at hn
  induction n with
  | zero =>
    funext a
    simp [Platform.batchMap, writePages, mapSpan, InSpan]
  | succ n ih =>
    have hsize : UInt64.ofNat (n + 1) * winsysPage = UInt64.ofNat n * winsysPage + winsysPage := by
      rw [UInt64.ofNat_add, UInt64.add_mul]
      rfl
    have hbytes : (UInt64.ofNat n * winsysPage).toNat = n * 16384 := by
      rw [UInt64.toNat_mul, UInt64.toNat_ofNat', hpage]
      omega
    have hlast : ∀ off : UInt64, InSpan 0 winsysPage off →
        pageOf phys prot (UInt64.ofNat n * winsysPage + off) =
          pageOf (phys + (UInt64.ofNat n * winsysPage).toNat) prot off := by
      intro off hoff
      rw [InSpan, UInt64.sub_zero, UInt64.lt_iff_toNat_lt, hpage] at hoff
      have hlt : n * 16384 + off.toNat < 2 ^ 64 := by omega
      simp only [pageOf, UInt64.toNat_add, hbytes, Pte.mk.injEq, and_true]
      rw [Nat.mod_eq_of_lt hlt]
      push_cast
      ring
    have hsum : (UInt64.ofNat n * winsysPage).toNat + winsysPage.toNat < 2 ^ 64 := by
      rw [hbytes, hpage]
      omega
    have hn' : n * 16384 < 2 ^ 64 :=
      Nat.lt_of_le_of_lt (Nat.mul_le_mul_right _ n.le_succ) hn
    have ih' := ih hn'
    simp only [Platform.batchMap] at ih' ⊢
    rw [hsize, mapSpan_add hsum, ih', writePages]
    funext a
    by_cases ha : InSpan (va + UInt64.ofNat n * winsysPage) winsysPage a
    · rw [mapSpan_of_inSpan ha, mapSpan_of_inSpan ha, hlast _ (by simpa [InSpan] using ha)]
    · rw [mapSpan_of_not_inSpan ha, mapSpan_of_not_inSpan ha]

/-! ## The shim's statics -/

/-- `struct oops_winsys_bo`. `gpuVa` and `cpuPtr` are zero when there is none. -/
structure Bo where
  live : Bool
  size : UInt64
  alignment : UInt64
  domainFlags : UInt64
  phys : Int
  gpuVa : UInt64
  cpuPtr : UInt64
  domain : UInt32
  gpuProt : Prot
  deriving DecidableEq, Repr

/-- `struct retained_range` -/
structure RetainedRange where
  used : Bool
  ownsPhys : Bool
  prot : Prot
  va : UInt64
  size : UInt64
  phys : Int
  seq : UInt64
  deriving DecidableEq, Repr

/-- An entry of `s_bo` after `memset`. -/
def Bo.zero : Bo := ⟨false, 0, 0, 0, 0, 0, 0, 0, .zero⟩

/-- An entry of `s_retained` after `memset`. -/
def RetainedRange.zero : RetainedRange := ⟨false, false, .zero, 0, 0, 0, 0⟩

/-- The statics of buffers.c, on a platform: `s_bo`, `s_retained`, `s_retained_seq`,
    `s_retained_bytes`. -/
structure Shim where
  bo : Fin winsysMaxBo → Bo
  retained : Fin winsysMaxRetained → RetainedRange
  retainedSeq : UInt64
  retainedBytes : UInt64
  mem : Platform

/-- Before the first call. -/
def Shim.init : Shim where
  bo := fun _ => .zero
  retained := fun _ => .zero
  retainedSeq := 0
  retainedBytes := 0
  mem := ⟨fun _ => none, fun _ => none, []⟩

/-- Entry `i` of the buffer table overwritten. -/
def Shim.setBo (w : Shim) (i : Fin winsysMaxBo) (b : Bo) : Shim :=
  { w with bo := Function.update w.bo i b }

/-- Entry `i` of the retained ranges overwritten. -/
def Shim.setRetained (w : Shim) (i : Fin winsysMaxRetained) (r : RetainedRange) : Shim :=
  { w with retained := Function.update w.retained i r }

/-- A platform call made. -/
def Shim.setMem (w : Shim) (m : Platform) : Shim := { w with mem := m }

section Simp

variable (w : Shim) (i j : Fin winsysMaxBo) (k l : Fin winsysMaxRetained) (b : Bo)
  (r : RetainedRange) (m : Platform) (va size : UInt64) (phys : Int) (prot : Prot)

@[simp] theorem setBo_bo_self : (w.setBo i b).bo i = b := Function.update_self ..
@[simp] theorem setBo_bo_of_ne (h : j ≠ i) : (w.setBo i b).bo j = w.bo j :=
  Function.update_of_ne h ..
@[simp] theorem setBo_retained : (w.setBo i b).retained = w.retained := rfl
@[simp] theorem setBo_mem : (w.setBo i b).mem = w.mem := rfl
@[simp] theorem setBo_retainedBytes : (w.setBo i b).retainedBytes = w.retainedBytes := rfl

@[simp] theorem setRetained_bo : (w.setRetained k r).bo = w.bo := rfl
@[simp] theorem setRetained_mem : (w.setRetained k r).mem = w.mem := rfl
@[simp] theorem setRetained_retained_self : (w.setRetained k r).retained k = r :=
  Function.update_self ..
@[simp] theorem setRetained_retained_of_ne (h : l ≠ k) :
    (w.setRetained k r).retained l = w.retained l := Function.update_of_ne h ..
@[simp] theorem setRetained_retainedBytes :
    (w.setRetained k r).retainedBytes = w.retainedBytes := rfl

@[simp] theorem setMem_bo : (w.setMem m).bo = w.bo := rfl
@[simp] theorem setMem_retained : (w.setMem m).retained = w.retained := rfl
@[simp] theorem setMem_mem : (w.setMem m).mem = m := rfl
@[simp] theorem setMem_retainedBytes : (w.setMem m).retainedBytes = w.retainedBytes := rfl

@[simp] theorem freeDirect_pageTable : (m.freeDirect phys size).pageTable = m.pageTable := rfl
@[simp] theorem freeDirect_blocks :
    (m.freeDirect phys size).blocks = Function.update m.blocks phys none := rfl
@[simp] theorem freeDirect_frees :
    (m.freeDirect phys size).frees = ⟨phys, size, m.pageTable, m.blocks⟩ :: m.frees := rfl
@[simp] theorem allocDirect_pageTable : (m.allocDirect phys size).pageTable = m.pageTable := rfl
@[simp] theorem allocDirect_blocks :
    (m.allocDirect phys size).blocks = Function.update m.blocks phys (some size) := rfl
@[simp] theorem allocDirect_frees : (m.allocDirect phys size).frees = m.frees := rfl
@[simp] theorem batchMap_pageTable :
    (m.batchMap va phys size prot).pageTable = mapSpan m.pageTable va size (pageOf phys prot) :=
  rfl
@[simp] theorem batchMap_blocks : (m.batchMap va phys size prot).blocks = m.blocks := rfl
@[simp] theorem batchMap_frees : (m.batchMap va phys size prot).frees = m.frees := rfl
@[simp] theorem unmap_pageTable :
    (m.unmap va size).pageTable = unmapSpan m.pageTable va size := rfl
@[simp] theorem unmap_blocks : (m.unmap va size).blocks = m.blocks := rfl
@[simp] theorem unmap_frees : (m.unmap va size).frees = m.frees := rfl

end Simp

end OopsMesa.Winsys
