/-
  buffers.c: the calls that change the buffer table, the retained ranges and the page table.

  Each function is the source's, with the platform's answers as arguments: what
  `oops_mem_alloc_direct` and `oops_mem_map_direct` gave (`none` where they refused), and whether
  `oops_mem_batch_map` accepted. A refused platform call changes nothing. Log lines are left out;
  those of GEM_VA about collisions, whose search does nothing else, are in `Winsys/Collisions`.

  Two loops of the source may run many rounds. `retain` releases the oldest range while the
  budget is exceeded, and then until a slot is free; a round frees one of 512 slots, so both are
  bounded by the number of slots (`whileUpTo`).
-/
import OopsMesa.Lib.Loop
import OopsMesa.Lib.Table
import OopsMesa.Winsys.State

namespace OopsMesa.Winsys

open OopsMesa.Lib

/-! ## Handles and sizes -/

/-- The table entry a handle names, if it is live. Handle 0 is "no buffer". -/
def boOf (w : Shim) (handle : UInt32) : Option (Fin winsysMaxBo) :=
  if h : 0 < handle.toNat ∧ handle.toNat ≤ winsysMaxBo then
    let i : Fin winsysMaxBo := ⟨handle.toNat - 1, by omega⟩
    if (w.bo i).live then some i else none
  else none

/-- The handle of a table entry. -/
def handleOf (i : Fin winsysMaxBo) : UInt32 := UInt32.ofNat (i.val + 1)

/-- `(n + PAGE - 1) & ~(PAGE - 1)` in 64 bits, so the top page rounds to zero. -/
def roundUpPage (n : UInt64) : UInt64 := (n + winsysPage - 1) &&& ~~~(winsysPage - 1)

def boIsLive (w : Shim) (handle : UInt32) : Bool := (boOf w handle).isSome

/-! ## Retained ranges -/

def retainedDrop (w : Shim) (i : Fin winsysMaxRetained) : Shim :=
  { w with
    retainedBytes := w.retainedBytes - (w.retained i).size
    retained := Function.update w.retained i .zero }

/-- The other retained range over the same pages that takes them over, if there is one. -/
def handOn (w : Shim) (i : Fin winsysMaxRetained) : Option (Fin winsysMaxRetained) :=
  firstIdx fun j =>
    decide (j ≠ i) && (w.retained j).used && (w.retained j).phys == (w.retained i).phys

/-- The pages of an owning range, given to another retained range or back to the platform. -/
def releasePages (w : Shim) (i : Fin winsysMaxRetained) : Shim :=
  if (w.retained i).ownsPhys then
    match handOn w i with
    | some j => w.setRetained j { w.retained j with ownsPhys := true }
    | none => w.setMem (w.mem.freeDirect (w.retained i).phys (w.retained i).size)
  else w

def retainedRelease (w : Shim) (i : Fin winsysMaxRetained) : Shim :=
  retainedDrop
    (releasePages (w.setMem (w.mem.unmap (w.retained i).va (w.retained i).size)) i) i

/-- The used range with the smallest `seq`. -/
def oldest (w : Shim) : Option (Fin winsysMaxRetained) :=
  bestIdx (fun i => (w.retained i).used)
    fun i j => decide ((w.retained i).seq < (w.retained j).seq)

def retainedReleaseOldest (w : Shim) : Shim :=
  match oldest w with
  | some i => retainedRelease w i
  | none => w

/-- The lowest unused slot. -/
def freeSlot (w : Shim) : Option (Fin winsysMaxRetained) :=
  firstIdx fun i => !(w.retained i).used

/-- The guard of `retain`'s first loop. -/
def overBudget (size : UInt64) (w : Shim) : Bool :=
  decide (winsysRetainedBytes < w.retainedBytes + size) && decide (0 < w.retainedBytes)

/-- Both loops of `retain`: the budget, then a free slot. -/
@[irreducible] def makeRoom (w : Shim) (size : UInt64) : Shim :=
  whileUpTo (fun w => (freeSlot w).isNone) retainedReleaseOldest winsysMaxRetained
    (whileUpTo (overBudget size) retainedReleaseOldest winsysMaxRetained w)

/-- The slot filled in. -/
def retainedStore (w : Shim) (i : Fin winsysMaxRetained) (va size : UInt64) (phys : Int)
    (prot : Prot) (ownsPhys : Bool) : Shim :=
  { w with
    retained := Function.update w.retained i
      ⟨true, ownsPhys, prot, va, size, phys, w.retainedSeq + 1⟩
    retainedSeq := w.retainedSeq + 1
    retainedBytes := w.retainedBytes + size }

def retain (w : Shim) (va size : UInt64) (phys : Int) (prot : Prot) (ownsPhys : Bool) : Shim :=
  let w := makeRoom w size
  match freeSlot w with
  | some i => retainedStore w i va size phys prot ownsPhys
  | none => w

/-- The retained range that takes a closing buffer's pages, if one maps them. -/
def adopter (w : Shim) (phys : Int) : Option (Fin winsysMaxRetained) :=
  firstIdx fun i => (w.retained i).used && (w.retained i).phys == phys

/-! ## GEM_CREATE and GEM_CLOSE -/

/-- The input half of `union drm_amdgpu_gem_create`. -/
structure GemCreateIn where
  boSize : UInt64
  alignment : UInt64
  domains : UInt64
  domainFlags : UInt64
  deriving DecidableEq, Repr

/-- The lowest entry that is not live. -/
def freeBo (w : Shim) : Option (Fin winsysMaxBo) := firstIdx fun i => !(w.bo i).live

/-- The code, `out.handle`, and the state after. `alloc` is what `oops_mem_alloc_direct` gives. -/
def gemCreate (w : Shim) (arg : GemCreateIn) (alloc : Option Int) : Ret × UInt32 × Shim :=
  let size := roundUpPage arg.boSize
  let align := if arg.alignment < winsysPage then winsysPage else arg.alignment
  if size = 0 then (.err .EINVAL, 0, w)
  else
    match freeBo w with
    | none => (.err .ENOMEM, 0, w)
    | some i =>
      match alloc with
      | none => (.err .ENOMEM, 0, w)
      | some phys =>
        -- the entry was zeroed by the last close, and `gpu_prot` is not written here
        let bo : Bo :=
          { w.bo i with
            live := true, size := size, alignment := align, domainFlags := arg.domainFlags
            phys := phys, gpuVa := 0, cpuPtr := 0, domain := arg.domains.toUInt32 }
        (.ok, handleOf i, (w.setMem (w.mem.allocDirect phys size)).setBo i bo)

/-- The CPU mapping of a closing buffer removed. -/
def closeCpu (w : Shim) (i : Fin winsysMaxBo) : Shim :=
  if (w.bo i).cpuPtr ≠ 0 then w.setMem (w.mem.unmap (w.bo i).cpuPtr (w.bo i).size) else w

/-- The pages of a closing buffer: retained with its range, adopted, or given back. -/
def closePages (w : Shim) (i : Fin winsysMaxBo) : Shim :=
  let bo := w.bo i
  if bo.gpuVa ≠ 0 then retain w bo.gpuVa bo.size bo.phys bo.gpuProt true
  else
    match adopter w bo.phys with
    | some j => w.setRetained j { w.retained j with ownsPhys := true }
    | none => w.setMem (w.mem.freeDirect bo.phys bo.size)

def gemClose (w : Shim) (handle : UInt32) : Ret × Shim :=
  match boOf w handle with
  | none => (.err .EINVAL, w)
  | some i => (.ok, (closePages (closeCpu w i) i).setBo i .zero)

/-! ## CPU mappings -/

/-- The block `oops_winsys_mmap`, `oops_winsys_bo_cpu_range` and `oops_winsys_cpu_map_va` share:
    a buffer without a CPU mapping is given one. `map` is what `oops_mem_map_direct` answers. -/
def cpuMap (w : Shim) (i : Fin winsysMaxBo) (map : Option UInt64) : Bool × Shim :=
  let bo := w.bo i
  if bo.cpuPtr ≠ 0 then (true, w)
  else
    match map with
    | none => (false, w)
    | some v =>
      (true, (w.setMem (w.mem.batchMap v bo.phys bo.size .cpuRw)).setBo i { bo with cpuPtr := v })

/-- The buffer an mmap token names, if the length fits. -/
def mmapTarget (w : Shim) (length offset : UInt64) : Option (Fin winsysMaxBo) :=
  (boOf w (offset / winsysPage).toUInt32).filter fun i => !decide ((w.bo i).size < length)

/-- A null pointer is zero. -/
def mmap (w : Shim) (length offset : UInt64) (map : Option UInt64) : UInt64 × Shim :=
  match mmapTarget w length offset with
  | none => (0, w)
  | some i =>
    match cpuMap w i map with
    | (false, w') => (0, w')
    | (true, w') => ((w'.bo i).cpuPtr, w')

/-- The buffer a range lies in, if it fits. -/
def boCpuRangeTarget (w : Shim) (handle : UInt32) (offset bytes : UInt64) :
    Option (Fin winsysMaxBo) :=
  (boOf w handle).filter fun i =>
    !(decide ((w.bo i).size < offset) || decide ((w.bo i).size - offset < bytes))

def boCpuRange (w : Shim) (handle : UInt32) (offset bytes : UInt64) (map : Option UInt64) :
    UInt64 × Shim :=
  match boCpuRangeTarget w handle offset bytes with
  | none => (0, w)
  | some i =>
    match cpuMap w i map with
    | (false, w') => (0, w')
    | (true, w') => ((w'.bo i).cpuPtr + offset, w')

/-- `va` lies in the recorded range of a mapped buffer, the end computed in 64 bits. -/
def holdsVa (bo : Bo) (va : UInt64) : Bool :=
  decide (bo.gpuVa ≠ 0) && !decide (va < bo.gpuVa) && decide (va < bo.gpuVa + bo.size)

def cpuForVa (w : Shim) (va bytes : UInt64) : UInt64 :=
  match firstIdx fun i => (w.bo i).live && decide ((w.bo i).cpuPtr ≠ 0) && holdsVa (w.bo i) va with
  | none => 0
  | some i =>
    let bo := w.bo i
    if bo.size < va - bo.gpuVa + bytes then 0 else bo.cpuPtr + (va - bo.gpuVa)

/-- The buffer `oops_winsys_cpu_map_va` maps. -/
def cpuMapVaTarget (w : Shim) (va : UInt64) : Option (Fin winsysMaxBo) :=
  firstIdx fun i => (w.bo i).live && holdsVa (w.bo i) va

def cpuMapVa (w : Shim) (va bytes : UInt64) (map : Option UInt64) : UInt64 × Shim :=
  match cpuMapVaTarget w va with
  | none => (cpuForVa w va bytes, w)
  | some i =>
    match cpuMap w i map with
    | (false, w') => (0, w')
    | (true, w') => (cpuForVa w' va bytes, w')

/-! ## GEM_VA -/

/-- `AMDGPU_VA_OP_*` -/
def vaOpMap : UInt32 := 1
def vaOpUnmap : UInt32 := 2
def vaOpClear : UInt32 := 3
def vaOpReplace : UInt32 := 4

/-- `AMDGPU_VM_PAGE_READABLE`, `AMDGPU_VM_PAGE_WRITEABLE` -/
def vmPageReadable : UInt32 := 2
def vmPageWriteable : UInt32 := 4

/-- `struct drm_amdgpu_gem_va` -/
structure GemVaArg where
  handle : UInt32
  operation : UInt32
  flags : UInt32
  vaAddress : UInt64
  offsetInBo : UInt64
  mapSize : UInt64
  deriving DecidableEq, Repr

/-- The protection a range is mapped with: the GPU's, and the CPU's with it. -/
def vaProt (flags : UInt32) : Prot :=
  let r := flags &&& vmPageReadable != 0
  let w := flags &&& vmPageWriteable != 0
  if r || w then ⟨r, w, r, w⟩ else ⟨true, false, true, false⟩

/-- The bytes a MAP asks for. -/
def mapBytes (bo : Bo) (arg : GemVaArg) : UInt64 :=
  if arg.mapSize ≠ 0 then roundUpPage arg.mapSize else bo.size

/-- The retained range a MAP is served from: the same address, size and protection, and either
    the buffer's own pages or a closed buffer's, when the CPU has not mapped this one. -/
def servedBy (w : Shim) (i : Fin winsysMaxBo) (va size : UInt64) (prot : Prot) :
    Option (Fin winsysMaxRetained) :=
  let bo := w.bo i
  firstIdx fun k =>
    let r := w.retained k
    r.used && r.va == va && r.size == size && r.prot == prot &&
      (r.phys == bo.phys || (r.ownsPhys && bo.cpuPtr == 0 && bo.size == size))

/-- The retained range `k` overlaps the span, as the code tests it. -/
def retainedOverlaps (w : Shim) (va size : UInt64) (k : Fin winsysMaxRetained) : Bool :=
  (w.retained k).used && endsOverlap va size (w.retained k).va (w.retained k).size

/-- Every retained range over the span released, in slot order. -/
@[irreducible] def releaseOverlapping (w : Shim) (va size : UInt64) : Shim :=
  (List.finRange winsysMaxRetained).foldl
    (fun w k => if retainedOverlaps w va size k then retainedRelease w k else w) w

/-- A MAP served from a retained range: its own pages kept, or a closed buffer's taken over. -/
def mapFromRetained (w : Shim) (i : Fin winsysMaxBo) (k : Fin winsysMaxRetained) (va : UInt64)
    (prot : Prot) : Shim :=
  let bo := w.bo i
  let r := w.retained k
  if r.phys == bo.phys then
    (retainedDrop w k).setBo i { bo with gpuVa := va, gpuProt := prot }
  else
    (retainedDrop (w.setMem (w.mem.freeDirect bo.phys bo.size)) k).setBo i
      { bo with phys := r.phys, gpuVa := va, gpuProt := prot }

/-- A MAP afresh. `mapOk` is whether `oops_mem_batch_map` accepts. -/
def mapAfresh (w : Shim) (i : Fin winsysMaxBo) (va size : UInt64) (prot : Prot) (mapOk : Bool) :
    Ret × Shim :=
  let w := releaseOverlapping w va size
  let bo := w.bo i
  if mapOk then
    (.ok, (w.setMem (w.mem.batchMap va bo.phys size prot)).setBo i
      { bo with gpuVa := va, gpuProt := prot })
  else (.err .ENOMEM, w)

def gemVaMap (w : Shim) (i : Fin winsysMaxBo) (arg : GemVaArg) (mapOk : Bool) : Ret × Shim :=
  let size := mapBytes (w.bo i) arg
  let prot := vaProt arg.flags
  if (w.bo i).size < size then (.err .EINVAL, w)
  else
    match servedBy w i arg.vaAddress size prot with
    | some k => (.ok, mapFromRetained w i k arg.vaAddress prot)
    | none => mapAfresh w i arg.vaAddress size prot mapOk

def gemVaUnmap (w : Shim) (i : Fin winsysMaxBo) : Shim :=
  let bo := w.bo i
  if bo.gpuVa ≠ 0 then
    let w := retain w bo.gpuVa bo.size bo.phys bo.gpuProt false
    w.setBo i { w.bo i with gpuVa := 0 }
  else w

def gemVa (w : Shim) (arg : GemVaArg) (mapOk : Bool) : Ret × Shim :=
  match boOf w arg.handle with
  | none => (.err .EINVAL, w)
  | some i =>
    if arg.offsetInBo ≠ 0 then (.err .ENOSYS, w)
    else if arg.operation = vaOpMap then gemVaMap w i arg mapOk
    else if arg.operation = vaOpUnmap then (.ok, gemVaUnmap w i)
    else if arg.operation = vaOpClear ∨ arg.operation = vaOpReplace then (.err .ENOSYS, w)
    else (.err .EINVAL, w)

/-! ## Queries -/

/-- `oops_winsys_bo_size`: 0 for a handle that is not live. -/
def boSize (w : Shim) (handle : UInt32) : UInt64 :=
  match boOf w handle with
  | none => 0
  | some i => (w.bo i).size

def gemMmap (w : Shim) (handle : UInt32) : Ret × UInt64 :=
  match boOf w handle with
  | none => (.err .EINVAL, 0)
  | some _ => (.ok, handle.toUInt64 * winsysPage)

/-- The code and `out.status`, which is 0 for idle. -/
def gemWaitIdle (w : Shim) (handle : UInt32) : Ret × UInt32 :=
  match boOf w handle with
  | none => (.err .EINVAL, 0)
  | some _ => (.ok, 0)

/-! ## Runs -/

/-- A call with its arguments, and the platform's answer where it asks for one. -/
inductive Op where
  | gemCreate (arg : GemCreateIn) (alloc : Option Int)
  | gemClose (handle : UInt32)
  | mmap (length offset : UInt64) (map : Option UInt64)
  | boCpuRange (handle : UInt32) (offset bytes : UInt64) (map : Option UInt64)
  | cpuMapVa (va bytes : UInt64) (map : Option UInt64)
  | gemVa (arg : GemVaArg) (mapOk : Bool)
  deriving DecidableEq, Repr

/-- The state after a call. -/
def step (w : Shim) : Op → Shim
  | .gemCreate arg alloc => (gemCreate w arg alloc).2.2
  | .gemClose handle => (gemClose w handle).2
  | .mmap length offset map => (mmap w length offset map).2
  | .boCpuRange handle offset bytes map => (boCpuRange w handle offset bytes map).2
  | .cpuMapVa va bytes map => (cpuMapVa w va bytes map).2
  | .gemVa arg mapOk => (gemVa w arg mapOk).2

/-- The state after a list of calls. -/
def run (w : Shim) (ops : List Op) : Shim := ops.foldl step w

end OopsMesa.Winsys
