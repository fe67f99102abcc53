/-
  The four tables of handles: buffers, contexts, buffer lists and synchronisation objects.

  The arguments of the ioctls are unions of an input and an output half, and are modelled as the
  32-bit words they lie on, so that what is left of the input can be read back as an output. Their
  layout and the constants are those of amdgpu_drm.h and drm.h, which are not in this repository.
  GEM_CREATE is `gemCreate` on the words of its argument.

  `Maps` says what the tables are for: four maps from handles, each of which is only changed by
  the calls of its own family. `Maps.Allows` is what each call may do to them.
-/
import OopsMesa.Lib.Slots
import OopsMesa.Winsys.Retention

namespace OopsMesa.Winsys

open OopsMesa.Lib

/-! ## Arguments -/

/-- An argument of `n` words of 32 bits. -/
abbrev Words (n : Nat) := Fin n → UInt32

/-- The 64 bits on two words, the low one first. -/
def word64 (lo hi : UInt32) : UInt64 := lo.toUInt64 ||| hi.toUInt64 <<< 32

/-- `arg->in` of `union drm_amdgpu_gem_create` -/
def gemCreateIn (arg : Words 8) : GemCreateIn :=
  ⟨word64 (arg 0) (arg 1), word64 (arg 2) (arg 3), word64 (arg 4) (arg 5), word64 (arg 6) (arg 7)⟩

/-- `oops_winsys_gem_create`: `arg->out` is `handle` and a word of padding, which is cleared when
    the call succeeds. -/
def oopsWinsysGemCreate (w : Shim) (arg : Words 8) (alloc : Option Int) : Ret × Words 8 × Shim :=
  match gemCreate w (gemCreateIn arg) alloc with
  | (.ok, handle, w) => (.ok, Function.update (Function.update arg 1 0) 0 handle, w)
  | (.err e, handle, w) => (.err e, Function.update arg 0 handle, w)

/-! ## context.c -/

/-- `OOPS_WINSYS_MAX_CTX`, `OOPS_WINSYS_MAX_BO_LIST` -/
abbrev winsysMaxCtx : Nat := 64

abbrev winsysMaxBoList : Nat := 256

/-- The codes of these tables, returned negated. -/
inductive HandleErrno where
  | EINVAL | ENOMEM | EPERM | ENOSPC
  deriving DecidableEq, Repr

/-- What a call returns: 0, or `-e`. -/
inductive HandleRet where
  | ok
  | err (e : HandleErrno)
  deriving DecidableEq, Repr

/-- `struct oops_winsys_ctx` -/
structure Ctx where
  live : Bool
  priority : Int32
  hangs : UInt32
  deriving DecidableEq, Repr

/-- `struct oops_winsys_bo_list` -/
structure BoList where
  live : Bool
  count : UInt32
  deriving DecidableEq, Repr

/-- Entries after `memset`. -/
def Ctx.zero : Ctx := ⟨false, 0, 0⟩

def BoList.zero : BoList := ⟨false, 0⟩

/-- `ctx_of` -/
def ctxOf (ctx : Fin winsysMaxCtx → Ctx) (id : UInt32) : Option (Fin winsysMaxCtx) :=
  Handles.liveAt (fun i => (ctx i).live) id.toNat

/-- `oops_winsys_ctx_note_hang` -/
def oopsWinsysCtxNoteHang (ctx : Fin winsysMaxCtx → Ctx) (id : UInt32) :
    Fin winsysMaxCtx → Ctx :=
  match ctxOf ctx id with
  | some i => Function.update ctx i { ctx i with hangs := (ctx i).hangs + 1 }
  | none => ctx

/-- `AMDGPU_CTX_OP_*` -/
def ctxOpAllocCtx : UInt32 := 1
def ctxOpFreeCtx : UInt32 := 2
def ctxOpQueryState : UInt32 := 3
def ctxOpQueryState2 : UInt32 := 4
def ctxOpGetStablePstate : UInt32 := 5
def ctxOpSetStablePstate : UInt32 := 6

/-- The handle of an entry. -/
def handleOfEntry {n : Nat} (i : Fin n) : UInt32 := UInt32.ofNat (i.val + 1)

/-- `oops_winsys_ctx`. The input is `op`, `flags`, `ctx_id` and `priority`, a word each, and the
    output may be as long: `ctx_id` is its first word, `hangs` the third and `reset_status` the
    fourth. -/
def oopsWinsysCtx (ctx : Fin winsysMaxCtx → Ctx) (arg : Words 4) :
    HandleRet × Words 4 × (Fin winsysMaxCtx → Ctx) :=
  let op := arg 0
  let id := arg 2
  let priority := (arg 3).toInt32
  if op = ctxOpAllocCtx then
    match firstIdx fun i => !(ctx i).live with
    | none => (.err .ENOMEM, fun _ => 0, ctx)
    | some i =>
      (.ok, Function.update (fun _ => 0) 0 (handleOfEntry i),
        Function.update ctx i ⟨true, priority, 0⟩)
  else if op = ctxOpFreeCtx then
    match ctxOf ctx id with
    | none => (.err .EINVAL, arg, ctx)
    | some i => (.ok, fun _ => 0, Function.update ctx i .zero)
  else if op = ctxOpQueryState ∨ op = ctxOpQueryState2 then
    match ctxOf ctx id with
    | none => (.err .EINVAL, arg, ctx)
    | some i =>
      let hangs := (ctx i).hangs
      (.ok, Function.update (Function.update (fun _ => 0) 2 hangs) 3 (if hangs ≠ 0 then 1 else 0),
        ctx)
  else if op = ctxOpGetStablePstate then
    match ctxOf ctx id with
    | none => (.err .EINVAL, arg, ctx)
    | some _ => (.ok, fun _ => 0, ctx)
  else if op = ctxOpSetStablePstate then (.err .EPERM, arg, ctx)
  else (.err .EINVAL, arg, ctx)

/-- `AMDGPU_BO_LIST_OP_*` -/
def boListOpCreate : UInt32 := 0
def boListOpDestroy : UInt32 := 1

/-- The `bo_handle` of each entry of a list, in a memory of 32-bit words by their addresses. -/
def boHandles (mem : UInt64 → UInt32) (entries : UInt64) (stride count : UInt32) : List UInt32 :=
  (List.range count.toNat).map fun i => mem (entries + UInt64.ofNat i * stride.toUInt64)

/-- `oops_winsys_bo_list`. The input is `operation`, `list_handle`, `bo_number` and `bo_info_size`,
    a word each, and `bo_info_ptr` on two; the output is `list_handle` and a word of padding. -/
def oopsWinsysBoList (w : Shim) (list : Fin winsysMaxBoList → BoList) (arg : Words 6)
    (mem : UInt64 → UInt32) : HandleRet × Words 6 × (Fin winsysMaxBoList → BoList) :=
  if arg 0 = boListOpCreate then
    let entries := word64 (arg 4) (arg 5)
    let count := arg 2
    let stride := arg 3
    if count ≠ 0 ∧ (entries = 0 ∨ stride < 4) then (.err .EINVAL, arg, list)
    else if !(boHandles mem entries stride count).all (boIsLive w) then (.err .EINVAL, arg, list)
    else
      match firstIdx fun i => !(list i).live with
      | none => (.err .ENOMEM, arg, list)
      | some i =>
        (.ok, Function.update (Function.update arg 1 0) 0 (handleOfEntry i),
          Function.update list i ⟨true, count⟩)
  else if arg 0 = boListOpDestroy then
    match Handles.liveAt (fun i => (list i).live) (arg 1).toNat with
    | none => (.err .EINVAL, arg, list)
    | some i => (.ok, arg, Function.update list i .zero)
  else (.err .EINVAL, arg, list)

/-! ## syncobj.c -/

/-- `OOPS_WINSYS_MAX_SYNCOBJ` -/
abbrev winsysMaxSyncobj : Nat := 1024

/-- `struct oops_winsys_syncobj` -/
structure Syncobj where
  live : Bool
  fenceValue : UInt64
  fenceAddress : UInt64
  deriving DecidableEq, Repr

/-- An entry after `memset`. -/
def Syncobj.zero : Syncobj := ⟨false, 0, 0⟩

/-- `oops_winsys_syncobj_create`. The argument is `handle` and `flags`; a null one is `none`. -/
def oopsWinsysSyncobjCreate (syncobj : Fin winsysMaxSyncobj → Syncobj) (arg : Option (Words 2)) :
    HandleRet × Option (Words 2) × (Fin winsysMaxSyncobj → Syncobj) :=
  match arg with
  | none => (.err .EINVAL, none, syncobj)
  | some arg =>
    match firstIdx fun i => !(syncobj i).live with
    | some i =>
      (.ok, some (Function.update arg 0 (handleOfEntry i)),
        Function.update syncobj i ⟨true, 0, 0⟩)
    | none => (.err .ENOSPC, some arg, syncobj)

/-- `oops_winsys_syncobj_destroy`, of the handle in its argument. -/
def oopsWinsysSyncobjDestroy (syncobj : Fin winsysMaxSyncobj → Syncobj) (arg : Option UInt32) :
    HandleRet × (Fin winsysMaxSyncobj → Syncobj) :=
  match arg with
  | none => (.err .EINVAL, syncobj)
  | some handle =>
    match Handles.liveAt (fun i => (syncobj i).live) handle.toNat with
    | none => (.err .EINVAL, syncobj)
    | some i => (.ok, Function.update syncobj i .zero)

/-! ## Runs -/

/-- The statics of the three files. -/
structure Tables where
  shim : Shim
  ctx : Fin winsysMaxCtx → Ctx
  list : Fin winsysMaxBoList → BoList
  syncobj : Fin winsysMaxSyncobj → Syncobj

def Tables.init : Tables := ⟨.init, fun _ => .zero, fun _ => .zero, fun _ => .zero⟩

/-- A winsys call that neither makes nor closes a buffer. -/
abbrev MapOp := { op : Op //
  (∀ arg alloc, op ≠ .gemCreate arg alloc) ∧ ∀ handle, op ≠ .gemClose handle }

/-- A call, with what it is given and the allocator's answer. -/
inductive HandleOp where
  | gemCreate (arg : Words 8) (alloc : Option Int)
  | gemClose (handle : UInt32)
  | ctx (arg : Words 4)
  | boList (arg : Words 6) (mem : UInt64 → UInt32)
  | syncobjCreate (arg : Option (Words 2))
  | syncobjDestroy (arg : Option UInt32)
  /-- A submission under a context did not retire. -/
  | noteHang (id : UInt32)
  /-- A buffer is mapped or unmapped. -/
  | map (op : MapOp)

/-- Whether a call returned 0, and what is then the first word of its argument. -/
structure Reply where
  accepted : Bool
  handle : UInt32
  deriving DecidableEq, Repr

def HandleRet.accepted : HandleRet → Bool
  | .ok => true
  | .err _ => false

def Ret.accepted : Ret → Bool
  | .ok => true
  | .err _ => false

def Tables.exec (s : Tables) : HandleOp → Reply × Tables
  | .gemCreate arg alloc =>
    let (ret, arg, shim) := oopsWinsysGemCreate s.shim arg alloc
    (⟨ret.accepted, arg 0⟩, { s with shim := shim })
  | .gemClose handle =>
    let (ret, shim) := Winsys.gemClose s.shim handle
    (⟨ret.accepted, 0⟩, { s with shim := shim })
  | .ctx arg =>
    let (ret, arg, ctx) := oopsWinsysCtx s.ctx arg
    (⟨ret.accepted, arg 0⟩, { s with ctx := ctx })
  | .boList arg mem =>
    let (ret, arg, list) := oopsWinsysBoList s.shim s.list arg mem
    (⟨ret.accepted, arg 0⟩, { s with list := list })
  | .syncobjCreate arg =>
    let (ret, arg, syncobj) := oopsWinsysSyncobjCreate s.syncobj arg
    (⟨ret.accepted, (arg.map fun arg => arg 0).getD 0⟩, { s with syncobj := syncobj })
  | .syncobjDestroy arg =>
    let (ret, syncobj) := oopsWinsysSyncobjDestroy s.syncobj arg
    (⟨ret.accepted, 0⟩, { s with syncobj := syncobj })
  | .noteHang id => (⟨true, 0⟩, { s with ctx := oopsWinsysCtxNoteHang s.ctx id })
  | .map op => (⟨true, 0⟩, { s with shim := step s.shim op })

/-- The calls so far with their replies, the last one first, and the tables. -/
def Tables.runFrom (s : Tables) : List HandleOp → List (HandleOp × Reply) × Tables
  | [] => ([], s)
  | op :: ops =>
    let (past, s) := runFrom s ops
    ((op, (s.exec op).1) :: past, (s.exec op).2)

/-! ## What the tables are for -/

/-- Four maps from handles. -/
structure Maps where
  bo : Handles winsysMaxBo Bo
  ctx : Handles winsysMaxCtx Ctx
  list : Handles winsysMaxBoList BoList
  syncobj : Handles winsysMaxSyncobj Syncobj

def Maps.empty : Maps := ⟨.empty, .empty, .empty, .empty⟩

/-- A new buffer: neither mapped nor reached by the CPU. -/
def newBo (arg : GemCreateIn) (phys : Int) : Bo where
  live := true
  size := roundUpPage arg.boSize
  alignment := if arg.alignment < winsysPage then winsysPage else arg.alignment
  domainFlags := arg.domainFlags
  phys := phys
  gpuVa := 0
  cpuPtr := 0
  domain := arg.domains.toUInt32
  gpuProt := .zero

/-- A create: refused, or it makes a handle live that was not, with the new value. -/
def Creates {n : Nat} {α : Type} (m : Handles n α) (refused : Prop) (a : α) (r : Reply)
    (m' : Handles n α) : Prop :=
  (refused → r.accepted = false ∧ m' = m) ∧
    (¬ refused → r.accepted = true ∧ m.Created r.handle.toNat a m')

/-- A destroy: of a live handle, or refused. -/
def Destroys {n : Nat} {α : Type} (m : Handles n α) (h : Nat) (r : Reply) (m' : Handles n α) :
    Prop :=
  (m.Live h → r.accepted = true ∧ m' = m.erase h) ∧ (¬ m.Live h → r.accepted = false ∧ m' = m)

/-- What a call may reply, and leave. -/
def Maps.Allows (t : Maps) (op : HandleOp) (r : Reply) (t' : Maps) : Prop :=
  match op with
  | .gemCreate arg alloc =>
    ∃ bo, t' = { t with bo := bo } ∧
      Creates t.bo (roundUpPage (gemCreateIn arg).boSize = 0 ∨ t.bo.Full ∨ alloc = none)
        (newBo (gemCreateIn arg) (alloc.getD 0)) r bo ∧
      (r.accepted = false → r.handle = 0)
  | .gemClose handle => ∃ bo, t' = { t with bo := bo } ∧ Destroys t.bo handle.toNat r bo
  | .ctx arg =>
    ∃ ctx, t' = { t with ctx := ctx } ∧
      (arg 0 = ctxOpAllocCtx →
        Creates t.ctx t.ctx.Full ⟨true, (arg 3).toInt32, 0⟩ r ctx ∧
          (r.accepted = false → r.handle = 0)) ∧
      (arg 0 = ctxOpFreeCtx → Destroys t.ctx (arg 2).toNat r ctx) ∧
      (arg 0 ≠ ctxOpAllocCtx → arg 0 ≠ ctxOpFreeCtx → ctx = t.ctx)
  | .boList arg mem =>
    ∃ list, t' = { t with list := list } ∧
      (arg 0 = boListOpCreate →
        Creates t.list ((arg 2 ≠ 0 ∧ (word64 (arg 4) (arg 5) = 0 ∨ arg 3 < 4)) ∨
          (∃ handle ∈ boHandles mem (word64 (arg 4) (arg 5)) (arg 3) (arg 2),
            ¬ t.bo.Live handle.toNat) ∨ t.list.Full) ⟨true, arg 2⟩ r list) ∧
      (arg 0 = boListOpDestroy → Destroys t.list (arg 1).toNat r list) ∧
      (arg 0 ≠ boListOpCreate → arg 0 ≠ boListOpDestroy → r.accepted = false ∧ list = t.list)
  | .syncobjCreate arg =>
    ∃ syncobj, t' = { t with syncobj := syncobj } ∧
      Creates t.syncobj (arg = none ∨ t.syncobj.Full) ⟨true, 0, 0⟩ r syncobj
  | .syncobjDestroy arg =>
    ∃ syncobj, t' = { t with syncobj := syncobj } ∧
      (∀ handle, arg = some handle → Destroys t.syncobj handle.toNat r syncobj) ∧
      (arg = none → r.accepted = false ∧ syncobj = t.syncobj)
  | .noteHang _ => ∃ ctx, t' = { t with ctx := ctx } ∧ ∀ h, ctx.Live h ↔ t.ctx.Live h
  | .map _ => ∃ bo, t' = { t with bo := bo } ∧ ∀ h, bo.Live h ↔ t.bo.Live h

/-- The runs of the maps. -/
inductive Maps.Runs : List (HandleOp × Reply) → Maps → Prop
  | start : Runs [] .empty
  | call {past : List (HandleOp × Reply)} {t t' : Maps} (op : HandleOp) (r : Reply) :
      Runs past t → t.Allows op r t' → Runs ((op, r) :: past) t'

/-- The maps that the tables are. -/
def Tables.maps (s : Tables) : Maps where
  bo := .ofTable Bo.live s.shim.bo
  ctx := .ofTable Ctx.live s.ctx
  list := .ofTable BoList.live s.list
  syncobj := .ofTable Syncobj.live s.syncobj

end OopsMesa.Winsys
