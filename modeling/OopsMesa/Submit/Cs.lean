/-
  `oops_winsys_cs`.

  Submission is synchronous: the instruction buffers, then a stream of the shim's own that ends in
  an end-of-pipe event writing one word, and then a bounded wait for that word. One fence word,
  one fence stream and one fired value serve every submission. The functions carry submit.c's
  statics and are programs over its calls.
-/
import OopsMesa.Submit.Chain
import OopsMesa.Winsys.State

namespace OopsMesa.Submit

open OopsMesa.Lib OopsMesa.Winsys

/-! ## Statics and arguments -/

/-- The statics of submit.c: `s_queue`, `s_fence`, `s_fence_dcb`, `s_sequence`, `s_slowest_us`.
    A null pointer is zero. -/
structure Statics where
  queue : UInt64
  fence : UInt64
  fenceDcb : UInt64
  sequence : UInt64
  slowestUs : UInt64
  deriving DecidableEq, Repr

/-- Before the first call. -/
def Statics.init : Statics := ⟨0, 0, 0, 0, 0⟩

/-- Which weak symbols resolve. -/
structure Symbols where
  agcInit : Bool
  createQueue : Bool
  submitCommandBuffer : Bool
  submitDcb : Bool
  processTime : Bool
  deriving DecidableEq, Repr

/-- All symbols resolve. -/
def Symbols.all : Symbols := ⟨true, true, true, true, true⟩

/-- `struct drm_amdgpu_cs_chunk_ib` -/
structure ChunkIb where
  vaStart : UInt64
  ibBytes : UInt32
  deriving DecidableEq, Repr

/-- `struct drm_amdgpu_cs_chunk_fence` -/
structure ChunkFence where
  handle : UInt32
  offset : UInt32
  deriving DecidableEq, Repr

/-- `struct drm_amdgpu_cs_chunk`, by its id. A null `chunk_data` is `none`. -/
inductive Chunk where
  | ib (data : Option ChunkIb)
  | fence (data : Option ChunkFence)
  | dependencies
  | syncobjIn
  | syncobjOut
  | boHandles
  | other (id : UInt32)
  deriving DecidableEq, Repr

/-- `arg->in`. A null array, and a null entry of it, is `none`. -/
structure CsIn where
  ctxId : UInt32
  chunks : Option (List (Option Chunk))
  deriving DecidableEq, Repr

/-- `OOPS_WINSYS_FENCE_FIRED`. The armed word is another one. -/
def fenceFired : UInt32 := 0xbeefcafe

/-- `OOPS_WINSYS_FENCE_ARMED` -/
def fenceArmed : UInt32 := 0x11111111

/-- `OOPS_WINSYS_FENCE_TIMEOUT_US` -/
def fenceTimeoutUs : UInt64 := 5000000

/-- `OOPS_WINSYS_FENCE_POLLS` -/
def fencePolls : Nat := 500000

/-- `OOPS_WINSYS_SLOW_US` -/
def slowUs : UInt64 := 50000

/-! ## The queue -/

/-- `ensure_queue`. A queue once created is never created again, with or without a fence. -/
def ensureQueue (sym : Symbols) (st : Statics) : Submission (Bool × Statics) :=
  if st.queue ≠ 0 then pure (true, st)
  else if !sym.agcInit || !sym.createQueue || (!sym.submitCommandBuffer && !sym.submitDcb) then do
    log .notBound
    pure (false, st)
  else do
    let arc : Int32 ← Prog.ask Call.agcInit
    if arc ≠ 0 then
      log (.agcInitRefused arc)
      pure (false, st)
    else
      let q : QueueAnswer ← Prog.ask Call.createQueue
      if q.rc ≠ 0 ∨ q.queue = 0 then
        log .queueRefused
        pure (false, { st with queue := 0 })
      else
        let fence : UInt64 ← Prog.ask Call.allocFence
        let fenceDcb : UInt64 ← Prog.ask Call.allocFenceDcb
        let st := { st with queue := q.queue, fence := fence, fenceDcb := fenceDcb }
        if fence = 0 ∨ fenceDcb = 0 then
          log .fenceAllocRefused
          pure (false, st)
        else pure (true, st)

/-! ## The chunks -/

/-- What the walk over the chunks remembers. -/
structure Walked where
  submitted : Nat
  userFence : Option ChunkFence
  deriving DecidableEq, Repr

/-- An instruction buffer. False where the driver refused. -/
def submitIb (ib : ChunkIb) : Submission Bool := do
  tell (.dumpIb ib.vaStart ib.ibBytes)
  tell (.noteMarks ib.vaStart ib.ibBytes)
  let mem : Memory ← Prog.ask Call.readMemory
  let rc ← submitChain mem maxIbChain ib.vaStart ib.ibBytes.toNat
  if rc ≠ 0 then
    log (.refusedBuffer ib.ibBytes)
    pure false
  else pure true

/-- One turn of the loop over the chunks; `none` where it returns `-EIO`. -/
def submitChunk (w : Walked) : Option Chunk → Submission (Option Walked)
  | some (.ib (some ib)) =>
    if ib.ibBytes = 0 then pure (some w)
    else do
      let accepted ← submitIb ib
      if accepted then pure (some { w with submitted := w.submitted + 1 }) else pure none
  | some (.fence (some fc)) => pure (some { w with userFence := some fc })
  | some (.other id) => do
    log (.unhandledChunk id)
    pure (some w)
  -- a null chunk, null data, and the chunks a synchronous submission need not look at
  | _ => pure (some w)

/-- The loop over the chunks. -/
def submitChunks : Walked → List (Option Chunk) → Submission (Option Walked)
  | w, [] => pure (some w)
  | w, c :: cs => do
    let w' ← submitChunk w c
    match w' with
    | none => pure none
    | some w' => submitChunks w' cs

/-! ## The fence -/

/-- `build_fence_stream`: a colour target, the end-of-pipe event, and padding. -/
def buildFenceStream (fenceGpu : UInt64) : List UInt32 :=
  ([0xc0012800, 0x200, (fenceGpu >>> 8).toUInt32,
    0xc0064900, 0x06603514, 0x20000000, fenceGpu.toUInt32, (fenceGpu >>> 32).toUInt32, fenceFired,
    0, 0] : List UInt32) ++ List.replicate 16 pm4Nop

/-- The fence word armed, and the stream that fires it submitted. -/
def submitFence (st : Statics) : Submission Int32 := do
  tell (.armFence st.fence)
  let words := buildFenceStream st.fence
  tell (.storeFenceStream st.fenceDcb words)
  submitOne .fence st.fenceDcb (words.length * 4)

/-- The poll loop: whether the fence fired, and how long it took. -/
def pollFence (sym : Symbols) (fence startUs : UInt64) :
    Nat → UInt64 → Submission (Bool × UInt64)
  | 0, waitedUs => pure (false, waitedUs)
  | polls + 1, waitedUs => do
    let waitedUs ←
      if sym.processTime then do
        let now : UInt64 ← Prog.ask Call.processTime
        pure (now - startUs)
      else pure waitedUs
    let word : UInt32 ← Prog.ask (Call.readFence fence)
    if word = fenceFired then pure (true, waitedUs)
    else if fenceTimeoutUs < waitedUs then pure (false, waitedUs)
    else pollFence sym fence startUs polls waitedUs

/-- The wait for the fence, and what is said and noted about it. -/
def awaitFence (sym : Symbols) (st : Statics) (ctxId : UInt32) : Submission (Bool × Statics) := do
  let startUs ← if sym.processTime then Prog.ask Call.processTime else pure (0 : UInt64)
  let (fired, waitedUs) ← pollFence sym st.fence startUs fencePolls 0
  if fired then
    if slowUs < waitedUs ∧ st.slowestUs < waitedUs then
      log (.slowest (st.sequence + 1) waitedUs)
      pure (true, { st with slowestUs := waitedUs })
    else pure (true, st)
  else
    let word : UInt32 ← Prog.ask (Call.readFence st.fence)
    log (.notRetired (st.sequence + 1) waitedUs word)
    tell .reportMarks
    tell (.noteHang ctxId)
    pure (false, st)

/-- The end of `awaitFence`, with whether the fence fired, and how long that took. -/
def noteWait (st : Statics) (ctxId : UInt32) (r : Bool × UInt64) : Submission (Bool × Statics) :=
  if r.1 then
    if slowUs < r.2 ∧ st.slowestUs < r.2 then do
      log (.slowest (st.sequence + 1) r.2)
      pure (true, { st with slowestUs := r.2 })
    else pure (true, st)
  else do
    let word : UInt32 ← Prog.ask (Call.readFence st.fence)
    log (.notRetired (st.sequence + 1) r.2 word)
    tell .reportMarks
    tell (.noteHang ctxId)
    pure (false, st)

theorem awaitFence_eq (sym : Symbols) (st : Statics) (ctxId : UInt32) :
    awaitFence sym st ctxId =
      if sym.processTime then
        Prog.ask Call.processTime >>= fun startUs : UInt64 =>
          pollFence sym st.fence startUs fencePolls 0 >>= noteWait st ctxId
      else pollFence sym st.fence 0 fencePolls 0 >>= noteWait st ctxId := by
  unfold awaitFence
  split <;> rfl

/-- The sequence number written where the client looks for it. -/
def publish (st : Statics) (userFence : Option ChunkFence) : Submission Statics :=
  let sequence := st.sequence + 1
  match userFence with
  | none => pure { st with sequence := sequence }
  | some fc => do
    let slot : UInt64 ← Prog.ask (Call.boCpuRange fc.handle fc.offset.toUInt64 8)
    if slot ≠ 0 then
      tell (.storeSlot slot sequence)
      pure { st with sequence := sequence }
    else
      log (.fenceSlot sequence fc.handle fc.offset)
      pure { st with sequence := sequence }

/-! ## The call -/

/-- `oops_winsys_cs`: the code and, on success, `out.handle`. -/
def cs (sym : Symbols) (arg : CsIn) (st : Statics) : Submission ((Ret × UInt64) × Statics) := do
  let (ready, st) ← ensureQueue sym st
  if !ready then pure ((.err .ENODEV, 0), st)
  else
    match arg.chunks with
    | none | some [] => pure ((.err .EINVAL, 0), st)
    | some chunks => do
      tell .clearMarks
      tell .flushCpuWrites
      let walked ← submitChunks ⟨0, none⟩ chunks
      match walked with
      | none => pure ((.err Errno.EIO, 0), st)
      | some w =>
        if w.submitted = 0 then
          log .noBuffer
          pure ((.err .EINVAL, 0), st)
        else
          let rc ← submitFence st
          if rc ≠ 0 then
            log .refusedFence
            pure ((.err Errno.EIO, 0), st)
          else
            let (fired, st) ← awaitFence sym st arg.ctxId
            if !fired then pure ((.err .ETIMEDOUT, 0), st)
            else
              let st ← publish st w.userFence
              pure ((.ok, st.sequence), st)

end OopsMesa.Submit
