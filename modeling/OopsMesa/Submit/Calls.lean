/-
  What submit.c calls.

  submit.c keeps its queue and its counters to itself; everything else it touches is a call: the
  vendor driver, the platform clock, the fence word the GPU writes too, the winsys' other files.
  Its functions are programs over these calls, so that one definition can be read both as a list
  of calls with any answers, and interleaved with a GPU.

  Debug log lines, the pause between two polls, and cache flushes of single lines are left out:
  they answer nothing and change no state here. The other log lines are calls without their text.
-/
import OopsMesa.Lib.Interact

namespace OopsMesa.Submit

open OopsMesa.Lib

/-- The dword at each byte address, as the CPU reads it. -/
abbrev Memory := UInt64 → UInt32

/-- What a stream is for. The driver is not told; the GPU's behaviour depends on it. -/
inductive Role where
  | buffer
  | fence
  deriving DecidableEq, Repr

/-- `oops_agc_dcb_desc`: where a stream starts, and its dwords. -/
structure Dcb where
  gpuAddr : UInt64
  size : Nat
  deriving DecidableEq, Repr

/-- The log lines of submit.c. -/
inductive LogLine where
  | notBound
  | agcInitRefused (rc : Int32)
  | queueRefused
  | fenceAllocRefused
  | chainTooDeep
  | refusedBuffer (bytes : UInt32)
  | unhandledChunk (id : UInt32)
  | noBuffer
  | refusedFence
  | slowest (sequence waitedUs : UInt64)
  | notRetired (sequence waitedUs : UInt64) (fence : UInt32)
  | fenceSlot (sequence : UInt64) (handle offset : UInt32)
  deriving DecidableEq, Repr

inductive Call where
  | log (line : LogLine)
  | agcInit
  | createQueue
  | allocFence
  | allocFenceDcb
  | clearMarks
  | flushCpuWrites
  | dumpIb (va : UInt64) (bytes : UInt32)
  | noteMarks (va : UInt64) (bytes : UInt32)
  | reportMarks
  /-- The command streams, read when one is about to be walked. -/
  | readMemory
  | submit (role : Role) (dcb : Dcb)
  /-- `s_fence[0] = OOPS_WINSYS_FENCE_ARMED` -/
  | armFence (fence : UInt64)
  | storeFenceStream (dcb : UInt64) (dw : List UInt32)
  /-- `s_fence[0]` -/
  | readFence (fence : UInt64)
  | processTime
  | noteHang (ctxId : UInt32)
  | boCpuRange (handle : UInt32) (offset bytes : UInt64)
  /-- `*slot = sequence` -/
  | storeSlot (slot sequence : UInt64)
  deriving DecidableEq, Repr

/-- A code of the driver, and the queue pointer it wrote. -/
structure QueueAnswer where
  rc : Int32
  queue : UInt64

/-- What each call answers. A null pointer is zero. -/
@[reducible] def Answer : Call → Type
  | .agcInit => Int32
  | .createQueue => QueueAnswer
  | .allocFence => UInt64
  | .allocFenceDcb => UInt64
  | .readMemory => Memory
  | .submit _ _ => Int32
  | .readFence _ => UInt32
  | .processTime => UInt64
  | .boCpuRange _ _ _ => UInt64
  | _ => Unit

/-- The functions of submit.c. -/
abbrev Submission := Prog Call Answer

/-- `EIO` -/
def eio : Int32 := 5

/-- A call whose answer, if it has one, is not looked at. -/
def tell (c : Call) : Submission Unit := Prog.call c fun _ => pure ()

def log (line : LogLine) : Submission Unit := tell (.log line)

/-- `submit_one`; `bytes` is below 2^32. -/
def submitOne (role : Role) (va : UInt64) (bytes : Nat) : Submission Int32 :=
  Prog.ask (Call.submit role ⟨va, bytes / 4⟩)

/-- The streams handed to the driver, accepted or not, in order. -/
def handed (tr : List (Prog.Event Call Answer)) : List Dcb :=
  tr.filterMap fun ev =>
    match ev.1 with
    | .submit _ dcb => some dcb
    | _ => none

/-- The driver accepted every stream. -/
def AllAccepted (tr : List (Prog.Event Call Answer)) : Prop :=
  ∀ role dcb (rc : Int32), (⟨.submit role dcb, rc⟩ : Prog.Event Call Answer) ∈ tr → rc = 0

@[simp] theorem handed_nil : handed [] = [] := rfl

@[simp] theorem handed_append (tr tr' : List (Prog.Event Call Answer)) :
    handed (tr ++ tr') = handed tr ++ handed tr' := List.filterMap_append

@[simp] theorem handed_submit (role : Role) (dcb : Dcb) (rc : Int32)
    (tr : List (Prog.Event Call Answer)) :
    handed (⟨.submit role dcb, rc⟩ :: tr) = dcb :: handed tr := rfl

@[simp] theorem handed_log (line : LogLine) (x : Unit) (tr : List (Prog.Event Call Answer)) :
    handed (⟨.log line, x⟩ :: tr) = handed tr := rfl

/-- A driver that accepts every stream, and a fence word that stays zero. -/
def accepting : (e : Call) → Answer e
  | .agcInit => (0 : Int32)
  | .createQueue => ⟨0, 1⟩
  | .allocFence => (1 : UInt64)
  | .allocFenceDcb => (1 : UInt64)
  | .readMemory => fun _ : UInt64 => (0 : UInt32)
  | .submit _ _ => (0 : Int32)
  | .readFence _ => (0 : UInt32)
  | .processTime => (0 : UInt64)
  | .boCpuRange _ _ _ => (0 : UInt64)
  | .log _ | .clearMarks | .flushCpuWrites | .dumpIb _ _ | .noteMarks _ _ | .reportMarks
  | .armFence _ | .storeFenceStream _ _ | .noteHang _ | .storeSlot _ _ => ()

end OopsMesa.Submit
