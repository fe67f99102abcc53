/-
  The emulated-TLS runtime.

  A control record names a thread-local; its index is handed out once, under `s_index_lock`, by
  the first access of any thread. A thread's objects are in an array of its own, in slot
  `index`, with the count of slots in front; the array grows by `realloc` when a control of a
  higher index is touched. A thread that exits frees its objects and the array.

  What a thread does to its own array is one move here: no other thread reaches it. The moves on
  the index, which all threads read, are one for each read and write. The allocator may refuse at
  every call, and a memory access outside a live block would be a `fault`. The `pthread_once` is
  complete, and `pthread_setspecific` succeeds.

  Addresses and words are naturals: an index is at most the number of controls, each of which
  takes 32 bytes of the address space, so neither `++s_next_index` nor the size of an array wraps.
-/
import OopsMesa.Lib.Heap
import OopsMesa.Lib.Threads

namespace OopsMesa.Runtime

open OopsMesa.Lib

variable {ι κ : Type}

/-! ## The code -/

/-- `struct emutls_control`, but for its index. A null `value` is `none`. -/
structure Control where
  size : Nat
  align : Nat
  value : Option (Nat → UInt8)

/-- The alignment asked of `posix_memalign`. -/
def Control.alignment (control : Control) : Nat := if control.align < 8 then 8 else control.align

/-- The bytes asked of it. -/
def Control.request (control : Control) : Nat := if control.size ≠ 0 then control.size else 1

/-- What an object starts as: `control->value`, or zeros. -/
def Control.initial (control : Control) : List UInt8 :=
  match control.value with
  | some value => (List.range control.size).map value
  | none => List.replicate control.size 0

/-- `emutls_allocate` once it has its memory: the first `size` bytes written over. -/
def emutlsFill (control : Control) (garbage : List UInt8) : List UInt8 :=
  control.initial ++ garbage.drop control.size

/-- `(array != NULL) ? array[0] : 0` -/
def arrayCount (h : Heap) (array : Nat) : Option Nat :=
  if array ≠ 0 then h.load array 0 else some 0

/-- `emutls_array_for`: the array, or null. `answer` is what `realloc` gives, and what its new
    words hold. -/
def emutlsArrayFor (h : Heap) (array index : Nat) (answer : Option (Nat × (Nat → Nat))) :
    Option (Nat × Heap) := do
  let count ← arrayCount h array
  if index ≤ count then some (array, h)
  else
    match answer with
    | none => some (0, h)
    | some (grown, rest) => do
      let h ← h.realloc array (index + 1) grown rest
      let h ← h.zero grown (count + 1) (index - count)
      let h ← h.store grown 0 index
      some (grown, h)

/-- The loop of `emutls_thread_cleanup` from slot `i` on, and the objects it frees. -/
def freeSlots (h : Heap) (array i : Nat) : Nat → Option (List Nat × Heap)
  | 0 => some ([], h)
  | left + 1 => do
    let o ← h.load array i
    let h ← h.free o
    let (os, h) ← freeSlots h array (i + 1) left
    some (if o = 0 then os else o :: os, h)

/-- `emutls_thread_cleanup` -/
def emutlsThreadCleanup (h : Heap) (array : Nat) : Option (List Nat × Heap) :=
  if array = 0 then some ([], h)
  else do
    let count ← h.load array 0
    let (os, h) ← freeSlots h array 1 count
    let h ← h.free array
    some (os, h)

/-- What the threads share: the indices of the controls, `s_next_index`, `s_index_lock`, the value
    of `s_key` in each thread, and the heap. -/
structure TlsShared (ι κ : Type) where
  index : κ → Nat
  next : Nat
  lock : Bool
  key : ι → Nat
  heap : Heap

/-- What a thread is about to do in `__emutls_get_address`, for a control. -/
inductive TlsPc (κ : Type) where
  | out
  /-- Read the index. -/
  | check (d : κ)
  /-- Take `s_index_lock`. -/
  | lock (d : κ)
  /-- Read the index again. -/
  | recheck (d : κ)
  /-- Take the next index. -/
  | assign (d : κ)
  /-- Write it into the control. -/
  | publish (d : κ) (index : Nat)
  /-- Give up `s_index_lock`. -/
  | unlock (d : κ) (index : Nat)
  /-- `emutls_array_for` -/
  | array (d : κ) (index : Nat)
  /-- Read the slot. -/
  | slot (d : κ) (index array : Nat)
  /-- Make the object. -/
  | allocate (d : κ) (index array : Nat)
  /-- Return what the slot holds. -/
  | load (d : κ) (index array : Nat)

inductive TlsEvent (ι κ : Type) where
  /-- `__emutls_get_address` returned; null is 0. -/
  | returned (i : ι) (d : κ) (o : Nat)
  /-- `emutls_allocate` made an object, which holds these bytes. -/
  | created (i : ι) (d : κ) (o : Nat) (bs : List UInt8)
  /-- The thread exited, and its cleanup freed these objects. -/
  | exited (i : ι) (os : List Nat)
  /-- A memory access outside a live block, or a `free` of none. -/
  | fault (i : ι)

/-- The moves of a thread. -/
inductive TlsAct (control : κ → Control) [DecidableEq ι] [DecidableEq κ] (i : ι) :
    TlsPc κ → TlsShared ι κ → TlsPc κ → TlsShared ι κ → List (TlsEvent ι κ) → Prop
  | call (s : TlsShared ι κ) (d : κ) : TlsAct control i .out s (.check d) s []
  | indexed (s : TlsShared ι κ) (d : κ) : s.index d ≠ 0 →
      TlsAct control i (.check d) s (.array d (s.index d)) s []
  | unindexed (s : TlsShared ι κ) (d : κ) : s.index d = 0 →
      TlsAct control i (.check d) s (.lock d) s []
  | lock (s : TlsShared ι κ) (d : κ) : s.lock = false →
      TlsAct control i (.lock d) s (.recheck d) { s with lock := true } []
  | found (s : TlsShared ι κ) (d : κ) : s.index d ≠ 0 →
      TlsAct control i (.recheck d) s (.unlock d (s.index d)) s []
  | absent (s : TlsShared ι κ) (d : κ) : s.index d = 0 →
      TlsAct control i (.recheck d) s (.assign d) s []
  | assign (s : TlsShared ι κ) (d : κ) :
      TlsAct control i (.assign d) s (.publish d (s.next + 1)) { s with next := s.next + 1 } []
  | publish (s : TlsShared ι κ) (d : κ) (n : Nat) :
      TlsAct control i (.publish d n) s (.unlock d n)
        { s with index := Function.update s.index d n } []
  | unlock (s : TlsShared ι κ) (d : κ) (n : Nat) :
      TlsAct control i (.unlock d n) s (.array d n) { s with lock := false } []
  | array (s : TlsShared ι κ) (d : κ) (n : Nat) (answer : Option (Nat × (Nat → Nat))) (a : Nat)
      (h : Heap) : (∀ r, answer = some r → s.heap.Fresh (s.key i) r.1) →
      emutlsArrayFor s.heap (s.key i) n answer = some (a, h) → a ≠ 0 →
        TlsAct control i (.array d n) s (.slot d n a)
          { s with key := Function.update s.key i a, heap := h } []
  | arrayNull (s : TlsShared ι κ) (d : κ) (n : Nat) (answer : Option (Nat × (Nat → Nat)))
      (h : Heap) : (∀ r, answer = some r → s.heap.Fresh (s.key i) r.1) →
      emutlsArrayFor s.heap (s.key i) n answer = some (0, h) →
        TlsAct control i (.array d n) s .out { s with heap := h } [.returned i d 0]
  | slotEmpty (s : TlsShared ι κ) (d : κ) (n a : Nat) : s.heap.load a n = some 0 →
      TlsAct control i (.slot d n a) s (.allocate d n a) s []
  | slotFull (s : TlsShared ι κ) (d : κ) (n a o : Nat) : s.heap.load a n = some o → o ≠ 0 →
      TlsAct control i (.slot d n a) s (.load d n a) s []
  | allocateNull (s : TlsShared ι κ) (d : κ) (n a : Nat) :
      TlsAct control i (.allocate d n a) s .out s [.returned i d 0]
  | allocate (s : TlsShared ι κ) (d : κ) (n a o : Nat) (garbage : List UInt8) (h : Heap) :
      s.heap.Fresh 0 o → (control d).alignment ∣ o → garbage.length = (control d).request →
      Heap.store (Function.update s.heap o (some (.bytes (emutlsFill (control d) garbage)))) a n o =
        some h →
        TlsAct control i (.allocate d n a) s (.load d n a) { s with heap := h }
          [.created i d o (emutlsFill (control d) garbage)]
  | ret (s : TlsShared ι κ) (d : κ) (n a o : Nat) : s.heap.load a n = some o →
      TlsAct control i (.load d n a) s .out s [.returned i d o]
  | exit (s : TlsShared ι κ) (os : List Nat) (h : Heap) :
      emutlsThreadCleanup s.heap (s.key i) = some (os, h) →
        TlsAct control i .out s .out { s with key := Function.update s.key i 0, heap := h }
          [.exited i os]
  /-- The client writes to an object. -/
  | write (s : TlsShared ι κ) (o : Nat) (bs bs' : List UInt8) : s.heap o = some (.bytes bs) →
      bs'.length = bs.length →
        TlsAct control i .out s .out
          { s with heap := Function.update s.heap o (some (.bytes bs')) } []
  | arrayFault (s : TlsShared ι κ) (d : κ) (n : Nat) (answer : Option (Nat × (Nat → Nat))) :
      (∀ r, answer = some r → s.heap.Fresh (s.key i) r.1) →
      emutlsArrayFor s.heap (s.key i) n answer = none →
        TlsAct control i (.array d n) s .out s [.fault i]
  | slotFault (s : TlsShared ι κ) (d : κ) (n a : Nat) : s.heap.load a n = none →
      TlsAct control i (.slot d n a) s .out s [.fault i]
  | allocateFault (s : TlsShared ι κ) (d : κ) (n a o : Nat) (garbage : List UInt8) :
      s.heap.Fresh 0 o →
      Heap.store (Function.update s.heap o (some (.bytes (emutlsFill (control d) garbage)))) a n o =
        none → TlsAct control i (.allocate d n a) s .out s [.fault i]
  | retFault (s : TlsShared ι κ) (d : κ) (n a : Nat) : s.heap.load a n = none →
      TlsAct control i (.load d n a) s .out s [.fault i]
  | exitFault (s : TlsShared ι κ) : emutlsThreadCleanup s.heap (s.key i) = none →
      TlsAct control i .out s .out s [.fault i]

/-- Threads with thread-locals. -/
abbrev WithTls (ι κ : Type) := Threads ι (TlsPc κ) (TlsShared ι κ) (TlsEvent ι κ)

/-- No index handed out, no array, nothing allocated. -/
def WithTls.init : WithTls ι κ := ⟨fun _ => .out, ⟨fun _ => 0, 0, false, fun _ => 0, fun _ => none⟩, []⟩

/-- The states that any number of threads can reach, over any controls. -/
def TlsRun [DecidableEq ι] [DecidableEq κ] (control : κ → Control) : WithTls ι κ → Prop :=
  Threads.Turns (TlsAct control) (fun _ _ _ _ => True) WithTls.init

/-! ## The statement -/

/-- The events since the thread last exited. -/
def life [DecidableEq ι] (i : ι) : List (TlsEvent ι κ) → List (TlsEvent ι κ)
  | [] => []
  | .exited j os :: past => if j = i then [] else .exited j os :: life i past
  | e :: past => e :: life i past

/-- Emulated thread-local storage behaves as thread-local storage, as far as a run has come. -/
structure ThreadLocal [DecidableEq ι] [DecidableEq κ] (control : κ → Control) (c : WithTls ι κ) :
    Prop where
  /-- A control that was accessed has an index, which it keeps and shares with no other. -/
  indexed : ∀ i d o, .returned i d o ∈ c.past → c.shared.index d ≠ 0
  keeps : ∀ i p s es d, TlsAct control i (c.pc i) c.shared p s es → c.shared.index d ≠ 0 →
    s.index d = c.shared.index d
  unshared : ∀ d e, c.shared.index d ≠ 0 → c.shared.index d = c.shared.index e → d = e
  /-- A thread gets one object for a control while it lives, and no other gets that object. -/
  same : ∀ i d o o', .returned i d o ∈ life i c.past → .returned i d o' ∈ life i c.past →
    o ≠ 0 → o' ≠ 0 → o = o'
  distinct : ∀ i j d e o, .returned i d o ∈ life i c.past → .returned j e o ∈ life j c.past →
    o ≠ 0 → i = j ∧ d = e
  /-- It was made for the thread and the control, and started as it should. -/
  made : ∀ i d o, .returned i d o ∈ life i c.past → o ≠ 0 →
    ∃ bs, .created i d o bs ∈ life i c.past
  starts : ∀ i d o bs, .created i d o bs ∈ c.past →
    bs.take (control d).size = (control d).initial ∧ bs.length = (control d).request
  /-- An exit frees what was made for the thread, each object once. -/
  freed : ∀ pre i os post, c.past = post ++ .exited i os :: pre →
    os.Nodup ∧ ∀ o, o ∈ os ↔ ∃ d bs, .created i d o bs ∈ life i pre
  safe : ∀ i, .fault i ∉ c.past

end OopsMesa.Runtime
