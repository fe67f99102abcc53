/-
  The buffer table is the client's own ledger.

  A client that writes down what it created, under the handle it was given, and strikes out what
  it closed, knows all that the queries of buffers.c and device_info.c answer: which handles are
  live, how large a buffer is, what it was created with, and how much memory is in use. Mapping
  and unmapping, refused calls and CPU mappings change none of these answers. `openRecord` is the
  ledger, and `ledger_answers` says that the answers are it after any list of calls with any
  answers of the platform.

  What is written down is what was asked for, with the size in whole pages, the alignment no
  smaller than a page, and the domain in 32 bits.
-/
import OopsMesa.Lib.Reach
import OopsMesa.Winsys.HandleMaps
import OopsMesa.Winsys.Sizes

namespace OopsMesa.Winsys

open OopsMesa.Lib

/-! ## The queries -/

/-- `AMDGPU_GEM_OP_*` -/
def gemOpGetGemCreateInfo : UInt32 := 0
def gemOpSetPlacement : UInt32 := 1

/-- `oops_winsys_gem_op`. `info` is what `value` points to; a null pointer is `none`. -/
def gemOp (w : Shim) (handle op : UInt32) (info : Option GemCreateIn) :
    Ret × Option GemCreateIn :=
  match boOf w handle with
  | none => (.err .EINVAL, info)
  | some i =>
    if op = gemOpGetGemCreateInfo then
      match info with
      | none => (.err .EINVAL, none)
      | some _ =>
        let bo := w.bo i
        (.ok, some ⟨bo.size, bo.alignment, bo.domain.toUInt64, bo.domainFlags⟩)
    else if op = gemOpSetPlacement then (.err .ENOSYS, info)
    else (.err .EINVAL, info)

/-- `oops_winsys_bo_bytes_live` -/
def boBytesLive (w : Shim) : UInt64 :=
  (List.finRange winsysMaxBo).foldl
    (fun total i => if (w.bo i).live then total + (w.bo i).size else total) 0

/-- `struct drm_amdgpu_heap_info` -/
structure HeapInfo where
  totalHeapSize : UInt64
  usableHeapSize : UInt64
  heapUsage : UInt64
  maxAllocation : UInt64
  deriving DecidableEq, Repr

/-- `struct drm_amdgpu_memory_info` -/
structure MemoryInfo where
  vram : HeapInfo
  cpuAccessibleVram : HeapInfo
  gtt : HeapInfo
  deriving DecidableEq, Repr

/-- A heap after `memset`. -/
def HeapInfo.zero : HeapInfo := ⟨0, 0, 0, 0⟩

/-- `oops_winsys_memory_info`. `directMemorySize` is what `sceKernelGetDirectMemorySize` answers,
    and nothing where that is not bound. -/
def memoryInfo (w : Shim) (directMemorySize : Option UInt64) : Ret × MemoryInfo :=
  match directMemorySize with
  | none => (.err .ENOSYS, ⟨.zero, .zero, .zero⟩)
  | some size =>
    if size = 0 then (.err .ENODEV, ⟨.zero, .zero, .zero⟩)
    else
      let used := boBytesLive w
      let heap : HeapInfo := ⟨size, size - (if used < size then used else size), used, size⟩
      (.ok, ⟨heap, heap, heap⟩)

/-! ## The ledger -/

/-- A call and what it returned: its code, and the handle of a create. -/
abbrev Answered := Op × Ret × UInt32

def answer (w : Shim) : Op → Ret × UInt32
  | .gemCreate arg alloc => ((gemCreate w arg alloc).1, (gemCreate w arg alloc).2.1)
  | .gemClose handle => ((gemClose w handle).1, 0)
  | .gemVa arg mapOk => ((gemVa w arg mapOk).1, 0)
  | _ => (.ok, 0)

/-- A call made and written down. -/
def answeredStep (s : Shim × List Answered) (op : Op) : Shim × List Answered :=
  (step s.1 op, (op, answer s.1 op) :: s.2)

/-- What a buffer is reported to have been created with. -/
def recorded (arg : GemCreateIn) : GemCreateIn where
  boSize := roundUpPage arg.boSize
  alignment := if arg.alignment < winsysPage then winsysPage else arg.alignment
  domains := arg.domains.toUInt32.toUInt64
  domainFlags := arg.domainFlags

/-- What a call that returned is written down as at a handle, if it is: a create and a close that
    returned 0 are. -/
def entered (handle : UInt32) : Op → Ret × UInt32 → Option (Option GemCreateIn)
  | .gemCreate arg _, (.ok, given) => if given = handle then some (some (recorded arg)) else none
  | .gemClose closed, (.ok, _) => if closed = handle then some none else none
  | _, _ => none

/-- The entry of a handle: created, and not closed since. -/
def openRecord (handle : UInt32) : List Answered → Option GemCreateIn
  | [] => none
  | (op, a) :: past => (entered handle op a).getD (openRecord handle past)

/-- The bytes of all entries. -/
def openBytes (past : List Answered) : Nat :=
  ((List.finRange winsysMaxBo).map fun i =>
    (openRecord (handleOf i) past).elim 0 fun r => r.boSize.toNat).sum

/-- The queries answer from the ledger. -/
structure AnswersLedger (past : List Answered) (w : Shim) : Prop where
  live : ∀ handle, boIsLive w handle = (openRecord handle past).isSome
  size : ∀ handle, boSize w handle = (openRecord handle past).elim 0 fun r => r.boSize
  created : ∀ handle info, gemOp w handle gemOpGetGemCreateInfo (some info) =
    (openRecord handle past).elim (.err .EINVAL, some info) fun r => (.ok, some r)
  bytes : boBytesLive w = UInt64.ofNat (openBytes past)
  memory : ∀ size, size ≠ 0 → ∃ heap : HeapInfo,
    memoryInfo w (some size) = (.ok, ⟨heap, heap, heap⟩) ∧
      heap.totalHeapSize = size ∧ heap.maxAllocation = size ∧
      heap.heapUsage = UInt64.ofNat (openBytes past) ∧
      heap.usableHeapSize.toNat = size.toNat - openBytes past % 2 ^ 64

/-! ## The table -/

variable {w w' : Shim} {i : Fin winsysMaxBo} {handle : UInt32} {b : Bo} {past : List Answered}

/-- What an entry was created with, if it is live. -/
def Bo.created (b : Bo) : Option GemCreateIn :=
  if b.live then some ⟨b.size, b.alignment, b.domain.toUInt64, b.domainFlags⟩ else none

/-- What a live handle was created with. -/
def createdAt (w : Shim) (handle : UInt32) : Option GemCreateIn :=
  (boOf w handle).bind fun i => (w.bo i).created

theorem boOf_eq_some : boOf w handle = some i ↔
    handle.toNat = i + 1 ∧ (w.bo i).live = true := by
  rw [boOf_eq, Handles.liveAt_eq_some]

theorem createdAt_of_entry (h : handle.toNat = i + 1) : createdAt w handle = (w.bo i).created := by
  unfold createdAt Bo.created
  rcases Decidable.em ((w.bo i).live = true) with hl | hl
  · rw [boOf_eq_some.mpr ⟨h, hl⟩, Option.bind_some, if_pos hl]
  · cases hb : boOf w handle with
    | none => rw [if_neg hl, Option.bind_none]
    | some j =>
      obtain ⟨hj, hlive⟩ := boOf_eq_some.mp hb
      obtain rfl : i = j := Fin.ext (by omega)
      exact absurd hlive hl

theorem createdAt_of_no_entry (h : ∀ i : Fin winsysMaxBo, handle.toNat ≠ i + 1) :
    createdAt w handle = none := by
  unfold createdAt
  cases hb : boOf w handle with
  | none => rfl
  | some i => exact absurd (boOf_eq_some.mp hb).1 (h i)

/-- Entries that were created alike, are reported alike. -/
theorem createdAt_congr (h : ∀ i, (w'.bo i).created = (w.bo i).created) (handle : UInt32) :
    createdAt w' handle = createdAt w handle := by
  rcases Classical.em (∃ i : Fin winsysMaxBo, handle.toNat = i + 1) with ⟨i, hi⟩ | hnone
  · rw [createdAt_of_entry hi, createdAt_of_entry hi, h i]
  · have hno : ∀ i : Fin winsysMaxBo, handle.toNat ≠ i + 1 := fun i hi => hnone ⟨i, hi⟩
    rw [createdAt_of_no_entry hno, createdAt_of_no_entry hno]

/-- An entry written is the answer for its handle. -/
theorem createdAt_update (h : w'.bo = Function.update w.bo i b) (handle : UInt32) :
    createdAt w' handle = if handleOf i = handle then b.created else createdAt w handle := by
  have hof := handleOf_toNat i
  split
  · next heq =>
    rw [← heq, createdAt_of_entry hof, h, Function.update_self]
  · next hne =>
    rcases Classical.em (∃ j : Fin winsysMaxBo, handle.toNat = j + 1) with ⟨j, hj⟩ | hnone
    · have hji : j ≠ i := by
        rintro rfl
        exact hne (UInt32.toNat_inj.mp (hof.trans hj.symm))
      rw [createdAt_of_entry hj, createdAt_of_entry hj, h, Function.update_of_ne hji]
    · have hno : ∀ i : Fin winsysMaxBo, handle.toNat ≠ i + 1 := fun i hi => hnone ⟨i, hi⟩
      rw [createdAt_of_no_entry hno, createdAt_of_no_entry hno]

/-- A write to the addresses, the pages or the protection of an entry. -/
theorem created_update (hb : b.created = (w.bo i).created) (j : Fin winsysMaxBo) :
    (Function.update w.bo i b j).created = (w.bo j).created := by
  rcases Decidable.em (j = i) with rfl | hji
  · rw [Function.update_self, hb]
  · rw [Function.update_of_ne hji]

/-! ## One call -/

/-- Mapping, unmapping and CPU mappings leave what buffers were created with. -/
theorem step_created {op : Op} (hcreate : ∀ arg alloc, op ≠ .gemCreate arg alloc)
    (hclose : ∀ handle, op ≠ .gemClose handle) (j : Fin winsysMaxBo) :
    ((step w op).bo j).created = (w.bo j).created := by
  have he := step_effect (w := w) op
  generalize step w op = w' at he ⊢
  cases he with
  | idle => rfl
  | create arg phys => exact absurd rfl (hcreate arg _)
  | close handle => exact absurd rfl (hclose handle)
  | cpu op i v => exact created_update (w := w) (b := { w.bo i with cpuPtr := v }) rfl j
  | served arg _ i k =>
    rw [mapFromRetained_bo]
    exact created_update (w := w) (b := { w.bo i with
      phys := (w.retained k).phys, gpuVa := arg.vaAddress, gpuProt := vaProt arg.flags }) rfl j
  | afresh arg mapOk i =>
    have hbo := (releaseOverlapping_releases (w := w) arg.vaAddress (mapBytes (w.bo i) arg)).bo
    cases mapOk with
    | true =>
      rw [mapAfresh_true]
      show (Function.update (Shim.bo _) i _ j).created = _
      rw [setMem_bo, hbo]
      exact created_update (w := w) (b := { w.bo i with
        gpuVa := arg.vaAddress, gpuProt := vaProt arg.flags }) rfl j
    | false => rw [mapAfresh_false, hbo]
  | unmap arg _ i =>
    show (Function.update (Shim.bo _) i _ j).created = _
    rw [retain_bo]
    exact created_update (w := w) (b := { w.bo i with gpuVa := 0 }) rfl j

/-- A create fills one entry in, or is refused. -/
theorem gemCreate_fills (w : Shim) (arg : GemCreateIn) (alloc : Option Int) :
    (gemCreate w arg alloc).1 ≠ .ok ∧ (gemCreate w arg alloc).2.2 = w ∨
      ∃ i b, (gemCreate w arg alloc).1 = .ok ∧ (gemCreate w arg alloc).2.1 = handleOf i ∧
        (gemCreate w arg alloc).2.2.bo = Function.update w.bo i b ∧
        b.created = some (recorded arg) := by
  unfold gemCreate
  dsimp only
  split
  · exact .inl ⟨nofun, rfl⟩
  · cases freeBo w with
    | none => exact .inl ⟨nofun, rfl⟩
    | some i =>
      cases alloc with
      | none => exact .inl ⟨nofun, rfl⟩
      | some phys => exact .inr ⟨i, createdBo w i arg phys, rfl, rfl, rfl, rfl⟩

/-- A close clears the entry of a live handle, or is refused. -/
theorem gemClose_clears (w : Shim) (handle : UInt32) :
    (gemClose w handle).1 ≠ .ok ∧ (gemClose w handle).2 = w ∨
      ∃ i, (gemClose w handle).1 = .ok ∧ handleOf i = handle ∧
        (gemClose w handle).2.bo = Function.update w.bo i .zero := by
  unfold gemClose
  cases hb : boOf w handle with
  | none => exact .inl ⟨nofun, rfl⟩
  | some i =>
    refine .inr ⟨i, rfl, ?_, ?_⟩
    · exact UInt32.toNat_inj.mp ((handleOf_toNat i).trans (boOf_eq_some.mp hb).1.symm)
    · show Function.update (Shim.bo _) i _ = _
      rw [closePages_bo, closeCpu_bo]

/-- A refused call is not written down. -/
theorem entered_refused {op : Op} {a : Ret × UInt32} (h : a.1 ≠ .ok) :
    entered handle op a = none := by
  obtain ⟨ret, given⟩ := a
  cases ret with
  | ok => exact absurd rfl h
  | err e => cases op <;> rfl

/-- A call is written down as it changed the table. -/
theorem createdAt_step (op : Op) (handle : UInt32) :
    createdAt (step w op) handle =
      (entered handle op (answer w op)).getD (createdAt w handle) := by
  cases op with
  | gemCreate arg alloc =>
    obtain ⟨hret, hw⟩ | ⟨i, b, hret, hgiven, hbo, hb⟩ := gemCreate_fills w arg alloc
    · rw [entered_refused hret, Option.getD_none]
      exact congrArg (createdAt · handle) hw
    · refine (createdAt_update hbo handle).trans ?_
      have ha : answer w (.gemCreate arg alloc) = (.ok, handleOf i) := Prod.ext hret hgiven
      rw [ha, hb]
      unfold entered
      dsimp only
      split <;> rfl
  | gemClose closed =>
    obtain ⟨hret, hw⟩ | ⟨i, hret, rfl, hbo⟩ := gemClose_clears w closed
    · rw [entered_refused hret, Option.getD_none]
      exact congrArg (createdAt · handle) hw
    · refine (createdAt_update hbo handle).trans ?_
      have ha : answer w (.gemClose (handleOf i)) = (.ok, 0) := Prod.ext hret rfl
      rw [ha]
      unfold entered
      dsimp only
      split <;> rfl
  | _ =>
    refine createdAt_congr (step_created ?_ ?_) handle
    · intro arg alloc h
      cases h
    · intro closed h
      cases h

/-! ## Sums -/

/-- The loop that adds up sizes is their sum in 64 bits. -/
theorem foldl_live (w : Shim) (is : List (Fin winsysMaxBo)) (total : UInt64) :
    is.foldl (fun total i => if (w.bo i).live then total + (w.bo i).size else total) total =
      total + UInt64.ofNat
        (is.map fun i => (w.bo i).created.elim 0 fun r => r.boSize.toNat).sum := by
  induction is generalizing total with
  | nil => simp
  | cons i is ih =>
    rw [List.foldl_cons, ih, List.map_cons, List.sum_cons, UInt64.ofNat_add]
    unfold Bo.created
    split
    · rw [Option.elim_some, UInt64.ofNat_toNat, UInt64.add_assoc]
    · rw [Option.elim_none]
      simp

theorem AnswersLedger.of_createdAt (h : ∀ handle, createdAt w handle = openRecord handle past) :
    AnswersLedger past w := by
  have hlive : ∀ {handle i}, boOf w handle = some i →
      openRecord handle past =
        some ⟨(w.bo i).size, (w.bo i).alignment, (w.bo i).domain.toUInt64,
          (w.bo i).domainFlags⟩ := by
    intro handle i hb
    rw [← h, createdAt_of_entry (boOf_eq_some.mp hb).1]
    exact if_pos (boOf_live hb)
  have hdead : ∀ {handle}, boOf w handle = none → openRecord handle past = none := by
    intro handle hb
    rw [← h]
    unfold createdAt
    rw [hb, Option.bind_none]
  have hbytes : boBytesLive w = UInt64.ofNat (openBytes past) := by
    unfold boBytesLive openBytes
    rw [foldl_live, UInt64.zero_add]
    simp only [← h, createdAt_of_entry (handleOf_toNat _)]
  refine ⟨fun handle => ?_, fun handle => ?_, fun handle info => ?_, hbytes, fun size hsize => ?_⟩
  · unfold boIsLive
    cases hb : boOf w handle with
    | none => rw [hdead hb]; rfl
    | some i => rw [hlive hb]; rfl
  · unfold boSize
    cases hb : boOf w handle with
    | none => rw [hdead hb]; rfl
    | some i => rw [hlive hb]; rfl
  · unfold gemOp
    cases hb : boOf w handle with
    | none => rw [hdead hb]; rfl
    | some i => rw [hlive hb]; rfl
  · unfold memoryInfo
    rw [← hbytes]
    have hused : (boBytesLive w).toNat = openBytes past % 2 ^ 64 := by
      rw [hbytes, UInt64.toNat_ofNat']
    rw [← hused]
    generalize boBytesLive w = used
    dsimp only
    rw [if_neg hsize]
    refine ⟨_, rfl, rfl, rfl, rfl, ?_⟩
    dsimp only
    split
    · next hlt => exact UInt64.toNat_sub_of_le _ _ (UInt64.le_of_lt hlt)
    · next hge =>
      rw [UInt64.lt_iff_toNat_lt] at hge
      rw [UInt64.sub_self, Nat.sub_eq_zero_of_le (Nat.not_lt.mp hge)]
      rfl

/-! ## Runs -/

theorem createdAt_init (handle : UInt32) : createdAt .init handle = none := by
  unfold createdAt
  cases boOf .init handle with
  | none => rfl
  | some i => rfl

/-- **The buffer table is the client's ledger.** After any calls, what the queries answer about a
    handle, and about all of memory, is what was created and not closed. -/
theorem ledger_answers (ops : List Op) :
    AnswersLedger (ops.foldl answeredStep (.init, [])).2
      (ops.foldl answeredStep (.init, [])).1 := by
  refine .of_createdAt ?_
  have hreach : Reach answeredStep (fun _ _ => True) (.init, [])
      (ops.foldl answeredStep (.init, [])) := Reach.foldl ops fun _ _ _ => trivial
  exact hreach.invariant
    (P := fun s => ∀ handle, createdAt s.1 handle = openRecord handle s.2)
    createdAt_init fun s op hs _ handle =>
      (createdAt_step op handle).trans (congrArg _ (hs handle))

end OopsMesa.Winsys
