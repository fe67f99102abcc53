/-
  What the shim reads is what the GPU reads.

  The shim looks into command buffers by their GPU addresses: it follows chains, notes progress
  marks, and dumps what does not retire. `oops_winsys_cpu_for_va` gives it a CPU pointer for a GPU
  address, from what the buffer table records. Whether that pointer leads to the bytes the GPU
  fetches is a question about the page table, where the two have their own mappings.

  It does (`reads_what_the_gpu_reads`), in runs that keep pages and whose MAPs map whole buffers,
  as libdrm's do. The recorded ranges are then those of mappings that stand, so no two of them
  share an address, and the buffer found is the only one there is to find.
-/
import OopsMesa.Winsys.Contents
import OopsMesa.Winsys.Pointers

namespace OopsMesa.Winsys

open OopsMesa.Lib

variable {w : Shim} {t : Tracked} {op : Op} {i j : Fin winsysMaxBo} {va bytes p : UInt64}

/-! ## The statement -/

/-- The byte that an address leads to, in direct memory. -/
def readByte (dram : Int → UInt8) (pt : PageTable) (a : UInt64) : Option UInt8 :=
  (pt a).map fun pte => dram pte.phys

/-- From `p` and from `va` on, the `bytes` are there, and the same in any direct memory. -/
def SameBytes (pt : PageTable) (p va bytes : UInt64) : Prop :=
  ∀ k, k < bytes → ∀ dram, ∃ b, readByte dram pt (p + k) = some b ∧
    readByte dram pt (va + k) = some b

/-- A MAP that takes effect maps the buffer as a whole. -/
def MapsWhole (w : Shim) : Op → Prop
  | .gemVa arg mapOk => ∀ i, MapTakesEffect w arg mapOk i →
    mapBytes (w.bo i) arg = (w.bo i).size
  | _ => True

/-- The steps of runs that keep pages and map buffers as wholes. -/
def WholeMaps (t : Tracked) (op : Op) : Prop :=
  PlatformMaps t.shim op ∧ KeepsPages t op ∧ MapsWhole t.shim op

/-- The shim reads what the GPU reads. -/
structure ReadsGpu (t : Tracked) : Prop where
  /-- No two buffers hold an address. -/
  sole : ∀ i j va, (t.shim.bo i).live = true → (t.shim.bo j).live = true →
    holdsVa (t.shim.bo i) va = true → holdsVa (t.shim.bo j) va = true → i = j
  /-- A buffer that the CPU has mapped is found by any address in it. -/
  found : ∀ i va bytes, (t.shim.bo i).live = true → (t.shim.bo i).cpuPtr ≠ 0 →
    holdsVa (t.shim.bo i) va = true →
    va.toNat + bytes.toNat ≤ (t.shim.bo i).gpuVa.toNat + (t.shim.bo i).size.toNat →
    cpuForVa t.shim va bytes = (t.shim.bo i).cpuPtr + (va - (t.shim.bo i).gpuVa)
  /-- A pointer for a range leads to the bytes that the GPU has there. -/
  same : ∀ va bytes, va.toNat + bytes.toNat ≤ 2 ^ 64 → cpuForVa t.shim va bytes ≠ 0 →
    SameBytes t.shim.mem.pageTable (cpuForVa t.shim va bytes) va bytes

/-! ## Whole buffers -/

/-- Where a mapping stands, all of its buffer does. -/
def Whole (t : Tracked) : Prop :=
  ∀ i s, t.standing i = some s → s.2 = (t.shim.bo i).size

/-- A live buffer that is not closed keeps its size. -/
theorem step_size_kept (hlive : (w.bo i).live = true)
    (hopen : ∀ handle, op = .gemClose handle → boOf w handle ≠ some i) :
    ((step w op).bo i).size = (w.bo i).size := by
  obtain ⟨_, _, _, hdead, _⟩ | ⟨handle, hop, hi, _⟩ | ⟨_, hsize⟩ := step_bo_cases (w := w) op i
  · exact nomatch hlive.symm.trans hdead
  · exact absurd hi (hopen handle hop)
  · exact hsize

theorem Steady.standing_live (h : Steady t) {s : UInt64 × UInt64} (hs : t.standing i = some s) :
    (t.shim.bo i).live = true := by
  refine h.live i ?_
  cases ht : t.touched i with
  | true => rfl
  | false => exact nomatch hs.symm.trans (h.untouched i ht).1

/-- A MAP that returns 0 takes effect. -/
theorem mapTakesEffect_of_ok {arg : GemVaArg} {mapOk : Bool} (hmap : mapTarget w arg = some i)
    (hret : (gemVa w arg mapOk).1 = .ok) : MapTakesEffect w arg mapOk i := by
  refine ⟨hmap, ?_⟩
  cases hk : servedBy w i arg.vaAddress (mapBytes (w.bo i) arg) (vaProt arg.flags) with
  | some k => exact .inl rfl
  | none => exact .inr ((gemVa_ret_afresh hmap hk mapOk).mp hret)

theorem Whole.step (h : Whole t) (hs : Steady t) (hop : MapsWhole t.shim op) :
    Whole (trackedStep t op) := by
  intro i s hi
  -- a mapping that stood before is of its buffer, unless that is closed
  have hold (hi : t.standing i = some s)
      (hopen : ∀ handle, op = .gemClose handle → boOf t.shim handle ≠ some i) :
      s.2 = ((Winsys.step t.shim op).bo i).size :=
    (h i s hi).trans (step_size_kept (hs.standing_live hi) hopen).symm
  change standingAfter t.shim t.standing op i = some s at hi
  show s.2 = ((Winsys.step t.shim op).bo i).size
  cases op with
  | gemVa arg mapOk =>
    cases hmap : mapTarget t.shim arg with
    | some j =>
      by_cases hret : (gemVa t.shim arg mapOk).1 = .ok
      · rw [standingAfter_map hmap hret] at hi
        obtain ⟨rfl, rfl⟩ | ⟨-, hst, -⟩ := standAt_eq_some hi
        · have hlive := boOf_live (Option.eq_some_of_filter_eq_some hmap)
          have hopen : ∀ handle, Op.gemVa arg mapOk = .gemClose handle →
              boOf t.shim handle ≠ some i := nofun
          have hwhole := hop i (mapTakesEffect_of_ok hmap hret)
          exact hwhole.trans (step_size_kept hlive hopen).symm
        · exact hold hst nofun
      · rw [standingAfter_refused hmap hret] at hi
        exact hold hi nofun
    | none =>
      cases hunmap : unmapTarget t.shim arg with
      | some j =>
        rw [standingAfter_unmap hunmap] at hi
        exact hold (update_none_eq_some hi).2 nofun
      | none =>
        have hidle : Idle t.shim (.gemVa arg mapOk) := ⟨hmap, hunmap⟩
        rw [standingAfter_idle hidle] at hi
        exact hold hi nofun
  | gemClose handle =>
    cases hclose : boOf t.shim handle with
    | some j =>
      rw [standingAfter_close hclose] at hi
      obtain ⟨hne, hst⟩ := update_none_eq_some hi
      refine hold hst ?_
      rintro _ ⟨⟩ heq
      exact hne (Option.some.inj (heq.symm.trans hclose))
    | none =>
      have hidle : Idle t.shim (.gemClose handle) := hclose
      rw [standingAfter_idle hidle] at hi
      refine hold hi ?_
      rintro _ ⟨⟩ heq
      exact nomatch heq.symm.trans hclose
  | _ => exact hold hi nofun

/-! ## The page table -/

theorem Steady.stands_whole (h : Steady t) (hwhole : Whole t) (hva : (t.shim.bo i).gpuVa ≠ 0) :
    t.standing i = some ((t.shim.bo i).gpuVa, (t.shim.bo i).size) := by
  obtain ⟨size, hsize⟩ := h.stands i hva
  rw [hsize, ← hwhole i _ hsize]

theorem gpuVa_ne_zero {bo : Bo} (h : holdsVa bo va = true) : bo.gpuVa ≠ 0 := by
  intro hzero
  have hpos := (holdsVa_iff h).1
  rw [hzero] at hpos
  exact absurd hpos (by decide)

/-- An address in a buffer is in the span of its mapping. -/
theorem inSpan_of_holdsVa {bo : Bo} (h : holdsVa bo va = true) : InSpan bo.gpuVa bo.size va := by
  obtain ⟨-, hge, hlt, -⟩ := holdsVa_iff h
  unfold InSpan
  rw [UInt64.lt_iff_toNat_lt, offset_toNat h]
  omega

theorem Steady.sole (h : Steady t) (hwhole : Whole t) (hi : holdsVa (t.shim.bo i) va = true)
    (hj : holdsVa (t.shim.bo j) va = true) : i = j := by
  by_contra hne
  have hkept : Kept _ _ := h.kept
  have hlease {k : Fin winsysMaxBo} (hk : holdsVa (t.shim.bo k) va = true) :
      ∃ l : Lease Pte, bufferLeases t.shim t.standing (.gpu k) = some l ∧
        InSpan l.base l.size va := by
    have hstands := h.stands_whole hwhole (gpuVa_ne_zero hk)
    exact ⟨_, Option.map_eq_some_iff.mpr ⟨_, hstands, rfl⟩, inSpan_of_holdsVa hk⟩
  obtain ⟨l, hl, hinl⟩ := hlease hi
  obtain ⟨m, hm, hinm⟩ := hlease hj
  have hapart := hkept.apart (.gpu i) (.gpu j) l m (by simpa using hne) hl hm
  exact hapart va hinl hinm

theorem Steady.found (h : Steady t) (hwhole : Whole t) (hlive : (t.shim.bo i).live = true)
    (hcpu : (t.shim.bo i).cpuPtr ≠ 0) (hholds : holdsVa (t.shim.bo i) va = true) :
    cpuForVaTarget t.shim va = some i := by
  refine firstIdx_eq_some ?_ fun j hji => ?_
  · simp [hlive, hcpu, hholds]
  · rw [Bool.and_eq_false_iff]
    right
    by_contra hj
    exact hji.ne (h.sole hwhole (eq_true_of_ne_false hj) hholds)

private theorem offset_of_gpu (va k base : UInt64) : va + k - base = va - base + k := by grind

private theorem offset_of_cpu (cpu off k : UInt64) : cpu + off + k - cpu = off + k := by grind

/-- Both mappings of a buffer lead to its pages. -/
theorem Steady.sameBytes (h : Steady t) (hwhole : Whole t) (hlive : (t.shim.bo i).live = true)
    (hcpu : (t.shim.bo i).cpuPtr ≠ 0) (hholds : holdsVa (t.shim.bo i) va = true)
    (hin : va.toNat + bytes.toNat ≤ (t.shim.bo i).gpuVa.toNat + (t.shim.bo i).size.toNat) :
    SameBytes t.shim.mem.pageTable ((t.shim.bo i).cpuPtr + (va - (t.shim.bo i).gpuVa)) va
      bytes := by
  intro k hk dram
  have hkeeps : KeepsContents t t i := h.keepsContents hlive rfl
  have hoff := offset_toNat hholds
  have hspan : va - (t.shim.bo i).gpuVa + k < (t.shim.bo i).size := by
    have hsize := (t.shim.bo i).size.toNat_lt
    have hbase := (holdsVa_iff hholds).2.1
    rw [UInt64.lt_iff_toNat_lt] at hk ⊢
    rw [toNat_add_of_lt (by omega), hoff]
    omega
  obtain ⟨prot, hgpu⟩ := hkeeps.gpu _ _ (h.stands_whole hwhole (gpuVa_ne_zero hholds)) (va + k)
    (by unfold InSpan; rw [offset_of_gpu]; exact hspan)
  obtain ⟨prot', hptr⟩ := hkeeps.cpu hcpu ((t.shim.bo i).cpuPtr + (va - (t.shim.bo i).gpuVa) + k)
    (by unfold InSpan; rw [offset_of_cpu]; exact hspan)
  refine ⟨dram (pageOf (t.shim.bo i).phys prot (va - (t.shim.bo i).gpuVa + k)).phys, ?_, ?_⟩
  · unfold readByte
    rw [hptr, offset_of_cpu]
    rfl
  · unfold readByte
    rw [hgpu, offset_of_gpu]
    rfl

theorem Steady.readsGpu (h : Steady t) (hwhole : Whole t) : ReadsGpu t where
  sole i j va _ _ hi hj := h.sole hwhole hi hj
  found i va bytes hlive hcpu hholds hin := by
    have ht := h.found hwhole hlive hcpu hholds
    rw [cpuForVa_some ht]
    exact if_neg ((cpuForVa_passes bytes ht).mpr (.inr hin))
  same va bytes htop hne := by
    cases ht : cpuForVaTarget t.shim va with
    | none => exact absurd (cpuForVa_none ht) hne
    | some i =>
      obtain ⟨hlive, hcpu, hholds⟩ := cpuForVaTarget_spec ht
      have hfits : OffsetFits (t.shim.bo i) va bytes := by
        have hoff := offset_toNat hholds
        have hbase := holdsVa_iff hholds
        unfold OffsetFits
        omega
      rw [cpuForVa_some ht] at hne ⊢
      split at hne
      · exact absurd rfl hne
      · next hlarge =>
        rw [if_neg hlarge]
        exact h.sameBytes hwhole hlive hcpu hholds
          (((cpuForVa_passes bytes ht).mp hlarge).resolve_left (not_not_intro hfits))

theorem steady_whole (h : Reach trackedStep WholeMaps .init t) : Steady t ∧ Whole t :=
  h.invariant (P := fun t => Steady t ∧ Whole t) ⟨Steady.init, fun _ _ hs => nomatch hs⟩
    fun _ _ ht hop => ⟨ht.1.step hop.1 hop.2.1, ht.2.step ht.1 hop.2.2⟩

/-- **The shim reads what the GPU reads.** After any calls that keep pages and map buffers as
    wholes, a CPU pointer for a range of GPU addresses leads to the bytes that are there for the
    GPU, and there is one wherever a buffer that the CPU has mapped is. -/
theorem reads_what_the_gpu_reads (h : Reach trackedStep WholeMaps .init t) : ReadsGpu t := by
  obtain ⟨hsteady, hwhole⟩ := steady_whole h
  exact hsteady.readsGpu hwhole

/-- A page, mapped at a GPU address and then for the CPU. -/
def mappedPage : Tracked :=
  [createOnePage 0, wholeAt 1 vaOpMap 0x400000000,
    .boCpuRange 1 0 4 (some 0x200000000)].foldl trackedStep .init

theorem mappedPage_reach : Reach trackedStep WholeMaps .init mappedPage := by
  let map : GemVaArg := ⟨1, vaOpMap, 6, 0x400000000, 0, 0⟩
  let s := trackedStep .init (createOnePage 0)
  let u := trackedStep s (.gemVa map true)
  have htarget : mapTarget s.shim map = some 0 := by decide +kernel
  have hserved : servedBy s.shim 0 map.vaAddress (mapBytes (s.shim.bo 0) map)
      (vaProt map.flags) = none := by decide +kernel
  have hempty : s.shim.mem.pageTable = fun _ => none := create_init_pageTable
  have hwhole : MapsWhole s.shim (.gemVa map true) := fun _ _ => rfl
  have hrange : PlatformMaps u.shim (.boCpuRange 1 0 4 (some 0x200000000)) := by
    have hcall : cpuCall u.shim (.boCpuRange 1 0 4 (some 0x200000000)) =
        some (0, some 0x200000000) := by decide +kernel
    intro i v hi _
    obtain ⟨rfl, hv⟩ := Prod.mk.inj (Option.some.inj (hi.symm.trans hcall))
    obtain rfl := Option.some.inj hv
    refine ⟨by decide, fun a ha => ?_⟩
    -- only the MAP has written the page table
    have hapart : Apart 0x200000000 (u.shim.bo 0).size map.vaAddress (mapBytes (s.shim.bo 0) map) :=
      apart_of_not_meet (by decide +kernel)
    have hshim : u.shim = (mapAfresh s.shim 0 map.vaAddress (mapBytes (s.shim.bo 0) map)
        (vaProt map.flags) true).2 := by
      show (gemVa s.shim map true).2 = _
      rw [gemVa_of_mapTarget htarget, hserved]
    have hnone : ∀ k m, leases s.shim k = some m → ¬ InSpan m.base m.size a := fun k m hm =>
      nomatch (create_init_leases : leases s.shim k = none).symm.trans hm
    rw [hshim, mapAfresh_pageTable hnone fun _ => hapart a ha, hempty]
  have hs : Reach trackedStep WholeMaps .init s :=
    Reach.refl.tail (createOnePage 0) ⟨.of_no_cpuCall rfl, trivial, trivial⟩
  have hu : Reach trackedStep WholeMaps .init u :=
    hs.tail (.gemVa map true) ⟨.of_no_cpuCall rfl, keepsPages_first, hwhole⟩
  have hcpu : WholeMaps u (.boCpuRange 1 0 4 (some 0x200000000)) := ⟨hrange, trivial, trivial⟩
  exact hu.tail _ hcpu

theorem mappedPage_ptr : cpuForVa mappedPage.shim 0x400000010 16 = 0x200000010 := by
  decide +kernel

theorem reads_what_the_gpu_reads_page :
    SameBytes mappedPage.shim.mem.pageTable 0x200000010 0x400000010 16 := by
  have hread : ReadsGpu mappedPage := reads_what_the_gpu_reads mappedPage_reach
  have hsame := hread.same 0x400000010 16 (by decide) (by rw [mappedPage_ptr]; decide)
  rwa [mappedPage_ptr] at hsame

end OopsMesa.Winsys
