/-
  What the CPU could have written is flushed before the GPU reads it.

  `oops_winsys_cs` flushes once, before it hands anything over. The flush walks the live buffers
  that have a CPU mapping, a cache line at a time; the mapping GEM_VA made is not walked, on the
  ground that a buffer the CPU never mapped carries no CPU writes. But GEM_VA maps a range for the
  CPU as well as for the GPU, and with the same protection.

  So a buffer that the CPU writes through its GPU address is flushed only if it has a CPU mapping
  too, leading to the same pages (`cpu_writes_flushed`); without one, none of its lines are
  (`not_cpu_writes_flushed`).
-/
import OopsMesa.Submit.Parts
import OopsMesa.Winsys.CpuMaps

namespace OopsMesa.Submit

open OopsMesa.Lib OopsMesa.Winsys

/-! ## The flush -/

/-- The loop over a buffer: its lines from `cpu_ptr` on. A size is whole pages, so `off += 64`
    does not wrap. -/
def flushBo (bo : Bo) : List UInt64 :=
  if !bo.live || bo.cpuPtr == 0 then []
  else (List.range ((bo.size.toNat + 63) / 64)).map fun k => bo.cpuPtr + UInt64.ofNat (64 * k)

/-- `oops_winsys_flush_cpu_writes`: the addresses of its `clflush`es, in order. -/
def flushCpuWrites (w : Shim) : List UInt64 :=
  (List.finRange winsysMaxBo).flatMap fun i => flushBo (w.bo i)

/-- The statics of buffers.c, and the lines flushed so far. -/
structure Flushing where
  shim : Shim
  flushed : List UInt64

/-- `mark_add`'s lookup, which may give a buffer its CPU mapping. -/
def noteMark (w : Shim) (mark : UInt64 × Option UInt64) : Shim := (cpuMapVa w mark.1 4 mark.2).2

/-- What the calls of submit.c do there. Which marks are noted depends on the stream, and there
    are none unless tracing is on. -/
def Flushing.act : (e : Call) → Flushing → Answer e → Flushing → Prop
  | .flushCpuWrites, s, _, s' => s' = { s with flushed := s.flushed ++ flushCpuWrites s.shim }
  | .noteMarks _ _, s, _, s' =>
    ∃ marks : List (UInt64 × Option UInt64), s' = { s with shim := marks.foldl noteMark s.shim }
  | .boCpuRange handle offset bytes, s, slot, s' =>
    ∃ map w', boCpuRange s.shim handle offset bytes map = (slot, w') ∧ s' = { s with shim := w' }
  | _, s, _, s' => s' = s

/-! ## The statement -/

/-- The CPU can write the buffer: by its CPU mapping, or by the range GEM_VA mapped. -/
def CpuWritable (bo : Bo) : Prop :=
  bo.live = true ∧ (bo.cpuPtr ≠ 0 ∨ bo.gpuVa ≠ 0 ∧ bo.gpuProt.cpuWrite = true)

/-- A line that holds the physical byte, at some address of it, was flushed. -/
def LineFlushed (t : PageTable) (flushed : List UInt64) (phys : Int) : Prop :=
  ∃ line ∈ flushed, ∃ a e, a.toNat / 64 = line.toNat / 64 ∧ t a = some e ∧ e.phys = phys

/-- Whenever a call made in the state hands a stream over, it has flushed every byte that the CPU
    could have written. -/
def FlushesCpuWrites (w : Shim) : Prop :=
  ∀ sym arg st role dcb k s,
    Prog.Interleave Flushing.act (fun _ _ => False) (cs sym arg st) ⟨w, []⟩
      (.call (.submit role dcb) k) s →
    ∀ i, CpuWritable (w.bo i) → ∀ off, off < (w.bo i).size.toNat →
      LineFlushed w.mem.pageTable s.flushed ((w.bo i).phys + off)

/-! ## When the flush is made -/

variable {sym : Symbols} {st : Statics} {w : Shim} {s s' : Flushing} {i : Fin winsysMaxBo}

/-- Lines once flushed stay so. -/
theorem act_flushed {e : Call} {x : Answer e} (h : Flushing.act e s x s') :
    ∃ more, s'.flushed = s.flushed ++ more := by
  unfold Flushing.act at h
  split at h
  · exact ⟨_, congrArg Flushing.flushed h⟩
  · obtain ⟨marks, h⟩ := h
    exact ⟨[], by rw [h, List.append_nil]⟩
  · obtain ⟨map, w', -, h⟩ := h
    exact ⟨[], by rw [h, List.append_nil]⟩
  · exact ⟨[], by rw [h, List.append_nil]⟩

/-- Setting the queue up leaves buffers.c alone. -/
theorem Call.SetsUp.act_eq {e : Call} {x : Answer e} (he : e.SetsUp) (h : Flushing.act e s x s') :
    s' = s := by
  cases e <;> first | exact h | exact he.elim

/-- The flush comes before the first stream. -/
theorem flushed_before_submit {arg : CsIn} {role : Role} {dcb : Dcb}
    {k : Int32 → Submission ((Ret × UInt64) × Statics)}
    (h : Prog.Interleave Flushing.act (fun _ _ => False) (cs sym arg st) ⟨w, []⟩
      (.call (.submit role dcb) k) s) : flushCpuWrites w ⊆ s.flushed := by
  let pre : Call → Flushing → Prop := fun e s =>
    (∃ role dcb, e = .submit role dcb) → flushCpuWrites w ⊆ s.flushed
  have hno : ∀ P : Flushing → Prop, Prog.Stable (fun _ _ : Flushing => False) P :=
    fun _ _ _ _ h => h.elim
  -- once the lines are flushed, whatever the call still does may be done
  have hrest : ∀ (p : Submission ((Ret × UInt64) × Statics)) (s : Flushing),
      flushCpuWrites w ⊆ s.flushed →
      Prog.wp Flushing.act (fun _ _ => False) pre p (fun _ _ => True) s := by
    intro p s hs
    refine Prog.wp_mono (Prog.wp_makes (P := fun _ => True) (Prog.makes_any p) (hno _) hs
      (fun _ _ _ hs _ => hs) fun e s x s' _ hs hact => ?_) fun _ _ _ => trivial
    obtain ⟨more, hmore⟩ := act_flushed hact
    rw [hmore]
    exact List.subset_append_of_subset_left more hs
  have hret : ∀ (r : (Ret × UInt64) × Statics) (s : Flushing),
      Prog.wp Flushing.act (fun _ _ => False) pre (.ret r) (fun _ _ => True) s :=
    fun _ _ => Prog.wp_ret (hno _) trivial
  have hcs : Prog.wp Flushing.act (fun _ _ => False) pre (cs sym arg st) (fun _ _ => True)
      ⟨w, []⟩ := by
    unfold cs
    refine Prog.wp_seq (Prog.wp_makes (T := fun s => s.shim = w) makes_ensureQueue (hno _) rfl
      ?_ ?_) ?_
    · rintro e s he - ⟨role, dcb, rfl⟩
      exact he.elim
    · intro e s x s' he hs hact
      rw [he.act_eq hact]
      exact hs
    · rintro ⟨ready, st'⟩ s ⟨-, hs⟩
      dsimp only
      split
      · exact hret _ _
      · split
        · exact hret _ _
        · exact hret _ _
        · refine Prog.wp_call (P := fun s => s.shim = w) (hno _) hs (fun _ _ => nofun) ?_
          intro _ s s₁ hs hact
          have hs₁ : s₁.shim = w := (congrArg Flushing.shim hact).trans hs
          refine Prog.wp_call (P := fun s => s.shim = w) (hno _) hs₁ (fun _ _ => nofun) ?_
          intro _ s₁ s₂ hs₁ hact
          refine hrest _ s₂ ?_
          rw [congrArg Flushing.flushed hact, ← hs₁]
          exact List.subset_append_right _ _
  exact h.asserts hcs ⟨role, dcb, rfl⟩

/-! ## What it reaches -/

theorem mem_flushCpuWrites (hlive : (w.bo i).live = true) (h0 : (w.bo i).cpuPtr ≠ 0) {k : Nat}
    (hk : k < ((w.bo i).size.toNat + 63) / 64) :
    (w.bo i).cpuPtr + UInt64.ofNat (64 * k) ∈ flushCpuWrites w := by
  refine List.mem_flatMap.mpr ⟨i, List.mem_finRange i, ?_⟩
  have hwalked : (!(w.bo i).live || (w.bo i).cpuPtr == 0) = false := by simp [hlive, h0]
  unfold flushBo
  rw [hwalked]
  exact List.mem_map.mpr ⟨k, List.mem_range.mpr hk, rfl⟩

/-- Every byte of a CPU mapping that is in place is on a line flushed. -/
theorem lineFlushed_of_mapped (h : CpuKept w) (hlive : (w.bo i).live = true)
    (h0 : (w.bo i).cpuPtr ≠ 0) {off : Nat} (hoff : off < (w.bo i).size.toNat) :
    LineFlushed w.mem.pageTable (flushCpuWrites w) ((w.bo i).phys + off) := by
  have hlease := cpuLease_of_live hlive h0
  have haligned : (w.bo i).cpuPtr.toNat % 64 = 0 := h.aligned i _ hlease
  have hsize : (w.bo i).size.toNat < 2 ^ 64 := (w.bo i).size.toNat_lt
  have hptr : (w.bo i).cpuPtr.toNat < 2 ^ 64 := (w.bo i).cpuPtr.toNat_lt
  have hback : ((w.bo i).cpuPtr + UInt64.ofNat off) - (w.bo i).cpuPtr = UInt64.ofNat off := by
    grind
  have hin : InSpan (w.bo i).cpuPtr (w.bo i).size ((w.bo i).cpuPtr + UInt64.ofNat off) := by
    rw [InSpan, hback, UInt64.lt_iff_toNat_lt, UInt64.toNat_ofNat']
    omega
  have hk : off / 64 < ((w.bo i).size.toNat + 63) / 64 := by omega
  refine ⟨_, mem_flushCpuWrites hlive h0 hk, _, _, ?_, h.kept.backed i _ hlease _ hin, ?_⟩
  · simp only [UInt64.toNat_add, UInt64.toNat_ofNat']
    omega
  · show (w.bo i).phys + _ = _
    rw [hback, UInt64.toNat_ofNat']
    omega

/-- **What the CPU could have written is flushed**, where the CPU mappings were left in place and
    what GEM_VA maps for writing has one. -/
theorem cpu_writes_flushed
    (h : Reach step (fun w op => PlatformMaps w op ∧ PlatformAligns w op ∧ LeavesCpu w op) .init w)
    (hmapped : ∀ i, (w.bo i).live = true → (w.bo i).gpuVa ≠ 0 → (w.bo i).gpuProt.cpuWrite = true →
      (w.bo i).cpuPtr ≠ 0) : FlushesCpuWrites w := by
  intro sym arg st role dcb k s hrun i hwritable off hoff
  have h0 : (w.bo i).cpuPtr ≠ 0 :=
    hwritable.2.elim id fun hva => hmapped i hwritable.1 hva.1 hva.2
  obtain ⟨line, hline, haddr⟩ := lineFlushed_of_mapped (cpu_kept h) hwritable.1 h0 hoff
  exact ⟨line, flushed_before_submit hrun hline, haddr⟩

/-! ## Runs with one buffer -/

/-- No entry but `i` is in use. -/
private def OnlyAt (i : Fin winsysMaxBo) (w : Shim) : Prop := ∀ j, j ≠ i → w.bo j = .zero

private theorem OnlyAt.step {i : Fin winsysMaxBo} {op : Op} (h : OnlyAt i w)
    (ht : opTarget w op = some i) : OnlyAt i (step w op) := by
  intro j hj
  rw [step_bo_of_ne, h j hj]
  rw [ht]
  exact fun heq => hj (Option.some.inj heq).symm

private theorem onlyAt_init {i : Fin winsysMaxBo} : OnlyAt i .init := fun _ _ => rfl

/-- A buffer of one page. -/
private def createFirst : Op := .gemCreate ⟨0x4000, 0x4000, 4, 0⟩ (some 0)

/-- Its CPU mapping. -/
private def mmapFirst : Op := .mmap 0x4000 0x4000 (some 0x700000000)

/-- The whole of it mapped for the GPU, readable and writeable. -/
private def mapFirst : Op := .gemVa ⟨1, vaOpMap, 6, 0x400000000, 0, 0⟩ true

/-- An instruction buffer of four dwords. -/
private def oneIb : CsIn := ⟨1, some [some (.ib (some ⟨0x400000000, 16⟩))]⟩

/-- Every call answered by `accepting`, and the flush made. -/
private def Flushing.reply : (e : Call) → Flushing → Option (Answer e × Flushing)
  | .flushCpuWrites, s => some ((), { s with flushed := s.flushed ++ flushCpuWrites s.shim })
  | .boCpuRange _ _ _, _ => none
  | e, s => some (accepting e, s)

private theorem act_of_flushingReply (e : Call) (s : Flushing) (x : Answer e) (s' : Flushing)
    (h : Flushing.reply e s = some (x, s')) : Flushing.act e s x s' := by
  cases e <;> cases h <;> first | rfl | exact ⟨[], rfl⟩

/-- The buffer mapped for the GPU, and not for the CPU. -/
private def gpuOnly : Shim := run .init [createFirst, mapFirst]

/-- The first call, its one stream about to be handed over. -/
private theorem reaches_submit :
    ∃ k, Prog.Interleave Flushing.act (fun _ _ => False) (cs .all oneIb .init) ⟨gpuOnly, []⟩
      (.call (.submit .buffer ⟨0x400000000, 4⟩) k) ⟨gpuOnly, [] ++ flushCpuWrites gpuOnly⟩ := by
  let moves : List (Prog.Move Answer Flushing) := List.replicate 9 (.answer Flushing.reply)
  have hmoves : ∀ m ∈ moves, m.Allowed Flushing.act (fun _ _ => False) := by
    intro m hm
    rw [List.eq_of_mem_replicate hm]
    exact act_of_flushingReply
  exact ⟨_, Prog.interleave_drive hmoves .refl rfl⟩

theorem cpu_writes_flushed_mapped :
    FlushesCpuWrites (run .init [createFirst, mmapFirst, mapFirst]) := by
  let ok (w : Shim) (op : Op) : Prop := PlatformMaps w op ∧ PlatformAligns w op ∧ LeavesCpu w op
  let u := step .init createFirst
  let v := step u mmapFirst
  let w := step v mapFirst
  have hu : OnlyAt 0 u := onlyAt_init.step (by decide +kernel)
  have hv : OnlyAt 0 v := hu.step (by decide +kernel)
  have hw : OnlyAt 0 w := hv.step (by decide +kernel)
  have hcreate : ok .init createFirst :=
    ⟨.of_no_cpuCall rfl, nofun, trivial, nofun⟩
  have hmmap : ok u mmapFirst := by
    have hcall : cpuCall u mmapFirst = some (0, some 0x700000000) := by decide +kernel
    refine ⟨.of_empty hcall (by decide) create_init_pageTable, .of_cpuCall hcall (by decide),
      trivial, fun i a _ _ k m hm => ?_⟩
    have hnone : leases u k = none := create_init_leases
    cases hnone.symm.trans hm
  have hmap : ok v mapFirst := by
    refine ⟨.of_no_cpuCall rfl, nofun, ⟨?_, ?_⟩, nofun⟩
    · intro i hi j l hl
      have ht : mapTarget v ⟨1, vaOpMap, 6, 0x400000000, 0, 0⟩ = some 0 := by decide +kernel
      obtain rfl : i = 0 := Option.some.inj (hi.1.symm.trans ht)
      rcases Decidable.em (j = 0) with rfl | hj
      · obtain ⟨-, -, rfl⟩ := cpuLease_eq_some hl
        exact apart_of_not_meet (by decide +kernel)
      · rw [hv j hj] at hl
        cases hl
    · intro i hi
      have ht : unmapTarget v ⟨1, vaOpMap, 6, 0x400000000, 0, 0⟩ = none := by decide +kernel
      cases hi.symm.trans ht
  have hreach : Reach step ok .init w :=
    ((Reach.refl.tail createFirst hcreate).tail mmapFirst hmmap).tail mapFirst hmap
  refine cpu_writes_flushed hreach fun i hlive _ _ => ?_
  rcases Decidable.em (i = 0) with rfl | hi
  · decide +kernel
  · change (w.bo i).live = true at hlive
    rw [hw i hi] at hlive
    cases hlive

/-- **A buffer without a CPU mapping is not flushed.** The CPU writes it through its GPU address,
    as GEM_VA has it, and the stream is handed over with none of its lines flushed. -/
theorem not_cpu_writes_flushed :
    ¬ ∀ w, Reach step (fun w op => PlatformMaps w op ∧ PlatformAligns w op) .init w →
      FlushesCpuWrites w := by
  intro h
  have hu : OnlyAt 0 (step .init createFirst) := onlyAt_init.step (by decide +kernel)
  have hw : OnlyAt 0 gpuOnly := hu.step (show opTarget _ mapFirst = some 0 by decide +kernel)
  have hreach : Reach step (fun w op => PlatformMaps w op ∧ PlatformAligns w op) .init gpuOnly :=
    (Reach.refl.tail createFirst ⟨.of_no_cpuCall rfl, nofun⟩).tail mapFirst
      ⟨.of_no_cpuCall rfl, nofun⟩
  have hnone : flushCpuWrites gpuOnly = [] := by
    refine List.flatMap_eq_nil_iff.mpr fun i _ => ?_
    rcases Decidable.em (i = 0) with rfl | hi
    · decide +kernel
    · rw [hw i hi]
      rfl
  obtain ⟨k, hrun⟩ := reaches_submit
  have hwritable : CpuWritable (gpuOnly.bo 0) :=
    ⟨by decide +kernel, .inr ⟨by decide +kernel, by decide +kernel⟩⟩
  obtain ⟨line, hline, -⟩ :=
    h gpuOnly hreach _ _ _ _ _ k _ hrun 0 hwritable 0 (by decide +kernel)
  rw [hnone] at hline
  cases hline

end OopsMesa.Submit
