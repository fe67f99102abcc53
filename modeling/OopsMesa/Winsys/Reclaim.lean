/-
  Pages are given back when nothing reaches them.

  A free call returns a block to the platform while the page table is what it is; the claim is
  that no address of it leads into the block. That rests on the two invariants before this one:
  every block has one owner, and every translation leads where a record says. A record over the
  block would be its owner's or an alias, and both free paths of the shim clear the one and look
  for the other. The third, a MAP that takes a closed buffer's range over, does not look, and
  for it the condition is `TakesOverCleanly` again. A client that maps, unmaps and maps elsewhere
  is enough to break it (`not_pages_unreached`).
-/
import OopsMesa.Winsys.Coverage
import OopsMesa.Winsys.Ownership

namespace OopsMesa.Winsys

open OopsMesa.Lib

variable {w w' : Shim} {i : Fin winsysMaxBo} {k : Fin winsysMaxRetained}

/-- A free call returns a block that no address leads into. -/
def FreeCall.Unreached (f : FreeCall) : Prop :=
  ∀ a e, f.pageTable a = some e → ¬ (f.phys ≤ e.phys ∧ e.phys < f.phys + f.size.toNat)

/-- At every free call so far, neither the GPU nor the CPU reached the block given back. -/
def PagesUnreached (w : Shim) : Prop := ∀ f ∈ w.mem.frees, f.Unreached

/-- What the client promises: it maps a buffer while that is unmapped, as a whole, at a non-zero
    address and over no other live buffer's range, and unmaps it at the address it mapped. -/
def WellBehaved (w : Shim) : Op → Prop
  | .gemVa arg _ => ∀ i, boOf w arg.handle = some i →
    (arg.operation = vaOpMap →
      (w.bo i).gpuVa = 0 ∧
        (arg.mapSize = 0 ∨ roundUpPage arg.mapSize = (w.bo i).size) ∧
        arg.vaAddress ≠ 0 ∧
        ∀ j, j ≠ i → (w.bo j).live = true → (w.bo j).gpuVa ≠ 0 →
          Apart arg.vaAddress (w.bo i).size (w.bo j).gpuVa (w.bo j).size) ∧
      (arg.operation = vaOpUnmap → arg.vaAddress = (w.bo i).gpuVa)
  | _ => True

/-! ## A block no record leads into -/

/-- The range of a record over a block that is not `p` does not lead into the block at `p`. -/
private theorem Owned.outside (h : Owned w) {p q : Int} {n m off : UInt64} {prot : Prot} {e : Pte}
    (hp : w.mem.blocks p = some n) (hq : w.mem.blocks q = some m) (hne : q ≠ p) (hoff : off < m)
    (he : e = pageOf q prot off) : ¬ (p ≤ e.phys ∧ e.phys < p + n.toNat) := by
  have hap := h.apart q p m n hq hp hne
  have hlt : off.toNat < m.toNat := UInt64.lt_iff_toNat_lt.mp hoff
  subst he
  simp only [pageOf]
  omega

/-- When every record over the block at `p` is cleared, no address leads into it. -/
theorem Owned.unreached (h : Owned w) (hr : Recorded Eq w) {p : Int} {n : UInt64}
    (hp : w.mem.blocks p = some n)
    (hgpu : ∀ i, (w.bo i).live = true → (w.bo i).phys = p → (w.bo i).gpuVa = 0)
    (hcpu : ∀ i a, (w.bo i).live = true → (w.bo i).phys = p → (w.bo i).cpuPtr ≠ 0 →
      InSpan (w.bo i).cpuPtr (w.bo i).size a → w.mem.pageTable a = none)
    (hret : ∀ k a, (w.retained k).used = true → (w.retained k).phys = p →
      InSpan (w.retained k).va (w.retained k).size a → w.mem.pageTable a = none) :
    FreeCall.Unreached ⟨p, n, w.mem.pageTable, w.mem.blocks⟩ := by
  intro a e he
  obtain ⟨o, l, hl, hin, hval⟩ := hr a e he
  cases o with
  | gpu i =>
    obtain ⟨hlive, hg, rfl⟩ := gpuLease_eq_some hl
    have hblock := h.custody.sound _ _ _ (ownedBlock_of_live hlive)
    exact h.outside hp hblock (fun heq => hg (hgpu i hlive heq)) hin hval
  | cpu i =>
    obtain ⟨hlive, hc, rfl⟩ := cpuLease_eq_some hl
    have hblock := h.custody.sound _ _ _ (ownedBlock_of_live hlive)
    refine h.outside hp hblock (fun heq => ?_) hin hval
    cases (hcpu i a hlive heq hc hin).symm.trans he
  | retained k =>
    obtain ⟨hused, rfl⟩ := used_of_leases hl
    refine h.outside hp (h.named k hused) (fun heq => ?_) hin hval
    cases (hret k a hused heq hin).symm.trans he

/-! ## The invariant -/

/-- Every block owned, every translation where a record says, and no block given back early. -/
structure Reclaimed (w : Shim) : Prop where
  owned : Owned w
  recorded : Recorded Eq w
  unreached : PagesUnreached w

theorem Reclaimed.init : Reclaimed .init where
  owned := .init
  recorded _ _ h := nomatch h
  unreached _ h := nomatch h

/-- The free call a release makes, if it makes one. -/
theorem mem_frees_retainedRelease {f : FreeCall} (h : f ∈ (retainedRelease w k).mem.frees) :
    f ∈ w.mem.frees ∨ (w.retained k).ownsPhys = true ∧ handOn w k = none ∧
      f = ⟨(w.retained k).phys, (w.retained k).size,
        unmapSpan w.mem.pageTable (w.retained k).va (w.retained k).size, w.mem.blocks⟩ := by
  unfold retainedRelease at h
  rw [retainedDrop_mem] at h
  unfold releasePages at h
  split at h
  · next ho =>
    split at h
    · exact .inl h
    · next hh =>
      rcases List.mem_cons.mp h with rfl | h
      · exact .inr ⟨ho, hh, rfl⟩
      · exact .inl h
  · exact .inl h

/-- A release gives a block back after clearing the range, when nothing else is over it. -/
theorem Reclaimed.release (h : Reclaimed w) (hk : (w.retained k).used = true) :
    Reclaimed (retainedRelease w k) := by
  refine ⟨h.owned.release hk, h.recorded.release hk, fun f hf => ?_⟩
  rcases mem_frees_retainedRelease hf with hf | ⟨ho, hnone, rfl⟩
  · exact h.unreached f hf
  · let v := w.setMem (w.mem.unmap (w.retained k).va (w.retained k).size)
    have hv : Owned v := h.owned.congr (ownedBlock_congr rfl rfl) rfl rfl rfl
    have hr : Recorded Eq v := Accounted.sub h.recorded fun a e he => (of_unmapSpan_eq_some he).2
    have hnotlive : ∀ i, (w.bo i).live = true → (w.bo i).phys ≠ (w.retained k).phys := by
      intro i hlive heq
      have := h.owned.ownsPhys_false hlive hk heq.symm
      rw [ho] at this
      cases this
    refine hv.unreached hr (h.owned.named k hk) ?_ ?_ ?_
    · exact fun i hlive heq => absurd heq (hnotlive i hlive)
    · exact fun i a hlive heq => absurd heq (hnotlive i hlive)
    · intro l a hl heq hin
      by_cases hlk : l = k
      · subst hlk
        exact unmapSpan_of_inSpan hin
      · exact absurd heq (handOn_none hnone hlk hl)

theorem Releases.reclaimed (h : Releases w w') (hw : Reclaimed w) : Reclaimed w' :=
  h.invariant hw fun _ _ hv hk => hv.release hk

/-- Retaining a range gives back what its evictions give back. -/
theorem Reclaimed.retain_frees (h : Reclaimed w) {va size : UInt64} {phys : Int} {prot : Prot}
    {owns : Bool} : PagesUnreached (retain w va size phys prot owns) := by
  obtain ⟨v, k, hrel, -, heq⟩ := retain_eq (w := w) va size phys prot owns
  rw [heq]
  exact (hrel.reclaimed h).unreached

/-- CLOSE of an unmapped buffer gives its block back when nothing is retained over it. -/
theorem Reclaimed.close_frees (h : Reclaimed w) (hlive : (w.bo i).live = true) :
    PagesUnreached (closePages (closeCpu w i) i) := by
  have hcleared := fun a h0 hin => closeCpu_cleared (w := w) (i := i) (a := a) h0 hin
  have hv : Reclaimed (closeCpu w i) := by
    refine ⟨h.owned.closeCpu, h.recorded.closeCpu, ?_⟩
    unfold closeCpu
    split <;> exact h.unreached
  rw [← closeCpu_bo (w := w) (i := i)] at hlive hcleared
  generalize closeCpu w i = v at hv hlive hcleared ⊢
  by_cases hg : (v.bo i).gpuVa = 0
  · rw [closePages_unmapped hg]
    cases ha : adopter v (v.bo i).phys with
    | some l => exact hv.unreached
    | none =>
      have hown := ownedBlock_of_live hlive
      have honly : ∀ j, (v.bo j).live = true → (v.bo j).phys = (v.bo i).phys → j = i := by
        intro j hj heq
        have hj' := ownedBlock_of_live hj
        rw [heq] at hj'
        exact Sum.inl.inj (hv.owned.custody.unique _ _ _ _ _ hj' hown)
      intro f hf
      rcases List.mem_cons.mp hf with rfl | hf
      · refine hv.owned.unreached hv.recorded (hv.owned.custody.sound _ _ _ hown) ?_ ?_ ?_
        · intro j hj heq
          rw [honly j hj heq]
          exact hg
        · intro j a hj heq h0 hin
          rw [honly j hj heq] at h0 hin
          exact hcleared a h0 hin
        · exact fun l a hl heq => absurd heq (adopter_none ha hl)
      · exact hv.unreached f hf
  · rw [closePages_mapped hg]
    exact hv.retain_frees

/-- A MAP that takes a range over gives back the buffer's own block, which nothing maps. -/
theorem Reclaimed.served_frees (h : Reclaimed w) (hlive : (w.bo i).live = true)
    (hgpu : (w.bo i).gpuVa = 0)
    (hcpu : (w.retained k).phys ≠ (w.bo i).phys → (w.bo i).cpuPtr = 0)
    (hclean : (w.retained k).phys ≠ (w.bo i).phys →
      ∀ l, (w.retained l).used = true → (w.retained l).phys ≠ (w.bo i).phys)
    (va : UInt64) (prot : Prot) : PagesUnreached (mapFromRetained w i k va prot) := by
  unfold mapFromRetained
  dsimp only
  split
  · exact h.unreached
  · next hne =>
    replace hne : (w.retained k).phys ≠ (w.bo i).phys := by simpa using hne
    have hown := ownedBlock_of_live hlive
    have honly : ∀ j, (w.bo j).live = true → (w.bo j).phys = (w.bo i).phys → j = i := by
      intro j hj heq
      have hj' := ownedBlock_of_live hj
      rw [heq] at hj'
      exact Sum.inl.inj (h.owned.custody.unique _ _ _ _ _ hj' hown)
    intro f hf
    rcases List.mem_cons.mp hf with rfl | hf
    · refine h.owned.unreached h.recorded (h.owned.custody.sound _ _ _ hown) ?_ ?_ ?_
      · intro j hj heq
        rw [honly j hj heq]
        exact hgpu
      · intro j a hj heq h0
        rw [honly j hj heq] at h0
        exact absurd (hcpu hne) h0
      · exact fun l a hl heq => absurd heq (hclean hne l hl)
    · exact h.unreached f hf

/-- A MAP a well-behaved client makes finds its buffer unmapped. -/
theorem WellBehaved.map {arg : GemVaArg} {mapOk : Bool} (h : WellBehaved w (.gemVa arg mapOk))
    (hi : mapTarget w arg = some i) : arg.vaAddress ≠ 0 ∧ (w.bo i).gpuVa = 0 := by
  obtain ⟨hb, hc⟩ := Option.filter_eq_some_iff.mp hi
  simp only [Bool.and_eq_true, beq_iff_eq] at hc
  obtain ⟨hg, -, hva, -⟩ := (h i hb).1 hc.1.2
  exact ⟨hva, hg⟩

/-- One call of a well-behaved client gives no block back early, if its take-overs are clean. -/
theorem Reclaimed.effect (h : Reclaimed w) {op : Op} (he : Effect w op w')
    (halloc : PlatformAllocs w op) (hmaps : PlatformMaps w op) (hclient : WellBehaved w op)
    (hc : TakesOverCleanly w op) : Reclaimed w' := by
  refine ⟨h.owned.effect he halloc hc, ?_, ?_⟩
  · refine h.recorded.effect (fun _ => rfl) he hmaps ?_
    rintro arg mapOk i rfl ⟨hi, -⟩
    obtain ⟨hva, hg⟩ := hclient.map hi
    exact ⟨hva, .inl hg⟩
  · cases he with
    | idle => exact h.unreached
    | create => exact h.unreached
    | close handle i hi => exact h.close_frees (boOf_live hi)
    | cpu => exact h.unreached
    | served arg mapOk i k hi hk =>
      obtain ⟨-, -, -, -, hphys⟩ := servedBy_eq_some hk
      exact h.served_frees (mapTarget_live hi) (hclient.map hi).2
        (fun hne => (hphys.resolve_left hne).2.1) (fun hne => hc i k hi hk hne) _ _
    | afresh arg mapOk i =>
      have hv := (releaseOverlapping_releases (w := w) arg.vaAddress
        (mapBytes (w.bo i) arg)).reclaimed h
      cases mapOk with
      | true =>
        rw [mapAfresh_true]
        exact hv.unreached
      | false =>
        rw [mapAfresh_false]
        exact hv.unreached
    | unmap => exact h.retain_frees

/-- **No page is given back while an address reaches it.** For every run of a well-behaved client
    whose take-overs are clean. -/
theorem pages_unreached
    (h : Reach step (fun w op => PlatformAllocs w op ∧ PlatformMaps w op ∧ WellBehaved w op ∧
      TakesOverCleanly w op) .init w) : PagesUnreached w := by
  have hr : Reclaimed w := h.invariant Reclaimed.init fun _ op hw hok =>
    hw.effect (step_effect op) hok.1 hok.2.1 hok.2.2.1 hok.2.2.2
  exact hr.unreached

theorem pages_unreached_close :
    let w := run .init [createOnePage 0, .mmap 0x4000 0x4000 (some 0x700000000), .gemClose 1]
    w.mem.frees.length = 1 ∧ ∀ f ∈ w.mem.frees, f.Unreached := by
  refine ⟨by decide +kernel, ?_⟩
  let u := step .init (createOnePage 0)
  let mapCpu : Op := .mmap 0x4000 0x4000 (some 0x700000000)
  let close : Op := .gemClose 1
  let ok (w : Shim) (op : Op) : Prop :=
    PlatformAllocs w op ∧ PlatformMaps w op ∧ WellBehaved w op ∧ TakesOverCleanly w op
  have hu : Reach step ok .init u :=
    Reach.refl.tail _ ⟨platformAllocs_first 0, .of_no_cpuCall rfl, trivial, trivial⟩
  have hcall : cpuCall u mapCpu = some (0, some 0x700000000) := by decide +kernel
  have hplat : PlatformMaps u mapCpu := .of_empty hcall (by decide) create_init_pageTable
  have hmap : ok u mapCpu := ⟨trivial, hplat, trivial, trivial⟩
  have hclose : ok (step u mapCpu) close := ⟨trivial, .of_no_cpuCall rfl, trivial, trivial⟩
  exact pages_unreached ((hu.tail mapCpu hmap).tail close hclose)

/-! ## A client that maps elsewhere -/

/-- No entry but the first two is live. -/
private def TwoBuffers (w : Shim) : Prop := ∀ j, j ≠ 0 → j ≠ 1 → (w.bo j).live = false

private theorem TwoBuffers.step {op : Op} (h : TwoBuffers w)
    (ht : opTarget w op = some 0 ∨ opTarget w op = some 1) : TwoBuffers (step w op) := by
  intro j h0 h1
  rw [step_bo_of_ne, h j h0 h1]
  rcases ht with ht | ht
  · rw [ht]
    exact fun heq => h0 (Option.some.inj heq).symm
  · rw [ht]
    exact fun heq => h1 (Option.some.inj heq).symm

/-- While neither buffer is mapped, either may be mapped anywhere. -/
private theorem TwoBuffers.wellBehaved (h : TwoBuffers w) (h0 : (w.bo 0).gpuVa = 0)
    (h1 : (w.bo 1).gpuVa = 0) {handle : UInt32} {va : UInt64} (hva : va ≠ 0) :
    WellBehaved w (wholeAt handle vaOpMap va) := by
  have hunmapped : ∀ j, (w.bo j).live = true → (w.bo j).gpuVa = 0 := by
    intro j hlive
    by_cases hj0 : j = 0
    · rw [hj0]
      exact h0
    · by_cases hj1 : j = 1
      · rw [hj1]
        exact h1
      · rw [h j hj0 hj1] at hlive
        cases hlive
  intro i hi
  refine ⟨fun _ => ⟨hunmapped i (boOf_live hi), .inl rfl, hva, ?_⟩, fun hop => ?_⟩
  · exact fun j _ hlive hg => absurd (hunmapped j hlive) hg
  · exact absurd hop (show vaOpMap ≠ vaOpUnmap by decide)

/-- **A well-behaved client is enough.** Buffer 1 is mapped, unmapped, and mapped where buffer 2
    was; its page is given back while the first address still leads to it. -/
theorem not_pages_unreached :
    ¬ ∀ w, Reach step (fun w op => PlatformAllocs w op ∧ PlatformMaps w op ∧ WellBehaved w op)
      .init w → PagesUnreached w := by
  intro hall
  let ok (w : Shim) (op : Op) : Prop :=
    PlatformAllocs w op ∧ PlatformMaps w op ∧ WellBehaved w op
  let w₁ := step .init (createOnePage 0)
  let w₂ := step w₁ (createOnePage 0x4000)
  let w₃ := step w₂ (wholeAt 1 vaOpMap 0x400000000)
  let w₄ := step w₃ (wholeAt 1 vaOpUnmap 0x400000000)
  let w₅ := step w₄ (wholeAt 2 vaOpMap 0x500000000)
  let w₆ := step w₅ (.gemClose 2)
  let w₇ := step w₆ (wholeAt 1 vaOpMap 0x500000000)
  have t₂ : TwoBuffers w₂ := by
    have t₀ : TwoBuffers .init := fun _ _ _ => rfl
    exact (t₀.step (.inl (by decide +kernel))).step (.inr (by decide +kernel))
  have t₄ : TwoBuffers w₄ :=
    (t₂.step (.inl (by decide +kernel))).step (.inl (by decide +kernel))
  have t₆ : TwoBuffers w₆ :=
    (t₄.step (.inr (by decide +kernel))).step (.inr (by decide +kernel))
  have r₂ : Reach step ok .init w₂ := by
    have r₁ : Reach step ok .init w₁ :=
      Reach.refl.tail _ ⟨platformAllocs_first 0, .of_no_cpuCall rfl, trivial⟩
    exact r₁.tail _ ⟨platformAllocs_second, .of_no_cpuCall rfl, trivial⟩
  have r₃ : Reach step ok .init w₃ :=
    r₂.tail _ ⟨trivial, .of_no_cpuCall rfl, t₂.wellBehaved (by decide +kernel) (by decide +kernel)
      (by decide)⟩
  have r₄ : Reach step ok .init w₄ := by
    refine r₃.tail _ ⟨trivial, .of_no_cpuCall rfl, fun i hi => ⟨fun hop => ?_, fun _ => ?_⟩⟩
    · exact absurd hop (show vaOpUnmap ≠ vaOpMap by decide)
    · have h1 : boOf w₃ 1 = some 0 := by decide +kernel
      obtain rfl : i = 0 := Option.some.inj (hi.symm.trans h1)
      show 0x400000000 = (w₃.bo 0).gpuVa
      decide +kernel
  have r₅ : Reach step ok .init w₅ :=
    r₄.tail _ ⟨trivial, .of_no_cpuCall rfl, t₄.wellBehaved (by decide +kernel) (by decide +kernel)
      (by decide)⟩
  have r₆ : Reach step ok .init w₆ :=
    r₅.tail _ ⟨trivial, .of_no_cpuCall rfl, trivial⟩
  have r₇ : Reach step ok .init w₇ :=
    r₆.tail _ ⟨trivial, .of_no_cpuCall rfl, t₆.wellBehaved (by decide +kernel) (by decide +kernel)
      (by decide)⟩
  obtain ⟨f, hf⟩ : ∃ f, w₇.mem.frees.head? = some f :=
    Option.isSome_iff_exists.mp (by decide +kernel)
  have hreached : (w₇.mem.frees.head?.map fun f =>
      decide (f.phys = 0 ∧ f.size = 0x4000) && (f.pageTable 0x400000000 == some
        ⟨0, ⟨true, true, true, true⟩⟩)) = some true := by decide +kernel
  rw [hf, Option.map_some, Option.some.injEq, Bool.and_eq_true, decide_eq_true_eq,
    beq_iff_eq] at hreached
  obtain ⟨⟨hp, hs⟩, he⟩ := hreached
  refine hall w₇ r₇ f (List.mem_of_mem_head? hf) _ _ he ?_
  rw [hp, hs]
  decide

end OopsMesa.Winsys
