/-
  Every block of direct memory has one owner.

  A block belongs to the live buffer whose pages it is, or to the retained range that outlived
  that buffer. Nothing but its start says which: a release looks for another retained range over
  the same start to hand the block on to, and a CLOSE of an unmapped buffer for one to adopt it.
  A MAP that takes over a closed buffer's range gives the buffer's own pages back and looks for
  nothing. `TakesOverCleanly` is the condition that there is nothing to find. With it custody
  holds in every state (`sole_owners`); without it a retained range goes on naming a block that
  the platform may hand out again (`not_sole_owners`).
-/
import OopsMesa.Lib.Custody
import OopsMesa.Lib.Reach
import OopsMesa.Winsys.Retention

namespace OopsMesa.Winsys

open OopsMesa.Lib

variable {w w' : Shim} {i : Fin winsysMaxBo} {k l : Fin winsysMaxRetained}

/-- What can own a block: an entry of the buffer table, or of the retained ranges. -/
abbrev Owner := Fin winsysMaxBo ⊕ Fin winsysMaxRetained

/-- The block a live buffer owns. -/
def Bo.block (b : Bo) : Option (Int × UInt64) := if b.live then some (b.phys, b.size) else none

/-- The block a retained range owns. -/
def RetainedRange.block (r : RetainedRange) : Option (Int × UInt64) :=
  if r.used && r.ownsPhys then some (r.phys, r.size) else none

/-- The block an owner names. -/
def ownedBlock (w : Shim) : Owner → Option (Int × UInt64)
  | .inl i => (w.bo i).block
  | .inr k => (w.retained k).block

/-- Each allocated block is named by exactly one owner, every owner names an allocated block with
    its size, so does every retained range without `owns_phys`, and every free call so far gave
    back a block that was allocated, with its size. -/
structure SoleOwners (w : Shim) : Prop where
  sole : ∀ p n, w.mem.blocks p = some n → ∃! o, ∃ m, ownedBlock w o = some (p, m)
  sized : ∀ o p n, ownedBlock w o = some (p, n) → w.mem.blocks p = some n
  aliases : ∀ k, (w.retained k).used = true → (w.retained k).ownsPhys = false →
    w.mem.blocks (w.retained k).phys = some (w.retained k).size
  frees : ∀ f ∈ w.mem.frees, f.blocks f.phys = some f.size

/-- `oops_mem_alloc_direct` returns a block disjoint from every block allocated. -/
def PlatformAllocs (w : Shim) : Op → Prop
  | .gemCreate arg (some phys) => ∀ p n, w.mem.blocks p = some n →
    phys + (roundUpPage arg.boSize).toNat ≤ p ∨ p + n.toNat ≤ phys
  | _ => True

/-- The condition on a step: a MAP that takes over a closed buffer's range does so for a buffer
    over whose own pages nothing is retained. -/
def TakesOverCleanly (w : Shim) : Op → Prop
  | .gemVa arg _ => ∀ i k, mapTarget w arg = some i →
    servedBy w i arg.vaAddress (mapBytes (w.bo i) arg) (vaProt arg.flags) = some k →
      (w.retained k).phys ≠ (w.bo i).phys →
        ∀ l, (w.retained l).used = true → (w.retained l).phys ≠ (w.bo i).phys
  | _ => True

/-! ## Owners under the shim's writes -/

theorem ownedBlock_of_owns (h : (w.retained k).used = true) (ho : (w.retained k).ownsPhys = true) :
    ownedBlock w (.inr k) = some ((w.retained k).phys, (w.retained k).size) := by
  simp [ownedBlock, RetainedRange.block, h, ho]

theorem ownedBlock_of_live (h : (w.bo i).live = true) :
    ownedBlock w (.inl i) = some ((w.bo i).phys, (w.bo i).size) := by
  simp [ownedBlock, Bo.block, h]

theorem ownedBlock_setBo (b : Bo) :
    ownedBlock (w.setBo i b) = Function.update (ownedBlock w) (.inl i) b.block := by
  funext o
  cases o with
  | inl j =>
    by_cases hji : j = i
    · subst hji; simp [ownedBlock]
    · simp [ownedBlock, hji]
  | inr k => simp [ownedBlock]

theorem ownedBlock_setRetained (r : RetainedRange) :
    ownedBlock (w.setRetained k r) = Function.update (ownedBlock w) (.inr k) r.block := by
  funext o
  cases o with
  | inl i => simp [ownedBlock]
  | inr l =>
    by_cases hlk : l = k
    · subst hlk; simp [ownedBlock]
    · simp [ownedBlock, hlk]

/-- A buffer keeps its block when only its addresses are written. -/
theorem ownedBlock_setBo_of_block {b : Bo} (h : b.block = (w.bo i).block) :
    ownedBlock (w.setBo i b) = ownedBlock w := by
  rw [ownedBlock_setBo, h]
  exact Function.update_eq_self ..

theorem ownedBlock_congr (hb : w'.bo = w.bo) (hr : w'.retained = w.retained) :
    ownedBlock w' = ownedBlock w := by
  funext o
  cases o with
  | inl i => simp [ownedBlock, hb]
  | inr k => simp [ownedBlock, hr]

theorem ownedBlock_retainedDrop :
    ownedBlock (retainedDrop w k) = Function.update (ownedBlock w) (.inr k) none :=
  (ownedBlock_congr (w := w.setRetained k .zero) rfl rfl).trans (ownedBlock_setRetained _)

theorem ownedBlock_retainedStore (va size : UInt64) (phys : Int) (prot : Prot) (owns : Bool) :
    ownedBlock (retainedStore w k va size phys prot owns) =
      Function.update (ownedBlock w) (.inr k) (if owns then some (phys, size) else none) := by
  let r : RetainedRange := ⟨true, owns, prot, va, size, phys, w.retainedSeq + 1⟩
  have h : ownedBlock (retainedStore w k va size phys prot owns) =
      ownedBlock (w.setRetained k r) := ownedBlock_congr rfl rfl
  rw [h, ownedBlock_setRetained]
  simp [r, RetainedRange.block]

/-! ## The invariant -/

/-- Custody of the blocks, and what has to be known of the ranges and of the platform's blocks to
    keep it. -/
structure Owned (w : Shim) : Prop where
  custody : Custody w.mem.blocks (ownedBlock w)
  named : ∀ k, (w.retained k).used = true →
    w.mem.blocks (w.retained k).phys = some (w.retained k).size
  positive : ∀ p n, w.mem.blocks p = some n → 0 < n.toNat
  apart : ∀ p q n m, w.mem.blocks p = some n → w.mem.blocks q = some m → p ≠ q →
    p + n.toNat ≤ q ∨ q + m.toNat ≤ p
  frees : ∀ f ∈ w.mem.frees, f.blocks f.phys = some f.size

theorem Owned.soleOwners (h : Owned w) : SoleOwners w where
  sole _ _ hp := h.custody.existsUnique hp
  sized := h.custody.sound
  aliases k hk _ := h.named k hk
  frees := h.frees

theorem Owned.init : Owned .init where
  custody := .empty (fun _ => rfl) fun o => by cases o <;> rfl
  named _ h := nomatch h
  positive _ _ h := nomatch h
  apart _ _ _ _ h := nomatch h
  frees _ h := nomatch h

/-- The page table plays no part. -/
theorem Owned.congr (h : Owned w) (ho : ownedBlock w' = ownedBlock w)
    (hr : w'.retained = w.retained) (hb : w'.mem.blocks = w.mem.blocks)
    (hf : w'.mem.frees = w.mem.frees) : Owned w' where
  custody := by rw [ho, hb]; exact h.custody
  named := by rw [hr, hb]; exact h.named
  positive := by rw [hb]; exact h.positive
  apart := by rw [hb]; exact h.apart
  frees := by rw [hf]; exact h.frees

/-- What a buffer's block owns is not owned by a retained range. -/
theorem Owned.ownsPhys_false (h : Owned w) (hlive : (w.bo i).live = true)
    (hk : (w.retained k).used = true) (hp : (w.retained k).phys = (w.bo i).phys) :
    (w.retained k).ownsPhys = false := by
  cases ho : (w.retained k).ownsPhys with
  | false => rfl
  | true =>
    have hr := ownedBlock_of_owns hk ho
    rw [hp] at hr
    cases h.custody.unique _ _ _ _ _ (ownedBlock_of_live hlive) hr

/-- A retained range over a live buffer's pages has the buffer's size. -/
theorem Owned.size_eq (h : Owned w) (hlive : (w.bo i).live = true)
    (hk : (w.retained k).used = true) (hp : (w.retained k).phys = (w.bo i).phys) :
    (w.retained k).size = (w.bo i).size := by
  have h₁ := h.custody.sound _ _ _ (ownedBlock_of_live hlive)
  have h₂ := h.named k hk
  rw [hp, h₁] at h₂
  exact (Option.some.inj h₂).symm

/-! ## Dropping, giving back and handing on -/

/-- A range that owns nothing is dropped. -/
theorem Owned.drop (h : Owned w) (hk : ownedBlock w (.inr k) = none) :
    Owned (retainedDrop w k) where
  custody := by
    rw [ownedBlock_retainedDrop, ← hk, Function.update_eq_self]
    exact h.custody
  named l hl := by
    by_cases hlk : l = k
    · subst hlk; simp [retainedDrop, RetainedRange.zero] at hl
    · simp only [retainedDrop, Function.update_of_ne hlk] at hl ⊢
      exact h.named l hl
  positive := h.positive
  apart := h.apart
  frees := h.frees

/-- The block of an owner is given back: no retained range may name it afterwards. -/
theorem Owned.free {o : Owner} {p : Int} {n : UInt64} (h : Owned w)
    (ho : ownedBlock w o = some (p, n))
    (hw : ownedBlock w' = Function.update (ownedBlock w) o none)
    (hmem : w'.mem.blocks = Function.update w.mem.blocks p none)
    (hfrees : w'.mem.frees = ⟨p, n, w.mem.pageTable, w.mem.blocks⟩ :: w.mem.frees)
    (hr : ∀ l, (w'.retained l).used = true →
      w'.retained l = w.retained l ∧ (w.retained l).phys ≠ p) : Owned w' where
  custody := by rw [hw, hmem]; exact h.custody.give ho
  named l hl := by
    obtain ⟨heq, hp⟩ := hr l hl
    rw [heq] at hl ⊢
    rw [hmem, Function.update_of_ne hp]
    exact h.named l hl
  positive q m hq := by
    by_cases hqp : q = p
    · subst hqp; simp [hmem] at hq
    · rw [hmem, Function.update_of_ne hqp] at hq
      exact h.positive q m hq
  apart q q' m m' hq hq' hne := by
    have hold : ∀ q m, w'.mem.blocks q = some m → w.mem.blocks q = some m := by
      intro q m hq
      by_cases hqp : q = p
      · subst hqp; simp [hmem] at hq
      · rwa [hmem, Function.update_of_ne hqp] at hq
    exact h.apart q q' m m' (hold q m hq) (hold q' m' hq') hne
  frees f hf := by
    rw [hfrees] at hf
    rcases List.mem_cons.mp hf with rfl | hf
    · exact h.custody.sound o p n ho
    · exact h.frees f hf

/-- The block of an owner passes to an owner of nothing. -/
theorem Owned.handTo {o o' : Owner} {p : Int} {n : UInt64} (h : Owned w)
    (ho : ownedBlock w o = some (p, n)) (hk : ownedBlock w o' = none)
    (hw : ownedBlock w' =
      Function.update (Function.update (ownedBlock w) o none) o' (some (p, n)))
    (hb : w'.mem.blocks = w.mem.blocks) (hf : w'.mem.frees = w.mem.frees)
    (hr : ∀ l, (w'.retained l).used = true →
      w.mem.blocks (w'.retained l).phys = some (w'.retained l).size) : Owned w' where
  custody := by rw [hw, hb]; exact h.custody.hand ho hk
  named l hl := by rw [hb]; exact hr l hl
  positive := by rw [hb]; exact h.positive
  apart := by rw [hb]; exact h.apart
  frees := by rw [hf]; exact h.frees

/-! ## Releasing a range -/

theorem handOn_some (h : handOn w k = some l) :
    l ≠ k ∧ (w.retained l).used = true ∧ (w.retained l).phys = (w.retained k).phys := by
  have := firstIdx_some h
  simp only [Bool.and_eq_true, decide_eq_true_eq, beq_iff_eq] at this
  exact ⟨this.1.1, this.1.2, this.2⟩

theorem handOn_none (h : handOn w k = none) (hlk : l ≠ k) (hl : (w.retained l).used = true) :
    (w.retained l).phys ≠ (w.retained k).phys := by
  have := firstIdx_eq_none.mp h l
  simpa [hlk, hl] using this

theorem Owned.release (h : Owned w) (hk : (w.retained k).used = true) :
    Owned (retainedRelease w k) := by
  have hv : Owned (w.setMem (w.mem.unmap (w.retained k).va (w.retained k).size)) :=
    h.congr (ownedBlock_congr rfl rfl) rfl rfl rfl
  unfold retainedRelease
  generalize hvw : w.setMem (w.mem.unmap (w.retained k).va (w.retained k).size) = v at hv ⊢
  have hk' : (v.retained k).used = true := by subst hvw; exact hk
  cases ho : (v.retained k).ownsPhys with
  | false =>
    have hp : releasePages v k = v := by simp [releasePages, ho]
    rw [hp]
    exact hv.drop (by simp [ownedBlock, RetainedRange.block, ho])
  | true =>
    have hown := ownedBlock_of_owns hk' ho
    cases hh : handOn v k with
    | some l =>
      obtain ⟨hlk, hl, hphys⟩ := handOn_some hh
      have hp : releasePages v k = v.setRetained l { v.retained l with ownsPhys := true } := by
        simp [releasePages, ho, hh]
      have hsize : (v.retained l).size = (v.retained k).size := by
        have h₁ := hv.named l hl
        rw [hphys, hv.named k hk'] at h₁
        exact (Option.some.inj h₁).symm
      have hnone : ownedBlock v (.inr l) = none := by
        cases hlo : (v.retained l).ownsPhys with
        | false => simp [ownedBlock, RetainedRange.block, hlo]
        | true =>
          have h₁ := ownedBlock_of_owns hl hlo
          rw [hphys] at h₁
          cases hv.custody.unique _ _ _ _ _ h₁ hown
          exact absurd rfl hlk
      rw [hp]
      refine hv.handTo hown hnone ?_ rfl rfl ?_
      · rw [ownedBlock_retainedDrop, ownedBlock_setRetained, Function.update_comm]
        · simp [RetainedRange.block, hl, hphys, hsize]
        · simpa using hlk
      · intro m hm
        by_cases hmk : m = k
        · subst hmk; simp [retainedDrop, RetainedRange.zero] at hm
        · simp only [retainedDrop, Function.update_of_ne hmk] at hm ⊢
          by_cases hml : m = l
          · subst hml
            simpa using hv.named m hl
          · rw [setRetained_retained_of_ne _ _ _ _ hml] at hm ⊢
            exact hv.named m hm
    | none =>
      have hp : releasePages v k =
          v.setMem (v.mem.freeDirect (v.retained k).phys (v.retained k).size) := by
        simp [releasePages, ho, hh]
      rw [hp]
      refine hv.free hown ?_ rfl rfl ?_
      · rw [ownedBlock_retainedDrop]
        rfl
      · intro m hm
        by_cases hmk : m = k
        · subst hmk; simp [retainedDrop, RetainedRange.zero] at hm
        · simp only [retainedDrop, Function.update_of_ne hmk] at hm ⊢
          exact ⟨rfl, handOn_none hh hmk hm⟩

theorem Releases.owned (h : Releases w w') (hw : Owned w) : Owned w' :=
  h.invariant hw fun _ _ hv hk => hv.release hk

/-! ## The calls -/

/-- An unused slot owns nothing. -/
theorem ownedBlock_of_unused (h : (w.retained k).used = false) : ownedBlock w (.inr k) = none := by
  simp [ownedBlock, RetainedRange.block, h]

/-- Once stored, a used range is the new one or an old one. -/
theorem retainedStore_used {va size : UInt64} {phys : Int} {prot : Prot} {owns : Bool}
    (h : ((retainedStore w k va size phys prot owns).retained l).used = true) :
    let r := (retainedStore w k va size phys prot owns).retained l
    r.phys = phys ∧ r.size = size ∨ (w.retained l).used = true ∧ r = w.retained l := by
  by_cases hlk : l = k
  · subst hlk
    exact .inl (by simp [retainedStore])
  · simp only [retainedStore, Function.update_of_ne hlk] at h ⊢
    exact .inr ⟨h, trivial⟩

/-- UNMAP retains an alias, which owns nothing. -/
theorem Owned.unmap (h : Owned w) (hlive : (w.bo i).live = true) {va : UInt64} {prot : Prot} :
    Owned ((retain w va (w.bo i).size (w.bo i).phys prot false).setBo i
      { w.bo i with gpuVa := 0 }) := by
  obtain ⟨v, k, hrel, hk, heq⟩ :=
    retain_eq (w := w) va (w.bo i).size (w.bo i).phys prot false
  have hv := hrel.owned h
  have hbo := hrel.bo
  have hblock := hv.custody.sound _ _ _ (ownedBlock_of_live (i := i) (by rw [hbo]; exact hlive))
  have howned : ownedBlock (retainedStore v k va (w.bo i).size (w.bo i).phys prot false) =
      ownedBlock v := by
    rw [ownedBlock_retainedStore, if_neg Bool.false_ne_true, ← ownedBlock_of_unused hk]
    exact Function.update_eq_self ..
  rw [heq]
  refine Owned.congr (w := retainedStore v k va (w.bo i).size (w.bo i).phys prot false) ?_
    (ownedBlock_setBo_of_block ?_) rfl rfl rfl
  · refine ⟨by rw [howned]; exact hv.custody, fun l hl => ?_, hv.positive, hv.apart, hv.frees⟩
    rcases retainedStore_used hl with ⟨hp, hs⟩ | ⟨hused, hr⟩
    · rw [hp, hs, retainedStore_mem, ← hbo]
      exact hblock
    · rw [hr, retainedStore_mem]
      exact hv.named l hused
  · rw [retainedStore_bo, hbo]
    rfl

/-- CLOSE of a mapped buffer hands the block to the range it retains. -/
theorem Owned.closeMapped (h : Owned w) (hlive : (w.bo i).live = true) {va : UInt64}
    {prot : Prot} :
    Owned ((retain w va (w.bo i).size (w.bo i).phys prot true).setBo i .zero) := by
  obtain ⟨v, k, hrel, hk, heq⟩ :=
    retain_eq (w := w) va (w.bo i).size (w.bo i).phys prot true
  have hv := hrel.owned h
  have hbo := hrel.bo
  have hown := ownedBlock_of_live (w := v) (i := i) (by rw [hbo]; exact hlive)
  rw [hbo] at hown
  rw [heq]
  refine hv.handTo hown (ownedBlock_of_unused hk) ?_ rfl rfl fun l hl => ?_
  · rw [ownedBlock_setBo, ownedBlock_retainedStore, if_pos rfl, Function.update_comm]
    · rfl
    · simp
  · rcases retainedStore_used hl with ⟨hp, hs⟩ | ⟨hused, hr⟩
    · rw [setBo_retained, hp, hs]
      exact hv.custody.sound _ _ _ hown
    · rw [setBo_retained, hr]
      exact hv.named l hused

theorem adopter_some {p : Int} (h : adopter w p = some l) :
    (w.retained l).used = true ∧ (w.retained l).phys = p := by
  have := firstIdx_some h
  simpa using this

theorem adopter_none {p : Int} (h : adopter w p = none) (hl : (w.retained l).used = true) :
    (w.retained l).phys ≠ p := by
  have := firstIdx_eq_none.mp h l
  simpa [hl] using this

/-- CLOSE of an unmapped buffer hands the block to a range over its pages, or gives it back. -/
theorem Owned.closeUnmapped (h : Owned w) (hlive : (w.bo i).live = true)
    (hg : (w.bo i).gpuVa = 0) : Owned ((closePages w i).setBo i .zero) := by
  have hown := ownedBlock_of_live hlive
  rw [closePages_unmapped hg]
  cases ha : adopter w (w.bo i).phys with
  | some l =>
    obtain ⟨hl, hp⟩ := adopter_some ha
    have hnone : ownedBlock w (.inr l) = none := by
      simp [ownedBlock, RetainedRange.block, h.ownsPhys_false hlive hl hp]
    refine h.handTo hown hnone ?_ rfl rfl fun m hm => ?_
    · rw [ownedBlock_setBo, ownedBlock_setRetained, Function.update_comm]
      · simp [RetainedRange.block, Bo.block, Bo.zero, hl, hp, h.size_eq hlive hl hp]
      · simp
    · by_cases hml : m = l
      · subst hml
        simpa using h.named m hl
      · simp only [setBo_retained, setRetained_retained_of_ne _ _ _ _ hml] at hm ⊢
        exact h.named m hm
  | none =>
    refine h.free hown ?_ rfl rfl fun m hm => ⟨rfl, adopter_none ha hm⟩
    rw [ownedBlock_setBo]
    rfl

theorem Owned.closeCpu (h : Owned w) : Owned (closeCpu w i) := by
  unfold Winsys.closeCpu
  split
  · exact h.congr (ownedBlock_congr rfl rfl) rfl rfl rfl
  · exact h

theorem Owned.close (h : Owned w) (hlive : (w.bo i).live = true) :
    Owned ((closePages (Winsys.closeCpu w i) i).setBo i .zero) := by
  have hc : Owned (Winsys.closeCpu w i) := h.closeCpu
  rw [← closeCpu_bo (w := w) (i := i)] at hlive
  by_cases hg : ((Winsys.closeCpu w i).bo i).gpuVa = 0
  · exact hc.closeUnmapped hlive hg
  · rw [closePages_mapped hg]
    exact hc.closeMapped hlive

/-- A MAP served from a range over the buffer's own pages drops an alias. -/
theorem Owned.keepOwn (h : Owned w) (hlive : (w.bo i).live = true)
    (hk : (w.retained k).used = true) (hp : (w.retained k).phys = (w.bo i).phys)
    (va : UInt64) (prot : Prot) : Owned (mapFromRetained w i k va prot) := by
  have hnone : ownedBlock w (.inr k) = none := by
    simp [ownedBlock, RetainedRange.block, h.ownsPhys_false hlive hk hp]
  have hd := h.drop hnone
  unfold mapFromRetained
  simp only [hp, beq_self_eq_true, if_true]
  exact hd.congr (ownedBlock_setBo_of_block rfl) rfl rfl rfl

/-- A MAP that takes a closed buffer's range over gives the buffer's own block back, and then the
    range's block passes to the buffer. -/
theorem Owned.takeOver (h : Owned w) (hlive : (w.bo i).live = true)
    (hk : (w.retained k).used = true) (ho : (w.retained k).ownsPhys = true)
    (hsize : (w.bo i).size = (w.retained k).size)
    (hp : (w.retained k).phys ≠ (w.bo i).phys)
    (hclean : ∀ l, (w.retained l).used = true → (w.retained l).phys ≠ (w.bo i).phys)
    (va : UInt64) (prot : Prot) : Owned (mapFromRetained w i k va prot) := by
  let v := (w.setMem (w.mem.freeDirect (w.bo i).phys (w.bo i).size)).setBo i .zero
  have hv : Owned v := by
    refine h.free (ownedBlock_of_live hlive) ?_ rfl rfl fun l hl => ⟨rfl, hclean l hl⟩
    rw [ownedBlock_setBo]
    rfl
  have hi : ownedBlock v (.inl i) = none := by simp [v, ownedBlock, Bo.block, Bo.zero]
  have hblock : ownedBlock v (.inr k) = some ((w.retained k).phys, (w.retained k).size) :=
    ownedBlock_of_owns (w := v) hk ho
  unfold mapFromRetained
  simp only [beq_eq_false_iff_ne.mpr hp, Bool.false_eq_true, if_false]
  refine hv.handTo hblock hi ?_ rfl rfl fun l hl => ?_
  · rw [ownedBlock_setBo, ownedBlock_retainedDrop]
    have hv' : ownedBlock v = Function.update (ownedBlock w) (.inl i) none := by
      rw [ownedBlock_setBo]
      rfl
    rw [hv', Function.update_comm (a := Sum.inl i) (b := Sum.inr k) (by simp),
      Function.update_idem]
    simp only [Bo.block, hlive, if_true, hsize]
    rfl
  · by_cases hlk : l = k
    · subst hlk; simp [retainedDrop, RetainedRange.zero] at hl
    · simp only [setBo_retained, retainedDrop, Function.update_of_ne hlk] at hl ⊢
      exact hv.named l hl

/-- GEM_CREATE takes a new block. -/
theorem Owned.create (h : Owned w) {arg : GemCreateIn} {phys : Int}
    (hsize : roundUpPage arg.boSize ≠ 0) (hi : freeBo w = some i)
    (hplat : PlatformAllocs w (.gemCreate arg (some phys))) :
    Owned ((w.setMem (w.mem.allocDirect phys (roundUpPage arg.boSize))).setBo i
      (createdBo w i arg phys)) := by
  have hpos : 0 < (roundUpPage arg.boSize).toNat := by
    rw [Nat.pos_iff_ne_zero]
    exact fun h0 => hsize (UInt64.toNat_inj.mp h0)
  have hnone : w.mem.blocks phys = none := by
    cases hb : w.mem.blocks phys with
    | none => rfl
    | some n =>
      have h₁ := hplat phys n hb
      have h₂ := h.positive phys n hb
      omega
  have hfree : ownedBlock w (.inl i) = none := by simp [ownedBlock, Bo.block, freeBo_dead hi]
  refine ⟨?_, fun k hk => ?_, fun p n hp => ?_, fun p q n m hp hq hne => ?_, h.frees⟩
  · rw [ownedBlock_setBo]
    exact h.custody.take hnone hfree
  · have hb := h.named k hk
    simp only [setBo_mem, setMem_mem, allocDirect_blocks, setBo_retained, setMem_retained]
    rw [Function.update_of_ne, hb]
    intro heq
    rw [heq, hnone] at hb
    cases hb
  · simp only [setBo_mem, setMem_mem, allocDirect_blocks] at hp
    by_cases hpp : p = phys
    · subst hpp
      rw [Function.update_self, Option.some.injEq] at hp
      subst hp
      exact hpos
    · rw [Function.update_of_ne hpp] at hp
      exact h.positive p n hp
  · simp only [setBo_mem, setMem_mem, allocDirect_blocks] at hp hq
    by_cases hpp : p = phys
    · subst hpp
      rw [Function.update_self, Option.some.injEq] at hp
      rw [Function.update_of_ne hne.symm] at hq
      subst hp
      exact hplat q m hq
    · rw [Function.update_of_ne hpp] at hp
      by_cases hqp : q = phys
      · subst hqp
        rw [Function.update_self, Option.some.injEq] at hq
        subst hq
        exact (hplat p n hp).symm
      · rw [Function.update_of_ne hqp] at hq
        exact h.apart p q n m hp hq hne

theorem Owned.afresh (h : Owned w) (va size : UInt64) (prot : Prot) (mapOk : Bool) :
    Owned (mapAfresh w i va size prot mapOk).2 := by
  have hv := (releaseOverlapping_releases (w := w) va size).owned h
  cases mapOk with
  | false =>
    rw [mapAfresh_false]
    exact hv
  | true =>
    rw [mapAfresh_true]
    refine hv.congr ?_ rfl rfl rfl
    rw [ownedBlock_setBo_of_block]
    · exact ownedBlock_congr rfl rfl
    · rfl

/-- One call keeps every block owned. -/
theorem Owned.effect (h : Owned w) {op : Op} (he : Effect w op w') (hplat : PlatformAllocs w op)
    (hc : TakesOverCleanly w op) : Owned w' := by
  cases he with
  | idle => exact h
  | create arg phys i hsize hi => exact h.create hsize hi hplat
  | close handle i hi => exact h.close (boOf_live hi)
  | cpu op i v => exact h.congr (ownedBlock_setBo_of_block rfl) rfl rfl rfl
  | served arg mapOk i k hi hk =>
    have hlive := mapTarget_live hi
    obtain ⟨hused, -, hsize, -, hp⟩ := servedBy_eq_some hk
    by_cases hown : (w.retained k).phys = (w.bo i).phys
    · exact h.keepOwn hlive hused hown _ _
    · obtain ⟨ho, -, hwhole⟩ := hp.resolve_left hown
      exact h.takeOver hlive hused ho (hwhole.trans hsize.symm) hown (hc i k hi hk hown) _ _
  | afresh arg mapOk i => exact h.afresh _ _ _ _
  | unmap arg mapOk i hi => exact h.unmap (unmapTarget_live hi)

/-- **Every block has one owner.** In every state of a run whose take-overs are clean. -/
theorem sole_owners
    (h : Reach step (fun w op => PlatformAllocs w op ∧ TakesOverCleanly w op) .init w) :
    SoleOwners w := by
  have ho : Owned w := h.invariant Owned.init fun _ op hw hok =>
    hw.effect (step_effect op) hok.1 hok.2
  exact ho.soleOwners

/-- A buffer of one page. -/
def createOnePage (phys : Int) : Op := .gemCreate ⟨0x4000, 0x4000, 4, 0⟩ (some phys)

/-- A call on the whole of a buffer at `va`. -/
def wholeAt (handle operation : UInt32) (va : UInt64) : Op :=
  .gemVa ⟨handle, operation, 6, va, 0, 0⟩ true

theorem platformAllocs_first (phys : Int) :
    PlatformAllocs .init (createOnePage phys) := fun _ _ h => nomatch h

/-- The second page lies after the first. -/
theorem platformAllocs_second :
    PlatformAllocs (step .init (createOnePage 0)) (createOnePage 0x4000) := by
  have hfree : freeBo .init = some 0 := by decide +kernel
  have hsize : roundUpPage 0x4000 = 0x4000 := by decide
  have hblocks : (step .init (createOnePage 0)).mem.blocks =
      Function.update (fun _ => none) 0 (some 0x4000) := by
    simp only [step, gemCreate, createOnePage, hsize, hfree]
    rfl
  intro p n hp
  rw [hblocks] at hp
  by_cases h0 : p = 0
  · subst h0
    rw [Function.update_self, Option.some.injEq] at hp
    subst hp
    right
    decide
  · rw [Function.update_of_ne h0] at hp
    cases hp

theorem sole_owners_close :
    ∃! o, ∃ n, ownedBlock
      (run .init [createOnePage 0, wholeAt 1 vaOpMap 0x400000000, .gemClose 1]) o = some (0, n) := by
  let u := step .init (createOnePage 0)
  have hu : Reach step (fun w op => PlatformAllocs w op ∧ TakesOverCleanly w op) .init u :=
    Reach.refl.tail _ ⟨platformAllocs_first 0, trivial⟩
  have hmap : TakesOverCleanly u (wholeAt 1 vaOpMap 0x400000000) := by
    intro i k hi hk
    have ht : mapTarget u ⟨1, vaOpMap, 6, 0x400000000, 0, 0⟩ = some 0 := by decide +kernel
    obtain rfl : i = 0 := Option.some.inj (hi.symm.trans ht)
    have hnone : servedBy u 0 0x400000000 (mapBytes (u.bo 0) ⟨1, vaOpMap, 6, 0x400000000, 0, 0⟩)
        (vaProt 6) = none := by decide +kernel
    rw [hnone] at hk
    cases hk
  have hv := hu.tail (wholeAt 1 vaOpMap 0x400000000) ⟨trivial, hmap⟩
  have hok : ∀ w, PlatformAllocs w (.gemClose 1) ∧ TakesOverCleanly w (.gemClose 1) :=
    fun _ => ⟨trivial, trivial⟩
  have h := sole_owners (hv.tail (.gemClose 1) (hok _))
  exact h.sole 0 0x4000 (by decide +kernel)

/-- **A take-over forgets an alias.** Buffer 1 is mapped and unmapped, which retains an alias of
    its page; buffer 2 is mapped elsewhere and closed, which retains its range. Buffer 1 mapped
    there takes that range over and gives its own page back, and the alias names a block that is
    no longer allocated. -/
theorem not_sole_owners : ¬ ∀ w, Reach step PlatformAllocs .init w → SoleOwners w := by
  intro hall
  let v := step (step .init (createOnePage 0)) (createOnePage 0x4000)
  have hv : Reach step PlatformAllocs .init v :=
    (Reach.refl.tail _ (platformAllocs_first 0)).tail _ platformAllocs_second
  let ops : List Op :=
    [wholeAt 1 vaOpMap 0x400000000, wholeAt 1 vaOpUnmap 0x400000000,
      wholeAt 2 vaOpMap 0x500000000, .gemClose 2, wholeAt 1 vaOpMap 0x500000000]
  have hreach : Reach step PlatformAllocs .init (run v ops) := by
    refine hv.trans (Reach.foldl ops fun op hop w => ?_)
    simp only [ops, List.mem_cons, List.not_mem_nil, or_false] at hop
    rcases hop with rfl | rfl | rfl | rfl | rfl <;> trivial
  have h := (hall _ hreach).aliases 0 (by decide +kernel) (by decide +kernel)
  have hgone : (run v ops).mem.blocks ((run v ops).retained 0).phys = none := by decide +kernel
  rw [hgone] at h
  cases h

end OopsMesa.Winsys
