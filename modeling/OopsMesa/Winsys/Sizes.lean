/-
  The sizes of GEM_CREATE and GEM_VA.

  Both round a size up to the page in 64 bits, so of the sizes above 2^64 - 0x4000 nothing is
  left. GEM_CREATE refuses the 0 they come to. GEM_VA does not: 0 is no more than the buffer, so
  a MAP of such a size is let through, returns 0 and maps nothing. Everything else is exact
  (`gemVa_sizes_exact_iff`), where the retained range that serves a MAP, if one does, is mapped.
-/
import OopsMesa.Lib.Words
import OopsMesa.Winsys.Accounts

namespace OopsMesa.Winsys

open OopsMesa.Lib

variable {w : Shim} {i : Fin winsysMaxBo} {arg : GemVaArg}

/-! ## The statement -/

/-- `n` is the least whole number of pages of `size` bytes or more. -/
def WholePages (size : UInt64) (n : Nat) : Prop :=
  IsLeast {m : Nat | winsysPage.toNat ∣ m ∧ size.toNat ≤ m} n

/-- `len` is what a MAP of `mapSize` is to map: the buffer for 0, and else whole pages. -/
def IsMapLength (bo : Bo) (mapSize len : UInt64) : Prop :=
  if mapSize = 0 then len = bo.size else WholePages mapSize len.toNat

/-- A MAP of buffer `i` that returns 0 was asked for no more than the buffer, and leaves as much
    as it was asked for, in whole pages, mapped to the buffer's own; one that asks for more is
    refused and changes nothing. -/
structure MapSizesExact (w : Shim) (i : Fin winsysMaxBo) (arg : GemVaArg) : Prop where
  mapped : (gemVa w arg true).1 = .ok → arg.mapSize ≤ (w.bo i).size ∧
    ∃ len, IsMapLength (w.bo i) arg.mapSize len ∧ len ≤ (w.bo i).size ∧
      Backs (gemVa w arg true).2.mem.pageTable arg.vaAddress len
        (pageOf ((gemVa w arg true).2.bo i).phys (vaProt arg.flags))
  refused : (w.bo i).size < arg.mapSize →
    gemVa w arg true = (.err (if arg.offsetInBo ≠ 0 then .ENOSYS else .EINVAL), w)

/-- The buffer of `handle` was made by a GEM_CREATE of `request` bytes, and not closed since. -/
def Requested (w : Shim) (handle : UInt32) (request : UInt64) : Prop :=
  ∃ before create alloc ops, create.boSize = request ∧ (gemCreate before create alloc).1 = .ok ∧
    (gemCreate before create alloc).2.1 = handle ∧ (∀ op ∈ ops, op ≠ .gemClose handle) ∧
    w = run (gemCreate before create alloc).2.2 ops

/-- The retained range that a MAP of no more than the buffer is served from is mapped. -/
def ServedBacked (w : Shim) (i : Fin winsysMaxBo) (arg : GemVaArg) : Prop :=
  mapBytes (w.bo i) arg ≤ (w.bo i).size →
    ∀ k, servedBy w i arg.vaAddress (mapBytes (w.bo i) arg) (vaProt arg.flags) = some k →
      Backs w.mem.pageTable arg.vaAddress (mapBytes (w.bo i) arg)
        (pageOf (w.retained k).phys (vaProt arg.flags))

/-! ## Rounding -/

theorem winsysPage_toNat : winsysPage.toNat = 2 ^ 14 := rfl

theorem roundUpPage_wholePages {n : UInt64} (h : n.toNat + 0x3fff < 2 ^ 64) :
    WholePages n (roundUpPage n).toNat := roundUp_isLeast winsysPage_toNat h

theorem roundUpPage_wraps {n : UInt64} (h : 2 ^ 64 ≤ n.toNat + 0x3fff) : roundUpPage n = 0 :=
  roundUp_wraps winsysPage_toNat h

/-- A size that does not come to 0 did not wrap. -/
theorem roundUpPage_of_ne_zero {n : UInt64} (h : roundUpPage n ≠ 0) :
    n.toNat + 0x3fff < 2 ^ 64 := by
  apply Nat.lt_of_not_le
  intro hle
  exact h (roundUpPage_wraps hle)

/-- Every live buffer is of whole pages, so of at most 2^64 - 0x4000 bytes. -/
theorem bo_size_le (h : Reach step (fun _ _ => True) .init w) (hi : (w.bo i).live = true) :
    (w.bo i).size.toNat + 0x4000 ≤ 2 ^ 64 := by
  have hall := h.invariant (P := AllSizes fun s => winsysPage.toNat ∣ s.toNat) (.init _)
    fun v op hv _ => hv.step fun create alloc _ hne =>
      (roundUpPage_wholePages (roundUpPage_of_ne_zero hne)).1.1
  obtain ⟨c, hc⟩ := hall.bo i hi
  have hlt := (w.bo i).size.toNat_lt
  rw [winsysPage_toNat] at hc
  omega

theorem isMapLength_mapBytes (w : Shim) (i : Fin winsysMaxBo) (arg : GemVaArg)
    (h : arg.mapSize.toNat + 0x3fff < 2 ^ 64) :
    IsMapLength (w.bo i) arg.mapSize (mapBytes (w.bo i) arg) := by
  unfold IsMapLength mapBytes
  by_cases h0 : arg.mapSize = 0
  · rw [if_pos h0, if_neg (not_not_intro h0)]
  · rw [if_neg h0, if_pos h0]
    exact roundUpPage_wholePages h

theorem IsMapLength.unique {bo : Bo} {size len len' : UInt64} (h : IsMapLength bo size len)
    (h' : IsMapLength bo size len') : len = len' := by
  unfold IsMapLength at h h'
  split at h
  · rw [if_pos ‹_›] at h'
    rw [h, h']
  · rw [if_neg ‹_›] at h'
    exact UInt64.toNat_inj.mp (h.unique h')

theorem IsMapLength.le {bo : Bo} {size len : UInt64} (h : IsMapLength bo size len) :
    size ≤ len := by
  rw [UInt64.le_iff_toNat_le]
  unfold IsMapLength at h
  split at h
  · next h0 =>
    rw [h0]
    exact Nat.zero_le _
  · exact h.1.2

/-! ## GEM_CREATE -/

theorem handleOf_toNat (i : Fin winsysMaxBo) : (handleOf i).toNat = i.val + 1 := by
  have hi := i.isLt
  exact UInt32.toNat_ofNat_of_lt' (Nat.lt_of_le_of_lt hi (by decide))

theorem boOf_handleOf (hlive : (w.bo i).live = true) : boOf w (handleOf i) = some i := by
  have hi := i.isLt
  have hval := handleOf_toNat i
  unfold boOf
  rw [dif_pos (by rw [hval]; omega)]
  have hback : (⟨(handleOf i).toNat - 1, by omega⟩ : Fin winsysMaxBo) = i :=
    Fin.ext (by simp [hval])
  dsimp only
  rw [hback, if_pos hlive]

/-- A GEM_CREATE that returns 0 makes a buffer of the size rounded up. -/
theorem gemCreate_size (create : GemCreateIn) (alloc : Option Int)
    (h : (gemCreate w create alloc).1 = .ok) :
    roundUpPage create.boSize ≠ 0 ∧
      ∃ i, boOf (gemCreate w create alloc).2.2 (gemCreate w create alloc).2.1 = some i ∧
        ((gemCreate w create alloc).2.2.bo i).size = roundUpPage create.boSize := by
  unfold gemCreate at h ⊢
  dsimp only at h ⊢
  by_cases hsize : roundUpPage create.boSize = 0
  · rw [if_pos hsize] at h
    exact nomatch h
  · rw [if_neg hsize] at h ⊢
    cases hf : freeBo w with
    | none =>
      rw [hf] at h
      exact nomatch h
    | some i =>
      cases alloc with
      | none =>
        rw [hf] at h
        exact nomatch h
      | some phys =>
        refine ⟨hsize, i, boOf_handleOf ?_, ?_⟩
        · rw [setBo_bo_self]
        · rw [setBo_bo_self]

/-- A GEM_CREATE that returns 0 makes a buffer of the least whole pages. -/
theorem gemCreate_wholePages (create : GemCreateIn) (alloc : Option Int)
    (h : (gemCreate w create alloc).1 = .ok) :
    ∃ i, boOf (gemCreate w create alloc).2.2 (gemCreate w create alloc).2.1 = some i ∧
      WholePages create.boSize ((gemCreate w create alloc).2.2.bo i).size.toNat := by
  obtain ⟨hne, i, hi, hsize⟩ := gemCreate_size create alloc h
  refine ⟨i, hi, ?_⟩
  rw [hsize]
  exact roundUpPage_wholePages (roundUpPage_of_ne_zero hne)

/-- A live buffer keeps its entry and its size as long as it is not closed. -/
theorem run_size {handle : UInt32} (ops : List Op) (hi : boOf w handle = some i)
    (hops : ∀ op ∈ ops, op ≠ .gemClose handle) :
    boOf (run w ops) handle = some i ∧ ((run w ops).bo i).size = (w.bo i).size := by
  induction ops generalizing w with
  | nil => exact ⟨hi, rfl⟩
  | cons op ops ih =>
    have hlive := boOf_live hi
    have hval := boOf_val hi
    obtain ⟨_, _, _, hdead, -⟩ | ⟨handle', rfl, hi', -⟩ | ⟨hsame, hsize⟩ :=
      step_bo_cases (w := w) op i
    · exact nomatch hdead.symm.trans hlive
    · refine absurd ?_ (hops _ List.mem_cons_self)
      rw [UInt32.toNat_inj.mp ((boOf_val hi').symm.trans hval)]
    · have hhandle : handle = handleOf i :=
        UInt32.toNat_inj.mp (hval.symm.trans (handleOf_toNat i).symm)
      have hi' : boOf (step w op) handle = some i := by
        rw [hhandle]
        exact boOf_handleOf (hsame.trans hlive)
      obtain ⟨hrun, hsize'⟩ := ih hi' fun op hop => hops op (List.mem_cons_of_mem _ hop)
      exact ⟨hrun, hsize'.trans hsize⟩

/-- The size of a buffer is what was asked for, rounded up. -/
theorem Requested.boSize_eq {handle : UInt32} {request : UInt64}
    (h : Requested w handle request) :
    boSize w handle = roundUpPage request ∧ roundUpPage request ≠ 0 := by
  obtain ⟨before, create, alloc, ops, rfl, hok, rfl, hops, rfl⟩ := h
  obtain ⟨hne, i, hi, hsize⟩ := gemCreate_size create alloc hok
  obtain ⟨hi', hsize'⟩ := run_size ops hi hops
  refine ⟨?_, hne⟩
  unfold boSize
  rw [hi']
  exact hsize'.trans hsize

/-! ## GEM_VA -/

/-- A MAP at an offset is not done. -/
theorem gemVa_offset (hi : boOf w arg.handle = some i) (h : arg.offsetInBo ≠ 0) (mapOk : Bool) :
    gemVa w arg mapOk = (.err .ENOSYS, w) := by
  unfold gemVa
  rw [hi]
  dsimp only
  rw [if_pos h]

/-- A MAP of more than the buffer is refused. -/
theorem gemVa_too_large (hi : boOf w arg.handle = some i) (hoff : arg.offsetInBo = 0)
    (hop : arg.operation = vaOpMap) (h : (w.bo i).size < mapBytes (w.bo i) arg) (mapOk : Bool) :
    gemVa w arg mapOk = (.err .EINVAL, w) := by
  unfold gemVa
  rw [hi]
  dsimp only
  rw [if_neg (not_not_intro hoff), if_pos hop]
  unfold gemVaMap
  dsimp only
  rw [if_pos h]

theorem mapTarget_of_le (hi : boOf w arg.handle = some i) (hoff : arg.offsetInBo = 0)
    (hop : arg.operation = vaOpMap) (h : mapBytes (w.bo i) arg ≤ (w.bo i).size) :
    mapTarget w arg = some i := by
  unfold mapTarget
  rw [hi, Option.filter_some, hoff, hop]
  simp [UInt64.not_lt.mpr h]

/-- A MAP that passes its checks returns 0, and has mapped the buffer where the retained range it
    was served from, if any, was mapped. -/
theorem gemVa_maps (ht : mapTarget w arg = some i) :
    (gemVa w arg true).1 = .ok ∧
      (∀ k, servedBy w i arg.vaAddress (mapBytes (w.bo i) arg) (vaProt arg.flags) = some k →
        (gemVa w arg true).2.mem.pageTable = w.mem.pageTable ∧
          ((gemVa w arg true).2.bo i).phys = (w.retained k).phys) ∧
      (servedBy w i arg.vaAddress (mapBytes (w.bo i) arg) (vaProt arg.flags) = none →
        Backs (gemVa w arg true).2.mem.pageTable arg.vaAddress (mapBytes (w.bo i) arg)
          (pageOf ((gemVa w arg true).2.bo i).phys (vaProt arg.flags))) := by
  rw [gemVa_of_mapTarget ht]
  cases hk : servedBy w i arg.vaAddress (mapBytes (w.bo i) arg) (vaProt arg.flags) with
  | some k =>
    refine ⟨rfl, fun k' hk' => ?_, nofun⟩
    obtain rfl := Option.some.inj hk'
    refine ⟨mapFromRetained_pageTable .., ?_⟩
    dsimp only
    rw [mapFromRetained_bo, Function.update_self]
  | none =>
    refine ⟨rfl, nofun, fun _ => ?_⟩
    rw [mapAfresh_true]
    dsimp only
    rw [setBo_mem, setMem_mem, batchMap_pageTable, setBo_bo_self]
    exact backs_mapSpan

/-- A size that wraps comes to 0, and its MAP passes. -/
theorem MapSizesExact.fits (hreach : Reach step (fun _ _ => True) .init w)
    (hi : boOf w arg.handle = some i) (hoff : arg.offsetInBo = 0) (hop : arg.operation = vaOpMap)
    (hexact : MapSizesExact w i arg) : arg.mapSize.toNat + 0x3fff < 2 ^ 64 := by
  apply Nat.lt_of_not_le
  intro hwrap
  have hne : arg.mapSize ≠ 0 := by
    intro h0
    rw [h0] at hwrap
    exact absurd hwrap (by decide)
  have hzero : mapBytes (w.bo i) arg = 0 := by
    rw [mapBytes, if_pos hne, roundUpPage_wraps hwrap]
  have ht := mapTarget_of_le hi hoff hop (by rw [hzero]; exact UInt64.zero_le)
  have hle := UInt64.le_iff_toNat_le.mp (hexact.mapped (gemVa_maps ht).1).1
  have hsize := bo_size_le hreach (boOf_live hi)
  omega

/-- A MAP served from a range leaves mapped what the range had mapped. -/
theorem MapSizesExact.served (hi : boOf w arg.handle = some i) (hoff : arg.offsetInBo = 0)
    (hop : arg.operation = vaOpMap) (hfits : arg.mapSize.toNat + 0x3fff < 2 ^ 64)
    (hexact : MapSizesExact w i arg) : ServedBacked w i arg := by
  intro hle k hk
  have ht := mapTarget_of_le hi hoff hop hle
  obtain ⟨hret, hserved, -⟩ := gemVa_maps ht
  obtain ⟨-, len, hlen, -, hb⟩ := hexact.mapped hret
  obtain ⟨hpt, hphys⟩ := hserved k hk
  rw [hpt, hphys, hlen.unique (isMapLength_mapBytes w i arg hfits)] at hb
  exact hb

/-- A MAP at an offset does nothing. -/
theorem mapSizesExact_offset (hi : boOf w arg.handle = some i) (hoff : arg.offsetInBo ≠ 0) :
    MapSizesExact w i arg := by
  refine ⟨fun hret => ?_, fun _ => ?_⟩
  · rw [gemVa_offset hi hoff] at hret
    exact nomatch hret
  · rw [gemVa_offset hi hoff, if_pos hoff]

/-- A MAP of a size that does not wrap is exact, if what serves it is mapped. -/
theorem mapSizesExact_of_fits (hi : boOf w arg.handle = some i) (hop : arg.operation = vaOpMap)
    (hfits : arg.mapSize.toNat + 0x3fff < 2 ^ 64) (hserved : ServedBacked w i arg) :
    MapSizesExact w i arg := by
  have hlen := isMapLength_mapBytes w i arg hfits
  refine ⟨fun hret => ?_, fun hlt => ?_⟩
  · have ht := mapTarget_of_ok hi hop hret
    have hle := mapTarget_size ht
    obtain ⟨-, hfrom, hafresh⟩ := gemVa_maps ht
    refine ⟨UInt64.le_trans hlen.le hle, _, hlen, hle, ?_⟩
    cases hk : servedBy w i arg.vaAddress (mapBytes (w.bo i) arg) (vaProt arg.flags) with
    | some k =>
      obtain ⟨hpt, hphys⟩ := hfrom k hk
      rw [hpt, hphys]
      exact hserved hle k hk
    | none => exact hafresh hk
  · by_cases hoff : arg.offsetInBo = 0
    · rw [if_neg (not_not_intro hoff)]
      exact gemVa_too_large hi hoff hop (UInt64.lt_of_lt_of_le hlt hlen.le) true
    · rw [if_pos hoff]
      exact gemVa_offset hi hoff true

/-- The sizes are exact: those of GEM_CREATE always, and those of a MAP exactly where it is one
    at an offset, or its size does not wrap and the range that serves it is mapped. -/
theorem gemVa_sizes_exact_iff (w : Shim) :
    (∀ (create : GemCreateIn) (alloc : Option Int),
      (gemCreate w create alloc).1 = .ok →
      ∃ i, boOf (gemCreate w create alloc).2.2 (gemCreate w create alloc).2.1 = some i ∧
        WholePages create.boSize ((gemCreate w create alloc).2.2.bo i).size.toNat) ∧
    (Reach step (fun _ _ => True) .init w → ∀ (arg : GemVaArg) (i : Fin winsysMaxBo),
      boOf w arg.handle = some i → arg.operation = vaOpMap →
      (MapSizesExact w i arg ↔
        arg.offsetInBo ≠ 0 ∨ arg.mapSize.toNat ≤ 2 ^ 64 - 0x4000 ∧ ServedBacked w i arg)) := by
  refine ⟨fun create alloc h => gemCreate_wholePages create alloc h, ?_⟩
  intro hreach arg i hi hop
  constructor
  · intro hexact
    by_cases hoff : arg.offsetInBo = 0
    · have hfits := hexact.fits hreach hi hoff hop
      exact .inr ⟨by omega, hexact.served hi hoff hop hfits⟩
    · exact .inl hoff
  · rintro (hoff | ⟨hsize, hserved⟩)
    · exact mapSizesExact_offset hi hoff
    · exact mapSizesExact_of_fits hi hop (by omega) hserved

/-- A buffer of two pages. -/
def twoPageBuffer : Shim := step .init (.gemCreate ⟨0x8000, 0x4000, 4, 0⟩ (some 0))

theorem twoPageBuffer_reach : Reach step (fun _ _ => True) .init twoPageBuffer :=
  Reach.refl.tail _ trivial

/-- A MAP of `size` bytes of it. -/
def twoPageMap (size : UInt64) : GemVaArg := ⟨1, vaOpMap, 6, 0x400000000, 0, size⟩

/-- Half a page more than a page is two pages, and the MAP is exact. -/
theorem gemVa_sizes_exact_iff_pages : MapSizesExact twoPageBuffer 0 (twoPageMap 0x6000) := by
  refine ((gemVa_sizes_exact_iff twoPageBuffer).2 twoPageBuffer_reach (twoPageMap 0x6000) 0
    (by decide +kernel) rfl).mpr (.inr ⟨by decide, fun _ k hk => ?_⟩)
  have hnone : servedBy twoPageBuffer 0 (twoPageMap 0x6000).vaAddress
      (mapBytes (twoPageBuffer.bo 0) (twoPageMap 0x6000)) (vaProt (twoPageMap 0x6000).flags) =
      none := by decide +kernel
  exact nomatch hnone.symm.trans hk

/-- A MAP of all the bytes there are returns 0. -/
theorem not_gemVa_sizes_exact :
    ¬ ∀ w, Reach step (fun _ _ => True) .init w → ∀ (arg : GemVaArg) (i : Fin winsysMaxBo),
      boOf w arg.handle = some i → arg.operation = vaOpMap → MapSizesExact w i arg := by
  intro h
  have hexact := h twoPageBuffer twoPageBuffer_reach (twoPageMap 0xffffffffffffffff) 0
    (by decide +kernel) rfl
  have hret : (gemVa twoPageBuffer (twoPageMap 0xffffffffffffffff) true).1 = .ok := by
    decide +kernel
  have hsize : (twoPageBuffer.bo 0).size = 0x8000 := by decide +kernel
  have hle := (hexact.mapped hret).1
  rw [hsize] at hle
  exact absurd hle (by decide)

end OopsMesa.Winsys
