/-
  The pointers buffers.c hands out for a range.

  `oops_winsys_bo_cpu_range` asks whether `bytes > size - offset`, which is exact. The other two
  ask whether `off + bytes > size`, in 64 bits: where the sum wraps it comes to less than the
  offset, which is within the buffer, so a range of almost 2^64 bytes is given a pointer. That is
  the only case (`pointers_inside_iff`). The end of a buffer's own range, though computed in 64
  bits too, does no harm: a range that reaches the top holds no address at all.
-/
import OopsMesa.Lib.Reach
import OopsMesa.Lib.Words
import OopsMesa.Winsys.Retention

namespace OopsMesa.Winsys

open OopsMesa.Lib

variable {w : Shim} {i j : Fin winsysMaxBo} {va bytes : UInt64}

/-! ## The statement -/

/-- The `bytes` addresses from `va` on lie in the range of a live buffer with a CPU mapping, to
    which `p` leads. -/
def InsideOne (w : Shim) (va bytes p : UInt64) : Prop :=
  ∃ i, (w.bo i).live = true ∧ (w.bo i).cpuPtr ≠ 0 ∧ (w.bo i).gpuVa.toNat ≤ va.toNat ∧
    va.toNat + bytes.toNat ≤ (w.bo i).gpuVa.toNat + (w.bo i).size.toNat ∧
    va.toNat + bytes.toNat ≤ 2 ^ 64 ∧ p = (w.bo i).cpuPtr + (va - (w.bo i).gpuVa)

/-- `oops_winsys_cpu_for_va` answers with a pointer only for a range inside a buffer. -/
def ForVaInside (w : Shim) (va bytes : UInt64) : Prop :=
  cpuForVa w va bytes ≠ 0 → InsideOne w va bytes (cpuForVa w va bytes)

/-- So does `oops_winsys_cpu_map_va`, whatever address the platform maps the buffer at. -/
def MapVaInside (w : Shim) (va bytes : UInt64) : Prop :=
  ∀ map, map ≠ some 0 → (cpuMapVa w va bytes map).1 ≠ 0 →
    InsideOne (cpuMapVa w va bytes map).2 va bytes (cpuMapVa w va bytes map).1

/-- The buffer `oops_winsys_cpu_for_va` finds. -/
def cpuForVaTarget (w : Shim) (va : UInt64) : Option (Fin winsysMaxBo) :=
  firstIdx fun i => (w.bo i).live && decide ((w.bo i).cpuPtr ≠ 0) && holdsVa (w.bo i) va

/-- From `va` on, `bytes` end within the 64 bits that offsets into the buffer have. -/
def OffsetFits (bo : Bo) (va bytes : UInt64) : Prop :=
  (va - bo.gpuVa).toNat + bytes.toNat < 2 ^ 64

/-! ## The search -/

theorem cpuForVa_none (h : cpuForVaTarget w va = none) : cpuForVa w va bytes = 0 := by
  unfold cpuForVaTarget at h
  unfold cpuForVa
  rw [h]

theorem cpuForVa_some (h : cpuForVaTarget w va = some i) : cpuForVa w va bytes =
    if (w.bo i).size < va - (w.bo i).gpuVa + bytes then 0
    else (w.bo i).cpuPtr + (va - (w.bo i).gpuVa) := by
  unfold cpuForVaTarget at h
  unfold cpuForVa
  rw [h]

/-- A range that holds an address does not reach the top. -/
theorem holdsVa_iff {bo : Bo} (h : holdsVa bo va = true) :
    0 < bo.gpuVa.toNat ∧ bo.gpuVa.toNat ≤ va.toNat ∧
      va.toNat < bo.gpuVa.toNat + bo.size.toNat ∧ bo.gpuVa.toNat + bo.size.toNat < 2 ^ 64 := by
  unfold holdsVa at h
  simp only [Bool.and_eq_true, decide_eq_true_eq, Bool.not_eq_true', decide_eq_false_iff_not,
    UInt64.lt_iff_toNat_lt, UInt64.toNat_add] at h
  obtain ⟨⟨hne, hge⟩, hlt⟩ := h
  have hva := va.toNat_lt
  have hsize := bo.size.toNat_lt
  have hpos : 0 < bo.gpuVa.toNat := UInt64.lt_iff_toNat_lt.mp (UInt64.pos_iff_ne_zero.mpr hne)
  omega

theorem cpuForVaTarget_spec (h : cpuForVaTarget w va = some i) :
    (w.bo i).live = true ∧ (w.bo i).cpuPtr ≠ 0 ∧ holdsVa (w.bo i) va = true := by
  have h := firstIdx_some h
  simp only [Bool.and_eq_true, decide_eq_true_eq] at h
  exact ⟨h.1.1, h.1.2, h.2⟩

/-- In the buffer found, the offset is what `va` is above its start. -/
theorem offset_toNat {bo : Bo} (h : holdsVa bo va = true) :
    (va - bo.gpuVa).toNat = va.toNat - bo.gpuVa.toNat :=
  UInt64.toNat_sub_of_le _ _ (UInt64.le_iff_toNat_le.mpr (holdsVa_iff h).2.1)

/-- A pointer is given where the sum wraps, and where it does not, only for what fits. -/
theorem cpuForVa_passes (bytes : UInt64) (h : cpuForVaTarget w va = some i) :
    ¬ (w.bo i).size < va - (w.bo i).gpuVa + bytes ↔
      ¬ OffsetFits (w.bo i) va bytes ∨
        va.toNat + bytes.toNat ≤ (w.bo i).gpuVa.toNat + (w.bo i).size.toNat := by
  obtain ⟨-, -, hholds⟩ := cpuForVaTarget_spec h
  obtain ⟨-, hge, hlt, hend⟩ := holdsVa_iff hholds
  have hoff := offset_toNat hholds
  have hbytes := bytes.toNat_lt
  unfold OffsetFits
  rw [UInt64.not_lt]
  by_cases hfits : (va - (w.bo i).gpuVa).toNat + bytes.toNat < 2 ^ 64
  · rw [add_le_iff hfits]
    omega
  · rw [UInt64.le_iff_toNat_le, UInt64.toNat_add]
    omega

/-- `oops_winsys_cpu_for_va` is right exactly where the sum does not wrap in the buffer it finds,
    or the address it computes is null. -/
theorem forVaInside_iff (w : Shim) (va bytes : UInt64) :
    ForVaInside w va bytes ↔
      ∀ i, cpuForVaTarget w va = some i → OffsetFits (w.bo i) va bytes ∨
        (w.bo i).cpuPtr + (va - (w.bo i).gpuVa) = 0 := by
  unfold ForVaInside
  cases ht : cpuForVaTarget w va with
  | none =>
    rw [cpuForVa_none ht]
    exact ⟨fun _ => nofun, fun _ h => absurd rfl h⟩
  | some i =>
    obtain ⟨hlive, hcpu, hholds⟩ := cpuForVaTarget_spec ht
    obtain ⟨hpos, hge, hlt, hend⟩ := holdsVa_iff hholds
    have hoff := offset_toNat hholds
    have hpass := cpuForVa_passes bytes ht
    rw [cpuForVa_some ht]
    constructor
    · intro h i' hi'
      obtain rfl := Option.some.inj hi'
      by_cases hfits : OffsetFits (w.bo i) va bytes
      · exact .inl hfits
      · right
        by_contra hne
        -- a pointer is given, and the range goes past the last address
        rw [if_neg (hpass.mpr (.inl hfits))] at h
        obtain ⟨j, -, -, -, -, htop, -⟩ := h hne
        unfold OffsetFits at hfits
        omega
    · intro h hne
      split at hne
      · exact absurd rfl hne
      · next hlarge =>
        rw [if_neg hlarge]
        obtain hfits | hzero := h i rfl
        · have hin := (hpass.mp hlarge).resolve_left (not_not_intro hfits)
          exact ⟨i, hlive, hcpu, hge, hin, by omega, rfl⟩
        · exact absurd hzero hne

/-! ## The mapping made first -/

/-- The buffer that `oops_winsys_cpu_map_va` has mapped is the one that is then found. -/
theorem cpuForVaTarget_mapped {v : Shim} (ht : cpuMapVaTarget w va = some i)
    (hi : (v.bo i).live = true ∧ (v.bo i).cpuPtr ≠ 0 ∧ holdsVa (v.bo i) va = true)
    (hj : ∀ j, j ≠ i → v.bo j = w.bo j) : cpuForVaTarget v va = some i := by
  refine firstIdx_eq_some ?_ fun j hji => ?_
  · simp [hi.1, hi.2.1, hi.2.2]
  · have hno := firstIdx_lowest ht hji
    rw [hj j (ne_of_lt hji)]
    rw [Bool.and_eq_false_iff] at hno
    rcases hno with hno | hno <;> simp [hno]

/-- The address the buffer's CPU mapping has, or is given. -/
def cpuPtrAfter (bo : Bo) (map : Option UInt64) : Option UInt64 :=
  if bo.cpuPtr ≠ 0 then some bo.cpuPtr else map

theorem cpuMapVa_refused {map : Option UInt64} (ht : cpuMapVaTarget w va = some i)
    (hp : cpuPtrAfter (w.bo i) map = none) : (cpuMapVa w va bytes map).1 = 0 := by
  unfold cpuPtrAfter at hp
  split at hp
  · exact nomatch hp
  · next h0 =>
    subst hp
    unfold cpuMapVa cpuMap
    rw [ht]
    dsimp only
    rw [if_neg h0]

/-- What `oops_winsys_cpu_map_va` comes to. -/
theorem cpuMapVa_mapped (bytes : UInt64) {map : Option UInt64} {p : UInt64}
    (ht : cpuMapVaTarget w va = some i) (hp : cpuPtrAfter (w.bo i) map = some p) :
    ∃ v, cpuMapVa w va bytes map = (cpuForVa v va bytes, v) ∧
      v.bo = Function.update w.bo i { w.bo i with cpuPtr := p } := by
  unfold cpuPtrAfter at hp
  unfold cpuMapVa cpuMap
  rw [ht]
  dsimp only
  split at hp
  · next h0 =>
    obtain rfl := Option.some.inj hp
    rw [if_pos h0]
    exact ⟨w, rfl, (Function.update_eq_self i w.bo).symm⟩
  · next h0 =>
    subst hp
    rw [if_neg h0]
    exact ⟨_, rfl, rfl⟩

/-- With the buffer mapped at `p`. -/
theorem mapVaInside_at {map : Option UInt64} {p : UInt64} (ht : cpuMapVaTarget w va = some i)
    (hp : cpuPtrAfter (w.bo i) map = some p) (hp0 : p ≠ 0) :
    ((cpuMapVa w va bytes map).1 ≠ 0 →
        InsideOne (cpuMapVa w va bytes map).2 va bytes (cpuMapVa w va bytes map).1) ↔
      OffsetFits (w.bo i) va bytes ∨ p + (va - (w.bo i).gpuVa) = 0 := by
  have hfound := firstIdx_some ht
  rw [Bool.and_eq_true] at hfound
  obtain ⟨v, heq, hbo⟩ := cpuMapVa_mapped bytes ht hp
  have hself : v.bo i = { w.bo i with cpuPtr := p } := by rw [hbo, Function.update_self]
  have htarget : cpuForVaTarget v va = some i := by
    refine cpuForVaTarget_mapped ht ?_ fun j hji => by rw [hbo, Function.update_of_ne hji]
    rw [hself]
    exact ⟨hfound.1, hp0, hfound.2⟩
  rw [heq]
  refine (forVaInside_iff v va bytes).trans ?_
  rw [htarget]
  constructor
  · intro h
    have h := h i rfl
    rw [hself] at h
    exact h
  · intro h i' hi'
    obtain rfl := Option.some.inj hi'
    rw [hself]
    exact h

/-- There is an address to map a buffer at, not null, at which an offset is not null either. -/
theorem exists_map (off : UInt64) : ∃ p : UInt64, p ≠ 0 ∧ p + off ≠ 0 := by
  by_cases h : (1 : UInt64) + off = 0
  · refine ⟨2, by decide, fun h2 => ?_⟩
    have h12 : (2 : UInt64) + off = 1 + (1 + off) := by
      rw [← UInt64.add_assoc]
      rfl
    rw [h12, h] at h2
    exact absurd h2 (by decide)
  · exact ⟨1, by decide, h⟩

/-- `oops_winsys_cpu_map_va` is right exactly where the sum does not wrap in the buffer it maps,
    or that is mapped where the address computed is null. -/
theorem mapVaInside_iff (w : Shim) (va bytes : UInt64) :
    MapVaInside w va bytes ↔
      ∀ i, cpuMapVaTarget w va = some i → OffsetFits (w.bo i) va bytes ∨
        (w.bo i).cpuPtr ≠ 0 ∧ (w.bo i).cpuPtr + (va - (w.bo i).gpuVa) = 0 := by
  constructor
  · intro h i ht
    by_cases h0 : (w.bo i).cpuPtr = 0
    · obtain ⟨p, hp0, hp⟩ := exists_map (va - (w.bo i).gpuVa)
      have hafter : cpuPtrAfter (w.bo i) (some p) = some p := if_neg (not_not_intro h0)
      have hne : (some p : Option UInt64) ≠ some 0 := fun he => hp0 (Option.some.inj he)
      exact .inl (((mapVaInside_at ht hafter hp0).mp (h _ hne)).resolve_right hp)
    · have hafter : cpuPtrAfter (w.bo i) none = some (w.bo i).cpuPtr := if_pos h0
      obtain hfits | hzero := (mapVaInside_at ht hafter h0).mp (h none nofun)
      · exact .inl hfits
      · exact .inr ⟨h0, hzero⟩
  · intro h map hmap
    cases ht : cpuMapVaTarget w va with
    | none =>
      have hnone : cpuForVaTarget w va = none := by
        refine firstIdx_eq_none.mpr fun i => ?_
        have hno := firstIdx_eq_none.mp ht i
        rw [Bool.and_eq_false_iff] at hno
        rcases hno with hno | hno <;> simp [hno]
      unfold cpuMapVa
      rw [ht, cpuForVa_none hnone]
      exact fun hne => absurd rfl hne
    | some i =>
      cases hp : cpuPtrAfter (w.bo i) map with
      | none =>
        intro hne
        exact absurd (cpuMapVa_refused ht hp) hne
      | some p =>
        unfold cpuPtrAfter at hp
        by_cases h0 : (w.bo i).cpuPtr = 0
        · have hafter : cpuPtrAfter (w.bo i) map = some p := hp
          rw [if_neg (not_not_intro h0)] at hp
          have hp0 : p ≠ 0 := by
            rintro rfl
            exact hmap hp
          exact (mapVaInside_at ht hafter hp0).mpr (.inl ((h i ht).resolve_right fun hz => hz.1 h0))
        · have hafter : cpuPtrAfter (w.bo i) map = some p := hp
          rw [if_pos h0, Option.some.injEq] at hp
          subst hp
          exact (mapVaInside_at ht hafter h0).mpr ((h i ht).imp_right And.right)

/-! ## The range in a buffer -/

/-- `oops_winsys_bo_cpu_range` gives a pointer only for a range inside the buffer. -/
theorem boCpuRange_inside (w : Shim) (handle : UInt32) (offset bytes : UInt64)
    (map : Option UInt64) (h : (boCpuRange w handle offset bytes map).1 ≠ 0) :
    ∃ i, boOf w handle = some i ∧ offset.toNat + bytes.toNat ≤ (w.bo i).size.toNat := by
  unfold boCpuRange at h
  cases ht : boCpuRangeTarget w handle offset bytes with
  | none =>
    rw [ht] at h
    exact absurd rfl h
  | some i =>
    obtain ⟨hi, hc⟩ := Option.filter_eq_some_iff.mp ht
    simp only [Bool.not_eq_true', Bool.or_eq_false_iff, decide_eq_false_iff_not,
      UInt64.not_lt] at hc
    exact ⟨i, hi, (le_sub_iff hc.1).mp hc.2⟩

/-- No pointer leaves its buffer: never by handle, and by address exactly where the offset and the
    bytes do not wrap, in the buffer found, or the address computed is null. -/
theorem pointers_inside_iff (w : Shim) :
    (∀ handle offset bytes map, (boCpuRange w handle offset bytes map).1 ≠ 0 →
      ∃ i, boOf w handle = some i ∧ offset.toNat + bytes.toNat ≤ (w.bo i).size.toNat) ∧
    (∀ va bytes, ForVaInside w va bytes ↔
      ∀ i, cpuForVaTarget w va = some i → OffsetFits (w.bo i) va bytes ∨
        (w.bo i).cpuPtr + (va - (w.bo i).gpuVa) = 0) ∧
    ∀ va bytes, MapVaInside w va bytes ↔
      ∀ i, cpuMapVaTarget w va = some i → OffsetFits (w.bo i) va bytes ∨
        (w.bo i).cpuPtr ≠ 0 ∧ (w.bo i).cpuPtr + (va - (w.bo i).gpuVa) = 0 :=
  ⟨boCpuRange_inside w, forVaInside_iff w, mapVaInside_iff w⟩

/-- A buffer of two pages, mapped for the CPU and at a GPU address. -/
def mappedBuffer : Shim :=
  run .init [.gemCreate ⟨0x8000, 0x4000, 4, 0⟩ (some 0),
    .boCpuRange 1 0 8 (some 0x200000000),
    .gemVa ⟨1, vaOpMap, 6, 0x400000000, 0, 0x8000⟩ true]

/-- Sixteen bytes into it, all the bytes there are but eight. -/
theorem not_pointers_inside :
    ¬ ∀ w, Reach step (fun _ _ => True) .init w → ∀ va bytes, ForVaInside w va bytes := by
  intro h
  have hreach : Reach step (fun _ _ => True) .init mappedBuffer :=
    Reach.foldl _ fun _ _ _ => trivial
  have hne : cpuForVa mappedBuffer 0x400000010 0xfffffffffffffff8 ≠ 0 := by decide +kernel
  obtain ⟨i, -, -, -, -, htop, -⟩ := h _ hreach 0x400000010 0xfffffffffffffff8 hne
  exact absurd htop (by decide)

end OopsMesa.Winsys
