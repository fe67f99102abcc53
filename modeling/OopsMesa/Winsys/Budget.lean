/-
  What `retain` releases, and how it is accounted for.

  The used ranges, the oldest first, are a queue (`ByAge`). Both loops of `retain` take the first
  range off it, the one until the budget is met and the other until a slot is free, so that
  together they take off the least number for which the new range fits (`retain_evicts`).
  `Queued w ks s l` is what holds in between: `s` is `w` with the ranges of `ks` released down to
  `l`, and the counter is the sum of what is left.
-/
import Mathlib.Algebra.BigOperators.Group.Finset.Basic
import Mathlib.Data.Fintype.Card
import OopsMesa.Lib.Evict
import OopsMesa.Winsys.Retention

namespace OopsMesa.Winsys

open OopsMesa.Lib

variable {w s : Shim} {i j k : Fin winsysMaxRetained} {ks l : List (Fin winsysMaxRetained)}
  {r r' : RetainedRange}

/-! ## The queue of ranges -/

/-- Range `j` is released before range `k`. -/
def Older (w : Shim) (j k : Fin winsysMaxRetained) : Prop :=
  (w.retained j).seq < (w.retained k).seq ∨ (w.retained j).seq = (w.retained k).seq ∧ j < k

theorem older_iff : Older w j k ↔ (w.retained j).seq.toNat < (w.retained k).seq.toNat ∨
    (w.retained j).seq.toNat = (w.retained k).seq.toNat ∧ j.val < k.val := by
  unfold Older
  rw [UInt64.lt_iff_toNat_lt, UInt64.toNat_inj, Fin.lt_def]

/-- `ks` is the used ranges, the oldest first. -/
structure ByAge (w : Shim) (ks : List (Fin winsysMaxRetained)) : Prop where
  sorted : ks.Pairwise (Older w)
  used : ∀ k, k ∈ ks ↔ (w.retained k).used = true

/-- The bytes of some ranges. -/
def sizes (w : Shim) (ks : List (Fin winsysMaxRetained)) : Nat :=
  (ks.map fun k => (w.retained k).size.toNat).sum

/-- The bytes of the used ranges. -/
def retainedSum (w : Shim) : Nat :=
  ∑ k with (w.retained k).used = true, (w.retained k).size.toNat

theorem nodup_of_sorted (h : ks.Pairwise (Older w)) : ks.Nodup := by
  refine h.imp fun {j k} hjk => ?_
  rintro rfl
  have := older_iff.mp hjk
  omega

theorem ByAge.sum_eq (h : ByAge w ks) : retainedSum w = sizes w ks := by
  have hfin : Finset.univ.filter (fun k => (w.retained k).used = true) = ks.toFinset := by
    ext k
    rw [Finset.mem_filter, List.mem_toFinset, h.used]
    exact and_iff_right (Finset.mem_univ k)
  unfold retainedSum sizes
  rw [hfin, List.sum_toFinset _ (nodup_of_sorted h.sorted)]

/-- The used ranges can be put in order. -/
theorem exists_byAge (w : Shim) : ∃ ks, ByAge w ks := by
  let le : Fin winsysMaxRetained → Fin winsysMaxRetained → Bool := fun j k =>
    decide ((w.retained j).seq.toNat < (w.retained k).seq.toNat ∨
      (w.retained j).seq.toNat = (w.retained k).seq.toNat ∧ j.val ≤ k.val)
  let used := (List.finRange winsysMaxRetained).filter fun k => (w.retained k).used
  have htrans : ∀ i j k, le i j = true → le j k = true → le i k = true := by
    intro i j k hij hjk
    have hij := of_decide_eq_true hij
    have hjk := of_decide_eq_true hjk
    exact decide_eq_true (by omega)
  have htotal : ∀ j k, (le j k || le k j) = true := by
    intro j k
    rw [Bool.or_eq_true, decide_eq_true_iff, decide_eq_true_iff]
    omega
  have hperm : (used.mergeSort le).Perm used := List.mergeSort_perm used le
  have hnodup : (used.mergeSort le).Nodup :=
    hperm.nodup_iff.mpr ((List.nodup_finRange _).filter _)
  refine ⟨used.mergeSort le, ?_, fun k => ?_⟩
  · refine (List.pairwise_mergeSort htrans htotal used).imp₂ ?_ hnodup
    intro j k hjk hne
    have hjk := of_decide_eq_true hjk
    have hne : j.val ≠ k.val := fun h => hne (Fin.ext h)
    rw [older_iff]
    omega
  · rw [hperm.mem_iff, List.mem_filter]
    exact and_iff_right (List.mem_finRange k)

/-- The loop of `retained_release_oldest` finds the first of the queue. -/
theorem ByAge.oldest_eq (h : ByAge w (k :: ks)) : oldest w = some k := by
  have hk : (w.retained k).used = true := (h.used k).mp List.mem_cons_self
  have heq : oldest w = bestIdx (fun i => (w.retained i).used)
      fun i j => decide ((w.retained i).seq.toNat < (w.retained j).seq.toNat) := by
    unfold oldest
    simp only [UInt64.lt_iff_toNat_lt]
  cases ho : oldest w with
  | none =>
    rw [bestIdx_none ho k] at hk
    exact nomatch hk
  | some i =>
    have hi : i ∈ k :: ks := (h.used i).mpr (bestIdx_some ho)
    rw [heq] at ho
    have hmin := bestIdx_min ho hk
    rcases List.mem_cons.mp hi with rfl | hi
    · rfl
    · -- a later one of the queue is not older than the first
      have hold := older_iff.mp ((List.pairwise_cons.mp h.sorted).1 i hi)
      rw [Fin.le_def] at hmin
      omega

/-! ## Releasing a range -/

/-- The same range, whoever owns its pages. -/
def SameRange (r r' : RetainedRange) : Prop := ∃ b, r' = { r with ownsPhys := b }

theorem SameRange.refl (r : RetainedRange) : SameRange r r := ⟨r.ownsPhys, rfl⟩

theorem SameRange.trans {r'' : RetainedRange} (h : SameRange r r') (h' : SameRange r' r'') :
    SameRange r r'' := by
  obtain ⟨b, rfl⟩ := h
  obtain ⟨b', rfl⟩ := h'
  exact ⟨b', rfl⟩

theorem SameRange.used (h : SameRange r r') : r'.used = r.used := by
  obtain ⟨b, rfl⟩ := h
  rfl

theorem SameRange.seq (h : SameRange r r') : r'.seq = r.seq := by
  obtain ⟨b, rfl⟩ := h
  rfl

theorem SameRange.size (h : SameRange r r') : r'.size = r.size := by
  obtain ⟨b, rfl⟩ := h
  rfl

theorem setRetained_owns_same (k : Fin winsysMaxRetained) (b : Bool)
    (j : Fin winsysMaxRetained) :
    SameRange (w.retained j) ((w.setRetained k { w.retained k with ownsPhys := b }).retained j) := by
  rcases Decidable.em (j = k) with rfl | hne
  · rw [setRetained_retained_self]
    exact ⟨b, rfl⟩
  · rw [setRetained_retained_of_ne _ _ _ _ hne]
    exact .refl _

/-- Giving the pages of a range away leaves every range, the counter and the numbering. -/
theorem releasePages_same (j : Fin winsysMaxRetained) :
    SameRange (w.retained j) ((releasePages w k).retained j) := by
  unfold releasePages
  split
  · split
    · exact setRetained_owns_same _ true j
    · exact .refl _
  · exact .refl _

theorem releasePages_retainedBytes :
    (releasePages w k).retainedBytes = w.retainedBytes := by
  unfold releasePages
  split
  · split <;> rfl
  · rfl

theorem releasePages_retainedSeq : (releasePages w k).retainedSeq = w.retainedSeq := by
  unfold releasePages
  split
  · split <;> rfl
  · rfl

theorem retainedDrop_self : (retainedDrop w k).retained k = .zero := Function.update_self ..

theorem retainedDrop_of_ne (h : j ≠ k) : (retainedDrop w k).retained j = w.retained j :=
  Function.update_of_ne h ..

theorem retainedRelease_self : (retainedRelease w k).retained k = .zero := retainedDrop_self

theorem retainedRelease_of_ne (h : j ≠ k) :
    SameRange (w.retained j) ((retainedRelease w k).retained j) := by
  unfold retainedRelease
  rw [retainedDrop_of_ne h]
  exact releasePages_same (w := w.setMem _) j

theorem retainedRelease_retainedBytes :
    (retainedRelease w k).retainedBytes = w.retainedBytes - (w.retained k).size := by
  unfold retainedRelease retainedDrop
  dsimp only
  rw [releasePages_retainedBytes, (releasePages_same (w := w.setMem _) k).size]
  rfl

theorem retainedRelease_retainedSeq : (retainedRelease w k).retainedSeq = w.retainedSeq := by
  unfold retainedRelease retainedDrop
  dsimp only
  rw [releasePages_retainedSeq]
  rfl

/-! ## The loops of `retain` -/

/-- Between the rounds: of the queue `ks` of `w`, `l` is left in `s`. -/
structure Queued (w : Shim) (ks : List (Fin winsysMaxRetained)) (s : Shim)
    (l : List (Fin winsysMaxRetained)) : Prop where
  suffix : l <:+ ks
  used : ∀ k, k ∈ l ↔ (s.retained k).used = true
  same : ∀ k ∈ l, SameRange (w.retained k) (s.retained k)
  bytes : s.retainedBytes.toNat = sizes w l

theorem sizes_cons : sizes w (k :: l) = (w.retained k).size.toNat + sizes w l := List.sum_cons

theorem sizes_le_of_suffix (h : l <:+ ks) : sizes w l ≤ sizes w ks := by
  obtain ⟨l', rfl⟩ := h
  unfold sizes
  rw [List.map_append, List.sum_append]
  omega

theorem ByAge.queued (h : ByAge w ks) (hbytes : w.retainedBytes.toNat = retainedSum w) :
    Queued w ks w ks where
  suffix := List.suffix_rfl
  used := h.used
  same := fun _ _ => .refl _
  bytes := hbytes.trans h.sum_eq

theorem Queued.byAge (hq : Queued w ks s l) (h : ByAge w ks) : ByAge s l where
  sorted := by
    refine (h.sorted.sublist hq.suffix.sublist).imp_of_mem fun {j k} hj hk hjk => ?_
    unfold Older at hjk ⊢
    rwa [(hq.same j hj).seq, (hq.same k hk).seq]
  used := hq.used

/-- What is left counts as it did. -/
theorem Queued.sum_eq (hq : Queued w ks s l) (h : ByAge w ks) : retainedSum s = sizes w l := by
  rw [(hq.byAge h).sum_eq]
  refine congrArg List.sum (List.map_congr_left fun k hk => ?_)
  rw [(hq.same k hk).size]

/-- A round of either loop takes the first range off. -/
theorem Queued.round (h : ByAge w ks) (hq : Queued w ks s (k :: l)) :
    retainedReleaseOldest s = retainedRelease s k ∧ Queued w ks (retainedRelease s k) l := by
  have hage := hq.byAge h
  obtain ⟨hnot, -⟩ := List.nodup_cons.mp (nodup_of_sorted hage.sorted)
  have hsame := hq.same k List.mem_cons_self
  have hbytes := hq.bytes
  rw [sizes_cons] at hbytes
  refine ⟨?_, ?_, fun i => ?_, fun i hi => ?_, ?_⟩
  · unfold retainedReleaseOldest
    rw [hage.oldest_eq]
  · exact (List.suffix_cons k l).trans hq.suffix
  · rcases Decidable.em (i = k) with rfl | hne
    · rw [retainedRelease_self]
      exact iff_of_false hnot nofun
    · rw [(retainedRelease_of_ne hne).used, ← hq.used, List.mem_cons]
      exact (or_iff_right hne).symm
  · have hne : i ≠ k := by
      rintro rfl
      exact hnot hi
    exact (hq.same i (List.mem_cons_of_mem k hi)).trans (retainedRelease_of_ne hne)
  · have hle : (s.retained k).size ≤ s.retainedBytes := by
      rw [UInt64.le_iff_toNat_le, hsame.size]
      omega
    rw [retainedRelease_retainedBytes, UInt64.toNat_sub_of_le _ _ hle, hsame.size]
    omega

/-- The budget is met, or nothing is left to release. -/
def WithinBudget (w : Shim) (size : UInt64) (l : List (Fin winsysMaxRetained)) : Prop :=
  sizes w l + size.toNat ≤ winsysRetainedBytes.toNat ∨ l = []

/-- The guard of the first loop, where the sum does not wrap. -/
theorem Queued.overBudget_iff {size : UInt64} (hq : Queued w ks s l)
    (hpos : ∀ k ∈ ks, 0 < (w.retained k).size.toNat) (hsum : sizes w ks + size.toNat < 2 ^ 64) :
    overBudget size s = false ↔ WithinBudget w size l := by
  have hle := sizes_le_of_suffix (w := w) hq.suffix
  have hadd : (s.retainedBytes + size).toNat = sizes w l + size.toNat := by
    rw [UInt64.toNat_add, hq.bytes, Nat.mod_eq_of_lt (by omega)]
  have hnil : sizes w l = 0 ↔ l = [] := by
    cases l with
    | nil => exact iff_of_true rfl rfl
    | cons k l =>
      have hk := hpos k (hq.suffix.subset List.mem_cons_self)
      rw [sizes_cons]
      exact iff_of_false (by omega) nofun
  unfold overBudget WithinBudget
  rw [Bool.and_eq_false_iff, decide_eq_false_iff_not, decide_eq_false_iff_not, ← hnil,
    UInt64.lt_iff_toNat_lt, UInt64.lt_iff_toNat_lt, hadd, hq.bytes, UInt64.toNat_zero]
  omega

/-- The guard of the second. -/
theorem Queued.freeSlot_iff (h : ByAge w ks) (hq : Queued w ks s l) :
    (freeSlot s).isNone = false ↔ l.length < winsysMaxRetained := by
  have hcard := List.toFinset_card_of_nodup (nodup_of_sorted (hq.byAge h).sorted)
  have hmax := Fintype.card_fin winsysMaxRetained
  have hall : freeSlot s = none ↔ l.toFinset = Finset.univ := by
    unfold freeSlot
    rw [firstIdx_eq_none, Finset.eq_univ_iff_forall]
    refine forall_congr' fun k => ?_
    rw [Bool.not_eq_false', List.mem_toFinset, hq.used]
  rw [Bool.eq_false_iff, Ne, Option.isNone_iff_eq_none, hall, ← Finset.card_eq_iff_eq_univ, hcard,
    hmax]
  have hle := Finset.card_le_univ l.toFinset
  rw [hcard, hmax] at hle
  omega

/-! ## One call of `retain` -/

/-- The arguments of `retain`. -/
structure RetainArgs where
  va : UInt64
  size : UInt64
  phys : Int
  prot : Prot
  ownsPhys : Bool
  deriving DecidableEq, Repr

def RetainArgs.retain (a : RetainArgs) (w : Shim) : Shim :=
  Winsys.retain w a.va a.size a.phys a.prot a.ownsPhys

def RetainArgs.store (a : RetainArgs) (w : Shim) (k : Fin winsysMaxRetained) : Shim :=
  retainedStore w k a.va a.size a.phys a.prot a.ownsPhys

/-- The new range fits beside the ranges `l`. -/
def Fits (w : Shim) (size : UInt64) (l : List (Fin winsysMaxRetained)) : Prop :=
  WithinBudget w size l ∧ l.length < winsysMaxRetained

/-- A call of `retain` in `w`: both loops end; of the ranges by age the first are released, the
    least number for which the new one fits; it is stored in the slot the loop found. -/
structure RetainEnds (w : Shim) (a : RetainArgs) (ks : List (Fin winsysMaxRetained))
    (k : Nat) (i : Fin winsysMaxRetained) : Prop where
  byAge : ByAge w ks
  least : Evicts (Fits w a.size) ks k
  ends : ∃ m n v,
    Ends (overBudget a.size) retainedReleaseOldest m w v ∧
      Ends (fun w => (freeSlot w).isNone) retainedReleaseOldest n v
        ((ks.take k).foldl retainedRelease w)
  slot : freeSlot ((ks.take k).foldl retainedRelease w) = some i
  stored : a.retain w = a.store ((ks.take k).foldl retainedRelease w) i

/-- A call of `retain` that need not release a range. -/
theorem RetainArgs.retain_room (a : RetainArgs) (hbudget : overBudget a.size w = false)
    (hslot : freeSlot w = some i) : a.retain w = a.store w i := by
  have hisSome : (freeSlot w).isNone = false := by rw [hslot, Option.isNone_some]
  have hroom : makeRoom w a.size = w := by
    unfold makeRoom
    rw [(Ends.stop hbudget).whileUpTo_eq (Nat.zero_le _),
      (Ends.stop (g := fun w => (freeSlot w).isNone) hisSome).whileUpTo_eq (Nat.zero_le _)]
  unfold RetainArgs.retain RetainArgs.store Winsys.retain
  dsimp only
  rw [hroom, hslot]

theorem retain_evicts (a : RetainArgs) (h : ByAge w ks)
    (hbytes : w.retainedBytes.toNat = retainedSum w)
    (hpos : ∀ k ∈ ks, 0 < (w.retained k).size.toNat)
    (hsum : retainedSum w + a.size.toNat < 2 ^ 64) :
    ∃ k i, RetainEnds w a ks k i ∧
      Queued w ks ((ks.take k).foldl retainedRelease w) (ks.drop k) := by
  rw [h.sum_eq] at hsum
  have hnil : WithinBudget w a.size [] := .inr rfl
  have hlen : ks.length ≤ winsysMaxRetained := by
    have := (nodup_of_sorted h.sorted).length_le_card
    rwa [Fintype.card_fin] at this
  obtain ⟨m, hm, hqm, hendsm⟩ := loop_evicts (R := Queued w ks)
    (fun s l hq => hq.overBudget_iff hpos hsum) hnil (fun s k l hq => hq.round h)
    (h.queued hbytes)
  obtain ⟨n, hn, hqn, hendsn⟩ := loop_evicts (R := Queued w ks)
    (fun s l hq => hq.freeSlot_iff h) (by decide) (fun s k l hq => hq.round h) hqm
  have htake : (ks.take (m + n)).foldl retainedRelease w =
      ((ks.drop m).take n).foldl retainedRelease ((ks.take m).foldl retainedRelease w) := by
    rw [List.take_add, List.foldl_append]
  rw [List.drop_drop] at hqn
  rw [← htake] at hqn hendsn
  have hmono : ∀ k l, WithinBudget w a.size (k :: l) → WithinBudget w a.size l := by
    intro k l hb
    refine .inl ?_
    have hb := hb.resolve_right (List.cons_ne_nil k l)
    rw [sizes_cons] at hb
    omega
  have hleast := hm.and_then hmono hn
  have hroom : makeRoom w a.size = (ks.take (m + n)).foldl retainedRelease w := by
    have hm' := hm.le_length hnil
    have hn' := hn.le_length (by decide)
    rw [List.length_drop] at hn'
    unfold makeRoom
    rw [hendsm.whileUpTo_eq (hm'.trans hlen), hendsn.whileUpTo_eq (by omega)]
  obtain ⟨i, hi⟩ := makeRoom_freeSlot (w := w) a.size
  refine ⟨m + n, i, ⟨h, hleast, ⟨m, n, _, hendsm, hendsn⟩, ?_, ?_⟩, hqn⟩
  · rw [← hroom, hi]
  · unfold RetainArgs.retain RetainArgs.store retain
    dsimp only
    rw [hi, hroom]

end OopsMesa.Winsys
