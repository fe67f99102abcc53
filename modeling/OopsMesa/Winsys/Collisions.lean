/-
  What GEM_VA says of buffers in the way.

  On Linux the kernel refuses a mapping that collides with another. Here the map is made, and the
  log gets a line for each live buffer whose recorded range it overlaps. So that the log can be
  trusted, those lines have to be neither too many nor too few: where maps are of whole buffers
  and end below the top of the address space, a map says exactly which buffers are in its way, and
  the recorded ranges of a run stay apart at every moment exactly if no map that succeeded had
  anything to say (`collisions_told`).
-/
import OopsMesa.Lib.Reach
import OopsMesa.Winsys.Sizes

namespace OopsMesa.Winsys

open OopsMesa.Lib

/-! ## The code -/

/-- The values of a line: `"VA COLLISION: buffer %u at 0x%llx (%llu bytes) overlaps live buffer %u
    at 0x%llx (%llu bytes) - one of them is leaked"`. -/
structure Collision where
  handle : UInt32
  va : UInt64
  size : UInt64
  other : UInt32
  otherVa : UInt64
  otherSize : UInt64
  deriving DecidableEq

/-- The line about entry `j`. -/
def collisionWith (w : Shim) (arg : GemVaArg) (size : UInt64) (j : Fin winsysMaxBo) : Collision :=
  ⟨arg.handle, arg.vaAddress, size, handleOf j, (w.bo j).gpuVa, (w.bo j).size⟩

/-- A round of the search for buffers in the way. -/
def collisionAt (w : Shim) (i : Fin winsysMaxBo) (arg : GemVaArg) (size : UInt64)
    (j : Fin winsysMaxBo) : Option Collision :=
  if !(w.bo j).live || decide (j = i) || decide ((w.bo j).gpuVa = 0) then none
  else if endsOverlap arg.vaAddress size (w.bo j).gpuVa (w.bo j).size then
    some (collisionWith w arg size j)
  else none

/-- The lines of `oops_winsys_gem_va` about collisions. -/
def gemVaCollisions (w : Shim) (arg : GemVaArg) : List Collision :=
  match boOf w arg.handle with
  | none => []
  | some i =>
    let size := mapBytes (w.bo i) arg
    if arg.offsetInBo ≠ 0 then []
    else if arg.operation = vaOpMap then
      if (w.bo i).size < size then []
      else (List.finRange winsysMaxBo).filterMap (collisionAt w i arg size)
    else []

/-! ## The statement -/

/-- A live buffer with a recorded range. -/
def Bo.Placed (bo : Bo) : Prop := bo.live = true ∧ bo.gpuVa ≠ 0

/-- One of the `size` addresses from `va` on. -/
def IsAmong (va size : UInt64) (a : Nat) : Prop := va.toNat ≤ a ∧ a < va.toNat + size.toNat

/-- No two buffers' recorded ranges have an address in common. -/
def RangesApart (w : Shim) : Prop :=
  ∀ i j a, (w.bo i).Placed → (w.bo j).Placed → IsAmong (w.bo i).gpuVa (w.bo i).size a →
    IsAmong (w.bo j).gpuVa (w.bo j).size a → i = j

/-- A MAP is of the whole buffer, and of addresses that are not null and end below the top. -/
def PlainMap (w : Shim) : Op → Prop
  | .gemVa arg _ => ∀ i, mapTarget w arg = some i →
    mapBytes (w.bo i) arg = (w.bo i).size ∧ arg.vaAddress ≠ 0 ∧
      EndsBelowTop arg.vaAddress (w.bo i).size
  | _ => True

/-- The buffer stands where another is to be mapped. -/
def InTheWay (w : Shim) (arg : GemVaArg) (i j : Fin winsysMaxBo) : Prop :=
  j ≠ i ∧ (w.bo j).Placed ∧ ∃ a, IsAmong (w.bo j).gpuVa (w.bo j).size a ∧
    IsAmong arg.vaAddress (mapBytes (w.bo i) arg) a

/-- A MAP has a line for each buffer in its way, in the order of the table, and any other GEM_VA
    has none. -/
structure TellsCollisions (w : Shim) (arg : GemVaArg) : Prop where
  lines : ∀ c, c ∈ gemVaCollisions w arg ↔ ∃ i j, mapTarget w arg = some i ∧
    InTheWay w arg i j ∧ c = collisionWith w arg (mapBytes (w.bo i) arg) j
  sorted : (gemVaCollisions w arg).Pairwise fun c d => c.other < d.other

/-- Whatever GEM_VA is called with, its lines are exact. -/
def EveryLine (w : Shim) : Op → Prop
  | .gemVa arg _ => TellsCollisions w arg
  | _ => True

/-- A MAP that returns 0 has nothing to say. -/
def NothingInTheWay (w : Shim) : Op → Prop
  | .gemVa arg mapOk => (gemVa w arg mapOk).1 = .ok → gemVaCollisions w arg = []
  | _ => True

/-! ## Ranges -/

variable {w : Shim} {op : Op} {arg : GemVaArg} {mapOk : Bool} {i j : Fin winsysMaxBo}

/-- The code's test is of the addresses. -/
theorem endsOverlap_iff {base n base' n' : UInt64} (hn : n ≠ 0) (hn' : n' ≠ 0)
    (h : EndsBelowTop base n) (h' : EndsBelowTop base' n') :
    endsOverlap base n base' n' = true ↔ ∃ a, IsAmong base' n' a ∧ IsAmong base n a := by
  have hpos : n.toNat ≠ 0 := fun h => hn (UInt64.toNat_inj.mp h)
  have hpos' : n'.toNat ≠ 0 := fun h => hn' (UInt64.toNat_inj.mp h)
  unfold EndsBelowTop at h h'
  unfold endsOverlap IsAmong
  rw [Bool.and_eq_true, decide_eq_true_eq, decide_eq_true_eq, UInt64.lt_iff_toNat_lt,
    UInt64.lt_iff_toNat_lt, UInt64.toNat_add, UInt64.toNat_add, Nat.mod_eq_of_lt h,
    Nat.mod_eq_of_lt h']
  constructor
  · intro ⟨hlt, hlt'⟩
    -- the later of the two starts
    exact ⟨max base.toNat base'.toNat, by omega, by omega⟩
  · intro ⟨a, ha', ha⟩
    omega

/-- Sizes are not 0, and recorded ranges end below the top. -/
structure Sized (w : Shim) : Prop where
  size : ∀ j, (w.bo j).live = true → (w.bo j).size ≠ 0
  below : ∀ j, (w.bo j).Placed → EndsBelowTop (w.bo j).gpuVa (w.bo j).size

theorem Sized.init : Sized .init where
  size := nofun
  below := fun _ h => nomatch h.1

/-- What a call does to where a buffer is: a MAP that succeeds places it, or it is left with none
    if not where it was. -/
theorem step_placed (op : Op) (j : Fin winsysMaxBo) :
    (∃ arg mapOk, op = .gemVa arg mapOk ∧ mapTarget w arg = some j ∧
      (gemVa w arg mapOk).1 = .ok ∧ ((step w op).bo j).gpuVa = arg.vaAddress) ∨
    ¬ ((step w op).bo j).Placed ∨
    (((step w op).bo j).live = (w.bo j).live ∧ ((step w op).bo j).gpuVa = (w.bo j).gpuVa ∧
      ((step w op).bo j).size = (w.bo j).size) := by
  by_cases hj : opTarget w op = some j
  · have htarget {k : Fin winsysMaxBo} (hk : opTarget w op = some k) : k = j :=
      Option.some.inj (hk.symm.trans hj)
    have he := step_effect (w := w) op
    generalize hw : step w op = w' at he ⊢
    cases he with
    | idle => exact .inr (.inr ⟨rfl, rfl, rfl⟩)
    | create arg phys k _ hk =>
      obtain rfl := htarget hk
      refine .inr (.inl fun hp => hp.2 ?_)
      rw [setBo_bo_self]
      rfl
    | close handle k hk =>
      obtain rfl := htarget hk
      refine .inr (.inl fun hp => hp.2 ?_)
      rw [setBo_bo_self]
      rfl
    | cpu op k v hk =>
      obtain rfl := htarget (opTarget_cpu hk)
      refine .inr (.inr ?_)
      unfold cpuMapped
      rw [setBo_bo_self]
      exact ⟨rfl, rfl, rfl⟩
    | served arg mapOk k r hk hr =>
      obtain rfl := htarget (Option.eq_some_of_filter_eq_some hk)
      refine .inl ⟨arg, mapOk, rfl, hk, ?_, ?_⟩
      · rw [gemVa_of_servedBy hk hr]
      · rw [mapFromRetained_bo, Function.update_self]
    | afresh arg mapOk k hk hr =>
      obtain rfl := htarget (Option.eq_some_of_filter_eq_some hk)
      cases mapOk with
      | true =>
        refine .inl ⟨arg, true, rfl, hk, ?_, ?_⟩
        · rw [gemVa_of_mapTarget hk, hr]
          rfl
        · rw [mapAfresh_true]
          show ((Shim.setBo _ k _).bo k).gpuVa = _
          rw [setBo_bo_self]
      | false =>
        have hbo := (releaseOverlapping_releases (w := w) arg.vaAddress
          (mapBytes (w.bo k) arg)).bo
        rw [mapAfresh_false, hbo]
        exact .inr (.inr ⟨rfl, rfl, rfl⟩)
    | unmap arg mapOk k hk =>
      obtain rfl := htarget (Option.eq_some_of_filter_eq_some hk)
      refine .inr (.inl fun hp => hp.2 ?_)
      rw [setBo_bo_self]
  · rw [step_bo_of_ne hj]
    exact .inr (.inr ⟨rfl, rfl, rfl⟩)

/-- A MAP leaves its buffer live, and as large as it was. -/
theorem step_map_size (h : mapTarget w arg = some i) (mapOk : Bool) :
    ((step w (.gemVa arg mapOk)).bo i).live = true ∧
      ((step w (.gemVa arg mapOk)).bo i).size = (w.bo i).size := by
  have hlive := mapTarget_live h
  obtain ⟨_, _, hop, -⟩ | ⟨_, hop, -⟩ | ⟨hl, hs⟩ := step_bo_cases (w := w) (.gemVa arg mapOk) i
  · cases hop
  · cases hop
  · exact ⟨hl.trans hlive, hs⟩

theorem Sized.step (h : Sized w) (hplain : PlainMap w op) : Sized (step w op) where
  size := by
    intro j hlive
    obtain ⟨arg, _, _, _, hne, hsize⟩ | ⟨_, _, _, hzero⟩ | ⟨hl, hs⟩ :=
      step_bo_cases (w := w) op j
    · rw [hsize]
      exact hne
    · rw [hzero] at hlive
      exact nomatch hlive
    · rw [hs]
      exact h.size j (hl.symm.trans hlive)
  below := by
    intro j hp
    obtain ⟨arg, mapOk, rfl, hmap, -, hva⟩ | hno | ⟨hl, hva, hs⟩ := step_placed (w := w) op j
    · rw [hva, (step_map_size hmap mapOk).2]
      exact (hplain j hmap).2.2
    · exact absurd hp hno
    · rw [hva, hs]
      refine h.below j ⟨hl.symm.trans hp.1, ?_⟩
      rw [← hva]
      exact hp.2

/-! ## Lines -/

theorem gemVaCollisions_of_mapTarget (h : mapTarget w arg = some i) :
    gemVaCollisions w arg =
      (List.finRange winsysMaxBo).filterMap (collisionAt w i arg (mapBytes (w.bo i) arg)) := by
  obtain ⟨hb, hc⟩ := Option.filter_eq_some_iff.mp h
  simp only [Bool.and_eq_true, beq_iff_eq, Bool.not_eq_true', decide_eq_false_iff_not] at hc
  obtain ⟨⟨ho, hop⟩, hs⟩ := hc
  unfold gemVaCollisions
  rw [hb]
  dsimp only
  rw [if_neg (not_not_intro ho), if_pos hop, if_neg hs]

theorem gemVaCollisions_of_no_target (h : mapTarget w arg = none) : gemVaCollisions w arg = [] := by
  unfold gemVaCollisions
  cases hb : boOf w arg.handle with
  | none => rfl
  | some i =>
    dsimp only
    split_ifs with ho hop hs
    · rfl
    · rfl
    · have hle : mapBytes (w.bo i) arg ≤ (w.bo i).size := UInt64.not_lt.mp hs
      have hmap := mapTarget_of_le hb (not_not.mp ho) hop hle
      exact nomatch hmap.symm.trans h
    · rfl

theorem collisionAt_eq_some {size : UInt64} {c : Collision} :
    collisionAt w i arg size j = some c ↔ j ≠ i ∧ (w.bo j).Placed ∧
      endsOverlap arg.vaAddress size (w.bo j).gpuVa (w.bo j).size = true ∧
      c = collisionWith w arg size j := by
  have hskip : (!(w.bo j).live || decide (j = i) || decide ((w.bo j).gpuVa = 0)) = false ↔
      j ≠ i ∧ (w.bo j).Placed := by
    unfold Bo.Placed
    rw [Bool.or_eq_false_iff, Bool.or_eq_false_iff, Bool.not_eq_false', decide_eq_false_iff_not,
      decide_eq_false_iff_not, and_assoc, and_left_comm]
  unfold collisionAt
  split_ifs with hs ho
  · have hno : ¬ (j ≠ i ∧ (w.bo j).Placed) := fun h => by rw [hskip.mpr h] at hs; exact nomatch hs
    exact ⟨nofun, fun h => absurd ⟨h.1, h.2.1⟩ hno⟩
  · obtain ⟨hne, hp⟩ := hskip.mp (Bool.not_eq_true _ ▸ hs)
    exact ⟨fun h => ⟨hne, hp, ho, (Option.some.inj h).symm⟩, fun h => by rw [h.2.2.2]⟩
  · exact ⟨nofun, fun h => absurd h.2.2.1 ho⟩

/-- What is told of a MAP of a whole buffer is what is in its way. -/
theorem tellsCollisions (h : Sized w) (hplain : PlainMap w (.gemVa arg mapOk)) :
    TellsCollisions w arg := by
  cases hmap : mapTarget w arg with
  | none =>
    have hnone := gemVaCollisions_of_no_target hmap
    constructor
    · intro c
      rw [hnone]
      refine ⟨nofun, fun ⟨i, _, hi, _⟩ => ?_⟩
      exact nomatch hi.symm.trans hmap
    · rw [hnone]
      exact .nil
  | some i =>
    have hlines := gemVaCollisions_of_mapTarget hmap
    obtain ⟨hwhole, -, hbelow⟩ := hplain i hmap
    have hsize := h.size i (mapTarget_live hmap)
    have hway (j : Fin winsysMaxBo) (hj : (w.bo j).Placed) :
        endsOverlap arg.vaAddress (mapBytes (w.bo i) arg) (w.bo j).gpuVa (w.bo j).size = true ↔
          ∃ a, IsAmong (w.bo j).gpuVa (w.bo j).size a ∧
            IsAmong arg.vaAddress (mapBytes (w.bo i) arg) a := by
      rw [hwhole]
      exact endsOverlap_iff hsize (h.size j hj.1) hbelow (h.below j hj)
    constructor
    · intro c
      rw [hlines, List.mem_filterMap]
      constructor
      · rintro ⟨j, -, hc⟩
        obtain ⟨hne, hj, hover, hc⟩ := collisionAt_eq_some.mp hc
        exact ⟨i, j, hmap, ⟨hne, hj, (hway j hj).mp hover⟩, hc⟩
      · rintro ⟨i', j, hi', ⟨hne, hj, hmeet⟩, hc⟩
        obtain rfl := Option.some.inj (hmap.symm.trans hi')
        exact ⟨j, List.mem_finRange j,
          collisionAt_eq_some.mpr ⟨hne, hj, (hway j hj).mpr hmeet, hc⟩⟩
    · rw [hlines]
      refine List.Pairwise.filterMap _ ?_ (List.pairwise_lt_finRange winsysMaxBo)
      intro j k hjk c hc d hd
      obtain ⟨-, -, -, rfl⟩ := collisionAt_eq_some.mp hc
      obtain ⟨-, -, -, rfl⟩ := collisionAt_eq_some.mp hd
      show handleOf j < handleOf k
      rw [UInt32.lt_iff_toNat_lt, handleOf_toNat, handleOf_toNat]
      exact Nat.add_lt_add_right hjk 1

/-! ## Runs -/

/-- A MAP that succeeds puts its buffer at the address, and leaves the others. -/
theorem step_of_map (hmap : mapTarget w arg = some i) (hret : (gemVa w arg mapOk).1 = .ok) :
    ((step w (.gemVa arg mapOk)).bo i).gpuVa = arg.vaAddress ∧
      ∀ j, j ≠ i → (step w (.gemVa arg mapOk)).bo j = w.bo j := by
  refine ⟨?_, fun j hj => ?_⟩
  · show ((gemVa w arg mapOk).2.bo i).gpuVa = _
    rw [gemVa_of_mapTarget hmap] at hret ⊢
    cases hk : servedBy w i arg.vaAddress (mapBytes (w.bo i) arg) (vaProt arg.flags) with
    | some k =>
      dsimp only
      rw [mapFromRetained_bo, Function.update_self]
    | none =>
      rw [hk] at hret
      cases mapOk with
      | true =>
        dsimp only
        rw [mapAfresh_true]
        show ((Shim.setBo _ i _).bo i).gpuVa = _
        rw [setBo_bo_self]
      | false => exact nomatch hret
  · have htarget : opTarget w (.gemVa arg mapOk) ≠ some j := by
      intro heq
      exact hj (Option.some.inj (heq.symm.trans (Option.eq_some_of_filter_eq_some hmap)))
    exact step_bo_of_ne htarget

/-- Ranges that were apart stay so where no MAP succeeds. -/
theorem RangesApart.step_of_no_map (h : RangesApart w)
    (hno : ∀ arg mapOk i, op = .gemVa arg mapOk → mapTarget w arg = some i →
      (gemVa w arg mapOk).1 ≠ .ok) : RangesApart (step w op) := by
  intro i j a hi hj ha ha'
  obtain ⟨arg, mapOk, hop, hmap, hret, -⟩ | hdead | ⟨hl, hva, hs⟩ := step_placed (w := w) op i
  · exact absurd hret (hno arg mapOk i hop hmap)
  · exact absurd hi hdead
  obtain ⟨arg, mapOk, hop, hmap, hret, -⟩ | hdead | ⟨hl', hva', hs'⟩ := step_placed (w := w) op j
  · exact absurd hret (hno arg mapOk j hop hmap)
  · exact absurd hj hdead
  unfold Bo.Placed at hi hj
  rw [hl, hva] at hi
  rw [hl', hva'] at hj
  rw [hva, hs] at ha
  rw [hva', hs'] at ha'
  exact h i j a hi hj ha ha'

/-- A MAP that succeeds keeps the ranges apart exactly if nothing is in its way. -/
theorem rangesApart_map_iff (h : RangesApart w) (hmap : mapTarget w arg = some i)
    (hplain : PlainMap w (.gemVa arg mapOk)) (hret : (gemVa w arg mapOk).1 = .ok) :
    RangesApart (step w (.gemVa arg mapOk)) ↔ ∀ j, ¬ InTheWay w arg i j := by
  obtain ⟨hva, hrest⟩ := step_of_map hmap hret
  obtain ⟨hlive, hsize⟩ := step_map_size hmap mapOk
  obtain ⟨hwhole, hne, -⟩ := hplain i hmap
  have hplaced : ((step w (.gemVa arg mapOk)).bo i).Placed := ⟨hlive, by rw [hva]; exact hne⟩
  unfold InTheWay
  rw [hwhole]
  constructor
  · intro hapart j ⟨hji, hj, a, haj, ha⟩
    refine hji (hapart j i a ?_ hplaced ?_ ?_)
    · rw [hrest j hji]
      exact hj
    · rw [hrest j hji]
      exact haj
    · rw [hva, hsize]
      exact ha
  · intro hclear k l a hk hl hak hal
    by_cases hki : k = i
    · by_cases hli : l = i
      · exact hki.trans hli.symm
      · subst hki
        rw [hrest l hli] at hl hal
        rw [hva, hsize] at hak
        exact absurd ⟨hli, hl, a, hal, hak⟩ (hclear l)
    · rw [hrest k hki] at hk hak
      by_cases hli : l = i
      · subst hli
        rw [hva, hsize] at hal
        exact absurd ⟨hki, hk, a, hak, hal⟩ (hclear k)
      · rw [hrest l hli] at hl hal
        exact h k l a hk hl hak hal

/-- One call keeps the ranges apart exactly if it is no MAP that succeeds with something in its
    way. -/
theorem rangesApart_step_iff (hs : Sized w) (hplain : PlainMap w op) (h : RangesApart w) :
    RangesApart (step w op) ↔ NothingInTheWay w op := by
  by_cases heffect : ∃ arg mapOk i, op = .gemVa arg mapOk ∧ mapTarget w arg = some i ∧
    (gemVa w arg mapOk).1 = .ok
  · obtain ⟨arg, mapOk, i, rfl, hmap, hret⟩ := heffect
    have hlines := (tellsCollisions hs hplain).lines
    rw [rangesApart_map_iff h hmap hplain hret]
    constructor
    · intro hclear _
      refine List.eq_nil_iff_forall_not_mem.mpr fun c hc => ?_
      obtain ⟨i', j, hi', hway, -⟩ := (hlines c).mp hc
      obtain rfl := Option.some.inj (hmap.symm.trans hi')
      exact hclear j hway
    · intro hsilent j hway
      have hmem := (hlines _).mpr ⟨i, j, hmap, hway, rfl⟩
      rw [hsilent hret] at hmem
      exact nomatch hmem
  · refine ⟨fun _ => ?_, fun _ => h.step_of_no_map fun arg mapOk i hop hmap hret =>
      heffect ⟨arg, mapOk, i, hop, hmap, hret⟩⟩
    cases op with
    | gemVa arg mapOk =>
      intro hret
      cases hmap : mapTarget w arg with
      | none => exact gemVaCollisions_of_no_target hmap
      | some i => exact absurd ⟨arg, mapOk, i, rfl, hmap, hret⟩ heffect
    | _ => trivial

/-- The lines about collisions are neither too many nor too few, and a run has none of a MAP that
    succeeds exactly if the recorded ranges are apart at every moment. -/
theorem collisions_told (ops : List Op) (hplain : EachStep step PlainMap .init ops) :
    EachStep step EveryLine .init ops ∧
      (Always step RangesApart .init ops ↔ EachStep step NothingInTheWay .init ops) := by
  have hkeep : ∀ w op, Sized w → PlainMap w op → Sized (step w op) := fun _ _ h hp => h.step hp
  refine ⟨hplain.imp Sized.init ?_ hkeep, ?_⟩
  · intro w op hs hp
    cases op with
    | gemVa arg mapOk => exact tellsCollisions hs hp
    | _ => trivial
  · refine always_iff_eachStep_of hplain Sized.init ?_ hkeep ?_
    · intro i j a hi
      exact nomatch hi.1
    · exact fun w op hs hp h => rangesApart_step_iff hs hp h

/-- A page is created, and placed where every buffer of the run is. -/
def pageCreate (phys : Int) : Op := .gemCreate ⟨0x4000, 0x4000, 4, 0⟩ (some phys)

def pageMap (handle : UInt32) : GemVaArg := ⟨handle, vaOpMap, 6, 0x400000000, 0, 0⟩

/-- The first page is leaked, and its address handed out again. -/
def leakedRun : List Op :=
  [pageCreate 0, pageCreate 0x4000, .gemVa (pageMap 1) true, .gemVa (pageMap 2) true]

theorem plainMap_of_target (hmap : mapTarget w arg = some i)
    (hwhole : mapBytes (w.bo i) arg = (w.bo i).size) (hne : arg.vaAddress ≠ 0)
    (hbelow : EndsBelowTop arg.vaAddress (w.bo i).size) : PlainMap w (.gemVa arg mapOk) := by
  intro j hj
  obtain rfl := Option.some.inj (hmap.symm.trans hj)
  exact ⟨hwhole, hne, hbelow⟩

theorem leakedRun_plain : EachStep step PlainMap .init leakedRun := by
  have hfirst : PlainMap ((leakedRun.take 2).foldl step .init) (.gemVa (pageMap 1) true) :=
    plainMap_of_target (i := 0) (by decide +kernel) (by decide +kernel) (by decide)
      (by decide +kernel)
  have hsecond : PlainMap ((leakedRun.take 3).foldl step .init) (.gemVa (pageMap 2) true) :=
    plainMap_of_target (i := 1) (by decide +kernel) (by decide +kernel) (by decide)
      (by decide +kernel)
  exact ⟨trivial, trivial, hfirst, hsecond, trivial⟩

/-- The two overlap, as the log says. -/
theorem collisions_told_leak : ¬ Always step RangesApart .init leakedRun := by
  intro h
  obtain ⟨-, -, -, hlast, -⟩ := (collisions_told leakedRun leakedRun_plain).2.mp h
  have hret : (gemVa ((leakedRun.take 3).foldl step .init) (pageMap 2) true).1 = .ok := by
    decide +kernel
  have hline : gemVaCollisions ((leakedRun.take 3).foldl step .init) (pageMap 2) ≠ [] := by
    decide +kernel
  exact hline (hlast hret)

end OopsMesa.Winsys
