/-
  The four tables refine four independent maps.

  Each call is one lemma (`exec_gemCreate` and so on), from what the first free entry, and the
  lookup of a handle, are for any table (Lib.Slots). The invariant is that a buffer entry that is
  not live is all zeros, so that GEM_CREATE, which leaves `gpu_prot`, makes a new buffer afresh.
-/
import OopsMesa.Winsys.Handles

namespace OopsMesa.Winsys

open OopsMesa.Lib

variable {n : Nat} {s : Tables} {w : Shim} {i : Fin winsysMaxBo}

/-! ## Handles -/

theorem handleOfEntry_toNat (hn : n < 2 ^ 32) (i : Fin n) :
    (handleOfEntry i).toNat = i.val + 1 := by
  have hi := i.2
  unfold handleOfEntry
  rw [UInt32.toNat_ofNat', Nat.mod_eq_of_lt (by omega)]

/-- `bo_of` is the lookup of the other tables. -/
theorem boOf_eq (w : Shim) (handle : UInt32) :
    boOf w handle = Handles.liveAt (fun i => (w.bo i).live) handle.toNat := by
  unfold boOf Handles.liveAt Handles.entry
  rcases Decidable.em (0 < handle.toNat ∧ handle.toNat ≤ winsysMaxBo) with hb | hb
  · rw [dif_pos hb, dif_pos hb, Option.filter_some]
  · rw [dif_neg hb, dif_neg hb]
    rfl

section Table

variable {σ : Type} {live : σ → Bool} {tab : Fin n → σ} {e : σ}

/-- A table with a free entry is not full. -/
theorem not_full_of_first {i : Fin n} (hi : firstIdx (fun i => !live (tab i)) = some i) :
    ¬ (Handles.ofTable live tab).Full := by
  rw [← Handles.ofTable_full_iff, hi]
  exact nofun

/-- A create that takes the first free entry. -/
theorem creates_first (hn : n < 2 ^ 32) (he : live e = true) {i : Fin n}
    (hi : firstIdx (fun i => !live (tab i)) = some i) {refused : Prop} (hr : ¬ refused) :
    Creates (.ofTable live tab) refused e ⟨true, handleOfEntry i⟩
      (.ofTable live (Function.update tab i e)) := by
  refine ⟨fun h => absurd h hr, fun _ => ⟨rfl, ?_⟩⟩
  rw [handleOfEntry_toNat hn]
  exact Handles.ofTable_created hi he

theorem creates_refused {a : σ} {refused : Prop} (hr : refused) (handle : UInt32) :
    Creates (.ofTable live tab) refused a ⟨false, handle⟩ (.ofTable live tab) :=
  ⟨fun _ => ⟨rfl, rfl⟩, fun h => absurd hr h⟩

/-- A destroy of an entry that is found. -/
theorem destroys_found (he : live e = false) {i : Fin n} {h : Nat}
    (hi : Handles.liveAt (fun i => live (tab i)) h = some i) (handle : UInt32) :
    Destroys (.ofTable live tab) h ⟨true, handle⟩ (.ofTable live (Function.update tab i e)) := by
  obtain ⟨rfl, hl⟩ := Handles.liveAt_eq_some.mp hi
  refine ⟨fun _ => ⟨rfl, Handles.ofTable_erase he⟩, fun hdead => absurd ?_ hdead⟩
  exact Handles.ofTable_live_iff.mpr ⟨i, rfl, hl⟩

theorem destroys_refused {h : Nat} (hi : Handles.liveAt (fun i => live (tab i)) h = none)
    (handle : UInt32) :
    Destroys (.ofTable live tab) h ⟨false, handle⟩ (.ofTable live tab) :=
  ⟨fun hl => absurd hl (Handles.liveAt_eq_none.mp hi), fun _ => ⟨rfl, rfl⟩⟩

end Table

/-! ## Buffers -/

/-- An entry that is not live is as `memset` leaves it. -/
def Cleared (w : Shim) : Prop := ∀ i, (w.bo i).live = false → w.bo i = .zero

theorem Cleared.update {w' : Shim} {b : Bo} (hc : Cleared w)
    (hbo : w'.bo = Function.update w.bo i b) (hb : b.live = false → b = .zero) : Cleared w' := by
  intro j hj
  rw [hbo] at hj ⊢
  rcases Decidable.em (j = i) with rfl | hne
  · rw [Function.update_self] at hj ⊢
    exact hb hj
  · rw [Function.update_of_ne hne] at hj ⊢
    exact hc j hj

/-- GEM_CREATE makes a new buffer, or leaves everything and clears the handle. -/
theorem gemCreate_cases (hc : Cleared w) (arg : Words 8) (alloc : Option Int) :
    ((roundUpPage (gemCreateIn arg).boSize = 0 ∨ freeBo w = none ∨ alloc = none) ∧
      ∃ e, oopsWinsysGemCreate w arg alloc = (.err e, Function.update arg 0 0, w)) ∨
    ∃ i phys shim, roundUpPage (gemCreateIn arg).boSize ≠ 0 ∧ freeBo w = some i ∧
      alloc = some phys ∧ shim.bo = Function.update w.bo i (newBo (gemCreateIn arg) phys) ∧
      oopsWinsysGemCreate w arg alloc =
        (.ok, Function.update (Function.update arg 1 0) 0 (handleOf i), shim) := by
  unfold oopsWinsysGemCreate gemCreate
  dsimp only
  rcases Decidable.em (roundUpPage (gemCreateIn arg).boSize = 0) with hz | hz
  · rw [if_pos hz]
    exact .inl ⟨.inl hz, _, rfl⟩
  · rw [if_neg hz]
    cases hfree : freeBo w with
    | none => exact .inl ⟨.inr (.inl rfl), _, rfl⟩
    | some i =>
      cases alloc with
      | none => exact .inl ⟨.inr (.inr rfl), _, rfl⟩
      | some phys =>
        refine .inr ⟨i, phys, _, hz, rfl, rfl, ?_, rfl⟩
        have hzero := hc i (freeBo_dead hfree)
        show Function.update w.bo i _ = _
        rw [hzero]
        rfl

theorem gemClose_cases (handle : UInt32) :
    (boOf w handle = none ∧ gemClose w handle = (.err .EINVAL, w)) ∨
    ∃ i shim, boOf w handle = some i ∧ shim.bo = Function.update w.bo i .zero ∧
      gemClose w handle = (.ok, shim) := by
  unfold gemClose
  cases hi : boOf w handle with
  | none => exact .inl ⟨rfl, rfl⟩
  | some i =>
    refine .inr ⟨i, _, rfl, ?_, rfl⟩
    show Function.update (closePages (closeCpu w i) i).bo i .zero = _
    rw [closePages_bo, closeCpu_bo]

/-- The buffer a mapping call is about is live. -/
theorem opTarget_live {op : Op} (hcreate : ∀ arg alloc, op ≠ .gemCreate arg alloc)
    (hi : opTarget w op = some i) : (w.bo i).live = true := by
  cases op with
  | gemCreate arg alloc => exact absurd rfl (hcreate arg alloc)
  | gemClose handle => exact boOf_live hi
  | gemVa arg mapOk => exact boOf_live hi
  | mmap | boCpuRange | cpuMapVa =>
    obtain ⟨⟨j, v⟩, hj, rfl⟩ := Option.map_eq_some_iff.mp hi
    exact cpuCall_live hj

/-- A mapping call leaves the entries that are not live. -/
theorem map_dead (op : MapOp) (hi : (w.bo i).live = false) :
    (step w op).bo i = w.bo i :=
  step_bo_of_ne fun ht => nomatch hi.symm.trans (opTarget_live op.2.1 ht)

theorem map_live (op : MapOp) (hi : (w.bo i).live = true) :
    ((step w op).bo i).live = true :=
  step_live hi fun handle heq => absurd heq (op.2.2 handle)

/-! ## The calls -/

theorem exec_gemCreate (hc : Cleared s.shim) (arg : Words 8) (alloc : Option Int) :
    s.maps.Allows (.gemCreate arg alloc) (s.exec (.gemCreate arg alloc)).1
      (s.exec (.gemCreate arg alloc)).2.maps ∧ Cleared (s.exec (.gemCreate arg alloc)).2.shim := by
  have hnone : freeBo s.shim = none ↔ s.maps.bo.Full := Handles.ofTable_full_iff
  have hexec : s.exec (.gemCreate arg alloc) =
      (⟨(oopsWinsysGemCreate s.shim arg alloc).1.accepted,
          (oopsWinsysGemCreate s.shim arg alloc).2.1 0⟩,
        { s with shim := (oopsWinsysGemCreate s.shim arg alloc).2.2 }) := rfl
  rw [hexec]
  obtain ⟨hr, e, heq⟩ | ⟨i, phys, shim, hz, hi, rfl, hbo, heq⟩ := gemCreate_cases hc arg alloc
  · rw [heq]
    dsimp only
    rw [Function.update_self]
    refine ⟨⟨s.maps.bo, rfl, creates_refused ?_ 0, fun _ => rfl⟩, hc⟩
    rwa [hnone] at hr
  · rw [heq]
    dsimp only
    rw [Function.update_self]
    have hfull : ¬ s.maps.bo.Full := not_full_of_first hi
    refine ⟨⟨.ofTable Bo.live shim.bo, rfl, ?_, nofun⟩, hc.update hbo nofun⟩
    rw [hbo]
    exact creates_first (by decide) rfl hi fun hr => hr.elim hz fun hr => hr.elim hfull nofun

theorem exec_gemClose (hc : Cleared s.shim) (handle : UInt32) :
    s.maps.Allows (.gemClose handle) (s.exec (.gemClose handle)).1
      (s.exec (.gemClose handle)).2.maps ∧ Cleared (s.exec (.gemClose handle)).2.shim := by
  have hexec : s.exec (.gemClose handle) = (⟨(gemClose s.shim handle).1.accepted, 0⟩,
      { s with shim := (gemClose s.shim handle).2 }) := rfl
  rw [hexec]
  obtain ⟨hi, heq⟩ | ⟨i, shim, hi, hbo, heq⟩ := gemClose_cases (w := s.shim) handle
  · rw [heq]
    rw [boOf_eq] at hi
    exact ⟨⟨s.maps.bo, rfl, destroys_refused hi 0⟩, hc⟩
  · rw [heq]
    rw [boOf_eq] at hi
    refine ⟨⟨.ofTable Bo.live shim.bo, rfl, ?_⟩, hc.update hbo fun _ => rfl⟩
    rw [hbo]
    exact destroys_found rfl hi 0

theorem exec_map (hc : Cleared s.shim) (op : MapOp) :
    s.maps.Allows (.map op) (s.exec (.map op)).1 (s.exec (.map op)).2.maps ∧
      Cleared (s.exec (.map op)).2.shim := by
  have hlive : ∀ i, ((step s.shim op).bo i).live = (s.shim.bo i).live := by
    intro i
    cases hi : (s.shim.bo i).live with
    | true => exact map_live op hi
    | false => rw [map_dead op hi, hi]
  refine ⟨⟨.ofTable Bo.live (step s.shim op).bo, rfl, fun h => ?_⟩, fun i hi => ?_⟩
  · rw [Handles.ofTable_live_iff]
    refine (exists_congr fun i => ?_).trans Handles.ofTable_live_iff.symm
    rw [hlive i]
  · have hi' := (hlive i).symm.trans hi
    exact (map_dead op hi').trans (hc i hi')

theorem exec_ctx (arg : Words 4) :
    s.maps.Allows (.ctx arg) (s.exec (.ctx arg)).1 (s.exec (.ctx arg)).2.maps := by
  have hexec : s.exec (.ctx arg) = (⟨(oopsWinsysCtx s.ctx arg).1.accepted,
      (oopsWinsysCtx s.ctx arg).2.1 0⟩, { s with ctx := (oopsWinsysCtx s.ctx arg).2.2 }) := rfl
  rw [hexec]
  refine ⟨.ofTable Ctx.live (oopsWinsysCtx s.ctx arg).2.2, rfl, fun hop => ?_, fun hop => ?_,
    fun halloc hfree => ?_⟩
  · unfold oopsWinsysCtx
    dsimp only
    rw [if_pos hop]
    cases hi : firstIdx fun i => !(s.ctx i).live with
    | none => exact ⟨creates_refused (Handles.ofTable_full_iff.mp hi) 0, fun _ => rfl⟩
    | some i =>
      dsimp only
      rw [Function.update_self]
      exact ⟨creates_first (by decide) rfl hi (not_full_of_first hi), nofun⟩
  · have halloc : arg 0 ≠ ctxOpAllocCtx := by
      rw [hop]
      decide
    unfold oopsWinsysCtx
    dsimp only
    rw [if_neg halloc, if_pos hop]
    cases hi : ctxOf s.ctx (arg 2) with
    | none => exact destroys_refused hi _
    | some i => exact destroys_found rfl hi _
  · -- a query changes nothing
    unfold oopsWinsysCtx
    dsimp only
    rw [if_neg halloc, if_neg hfree]
    split_ifs
    · cases ctxOf s.ctx (arg 2) <;> rfl
    · cases ctxOf s.ctx (arg 2) <;> rfl
    · rfl
    · rfl

theorem exec_noteHang (id : UInt32) :
    s.maps.Allows (.noteHang id) (s.exec (.noteHang id)).1 (s.exec (.noteHang id)).2.maps := by
  refine ⟨.ofTable Ctx.live (oopsWinsysCtxNoteHang s.ctx id), rfl, fun h => ?_⟩
  have hlive : ∀ i, (oopsWinsysCtxNoteHang s.ctx id i).live = (s.ctx i).live := by
    intro i
    unfold oopsWinsysCtxNoteHang
    cases ctxOf s.ctx id with
    | none => rfl
    | some j =>
      dsimp only
      rcases Decidable.em (i = j) with rfl | hne
      · rw [Function.update_self]
      · rw [Function.update_of_ne hne]
  rw [Handles.ofTable_live_iff]
  refine (exists_congr fun i => ?_).trans Handles.ofTable_live_iff.symm
  rw [hlive i]

/-- The check of a list's buffers. -/
theorem all_boIsLive (handles : List UInt32) :
    handles.all (boIsLive w) = true ↔
      ∀ handle ∈ handles, (Handles.ofTable Bo.live w.bo).Live handle.toNat := by
  rw [List.all_eq_true]
  refine forall_congr' fun handle => forall_congr' fun _ => ?_
  unfold boIsLive
  rw [boOf_eq, ← not_iff_not, ← Handles.liveAt_eq_none, Option.not_isSome_iff_eq_none]

theorem exec_boList (arg : Words 6) (mem : UInt64 → UInt32) :
    s.maps.Allows (.boList arg mem) (s.exec (.boList arg mem)).1
      (s.exec (.boList arg mem)).2.maps := by
  have hexec : s.exec (.boList arg mem) = (⟨(oopsWinsysBoList s.shim s.list arg mem).1.accepted,
      (oopsWinsysBoList s.shim s.list arg mem).2.1 0⟩,
    { s with list := (oopsWinsysBoList s.shim s.list arg mem).2.2 }) := rfl
  rw [hexec]
  refine ⟨.ofTable BoList.live (oopsWinsysBoList s.shim s.list arg mem).2.2, rfl, fun hop => ?_,
    fun hop => ?_, fun hcreate hdestroy => ?_⟩
  · unfold oopsWinsysBoList
    dsimp only
    rw [if_pos hop]
    rcases Decidable.em (arg 2 ≠ 0 ∧ (word64 (arg 4) (arg 5) = 0 ∨ arg 3 < 4)) with hbad | hgood
    · rw [if_pos hbad]
      exact creates_refused (.inl hbad) _
    · rw [if_neg hgood]
      have hall := all_boIsLive (w := s.shim)
        (boHandles mem (word64 (arg 4) (arg 5)) (arg 3) (arg 2))
      cases hlive : (boHandles mem (word64 (arg 4) (arg 5)) (arg 3) (arg 2)).all
          (boIsLive s.shim) with
      | false =>
        rw [if_pos Bool.not_false]
        refine creates_refused (.inr (.inl ?_)) _
        rw [hlive] at hall
        by_contra hnot
        refine Bool.false_ne_true (hall.mpr fun handle hm => ?_)
        exact Classical.byContradiction fun hdead => hnot ⟨handle, hm, hdead⟩
      | true =>
        rw [Bool.not_true, if_neg Bool.false_ne_true]
        cases hi : firstIdx fun i => !(s.list i).live with
        | none => exact creates_refused (.inr (.inr (Handles.ofTable_full_iff.mp hi))) _
        | some i =>
          dsimp only
          rw [Function.update_self]
          refine creates_first (by decide) rfl hi ?_
          rintro (hr | ⟨handle, hm, hdead⟩ | hfull)
          · exact hgood hr
          · exact hdead (hall.mp hlive handle hm)
          · exact not_full_of_first hi hfull
  · have hcreate : arg 0 ≠ boListOpCreate := by
      rw [hop]
      decide
    unfold oopsWinsysBoList
    rw [if_neg hcreate, if_pos hop]
    cases hi : Handles.liveAt (fun i => (s.list i).live) (arg 1).toNat with
    | none => exact destroys_refused hi _
    | some i => exact destroys_found rfl hi _
  · unfold oopsWinsysBoList
    rw [if_neg hcreate, if_neg hdestroy]
    exact ⟨rfl, rfl⟩

theorem exec_syncobjCreate (arg : Option (Words 2)) :
    s.maps.Allows (.syncobjCreate arg) (s.exec (.syncobjCreate arg)).1
      (s.exec (.syncobjCreate arg)).2.maps := by
  have hexec : s.exec (.syncobjCreate arg) =
      (⟨(oopsWinsysSyncobjCreate s.syncobj arg).1.accepted,
        ((oopsWinsysSyncobjCreate s.syncobj arg).2.1.map fun arg => arg 0).getD 0⟩,
      { s with syncobj := (oopsWinsysSyncobjCreate s.syncobj arg).2.2 }) := rfl
  rw [hexec]
  refine ⟨.ofTable Syncobj.live (oopsWinsysSyncobjCreate s.syncobj arg).2.2, rfl, ?_⟩
  unfold oopsWinsysSyncobjCreate
  cases arg with
  | none => exact creates_refused (.inl rfl) _
  | some arg =>
    dsimp only
    cases hi : firstIdx fun i => !(s.syncobj i).live with
    | none => exact creates_refused (.inr (Handles.ofTable_full_iff.mp hi)) _
    | some i =>
      dsimp only
      rw [Option.map_some, Option.getD_some, Function.update_self]
      refine creates_first (by decide) rfl hi ?_
      rintro (hr | hfull)
      · exact nomatch hr
      · exact not_full_of_first hi hfull

theorem exec_syncobjDestroy (arg : Option UInt32) :
    s.maps.Allows (.syncobjDestroy arg) (s.exec (.syncobjDestroy arg)).1
      (s.exec (.syncobjDestroy arg)).2.maps := by
  have hexec : s.exec (.syncobjDestroy arg) =
      (⟨(oopsWinsysSyncobjDestroy s.syncobj arg).1.accepted, 0⟩,
      { s with syncobj := (oopsWinsysSyncobjDestroy s.syncobj arg).2 }) := rfl
  rw [hexec]
  refine ⟨.ofTable Syncobj.live (oopsWinsysSyncobjDestroy s.syncobj arg).2, rfl,
    fun handle harg => ?_, fun harg => ?_⟩
  · subst harg
    unfold oopsWinsysSyncobjDestroy
    dsimp only
    cases hi : Handles.liveAt (fun i => (s.syncobj i).live) handle.toNat with
    | none => exact destroys_refused hi 0
    | some i => exact destroys_found rfl hi 0
  · subst harg
    exact ⟨rfl, rfl⟩

/-- One call of the code is one of the maps. -/
theorem exec_allowed (hc : Cleared s.shim) (op : HandleOp) :
    s.maps.Allows op (s.exec op).1 (s.exec op).2.maps ∧ Cleared (s.exec op).2.shim := by
  cases op with
  | gemCreate arg alloc => exact exec_gemCreate hc arg alloc
  | gemClose handle => exact exec_gemClose hc handle
  | ctx arg => exact ⟨exec_ctx arg, hc⟩
  | boList arg mem => exact ⟨exec_boList arg mem, hc⟩
  | syncobjCreate arg => exact ⟨exec_syncobjCreate arg, hc⟩
  | syncobjDestroy arg => exact ⟨exec_syncobjDestroy arg, hc⟩
  | noteHang id => exact ⟨exec_noteHang id, hc⟩
  | map op => exact exec_map hc op

/-! ## Runs -/

theorem init_maps : Tables.init.maps = .empty := by
  have hempty : ∀ {n : Nat} {σ : Type} {live : σ → Bool} {e : σ}, live e = false →
      Handles.ofTable live (fun _ : Fin n => e) = .empty := by
    intro n σ live e he
    refine Handles.ext (funext fun h => ?_)
    refine Option.not_isSome_iff_eq_none.mp fun hl => ?_
    obtain ⟨i, -, hi⟩ := Handles.ofTable_live_iff.mp hl
    exact nomatch he.symm.trans hi
  have hbo : Handles.ofTable Bo.live Tables.init.shim.bo = .empty := hempty rfl
  have hctx : Handles.ofTable Ctx.live Tables.init.ctx = .empty := hempty rfl
  have hlist : Handles.ofTable BoList.live Tables.init.list = .empty := hempty rfl
  have hsyncobj : Handles.ofTable Syncobj.live Tables.init.syncobj = .empty := hempty rfl
  unfold Tables.maps Maps.empty
  rw [hbo, hctx, hlist, hsyncobj]

/-- **The handle tables refine independent maps.** -/
theorem handles_refine_maps (ops : List HandleOp) :
    Maps.Runs (Tables.init.runFrom ops).1 (Tables.init.runFrom ops).2.maps := by
  suffices h : Maps.Runs (Tables.init.runFrom ops).1 (Tables.init.runFrom ops).2.maps ∧
      Cleared (Tables.init.runFrom ops).2.shim from h.1
  induction ops with
  | nil =>
    refine ⟨?_, fun _ _ => rfl⟩
    show Maps.Runs [] Tables.init.maps
    rw [init_maps]
    exact .start
  | cons op ops ih =>
    obtain ⟨hallows, hcleared⟩ := exec_allowed ih.2 op
    exact ⟨ih.1.call op _ hallows, hcleared⟩

end OopsMesa.Winsys
