/-
  The mappings that stand.

  The shim records where a buffer was last mapped, and not how much of it was mapped nor whether
  another buffer was mapped over it since. Statements about mappings need both, so a run carries
  them as proof-only state beside the shim's: `standing i` is the range of entry `i`'s last MAP
  that returned 0, until the entry is unmapped or closed or another MAP that returns 0 meets the
  range; `touched i` says that entry `i` has been mapped, by GEM_VA or for the CPU, since it was
  created.
-/
import OopsMesa.Lib.Reach
import OopsMesa.Winsys.Retention

namespace OopsMesa.Winsys

open OopsMesa.Lib

/-- The shim, and what has been mapped. -/
structure Tracked where
  shim : Shim
  standing : Fin winsysMaxBo → Option (UInt64 × UInt64)
  touched : Fin winsysMaxBo → Bool

def Tracked.init : Tracked := ⟨.init, fun _ => none, fun _ => false⟩

/-- The mappings that stand after entry `i` was mapped at `va`. -/
def standAt (st : Fin winsysMaxBo → Option (UInt64 × UInt64)) (i : Fin winsysMaxBo)
    (va size : UInt64) : Fin winsysMaxBo → Option (UInt64 × UInt64) :=
  Function.update (fun j => (st j).filter fun s => !spansMeet s.1 s.2 va size) i
    (some (va, size))

/-- The mappings that stand after a call. -/
def standingAfter (w : Shim) (st : Fin winsysMaxBo → Option (UInt64 × UInt64)) :
    Op → Fin winsysMaxBo → Option (UInt64 × UInt64)
  | .gemVa arg mapOk =>
    match mapTarget w arg with
    | some i =>
      if (gemVa w arg mapOk).1 = .ok then standAt st i arg.vaAddress (mapBytes (w.bo i) arg)
      else st
    | none =>
      match unmapTarget w arg with
      | some i => Function.update st i none
      | none => st
  | .gemClose handle =>
    match boOf w handle with
    | some i => Function.update st i none
    | none => st
  | _ => st

/-- The buffers mapped since their creation, after a call. -/
def touchedAfter (w : Shim) (touched : Fin winsysMaxBo → Bool) (op : Op) :
    Fin winsysMaxBo → Bool :=
  match op with
  | .gemVa arg mapOk =>
    match mapTarget w arg with
    | some i => if (gemVa w arg mapOk).1 = .ok then Function.update touched i true else touched
    | none => touched
  | .gemClose handle =>
    match boOf w handle with
    | some i => Function.update touched i false
    | none => touched
  | _ =>
    match cpuCall w op with
    | some (i, some _) => Function.update touched i true
    | _ => touched

def trackedStep (t : Tracked) (op : Op) : Tracked where
  shim := step t.shim op
  standing := standingAfter t.shim t.standing op
  touched := touchedAfter t.shim t.touched op

variable {w : Shim} {st : Fin winsysMaxBo → Option (UInt64 × UInt64)} {i j : Fin winsysMaxBo}
  {s : UInt64 × UInt64}

/-- What stands after a MAP: the new range, and the others that do not meet it. -/
theorem standAt_eq_some {va size : UInt64} (h : standAt st i va size j = some s) :
    (j = i ∧ s = (va, size)) ∨ (j ≠ i ∧ st j = some s ∧ Apart s.1 s.2 va size) := by
  unfold standAt at h
  by_cases hji : j = i
  · subst hji
    rw [Function.update_self, Option.some.injEq] at h
    exact .inl ⟨rfl, h.symm⟩
  · rw [Function.update_of_ne hji] at h
    obtain ⟨hs, hm⟩ := Option.filter_eq_some_iff.mp h
    exact .inr ⟨hji, hs, apart_of_not_meet (by simpa using hm)⟩

theorem update_none_eq_some (h : Function.update st i none j = some s) :
    j ≠ i ∧ st j = some s := by
  by_cases hji : j = i
  · subst hji; simp at h
  · exact ⟨hji, by simpa [Function.update_of_ne hji] using h⟩

theorem standingAfter_close {handle : UInt32} (h : boOf w handle = some i) :
    standingAfter w st (.gemClose handle) = Function.update st i none := by
  simp [standingAfter, h]

theorem mapTarget_eq_none_of_unmapTarget {arg : GemVaArg} (h : unmapTarget w arg = some i) :
    mapTarget w arg = none := by
  obtain ⟨hb, hc⟩ := Option.filter_eq_some_iff.mp h
  simp only [Bool.and_eq_true, beq_iff_eq, bne_iff_ne] at hc
  have hne : (vaOpUnmap == vaOpMap) = false := by decide
  simp [mapTarget, hb, Option.filter, hc.1.2, hne]

theorem standingAfter_unmap {arg : GemVaArg} {mapOk : Bool} (h : unmapTarget w arg = some i) :
    standingAfter w st (.gemVa arg mapOk) = Function.update st i none := by
  simp [standingAfter, mapTarget_eq_none_of_unmapTarget h, h]

theorem standingAfter_idle {op : Op} (h : Idle w op) : standingAfter w st op = st := by
  cases op with
  | gemVa arg mapOk => simp [standingAfter, h.1, h.2]
  | gemClose handle =>
    have hb : boOf w handle = none := h
    simp [standingAfter, hb]
  | _ => rfl

/-- A MAP that takes effect makes its range stand. -/
theorem standingAfter_map {arg : GemVaArg} {mapOk : Bool} (h : mapTarget w arg = some i)
    (hret : (gemVa w arg mapOk).1 = .ok) :
    standingAfter w st (.gemVa arg mapOk) =
      standAt st i arg.vaAddress (mapBytes (w.bo i) arg) := by
  simp [standingAfter, h, hret]

/-- A MAP the platform refuses changes nothing that stands. -/
theorem standingAfter_refused {arg : GemVaArg} {mapOk : Bool} (h : mapTarget w arg = some i)
    (hret : (gemVa w arg mapOk).1 ≠ .ok) : standingAfter w st (.gemVa arg mapOk) = st := by
  simp [standingAfter, h, hret]

theorem cpuCall_standing {op : Op} {v : Option UInt64} (h : cpuCall w op = some (i, v)) :
    standingAfter w st op = st := by
  cases op <;> first | rfl | simp [cpuCall] at h

/-- The return code of a MAP made afresh is the platform's answer. -/
theorem gemVa_ret_served {arg : GemVaArg} {k : Fin winsysMaxRetained}
    (h : mapTarget w arg = some i)
    (hk : servedBy w i arg.vaAddress (mapBytes (w.bo i) arg) (vaProt arg.flags) = some k)
    (mapOk : Bool) : (gemVa w arg mapOk).1 = .ok := by
  rw [gemVa_of_mapTarget h, hk]

theorem gemVa_ret_afresh {arg : GemVaArg} (h : mapTarget w arg = some i)
    (hk : servedBy w i arg.vaAddress (mapBytes (w.bo i) arg) (vaProt arg.flags) = none)
    (mapOk : Bool) : (gemVa w arg mapOk).1 = .ok ↔ mapOk = true := by
  rw [gemVa_of_mapTarget h, hk]
  cases mapOk <;> simp [mapAfresh]

section Touched

variable {touched : Fin winsysMaxBo → Bool} {op : Op}

theorem touchedAfter_close {handle : UInt32} (h : boOf w handle = some i) :
    touchedAfter w touched (.gemClose handle) = Function.update touched i false := by
  simp [touchedAfter, h]

theorem touchedAfter_map {arg : GemVaArg} {mapOk : Bool} (h : mapTarget w arg = some i)
    (hret : (gemVa w arg mapOk).1 = .ok) :
    touchedAfter w touched (.gemVa arg mapOk) = Function.update touched i true := by
  simp [touchedAfter, h, hret]

theorem touchedAfter_cpu {v : UInt64} (h : cpuCall w op = some (i, some v)) :
    touchedAfter w touched op = Function.update touched i true := by
  cases op <;> first | cases h | simp [touchedAfter, h]

private theorem touchedAfter_cases_cpu
    (h : touchedAfter w touched op =
      match cpuCall w op with
      | some (i, some _) => Function.update touched i true
      | _ => touched) :
    touchedAfter w touched op = touched ∨
      ∃ i, (w.bo i).live = true ∧
        touchedAfter w touched op = Function.update touched i true := by
  rw [h]
  cases hc : cpuCall w op with
  | none => exact .inl rfl
  | some p =>
    obtain ⟨i, _ | v⟩ := p
    · exact .inl rfl
    · exact .inr ⟨i, cpuCall_live hc, rfl⟩

/-- What a call does to the record of the mapped buffers: nothing, or it adds a live buffer,
    or it is a CLOSE and takes that buffer away. -/
theorem touchedAfter_cases (w : Shim) (touched : Fin winsysMaxBo → Bool) (op : Op) :
    (touchedAfter w touched op = touched ∨
      ∃ i, (w.bo i).live = true ∧
        touchedAfter w touched op = Function.update touched i true) ∨
      ∃ handle i, op = .gemClose handle ∧ boOf w handle = some i ∧
        touchedAfter w touched op = Function.update touched i false := by
  cases op with
  | gemVa arg mapOk =>
    left
    cases hm : mapTarget w arg with
    | none => exact .inl (by simp [touchedAfter, hm])
    | some i =>
      by_cases hret : (gemVa w arg mapOk).1 = .ok
      · exact .inr ⟨i, mapTarget_live hm, touchedAfter_map hm hret⟩
      · exact .inl (by simp [touchedAfter, hm, hret])
  | gemClose handle =>
    cases hb : boOf w handle with
    | none => exact .inl (.inl (by simp [touchedAfter, hb]))
    | some i => exact .inr ⟨handle, i, rfl, hb, touchedAfter_close hb⟩
  | _ => exact .inl (touchedAfter_cases_cpu rfl)

/-- A buffer that has been mapped stays so until it is closed. -/
theorem touchedAfter_of_touched (h : touched i = true)
    (hopen : ∀ handle, op = .gemClose handle → boOf w handle ≠ some i) :
    touchedAfter w touched op i = true := by
  obtain (he | ⟨j, -, he⟩) | ⟨handle, j, hop, hb, he⟩ := touchedAfter_cases w touched op
  · rw [he, h]
  · rw [he, Function.update_apply, h, ite_self]
  · rw [he, Function.update_of_ne, h]
    rintro rfl
    exact hopen handle hop hb

/-- A buffer counted as mapped after a call was before, or is live; and the call did not close
    it. -/
theorem touchedAfter_true (h : touchedAfter w touched op i = true) :
    (touched i = true ∨ (w.bo i).live = true) ∧
      ∀ handle, op = .gemClose handle → boOf w handle ≠ some i := by
  obtain (he | ⟨j, hj, he⟩) | ⟨handle, j, hop, hb, he⟩ := touchedAfter_cases w touched op
  · refine ⟨.inl (he ▸ h), ?_⟩
    rintro handle rfl hb
    rw [touchedAfter_close hb, Function.update_self] at h
    cases h
  · refine ⟨?_, ?_⟩
    · rw [he] at h
      by_cases hij : i = j
      · exact .inr (hij ▸ hj)
      · exact .inl (by rwa [Function.update_of_ne hij] at h)
    · rintro handle rfl hb
      rw [touchedAfter_close hb, Function.update_self] at h
      cases h
  · rw [he] at h
    have hij : i ≠ j := by
      rintro rfl
      rw [Function.update_self] at h
      cases h
    rw [Function.update_of_ne hij] at h
    refine ⟨.inl h, ?_⟩
    rintro handle' hop' hb'
    rw [hop, Op.gemClose.injEq] at hop'
    rw [← hop', hb, Option.some.injEq] at hb'
    exact hij hb'.symm

end Touched

end OopsMesa.Winsys
