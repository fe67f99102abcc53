/-
  A ready queue is completely ready.

  `ensure_queue` has four steps that can fail, and remembers one of them: the queue. A call whose
  queue is there takes the fence and its stream to be there too. They are not after an attempt
  that created the queue and was then refused an allocation, and nothing asks for them again
  (`not_completely_ready`). Nothing else takes them away: the queue is completely ready after a
  run exactly if no call of it was refused one of the two (`completely_ready_iff`).
-/
import OopsMesa.Submit.Parts

namespace OopsMesa.Submit

open OopsMesa.Lib OopsMesa.Winsys

/-! ## The statement -/

/-- `s_queue`, `s_fence` and `s_fence_dcb` are all set. -/
structure Statics.Complete (st : Statics) : Prop where
  queue : st.queue ≠ 0
  fence : st.fence ≠ 0
  fenceDcb : st.fenceDcb ≠ 0

/-- The call stores through no null fence and into no null fence stream. -/
def StoresNonNull : Call → Prop
  | .armFence fence => fence ≠ 0
  | .storeFenceStream dcb _ => dcb ≠ 0
  | _ => True

/-- From these statics, an attempt fails or leaves everything set, and a submission stores through
    no null pointer. -/
structure CompletelyReady (sym : Symbols) (st : Statics) : Prop where
  ensured : ∀ tr ready st', Prog.Trace (ensureQueue sym st) tr (ready, st') →
    ready = false ∨ st'.Complete
  stores : ∀ arg tr r, Prog.Trace (cs sym arg st) tr r → ∀ ev ∈ tr, StoresNonNull ev.1

/-- Calls of `oops_winsys_cs` from the start, with any answers: what each of them asked and was
    told, and the statics after the last. -/
inductive CsRun (sym : Symbols) : List (List (Prog.Event Call Answer)) → Statics → Prop
  | start : CsRun sym [] .init
  | call {trs : List (List (Prog.Event Call Answer))} {st st' : Statics}
      {tr : List (Prog.Event Call Answer)} {r : Ret × UInt64} (arg : CsIn) :
      CsRun sym trs st → Prog.Trace (cs sym arg st) tr (r, st') → CsRun sym (trs ++ [tr]) st'

/-- The call was refused the fence or its stream. -/
def FenceRefused (tr : List (Prog.Event Call Answer)) : Prop :=
  (⟨.allocFence, (0 : UInt64)⟩ : Prog.Event Call Answer) ∈ tr ∨
    (⟨.allocFenceDcb, (0 : UInt64)⟩ : Prog.Event Call Answer) ∈ tr

/-! ## One attempt -/

variable {sym : Symbols} {st st' : Statics} {tr : List (Prog.Event Call Answer)}

/-- What an attempt does: nothing, where the queue is there; fail before there is one; or create
    it, set whatever the two allocations gave, and succeed if they gave both. -/
inductive Attempt (st : Statics) : List (Prog.Event Call Answer) → Bool → Statics → Prop
  | ready : st.queue ≠ 0 → Attempt st [] true st
  | failed {tr : List (Prog.Event Call Answer)} :
      st.queue = 0 → ¬ FenceRefused tr → Attempt st tr false st
  | created {tr : List (Prog.Event Call Answer)} (queue fence fenceDcb : UInt64) :
      st.queue = 0 → queue ≠ 0 → (FenceRefused tr ↔ fence = 0 ∨ fenceDcb = 0) →
      Attempt st tr (decide (fence ≠ 0 ∧ fenceDcb ≠ 0))
        { st with queue := queue, fence := fence, fenceDcb := fenceDcb }

theorem attempt_ensureQueue {ready : Bool}
    (h : Prog.Trace (ensureQueue sym st) tr (ready, st')) : Attempt st tr ready st' := by
  unfold ensureQueue at h
  split at h
  · next hq =>
    obtain ⟨rfl, hr⟩ := Prog.trace_ret.mp h
    cases hr
    exact .ready hq
  · next hq =>
    have hq' : st.queue = 0 := Decidable.of_not_not hq
    have hst : { st with queue := 0 } = st := by rw [← hq']
    split at h
    · obtain ⟨_, _, rfl, hlog⟩ := Prog.trace_call.mp h
      obtain ⟨rfl, hr⟩ := Prog.trace_ret.mp hlog
      cases hr
      exact .failed hq' (by simp [FenceRefused])
    · obtain ⟨arc, _, rfl, hinit⟩ := Prog.trace_call.mp h
      change Prog.Trace (ite _ _ _) _ _ at hinit
      split at hinit
      · obtain ⟨_, _, rfl, hlog⟩ := Prog.trace_call.mp hinit
        obtain ⟨rfl, hr⟩ := Prog.trace_ret.mp hlog
        cases hr
        exact .failed hq' (by simp [FenceRefused])
      · obtain ⟨q, _, rfl, hcreate⟩ := Prog.trace_call.mp hinit
        change Prog.Trace (ite _ _ _) _ _ at hcreate
        split at hcreate
        · obtain ⟨_, _, rfl, hlog⟩ := Prog.trace_call.mp hcreate
          obtain ⟨rfl, hr⟩ := Prog.trace_ret.mp hlog
          cases hr
          rw [hst]
          exact .failed hq' (by simp [FenceRefused])
        · next hcreated =>
          have hqueue : q.queue ≠ 0 := fun h0 => hcreated (.inr h0)
          obtain ⟨fence, _, rfl, hfence⟩ := Prog.trace_call.mp hcreate
          obtain ⟨fenceDcb, _, rfl, hdcb⟩ := Prog.trace_call.mp hfence
          change Prog.Trace (ite _ _ _) _ _ at hdcb
          split at hdcb
          · next hnull =>
            obtain ⟨_, _, rfl, hlog⟩ := Prog.trace_call.mp hdcb
            obtain ⟨rfl, hr⟩ := Prog.trace_ret.mp hlog
            cases hr
            have hfalse : false = decide (fence ≠ 0 ∧ fenceDcb ≠ 0) := by
              rw [eq_comm, decide_eq_false_iff_not]
              tauto
            rw [hfalse]
            exact .created _ _ _ hq' hqueue (by simp [FenceRefused, eq_comm])
          · next hboth =>
            obtain ⟨rfl, hr⟩ := Prog.trace_ret.mp hdcb
            cases hr
            have htrue : true = decide (fence ≠ 0 ∧ fenceDcb ≠ 0) := by
              rw [eq_comm, decide_eq_true_iff]
              tauto
            rw [htrue]
            exact .created _ _ _ hq' hqueue (by simp [FenceRefused, eq_comm])

/-! ## The rest of a call -/

/-- A call that a submission makes once the queue is there: it asks for no fence, and stores only
    through the statics. -/
def AfterReady (st : Statics) : Call → Prop
  | .allocFence => False
  | .allocFenceDcb => False
  | .armFence fence => fence = st.fence
  | .storeFenceStream dcb _ => dcb = st.fenceDcb
  | _ => True

/-- The queue, the fence and its stream are the same. -/
structure SameQueue (st st' : Statics) : Prop where
  queue : st'.queue = st.queue
  fence : st'.fence = st.fence
  fenceDcb : st'.fenceDcb = st.fenceDcb

theorem Call.SetsUp.storesNonNull {c : Call} (h : c.SetsUp) : StoresNonNull c := by
  cases c <;> first | exact trivial | exact h.elim

theorem Call.Walks.afterReady {c : Call} (h : c.Walks) : AfterReady st c := by
  cases c <;> first | exact trivial | exact h.elim

theorem Call.Fences.afterReady {c : Call} (h : c.Fences st) : AfterReady st c := by
  cases c <;> first | exact h | exact trivial

theorem Call.Awaits.afterReady {c : Call} (h : c.Awaits) : AfterReady st c := by
  cases c <;> first | exact trivial | exact h.elim

theorem Call.Publishes.afterReady {c : Call} (h : c.Publishes) : AfterReady st c := by
  cases c <;> first | exact trivial | exact h.elim

/-- A call of `oops_winsys_cs` is an attempt, and then calls that leave the queue as it is. Where
    the attempt failed there are none. -/
theorem trace_cs {arg : CsIn} {r : Ret × UInt64} (h : Prog.Trace (cs sym arg st) tr (r, st')) :
    ∃ tr₁ tr₂ ready st₁, tr = tr₁ ++ tr₂ ∧ Prog.Trace (ensureQueue sym st) tr₁ (ready, st₁) ∧
      (∀ ev ∈ tr₂, AfterReady st₁ ev.1) ∧ SameQueue st₁ st' ∧ (ready = false → tr₂ = []) := by
  obtain ⟨tr₁, tr₂, ⟨ready, st₁⟩, rfl, h₁, h₂⟩ := Prog.trace_bind.mp h
  refine ⟨tr₁, tr₂, ready, st₁, rfl, h₁, ?_⟩
  cases ready with
  | false =>
    obtain ⟨rfl, hr⟩ := Prog.trace_ret.mp h₂
    cases hr
    exact ⟨nofun, ⟨rfl, rfl, rfl⟩, fun _ => rfl⟩
  | true =>
    suffices hmakes : Prog.Makes (AfterReady st₁) _
        fun r : (Ret × UInt64) × Statics => SameQueue st₁ r.2 by
      obtain ⟨hcalls, hsame⟩ := h₂.makes hmakes
      exact ⟨hcalls, hsame, nofun⟩
    have hsame : SameQueue st₁ st₁ := ⟨rfl, rfl, rfl⟩
    dsimp only
    rw [if_neg (by decide)]
    split
    · exact hsame
    · exact hsame
    · refine ⟨trivial, fun _ => ⟨trivial, fun _ => ?_⟩⟩
      refine ((makes_submitChunks _ _).weaken fun _ h => h.afterReady).seq fun walked _ => ?_
      split
      · exact hsame
      · split
        · exact ⟨trivial, fun _ => hsame⟩
        · refine (makes_submitFence.weaken fun _ h => h.afterReady).seq fun rc _ => ?_
          split
          · exact ⟨trivial, fun _ => hsame⟩
          · refine ((makes_awaitFence _).weaken fun _ h => h.afterReady).seq fun r hr => ?_
            obtain ⟨fired, st₂⟩ := r
            have hst₂ : st₂ = { st₁ with slowestUs := st₂.slowestUs } := hr
            rw [hst₂]
            dsimp only
            split
            · exact ⟨rfl, rfl, rfl⟩
            · refine ((makes_publish _).weaken fun _ h => h.afterReady).seq fun st₃ h₃ => ?_
              rw [h₃]
              exact ⟨rfl, rfl, rfl⟩

/-! ## Runs -/

/-- A call refuses what its attempt was refused. -/
theorem fenceRefused_append {tr₁ tr₂ : List (Prog.Event Call Answer)}
    (h : ∀ ev ∈ tr₂, AfterReady st ev.1) : FenceRefused (tr₁ ++ tr₂) ↔ FenceRefused tr₁ := by
  have hno : ∀ c (x : Answer c), (c = .allocFence ∨ c = .allocFenceDcb) →
      (⟨c, x⟩ : Prog.Event Call Answer) ∉ tr₂ := by
    rintro c x (rfl | rfl) hmem <;> exact h _ hmem
  have h1 := hno .allocFence (0 : UInt64) (.inl rfl)
  have h2 := hno .allocFenceDcb (0 : UInt64) (.inr rfl)
  simp only [FenceRefused, List.mem_append, h1, h2, or_false]

/-- Everything is set, or there is no queue. -/
def Statics.Whole (st : Statics) : Prop := st.queue = 0 ∨ st.Complete

theorem SameQueue.complete (h : SameQueue st st') : st'.Complete ↔ st.Complete := by
  constructor
  · intro hc
    exact ⟨h.queue ▸ hc.queue, h.fence ▸ hc.fence, h.fenceDcb ▸ hc.fenceDcb⟩
  · intro hc
    exact ⟨h.queue ▸ hc.queue, h.fence ▸ hc.fence, h.fenceDcb ▸ hc.fenceDcb⟩

theorem SameQueue.whole (h : SameQueue st st') : st'.Whole ↔ st.Whole :=
  or_congr (by rw [h.queue]) h.complete

/-- An attempt keeps the statics whole exactly if it is not refused the fence or its stream; once
    they are not whole, they never are again. -/
theorem Attempt.whole {ready : Bool} (h : Attempt st tr ready st') :
    st'.Whole ↔ st.Whole ∧ ¬ FenceRefused tr := by
  cases h with
  | ready hq => exact ⟨fun h => ⟨h, by simp [FenceRefused]⟩, fun h => h.1⟩
  | failed hq hn => exact ⟨fun _ => ⟨.inl hq, hn⟩, fun _ => .inl hq⟩
  | created queue fence fenceDcb hq hqueue hiff =>
    rw [hiff, not_or]
    constructor
    · rintro (h0 | hc)
      · exact absurd h0 hqueue
      · exact ⟨.inl hq, hc.fence, hc.fenceDcb⟩
    · rintro ⟨-, hfence, hdcb⟩
      exact .inr ⟨hqueue, hfence, hdcb⟩

/-- An attempt from whole statics fails or completes. -/
theorem Attempt.complete {ready : Bool} (h : Attempt st tr ready st') (hw : st.Whole) :
    ready = false ∨ st'.Complete := by
  cases h with
  | ready hq => exact .inr (hw.resolve_left hq)
  | failed => exact .inl rfl
  | created queue fence fenceDcb _ hqueue =>
    rcases Decidable.em (fence ≠ 0 ∧ fenceDcb ≠ 0) with hboth | hnull
    · exact .inr ⟨hqueue, hboth.1, hboth.2⟩
    · exact .inl (decide_eq_false hnull)

/-- From whole statics everything is as it should be, and from no others. -/
theorem completelyReady_iff_whole : CompletelyReady sym st ↔ st.Whole := by
  constructor
  · intro h
    rcases Decidable.em (st.queue = 0) with hq | hq
    · exact .inl hq
    · have hready : ensureQueue sym st = pure (true, st) := if_pos hq
      have htrace : Prog.Trace (ensureQueue sym st) [] (true, st) := by
        rw [hready]
        exact .ret _
      exact .inr ((h.ensured _ _ _ htrace).resolve_left nofun)
  · intro hw
    refine ⟨fun tr ready st' h => (attempt_ensureQueue h).complete hw, fun arg tr r h => ?_⟩
    obtain ⟨tr₁, tr₂, ready, st₁, rfl, hensure, hafter, -, hnone⟩ := trace_cs h
    intro ev hev
    rcases List.mem_append.mp hev with hev | hev
    · exact ((hensure.makes makes_ensureQueue).1 ev hev).storesNonNull
    · rcases (attempt_ensureQueue hensure).complete hw with hfail | hc
      · rw [hnone hfail] at hev
        cases hev
      · obtain ⟨c, x⟩ := ev
        have hcall := hafter _ hev
        cases c with
        | armFence fence => exact fun h0 => hc.fence (hcall.symm.trans h0)
        | storeFenceStream dcb dw => exact fun h0 => hc.fenceDcb (hcall.symm.trans h0)
        | _ => trivial

/-- After a run everything is set or there is no queue, exactly if no call of it was refused. -/
theorem whole_iff {trs : List (List (Prog.Event Call Answer))} (h : CsRun sym trs st) :
    st.Whole ↔ ∀ tr ∈ trs, ¬ FenceRefused tr := by
  induction h with
  | start => exact ⟨fun _ => nofun, fun _ => .inl rfl⟩
  | call arg _ htrace ih =>
    obtain ⟨tr₁, tr₂, ready, st₁, rfl, hensure, hafter, hsame, -⟩ := trace_cs htrace
    rw [hsame.whole, (attempt_ensureQueue hensure).whole, ih, ← fenceRefused_append hafter]
    simp only [List.forall_mem_append, List.forall_mem_singleton]

/-- **A queue is completely ready after a run exactly if no call of it was refused the fence.** -/
theorem completely_ready_iff {trs : List (List (Prog.Event Call Answer))} (h : CsRun sym trs st) :
    CompletelyReady sym st ↔ ∀ tr ∈ trs, ¬ FenceRefused tr :=
  completelyReady_iff_whole.trans (whole_iff h)

/-- No chunks. -/
private def noChunks : CsIn := ⟨1, none⟩

/-- A call without chunks, its queue, fence and stream granted. -/
theorem completely_ready_iff_granted : CompletelyReady .all ⟨1, 1, 1, 0, 0⟩ := by
  have htrace := Prog.trace_runWith accepting (cs .all noChunks .init)
  refine (completely_ready_iff (.call noChunks .start htrace)).mpr ?_
  refine List.forall_mem_singleton.mpr ?_
  have htr : (Prog.runWith accepting (cs .all noChunks .init)).1 =
      [⟨.agcInit, (0 : Int32)⟩, ⟨.createQueue, ⟨0, 1⟩⟩, ⟨.allocFence, (1 : UInt64)⟩,
        ⟨.allocFenceDcb, (1 : UInt64)⟩] := rfl
  rw [htr]
  simp [FenceRefused]

/-- A platform that has no memory for the fence. -/
private def noFence : (e : Call) → Answer e
  | .allocFence => (0 : UInt64)
  | e => accepting e

/-- **The fence is asked for once.** The first call creates the queue, is refused the fence and
    fails; the next attempt says that everything is ready. -/
theorem not_completely_ready :
    ¬ ∀ sym trs st, CsRun sym trs st → CompletelyReady sym st := by
  intro h
  have htrace := Prog.trace_runWith noFence (cs .all noChunks .init)
  have hready := h _ _ _ (.call noChunks .start htrace)
  have hagain := Prog.trace_runWith noFence (ensureQueue .all ⟨1, 0, 1, 0, 0⟩)
  exact ((hready.ensured _ _ _ hagain).resolve_left nofun).fence rfl

end OopsMesa.Submit
