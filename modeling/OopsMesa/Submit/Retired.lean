/-
  Success means retired.

  When `cs` returns 0, the client reuses what its streams named. The fence word must not be fired
  by anything but this submission's own fence stream; but a submission that timed out leaves its
  fence stream on the queue, and it fires the same word (`not_success_means_retired`). The law
  holds in every run in which the fence is armed only while no fence stream is pending
  (`success_means_retired`).
-/
import OopsMesa.Submit.Gpu

namespace OopsMesa.Submit

open OopsMesa.Lib OopsMesa.Winsys

/-- Every stream accepted after the state `s` has retired in `s'`. -/
def RetiredSince (s s' : System) : Prop :=
  ∀ j, s.gpu.queue.accepted.length ≤ j → j < s'.gpu.queue.accepted.length →
    j < s'.gpu.queue.retired.length

/-- In every run by `R`, whenever a call publishes a sequence number, and whenever it returns 0,
    the streams it submitted have retired. -/
def SuccessMeansRetired (R : (c : Call) → System → Answer c → System → Prop) (sym : Symbols) :
    Prop :=
  ∀ st s, Runs R sym st s → ∀ arg s',
    (∀ slot sequence k, Prog.Interleave R GpuMoves (cs sym arg st) s
        (.call (.storeSlot slot sequence) k) s' → RetiredSince s s') ∧
    ∀ handle st', Prog.Interleave R GpuMoves (cs sym arg st) s (.ret ((.ok, handle), st')) s' →
      RetiredSince s s'

/-- The fence is armed only while no fence stream is pending. -/
def ArmsClear (c : Call) (s : System) (x : Answer c) (s' : System) : Prop :=
  System.act c s x s' ∧
    match c with
    | .armFence _ => s.gpu.queue.Unmarked Job.IsFence
    | _ => True

theorem armsClear_regime : Regime ArmsClear (fun _ => True) (fun _ => True) where
  sub _ _ _ _ h := h.1
  out_lasts := lasting_true
  stop_lasts := lasting_true
  out_accept _ _ _ := trivial
  clear _ _ _ _ _ h := h.2
  refused _ _ _ _ _ _ _ := trivial
  tooDeep _ _ _ _ := trivial
  gaveUp _ _ _ _ _ _ _ := trivial

theorem retiredSince_of_idle {s s' : System} (h : s'.gpu.queue.Idle) : RetiredSince s s' := by
  intro j _ hj
  rw [h.length_retired]
  exact hj

/-- **A submission that succeeds has retired, while fences are armed clear.** -/
theorem success_means_retired (sym : Symbols) : SuccessMeansRetired ArmsClear sym := by
  intro st s _ arg s'
  have hsure := armsClear_regime.sure_cs (s := s) trivial trivial sym arg st
  refine ⟨fun slot sequence k hrun => ?_, fun handle st' hrun => ?_⟩
  · have hidle : PublishesIdle (.storeSlot slot sequence) s' := hrun.asserts hsure
    exact retiredSince_of_idle hidle
  · exact retiredSince_of_idle ((hrun.post hsure).1 rfl)

theorem armsClear_of_replyPolite {c : Call} {s s' : System} {x : Answer c}
    (h : System.replyPolite c s = some (x, s')) : ArmsClear c s x s' := by
  refine ⟨System.act_of_reply (System.reply_of_replyPolite h), ?_⟩
  cases c with
  | armFence fence =>
    simp only [System.replyPolite] at h
    split at h
    · next hclear =>
      intro j hj
      have hj' := List.all_eq_true.mp hclear j hj
      simpa using hj'
    · cases h
  | _ => trivial

/-- A submission that succeeds. -/
theorem success_means_retired_one :
    ∃ s', Prog.Interleave ArmsClear GpuMoves (cs .all oneBuffer .init) .withBuffer
        (.ret ((.ok, 1), ⟨1, 0x1000, 0x2000, 1, 0⟩)) s' ∧
      s'.gpu.queue.accepted.length = 2 ∧ RetiredSince .withBuffer s' := by
  obtain ⟨s', hrun, hlen⟩ := polite_run fun _ _ _ _ h => armsClear_of_replyPolite h
  exact ⟨s', hrun, hlen, (success_means_retired .all .init .withBuffer (runs_withBuffer _ _)
    oneBuffer s').2 _ _ hrun⟩

/-- The fence stream of a submission that timed out fires the word that the next one waits for. -/
theorem not_success_means_retired : ¬ ∀ sym, SuccessMeansRetired System.act sym := by
  intro h
  let answer : Prog.Move Answer System := .answer (System.reply 0 0)
  let late : Prog.Move Answer System := .answer (System.reply 0 5000001)
  let retire : Prog.Move Answer System := .env System.retire
  have hanswer : answer.Allowed System.act GpuMoves := fun _ _ _ _ h => System.act_of_reply h
  have hlate : late.Allowed System.act GpuMoves := fun _ _ _ _ h => System.act_of_reply h
  have hretire : retire.Allowed System.act GpuMoves := fun _ _ h => System.moves_of_retire h
  let st : Statics := ⟨1, 0x1000, 0x2000, 0, 0⟩
  -- the first call gives up with both its streams pending
  let s : System :=
    { System.withBuffer with
      gpu := ⟨⟨[], [⟨.buffer, 0x400000000, 4⟩, ⟨.fence, 0x2000, 27⟩]⟩, fenceArmed⟩ }
  have hfirst : Prog.drive (List.replicate 14 answer ++ [late] ++ List.replicate 5 answer)
      (cs .all oneBuffer .init, System.withBuffer) = some (.ret ((.err .ETIMEDOUT, 0), st), s) := rfl
  have hruns : Runs System.act .all st s := by
    refine .call oneBuffer (.err .ETIMEDOUT, 0) (runs_withBuffer _ _) ?_
    refine Prog.interleave_drive (Prog.Move.allowed_around hanswer ?_) .refl hfirst
    exact List.forall_mem_singleton.mpr hlate
  -- they retire when the second call has armed the fence
  obtain ⟨s', hs', hlen, hretired⟩ := of_outcome (show outcome (Prog.drive
      (List.replicate 7 answer ++ [retire, retire] ++ List.replicate 7 answer)
      (cs .all oneBuffer st, s)) = some (((.ok, 1), { st with sequence := 1 }), 4, 2)
    by decide +kernel)
  have hrun : Prog.Interleave System.act GpuMoves (cs .all oneBuffer st) s
      (.ret ((.ok, 1), { st with sequence := 1 })) s' := by
    refine Prog.interleave_drive (Prog.Move.allowed_around hanswer ?_) .refl hs'
    exact List.forall_mem_cons.mpr ⟨hretire, List.forall_mem_singleton.mpr hretire⟩
  -- the third stream, this submission's instruction buffer
  have hthird := ((h .all) st s hruns oneBuffer s').2 _ _ hrun 2 (Nat.le_refl 2) (by omega)
  omega

end OopsMesa.Submit
