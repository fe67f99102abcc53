/-
  GEM_WAIT_IDLE's constant answer.

  The shim says of every buffer that the GPU has finished with it, and gives pages back at once,
  because a submission waits for its own fence. One that stops early does not: a stream refused
  after others were accepted, a chain given up at its depth limit, a wait given up. Those accepted
  stay on the queue (`not_wait_idle_true`). The answer is true in every run in which such an exit
  is taken only when everything accepted has retired (`wait_idle_true`).
-/
import OopsMesa.Submit.Retired

namespace OopsMesa.Submit

open OopsMesa.Lib OopsMesa.Winsys

/-- What the shim says between two calls is so: every stream the driver accepted has retired;
    GEM_WAIT_IDLE, of any live buffer, says idle exactly if no stream is pending; and where a
    GEM_CLOSE gives pages back, no stream is pending that could name them. -/
structure AnswersTrue (s : System) : Prop where
  retired : s.gpu.queue.retired = s.gpu.queue.accepted
  waitIdle : ∀ handle status, gemWaitIdle s.shim handle = (.ok, status) →
    (status = 0 ↔ s.gpu.queue.pending = [])
  close : ∀ handle, (gemClose s.shim handle).2.mem.frees ≠ s.shim.mem.frees →
    s.gpu.queue.pending = []

/-- A stream is refused, a chain found too deep and a wait given up only while everything accepted
    has retired. -/
def ExitsIdle (c : Call) (s : System) (x : Answer c) (s' : System) : Prop :=
  System.act c s x s' ∧
    match c, x with
    | .submit _ _, (rc : Int32) => rc ≠ 0 → s.gpu.queue.Idle
    | .log .chainTooDeep, _ => s.gpu.queue.Idle
    | .log (.notRetired _ _ _), _ => s.gpu.queue.Idle
    | _, _ => True

theorem unmarked_accept_buffer {g : Gpu} (dcb : Dcb) (h : g.queue.Unmarked Job.IsFence) :
    (g.queue.accept ⟨.buffer, dcb⟩).Unmarked Job.IsFence := by
  apply h.accept
  show Role.buffer ≠ Role.fence
  decide

theorem exitsIdle_regime :
    Regime ExitsIdle (fun g => g.queue.Unmarked Job.IsFence) (fun g => g.queue.Idle) where
  sub _ _ _ _ h := h.1
  out_lasts := lasting_unmarked
  stop_lasts := lasting_idle
  out_accept _ dcb h := unmarked_accept_buffer dcb h
  clear _ _ _ _ h _ := h
  refused _ _ _ _ _ hrc h := h.2 hrc
  tooDeep _ _ _ h := h.2
  gaveUp _ _ _ _ _ _ h := h.2

/-- Between two calls nothing is pending. -/
theorem idle_between {sym : Symbols} {st : Statics} {s : System} (h : Runs ExitsIdle sym st s) :
    s.gpu.queue.Idle := by
  have hother : Prog.Stable ShimCall fun s => s.gpu.queue.Idle := by
    intro s s' hs hcall
    cases hcall
    exact hs
  have hbody : ∀ arg st s, s.gpu.queue.Idle →
      Sure ExitsIdle (cs sym arg st) (fun _ s' => s'.gpu.queue.Idle) s := by
    intro arg st s hs
    refine Prog.wp_mono (exitsIdle_regime.sure_cs hs.unmarked hs sym arg st) fun r s' hr => ?_
    rcases Decidable.em (r.1.1 = .ok) with hok | herr
    · exact hr.1 hok
    · exact hr.2 herr
  exact h.invariant (J := fun _ s => s.gpu.queue.Idle) rfl (fun _ => lasting_idle.stable)
    (fun _ => hother) hbody

/-- **Between two calls the GPU is idle, while calls stop early only when it is.** -/
theorem wait_idle_true {sym : Symbols} {st : Statics} {s : System} (h : Runs ExitsIdle sym st s) :
    AnswersTrue s where
  retired := by
    have hidle : s.gpu.queue.pending = [] := idle_between h
    rw [InOrder.accepted, hidle, List.append_nil]
  waitIdle handle status hans := by
    have hstatus : status = 0 := by
      unfold gemWaitIdle at hans
      split at hans
      · cases hans
      · cases hans
        rfl
    exact ⟨fun _ => idle_between h, fun _ => hstatus⟩
  close _ _ := idle_between h

theorem exitsIdle_of_replyPolite {c : Call} {s s' : System} {x : Answer c}
    (h : System.replyPolite c s = some (x, s')) : ExitsIdle c s x s' := by
  refine ⟨System.act_of_reply (System.reply_of_replyPolite h), ?_⟩
  cases c with
  | submit role dcb =>
    cases h
    exact fun h0 => absurd rfl h0
  | log => cases h
  | _ => trivial

/-- After one submission that succeeds. -/
theorem wait_idle_true_one : ∃ s, s.gpu.queue.accepted.length = 2 ∧ AnswersTrue s := by
  obtain ⟨s, hrun, hlen⟩ := polite_run fun _ _ _ _ h => exitsIdle_of_replyPolite h
  have hruns : Runs ExitsIdle .all ⟨1, 0x1000, 0x2000, 1, 0⟩ s :=
    .call oneBuffer (.ok, 1) (runs_withBuffer _ _) hrun
  exact ⟨s, hlen, wait_idle_true hruns⟩

/-- The driver accepts an instruction buffer and refuses the next one: the call returns, and the
    first is still on the queue. -/
theorem not_wait_idle_true :
    ¬ ∀ sym st s, Runs System.act sym st s → AnswersTrue s := by
  intro h
  let answer : Prog.Move Answer System := .answer (System.reply 0 0)
  let refuse : Prog.Move Answer System := .answer (System.reply 1 0)
  have hanswer : answer.Allowed System.act GpuMoves := fun _ _ _ _ h => System.act_of_reply h
  have hrefuse : refuse.Allowed System.act GpuMoves := fun _ _ _ _ h => System.act_of_reply h
  let twoBuffers : CsIn :=
    ⟨1, some [some (.ib (some ⟨0x400000000, 16⟩)), some (.ib (some ⟨0x400000010, 16⟩))]⟩
  let s : System := { System.init with gpu := ⟨⟨[], [⟨.buffer, 0x400000000, 4⟩]⟩, 0⟩ }
  have hdrive : Prog.drive (List.replicate 13 answer ++ [refuse] ++ List.replicate 1 answer)
      (cs .all twoBuffers .init, System.init) =
        some (.ret ((.err Errno.EIO, 0), ⟨1, 0x1000, 0x2000, 0, 0⟩), s) := rfl
  have hruns : Runs System.act .all ⟨1, 0x1000, 0x2000, 0, 0⟩ s := by
    refine .call twoBuffers (.err Errno.EIO, 0) .start ?_
    refine Prog.interleave_drive (Prog.Move.allowed_around hanswer ?_) .refl hdrive
    exact List.forall_mem_singleton.mpr hrefuse
  cases (h _ _ s hruns).retired

end OopsMesa.Submit
