/-
  Submission and the GPU.

  The GPU retires the streams the driver accepted, in order and in its own time; a fence stream
  that retires writes the fired word. `System.act` is what each call of submit.c does to that,
  and `GpuMoves` what the GPU does between any two of them.

  What a run guarantees depends on what is assumed of its steps. A `Regime` is such an assumption:
  calls restricted to `R`, what is known of the GPU while the instruction buffers go out (`Out`),
  and what is known of it where a call stops early (`Stop`). Under every regime in which no fence
  stream is pending when the fence is armed, a `cs` that succeeds has waited for everything
  (`Regime.wp_cs`).
-/
import OopsMesa.Lib.InOrder
import OopsMesa.Submit.Cs
import OopsMesa.Winsys.Buffers

namespace OopsMesa.Submit

open OopsMesa.Lib OopsMesa.Winsys

/-! ## The system -/

/-- A stream accepted by the driver. -/
structure Job where
  role : Role
  dcb : Dcb
  deriving DecidableEq, Repr

/-- The stream writes the fence word. -/
def Job.IsFence (j : Job) : Prop := j.role = .fence

instance : DecidablePred Job.IsFence := fun j => inferInstanceAs (Decidable (j.role = .fence))

/-- The queue, and the word the GPU writes. -/
structure Gpu where
  queue : InOrder Job
  fence : UInt32

/-- The GPU, and the shim's tables. -/
structure System where
  gpu : Gpu
  shim : Shim

/-- Before the first call. -/
def System.init : System := ⟨⟨.empty, 0⟩, .init⟩

/-- The oldest pending stream retires. -/
inductive Gpu.Retires (g : Gpu) : Gpu → Prop
  | mk {j : Job} {q : InOrder Job} :
      InOrder.Retires j g.queue q →
        Retires g ⟨q, if j.IsFence then fenceFired else g.fence⟩

/-- What the GPU does by itself. -/
inductive GpuMoves (s : System) : System → Prop
  | mk {g : Gpu} : s.gpu.Retires g → GpuMoves s { s with gpu := g }

/-- A call of submit.c. The driver may refuse any stream, and answers it does not owe to the
    system are arbitrary. A store through a null pointer is no step. -/
def System.act : (c : Call) → System → Answer c → System → Prop
  | .submit role dcb, s, (rc : Int32), s' =>
    s' = if rc = 0 then { s with gpu := { s.gpu with queue := s.gpu.queue.accept ⟨role, dcb⟩ } }
      else s
  | .armFence fence, s, _, s' => fence ≠ 0 ∧ s' = { s with gpu := { s.gpu with fence := fenceArmed } }
  | .storeFenceStream dcb _, s, _, s' => dcb ≠ 0 ∧ s' = s
  | .readFence _, s, (word : UInt32), s' => word = s.gpu.fence ∧ s' = s
  | .boCpuRange handle offset bytes, s, (slot : UInt64), s' =>
    ∃ map, slot = (boCpuRange s.shim handle offset bytes map).1 ∧
      s' = { s with shim := (boCpuRange s.shim handle offset bytes map).2 }
  | _, s, _, s' => s' = s

/-- Between two submissions: another call of the shim. -/
inductive ShimCall (s : System) : System → Prop
  | mk (op : Op) : ShimCall s { s with shim := Winsys.step s.shim op }

/-- Calls of `oops_winsys_cs` from the start, with the other calls of the shim and the GPU's
    moves between them, when the calls of submit.c go by `R`. -/
abbrev Runs (R : (c : Call) → System → Answer c → System → Prop) (sym : Symbols) :
    Statics → System → Prop :=
  Prog.Session R GpuMoves ShimCall (cs sym) Statics.init System.init

/-! ## Regimes -/

/-- The GPU keeps `T` when it moves. -/
def Lasting (T : Gpu → Prop) : Prop := ∀ g g', T g → Gpu.Retires g g' → T g'

/-- What is assumed of a run: its calls go by `R`, `Out` holds while instruction buffers go out,
    and `Stop` where a call stops early. When the fence is armed no fence stream is pending. -/
structure Regime (R : (c : Call) → System → Answer c → System → Prop) (Out Stop : Gpu → Prop) :
    Prop where
  sub : ∀ c s x s', R c s x s' → System.act c s x s'
  out_lasts : Lasting Out
  stop_lasts : Lasting Stop
  out_accept : ∀ g dcb, Out g → Out { g with queue := g.queue.accept ⟨.buffer, dcb⟩ }
  clear : ∀ fence s x s', Out s.gpu → R (.armFence fence) s x s' →
    s.gpu.queue.Unmarked Job.IsFence
  refused : ∀ role dcb s (rc : Int32) s', rc ≠ 0 → R (.submit role dcb) s rc s' → Stop s.gpu
  tooDeep : ∀ s x s', R (.log .chainTooDeep) s x s' → Stop s.gpu
  gaveUp : ∀ n us word s x s', R (.log (.notRetired n us word)) s x s' → Stop s.gpu

/-- When a sequence number is published, every accepted stream has retired. -/
def PublishesIdle : Call → System → Prop
  | .storeSlot _ _, s => s.gpu.queue.Idle
  | _, _ => True

/-- The call leaves the GPU alone. -/
def Call.Quiet : Call → Prop
  | .submit _ _ => False
  | .armFence _ => False
  | _ => True

/-- After a submission of instruction buffers: accepted, or refused. -/
def Sent (Out Stop : Gpu → Prop) (rc : Int32) (s : System) : Prop :=
  (rc = 0 → Out s.gpu) ∧ (rc ≠ 0 → Stop s.gpu)

/-- The fence word, once fired, says that everything has retired. -/
def Signalled (g : Gpu) : Prop :=
  g.queue.LastMarked Job.IsFence ∧ (g.fence = fenceFired → g.queue.Idle)

/-- The fence is armed, and nothing pending fires it. -/
def Cleared (g : Gpu) : Prop := g.queue.Unmarked Job.IsFence ∧ g.fence ≠ fenceFired

theorem Lasting.stable {T : Gpu → Prop} (h : Lasting T) :
    Prog.Stable GpuMoves fun s => T s.gpu := by
  intro s s' hs hm
  cases hm with
  | mk hr => exact h _ _ hs hr

theorem Lasting.and {T U : Gpu → Prop} (hT : Lasting T) (hU : Lasting U) :
    Lasting fun g => T g ∧ U g := fun g g' h hr => ⟨hT g g' h.1 hr, hU g g' h.2 hr⟩

theorem Lasting.imp {T : Gpu → Prop} {p : Prop} (hT : Lasting T) : Lasting fun g => p → T g :=
  fun g g' h hr hp => hT g g' (h hp) hr

theorem lasting_true : Lasting fun _ => True := fun _ _ _ _ => trivial

theorem lasting_idle : Lasting fun g => g.queue.Idle := by
  intro g g' h hr
  cases hr with
  | mk hr => exact absurd hr h.not_retires

theorem lasting_unmarked : Lasting fun g => g.queue.Unmarked Job.IsFence := by
  intro g g' h hr
  cases hr with
  | mk hr => exact (h.retire hr).2

theorem lasting_cleared : Lasting Cleared := by
  intro g g' h hr
  cases hr with
  | mk hr =>
    obtain ⟨hj, hq⟩ := h.1.retire hr
    refine ⟨hq, ?_⟩
    rw [if_neg hj]
    exact h.2

theorem lasting_signalled : Lasting Signalled := by
  intro g g' h hr
  cases hr with
  | @mk j q hr =>
    obtain ⟨hj, hq⟩ := h.1.retire hr
    refine ⟨hq, fun hfired => ?_⟩
    by_cases hm : j.IsFence
    · exact hj hm
    · rw [if_neg hm] at hfired
      exact absurd hr (h.2 hfired).not_retires

theorem act_quiet {c : Call} {s s' : System} {x : Answer c} (hc : c.Quiet)
    (h : System.act c s x s') : s'.gpu = s.gpu := by
  cases c with
  | submit => exact hc.elim
  | armFence => exact hc.elim
  | storeFenceStream => rw [h.2]
  | readFence => rw [h.2]
  | boCpuRange =>
    obtain ⟨map, -, rfl⟩ := h
    rfl
  | _ => rw [show s' = s from h]

/-- Whatever the calls by `R` answer and the GPU does: numbers are published when the GPU is idle,
    and what `p` returns meets `Q`. -/
abbrev Sure (R : (c : Call) → System → Answer c → System → Prop) {α : Type} (p : Submission α)
    (Q : α → System → Prop) (s : System) : Prop :=
  Prog.wp R GpuMoves PublishesIdle p Q s

namespace Regime

variable {R : (c : Call) → System → Answer c → System → Prop} {Out Stop T : Gpu → Prop}
  {α : Type} {Q : α → System → Prop} {s : System} {sym : Symbols} {st : Statics}

/-! ## One call -/

/-- A call that leaves the GPU alone keeps what lasts. -/
theorem sure_call (h : Regime R Out Stop) (hT : Lasting T) (hs : T s.gpu) {c : Call}
    {k : Answer c → Submission α} (hc : c.Quiet) (hpub : ∀ s, T s.gpu → PublishesIdle c s)
    (hk : ∀ x s', T s'.gpu → Sure R (k x) Q s') : Sure R (.call c k) Q s := by
  refine Prog.wp_call hT.stable hs hpub fun x s₁ s₂ h₁ hR => hk x s₂ ?_
  rw [act_quiet hc (h.sub c s₁ x s₂ hR)]
  exact h₁

/-- A line logged keeps what lasts. -/
theorem sure_log (h : Regime R Out Stop) (hT : Lasting T) (hs : T s.gpu) (line : LogLine) :
    Sure R (log line) (fun _ s' => T s'.gpu) s :=
  h.sure_call hT hs trivial (fun _ _ => trivial) fun _ _ hs' => Prog.wp_ret hT.stable hs'

/-- An instruction buffer handed over. -/
theorem sure_submitOne (h : Regime R Out Stop) (hs : Out s.gpu) (va : UInt64) (bytes : Nat) :
    Sure R (submitOne .buffer va bytes) (Sent Out Stop) s := by
  refine Prog.wp_call h.out_lasts.stable hs (fun _ _ => trivial) fun x s₁ s₂ h₁ hR =>
    Prog.wp_ret (h.out_lasts.imp.and h.stop_lasts.imp).stable ?_
  have hact := h.sub _ _ _ _ hR
  refine ⟨fun hrc => ?_, fun hrc => ?_⟩
  · rw [show s₂ = _ from hact, if_pos hrc]
    exact h.out_accept _ _ h₁
  · rw [show s₂ = _ from hact, if_neg hrc]
    exact h.refused _ _ _ _ _ hrc hR

/-! ## The instruction buffers -/

theorem sure_submitChain (h : Regime R Out Stop) (hs : Out s.gpu) (mem : Memory) (left : Nat)
    (va : UInt64) (bytes : Nat) : Sure R (submitChain mem left va bytes) (Sent Out Stop) s := by
  have hsent : ∀ rc, Lasting fun g => (rc = (0 : Int32) → Out g) ∧ (rc ≠ 0 → Stop g) :=
    fun _ => h.out_lasts.imp.and h.stop_lasts.imp
  have heio : -eio ≠ 0 := by decide
  induction left generalizing va bytes s with
  | zero =>
    refine Prog.wp_call h.out_lasts.stable hs (fun _ _ => trivial) fun x s₁ s₂ h₁ hR =>
      Prog.wp_ret (hsent _).stable ⟨fun hrc => absurd hrc heio, fun _ => ?_⟩
    rw [show s₂ = s₁ from h.sub _ _ _ _ hR]
    exact h.tooDeep _ _ _ hR
  | succ left ih =>
    rw [submitChain_succ]
    split
    · exact h.sure_submitOne hs va bytes
    · -- once the part before the chain packet is handed over
      have hrest : ∀ (rc : Int32) s₁, Sent Out Stop rc s₁ →
          Sure R (submitRest mem left va bytes rc) (Sent Out Stop) s₁ := by
        intro rc s₁ h₁
        unfold submitRest
        dsimp only
        split
        · next hrc =>
          exact Prog.wp_ret (hsent _).stable ⟨fun h0 => absurd h0 heio, fun _ => h₁.2 hrc⟩
        · next hrc =>
          have hout : Out s₁.gpu := h₁.1 (Decidable.of_not_not hrc)
          split
          · exact Prog.wp_ret (hsent 0).stable ⟨fun _ => hout, fun h0 => absurd rfl h0⟩
          · exact ih hout _ _
      split
      · exact Prog.wp_seq (h.sure_submitOne hs va _) hrest
      · exact hrest 0 s ⟨fun _ => hs, fun h0 => absurd rfl h0⟩

/-- A chunk that is an instruction buffer. -/
theorem sure_submitIb (h : Regime R Out Stop) (hs : Out s.gpu) (ib : ChunkIb) :
    Sure R (submitIb ib)
      (fun accepted s' => (accepted = true → Out s'.gpu) ∧ (accepted = false → Stop s'.gpu)) s := by
  refine h.sure_call h.out_lasts hs trivial (fun _ _ => trivial) fun _ s₁ h₁ => ?_
  refine h.sure_call h.out_lasts h₁ trivial (fun _ _ => trivial) fun _ s₂ h₂ => ?_
  refine h.sure_call h.out_lasts h₂ trivial (fun _ _ => trivial) fun mem s₃ h₃ => ?_
  show Sure R (submitChain mem _ _ _ >>= _) _ s₃
  refine Prog.wp_seq (h.sure_submitChain h₃ mem _ _ _) fun rc s₄ h₄ => ?_
  split
  · next hrc =>
    refine Prog.wp_seq (h.sure_log h.stop_lasts (h₄.2 hrc) _) fun _ s₅ h₅ => ?_
    exact Prog.wp_ret (h.out_lasts.imp.and h.stop_lasts.imp).stable ⟨nofun, fun _ => h₅⟩
  · next hrc =>
    exact Prog.wp_ret (h.out_lasts.imp.and h.stop_lasts.imp).stable
      ⟨fun _ => h₄.1 (Decidable.of_not_not hrc), nofun⟩

/-- What the loop over the chunks knows: still out, and where nothing was submitted the GPU is as
    it was. Refused, it has stopped. -/
def WalkedTo (Out Stop : Gpu → Prop) : Option Walked → Gpu → Prop
  | none, g => Stop g
  | some w, g => Out g ∧ (w.submitted = 0 → Stop g)

theorem walkedTo_lasts (h : Regime R Out Stop) (o : Option Walked) :
    Lasting (WalkedTo Out Stop o) := by
  cases o with
  | none => exact h.stop_lasts
  | some w => exact h.out_lasts.and h.stop_lasts.imp

theorem sure_submitChunk (h : Regime R Out Stop) {w : Walked}
    (hs : WalkedTo Out Stop (some w) s.gpu) (c : Option Chunk) :
    Sure R (submitChunk w c) (fun o s' => WalkedTo Out Stop o s'.gpu) s := by
  have hret : ∀ o, Prog.Stable GpuMoves fun s' => WalkedTo Out Stop o s'.gpu :=
    fun o => (h.walkedTo_lasts o).stable
  unfold submitChunk
  split
  · next ib =>
    split
    · exact Prog.wp_ret (hret _) hs
    · refine Prog.wp_seq (h.sure_submitIb hs.1 ib) fun accepted s₁ h₁ => ?_
      cases accepted with
      | true => exact Prog.wp_ret (hret _) ⟨h₁.1 rfl, nofun⟩
      | false => exact Prog.wp_ret (hret _) (h₁.2 rfl)
  · exact Prog.wp_ret (hret _) hs
  · refine Prog.wp_seq (h.sure_log (h.walkedTo_lasts (some w)) hs _) fun _ s₁ h₁ => ?_
    exact Prog.wp_ret (hret _) h₁
  · exact Prog.wp_ret (hret _) hs

theorem sure_submitChunks (h : Regime R Out Stop) {w : Walked}
    (hs : WalkedTo Out Stop (some w) s.gpu) (cs : List (Option Chunk)) :
    Sure R (submitChunks w cs) (fun o s' => WalkedTo Out Stop o s'.gpu) s := by
  induction cs generalizing w s with
  | nil => exact Prog.wp_ret (h.walkedTo_lasts (some w)).stable hs
  | cons c cs ih =>
    refine Prog.wp_seq (h.sure_submitChunk hs c) fun o s₁ h₁ => ?_
    cases o with
    | none => exact Prog.wp_ret (h.walkedTo_lasts none).stable h₁
    | some w' => exact ih h₁

/-! ## The queue and the fence -/

/-- Setting the queue up submits nothing. -/
theorem sure_ensureQueue (h : Regime R Out Stop) (hT : Lasting T) (hs : T s.gpu) (sym : Symbols)
    (st : Statics) : Sure R (ensureQueue sym st) (fun _ s' => T s'.gpu) s := by
  have hret : ∀ (r : Bool × Statics) {s' : System}, T s'.gpu →
      Sure R (pure r) (fun _ s' => T s'.gpu) s' := fun _ _ hs' => Prog.wp_ret hT.stable hs'
  unfold ensureQueue
  split
  · exact hret _ hs
  · split
    · exact Prog.wp_seq (h.sure_log hT hs _) fun _ s₁ h₁ => hret _ h₁
    · refine h.sure_call hT hs trivial (fun _ _ => trivial) fun arc s₁ h₁ => ?_
      show Sure R (ite _ _ _) _ s₁
      split
      · exact Prog.wp_seq (h.sure_log hT h₁ _) fun _ s₂ h₂ => hret _ h₂
      · refine h.sure_call hT h₁ trivial (fun _ _ => trivial) fun q s₂ h₂ => ?_
        show Sure R (ite _ _ _) _ s₂
        split
        · exact Prog.wp_seq (h.sure_log hT h₂ _) fun _ s₃ h₃ => hret _ h₃
        · refine h.sure_call hT h₂ trivial (fun _ _ => trivial) fun fence s₃ h₃ => ?_
          refine h.sure_call hT h₃ trivial (fun _ _ => trivial) fun fenceDcb s₄ h₄ => ?_
          show Sure R (ite _ _ _) _ s₄
          split
          · exact Prog.wp_seq (h.sure_log hT h₄ _) fun _ s₅ h₅ => hret _ h₅
          · exact hret _ h₄

/-- The fence stream handed over: accepted, it is the last pending stream that fires. -/
theorem sure_submitFence (h : Regime R Out Stop) (hs : Out s.gpu) (st : Statics) :
    Sure R (submitFence st) (Sent Signalled Stop) s := by
  refine Prog.wp_call h.out_lasts.stable hs (fun _ _ => trivial) fun _ s₁ s₂ h₁ hR => ?_
  have harmed : Cleared s₂.gpu := by
    have hclear := h.clear _ _ _ _ h₁ hR
    obtain ⟨-, hact⟩ := h.sub _ _ _ _ hR
    rw [hact]
    exact ⟨hclear, by show fenceArmed ≠ fenceFired; decide⟩
  refine h.sure_call lasting_cleared harmed trivial (fun _ _ => trivial) fun _ s₃ h₃ => ?_
  refine Prog.wp_call lasting_cleared.stable h₃ (fun _ _ => trivial) fun rc s₄ s₅ h₄ hR' =>
    Prog.wp_ret (lasting_signalled.imp.and h.stop_lasts.imp).stable ?_
  have hact := h.sub _ _ _ _ hR'
  refine ⟨fun hrc => ?_, fun hrc => ?_⟩
  · rw [show s₅ = _ from hact, if_pos hrc]
    exact ⟨h₄.1.lastMarked, fun hfired => absurd hfired h₄.2⟩
  · rw [show s₅ = _ from hact, if_neg hrc]
    exact h.refused _ _ _ _ _ hrc hR'

/-- The poll loop sees the fired word only when everything has retired. -/
theorem sure_pollFence (h : Regime R Out Stop) (hs : Signalled s.gpu) (sym : Symbols)
    (fence startUs : UInt64) (polls : Nat) (waitedUs : UInt64) :
    Sure R (pollFence sym fence startUs polls waitedUs)
      (fun r s' => r.1 = true → s'.gpu.queue.Idle) s := by
  induction polls generalizing s waitedUs with
  | zero => exact Prog.wp_ret lasting_idle.imp.stable nofun
  | succ polls ih =>
    -- a poll, once the clock has been read
    have hpoll : ∀ (waitedUs : UInt64) {s : System}, Signalled s.gpu → Sure R
        (Prog.call (.readFence fence) fun word =>
          if word = fenceFired then pure (true, waitedUs)
          else if fenceTimeoutUs < waitedUs then pure (false, waitedUs)
          else pollFence sym fence startUs polls waitedUs)
        (fun r s' => r.1 = true → s'.gpu.queue.Idle) s := by
      intro waitedUs s hs
      refine Prog.wp_call lasting_signalled.stable hs (fun _ _ => trivial) fun word s₁ s₂ h₁ hR => ?_
      obtain ⟨hword, rfl⟩ := h.sub _ _ _ _ hR
      split
      · next hfired =>
        exact Prog.wp_ret lasting_idle.imp.stable fun _ => h₁.2 (hword.symm.trans hfired)
      · split
        · exact Prog.wp_ret lasting_idle.imp.stable nofun
        · exact ih h₁ waitedUs
    unfold pollFence
    split
    · refine h.sure_call lasting_signalled hs trivial (fun _ _ => trivial) fun now s₁ h₁ => ?_
      exact hpoll _ h₁
    · exact hpoll _ hs

/-- The wait ends when everything has retired, or is given up. -/
theorem sure_awaitFence (h : Regime R Out Stop) (hs : Signalled s.gpu) (sym : Symbols)
    (st : Statics) (ctxId : UInt32) :
    Sure R (awaitFence sym st ctxId)
      (fun r s' => (r.1 = true → s'.gpu.queue.Idle) ∧ (r.1 = false → Stop s'.gpu)) s := by
  have hret : ∀ r : Bool × Statics, Prog.Stable GpuMoves fun s' =>
      (r.1 = true → s'.gpu.queue.Idle) ∧ (r.1 = false → Stop s'.gpu) :=
    fun _ => (lasting_idle.imp.and h.stop_lasts.imp).stable
  have hpolled : ∀ (startUs : UInt64) {s : System}, Signalled s.gpu → Sure R
      (pollFence sym st.fence startUs fencePolls 0 >>= noteWait st ctxId)
      (fun r s' => (r.1 = true → s'.gpu.queue.Idle) ∧ (r.1 = false → Stop s'.gpu)) s := by
    intro startUs s hs
    refine Prog.wp_seq (h.sure_pollFence hs sym _ _ _ _) fun r s₁ h₁ => ?_
    unfold noteWait
    split
    · next hfired =>
      split
      · refine Prog.wp_seq (h.sure_log lasting_idle (h₁ hfired) _) fun _ s₂ h₂ => ?_
        exact Prog.wp_ret (hret _) ⟨fun _ => h₂, nofun⟩
      · exact Prog.wp_ret (hret _) ⟨fun _ => h₁ hfired, nofun⟩
    · refine h.sure_call lasting_true trivial trivial (fun _ _ => trivial) fun word s₂ _ => ?_
      refine Prog.wp_call lasting_true.stable trivial (fun _ _ => trivial) fun _ s₃ s₄ _ hR => ?_
      have hstop : Stop s₄.gpu := by
        rw [show s₄ = s₃ from h.sub _ _ _ _ hR]
        exact h.gaveUp _ _ _ _ _ _ hR
      refine h.sure_call h.stop_lasts hstop trivial (fun _ _ => trivial) fun _ s₅ h₅ => ?_
      refine h.sure_call h.stop_lasts h₅ trivial (fun _ _ => trivial) fun _ s₆ h₆ => ?_
      exact Prog.wp_ret (hret _) ⟨nofun, fun _ => h₆⟩
  rw [awaitFence_eq]
  split
  · refine h.sure_call lasting_signalled hs trivial (fun _ _ => trivial) fun now s₁ h₁ => ?_
    exact hpolled _ h₁
  · exact hpolled _ hs

/-- A number is published when the GPU is idle. -/
theorem sure_publish (h : Regime R Out Stop) (hs : s.gpu.queue.Idle) (st : Statics)
    (userFence : Option ChunkFence) :
    Sure R (publish st userFence) (fun _ s' => s'.gpu.queue.Idle) s := by
  unfold publish
  dsimp only
  split
  · exact Prog.wp_ret lasting_idle.stable hs
  · refine h.sure_call lasting_idle hs trivial (fun _ _ => trivial) fun slot s₁ h₁ => ?_
    show Sure R (ite _ _ _) _ s₁
    split
    · refine h.sure_call lasting_idle h₁ trivial (fun _ hidle => hidle) fun _ s₂ h₂ => ?_
      exact Prog.wp_ret lasting_idle.stable h₂
    · refine Prog.wp_seq (h.sure_log lasting_idle h₁ _) fun _ s₂ h₂ => ?_
      exact Prog.wp_ret lasting_idle.stable h₂

/-! ## The call -/

/-- A `cs` that succeeds leaves the GPU idle; one that fails leaves it as its regime has it where
    a call stops early. -/
theorem sure_cs (h : Regime R Out Stop) (hout : Out s.gpu) (hstop : Stop s.gpu) (sym : Symbols)
    (arg : CsIn) (st : Statics) :
    Sure R (cs sym arg st)
      (fun r s' => (r.1.1 = .ok → s'.gpu.queue.Idle) ∧ (r.1.1 ≠ .ok → Stop s'.gpu)) s := by
  have hboth : Lasting fun g => Out g ∧ Stop g := h.out_lasts.and h.stop_lasts
  have herr : ∀ (e : Errno) (st : Statics) {s' : System}, Stop s'.gpu → Sure R
      (pure ((.err e, 0), st) : Submission ((Ret × UInt64) × Statics))
      (fun r s' => (r.1.1 = .ok → s'.gpu.queue.Idle) ∧ (r.1.1 ≠ .ok → Stop s'.gpu)) s' :=
    fun _ _ _ hs' => Prog.wp_ret (lasting_idle.imp.and h.stop_lasts.imp).stable
      ⟨nofun, fun _ => hs'⟩
  unfold cs
  refine Prog.wp_seq (h.sure_ensureQueue hboth ⟨hout, hstop⟩ sym st) fun r s₁ h₁ => ?_
  obtain ⟨ready, st₁⟩ := r
  dsimp only
  split
  · exact herr _ _ h₁.2
  split
  · exact herr _ _ h₁.2
  · exact herr _ _ h₁.2
  refine h.sure_call hboth h₁ trivial (fun _ _ => trivial) fun _ s₂ h₂ => ?_
  refine h.sure_call hboth h₂ trivial (fun _ _ => trivial) fun _ s₃ h₃ => ?_
  have hstart : WalkedTo Out Stop (some ⟨0, none⟩) s₃.gpu := ⟨h₃.1, fun _ => h₃.2⟩
  show Sure R (submitChunks _ _ >>= _) _ s₃
  refine Prog.wp_seq (h.sure_submitChunks hstart _) fun o s₄ h₄ => ?_
  cases o with
  | none => exact herr _ _ h₄
  | some w =>
    dsimp only
    split
    · next hnone =>
      exact Prog.wp_seq (h.sure_log h.stop_lasts (h₄.2 hnone) _) fun _ s₅ h₅ => herr _ _ h₅
    refine Prog.wp_seq (h.sure_submitFence h₄.1 st₁) fun rc s₅ h₅ => ?_
    split
    · next hrc =>
      exact Prog.wp_seq (h.sure_log h.stop_lasts (h₅.2 hrc) _) fun _ s₆ h₆ => herr _ _ h₆
    · next hrc =>
      have hsig : Signalled s₅.gpu := h₅.1 (Decidable.of_not_not hrc)
      refine Prog.wp_seq (h.sure_awaitFence hsig sym st₁ arg.ctxId) fun r s₆ h₆ => ?_
      obtain ⟨fired, st₂⟩ := r
      cases fired with
      | false => exact herr _ _ (h₆.2 rfl)
      | true =>
        refine Prog.wp_seq (h.sure_publish (h₆.1 rfl) st₂ _) fun st₃ s₇ h₇ => ?_
        exact Prog.wp_ret (lasting_idle.imp.and h.stop_lasts.imp).stable
          ⟨fun _ => h₇, fun hne => absurd rfl hne⟩

end Regime

/-! ## A scripted run -/

/-- A platform that accepts, but for the code `rc` of the driver, and whose clock shows `clock`. -/
def System.reply (rc : Int32) (clock : UInt64) :
    (c : Call) → System → Option (Answer c × System)
  | .submit role dcb, s =>
    some (rc, if rc = 0 then
      { s with gpu := { s.gpu with queue := s.gpu.queue.accept ⟨role, dcb⟩ } } else s)
  | .armFence fence, s =>
    if fence ≠ 0 then some ((), { s with gpu := { s.gpu with fence := fenceArmed } }) else none
  | .storeFenceStream dcb _, s => if dcb ≠ 0 then some ((), s) else none
  | .readFence _, s => some (s.gpu.fence, s)
  | .boCpuRange handle offset bytes, s =>
    let r := boCpuRange s.shim handle offset bytes (some 0x900000000)
    some (r.1, { s with shim := r.2 })
  | .agcInit, s => some ((0 : Int32), s)
  | .createQueue, s => some (⟨0, 1⟩, s)
  | .allocFence, s => some ((0x1000 : UInt64), s)
  | .allocFenceDcb, s => some ((0x2000 : UInt64), s)
  | .readMemory, s => some (fun _ => 0, s)
  | .processTime, s => some (clock, s)
  | .log _, s | .clearMarks, s | .flushCpuWrites, s | .dumpIb _ _, s | .noteMarks _ _, s
  | .reportMarks, s | .noteHang _, s | .storeSlot _ _, s => some ((), s)

/-- The GPU retires a stream, if one is pending. -/
def System.retire (s : System) : Option System :=
  match s.gpu.queue.pending with
  | [] => none
  | j :: rest =>
    some { s with
      gpu := ⟨⟨s.gpu.queue.retired ++ [j], rest⟩, if j.IsFence then fenceFired else s.gpu.fence⟩ }

theorem System.act_of_reply {rc : Int32} {clock : UInt64} {c : Call} {s s' : System}
    {x : Answer c} (h : System.reply rc clock c s = some (x, s')) : System.act c s x s' := by
  cases c with
  | submit role dcb =>
    cases h
    rfl
  | armFence fence =>
    simp only [System.reply] at h
    split at h
    · next hne =>
      cases h
      exact ⟨hne, rfl⟩
    · cases h
  | storeFenceStream dcb dw =>
    simp only [System.reply] at h
    split at h
    · next hne =>
      cases h
      exact ⟨hne, rfl⟩
    · cases h
  | readFence =>
    cases h
    exact ⟨rfl, rfl⟩
  | boCpuRange =>
    cases h
    exact ⟨_, rfl, rfl⟩
  | _ =>
    cases h
    rfl

theorem System.moves_of_retire {s s' : System} (h : s.retire = some s') : GpuMoves s s' := by
  obtain ⟨⟨⟨done, pending⟩, fence⟩, shim⟩ := s
  cases pending with
  | nil => cases h
  | cons j rest =>
    cases h
    exact .mk (.mk .mk)

/-- What a `cs` that has returned, returned, and how many streams are accepted and retired. -/
def outcome (c : Option (Submission ((Ret × UInt64) × Statics) × System)) :
    Option (((Ret × UInt64) × Statics) × Nat × Nat) :=
  match c with
  | some (.ret r, s) => some (r, s.gpu.queue.accepted.length, s.gpu.queue.retired.length)
  | _ => none

theorem of_outcome {c : Option (Submission ((Ret × UInt64) × Statics) × System)}
    {r : (Ret × UInt64) × Statics} {a n : Nat} (h : outcome c = some (r, a, n)) :
    ∃ s, c = some (.ret r, s) ∧ s.gpu.queue.accepted.length = a ∧
      s.gpu.queue.retired.length = n := by
  unfold outcome at h
  split at h
  · next r' s =>
    cases h
    exact ⟨s, rfl, rfl, rfl⟩
  · cases h

/-- The same platform where it accepts, arms no fence over a pending one, and logs nothing. -/
def System.replyPolite : (c : Call) → System → Option (Answer c × System)
  | .armFence fence, s =>
    if s.gpu.queue.pending.all fun j => !decide j.IsFence then System.reply 0 0 (.armFence fence) s
    else none
  | .log _, _ => none
  | c, s => System.reply 0 0 c s

theorem System.reply_of_replyPolite {c : Call} {s : System} {r : Answer c × System}
    (h : System.replyPolite c s = some r) : System.reply 0 0 c s = some r := by
  cases c with
  | armFence fence =>
    simp only [System.replyPolite] at h
    split at h
    · exact h
    · cases h
  | log => cases h
  | _ => exact h

/-- One instruction buffer, and a fence slot in buffer 1. -/
def oneBuffer : CsIn :=
  ⟨1, some [some (.ib (some ⟨0x400000000, 16⟩)), some (.fence (some ⟨1, 0⟩))]⟩

/-- Buffer 1, of one page, has been created. -/
def System.withBuffer : System :=
  { System.init with shim := Winsys.step .init (.gemCreate ⟨0x4000, 0, 4, 0⟩ (some 0)) }

theorem runs_withBuffer (R : (c : Call) → System → Answer c → System → Prop) (sym : Symbols) :
    Runs R sym .init .withBuffer := .other .start (.mk _)

/-- A submission that succeeds, its streams retiring after the wait has begun. -/
theorem polite_run {R : (c : Call) → System → Answer c → System → Prop}
    (hR : ∀ c s x s', System.replyPolite c s = some (x, s') → R c s x s') :
    ∃ s', Prog.Interleave R GpuMoves (cs .all oneBuffer .init) .withBuffer
        (.ret ((.ok, 1), ⟨1, 0x1000, 0x2000, 1, 0⟩)) s' ∧
      s'.gpu.queue.accepted.length = 2 := by
  let answer : Prog.Move Answer System := .answer System.replyPolite
  let retire : Prog.Move Answer System := .env System.retire
  have hanswer : answer.Allowed R GpuMoves := hR
  have hretire : retire.Allowed R GpuMoves := fun _ _ h => System.moves_of_retire h
  obtain ⟨s', hs', hlen, -⟩ := of_outcome (show outcome (Prog.drive
      (List.replicate 14 answer ++ [retire, retire] ++ List.replicate 4 answer)
      (cs .all oneBuffer .init, System.withBuffer)) =
        some (((.ok, 1), ⟨1, 0x1000, 0x2000, 1, 0⟩), 2, 2) by decide +kernel)
  refine ⟨s', Prog.interleave_drive (Prog.Move.allowed_around hanswer ?_) .refl hs', hlen⟩
  exact List.forall_mem_cons.mpr ⟨hretire, List.forall_mem_singleton.mpr hretire⟩

end OopsMesa.Submit
