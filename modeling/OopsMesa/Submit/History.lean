/-
  What a context answers about resets.

  radeonsi decides from QUERY_STATE whether to recreate a context. context.c answers from a count
  that submit.c alone moves, once for each submission that did not retire, and that ALLOC_CTX
  starts again. So the answer is a function of what the client itself has seen: which contexts it
  was given and gave back, and which of its submissions returned `-ETIMEDOUT`. `hangsOf` is that
  function, and `reset_history` says that the answer is it, after any run of the two calls with
  any arguments and any answers of the platform. The count has 32 bits.
-/
import OopsMesa.Submit.Parts
import OopsMesa.Winsys.Handles

namespace OopsMesa.Submit

open OopsMesa.Lib OopsMesa.Winsys

/-! ## The calls -/

/-- The statics of context.c that a context call or a submission touches. -/
abbrev Contexts := Fin winsysMaxCtx → Ctx

/-- What the calls of submit.c do to them. -/
def Contexts.act : (e : Call) → Contexts → Answer e → Contexts → Prop
  | .noteHang ctxId, ctx, _, ctx' => ctx' = oopsWinsysCtxNoteHang ctx ctxId
  | _, ctx, _, ctx' => ctx' = ctx

/-- A call that has returned, as its caller sees it. -/
inductive CtxEvent where
  | submitted (ctxId : UInt32) (ret : Ret)
  | asked (op ctxId : UInt32) (ret : HandleRet) (given : UInt32)
  deriving DecidableEq

/-- Runs of `oops_winsys_cs` and `oops_winsys_ctx`, the last call first. -/
inductive CtxRuns (sym : Symbols) : List CtxEvent → Statics → Contexts → Prop
  | start : CtxRuns sym [] .init fun _ => .zero
  | cs {past : List CtxEvent} {st st' : Statics} {ctx ctx' : Contexts} (arg : CsIn)
      (ret : Ret) (number : UInt64) :
      CtxRuns sym past st ctx →
        Prog.Interleave Contexts.act (fun _ _ => False) (cs sym arg st) ctx
          (.ret ((ret, number), st')) ctx' →
        CtxRuns sym (.submitted arg.ctxId ret :: past) st' ctx'
  | ctx {past : List CtxEvent} {st : Statics} {ctx : Contexts} (arg : Words 4) :
      CtxRuns sym past st ctx →
        CtxRuns sym (.asked (arg 0) (arg 2) (oopsWinsysCtx ctx arg).1
          ((oopsWinsysCtx ctx arg).2.1 0) :: past) st (oopsWinsysCtx ctx arg).2.2

/-! ## The history -/

/-- How many submissions under the context `id` have not retired since it was allocated; none if
    it is not allocated. -/
def hangsOf (id : UInt32) : List CtxEvent → Option Nat
  | [] => none
  | .submitted ctxId ret :: past =>
    if ctxId = id ∧ ret = .err .ETIMEDOUT then (hangsOf id past).map (· + 1) else hangsOf id past
  | .asked op ctxId ret given :: past =>
    if ret = .ok ∧ op = ctxOpAllocCtx ∧ given = id then some 0
    else if ret = .ok ∧ op = ctxOpFreeCtx ∧ ctxId = id then none
    else hangsOf id past

/-- The answer to QUERY_STATE about a context of `hangs` failed submissions: `hangs` and
    `reset_status`. -/
def resetState (hangs : UInt32) : Words 4 := fun i =>
  if i.val = 3 then (if hangs ≠ 0 then 1 else 0) else if i.val = 2 then hangs else 0

theorem update_resetState (hangs : UInt32) :
    Function.update (Function.update (fun _ => 0) 2 hangs) 3 (if hangs ≠ 0 then 1 else 0) =
      resetState hangs := by
  funext i
  rw [Function.update_apply, Function.update_apply]
  simp only [Fin.ext_iff]
  rfl

/-! ## The table -/

variable {sym : Symbols} {st st' : Statics} {ctx ctx' : Contexts} {past : List CtxEvent}
  {i : Fin winsysMaxCtx} {id id' : UInt32} {e : Ctx}

/-- The count of a live context. -/
def hangsAt (ctx : Contexts) (id : UInt32) : Option UInt32 :=
  ((Handles.ofTable Ctx.live ctx).get id.toNat).map Ctx.hangs

theorem hangsAt_of_ctxOf (h : ctxOf ctx id = some i) : hangsAt ctx id = some (ctx i).hangs := by
  have hget : (Handles.ofTable Ctx.live ctx).get id.toNat = some (ctx i) :=
    congrArg (Option.map ctx) h
  unfold hangsAt
  rw [hget, Option.map_some]

theorem hangsAt_of_ctxOf_none (h : ctxOf ctx id = none) : hangsAt ctx id = none := by
  have hget : (Handles.ofTable Ctx.live ctx).get id.toNat = none := congrArg (Option.map ctx) h
  unfold hangsAt
  rw [hget, Option.map_none]

theorem hangsAt_update :
    hangsAt (Function.update ctx i e) id =
      if id.toNat = i + 1 then (if e.live then some e.hangs else none) else hangsAt ctx id := by
  unfold hangsAt
  rw [Handles.ofTable_get_update]
  split
  · split <;> rfl
  · rfl

theorem ctxOf_toNat (h : ctxOf ctx id = some i) : id.toNat = i + 1 :=
  (Handles.liveAt_eq_some.mp h).1

theorem ctxOf_live (h : ctxOf ctx id = some i) : (ctx i).live = true :=
  (Handles.liveAt_eq_some.mp h).2

/-- A failed submission counts for its own context. -/
theorem hangsAt_noteHang :
    hangsAt (oopsWinsysCtxNoteHang ctx id') id =
      if id' = id then (hangsAt ctx id).map (· + 1) else hangsAt ctx id := by
  unfold oopsWinsysCtxNoteHang
  cases hi : ctxOf ctx id' with
  | none =>
    dsimp only
    split
    · next h => rw [← h, hangsAt_of_ctxOf_none hi, Option.map_none]
    · rfl
  | some i =>
    dsimp only
    have hid : id.toNat = i + 1 ↔ id' = id := by
      rw [← ctxOf_toNat hi, UInt32.toNat_inj]
      exact eq_comm
    rw [hangsAt_update]
    simp only [hid]
    split
    · next h => rw [← h, hangsAt_of_ctxOf hi, Option.map_some, if_pos (ctxOf_live hi)]
    · rfl

theorem handleOfEntry_eq_iff : handleOfEntry i = id ↔ id.toNat = i + 1 := by
  have hi : i.val < 64 := i.2
  rw [← UInt32.toNat_inj, handleOfEntry, UInt32.toNat_ofNat', Nat.mod_eq_of_lt (by omega)]
  exact eq_comm

/-! ## A submission -/

/-- Nothing else moves the contexts. -/
private abbrev aloneCtx : Contexts → Contexts → Prop := fun _ _ => False

private theorem stable_aloneCtx (P : Contexts → Prop) : Prog.Stable aloneCtx P :=
  fun _ _ _ h => h.elim

/-- A call that leaves the contexts alone. -/
def Call.LeavesContexts : Call → Prop
  | .noteHang _ => False
  | _ => True

theorem Call.LeavesContexts.act_eq {e : Call} {x : Answer e} (he : e.LeavesContexts)
    (h : Contexts.act e ctx x ctx') : ctx' = ctx := by
  cases e <;> first | exact h | exact he.elim

theorem Call.SetsUp.leavesContexts {e : Call} (h : e.SetsUp) : e.LeavesContexts := by
  cases e <;> trivial

theorem Call.Walks.leavesContexts {e : Call} (h : e.Walks) : e.LeavesContexts := by
  cases e <;> trivial

theorem Call.Fences.leavesContexts {e : Call} (h : e.Fences st) : e.LeavesContexts := by
  cases e <;> trivial

theorem Call.Publishes.leavesContexts {e : Call} (h : e.Publishes) : e.LeavesContexts := by
  cases e <;> trivial

theorem wp_leavesContexts {α : Type} {p : Submission α} {R : α → Prop}
    (hp : Prog.Makes Call.LeavesContexts p R) :
    Prog.wp Contexts.act aloneCtx (fun _ _ => True) p (fun a ctx' => R a ∧ ctx' = ctx) ctx := by
  refine Prog.wp_makes (T := fun ctx' => ctx' = ctx) hp (stable_aloneCtx _) rfl
    (fun _ _ _ _ => trivial) ?_
  intro e ctx₁ x ctx₂ he hctx hact
  rw [he.act_eq hact, hctx]

/-- The poll reads the clock and the word, and notes nothing. -/
theorem makes_pollFence_leavesContexts (fence startUs : UInt64) (polls : Nat)
    (waitedUs : UInt64) :
    Prog.Makes Call.LeavesContexts (pollFence sym fence startUs polls waitedUs)
      fun _ => True := by
  induction polls generalizing waitedUs with
  | zero => trivial
  | succ polls ih =>
    have hread : ∀ us, Prog.Makes Call.LeavesContexts
        (do
          let word : UInt32 ← Prog.ask (Call.readFence fence)
          if word = fenceFired then pure (true, us)
          else if fenceTimeoutUs < us then pure (false, us)
          else pollFence sym fence startUs polls us : Submission (Bool × UInt64))
        fun _ => True := by
      refine fun us => ⟨trivial, fun word => ?_⟩
      show Prog.Makes _ (ite _ _ _) _
      split
      · trivial
      · split
        · trivial
        · exact ih us
    unfold pollFence
    split
    · exact ⟨trivial, fun now => hread _⟩
    · exact hread _

/-- A wait that fails is noted, once, under the context of the submission. -/
theorem wp_noteWait (ctxId : UInt32) (r : Bool × UInt64) :
    Prog.wp Contexts.act aloneCtx (fun _ _ => True) (noteWait st ctxId r)
      (fun r' ctx' => ctx' = if r'.1 then ctx else oopsWinsysCtxNoteHang ctx ctxId) ctx := by
  unfold noteWait
  split
  · split
    · refine Prog.wp_call (stable_aloneCtx (· = ctx)) rfl (fun _ _ => trivial) ?_
      rintro _ ctx₁ ctx₂ rfl rfl
      exact Prog.wp_ret (stable_aloneCtx _) rfl
    · exact Prog.wp_ret (stable_aloneCtx _) rfl
  · refine Prog.wp_call (stable_aloneCtx (· = ctx)) rfl (fun _ _ => trivial) ?_
    rintro word ctx₁ ctx₂ rfl rfl
    refine Prog.wp_call (stable_aloneCtx (· = ctx₂)) rfl (fun _ _ => trivial) ?_
    rintro _ ctx₁ ctx₃ rfl rfl
    refine Prog.wp_call (stable_aloneCtx (· = ctx₃)) rfl (fun _ _ => trivial) ?_
    rintro _ ctx₁ ctx₂ rfl rfl
    refine Prog.wp_call (stable_aloneCtx (· = ctx₂)) rfl (fun _ _ => trivial) ?_
    rintro _ ctx₁ ctx₃ rfl rfl
    exact Prog.wp_ret (stable_aloneCtx _) rfl

theorem wp_awaitFence (ctxId : UInt32) :
    Prog.wp Contexts.act aloneCtx (fun _ _ => True) (awaitFence sym st ctxId)
      (fun r ctx' => ctx' = if r.1 then ctx else oopsWinsysCtxNoteHang ctx ctxId) ctx := by
  have hrest : ∀ startUs, Prog.wp Contexts.act aloneCtx (fun _ _ => True)
      (pollFence sym st.fence startUs fencePolls 0 >>= noteWait st ctxId)
      (fun r ctx' => ctx' = if r.1 then ctx else oopsWinsysCtxNoteHang ctx ctxId) ctx := by
    intro startUs
    refine Prog.wp_seq (wp_leavesContexts (makes_pollFence_leavesContexts ..)) ?_
    rintro r ctx' ⟨-, rfl⟩
    exact wp_noteWait ctxId r
  rw [awaitFence_eq]
  split
  · refine Prog.wp_call (stable_aloneCtx (· = ctx)) rfl (fun _ _ => trivial) ?_
    rintro now ctx₁ ctx₂ rfl rfl
    exact hrest now
  · exact hrest 0

/-- The contexts after a submission that returned `ret`. -/
def Contexts.after (ctx : Contexts) (ctxId : UInt32) (ret : Ret) : Contexts :=
  if ret = .err .ETIMEDOUT then oopsWinsysCtxNoteHang ctx ctxId else ctx

/-- A submission notes a hang exactly where it returns `-ETIMEDOUT`. -/
theorem wp_cs_contexts (arg : CsIn) :
    Prog.wp Contexts.act aloneCtx (fun _ _ => True) (cs sym arg st)
      (fun r ctx' => ctx' = ctx.after arg.ctxId r.1.1) ctx := by
  have hret : ∀ (ret : Ret) (number : UInt64) (st' : Statics), ret ≠ .err .ETIMEDOUT →
      Prog.wp Contexts.act aloneCtx (fun _ _ => True) (.ret ((ret, number), st'))
        (fun r ctx' => ctx' = ctx.after arg.ctxId r.1.1) ctx :=
    fun ret number st' hne => Prog.wp_ret (stable_aloneCtx _) (if_neg hne).symm
  have hlog : ∀ (line : LogLine) (e : Errno) (st' : Statics), e ≠ .ETIMEDOUT →
      Prog.wp Contexts.act aloneCtx (fun _ _ => True)
        (log line >>= fun _ => Pure.pure ((.err e, 0), st'))
        (fun r ctx' => ctx' = ctx.after arg.ctxId r.1.1) ctx := by
    intro line e st' hne
    refine Prog.wp_call (stable_aloneCtx (· = ctx)) rfl (fun _ _ => trivial) ?_
    rintro _ ctx₁ ctx₂ rfl rfl
    exact hret _ 0 st' fun h => hne (Ret.err.inj h)
  unfold cs
  refine Prog.wp_seq (wp_leavesContexts (makes_ensureQueue.weaken fun _ he => he.leavesContexts)) ?_
  rintro ⟨ready, st₁⟩ ctx₁ ⟨-, rfl⟩
  dsimp only
  split
  · exact hret _ _ _ nofun
  · split
    · exact hret _ _ _ nofun
    · exact hret _ _ _ nofun
    · next chunks _ hchunks =>
      refine Prog.wp_call (stable_aloneCtx (· = ctx₁)) rfl (fun _ _ => trivial) ?_
      rintro _ ctx₂ ctx₃ rfl rfl
      refine Prog.wp_call (stable_aloneCtx (· = ctx₃)) rfl (fun _ _ => trivial) ?_
      rintro _ ctx₂ ctx₁ rfl rfl
      show Prog.wp _ _ _ (submitChunks ⟨0, none⟩ chunks >>= _) _ _
      refine Prog.wp_seq (wp_leavesContexts
        ((makes_submitChunks _ _).weaken fun _ he => he.leavesContexts)) ?_
      rintro walked ctx₁ ⟨-, rfl⟩
      cases walked with
      | none => exact hret _ _ _ nofun
      | some w =>
        dsimp only
        split
        · exact hlog _ _ st₁ nofun
        · refine Prog.wp_seq (wp_leavesContexts
            (makes_submitFence.weaken fun _ he => he.leavesContexts)) ?_
          rintro rc ctx₁ ⟨-, rfl⟩
          split
          · exact hlog _ _ st₁ nofun
          · refine Prog.wp_seq (wp_awaitFence _) ?_
            rintro ⟨fired, st₂⟩ ctx₂ hctx
            cases fired with
            | false =>
              rw [if_neg Bool.false_ne_true] at hctx
              exact Prog.wp_ret (stable_aloneCtx _) (hctx.trans (if_pos rfl).symm)
            | true =>
              rw [if_pos rfl] at hctx
              subst hctx
              refine Prog.wp_seq (wp_leavesContexts
                ((makes_publish _).weaken fun _ he => he.leavesContexts)) ?_
              rintro st₃ ctx₃ ⟨-, rfl⟩
              exact hret _ _ _ nofun

/-! ## A context call -/

/-- The other operations write nothing. -/
theorem oopsWinsysCtx_table {arg : Words 4} (halloc : arg 0 ≠ ctxOpAllocCtx)
    (hfree : arg 0 ≠ ctxOpFreeCtx) : (oopsWinsysCtx ctx arg).2.2 = ctx := by
  unfold oopsWinsysCtx
  dsimp only
  rw [if_neg halloc, if_neg hfree]
  cases ctxOf ctx (arg 2) with
  | none =>
    dsimp only
    repeat' split
    all_goals rfl
  | some i =>
    dsimp only
    repeat' split
    all_goals rfl

/-- Allocating and freeing start and end a count, and the other operations leave all as they
    are. -/
theorem hangsAt_ctx (arg : Words 4) :
    hangsAt (oopsWinsysCtx ctx arg).2.2 id =
      if (oopsWinsysCtx ctx arg).1 = .ok ∧ arg 0 = ctxOpAllocCtx ∧
          (oopsWinsysCtx ctx arg).2.1 0 = id then some 0
      else if (oopsWinsysCtx ctx arg).1 = .ok ∧ arg 0 = ctxOpFreeCtx ∧ arg 2 = id then none
      else hangsAt ctx id := by
  rcases Decidable.em (arg 0 = ctxOpAllocCtx) with halloc | halloc
  · have hfree : ctxOpAllocCtx ≠ ctxOpFreeCtx := by decide
    cases hi : firstIdx fun i => !(ctx i).live with
    | none =>
      have heq : oopsWinsysCtx ctx arg = (.err .ENOMEM, fun _ => 0, ctx) := by
        unfold oopsWinsysCtx
        dsimp only
        rw [if_pos halloc, hi]
      rw [heq, if_neg (by simp), if_neg (by simp)]
    | some i =>
      have heq : oopsWinsysCtx ctx arg = (.ok, Function.update (fun _ => 0) 0 (handleOfEntry i),
          Function.update ctx i ⟨true, (arg 3).toInt32, 0⟩) := by
        unfold oopsWinsysCtx
        dsimp only
        rw [if_pos halloc, hi]
      rw [heq, hangsAt_update]
      simp only [Function.update_self, true_and, halloc, handleOfEntry_eq_iff, hfree, false_and,
        if_false, if_true]
  · rw [if_neg fun h => halloc h.2.1]
    rcases Decidable.em (arg 0 = ctxOpFreeCtx) with hfree | hfree
    · cases hi : ctxOf ctx (arg 2) with
      | none =>
        have heq : oopsWinsysCtx ctx arg = (.err .EINVAL, arg, ctx) := by
          unfold oopsWinsysCtx
          dsimp only
          rw [if_neg halloc, if_pos hfree, hi]
        rw [heq, if_neg (by simp)]
      | some i =>
        have heq : oopsWinsysCtx ctx arg = (.ok, fun _ => 0, Function.update ctx i .zero) := by
          unfold oopsWinsysCtx
          dsimp only
          rw [if_neg halloc, if_pos hfree, hi]
        rw [heq, hangsAt_update, ← ctxOf_toNat hi]
        simp only [true_and, hfree, UInt32.toNat_inj, eq_comm]
        rfl
    · rw [if_neg fun h => hfree h.2.1]
      rw [oopsWinsysCtx_table halloc hfree]

/-! ## Runs -/

/-- The count of a context is what its history says, in 32 bits. -/
theorem CtxRuns.hangsAt (h : CtxRuns sym past st ctx) (id : UInt32) :
    hangsAt ctx id = (hangsOf id past).map UInt32.ofNat := by
  induction h with
  | start =>
    unfold Submit.hangsAt hangsOf
    rcases Classical.em (∃ i : Fin winsysMaxCtx, id.toNat = i + 1) with ⟨i, hi⟩ | hnone
    · rw [hi, Handles.ofTable_get_succ]
      rfl
    · rw [Handles.ofTable_get_none fun i hi => hnone ⟨i, hi⟩]
      rfl
  | cs arg ret number _ hrun ih =>
    rw [hrun.post (wp_cs_contexts arg)]
    unfold Contexts.after hangsOf
    rcases Decidable.em (ret = .err .ETIMEDOUT) with hret | hret
    · simp only [hret, if_true, and_true, hangsAt_noteHang, ih]
      split
      · rw [Option.map_map, Option.map_map]
        congr 1
        funext n
        exact (UInt32.ofNat_add n 1).symm
      · rfl
    · rw [if_neg hret, if_neg fun hc => hret hc.2, ih]
  | ctx arg _ ih =>
    rw [hangsAt_ctx]
    unfold hangsOf
    split
    · rfl
    · split
      · rfl
      · exact ih

/-- **A context answers for its own failed submissions.** QUERY_STATE is refused for a context
    that is not allocated, and else reports how many submissions under it have not retired since
    it was allocated, modulo 2^32, and a reset where that is not zero. -/
theorem reset_history (h : CtxRuns sym past st ctx) (arg : Words 4)
    (hop : arg 0 = ctxOpQueryState ∨ arg 0 = ctxOpQueryState2) :
    oopsWinsysCtx ctx arg =
      match hangsOf (arg 2) past with
      | none => (.err .EINVAL, arg, ctx)
      | some n => (.ok, resetState (UInt32.ofNat n), ctx) := by
  have hcount := h.hangsAt (arg 2)
  have hop' : arg 0 ≠ ctxOpAllocCtx ∧ arg 0 ≠ ctxOpFreeCtx := by
    rcases hop with h0 | h0 <;> rw [h0] <;> decide
  unfold oopsWinsysCtx
  dsimp only
  rw [if_neg hop'.1, if_neg hop'.2, if_pos hop]
  cases hi : ctxOf ctx (arg 2) with
  | none =>
    rw [hangsAt_of_ctxOf_none hi, eq_comm, Option.map_eq_none_iff] at hcount
    rw [hcount]
  | some i =>
    rw [hangsAt_of_ctxOf hi, eq_comm, Option.map_eq_some_iff] at hcount
    obtain ⟨n, hn, hhangs⟩ := hcount
    rw [hn]
    dsimp only
    rw [hhangs, update_resetState]

/-- The answers of `accepting`, at a time. The fence does not fire. -/
private def answersAt (now : UInt64) : (e : Call) → Answer e
  | .processTime => now
  | e => accepting e

private def moveAt (now : UInt64) : Prog.Move Answer Contexts :=
  .answer fun e ctx => some (answersAt now e,
    match e with
    | .noteHang ctxId => oopsWinsysCtxNoteHang ctx ctxId
    | _ => ctx)

private theorem moveAt_allowed (now : UInt64) :
    (moveAt now).Allowed Contexts.act aloneCtx := by
  intro e ctx x ctx' h
  obtain ⟨rfl, rfl⟩ := Prod.mk.inj (Option.some.inj h)
  cases e <;> exact rfl

private def allocArg : Words 4 := fun i => if i.val = 0 then ctxOpAllocCtx else 0

private def queryArg : Words 4 := fun i =>
  if i.val = 0 then ctxOpQueryState else if i.val = 2 then 1 else 0

/-- One instruction buffer under the context 1. -/
private def hangingArg : CsIn := ⟨1, some [some (.ib (some ⟨0x400000000, 16⟩))]⟩

/-- The context 1 allocated, and a submission under it. -/
private def hangingPast : List CtxEvent :=
  [.submitted 1 (.err .ETIMEDOUT),
    .asked ctxOpAllocCtx 0 .ok 1]

private theorem hangingRun : ∃ st ctx, CtxRuns .all hangingPast st ctx := by
  have halloc := CtxRuns.ctx allocArg (CtxRuns.start : CtxRuns .all _ _ _)
  have hlist : [CtxEvent.asked (allocArg 0) (allocArg 2) (oopsWinsysCtx (fun _ => .zero) allocArg).1
      ((oopsWinsysCtx (fun _ => .zero) allocArg).2.1 0)] = [.asked ctxOpAllocCtx 0 .ok 1] := by
    decide +kernel
  rw [hlist] at halloc
  have hmoves : ∀ m ∈ List.replicate 14 (moveAt 0) ++ List.replicate 6 (moveAt 6000000),
      m.Allowed Contexts.act aloneCtx := by
    intro m hm
    rcases List.mem_append.mp hm with hm | hm
    · exact List.eq_of_mem_replicate hm ▸ moveAt_allowed 0
    · exact List.eq_of_mem_replicate hm ▸ moveAt_allowed 6000000
  exact ⟨_, _, halloc.cs hangingArg (.err .ETIMEDOUT) 0 (Prog.interleave_drive hmoves .refl rfl)⟩

/-- Once a submission under it did not retire, a context has had a reset. -/
theorem reset_history_hang : ∃ past st ctx, CtxRuns .all past st ctx ∧
    hangsOf 1 past = some 1 ∧ oopsWinsysCtx ctx queryArg = (.ok, resetState 1, ctx) := by
  obtain ⟨st, ctx, hrun⟩ := hangingRun
  have hone : hangsOf 1 hangingPast = some 1 := by decide +kernel
  have hquery := reset_history hrun queryArg (.inl rfl)
  rw [show queryArg 2 = 1 from rfl, hone] at hquery
  exact ⟨_, st, ctx, hrun, hone, hquery⟩

end OopsMesa.Submit
