/-
  What the parts of a submission call.

  `oops_winsys_cs` sets the queue up, walks the chunks, hands the fence stream over, waits for it,
  and publishes the sequence number. Each part makes calls of its own kind and no others,
  whatever they answer, and says what it leaves in the statics. Statements about whole
  submissions are put together from these.
-/
import OopsMesa.Submit.Cs

namespace OopsMesa.Submit

open OopsMesa.Lib OopsMesa.Winsys

variable {sym : Symbols} {st : Statics}

/-! ## Kinds of calls -/

/-- A call that setting the queue up makes. -/
def Call.SetsUp : Call → Prop
  | .log _ | .agcInit | .createQueue | .allocFence | .allocFenceDcb => True
  | _ => False

/-- A call that the walk over the chunks makes. -/
def Call.Walks : Call → Prop
  | .log _ | .dumpIb _ _ | .noteMarks _ _ | .readMemory | .submit .buffer _ => True
  | _ => False

/-- A call that hands the fence stream over, through these statics. -/
def Call.Fences (st : Statics) : Call → Prop
  | .armFence fence => fence = st.fence
  | .storeFenceStream dcb _ => dcb = st.fenceDcb
  | .submit .fence _ => True
  | _ => False

/-- A call that the wait for the fence makes. -/
def Call.Awaits : Call → Prop
  | .log _ | .processTime | .readFence _ | .reportMarks | .noteHang _ => True
  | _ => False

/-- A call that publishes the sequence number. -/
def Call.Publishes : Call → Prop
  | .log _ | .boCpuRange _ _ _ | .storeSlot _ _ => True
  | _ => False

/-! ## The parts -/

/-- Setting the queue up leaves the counters. -/
theorem makes_ensureQueue :
    Prog.Makes Call.SetsUp (ensureQueue sym st) fun r => r.2.sequence = st.sequence := by
  unfold ensureQueue
  split
  · exact rfl
  · split
    · exact ⟨trivial, fun _ => rfl⟩
    · refine ⟨trivial, fun arc => ?_⟩
      show Prog.Makes _ (ite _ _ _) _
      split
      · exact ⟨trivial, fun _ => rfl⟩
      · refine ⟨trivial, fun q => ?_⟩
        show Prog.Makes _ (ite _ _ _) _
        split
        · exact ⟨trivial, fun _ => rfl⟩
        · refine ⟨trivial, fun fence => ⟨trivial, fun fenceDcb => ?_⟩⟩
          show Prog.Makes _ (ite _ _ _) _
          split
          · exact ⟨trivial, fun _ => rfl⟩
          · exact rfl

theorem makes_submitChain (mem : Memory) (left : Nat) (va : UInt64) (bytes : Nat) :
    Prog.Makes Call.Walks (submitChain mem left va bytes) fun _ => True := by
  induction left generalizing va bytes with
  | zero => exact ⟨trivial, fun _ => trivial⟩
  | succ left ih =>
    have hone : ∀ va bytes, Prog.Makes Call.Walks (submitOne .buffer va bytes) fun _ => True :=
      fun _ _ => ⟨trivial, fun _ => trivial⟩
    rw [submitChain_succ]
    split
    · exact hone va bytes
    · -- once the part before the chain packet is handed over
      have hrest : ∀ rc : Int32, Prog.Makes Call.Walks (submitRest mem left va bytes rc)
          fun _ => True := by
        intro rc
        unfold submitRest
        dsimp only
        split
        · trivial
        · split
          · trivial
          · exact ih _ _
      split
      · exact (hone _ _).seq fun rc _ => hrest rc
      · exact hrest 0

theorem makes_submitIb (ib : ChunkIb) :
    Prog.Makes Call.Walks (submitIb ib) fun _ => True := by
  refine ⟨trivial, fun _ => ⟨trivial, fun _ => ⟨trivial, fun mem => ?_⟩⟩⟩
  refine (makes_submitChain mem _ _ _).seq fun rc _ => ?_
  split
  · exact ⟨trivial, fun _ => trivial⟩
  · trivial

/-- The user fence a chunk leaves remembered. -/
def Chunk.fenceAfter (userFence : Option ChunkFence) : Option Chunk → Option ChunkFence
  | some (.fence (some fc)) => some fc
  | _ => userFence

theorem makes_submitChunk (w : Walked) (c : Option Chunk) :
    Prog.Makes Call.Walks (submitChunk w c)
      fun o => ∀ w', o = some w' → w'.userFence = Chunk.fenceAfter w.userFence c := by
  unfold submitChunk
  split
  · split
    · rintro w' ⟨⟩
      rfl
    · refine (makes_submitIb _).seq fun accepted _ => ?_
      split
      · rintro w' ⟨⟩
        rfl
      · exact nofun
  · rintro w' ⟨⟩
    rfl
  · refine ⟨trivial, fun _ => ?_⟩
    rintro w' ⟨⟩
    rfl
  · next c hib hfence hother =>
    rintro w' ⟨⟩
    unfold Chunk.fenceAfter
    split
    · exact absurd rfl (hfence _)
    · rfl

/-- The walk remembers the last fence chunk. -/
theorem makes_submitChunks (w : Walked) (cs : List (Option Chunk)) :
    Prog.Makes Call.Walks (submitChunks w cs)
      fun o => ∀ w', o = some w' → w'.userFence = cs.foldl Chunk.fenceAfter w.userFence := by
  induction cs generalizing w with
  | nil =>
    rintro w' ⟨⟩
    rfl
  | cons c cs ih =>
    refine (makes_submitChunk w c).seq fun o ho => ?_
    cases o with
    | none => exact nofun
    | some w' =>
      have hw' := ho w' rfl
      show Prog.Makes _ (submitChunks w' cs) _
      rw [List.foldl_cons, ← hw']
      exact ih w'

theorem makes_submitFence : Prog.Makes (Call.Fences st) (submitFence st) fun _ => True :=
  ⟨rfl, fun _ => ⟨rfl, fun _ => ⟨trivial, fun _ => trivial⟩⟩⟩

theorem makes_pollFence (fence startUs : UInt64) (polls : Nat) (waitedUs : UInt64) :
    Prog.Makes Call.Awaits (pollFence sym fence startUs polls waitedUs) fun _ => True := by
  induction polls generalizing waitedUs with
  | zero => trivial
  | succ polls ih =>
    have hread : ∀ us, Prog.Makes Call.Awaits
        (do
          let word : UInt32 ← Prog.ask (Call.readFence fence)
          if word = fenceFired then pure (true, us)
          else if fenceTimeoutUs < us then pure (false, us)
          else pollFence sym fence startUs polls us : Submission (Bool × UInt64))
        fun _ => True := by
      refine fun us => ⟨trivial, fun word => ?_⟩
      show Prog.Makes _ (ite _ _ _) _
      split
      · trivial
      · split
        · trivial
        · exact ih us
    unfold pollFence
    split
    · exact ⟨trivial, fun now => hread _⟩
    · exact hread _

/-- The wait may note how long it took, and nothing else. -/
theorem makes_awaitFence (ctxId : UInt32) :
    Prog.Makes Call.Awaits (awaitFence sym st ctxId)
      fun r => r.2 = { st with slowestUs := r.2.slowestUs } := by
  have hrest : ∀ startUs, Prog.Makes Call.Awaits
      (pollFence sym st.fence startUs fencePolls 0 >>= noteWait st ctxId)
      fun r => r.2 = { st with slowestUs := r.2.slowestUs } := by
    intro startUs
    refine (makes_pollFence st.fence startUs fencePolls 0).seq fun r _ => ?_
    unfold noteWait
    split
    · split
      · exact ⟨trivial, fun _ => rfl⟩
      · exact rfl
    · exact ⟨trivial, fun _ => ⟨trivial, fun _ => ⟨trivial, fun _ => ⟨trivial, fun _ => rfl⟩⟩⟩⟩
  rw [awaitFence_eq]
  split
  · exact ⟨trivial, fun now => hrest now⟩
  · exact hrest 0

/-- The sequence number goes up by one. -/
theorem makes_publish (userFence : Option ChunkFence) :
    Prog.Makes Call.Publishes (publish st userFence)
      fun st' => st' = { st with sequence := st.sequence + 1 } := by
  unfold publish
  dsimp only
  split
  · exact rfl
  · refine ⟨trivial, fun slot => ?_⟩
    show Prog.Makes _ (ite _ _ _) _
    split
    · exact ⟨trivial, fun _ => rfl⟩
    · exact ⟨trivial, fun _ => rfl⟩

end OopsMesa.Submit
