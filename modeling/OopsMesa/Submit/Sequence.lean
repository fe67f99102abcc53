/-
  Submission numbers and user fences are exact.

  `oops_winsys_cs` hands out one more than `s_sequence`, and only a call that succeeds moves it
  on. A call that succeeds has written the number where its last fence chunk says, if that is
  eight bytes of a live buffer, and nowhere else; a call that fails has written nothing.

  `s_sequence` has 64 bits, so the numbers are those of the successes modulo 2^64
  (`submissions_exact`), and not the count itself once there have been 2^64
  (`not_submissions_exact`).

  The state is the buffers, as buffers.c records them, and the bytes of the direct memory they
  lie in. Only the shim's own writes are here; between two calls anything may have been written
  and any other call made. `s_fence` and its stream are memory of their own (`oops_mem_alloc`),
  of which no byte is a buffer's.
-/
import OopsMesa.Submit.Parts
import OopsMesa.Winsys.Coverage

namespace OopsMesa.Submit

open OopsMesa.Lib OopsMesa.Winsys

/-! ## Stores -/

/-- Byte `k` of a word, the low end first. -/
def byteOf (v : UInt64) (k : Nat) : UInt8 := (v >>> UInt64.ofNat (8 * k)).toUInt8

/-- The first `n` bytes of a word stored at `a`, each where its address translates to. -/
def storeBytes (t : PageTable) (m : Int → UInt8) (a v : UInt64) : Nat → Int → UInt8
  | 0 => m
  | n + 1 =>
    match t (a + UInt64.ofNat n) with
    | some e => Function.update (storeBytes t m a v n) e.phys (byteOf v n)
    | none => storeBytes t m a v n

/-- The word in the eight bytes from `p` on, and every other byte as it was. -/
structure WordWritten (m m' : Int → UInt8) (p : Int) (v : UInt64) : Prop where
  inside : ∀ k : Nat, k < 8 → m' (p + k) = byteOf v k
  outside : ∀ q, q < p ∨ p + 8 ≤ q → m' q = m q

/-- Where the addresses translate to consecutive bytes, these are what is stored. -/
theorem storeBytes_eq {t : PageTable} {m : Int → UInt8} {a v : UInt64} {p : Int} {n : Nat}
    (h : ∀ k : Nat, k < n → ∃ e, t (a + UInt64.ofNat k) = some e ∧ e.phys = p + k) (q : Int) :
    storeBytes t m a v n q = if p ≤ q ∧ q < p + n then byteOf v (q - p).toNat else m q := by
  induction n with
  | zero =>
    rw [if_neg (by omega)]
    rfl
  | succ n ih =>
    obtain ⟨e, he, hphys⟩ := h n (by omega)
    have ih' := ih fun k hk => h k (by omega)
    unfold storeBytes
    rw [he]
    dsimp only
    rcases Decidable.em (q = e.phys) with rfl | hq
    · rw [Function.update_self, if_pos (by omega)]
      congr 1
      omega
    · rw [Function.update_of_ne hq, ih']
      rw [hphys] at hq
      rcases Decidable.em (p ≤ q ∧ q < p + n) with hin | hout
      · rw [if_pos hin, if_pos (by omega)]
      · rw [if_neg hout, if_neg (by omega)]

theorem wordWritten_storeBytes {t : PageTable} {m : Int → UInt8} {a v : UInt64} {p : Int}
    (h : ∀ k : Nat, k < 8 → ∃ e, t (a + UInt64.ofNat k) = some e ∧ e.phys = p + k) :
    WordWritten m (storeBytes t m a v 8) p v where
  inside k hk := by
    rw [storeBytes_eq h, if_pos (by omega)]
    congr 1
    omega
  outside q hq := by
    rw [storeBytes_eq h, if_neg (by omega)]

/-! ## The state -/

/-- The buffers, and the bytes of the memory under them. -/
structure Stored where
  shim : Shim
  bytes : Int → UInt8

/-- Every CPU mapping leads to its buffer's pages, and does not wrap. -/
structure CpuTrue (w : Shim) : Prop where
  backed : ∀ i l, (w.bo i).cpuLease = some l → Backs w.mem.pageTable l.base l.size l.val
  below : ∀ i l, (w.bo i).cpuLease = some l → l.base.toNat + l.size.toNat ≤ 2 ^ 64

/-- `oops_mem_map_direct`, where it is asked, succeeds: it gives a range of addresses at which
    nothing is mapped. -/
def MapGiven (w : Shim) (i : Fin winsysMaxBo) (map : Option UInt64) : Prop :=
  (w.bo i).cpuPtr = 0 → ∃ v, map = some v ∧ v ≠ 0 ∧ v.toNat + (w.bo i).size.toNat ≤ 2 ^ 64 ∧
    ∀ a, InSpan v (w.bo i).size a → w.mem.pageTable a = none

/-- What the calls of submit.c do to it, with tracing off. -/
def Stored.act : (e : Call) → Stored → Answer e → Stored → Prop
  | .boCpuRange handle offset bytes, s, slot, s' =>
    ∃ map w', (∀ i, boCpuRangeTarget s.shim handle offset bytes = some i →
        MapGiven s.shim i map) ∧
      boCpuRange s.shim handle offset bytes map = (slot, w') ∧ s' = { s with shim := w' }
  | .storeSlot slot sequence, s, _, s' =>
    s' = { s with bytes := storeBytes s.shim.mem.pageTable s.bytes slot sequence 8 }
  | _, s, _, s' => s' = s

/-! ## The calls with their arguments -/

/-- `union drm_amdgpu_cs`: the eight bytes that are `in.ctx_id` and `in.bo_list_handle`, or
    `out.handle`; and the chunks, which `out` does not reach. -/
structure CsArg where
  out : UInt64
  chunks : Option (List (Option Chunk))

/-- `arg->in` -/
def CsArg.in (arg : CsArg) : CsIn := ⟨arg.out.toUInt32, arg.chunks⟩

/-- `oops_winsys_cs` on its argument, which it writes at the end and only where it succeeds. -/
def csCall (sym : Symbols) (arg : CsArg) (st : Statics) : Submission ((Ret × CsArg) × Statics) := do
  let (r, st) ← cs sym arg.in st
  match r.1 with
  | .ok => pure ((.ok, { arg with out := r.2 }), st)
  | .err e => pure ((.err e, arg), st)

/-- `oops_winsys_wait_cs`, on the eight bytes that are `in.handle`, or `out.status`. -/
def waitCs (st : Statics) (arg : UInt64) : Ret × UInt64 :=
  if st.sequence < arg then (.err .EINVAL, arg) else (.ok, 0)

/-- The call can return so, from one state to the other. -/
def Returns (sym : Symbols) (arg : CsArg) (st : Statics) (s : Stored) (ret : Ret) (arg' : CsArg)
    (st' : Statics) (s' : Stored) : Prop :=
  Prog.Interleave Stored.act (fun _ _ => False) (csCall sym arg st) s
    (.ret ((ret, arg'), st')) s'

/-- Runs of submissions with any chunks and any answers of the platform, `n` of them successful.
    Between two of them the rest may change, as long as CPU mappings are true. -/
inductive Submissions (sym : Symbols) : Nat → Statics → Stored → Prop
  | start (s : Stored) : CpuTrue s.shim → Submissions sym 0 .init s
  | other {n : Nat} {st : Statics} {s : Stored} (s' : Stored) :
      Submissions sym n st s → CpuTrue s'.shim → Submissions sym n st s'
  | ok {n : Nat} {st st' : Statics} {s s' : Stored} (arg arg' : CsArg) :
      Submissions sym n st s → Returns sym arg st s .ok arg' st' s' →
        Submissions sym (n + 1) st' s'
  | err {n : Nat} {st st' : Statics} {s s' : Stored} (arg arg' : CsArg) (e : Errno) :
      Submissions sym n st s → Returns sym arg st s (.err e) arg' st' s' →
        Submissions sym n st' s'

/-! ## The statement -/

/-- The last fence chunk, if there is one. -/
def lastFence (chunks : Option (List (Option Chunk))) : Option ChunkFence :=
  (chunks.getD []).foldl Chunk.fenceAfter none

/-- Where the eight bytes lie that a fence chunk names, if they lie inside a live buffer. -/
def userSlot (w : Shim) (fc : ChunkFence) : Option Int :=
  match boOf w fc.handle with
  | none => none
  | some i =>
    if fc.offset.toNat + 8 ≤ (w.bo i).size.toNat then some ((w.bo i).phys + fc.offset.toNat)
    else none

/-- The number is where the fence chunk says, if it names a slot, and nowhere else. -/
def Published (w : Shim) (fence : Option ChunkFence) (m m' : Int → UInt8) (number : UInt64) :
    Prop :=
  match fence.bind (userSlot w) with
  | some p => WordWritten m m' p number
  | none => m' = m

/-- What the next calls do after `n` submissions have succeeded, `number` being how they count. -/
structure Exact (number : Nat → Nat) (sym : Symbols) (n : Nat) (st : Statics) (s : Stored) :
    Prop where
  handle : ∀ arg arg' st' s', Returns sym arg st s .ok arg' st' s' →
    arg'.out.toNat = number (n + 1)
  fence : ∀ arg arg' st' s', Returns sym arg st s .ok arg' st' s' →
    Published s.shim (lastFence arg.chunks) s.bytes s'.bytes arg'.out
  refused : ∀ arg arg' st' s' e, Returns sym arg st s (.err e) arg' st' s' →
    st'.sequence = st.sequence ∧ s'.bytes = s.bytes ∧ arg' = arg
  wait : ∀ arg, (arg.toNat ≤ number n → waitCs st arg = (.ok, 0)) ∧
    (¬ arg.toNat ≤ number n → waitCs st arg = (.err .EINVAL, arg))

/-! ## The slot -/

variable {sym : Symbols} {st st' : Statics} {w w' : Shim} {s s' : Stored}
  {i : Fin winsysMaxBo} {n : Nat}

/-- The range test is that the eight bytes fit. -/
theorem boCpuRangeTarget_slot (fc : ChunkFence) :
    boCpuRangeTarget w fc.handle fc.offset.toUInt64 8 =
      (boOf w fc.handle).filter fun i =>
        decide (fc.offset.toNat + 8 ≤ (w.bo i).size.toNat) := by
  unfold boCpuRangeTarget
  congr 1
  funext i
  have hoff : fc.offset.toUInt64.toNat = fc.offset.toNat := UInt32.toNat_toUInt64 _
  have hsize := (w.bo i).size.toNat_lt
  rw [Bool.eq_iff_iff]
  simp only [Bool.not_or, Bool.and_eq_true, Bool.not_eq_true', decide_eq_false_iff_not,
    decide_eq_true_eq, UInt64.lt_iff_toNat_lt, hoff]
  constructor
  · rintro ⟨hle, hfits⟩
    rw [UInt64.toNat_sub_of_le _ _ (by rw [UInt64.le_iff_toNat_le]; omega), hoff] at hfits
    have h8 : (8 : UInt64).toNat = 8 := rfl
    omega
  · intro hfits
    refine ⟨by omega, ?_⟩
    rw [UInt64.toNat_sub_of_le _ _ (by rw [UInt64.le_iff_toNat_le]; omega), hoff]
    have h8 : (8 : UInt64).toNat = 8 := rfl
    omega

/-- A mapping made where nothing is mapped keeps the others true. -/
theorem CpuTrue.cpuMapped (h : CpuTrue w) {v : UInt64}
    (hbelow : v.toNat + (w.bo i).size.toNat ≤ 2 ^ 64)
    (hclear : ∀ a, InSpan v (w.bo i).size a → w.mem.pageTable a = none) :
    CpuTrue (cpuMapped w i v) := by
  have hlease : ∀ j l, ((Winsys.cpuMapped w i v).bo j).cpuLease = some l →
      l = ⟨v, (w.bo i).size, pageOf (w.bo i).phys .cpuRw⟩ ∨ (w.bo j).cpuLease = some l := by
    intro j l hl
    rcases Decidable.em (j = i) with rfl | hj
    · change (Bo.cpuLease ((Shim.setBo _ j _).bo j)) = some l at hl
      rw [setBo_bo_self] at hl
      exact .inl (cpuLease_eq_some hl).2.2
    · change (Bo.cpuLease ((Shim.setBo _ i _).bo j)) = some l at hl
      rw [setBo_bo_of_ne _ _ _ _ hj] at hl
      exact .inr hl
  refine ⟨fun j l hl => ?_, fun j l hl => ?_⟩
  · rcases hlease j l hl with rfl | hl
    · exact backs_mapSpan
    · exact (h.backed j l hl).mapSpan ((h.backed j l hl).apart_of_clear hclear)
  · rcases hlease j l hl with rfl | hl
    · exact hbelow
    · exact h.below j l hl

/-- Where the platform gives mappings, a live buffer has one after it was asked for. -/
theorem CpuTrue.cpuMap (h : CpuTrue w) (hlive : (w.bo i).live = true) {map : Option UInt64}
    (hmap : MapGiven w i map) :
    ∃ w', Winsys.cpuMap w i map = (true, w') ∧ CpuTrue w' ∧ (w'.bo i).live = true ∧
      (w'.bo i).cpuPtr ≠ 0 ∧ (w'.bo i).size = (w.bo i).size ∧ (w'.bo i).phys = (w.bo i).phys := by
  rcases Decidable.em ((w.bo i).cpuPtr = 0) with h0 | h0
  · obtain ⟨v, rfl, hv, hbelow, hclear⟩ := hmap h0
    refine ⟨Winsys.cpuMapped w i v, ?_, h.cpuMapped hbelow hclear, ?_⟩
    · simp [Winsys.cpuMap, h0, Winsys.cpuMapped]
    · simp [Winsys.cpuMapped, hlive, hv]
  · refine ⟨w, ?_, h, hlive, h0, rfl, rfl⟩
    simp [Winsys.cpuMap, h0]

/-- Eight bytes inside a mapped buffer have an address, and are its bytes. -/
theorem CpuTrue.slot (h : CpuTrue w) (hlive : (w.bo i).live = true) (h0 : (w.bo i).cpuPtr ≠ 0)
    {off : UInt64} (hoff : off.toNat + 8 ≤ (w.bo i).size.toNat) :
    (w.bo i).cpuPtr + off ≠ 0 ∧ ∀ k : Nat, k < 8 →
      ∃ e, w.mem.pageTable ((w.bo i).cpuPtr + off + UInt64.ofNat k) = some e ∧
        e.phys = (w.bo i).phys + off.toNat + k := by
  have hlease := cpuLease_of_live hlive h0
  have hbelow : (w.bo i).cpuPtr.toNat + (w.bo i).size.toNat ≤ 2 ^ 64 := h.below i _ hlease
  have hpos : (w.bo i).cpuPtr.toNat ≠ 0 := fun hz => h0 (UInt64.toNat_inj.mp hz)
  refine ⟨fun hz => ?_, fun k hk => ?_⟩
  · have hsum := congrArg UInt64.toNat hz
    rw [UInt64.toNat_add] at hsum
    have hzero : (0 : UInt64).toNat = 0 := rfl
    omega
  · have hback : (w.bo i).cpuPtr + off + UInt64.ofNat k - (w.bo i).cpuPtr =
        off + UInt64.ofNat k := by grind
    have hnat : (off + UInt64.ofNat k).toNat = off.toNat + k := by
      rw [UInt64.toNat_add, UInt64.toNat_ofNat']
      omega
    have hin : InSpan (w.bo i).cpuPtr (w.bo i).size
        ((w.bo i).cpuPtr + off + UInt64.ofNat k) := by
      rw [InSpan, hback, UInt64.lt_iff_toNat_lt, hnat]
      omega
    refine ⟨_, h.backed i _ hlease _ hin, ?_⟩
    show (w.bo i).phys + _ = _
    rw [hback, hnat]
    omega

/-- The address of the slot a fence chunk names, null if it names none. -/
theorem CpuTrue.boCpuRange (h : CpuTrue w) {fc : ChunkFence} {map : Option UInt64} {slot : UInt64}
    (hgiven : ∀ i, boCpuRangeTarget w fc.handle fc.offset.toUInt64 8 = some i → MapGiven w i map)
    (hcall : Winsys.boCpuRange w fc.handle fc.offset.toUInt64 8 map = (slot, w')) :
    CpuTrue w' ∧ match userSlot w fc with
      | some p => slot ≠ 0 ∧ ∀ k : Nat, k < 8 →
          ∃ e, w'.mem.pageTable (slot + UInt64.ofNat k) = some e ∧ e.phys = p + k
      | none => slot = 0 := by
  unfold Winsys.boCpuRange at hcall
  rw [boCpuRangeTarget_slot] at hgiven hcall
  unfold userSlot
  cases hi : boOf w fc.handle with
  | none =>
    rw [hi] at hcall
    obtain ⟨rfl, rfl⟩ := Prod.mk.inj hcall
    exact ⟨h, rfl⟩
  | some i =>
    rw [hi, Option.filter_some] at hgiven hcall
    dsimp only
    rcases Decidable.em (fc.offset.toNat + 8 ≤ (w.bo i).size.toNat) with hfits | hfits
    · rw [if_pos hfits]
      rw [if_pos (decide_eq_true hfits)] at hgiven hcall
      obtain ⟨v, hv, htrue, hlive, h0, hsize, hphys⟩ := h.cpuMap (boOf_live hi) (hgiven i rfl)
      have hoff : fc.offset.toUInt64.toNat = fc.offset.toNat := UInt32.toNat_toUInt64 _
      rw [← hsize, ← hoff] at hfits
      dsimp only at hcall
      rw [hv] at hcall
      obtain ⟨rfl, rfl⟩ := Prod.mk.inj hcall
      rw [← hphys, ← hoff]
      exact ⟨htrue, htrue.slot hlive h0 hfits⟩
    · rw [if_neg hfits]
      rw [if_neg (fun hd => hfits (of_decide_eq_true hd))] at hcall
      obtain ⟨rfl, rfl⟩ := Prod.mk.inj hcall
      exact ⟨h, rfl⟩

/-! ## One call -/

/-- Nothing else moves the buffers. -/
private abbrev alone : Stored → Stored → Prop := fun _ _ => False

private theorem stable_alone (P : Stored → Prop) : Prog.Stable alone P := fun _ _ _ h => h.elim

/-- A call that leaves the buffers and their bytes alone. -/
def Call.LeavesStored : Call → Prop
  | .boCpuRange _ _ _ | .storeSlot _ _ => False
  | _ => True

theorem Call.LeavesStored.act_eq {e : Call} {x : Answer e} (he : e.LeavesStored)
    (h : Stored.act e s x s') : s' = s := by
  cases e <;> first | exact h | exact he.elim

theorem Call.SetsUp.leavesStored {e : Call} (h : e.SetsUp) : e.LeavesStored := by
  cases e <;> trivial

theorem Call.Walks.leavesStored {e : Call} (h : e.Walks) : e.LeavesStored := by
  cases e <;> trivial

theorem Call.Fences.leavesStored {e : Call} (h : e.Fences st) : e.LeavesStored := by
  cases e <;> trivial

theorem Call.Awaits.leavesStored {e : Call} (h : e.Awaits) : e.LeavesStored := by
  cases e <;> trivial

/-- A part that makes only such calls. -/
theorem wp_leavesStored {α : Type} {p : Submission α} {R : α → Prop}
    (hp : Prog.Makes Call.LeavesStored p R) :
    Prog.wp Stored.act alone (fun _ _ => True) p (fun a s' => R a ∧ s' = s) s := by
  refine Prog.wp_makes (T := fun s' => s' = s) hp (stable_alone _) rfl (fun _ _ _ _ => trivial) ?_
  intro e s₁ x s₂ he hs hact
  rw [he.act_eq hact, hs]

/-- The slot is looked up, and written if it is there. -/
theorem wp_publish (h : CpuTrue s.shim) (fence : Option ChunkFence) :
    Prog.wp Stored.act alone (fun _ _ => True) (publish st fence)
      (fun st' s' => st'.sequence = st.sequence + 1 ∧
        Published s.shim fence s.bytes s'.bytes (st.sequence + 1) ∧ CpuTrue s'.shim) s := by
  unfold publish
  dsimp only
  cases fence with
  | none => exact Prog.wp_ret (stable_alone _) ⟨rfl, rfl, h⟩
  | some fc =>
    refine Prog.wp_call (P := fun s' => s' = s) (stable_alone _) rfl (fun _ _ => trivial) ?_
    rintro slot s₁ s₂ rfl ⟨map, w', hgiven, hcall, rfl⟩
    show Prog.wp _ _ _ (ite _ _ _) _ _
    obtain ⟨htrue, hslot⟩ := h.boCpuRange hgiven hcall
    unfold Published
    rw [Option.bind_some]
    split at hslot
    · rw [if_pos hslot.1]
      refine Prog.wp_call (stable_alone (· = { s₁ with shim := w' })) rfl (fun _ _ => trivial) ?_
      rintro _ s₂ s₃ rfl rfl
      exact Prog.wp_ret (stable_alone _) ⟨rfl, wordWritten_storeBytes hslot.2, htrue⟩
    · rw [if_neg fun hne => hne hslot]
      refine Prog.wp_call (stable_alone (· = { s₁ with shim := w' })) rfl (fun _ _ => trivial) ?_
      rintro _ s₂ s₃ rfl rfl
      exact Prog.wp_ret (stable_alone _) ⟨rfl, rfl, htrue⟩

/-- What a call leaves behind: the next number, handed out and published; or an error, and
    everything as it was. -/
inductive Outcome (st : Statics) (s : Stored) (fence : Option ChunkFence) :
    (Ret × UInt64) × Statics → Stored → Prop
  | ok (st' : Statics) (s' : Stored) :
      st'.sequence = st.sequence + 1 →
      Published s.shim fence s.bytes s'.bytes (st.sequence + 1) → CpuTrue s'.shim →
      Outcome st s fence ((.ok, st.sequence + 1), st') s'
  | err (e : Errno) (number : UInt64) (st' : Statics) :
      st'.sequence = st.sequence → Outcome st s fence ((.err e, number), st') s

theorem wp_cs (h : CpuTrue s.shim) (arg : CsIn) :
    Prog.wp Stored.act alone (fun _ _ => True) (cs sym arg st)
      (Outcome st s (lastFence arg.chunks)) s := by
  have hret : ∀ (e : Errno) (st' : Statics), st'.sequence = st.sequence →
      Prog.wp Stored.act alone (fun _ _ => True)
        (.ret ((.err e, 0), st')) (Outcome st s (lastFence arg.chunks)) s :=
    fun e st' hseq => Prog.wp_ret (stable_alone _) (.err e 0 st' hseq)
  have hlog : ∀ (line : LogLine) (e : Errno) (st' : Statics), st'.sequence = st.sequence →
      Prog.wp Stored.act alone (fun _ _ => True)
        (log line >>= fun _ => Pure.pure ((.err e, 0), st'))
        (Outcome st s (lastFence arg.chunks)) s := by
    intro line e st' hseq
    refine Prog.wp_call (stable_alone (· = s)) rfl (fun _ _ => trivial) ?_
    rintro _ s₁ s₂ rfl rfl
    exact hret e st' hseq
  unfold cs
  refine Prog.wp_seq (wp_leavesStored (makes_ensureQueue.weaken fun _ he => he.leavesStored)) ?_
  rintro ⟨ready, st₁⟩ s₁ ⟨hseq₁, rfl⟩
  dsimp only at hseq₁ ⊢
  split
  · exact hret _ _ hseq₁
  · split
    · exact hret _ _ hseq₁
    · exact hret _ _ hseq₁
    · next chunks _ hchunks =>
      refine Prog.wp_call (stable_alone (· = s₁)) rfl (fun _ _ => trivial) ?_
      rintro _ s₂ s₃ rfl rfl
      refine Prog.wp_call (stable_alone (· = s₃)) rfl (fun _ _ => trivial) ?_
      rintro _ s₂ s₁ rfl rfl
      show Prog.wp _ _ _ (submitChunks ⟨0, none⟩ chunks >>= _) _ _
      refine Prog.wp_seq (wp_leavesStored
        ((makes_submitChunks _ _).weaken fun _ he => he.leavesStored)) ?_
      rintro walked s₁ ⟨hwalked, rfl⟩
      cases walked with
      | none => exact hret _ _ hseq₁
      | some w =>
        have hfence : w.userFence = lastFence arg.chunks := by
          rw [hwalked w rfl, hchunks]
          rfl
        dsimp only
        split
        · exact hlog _ _ _ hseq₁
        · refine Prog.wp_seq (wp_leavesStored
            (makes_submitFence.weaken fun _ he => he.leavesStored)) ?_
          rintro rc s₁ ⟨-, rfl⟩
          split
          · exact hlog _ _ _ hseq₁
          · refine Prog.wp_seq (wp_leavesStored
              ((makes_awaitFence _).weaken fun _ he => he.leavesStored)) ?_
            rintro ⟨fired, st₂⟩ s₁ ⟨hst₂, rfl⟩
            have hseq₂ : st₂.sequence = st.sequence :=
              (congrArg Statics.sequence hst₂).trans hseq₁
            split
            · exact hret _ _ hseq₂
            · rw [hfence]
              refine Prog.wp_seq (wp_publish h _) ?_
              rintro st₃ s₃ ⟨hseq₃, hpub, htrue⟩
              rw [hseq₂] at hseq₃ hpub
              refine Prog.wp_ret (stable_alone _) ?_
              rw [hseq₃]
              exact .ok st₃ s₃ hseq₃ hpub htrue

/-- The argument is written where the call succeeds. -/
theorem wp_csCall (h : CpuTrue s.shim) (arg : CsArg) :
    Prog.wp Stored.act alone (fun _ _ => True) (csCall sym arg st)
      (fun r s' => ∃ number, Outcome st s (lastFence arg.chunks) ((r.1.1, number), r.2) s' ∧
        r.1.2 = if r.1.1 = .ok then { arg with out := number } else arg) s := by
  unfold csCall
  refine Prog.wp_seq (wp_cs h arg.in) ?_
  rintro ⟨⟨ret, number⟩, st'⟩ s' hout
  cases ret with
  | ok => exact Prog.wp_ret (stable_alone _) ⟨number, hout, rfl⟩
  | err e => exact Prog.wp_ret (stable_alone _) ⟨number, hout, rfl⟩

theorem Returns.ok {arg arg' : CsArg} (hr : Returns sym arg st s .ok arg' st' s')
    (h : CpuTrue s.shim) :
    arg'.out = st.sequence + 1 ∧ st'.sequence = st.sequence + 1 ∧
      Published s.shim (lastFence arg.chunks) s.bytes s'.bytes (st.sequence + 1) ∧
      CpuTrue s'.shim := by
  obtain ⟨number, hout, harg⟩ := hr.post (wp_csCall h arg)
  cases hout with
  | ok _ _ hseq hpub htrue => exact ⟨congrArg CsArg.out harg, hseq, hpub, htrue⟩

theorem Returns.err {arg arg' : CsArg} {e : Errno}
    (hr : Returns sym arg st s (.err e) arg' st' s') (h : CpuTrue s.shim) :
    arg' = arg ∧ st'.sequence = st.sequence ∧ s' = s := by
  obtain ⟨number, hout, harg⟩ := hr.post (wp_csCall h arg)
  cases hout with
  | err _ _ _ hseq => exact ⟨harg, hseq, rfl⟩

/-! ## Runs -/

/-- `s_sequence` counts the successes, and CPU mappings stay true. -/
theorem Submissions.counts (h : Submissions sym n st s) :
    st.sequence = UInt64.ofNat n ∧ CpuTrue s.shim := by
  induction h with
  | start s htrue => exact ⟨rfl, htrue⟩
  | other s' _ htrue ih => exact ⟨ih.1, htrue⟩
  | ok arg arg' _ hr ih =>
    obtain ⟨-, hseq, -, htrue⟩ := hr.ok ih.2
    refine ⟨?_, htrue⟩
    rw [hseq, ih.1, UInt64.ofNat_add]
    rfl
  | err arg arg' e _ hr ih =>
    obtain ⟨-, hseq, rfl⟩ := hr.err ih.2
    exact ⟨hseq.trans ih.1, ih.2⟩

/-- **Submission numbers and user fences are exact**, counted modulo 2^64. -/
theorem submissions_exact (h : Submissions sym n st s) : Exact (· % 2 ^ 64) sym n st s := by
  obtain ⟨hcount, htrue⟩ := h.counts
  have hnext : st.sequence + 1 = UInt64.ofNat (n + 1) := by
    rw [hcount, UInt64.ofNat_add]
    rfl
  refine ⟨fun arg arg' st' s' hr => ?_, fun arg arg' st' s' hr => ?_,
    fun arg arg' st' s' e hr => ?_, fun arg => ?_⟩
  · rw [(hr.ok htrue).1, hnext, UInt64.toNat_ofNat']
  · obtain ⟨hhandle, -, hpub, -⟩ := hr.ok htrue
    rwa [hhandle]
  · obtain ⟨harg, hseq, rfl⟩ := hr.err htrue
    exact ⟨hseq, rfl, harg⟩
  · have hlt : st.sequence < arg ↔ ¬ arg.toNat ≤ n % 2 ^ 64 := by
      rw [hcount, UInt64.lt_iff_toNat_lt, UInt64.toNat_ofNat']
      omega
    constructor
    · intro hle
      exact if_neg fun h' => hlt.mp h' hle
    · intro hgt
      exact if_pos (hlt.mpr hgt)

/-! ## Calls that succeed -/

/-- No buffer is live. -/
private def noBuffers : Stored := ⟨.init, fun _ => 0⟩

/-- Every call answered by `accepting`, and the fence fired. -/
private def firing : (e : Call) → Answer e
  | .readFence _ => fenceFired
  | e => accepting e

/-- One instruction buffer. -/
private def oneIbArg : CsArg := ⟨1, some [some (.ib (some ⟨0x400000000, 16⟩))]⟩

private theorem act_firing (e : Call) : Stored.act e noBuffers (firing e) noBuffers := by
  have hdead : ∀ handle : UInt32, boOf Shim.init handle = none := by
    intro handle
    unfold boOf
    split
    · rfl
    · rfl
  cases e with
  | boCpuRange handle offset bytes =>
    have ht : boCpuRangeTarget Shim.init handle offset bytes = none := by
      unfold boCpuRangeTarget
      rw [hdead]
      rfl
    refine ⟨none, .init, fun i hi => ?_, ?_, rfl⟩
    · cases ht.symm.trans hi
    · unfold boCpuRange
      rw [show boCpuRangeTarget noBuffers.shim handle offset bytes = none from ht]
      rfl
  | _ => rfl

/-- From a queue that is there, one more submission succeeds. -/
private theorem runWith_firing {st : Statics} (h : st.queue ≠ 0) :
    (Prog.runWith firing (csCall .all oneIbArg st)).2 =
      ((.ok, { oneIbArg with out := st.sequence + 1 }),
        { st with sequence := st.sequence + 1 }) := by
  have hready : ensureQueue .all st = pure (true, st) := if_pos h
  have hwalk : (Prog.runWith firing
      (submitChunks ⟨0, none⟩ [some (.ib (some ⟨0x400000000, 16⟩))])).2 = some ⟨1, none⟩ := rfl
  have hfence : (Prog.runWith firing (submitFence st)).2 = 0 := rfl
  have hawait : (Prog.runWith firing (awaitFence .all st 1)).2 = (true, st) := rfl
  have hcs : (Prog.runWith firing (cs .all oneIbArg.in st)).2 =
      ((.ok, st.sequence + 1), { st with sequence := st.sequence + 1 }) := by
    unfold cs
    rw [hready]
    show (Prog.runWith firing (submitChunks ⟨0, none⟩ _ >>= _)).2 = _
    rw [Prog.runWith_bind, hwalk]
    show (Prog.runWith firing (submitFence st >>= _)).2 = _
    rw [Prog.runWith_bind, hfence]
    show (Prog.runWith firing (awaitFence .all st 1 >>= _)).2 = _
    rw [Prog.runWith_bind, hawait]
    rfl
  unfold csCall
  rw [Prog.runWith_bind, hcs]
  rfl

/-- Any number of submissions can succeed. -/
private theorem reaches_count (n : Nat) :
    ∃ st, st.queue ≠ 0 ∧ Submissions .all n st noBuffers := by
  induction n with
  | zero =>
    have hrun : Returns .all ⟨1, none⟩ .init noBuffers (.err .EINVAL) ⟨1, none⟩ ⟨1, 1, 1, 0, 0⟩
        noBuffers := Prog.interleave_runWith act_firing (csCall .all ⟨1, none⟩ .init)
    have hstart : Submissions .all 0 .init noBuffers :=
      .start _ ⟨nofun, nofun⟩
    exact ⟨⟨1, 1, 1, 0, 0⟩, by decide, .err ⟨1, none⟩ ⟨1, none⟩ .EINVAL hstart hrun⟩
  | succ n ih =>
    obtain ⟨st, hq, hn⟩ := ih
    have hrun : Prog.Interleave Stored.act alone (csCall .all oneIbArg st) noBuffers
        (.ret (Prog.runWith firing (csCall .all oneIbArg st)).2) noBuffers :=
      Prog.interleave_runWith act_firing _
    rw [runWith_firing hq] at hrun
    exact ⟨{ st with sequence := st.sequence + 1 }, hq, .ok oneIbArg _ hn hrun⟩

/-! ## A user fence -/

/-- A page, and the page mapped for the CPU. -/
private def created : Shim := step .init (.gemCreate ⟨0x4000, 0x4000, 4, 0⟩ (some 0))

private def mmapPage : Op := .mmap 0x4000 0x4000 (some 0x700000000)

private def fencePage : Stored := ⟨step created mmapPage, fun _ => 0⟩

private theorem cpuTrue_fencePage : CpuTrue fencePage.shim := by
  have hempty : created.mem.pageTable = fun _ => none := create_init_pageTable
  have hnone : ∀ i l, (created.bo i).cpuLease ≠ some l := by
    intro i l hl
    have hcpu : (created.bo i).cpuPtr = 0 := create_init_cpuPtr
    rw [cpuLease_of_zero hcpu] at hl
    cases hl
  have htrue : CpuTrue created :=
    ⟨fun i l hl => absurd hl (hnone i l), fun i l hl => absurd hl (hnone i l)⟩
  have hmmap : cpuCall created mmapPage = some (0, some 0x700000000) := by decide +kernel
  have he := step_effect (w := created) mmapPage
  show CpuTrue (step created mmapPage)
  generalize step created mmapPage = w at he ⊢
  cases he with
  | idle => exact htrue
  | cpu _ i v hcall =>
    obtain ⟨rfl, hv⟩ := Prod.mk.inj (Option.some.inj (hmmap.symm.trans hcall))
    obtain rfl := Option.some.inj hv
    exact htrue.cpuMapped (by decide +kernel) fun a _ => congrFun hempty a

/-- One instruction buffer, and a fence at offset 8 of the page. -/
private def fencedArg : CsArg :=
  ⟨1, some [some (.ib (some ⟨0x400000000, 16⟩)), some (.fence (some ⟨1, 8⟩))]⟩

/-- The end of `csCall`. -/
private def finishCall (arg : CsArg) (r : (Ret × UInt64) × Statics) :
    Submission ((Ret × CsArg) × Statics) :=
  match r.1.1 with
  | .ok => pure ((.ok, { arg with out := r.1.2 }), r.2)
  | .err e => pure ((.err e, arg), r.2)

/-- Every call answered but the two that meet the buffers. -/
private def Stored.reply : (e : Call) → Stored → Option (Answer e × Stored)
  | .boCpuRange _ _ _, _ => none
  | .storeSlot _ _, _ => none
  | e, s => some (firing e, s)

private theorem act_of_storedReply (e : Call) (s : Stored) (x : Answer e) (s' : Stored)
    (h : Stored.reply e s = some (x, s')) : Stored.act e s x s' := by
  cases e <;> cases h <;> rfl

/-- The first call succeeds, and stores its number. -/
private theorem returns_fenced :
    ∃ st', Returns .all fencedArg .init fencePage .ok { fencedArg with out := 1 } st'
      ⟨fencePage.shim,
        storeBytes fencePage.shim.mem.pageTable fencePage.bytes 0x700000008 1 8⟩ := by
  let moves : List (Prog.Move Answer Stored) := List.replicate 16 (.answer Stored.reply)
  have hmoves : ∀ m ∈ moves, m.Allowed Stored.act alone := by
    intro m hm
    rw [List.eq_of_mem_replicate hm]
    exact act_of_storedReply
  have hslot : Prog.Interleave Stored.act alone (csCall .all fencedArg .init) fencePage
      ((publish ⟨1, 1, 1, 0, 0⟩ (some ⟨1, 8⟩) >>= fun st => pure ((.ok, st.sequence), st)) >>=
        finishCall fencedArg) fencePage :=
    Prog.interleave_drive hmoves .refl rfl
  have htarget : boCpuRangeTarget fencePage.shim 1 8 8 = some 0 := by decide +kernel
  have hptr : (fencePage.shim.bo 0).cpuPtr = 0x700000000 := by decide +kernel
  have hgiven : Stored.act (.boCpuRange 1 8 8) fencePage (0x700000008 : UInt64) fencePage := by
    have hne : (fencePage.shim.bo 0).cpuPtr ≠ 0 := by
      rw [hptr]
      decide
    refine ⟨none, fencePage.shim, fun i hi h0 => ?_, ?_, rfl⟩
    · obtain rfl := Option.some.inj (hi.symm.trans htarget)
      exact absurd h0 hne
    · unfold boCpuRange cpuMap
      rw [htarget]
      dsimp only
      rw [if_pos hne]
      dsimp only
      rw [hptr]
      rfl
  have hstored : Stored.act (.storeSlot 0x700000008 1) fencePage () ⟨fencePage.shim,
      storeBytes fencePage.shim.mem.pageTable fencePage.bytes 0x700000008 1 8⟩ := rfl
  exact ⟨⟨1, 1, 1, 1, 0⟩, .call (.call hslot hgiven) hstored⟩

/-- After it the number is in the page, and the next calls are exact. -/
theorem submissions_exact_fenced : ∃ st s, Submissions .all 1 st s ∧
    Exact (· % 2 ^ 64) .all 1 st s ∧ boIsLive s.shim 1 = true ∧ s.bytes 8 = 1 ∧ s.bytes 16 = 0 := by
  have hstart : Submissions .all 0 .init fencePage := .start _ cpuTrue_fencePage
  obtain ⟨st, hrun⟩ := returns_fenced
  have hone : Submissions .all 1 st _ := .ok fencedArg _ hstart hrun
  have hpublished := (submissions_exact hstart).fence _ _ _ _ hrun
  have hslot : (lastFence fencedArg.chunks).bind (userSlot fencePage.shim) = some 8 := by
    decide +kernel
  unfold Published at hpublished
  rw [hslot] at hpublished
  refine ⟨st, _, hone, submissions_exact hone, by decide +kernel, hpublished.inside 0 (by decide),
    hpublished.outside 16 (by decide)⟩

/-- **The numbers wrap.** After 2^64 successes none is known to have happened. -/
theorem not_submissions_exact :
    ¬ ∀ sym n st s, Submissions sym n st s → Exact id sym n st s := by
  intro h
  obtain ⟨st, -, hrun⟩ := reaches_count (2 ^ 64)
  have hseq : st.sequence = 0 := hrun.counts.1
  have hwait : waitCs st 1 = (.ok, 0) := ((h _ _ _ _ hrun).wait 1).1 (by decide)
  have hrefused : waitCs st 1 = (.err .EINVAL, 1) := if_pos (by rw [hseq]; decide)
  rw [hrefused] at hwait
  cases hwait

end OopsMesa.Submit
