/-
  Chained streams, submitted link by link.

  A stream that outgrew its buffer ends in an INDIRECT_BUFFER that names the next. `submit_chain`
  submits each link as a stream of its own, the dwords before the chain packet or the whole of
  the last link, so that the command processor meets no INDIRECT_BUFFER. `chainLinks` is the
  chain as memory holds it, without the driver. `submit_chain_clean` is what the walk guarantees
  of every run, whatever the driver answers.
-/
import Mathlib.Data.List.Infix
import OopsMesa.Submit.Calls
import OopsMesa.Submit.Pm4

namespace OopsMesa.Submit

open OopsMesa.Lib

/-- The array of dwords at an address. -/
def Memory.dwords (mem : Memory) (va : UInt64) : Dwords := fun i => mem (va + 4 * UInt64.ofNat i)

/-- `OOPS_MAX_IB_CHAIN` -/
def maxIbChain : Nat := 16

/-- The address in the two dwords after a chain packet's header. -/
def chainTarget (dw : Dwords) (i : Nat) : UInt64 :=
  (dw (i + 1)).toUInt64 ||| ((dw (i + 2)).toUInt64 <<< 32)

/-- The dword count after it. -/
def chainSize (dw : Dwords) (i : Nat) : Nat := (dw (i + 3) &&& pm4IbSizeMask).toNat

/-- `submit_chain`, with `OOPS_MAX_IB_CHAIN - depth` links left. -/
def submitChain (mem : Memory) : Nat → UInt64 → Nat → Submission Int32
  | 0, _, _ => do
    log .chainTooDeep
    pure (-eio)
  | left + 1, va, bytes =>
    let dw := mem.dwords va
    let n := bytes / 4
    let i := findChain dw n
    if n ≤ i then submitOne .buffer va bytes
    else do
      -- zero dwords before the chain packet are not submitted
      let rc ← if 0 < i then submitOne .buffer va (i * 4) else pure 0
      if rc ≠ 0 then pure (-eio)
      else if chainSize dw i = 0 then pure 0
      else submitChain mem left (chainTarget dw i) (chainSize dw i * 4)

/-- The end of `submitChain`, with the code of what stands before the chain packet. -/
def submitRest (mem : Memory) (left : Nat) (va : UInt64) (bytes : Nat) (rc : Int32) :
    Submission Int32 :=
  let dw := mem.dwords va
  let i := findChain dw (bytes / 4)
  if rc ≠ 0 then pure (-eio)
  else if chainSize dw i = 0 then pure 0
  else submitChain mem left (chainTarget dw i) (chainSize dw i * 4)

theorem submitChain_succ (mem : Memory) (left : Nat) (va : UInt64) (bytes : Nat) :
    submitChain mem (left + 1) va bytes =
      if bytes / 4 ≤ findChain (mem.dwords va) (bytes / 4) then submitOne .buffer va bytes
      else if 0 < findChain (mem.dwords va) (bytes / 4) then
        submitOne .buffer va (findChain (mem.dwords va) (bytes / 4) * 4) >>=
          submitRest mem left va bytes
      else submitRest mem left va bytes 0 := by
  rw [submitChain]
  dsimp only
  split
  · rfl
  · split <;> rfl

/-! ## The chain in memory -/

/-- A stream of a chain. -/
structure Link where
  va : UInt64
  dwords : Nat
  deriving DecidableEq, Repr

variable {mem : Memory} {l l' : Link} {left k : Nat} {va : UInt64} {bytes : Nat} {r : Int32}
  {tr : List (Prog.Event Call Answer)}

/-- Where a link's chain packet stands, or its end. -/
def Link.jump (mem : Memory) (l : Link) : Nat := findChain (mem.dwords l.va) l.dwords

/-- The link a link jumps to. A jump to an empty stream is the end of a chain. -/
def Link.next (mem : Memory) (l : Link) : Option Link :=
  if l.dwords ≤ l.jump mem then none
  else if chainSize (mem.dwords l.va) (l.jump mem) = 0 then none
  else some ⟨chainTarget (mem.dwords l.va) (l.jump mem),
    chainSize (mem.dwords l.va) (l.jump mem)⟩

/-- What a link contributes: what is before its chain packet, or all of it. -/
def Link.dcb (mem : Memory) (l : Link) : Option Dcb :=
  if l.dwords ≤ l.jump mem then some ⟨l.va, l.dwords⟩
  else if 0 < l.jump mem then some ⟨l.va, l.jump mem⟩
  else none

/-- The first `k` links of the chain from `l`. -/
def chainLinks (mem : Memory) : Nat → Link → List Link
  | 0, _ => []
  | k + 1, l =>
    l :: match l.next mem with
      | none => []
      | some l' => chainLinks mem k l'

/-- The chain from `l` has at most `k` links. -/
def endsWithin (mem : Memory) : Nat → Link → Bool
  | 0, _ => false
  | k + 1, l =>
    match l.next mem with
    | none => true
    | some l' => endsWithin mem k l'

/-- A link jumps to another. -/
def Jumps (mem : Memory) (l l' : Link) : Prop := l.next mem = some l'

/-- The chain comes back to a link it has been at. -/
def Cyclic (mem : Memory) (l : Link) : Prop :=
  ∃ l', Relation.ReflTransGen (Jumps mem) l l' ∧ Relation.TransGen (Jumps mem) l' l'

/-- What every run of `submit_chain` from `l` does: no stream it hands over has a complete
    INDIRECT_BUFFER at a packet header; every one but the last ends where a packet does; they are
    what the links contribute, in chain order; a chain of at most 16 links is followed to its end
    if the driver accepts; at most 16 streams are handed over, and a longer chain, or one that
    comes back to itself, ends in `-EIO`. -/
structure ChainSubmitted (mem : Memory) (l : Link) (tr : List (Prog.Event Call Answer))
    (r : Int32) : Prop where
  clean : ∀ d ∈ handed tr, ∀ i, IsHeader (mem.dwords d.gpuAddr) d.size i →
    chainAt (mem.dwords d.gpuAddr) d.size i = false
  boundary : ∀ d ∈ (handed tr).dropLast, HeaderFrom packetLen (mem.dwords d.gpuAddr) 0 d.size
  ordered : handed tr <+: (chainLinks mem maxIbChain l).filterMap (Link.dcb mem)
  followed : endsWithin mem maxIbChain l = true → AllAccepted tr →
    r = 0 ∧ handed tr = (chainLinks mem maxIbChain l).filterMap (Link.dcb mem)
  bounded : (handed tr).length ≤ maxIbChain
  tooLong : endsWithin mem maxIbChain l = false → r = -eio
  cyclic : Cyclic mem l → r = -eio

/-! ## One link -/

/-- The calls for a link whose stream the driver accepts. -/
def acceptedCalls (mem : Memory) (l : Link) : List (Prog.Event Call Answer) :=
  (l.dcb mem).toList.map fun d => ⟨.submit .buffer d, (0 : Int32)⟩

@[simp] theorem handed_acceptedCalls : handed (acceptedCalls mem l) = (l.dcb mem).toList := by
  unfold acceptedCalls
  cases l.dcb mem <;> rfl

/-- At the depth limit `submit_chain` gives up. -/
theorem trace_submitChain_zero (h : Prog.Trace (submitChain mem 0 va bytes) tr r) :
    r = -eio ∧ handed tr = [] := by
  obtain ⟨x, tr', rfl, h'⟩ := Prog.trace_call.mp h
  obtain ⟨rfl, hr⟩ := Prog.trace_ret.mp h'
  exact ⟨hr, rfl⟩

/-- What one level of `submit_chain` does. -/
theorem trace_submitChain_succ (h : Prog.Trace (submitChain mem (left + 1) va bytes) tr r) :
    let l : Link := ⟨va, bytes / 4⟩
    (l.next mem = none ∧ l.dwords ≤ l.jump mem ∧
      ∃ d, l.dcb mem = some d ∧ tr = [⟨.submit .buffer d, r⟩]) ∨
    (l.jump mem < l.dwords ∧ r = -eio ∧
      ∃ d, ∃ rc : Int32, l.dcb mem = some d ∧ rc ≠ 0 ∧ tr = [⟨.submit .buffer d, rc⟩]) ∨
    (l.jump mem < l.dwords ∧ l.next mem = none ∧ r = 0 ∧ tr = acceptedCalls mem l) ∨
    (l.jump mem < l.dwords ∧ ∃ l', l.next mem = some l' ∧ ∃ tr', tr = acceptedCalls mem l ++ tr' ∧
      Prog.Trace (submitChain mem left l'.va (l'.dwords * 4)) tr' r) := by
  intro l
  have hjump : findChain (mem.dwords va) (bytes / 4) = l.jump mem := rfl
  rw [submitChain_succ, hjump] at h
  by_cases hleaf : bytes / 4 ≤ l.jump mem
  · rw [if_pos hleaf] at h
    have hnext : l.next mem = none := if_pos hleaf
    have hdcb : l.dcb mem = some ⟨va, bytes / 4⟩ := if_pos hleaf
    obtain ⟨x, tr', rfl, hr⟩ := Prog.trace_call.mp h
    obtain ⟨rfl, rfl⟩ := Prog.trace_ret.mp hr
    exact .inl ⟨hnext, hleaf, _, hdcb, rfl⟩
  · rw [if_neg hleaf] at h
    have hlt : l.jump mem < l.dwords := Nat.lt_of_not_le hleaf
    -- what happens once the part before the chain packet is accepted
    have hrest : ∀ tr', Prog.Trace (submitRest mem left va bytes 0) tr' r →
        (l.next mem = none ∧ r = 0 ∧ tr' = []) ∨ ∃ l', l.next mem = some l' ∧
          Prog.Trace (submitChain mem left l'.va (l'.dwords * 4)) tr' r := by
      intro tr' htr
      rw [submitRest, if_neg (fun h0 => h0 rfl), hjump] at htr
      by_cases hsize : chainSize (mem.dwords va) (l.jump mem) = 0
      · rw [if_pos hsize] at htr
        obtain ⟨rfl, rfl⟩ := Prog.trace_ret.mp htr
        refine .inl ⟨?_, rfl, rfl⟩
        rw [Link.next, if_neg hleaf]
        exact if_pos hsize
      · rw [if_neg hsize] at htr
        refine .inr ⟨⟨chainTarget (mem.dwords va) (l.jump mem),
          chainSize (mem.dwords va) (l.jump mem)⟩, ?_, htr⟩
        rw [Link.next, if_neg hleaf]
        exact if_neg hsize
    by_cases hi : 0 < l.jump mem
    · have hdcb : l.dcb mem = some ⟨va, l.jump mem⟩ := by
        rw [Link.dcb, if_neg hleaf, if_pos hi]
      have hcalls : acceptedCalls mem l = [⟨.submit .buffer ⟨va, l.jump mem⟩, (0 : Int32)⟩] := by
        rw [acceptedCalls, hdcb]
        rfl
      rw [if_pos hi] at h
      obtain ⟨(rc : Int32), tr', rfl, h'⟩ := Prog.trace_call.mp h
      rw [Nat.mul_div_cancel _ (by decide : 0 < 4)]
      replace h' : Prog.Trace (submitRest mem left va bytes rc) tr' r := h'
      by_cases hrc : rc = 0
      · subst hrc
        rw [hcalls]
        rcases hrest tr' h' with ⟨hnext, rfl, rfl⟩ | ⟨l', hnext, htr⟩
        · exact .inr (.inr (.inl ⟨hlt, hnext, rfl, rfl⟩))
        · exact .inr (.inr (.inr ⟨hlt, l', hnext, tr', rfl, htr⟩))
      · rw [submitRest, if_pos hrc] at h'
        obtain ⟨rfl, rfl⟩ := Prog.trace_ret.mp h'
        exact .inr (.inl ⟨hlt, rfl, _, rc, hdcb, hrc, rfl⟩)
    · have hdcb : l.dcb mem = none := by
        rw [Link.dcb, if_neg hleaf, if_neg hi]
      have hcalls : acceptedCalls mem l = [] := by
        rw [acceptedCalls, hdcb]
        rfl
      rw [if_neg hi] at h
      rw [hcalls]
      rcases hrest tr h with ⟨hnext, rfl, rfl⟩ | ⟨l', hnext, htr⟩
      · exact .inr (.inr (.inl ⟨hlt, hnext, rfl, rfl⟩))
      · exact .inr (.inr (.inr ⟨hlt, l', hnext, tr, rfl, htr⟩))

/-- What a link contributes has no complete INDIRECT_BUFFER at a header. -/
theorem dcb_clean {d : Dcb} (h : l.dcb mem = some d) {i : Nat}
    (hi : IsHeader (mem.dwords d.gpuAddr) d.size i) :
    chainAt (mem.dwords d.gpuAddr) d.size i = false := by
  unfold Link.dcb at h
  split at h
  · next hleaf =>
    cases h
    exact chainAt_of_no_chain (Nat.le_antisymm findChain_le hleaf) hi
  · split at h
    · cases h
      exact chainAt_of_prefix hi
    · cases h

/-- What a link that jumps contributes ends where a packet does. -/
theorem dcb_boundary {d : Dcb} (h : l.dcb mem = some d) (hlt : l.jump mem < l.dwords) :
    HeaderFrom packetLen (mem.dwords d.gpuAddr) 0 d.size := by
  rw [Link.dcb, if_neg (Nat.not_le_of_lt hlt)] at h
  split at h
  · cases h
    exact headerFrom_findChain hlt
  · cases h

/-! ## The whole chain -/

theorem length_chainLinks_le (k : Nat) (l : Link) : (chainLinks mem k l).length ≤ k := by
  induction k generalizing l with
  | zero => exact Nat.le_refl 0
  | succ k ih =>
    unfold chainLinks
    cases hn : l.next mem with
    | none => simp
    | some l' => simpa using ih l'

theorem chainLinks_of_next (h : l.next mem = some l') :
    (chainLinks mem (k + 1) l).filterMap (Link.dcb mem) =
      (l.dcb mem).toList ++ (chainLinks mem k l').filterMap (Link.dcb mem) := by
  rw [chainLinks, h]
  cases hd : l.dcb mem <;> simp [hd]

theorem chainLinks_of_end (h : l.next mem = none) :
    (chainLinks mem (k + 1) l).filterMap (Link.dcb mem) = (l.dcb mem).toList := by
  rw [chainLinks, h]
  cases hd : l.dcb mem <;> simp [hd]

/-- A chain that comes back to a link does not end. -/
theorem not_endsWithin_of_cycle (h : Relation.TransGen (Jumps mem) l l) :
    endsWithin mem k l = false := by
  induction k generalizing l with
  | zero => rfl
  | succ k ih =>
    obtain ⟨l', hjump, hback⟩ := Relation.TransGen.head'_iff.mp h
    have hnext : l.next mem = some l' := hjump
    simp only [endsWithin, hnext]
    exact ih (.tail' hback hjump)

theorem not_endsWithin_of_cyclic (h : Cyclic mem l) : endsWithin mem k l = false := by
  obtain ⟨l', hreach, hcycle⟩ := h
  induction hreach using Relation.ReflTransGen.head_induction_on generalizing k with
  | refl => exact not_endsWithin_of_cycle hcycle
  | head hjump _ ih =>
    cases k with
    | zero => rfl
    | succ k =>
      simp only [endsWithin, show Link.next mem _ = some _ from hjump]
      exact ih

/-- The streams a run hands over are the first that the links contribute. -/
theorem submitChain_ordered (h : Prog.Trace (submitChain mem k va bytes) tr r) :
    handed tr <+: (chainLinks mem k ⟨va, bytes / 4⟩).filterMap (Link.dcb mem) := by
  induction k generalizing va bytes tr with
  | zero =>
    rw [(trace_submitChain_zero h).2]
    exact List.prefix_rfl
  | succ k ih =>
    rcases trace_submitChain_succ h with ⟨hnext, -, d, hd, rfl⟩ | ⟨-, -, d, rc, hd, -, rfl⟩ |
      ⟨-, hnext, -, rfl⟩ | ⟨-, l', hnext, tr', rfl, htr⟩
    · rw [chainLinks_of_end hnext, hd]
      exact List.prefix_rfl
    · rw [chainLinks, List.filterMap_cons, hd]
      exact ⟨_, rfl⟩
    · rw [chainLinks_of_end hnext, handed_acceptedCalls]
    · rw [chainLinks_of_next hnext, handed_append, handed_acceptedCalls]
      have := ih htr
      rw [Nat.mul_div_cancel _ (by decide : 0 < 4)] at this
      exact (List.prefix_append_right_inj _).mpr this

/-- Only the last link's stream may end inside a packet. -/
theorem submitChain_boundary (h : Prog.Trace (submitChain mem k va bytes) tr r) :
    ∀ d ∈ (handed tr).dropLast, HeaderFrom packetLen (mem.dwords d.gpuAddr) 0 d.size := by
  induction k generalizing va bytes tr with
  | zero =>
    rw [(trace_submitChain_zero h).2]
    exact fun d hd => nomatch hd
  | succ k ih =>
    rcases trace_submitChain_succ h with ⟨-, -, d, -, rfl⟩ | ⟨-, -, d, rc, -, -, rfl⟩ |
      ⟨-, -, -, rfl⟩ | ⟨hlt, l', -, tr', rfl, htr⟩
    · exact fun d hd => nomatch hd
    · exact fun d hd => nomatch hd
    · intro d hd
      rw [handed_acceptedCalls] at hd
      cases hdcb : Link.dcb mem ⟨va, bytes / 4⟩ with
      | none => rw [hdcb] at hd; cases hd
      | some d' => rw [hdcb] at hd; cases hd
    · intro d hd
      rw [handed_append, handed_acceptedCalls] at hd
      by_cases hnil : handed tr' = []
      · rw [hnil, List.append_nil] at hd
        cases hdcb : Link.dcb mem ⟨va, bytes / 4⟩ with
        | none => rw [hdcb] at hd; cases hd
        | some d' => rw [hdcb] at hd; cases hd
      · rw [List.dropLast_append_of_ne_nil hnil, List.mem_append, Option.mem_toList] at hd
        rcases hd with hd | hd
        · exact dcb_boundary hd hlt
        · exact ih htr d hd

/-- A chain short enough is followed to its end when the driver accepts. -/
theorem submitChain_followed (h : Prog.Trace (submitChain mem k va bytes) tr r)
    (hend : endsWithin mem k ⟨va, bytes / 4⟩ = true) (hacc : AllAccepted tr) :
    r = 0 ∧ handed tr = (chainLinks mem k ⟨va, bytes / 4⟩).filterMap (Link.dcb mem) := by
  induction k generalizing va bytes tr with
  | zero => cases hend
  | succ k ih =>
    rcases trace_submitChain_succ h with ⟨hnext, -, d, hd, rfl⟩ | ⟨-, -, d, rc, -, hrc, rfl⟩ |
      ⟨-, hnext, rfl, rfl⟩ | ⟨-, l', hnext, tr', rfl, htr⟩
    · refine ⟨hacc .buffer d r (List.mem_singleton.mpr rfl), ?_⟩
      rw [chainLinks_of_end hnext, hd]
      rfl
    · exact absurd (hacc .buffer d rc (List.mem_singleton.mpr rfl)) hrc
    · rw [chainLinks_of_end hnext, handed_acceptedCalls]
      exact ⟨rfl, rfl⟩
    · have hend' : endsWithin mem k ⟨l'.va, l'.dwords * 4 / 4⟩ = true := by
        rw [Nat.mul_div_cancel _ (by decide : 0 < 4)]
        simpa only [endsWithin, hnext] using hend
      obtain ⟨hr, hhanded⟩ := ih htr hend' fun role d rc hm =>
        hacc role d rc (List.mem_append_right _ hm)
      rw [Nat.mul_div_cancel _ (by decide : 0 < 4)] at hhanded
      refine ⟨hr, ?_⟩
      rw [chainLinks_of_next hnext, handed_append, handed_acceptedCalls, hhanded]

/-- A longer chain is given up. -/
theorem submitChain_tooLong (h : Prog.Trace (submitChain mem k va bytes) tr r)
    (hend : endsWithin mem k ⟨va, bytes / 4⟩ = false) : r = -eio := by
  induction k generalizing va bytes tr with
  | zero => exact (trace_submitChain_zero h).1
  | succ k ih =>
    rcases trace_submitChain_succ h with ⟨hnext, -⟩ | ⟨-, hr, -⟩ | ⟨-, hnext, -⟩ |
      ⟨-, l', hnext, tr', -, htr⟩
    · simp only [endsWithin, hnext] at hend
      cases hend
    · exact hr
    · simp only [endsWithin, hnext] at hend
      cases hend
    · refine ih htr ?_
      rw [Nat.mul_div_cancel _ (by decide : 0 < 4)]
      simpa only [endsWithin, hnext] using hend

/-- **The command processor never sees an INDIRECT_BUFFER.** For every memory, address and length,
    and whatever the driver answers. -/
theorem submit_chain_clean (h : Prog.Trace (submitChain mem maxIbChain va bytes) tr r) :
    ChainSubmitted mem ⟨va, bytes / 4⟩ tr r where
  clean d hd i hi := by
    obtain ⟨l, -, hl⟩ := List.mem_filterMap.mp ((submitChain_ordered h).subset hd)
    exact dcb_clean hl hi
  boundary := submitChain_boundary h
  ordered := submitChain_ordered h
  followed := submitChain_followed h
  bounded := calc
    (handed tr).length ≤ ((chainLinks mem maxIbChain ⟨va, bytes / 4⟩).filterMap
        (Link.dcb mem)).length := (submitChain_ordered h).length_le
    _ ≤ (chainLinks mem maxIbChain ⟨va, bytes / 4⟩).length := List.length_filterMap_le ..
    _ ≤ maxIbChain := length_chainLinks_le ..
  tooLong := submitChain_tooLong h
  cyclic hc := submitChain_tooLong h (not_endsWithin_of_cyclic hc)

/-- A filler dword and a jump to 0x2000, where one more filler dword is. -/
def twoLinks : Memory := fun a =>
  if a = 0x1000 then 0x80000000
  else if a = 0x1004 then 0xc0023f00
  else if a = 0x1008 then 0x2000
  else if a = 0x1010 then 1
  else if a = 0x2000 then 0x80000000
  else 0

theorem submit_chain_clean_two :
    let run := Prog.runWith accepting (submitChain twoLinks maxIbChain 0x1000 20)
    run.2 = 0 ∧ handed run.1 = [⟨0x1000, 1⟩, ⟨0x2000, 1⟩] := by
  have h := submit_chain_clean
    (Prog.trace_runWith accepting (submitChain twoLinks maxIbChain 0x1000 20))
  have hacc : AllAccepted
      (Prog.runWith accepting (submitChain twoLinks maxIbChain 0x1000 20)).1 := by
    intro role dcb rc hm
    have hcalls : (Prog.runWith accepting (submitChain twoLinks maxIbChain 0x1000 20)).1 =
        [⟨.submit .buffer ⟨0x1000, 1⟩, (0 : Int32)⟩, ⟨.submit .buffer ⟨0x2000, 1⟩, (0 : Int32)⟩] :=
      rfl
    rw [hcalls] at hm
    simp only [List.mem_cons, List.not_mem_nil, or_false] at hm
    rcases hm with hm | hm <;> cases hm <;> rfl
  obtain ⟨hr, hhanded⟩ := h.followed (by decide) hacc
  refine ⟨hr, hhanded.trans ?_⟩
  decide

end OopsMesa.Submit
