/-
  Flattening a chain.

  `submit_chain` takes an INDIRECT_BUFFER out of a stream and submits its target after what stood
  before it. A command processor that followed the packet itself would execute the target in its
  place and then go on behind it. `Followed` is that execution, with no reference to the search
  or the walk. The two agree exactly if nothing stands behind the chain packet of any link that is
  followed (`flattened_iff`); otherwise `submit_chain` drops packets, and reports success.
-/
import OopsMesa.Lib.Splice
import OopsMesa.Submit.Chain

namespace OopsMesa.Submit

open OopsMesa.Lib

/-- The dwords of a packet. -/
abbrev Packet := List UInt32

/-- The stream a submission or a chain packet names. -/
def Memory.stream (mem : Memory) (va : UInt64) (dwords : Nat) : Stream UInt32 :=
  ⟨mem.dwords va, dwords⟩

/-- Where a packet sends the command processor. -/
def indirect (mem : Memory) (s : Stream UInt32) (i : Nat) : Option (Stream UInt32) :=
  if chainAt s.entry s.size i then
    some (mem.stream (chainTarget s.entry i) (chainSize s.entry i))
  else none

/-- A command processor that follows INDIRECT_BUFFER packets executes `out` from dword `i` on. -/
abbrev Followed (mem : Memory) : Stream UInt32 → Nat → List Packet → Prop :=
  Executes packetLen (indirect mem)

/-- The packets of the streams handed to the driver, one stream after the other. -/
def sent (mem : Memory) (tr : List (Prog.Event Call Answer)) : List Packet :=
  (handed tr).flatMap fun d => (mem.stream d.gpuAddr d.size).records packetLen

/-- Behind a link's chain packet nothing is left to execute: no packet, or only jumps that lead to
    none. -/
def NothingBehind (mem : Memory) (l : Link) : Prop :=
  ∀ k, l.jump mem < l.dwords → packetLen (mem.dwords l.va (l.jump mem)) = some k →
    Followed mem (mem.stream l.va l.dwords) (l.jump mem + k) []

variable {mem : Memory} {l l' : Link} {k : Nat} {va : UInt64} {bytes : Nat} {r : Int32}
  {tr : List (Prog.Event Call Answer)} {out : List Packet}

@[simp] theorem sent_append (tr tr' : List (Prog.Event Call Answer)) :
    sent mem (tr ++ tr') = sent mem tr ++ sent mem tr' := by
  unfold sent
  rw [handed_append, List.flatMap_append]

theorem sent_acceptedCalls :
    sent mem (acceptedCalls mem l) =
      (l.dcb mem).toList.flatMap fun d => (mem.stream d.gpuAddr d.size).records packetLen := by
  rw [sent, handed_acceptedCalls]

theorem packetLen_of_isChain {header : UInt32} (h : isChain header = true) :
    packetLen header = some (((header >>> 16) &&& 0x3fff).toNat + 2) := by
  have hnop : isChain pm4Nop = false := by decide
  simp only [isChain, Bool.and_eq_true, beq_iff_eq] at h
  unfold packetLen
  rw [if_neg, if_neg, if_neg]
  · rw [h.1]; decide
  · rw [h.1]; decide
  · rintro rfl
    simp [isChain, h] at hnop

theorem indirect_of_no_chain {s : Stream UInt32} {i : Nat}
    (h : chainAt s.entry s.size i = false) : indirect mem s i = none := by
  rw [indirect, h]
  rfl

/-- A chain packet has a length. -/
theorem exists_packetLen (hlt : l.jump mem < l.dwords) :
    ∃ n, packetLen (mem.dwords l.va (l.jump mem)) = some n :=
  ⟨_, packetLen_of_isChain
    (Bool.and_eq_true_iff.mp ((findChain_spec (mem.dwords l.va) l.dwords).2.1 hlt).2).1⟩

/-! ## One link -/

/-- The stream a link jumps to. -/
def Link.target (mem : Memory) (l : Link) : Link :=
  ⟨chainTarget (mem.dwords l.va) (l.jump mem), chainSize (mem.dwords l.va) (l.jump mem)⟩

/-- What one level of `submit_chain` does when it succeeds. -/
theorem trace_submitChain_ok (h : Prog.Trace (submitChain mem (k + 1) va bytes) tr 0) :
    let l : Link := ⟨va, bytes / 4⟩
    (l.dwords ≤ l.jump mem ∧ l.next mem = none ∧ tr = acceptedCalls mem l) ∨
    (l.jump mem < l.dwords ∧ l.next mem = none ∧ (l.target mem).dwords = 0 ∧
      tr = acceptedCalls mem l) ∨
    (l.jump mem < l.dwords ∧ l.next mem = some (l.target mem) ∧
      ∃ tr', tr = acceptedCalls mem l ++ tr' ∧
        Prog.Trace (submitChain mem k (l.target mem).va ((l.target mem).dwords * 4)) tr' 0) := by
  intro l
  rcases trace_submitChain_succ h with ⟨hnext, hleaf, d, hd, rfl⟩ | ⟨-, hr, -⟩ |
    ⟨hlt, hnext, -, rfl⟩ | ⟨hlt, l', hnext, tr', rfl, htr⟩
  · refine .inl ⟨hleaf, hnext, ?_⟩
    rw [acceptedCalls, hd]
    rfl
  · exact absurd hr (by decide)
  · refine .inr (.inl ⟨hlt, hnext, ?_, rfl⟩)
    rw [Link.next, if_neg (by omega)] at hnext
    split at hnext
    · next hsize => exact hsize
    · cases hnext
  · have htarget : l' = l.target mem := by
      rw [Link.next, if_neg (by omega)] at hnext
      split at hnext
      · cases hnext
      · cases hnext
        rfl
    subst htarget
    exact .inr (.inr ⟨hlt, hnext, tr', rfl, htr⟩)

/-- A link that does not jump is executed as it is submitted. -/
theorem followed_of_end (hleaf : l.dwords ≤ l.jump mem) :
    Followed mem (mem.stream l.va l.dwords) 0 out ↔ out = sent mem (acceptedCalls mem l) := by
  have hjump : findChain (mem.dwords l.va) l.dwords = l.dwords :=
    Nat.le_antisymm findChain_le hleaf
  have hsent : sent mem (acceptedCalls mem l) = (mem.stream l.va l.dwords).records packetLen := by
    rw [sent_acceptedCalls, Link.dcb, if_pos hleaf]
    simp
  rw [hsent]
  apply executes_of_no_jump packetLen_advances (by omega)
  intro j hj hjs
  apply indirect_of_no_chain
  exact chainAt_of_no_chain hjump ⟨hjs, hj⟩

/-- A link that jumps is executed as what is submitted of it, the target, and what stands behind
    the chain packet. -/
theorem followed_of_jump (hlt : l.jump mem < l.dwords) :
    Followed mem (mem.stream l.va l.dwords) 0 out ↔
      ∃ n out₁ out₂, packetLen (mem.dwords l.va (l.jump mem)) = some n ∧
        out = sent mem (acceptedCalls mem l) ++ (out₁ ++ out₂) ∧
        Followed mem (mem.stream (l.target mem).va (l.target mem).dwords) 0 out₁ ∧
        Followed mem (mem.stream l.va l.dwords) (l.jump mem + n) out₂ := by
  obtain ⟨hle, hfound, hfirst⟩ := findChain_spec (mem.dwords l.va) l.dwords
  obtain ⟨hheader, hchain⟩ := hfound hlt
  have hn := packetLen_of_isChain (Bool.and_eq_true_iff.mp hchain).1
  have hsent : sent mem (acceptedCalls mem l) =
      ((mem.stream l.va l.dwords).take (l.jump mem)).recordsFrom packetLen (l.jump mem) 0 := by
    rw [sent_acceptedCalls, Link.dcb, if_neg (by omega)]
    split
    · simp [Stream.records, Memory.stream, Stream.take]
    · have hzero : l.jump mem = 0 := by omega
      rw [hzero]
      rfl
  have hcut : Followed mem (mem.stream l.va l.dwords) 0 out ↔
      ∃ out', out = sent mem (acceptedCalls mem l) ++ out' ∧
        Followed mem (mem.stream l.va l.dwords) (l.jump mem) out' := by
    rw [hsent]
    apply executes_before packetLen_advances hheader hle (by omega)
    intro m hm hmj
    apply indirect_of_no_chain
    exact hfirst m hm hmj
  have hjump : ∀ out', Followed mem (mem.stream l.va l.dwords) (l.jump mem) out' ↔
      ∃ out₁ out₂, out' = out₁ ++ out₂ ∧
        Followed mem (mem.stream (l.target mem).va (l.target mem).dwords) 0 out₁ ∧
        Followed mem (mem.stream l.va l.dwords) (l.jump mem + _) out₂ := fun out' =>
    executes_jump hlt hn (if_pos hchain)
  rw [hcut]
  constructor
  · rintro ⟨out', rfl, hout⟩
    obtain ⟨out₁, out₂, rfl, h₁, h₂⟩ := (hjump out').mp hout
    exact ⟨_, out₁, out₂, hn, rfl, h₁, h₂⟩
  · rintro ⟨n, out₁, out₂, hn', rfl, h₁, h₂⟩
    have heq := hn.symm.trans hn'
    rw [Option.some.injEq] at heq
    subst heq
    exact ⟨_, rfl, (hjump _).mpr ⟨out₁, out₂, rfl, h₁, h₂⟩⟩

/-! ## The whole chain -/

/-- Of an empty target nothing is executed. -/
theorem followed_empty (h : l.dwords = 0) :
    Followed mem (mem.stream l.va l.dwords) 0 out ↔ out = [] :=
  executes_done (Nat.le_of_eq h)

/-- A successful walk submits no more than is executed. -/
theorem length_sent_le (h : Prog.Trace (submitChain mem k va bytes) tr 0)
    (hout : Followed mem (mem.stream va (bytes / 4)) 0 out) :
    (sent mem tr).length ≤ out.length := by
  induction k generalizing va bytes tr out with
  | zero => exact absurd (trace_submitChain_zero h).1 (by decide)
  | succ k ih =>
    rcases trace_submitChain_ok h with ⟨hleaf, -, rfl⟩ | ⟨hlt, -, -, rfl⟩ |
      ⟨hlt, -, tr', rfl, htr⟩
    · rw [(followed_of_end (l := ⟨va, bytes / 4⟩) hleaf).mp hout]
    · obtain ⟨n, out₁, out₂, -, rfl, -, -⟩ := (followed_of_jump (l := ⟨va, bytes / 4⟩) hlt).mp hout
      simp only [List.length_append]
      omega
    · obtain ⟨n, out₁, out₂, -, rfl, h₁, -⟩ := (followed_of_jump (l := ⟨va, bytes / 4⟩) hlt).mp hout
      have hle := ih htr (by rw [Nat.mul_div_cancel _ (by decide : 0 < 4)]; exact h₁)
      simp only [sent_append, List.length_append]
      omega

/-- The links of a chain, the first one and those after it. -/
theorem forall_chainLinks_succ {P : Link → Prop} :
    (∀ m ∈ chainLinks mem (k + 1) l, P m) ↔
      P l ∧ ∀ l', l.next mem = some l' → ∀ m ∈ chainLinks mem k l', P m := by
  rw [chainLinks]
  cases hnext : l.next mem with
  | none => simp
  | some l' => simp

/-- A successful walk submits what is executed if and only if nothing stands behind a chain packet
    it goes by. -/
theorem flattened_iff (h : Prog.Trace (submitChain mem k va bytes) tr 0) :
    Followed mem (mem.stream va (bytes / 4)) 0 (sent mem tr) ↔
      ∀ l ∈ chainLinks mem k ⟨va, bytes / 4⟩, NothingBehind mem l := by
  induction k generalizing va bytes tr with
  | zero => exact absurd (trace_submitChain_zero h).1 (by decide)
  | succ k ih =>
    rw [forall_chainLinks_succ]
    rcases trace_submitChain_ok h with ⟨hleaf, hnext, rfl⟩ | ⟨hlt, hnext, hempty, rfl⟩ |
      ⟨hlt, hnext, tr', rfl, htr⟩
    · rw [followed_of_end (l := ⟨va, bytes / 4⟩) hleaf, hnext]
      have hnone : NothingBehind mem ⟨va, bytes / 4⟩ := fun n hlt => by omega
      simp [hnone]
    · rw [followed_of_jump (l := ⟨va, bytes / 4⟩) hlt, hnext]
      constructor
      · rintro ⟨n, out₁, out₂, hn, hout, -, h₂⟩
        have hnil : out₁ ++ out₂ = [] := List.self_eq_append_right.mp hout
        obtain ⟨-, rfl⟩ := List.append_eq_nil_iff.mp hnil
        refine ⟨fun n' _ hn' => ?_, fun l' hl' => nomatch hl'⟩
        rw [hn, Option.some.injEq] at hn'
        exact hn' ▸ h₂
      · rintro ⟨hbehind, -⟩
        obtain ⟨n, hn⟩ := exists_packetLen hlt
        exact ⟨n, [], [], hn, (List.append_nil _).symm, (followed_empty hempty).mpr rfl,
          hbehind n hlt hn⟩
    · rw [followed_of_jump (l := ⟨va, bytes / 4⟩) hlt, hnext, sent_append]
      have hrest := ih htr
      rw [Nat.mul_div_cancel _ (by decide : 0 < 4)] at hrest
      constructor
      · rintro ⟨n, out₁, out₂, hn, hout, h₁, h₂⟩
        have heq : sent mem tr' = out₁ ++ out₂ := List.append_cancel_left hout
        have hle := length_sent_le htr (by rw [Nat.mul_div_cancel _ (by decide : 0 < 4)]; exact h₁)
        obtain rfl : out₂ = [] := by
          rw [heq, List.length_append] at hle
          exact List.length_eq_zero_iff.mp (by omega)
        rw [List.append_nil] at heq
        subst heq
        refine ⟨fun n' _ hn' => ?_, fun l' hl' => ?_⟩
        · rw [hn, Option.some.injEq] at hn'
          exact hn' ▸ h₂
        · cases hl'
          exact hrest.mp h₁
      · rintro ⟨hbehind, hlinks⟩
        obtain ⟨n, hn⟩ := exists_packetLen hlt
        exact ⟨n, sent mem tr', [], hn, by rw [List.append_nil], hrest.mpr (hlinks _ rfl),
          hbehind n hlt hn⟩

/-- **When flattening a chain loses no packet.** -/
theorem no_packet_lost (h : Prog.Trace (submitChain mem maxIbChain va bytes) tr 0) :
    Followed mem (mem.stream va (bytes / 4)) 0 (sent mem tr) ↔
      ∀ l ∈ chainLinks mem maxIbChain ⟨va, bytes / 4⟩, NothingBehind mem l :=
  flattened_iff h

/-- A chain packet that ends its stream: the filler dword before it and the one it leads to are
    what a command processor executes. -/
theorem no_packet_lost_two :
    Followed twoLinks (twoLinks.stream 0x1000 5) 0 [[0x80000000], [0x80000000]] := by
  have htr : Prog.Trace (submitChain twoLinks maxIbChain 0x1000 20)
      (Prog.runWith accepting (submitChain twoLinks maxIbChain 0x1000 20)).1 0 :=
    Prog.trace_runWith accepting (submitChain twoLinks maxIbChain 0x1000 20)
  refine (no_packet_lost htr).mpr fun l hl => ?_
  have hlinks : chainLinks twoLinks maxIbChain ⟨0x1000, 20 / 4⟩ = [⟨0x1000, 5⟩, ⟨0x2000, 1⟩] := by
    decide
  rw [hlinks, List.mem_cons, List.mem_singleton] at hl
  rcases hl with rfl | rfl
  · intro n _ hn
    have hlen : packetLen (twoLinks.dwords 0x1000 1) = some 4 := by decide
    have hn4 : n = 4 := Option.some.inj (hn.symm.trans hlen)
    subst hn4
    exact .done (by decide)
  · intro n hlt
    exact absurd hlt (by decide)

/-- A jump to 0x2000, where a filler dword is, and a draw behind the jump. -/
private def drawBehind : Memory := fun a =>
  if a = 0x1000 then 0xc0023f00
  else if a = 0x1004 then 0x2000
  else if a = 0x100c then 1
  else if a = 0x1010 then 0xc0012d00
  else if a = 0x1014 then 3
  else if a = 0x1018 then 2
  else if a = 0x2000 then 0x80000000
  else 0

/-- The draw is dropped, and the call succeeds. -/
theorem not_no_packet_lost :
    ¬ ∀ (mem : Memory) (va : UInt64) (bytes : Nat) (tr : List (Prog.Event Call Answer)),
      Prog.Trace (submitChain mem maxIbChain va bytes) tr 0 →
        Followed mem (mem.stream va (bytes / 4)) 0 (sent mem tr) := by
  intro h
  have htr : Prog.Trace (submitChain drawBehind maxIbChain 0x1000 28)
      (Prog.runWith accepting (submitChain drawBehind maxIbChain 0x1000 28)).1 0 :=
    Prog.trace_runWith accepting (submitChain drawBehind maxIbChain 0x1000 28)
  have hbehind := (flattened_iff htr).mp (h _ _ _ _ htr) ⟨0x1000, 7⟩ (by decide)
  have hdraw := hbehind 4 (by decide) (by decide)
  obtain ⟨out, hnil, -⟩ := (executes_record (by decide) (by decide : _ = some 3) (by decide)).mp hdraw
  cases hnil

end OopsMesa.Submit
