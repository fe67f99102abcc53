/-
  A submission as a whole.

  `oops_winsys_cs` hands the driver the streams of its instruction buffers, chain by chain, and
  then the stream that fires the fence. None is out of order, and none follows one that was
  refused. Of a call that succeeded, or waited in vain, every stream was handed over, and the
  packets in them are those that a command processor following the chains would execute of one
  buffer after the other, exactly if nothing stands behind a chain packet; the last stream fires
  the fence, and writes nothing else (`submission_in_order`).

  Each buffer is walked in the memory at that time.
-/
import OopsMesa.Submit.Flatten
import OopsMesa.Submit.Marks
import OopsMesa.Submit.Ready

namespace OopsMesa.Submit

open OopsMesa.Lib OopsMesa.Winsys

/-! ## What a submission consists of -/

/-- The instruction buffer of a chunk, unless it is empty. -/
def Chunk.buffer : Option Chunk → Option ChunkIb
  | some (.ib (some data)) => if data.ibBytes = 0 then none else some data
  | _ => none

/-- The instruction buffers of a submission. -/
def CsIn.buffers (arg : CsIn) : List ChunkIb := (arg.chunks.getD []).filterMap Chunk.buffer

/-- The memory at each walk of a buffer. -/
def memories (tr : List (Prog.Event Call Answer)) : List Memory :=
  tr.filterMap fun ev =>
    match ev with
    | ⟨.readMemory, mem⟩ => some mem
    | _ => none

/-- What the driver answered to each stream. -/
def codes (tr : List (Prog.Event Call Answer)) : List Int32 :=
  tr.filterMap fun ev =>
    match ev with
    | ⟨.submit _ _, rc⟩ => some rc
    | _ => none

/-- An instruction buffer, and the memory it is walked in. -/
structure Buffer where
  mem : Memory
  ib : ChunkIb

/-- The buffers that were walked. -/
def walkedBuffers (bs : List ChunkIb) (tr : List (Prog.Event Call Answer)) : List Buffer :=
  List.zipWith Buffer.mk (memories tr) bs

/-- The first link of a buffer. -/
def Buffer.link (b : Buffer) : Link := ⟨b.ib.vaStart, b.ib.ibBytes.toNat / 4⟩

/-- The links of a buffer. -/
def Buffer.links (b : Buffer) : List Link := chainLinks b.mem maxIbChain b.link

/-- The streams of a buffer. -/
def Buffer.streams (b : Buffer) : List Dcb := b.links.filterMap (Link.dcb b.mem)

/-- The packets of these. -/
def Buffer.packets (b : Buffer) : List Packet :=
  b.streams.flatMap fun d => (b.mem.stream d.gpuAddr d.size).records packetLen

/-- What a command processor that follows INDIRECT_BUFFER packets executes of a buffer. -/
def Buffer.Follows (b : Buffer) (out : List Packet) : Prop :=
  Followed b.mem (b.mem.stream b.link.va b.link.dwords) 0 out

/-- `s_fence_dcb`, as it is submitted. -/
def Statics.fenceStream (st : Statics) : Dcb := ⟨st.fenceDcb, 27⟩

/-! ## The statement -/

/-- A stream of whole packets, none of them an INDIRECT_BUFFER, of which one writes memory: the
    fired word, at `fence`. -/
structure FiresOnce (fence : UInt64) (dw : Array UInt32) : Prop where
  whole : ∀ i, IsHeader (dwords dw) dw.size i →
    ∃ k, packetLen (dwords dw i) = some k ∧ i + k ≤ dw.size
  unchained : findChain (dwords dw) dw.size = dw.size
  once : ∃ i pos, IsHeader (dwords dw) dw.size i ∧
    packetMark dw i = some (some ⟨.R, pos, fence, fenceFired, 0xffffffff⟩) ∧
      ∀ j, IsHeader (dwords dw) dw.size j → j ≠ i → packetMark dw j = some none

/-- A submission that was handed over as a whole. -/
structure Complete (arg : CsIn) (st : Statics) (tr : List (Prog.Event Call Answer)) : Prop where
  some : arg.buffers ≠ []
  each : (memories tr).length = arg.buffers.length
  all : handed tr = (walkedBuffers arg.buffers tr).flatMap Buffer.streams ++ [st.fenceStream]
  accepted : ∀ rc ∈ codes tr, rc = 0
  /-- What was submitted is what is executed. -/
  executes : InTurn Buffer.Follows (walkedBuffers arg.buffers tr)
      ((walkedBuffers arg.buffers tr).flatMap Buffer.packets) ↔
    ∀ b ∈ walkedBuffers arg.buffers tr, ∀ l ∈ b.links, NothingBehind b.mem l
  /-- The fence is armed and its stream stored before it is submitted, and neither is touched
      behind that. -/
  fenced : ∃ tr₁ tr₂ dw, tr = tr₁ ++ (⟨.armFence st.fence, ()⟩ ::
      ⟨.storeFenceStream st.fenceDcb dw, ()⟩ :: ⟨.submit .fence st.fenceStream, (0 : Int32)⟩ ::
        tr₂) ∧
    (∀ ev ∈ tr₂, ∀ fence dcb dw, ev.1 ≠ .armFence fence ∧ ev.1 ≠ .storeFenceStream dcb dw) ∧
    FiresOnce st.fence dw.toArray ∧ dw.length = st.fenceStream.size

/-- A call of `oops_winsys_cs` that returned, with these statics. -/
structure HandedInOrder (arg : CsIn) (st : Statics) (tr : List (Prog.Event Call Answer))
    (ret : Ret) : Prop where
  ordered : handed tr <+:
    (walkedBuffers arg.buffers tr).flatMap Buffer.streams ++ [st.fenceStream]
  /-- Behind a refused stream none is handed over. -/
  stops : ∀ rc ∈ (codes tr).dropLast, rc = 0
  complete : ret = .ok ∨ ret = .err .ETIMEDOUT → Complete arg st tr

/-! ## Handing over -/

variable {sym : Symbols} {st st' : Statics} {tr tr' : List (Prog.Event Call Answer)}
  {ds ds' : List Dcb}

/-- The first of the streams `ds` are handed over, and all but the last accepted. -/
structure Hands (ds : List Dcb) (tr : List (Prog.Event Call Answer)) : Prop where
  ordered : handed tr <+: ds
  stops : ∀ rc ∈ (codes tr).dropLast, rc = 0

/-- All the streams `ds` are handed over, and accepted. -/
structure HandsAll (ds : List Dcb) (tr : List (Prog.Event Call Answer)) : Prop where
  all : handed tr = ds
  accepted : ∀ rc ∈ codes tr, rc = 0

theorem memories_append (tr tr' : List (Prog.Event Call Answer)) :
    memories (tr ++ tr') = memories tr ++ memories tr' := List.filterMap_append

theorem codes_append (tr tr' : List (Prog.Event Call Answer)) :
    codes (tr ++ tr') = codes tr ++ codes tr' := List.filterMap_append

theorem hands_nil : Hands [] [] := ⟨List.prefix_rfl, fun _ hrc => absurd hrc List.not_mem_nil⟩

theorem HandsAll.hands (h : HandsAll ds tr) : Hands ds tr :=
  ⟨h.all ▸ List.prefix_rfl, fun rc hrc => h.accepted rc (List.mem_of_mem_dropLast hrc)⟩

theorem HandsAll.append (h : HandsAll ds tr) (h' : HandsAll ds' tr') :
    HandsAll (ds ++ ds') (tr ++ tr') := by
  refine ⟨by rw [handed_append, h.all, h'.all], fun rc hrc => ?_⟩
  rw [codes_append] at hrc
  exact (List.mem_append.mp hrc).elim (h.accepted rc) (h'.accepted rc)

theorem HandsAll.then (h : HandsAll ds tr) (h' : Hands ds' tr') :
    Hands (ds ++ ds') (tr ++ tr') := by
  refine ⟨?_, fun rc hrc => ?_⟩
  · rw [handed_append, h.all]
    exact (List.prefix_append_right_inj _).mpr h'.ordered
  · rw [codes_append] at hrc
    by_cases hnil : codes tr' = []
    · rw [hnil, List.append_nil] at hrc
      exact h.accepted rc (List.mem_of_mem_dropLast hrc)
    · rw [List.dropLast_append_of_ne_nil hnil] at hrc
      exact (List.mem_append.mp hrc).elim (h.accepted rc) (h'.stops rc)

theorem Hands.more (h : Hands ds tr) (ds' : List Dcb) : Hands (ds ++ ds') tr :=
  ⟨h.ordered.trans (List.prefix_append ds ds'), h.stops⟩

/-- A call that hands nothing over, and walks nothing. -/
def Call.Aside : Call → Prop
  | .readMemory | .submit _ _ => False
  | _ => True

/-- The same is handed over, answered and walked. -/
structure SameStreams (tr tr' : List (Prog.Event Call Answer)) : Prop where
  handed : handed tr' = handed tr
  codes : codes tr' = codes tr
  memories : memories tr' = memories tr

theorem Hands.same (h : Hands ds tr) (hs : SameStreams tr tr') : Hands ds tr' :=
  ⟨hs.handed ▸ h.ordered, hs.codes ▸ h.stops⟩

theorem HandsAll.same (h : HandsAll ds tr) (hs : SameStreams tr tr') : HandsAll ds tr' :=
  ⟨hs.handed.trans h.all, hs.codes ▸ h.accepted⟩

theorem SameStreams.walkedBuffers (hs : SameStreams tr tr') (bs : List ChunkIb) :
    walkedBuffers bs tr' = walkedBuffers bs tr :=
  congrArg (List.zipWith Buffer.mk · bs) hs.memories

/-- Before and behind some calls come others that hand nothing over. -/
theorem sameStreams_around {tr₁ tr₂ : List (Prog.Event Call Answer)}
    (h₁ : ∀ ev ∈ tr₁, Call.Aside ev.1) (h₂ : ∀ ev ∈ tr₂, Call.Aside ev.1)
    (tr : List (Prog.Event Call Answer)) : SameStreams tr (tr₁ ++ tr ++ tr₂) := by
  have hnone : ∀ tr : List (Prog.Event Call Answer), (∀ ev ∈ tr, Call.Aside ev.1) →
      handed tr = [] ∧ codes tr = [] ∧ memories tr = [] := by
    intro tr h
    refine ⟨List.filterMap_eq_nil_iff.mpr ?_, List.filterMap_eq_nil_iff.mpr ?_,
      List.filterMap_eq_nil_iff.mpr ?_⟩
    all_goals
      rintro ⟨c, x⟩ hev
      have hc := h _ hev
      cases c <;> first | rfl | exact hc.elim
  obtain ⟨hhanded₁, hcodes₁, hmemories₁⟩ := hnone tr₁ h₁
  obtain ⟨hhanded₂, hcodes₂, hmemories₂⟩ := hnone tr₂ h₂
  refine ⟨?_, ?_, ?_⟩
  · rw [handed_append, handed_append, hhanded₁, hhanded₂, List.nil_append, List.append_nil]
  · rw [codes_append, codes_append, hcodes₁, hcodes₂, List.nil_append, List.append_nil]
  · rw [memories_append, memories_append, hmemories₁, hmemories₂, List.nil_append,
      List.append_nil]

theorem sameStreams_before {tr₁ : List (Prog.Event Call Answer)}
    (h : ∀ ev ∈ tr₁, Call.Aside ev.1) (tr : List (Prog.Event Call Answer)) :
    SameStreams tr (tr₁ ++ tr) := by
  have hs : SameStreams tr (tr₁ ++ tr ++ []) := sameStreams_around h (List.forall_mem_nil _) tr
  rwa [List.append_nil] at hs

/-! ## One buffer -/

variable {mem : Memory} {left : Nat} {va : UInt64} {bytes : Nat} {r : Int32} {b : Buffer}
  {w : Walked}

theorem handsAll_acceptedCalls (mem : Memory) (l : Link) :
    HandsAll (l.dcb mem).toList (acceptedCalls mem l) ∧ memories (acceptedCalls mem l) = [] := by
  unfold acceptedCalls
  cases l.dcb mem with
  | none => exact ⟨⟨rfl, nofun⟩, rfl⟩
  | some d => exact ⟨⟨rfl, List.forall_mem_singleton.mpr rfl⟩, rfl⟩

/-- A walk hands over the first streams of a chain; all of them, if it succeeds. -/
theorem hands_submitChain (h : Prog.Trace (submitChain mem left va bytes) tr r) :
    let ds := (chainLinks mem left ⟨va, bytes / 4⟩).filterMap (Link.dcb mem)
    Hands ds tr ∧ (r = 0 → HandsAll ds tr) ∧ memories tr = [] := by
  induction left generalizing va bytes tr with
  | zero =>
    obtain ⟨_, tr', rfl, h'⟩ := Prog.trace_call.mp h
    obtain ⟨rfl, rfl⟩ := Prog.trace_ret.mp h'
    have hne : ¬ -eio = 0 := by decide
    exact ⟨⟨List.nil_prefix, fun _ hrc => absurd hrc List.not_mem_nil⟩, fun hr => absurd hr hne,
      rfl⟩
  | succ left ih =>
    intro ds
    rcases trace_submitChain_succ h with ⟨hnext, -, d, hd, rfl⟩ | ⟨-, rfl, d, rc, hd, hrc, rfl⟩ |
      ⟨-, hnext, rfl, rfl⟩ | ⟨-, l', hnext, tr', rfl, htr⟩
    · have hds : ds = [d] := by
        show (chainLinks mem (left + 1) _).filterMap _ = _
        rw [chainLinks_of_end hnext, hd]
        rfl
      rw [hds]
      have hlast : ∀ rc ∈ [r].dropLast, rc = 0 := fun _ hrc => absurd hrc List.not_mem_nil
      exact ⟨⟨List.prefix_rfl, hlast⟩, fun hr => ⟨rfl, List.forall_mem_singleton.mpr hr⟩, rfl⟩
    · have hds : ∃ rest, ds = d :: rest := by
        show ∃ rest, (chainLinks mem (left + 1) _).filterMap _ = _
        rw [chainLinks, List.filterMap_cons, hd]
        exact ⟨_, rfl⟩
      obtain ⟨rest, hds⟩ := hds
      rw [hds]
      have hlast : ∀ rc' ∈ [(rc : Int32)].dropLast, rc' = 0 :=
        fun _ hrc => absurd hrc List.not_mem_nil
      have hne : ¬ -eio = 0 := by decide
      exact ⟨⟨⟨rest, rfl⟩, hlast⟩, fun hr => absurd hr hne, rfl⟩
    · obtain ⟨hall, hmem⟩ := handsAll_acceptedCalls mem ⟨va, bytes / 4⟩
      have hds : ds = (Link.dcb mem ⟨va, bytes / 4⟩).toList := chainLinks_of_end hnext
      rw [hds]
      exact ⟨hall.hands, fun _ => hall, hmem⟩
    · obtain ⟨hall, hmem⟩ := handsAll_acceptedCalls mem ⟨va, bytes / 4⟩
      obtain ⟨hfirst, hrest, hmem'⟩ := ih htr
      rw [Nat.mul_div_cancel _ (by decide : 0 < 4)] at hfirst hrest
      have hds : ds = _ ++ _ := chainLinks_of_next hnext
      rw [hds, memories_append, hmem, hmem']
      exact ⟨hall.then hfirst, fun hr => hall.append (hrest hr), rfl⟩

/-- Of a buffer that is handed over as a whole no packet is lost exactly if nothing stands behind
    a chain packet, and none is made up. -/
structure Buffer.Flattens (b : Buffer) : Prop where
  exact : b.Follows b.packets ↔ ∀ l ∈ b.links, NothingBehind b.mem l
  short : ∀ out, b.Follows out → b.packets.length ≤ out.length

theorem trace_submitIb {ib : ChunkIb} {accepted : Bool}
    (h : Prog.Trace (submitIb ib) tr accepted) :
    ∃ mem, memories tr = [mem] ∧ Hands (Buffer.mk mem ib).streams tr ∧
      (accepted = true → HandsAll (Buffer.mk mem ib).streams tr ∧ (Buffer.mk mem ib).Flattens) := by
  obtain ⟨_, _, rfl, hdumped⟩ := Prog.trace_call.mp h
  obtain ⟨_, _, rfl, hnoted⟩ := Prog.trace_call.mp hdumped
  obtain ⟨(mem : Memory), tr', rfl, hread⟩ := Prog.trace_call.mp hnoted
  have hrest : Prog.Trace (submitChain mem maxIbChain ib.vaStart ib.ibBytes.toNat >>= _) tr'
    accepted := hread
  obtain ⟨tr₁, tr₂, rc, rfl, hchain, hend⟩ := Prog.trace_bind.mp hrest
  obtain ⟨hfirst, hall, hmem⟩ := hands_submitChain hchain
  have haside : (∀ ev ∈ tr₂, Call.Aside ev.1) ∧ (accepted = true → rc = 0) := by
    split at hend
    · obtain ⟨_, _, rfl, hlogged⟩ := Prog.trace_call.mp hend
      obtain ⟨rfl, rfl⟩ := Prog.trace_ret.mp hlogged
      exact ⟨List.forall_mem_singleton.mpr trivial, nofun⟩
    · next hrc =>
      obtain ⟨rfl, rfl⟩ := Prog.trace_ret.mp hend
      exact ⟨nofun, fun _ => Decidable.of_not_not hrc⟩
  have hnone : ∀ ev ∈ ([] : List (Prog.Event Call Answer)), Call.Aside ev.1 :=
    List.forall_mem_nil _
  have hsame : SameStreams tr₁ (tr₁ ++ tr₂) := sameStreams_around hnone haside.1 tr₁
  have hfirst' := hfirst.same hsame
  refine ⟨mem, congrArg (mem :: ·) (hsame.memories.trans hmem),
    ⟨hfirst'.ordered, hfirst'.stops⟩, fun haccepted => ?_⟩
  obtain rfl := haside.2 haccepted
  have hsent : sent mem tr₁ = (Buffer.mk mem ib).packets := by
    unfold sent
    rw [(hall rfl).all]
    rfl
  have hall' := (hall rfl).same hsame
  refine ⟨⟨hall'.all, hall'.accepted⟩, ?_, fun out hout => ?_⟩
  · rw [← hsent]
    exact flattened_iff hchain
  · rw [← hsent]
    exact length_sent_le hchain hout

/-! ## The chunks -/

variable {o : Option Walked}

/-- What one turn of the loop over the chunks does. -/
inductive Turn (w : Walked) (c : Option Chunk) (tr : List (Prog.Event Call Answer)) :
    Option Walked → Prop
  | other {w' : Walked} : Chunk.buffer c = none → (∀ ev ∈ tr, Call.Aside ev.1) →
      w'.submitted = w.submitted → Turn w c tr (some w')
  | refused {b : Buffer} : Chunk.buffer c = some b.ib → memories tr = [b.mem] →
      Hands b.streams tr → Turn w c tr none
  | handed {b : Buffer} {w' : Walked} : Chunk.buffer c = some b.ib → memories tr = [b.mem] →
      HandsAll b.streams tr → b.Flattens → w'.submitted = w.submitted + 1 →
      Turn w c tr (some w')

theorem trace_submitChunk {c : Option Chunk} (h : Prog.Trace (submitChunk w c) tr o) :
    Turn w c tr o := by
  unfold submitChunk at h
  split at h
  · next ib =>
    split at h
    · next hempty =>
      obtain ⟨rfl, rfl⟩ := Prog.trace_ret.mp h
      exact .other (if_pos hempty) nofun rfl
    · next hbytes =>
      obtain ⟨tr₁, tr₂, accepted, rfl, hib, hend⟩ := Prog.trace_bind.mp h
      obtain ⟨mem, hmem, hfirst, hall⟩ := trace_submitIb hib
      have hbuffer : Chunk.buffer (some (.ib (some ib))) = some (Buffer.mk mem ib).ib :=
        if_neg hbytes
      cases accepted with
      | false =>
        obtain ⟨rfl, rfl⟩ := Prog.trace_ret.mp hend
        rw [List.append_nil]
        exact .refused hbuffer hmem hfirst
      | true =>
        obtain ⟨rfl, rfl⟩ := Prog.trace_ret.mp hend
        rw [List.append_nil]
        exact .handed hbuffer hmem (hall rfl).1 (hall rfl).2 rfl
  · obtain ⟨rfl, rfl⟩ := Prog.trace_ret.mp h
    exact .other rfl nofun rfl
  · obtain ⟨_, _, rfl, hlogged⟩ := Prog.trace_call.mp h
    obtain ⟨rfl, rfl⟩ := Prog.trace_ret.mp hlogged
    exact .other rfl (List.forall_mem_singleton.mpr trivial) rfl
  · next c hib _ _ =>
    obtain ⟨rfl, rfl⟩ := Prog.trace_ret.mp h
    refine .other ?_ nofun rfl
    unfold Chunk.buffer
    split
    · exact absurd rfl (hib _)
    · rfl

/-- All the buffers are walked, and all their streams handed over. -/
structure WalksAll (bs : List ChunkIb) (tr : List (Prog.Event Call Answer)) : Prop where
  each : (memories tr).length = bs.length
  hands : HandsAll ((walkedBuffers bs tr).flatMap Buffer.streams) tr
  flattens : ∀ b ∈ walkedBuffers bs tr, b.Flattens

theorem WalksAll.same {bs : List ChunkIb} (h : WalksAll bs tr) (hs : SameStreams tr tr') :
    WalksAll bs tr' := by
  refine ⟨hs.memories ▸ h.each, ?_, ?_⟩
  · rw [hs.walkedBuffers]
    exact h.hands.same hs
  · rw [hs.walkedBuffers]
    exact h.flattens

/-- A buffer more. -/
theorem walkedBuffers_cons {bs : List ChunkIb} (h : memories tr = [b.mem])
    (tr' : List (Prog.Event Call Answer)) :
    walkedBuffers (b.ib :: bs) (tr ++ tr') = b :: walkedBuffers bs tr' := by
  unfold walkedBuffers
  rw [memories_append, h]
  rfl

theorem WalksAll.cons {bs : List ChunkIb} (hmem : memories tr = [b.mem])
    (hhands : HandsAll b.streams tr) (hflat : b.Flattens) (h : WalksAll bs tr') :
    WalksAll (b.ib :: bs) (tr ++ tr') := by
  refine ⟨?_, ?_, ?_⟩
  · rw [memories_append, hmem]
    exact congrArg (· + 1) h.each
  · rw [walkedBuffers_cons hmem]
    exact hhands.append h.hands
  · rw [walkedBuffers_cons hmem]
    exact List.forall_mem_cons.mpr ⟨hflat, h.flattens⟩

theorem trace_submitChunks {cs : List (Option Chunk)}
    (h : Prog.Trace (submitChunks w cs) tr o) :
    let bs := cs.filterMap Chunk.buffer
    Hands ((walkedBuffers bs tr).flatMap Buffer.streams) tr ∧
      ∀ w', o = some w' → w'.submitted = w.submitted + bs.length ∧ WalksAll bs tr := by
  induction cs generalizing w tr with
  | nil =>
    obtain ⟨rfl, rfl⟩ := Prog.trace_ret.mp h
    refine ⟨⟨List.prefix_rfl, nofun⟩, ?_⟩
    rintro w' ⟨⟩
    exact ⟨rfl, rfl, ⟨rfl, nofun⟩, nofun⟩
  | cons c cs ih =>
    obtain ⟨tr₁, tr₂, o₁, rfl, hturn, hrest⟩ := Prog.trace_bind.mp h
    cases trace_submitChunk hturn with
    | other hbuffer haside hsub =>
      obtain ⟨hfirst, hall⟩ := ih hrest
      have hsame := sameStreams_before haside tr₂
      rw [List.filterMap_cons_none hbuffer]
      dsimp only
      rw [hsame.walkedBuffers]
      refine ⟨hfirst.same hsame, fun w' hw' => ?_⟩
      obtain ⟨hcount, hwalks⟩ := hall w' hw'
      exact ⟨hsub ▸ hcount, hwalks.same hsame⟩
    | refused hbuffer hmem hfirst =>
      obtain ⟨rfl, rfl⟩ := Prog.trace_ret.mp hrest
      rw [List.filterMap_cons_some hbuffer]
      dsimp only
      rw [walkedBuffers_cons hmem, List.append_nil]
      exact ⟨hfirst.more _, nofun⟩
    | handed hbuffer hmem hhands hflat hsub =>
      obtain ⟨hfirst, hall⟩ := ih hrest
      rw [List.filterMap_cons_some hbuffer]
      dsimp only
      rw [walkedBuffers_cons hmem]
      refine ⟨hhands.then hfirst, fun w' hw' => ?_⟩
      obtain ⟨hcount, hwalks⟩ := hall w' hw'
      refine ⟨?_, hwalks.cons hmem hhands hflat⟩
      rw [hcount, hsub, List.length_cons]
      omega

/-! ## The fence stream -/

section FenceStream

variable {fence : UInt64} {i : Nat}

theorem packetLen_register : packetLen 0xc0012800 = some 3 := by decide

theorem packetLen_release : packetLen 0xc0064900 = some 8 := by decide

theorem fenceStream_length : (buildFenceStream fence).length = 27 := rfl

theorem fenceStream_size : (buildFenceStream fence).toArray.size = 27 := rfl

/-- Behind the event there is only padding. -/
theorem fenceStream_pad (h : 11 ≤ i) (hi : i < 27) :
    dwords (buildFenceStream fence).toArray i = pm4Nop := by
  have hget : (buildFenceStream fence)[i]? = some pm4Nop := by
    unfold buildFenceStream
    rw [List.getElem?_append_right h, List.getElem?_replicate]
    exact if_pos (show i - 11 < 16 by omega)
  unfold dwords
  rw [Array.getD_eq_getD_getElem?, List.getElem?_toArray, hget]
  rfl

/-- The headers of the fence stream. -/
theorem fenceStream_header (h : IsHeader (dwords (buildFenceStream fence).toArray)
    (buildFenceStream fence).toArray.size i) :
    i = 0 ∨ i = 3 ∨ 11 ≤ i ∧ i < 27 := by
  obtain ⟨hi, hheader⟩ := h
  rw [fenceStream_size] at hi
  rcases Nat.eq_zero_or_pos i with rfl | hpos
  · exact .inl rfl
  obtain ⟨k, hk, hheader⟩ := hheader.cases_lt hpos
  obtain rfl := Option.some.inj (packetLen_register.symm.trans hk)
  rcases Nat.eq_or_lt_of_le hheader.le with rfl | hlt
  · exact .inr (.inl rfl)
  obtain ⟨k, hk, hheader⟩ := hheader.cases_lt hlt
  obtain rfl := Option.some.inj (packetLen_release.symm.trans hk)
  exact .inr (.inr ⟨hheader.le, hi⟩)

/-- The packets that are no event write nothing. -/
theorem packetMark_register : packetMark (buildFenceStream fence).toArray 0 = some none := by
  have hop : ((0xc0012800 : UInt32) >>> 8) &&& 0xff = 0x28 := by decide
  have hheader : dwords (buildFenceStream fence).toArray 0 = 0xc0012800 := rfl
  unfold packetMark
  rw [hheader]
  dsimp only
  rw [hop]
  unfold markOf
  rw [if_neg (by decide), if_neg (by decide), if_neg (by decide), if_neg (by decide),
    if_neg (by decide)]

theorem packetMark_pad (h : 11 ≤ i) (hi : i < 27) :
    packetMark (buildFenceStream fence).toArray i = some none := by
  have hop : (pm4Nop >>> 8) &&& 0xff = 0x10 := by decide
  unfold packetMark
  rw [fenceStream_pad h hi]
  dsimp only
  rw [hop]
  unfold markOf
  rw [if_neg (by decide), if_neg (by decide), if_neg (by decide), if_neg (by decide),
    if_neg (by decide)]

theorem fence_address : addrOf (fence >>> 32).toUInt32 fence.toUInt32 = fence := by
  have hfence := fence.toNat_lt
  have hshift : UInt64.toNat 32 % 64 = 32 := rfl
  unfold addrOf
  refine UInt64.toNat_inj.mp ?_
  rw [UInt64.toNat_or, UInt64.toNat_shiftLeft, UInt32.toNat_toUInt64, UInt64.toNat_toUInt32,
    UInt64.toNat_shiftRight, UInt32.toNat_toUInt64, UInt64.toNat_toUInt32, hshift,
    Nat.shiftRight_eq_div_pow, Nat.shiftLeft_eq, Nat.mod_eq_of_lt (by omega),
    Nat.mod_eq_of_lt (by omega), Nat.mul_comm,
    ← Nat.two_pow_add_eq_or_of_lt (Nat.mod_lt _ (by decide))]
  omega

/-- The event writes the fired word at the fence. -/
theorem packetMark_release : packetMark (buildFenceStream fence).toArray 3 =
    some (some ⟨.R, 12, fence, fenceFired, 0xffffffff⟩) := by
  have hop : ((0xc0064900 : UInt32) >>> 8) &&& 0xff = 0x49 := by decide
  have hcnt : (((0xc0064900 : UInt32) >>> 16) &&& 0x3fff) + 1 = 7 := by decide
  have hheader : dwords (buildFenceStream fence).toArray 3 = 0xc0064900 := rfl
  have hpos : UInt32.ofNat 3 * 4 = 12 := by decide
  unfold packetMark
  rw [hheader]
  dsimp only
  rw [hop, hcnt, hpos]
  unfold markOf
  rw [if_pos (by decide)]
  have hsel : (buildFenceStream fence).toArray[3 + 1 + 1]? = some 0x20000000 := rfl
  have hlo : (buildFenceStream fence).toArray[3 + 1 + 2]? = some fence.toUInt32 := rfl
  have hhi : (buildFenceStream fence).toArray[3 + 1 + 3]? = some (fence >>> 32).toUInt32 := rfl
  have hword : (buildFenceStream fence).toArray[3 + 1 + 4]? = some fenceFired := rfl
  have hwrites : ((0x20000000 : UInt32) >>> 29) &&& 7 ≠ 0 := by decide
  simp only [hsel, hlo, hhi, hword, Option.bind_eq_bind, Option.bind_some, if_pos hwrites,
    fence_address]

/-- No packet of it is an INDIRECT_BUFFER. -/
theorem fenceStream_unchained (h : IsHeader (dwords (buildFenceStream fence).toArray)
    (buildFenceStream fence).toArray.size i) :
    isChain (dwords (buildFenceStream fence).toArray i) = false := by
  rcases fenceStream_header h with rfl | rfl | ⟨hpad, hi⟩
  · exact (by decide : isChain 0xc0012800 = false)
  · exact (by decide : isChain 0xc0064900 = false)
  · rw [fenceStream_pad hpad hi]
    decide

theorem firesOnce_fenceStream : FiresOnce fence (buildFenceStream fence).toArray where
  whole i h := by
    rcases fenceStream_header h with rfl | rfl | ⟨hpad, hi⟩
    · exact ⟨3, packetLen_register, (by decide : 0 + 3 ≤ 27)⟩
    · exact ⟨8, packetLen_release, (by decide : 3 + 8 ≤ 27)⟩
    · refine ⟨1, ?_, hi⟩
      rw [fenceStream_pad hpad hi]
      exact packetLen_nop
  unchained := by
    refine Nat.le_antisymm findChain_le (Nat.le_of_not_lt fun hlt => ?_)
    obtain ⟨hheader, hchain⟩ := (findChain_spec _ _).2.1 hlt
    unfold chainAt at hchain
    rw [fenceStream_unchained ⟨hlt, hheader⟩] at hchain
    cases hchain
  once := by
    refine ⟨3, 12, ⟨(by decide : 3 < 27), .next packetLen_register (.refl _)⟩,
      packetMark_release, fun j hj hne => ?_⟩
    rcases fenceStream_header hj with rfl | rfl | ⟨hpad, hi⟩
    · exact packetMark_register
    · exact absurd rfl hne
    · exact packetMark_pad hpad hi

end FenceStream

/-! ## The call -/

section Course

variable {arg : CsIn} {ret : Ret} {out : UInt64}

/-- A call made once the fence stream is submitted. -/
def Call.Closes (c : Call) : Prop := c.Awaits ∨ c.Publishes

theorem Call.Closes.aside {c : Call} (h : c.Closes) : c.Aside := by
  cases c <;> first | exact trivial | exact h.elim id id

theorem Call.SetsUp.aside {c : Call} (h : c.SetsUp) : c.Aside := by
  cases c <;> first | exact trivial | exact h.elim

/-- The fence stream, armed, stored and submitted. -/
def fenceCalls (st : Statics) (rc : Int32) : List (Prog.Event Call Answer) :=
  [⟨.armFence st.fence, ()⟩,
    ⟨.storeFenceStream st.fenceDcb (buildFenceStream st.fence), ()⟩,
    ⟨.submit .fence st.fenceStream, rc⟩]

/-- The courses of a call: it gives up before it walks the chunks, or before it submits the fence
    stream, or it submits that. -/
inductive Course (arg : CsIn) (st : Statics) : List (Prog.Event Call Answer) → Ret → Prop
  | early {tr : List (Prog.Event Call Answer)} {e : Errno} :
      (∀ ev ∈ tr, Call.Aside ev.1) → e ≠ .ETIMEDOUT → Course arg st tr (.err e)
  | stopped {tr₁ tr₂ tr₃ : List (Prog.Event Call Answer)} {o : Option Walked} {e : Errno} :
      (∀ ev ∈ tr₁, Call.Aside ev.1) →
      Prog.Trace (submitChunks ⟨0, none⟩ (arg.chunks.getD [])) tr₂ o →
      (∀ ev ∈ tr₃, Call.Aside ev.1) → e ≠ .ETIMEDOUT →
      Course arg st (tr₁ ++ tr₂ ++ tr₃) (.err e)
  | fenced {tr₁ tr₂ tr₃ : List (Prog.Event Call Answer)} {w : Walked} {rc : Int32} {ret : Ret} :
      (∀ ev ∈ tr₁, Call.Aside ev.1) →
      Prog.Trace (submitChunks ⟨0, none⟩ (arg.chunks.getD [])) tr₂ (some w) → w.submitted ≠ 0 →
      (∀ ev ∈ tr₃, Call.Closes ev.1) → (ret = .ok ∨ ret = .err .ETIMEDOUT → rc = 0) →
      Course arg st (tr₁ ++ tr₂ ++ (fenceCalls st rc ++ tr₃)) ret

/-- The end of a call, once the fence stream is submitted. -/
theorem trace_end {st₁ : Statics} {userFence : Option ChunkFence} {ctxId : UInt32}
    (h : Prog.Trace (awaitFence sym st₁ ctxId >>= fun r : Bool × Statics =>
      (if !r.1 then pure ((.err .ETIMEDOUT, 0), r.2)
      else do
        let st ← publish r.2 userFence
        pure ((.ok, st.sequence), st) : Submission ((Ret × UInt64) × Statics)))
      tr ((ret, out), st')) :
    (∀ ev ∈ tr, Call.Closes ev.1) ∧ st'.fence = st₁.fence ∧ st'.fenceDcb = st₁.fenceDcb := by
  refine and_comm.mp ?_
  have hmakes := h.makes (P := Call.Closes)
    (Q := fun r => r.2.fence = st₁.fence ∧ r.2.fenceDcb = st₁.fenceDcb) ?_
  · exact hmakes.symm
  refine ((makes_awaitFence ctxId).weaken fun _ => .inl).seq fun r hr => ?_
  obtain ⟨fired, st₂⟩ := r
  have hst₂ : st₂ = { st₁ with slowestUs := st₂.slowestUs } := hr
  rw [hst₂]
  cases fired with
  | false => exact ⟨rfl, rfl⟩
  | true =>
    refine ((makes_publish userFence).weaken fun _ => .inr).seq fun st₃ hst₃ => ?_
    rw [hst₃]
    exact ⟨rfl, rfl⟩

/-- Every call takes one of them. -/
theorem course_cs (h : Prog.Trace (cs sym arg st) tr ((ret, out), st')) :
    Course arg st' tr ret := by
  obtain ⟨tr₁, tr₂, ⟨ready, st₁⟩, rfl, hensure, hrest⟩ := Prog.trace_bind.mp h
  have haside : ∀ ev ∈ tr₁, Call.Aside ev.1 := fun ev hev =>
    ((hensure.makes makes_ensureQueue).1 ev hev).aside
  have hearly : ∀ (e : Errno) (st : Statics), e ≠ .ETIMEDOUT →
      Prog.Trace (pure ((.err e, 0), st) : Submission ((Ret × UInt64) × Statics)) tr₂
        ((ret, out), st') → Course arg st' (tr₁ ++ tr₂) ret := by
    intro e st he hret
    obtain ⟨rfl, heq⟩ := Prog.trace_ret.mp hret
    cases heq
    rw [List.append_nil]
    exact .early haside he
  cases ready with
  | false => exact hearly .ENODEV st₁ nofun hrest
  | true =>
    dsimp only at hrest
    rw [if_neg (by decide)] at hrest
    split at hrest
    · exact hearly .EINVAL st₁ nofun hrest
    · exact hearly .EINVAL st₁ nofun hrest
    · next chunks _ hchunks =>
      have hget : arg.chunks.getD [] = chunks := by rw [hchunks]; rfl
      obtain ⟨_, tr₃, rfl, hcleared⟩ := Prog.trace_call.mp hrest
      obtain ⟨_, tr₄, rfl, hflushed⟩ := Prog.trace_call.mp hcleared
      have hwalk : Prog.Trace (submitChunks ⟨0, none⟩ chunks >>= _) tr₄ ((ret, out), st') :=
        hflushed
      obtain ⟨tr₅, tr₆, o, rfl, hwalked, hend⟩ := Prog.trace_bind.mp hwalk
      rw [← hget] at hwalked
      have hstart : ∀ ev ∈ tr₁ ++ [⟨.clearMarks, ()⟩, ⟨.flushCpuWrites, ()⟩],
          Call.Aside (Sigma.fst ev) :=
        List.forall_mem_append.mpr ⟨haside, List.forall_mem_cons.mpr
          ⟨trivial, List.forall_mem_singleton.mpr trivial⟩⟩
      have hstopped : ∀ (e : Errno) (tr₇ : List (Prog.Event Call Answer)), e ≠ .ETIMEDOUT →
          ret = .err e → tr₆ = tr₇ → (∀ ev ∈ tr₇, Call.Aside ev.1) →
          Course arg st' (tr₁ ++ (⟨.clearMarks, ()⟩ :: ⟨.flushCpuWrites, ()⟩ :: (tr₅ ++ tr₆)))
            ret := by
        rintro e tr₇ he rfl rfl htr
        have hcourse : Course arg st' _ (.err e) := .stopped hstart hwalked htr he
        rw [List.append_assoc, List.append_assoc] at hcourse
        exact hcourse
      cases o with
      | none =>
        obtain ⟨rfl, heq⟩ := Prog.trace_ret.mp hend
        cases heq
        exact hstopped Errno.EIO [] nofun rfl rfl nofun
      | some w =>
        dsimp only at hend
        split at hend
        · obtain ⟨_, tr₇, rfl, hlogged⟩ := Prog.trace_call.mp hend
          obtain ⟨rfl, heq⟩ := Prog.trace_ret.mp hlogged
          cases heq
          exact hstopped .EINVAL _ nofun rfl rfl (List.forall_mem_singleton.mpr trivial)
        · next hsub =>
          obtain ⟨_, tr₇, rfl, harmed⟩ := Prog.trace_call.mp hend
          obtain ⟨_, tr₈, rfl, hstored⟩ := Prog.trace_call.mp harmed
          obtain ⟨(rc : Int32), tr₉, rfl, hanswered⟩ := Prog.trace_call.mp hstored
          have hfenced : (∀ ev ∈ tr₉, Call.Closes ev.1) → st'.fence = st₁.fence →
              st'.fenceDcb = st₁.fenceDcb → (ret = .ok ∨ ret = .err .ETIMEDOUT → rc = 0) →
              Course arg st' (tr₁ ++ (⟨.clearMarks, ()⟩ :: ⟨.flushCpuWrites, ()⟩ :: (tr₅ ++
                (⟨.armFence st₁.fence, ()⟩ :: ⟨.storeFenceStream st₁.fenceDcb
                  (buildFenceStream st₁.fence), ()⟩ :: ⟨.submit .fence ⟨st₁.fenceDcb,
                    (buildFenceStream st₁.fence).length * 4 / 4⟩, rc⟩ :: tr₉)))) ret := by
            intro hcloses hfence hdcb hrc
            have hcourse : Course arg st' _ ret := .fenced hstart hwalked hsub hcloses hrc
            have hsize : (⟨st₁.fenceDcb, (buildFenceStream st₁.fence).length * 4 / 4⟩ : Dcb) =
                st'.fenceStream := by
              unfold Statics.fenceStream
              rw [hdcb, fenceStream_length]
            rw [List.append_assoc, List.append_assoc] at hcourse
            rw [hsize, ← hfence, ← hdcb]
            exact hcourse
          have hrefused : Prog.Trace (ite (rc ≠ 0) _ _) tr₉ ((ret, out), st') := hanswered
          split at hrefused
          · obtain ⟨_, tr₁₀, rfl, hlogged⟩ := Prog.trace_call.mp hrefused
            obtain ⟨rfl, heq⟩ := Prog.trace_ret.mp hlogged
            cases heq
            exact hfenced (List.forall_mem_singleton.mpr (.inl trivial)) rfl rfl nofun
          · next hrc =>
            obtain ⟨hcloses, hfence, hdcb⟩ := trace_end hrefused
            exact hfenced hcloses hfence hdcb fun _ => Decidable.of_not_not hrc

/-! ## The whole -/

theorem codes_fenceCalls (st : Statics) (rc : Int32) : codes (fenceCalls st rc) = [rc] := rfl

theorem hands_fenceCalls (st : Statics) (rc : Int32) :
    Hands [st.fenceStream] (fenceCalls st rc) := by
  refine ⟨List.prefix_rfl, ?_⟩
  rw [codes_fenceCalls]
  exact fun _ hrc => absurd hrc List.not_mem_nil

theorem handsAll_fenceCalls (st : Statics) : HandsAll [st.fenceStream] (fenceCalls st 0) := by
  refine ⟨rfl, ?_⟩
  rw [codes_fenceCalls]
  exact List.forall_mem_singleton.mpr rfl

/-- **A submission is handed over in order.** Whatever the arguments and the answers. -/
theorem submission_in_order (h : Prog.Trace (cs sym arg st) tr ((ret, out), st')) :
    HandedInOrder arg st' tr ret := by
  cases course_cs h with
  | early haside hne =>
    have hsame := sameStreams_before haside []
    rw [List.append_nil] at hsame
    have hnone := hands_nil.same hsame
    refine ⟨(hnone.more _).ordered, hnone.stops, ?_⟩
    rintro (hok | hout)
    · cases hok
    · cases hout
      exact absurd rfl hne
  | @stopped tr₁ tr₂ tr₃ o e h₁ hwalked h₃ hne =>
    obtain ⟨hfirst, -⟩ := trace_submitChunks hwalked
    have hsame := sameStreams_around h₁ h₃ tr₂
    have hhands := (hfirst.more [st'.fenceStream]).same hsame
    rw [← hsame.walkedBuffers] at hhands
    refine ⟨hhands.ordered, hhands.stops, ?_⟩
    rintro (hok | hout)
    · cases hok
    · cases hout
      exact absurd rfl hne
  | @fenced tr₁ tr₂ tr₃ w rc _ h₁ hwalked hsub h₃ hrc =>
    obtain ⟨hcount, hwalks⟩ := (trace_submitChunks hwalked).2 w rfl
    replace hcount : w.submitted = 0 + arg.buffers.length := hcount
    replace hwalks : WalksAll arg.buffers tr₂ := hwalks
    have hsame : SameStreams (tr₂ ++ fenceCalls st' rc)
        (tr₁ ++ tr₂ ++ (fenceCalls st' rc ++ tr₃)) := by
      have haround := sameStreams_around h₁ (fun ev hev => (h₃ ev hev).aside)
        (tr₂ ++ fenceCalls st' rc)
      rwa [List.append_assoc, List.append_assoc, ← List.append_assoc] at haround
    have hbuffers : walkedBuffers arg.buffers (tr₁ ++ tr₂ ++ (fenceCalls st' rc ++ tr₃)) =
        walkedBuffers arg.buffers tr₂ := by
      rw [hsame.walkedBuffers]
      unfold walkedBuffers
      rw [memories_append]
      exact congrArg (List.zipWith Buffer.mk · arg.buffers) (List.append_nil _)
    have hhands := (hwalks.hands.then (hands_fenceCalls st' rc)).same hsame
    refine ⟨?_, hhands.stops, fun hret => ?_⟩
    · rw [hbuffers]
      exact hhands.ordered
    · obtain rfl := hrc hret
      have hall := (hwalks.hands.append (handsAll_fenceCalls st')).same hsame
      refine ⟨?_, ?_, ?_, hall.accepted, ?_, ?_⟩
      · intro hnil
        rw [hnil] at hcount
        exact hsub hcount
      · rw [hsame.memories, memories_append]
        exact (congrArg List.length (List.append_nil _)).trans hwalks.each
      · rw [hbuffers]
        exact hall.all
      · rw [hbuffers, inTurn_flatMap_iff fun b hb => (hwalks.flattens b hb).short]
        exact forall₂_congr fun b hb => (hwalks.flattens b hb).exact
      · refine ⟨tr₁ ++ tr₂, tr₃, buildFenceStream st'.fence, rfl, fun ev hev => ?_,
          firesOnce_fenceStream, rfl⟩
        have hcloses := h₃ ev hev
        obtain ⟨c, x⟩ := ev
        intro fence dcb dw
        constructor <;> rintro rfl <;> exact hcloses.elim id id

end Course

/-- A chain of two links in the buffer at 0x1000, and a fence that has fired when it is read. -/
def firedAtOnce : (e : Call) → Answer e
  | .readMemory => twoLinks
  | .readFence _ => fenceFired
  | e => accepting e

/-- The buffer, and a chunk that is not looked at. -/
def chainedBuffer : CsIn := ⟨1, some [some .boHandles, some (.ib (some ⟨0x1000, 20⟩))]⟩

/-- Both links are handed over, and then the fence's stream. -/
theorem submission_in_order_chained :
    ∃ tr, Complete chainedBuffer ⟨1, 1, 1, 1, 0⟩ tr ∧
      handed tr = [⟨0x1000, 1⟩, ⟨0x2000, 1⟩, ⟨1, 27⟩] := by
  have hrun : (Prog.runWith firedAtOnce (cs .all chainedBuffer .init)).2 =
      ((.ok, 1), ⟨1, 1, 1, 1, 0⟩) := by
    decide +kernel
  have htr := Prog.trace_runWith firedAtOnce (cs .all chainedBuffer .init)
  rw [hrun] at htr
  refine ⟨_, (submission_in_order htr).complete (.inl rfl), ?_⟩
  decide +kernel

end OopsMesa.Submit
