/-
  Progress marks: log.c's own walk over a PM4 stream.

  At trace level `oops_winsys_note_marks` walks an instruction buffer for the packets that write
  or poll memory, and notes their addresses; a destination that reads 0 until it is written is
  poisoned first. It steps a dword over everything that is not type 3, and over a type-3 header
  by its count. The stream is a value: what is poisoned is not in it.

  So it takes radeonsi's one-dword NOP for a packet of 0x4001 dwords, and the payload of a type-0
  packet for headers: its headers are those of the walk of submit.c in the streams that have
  neither, but for a NOP as the last dword (`noteMarks_agrees_iff`).
-/
import OopsMesa.Submit.Search
import OopsMesa.Winsys.Buffers

namespace OopsMesa.Submit

open OopsMesa.Lib OopsMesa.Winsys

/-! ## The walk of log.c -/

/-- What a mark is of: `R` release, `W` write, `S` filled size, `E` event sample, `P` polled. -/
inductive MarkKind where
  | R | W | S | E | P
  deriving DecidableEq, Repr

/-- The arguments of a `mark_add`; `pos` is its `at`. -/
structure MarkArg where
  kind : MarkKind
  pos : UInt32
  va : UInt64
  ref : UInt32
  mask : UInt32
  deriving DecidableEq, Repr

/-- An address in two dwords. -/
def addrOf (hi lo : UInt32) : UInt64 := hi.toUInt64 <<< 32 ||| lo.toUInt64

/-- The `mark_add` a complete type-3 packet asks for; `b k` is its payload dword `k`, nothing
    outside the stream. -/
def markOf (b : Nat → Option UInt32) (pos op cnt : UInt32) : Option (Option MarkArg) :=
  if op = 0x49 ∧ cnt ≥ 5 then do -- RELEASE_MEM
    if ((← b 1) >>> 29) &&& 7 ≠ 0 then
      some (some ⟨.R, pos, addrOf (← b 3) (← b 2), ← b 4, 0xffffffff⟩)
    else some none
  else if op = 0x37 ∧ cnt ≥ 3 then do -- WRITE_DATA
    let sel := ((← b 0) >>> 8) &&& 0xf
    let data := if cnt > 3 then b 3 else some 0
    if sel = 2 ∨ sel = 5 then
      some (some ⟨.W, pos, addrOf (← b 2) (← b 1), ← data, 0xffffffff⟩)
    else some none
  else if op = 0x34 ∧ cnt ≥ 3 then do -- STRMOUT_BUFFER_UPDATE
    if (← b 0) &&& 1 ≠ 0 then
      some (some ⟨.S, pos, addrOf (← b 2) (← b 1), 0, 0xffffffff⟩)
    else some none
  else if op = 0x46 ∧ cnt ≥ 3 then do -- EVENT_WRITE with a sample address
    some (some ⟨.E, pos, addrOf (← b 2) ((← b 1) &&& ~~~7), ← b 0, 0xffffffff⟩)
  else if op = 0x3c ∧ cnt ≥ 5 then do -- WAIT_REG_MEM
    if (← b 0) &&& 0x30 = 0x10 then
      some (some ⟨.P, pos, addrOf (← b 2) (← b 1), ← b 3, ← b 4⟩)
    else some none
  else some none

/-- The loop of `oops_winsys_note_marks`: where it is, and the calls of `mark_add` made. -/
structure Noting where
  i : UInt32
  marks : List MarkArg

/-- A round of `oops_winsys_note_marks` over the `n` dwords at `va`. -/
def noteMarksBody (dw : Array UInt32) (n : UInt32) (s : Noting) :
    Option (Noting ⊕ List MarkArg) :=
  if s.i < n then do
    let h ← dw[s.i.toNat]?
    if h >>> 30 ≠ 3 then some (.inl { s with i := s.i + 1 })
    else
      let op := (h >>> 8) &&& 0xff
      let cnt := ((h >>> 16) &&& 0x3fff) + 1
      if s.i + 1 + cnt > n then some (.inr s.marks)
      else
        let m ← markOf (fun k => dw[(s.i + 1).toNat + k]?) (s.i * 4) op cnt
        some (.inl ⟨s.i + 1 + cnt, s.marks ++ m.toList⟩)
  else some (.inr s.marks)

/-- The mark that the type-3 packet at dword `q` asks for. -/
def packetMark (dw : Array UInt32) (q : Nat) : Option (Option MarkArg) :=
  let h := dwords dw q
  markOf (fun k => dw[q + 1 + k]?) (UInt32.ofNat q * 4) ((h >>> 8) &&& 0xff)
    (((h >>> 16) &&& 0x3fff) + 1)

/-- `OOPS_MARKS_MAX` -/
def marksMax : Nat := 48

/-- `struct oops_mark` -/
structure OopsMark where
  va : UInt64
  cpu : UInt64
  before : UInt32
  ref : UInt32
  mask : UInt32
  pos : UInt16
  kind : MarkKind
  ib : UInt8
  deriving DecidableEq, Repr

/-- Dword `i` is one that the walk of log.c takes for a header. -/
def NotedHeader (dw : Array UInt32) (i : Nat) : Prop :=
  i < dw.size ∧ ∃ t, Visits (noteMarksBody dw (dwordCount dw)) ⟨0, []⟩ t ∧ t.i.toNat = i

/-- Dword `i` is one that the search for a chain packet takes for a header. -/
def SearchedHeader (dw : Array UInt32) (i : Nat) : Prop :=
  i < dw.size ∧ ∃ t, Visits (findChainBody dw (dwordCount dw)) 0 t ∧ t.toNat = i

/-- No packet before dword `i` is cut off by the end, or has a type-1 header. -/
def WholeBefore (dw : Array UInt32) (i : Nat) : Prop :=
  ∀ q < i, IsHeader (dwords dw) dw.size q →
    ∃ l, packetLen (dwords dw q) = some l ∧ q + l ≤ dw.size

/-- How far the walk of log.c steps. -/
def noteLen (header : UInt32) : Option Nat :=
  if header >>> 30 ≠ 3 then some 1 else some (((header >>> 16) &&& 0x3fff).toNat + 2)

theorem noteLen_advances : Advances noteLen := by
  intro header k h
  unfold noteLen at h
  split at h <;> simp only [Option.some.injEq] at h <;> omega

section Note

variable {dw : Array UInt32} {i j q : Nat} {s : Noting}

/-- A packet whose payload is inside the stream can be read. -/
theorem markOf_some {b : Nat → Option UInt32} {pos op cnt : UInt32}
    (hb : ∀ k < cnt.toNat, ∃ x, b k = some x) : ∃ m, markOf b pos op cnt = some m := by
  have hread : ∀ c : UInt32, cnt ≥ c → ∀ k < c.toNat, ∃ x, b k = some x := by
    intro c hc k hk
    rw [ge_iff_le, UInt32.le_iff_toNat_le] at hc
    exact hb _ (by omega)
  have hread₃ : cnt ≥ 3 → ∃ x₀ x₁ x₂, b 0 = some x₀ ∧ b 1 = some x₁ ∧ b 2 = some x₂ := by
    intro hc
    obtain ⟨x₀, h₀⟩ := hread 3 hc 0 (by decide)
    obtain ⟨x₁, h₁⟩ := hread 3 hc 1 (by decide)
    obtain ⟨x₂, h₂⟩ := hread 3 hc 2 (by decide)
    exact ⟨x₀, x₁, x₂, h₀, h₁, h₂⟩
  have hread₅ : cnt ≥ 5 → ∃ x₃ x₄, b 3 = some x₃ ∧ b 4 = some x₄ := by
    intro hc
    obtain ⟨x₃, h₃⟩ := hread 5 hc 3 (by decide)
    obtain ⟨x₄, h₄⟩ := hread 5 hc 4 (by decide)
    exact ⟨x₃, x₄, h₃, h₄⟩
  have hle : cnt ≥ 5 → cnt ≥ 3 := fun hc => UInt32.le_trans (by decide) hc
  unfold markOf
  by_cases h49 : op = 0x49 ∧ cnt ≥ 5
  · obtain ⟨x₀, x₁, x₂, -, h₁, h₂⟩ := hread₃ (hle h49.2)
    obtain ⟨x₃, x₄, h₃, h₄⟩ := hread₅ h49.2
    simp only [if_pos h49, h₁, h₂, h₃, h₄, Option.bind_eq_bind, Option.bind_some]
    split <;> exact ⟨_, rfl⟩
  rw [if_neg h49]
  by_cases h37 : op = 0x37 ∧ cnt ≥ 3
  · obtain ⟨x₀, x₁, x₂, h₀, h₁, h₂⟩ := hread₃ h37.2
    have hdata : ∃ x, (if cnt > 3 then b 3 else some 0) = some x := by
      split
      · next hgt => exact hb 3 (UInt32.lt_iff_toNat_lt.mp hgt)
      · exact ⟨0, rfl⟩
    obtain ⟨x, hx⟩ := hdata
    simp only [if_pos h37, h₀, h₁, h₂, hx, Option.bind_eq_bind, Option.bind_some]
    split <;> exact ⟨_, rfl⟩
  rw [if_neg h37]
  by_cases h34 : op = 0x34 ∧ cnt ≥ 3
  · obtain ⟨x₀, x₁, x₂, h₀, h₁, h₂⟩ := hread₃ h34.2
    simp only [if_pos h34, h₀, h₁, h₂, Option.bind_eq_bind, Option.bind_some]
    split <;> exact ⟨_, rfl⟩
  rw [if_neg h34]
  by_cases h46 : op = 0x46 ∧ cnt ≥ 3
  · obtain ⟨x₀, x₁, x₂, h₀, h₁, h₂⟩ := hread₃ h46.2
    simp only [if_pos h46, h₀, h₁, h₂, Option.bind_eq_bind, Option.bind_some]
    exact ⟨_, rfl⟩
  rw [if_neg h46]
  by_cases h3c : op = 0x3c ∧ cnt ≥ 5
  · obtain ⟨x₀, x₁, x₂, h₀, h₁, h₂⟩ := hread₃ (hle h3c.2)
    obtain ⟨x₃, x₄, h₃, h₄⟩ := hread₅ h3c.2
    simp only [if_pos h3c, h₀, h₁, h₂, h₃, h₄, Option.bind_eq_bind, Option.bind_some]
    split <;> exact ⟨_, rfl⟩
  rw [if_neg h3c]
  exact ⟨_, rfl⟩

/-- A round inside the stream: over anything but type 3 by a dword, over a packet by its count,
    and at a packet cut off by the end it is the last. -/
theorem noteMarksBody_cases (hn : dw.size ≤ 2 ^ 30) (hi : s.i.toNat < dw.size) :
    ∃ l, noteLen (dwords dw s.i.toNat) = some l ∧
      (s.i.toNat + l ≤ dw.size →
        ∃ t : Noting, noteMarksBody dw (dwordCount dw) s = some (.inl t) ∧
          t.i.toNat = s.i.toNat + l) ∧
      (dw.size < s.i.toNat + l → ∃ ms, noteMarksBody dw (dwordCount dw) s = some (.inr ms)) := by
  have hlt : s.i < dwordCount dw := by
    rw [UInt32.lt_iff_toNat_lt, dwordCount_toNat hn]
    exact hi
  unfold noteMarksBody
  rw [if_pos hlt, dwords_eq hi]
  generalize dwords dw s.i.toNat = h
  dsimp only [Option.bind_eq_bind, Option.bind_some]
  have hc := count_lt h
  generalize hcnt : (h >>> 16) &&& 0x3fff = count at hc ⊢
  have h1 : (s.i + 1).toNat = s.i.toNat + 1 := succ_toNat (by omega)
  have hcount : (s.i + 1 + (count + 1)).toNat = s.i.toNat + (count.toNat + 2) := by
    rw [UInt32.toNat_add, h1, UInt32.toNat_add]
    simp only [UInt32.toNat_ofNat]
    omega
  rw [noteLen, hcnt]
  by_cases h3 : h >>> 30 ≠ 3
  · rw [if_pos h3, if_pos h3]
    exact ⟨1, rfl, fun _ => ⟨_, rfl, h1⟩, fun hgt => by omega⟩
  · rw [if_neg h3, if_neg h3]
    refine ⟨count.toNat + 2, rfl, fun hle => ?_, fun hgt => ?_⟩
    · have hno : ¬ s.i + 1 + (count + 1) > dwordCount dw := by
        rw [gt_iff_lt, UInt32.lt_iff_toNat_lt, hcount, dwordCount_toNat hn]
        omega
      have hcnt1 : (count + 1).toNat = count.toNat + 1 := succ_toNat (by omega)
      obtain ⟨m, hm⟩ := @markOf_some (fun k => dw[(s.i + 1).toNat + k]?) (s.i * 4)
        ((h >>> 8) &&& 0xff) (count + 1) (fun k hk => ⟨_, dwords_eq (by omega)⟩)
      rw [if_neg hno, hm]
      exact ⟨_, rfl, hcount⟩
    · have hyes : s.i + 1 + (count + 1) > dwordCount dw := by
        rw [gt_iff_lt, UInt32.lt_iff_toNat_lt, hcount, dwordCount_toNat hn]
        omega
      rw [if_pos hyes]
      exact ⟨_, rfl⟩

theorem noteMarksBody_end (hn : dw.size ≤ 2 ^ 30) (hi : dw.size ≤ s.i.toNat) :
    noteMarksBody dw (dwordCount dw) s = some (.inr s.marks) := by
  have hge : ¬ s.i < dwordCount dw := by
    rw [UInt32.lt_iff_toNat_lt, dwordCount_toNat hn]
    omega
  rw [noteMarksBody, if_neg hge]

/-- What the walk of log.c takes for headers. -/
theorem notedHeader_iff (hn : dw.size ≤ 2 ^ 30) (hi : i < dw.size) :
    NotedHeader dw i ↔ HeaderFrom noteLen (dwords dw) 0 i := by
  refine Iff.trans (and_iff_right hi) (visits_iff (a := (⟨0, []⟩ : Noting)) (n := dw.size) ?_ ?_ ?_ hi)
  · intro t t' ht hb
    obtain ⟨l, hl, hgo, hstop⟩ := noteMarksBody_cases hn ht
    refine ⟨l, hl, ?_⟩
    rcases Nat.lt_or_ge dw.size (t.i.toNat + l) with hgt | hle
    · obtain ⟨ms, hms⟩ := hstop hgt
      exact nomatch hms.symm.trans hb
    · obtain ⟨t'', ht'', hpos⟩ := hgo hle
      obtain rfl := Sum.inl.inj (Option.some.inj (ht''.symm.trans hb))
      exact hpos
  · intro t t' ht hb
    exact nomatch (noteMarksBody_end hn ht).symm.trans hb
  · intro t l _ hl hlt
    obtain ⟨l', hl', hgo, -⟩ := noteMarksBody_cases (s := t) hn (by omega)
    obtain rfl := Option.some.inj (hl.symm.trans hl')
    obtain ⟨t', ht', -⟩ := hgo (by omega)
    exact ⟨t', ht'⟩

/-- What the search takes for headers, where it finds no chain packet. -/
theorem searchedHeader_iff (hn : dw.size ≤ 2 ^ 30)
    (hno : findChain (dwords dw) dw.size = dw.size) (hi : i < dw.size) :
    SearchedHeader dw i ↔ HeaderFrom packetLen (dwords dw) 0 i := by
  refine Iff.trans (and_iff_right hi) (visits_iff (a := (0 : UInt32)) (n := dw.size) ?_ ?_ ?_ hi)
  · intro t t' ht hb
    rw [findChainBody_eq hn ht] at hb
    split at hb
    · exact nomatch hb
    · cases hl : packetLen (dwords dw t.toNat) with
      | none =>
        rw [hl] at hb
        exact nomatch hb
      | some l =>
        rw [hl, Option.elim_some] at hb
        obtain rfl := Sum.inl.inj (Option.some.inj hb)
        exact ⟨l, rfl, step_toNat hn ht hl⟩
  · intro t t' ht hb
    exact nomatch (findChainBody_end hn ht).symm.trans hb
  · intro t l ht hl hlt
    have hhead : IsHeader (dwords dw) dw.size t.toNat := ⟨by omega, ht⟩
    have hchain := chainAt_of_no_chain hno hhead
    rw [findChainBody_eq hn (by omega), hchain, if_neg Bool.false_ne_true, hl]
    exact ⟨_, rfl⟩

/-! ## Where the two walks agree -/

theorem type_cases (h : UInt32) : h >>> 30 = 0 ∨ h >>> 30 = 1 ∨ h >>> 30 = 2 ∨ h >>> 30 = 3 := by
  have hlt := h.toNat_lt
  simp only [← UInt32.toNat_inj, UInt32.toNat_shiftRight, UInt32.toNat_ofNat,
    Nat.shiftRight_eq_div_pow, Nat.reduceMod, Nat.reducePow]
  omega

/-- The two step alike but over the NOP, type 0 and type 1. -/
theorem noteLen_eq {h : UInt32} (hnop : h ≠ pm4Nop) (h0 : h >>> 30 ≠ 0) (h1 : h >>> 30 ≠ 1) :
    noteLen h = packetLen h := by
  rw [noteLen, packetLen, if_neg hnop]
  obtain ht | ht | ht | ht := type_cases h
  · exact absurd ht h0
  · exact absurd ht h1
  · rw [ht]
    rfl
  · rw [ht]
    rfl

theorem noteLen_nop : noteLen pm4Nop = some 0x4001 := by decide

theorem noteLen_one {h : UInt32} (ht : h >>> 30 ≠ 3) : noteLen h = some 1 := by
  rw [noteLen, if_pos ht]

theorem packetLen_nop : packetLen pm4Nop = some 1 := by decide

theorem packetLen_type0 {h : UInt32} (ht : h >>> 30 = 0) : ∃ l, packetLen h = some l ∧ 1 < l := by
  have hnop : h ≠ pm4Nop := by
    rintro rfl
    exact absurd ht (by decide)
  rw [packetLen, if_neg hnop, ht]
  exact ⟨_, rfl, by omega⟩

theorem packetLen_type1 {h : UInt32} (ht : h >>> 30 = 1) : packetLen h = none := by
  have hnop : h ≠ pm4Nop := by
    rintro rfl
    exact absurd ht (by decide)
  rw [packetLen, if_neg hnop, ht]
  rfl

/-- The packets before a header are whole. -/
theorem wholeBefore_of_header (hq : IsHeader (dwords dw) dw.size q) : WholeBefore dw q := by
  intro p hpq hp
  obtain ⟨l, hl, h⟩ := (hp.2.linear packetLen_advances hq.2 (by omega)).cases_lt hpq
  have hle := h.le
  have hlt := hq.1
  exact ⟨l, hl, by omega⟩

theorem WholeBefore.succ (h : WholeBefore dw q) {l : Nat}
    (hl : packetLen (dwords dw q) = some l) (hle : q + l ≤ dw.size) : WholeBefore dw (q + 1) := by
  intro p hpq hp
  rcases Nat.lt_succ_iff_lt_or_eq.mp hpq with hlt | rfl
  · exact h p hlt hp
  · exact ⟨l, hl, hle⟩

/-- Past a NOP the search goes on and the marks do not. -/
theorem parts_at_nop (hq : IsHeader (dwords dw) dw.size q) (hn : dw.size ≤ 2 ^ 30)
    (hnoted : NotedHeader dw q) (hnop : dwords dw q = pm4Nop) (hlt : q + 1 < dw.size) :
    IsHeader (dwords dw) dw.size (q + 1) ∧ ¬ NotedHeader dw (q + 1) := by
  have hnoted' := (notedHeader_iff hn hq.1).mp hnoted
  obtain ⟨hin, hout⟩ := hq.2.parts noteLen_advances hnoted' (l := 1)
    (by rw [hnop, packetLen_nop]) (by decide) (by
      intro l' hl'
      rw [hnop, noteLen_nop, Option.some.injEq] at hl'
      omega)
  exact ⟨⟨hlt, hin⟩, fun h => hout ((notedHeader_iff hn hlt).mp h)⟩

/-- Within a packet of type 0, and past a header of type 1, the marks go on and the search does
    not. -/
theorem parts_at_payload (hq : IsHeader (dwords dw) dw.size q) (hn : dw.size ≤ 2 ^ 30)
    (hnoted : NotedHeader dw q) (ht : dwords dw q >>> 30 = 0 ∨ dwords dw q >>> 30 = 1)
    (hlt : q + 1 < dw.size) :
    NotedHeader dw (q + 1) ∧ ¬ IsHeader (dwords dw) dw.size (q + 1) := by
  have hnoted' := (notedHeader_iff hn hq.1).mp hnoted
  have h3 : dwords dw q >>> 30 ≠ 3 := by
    rcases ht with ht | ht <;> rw [ht] <;> decide
  obtain ⟨hin, hout⟩ := hnoted'.parts packetLen_advances hq.2 (noteLen_one h3) (by decide) (by
    intro l' hl'
    rcases ht with ht | ht
    · obtain ⟨l, hl, hl1⟩ := packetLen_type0 ht
      obtain rfl := Option.some.inj (hl.symm.trans hl')
      exact hl1
    · exact nomatch (packetLen_type1 ht).symm.trans hl')
  exact ⟨(notedHeader_iff hn hlt).mpr hin, fun h => hout h.2⟩

/-- The walks come to the same headers while they step alike. -/
theorem notedHeader_iff_isHeader (hn : dw.size ≤ 2 ^ 30)
    (hs : i < dw.size → ∀ q < i, IsHeader (dwords dw) dw.size q →
      packetLen (dwords dw q) = noteLen (dwords dw q)) :
    NotedHeader dw i ↔ IsHeader (dwords dw) dw.size i := by
  rcases Nat.lt_or_ge i dw.size with hi | hi
  · rw [notedHeader_iff hn hi, IsHeader, and_iff_right hi]
    exact (HeaderFrom.agree fun q hq hqi => hs hi q hqi ⟨by omega, hq⟩).symm
  · exact ⟨fun h => absurd h.1 (by omega), fun h => absurd h.1 (by omega)⟩

/-- Up to the first packet that is not whole, the two agree exactly where no whole packet is of
    type 0 and no NOP stands before the last dword. -/
theorem agree_whole_iff (hn : dw.size ≤ 2 ^ 30) :
    (∀ i, WholeBefore dw i → (NotedHeader dw i ↔ IsHeader (dwords dw) dw.size i)) ↔
      ∀ q, IsHeader (dwords dw) dw.size q →
        (dwords dw q = pm4Nop → q + 1 = dw.size) ∧
        (dwords dw q >>> 30 = 0 → ∀ l, packetLen (dwords dw q) = some l → dw.size < q + l) := by
  constructor
  · intro hag q hq
    have hwhole := wholeBefore_of_header hq
    have hnoted := (hag q hwhole).mpr hq
    refine ⟨fun hnop => ?_, fun ht l hl => ?_⟩
    · have hlt := hq.1
      by_contra hne
      obtain ⟨hin, hout⟩ := parts_at_nop hq hn hnoted hnop (by omega)
      have hwhole' := hwhole.succ (by rw [hnop, packetLen_nop]) (Nat.le_of_lt hin.1)
      exact hout ((hag _ hwhole').mpr hin)
    · obtain ⟨l', hl', hl1⟩ := packetLen_type0 ht
      obtain rfl := Option.some.inj (hl.symm.trans hl')
      apply Nat.lt_of_not_le
      intro hle
      obtain ⟨hin, hout⟩ := parts_at_payload hq hn hnoted (.inl ht) (by omega)
      exact hout ((hag _ (hwhole.succ hl hle)).mp hin)
  · intro hcond i hwhole
    refine notedHeader_iff_isHeader hn fun hi q hqi hq => (noteLen_eq ?_ ?_ ?_).symm
    · intro hnop
      have h := (hcond q hq).1 hnop
      omega
    · intro ht
      obtain ⟨l, hl, hle⟩ := hwhole q hqi hq
      have h := (hcond q hq).2 ht l hl
      omega
    · intro ht
      obtain ⟨l, hl, -⟩ := hwhole q hqi hq
      exact nomatch (packetLen_type1 ht).symm.trans hl

/-- They agree to the end exactly where nothing but the last dword is a NOP, of type 0 or of
    type 1. -/
theorem agree_all_iff (hn : dw.size ≤ 2 ^ 30) :
    (∀ i, NotedHeader dw i ↔ IsHeader (dwords dw) dw.size i) ↔
      ∀ q, IsHeader (dwords dw) dw.size q →
        dwords dw q = pm4Nop ∨ dwords dw q >>> 30 = 0 ∨ dwords dw q >>> 30 = 1 →
        q + 1 = dw.size := by
  constructor
  · intro hag q hq ht
    have hlt := hq.1
    by_contra hne
    rcases ht with hnop | ht
    · obtain ⟨hin, hout⟩ := parts_at_nop hq hn ((hag q).mpr hq) hnop (by omega)
      exact hout ((hag _).mpr hin)
    · obtain ⟨hin, hout⟩ := parts_at_payload hq hn ((hag q).mpr hq) ht (by omega)
      exact hout ((hag _).mp hin)
  · intro hcond i
    refine notedHeader_iff_isHeader hn fun hi q hqi hq => (noteLen_eq ?_ ?_ ?_).symm
    · intro hnop
      have h := hcond q hq (.inl hnop)
      omega
    · intro ht
      have h := hcond q hq (.inr (.inl ht))
      omega
    · intro ht
      have h := hcond q hq (.inr (.inr ht))
      omega

/-- The headers are those that the search comes to which returns the length. -/
theorem searchedHeader_iff_isHeader (hn : dw.size ≤ 2 ^ 30)
    (hret : Returns (findChainBody dw (dwordCount dw)) 0 (dwordCount dw)) :
    SearchedHeader dw i ↔ IsHeader (dwords dw) dw.size i := by
  obtain ⟨r, hr, hrn⟩ := findChainBody_returns hn dw.size 0 (by omega)
  obtain rfl := hr.unique hret
  have hno : findChain (dwords dw) dw.size = dw.size := hrn.symm.trans (dwordCount_toNat hn)
  rcases Nat.lt_or_ge i dw.size with hi | hi
  · rw [searchedHeader_iff hn hno hi, IsHeader, and_iff_right hi]
  · exact ⟨fun h => absurd h.1 (by omega), fun h => absurd h.1 (by omega)⟩

/-- The walk of log.c takes the dwords for headers that the walk of submit.c takes for headers,
    up to the first packet that is not whole, exactly where no whole packet is of type 0 and no
    NOP stands before the last dword; it takes no others after that either exactly where nothing
    but the last dword is a NOP, of type 0 or of type 1. And the walk of submit.c is the one the
    search makes that finds nothing. -/
theorem noteMarks_agrees_iff (dw : Array UInt32) (hn : dw.size ≤ 2 ^ 30) :
    ((∀ i, WholeBefore dw i → (NotedHeader dw i ↔ IsHeader (dwords dw) dw.size i)) ↔
      ∀ q, IsHeader (dwords dw) dw.size q →
        (dwords dw q = pm4Nop → q + 1 = dw.size) ∧
        (dwords dw q >>> 30 = 0 → ∀ l, packetLen (dwords dw q) = some l → dw.size < q + l)) ∧
    ((∀ i, NotedHeader dw i ↔ IsHeader (dwords dw) dw.size i) ↔
      ∀ q, IsHeader (dwords dw) dw.size q →
        dwords dw q = pm4Nop ∨ dwords dw q >>> 30 = 0 ∨ dwords dw q >>> 30 = 1 →
        q + 1 = dw.size) ∧
    (Returns (findChainBody dw (dwordCount dw)) 0 (dwordCount dw) →
      ∀ i, SearchedHeader dw i ↔ IsHeader (dwords dw) dw.size i) :=
  ⟨agree_whole_iff hn, agree_all_iff hn, fun hret _ => searchedHeader_iff_isHeader hn hret⟩

/-- A NOP, and then a WRITE_DATA to memory. -/
def paddedStream : Array UInt32 := #[0xffff1000, 0xc0033700, 0x500, 0x1000, 0, 1]

/-- The write, and then the NOP. -/
def trailedStream : Array UInt32 := #[0xc0033700, 0x500, 0x1000, 0, 1, 0xffff1000]

/-- The walk of the second comes to its two packets. -/
theorem trailedStream_header (hq : IsHeader (dwords trailedStream) trailedStream.size i) :
    i = 0 ∨ i = 5 := by
  obtain ⟨hi, hq⟩ := hq
  have hi : i < 6 := hi
  by_contra hne
  obtain ⟨k, hk, hq⟩ := hq.cases_lt (by omega)
  obtain rfl : 5 = k := Option.some.inj ((rfl : _ = some 5).symm.trans hk)
  have hle := hq.le
  omega

/-- The condition fails at the NOP that stands first, and the walks do not agree; it holds where
    the NOP stands last, and there they agree to the end. -/
theorem noteMarks_agrees_iff_padded :
    (¬ ∀ i, WholeBefore paddedStream i →
      (NotedHeader paddedStream i ↔ IsHeader (dwords paddedStream) paddedStream.size i)) ∧
    ∀ i, NotedHeader trailedStream i ↔ IsHeader (dwords trailedStream) trailedStream.size i := by
  constructor
  · intro hag
    have hcond := (noteMarks_agrees_iff paddedStream (by decide)).1.mp hag 0 ⟨by decide, .refl 0⟩
    exact absurd (hcond.1 rfl) (by decide)
  · refine (noteMarks_agrees_iff trailedStream (by decide)).2.1.mpr fun q hq ht => ?_
    obtain rfl | rfl := trailedStream_header hq
    · exact absurd ht (by decide)
    · rfl

/-- The search comes to the write, which the marks miss. -/
theorem not_noteMarks_agrees :
    ¬ ∀ dw : Array UInt32, dw.size ≤ 2 ^ 30 → ∀ i, WholeBefore dw i →
      (NotedHeader dw i ↔ IsHeader (dwords dw) dw.size i) := by
  intro h
  have hq : IsHeader (dwords paddedStream) paddedStream.size 0 := ⟨by decide, .refl 0⟩
  have hwhole : WholeBefore paddedStream 0 := wholeBefore_of_header hq
  have hn : paddedStream.size ≤ 2 ^ 30 := by decide
  obtain ⟨hin, hout⟩ := parts_at_nop hq hn ((h _ hn 0 hwhole).mpr hq) rfl (by decide)
  exact hout ((h _ hn 1 (hwhole.succ (l := 1) rfl (by decide))).mpr hin)

end Note

end OopsMesa.Submit
