/-
  The search for a chain packet, read by read.

  `findChainBody` is a round of the loop of `oops_winsys_find_chain` as the machine makes it: the
  position is a `uint32_t` that may wrap, and a dword outside the array is no dword. For the
  arrays `submit_chain` can pass, of 2^30 dwords at most, nothing wraps and nothing is read
  outside, the loop ends, and what it returns is the first complete INDIRECT_BUFFER at a packet
  header, or the length (`findChain_is_packet_walk`). The headers are all it depends on.
-/
import Mathlib.Algebra.Group.Nat.Defs
import OopsMesa.Submit.Pm4

namespace OopsMesa.Submit

open OopsMesa.Lib

/-- A round of `oops_winsys_find_chain(dw, n)` at `i`. -/
def findChainBody (dw : Array UInt32) (n i : UInt32) : Option (UInt32 ⊕ UInt32) :=
  if i < n then do
    let header ← dw[i.toNat]?
    let type := header >>> 30
    if header = pm4Nop then some (.inl (i + 1))
    else if type = 2 then some (.inl (i + 1))
    else if type = 1 then some (.inr n)
    else if type = 3 ∧ (header >>> 8) &&& 0xff = pm4Type3IndirectBuffer ∧ i + 3 < n then
      some (.inr i)
    else some (.inl (i + (((header >>> 16) &&& 0x3fff) + 2)))
  else some (.inr n)

/-- The number of dwords, as it is passed. -/
def dwordCount (dw : Array UInt32) : UInt32 := UInt32.ofNat dw.size

/-- The stream in an array. -/
def dwords (dw : Array UInt32) : Dwords := fun i => dw.getD i 0

/-- Dword `i` is the first header at which a complete INDIRECT_BUFFER stands. -/
def FirstChain (dw : Array UInt32) (i : Nat) : Prop :=
  (IsHeader (dwords dw) dw.size i ∧ chainAt (dwords dw) dw.size i = true) ∧
    ∀ j < i, IsHeader (dwords dw) dw.size j → chainAt (dwords dw) dw.size j = false

section Round

variable {dw dw' : Array UInt32} {i : UInt32} {k : Nat}

theorem succ_toNat (hi : i.toNat < 2 ^ 31) : (i + 1).toNat = i.toNat + 1 := by
  rw [UInt32.toNat_add, show (1 : UInt32).toNat = 1 from rfl]
  omega

theorem dwordCount_toNat (hn : dw.size ≤ 2 ^ 30) : (dwordCount dw).toNat = dw.size :=
  UInt32.toNat_ofNat_of_lt' (Nat.lt_of_le_of_lt hn (by decide))

theorem dwords_eq (hi : k < dw.size) : dw[k]? = some (dwords dw k) := by
  rw [dwords, Array.getD_eq_getD_getElem?, Array.getElem?_eq_getElem hi]
  rfl

theorem count_lt (header : UInt32) : ((header >>> 16) &&& 0x3fff).toNat < 2 ^ 14 := by
  rw [UInt32.toNat_and]
  exact Nat.lt_of_le_of_lt Nat.and_le_right (by decide)

theorem packetLen_le {header : UInt32} {l : Nat} (h : packetLen header = some l) :
    l ≤ 2 ^ 14 + 1 := by
  have hc := count_lt header
  unfold packetLen at h
  split at h
  · simp only [Option.some.injEq] at h; omega
  · split at h
    · simp only [Option.some.injEq] at h; omega
    · split at h
      · exact nomatch h
      · simp only [Option.some.injEq] at h; omega

/-- What a round inside the array does. -/
theorem findChainBody_eq (hn : dw.size ≤ 2 ^ 30) (hi : i.toNat < dw.size) :
    findChainBody dw (dwordCount dw) i =
      some (if chainAt (dwords dw) dw.size i.toNat then .inr i
        else (packetLen (dwords dw i.toNat)).elim (.inr (dwordCount dw))
          fun l => .inl (i + UInt32.ofNat l)) := by
  have hnop : isChain pm4Nop = false := by decide
  have hcount := dwordCount_toNat hn
  have hlt : i < dwordCount dw := by
    rw [UInt32.lt_iff_toNat_lt, hcount]
    exact hi
  have hadd : (i + 3).toNat = i.toNat + 3 := by
    rw [UInt32.toNat_add]
    exact Nat.mod_eq_of_lt (by simp only [UInt32.toNat_ofNat]; omega)
  have h3 : i + 3 < dwordCount dw ↔ i.toNat + 3 < dw.size := by
    rw [UInt32.lt_iff_toNat_lt, hcount, hadd]
  unfold findChainBody
  rw [if_pos hlt, dwords_eq hi]
  generalize hh : dwords dw i.toNat = header
  have hchain : chainAt (dwords dw) dw.size i.toNat =
      (isChain header && decide (i.toNat + 3 < dw.size)) := by rw [chainAt, hh]
  rw [hchain]
  dsimp only [Option.bind_eq_bind, Option.bind_some]
  by_cases h0 : header = pm4Nop
  · rw [if_pos h0, h0, hnop]
    rfl
  · rw [if_neg h0]
    by_cases h2 : header >>> 30 = 2
    · have hc : isChain header = false := by
        rw [isChain, h2]
        rfl
      rw [if_pos h2, hc, packetLen, if_neg h0, if_pos h2]
      rfl
    · rw [if_neg h2]
      by_cases h1 : header >>> 30 = 1
      · have hc : isChain header = false := by
          rw [isChain, h1]
          rfl
        rw [if_pos h1, hc, packetLen, if_neg h0, if_neg h2, if_pos h1]
        rfl
      · have hiff : (header >>> 30 = 3 ∧ (header >>> 8) &&& 0xff = pm4Type3IndirectBuffer ∧
            i + 3 < dwordCount dw) ↔
              (isChain header && decide (i.toNat + 3 < dw.size)) = true := by
          simp [isChain, and_assoc, h3]
        rw [if_neg h1]
        by_cases hc : (isChain header && decide (i.toNat + 3 < dw.size)) = true
        · rw [if_pos (hiff.mpr hc), if_pos hc]
        · rw [if_neg (fun h => hc (hiff.mp h)), if_neg hc, packetLen, if_neg h0, if_neg h2,
            if_neg h1]
          simp only [Option.elim_some, UInt32.ofNat_add, UInt32.ofNat_toNat]
          rfl

/-- Outside the array the loop has ended. -/
theorem findChainBody_end (hn : dw.size ≤ 2 ^ 30) (hi : dw.size ≤ i.toNat) :
    findChainBody dw (dwordCount dw) i = some (.inr (dwordCount dw)) := by
  have hge : ¬ i < dwordCount dw := by
    rw [UInt32.lt_iff_toNat_lt, dwordCount_toNat hn]
    omega
  rw [findChainBody, if_neg hge]

/-- Stepping over a packet does not wrap. -/
theorem step_toNat {l : Nat} (hn : dw.size ≤ 2 ^ 30) (hi : i.toNat < dw.size)
    (hl : packetLen (dwords dw i.toNat) = some l) :
    (i + UInt32.ofNat l).toNat = i.toNat + l := by
  have hle := packetLen_le hl
  rw [UInt32.toNat_add, UInt32.toNat_ofNat_of_lt' (Nat.lt_of_le_of_lt hle (by decide))]
  exact Nat.mod_eq_of_lt (by omega)

end Round

/-! ## The search -/

section Search

variable {dw dw' : Array UInt32} {i : UInt32} {k : Nat}

/-- From dword `i` the loop returns what the search in the abstract finds from there. -/
theorem findChainBody_returns (hn : dw.size ≤ 2 ^ 30) (fuel : Nat) (i : UInt32)
    (hfuel : dw.size ≤ i.toNat + fuel) :
    ∃ r : UInt32, Returns (findChainBody dw (dwordCount dw)) i r ∧
      r.toNat = findChainFrom (dwords dw) dw.size fuel i.toNat := by
  induction fuel generalizing i with
  | zero =>
    refine ⟨dwordCount dw, .ret (findChainBody_end hn (by omega)), ?_⟩
    rw [dwordCount_toNat hn]
    rfl
  | succ fuel ih =>
    rw [findChainFrom_eq, firstHeader]
    rcases Nat.lt_or_ge i.toNat dw.size with hi | hi
    · have hbody := findChainBody_eq hn hi
      rw [if_pos hi]
      by_cases hc : chainAt (dwords dw) dw.size i.toNat = true
      · rw [if_pos hc] at hbody ⊢
        exact ⟨i, .ret hbody, rfl⟩
      · rw [if_neg hc] at hbody ⊢
        cases hl : packetLen (dwords dw i.toNat) with
        | none =>
          rw [hl, Option.elim_none] at hbody
          exact ⟨_, .ret hbody, dwordCount_toNat hn⟩
        | some l =>
          rw [hl, Option.elim_some] at hbody
          have hstep := step_toNat hn hi hl
          have hpos := packetLen_advances _ _ hl
          obtain ⟨r, hr, hrn⟩ := ih (i + UInt32.ofNat l) (by omega)
          refine ⟨r, .next hbody hr, ?_⟩
          rw [hrn, hstep, findChainFrom_eq]
    · rw [if_neg (by omega)]
      exact ⟨_, .ret (findChainBody_end hn hi), dwordCount_toNat hn⟩

/-- The search in the abstract finds the first chain packet. -/
theorem findChain_eq_iff (hk : k < dw.size) :
    findChain (dwords dw) dw.size = k ↔ FirstChain dw k := by
  obtain ⟨hle, hfound, hfirst⟩ := findChain_spec (dwords dw) dw.size
  constructor
  · rintro rfl
    have h := hfound hk
    exact ⟨⟨⟨hk, h.1⟩, h.2⟩, fun j hj hhead => hfirst j hhead.2 hj⟩
  · rintro ⟨⟨⟨-, hhead⟩, hchain⟩, hno⟩
    apply Nat.le_antisymm
    · apply Nat.le_of_not_lt
      intro hlt
      exact Bool.false_ne_true ((hfirst k hhead hlt).symm.trans hchain)
    · apply Nat.le_of_not_lt
      intro hlt
      have h := hfound (by omega)
      exact Bool.false_ne_true ((hno _ hlt ⟨by omega, h.1⟩).symm.trans h.2)

/-- Payload decides nothing. -/
theorem findChain_congr (hsize : dw'.size = dw.size)
    (hsame : ∀ q, IsHeader (dwords dw) dw.size q → dw'[q]? = dw[q]?) :
    findChain (dwords dw') dw'.size = findChain (dwords dw) dw.size := by
  have hval : ∀ q, IsHeader (dwords dw) dw.size q → dwords dw' q = dwords dw q := by
    intro q hq
    rw [dwords, dwords, Array.getD_eq_getD_getElem?, Array.getD_eq_getD_getElem?, hsame q hq]
  have hhead : ∀ q, IsHeader (dwords dw') dw'.size q ↔ IsHeader (dwords dw) dw.size q := by
    intro q
    rw [IsHeader, IsHeader, hsize]
    refine and_congr_right fun hq => (HeaderFrom.agree fun p hp hpq => ?_).symm
    rw [hval p ⟨by omega, hp⟩]
  have hchain : ∀ q, IsHeader (dwords dw) dw.size q →
      chainAt (dwords dw') dw'.size q = chainAt (dwords dw) dw.size q := by
    intro q hq
    rw [chainAt, chainAt, hval q hq, hsize]
  have hfirst : ∀ q, FirstChain dw' q ↔ FirstChain dw q := by
    intro q
    refine and_congr ?_ ⟨fun h j hj hjh => ?_, fun h j hj hjh => ?_⟩
    · rw [hhead q]
      exact and_congr_right fun hq => by rw [hchain q hq]
    · rw [← hchain j hjh]
      exact h j hj ((hhead j).mpr hjh)
    · rw [hchain j ((hhead j).mp hjh)]
      exact h j hj ((hhead j).mp hjh)
  rcases Nat.lt_or_ge (findChain (dwords dw) dw.size) dw.size with hlt | hge
  · exact (findChain_eq_iff (by omega)).mpr ((hfirst _).mpr ((findChain_eq_iff hlt).mp rfl))
  · have hle : findChain (dwords dw') dw'.size ≤ dw'.size := findChain_le
    have hge' : dw.size ≤ findChain (dwords dw') dw'.size := by
      apply Nat.le_of_not_lt
      intro hlt
      have h := (findChain_eq_iff (by omega)).mpr ((hfirst _).mp
        ((findChain_eq_iff (by omega)).mp rfl))
      omega
    have hle' : findChain (dwords dw) dw.size ≤ dw.size := findChain_le
    omega

/-- `oops_winsys_find_chain` is the packet walk. -/
theorem findChain_is_packet_walk (dw : Array UInt32) (hn : dw.size ≤ 2 ^ 30) :
    ∃ r : UInt32, Returns (findChainBody dw (dwordCount dw)) 0 r ∧
      (∀ i : UInt32, i.toNat < dw.size → (r = i ↔ FirstChain dw i.toNat)) ∧
      ((∀ i, ¬ FirstChain dw i) → r = dwordCount dw) ∧
      ∀ dw' : Array UInt32, dw'.size = dw.size →
        (∀ q, IsHeader (dwords dw) dw.size q → dw'[q]? = dw[q]?) →
        Returns (findChainBody dw' (dwordCount dw')) 0 r := by
  obtain ⟨r, hr, hrn⟩ := findChainBody_returns hn dw.size 0 (by omega)
  have hrf : r.toNat = findChain (dwords dw) dw.size := hrn
  refine ⟨r, hr, fun i hi => ?_, fun hno => ?_, fun dw' hsize hsame => ?_⟩
  · rw [← findChain_eq_iff hi, ← hrf]
    exact UInt32.toNat_inj.symm
  · apply UInt32.toNat_inj.mp
    rw [dwordCount_toNat hn, hrf]
    apply Nat.le_antisymm findChain_le
    apply Nat.le_of_not_lt
    intro hlt
    exact hno _ ((findChain_eq_iff hlt).mp rfl)
  · have hn' : dw'.size ≤ 2 ^ 30 := by omega
    obtain ⟨r', hr', hrn'⟩ := findChainBody_returns hn' dw'.size 0 (by omega)
    have hrf' : r'.toNat = findChain (dwords dw') dw'.size := hrn'
    obtain rfl : r' = r := by
      apply UInt32.toNat_inj.mp
      rw [hrf', hrf, findChain_congr hsize hsame]
    exact hr'

/-- A packet whose payload looks like a chain packet, and then a chain packet. -/
def lookalikeStream : Array UInt32 := #[0xc0041000, 0xc0023f00, 1, 2, 3, 4, 0xc0023f00, 0, 0, 0]

/-- The chain packet is found, not the payload. -/
theorem findChain_is_packet_walk_lookalike : FirstChain lookalikeStream 6 := by
  obtain ⟨r, hr, hfirst, -⟩ := findChain_is_packet_walk lookalikeStream (by decide)
  have hr6 : Returns (findChainBody lookalikeStream (dwordCount lookalikeStream)) 0 6 :=
    .next rfl (.ret rfl)
  exact (hfirst 6 (by decide)).mp (hr.unique hr6)

end Search

end OopsMesa.Submit
