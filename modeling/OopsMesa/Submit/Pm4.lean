/-
  PM4 streams, as submit.c reads them.

  A stream is an array of dwords, cut into packets by their headers. `packetLen` is how far the
  walk of `oops_winsys_find_chain` steps over a header, and nothing at a type-1 header, where it
  stops. The search itself is written as the source's loop and is the first header, in the sense
  of that walk, at which a complete INDIRECT_BUFFER stands (`findChain_spec`).

  Callers pass at most 2^30 dwords, so the positions, `uint32_t` in the source, do not wrap and
  are natural numbers here.
-/
import OopsMesa.Lib.Walk

namespace OopsMesa.Submit

open OopsMesa.Lib

/-- `dw[i]` -/
abbrev Dwords := Nat → UInt32

/-- `PM4_TYPE3_INDIRECT_BUFFER` -/
def pm4Type3IndirectBuffer : UInt32 := 0x3f

/-- `PM4_IB_SIZE_MASK` -/
def pm4IbSizeMask : UInt32 := 0xfffff

/-- radeonsi's one-dword NOP. -/
def pm4Nop : UInt32 := 0xffff1000

/-- The loop of `oops_winsys_find_chain` at dword `i`. -/
def findChainFrom (dw : Dwords) (n : Nat) : Nat → Nat → Nat
  | 0, _ => n
  | fuel + 1, i =>
    if i < n then
      let header := dw i
      let type := header >>> 30
      if header = pm4Nop then findChainFrom dw n fuel (i + 1)
      else if type = 2 then findChainFrom dw n fuel (i + 1)
      else if type = 1 then n
      else if type = 3 ∧ (header >>> 8) &&& 0xff = pm4Type3IndirectBuffer ∧ i + 3 < n then i
      else findChainFrom dw n fuel (i + ((header >>> 16) &&& 0x3fff).toNat + 2)
    else n

/-- The dword index of the first chain packet, or `n`. A round moves on by a dword at least, so
    `n` rounds are enough. -/
def findChain (dw : Dwords) (n : Nat) : Nat := findChainFrom dw n n 0

/-! ## The packet walk -/

/-- The dwords of the packet a header begins; nothing for a type-1 header. -/
def packetLen (header : UInt32) : Option Nat :=
  if header = pm4Nop then some 1
  else if header >>> 30 = 2 then some 1
  else if header >>> 30 = 1 then none
  else some (((header >>> 16) &&& 0x3fff).toNat + 2)

/-- The header of a type-3 INDIRECT_BUFFER. -/
def isChain (header : UInt32) : Bool :=
  header >>> 30 == 3 && (header >>> 8) &&& 0xff == pm4Type3IndirectBuffer

/-- A complete INDIRECT_BUFFER stands at dword `i` of `n`. -/
def chainAt (dw : Dwords) (n i : Nat) : Bool := isChain (dw i) && decide (i + 3 < n)

/-- Dword `i` of `n` is a packet header of the stream. -/
def IsHeader (dw : Dwords) (n i : Nat) : Prop := i < n ∧ HeaderFrom packetLen dw 0 i

theorem packetLen_advances : Advances packetLen := by
  intro header k h
  unfold packetLen at h
  split at h
  · cases h; omega
  · split at h
    · cases h; omega
    · split at h
      · cases h
      · cases h; omega

/-- The search is the search for the first header that is a hit. -/
theorem findChainFrom_eq (dw : Dwords) (n fuel i : Nat) :
    findChainFrom dw n fuel i = firstHeader packetLen (chainAt dw n) dw n fuel i := by
  have hnop : isChain pm4Nop = false := by decide
  have h32 : ¬ (3 : UInt32) = 2 := by decide
  have h31 : ¬ (3 : UInt32) = 1 := by decide
  induction fuel generalizing i with
  | zero => rfl
  | succ fuel ih =>
    unfold findChainFrom firstHeader
    dsimp only
    by_cases hin : i < n
    · rw [if_pos hin, if_pos hin]
      by_cases h0 : dw i = pm4Nop
      · simp [h0, chainAt, hnop, packetLen, ih]
      · by_cases h2 : dw i >>> 30 = 2
        · have hc : isChain (dw i) = false := by
            rw [isChain, h2]
            rfl
          simp [h0, h2, chainAt, hc, packetLen, ih]
        · by_cases h1 : dw i >>> 30 = 1
          · have hc : isChain (dw i) = false := by
              rw [isChain, h1]
              rfl
            simp [h0, h1, chainAt, hc, packetLen]
          · rw [if_neg h0, if_neg h2, if_neg h1]
            have hiff : (dw i >>> 30 = 3 ∧ (dw i >>> 8) &&& 0xff = pm4Type3IndirectBuffer ∧
                i + 3 < n) ↔ chainAt dw n i = true := by
              simp [chainAt, isChain, and_assoc]
            by_cases hc : chainAt dw n i = true
            · rw [if_pos (hiff.mpr hc), if_pos hc]
            · rw [if_neg (fun h => hc (hiff.mp h)), if_neg hc, ih]
              simp [packetLen, h0, h2, h1, Nat.add_assoc]
    · rw [if_neg hin, if_neg hin]

section Spec

variable {dw dw' : Dwords} {n i j : Nat}

/-- What the search finds. -/
theorem findChain_spec (dw : Dwords) (n : Nat) :
    findChain dw n ≤ n ∧
      (findChain dw n < n →
        HeaderFrom packetLen dw 0 (findChain dw n) ∧ chainAt dw n (findChain dw n) = true) ∧
      ∀ j, HeaderFrom packetLen dw 0 j → j < findChain dw n → chainAt dw n j = false := by
  have h := @firstHeader_spec _ packetLen (chainAt dw n) dw 0 n packetLen_advances n
    (Nat.le_of_eq (Nat.zero_add n).symm)
  rw [← findChainFrom_eq] at h
  exact h

theorem findChain_le : findChain dw n ≤ n := (findChain_spec dw n).1

/-- A stream without a chain packet has none at any header. -/
theorem chainAt_of_no_chain (h : findChain dw n = n) (hj : IsHeader dw n j) :
    chainAt dw n j = false :=
  (findChain_spec dw n).2.2 j hj.2 (h.symm ▸ hj.1)

/-- Cut off before the chain packet found, a stream has none at any header. -/
theorem chainAt_of_prefix (hj : IsHeader dw (findChain dw n) j) :
    chainAt dw (findChain dw n) j = false := by
  have hno := (findChain_spec dw n).2.2 j hj.2 hj.1
  have hle : findChain dw n ≤ n := findChain_le
  simp only [chainAt, Bool.and_eq_false_iff, decide_eq_false_iff_not] at hno ⊢
  rcases hno with hno | hno
  · exact .inl hno
  · exact .inr (by omega)

/-- Cut off before the chain packet found, a stream ends where a packet does. -/
theorem headerFrom_findChain (h : findChain dw n < n) :
    HeaderFrom packetLen dw 0 (findChain dw n) := ((findChain_spec dw n).2.1 h).1

end Spec

/-- Payload that looks like a chain packet is passed over. -/
example : findChain (fun i => [0xc0041000, 0xc0023f00, 1, 2, 3, 4, 0xc0023f00, 0, 0, 0].getD i 0) 10
    = 6 := by decide

end OopsMesa.Submit
