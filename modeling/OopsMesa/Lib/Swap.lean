/-
  Two ranges of an array that change places.

  `swapAt` exchanges two entries, and `swapRanges` the entries of two ranges, one after the other.
  Where an access is outside there is no result. Of ranges that lie apart each ends up with what
  the other had (`swapRanges_get`). `swapRows` does this to the first row and the last, the second
  and the last but one, up to the middle, which turns the order of the rows around
  (`swapRows_get`). Rows that the array has no room for are not turned around
  (`swapRows_short`). Nothing here names a system.
-/
import Mathlib.Algebra.Group.Nat.Defs
import Mathlib.Data.List.Basic

namespace OopsMesa.Lib

section Swap

variable {α : Type}

/-- The entries `i` and `j` exchanged. -/
def swapAt (l : List α) (i j : Nat) : Option (List α) := do
  let x ← l[i]?
  let y ← l[j]?
  some ((l.set i y).set j x)

/-- The entries `a + k` and `b + k` exchanged, for `k` from `k` on, `left` of them. -/
def swapRanges (a b : Nat) (l : List α) (k : Nat) : Nat → Option (List α)
  | 0 => some l
  | left + 1 => do
    let l ← swapAt l (a + k) (b + k)
    swapRanges a b l (k + 1) left

/-- The rows `y` and `h - 1 - y` of `w` entries exchanged, for `y` from `y` on, `left` of them. -/
def swapRows (w h : Nat) (l : List α) (y : Nat) : Nat → Option (List α)
  | 0 => some l
  | left + 1 => do
    let l ← swapRanges (y * w) ((h - 1 - y) * w) l 0 w
    swapRows w h l (y + 1) left

variable {l l' : List α} {a b i j k n r c y w h m : Nat}

theorem swapAt_spec (hi : i < l.length) (hj : j < l.length) (hij : i ≠ j) :
    ∃ l', swapAt l i j = some l' ∧ l'.length = l.length ∧ l'[i]? = l[j]? ∧ l'[j]? = l[i]? ∧
      ∀ m, m ≠ i → m ≠ j → l'[m]? = l[m]? := by
  have hx : l[i]? = some l[i] := List.getElem?_eq_getElem hi
  have hy : l[j]? = some l[j] := List.getElem?_eq_getElem hj
  refine ⟨(l.set i l[j]).set j l[i], ?_, ?_, ?_, ?_, fun m hm hm' => ?_⟩
  · unfold swapAt
    rw [hx, hy]
    rfl
  · rw [List.length_set, List.length_set]
  · rw [List.getElem?_set_ne hij.symm, List.getElem?_set_self hi, hy]
  · rw [List.getElem?_set_self (by rw [List.length_set]; exact hj), hx]
  · rw [List.getElem?_set_ne hm'.symm, List.getElem?_set_ne hm.symm]

/-- The ranges from `k` on have changed places, and nothing else has. -/
theorem swapRanges_spec (hab : a + k + n ≤ b) (hb : b + k + n ≤ l.length) :
    ∃ l', swapRanges a b l k n = some l' ∧ l'.length = l.length ∧
      (∀ i < n, l'[a + k + i]? = l[b + k + i]? ∧ l'[b + k + i]? = l[a + k + i]?) ∧
      ∀ m, (m < a + k ∨ a + k + n ≤ m) → (m < b + k ∨ b + k + n ≤ m) → l'[m]? = l[m]? := by
  induction n generalizing l k with
  | zero => exact ⟨l, rfl, rfl, fun i hi => absurd hi (Nat.not_lt_zero i), fun _ _ _ => rfl⟩
  | succ n ih =>
    obtain ⟨l₁, hswap, hlen, hfirst, hsecond, hrest⟩ :=
      swapAt_spec (l := l) (i := a + k) (j := b + k) (by omega) (by omega) (by omega)
    obtain ⟨l₂, hranges, hlen₂, hin, hout⟩ :=
      ih (l := l₁) (k := k + 1) (by omega) (by omega)
    refine ⟨l₂, ?_, hlen₂.trans hlen, fun i hi => ?_, fun m hma hmb => ?_⟩
    · unfold swapRanges
      rw [hswap]
      exact hranges
    · cases i with
      | zero =>
        refine ⟨(hout _ (by omega) (by omega)).trans hfirst, ?_⟩
        exact (hout _ (by omega) (by omega)).trans hsecond
      | succ i =>
        obtain ⟨ha, hb'⟩ := hin i (by omega)
        rw [show a + (k + 1) + i = a + k + (i + 1) by omega,
          show b + (k + 1) + i = b + k + (i + 1) by omega] at ha hb'
        exact ⟨ha.trans (hrest _ (by omega) (by omega)), hb'.trans (hrest _ (by omega) (by omega))⟩
    · exact (hout m (by omega) (by omega)).trans (hrest m (by omega) (by omega))

theorem swapAt_short (hj : l.length ≤ j) : swapAt l i j = none := by
  unfold swapAt
  rw [List.getElem?_eq_none hj]
  cases l[i]? <;> rfl

theorem swapAt_length (h : swapAt l i j = some l') : l'.length = l.length := by
  unfold swapAt at h
  obtain ⟨x, -, h⟩ := Option.bind_eq_some_iff.mp h
  obtain ⟨y, -, h⟩ := Option.bind_eq_some_iff.mp h
  rw [← Option.some.inj h, List.length_set, List.length_set]

/-- Ranges that end outside do not change places. -/
theorem swapRanges_short (hn : 0 < n) (hb : l.length < b + k + n) :
    swapRanges a b l k n = none := by
  induction n generalizing l k with
  | zero => exact absurd hn (Nat.lt_irrefl 0)
  | succ n ih =>
    unfold swapRanges
    cases hswap : swapAt l (a + k) (b + k) with
    | none => rfl
    | some l₁ =>
      have hlen := swapAt_length hswap
      have hin : b + k < l.length := by
        by_contra hout
        exact nomatch hswap.symm.trans (swapAt_short (by omega))
      exact ih (l := l₁) (k := k + 1) (by omega) (by omega)

/-- A row ends where the next one begins, or before. -/
theorem row_le (hry : r < y) : r * w + w ≤ y * w := by
  have hmul : (r + 1) * w ≤ y * w := Nat.mul_le_mul_right w hry
  rwa [Nat.add_mul, Nat.one_mul] at hmul

/-- After the rows from `y` on up to the `n`-th, those outside are as they were, and the others
    have changed places. -/
theorem swapRows_spec (hn : 2 * (y + n) ≤ h) (hlen : l.length = w * h) :
    ∃ l', swapRows w h l y n = some l' ∧ l'.length = l.length ∧
      ∀ r < h, ∀ c < w, l'[r * w + c]? =
        if y ≤ r ∧ r < y + n ∨ h - (y + n) ≤ r ∧ r < h - y then l[(h - 1 - r) * w + c]?
        else l[r * w + c]? := by
  induction n generalizing l y with
  | zero =>
    refine ⟨l, rfl, rfl, fun r hr c hc => ?_⟩
    rw [if_neg (by omega)]
  | succ n ih =>
    have hfirst : y * w + w ≤ (h - 1 - y) * w := row_le (by omega)
    have hlast : (h - 1 - y) * w + w ≤ h * w := row_le (by omega)
    rw [Nat.mul_comm h w] at hlast
    obtain ⟨l₁, hranges, hlen₁, hin, hout⟩ := swapRanges_spec (l := l) (a := y * w)
      (b := (h - 1 - y) * w) (k := 0) (n := w) (by omega) (by omega)
    obtain ⟨l₂, hrows, hlen₂, hrest⟩ := ih (l := l₁) (y := y + 1) (by omega) (hlen₁.trans hlen)
    -- A row that the first round leaves alone.
    have hsame : ∀ r < h, r ≠ y → r ≠ h - 1 - y → ∀ c < w, l₁[r * w + c]? = l[r * w + c]? := by
      intro r hr hry hrh c hc
      have hapart : ∀ y', r ≠ y' → r * w + c < y' * w + 0 ∨ y' * w + 0 + w ≤ r * w + c := by
        intro y' hne
        rcases Nat.lt_or_gt_of_ne hne with hlt | hgt
        · have hle : r * w + w ≤ y' * w := row_le hlt
          exact .inl (by omega)
        · have hle : y' * w + w ≤ r * w := row_le hgt
          exact .inr (by omega)
      exact hout _ (hapart y hry) (hapart _ hrh)
    refine ⟨l₂, ?_, hlen₂.trans hlen₁, fun r hr c hc => ?_⟩
    · unfold swapRows
      rw [hranges]
      exact hrows
    · rw [hrest r hr c hc]
      by_cases hmid : y + 1 ≤ r ∧ r < y + 1 + n ∨ h - (y + 1 + n) ≤ r ∧ r < h - (y + 1)
      · rw [if_pos hmid, if_pos (by omega)]
        exact hsame _ (by omega) (by omega) (by omega) c hc
      · rw [if_neg hmid]
        by_cases hry : r = y
        · rw [if_pos (by omega), hry]
          exact (hin c hc).1
        · by_cases hrh : r = h - 1 - y
          · have hback : h - 1 - (h - 1 - y) = y := by omega
            rw [if_pos (by omega), hrh, hback]
            exact (hin c hc).2
          · rw [if_neg (by omega)]
            exact hsame r hr hry hrh c hc

/-- The rows in the other order; the one in the middle stays. -/
theorem swapRows_get (hlen : l.length = w * h) :
    ∃ l', swapRows w h l 0 (h / 2) = some l' ∧ l'.length = l.length ∧
      ∀ r < h, ∀ c < w, l'[r * w + c]? = l[(h - 1 - r) * w + c]? := by
  obtain ⟨l', hrows, hlen', hget⟩ := swapRows_spec (l := l) (y := 0) (n := h / 2) (by omega) hlen
  refine ⟨l', hrows, hlen', fun r hr c hc => ?_⟩
  rw [hget r hr c hc]
  split
  · rfl
  · rw [show h - 1 - r = r by omega]

/-- The last row is outside, and the first is to change places with it. -/
theorem swapRows_short (hw : 0 < w) (hh : 2 ≤ h) (hlen : l.length < w * h) :
    swapRows w h l 0 (h / 2) = none := by
  obtain ⟨n, hn⟩ : ∃ n, h / 2 = n + 1 := ⟨h / 2 - 1, by omega⟩
  have hlast : (h - 1 - 0) * w + 0 + w = w * h := by
    rw [Nat.sub_zero, Nat.add_zero, ← Nat.succ_mul, Nat.succ_eq_add_one,
      Nat.sub_add_cancel (by omega), Nat.mul_comm]
  rw [hn]
  unfold swapRows
  rw [swapRanges_short hw (by omega)]
  rfl

end Swap

end OopsMesa.Lib
