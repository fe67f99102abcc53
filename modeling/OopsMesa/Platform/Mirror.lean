/-
  The frame of a present that copies.

  The frame is read back into `scanbuf`, row 0 at the bottom, turned upside down in place, and
  handed to the display. What the display gets is upright (`presented_upright`): its row 0 is the
  top row of the picture, also for an odd height. The sides go to GL as signed numbers, so that
  one from 2^31 on is negative there and nothing is read. `scanbuf` is as large as `malloc` was
  asked for, and a product that wraps asks for too little; that is the only case in which something
  outside it is touched.

  `glReadPixels` is GL's, and a parameter (`ReadsPicture`).
-/
import OopsMesa.Lib.Swap

namespace OopsMesa.Platform

open OopsMesa.Lib

/-! ## The code -/

/-- The words of `scanbuf`, of `width * height * sizeof(uint32_t)` bytes in a `size_t`. -/
def scanbufWords (width height : UInt32) : Nat := width.toNat * height.toNat * 4 % 2 ^ 64 / 4

/-- `glReadPixels` from the lower left on, in words of GL_BGRA bytes: what a buffer holds after it,
    for a width and a height (`GLsizei`); nothing where it writes outside. -/
abbrev ReadPixels := Int32 → Int32 → List UInt32 → Option (List UInt32)

/-- The loops of `oops_gl_present` that mirror the frame. -/
def mirrorFrame (width height : UInt32) (scanbuf : List UInt32) : Option (List UInt32) :=
  swapRows width.toNat height.toNat scanbuf 0 (height / 2).toNat

/-- What `oops_gl_present` hands to `oops_display_present` when it copies. -/
def copiedFrame (glReadPixels : ReadPixels) (width height : UInt32) (scanbuf : List UInt32) :
    Option (List UInt32) :=
  (glReadPixels width.toInt32 height.toInt32 scanbuf).bind (mirrorFrame width height)

/-! ## What GL does -/

/-- The rows of the picture, the lowest one first. -/
def frameRows (width height : Nat) (pixel : Nat → Nat → UInt32) : List UInt32 :=
  (List.range height).flatMap fun row => (List.range width).map (pixel row)

/-- `glReadPixels` as GL documents it. A negative side is an error, and nothing is read. Otherwise
    the rows go to the start of the buffer, one after the other, if there is room for them. -/
structure ReadsPicture (glReadPixels : ReadPixels) (pixel : Nat → Nat → UInt32) : Prop where
  negative : ∀ width height scanbuf, width < 0 ∨ height < 0 →
    glReadPixels width height scanbuf = some scanbuf
  rows : ∀ width height scanbuf, 0 ≤ width → 0 ≤ height →
    let rows := frameRows width.toInt.toNat height.toInt.toNat pixel
    rows.length ≤ scanbuf.length →
      glReadPixels width height scanbuf = some (rows ++ scanbuf.drop rows.length)

/-! ## Upright -/

section Frames

variable {glReadPixels : ReadPixels} {width height : UInt32} {pixel : Nat → Nat → UInt32}
  {scanbuf : List UInt32} {n w r c : Nat}

theorem frameRows_length (w n : Nat) (pixel : Nat → Nat → UInt32) :
    (frameRows w n pixel).length = w * n := by
  unfold frameRows
  induction n with
  | zero => rfl
  | succ n ih =>
    rw [List.range_succ, List.flatMap_append, List.flatMap_singleton, List.length_append, ih,
      List.length_map, List.length_range, Nat.mul_succ]

theorem frameRows_get (hr : r < n) (hc : c < w) :
    (frameRows w n pixel)[r * w + c]? = some (pixel r c) := by
  induction n with
  | zero => exact absurd hr (Nat.not_lt_zero r)
  | succ n ih =>
    have hlen := frameRows_length w n pixel
    unfold frameRows at hlen ih ⊢
    rw [List.range_succ, List.flatMap_append, List.flatMap_singleton]
    rcases Nat.lt_or_eq_of_le (Nat.le_of_lt_succ hr) with hlt | rfl
    · have hle : r * w + w ≤ n * w := row_le hlt
      rw [Nat.mul_comm n w, ← hlen] at hle
      rw [List.getElem?_append_left (by omega)]
      exact ih hlt
    · rw [Nat.mul_comm w r] at hlen
      rw [List.getElem?_append_right (by omega), hlen, Nat.add_sub_cancel_left, List.getElem?_map,
        List.getElem?_range hc]
      rfl

/-- A side from 2^31 on is negative to GL. -/
theorem toInt32_neg_iff (x : UInt32) : x.toInt32 < 0 ↔ 2 ^ 31 ≤ x.toNat := by
  have hneg : x.toBitVec.toInt < 0 ↔ 2 ^ 32 ≤ 2 * x.toNat := BitVec.toInt_neg_iff
  rw [Int32.lt_iff_toInt_lt]
  show x.toBitVec.toInt < 0 ↔ _
  rw [hneg]
  omega

/-- A smaller one is itself. -/
theorem toInt32_toNat {x : UInt32} (h : x.toNat < 2 ^ 31) : x.toInt32.toInt.toNat = x.toNat := by
  have hint : x.toBitVec.toInt = x.toNat :=
    BitVec.toInt_eq_toNat_of_lt (by show 2 * x.toNat < 2 ^ 32; omega)
  show x.toBitVec.toInt.toNat = x.toNat
  rw [hint, Int.toNat_natCast]

/-- The size of `scanbuf` wraps only with a side that is negative to GL, and with two rows. -/
theorem sides_of_wrap (h : 2 ^ 64 ≤ width.toNat * height.toNat * 4) :
    0 < width.toNat ∧ 2 ≤ height.toNat ∧ ¬ (width.toNat < 2 ^ 31 ∧ height.toNat < 2 ^ 31) := by
  have hwidth := width.toNat_lt
  have hheight := height.toNat_lt
  have hle : width.toNat * height.toNat ≤ 2 ^ 32 * height.toNat :=
    Nat.mul_le_mul_right _ (Nat.le_of_lt hwidth)
  refine ⟨Nat.pos_of_ne_zero fun hzero => ?_, by omega, fun ⟨hw, hh⟩ => ?_⟩
  · rw [hzero] at h
    omega
  · have hsmall : width.toNat * height.toNat ≤ 2 ^ 31 * (2 ^ 31 - 1) :=
      Nat.mul_le_mul (Nat.le_of_lt hw) (by omega)
    omega

/-- What `glReadPixels` makes of a buffer with room for the picture: the picture, or, if a side is
    negative, what was there. -/
theorem ReadsPicture.read (hgl : ReadsPicture glReadPixels pixel)
    (hlen : scanbuf.length = width.toNat * height.toNat) :
    glReadPixels width.toInt32 height.toInt32 scanbuf =
      some (if width.toNat < 2 ^ 31 ∧ height.toNat < 2 ^ 31 then
        frameRows width.toNat height.toNat pixel else scanbuf) := by
  split
  · next hsides =>
    have hwidth : 0 ≤ width.toInt32 := by
      rw [← Int32.not_lt, toInt32_neg_iff]
      omega
    have hheight : 0 ≤ height.toInt32 := by
      rw [← Int32.not_lt, toInt32_neg_iff]
      omega
    have hrows := hgl.rows width.toInt32 height.toInt32 scanbuf hwidth hheight
    rw [toInt32_toNat hsides.1, toInt32_toNat hsides.2] at hrows
    dsimp only at hrows
    rw [frameRows_length, ← hlen, List.drop_length, List.append_nil] at hrows
    exact hrows (Nat.le_refl _)
  · next hsides =>
    apply hgl.negative
    rw [toInt32_neg_iff, toInt32_neg_iff]
    omega

/-- **What the display gets is upright**, where both sides are below 2^31. With a larger one it gets
    what `scanbuf` held, turned upside down; and something outside is touched exactly if its size
    wraps. -/
theorem presented_upright (hgl : ReadsPicture glReadPixels pixel)
    (hbuf : scanbuf.length = scanbufWords width height) :
    (copiedFrame glReadPixels width height scanbuf = none ↔
      2 ^ 64 ≤ width.toNat * height.toNat * 4) ∧
    ∀ frame, copiedFrame glReadPixels width height scanbuf = some frame →
      frame.length = width.toNat * height.toNat ∧
      ∀ row < height.toNat, ∀ column < width.toNat,
        frame[row * width.toNat + column]? =
          if width.toNat < 2 ^ 31 ∧ height.toNat < 2 ^ 31 then
            some (pixel (height.toNat - 1 - row) column)
          else scanbuf[(height.toNat - 1 - row) * width.toNat + column]? := by
  have hhalf : (height / 2).toNat = height.toNat / 2 := UInt32.toNat_div ..
  by_cases hwrap : 2 ^ 64 ≤ width.toNat * height.toNat * 4
  · obtain ⟨hwidth, hheight, hsides⟩ := sides_of_wrap hwrap
    have hshort : scanbuf.length < width.toNat * height.toNat := by
      rw [hbuf]
      unfold scanbufWords
      omega
    have hnone : copiedFrame glReadPixels width height scanbuf = none := by
      unfold copiedFrame mirrorFrame
      rw [hgl.negative _ _ scanbuf (by rw [toInt32_neg_iff, toInt32_neg_iff]; omega), hhalf]
      exact swapRows_short hwidth hheight hshort
    rw [hnone]
    exact ⟨⟨fun _ => hwrap, fun _ => rfl⟩, nofun⟩
  · have hwords : scanbuf.length = width.toNat * height.toNat := by
      rw [hbuf]
      unfold scanbufWords
      omega
    have hread := hgl.read hwords
    generalize hrows : (if width.toNat < 2 ^ 31 ∧ height.toNat < 2 ^ 31 then
      frameRows width.toNat height.toNat pixel else scanbuf) = rows at hread
    have hlen : rows.length = width.toNat * height.toNat := by
      rw [← hrows]
      split
      · exact frameRows_length ..
      · exact hwords
    obtain ⟨frame, hswapped, hflen, hget⟩ := swapRows_get hlen
    have hframe : copiedFrame glReadPixels width height scanbuf = some frame := by
      unfold copiedFrame mirrorFrame
      rw [hread, hhalf]
      exact hswapped
    rw [hframe]
    refine ⟨⟨nofun, fun h => absurd h hwrap⟩, fun frame' h => ?_⟩
    obtain rfl := Option.some.inj h
    refine ⟨hflen.trans hlen, fun row hrow column hcolumn => ?_⟩
    rw [hget row hrow column hcolumn, ← hrows]
    split
    · exact frameRows_get (by omega) hcolumn
    · rfl

/-- A GL that does no more than this. -/
def readPicture (pixel : Nat → Nat → UInt32) : ReadPixels := fun width height scanbuf =>
  if width < 0 ∨ height < 0 then some scanbuf
  else
    let rows := frameRows width.toInt.toNat height.toInt.toNat pixel
    if rows.length ≤ scanbuf.length then some (rows ++ scanbuf.drop rows.length) else none

theorem readPicture_reads (pixel : Nat → Nat → UInt32) :
    ReadsPicture (readPicture pixel) pixel where
  negative _ _ _ h := if_pos h
  rows width height scanbuf hwidth hheight := by
    intro rows hroom
    unfold readPicture
    rw [if_neg]
    · exact if_pos hroom
    · rintro (h | h)
      · exact absurd h (Int32.not_lt.mpr hwidth)
      · exact absurd h (Int32.not_lt.mpr hheight)

/-- Three rows of two, the middle one where it was. -/
theorem presented_upright_three :
    let gl := readPicture fun row column => (row * 16 + column).toUInt32
    copiedFrame gl 2 3 (List.replicate 6 0) = some [0x20, 0x21, 0x10, 0x11, 0x00, 0x01] ∧
    ([0x20, 0x21, 0x10, 0x11, 0x00, 0x01] : List UInt32)[0 * 2 + 1]? = some 0x21 := by
  intro gl
  have hframe : copiedFrame gl 2 3 (List.replicate 6 0) =
      some [0x20, 0x21, 0x10, 0x11, 0x00, 0x01] := by decide +kernel
  have hbuf : (List.replicate 6 (0 : UInt32)).length = scanbufWords 2 3 := by decide
  have h := (presented_upright (readPicture_reads _) hbuf).2 _ hframe
  exact ⟨hframe, h.2 0 (by decide) 1 (by decide)⟩

end Frames

end OopsMesa.Platform
