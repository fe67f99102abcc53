/-
  Strings in memory.

  Memory says of each address what byte is there, and nothing where there is none to read or to
  write. `Str mem a s` says that the string `s` begins at `a`, with its NUL, and `Bytes mem a bs`
  that the bytes `bs` do. `put` writes bytes that are there to be written, and leaves all others
  (`put_outside`). Nothing here names a system.
-/
import Mathlib.Data.List.Basic
import Mathlib.Logic.Function.Basic

namespace OopsMesa.Lib

abbrev Bytes := Nat → Option UInt8

namespace Bytes

variable {mem mem' : Bytes} {a b i x : Nat} {c d : UInt8} {s t bs : List UInt8}

/-- The bytes `bs` begin at `a`. -/
def Has (mem : Bytes) : Nat → List UInt8 → Prop
  | _, [] => True
  | a, b :: bs => mem a = some b ∧ Has mem (a + 1) bs

/-- The string `s` begins at `a`. -/
def Str (mem : Bytes) : Nat → List UInt8 → Prop
  | a, [] => mem a = some 0
  | a, c :: s => mem a = some c ∧ c ≠ 0 ∧ Str mem (a + 1) s

/-- There are `n` bytes at `a`. -/
def Room (mem : Bytes) (a n : Nat) : Prop := ∀ i < n, (mem (a + i)).isSome

/-- A store to a byte that is there. -/
def store (mem : Bytes) (a : Nat) (c : UInt8) : Option Bytes :=
  if (mem a).isSome then some (Function.update mem a (some c)) else none

/-- The bytes `bs` from `a` on. -/
def put (mem : Bytes) : Nat → List UInt8 → Bytes
  | _, [] => mem
  | a, b :: bs => put (Function.update mem a (some b)) (a + 1) bs

theorem store_eq (h : (mem a).isSome) : mem.store a c = some (Function.update mem a (some c)) :=
  if_pos h

theorem put_outside (h : ¬ (a ≤ x ∧ x < a + bs.length)) : mem.put a bs x = mem x := by
  induction bs generalizing mem a with
  | nil => rfl
  | cons b bs ih =>
    rw [List.length_cons] at h
    unfold put
    rw [ih (by omega), Function.update_of_ne (by omega)]

theorem put_has (mem : Bytes) (a : Nat) (bs : List UInt8) : (mem.put a bs).Has a bs := by
  induction bs generalizing mem a with
  | nil => trivial
  | cons b bs ih =>
    refine ⟨?_, ih _ _⟩
    unfold put
    rw [put_outside (by omega), Function.update_self]

/-- A string is its bytes and a NUL behind them. -/
theorem str_iff : mem.Str a s ↔ mem.Has a (s ++ [0]) ∧ 0 ∉ s := by
  induction s generalizing a with
  | nil => exact ⟨fun h => ⟨⟨h, trivial⟩, List.not_mem_nil⟩, fun h => h.1.1⟩
  | cons c s ih =>
    have hhas : mem.Has a (c :: s ++ [0]) ↔ mem a = some c ∧ mem.Has (a + 1) (s ++ [0]) := Iff.rfl
    have hstr : mem.Str a (c :: s) ↔ mem a = some c ∧ c ≠ 0 ∧ mem.Str (a + 1) s := Iff.rfl
    rw [hhas, hstr, ih, List.mem_cons, not_or]
    constructor
    · rintro ⟨ha, hc, hs, hnul⟩
      exact ⟨⟨ha, hs⟩, hc.symm, hnul⟩
    · rintro ⟨⟨ha, hs⟩, hc, hnul⟩
      exact ⟨ha, Ne.symm hc, hs, hnul⟩

theorem Str.put (hnul : 0 ∉ s) : (mem.put a (s ++ [0])).Str a s :=
  str_iff.mpr ⟨put_has .., hnul⟩

theorem Has.congr (h : mem.Has a bs) (heq : ∀ i < bs.length, mem' (a + i) = mem (a + i)) :
    mem'.Has a bs := by
  induction bs generalizing a with
  | nil => trivial
  | cons b bs ih =>
    refine ⟨(heq 0 (Nat.zero_lt_succ _)).trans h.1, ih h.2 fun i hi => ?_⟩
    have hnext := heq (i + 1) (Nat.succ_lt_succ hi)
    rwa [show a + (i + 1) = a + 1 + i by omega] at hnext

theorem has_append : mem.Has a (s ++ t) ↔ mem.Has a s ∧ mem.Has (a + s.length) t := by
  induction s generalizing a with
  | nil => exact ⟨fun h => ⟨trivial, h⟩, fun h => h.2⟩
  | cons c s ih =>
    have hcons : ∀ u, mem.Has a (c :: u) ↔ mem a = some c ∧ mem.Has (a + 1) u := fun _ => Iff.rfl
    rw [List.cons_append, hcons, hcons, ih, and_assoc, List.length_cons,
      show a + (s.length + 1) = a + 1 + s.length by omega]

theorem Has.take (h : mem.Has a bs) (n : Nat) : mem.Has a (bs.take n) := by
  rw [← List.take_append_drop n bs, has_append] at h
  exact h.1

theorem Has.isSome (h : mem.Has a bs) (hi : i < bs.length) : (mem (a + i)).isSome := by
  induction bs generalizing a i with
  | nil => exact absurd hi (Nat.not_lt_zero i)
  | cons b bs ih =>
    cases i with
    | zero =>
      rw [Nat.add_zero, h.1]
      rfl
    | succ i =>
      rw [show a + (i + 1) = a + 1 + i by omega]
      exact ih h.2 (Nat.lt_of_succ_lt_succ hi)

/-- A string behind another one, over its NUL, is one string with it. -/
theorem Str.put_behind (ht : mem.Str a t) (hs : 0 ∉ s) :
    (mem.put (a + t.length) (s ++ [0])).Str a (t ++ s) := by
  induction t generalizing a with
  | nil => exact Str.put hs
  | cons d t ih =>
    obtain ⟨hd, hd0, ht'⟩ := ht
    refine ⟨?_, hd0, ?_⟩
    · rw [Bytes.put_outside (by rw [List.length_cons]; omega)]
      exact hd
    · rw [List.length_cons, show a + (t.length + 1) = a + 1 + t.length by omega]
      exact ih ht'

/-- What is written leaves a string where it is. -/
theorem Str.put_outside (h : mem.Str a s) (hapart : b + bs.length ≤ a ∨ a + s.length < b) :
    (mem.put b bs).Str a s := by
  rw [str_iff] at h ⊢
  refine ⟨h.1.congr fun i hi => Bytes.put_outside ?_, h.2⟩
  rw [List.length_append, List.length_singleton] at hi
  omega

theorem Room.update (h : mem.Room b i) : Bytes.Room (Function.update mem a (some c)) b i := by
  intro j hj
  by_cases hja : b + j = a
  · rw [hja, Function.update_self]
    rfl
  · rw [Function.update_of_ne hja]
    exact h j hj

theorem Room.tail {n : Nat} (h : mem.Room a (n + 1)) : mem.Room (a + 1) n := by
  intro j hj
  have hnext := h (j + 1) (Nat.succ_lt_succ hj)
  rwa [show a + (j + 1) = a + 1 + j by omega] at hnext

theorem Room.head {n : Nat} (h : mem.Room a (n + 1)) : (mem a).isSome := h 0 (Nat.zero_lt_succ n)

end Bytes

end OopsMesa.Lib
