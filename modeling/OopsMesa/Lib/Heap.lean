/-
  A C heap, block by block.

  A block is known by the address it starts at, and holds words or bytes. An access outside a
  live block, and a `free` of what is no block, have no result (`none`), so a program that has one
  stays inside. Address 0 is null. What the allocator answers is an argument: `Fresh` is its
  promise that a new block lies where none is. Nothing here names a system.
-/
import Mathlib.Data.List.Basic
import Mathlib.Logic.Function.Basic

namespace OopsMesa.Lib

/-- What a block holds. -/
inductive Block where
  | words (ws : List Nat)
  | bytes (bs : List UInt8)
  deriving DecidableEq, Repr

/-- The live blocks. -/
abbrev Heap := Nat → Option Block

namespace Heap

variable {h : Heap} {a b i n v : Nat} {ws : List Nat}

/-! ## Accesses -/

/-- Word `i` of the block at `a`. -/
def load (h : Heap) (a i : Nat) : Option Nat :=
  match h a with
  | some (.words ws) => ws[i]?
  | _ => none

def store (h : Heap) (a i v : Nat) : Option Heap :=
  match h a with
  | some (.words ws) =>
    if i < ws.length then some (Function.update h a (some (.words (ws.set i v)))) else none
  | _ => none

/-- `memset` of `n` words to zero, from word `i` on. -/
def zero (h : Heap) (a i : Nat) : Nat → Option Heap
  | 0 => some h
  | n + 1 => do
    let h ← h.store a i 0
    zero h a (i + 1) n

/-- `free`, which takes a null pointer and does nothing. -/
def free (h : Heap) (a : Nat) : Option Heap :=
  if a = 0 then some h
  else
    match h a with
    | some _ => some (Function.update h a none)
    | none => none

/-- `realloc` to `n` words where it succeeds with `b`: the old words are kept, and those beyond
    them are whatever `rest` says. A null pointer asks for a new block. -/
def realloc (h : Heap) (a n b : Nat) (rest : Nat → Nat) : Option Heap :=
  if a = 0 then some (Function.update h b (some (.words ((List.range n).map rest))))
  else
    match h a with
    | some (.words ws) =>
      some (Function.update (Function.update h a none) b
        (some (.words (ws.take n ++ (List.range (n - ws.length)).map rest))))
    | _ => none

/-- The allocator may answer `b` for a block that takes the place of `a`. -/
def Fresh (h : Heap) (a b : Nat) : Prop := b ≠ 0 ∧ (h b = none ∨ b = a)

/-! ## What accesses do -/

theorem load_words (h' : h a = some (.words ws)) : h.load a i = ws[i]? := by
  unfold load
  rw [h']

theorem store_words (h' : h a = some (.words ws)) (hi : i < ws.length) :
    h.store a i v = some (Function.update h a (some (.words (ws.set i v)))) := by
  unfold store
  rw [h']
  exact if_pos hi

/-- Zeroing leaves the words before and after. -/
theorem zero_words (h' : h a = some (.words ws)) (hi : i + n ≤ ws.length) :
    h.zero a i n =
      some (Function.update h a
        (some (.words (ws.take i ++ List.replicate n 0 ++ ws.drop (i + n))))) := by
  induction n generalizing h ws i with
  | zero =>
    have hsame : Function.update h a (some (.words ws)) = h := by
      rw [← h', Function.update_eq_self]
    rw [List.replicate_zero, List.append_nil, Nat.add_zero, List.take_append_drop, hsame]
    rfl
  | succ n ih =>
    have hlt : i < ws.length := by omega
    unfold zero
    rw [store_words h' hlt]
    have hnext : Function.update h a (some (.words (ws.set i 0))) a =
        some (.words (ws.set i 0)) := Function.update_self ..
    show zero _ a (i + 1) n = _
    rw [ih hnext (by rw [List.length_set]; omega), Function.update_idem]
    congr 3
    have htake : (ws.set i 0).take (i + 1) = ws.take i ++ [0] := by
      rw [List.take_set, List.take_add_one, List.getElem?_eq_getElem hlt]
      have hlen : (ws.take i).length = i := by
        rw [List.length_take]
        omega
      rw [List.set_append_right _ _ (by omega), hlen, Nat.sub_self]
      rfl
    have hdrop : (ws.set i 0).drop (i + 1 + n) = ws.drop (i + (n + 1)) := by
      rw [List.drop_set_of_lt (by omega)]
      congr 1
      omega
    rw [htake, hdrop, List.replicate_succ]
    simp

theorem free_null : h.free 0 = some h := if_pos rfl

theorem free_live (ha : a ≠ 0) (hlive : (h a).isSome) :
    h.free a = some (Function.update h a none) := by
  obtain ⟨blk, hblk⟩ := Option.isSome_iff_exists.mp hlive
  unfold free
  rw [if_neg ha, hblk]

/-! ## Freeing several blocks -/

/-- The heap without some blocks. -/
def erase (h : Heap) (as : List Nat) : Heap := fun a => if a ∈ as then none else h a

theorem erase_of_not_mem {as : List Nat} (ha : a ∉ as) : h.erase as a = h a := if_neg ha

theorem erase_update {as : List Nat} :
    erase (Function.update h a none) as = h.erase (a :: as) := by
  funext b
  unfold erase
  rcases Decidable.em (b ∈ as) with hb | hb
  · rw [if_pos hb, if_pos (List.mem_cons_of_mem a hb)]
  · rw [if_neg hb]
    rcases Decidable.em (b = a) with rfl | hba
    · rw [Function.update_self, if_pos List.mem_cons_self]
    · rw [Function.update_of_ne hba, if_neg fun hm => (List.mem_cons.mp hm).elim hba hb]

end Heap

end OopsMesa.Lib
