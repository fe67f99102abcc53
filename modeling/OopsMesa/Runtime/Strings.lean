/-
  The string functions of libc_absent.c.

  Each is its loop, over memory of which some bytes are there; a read or a write of any other goes
  wrong, and `Returns` says that none does and that the loop ends. On strings they are what their
  names say: `strcmp` orders strings as lists of unsigned bytes are ordered, `strspn` measures the
  longest start made of the accepted bytes, and `strcpy`, `strcat`, `stpcpy` and `strndup` write
  one string and its NUL and nothing else (`strings_read`, `strings_write`).

  A copy may overlap what it is copied from, if it does not begin inside it.
-/
import Mathlib.Order.Basic
import OopsMesa.Lib.Loop
import OopsMesa.Lib.Memory

namespace OopsMesa.Runtime

open OopsMesa.Lib

/-! ## The code -/

section Code

variable (mem : Bytes)

/-- One turn of the loop of `strcmp`, at `p` and `q`, or what is behind it. -/
def strcmpBody (at' : Nat × Nat) : Option ((Nat × Nat) ⊕ Int) := do
  let (p, q) := at'
  let c ← mem p
  let d ← mem q
  if c ≠ 0 ∧ c = d then some (.inl (p + 1, q + 1)) else some (.inr (c.toNat - d.toNat))

/-- Where `strspn` is: at `s[n]`, or at `a` in `accept`, looking for `s[n]`. -/
inductive SpanAt where
  | outer (n : Nat)
  | inner (n a : Nat)

/-- One turn of the loops of `strspn`. -/
def strspnBody (s accept : Nat) : SpanAt → Option (SpanAt ⊕ Nat)
  | .outer n => do
    let c ← mem (s + n)
    if c ≠ 0 then some (.inl (.inner n accept)) else some (.inr n)
  | .inner n a => do
    let c ← mem (s + n)
    let d ← mem a
    if d ≠ 0 ∧ d ≠ c then some (.inl (.inner n (a + 1)))
    else if d = 0 then some (.inr n)
    else some (.inl (.outer (n + 1)))

/-- One turn of the loop of `bcmp`. -/
def bcmpBody (p q n i : Nat) : Option (Nat ⊕ Int) :=
  if i < n then do
    let c ← mem (p + i)
    let d ← mem (q + i)
    if c ≠ d then some (.inr (c.toNat - d.toNat)) else some (.inl (i + 1))
  else some (.inr 0)

/-- One turn of the loop of `strnlen`, which is the first one of `strndup` too. -/
def strnlenBody (s maxlen n : Nat) : Option (Nat ⊕ Nat) :=
  if n < maxlen then do
    let c ← mem (s + n)
    if c ≠ 0 then some (.inl (n + 1)) else some (.inr n)
  else some (.inr n)

end Code

/-- Memory, and where a copy is: `out` and `src`. -/
structure CopyAt where
  mem : Bytes
  out : Nat
  src : Nat

/-- One turn of `while ((*out++ = *src++) != '\0')`; the end is where the NUL was written. -/
def copyBody (s : CopyAt) : Option (CopyAt ⊕ (Bytes × Nat)) := do
  let c ← s.mem s.src
  let mem ← s.mem.store s.out c
  if c ≠ 0 then some (.inl ⟨mem, s.out + 1, s.src + 1⟩) else some (.inr (mem, s.out))

/-- `strcpy` returns `dst`, and leaves `mem'`. -/
def Strcpy (mem : Bytes) (dst src : Nat) (r : Nat) (mem' : Bytes) : Prop :=
  ∃ last, Returns copyBody ⟨mem, dst, src⟩ (mem', last) ∧ r = dst

/-- `stpcpy`, whose loop counts `dst` itself. -/
def Stpcpy (mem : Bytes) (dst src : Nat) (r : Nat) (mem' : Bytes) : Prop :=
  Returns copyBody ⟨mem, dst, src⟩ (mem', r)

/-- One turn of the loop of `strcat` that looks for the end. -/
def endBody (mem : Bytes) (p : Nat) : Option (Nat ⊕ Nat) := do
  let c ← mem p
  if c ≠ 0 then some (.inl (p + 1)) else some (.inr p)

/-- `strcat` -/
def Strcat (mem : Bytes) (dst src : Nat) (r : Nat) (mem' : Bytes) : Prop :=
  ∃ last last', Returns (endBody mem) dst last ∧
    Returns copyBody ⟨mem, last, src⟩ (mem', last') ∧ r = dst

/-- One turn of the loop of `strndup` that copies, with memory and `i`, and the NUL behind it. -/
def strndupBody (s out len : Nat) (at' : Bytes × Nat) : Option ((Bytes × Nat) ⊕ Bytes) :=
  let (mem, i) := at'
  if i < len then do
    let c ← mem (s + i)
    let mem ← mem.store (out + i) c
    some (.inl (mem, i + 1))
  else do
    let mem ← mem.store (out + len) 0
    some (.inr mem)

/-- `strndup`, where `malloc` gives `out` for the bytes that it asks for; a null pointer is 0. -/
def Strndup (mem : Bytes) (s n : Nat) (malloc : Nat → Bytes × Nat) (r : Nat) (mem' : Bytes) :
    Prop :=
  ∃ len, Returns (strnlenBody mem s n) 0 len ∧
    let (mem, out) := malloc (len + 1)
    if out = 0 then r = 0 ∧ mem' = mem
    else Returns (strndupBody s out len) (mem, 0) mem' ∧ r = out

/-- One turn of the loop of `bzero`, with memory and `i`. -/
def bzeroBody (p n : Nat) (at' : Bytes × Nat) : Option ((Bytes × Nat) ⊕ Bytes) :=
  let (mem, i) := at'
  if i < n then do
    let mem ← mem.store (p + i) 0
    some (.inl (mem, i + 1))
  else some (.inr mem)

/-! ## Functions that read -/

/-- The difference of the first bytes that differ, the NUL included. -/
def difference : List UInt8 → List UInt8 → Int
  | [], [] => 0
  | [], d :: _ => 0 - d.toNat
  | c :: _, [] => c.toNat - 0
  | c :: s, d :: t => if c = d then difference s t else c.toNat - d.toNat

section Reading

variable {mem : Bytes} {p q a n i maxlen : Nat} {s t bs : List UInt8} {c d : UInt8}

theorem toNat_pos (h : c ≠ 0) : 0 < c.toNat :=
  Nat.pos_of_ne_zero fun hz => h (UInt8.toNat_inj.mp hz)

/-- No difference, on strings or on as many bytes, is to be the same. -/
theorem difference_eq_zero_iff (h : s.length = t.length ∨ 0 ∉ s ∧ 0 ∉ t) :
    difference s t = 0 ↔ s = t := by
  induction s generalizing t with
  | nil =>
    cases t with
    | nil => exact ⟨fun _ => rfl, fun _ => rfl⟩
    | cons d t =>
      rcases h with h | ⟨-, hnul⟩
      · cases h
      · have hd := toNat_pos (c := d) fun hz => hnul (hz ▸ List.mem_cons_self)
        unfold difference
        exact ⟨fun h => by omega, nofun⟩
  | cons c s ih =>
    cases t with
    | nil =>
      rcases h with h | ⟨hnul, -⟩
      · cases h
      · have hc := toNat_pos (c := c) fun hz => hnul (hz ▸ List.mem_cons_self)
        unfold difference
        exact ⟨fun h => by omega, nofun⟩
    | cons d t =>
      unfold difference
      rw [List.cons_eq_cons]
      split
      · next hcd =>
        have htail : s.length = t.length ∨ 0 ∉ s ∧ 0 ∉ t :=
          h.imp Nat.succ.inj fun h =>
            ⟨fun hs => h.1 (List.mem_cons_of_mem c hs), fun ht => h.2 (List.mem_cons_of_mem d ht)⟩
        rw [ih htail]
        exact ⟨fun h => ⟨hcd, h⟩, fun h => h.2⟩
      · next hcd =>
        refine ⟨fun h => absurd (UInt8.toNat_inj.mp ?_) hcd, fun h => absurd h.1 hcd⟩
        omega

/-- The difference is negative if the one string comes before the other. -/
theorem difference_neg_iff (hs : 0 ∉ s) (ht : 0 ∉ t) : difference s t < 0 ↔ s < t := by
  induction s generalizing t with
  | nil =>
    cases t with
    | nil => exact ⟨fun h => absurd h (Int.lt_irrefl 0), fun h => absurd h (List.lt_irrefl [])⟩
    | cons d t =>
      have hd := toNat_pos (c := d) fun hz => ht (hz ▸ List.mem_cons_self)
      unfold difference
      exact ⟨fun _ => List.nil_lt_cons d t, fun _ => by omega⟩
  | cons c s ih =>
    cases t with
    | nil =>
      unfold difference
      exact ⟨fun h => by omega, fun h => absurd h (List.not_lt_nil _)⟩
    | cons d t =>
      rw [List.mem_cons, not_or] at hs ht
      unfold difference
      rw [List.cons_lt_cons_iff, UInt8.lt_iff_toNat_lt]
      split
      · next hcd =>
        rw [ih hs.2 ht.2, hcd]
        exact ⟨fun h => .inr ⟨rfl, h⟩, fun h => h.elim (fun h => absurd h (Nat.lt_irrefl _)) (·.2)⟩
      · next hcd =>
        constructor
        · exact fun h => .inl (by omega)
        · rintro (h | h)
          · omega
          · exact absurd h.1 hcd

theorem strcmpBody_eq (hp : mem p = some c) (hq : mem q = some d) :
    strcmpBody mem (p, q) = if c ≠ 0 ∧ c = d then some (.inl (p + 1, q + 1))
      else some (.inr ((c.toNat : Int) - d.toNat)) := by
  unfold strcmpBody
  dsimp only
  rw [hp, hq]
  rfl

theorem strcmp_returns (hs : mem.Str p s) (ht : mem.Str q t) :
    Returns (strcmpBody mem) (p, q) (difference s t) := by
  induction s generalizing p q t with
  | nil =>
    have hstop : ∀ d : UInt8, ¬ ((0 : UInt8) ≠ 0 ∧ 0 = d) := fun _ h => h.1 rfl
    cases t with
    | nil => exact .ret ((strcmpBody_eq hs ht).trans (if_neg (hstop 0)))
    | cons d t => exact .ret ((strcmpBody_eq hs ht.1).trans (if_neg (hstop d)))
  | cons c s ih =>
    obtain ⟨hp, hc, hs'⟩ := hs
    cases t with
    | nil => exact .ret ((strcmpBody_eq hp ht).trans (if_neg fun h => h.1 h.2))
    | cons d t =>
      obtain ⟨hq, -, ht'⟩ := ht
      unfold difference
      by_cases hcd : c = d
      · rw [if_pos hcd]
        exact .next ((strcmpBody_eq hp hq).trans (if_pos ⟨hc, hcd⟩)) (ih hs' ht')
      · rw [if_neg hcd]
        exact .ret ((strcmpBody_eq hp hq).trans (if_neg fun h => hcd h.2))

theorem strspnBody_outer (accept : Nat) (hc : mem (p + n) = some c) :
    strspnBody mem p accept (.outer n) =
      if c ≠ 0 then some (.inl (.inner n accept)) else some (.inr n) := by
  unfold strspnBody
  dsimp only
  rw [hc]
  rfl

theorem strspnBody_inner (accept : Nat) (hc : mem (p + n) = some c) (hd : mem a = some d) :
    strspnBody mem p accept (.inner n a) =
      if d ≠ 0 ∧ d ≠ c then some (.inl (.inner n (a + 1)))
      else if d = 0 then some (.inr n) else some (.inl (.outer (n + 1))) := by
  unfold strspnBody
  dsimp only
  rw [hc, hd]
  rfl

/-- The inner loop of `strspn` goes on if it finds the byte, and ends the outer one if not. -/
theorem strspn_inner (accept : Nat) (hc : mem (p + n) = some c) (ht : mem.Str a t) :
    if c ∈ t then Visits (strspnBody mem p accept) (.inner n a) (.outer (n + 1))
    else Returns (strspnBody mem p accept) (.inner n a) n := by
  induction t generalizing a with
  | nil =>
    rw [if_neg List.not_mem_nil]
    have hbody := strspnBody_inner accept hc ht
    rw [if_neg fun h => h.1 rfl, if_pos rfl] at hbody
    exact .ret hbody
  | cons d t ih =>
    obtain ⟨ha, hd, ht'⟩ := ht
    have hbody := strspnBody_inner accept hc ha
    by_cases hdc : d = c
    · rw [if_pos (hdc ▸ List.mem_cons_self)]
      rw [if_neg fun h => h.2 hdc, if_neg hd] at hbody
      exact .next hbody (.here _)
    · rw [if_pos ⟨hd, hdc⟩] at hbody
      have hmem : c ∈ d :: t ↔ c ∈ t := by
        rw [List.mem_cons]
        exact ⟨fun h => h.resolve_left (Ne.symm hdc), .inr⟩
      have ih' := ih ht'
      simp only [hmem]
      split at ih'
      · rw [if_pos ‹_›]
        exact .next hbody ih'
      · rw [if_neg ‹_›]
        exact .next hbody ih'

theorem strspn_outer (hs : mem.Str (p + n) s) (ht : mem.Str q t) :
    Returns (strspnBody mem p q) (.outer n) (n + (s.takeWhile (· ∈ t)).length) := by
  induction s generalizing n with
  | nil => exact .ret ((strspnBody_outer q hs).trans (if_neg (not_not_intro rfl)))
  | cons c s ih =>
    obtain ⟨hp, hc, hs'⟩ := hs
    have hbody := (strspnBody_outer q hp).trans (if_pos hc)
    have hinner := strspn_inner q hp ht
    rw [List.takeWhile_cons]
    split at hinner
    · next hin =>
      have hnext : Returns (strspnBody mem p q) (.outer (n + 1)) _ := ih hs'
      rw [decide_eq_true hin, if_pos rfl, List.length_cons,
        show n + ((s.takeWhile (· ∈ t)).length + 1) = n + 1 + (s.takeWhile (· ∈ t)).length by omega]
      exact .next hbody (hinner.returns hnext)
    · next hout =>
      rw [decide_eq_false hout, if_neg Bool.false_ne_true]
      exact .next hbody hinner

theorem bcmp_returns (hs : mem.Has (p + i) s) (ht : mem.Has (q + i) t) (hlen : s.length = t.length)
    (hn : i + s.length = n) : Returns (bcmpBody mem p q n) i (difference s t) := by
  induction s generalizing i t with
  | nil =>
    obtain rfl := List.length_eq_zero_iff.mp hlen.symm
    refine .ret ?_
    unfold bcmpBody
    rw [if_neg (by rw [List.length_nil] at hn; omega)]
    rfl
  | cons c s ih =>
    cases t with
    | nil => cases hlen
    | cons d t =>
      obtain ⟨hp, hs'⟩ := hs
      obtain ⟨hq, ht'⟩ := ht
      rw [List.length_cons] at hn
      have hbody : bcmpBody mem p q n i =
          if c ≠ d then some (.inr ((c.toNat : Int) - d.toNat)) else some (.inl (i + 1)) := by
        unfold bcmpBody
        rw [if_pos (by omega), hp, hq]
        rfl
      unfold difference
      by_cases hcd : c = d
      · rw [if_pos hcd]
        rw [if_neg (not_not_intro hcd)] at hbody
        exact .next hbody (ih hs' ht' (Nat.succ.inj hlen) (by omega))
      · rw [if_neg hcd]
        exact .ret (hbody.trans (if_pos hcd))

/-- `strnlen` looks at no more bytes than it may, nor at any behind a NUL. -/
theorem strnlen_returns (hs : mem.Has (p + n) bs) (hend : n + bs.length = maxlen ∨ 0 ∈ bs) :
    Returns (strnlenBody mem p maxlen) n
      (n + ((bs.take (maxlen - n)).takeWhile (· ≠ 0)).length) := by
  induction bs generalizing n with
  | nil =>
    rcases hend with hend | hend
    · rw [List.length_nil] at hend
      rw [List.take_nil]
      exact .ret (if_neg (by omega))
    · exact absurd hend List.not_mem_nil
  | cons c bs ih =>
    obtain ⟨hp, hs'⟩ := hs
    by_cases hlt : n < maxlen
    · have hbody : strnlenBody mem p maxlen n =
          if c ≠ 0 then some (.inl (n + 1)) else some (.inr n) := by
        unfold strnlenBody
        rw [if_pos hlt, hp]
        rfl
      rw [show maxlen - n = maxlen - (n + 1) + 1 by omega, List.take_succ_cons,
        List.takeWhile_cons]
      by_cases hc : c = 0
      · rw [decide_eq_false (not_not_intro hc), if_neg Bool.false_ne_true]
        exact .ret (hbody.trans (if_neg (not_not_intro hc)))
      · have hend' : n + 1 + bs.length = maxlen ∨ 0 ∈ bs := by
          rw [List.length_cons] at hend
          refine hend.imp (fun h => by omega) fun h => ?_
          exact (List.mem_cons.mp h).resolve_left (Ne.symm hc)
        rw [decide_eq_true hc, if_pos rfl, List.length_cons,
          show ∀ k, n + (k + 1) = n + 1 + k by omega]
        exact .next (hbody.trans (if_pos hc)) (ih hs' hend')
    · rw [show maxlen - n = 0 by omega, List.take_zero]
      exact .ret (if_neg hlt)

end Reading

/-! ## Functions that write -/

section Writing

variable {mem m : Bytes} {p out src dst i k n len : Nat} {s t bs : List UInt8} {c : UInt8}

theorem copyBody_eq (hsrc : mem src = some c) (hout : (mem out).isSome) :
    copyBody ⟨mem, out, src⟩ =
      if c ≠ 0 then some (.inl ⟨Function.update mem out (some c), out + 1, src + 1⟩)
      else some (.inr (Function.update mem out (some c), out)) := by
  unfold copyBody
  dsimp only
  rw [hsrc]
  show ((mem.store out c).bind fun m => _) = _
  rw [Bytes.store_eq hout]
  rfl

/-- A copy ends where the string does. -/
theorem copy_returns (hs : mem.Str src s) (hroom : mem.Room out (s.length + 1))
    (hapart : out ≤ src ∨ src + s.length < out) :
    Returns copyBody ⟨mem, out, src⟩ (mem.put out (s ++ [0]), out + s.length) := by
  induction s generalizing mem out src with
  | nil => exact .ret ((copyBody_eq hs hroom.head).trans (if_neg (not_not_intro rfl)))
  | cons c s ih =>
    obtain ⟨hsrc, hc, hs'⟩ := hs
    rw [List.length_cons] at hroom hapart
    have hput : Function.update mem out (some c) = mem.put out [c] := rfl
    have hrest : Bytes.Str (Function.update mem out (some c)) (src + 1) s := by
      rw [hput]
      refine hs'.put_outside ?_
      rw [List.length_singleton]
      omega
    have hroom' : Bytes.Room (Function.update mem out (some c)) (out + 1) (s.length + 1) :=
      hroom.tail.update
    have hnext := ih hrest hroom' (by omega)
    rw [List.length_cons, show out + (s.length + 1) = out + 1 + s.length by omega]
    exact .next ((copyBody_eq hsrc hroom.head).trans (if_pos hc)) hnext

theorem end_returns (hs : mem.Str p s) : Returns (endBody mem) p (p + s.length) := by
  induction s generalizing p with
  | nil =>
    have hp : mem p = some 0 := hs
    refine .ret ?_
    unfold endBody
    rw [hp]
    rfl
  | cons c s ih =>
    obtain ⟨hp, hc, hs'⟩ := hs
    have hbody : endBody mem p = some (.inl (p + 1)) := by
      unfold endBody
      rw [hp]
      exact if_pos hc
    rw [List.length_cons, show p + (s.length + 1) = p + 1 + s.length by omega]
    exact .next hbody (ih hs')

theorem strndup_loop (hs : mem.Has (p + i) bs) (hlen : i + bs.length = len)
    (hroom : mem.Room (out + i) (bs.length + 1)) (hapart : p + len ≤ out ∨ out + len < p) :
    Returns (strndupBody p out len) (mem, i) (mem.put (out + i) (bs ++ [0])) := by
  induction bs generalizing mem i with
  | nil =>
    rw [List.length_nil] at hlen
    have hstore : mem.store (out + len) 0 = some (mem.put (out + i) ([] ++ [0])) := by
      rw [← hlen, Nat.add_zero]
      exact Bytes.store_eq hroom.head
    refine .ret ?_
    unfold strndupBody
    dsimp only
    rw [if_neg (by omega), hstore]
    rfl
  | cons c bs ih =>
    obtain ⟨hp, hs'⟩ := hs
    rw [List.length_cons] at hlen hroom
    have hbody : strndupBody p out len (mem, i) =
        some (.inl (Function.update mem (out + i) (some c), i + 1)) := by
      unfold strndupBody
      dsimp only
      rw [if_pos (by omega), hp]
      show ((mem.store (out + i) c).bind fun m => _) = _
      rw [Bytes.store_eq hroom.head]
      rfl
    have hrest : Bytes.Has (Function.update mem (out + i) (some c)) (p + (i + 1)) bs :=
      hs'.congr fun j hj => Function.update_of_ne (by omega) ..
    exact .next hbody (ih hrest (by omega) hroom.tail.update)

theorem bzero_loop (hlen : i + k = n) (hroom : mem.Room (p + i) k) :
    Returns (bzeroBody p n) (mem, i) (mem.put (p + i) (List.replicate k 0)) := by
  induction k generalizing mem i with
  | zero => exact .ret (if_neg (by omega))
  | succ k ih =>
    have hbody : bzeroBody p n (mem, i) =
        some (.inl (Function.update mem (p + i) (some 0), i + 1)) := by
      unfold bzeroBody
      dsimp only
      rw [if_pos (by omega), Bytes.store_eq hroom.head]
      rfl
    exact .next hbody (ih (by omega) hroom.tail.update)

end Writing

/-! ## What the functions are -/

/-- `strcmp`, `strspn`, `strnlen` and `bcmp` on the strings `s` and `t` at `p` and `q`. -/
structure StringsRead (mem : Bytes) (p q : Nat) (s t : List UInt8) : Prop where
  strcmp : ∃ r, Returns (strcmpBody mem) (p, q) r ∧ (r = 0 ↔ s = t) ∧ (r < 0 ↔ s < t)
  strspn : Returns (strspnBody mem p q) (.outer 0) (s.takeWhile (· ∈ t)).length
  strnlen : ∀ maxlen, Returns (strnlenBody mem p maxlen) 0 (s.take maxlen).length
  bcmp : ∀ n, n ≤ s.length → n ≤ t.length →
    ∃ r, Returns (bcmpBody mem p q n) 0 r ∧ (r = 0 ↔ s.take n = t.take n)

/-- What an allocator does: its block is new, and what there was is still there. -/
def Mallocs (mem : Bytes) (malloc : Nat → Bytes × Nat) : Prop :=
  ∀ n, (malloc n).2 ≠ 0 → (malloc n).1.Room (malloc n).2 n ∧
    (∀ x, (mem x).isSome → (malloc n).1 x = mem x) ∧ ∀ i < n, mem ((malloc n).2 + i) = none

/-- `strcpy`, `stpcpy`, `strcat` and `strndup` of the string `s` at `src`: what each returns, and
    what memory is then; and `bzero`. -/
structure StringsWrite (mem : Bytes) (src : Nat) (s : List UInt8) : Prop where
  strcpy : ∀ dst, mem.Room dst (s.length + 1) → dst ≤ src ∨ src + s.length < dst →
    ∀ r mem', Strcpy mem dst src r mem' ↔ r = dst ∧ mem' = mem.put dst (s ++ [0])
  stpcpy : ∀ dst, mem.Room dst (s.length + 1) → dst ≤ src ∨ src + s.length < dst →
    ∀ r mem', Stpcpy mem dst src r mem' ↔ r = dst + s.length ∧ mem' = mem.put dst (s ++ [0])
  strcat : ∀ dst t, mem.Str dst t → mem.Room (dst + t.length) (s.length + 1) →
    dst + t.length ≤ src ∨ src + s.length < dst + t.length →
    (∀ r mem', Strcat mem dst src r mem' ↔
      r = dst ∧ mem' = mem.put (dst + t.length) (s ++ [0])) ∧
    (mem.put (dst + t.length) (s ++ [0])).Str dst (t ++ s)
  strndup : ∀ n malloc, Mallocs mem malloc → ∀ r mem', Strndup mem src n malloc r mem' ↔
    let (m, out) := malloc ((s.take n).length + 1)
    if out = 0 then r = 0 ∧ mem' = m else r = out ∧ mem' = m.put out (s.take n ++ [0])
  bzero : ∀ dst n, mem.Room dst n →
    Returns (bzeroBody dst n) (mem, 0) (mem.put dst (List.replicate n 0))

section Functions

variable {mem : Bytes} {p q src : Nat} {s t bs : List UInt8}

theorem takeWhile_nul (hs : 0 ∉ s) (n : Nat) :
    ((s ++ [0]).take n).takeWhile (· ≠ 0) = s.take n := by
  induction s generalizing n with
  | nil =>
    cases n with
    | zero => rfl
    | succ n => rfl
  | cons c s ih =>
    cases n with
    | zero => rfl
    | succ n =>
      rw [List.mem_cons, not_or] at hs
      rw [List.cons_append, List.take_succ_cons, List.takeWhile_cons, ih hs.2,
        decide_eq_true (Ne.symm hs.1), if_pos rfl, List.take_succ_cons]

theorem strnlen_str (hs : mem.Str p s) (maxlen : Nat) :
    Returns (strnlenBody mem p maxlen) 0 (s.take maxlen).length := by
  obtain ⟨hhas, hnul⟩ := Bytes.str_iff.mp hs
  have h : Returns (strnlenBody mem p maxlen) 0 _ := strnlen_returns (n := 0) hhas
    (.inr (List.mem_append_right s (List.mem_singleton_self 0)))
  rw [Nat.sub_zero, takeWhile_nul hnul, Nat.zero_add] at h
  exact h

/-- **The functions that read strings** are what they are on lists of bytes. -/
theorem strings_read (hs : mem.Str p s) (ht : mem.Str q t) : StringsRead mem p q s t := by
  obtain ⟨hs', hsnul⟩ := Bytes.str_iff.mp hs
  obtain ⟨ht', htnul⟩ := Bytes.str_iff.mp ht
  refine ⟨⟨_, strcmp_returns hs ht, difference_eq_zero_iff (.inr ⟨hsnul, htnul⟩),
    difference_neg_iff hsnul htnul⟩, ?_, strnlen_str hs, fun n hn hn' => ?_⟩
  · have h := strspn_outer (n := 0) hs ht
    rwa [Nat.zero_add] at h
  · have hlen : (s.take n).length = (t.take n).length := by
      rw [List.length_take_of_le hn, List.length_take_of_le hn']
    have hend : 0 + (s.take n).length = n := by rw [List.length_take_of_le hn, Nat.zero_add]
    exact ⟨_, bcmp_returns (i := 0) ((Bytes.has_append.mp hs').1.take n)
      ((Bytes.has_append.mp ht').1.take n) hlen hend, difference_eq_zero_iff (.inl hlen)⟩

/-- "ab" at 1, and "b" at 10 with room behind it. -/
def twoStrings : Bytes := fun a =>
  if a = 1 then some 0x61 else if a = 2 then some 0x62 else if a = 3 then some 0
  else if a = 10 then some 0x62 else if a < 10 then none else if a < 14 then some 0 else none

theorem twoStrings_ab : twoStrings.Str 1 [0x61, 0x62] := ⟨rfl, by decide, rfl, by decide, rfl⟩

theorem strings_read_ab : StringsRead twoStrings 1 10 [0x61, 0x62] [0x62] :=
  strings_read twoStrings_ab ⟨rfl, by decide, rfl⟩

/-- **The functions that write strings** write a string and its NUL, and nothing else. -/
theorem strings_write (hs : mem.Str src s) : StringsWrite mem src s where
  strcpy dst hroom hapart r mem' := by
    have hcopy := copy_returns hs hroom hapart
    constructor
    · rintro ⟨last, hret, hr⟩
      exact ⟨hr, congrArg Prod.fst (hret.unique hcopy)⟩
    · rintro ⟨hr, rfl⟩
      exact ⟨_, hcopy, hr⟩
  stpcpy dst hroom hapart r mem' := by
    have hcopy := copy_returns hs hroom hapart
    constructor
    · intro hret
      have h := hret.unique hcopy
      exact ⟨congrArg Prod.snd h, congrArg Prod.fst h⟩
    · rintro ⟨rfl, rfl⟩
      exact hcopy
  strcat dst t ht hroom hapart := by
    have hend := end_returns ht
    have hcopy := copy_returns hs hroom hapart
    refine ⟨fun r mem' => ⟨?_, ?_⟩, ht.put_behind (Bytes.str_iff.mp hs).2⟩
    · rintro ⟨last, last', hend', hret, hr⟩
      rw [hend'.unique hend] at hret
      exact ⟨hr, congrArg Prod.fst (hret.unique hcopy)⟩
    · rintro ⟨hr, rfl⟩
      exact ⟨_, _, hend, hcopy, hr⟩
  strndup n malloc hmalloc r mem' := by
    have hlen := strnlen_str hs n
    have hshape : Strndup mem src n malloc r mem' ↔
        let (m, out) := malloc ((s.take n).length + 1)
        if out = 0 then r = 0 ∧ mem' = m
        else Returns (strndupBody src out (s.take n).length) (m, 0) mem' ∧ r = out := by
      constructor
      · rintro ⟨len, hlen', h⟩
        rw [hlen'.unique hlen] at h
        exact h
      · exact fun h => ⟨_, hlen, h⟩
    rw [hshape]
    have hm := hmalloc ((s.take n).length + 1)
    generalize malloc ((s.take n).length + 1) = block at hm ⊢
    obtain ⟨m, out⟩ := block
    dsimp only at hm ⊢
    by_cases hnull : out = 0
    · rw [if_pos hnull, if_pos hnull]
    rw [if_neg hnull, if_neg hnull]
    obtain ⟨hroom, hold, hnew⟩ := hm hnull
    have hhas : mem.Has src (s.take n) := (Bytes.has_append.mp (Bytes.str_iff.mp hs).1).1.take n
    have hapart : src + (s.take n).length ≤ out ∨ out + (s.take n).length < src := by
      by_contra hmeet
      have hmeet' : ∃ i j, i < (s.take n).length ∧ j < (s.take n).length + 1 ∧
          src + i = out + j := by
        rcases Nat.le_total src out with hle | hle
        · exact ⟨out - src, 0, by omega, by omega, by omega⟩
        · exact ⟨0, src - out, by omega, by omega, by omega⟩
      obtain ⟨i, j, hi, hj, hij⟩ := hmeet'
      have hsome := hhas.isSome hi
      rw [hij, hnew j hj] at hsome
      cases hsome
    have hcopy : Returns (strndupBody src out (s.take n).length) (m, 0)
        (m.put out (s.take n ++ [0])) :=
      strndup_loop (i := 0) (hhas.congr fun i hi => hold _ (hhas.isSome hi)) (Nat.zero_add _)
        hroom hapart
    constructor
    · rintro ⟨hret, hr⟩
      exact ⟨hr, hret.unique hcopy⟩
    · rintro ⟨hr, rfl⟩
      exact ⟨hcopy, hr⟩
  bzero dst n hroom := bzero_loop (i := 0) (Nat.zero_add n) hroom

/-- "ab" behind "b". -/
theorem strings_write_ab :
    Strcat twoStrings 10 1 10 (twoStrings.put 11 [0x61, 0x62, 0]) := by
  have h := strings_write twoStrings_ab
  have hroom : ∀ i < 3, (twoStrings (11 + i)).isSome := by decide
  exact ((h.strcat 10 [0x62] ⟨rfl, by decide, rfl⟩ hroom (by decide)).1 10 _).mpr ⟨rfl, rfl⟩

end Functions

end OopsMesa.Runtime
