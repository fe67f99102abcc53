/-
  Spans of a 64-bit address space, and translations defined on them.

  Addresses form a ring: `a` lies in the `n` addresses from `base` on when `a - base < n`, the
  subtraction wrapping as the machine's does (`InSpan`). A translation gives some addresses a
  value. `mapSpan` writes a span, `unmapSpan` clears one, `Backs` says that a span is written
  exactly as `mapSpan` would write it.

  Two spans that both end below the top of the address space are apart exactly when the usual
  two-comparison overlap test fails (`apart_of_no_overlap`). At the top the test is wrong, so
  `EndsBelowTop` is a hypothesis there.

  A `Lease` is a span with what it should translate to, a ledger a family of leases. `Kept`
  (every lease is backed, no two overlap) is the invariant of an owner of address space; the
  lemmas at the end are its rules, one for each thing such an owner does.
-/
import Mathlib.Logic.Function.Basic
import Mathlib.Tactic.Ring

namespace OopsMesa.Lib

/-! ## Spans -/

/-- `a` is one of the `n` addresses from `base` on. -/
def InSpan (base n a : UInt64) : Prop := a - base < n

instance (base n a : UInt64) : Decidable (InSpan base n a) :=
  inferInstanceAs (Decidable (_ < _))

/-- No address lies in both spans. -/
def Apart (base n base' n' : UInt64) : Prop := ∀ a, InSpan base n a → ¬ InSpan base' n' a

/-- The span does not reach the last address. -/
def EndsBelowTop (base n : UInt64) : Prop := base.toNat + n.toNat < 2 ^ 64

instance (base n : UInt64) : Decidable (EndsBelowTop base n) :=
  inferInstanceAs (Decidable (_ < _))

/-- The overlap test of two spans by their ends, as machine code writes it. -/
def endsOverlap (base n base' n' : UInt64) : Bool :=
  decide (base < base' + n') && decide (base' < base + n)

theorem inSpan_base {base n : UInt64} (hn : 0 < n) : InSpan base n base := by
  unfold InSpan
  simpa using hn

theorem inSpan_iff {base n a : UInt64} (h : EndsBelowTop base n) :
    InSpan base n a ↔ base.toNat ≤ a.toNat ∧ a.toNat < base.toNat + n.toNat := by
  have ha := a.toNat_lt
  have hb := base.toNat_lt
  unfold EndsBelowTop at h
  unfold InSpan
  rw [UInt64.lt_iff_toNat_lt, UInt64.toNat_sub]
  omega

theorem Apart.symm {base n base' n' : UInt64} (h : Apart base n base' n') :
    Apart base' n' base n := fun a ha hb => h a hb ha

/-- The two-comparison test finds every overlap of spans that end below the top. -/
theorem apart_of_no_overlap {base n base' n' : UInt64} (h : EndsBelowTop base n)
    (h' : EndsBelowTop base' n') (ho : endsOverlap base n base' n' = false) :
    Apart base n base' n' := by
  intro a ha ha'
  rw [inSpan_iff h] at ha
  rw [inSpan_iff h'] at ha'
  unfold EndsBelowTop at h h'
  have hlt : base < base' + n' := by
    rw [UInt64.lt_iff_toNat_lt, UInt64.toNat_add, Nat.mod_eq_of_lt h']
    omega
  have hlt' : base' < base + n := by
    rw [UInt64.lt_iff_toNat_lt, UInt64.toNat_add, Nat.mod_eq_of_lt h]
    omega
  simp [endsOverlap, hlt, hlt'] at ho

/-- Two spans share an address exactly when one of them starts in the other. -/
def spansMeet (base n base' n' : UInt64) : Bool :=
  decide (InSpan base n base' ∧ 0 < n') || decide (InSpan base' n' base ∧ 0 < n)

theorem apart_of_not_meet {base n base' n' : UInt64} (h : spansMeet base n base' n' = false) :
    Apart base n base' n' := by
  intro a ha ha'
  simp only [spansMeet, Bool.or_eq_false_iff, decide_eq_false_iff_not] at h
  obtain ⟨h1, h2⟩ := h
  have hx := (a - base).toNat_lt
  have hy := (a - base').toNat_lt
  -- the distance between the two starts is the difference of the two offsets of `a`
  have hd : base' - base = (a - base) - (a - base') := by grind
  have hd' : base - base' = (a - base') - (a - base) := by grind
  unfold InSpan at *
  rw [hd] at h1
  rw [hd'] at h2
  generalize a - base = x at *
  generalize a - base' = y at *
  simp only [UInt64.lt_iff_toNat_lt, UInt64.toNat_sub, UInt64.toNat_zero] at *
  omega

theorem not_meet_of_apart {base n base' n' : UInt64} (h : Apart base n base' n') :
    spansMeet base n base' n' = false := by
  simp only [spansMeet, Bool.or_eq_false_iff, decide_eq_false_iff_not]
  refine ⟨?_, ?_⟩
  · rintro ⟨hin, hn⟩
    exact h base' hin (inSpan_base hn)
  · rintro ⟨hin, hn⟩
    exact h base (inSpan_base hn) hin

/-- A span inside another. -/
theorem InSpan.widen {base n n' a : UInt64} (h : InSpan base n a) (hn : n ≤ n') :
    InSpan base n' a := by
  unfold InSpan at *
  rw [UInt64.lt_iff_toNat_lt] at *
  rw [UInt64.le_iff_toNat_le] at hn
  omega

/-! ## Translations -/

section Translation

variable {β : Type}

/-- The span written: address `base + off` gets `f off`. -/
def mapSpan (t : UInt64 → Option β) (base n : UInt64) (f : UInt64 → β) : UInt64 → Option β :=
  fun a => if InSpan base n a then some (f (a - base)) else t a

/-- The span cleared. -/
def unmapSpan (t : UInt64 → Option β) (base n : UInt64) : UInt64 → Option β :=
  fun a => if InSpan base n a then none else t a

/-- The span reads as `mapSpan` with `f` writes it. -/
def Backs (t : UInt64 → Option β) (base n : UInt64) (f : UInt64 → β) : Prop :=
  ∀ a, InSpan base n a → t a = some (f (a - base))

variable {t t' : UInt64 → Option β} {base n base' n' a : UInt64} {f g : UInt64 → β}

theorem mapSpan_of_inSpan (h : InSpan base n a) : mapSpan t base n f a = some (f (a - base)) :=
  if_pos h

theorem mapSpan_of_not_inSpan (h : ¬ InSpan base n a) : mapSpan t base n f a = t a := if_neg h

theorem unmapSpan_of_inSpan (h : InSpan base n a) : unmapSpan t base n a = none := if_pos h

theorem unmapSpan_of_not_inSpan (h : ¬ InSpan base n a) : unmapSpan t base n a = t a := if_neg h

/-- Clearing a span adds no translation. -/
theorem of_unmapSpan_eq_some {v : β} (h : unmapSpan t base n a = some v) :
    ¬ InSpan base n a ∧ t a = some v := by
  unfold unmapSpan at h
  split at h
  · cases h
  · exact ⟨‹_›, h⟩

theorem backs_mapSpan : Backs (mapSpan t base n f) base n f :=
  fun _ ha => mapSpan_of_inSpan ha

/-- A span is backed in any translation that agrees with a backing one on it. -/
theorem Backs.congr (h : Backs t base n f) (heq : ∀ a, InSpan base n a → t' a = t a) :
    Backs t' base n f := fun a ha => (heq a ha).trans (h a ha)

theorem Backs.mapSpan (h : Backs t base n f) (hap : Apart base n base' n') :
    Backs (mapSpan t base' n' g) base n f :=
  h.congr fun a ha => mapSpan_of_not_inSpan (hap a ha)

/-- A span that is backed already is left as clearing and rewriting it would leave it. -/
theorem Backs.eq_map_unmap (h : Backs t base n f) :
    Lib.mapSpan (Lib.unmapSpan t base n) base n f = t := by
  funext a
  by_cases ha : InSpan base n a
  · rw [mapSpan_of_inSpan ha, h a ha]
  · rw [mapSpan_of_not_inSpan ha, unmapSpan_of_not_inSpan ha]

private theorem sub_add_eq (a b c : UInt64) : a - (b + c) = a - b - c := by grind

private theorem add_sub_add (a b c : UInt64) : c + (a - (b + c)) = a - b := by grind

/-- A span is its first `m` addresses and then the other `k`. -/
theorem inSpan_add {base m k a : UInt64} (h : m.toNat + k.toNat < 2 ^ 64) :
    InSpan base (m + k) a ↔ InSpan base m a ∨ ¬ InSpan base m a ∧ InSpan (base + m) k a := by
  have hx := (a - base).toNat_lt
  unfold InSpan
  rw [sub_add_eq]
  simp only [UInt64.lt_iff_toNat_lt, UInt64.toNat_add, UInt64.toNat_sub (a - base) m]
  omega

/-- Writing a span is writing its first `m` addresses and then the other `k`. -/
theorem mapSpan_add {m k : UInt64} (h : m.toNat + k.toNat < 2 ^ 64) :
    mapSpan t base (m + k) f =
      mapSpan (mapSpan t base m f) (base + m) k fun off => f (m + off) := by
  funext a
  by_cases h1 : InSpan base m a
  · have h2 : ¬ InSpan (base + m) k a := by
      have hx := (a - base).toNat_lt
      unfold InSpan at *
      rw [sub_add_eq]
      simp only [UInt64.lt_iff_toNat_lt, UInt64.toNat_sub (a - base) m] at *
      omega
    rw [mapSpan_of_not_inSpan h2, mapSpan_of_inSpan h1,
      mapSpan_of_inSpan ((inSpan_add h).mpr (.inl h1))]
  · by_cases h2 : InSpan (base + m) k a
    · rw [mapSpan_of_inSpan h2, mapSpan_of_inSpan ((inSpan_add h).mpr (.inr ⟨h1, h2⟩)),
        add_sub_add]
    · have h3 : ¬ InSpan base (m + k) a := by
        rw [inSpan_add h]
        exact fun hc => hc.elim h1 fun hc => h2 hc.2
      rw [mapSpan_of_not_inSpan h2, mapSpan_of_not_inSpan h1, mapSpan_of_not_inSpan h3]

/-- A backed span and a span without translations are apart. -/
theorem Backs.apart_of_clear (h : Backs t base n f) (hc : ∀ a, InSpan base' n' a → t a = none) :
    Apart base n base' n' := by
  intro a ha ha'
  have := h a ha
  rw [hc a ha'] at this
  cases this

end Translation

/-! ## Ledgers -/

section Ledger

variable {ι β : Type}

/-- A span and what its addresses should translate to. -/
structure Lease (β : Type) where
  base : UInt64
  size : UInt64
  val : UInt64 → β

/-- Two leases share no address. -/
def Lease.Apart (l m : Lease β) : Prop := Lib.Apart l.base l.size m.base m.size

/-- Every lease of the ledger is backed, and no two of them overlap. -/
structure Kept (t : UInt64 → Option β) (L : ι → Option (Lease β)) : Prop where
  backed : ∀ i l, L i = some l → Backs t l.base l.size l.val
  apart : ∀ i j l m, i ≠ j → L i = some l → L j = some m → l.Apart m

variable {t t' : UInt64 → Option β} {L L' : ι → Option (Lease β)}

theorem Kept.empty (hL : ∀ i, L i = none) : Kept t L where
  backed i l hi := by simp [hL i] at hi
  apart i _ l _ _ hi := by simp [hL i] at hi

/-- A ledger whose leases are leases of another, no one taken twice, is kept with it. -/
theorem Kept.reindex {κ : Type} {M : κ → Option (Lease β)} (h : Kept t L)
    (σ : κ → ι) (hσ : ∀ k l, M k = some l → L (σ k) = some l)
    (hinj : ∀ j k l m, M j = some l → M k = some m → σ j = σ k → j = k) : Kept t M where
  backed k l hk := h.backed _ _ (hσ k l hk)
  apart j k l m hjk hj hk :=
    h.apart _ _ _ _ (fun he => hjk (hinj j k l m hj hk he)) (hσ j l hj) (hσ k m hk)

/-- Leases may be given up. -/
theorem Kept.forget (h : Kept t L) (hL : ∀ i l, L' i = some l → L i = some l) : Kept t L' :=
  h.reindex id hL fun _ _ _ _ _ _ he => he

/-- The translation may change anywhere off the leases. -/
theorem Kept.congr (h : Kept t L)
    (heq : ∀ i l a, L i = some l → InSpan l.base l.size a → t' a = t a) : Kept t' L where
  backed i l hi := (h.backed i l hi).congr fun a ha => heq i l a hi ha
  apart := h.apart

/-- A span apart from every lease may be cleared. -/
theorem Kept.unmapSpan {base n : UInt64} (h : Kept t L)
    (hap : ∀ i l, L i = some l → Lib.Apart l.base l.size base n) :
    Kept (Lib.unmapSpan t base n) L :=
  h.congr fun i l a hi ha => unmapSpan_of_not_inSpan (hap i l hi a ha)

variable [DecidableEq ι]

/-- A lease ends by clearing its span. -/
theorem Kept.release {i : ι} {l : Lease β} (h : Kept t L) (hi : L i = some l) :
    Kept (Lib.unmapSpan t l.base l.size) (Function.update L i none) := by
  refine (h.forget ?_).unmapSpan ?_
  · intro j m hj
    by_cases hji : j = i
    · subst hji; simp at hj
    · simpa [Function.update_of_ne hji] using hj
  · intro j m hj
    by_cases hji : j = i
    · subst hji; simp at hj
    · rw [Function.update_of_ne hji] at hj
      exact h.apart j i m l hji hj hi

/-- A lease passes to a holder of none. -/
theorem Kept.pass {i j : ι} {l : Lease β} (h : Kept t L) (hi : L i = some l) (hj : L j = none) :
    Kept t (Function.update (Function.update L i none) j (some l)) := by
  have hij : i ≠ j := by
    rintro rfl
    rw [hi] at hj
    cases hj
  -- the new holder stands where the old one did
  refine h.reindex (fun k => if k = j then i else k) (fun k m hk => ?_) fun a b m o ha hb hab => ?_
  · by_cases hkj : k = j
    · subst hkj
      rw [Function.update_self, Option.some.injEq] at hk
      rw [if_pos rfl, hi, hk]
    · rw [Function.update_of_ne hkj] at hk
      rw [if_neg hkj]
      by_cases hki : k = i
      · subst hki; simp at hk
      · rwa [Function.update_of_ne hki] at hk
  · have hni : ∀ k m, Function.update (Function.update L i none) j (some l) k = some m →
        k ≠ i := by
      rintro k m hk rfl
      rw [Function.update_of_ne hij, Function.update_self] at hk
      cases hk
    by_cases haj : a = j
    · by_cases hbj : b = j
      · rw [haj, hbj]
      · rw [if_pos haj, if_neg hbj] at hab
        exact absurd hab.symm (hni b o hb)
    · by_cases hbj : b = j
      · rw [if_neg haj, if_pos hbj] at hab
        exact absurd hab (hni a m ha)
      · rwa [if_neg haj, if_neg hbj] at hab

/-- A span that is backed and apart from every other lease may be recorded. -/
theorem Kept.record {i : ι} {l : Lease β} (h : Kept t L) (hb : Backs t l.base l.size l.val)
    (hap : ∀ j m, j ≠ i → L j = some m → m.Apart l) :
    Kept t (Function.update L i (some l)) where
  backed j m hj := by
    by_cases hji : j = i
    · subst hji
      rw [Function.update_self, Option.some.injEq] at hj
      subst hj
      exact hb
    · rw [Function.update_of_ne hji] at hj
      exact h.backed j m hj
  apart j k m o hjk hj hk := by
    by_cases hji : j = i
    · subst hji
      rw [Function.update_self, Option.some.injEq] at hj
      rw [Function.update_of_ne (Ne.symm hjk)] at hk
      subst hj
      exact (hap k o (Ne.symm hjk) hk).symm
    · rw [Function.update_of_ne hji] at hj
      by_cases hki : k = i
      · subst hki
        rw [Function.update_self, Option.some.injEq] at hk
        subst hk
        exact hap j m hji hj
      · rw [Function.update_of_ne hki] at hk
        exact h.apart j k m o hjk hj hk

/-- A span apart from every other lease may be written and recorded. -/
theorem Kept.mapSpan {i : ι} {l : Lease β} (h : Kept t L)
    (hap : ∀ j m, j ≠ i → L j = some m → m.Apart l) :
    Kept (Lib.mapSpan t l.base l.size l.val) (Function.update L i (some l)) := by
  have hL : Kept t (Function.update L i none) := by
    refine h.forget fun j m hj => ?_
    by_cases hji : j = i
    · subst hji; simp at hj
    · simpa [Function.update_of_ne hji] using hj
  have h' : Kept (Lib.mapSpan t l.base l.size l.val) (Function.update L i none) := by
    refine hL.congr fun j m a hj ha => mapSpan_of_not_inSpan ?_
    by_cases hji : j = i
    · subst hji; simp at hj
    · rw [Function.update_of_ne hji] at hj
      exact hap j m hji hj a ha
  have := h'.record (i := i) (l := l) backs_mapSpan fun j m hji hj => by
    rw [Function.update_of_ne hji] at hj
    exact hap j m hji hj
  rwa [Function.update_idem] at this

end Ledger

end OopsMesa.Lib
