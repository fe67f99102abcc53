/-
  Streams of records that say their own length.

  A walk reads the entry at a position as a header, and steps over as many entries as the header
  says; `len` gives that number, or nothing where the walk stops. `HeaderFrom len s i j` says
  that a walk from `i` comes to `j`. Only entries at such positions are headers: every other
  entry is payload, whatever it looks like.

  `firstHeader` is the loop that looks for a header with a property; `firstHeader_spec` says that
  it finds the first one.

  Two walks that read the headers alike come to the same positions (`HeaderFrom.agree`), and part
  where they do not (`HeaderFrom.parts`). A loop that goes on by what a header says comes to the
  headers (`visits_iff`).
-/
import Mathlib.Logic.Basic
import OopsMesa.Lib.Loop

namespace OopsMesa.Lib

variable {α : Type} {len len' : α → Option Nat} {hit : Nat → Bool} {s s' : Nat → α} {i j k n : Nat}

/-- A walk from `i` comes to `j`. -/
inductive HeaderFrom (len : α → Option Nat) (s : Nat → α) : Nat → Nat → Prop
  | refl (i : Nat) : HeaderFrom len s i i
  | next {i j k : Nat} :
      len (s i) = some k → HeaderFrom len s (i + k) j → HeaderFrom len s i j

/-- No record is empty. -/
def Advances (len : α → Option Nat) : Prop := ∀ a k, len a = some k → 0 < k

theorem HeaderFrom.le (h : HeaderFrom len s i j) : i ≤ j := by
  induction h with
  | refl => exact Nat.le_refl _
  | next _ _ ih => omega

theorem HeaderFrom.trans (h : HeaderFrom len s i j) (h' : HeaderFrom len s j k) :
    HeaderFrom len s i k := by
  induction h with
  | refl => exact h'
  | next hk _ ih => exact .next hk (ih h')

/-- The first record of a walk that goes on. -/
theorem HeaderFrom.cases_lt (h : HeaderFrom len s i j) (hij : i < j) :
    ∃ k, len (s i) = some k ∧ HeaderFrom len s (i + k) j := by
  cases h with
  | refl => omega
  | next hk h => exact ⟨_, hk, h⟩

/-- The positions a walk comes to are on one path. -/
theorem HeaderFrom.linear (hlen : Advances len) (hj : HeaderFrom len s i j)
    (hk : HeaderFrom len s i k) (hjk : j ≤ k) : HeaderFrom len s j k := by
  induction hj with
  | refl => exact hk
  | next hl hj ih =>
    have hle := hj.le
    have hpos := hlen _ _ hl
    obtain ⟨l, hl', hk⟩ := hk.cases_lt (by omega)
    obtain rfl := Option.some.inj (hl.symm.trans hl')
    exact ih hk hjk

/-- Within a record there is no header. -/
theorem HeaderFrom.not_within (hlen : Advances len) (hi : HeaderFrom len s k i) {l : Nat}
    (hl : ∀ l', len (s i) = some l' → l ≤ l') (hij : i < j) (hj : j < i + l) :
    ¬ HeaderFrom len s k j := by
  intro h
  obtain ⟨l', hl', h⟩ := (hi.linear hlen h (by omega)).cases_lt hij
  have hle := hl l' hl'
  have hle' := h.le
  omega

/-- Two walks that read the headers of one of them alike. -/
theorem HeaderFrom.agree
    (hs : ∀ q, HeaderFrom len s i q → q < j → len (s q) = len' (s' q)) :
    HeaderFrom len s i j ↔ HeaderFrom len' s' i j := by
  constructor
  · intro h
    induction h with
    | refl => exact .refl _
    | @next i j k hk h ih =>
      rcases Nat.eq_or_lt_of_le (Nat.le_trans (Nat.le_add_right i k) h.le) with rfl | hij
      · exact .refl _
      · exact .next ((hs i (.refl i) hij).symm.trans hk)
          (ih fun q hq hqj => hs q (.next hk hq) hqj)
  · intro h
    induction h with
    | refl => exact .refl _
    | @next i j k hk h ih =>
      rcases Nat.eq_or_lt_of_le (Nat.le_trans (Nat.le_add_right i k) h.le) with rfl | hij
      · exact .refl _
      · have hk' := (hs i (.refl i) hij).trans hk
        exact .next hk' (ih fun q hq hqj => hs q (.next hk' hq) hqj)

/-- Two walks part at a header that takes the second further, or where the second stops. -/
theorem HeaderFrom.parts (hlen' : Advances len') (hi : HeaderFrom len s k i)
    (hi' : HeaderFrom len' s k i) {l : Nat} (hl : len (s i) = some l) (hpos : 0 < l)
    (hl' : ∀ l', len' (s i) = some l' → l < l') :
    HeaderFrom len s k (i + l) ∧ ¬ HeaderFrom len' s k (i + l) :=
  ⟨hi.trans (.next hl (.refl _)), hi'.not_within hlen' hl' (by omega) (by omega)⟩

/-- The first header from `i` on, before `n`, that is a hit; `n` where there is none. -/
def firstHeader (len : α → Option Nat) (hit : Nat → Bool) (s : Nat → α) (n : Nat) :
    Nat → Nat → Nat
  | 0, _ => n
  | fuel + 1, i =>
    if i < n then
      if hit i then i
      else
        match len (s i) with
        | none => n
        | some k => firstHeader len hit s n fuel (i + k)
    else n

/-- With a round for each entry, the search finds the first hit among the headers. -/
theorem firstHeader_spec (hlen : Advances len) (fuel : Nat) (hfuel : n ≤ i + fuel) :
    let r := firstHeader len hit s n fuel i
    r ≤ n ∧ (r < n → HeaderFrom len s i r ∧ hit r = true) ∧
      ∀ j, HeaderFrom len s i j → j < r → hit j = false := by
  induction fuel generalizing i with
  | zero =>
    refine ⟨Nat.le_refl n, fun h => absurd h (Nat.lt_irrefl n), fun j hj hjn => ?_⟩
    have hle := hj.le
    simp only [firstHeader] at hjn
    omega
  | succ fuel ih =>
    unfold firstHeader
    by_cases hin : i < n
    · rw [if_pos hin]
      cases hhit : hit i with
      | true =>
        refine ⟨Nat.le_of_lt hin, fun _ => ⟨.refl i, hhit⟩, fun j hj hji => ?_⟩
        have hle := hj.le
        have hji' : j < i := hji
        omega
      | false =>
        rw [if_neg Bool.false_ne_true]
        -- a header before the result is the present one, or comes after the present record
        have hstep : ∀ {r}, (∀ k j, len (s i) = some k → HeaderFrom len s (i + k) j → j < r →
            hit j = false) → ∀ j, HeaderFrom len s i j → j < r → hit j = false := by
          intro r hr j hj hjr
          rcases Nat.eq_or_lt_of_le hj.le with rfl | hij
          · exact hhit
          · obtain ⟨k, hk, hj⟩ := hj.cases_lt hij
            exact hr k j hk hj hjr
        cases hk : len (s i) with
        | none =>
          refine ⟨Nat.le_refl n, fun h => absurd h (Nat.lt_irrefl n), hstep ?_⟩
          intro k j hk'
          rw [hk] at hk'
          cases hk'
        | some k =>
          have hpos := hlen _ _ hk
          obtain ⟨hle, hfound, hfirst⟩ := ih (i := i + k) (by omega)
          refine ⟨hle, fun hlt => ⟨.next hk (hfound hlt).1, (hfound hlt).2⟩, hstep ?_⟩
          intro k' j hk' hj
          rw [hk, Option.some.injEq] at hk'
          subst hk'
          exact hfirst j hj
    · rw [if_neg hin]
      refine ⟨Nat.le_refl n, fun h => absurd h (Nat.lt_irrefl n), fun j hj hjn => ?_⟩
      have hle := hj.le
      have hjn' : j < n := hjn
      omega

/-! ## Loops that walk -/

/-- A loop comes to the headers of a stream of `n` entries, where a round that goes on goes on by
    what the header says, and goes on to every header there is. -/
theorem visits_iff {σ ρ : Type} {body : σ → Option (σ ⊕ ρ)} {pos : σ → Nat} {a : σ}
    (hgo : ∀ t t', pos t < n → body t = some (.inl t') →
      ∃ l, len (s (pos t)) = some l ∧ pos t' = pos t + l)
    (hend : ∀ t t', n ≤ pos t → body t ≠ some (.inl t'))
    (hnext : ∀ t l, HeaderFrom len s (pos a) (pos t) → len (s (pos t)) = some l →
      pos t + l < n → ∃ t', body t = some (.inl t')) (hj : j < n) :
    (∃ t, Visits body a t ∧ pos t = j) ↔ HeaderFrom len s (pos a) j := by
  constructor
  · intro ⟨t, ht, htj⟩
    subst htj
    clear hnext
    induction ht with
    | here => exact .refl _
    | @next t t' u hb _ ih =>
      rcases Nat.lt_or_ge (pos t) n with htn | htn
      · obtain ⟨l, hl, hpos⟩ := hgo t t' htn hb
        exact .next hl (hpos ▸ ih hj)
      · exact absurd hb (hend t t' htn)
  · -- the walk from a state the loop has come to
    have hrun : ∀ {i m}, HeaderFrom len s i m → m < n → ∀ t, pos t = i → Visits body a t →
        HeaderFrom len s (pos a) (pos t) → ∃ t, Visits body a t ∧ pos t = m := by
      intro i m h
      induction h with
      | refl => exact fun _ t ht hv _ => ⟨t, hv, ht⟩
      | @next i m l hl h ih =>
        intro hm t ht hv hat
        subst ht
        have hle := h.le
        obtain ⟨t', hb⟩ := hnext t l hat hl (by omega)
        obtain ⟨l', hl', hpos⟩ := hgo t t' (by omega) hb
        obtain rfl := Option.some.inj (hl.symm.trans hl')
        have hat' : HeaderFrom len s (pos t) (pos t') := by
          rw [hpos]
          exact .next hl (.refl _)
        exact ih hm t' hpos (hv.trans (.next hb (.here t'))) (hat.trans hat')
    exact fun h => hrun h hj a rfl (.here a) (.refl _)

end OopsMesa.Lib
