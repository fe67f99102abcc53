/-
  `__next_prime`, the size a hash table grows to.

  The odd numbers from `n` on are tried in turn; multiples of three are passed over, and the
  others are divided by the numbers one off a multiple of six, up to the root. The two loops are
  one here, whose state says in which of the two it is; a round whose sum or product does not fit
  64 bits gives nothing, so `Returns` says that there was none.

  Passing over the multiples of three passes over three. And the last divisor whose square fits
  is `lastDivisor`: a prime from its square on is divided by it, and the square of the next
  wraps. Everywhere else the function returns the least prime from `n` on (`nextPrime_iff`).
-/
import Mathlib.Algebra.Group.Nat.Defs
import OopsMesa.Lib.Loop
import OopsMesa.Lib.TrialDivision
import OopsMesa.Lib.Words

namespace OopsMesa.Runtime

open OopsMesa.Lib

/-! ## The code -/

/-- At the head of the outer loop, and of the inner one. -/
inductive PrimeLoop where
  | candidate (n : UInt64)
  | divisor (n d : UInt64)
  deriving DecidableEq

/-- A round from there, or what is returned. -/
def primeRound : PrimeLoop → PrimeLoop ⊕ UInt64
  | .candidate n => if n % 3 = 0 then .inl (.candidate (n + 2)) else .inl (.divisor n 5)
  | .divisor n d =>
    if d * d ≤ n then
      if n % d = 0 ∨ n % (d + 2) = 0 then .inl (.candidate (n + 2)) else .inl (.divisor n (d + 6))
    else .inr n

/-- The sums and products of a round fit. -/
def Unwrapped : PrimeLoop → Prop
  | .candidate n => n % 3 = 0 → n.toNat + 2 < 2 ^ 64
  | .divisor n d => d.toNat * d.toNat < 2 ^ 64 ∧ (d * d ≤ n → d.toNat + 6 < 2 ^ 64 ∧
      (n % d = 0 ∨ n % (d + 2) = 0 → n.toNat + 2 < 2 ^ 64))

instance : DecidablePred Unwrapped
  | .candidate n => inferInstanceAs (Decidable (n % 3 = 0 → n.toNat + 2 < 2 ^ 64))
  | .divisor n d => inferInstanceAs (Decidable (d.toNat * d.toNat < 2 ^ 64 ∧
      (d * d ≤ n → d.toNat + 6 < 2 ^ 64 ∧
        (n % d = 0 ∨ n % (d + 2) = 0 → n.toNat + 2 < 2 ^ 64))))

/-- A round, where nothing wraps in it. -/
def nextPrimeBody (s : PrimeLoop) : Option (PrimeLoop ⊕ UInt64) :=
  if Unwrapped s then some (primeRound s) else none

/-- `__next_prime(n)` returns `p`, and nothing wraps on the way. -/
def NextPrime (n p : UInt64) : Prop :=
  if n ≤ 2 then p = 2 else Returns nextPrimeBody (.candidate (n ||| 1)) p

/-! ## The statement -/

/-- The function returns the least prime from `n` on, with nothing wrapping. -/
def ReturnsLeastPrime (n : UInt64) : Prop :=
  ∃ p, NextPrime n p ∧ p.toNat.Prime ∧ n.toNat ≤ p.toNat ∧
    ∀ q, q.Prime → n.toNat ≤ q → p.toNat ≤ q

/-- The last divisor whose square fits. -/
def lastDivisor : Nat := 2 ^ 32 - 5

variable {n c d p : UInt64} {m : Nat}

/-! ## Rounds -/

theorem mod_eq_zero_iff {a b : UInt64} : a % b = 0 ↔ a.toNat % b.toNat = 0 := by
  rw [← UInt64.toNat_inj, UInt64.toNat_mod]
  rfl

theorem square_le_iff (h : d.toNat * d.toNat < 2 ^ 64) :
    d * d ≤ n ↔ d.toNat * d.toNat ≤ n.toNat := by
  rw [UInt64.le_iff_toNat_le, UInt64.toNat_mul, Nat.mod_eq_of_lt h]

/-- A multiple of three is passed over. -/
theorem body_third (h : n.toNat % 3 = 0) (hn : n.toNat + 2 < 2 ^ 64) :
    nextPrimeBody (.candidate n) = some (.inl (.candidate (n + 2))) := by
  have h3 : n % 3 = 0 := mod_eq_zero_iff.mpr h
  unfold nextPrimeBody primeRound
  rw [if_pos (show Unwrapped (.candidate n) from fun _ => hn)]
  dsimp only
  rw [if_pos h3]

/-- Another candidate is divided, from five on. -/
theorem body_candidate (h : n.toNat % 3 ≠ 0) :
    nextPrimeBody (.candidate n) = some (.inl (.divisor n 5)) := by
  have h3 : ¬ n % 3 = 0 := fun h3 => h (mod_eq_zero_iff.mp h3)
  unfold nextPrimeBody primeRound
  rw [if_pos (show Unwrapped (.candidate n) from fun hz => absurd hz h3)]
  dsimp only
  rw [if_neg h3]

/-- A divisor whose square is no more than `n`. -/
theorem divisor_lt (h : d.toNat * d.toNat ≤ n.toNat) : d.toNat < 2 ^ 32 := by
  have hn := n.toNat_lt
  by_contra hge
  have hsq := Nat.mul_le_mul (Nat.le_of_not_lt hge) (Nat.le_of_not_lt hge)
  omega

theorem add_six (h : d.toNat < 2 ^ 32) : (d + 6).toNat = d.toNat + 6 :=
  toNat_add_of_lt (show d.toNat + 6 < 2 ^ 64 by omega)

theorem add_two (h : n.toNat + 2 < 2 ^ 64) : (n + 2).toNat = n.toNat + 2 := toNat_add_of_lt h

/-- One of the pair divides: on to the next candidate. -/
theorem body_found (h : d.toNat * d.toNat ≤ n.toNat)
    (hfound : n.toNat % d.toNat = 0 ∨ n.toNat % (d.toNat + 2) = 0) (hn : n.toNat + 2 < 2 ^ 64) :
    nextPrimeBody (.divisor n d) = some (.inl (.candidate (n + 2))) := by
  have hd := divisor_lt h
  have hsq : d.toNat * d.toNat < 2 ^ 64 := by omega
  have hpair : n % d = 0 ∨ n % (d + 2) = 0 := by
    rw [mod_eq_zero_iff, mod_eq_zero_iff, add_two (by omega)]
    exact hfound
  unfold nextPrimeBody primeRound
  rw [if_pos (show Unwrapped (.divisor n d) from ⟨hsq, fun _ => ⟨by omega, fun _ => hn⟩⟩)]
  dsimp only
  rw [if_pos ((square_le_iff hsq).mpr h), if_pos hpair]

/-- Neither does: on to the next pair. -/
theorem body_next (h : d.toNat * d.toNat ≤ n.toNat) (h0 : n.toNat % d.toNat ≠ 0)
    (h2 : n.toNat % (d.toNat + 2) ≠ 0) :
    nextPrimeBody (.divisor n d) = some (.inl (.divisor n (d + 6))) := by
  have hd := divisor_lt h
  have hsq : d.toNat * d.toNat < 2 ^ 64 := by
    have hn := n.toNat_lt
    omega
  have hpair : ¬ (n % d = 0 ∨ n % (d + 2) = 0) := by
    rw [mod_eq_zero_iff, mod_eq_zero_iff, add_two (by omega)]
    exact fun hor => hor.elim h0 h2
  unfold nextPrimeBody primeRound
  rw [if_pos (show Unwrapped (.divisor n d) from
    ⟨hsq, fun _ => ⟨by omega, fun hor => absurd hor hpair⟩⟩)]
  dsimp only
  rw [if_pos ((square_le_iff hsq).mpr h), if_neg hpair]

/-- Past the root: the candidate is returned. -/
theorem body_root (hsq : d.toNat * d.toNat < 2 ^ 64) (h : n.toNat < d.toNat * d.toNat) :
    nextPrimeBody (.divisor n d) = some (.inr n) := by
  have hle : ¬ d * d ≤ n := by
    rw [square_le_iff hsq]
    omega
  unfold nextPrimeBody primeRound
  rw [if_pos (show Unwrapped (.divisor n d) from ⟨hsq, fun hd => absurd hd hle⟩)]
  dsimp only
  rw [if_neg hle]

/-! ## The loops -/

/-- No pair divides a prime, and the last divisor is past its root. -/
theorem divisor_returns (hp : p.toNat.Prime) (hlast : p.toNat < lastDivisor * lastDivisor)
    (k : Nat) {d : UInt64} (hd : d.toNat + 6 * k = lastDivisor) (hd5 : 5 ≤ d.toNat) :
    Returns nextPrimeBody (.divisor p d) p := by
  induction k generalizing d with
  | zero =>
    rw [← show d.toNat = lastDivisor from hd] at hlast
    refine .ret (body_root ?_ hlast)
    rw [show d.toNat = lastDivisor from hd]
    decide
  | succ k ih =>
    have hle : d.toNat ≤ lastDivisor := by omega
    by_cases hroot : d.toNat * d.toNat ≤ p.toNat
    · have hlt : d.toNat + 2 < p.toNat := by
        have h5 := Nat.mul_le_mul_right d.toNat hd5
        omega
      have h0 := mod_ne_zero_of_prime hp (show 1 < d.toNat by omega) (by omega)
      have h2 := mod_ne_zero_of_prime hp (show 1 < d.toNat + 2 by omega) hlt
      have hsix := add_six (divisor_lt hroot)
      exact .next (body_next hroot h0 h2) (ih (by omega) (by omega))
    · have hsq := Nat.mul_le_mul hle hle
      have hmax : lastDivisor * lastDivisor < 2 ^ 64 := by decide
      exact .ret (body_root (by omega) (by omega))

/-- A divisor up to the root is found, or another before it. -/
theorem divisor_visits (hm : c.toNat % m = 0) (hroot : m * m ≤ c.toNat)
    (hm6 : m % 6 = 1 ∨ m % 6 = 5) (hc : c.toNat + 2 < 2 ^ 64) (k : Nat) {d : UInt64}
    (hk : m < d.toNat + 6 * (k + 1)) (hdm : d.toNat ≤ m) (hd6 : d.toNat % 6 = 5) :
    Visits nextPrimeBody (.divisor c d) (.candidate (c + 2)) := by
  have hsq := Nat.mul_le_mul hdm hdm
  induction k generalizing d with
  | zero =>
    refine .next (body_found (by omega) ?_ hc) (.here _)
    obtain rfl | rfl : m = d.toNat ∨ m = d.toNat + 2 := by omega
    · exact .inl hm
    · exact .inr hm
  | succ k ih =>
    by_cases hfound : c.toNat % d.toNat = 0 ∨ c.toNat % (d.toNat + 2) = 0
    · exact .next (body_found (by omega) hfound hc) (.here _)
    · obtain ⟨h0, h2⟩ := not_or.mp hfound
      have hne : m ≠ d.toNat := by
        rintro rfl
        exact h0 hm
      have hne2 : m ≠ d.toNat + 2 := by
        rintro rfl
        exact h2 hm
      have hsix := add_six (divisor_lt (show d.toNat * d.toNat ≤ c.toNat by omega))
      have hdm' : (d + 6).toNat ≤ m := by omega
      exact .next (body_next (by omega) h0 h2)
        (ih (by omega) hdm' (by omega) (Nat.mul_le_mul hdm' hdm'))

/-- An odd composite number is passed over. -/
theorem candidate_visits (hodd : c.toNat % 2 ≠ 0) (h5 : 5 ≤ c.toNat) (hnp : ¬ c.toNat.Prime)
    (hc : c.toNat + 2 < 2 ^ 64) :
    Visits nextPrimeBody (.candidate c) (.candidate (c + 2)) := by
  by_cases h3 : c.toNat % 3 = 0
  · exact .next (body_third h3 hc) (.here _)
  · obtain ⟨m, hm, hroot, hm5, hm6⟩ := exists_divisor (by omega) hodd h3 hnp
    have hfive : (5 : UInt64).toNat = 5 := rfl
    exact .next (body_candidate h3) (divisor_visits hm hroot hm6 hc m (by omega) (by omega) rfl)

/-- From an odd candidate on the least prime is returned. -/
theorem candidate_returns (hp : p.toNat.Prime) (hlast : p.toNat < lastDivisor * lastDivisor)
    (k : Nat) {c : UInt64} (hk : c.toNat + 2 * k = p.toNat) (hodd : c.toNat % 2 ≠ 0)
    (h5 : 5 ≤ c.toNat) (hleast : ∀ q, q.Prime → c.toNat ≤ q → p.toNat ≤ q) :
    Returns nextPrimeBody (.candidate c) p := by
  induction k generalizing c with
  | zero =>
    obtain rfl : c = p := UInt64.toNat_inj.mp hk
    have h3 := mod_ne_zero_of_prime hp (show 1 < 3 by decide) (by omega)
    have hsteps : (5 : UInt64).toNat + 6 * ((lastDivisor - 5) / 6) = lastDivisor := by decide
    exact .next (body_candidate h3) (divisor_returns hp hlast _ hsteps (Nat.le_refl _))
  | succ k ih =>
    have hp64 := p.toNat_lt
    have hc : c.toNat + 2 < 2 ^ 64 := by omega
    have htwo := add_two hc
    have hnp : ¬ c.toNat.Prime := fun hprime => by
      have hle := hleast c.toNat hprime (Nat.le_refl _)
      omega
    refine (candidate_visits hodd h5 hnp hc).returns (ih (by omega) (by omega) (by omega) ?_)
    intro q hq hle
    exact hleast q hq (by omega)

/-- A divisor is one less than a multiple of six. -/
def OnWheel (s : PrimeLoop) : Prop := ∀ n d, s = .divisor n d → d.toNat % 6 = 5

/-- What a round can come to, with the sums and products that it needs. -/
theorem body_cases {s : PrimeLoop} {r : PrimeLoop ⊕ UInt64} (h : nextPrimeBody s = some r) :
    (∃ n, s = .candidate n ∧ (r = .inl (.candidate (n + 2)) ∨ r = .inl (.divisor n 5))) ∨
    ∃ n d, s = .divisor n d ∧ d.toNat * d.toNat < 2 ^ 64 ∧
      (r = .inl (.candidate (n + 2)) ∨
        d.toNat + 6 < 2 ^ 64 ∧ r = .inl (.divisor n (d + 6)) ∨ ¬ d * d ≤ n ∧ r = .inr n) := by
  unfold nextPrimeBody at h
  split at h
  · next hun =>
    obtain rfl := Option.some.inj h
    cases s with
    | candidate n =>
      refine .inl ⟨n, rfl, ?_⟩
      dsimp only [primeRound]
      split
      · exact .inl rfl
      · exact .inr rfl
    | divisor n d =>
      obtain ⟨hsq, hrest⟩ := hun
      refine .inr ⟨n, d, rfl, hsq, ?_⟩
      dsimp only [primeRound]
      split
      · next hle =>
        split
        · exact .inl rfl
        · exact .inr (.inl ⟨(hrest hle).1, rfl⟩)
      · next hroot => exact .inr (.inr ⟨hroot, rfl⟩)
  · exact nomatch h

/-- The divisors stay on the wheel. -/
theorem onWheel_next {s s' : PrimeLoop} (hs : OnWheel s)
    (h : nextPrimeBody s = some (.inl s')) : OnWheel s' := by
  intro m e he
  subst he
  obtain ⟨n, rfl, hr | hr⟩ | ⟨n, d, rfl, -, hr | ⟨hfits, hr⟩ | ⟨-, hr⟩⟩ := body_cases h
  · exact nomatch hr
  · obtain ⟨-, rfl⟩ := PrimeLoop.divisor.inj (Sum.inl.inj hr)
    rfl
  · exact nomatch hr
  · obtain ⟨-, rfl⟩ := PrimeLoop.divisor.inj (Sum.inl.inj hr)
    have hd6 := hs n d rfl
    have hsix : (d + 6).toNat = d.toNat + 6 := toNat_add_of_lt hfits
    omega
  · exact nomatch hr

/-- A divisor on the wheel whose square fits is no more than the last. -/
theorem le_lastDivisor (hd6 : d.toNat % 6 = 5) (hsq : d.toNat * d.toNat < 2 ^ 64) :
    d.toNat ≤ lastDivisor := by
  have hlt : d.toNat < 2 ^ 32 := by
    by_contra hge
    have h := Nat.mul_le_mul (Nat.le_of_not_lt hge) (Nat.le_of_not_lt hge)
    omega
  unfold lastDivisor
  omega

/-- What is returned is less than the square of the last divisor. -/
theorem returns_lt {s : PrimeLoop} (h : Returns nextPrimeBody s p) (hs : OnWheel s) :
    p.toNat < lastDivisor * lastDivisor := by
  induction h with
  | next hb _ ih => exact ih (onWheel_next hs hb)
  | ret hb =>
    obtain ⟨n, rfl, hr | hr⟩ | ⟨n, d, rfl, hsq, hr | ⟨-, hr⟩ | ⟨hroot, hr⟩⟩ := body_cases hb
    · exact nomatch hr
    · exact nomatch hr
    · exact nomatch hr
    · exact nomatch hr
    · obtain rfl := Sum.inr.inj hr
      have hd := le_lastDivisor (hs _ d rfl) hsq
      have hle := Nat.mul_le_mul hd hd
      rw [square_le_iff hsq] at hroot
      omega

/-! ## The function -/

theorem or_one_toNat (n : UInt64) : (n ||| 1).toNat = n.toNat / 2 * 2 + 1 := by
  have hodd : (n.toNat ||| 1) % 2 = 1 := Nat.or_mod_two_eq_one.mpr (.inr rfl)
  have hhalf : (n.toNat ||| 1) / 2 = n.toNat / 2 := by
    rw [Nat.or_div_two, show 1 / 2 = 0 from rfl, Nat.or_zero]
  rw [UInt64.toNat_or, show (1 : UInt64).toNat = 1 from rfl]
  omega

/-- Three is passed over, for five. -/
theorem three_returns : Returns nextPrimeBody (.candidate 3) 5 := by
  have hthree : nextPrimeBody (.candidate 3) = some (.inl (.candidate 5)) := by decide
  have hfive : nextPrimeBody (.candidate 5) = some (.inl (.divisor 5 5)) := by decide
  exact .next hthree (.next hfive (.ret (by decide)))

theorem not_leastPrime_three : ¬ ReturnsLeastPrime 3 := by
  rintro ⟨p, hnext, -, -, hleast⟩
  unfold NextPrime at hnext
  rw [if_neg (by decide)] at hnext
  rw [hnext.unique three_returns] at hleast
  exact absurd (hleast 3 Nat.prime_three (by decide)) (by decide)

/-- The function returns the least prime from `n` on exactly where `n` is not three and there is a
    prime below the square of the last divisor. -/
theorem nextPrime_iff (n : UInt64) : ReturnsLeastPrime n ↔
    n ≠ 3 ∧ ∃ q, q.Prime ∧ n.toNat ≤ q ∧ q < lastDivisor * lastDivisor := by
  have hmax : lastDivisor * lastDivisor < 2 ^ 64 := by decide
  constructor
  · intro h
    refine ⟨?_, ?_⟩
    · rintro rfl
      exact not_leastPrime_three h
    · obtain ⟨p, hnext, hp, hle, -⟩ := h
      refine ⟨p.toNat, hp, hle, ?_⟩
      unfold NextPrime at hnext
      split at hnext
      · rw [hnext]
        decide
      · exact returns_lt hnext nofun
  · rintro ⟨hne, q, hq, hle, hlast⟩
    by_cases hn : n ≤ 2
    · have hn2 := UInt64.le_iff_toNat_le.mp hn
      refine ⟨2, ?_, Nat.prime_two, hn2, fun q hq _ => hq.two_le⟩
      unfold NextPrime
      rw [if_pos hn]
    · have hn4 : 4 ≤ n.toNat := by
        have h2 : ¬ n.toNat ≤ 2 := fun h => hn (UInt64.le_iff_toNat_le.mpr h)
        have h3 : n.toNat ≠ 3 := fun h => hne (UInt64.toNat_inj.mp h)
        omega
      obtain ⟨m, hm, hnm, hleast⟩ := exists_least_prime hq hle
      have hmq := hleast q hq hle
      have htoNat : (UInt64.ofNat m).toNat = m :=
        UInt64.toNat_ofNat_of_lt' (show m < 2 ^ 64 by omega)
      have hodd := mod_ne_zero_of_prime hm (show 1 < 2 by decide) (by omega)
      have hor := or_one_toNat n
      refine ⟨UInt64.ofNat m, ?_, by rwa [htoNat], by rwa [htoNat], by rwa [htoNat]⟩
      unfold NextPrime
      rw [if_neg hn]
      exact candidate_returns (by rwa [htoNat]) (by omega) ((m - (n ||| 1).toNat) / 2) (by omega)
        (by omega) (by omega) fun q hq hge => by
          rw [htoNat]
          exact hleast q hq (by omega)

/-- So it does not from three on. -/
theorem not_nextPrime_least :
    ¬ ∀ n : UInt64, (∃ q, q.Prime ∧ n.toNat ≤ q ∧ q < 2 ^ 64) → ReturnsLeastPrime n := by
  intro h
  exact not_leastPrime_three (h 3 ⟨3, Nat.prime_three, by decide, by decide⟩)

end OopsMesa.Runtime
