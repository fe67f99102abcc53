/-
  Streams of records with jumps.

  A record of a stream may be a jump to another stream. Whoever executes the stream goes record
  by record and, at a jump, executes the other stream before it goes on after the jump.
  `Executes` is that order, for any record length `len` and any reading `jump` of a record as a
  jump; it may have no result, since jumps can go in circles. A stream without a jump is executed
  as its `records`; a stream that is cut at a record is executed as the part before the cut and
  then the rest (`executes_before`).
  `InTurn` is one thing after another, each giving entries of its own.
-/
import OopsMesa.Lib.Walk

namespace OopsMesa.Lib

/-- Finitely many entries; `entry` is read below `size` only. -/
structure Stream (α : Type) where
  entry : Nat → α
  size : Nat

variable {α : Type} {len : α → Option Nat} {jump : Stream α → Nat → Option (Stream α)}
  {s t : Stream α} {i j k fuel : Nat} {out : List (List α)}

/-- The stream cut at `j`. -/
def Stream.take (s : Stream α) (j : Nat) : Stream α := ⟨s.entry, j⟩

/-- The entries from `i` to before `j`, or to the end. -/
def Stream.slice (s : Stream α) (i j : Nat) : List α :=
  (List.range' i (min j s.size - i)).map s.entry

/-- The records from `i` on. Where the walk stops, the rest is taken as one record. -/
def Stream.recordsFrom (len : α → Option Nat) (s : Stream α) : Nat → Nat → List (List α)
  | 0, _ => []
  | fuel + 1, i =>
    if i < s.size then
      match len (s.entry i) with
      | none => [s.slice i s.size]
      | some k => s.slice i (i + k) :: s.recordsFrom len fuel (i + k)
    else []

/-- The records of a stream. -/
def Stream.records (len : α → Option Nat) (s : Stream α) : List (List α) :=
  s.recordsFrom len s.size 0

/-- From record `i` of `s` on, the records `out` are executed, in order. -/
inductive Executes (len : α → Option Nat) (jump : Stream α → Nat → Option (Stream α)) :
    Stream α → Nat → List (List α) → Prop
  | done {s : Stream α} {i : Nat} : s.size ≤ i → Executes len jump s i []
  | stop {s : Stream α} {i : Nat} :
      i < s.size → len (s.entry i) = none → Executes len jump s i [s.slice i s.size]
  | record {s : Stream α} {i k : Nat} {out : List (List α)} :
      i < s.size → len (s.entry i) = some k → jump s i = none →
        Executes len jump s (i + k) out → Executes len jump s i (s.slice i (i + k) :: out)
  | jump {s t : Stream α} {i k : Nat} {out out' : List (List α)} :
      i < s.size → len (s.entry i) = some k → jump s i = some t →
        Executes len jump t 0 out → Executes len jump s (i + k) out' →
        Executes len jump s i (out ++ out')

/-! ## One record -/

theorem executes_done (h : s.size ≤ i) : Executes len jump s i out ↔ out = [] := by
  constructor
  · intro he
    cases he with
    | done => rfl
    | stop hi => omega
    | record hi => omega
    | jump hi => omega
  · rintro rfl
    exact .done h

theorem executes_stop (hi : i < s.size) (hk : len (s.entry i) = none) :
    Executes len jump s i out ↔ out = [s.slice i s.size] := by
  constructor
  · intro he
    cases he with
    | done h => omega
    | stop => rfl
    | record _ hk' => rw [hk] at hk'; cases hk'
    | jump _ hk' => rw [hk] at hk'; cases hk'
  · rintro rfl
    exact .stop hi hk

theorem executes_record (hi : i < s.size) (hk : len (s.entry i) = some k) (hj : jump s i = none) :
    Executes len jump s i out ↔
      ∃ out', out = s.slice i (i + k) :: out' ∧ Executes len jump s (i + k) out' := by
  constructor
  · intro he
    cases he with
    | done h => omega
    | stop _ hk' => rw [hk] at hk'; cases hk'
    | record _ hk' _ he =>
      rw [hk, Option.some.injEq] at hk'
      subst hk'
      exact ⟨_, rfl, he⟩
    | jump _ _ hj' => rw [hj] at hj'; cases hj'
  · rintro ⟨out', rfl, he⟩
    exact .record hi hk hj he

/-- At a jump the other stream comes first, and then what follows the jump. -/
theorem executes_jump (hi : i < s.size) (hk : len (s.entry i) = some k) (hj : jump s i = some t) :
    Executes len jump s i out ↔ ∃ out₁ out₂, out = out₁ ++ out₂ ∧
      Executes len jump t 0 out₁ ∧ Executes len jump s (i + k) out₂ := by
  constructor
  · intro he
    cases he with
    | done h => omega
    | stop _ hk' => rw [hk] at hk'; cases hk'
    | record _ _ hj' => rw [hj] at hj'; cases hj'
    | jump _ hk' hj' he he' =>
      rw [hk, Option.some.injEq] at hk'
      rw [hj, Option.some.injEq] at hj'
      subst hk' hj'
      exact ⟨_, _, rfl, he, he'⟩
  · rintro ⟨out₁, out₂, rfl, he₁, he₂⟩
    exact .jump hi hk hj he₁ he₂

/-! ## Many records -/

/-- Where no record is a jump, the records are what is executed. -/
theorem executes_of_no_jump (hlen : Advances len) (hfuel : s.size ≤ i + fuel)
    (hjump : ∀ j, HeaderFrom len s.entry i j → j < s.size → jump s j = none) :
    Executes len jump s i out ↔ out = s.recordsFrom len fuel i := by
  induction fuel generalizing i out with
  | zero =>
    rw [executes_done (by omega)]
    rfl
  | succ fuel ih =>
    unfold Stream.recordsFrom
    rcases Nat.lt_or_ge i s.size with hi | hi
    · rw [if_pos hi]
      cases hk : len (s.entry i) with
      | none => exact executes_stop hi hk
      | some k =>
        have hpos := hlen _ _ hk
        have hrest : ∀ rest, Executes len jump s (i + k) rest ↔
            rest = s.recordsFrom len fuel (i + k) := fun rest =>
          ih (by omega) fun j hj hjs => hjump j (.next hk hj) hjs
        rw [executes_record hi hk (hjump i (.refl i) hi)]
        simp only [hrest, exists_eq_right]
    · rw [if_neg (by omega)]
      exact executes_done hi

theorem slice_take (hij : i + k ≤ j) (hj : j ≤ s.size) :
    (s.take j).slice i (i + k) = s.slice i (i + k) := by
  unfold Stream.slice Stream.take
  dsimp only
  rw [Nat.min_eq_left hij, Nat.min_eq_left (by omega)]

/-- Up to a record with no jump before it, the records are what is executed; then comes what is
    executed from that record on. -/
theorem executes_before (hlen : Advances len) (h : HeaderFrom len s.entry i j) (hj : j ≤ s.size)
    (hfuel : j ≤ i + fuel)
    (hjump : ∀ m, HeaderFrom len s.entry i m → m < j → jump s m = none) :
    Executes len jump s i out ↔
      ∃ out', out = (s.take j).recordsFrom len fuel i ++ out' ∧ Executes len jump s j out' := by
  induction h generalizing fuel out with
  | refl j =>
    have hnil : (s.take j).recordsFrom len fuel j = [] := by
      cases fuel with
      | zero => rfl
      | succ fuel => exact if_neg (Nat.lt_irrefl j)
    rw [hnil]
    simp only [List.nil_append, exists_eq_left']
  | @next i j k hk h ih =>
    have hpos := hlen _ _ hk
    have hle := h.le
    obtain ⟨fuel, rfl⟩ : ∃ f, fuel = f + 1 := ⟨fuel - 1, by omega⟩
    have hrecords : (s.take j).recordsFrom len (fuel + 1) i =
        s.slice i (i + k) :: (s.take j).recordsFrom len fuel (i + k) := by
      have hk' : len ((s.take j).entry i) = some k := hk
      rw [Stream.recordsFrom, if_pos (show i < (s.take j).size by show i < j; omega), hk',
        ← slice_take hle hj]
    have hrest : ∀ rest, Executes len jump s (i + k) rest ↔
        ∃ out', rest = (s.take j).recordsFrom len fuel (i + k) ++ out' ∧
          Executes len jump s j out' := fun rest =>
      ih hj (by omega) fun m hm hmj => hjump m (.next hk hm) hmj
    rw [hrecords, executes_record (by omega) hk (hjump i (.refl i) (by omega))]
    constructor
    · rintro ⟨out', rfl, he⟩
      obtain ⟨rest, rfl, hrest'⟩ := (hrest out').mp he
      exact ⟨rest, rfl, hrest'⟩
    · rintro ⟨rest, rfl, he⟩
      exact ⟨_, rfl, (hrest _).mpr ⟨rest, rfl, he⟩⟩

/-! ## One thing after another -/

section InTurn

variable {β : Type} {R : β → List α → Prop} {f : β → List α} {b : β} {bs : List β} {xs : List α}

/-- Each thing gives, by `R`, some entries: those of all of them, in turn. -/
inductive InTurn (R : β → List α → Prop) : List β → List α → Prop
  | nil : InTurn R [] []
  | cons {b : β} {bs : List β} {xs ys : List α} :
      R b xs → InTurn R bs ys → InTurn R (b :: bs) (xs ++ ys)

theorem inTurn_cons :
    InTurn R (b :: bs) xs ↔ ∃ ys zs, xs = ys ++ zs ∧ R b ys ∧ InTurn R bs zs := by
  constructor
  · intro h
    cases h with
    | cons hb hbs => exact ⟨_, _, rfl, hb, hbs⟩
  · rintro ⟨ys, zs, rfl, hb, hbs⟩
    exact .cons hb hbs

theorem InTurn.length_le (hshort : ∀ b ∈ bs, ∀ xs, R b xs → (f b).length ≤ xs.length)
    (h : InTurn R bs xs) : (bs.flatMap f).length ≤ xs.length := by
  induction h with
  | nil => exact Nat.le_refl 0
  | cons hb _ ih =>
    obtain ⟨hfirst, hrest⟩ := List.forall_mem_cons.mp hshort
    have hlen := hfirst _ hb
    have hlen' := ih hrest
    rw [List.flatMap_cons, List.length_append, List.length_append]
    omega

/-- Where nothing gives less than `f` of it, all of them give `f` of them exactly if each does. -/
theorem inTurn_flatMap_iff (hshort : ∀ b ∈ bs, ∀ xs, R b xs → (f b).length ≤ xs.length) :
    InTurn R bs (bs.flatMap f) ↔ ∀ b ∈ bs, R b (f b) := by
  induction bs with
  | nil => exact ⟨fun _ => nofun, fun _ => .nil⟩
  | cons b bs ih =>
    obtain ⟨hfirst, hrest⟩ := List.forall_mem_cons.mp hshort
    rw [List.flatMap_cons, List.forall_mem_cons, ← ih hrest]
    constructor
    · intro h
      obtain ⟨ys, zs, heq, hb, hbs⟩ := inTurn_cons.mp h
      have hlen := hfirst _ hb
      have hlen' := hbs.length_le hrest
      have hsum := congrArg List.length heq
      rw [List.length_append, List.length_append] at hsum
      obtain ⟨rfl, rfl⟩ := List.append_inj heq (by omega)
      exact ⟨hb, hbs⟩
    · intro ⟨hb, hbs⟩
      exact .cons hb hbs

end InTurn

end OopsMesa.Lib
