/-
  Handles that a fixed table gives out.

  `Handles n α` is what a client of such a table sees: a partial map from the handles `1..n`. A
  table of `n` entries is such a map (`ofTable`), entry `i` under handle `i + 1` while it is live.
  Taking the first entry that is not live creates a handle (`ofTable_created`), and finds none
  only when every handle is taken (`ofTable_full_iff`). Nothing here names a system.
-/
import OopsMesa.Lib.Table

namespace OopsMesa.Lib

/-- A partial map from the handles `1..n`. -/
structure Handles (n : Nat) (α : Type) where
  get : Nat → Option α
  bounded : ∀ h, (get h).isSome → 0 < h ∧ h ≤ n

namespace Handles

variable {n : Nat} {α σ : Type} {m m' : Handles n α} {h : Nat} {a : α}

theorem ext (hget : m.get = m'.get) : m = m' := by
  obtain ⟨get, bounded⟩ := m
  obtain ⟨get', bounded'⟩ := m'
  obtain rfl : get = get' := hget
  rfl

/-- No handles. -/
def empty : Handles n α := ⟨fun _ => none, nofun⟩

def Live (m : Handles n α) (h : Nat) : Prop := (m.get h).isSome

/-- Every handle is taken. -/
def Full (m : Handles n α) : Prop := ∀ h, 0 < h → h ≤ n → m.Live h

/-- A handle more, or another value for it. -/
def insert (m : Handles n α) (h : Nat) (hb : 0 < h ∧ h ≤ n) (a : α) : Handles n α where
  get := Function.update m.get h (some a)
  bounded k hk := by
    rcases Decidable.em (k = h) with rfl | hne
    · exact hb
    · rw [Function.update_of_ne hne] at hk
      exact m.bounded k hk

def erase (m : Handles n α) (h : Nat) : Handles n α where
  get := Function.update m.get h none
  bounded k hk := by
    rcases Decidable.em (k = h) with rfl | hne
    · rw [Function.update_self] at hk
      exact nomatch hk
    · rw [Function.update_of_ne hne] at hk
      exact m.bounded k hk

/-- `m'` is `m` and a new handle. -/
def Created (m : Handles n α) (h : Nat) (a : α) (m' : Handles n α) : Prop :=
  ∃ hb : 0 < h ∧ h ≤ n, ¬ m.Live h ∧ m' = m.insert h hb a

/-! ## Tables -/

/-- The entry of a handle. -/
def entry (n h : Nat) : Option (Fin n) :=
  if hb : 0 < h ∧ h ≤ n then some ⟨h - 1, by omega⟩ else none

theorem entry_succ (i : Fin n) : entry n (i + 1) = some i := by
  unfold entry
  rw [dif_pos ⟨Nat.succ_pos _, i.2⟩]
  rfl

theorem entry_some {i : Fin n} (he : entry n h = some i) : h = i + 1 := by
  unfold entry at he
  rcases Decidable.em (0 < h ∧ h ≤ n) with hb | hb
  · rw [dif_pos hb] at he
    cases he
    show h = h - 1 + 1
    omega
  · rw [dif_neg hb] at he
    exact nomatch he

/-- The entry that a handle names, if it is live. -/
def liveAt (p : Fin n → Bool) (h : Nat) : Option (Fin n) := (entry n h).filter p

theorem liveAt_eq_some {p : Fin n → Bool} {i : Fin n} :
    liveAt p h = some i ↔ h = i + 1 ∧ p i = true := by
  unfold liveAt
  rw [Option.filter_eq_some_iff]
  constructor
  · exact fun ⟨he, hp⟩ => ⟨entry_some he, hp⟩
  · rintro ⟨rfl, hp⟩
    exact ⟨entry_succ i, hp⟩

section OfTable

variable {live : σ → Bool} {tab : Fin n → σ} {i : Fin n} {e : σ}

/-- The live entries of a table, under their handles. -/
def ofTable (live : σ → Bool) (tab : Fin n → σ) : Handles n σ where
  get h := (liveAt (fun i => live (tab i)) h).map tab
  bounded h hh := by
    rw [Option.isSome_map] at hh
    obtain ⟨i, hi⟩ := Option.isSome_iff_exists.mp hh
    obtain ⟨rfl, -⟩ := liveAt_eq_some.mp hi
    exact ⟨Nat.succ_pos _, i.2⟩

/-- The lookup of a handle finds the live ones. -/
theorem liveAt_eq_none :
    liveAt (fun i => live (tab i)) h = none ↔ ¬ (ofTable live tab).Live h := by
  unfold Live ofTable
  dsimp only
  rw [Option.isSome_map, Option.not_isSome_iff_eq_none]

theorem ofTable_live_iff :
    (ofTable live tab).Live h ↔ ∃ i : Fin n, h = i + 1 ∧ live (tab i) = true := by
  unfold Live ofTable
  dsimp only
  rw [Option.isSome_map, Option.isSome_iff_exists]
  exact exists_congr fun i => liveAt_eq_some

theorem ofTable_get_succ :
    (ofTable live tab).get (i + 1) = if live (tab i) then some (tab i) else none := by
  unfold ofTable liveAt
  dsimp only
  rw [entry_succ]
  rw [Option.filter_some]
  rcases Decidable.em (live (tab i) = true) with hl | hl
  · rw [if_pos hl, if_pos hl, Option.map_some]
  · rw [if_neg hl, if_neg hl, Option.map_none]

/-- A handle that no entry has. -/
theorem ofTable_get_none (hh : ∀ i : Fin n, h ≠ i + 1) : (ofTable live tab).get h = none := by
  rw [← Option.not_isSome_iff_eq_none]
  intro hsome
  obtain ⟨i, hi, -⟩ := ofTable_live_iff.mp hsome
  exact hh i hi

/-- An entry written leaves the other handles. -/
theorem ofTable_update_of_ne (hne : h ≠ i + 1) :
    (ofTable live (Function.update tab i e)).get h = (ofTable live tab).get h := by
  rcases Classical.em (∃ j : Fin n, h = j + 1) with ⟨j, rfl⟩ | hnone
  · have hji : j ≠ i := fun heq => hne (heq ▸ rfl)
    rw [ofTable_get_succ, ofTable_get_succ, Function.update_of_ne hji]
  · have hh : ∀ j : Fin n, h ≠ j + 1 := fun j hj => hnone ⟨j, hj⟩
    rw [ofTable_get_none hh, ofTable_get_none hh]

/-- The handles after an entry was written. -/
theorem ofTable_get_update :
    (ofTable live (Function.update tab i e)).get h =
      if h = i + 1 then (if live e then some e else none) else (ofTable live tab).get h := by
  split
  · next heq => rw [heq, ofTable_get_succ, Function.update_self]
  · next hne => exact ofTable_update_of_ne hne

/-- A live entry written. -/
theorem ofTable_insert (he : live e = true) :
    ofTable live (Function.update tab i e) =
      (ofTable live tab).insert (i + 1) ⟨Nat.succ_pos _, i.2⟩ e := by
  refine ext (funext fun h => ?_)
  unfold insert
  dsimp only
  rcases Decidable.em (h = i + 1) with rfl | hne
  · rw [ofTable_get_succ, Function.update_self, Function.update_self, if_pos he]
  · rw [Function.update_of_ne hne, ofTable_update_of_ne hne]

/-- An entry that is no longer live. -/
theorem ofTable_erase (he : live e = false) :
    ofTable live (Function.update tab i e) = (ofTable live tab).erase (i + 1) := by
  refine ext (funext fun h => ?_)
  unfold erase
  dsimp only
  rcases Decidable.em (h = i + 1) with rfl | hne
  · rw [ofTable_get_succ, Function.update_self, Function.update_self, he, if_neg Bool.false_ne_true]
  · rw [Function.update_of_ne hne, ofTable_update_of_ne hne]

/-- The first entry that is not live, filled in. -/
theorem ofTable_created (hi : firstIdx (fun i => !live (tab i)) = some i) (he : live e = true) :
    Created (ofTable live tab) (i + 1) e (ofTable live (Function.update tab i e)) := by
  refine ⟨⟨Nat.succ_pos _, i.2⟩, fun hlive => ?_, ofTable_insert he⟩
  obtain ⟨j, hj, hl⟩ := ofTable_live_iff.mp hlive
  obtain rfl : i = j := Fin.ext (Nat.succ.inj hj)
  have hdead := firstIdx_some hi
  rw [hl] at hdead
  exact nomatch hdead

/-- There is no such entry when every handle is taken. -/
theorem ofTable_full_iff :
    firstIdx (fun i => !live (tab i)) = none ↔ (ofTable live tab).Full := by
  rw [firstIdx_eq_none]
  constructor
  · intro hall h h0 hn
    refine ofTable_live_iff.mpr ⟨⟨h - 1, by omega⟩, (Nat.succ_pred_eq_of_pos h0).symm, ?_⟩
    simpa using hall ⟨h - 1, by omega⟩
  · intro hfull i
    obtain ⟨j, hj, hl⟩ := ofTable_live_iff.mp (hfull (i + 1) (Nat.succ_pos _) i.2)
    obtain rfl : i = j := Fin.ext (Nat.succ.inj hj)
    rw [hl]
    rfl

end OfTable

end Handles

end OopsMesa.Lib
