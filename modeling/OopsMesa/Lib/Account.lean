/-
  Translations accounted for by leases.

  The dual of `Kept`: there every lease is backed, here every translation is some lease's. Leases
  may overlap, and may claim addresses that translate to nothing. `Accounted R t L`: each address
  that translates lies in a lease whose value there is `R`-related to the translation. With `R`
  equality the leases say where every address leads; with `R` always true they say only that no
  translation was forgotten.
-/
import OopsMesa.Lib.Span

namespace OopsMesa.Lib

variable {ι κ β : Type} {R : β → β → Prop} {t t' : UInt64 → Option β}
  {L : ι → Option (Lease β)} {L' : κ → Option (Lease β)} {base n : UInt64} {f : UInt64 → β}

/-- Address `a` with the value `e` is some lease's. -/
def AccountedAt (R : β → β → Prop) (L : ι → Option (Lease β)) (a : UInt64) (e : β) : Prop :=
  ∃ o l, L o = some l ∧ InSpan l.base l.size a ∧ R e (l.val (a - l.base))

/-- Every translation is some lease's. -/
def Accounted (R : β → β → Prop) (t : UInt64 → Option β) (L : ι → Option (Lease β)) : Prop :=
  ∀ a e, t a = some e → AccountedAt R L a e

/-- The lease `m` accounts for all that `l` does: it starts where `l` does and is no shorter. -/
structure Lease.Subsumes (R : β → β → Prop) (m l : Lease β) : Prop where
  base : m.base = l.base
  size : l.size ≤ m.size
  val : ∀ e off, R e (l.val off) → R e (m.val off)

theorem Lease.Subsumes.refl (R : β → β → Prop) (l : Lease β) : l.Subsumes R l where
  base := rfl
  size := UInt64.le_refl _
  val _ _ h := h

theorem AccountedAt.move {a : UInt64} {e : β} (h : AccountedAt R L a e)
    (hL : ∀ o l, L o = some l → InSpan l.base l.size a →
      ∃ o' m, L' o' = some m ∧ m.Subsumes R l) : AccountedAt R L' a e := by
  obtain ⟨o, l, hl, ha, he⟩ := h
  obtain ⟨o', m, hm, hsub⟩ := hL o l hl ha
  refine ⟨o', m, hm, ?_, ?_⟩
  · rw [hsub.base]
    exact ha.widen hsub.size
  · rw [hsub.base]
    exact hsub.val e _ he

/-- With no leases left nothing translates. -/
theorem Accounted.none_of_no_lease (h : Accounted R t L) (hL : ∀ o, L o = none) (a : UInt64) :
    t a = none := by
  cases ht : t a with
  | none => rfl
  | some e =>
    obtain ⟨o, l, hl, -⟩ := h a e ht
    rw [hL o] at hl
    cases hl

/-- Translations may go. -/
theorem Accounted.sub (h : Accounted R t L) (ht : ∀ a e, t' a = some e → t a = some e) :
    Accounted R t' L := fun a e he => h a e (ht a e he)

/-- Leases may change hands. -/
theorem Accounted.move (h : Accounted R t L)
    (hL : ∀ o l, L o = some l → ∃ o' m, L' o' = some m ∧ m.Subsumes R l) : Accounted R t L' :=
  fun a e he => (h a e he).move fun o l hl _ => hL o l hl

/-- Leases of a span may end when it is cleared. -/
theorem Accounted.unmapSpan (h : Accounted R t L)
    (hL : ∀ o l, L o = some l →
      (∃ o' m, L' o' = some m ∧ m.Subsumes R l) ∨ l.base = base ∧ l.size = n) :
    Accounted R (unmapSpan t base n) L' := by
  intro a e he
  obtain ⟨hout, he⟩ := of_unmapSpan_eq_some he
  refine (h a e he).move fun o l hl ha => ?_
  rcases hL o l hl with hkeep | ⟨rfl, rfl⟩
  · exact hkeep
  · exact absurd ha hout

/-- A span may be written that a lease accounts for. -/
theorem Accounted.mapSpan {o : κ} {l : Lease β} (h : Accounted R t L')
    (hl : L' o = some l) (hbase : l.base = base) (hsize : n ≤ l.size)
    (hval : ∀ off, R (f off) (l.val off)) : Accounted R (mapSpan t base n f) L' := by
  intro a e he
  by_cases ha : InSpan base n a
  · rw [mapSpan_of_inSpan ha, Option.some.injEq] at he
    subst he hbase
    exact ⟨o, l, hl, ha.widen hsize, hval _⟩
  · rw [mapSpan_of_not_inSpan ha] at he
    exact h a e he

end OopsMesa.Lib
