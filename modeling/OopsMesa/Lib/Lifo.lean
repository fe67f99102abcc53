/-
  Things that are made and go again.

  An act makes a thing or lets it go. `exec` runs acts on the things there are, a multiset: only
  what is there may go. `unwind` runs them on a stack: only what was made last may go, so that
  things go once and in the reverse order. What unwinds runs anywhere, with the same result
  (`exec_of_unwind`). Runs compose (`exec_append`, `unwind_append`), and a sequence each part of
  which leaves things as they were does so too (`exec_flatMap`). `AtMostOne` is about every moment
  of a run, between any two acts. Nothing here names a system.
-/
import Mathlib.Data.Multiset.AddSub
import Mathlib.Data.Multiset.Count

namespace OopsMesa.Lib

inductive Act (α : Type) where
  | made (a : α)
  | gone (a : α)
  deriving DecidableEq, Repr

variable {α ι : Type} [DecidableEq α]

/-- The acts on what there is. -/
def exec : List (Act α) → Multiset α → Option (Multiset α)
  | [], live => some live
  | .made a :: acts, live => exec acts (a ::ₘ live)
  | .gone a :: acts, live => if a ∈ live then exec acts (live.erase a) else none

/-- The acts on a stack. -/
def unwind : List (Act α) → List α → Option (List α)
  | [], stack => some stack
  | .made a :: acts, stack => unwind acts (a :: stack)
  | .gone a :: acts, stack => if stack.head? = some a then unwind acts stack.tail else none

variable {acts acts' : List (Act α)} {stack stack' as bs : List α} {live live' : Multiset α}
  {a : α}

/-! ## On a stack -/

theorem unwind_append (acts acts' : List (Act α)) (stack : List α) :
    unwind (acts ++ acts') stack = (unwind acts stack).bind (unwind acts') := by
  induction acts generalizing stack with
  | nil => rfl
  | cons act acts ih =>
    cases act with
    | made a => exact ih _
    | gone a =>
      show (if stack.head? = some a then _ else none) =
        (if stack.head? = some a then _ else none : Option _).bind _
      split
      · exact ih _
      · rfl

theorem unwind_made (as stack : List α) :
    unwind (as.map .made) stack = some (as.reverse ++ stack) := by
  induction as generalizing stack with
  | nil => rfl
  | cons a as ih =>
    refine (ih (a :: stack)).trans ?_
    rw [List.reverse_cons, List.append_assoc]
    rfl

/-- What is on top goes first. -/
theorem unwind_gone (as stack : List α) : unwind (as.map .gone) (as ++ stack) = some stack := by
  induction as with
  | nil => rfl
  | cons a as ih => exact (if_pos rfl).trans ih

/-! ## In any order -/

theorem exec_append (acts acts' : List (Act α)) (live : Multiset α) :
    exec (acts ++ acts') live = (exec acts live).bind (exec acts') := by
  induction acts generalizing live with
  | nil => rfl
  | cons act acts ih =>
    cases act with
    | made a => exact ih _
    | gone a =>
      show (if a ∈ live then _ else none) = (if a ∈ live then _ else none : Option _).bind _
      split
      · exact ih _
      · rfl

theorem exec_trans {live'' : Multiset α} (h : exec acts live = some live')
    (h' : exec acts' live' = some live'') : exec (acts ++ acts') live = some live'' := by
  rw [exec_append, h]
  exact h'

/-- What unwinds on a stack runs anywhere. -/
theorem exec_of_unwind (h : unwind acts stack = some stack') (live : Multiset α) :
    exec acts (↑stack + live) = some (↑stack' + live) := by
  induction acts generalizing stack with
  | nil =>
    obtain rfl := Option.some.inj h
    rfl
  | cons act acts ih =>
    cases act with
    | made a =>
      have hrest : exec acts (↑(a :: stack) + live) = some (↑stack' + live) := ih h
      rwa [← Multiset.cons_coe, Multiset.cons_add] at hrest
    | gone a =>
      unfold unwind at h
      split at h
      · next htop =>
        obtain ⟨rest, rfl⟩ := List.head?_eq_some_iff.mp htop
        have hrest : exec acts (↑rest + live) = some (↑stack' + live) := ih h
        unfold exec
        rw [← Multiset.cons_coe, Multiset.cons_add, if_pos (Multiset.mem_cons_self a _),
          Multiset.erase_cons_head]
        exact hrest
      · exact nomatch h

theorem exec_made (as : List α) (live : Multiset α) :
    exec (as.map .made) live = some (↑as + live) := by
  have h := exec_of_unwind (unwind_made as []) live
  rw [List.append_nil, Multiset.coe_reverse, Multiset.coe_nil, Multiset.zero_add] at h
  exact h

/-- What only makes things leaves them. -/
theorem exec_made_eq_iff (as : List α) :
    (∀ live, exec (as.map .made) live = some live) ↔ as = [] := by
  constructor
  · intro h
    have hmade : (as : Multiset α) = 0 :=
      (Multiset.add_zero _).symm.trans (Option.some.inj ((exec_made as 0).symm.trans (h 0)))
    exact Multiset.coe_eq_zero as |>.mp hmade
  · rintro rfl live
    rfl

/-- All of some things go, in any order. -/
theorem exec_gone (as : List α) (live : Multiset α) :
    exec (as.map .gone) (↑as + live) = some live := by
  have h := exec_of_unwind (unwind_gone as []) live
  rwa [List.append_nil, Multiset.coe_nil, Multiset.zero_add] at h

/-- What leaves things as they were each time, does so any number of times. -/
theorem exec_flatMap {f : ι → List (Act α)} (is : List ι)
    (h : ∀ i ∈ is, exec (f i) live = some live) : exec (is.flatMap f) live = some live := by
  induction is with
  | nil => rfl
  | cons i is ih =>
    rw [List.flatMap_cons]
    exact exec_trans (h i List.mem_cons_self) (ih fun j hj => h j (List.mem_cons_of_mem _ hj))

/-! ## At every moment -/

/-- The act makes a `p`. -/
def Act.makes (p : α → Bool) : Act α → Bool
  | .made a => p a
  | .gone _ => false

/-- Never is there more than one `p`, wherever the acts are cut off. -/
def AtMostOne (p : α → Bool) (acts : List (Act α)) (live : Multiset α) : Prop :=
  ∀ before after live', acts = before ++ after → exec before live = some live' →
    live'.countP (p ·) ≤ 1

variable {p : α → Bool}

/-- What there is was there, or was made. -/
theorem countP_exec_le (h : exec acts live = some live') :
    live'.countP (p ·) ≤ live.countP (p ·) + acts.countP (Act.makes p) := by
  induction acts generalizing live with
  | nil =>
    obtain rfl := Option.some.inj h
    exact Nat.le_add_right _ _
  | cons act acts ih =>
    cases act with
    | made a =>
      have hle := ih h
      rw [Multiset.countP_cons] at hle
      rw [List.countP_cons]
      show _ ≤ _ + (_ + if p a = true then 1 else 0)
      omega
    | gone a =>
      unfold exec at h
      split at h
      · have hle := ih h
        have herase : (live.erase a).countP (p ·) ≤ live.countP (p ·) :=
          Multiset.countP_le_of_le _ (Multiset.erase_le a live)
        rw [List.countP_cons_of_neg (by exact Bool.false_ne_true)]
        omega
      · exact nomatch h

theorem atMostOne_of_makes (h : live.countP (p ·) + acts.countP (Act.makes p) ≤ 1) :
    AtMostOne p acts live := by
  rintro before after live' rfl hexec
  have hle := countP_exec_le (p := p) hexec
  rw [List.countP_append] at h
  omega

theorem AtMostOne.append (h : AtMostOne p acts live) (hexec : exec acts live = some live')
    (h' : AtMostOne p acts' live') : AtMostOne p (acts ++ acts') live := by
  intro before after live'' heq hbefore
  rcases List.append_eq_append_iff.mp heq with ⟨mid, rfl, rfl⟩ | ⟨mid, rfl, rfl⟩
  · rw [exec_append, hexec] at hbefore
    exact h' mid after live'' rfl hbefore
  · exact h before mid live'' rfl hbefore

/-- Acts that make no `p`. -/
theorem AtMostOne.extend (h : AtMostOne p acts live) (hexec : exec acts live = some live')
    (hnone : acts'.countP (Act.makes p) = 0) : AtMostOne p (acts ++ acts') live := by
  have hlast := h acts [] live' (List.append_nil _).symm hexec
  refine h.append hexec (atMostOne_of_makes ?_)
  rw [hnone]
  exact hlast

end OopsMesa.Lib
