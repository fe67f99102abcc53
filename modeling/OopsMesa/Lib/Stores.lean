/-
  Stores, one after the other.

  `storeAll m ss` is the memory `m` after the stores `ss`, the first one first. What is then at a
  place is what was stored there last, and what was there before where nothing was
  (`storeAll_apply`). Nothing here names a system.
-/
import Mathlib.Logic.Function.Basic
import Mathlib.Data.List.Basic

namespace OopsMesa.Lib

variable {α β : Type} [DecidableEq α] {m : α → β} {ss : List (α × β)} {a : α}

def storeAll (m : α → β) (ss : List (α × β)) : α → β :=
  ss.foldl (fun m s => Function.update m s.1 s.2) m

/-- What was stored at `a` last. -/
def lastStored (a : α) : List (α × β) → Option β
  | [] => none
  | s :: ss => (lastStored a ss).or (if s.1 = a then some s.2 else none)

theorem storeAll_append (m : α → β) (ss ts : List (α × β)) :
    storeAll m (ss ++ ts) = storeAll (storeAll m ss) ts := List.foldl_append

theorem storeAll_apply (m : α → β) (ss : List (α × β)) (a : α) :
    storeAll m ss a = (lastStored a ss).getD (m a) := by
  induction ss generalizing m with
  | nil => rfl
  | cons s ss ih =>
    show storeAll (Function.update m s.1 s.2) ss a = _
    rw [ih, lastStored]
    cases lastStored a ss with
    | some b => rfl
    | none =>
      rw [Option.none_or, Option.getD_none]
      split
      · next heq =>
        subst heq
        exact Function.update_self ..
      · next hne => exact Function.update_of_ne (Ne.symm hne) ..

end OopsMesa.Lib
