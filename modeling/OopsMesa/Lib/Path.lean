/-
  Lexical paths.

  A path is a word over any alphabet with a separator. What stands between two separators is a
  component: the empty one and the one dot name the place they stand at, two dots name the place
  above, and any other is a name. A place is the names from the root down to it. `walk` goes along
  a path from a place, and `render` writes a place as a path from the root.

  Two paths joined by a separator are gone along one after the other (`walk_join`), and the path
  of a place leads from the root to it (`walk_render`). A path taken from a place is then the path
  from the root that starts with that of the place (`walk_render_join`). Nothing here names a
  system.
-/
import Mathlib.Data.List.Induction

namespace OopsMesa.Lib

section Path

variable {α : Type} {sep dot a : α} {c s t : List α} {d : List (List α)}

def render (sep : α) (d : List (List α)) : List α :=
  if d = [] then [sep] else d.flatMap (sep :: ·)

theorem render_head : (render sep d).head? = some sep := by
  unfold render
  split
  · rfl
  · next hne =>
    cases d with
    | nil => exact absurd rfl hne
    | cons c d => rfl

theorem mem_render (ha : a ∈ render sep d) : a = sep ∨ ∃ c ∈ d, a ∈ c := by
  unfold render at ha
  split at ha
  · exact .inl (List.mem_singleton.mp ha)
  · obtain ⟨c, hc, ha⟩ := List.mem_flatMap.mp ha
    exact (List.mem_cons.mp ha).imp_right fun ha => ⟨c, hc, ha⟩

variable [DecidableEq α]

/-- A component that is the name of something. -/
def IsName (sep dot : α) (c : List α) : Prop :=
  c ≠ [] ∧ c ≠ [dot] ∧ c ≠ [dot, dot] ∧ sep ∉ c

instance : Decidable (IsName sep dot c) := inferInstanceAs (Decidable (_ ∧ _))

/-- The place that a component leads to. At the root there is nothing above. -/
def enter (dot : α) (d : List (List α)) (c : List α) : List (List α) :=
  if c = [] ∨ c = [dot] then d
  else if c = [dot, dot] then d.dropLast
  else d ++ [c]

def walk (sep dot : α) (d : List (List α)) (s : List α) : List (List α) :=
  (s.splitOn sep).foldl (enter dot) d

theorem enter_name (hc : IsName sep dot c) : enter dot d c = d ++ [c] := by
  unfold enter
  rw [if_neg (fun h => h.elim hc.1 hc.2.1), if_neg hc.2.2.1]

theorem enter_cases (dot : α) (d : List (List α)) (c : List α) :
    enter dot d c = d ∨ enter dot d c = d.dropLast ∨
      c ≠ [] ∧ c ≠ [dot] ∧ c ≠ [dot, dot] ∧ enter dot d c = d ++ [c] := by
  unfold enter
  split
  · exact .inl rfl
  · next hstay =>
    split
    · exact .inr (.inl rfl)
    · next hup => exact .inr (.inr ⟨fun h => hstay (.inl h), fun h => hstay (.inr h), hup, rfl⟩)

theorem walk_nil : walk sep dot d [] = d := by
  have hstay : enter dot d [] = d := if_pos (Or.inl rfl)
  unfold walk
  rw [List.splitOn_nil]
  exact hstay

theorem walk_name (hc : IsName sep dot c) : walk sep dot d c = d ++ [c] := by
  unfold walk
  rw [List.splitOn_eq_singleton hc.2.2.2]
  exact enter_name hc

theorem walk_join :
    walk sep dot d (s ++ sep :: t) = walk sep dot (walk sep dot d s) t := by
  unfold walk
  rw [List.splitOn_append_cons_self, List.foldl_append]

/-- The path of a place leads from the root to it. -/
theorem walk_render (hd : ∀ c ∈ d, IsName sep dot c) : walk sep dot [] (render sep d) = d := by
  have hflat : walk sep dot [] (d.flatMap (sep :: ·)) = d := by
    induction d using List.reverseRecOn with
    | nil => exact walk_nil
    | append_singleton d c ih =>
      rw [List.forall_mem_append] at hd
      rw [List.flatMap_append, List.flatMap_singleton, walk_join, ih hd.1]
      exact walk_name (hd.2 c (List.mem_singleton_self c))
  unfold render
  split
  · next hnil =>
    have hroot : walk sep dot [] ([] ++ sep :: []) = [] := by rw [walk_join, walk_nil, walk_nil]
    rw [hnil]
    exact hroot
  · exact hflat

/-- A path taken from a place is the path from the root that starts with that of the place. -/
theorem walk_render_join (hd : ∀ c ∈ d, IsName sep dot c) :
    walk sep dot [] (render sep d ++ sep :: t) = walk sep dot d t := by
  rw [walk_join, walk_render hd]

/-! ## What a walk comes by -/

/-- A component is a part of the path, and has no separator. -/
theorem of_mem_splitOn (hc : c ∈ s.splitOn sep) : sep ∉ c ∧ ∀ a ∈ c, a ∈ s := by
  induction s generalizing c with
  | nil =>
    obtain rfl := List.mem_singleton.mp hc
    exact ⟨List.not_mem_nil, fun _ ha => ha⟩
  | cons x s ih =>
    rw [List.splitOn_cons_eq_if_modifyHead] at hc
    split at hc
    · rcases List.mem_cons.mp hc with rfl | hc
      · exact ⟨List.not_mem_nil, fun _ ha => absurd ha List.not_mem_nil⟩
      · exact ⟨(ih hc).1, fun a ha => List.mem_cons_of_mem x ((ih hc).2 a ha)⟩
    · next hx =>
      cases hs : s.splitOn sep with
      | nil => exact absurd hs (List.splitOn_ne_nil sep s)
      | cons c' cs =>
        rw [hs] at hc ih
        rcases List.mem_cons.mp hc with rfl | hc
        · obtain ⟨hsep, hsub⟩ := ih List.mem_cons_self
          refine ⟨fun h => ?_, fun a ha => ?_⟩
          · rcases List.mem_cons.mp h with rfl | h
            · exact hx (BEq.refl _)
            · exact hsep h
          · rcases List.mem_cons.mp ha with rfl | ha
            · exact List.mem_cons_self
            · exact List.mem_cons_of_mem x (hsub a ha)
        · obtain ⟨hsep, hsub⟩ := ih (List.mem_cons_of_mem c' hc)
          exact ⟨hsep, fun a ha => List.mem_cons_of_mem x (hsub a ha)⟩

/-- A walk keeps what each name that the path has in it meets. -/
theorem walk_keeps {P : List α → Prop} (hd : ∀ c ∈ d, P c)
    (hs : ∀ c, IsName sep dot c → (∀ a ∈ c, a ∈ s) → P c) : ∀ c ∈ walk sep dot d s, P c := by
  have hsplit : ∀ c ∈ s.splitOn sep, sep ∉ c ∧ ∀ a ∈ c, a ∈ s := fun c hc => of_mem_splitOn hc
  unfold walk
  generalize s.splitOn sep = cs at hsplit
  induction cs generalizing d with
  | nil => exact hd
  | cons c cs ih =>
    refine ih ?_ fun c' hc' => hsplit c' (List.mem_cons_of_mem c hc')
    obtain ⟨hsep, hsub⟩ := hsplit c List.mem_cons_self
    rcases enter_cases dot d c with h | h | ⟨hnil, hdot, hup, h⟩
    · rw [h]
      exact hd
    · rw [h]
      exact fun c' hc' => hd c' ((List.dropLast_sublist d).mem hc')
    · rw [h]
      refine List.forall_mem_append.mpr ⟨hd, List.forall_mem_singleton.mpr ?_⟩
      exact hs c ⟨hnil, hdot, hup, hsep⟩ hsub

end Path

end OopsMesa.Lib
