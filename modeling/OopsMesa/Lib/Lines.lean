/-
  A list cut into lines.

  `Split nl input ls last` says that `input` is the lines `ls`, each ended by a newline `nl`, and
  then `last`, which is not ended yet: there is one such way to cut it. A list that grows at its
  end has its lines grow with it (`Split.cut`, `Split.add`). Nothing here names a system.
-/
import Mathlib.Data.List.Basic

namespace OopsMesa.Lib

variable {α : Type} {nl c : α} {input last : List α} {ls : List (List α)}

/-- `input` is the lines `ls`, each ended by `nl`, and then `last`. -/
structure Split (nl : α) (input : List α) (ls : List (List α)) (last : List α) : Prop where
  eq : input = (ls.map (· ++ [nl])).flatten ++ last
  line : ∀ l ∈ ls, nl ∉ l
  rest : nl ∉ last

theorem Split.nil : Split nl [] [] [] := ⟨rfl, nofun, List.not_mem_nil⟩

/-- A newline ends the line. -/
theorem Split.cut (h : Split nl input ls last) : Split nl (input ++ [nl]) (ls ++ [last]) [] where
  eq := by
    rw [h.eq, List.map_append, List.flatten_append, List.append_nil, List.append_assoc]
    simp
  line l hl := (List.mem_append.mp hl).elim (h.line l) fun hm =>
    List.mem_singleton.mp hm ▸ h.rest
  rest := List.not_mem_nil

/-- Anything else is added to it. -/
theorem Split.add (h : Split nl input ls last) (hc : c ≠ nl) :
    Split nl (input ++ [c]) ls (last ++ [c]) where
  eq := by rw [h.eq, List.append_assoc]
  line := h.line
  rest hm := (List.mem_append.mp hm).elim h.rest fun hl => hc (List.mem_singleton.mp hl).symm

end OopsMesa.Lib
