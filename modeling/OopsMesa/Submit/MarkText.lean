/-
  The lines of a report.

  A mark is reported on one line of words: what it is of, which buffer and offset it was noted in,
  the address, and the dword there, as it was when the mark was noted and as it is now. Where the
  CPU has no mapping the line says so. No word has a blank in it and no line is cut, so a line
  reads back as what it reports (`readMark_markText`).
-/
import OopsMesa.Submit.Dump
import OopsMesa.Submit.Marks

namespace OopsMesa.Submit

open OopsMesa.Lib OopsMesa.Runtime

/-! ## The code -/

def ascii (s : String) : List UInt8 := s.toUTF8.toList

/-- `m->kind` -/
def MarkKind.char : MarkKind → UInt8
  | .R => 82
  | .W => 87
  | .S => 83
  | .E => 69
  | .P => 80

/-- `%u` -/
def decText (n : Nat) : List UInt8 := (Nat.toDigits 10 n).map Char.toUInt8

/-- Words and the blanks between them. -/
def spaced (words : List (List UInt8)) : List UInt8 := [32].intercalate words

/-- `"mark %c ib%u+%04x va 0x%llx:"` -/
def markHead (m : OopsMark) : List (List UInt8) :=
  [ascii "mark", [m.kind.char],
    ascii "ib" ++ decText m.ib.toNat ++ ascii "+" ++ hexText 4 m.pos.toNat,
    ascii "va", ascii "0x" ++ hexText 1 m.va.toNat ++ ascii ":"]

/-- The words of a mark's line; `now` is the dword at its pointer, which is there unless that is
    null. -/
def markWords (m : OopsMark) : Option UInt32 → List (List UInt8)
  -- "not CPU-mapped"
  | none => markHead m ++ [ascii "not", ascii "CPU-mapped"]
  -- "0x%08x -> 0x%08x (ref 0x%08x mask 0x%08x)"
  | some now => markHead m ++
      [ascii "0x" ++ hexText 8 m.before.toNat, ascii "->", ascii "0x" ++ hexText 8 now.toNat,
        ascii "(ref", ascii "0x" ++ hexText 8 m.ref.toNat,
        ascii "mask", ascii "0x" ++ hexText 8 m.mask.toNat ++ ascii ")"]

def markText (m : OopsMark) (now : Option UInt32) : List UInt8 := spaced (markWords m now)

/-! ## Reading a line -/

/-- The dword then and now, and what it is compared with. -/
structure MarkValues where
  before : Nat
  now : Nat
  ref : Nat
  mask : Nat
  deriving DecidableEq

/-- What a line reports. -/
structure MarkEntry where
  kind : MarkKind
  ib : Nat
  pos : Nat
  va : Nat
  values : Option MarkValues
  deriving DecidableEq

/-- What is to be read of a mark. -/
def markEntry (m : OopsMark) (now : Option UInt32) : MarkEntry where
  kind := m.kind
  ib := m.ib.toNat
  pos := m.pos.toNat
  va := m.va.toNat
  values := now.map fun now => ⟨m.before.toNat, now.toNat, m.ref.toNat, m.mask.toNat⟩

def readKind (word : List UInt8) : Option MarkKind :=
  [MarkKind.R, .W, .S, .E, .P].find? fun kind => [kind.char] == word

/-- What follows some bytes. -/
def readPast (head : List UInt8) (word : List UInt8) : Option (List UInt8) :=
  if head.isPrefixOf word then some (word.drop head.length) else none

/-- What comes before a last byte. -/
def readUpTo (last : UInt8) (word : List UInt8) : Option (List UInt8) :=
  if word.getLast? = some last then some word.dropLast else none

/-- One more decimal digit. -/
def takeDecDigit (n : Nat) (c : UInt8) : Option Nat :=
  if 48 ≤ c ∧ c ≤ 57 then some (10 * n + (c.toNat - 48)) else none

def readDec (word : List UInt8) : Option Nat :=
  if word = [] then none else word.foldlM takeDecDigit 0

/-- `0x` and a number. -/
def read0x (word : List UInt8) : Option Nat := readPast (ascii "0x") word >>= readHex

/-- A buffer and an offset. -/
def readPlace (word : List UInt8) : Option (Nat × Nat) := do
  match (← readPast (ascii "ib") word).splitOn 43 with
  | [ib, pos] => pure (← readDec ib, ← readHex pos)
  | _ => none

def readValues : List (List UInt8) → Option (Option MarkValues)
  | [_, _] => some none
  | [before, _, now, _, ref, _, mask] => do
    let mask ← readUpTo 41 mask
    pure (some ⟨← read0x before, ← read0x now, ← read0x ref, ← read0x mask⟩)
  | _ => none

def readMark (line : List UInt8) : Option MarkEntry :=
  match line.splitOn 32 with
  | _ :: kind :: place :: _ :: va :: rest => do
    let kind ← readKind kind
    let (ib, pos) ← readPlace place
    let va ← readUpTo 58 va >>= read0x
    let values ← readValues rest
    pure ⟨kind, ib, pos, va, values⟩
  | _ => none

/-! ## The words -/

variable {c : UInt8} {m : OopsMark} {now : Option UInt32} {head word : List UInt8} {k : Nat}

theorem readKind_char (kind : MarkKind) : readKind [kind.char] = some kind := by
  cases kind <;> rfl

theorem readPast_append : readPast head (head ++ word) = some word := by
  unfold readPast
  rw [if_pos (List.isPrefixOf_iff_prefix.mpr (List.prefix_append head word)), List.drop_left]

theorem readUpTo_append : readUpTo c (word ++ [c]) = some word := by
  unfold readUpTo
  rw [List.getLast?_concat, if_pos rfl, List.dropLast_concat]

theorem read0x_hexText (w n : Nat) : read0x (ascii "0x" ++ hexText w n) = some n := by
  unfold read0x
  rw [readPast_append]
  exact readHex_hexText w n

/-- A word of at most `k` bytes, with no blank and no NUL in it. -/
def WordFits (k : Nat) (word : List UInt8) : Prop :=
  (∀ c ∈ word, c ≠ 32 ∧ c ≠ 0) ∧ word.length ≤ k

-- over the word, not over every byte there is
instance : Decidable (WordFits k word) :=
  haveI : Decidable (∀ c ∈ word, c ≠ 32 ∧ c ≠ 0) := List.decidableBAll _ word
  inferInstanceAs (Decidable (_ ∧ _))

theorem decText_facts : ∀ n : Fin 256, readDec (decText n) = some n.val ∧
    43 ∉ decText n ∧ WordFits 3 (decText n) := by
  decide +kernel

theorem plus_eq : ascii "+" = [43] := by decide +kernel

theorem colon_eq : ascii ":" = [58] := by decide +kernel

theorem paren_eq : ascii ")" = [41] := by decide +kernel

theorem readPlace_eq (ib : UInt8) (pos : UInt16) :
    readPlace (ascii "ib" ++ decText ib.toNat ++ ascii "+" ++ hexText 4 pos.toNat) =
      some (ib.toNat, pos.toNat) := by
  obtain ⟨hdec, hplus, -⟩ := decText_facts ⟨ib.toNat, ib.toNat_lt⟩
  have hpos : (43 : UInt8) ∉ hexText 4 pos.toNat := not_mem_hexText rfl
  unfold readPlace
  rw [List.append_assoc, List.append_assoc, readPast_append, plus_eq]
  show (match (decText ib.toNat ++ 43 :: hexText 4 pos.toNat).splitOn 43 with
    | [ib, pos] => _
    | _ => _) = _
  rw [List.splitOn_append_cons_self_of_not_mem hplus, List.splitOn_eq_singleton hpos]
  dsimp only
  rw [hdec, readHex_hexText]
  rfl

theorem WordFits.append {l : Nat} (h : WordFits k head) (h' : WordFits l word) :
    WordFits (k + l) (head ++ word) := by
  refine ⟨fun c hc => (List.mem_append.mp hc).elim (h.1 c) (h'.1 c), ?_⟩
  rw [List.length_append]
  exact Nat.add_le_add h.2 h'.2

theorem WordFits.mono {l : Nat} (h : WordFits k word) (hkl : k ≤ l) : WordFits l word :=
  ⟨h.1, Nat.le_trans h.2 hkl⟩

theorem wordFits_hexText {w n : Nat} (hn : n < 16 ^ k) (hk : 0 < k) (hw : w ≤ k) :
    WordFits k (hexText w n) := by
  refine ⟨fun c hc => ?_, ?_⟩
  · have hdigit := mem_hexText hc
    refine ⟨?_, ?_⟩ <;> rintro rfl <;> exact nomatch hdigit
  · have hlen := hexText_length (w := w) hn hk
    omega

theorem wordFits_decText (n : UInt8) : WordFits 3 (decText n.toNat) :=
  (decText_facts ⟨n.toNat, n.toNat_lt⟩).2.2

theorem wordFits_0x (n : UInt32) : WordFits 10 (ascii "0x" ++ hexText 8 n.toNat) := by
  have hn : n.toNat < 16 ^ 8 := n.toNat_lt
  have h0x : WordFits 2 (ascii "0x") := by decide +kernel
  exact h0x.append (wordFits_hexText hn (by decide) (by decide))

theorem markHead_fits : ∀ word ∈ markHead m, WordFits 19 word := by
  have hpos : m.pos.toNat < 16 ^ 4 := m.pos.toNat_lt
  have hva : m.va.toNat < 16 ^ 16 := m.va.toNat_lt
  have hkind : WordFits 1 [m.kind.char] := by cases m.kind <;> decide
  have hib : WordFits 2 (ascii "ib") := by decide +kernel
  have hplus : WordFits 1 (ascii "+") := by decide +kernel
  have h0x : WordFits 2 (ascii "0x") := by decide +kernel
  have hcolon : WordFits 1 (ascii ":") := by decide +kernel
  have hplace := ((hib.append (wordFits_decText m.ib)).append hplus).append
    (wordFits_hexText (w := 4) hpos (by decide) (by decide))
  have haddr := (h0x.append (wordFits_hexText (w := 1) hva (by decide) (by decide))).append hcolon
  have hmark : WordFits 19 (ascii "mark") := by decide +kernel
  have hword : WordFits 19 (ascii "va") := by decide +kernel
  unfold markHead
  simp only [List.forall_mem_cons]
  exact ⟨hmark, hkind.mono (by decide), hplace.mono (by decide), hword, haddr,
    List.forall_mem_nil _⟩

theorem markWords_fits (m : OopsMark) (now : Option UInt32) :
    ∀ word ∈ markWords m now, WordFits 19 word := by
  unfold markWords
  cases now with
  | none =>
    have hnot : WordFits 19 (ascii "not") := by decide +kernel
    have hmapped : WordFits 19 (ascii "CPU-mapped") := by decide +kernel
    simp only [List.forall_mem_append, List.forall_mem_cons]
    exact ⟨markHead_fits, hnot, hmapped, List.forall_mem_nil _⟩
  | some now =>
    have harrow : WordFits 19 (ascii "->") := by decide +kernel
    have href : WordFits 19 (ascii "(ref") := by decide +kernel
    have hmask : WordFits 19 (ascii "mask") := by decide +kernel
    have hparen : WordFits 1 (ascii ")") := by decide +kernel
    simp only [List.forall_mem_append, List.forall_mem_cons]
    exact ⟨markHead_fits, (wordFits_0x _).mono (by decide), harrow,
      (wordFits_0x _).mono (by decide), href, (wordFits_0x _).mono (by decide), hmask,
      ((wordFits_0x _).append hparen).mono (by decide), List.forall_mem_nil _⟩

theorem markWords_length (m : OopsMark) (now : Option UInt32) :
    (markWords m now).length ≤ 12 := by
  cases now with
  | none => exact Nat.le_add_left 7 5
  | some now => exact Nat.le_refl 12

/-! ## A line -/

/-- Words that fit are a line that fits. -/
theorem spaced_fits {words : List (List UInt8)} (h : ∀ word ∈ words, WordFits k word) :
    (spaced words).length ≤ (k + 1) * words.length ∧ 0 ∉ spaced words := by
  induction words with
  | nil => exact ⟨Nat.zero_le _, List.not_mem_nil⟩
  | cons word words ih =>
    obtain ⟨hword, hwords⟩ := List.forall_mem_cons.mp h
    have hnul : 0 ∉ word := fun hmem => (hword.1 0 hmem).2 rfl
    have hlen := hword.2
    obtain ⟨ihlen, ihnul⟩ := ih hwords
    unfold spaced at ihlen ihnul ⊢
    rw [List.length_cons, Nat.mul_succ]
    cases words with
    | nil =>
      rw [List.intercalate_singleton]
      exact ⟨by omega, hnul⟩
    | cons next words =>
      rw [List.intercalate_cons_cons]
      refine ⟨?_, ?_⟩
      · rw [List.length_append, List.length_append, List.length_singleton]
        omega
      · rw [List.mem_append, List.mem_append, List.mem_singleton]
        rintro ((hmem | hmem) | hmem)
        · exact hnul hmem
        · exact nomatch hmem
        · exact ihnul hmem

/-- No line is cut, and none has a NUL in it. -/
theorem markText_fits (m : OopsMark) (now : Option UInt32) :
    (markText m now).length < 255 ∧ 0 ∉ markText m now := by
  obtain ⟨hlen, hnul⟩ := spaced_fits (markWords_fits m now)
  have hcount := markWords_length m now
  refine ⟨Nat.lt_of_le_of_lt (Nat.le_trans hlen (Nat.mul_le_mul_left 20 hcount)) (by decide), hnul⟩

/-- **A line reads back.** -/
theorem readMark_markText (m : OopsMark) (now : Option UInt32) :
    readMark (markText m now) = some (markEntry m now) := by
  have hblank : ∀ word ∈ markWords m now, (32 : UInt8) ∉ word := fun word hword hmem =>
    (markWords_fits m now word hword).1 32 hmem |>.1 rfl
  have hne : markWords m now ≠ [] := by cases now <;> exact List.cons_ne_nil _ _
  have hva : (readUpTo 58 (ascii "0x" ++ hexText 1 m.va.toNat ++ ascii ":") >>= read0x) =
      some m.va.toNat := by
    rw [colon_eq, readUpTo_append]
    exact read0x_hexText ..
  unfold readMark markText spaced
  rw [List.splitOn_intercalate _ hblank hne]
  cases now with
  | none =>
    unfold markWords markHead
    dsimp only [List.cons_append, List.nil_append]
    rw [readKind_char, readPlace_eq, hva]
    rfl
  | some now =>
    have hmask : readUpTo 41 (ascii "0x" ++ hexText 8 m.mask.toNat ++ ascii ")") =
        some (ascii "0x" ++ hexText 8 m.mask.toNat) := by
      rw [paren_eq, readUpTo_append]
    unfold markWords markHead
    dsimp only [List.cons_append, List.nil_append]
    rw [readKind_char, readPlace_eq, hva]
    unfold readValues
    dsimp only
    rw [hmask]
    dsimp only [Option.bind_eq_bind, Option.bind_some]
    rw [read0x_hexText, read0x_hexText, read0x_hexText, read0x_hexText]
    rfl

end OopsMesa.Submit
