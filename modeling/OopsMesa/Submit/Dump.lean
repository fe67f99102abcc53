/-
  The dump of a command buffer.

  A submission that never retires is dumped to the system log, eight dwords a line behind their
  offset, to be compared with one that did. Each line is built in place, in 128 bytes, each piece
  where the last one ended.

  The dump is exact (`dump_round_trip`): read back from the log, with every offset checked, the
  lines are the dwords that the GPU has at the address, and none is longer than the log takes.
  That they are the GPU's is what `Winsys.Alias` is about.
-/
import OopsMesa.Lib.Hex
import OopsMesa.Runtime.SystemLog
import OopsMesa.Winsys.Alias

namespace OopsMesa.Submit

open OopsMesa.Lib OopsMesa.Runtime OopsMesa.Winsys

/-! ## The code -/

/-- `line`, up to the NUL, and `at`. -/
structure DumpLine where
  line : List UInt8
  written : Nat

/-- `at += snprintf(line + at, sizeof(line) - at, ..)` -/
def DumpLine.put (l : DumpLine) (text : List UInt8) : DumpLine :=
  ⟨l.line.take l.written ++ text.take (128 - l.written - 1), l.written + text.length⟩

/-- `"ib+"` -/
def ibTag : List UInt8 := "ib+".toUTF8.toList

/-- `"ib+%04x"` -/
def offsetText (offset : Nat) : List UInt8 := ibTag ++ hexText 4 offset

/-- `" %08x"` -/
def wordText (word : UInt32) : List UInt8 := 32 :: hexText 8 word.toNat

/-- The inner loop, from `k` on. -/
def dumpWords (dw : List UInt32) (i k : Nat) (l : DumpLine) : Nat → DumpLine
  | 0 => l
  | left + 1 =>
    if i + k < dw.length then
      dumpWords dw i (k + 1) (l.put (wordText (dw.getD (i + k) 0))) left
    else l

/-- The line at dword `i`. -/
def dumpLine (dw : List UInt32) (i : Nat) : List UInt8 :=
  (dumpWords dw i 0 (DumpLine.put ⟨[], 0⟩ (offsetText (i * 4))) 8).line

/-- The lines from dword `i` on. -/
def dumpLines (dw : List UInt32) (i : Nat) : List (List UInt8) :=
  if i < dw.length then dumpLine dw i :: dumpLines dw (i + 8) else []
  termination_by dw.length - i

/-- The dword of four bytes, the low one first. -/
def wordOf (b0 b1 b2 b3 : UInt8) : UInt32 :=
  b0.toUInt32 ||| b1.toUInt32 <<< 8 ||| b2.toUInt32 <<< 16 ||| b3.toUInt32 <<< 24

/-- A dword in memory. -/
def readWord (dram : Int → UInt8) (pt : PageTable) (a : UInt64) : Option UInt32 := do
  let b0 ← readByte dram pt a
  let b1 ← readByte dram pt (a + 1)
  let b2 ← readByte dram pt (a + 2)
  let b3 ← readByte dram pt (a + 3)
  pure (wordOf b0 b1 b2 b3)

/-- The first `n` dwords at an address; none if one of them is not there. -/
def readWords (dram : Int → UInt8) (pt : PageTable) (a : UInt64) (n : Nat) :
    Option (List UInt32) :=
  (List.range n).mapM fun i => readWord dram pt (a + UInt64.ofNat (4 * i))

/-- `"ib dump: 0x%llx is not in any CPU-mapped buffer"` -/
def notMappedText (va : UInt64) : List UInt8 :=
  "ib dump: 0x".toUTF8.toList ++ hexText 1 va.toNat ++
    " is not in any CPU-mapped buffer".toUTF8.toList

/-- A text that was formatted. -/
def formatted (text : List UInt8) : Formatted :=
  if h : text.length ≤ 2147483647 then some ⟨text, h⟩ else none

/-- A line of the dump, logged. -/
def logLine (log : SystemLog) (line : List UInt8) : SystemLog :=
  oopsKlog .winsys line (onLine oopsStderrFlushPartial log)

/-- `oops_winsys_dump_ib`. `trace` is whether the level of the channel is that of traces. The
    result is none where a dword cannot be read. -/
def oopsWinsysDumpIb (trace : Bool) (w : Shim) (dram : Int → UInt8) (va : UInt64)
    (bytes : UInt32) (log : SystemLog) : Option SystemLog :=
  if !trace then some log
  else
    let dw := cpuForVa w va bytes.toUInt64
    if dw = 0 then some (winsysVlog (formatted (notMappedText va)) log)
    else
      (readWords dram w.mem.pageTable dw (bytes.toNat / 4)).map fun dw =>
        (dumpLines dw 0).foldl logLine log

/-! ## Reading it back -/

/-- The offset of a line, and the dwords behind it. -/
def readDumpLine (line : List UInt8) : Option (Nat × List UInt32) :=
  match line.splitOn 32 with
  | [] => none
  | offset :: words =>
    if ibTag.isPrefixOf offset then do
      let offset ← readHex (offset.drop ibTag.length)
      let words ← words.mapM readHex
      pure (offset, words.map UInt32.ofNat)
    else none

/-- The dwords of some lines, behind those read so far: each line is where its offset says. -/
def readDump (soFar : List UInt32) : List (List UInt8) → Option (List UInt32)
  | [] => some soFar
  | line :: lines =>
    match readDumpLine line with
    | some (offset, words) =>
      if offset = 4 * soFar.length then readDump (soFar ++ words) lines else none
    | none => none

/-- What the winsys has logged since. -/
def loggedSince (before after : SystemLog) : List (List UInt8) :=
  ((after.lines.drop before.lines.length).filter (·.tag = .winsys)).map LogLine.text

/-! ## A line -/

variable {dw : List UInt32} {i k : Nat} {l : DumpLine}

theorem ibTag_eq : ibTag = [105, 98, 43] := by decide +kernel

/-- Nothing is cut off a piece that fits. -/
theorem put_fits (text : List UInt8) (hl : l.written = l.line.length)
    (hfits : l.line.length + text.length < 128) :
    (l.put text).line = l.line ++ text ∧ (l.put text).written = (l.put text).line.length := by
  have hline : (l.put text).line = l.line ++ text := by
    unfold DumpLine.put
    rw [hl, List.take_length, List.take_of_length_le (by omega)]
  refine ⟨hline, ?_⟩
  rw [hline, List.length_append]
  exact congrArg (· + text.length) hl

theorem wordText_length (word : UInt32) : (wordText word).length = 9 := by
  have hlen := hexText_length (w := 8) (k := 8) word.toNat_lt (by decide)
  unfold wordText
  rw [List.length_cons]
  omega

theorem wordsText_length (words : List UInt32) :
    (words.flatMap wordText).length = 9 * words.length := by
  induction words with
  | nil => rfl
  | cons word words ih =>
    rw [List.flatMap_cons, List.length_append, ih, wordText_length, List.length_cons]
    omega

theorem offsetText_length {offset : Nat} (h : offset < 2 ^ 32) :
    (offsetText offset).length ≤ 11 := by
  have hlen := hexText_length (w := 4) (k := 8) h (by decide)
  unfold offsetText
  rw [List.length_append, ibTag_eq]
  show 3 + _ ≤ 11
  omega

/-- The inner loop puts up to `left` dwords behind what is there. -/
theorem dumpWords_line (left : Nat) (hl : l.written = l.line.length)
    (hfits : l.line.length + 9 * left < 128) :
    (dumpWords dw i k l left).line = l.line ++ ((dw.drop (i + k)).take left).flatMap wordText := by
  induction left generalizing l k with
  | zero => exact (List.append_nil _).symm
  | succ left ih =>
    unfold dumpWords
    split
    · next hlt =>
      have hword := wordText_length (dw.getD (i + k) 0)
      obtain ⟨hline, hwritten⟩ := put_fits (wordText (dw.getD (i + k) 0)) hl (by omega)
      rw [ih hwritten (by rw [hline, List.length_append]; omega), hline,
        List.drop_eq_getElem_cons hlt, List.take_succ_cons, List.flatMap_cons,
        List.append_assoc, List.getElem_eq_getD 0]
      rfl
    · next hge =>
      rw [List.drop_eq_nil_of_le (by omega)]
      exact (List.append_nil _).symm

/-- A line is its offset and up to eight dwords, all of them. -/
theorem dumpLine_eq (hi : i * 4 < 2 ^ 32) :
    dumpLine dw i = offsetText (i * 4) ++ ((dw.drop i).take 8).flatMap wordText := by
  have hoffset := offsetText_length hi
  obtain ⟨hline, hwritten⟩ := put_fits (l := ⟨[], 0⟩) (offsetText (i * 4)) rfl
    (by show 0 + _ < 128; omega)
  unfold dumpLine
  rw [dumpWords_line 8 hwritten (by rw [hline]; show (offsetText (i * 4)).length + 72 < 128; omega),
    hline]
  rfl

theorem dumpLine_length (hi : i * 4 < 2 ^ 32) : (dumpLine dw i).length ≤ 83 := by
  have hoffset := offsetText_length hi
  have htake := List.length_take_le 8 (dw.drop i)
  rw [dumpLine_eq hi, List.length_append, wordsText_length]
  omega

/-! ## Reading a line -/

theorem readHexDigit_space : readHexDigit 32 = none := rfl

theorem readHexDigit_nul : readHexDigit 0 = none := rfl

theorem not_mem_hexText {w n : Nat} {c : UInt8} (hc : readHexDigit c = none) :
    c ∉ hexText w n := by
  intro hmem
  have hdigit := mem_hexText hmem
  rw [hc] at hdigit
  exact nomatch hdigit

theorem not_mem_offsetText {offset : Nat} {c : UInt8} (hc : readHexDigit c = none)
    (htag : c ∉ ibTag) : c ∉ offsetText offset := by
  intro hmem
  exact (List.mem_append.mp hmem).elim htag (not_mem_hexText hc)

/-- The pieces of a line. -/
theorem splitOn_line (head : List UInt8) (hhead : 32 ∉ head) (words : List UInt32) :
    (head ++ words.flatMap wordText).splitOn 32 =
      head :: words.map fun word => hexText 8 word.toNat := by
  induction words generalizing head with
  | nil =>
    rw [List.flatMap_nil, List.append_nil]
    exact List.splitOn_eq_singleton hhead
  | cons word words ih =>
    rw [List.flatMap_cons]
    show (head ++ 32 :: (hexText 8 word.toNat ++ words.flatMap wordText)).splitOn 32 = _
    rw [List.splitOn_append_cons_self_of_not_mem hhead,
      ih _ (not_mem_hexText readHexDigit_space)]
    rfl

theorem readHex_words (words : List UInt32) :
    (words.map fun word => hexText 8 word.toNat).mapM readHex =
      some (words.map UInt32.toNat) := by
  induction words with
  | nil => rfl
  | cons word words ih =>
    rw [List.map_cons, List.mapM_cons, readHex_hexText, ih]
    rfl

/-- A line reads back. -/
theorem readDumpLine_dumpLine (hi : i * 4 < 2 ^ 32) :
    readDumpLine (dumpLine dw i) = some (i * 4, (dw.drop i).take 8) := by
  have htag : (32 : UInt8) ∉ ibTag := by rw [ibTag_eq]; decide
  unfold readDumpLine
  rw [dumpLine_eq hi, splitOn_line _ (not_mem_offsetText readHexDigit_space htag)]
  dsimp only
  have hprefix : ibTag.isPrefixOf (offsetText (i * 4)) = true :=
    List.isPrefixOf_iff_prefix.mpr (List.prefix_append _ _)
  have hdrop : (offsetText (i * 4)).drop ibTag.length = hexText 4 (i * 4) :=
    List.drop_left
  rw [if_pos hprefix, hdrop, readHex_hexText, readHex_words]
  show some (i * 4, ((((dw.drop i).take 8).map UInt32.toNat).map UInt32.ofNat)) = _
  have hword : UInt32.ofNat ∘ UInt32.toNat = id := funext fun _ => UInt32.ofNat_toNat
  rw [List.map_map, hword, List.map_id]

/-! ## All lines -/

/-- The lines from dword `i` on are the dwords from there on. -/
theorem readDump_dumpLines (hn : dw.length * 4 < 2 ^ 32) (i : Nat) :
    readDump (dw.take i) (dumpLines dw i) = some dw := by
  induction i using dumpLines.induct dw with
  | case1 i hlt ih =>
    unfold dumpLines
    rw [if_pos hlt]
    unfold readDump
    rw [readDumpLine_dumpLine (by omega)]
    dsimp only
    rw [if_pos (by rw [List.length_take]; omega), ← List.take_add]
    exact ih
  | case2 i hge =>
    unfold dumpLines
    rw [if_neg hge, List.take_of_length_le (by omega)]
    rfl

theorem mem_dumpLines {text : List UInt8} (hn : dw.length * 4 < 2 ^ 32)
    (h : text ∈ dumpLines dw i) : text.length ≤ 83 ∧ 0 ∉ text := by
  induction i using dumpLines.induct dw with
  | case1 i hlt ih =>
    unfold dumpLines at h
    rw [if_pos hlt] at h
    rcases List.mem_cons.mp h with rfl | h
    · have hi : i * 4 < 2 ^ 32 := by omega
      have htag : (0 : UInt8) ∉ ibTag := by rw [ibTag_eq]; decide
      refine ⟨dumpLine_length hi, ?_⟩
      rw [dumpLine_eq hi, List.mem_append, List.mem_flatMap]
      rintro (hmem | ⟨word, -, hmem⟩)
      · exact not_mem_offsetText readHexDigit_nul htag hmem
      · rcases List.mem_cons.mp hmem with hspace | hmem
        · exact nomatch hspace
        · exact not_mem_hexText readHexDigit_nul hmem
    · exact ih h
  | case2 i hge =>
    unfold dumpLines at h
    rw [if_neg hge] at h
    exact nomatch h

/-! ## The log -/

/-- Each line is logged, behind what was pending. -/
theorem foldl_logLine (lines : List (List UInt8)) (log : SystemLog) :
    ∃ added, (lines.foldl logLine log).lines = log.lines ++ added ∧
      (added.filter (·.tag = .winsys)).map LogLine.text = lines.map upToNul := by
  induction lines generalizing log with
  | nil => exact ⟨[], (List.append_nil _).symm, rfl⟩
  | cons line lines ih =>
    obtain ⟨added, hlines, htexts⟩ := ih (logLine log line)
    let flushed := (oopsStderrFlushPartial ⟨log.line, [], log.errno⟩).log.map (LogLine.mk .mesa)
    have hfirst : (logLine log line).lines = log.lines ++ (flushed ++ [⟨.winsys, upToNul line⟩]) :=
      List.append_assoc ..
    refine ⟨flushed ++ [⟨.winsys, upToNul line⟩] ++ added, ?_, ?_⟩
    · rw [List.foldl_cons, hlines, hfirst, List.append_assoc]
    · have hnone : flushed.filter (·.tag = .winsys) = [] := by
        refine List.filter_eq_nil_iff.mpr fun l hl => ?_
        obtain ⟨text, -, rfl⟩ := List.mem_map.mp hl
        exact Bool.false_ne_true
      rw [List.filter_append, List.filter_append, hnone, List.nil_append, List.map_append, htexts]
      rfl

/-! ## The dwords -/

variable {pt : PageTable} {p va bytes a : UInt64}

theorem readWord_same (dram : Int → UInt8) (h : SameBytes pt p va bytes)
    (ha : a.toNat + 3 < bytes.toNat) :
    ∃ word, readWord dram pt (p + a) = some word ∧ readWord dram pt (va + a) = some word := by
  have hbyte (j : UInt64) (hj : j.toNat ≤ 3) : ∃ b, readByte dram pt (p + a + j) = some b ∧
      readByte dram pt (va + a + j) = some b := by
    rw [UInt64.add_assoc, UInt64.add_assoc]
    refine h (a + j) ?_ dram
    have := bytes.toNat_lt
    rw [UInt64.lt_iff_toNat_lt, toNat_add_of_lt (by omega)]
    omega
  obtain ⟨b0, hp0, hva0⟩ := hbyte 0 (by decide)
  obtain ⟨b1, hp1, hva1⟩ := hbyte 1 (by decide)
  obtain ⟨b2, hp2, hva2⟩ := hbyte 2 (by decide)
  obtain ⟨b3, hp3, hva3⟩ := hbyte 3 (by decide)
  rw [UInt64.add_zero] at hp0 hva0
  refine ⟨wordOf b0 b1 b2 b3, ?_, ?_⟩
  · unfold readWord
    rw [hp0, hp1, hp2, hp3]
    rfl
  · unfold readWord
    rw [hva0, hva1, hva2, hva3]
    rfl

private theorem mapM_same {f g : Nat → Option UInt32} (is : List Nat)
    (h : ∀ i ∈ is, ∃ word, f i = some word ∧ g i = some word) :
    ∃ words, is.mapM f = some words ∧ is.mapM g = some words ∧ words.length = is.length := by
  induction is with
  | nil => exact ⟨[], rfl, rfl, rfl⟩
  | cons i is ih =>
    obtain ⟨word, hf, hg⟩ := h i List.mem_cons_self
    obtain ⟨words, hfs, hgs, hlength⟩ := ih fun j hj => h j (List.mem_cons_of_mem i hj)
    refine ⟨word :: words, ?_, ?_, congrArg (· + 1) hlength⟩
    · rw [List.mapM_cons, hf, hfs]
      rfl
    · rw [List.mapM_cons, hg, hgs]
      rfl

theorem readWords_same (dram : Int → UInt8) (h : SameBytes pt p va bytes)
    {n : Nat} (hn : 4 * n ≤ bytes.toNat) :
    ∃ dw, readWords dram pt p n = some dw ∧ readWords dram pt va n = some dw ∧
      dw.length = n := by
  have hbytes := bytes.toNat_lt
  obtain ⟨dw, hp, hva, hlength⟩ := mapM_same (List.range n) fun i hi =>
    readWord_same dram h (a := UInt64.ofNat (4 * i)) (by
      have hlt := List.mem_range.mp hi
      rw [UInt64.toNat_ofNat', Nat.mod_eq_of_lt (by omega)]
      omega)
  exact ⟨dw, hp, hva, hlength.trans List.length_range⟩

/-! ## The dump -/

/-- A dump that was made is what the GPU has at the address. -/
structure Dumps (t : Tracked) (dram : Int → UInt8) (va : UInt64) (bytes : UInt32)
    (log log' : SystemLog) : Prop where
  kept : log.lines <+: log'.lines
  fits : ∀ text ∈ loggedSince log log', text.length < 128
  reads : readDump [] (loggedSince log log') =
    readWords dram t.shim.mem.pageTable va (bytes.toNat / 4)
  there : (readWords dram t.shim.mem.pageTable va (bytes.toNat / 4)).isSome

/-- **A dump reads back.** Where a buffer that the CPU has mapped holds the range, the dump is
    made, and read back from the log it is the dwords that the GPU has there, each at the offset
    its line says. -/
theorem dump_round_trip {t : Tracked} (h : Reach trackedStep WholeMaps .init t)
    (dram : Int → UInt8) (va : UInt64) (bytes : UInt32) (log : SystemLog)
    (htop : va.toNat + bytes.toNat ≤ 2 ^ 64) (hptr : cpuForVa t.shim va bytes.toUInt64 ≠ 0) :
    ∃ log', oopsWinsysDumpIb true t.shim dram va bytes log = some log' ∧
      Dumps t dram va bytes log log' := by
  have hbytes : bytes.toUInt64.toNat = bytes.toNat := UInt32.toNat_toUInt64 bytes
  obtain ⟨hsteady, hwhole⟩ := steady_whole h
  have hsame := (hsteady.readsGpu hwhole).same va bytes.toUInt64 (hbytes ▸ htop) hptr
  obtain ⟨dw, hcpu, hgpu, hlength⟩ := readWords_same dram hsame
    (n := bytes.toNat / 4) (by omega)
  have hn : dw.length * 4 < 2 ^ 32 := by
    have := bytes.toNat_lt
    omega
  refine ⟨(dumpLines dw 0).foldl logLine log, ?_, ?_⟩
  · unfold oopsWinsysDumpIb
    dsimp only
    rw [if_neg (by decide), if_neg hptr, hcpu]
    rfl
  · obtain ⟨added, hlines, htexts⟩ := foldl_logLine (dumpLines dw 0) log
    have hsince : loggedSince log ((dumpLines dw 0).foldl logLine log) = dumpLines dw 0 := by
      unfold loggedSince
      rw [hlines, List.drop_left, htexts]
      refine (List.map_congr_left (g := id) fun text htext => ?_).trans (List.map_id _)
      exact upToNul_eq (mem_dumpLines hn htext).2
    refine ⟨hlines ▸ List.prefix_append _ _, fun text htext => ?_, ?_, ?_⟩
    · rw [hsince] at htext
      have := (mem_dumpLines hn htext).1
      omega
    · rw [hsince, hgpu]
      exact readDump_dumpLines hn 0
    · rw [hgpu]
      rfl

/-- Four dwords of a page. -/
theorem dump_round_trip_page : ∃ log',
    oopsWinsysDumpIb true mappedPage.shim (fun _ => 0) 0x400000010 16 .init = some log' ∧
      Dumps mappedPage (fun _ => 0) 0x400000010 16 .init log' :=
  dump_round_trip mappedPage_reach (fun _ => 0) 0x400000010 16 .init (by decide)
    (mappedPage_ptr ▸ by decide)

end OopsMesa.Submit
