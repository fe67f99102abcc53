/-
  The three writers of the system log.

  Captured output, the winsys's messages and those of the platform shim all end at `oops_klog`.
  The first keeps a partial line back. The winsys has it emitted before its own message; `say` does
  not, and overtakes it. The winsys formats into 256 bytes and makes one line of what is there, so
  that a message is cut, or its line too long for the log. Everything else is there in order, in
  every state of a run (`log_in_order_iff`).
-/
import OopsMesa.Lib.Reach
import OopsMesa.Runtime.Captured

namespace OopsMesa.Runtime

open OopsMesa.Lib

/-! ## The code -/

/-- `"MESA"`, `"OOPS-MESA"` and `"OOPS-GL"`. -/
inductive LogTag where
  | mesa
  | winsys
  | gl
  deriving DecidableEq

/-- A call of `oops_klog`. -/
structure LogLine where
  tag : LogTag
  text : List UInt8
  deriving DecidableEq

/-- What is in `s_line`, `errno`, and the lines logged so far. -/
structure SystemLog where
  line : List UInt8
  errno : Option StreamErrno
  lines : List LogLine
  deriving DecidableEq

def SystemLog.init : SystemLog := ⟨[], none, []⟩

/-- `oops_klog` -/
def oopsKlog (tag : LogTag) (msg : List UInt8) (log : SystemLog) : SystemLog :=
  { log with lines := log.lines ++ [⟨tag, upToNul msg⟩] }

/-- What works on the line buffer, its payloads logged as lines. -/
def onLine (f : Output → Output) (log : SystemLog) : SystemLog where
  line := (f ⟨log.line, [], log.errno⟩).line
  errno := (f ⟨log.line, [], log.errno⟩).errno
  lines := log.lines ++ (f ⟨log.line, [], log.errno⟩).log.map (⟨.mesa, ·⟩)

/-- `winsys_vlog`, which is all of `oops_winsys_log`. -/
def winsysVlog (f : Formatted) (log : SystemLog) : SystemLog :=
  let (_, line) := vsnprintf 256 f
  oopsKlog .winsys line (onLine oopsStderrFlushPartial log)

/-- `say` -/
def say (msg : CString) (log : SystemLog) : SystemLog := oopsKlog .gl msg.1 log

/-! ## The statement -/

/-- A call, its text without a NUL. -/
inductive LogCall where
  | stdio (c : { c : Call // c.ToLog ∧ 0 ∉ c.body })
  | winsysLog (f : { f : Formatted // 0 ∉ f.text })
  | say (msg : CString)

variable (oopsFsWrite : Int → List UInt8 → Int)

def LogCall.run : LogCall → SystemLog → SystemLog
  | .stdio c, log => onLine (c.1.run oopsFsWrite) log
  | .winsysLog f, log => winsysVlog f.1 log
  | .say msg, log => Runtime.say msg log

/-- Whose text, and which. -/
def tagged (tag : LogTag) (text : List UInt8) : List (LogTag × UInt8) := text.map (tag, ·)

/-- What is to be read of a call in the log. -/
def LogCall.text : LogCall → List (LogTag × UInt8)
  | .stdio c => tagged .mesa (strip c.1.text)
  | .winsysLog f => tagged .winsys f.1.text
  | .say msg => tagged .gl msg.1

/-- The log, and what was to be read in it, the first thing first. -/
structure Logging where
  log : SystemLog
  said : List (LogTag × UInt8)

def Logging.init : Logging := ⟨.init, []⟩

def Logging.after (s : Logging) (c : LogCall) : Logging :=
  ⟨c.run oopsFsWrite s.log, s.said ++ c.text⟩

/-- What the lines say, read in order. -/
def readLines (lines : List LogLine) : List (LogTag × UInt8) :=
  lines.flatMap fun l => tagged l.tag l.text

/-- The lines read in order, and what is pending, are the text of the calls; and the lines of the
    winsys are of no more than `limit` bytes. -/
structure InOrder (limit : Nat) (s : Logging) : Prop where
  text : readLines s.log.lines ++ tagged .mesa s.log.line = s.said
  fits : ∀ l ∈ s.log.lines, l.tag = .winsys → l.text.length ≤ limit

/-- When a call keeps the log in order: captured output is not cut, or what is cut off reads like
    the note; a message of the winsys fits in a line, and in 255 bytes; and nothing is pending when
    `say` is called. -/
def LogCall.Keeps (limit : Nat) (log : SystemLog) : LogCall → Prop
  | .stdio c => c.1.Cut → strip (c.1.body.drop (OOPS_LINE_MAX - 1)) = truncatedNote
  | .winsysLog f => f.1.text.length ≤ 255 ∧ f.1.text.length ≤ limit
  | .say msg => log.line = [] ∨ msg.1 = []

/-! ## The line buffer -/

variable {o : Output} {text : List UInt8} {c : UInt8}

/-- What was emitted and what is pending. -/
def Output.all (o : Output) : List UInt8 := o.log.flatten ++ o.line

theorem lineFlush_log (h : 0 ∉ o.line) : (lineFlush o).log.flatten = o.all := by
  rw [lineFlush_eq]
  show (o.log ++ klogChunks o.line).flatten = o.log.flatten ++ o.line
  rw [List.flatten_append, klogChunks_flatten _ h]

theorem lineFlush_all (h : 0 ∉ o.line) : (lineFlush o).all = o.all := by
  show (lineFlush o).log.flatten ++ (lineFlush o).line = o.all
  rw [lineFlush_line, List.append_nil, lineFlush_log h]

theorem appendByte_all (h : 0 ∉ o.line) (hc : c ≠ 0) :
    (appendByte o c).all = o.all ++ strip [c] ∧ 0 ∉ (appendByte o c).line := by
  have hadd : ∀ o : Output, 0 ∉ o.line → 0 ∉ o.line ++ [c] := fun o h hm =>
    (List.mem_append.mp hm).elim h fun hs => hc (List.mem_singleton.mp hs).symm
  unfold appendByte
  rcases Decidable.em (c = 10) with rfl | hnl
  · rw [if_pos rfl, lineFlush_all h, lineFlush_line]
    exact ⟨(List.append_nil _).symm, List.not_mem_nil⟩
  · rw [if_neg hnl]
    rcases Decidable.em (c = 13) with rfl | hcr
    · rw [if_pos rfl]
      exact ⟨(List.append_nil _).symm, h⟩
    · have hstrip : strip [c] = [c] := @strip_snoc [] c hnl hcr
      rw [if_neg hcr, hstrip]
      dsimp only
      rcases Decidable.em (o.line.length = OOPS_LINE_MAX) with hfull | hroom
      · rw [if_pos hfull, ← lineFlush_all h]
        exact ⟨(List.append_assoc ..).symm, hadd _ (by rw [lineFlush_line]; exact List.not_mem_nil)⟩
      · rw [if_neg hroom]
        exact ⟨(List.append_assoc ..).symm, hadd _ h⟩

theorem lineAppend_all (text : List UInt8) (h : 0 ∉ o.line) (ht : 0 ∉ text) :
    (lineAppend o text).all = o.all ++ strip text ∧ 0 ∉ (lineAppend o text).line := by
  induction text generalizing o with
  | nil => exact ⟨(List.append_nil _).symm, h⟩
  | cons c text ih =>
    have hc : c ≠ 0 := fun heq => ht (heq ▸ List.mem_cons_self)
    obtain ⟨hbyte, hline⟩ := appendByte_all h hc
    obtain ⟨hall, hline'⟩ := ih hline fun hm => ht (List.mem_cons_of_mem c hm)
    refine ⟨hall.trans ?_, hline'⟩
    rw [hbyte, List.append_assoc, ← strip_append]
    rfl

variable {oopsFsWrite}

/-- A call to a captured stream emits and keeps what it writes, if that is not cut. -/
theorem run_all (oopsFsWrite) {c : Call} (hc : c.ToLog) (h0 : 0 ∉ c.body) (h : 0 ∉ o.line) :
    0 ∉ (c.run oopsFsWrite o).line ∧ ((c.run oopsFsWrite o).all = o.all ++ strip c.text ↔
      (c.Cut → strip (c.body.drop (OOPS_LINE_MAX - 1)) = truncatedNote)) := by
  rcases Classical.em c.Cut with hcut | hcut
  · obtain ⟨htext, hrun⟩ := c.run_cut oopsFsWrite hc hcut o
    obtain ⟨hall, hline⟩ := lineAppend_all (c.body.take (OOPS_LINE_MAX - 1)) h
      fun hm => h0 (List.mem_of_mem_take hm)
    have hsplit : strip c.body = strip (c.body.take (OOPS_LINE_MAX - 1)) ++
        strip (c.body.drop (OOPS_LINE_MAX - 1)) := by
      rw [← strip_append, List.take_append_drop]
    rw [hrun, htext]
    refine ⟨by rw [lineFlush_line]; exact List.not_mem_nil, ?_⟩
    show (_ ++ [truncatedNote]).flatten ++ (lineFlush _).line = _ ↔ _
    rw [lineFlush_line, List.append_nil, List.flatten_append, lineFlush_log hline, hall,
      List.flatten_singleton, hsplit, List.append_assoc, List.append_cancel_left_eq,
      List.append_cancel_left_eq]
    exact ⟨fun heq _ => heq.symm, fun heq => (heq hcut).symm⟩
  · obtain ⟨hstays, hends⟩ := c.run_toLog oopsFsWrite hc hcut o
    obtain ⟨hall, hline⟩ := lineAppend_all _ h h0
    have hstrip : strip c.text = strip c.body := by
      obtain htext | ⟨-, htext⟩ := c.text_cases
      · rw [htext]
      · rw [htext, strip_snoc_dropped (.inl rfl)]
    rw [hstrip]
    rcases Classical.em c.Ends with he | he
    · rw [hends he, lineFlush_all hline, lineFlush_line]
      exact ⟨List.not_mem_nil, fun _ hcut' => absurd hcut' hcut, fun _ => hall⟩
    · rw [hstays he]
      exact ⟨hline, fun _ hcut' => absurd hcut' hcut, fun _ => hall⟩

/-! ## Steps -/

theorem tagged_append (tag : LogTag) (a b : List UInt8) :
    tagged tag (a ++ b) = tagged tag a ++ tagged tag b := List.map_append

theorem tagged_inj {tag : LogTag} {a b : List UInt8} : tagged tag a = tagged tag b ↔ a = b :=
  (List.map_injective_iff.mpr fun _ _ h => (Prod.mk.inj h).2).eq_iff

/-- Texts of different writers only commute if one of them is empty. -/
theorem tagged_comm {tag tag' : LogTag} {a b : List UInt8} (hne : tag ≠ tag') :
    tagged tag a ++ tagged tag' b = tagged tag' b ++ tagged tag a ↔ b = [] ∨ a = [] := by
  cases a with
  | nil => exact ⟨fun _ => .inr rfl, fun _ => (List.append_nil _).symm⟩
  | cons x a =>
    cases b with
    | nil => exact ⟨fun _ => .inl rfl, fun _ => List.append_nil _⟩
    | cons y b =>
      refine ⟨fun h => ?_, nofun⟩
      have hhead := (List.cons.inj h).1
      exact absurd (Prod.mk.inj hhead).1 hne

variable {log : SystemLog} {tag : LogTag} {f : Output → Output}

theorem readLines_append (lines lines' : List LogLine) :
    readLines (lines ++ lines') = readLines lines ++ readLines lines' := List.flatMap_append

theorem readLines_payloads (payloads : List (List UInt8)) :
    readLines (payloads.map (⟨.mesa, ·⟩)) = tagged .mesa payloads.flatten := by
  unfold readLines tagged
  rw [List.flatMap_map, List.map_flatten, List.flatMap_def]

theorem oopsKlog_read (h : 0 ∉ text) :
    readLines (oopsKlog tag text log).lines = readLines log.lines ++ tagged tag text := by
  unfold oopsKlog
  rw [readLines_append, upToNul_eq h]
  exact congrArg (readLines log.lines ++ ·) (List.flatMap_singleton ..)

theorem onLine_read : readLines (onLine f log).lines =
    readLines log.lines ++ tagged .mesa (f ⟨log.line, [], log.errno⟩).log.flatten := by
  unfold onLine
  rw [readLines_append, readLines_payloads]

theorem onLine_winsys {l : LogLine} (hl : l ∈ (onLine f log).lines) (htag : l.tag = .winsys) :
    l ∈ log.lines := by
  rcases List.mem_append.mp hl with hold | hnew
  · exact hold
  · obtain ⟨_, _, rfl⟩ := List.mem_map.mp hnew
    exact nomatch htag

variable {limit : Nat} {s : Logging}

/-- Nothing is lost by emitting what is pending. -/
theorem onLine_flush (log : SystemLog) (h : 0 ∉ log.line) :
    (onLine oopsStderrFlushPartial log).line = [] ∧
      readLines (onLine oopsStderrFlushPartial log).lines =
        readLines log.lines ++ tagged .mesa log.line := by
  refine ⟨lineFlush_line _, onLine_read.trans ?_⟩
  rw [oopsStderrFlushPartial, lineFlush_log h]
  rfl

theorem inOrder_stdio (h : InOrder limit s) (h0 : 0 ∉ s.log.line)
    (c : { c : Call // c.ToLog ∧ 0 ∉ c.body }) :
    InOrder limit (s.after oopsFsWrite (.stdio c)) ↔ (LogCall.stdio c).Keeps limit s.log := by
  obtain ⟨-, hall⟩ := run_all oopsFsWrite (o := ⟨s.log.line, [], s.log.errno⟩) c.2.1 c.2.2 h0
  have htext : readLines (s.after oopsFsWrite (.stdio c)).log.lines ++
      tagged .mesa (s.after oopsFsWrite (.stdio c)).log.line = readLines s.log.lines ++
        tagged .mesa (c.1.run oopsFsWrite ⟨s.log.line, [], s.log.errno⟩).all := by
    show readLines (onLine _ s.log).lines ++ tagged .mesa (onLine _ s.log).line = _
    rw [onLine_read, List.append_assoc]
    unfold Output.all
    rw [tagged_append]
    rfl
  have hiff : readLines (s.after oopsFsWrite (.stdio c)).log.lines ++
      tagged .mesa (s.after oopsFsWrite (.stdio c)).log.line = s.said ++ (LogCall.stdio c).text ↔
        (LogCall.stdio c).Keeps limit s.log := by
    rw [htext, ← h.text, List.append_assoc, List.append_cancel_left_eq]
    show _ = _ ++ tagged .mesa (strip c.1.text) ↔ _
    rw [← tagged_append, tagged_inj]
    exact hall
  exact ⟨fun hnext => hiff.mp hnext.text, fun hkeeps => ⟨hiff.mpr hkeeps, fun l hl htag =>
    h.fits l (onLine_winsys hl htag) htag⟩⟩

theorem inOrder_winsysLog (h : InOrder limit s) (h0 : 0 ∉ s.log.line)
    (f : { f : Formatted // 0 ∉ f.text }) :
    InOrder limit (s.after oopsFsWrite (.winsysLog f)) ↔
      (LogCall.winsysLog f).Keeps limit s.log := by
  have hbuf : (vsnprintf 256 f.1).2 = f.1.text.take 255 := by
    cases hf : f.1 with
    | none => rfl
    | some text => rfl
  have hcut : 0 ∉ f.1.text.take 255 := fun hm => f.2 (List.mem_of_mem_take hm)
  have hlog : (s.after oopsFsWrite (.winsysLog f)).log =
      oopsKlog .winsys (f.1.text.take 255) (onLine oopsStderrFlushPartial s.log) := by
    rw [← hbuf]
    rfl
  obtain ⟨hline, hread⟩ := onLine_flush s.log h0
  have hlines : (s.after oopsFsWrite (.winsysLog f)).log.lines =
      (onLine oopsStderrFlushPartial s.log).lines ++ [⟨.winsys, f.1.text.take 255⟩] := by
    rw [hlog]
    unfold oopsKlog
    rw [upToNul_eq hcut]
  have htext : readLines (s.after oopsFsWrite (.winsysLog f)).log.lines ++
      tagged .mesa (s.after oopsFsWrite (.winsysLog f)).log.line =
        s.said ++ tagged .winsys (f.1.text.take 255) := by
    rw [hlog, oopsKlog_read hcut, hread, h.text]
    show _ ++ tagged .mesa (onLine oopsStderrFlushPartial s.log).line = _
    rw [hline]
    exact List.append_nil _
  constructor
  · intro hnext
    have hwhole : f.1.text.take 255 = f.1.text := by
      have heq := htext.symm.trans hnext.text
      exact tagged_inj.mp (List.append_cancel_left heq)
    have hfits := hnext.fits ⟨.winsys, f.1.text.take 255⟩
      (hlines ▸ List.mem_append_right _ (List.mem_singleton_self _)) rfl
    rw [hwhole] at hfits
    have hlen := congrArg List.length hwhole
    rw [List.length_take] at hlen
    exact ⟨by omega, hfits⟩
  · intro ⟨hshort, hfits⟩
    have hwhole := List.take_of_length_le hshort
    refine ⟨by rw [htext, hwhole]; rfl, fun l hl htag => ?_⟩
    rw [hlines] at hl
    rcases List.mem_append.mp hl with hold | hnew
    · exact h.fits l (onLine_winsys hold htag) htag
    · obtain rfl := List.mem_singleton.mp hnew
      show (f.1.text.take 255).length ≤ limit
      rwa [hwhole]

theorem inOrder_say (h : InOrder limit s) (msg : CString) :
    InOrder limit (s.after oopsFsWrite (.say msg)) ↔ (LogCall.say msg).Keeps limit s.log := by
  have hread : readLines (s.after oopsFsWrite (.say msg)).log.lines =
      readLines s.log.lines ++ tagged .gl msg.1 := oopsKlog_read msg.2
  have hiff : readLines (s.after oopsFsWrite (.say msg)).log.lines ++ tagged .mesa s.log.line =
      s.said ++ tagged .gl msg.1 ↔ s.log.line = [] ∨ msg.1 = [] := by
    rw [hread, ← h.text, List.append_assoc, List.append_assoc, List.append_cancel_left_eq]
    exact tagged_comm nofun
  refine ⟨fun hnext => hiff.mp hnext.text, fun hkeeps => ⟨hiff.mpr hkeeps, fun l hl htag => ?_⟩⟩
  rcases List.mem_append.mp hl with hold | hnew
  · exact h.fits l hold htag
  · obtain rfl := List.mem_singleton.mp hnew
    exact nomatch htag

/-- A call leaves no NUL in the line. -/
theorem after_line (h0 : 0 ∉ s.log.line) (c : LogCall) : 0 ∉ (s.after oopsFsWrite c).log.line := by
  cases c with
  | stdio c => exact (run_all oopsFsWrite (o := ⟨s.log.line, [], s.log.errno⟩) c.2.1 c.2.2 h0).1
  | winsysLog f =>
    have hline : (onLine oopsStderrFlushPartial s.log).line = [] := (onLine_flush s.log h0).1
    show 0 ∉ (onLine oopsStderrFlushPartial s.log).line
    rw [hline]
    exact List.not_mem_nil
  | say msg => exact h0

/-! ## Runs -/

variable (oopsFsWrite)

/-- The log is in order and complete in every state of a run exactly if every call keeps it so. -/
theorem log_in_order_iff (limit : Nat) (calls : List LogCall) :
    Always (Logging.after oopsFsWrite) (InOrder limit) .init calls ↔
      EachStep (Logging.after oopsFsWrite) (fun s c => c.Keeps limit s.log) .init calls := by
  refine always_iff_eachStep (I := fun s => 0 ∉ s.log.line) calls List.not_mem_nil ⟨rfl, nofun⟩
    (fun _ c h0 _ => after_line h0 c) fun s c h0 h _ => ?_
  cases c with
  | stdio c => exact inOrder_stdio h h0 c
  | winsysLog f => exact inOrder_winsysLog h h0 f
  | say msg => exact inOrder_say h msg

/-- `a` is written to stderr, and `b` said before the line ends: `b` comes first. -/
theorem not_log_in_order : ¬ ∀ calls : List LogCall,
    Always (Logging.after fun _ text => text.length) (InOrder 128) .init calls := by
  intro h
  have hend := (h [.stdio ⟨.fputs ⟨[97], by decide⟩ .stderr, rfl, by decide⟩,
    .say ⟨[98], by decide⟩]).2.2.text
  exact absurd hend (by decide)

end OopsMesa.Runtime
