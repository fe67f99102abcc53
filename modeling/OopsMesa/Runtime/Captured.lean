/-
  Captured output is lossless, and does not depend on how it was written.

  Every writer of a captured stream comes down to `lineAppend` of what C says it writes
  (`Call.run_text`), and `lineAppend` goes byte by byte, so only the bytes count. `Logged` is kept
  by every byte (`Logged.byte`) and by every flush (`Logged.flush`).
-/
import OopsMesa.Runtime.Stdio
import Mathlib.Algebra.Group.Nat.Defs
import Mathlib.Data.List.TakeWhile

namespace OopsMesa.Runtime

open OopsMesa.Lib

/-! ## Calls -/

/-- The calls that reach the line buffer, with what the platform answers. -/
inductive Call where
  | fprintf (stream : Stream) (f : Formatted) (malloc : Bool)
  | vfprintf (stream : Stream) (f : Formatted) (malloc : Bool)
  | printf (f : Formatted) (malloc : Bool)
  | vprintf (f : Formatted) (malloc : Bool)
  | fwrite (ptr : Nat → UInt8) (size nmemb : UInt64) (stream : Stream)
  | fputs (s : CString) (stream : Stream)
  | fputc (c : Int) (stream : Stream)
  | write (fd : Int) (buf : Option (Nat → UInt8)) (nbyte : UInt64)
  | puts (s : CString)
  | perror (s msg : Option CString)
  | fflush (stream : Option Stream)
  | flushPartial

variable (oopsFsWrite : Int → List UInt8 → Int)

def Call.run : Call → Output → Output
  | .fprintf stream f malloc, o => (Runtime.fprintf oopsFsWrite stream f malloc o).2
  | .vfprintf stream f malloc, o => (Runtime.vfprintf oopsFsWrite stream f malloc o).2
  | .printf f malloc, o => (Runtime.printf oopsFsWrite f malloc o).2
  | .vprintf f malloc, o => (Runtime.vprintf oopsFsWrite f malloc o).2
  | .fwrite ptr size nmemb stream, o => (Runtime.fwrite oopsFsWrite ptr size nmemb stream o).2
  | .fputs s stream, o => (Runtime.fputs oopsFsWrite s stream o).2
  | .fputc c stream, o => (Runtime.fputc oopsFsWrite c stream o).2
  | .write fd buf nbyte, o => (Runtime.write oopsFsWrite fd buf nbyte o).2
  | .puts s, o => (Runtime.puts s o).2
  | .perror s msg, o => Runtime.perror s msg o
  | .fflush stream, o => (Runtime.fflush stream o).2
  | .flushPartial, o => oopsStderrFlushPartial o

def runAll (calls : List Call) (o : Output) : Output :=
  calls.foldl (fun o call => call.run oopsFsWrite o) o

/-- What a formatted call writes. -/
def Formatted.text (f : Formatted) : List UInt8 := (f.map Subtype.val).getD []

/-- What C says that a call writes, but for the newline at the end of `puts` and `perror`. A
    `fwrite` of more than a memory holds writes nothing. -/
def Call.body : Call → List UInt8
  | .fprintf _ f _ | .vfprintf _ f _ | .printf f _ | .vprintf f _ => f.text
  | .fwrite ptr size nmemb _ =>
    if size.toNat * nmemb.toNat < 2 ^ 64 then bytesAt ptr (size.toNat * nmemb.toNat) else []
  | .fputs s _ => s.1
  | .fputc c _ => [charOf c]
  | .write _ buf nbyte => (buf.map fun ptr => bytesAt ptr nbyte.toNat).getD []
  | .puts s => s.1
  | .perror s msg =>
    (match s with
      | some s => if s.1 ≠ [] then s.1 ++ [58, 32] else []
      | none => []) ++ (msg.map Subtype.val).getD []
  | .fflush _ | .flushPartial => []

/-- The calls that end what is pending. -/
def Call.Ends : Call → Prop
  | .puts _ | .perror _ _ | .fflush _ | .flushPartial => True
  | _ => False

/-- What a call writes. -/
def Call.text (call : Call) : List UInt8 :=
  match call with
  | .puts _ | .perror _ _ => call.body ++ [10]
  | _ => call.body

/-- The call is to stdout or stderr, and `malloc` succeeds. -/
def Call.Captured : Call → Prop
  | .fprintf stream _ malloc | .vfprintf stream _ malloc =>
    stream.isCaptured = true ∧ malloc = true
  | .printf _ malloc | .vprintf _ malloc => malloc = true
  | .fwrite _ _ _ stream | .fputs _ stream | .fputc _ stream => stream.isCaptured = true
  | .write fd _ _ => fd = 1 ∨ fd = 2
  | .fflush stream => ∀ s, stream = some s → s.isCaptured = true
  | .puts _ | .perror _ _ | .flushPartial => True

/-- The call is to stdout or stderr. -/
def Call.ToLog : Call → Prop
  | .fprintf stream _ _ | .vfprintf stream _ _ => stream.isCaptured = true
  | .fwrite _ _ _ stream | .fputs _ stream | .fputc _ stream => stream.isCaptured = true
  | .write fd _ _ => fd = 1 ∨ fd = 2
  | .fflush stream => ∀ s, stream = some s → s.isCaptured = true
  | .printf _ _ | .vprintf _ _ | .puts _ | .perror _ _ | .flushPartial => True

/-- There is no memory to format what the call writes. -/
def Call.Cut : Call → Prop
  | .fprintf _ f malloc | .vfprintf _ f malloc | .printf f malloc | .vprintf f malloc =>
    malloc = false ∧ OOPS_LINE_MAX ≤ f.text.length
  | _ => False

/-! ## The statement -/

/-- The input without its newlines and carriage returns. -/
def strip (input : List UInt8) : List UInt8 := input.filter fun c => c ≠ 10 ∧ c ≠ 13

/-- What has come of an input. -/
structure Logged (input : List UInt8) (o : Output) : Prop where
  whole : o.log.flatten ++ o.line = strip input
  /-- Payloads go line by line: so many for each, and none for two. -/
  lines : ∃ (ls : List (List UInt8)) (last : List UInt8) (gs : List (List (List UInt8)))
    (pending : List (List UInt8)), Split 10 input ls last ∧ o.log = gs.flatten ++ pending ∧
      gs.map List.flatten = ls.map strip ∧ pending.flatten ++ o.line = strip last
  payload : ∀ t ∈ o.log, 1 ≤ t.length ∧ t.length ≤ 96

structure Lossless : Prop where
  /-- Only the bytes count, not how they were split, nor the path they took. -/
  bytes : ∀ (calls calls' : List Call) o, (∀ c ∈ calls, c.Captured ∧ ¬ c.Ends) →
    (∀ c ∈ calls', c.Captured ∧ ¬ c.Ends) → calls.flatMap Call.body = calls'.flatMap Call.body →
      runAll oopsFsWrite calls o = runAll oopsFsWrite calls' o
  /-- Flushes included. -/
  logged : ∀ calls : List Call, (∀ c ∈ calls, c.Captured ∧ 0 ∉ c.body) →
    Logged (calls.flatMap Call.text) (runAll oopsFsWrite calls .init)
  /-- A call that ends what is pending has it emitted, with what it writes itself, and does no
      more. -/
  early : ∀ (calls : List Call) (c : Call), (∀ c ∈ calls, c.Captured ∧ 0 ∉ c.body) → c.Captured →
    0 ∉ c.body → c.Ends → ∃ payloads : List (List UInt8),
      payloads.flatten = (lineAppend (runAll oopsFsWrite calls .init) c.body).line ∧
      c.run oopsFsWrite (runAll oopsFsWrite calls .init) =
        { lineAppend (runAll oopsFsWrite calls .init) c.body with
          line := []
          log := (lineAppend (runAll oopsFsWrite calls .init) c.body).log ++ payloads }
  /-- Nor is `s_line` ever too long, in the middle of a call either. -/
  fits : ∀ (calls : List Call) text, (∀ c ∈ calls, c.Captured) →
    (lineAppend (runAll oopsFsWrite calls .init) text).line.length ≤ 512

variable {oopsFsWrite}

/-! ## Flushes -/

theorem upToNul_eq {text : List UInt8} (h : 0 ∉ text) : upToNul text = text :=
  List.takeWhile_eq_self_iff.mpr fun c hc => by
    have hne : c ≠ 0 := fun heq => h (heq ▸ hc)
    simpa using hne

/-- The pieces of a text are the text. -/
theorem klogChunks_flatten (text : List UInt8) (h : 0 ∉ text) :
    (klogChunks text).flatten = text := by
  fun_induction klogChunks text with
  | case1 => rfl
  | case2 text hne ih =>
    have htake : 0 ∉ text.take OOPS_KLOG_CHUNK := fun hm => h (List.mem_of_mem_take hm)
    have hdrop : 0 ∉ text.drop OOPS_KLOG_CHUNK := fun hm => h (List.mem_of_mem_drop hm)
    rw [List.flatten_cons, ih hdrop, upToNul_eq htake, List.take_append_drop]

/-- And none is empty, or too long. -/
theorem klogChunks_length (text : List UInt8) (h : 0 ∉ text) :
    ∀ t ∈ klogChunks text, 1 ≤ t.length ∧ t.length ≤ 96 := by
  fun_induction klogChunks text with
  | case1 => exact nofun
  | case2 text hne ih =>
    have htake : 0 ∉ text.take OOPS_KLOG_CHUNK := fun hm => h (List.mem_of_mem_take hm)
    have hdrop : 0 ∉ text.drop OOPS_KLOG_CHUNK := fun hm => h (List.mem_of_mem_drop hm)
    intro t ht
    rcases List.mem_cons.mp ht with rfl | hrest
    · have hpos := List.length_pos_of_ne_nil hne
      have hchunk : OOPS_KLOG_CHUNK = 96 := rfl
      rw [upToNul_eq htake, List.length_take]
      omega
    · exact ih hdrop t hrest

theorem lineFlush_eq (o : Output) :
    lineFlush o = { o with line := [], log := o.log ++ klogChunks o.line } := by
  unfold lineFlush
  rcases Decidable.em (o.line = []) with hnil | hne
  · have hlog : o.log ++ klogChunks [] = o.log := by
      unfold klogChunks
      rw [if_pos rfl, List.append_nil]
    rw [hnil, hlog, if_neg (by exact Nat.lt_irrefl 0), ← hnil]
  · rw [if_pos (List.length_pos_of_ne_nil hne)]

theorem lineFlush_line (o : Output) : (lineFlush o).line = [] := by rw [lineFlush_eq]

/-! ## Bytes -/

theorem lineAppend_append (o : Output) (text text' : List UInt8) :
    lineAppend o (text ++ text') = lineAppend (lineAppend o text) text' :=
  List.foldl_append

theorem appendByte_fits {o : Output} (h : o.line.length ≤ 512) (c : UInt8) :
    (appendByte o c).line.length ≤ 512 := by
  unfold appendByte
  rcases Decidable.em (c = 10) with hnl | hnl
  · rw [if_pos hnl, lineFlush_line]
    exact Nat.zero_le 512
  · rw [if_neg hnl]
    rcases Decidable.em (c = 13) with hcr | hcr
    · rwa [if_pos hcr]
    · rw [if_neg hcr]
      have hmax : OOPS_LINE_MAX = 512 := rfl
      rcases Decidable.em (o.line.length = OOPS_LINE_MAX) with hfull | hfull
      · dsimp only
        rw [if_pos hfull, lineFlush_line, List.length_append, List.length_nil,
          List.length_singleton]
        omega
      · dsimp only
        rw [if_neg hfull, List.length_append, List.length_singleton]
        omega

theorem lineAppend_fits {o : Output} (h : o.line.length ≤ 512) (text : List UInt8) :
    (lineAppend o text).line.length ≤ 512 := by
  induction text generalizing o with
  | nil => exact h
  | cons c text ih => exact ih (appendByte_fits h c)

theorem lineFlush_fits (o : Output) : (lineFlush o).line.length ≤ 512 := by
  rw [lineFlush_line]
  exact Nat.zero_le 512

/-! ## What has come of an input -/

section Logged

variable {input : List UInt8} {o : Output} {c : UInt8}

theorem Logged.init : Logged [] .init where
  whole := rfl
  lines := ⟨[], [], [], [], .nil, rfl, rfl, rfl⟩
  payload _ h := nomatch h

/-- No byte of the line is new. -/
theorem Logged.line_free (h : Logged input o) (h0 : 0 ∉ input) : 0 ∉ o.line := by
  intro hm
  have hstrip : 0 ∈ strip input := h.whole ▸ List.mem_append_right _ hm
  exact h0 (List.mem_filter.mp hstrip).1

/-- What is pending may be emitted at any time. -/
theorem Logged.flush (h : Logged input o) (h0 : 0 ∉ input) : Logged input (lineFlush o) := by
  have hfree := h.line_free h0
  rw [lineFlush_eq]
  obtain ⟨ls, last, gs, pending, hsplit, hlog, hgs, hpending⟩ := h.lines
  refine ⟨?_, ⟨ls, last, gs, pending ++ klogChunks o.line, hsplit, ?_, hgs, ?_⟩, fun t ht => ?_⟩
  · rw [List.append_nil, List.flatten_append, klogChunks_flatten _ hfree]
    exact h.whole
  · rw [hlog, List.append_assoc]
  · rw [List.append_nil, List.flatten_append, klogChunks_flatten _ hfree]
    exact hpending
  · exact (List.mem_append.mp ht).elim (h.payload t) (klogChunks_length _ hfree t)

theorem strip_append (a b : List UInt8) : strip (a ++ b) = strip a ++ strip b :=
  List.filter_append a b

theorem strip_snoc (hnl : c ≠ 10) (hcr : c ≠ 13) : strip (input ++ [c]) = strip input ++ [c] := by
  rw [strip_append]
  unfold strip
  rw [List.filter_cons_of_pos (by simp [hnl, hcr])]
  rfl

theorem strip_snoc_dropped (hc : c = 10 ∨ c = 13) : strip (input ++ [c]) = strip input := by
  rw [strip_append]
  unfold strip
  rw [List.filter_cons_of_neg (by simpa using fun h => hc.resolve_left h)]
  exact List.append_nil _

/-- A byte that is kept, with room for it. -/
theorem Logged.keep (h : Logged input o) (hnl : c ≠ 10) (hcr : c ≠ 13) :
    Logged (input ++ [c]) { o with line := o.line ++ [c] } := by
  obtain ⟨ls, last, gs, pending, hsplit, hlog, hgs, hpending⟩ := h.lines
  refine ⟨?_, ⟨ls, last ++ [c], gs, pending, hsplit.add hnl, hlog, hgs, ?_⟩, h.payload⟩
  · rw [strip_snoc hnl hcr, ← h.whole, List.append_assoc]
  · rw [strip_snoc hnl hcr, ← hpending, List.append_assoc]

/-- A newline, once what is pending is emitted. -/
theorem Logged.newline (h : Logged input o) (hline : o.line = []) : Logged (input ++ [10]) o := by
  obtain ⟨ls, last, gs, pending, hsplit, hlog, hgs, hpending⟩ := h.lines
  refine ⟨?_, ⟨ls ++ [last], [], gs ++ [pending], [], hsplit.cut, ?_, ?_, ?_⟩, h.payload⟩
  · rw [strip_snoc_dropped (.inl rfl)]
    exact h.whole
  · rw [hlog, List.flatten_append, List.append_nil, List.flatten_singleton]
  · rw [hline, List.append_nil] at hpending
    rw [List.map_append, List.map_append, hgs, List.map_singleton, List.map_singleton, hpending]
  · rw [hline]
    rfl

/-- A carriage return. -/
theorem Logged.dropped (h : Logged input o) : Logged (input ++ [13]) o := by
  obtain ⟨ls, last, gs, pending, hsplit, hlog, hgs, hpending⟩ := h.lines
  have hne : (13 : UInt8) ≠ 10 := by decide
  refine ⟨?_, ⟨ls, last ++ [13], gs, pending, hsplit.add hne, hlog, hgs, ?_⟩, h.payload⟩
  · rw [strip_snoc_dropped (.inr rfl)]
    exact h.whole
  · rw [strip_snoc_dropped (.inr rfl)]
    exact hpending

theorem Logged.byte (h : Logged input o) (h0 : 0 ∉ input) (c : UInt8) :
    Logged (input ++ [c]) (appendByte o c) := by
  unfold appendByte
  rcases Decidable.em (c = 10) with rfl | hnl
  · rw [if_pos rfl]
    exact (h.flush h0).newline (lineFlush_line o)
  · rw [if_neg hnl]
    rcases Decidable.em (c = 13) with rfl | hcr
    · rw [if_pos rfl]
      exact h.dropped
    · rw [if_neg hcr]
      rcases Decidable.em (o.line.length = OOPS_LINE_MAX) with hfull | hfull
      · dsimp only
        rw [if_pos hfull]
        exact (h.flush h0).keep hnl hcr
      · dsimp only
        rw [if_neg hfull]
        exact h.keep hnl hcr

theorem Logged.append {text : List UInt8} (h : Logged input o) (h0 : 0 ∉ input) (ht : 0 ∉ text) :
    Logged (input ++ text) (lineAppend o text) := by
  induction text generalizing input o with
  | nil => rwa [List.append_nil]
  | cons c text ih =>
    have hc : c ≠ 0 := fun heq => ht (heq ▸ List.mem_cons_self)
    have hinput : 0 ∉ input ++ [c] := fun hm => (List.mem_append.mp hm).elim h0 fun hs =>
      hc (List.mem_singleton.mp hs).symm
    have hrest := ih (h.byte h0 c) hinput fun hm => ht (List.mem_cons_of_mem c hm)
    rwa [List.append_assoc] at hrest

end Logged

/-! ## Runs -/

variable (oopsFsWrite)

/-- A formatted result is appended, whichever path it takes. -/
theorem emitFormatted_captured {stream : Stream} {malloc : Bool} (f : Formatted) (o : Output)
    (hs : stream.isCaptured = true) (hm : ¬ (malloc = false ∧ OOPS_LINE_MAX ≤ f.text.length)) :
    (emitFormatted oopsFsWrite stream f malloc o).2 = lineAppend o f.text := by
  unfold emitFormatted
  cases f with
  | none => rfl
  | some text =>
    show _ = lineAppend o text.1
    simp only [vsnprintf, Int.toNat_natCast, hs]
    rcases Decidable.em (text.1 = []) with hnil | hne
    · have hzero : (text.1.length : Int) ≤ 0 := by rw [hnil]; exact Int.le_refl 0
      rw [if_pos hzero, hnil]
      rfl
    · have hpos := List.length_pos_of_ne_nil hne
      rw [if_neg (by omega)]
      rcases Decidable.em (text.1.length < OOPS_LINE_MAX) with hlt | hge
      · have hle : text.1.length ≤ OOPS_LINE_MAX - 1 := Nat.le_sub_one_of_lt hlt
        rw [if_pos hlt]
        show lineAppend o ((text.1.take (OOPS_LINE_MAX - 1)).take text.1.length) = _
        rw [List.take_of_length_le hle, List.take_length]
      · have hmalloc : malloc = true := by
          rw [← Bool.not_eq_false]
          exact fun hfalse => hm ⟨hfalse, Nat.not_lt.mp hge⟩
        rw [if_neg hge, hmalloc]
        show lineAppend o ((text.1.take (text.1.length + 1 - 1)).take text.1.length) = _
        rw [Nat.add_sub_cancel, List.take_length, List.take_length]

/-- Without memory a long result is cut, and the line ended with a note. -/
theorem emitFormatted_cut {stream : Stream} (f : Formatted) (o : Output)
    (hs : stream.isCaptured = true) (hlong : OOPS_LINE_MAX ≤ f.text.length) :
    (emitFormatted oopsFsWrite stream f false o).2 =
      { lineFlush (lineAppend o (f.text.take (OOPS_LINE_MAX - 1))) with
        log := (lineFlush (lineAppend o (f.text.take (OOPS_LINE_MAX - 1)))).log ++
          [truncatedNote] } := by
  unfold emitFormatted
  cases f with
  | none => exact absurd hlong (by decide)
  | some text =>
    change OOPS_LINE_MAX ≤ text.1.length at hlong
    have hpos : 0 < OOPS_LINE_MAX := by decide
    simp only [vsnprintf, Int.toNat_natCast, hs]
    have hnone : (!false) = true := rfl
    rw [if_neg (by omega), if_neg (Nat.not_lt.mpr hlong), if_pos hnone, if_neg (by decide),
      List.take_take, Nat.min_self]
    rfl

/-- The multiplication of `fwrite` does not overflow when the product fits. -/
theorem fwrite_overflow (size nmemb : UInt64) :
    (size ≠ 0 ∧ size * nmemb / size ≠ nmemb) ↔ ¬ size.toNat * nmemb.toNat < 2 ^ 64 := by
  rw [Ne, Ne, ← UInt64.toNat_inj, ← UInt64.toNat_inj, UInt64.toNat_div, UInt64.toNat_mul]
  constructor
  · intro ⟨h0, hne⟩ hlt
    rw [Nat.mod_eq_of_lt hlt] at hne
    exact hne (Nat.mul_div_cancel_left _ (Nat.pos_of_ne_zero h0))
  · intro hge
    refine ⟨fun h0 => hge ?_, fun heq => hge ?_⟩
    · rw [h0, UInt64.toNat_zero, Nat.zero_mul]
      decide
    · have hle := Nat.mul_div_le (size.toNat * nmemb.toNat % 2 ^ 64) size.toNat
      rw [heq] at hle
      exact Nat.lt_of_le_of_lt hle (Nat.mod_lt _ (by decide))

theorem perror_eq (s msg : Option CString) (o : Output) :
    Runtime.perror s msg o = lineFlush (lineAppend o (Call.perror s msg).body) := by
  cases s with
  | none => cases msg <;> rfl
  | some s =>
    unfold Runtime.perror Call.body
    rcases Decidable.em (s.1 = []) with hnil | hne
    · simp only [hnil, ne_eq, not_true, if_false]
      cases msg <;> rfl
    · simp only [hne, ne_eq, not_false_eq_true, if_true, lineAppend_append]
      cases msg <;> rfl

/-- A call to a captured stream appends what it writes, and flushes if that is what it is for. -/
theorem Call.run_toLog {c : Call} (hc : c.ToLog) (hcut : ¬ c.Cut) (o : Output) :
    (¬ c.Ends → c.run oopsFsWrite o = lineAppend o c.body) ∧
      (c.Ends → c.run oopsFsWrite o = lineFlush (lineAppend o c.body)) := by
  cases c with
  | fprintf stream f malloc | vfprintf stream f malloc =>
    exact ⟨fun _ => emitFormatted_captured _ f o hc hcut, False.elim⟩
  | printf f malloc | vprintf f malloc =>
    exact ⟨fun _ => emitFormatted_captured _ f o rfl hcut, False.elim⟩
  | fwrite ptr size nmemb stream =>
    refine ⟨fun _ => ?_, False.elim⟩
    show (Runtime.fwrite _ ptr size nmemb stream o).2 = lineAppend o (ite _ _ _)
    unfold Runtime.fwrite
    rw [show stream.isCaptured = true from hc]
    rcases Decidable.em (size.toNat * nmemb.toNat < 2 ^ 64) with hlt | hge
    · rw [if_neg fun h => (fwrite_overflow size nmemb).mp h hlt, if_pos hlt, UInt64.toNat_mul,
        Nat.mod_eq_of_lt hlt]
      rfl
    · rw [if_pos ((fwrite_overflow size nmemb).mpr hge), if_neg hge]
      rfl
  | fputs s stream =>
    refine ⟨fun _ => ?_, False.elim⟩
    show (Runtime.fputs _ s stream o).2 = _
    unfold Runtime.fputs
    rw [show stream.isCaptured = true from hc]
    rfl
  | fputc n stream =>
    refine ⟨fun _ => ?_, False.elim⟩
    show (Runtime.fputc _ n stream o).2 = _
    unfold Runtime.fputc
    rw [show stream.isCaptured = true from hc]
    rfl
  | write fd buf nbyte =>
    refine ⟨fun _ => ?_, False.elim⟩
    cases buf with
    | none => rfl
    | some ptr =>
      show (ite _ _ (ite _ _ _) : Int × Output).2 = lineAppend o (bytesAt ptr nbyte.toNat)
      rcases Decidable.em (nbyte = 0) with rfl | hne
      · rfl
      · rw [if_neg hne, if_neg fun h => hc.elim h.1 h.2]
  | puts s => exact ⟨fun h => absurd trivial h, fun _ => rfl⟩
  | perror s msg => exact ⟨fun h => absurd trivial h, fun _ => perror_eq s msg o⟩
  | fflush stream =>
    refine ⟨fun h => absurd trivial h, fun _ => ?_⟩
    cases stream with
    | none => rfl
    | some stream =>
      show (if stream.isCaptured then lineFlush o else o) = _
      rw [if_pos (hc stream rfl)]
      rfl
  | flushPartial => exact ⟨fun h => absurd trivial h, fun _ => rfl⟩

/-- A call that is cut. -/
theorem Call.run_cut {c : Call} (hc : c.ToLog) (hcut : c.Cut) (o : Output) :
    c.text = c.body ∧ c.run oopsFsWrite o =
      { lineFlush (lineAppend o (c.body.take (OOPS_LINE_MAX - 1))) with
        log := (lineFlush (lineAppend o (c.body.take (OOPS_LINE_MAX - 1)))).log ++
          [truncatedNote] } := by
  cases c with
  | fprintf stream f malloc | vfprintf stream f malloc =>
    obtain ⟨rfl, hlong⟩ := hcut
    exact ⟨rfl, emitFormatted_cut _ f o hc hlong⟩
  | printf f malloc | vprintf f malloc =>
    obtain ⟨rfl, hlong⟩ := hcut
    exact ⟨rfl, emitFormatted_cut _ f o rfl hlong⟩
  | _ => exact hcut.elim

theorem Call.Captured.toLog {c : Call} (hc : c.Captured) : c.ToLog ∧ ¬ c.Cut := by
  cases c with
  | fprintf stream f malloc | vfprintf stream f malloc =>
    obtain ⟨hs, rfl⟩ := hc
    exact ⟨hs, fun hcut => nomatch hcut.1⟩
  | printf f malloc | vprintf f malloc =>
    cases hc
    exact ⟨trivial, fun hcut => nomatch hcut.1⟩
  | _ => exact ⟨hc, id⟩

theorem Call.run_captured {c : Call} (hc : c.Captured) (o : Output) :
    (¬ c.Ends → c.run oopsFsWrite o = lineAppend o c.body) ∧
      (c.Ends → c.run oopsFsWrite o = lineFlush (lineAppend o c.body)) :=
  c.run_toLog oopsFsWrite hc.toLog.1 hc.toLog.2 o

/-- A newline that a call writes is the flush it ends with. -/
theorem Call.text_cases (c : Call) :
    c.text = c.body ∨ c.Ends ∧ c.text = c.body ++ [10] := by
  cases c with
  | puts | perror => exact .inr ⟨trivial, rfl⟩
  | _ => exact .inl rfl

theorem runAll_body {calls : List Call} (h : ∀ c ∈ calls, c.Captured ∧ ¬ c.Ends) (o : Output) :
    runAll oopsFsWrite calls o = lineAppend o (calls.flatMap Call.body) := by
  induction calls generalizing o with
  | nil => rfl
  | cons c calls ih =>
    obtain ⟨hc, hends⟩ := h c List.mem_cons_self
    rw [List.flatMap_cons, lineAppend_append, ← (c.run_captured oopsFsWrite hc o).1 hends]
    exact ih (fun c hc => h c (List.mem_cons_of_mem _ hc)) _

theorem Logged.run {c : Call} {input : List UInt8} {o : Output} (h : Logged input o)
    (h0 : 0 ∉ input) (hc : c.Captured) (hb : 0 ∉ c.body) :
    Logged (input ++ c.text) (c.run oopsFsWrite o) ∧ 0 ∉ input ++ c.text := by
  have hbody := h.append h0 hb
  have hfree : 0 ∉ input ++ c.body := fun hm => (List.mem_append.mp hm).elim h0 hb
  obtain htext | ⟨hends, htext⟩ := c.text_cases
  · rw [htext]
    refine ⟨?_, hfree⟩
    rcases Classical.em c.Ends with hends | hends
    · rw [(c.run_captured oopsFsWrite hc o).2 hends]
      exact hbody.flush hfree
    · rw [(c.run_captured oopsFsWrite hc o).1 hends]
      exact hbody
  · rw [htext, (c.run_captured oopsFsWrite hc o).2 hends, ← List.append_assoc]
    refine ⟨(hbody.flush hfree).newline (lineFlush_line _), fun hm => ?_⟩
    exact (List.mem_append.mp hm).elim hfree (by decide)

theorem Logged.runAll {calls : List Call} {input : List UInt8} {o : Output} (h : Logged input o)
    (h0 : 0 ∉ input) (hcalls : ∀ c ∈ calls, c.Captured ∧ 0 ∉ c.body) :
    Logged (input ++ calls.flatMap Call.text) (runAll oopsFsWrite calls o) ∧
      0 ∉ input ++ calls.flatMap Call.text := by
  induction calls generalizing input o with
  | nil =>
    rw [List.flatMap_nil, List.append_nil]
    exact ⟨h, h0⟩
  | cons c calls ih =>
    obtain ⟨hc, hb⟩ := hcalls c List.mem_cons_self
    obtain ⟨hrun, hfree⟩ := h.run oopsFsWrite h0 hc hb
    rw [List.flatMap_cons, ← List.append_assoc]
    exact ih hrun hfree fun c hc => hcalls c (List.mem_cons_of_mem _ hc)

theorem runAll_fits {calls : List Call} {o : Output} (h : o.line.length ≤ 512)
    (hcalls : ∀ c ∈ calls, c.Captured) : (runAll oopsFsWrite calls o).line.length ≤ 512 := by
  induction calls generalizing o with
  | nil => exact h
  | cons c calls ih =>
    refine ih (?_ : (c.run oopsFsWrite o).line.length ≤ 512)
      fun c hc => hcalls c (List.mem_cons_of_mem _ hc)
    have hrun := c.run_captured oopsFsWrite (hcalls c List.mem_cons_self) o
    rcases Classical.em c.Ends with hends | hends
    · rw [hrun.2 hends]
      exact lineFlush_fits _
    · rw [hrun.1 hends]
      exact lineAppend_fits h _

/-- **Captured output is lossless, and does not depend on how it was written.** -/
theorem output_lossless : Lossless oopsFsWrite where
  bytes calls calls' o h h' heq := by rw [runAll_body oopsFsWrite h, runAll_body oopsFsWrite h', heq]
  logged calls h := (Logged.init.runAll oopsFsWrite List.not_mem_nil h).1
  early calls c h hc hb hends := by
    obtain ⟨hrun, hfree⟩ := Logged.init.runAll oopsFsWrite List.not_mem_nil h
    have hline : 0 ∉ (lineAppend (runAll oopsFsWrite calls .init) c.body).line :=
      (hrun.append hfree hb).line_free fun hm => (List.mem_append.mp hm).elim hfree hb
    refine ⟨klogChunks _, klogChunks_flatten _ hline, ?_⟩
    rw [(c.run_captured oopsFsWrite hc _).2 hends, lineFlush_eq]
  fits calls text h :=
    lineAppend_fits (runAll_fits oopsFsWrite (o := .init) (Nat.zero_le 512) h) text

end OopsMesa.Runtime
