/-
  What a write to a file reports, and what has reached the file.

  The writers of Stdio again, each call of `oops_fs_write` a call of a `Prog`, so that a run has a
  trace: what was asked of which descriptor, and what the answer was. The bytes that reach a file
  are of each call as many as were answered (`delivered`).

  Every writer delivers a prefix of its text and reports full success exactly if that is all of it
  (`file_write_iff`), but for an empty text on a stream without a descriptor and for a `write` of
  2^63 bytes. None counts what it delivered before a failure: `fwrite` says 0 and `write` says -1,
  so that their counts are right, and the rest may be tried again, exactly if no call but the first
  one fails.
-/
import OopsMesa.Lib.Interact
import OopsMesa.Runtime.Captured

namespace OopsMesa.Runtime

open OopsMesa.Lib

/-- A call of `oops_fs_write`. -/
structure FsWrite where
  fd : Int
  bytes : List UInt8
  deriving DecidableEq

/-- A program that calls `oops_fs_write`, which answers how much it wrote, or with an error. -/
abbrev FsProg := Prog FsWrite fun _ => Int

abbrev FsEvent := Prog.Event FsWrite fun _ => Int

/-! ## The code -/

namespace Fs

/-- `fd_write_all`, from where it has come to. -/
def fdWriteAll (fd : Int) (text : List UInt8) (o : Output) : FsProg (Int × Output) :=
  if text = [] then .ret (0, o)
  else
    .call ⟨fd, text⟩ fun n =>
      if n ≤ 0 then .ret (-1, { o with errno := some StreamErrno.EIO })
      else fdWriteAll fd (text.drop n.toNat) o
  termination_by text.length
  decreasing_by
    have hpos := List.length_pos_of_ne_nil ‹_›
    rw [List.length_drop]
    omega

/-- `stream_write` -/
def streamWrite (stream : Stream) (text : List UInt8) (o : Output) : FsProg (Int × Output) :=
  if stream.fileno < 0 then .ret (-1, { o with errno := some StreamErrno.EBADF })
  else fdWriteAll stream.fileno text o

/-- `emit_formatted`, which is all of `fprintf` and `vfprintf`. -/
def emitFormatted (stream : Stream) (f : Formatted) (malloc : Bool) (o : Output) :
    FsProg (Int × Output) :=
  let (n, buf) := vsnprintf OOPS_LINE_MAX f
  if n ≤ 0 then .ret (n, o)
  else if n.toNat < OOPS_LINE_MAX then
    if !stream.isCaptured then do
      let r ← streamWrite stream (buf.take n.toNat) o
      return (if r.1 = 0 then n else -1, r.2)
    else .ret (n, lineAppend o (buf.take n.toNat))
  else if !malloc then
    if !stream.isCaptured then .ret (-1, { o with errno := some StreamErrno.ENOMEM })
    else
      let o := lineFlush (lineAppend o (buf.take (OOPS_LINE_MAX - 1)))
      .ret (n, { o with log := o.log ++ [truncatedNote] })
  else
    let (_, big) := vsnprintf (n.toNat + 1) f
    if !stream.isCaptured then do
      let r ← streamWrite stream (big.take n.toNat) o
      return (if r.1 = 0 then n else -1, r.2)
    else .ret (n, lineAppend o (big.take n.toNat))

def fwrite (ptr : Nat → UInt8) (size nmemb : UInt64) (stream : Stream) (o : Output) :
    FsProg (UInt64 × Output) :=
  let bytes := size * nmemb
  if size ≠ 0 ∧ bytes / size ≠ nmemb then .ret (0, o)
  else if !stream.isCaptured then do
    let r ← streamWrite stream (bytesAt ptr bytes.toNat) o
    return (if r.1 = 0 then nmemb else 0, r.2)
  else .ret (nmemb, lineAppend o (bytesAt ptr bytes.toNat))

def fputs (s : CString) (stream : Stream) (o : Output) : FsProg (Int × Output) :=
  if !stream.isCaptured then do
    let r ← streamWrite stream s.1 o
    return (if r.1 = 0 then 0 else -1, r.2)
  else .ret (0, lineAppend o s.1)

def fputc (c : Int) (stream : Stream) (o : Output) : FsProg (Int × Output) :=
  if !stream.isCaptured then do
    let r ← streamWrite stream [charOf c] o
    return (if r.1 = 0 then (charOf c).toNat else -1, r.2)
  else .ret (c, lineAppend o [charOf c])

/-- `write`. A null `buf` is `none`. -/
def write (fd : Int) (buf : Option (Nat → UInt8)) (nbyte : UInt64) (o : Output) :
    FsProg (Int × Output) :=
  match buf with
  | none => .ret (0, o)
  | some buf =>
    if nbyte = 0 then .ret (0, o)
    else if fd ≠ 1 ∧ fd ≠ 2 then do
      let r ← fdWriteAll fd (bytesAt buf nbyte.toNat) o
      return (if r.1 = 0 then nbyte.toInt64.toInt else -1, r.2)
    else .ret (nbyte.toInt64.toInt, lineAppend o (bytesAt buf nbyte.toNat))

end Fs

/-- A write that is not captured: to a stream, by its descriptor, or to a descriptor. -/
inductive FileCall where
  | fwrite (ptr : Nat → UInt8) (size nmemb : UInt64) (fileno : Int)
  | fputs (s : CString) (fileno : Int)
  | fputc (c : Int) (fileno : Int)
  | formatted (text : { text : List UInt8 // text.length ≤ 2147483647 }) (malloc : Bool)
      (fileno : Int)
  | write (fd : { fd : Int // fd ≠ 1 ∧ fd ≠ 2 }) (buf : Option (Nat → UInt8)) (nbyte : UInt64)

namespace FileCall

def run : FileCall → Output → FsProg (Int × Output)
  | fwrite ptr size nmemb fileno, o => do
    let r ← Fs.fwrite ptr size nmemb (.file fileno) o
    return (r.1.toNat, r.2)
  | fputs s fileno, o => Fs.fputs s (.file fileno) o
  | fputc c fileno, o => Fs.fputc c (.file fileno) o
  | formatted text malloc fileno, o => Fs.emitFormatted (.file fileno) (some text) malloc o
  | write fd buf nbyte, o => Fs.write fd.1 buf nbyte o

def fd : FileCall → Int
  | fwrite _ _ _ fileno => fileno
  | fputs _ fileno => fileno
  | fputc _ fileno => fileno
  | formatted _ _ fileno => fileno
  | write fd _ _ => fd.1

/-- What is to be written. -/
def text : FileCall → List UInt8
  | fwrite ptr size nmemb _ => bytesAt ptr (size.toNat * nmemb.toNat)
  | fputs s _ => s.1
  | fputc c _ => [charOf c]
  | formatted text _ _ => text.1
  | write _ buf nbyte => (buf.map fun buf => bytesAt buf nbyte.toNat).getD []

/-- What a full success returns. -/
def full : FileCall → Int
  | fwrite _ _ nmemb _ => nmemb.toNat
  | fputs _ _ => 0
  | fputc c _ => (charOf c).toNat
  | formatted text _ _ => text.1.length
  | write fd buf nbyte => (write fd buf nbyte).text.length

/-- The bytes of what is counted, if what is returned is a count. -/
def unit : FileCall → Option Nat
  | fwrite _ size _ _ => some size.toNat
  | write _ _ _ => some 1
  | _ => none

end FileCall

/-! ## The statement -/

/-- The bytes that reached a file: of every call, as many as was answered. -/
def delivered (tr : List FsEvent) : List UInt8 := tr.flatMap fun ev => ev.1.bytes.take ev.2.toNat

/-- What a call that returns `ret` reports is what reached the file. -/
structure ReportsDelivered (c : FileCall) (tr : List FsEvent) (ret : Int) : Prop where
  fd : ∀ ev ∈ tr, ev.1.fd = c.fd
  inOrder : delivered tr <+: c.text
  success : ret = c.full ↔ delivered tr = c.text
  /-- After a failure partway, the complete elements, or the bytes, are counted. -/
  partway : delivered tr ≠ [] → delivered tr ≠ c.text → ∀ unit, c.unit = some unit →
    ret = ((delivered tr).length / unit : Nat)
  /-- What is left by the count repeats nothing. -/
  remainder : ∀ unit, c.unit = some unit →
    delivered tr ++ c.text.drop (ret.toNat * unit) = c.text

/-- No call of `oops_fs_write` fails, but the first one may. -/
def OnlyFirstFails (tr : List FsEvent) : Prop := ∀ ev ∈ tr.tail, 0 < ev.2

instance (tr : List FsEvent) : Decidable (OnlyFirstFails tr) :=
  inferInstanceAs (Decidable (∀ ev ∈ tr.tail, 0 < ev.2))

/-- When the reports are right. -/
def FileCall.Meets (tr : List FsEvent) : FileCall → Prop
  | fwrite _ size nmemb fileno => (size = 0 → nmemb ≠ 0 → 0 ≤ fileno) ∧ OnlyFirstFails tr
  | fputs s fileno => s.1 = [] → 0 ≤ fileno
  | write fd buf nbyte => OnlyFirstFails tr ∧
    ((∀ ev ∈ tr, 0 < ev.2) → (write fd buf nbyte).text.length < 2 ^ 63)
  | _ => True

/-! ## `fd_write_all` and `stream_write` -/

variable {fd rc ret bad : Int} {text : List UInt8} {o o' : Output} {tr : List FsEvent}
  {c : FileCall}

theorem delivered_cons (ev : FsEvent) (tr : List FsEvent) :
    delivered (ev :: tr) = ev.1.bytes.take ev.2.toNat ++ delivered tr := List.flatMap_cons

/-- What `fd_write_all` has done when it returns `rc`. -/
structure WroteAll (fd : Int) (text : List UInt8) (tr : List FsEvent) (rc : Int) : Prop where
  dest : ∀ ev ∈ tr, ev.1.fd = fd
  inOrder : delivered tr <+: text
  all : rc = 0 → delivered tr = text ∧ ∀ ev ∈ tr, 0 < ev.2
  part : rc ≠ 0 → delivered tr ≠ text ∧ (∃ ev ∈ tr, ev.2 ≤ 0) ∧
    (OnlyFirstFails tr ↔ delivered tr = [])

theorem WroteAll.nil : WroteAll fd [] [] 0 where
  dest := nofun
  inOrder := List.prefix_rfl
  all _ := ⟨rfl, nofun⟩
  part h := absurd rfl h

/-- A call that fails is the last one, and delivers nothing. -/
theorem WroteAll.fail {x : Int} (hne : text ≠ []) (hx : x ≤ 0) :
    WroteAll fd text [⟨⟨fd, text⟩, x⟩] (-1) := by
  have hnil : delivered [⟨⟨fd, text⟩, x⟩] = [] := by
    rw [delivered_cons, Int.toNat_of_nonpos hx]
    rfl
  exact {
    dest := List.forall_mem_singleton.mpr rfl
    inOrder := hnil ▸ List.nil_prefix
    all := nofun
    part := fun _ => ⟨fun heq => hne (heq.symm.trans hnil), ⟨_, List.mem_singleton_self _, hx⟩,
      fun _ => hnil, fun _ => nofun⟩ }

/-- A call that writes something, before the rest is written. -/
theorem WroteAll.cons {x : Int} (hne : text ≠ []) (hx : 0 < x)
    (h : WroteAll fd (text.drop x.toNat) tr rc) :
    WroteAll fd text (⟨⟨fd, text⟩, x⟩ :: tr) rc := by
  have hsplit := List.take_append_drop x.toNat text
  refine ⟨List.forall_mem_cons.mpr ⟨rfl, h.dest⟩, ?_, fun hrc => ?_, fun hrc => ?_⟩
  all_goals rw [delivered_cons]
  · obtain ⟨rest, hrest⟩ := h.inOrder
    exact ⟨rest, by rw [List.append_assoc, hrest, hsplit]⟩
  · obtain ⟨hall, hanswers⟩ := h.all hrc
    exact ⟨by rw [hall, hsplit], List.forall_mem_cons.mpr ⟨hx, hanswers⟩⟩
  · obtain ⟨hpart, ⟨ev, hev, hle⟩, -⟩ := h.part hrc
    refine ⟨fun heq => hpart ?_, ⟨ev, List.mem_cons_of_mem _ hev, hle⟩, fun hfirst => ?_,
      fun hnil => ?_⟩
    · exact List.append_cancel_left (heq.trans hsplit.symm)
    · exact absurd (hfirst ev hev) (Int.not_lt.mpr hle)
    · have htake := (List.append_eq_nil_iff.mp hnil).1
      rcases List.take_eq_nil_iff.mp htake with (hzero : x.toNat = 0) | hnil
      · omega
      · exact absurd hnil hne

theorem fdWriteAll_trace (h : Prog.Trace (Fs.fdWriteAll fd text o) tr (rc, o')) :
    WroteAll fd text tr rc := by
  induction hn : text.length using Nat.strongRecOn generalizing text tr with
  | ind n ih =>
    rw [Fs.fdWriteAll] at h
    rcases Decidable.em (text = []) with rfl | hne
    · rw [if_pos rfl] at h
      obtain ⟨rfl, heq⟩ := Prog.trace_ret.mp h
      cases heq
      exact .nil
    · rw [if_neg hne] at h
      obtain ⟨x, tr', rfl, hrest⟩ := Prog.trace_call.mp h
      rcases Decidable.em (x ≤ 0) with hx | hx
      · rw [if_pos hx] at hrest
        obtain ⟨rfl, heq⟩ := Prog.trace_ret.mp hrest
        cases heq
        exact .fail hne hx
      · rw [if_neg hx] at hrest
        have hlt : (text.drop x.toNat).length < n := by
          have hpos := List.length_pos_of_ne_nil hne
          rw [List.length_drop]
          omega
        exact .cons hne (Int.not_le.mp hx) (ih _ hlt hrest rfl)

/-- The same for a stream, which may have no descriptor. -/
structure WroteFile (fd : Int) (text : List UInt8) (tr : List FsEvent) (rc : Int) : Prop where
  dest : ∀ ev ∈ tr, ev.1.fd = fd
  inOrder : delivered tr <+: text
  all : rc = 0 → delivered tr = text ∧ OnlyFirstFails tr
  part : rc ≠ 0 → (delivered tr = text → text = [] ∧ fd < 0) ∧
    (OnlyFirstFails tr ↔ delivered tr = [])

theorem WroteAll.wrote (h : WroteAll fd text tr rc) : WroteFile fd text tr rc where
  dest := h.dest
  inOrder := h.inOrder
  all hrc := ⟨(h.all hrc).1, fun ev hev => (h.all hrc).2 ev (List.mem_of_mem_tail hev)⟩
  part hrc := ⟨fun heq => absurd heq (h.part hrc).1, (h.part hrc).2.2⟩

theorem streamWrite_trace (h : Prog.Trace (Fs.streamWrite (.file fd) text o) tr (rc, o')) :
    WroteFile fd text tr rc ∧ (fd < 0 → rc ≠ 0) := by
  unfold Fs.streamWrite at h
  change Prog.Trace (if fd < 0 then _ else Fs.fdWriteAll fd text o) tr (rc, o') at h
  rcases Decidable.em (fd < 0) with hfd | hfd
  · rw [if_pos hfd] at h
    obtain ⟨rfl, heq⟩ := Prog.trace_ret.mp h
    cases heq
    refine ⟨⟨nofun, List.nil_prefix, nofun, fun _ => ⟨fun hnil => ⟨hnil.symm, hfd⟩, ?_⟩⟩, nofun⟩
    exact ⟨fun _ => rfl, fun _ => nofun⟩
  · rw [if_neg hfd] at h
    exact ⟨(fdWriteAll_trace h).wrote, fun hneg => absurd hneg hfd⟩

/-! ## The writers -/

/-- An error is no success. -/
theorem FileCall.error_ne_full (c : FileCall) : -1 ≠ c.full := by
  have hfull : 0 ≤ c.full := by
    cases c with
    | fputs s fileno => exact Int.le_refl 0
    | fwrite ptr size nmemb fileno => exact Int.natCast_nonneg _
    | fputc ch fileno => exact Int.natCast_nonneg _
    | formatted text malloc fileno => exact Int.natCast_nonneg _
    | write d buf nbyte => exact Int.natCast_nonneg _
  omega

/-- A call that returns `c.full` if all was written and else `bad`, which counts nothing. -/
theorem WroteFile.reports_iff (h : WroteFile c.fd c.text tr rc)
    (hret : ret = if rc = 0 then c.full else bad) (hbad : bad = c.full → c.text = [])
    (hunit : ∀ unit, c.unit = some unit → bad.toNat = 0 ∧ c.text.length ≤ c.full.toNat * unit) :
    ReportsDelivered c tr ret ↔
      (rc ≠ 0 → c.text = [] → c.fd < 0 → bad = c.full) ∧ (c.unit ≠ none → OnlyFirstFails tr) := by
  rcases Decidable.em (rc = 0) with hrc | hrc
  · rw [if_pos hrc] at hret
    obtain ⟨hall, hfirst⟩ := h.all hrc
    refine ⟨fun _ => ⟨fun hne => absurd hrc hne, fun _ => hfirst⟩, fun _ => ?_⟩
    refine ⟨h.dest, h.inOrder, ⟨fun _ => hall, fun _ => hret⟩, fun _ hne => absurd hall hne, ?_⟩
    intro unit hc
    rw [hall, hret, List.drop_eq_nil_of_le (hunit unit hc).2, List.append_nil]
  · rw [if_neg hrc] at hret
    obtain ⟨hwhole, hfirst⟩ := h.part hrc
    constructor
    · intro hreports
      refine ⟨fun _ htext hfd => ?_, fun hcounts => hfirst.mpr ?_⟩
      · have hnil : delivered tr = [] := List.prefix_nil.mp (htext ▸ h.inOrder)
        exact hret.symm.trans (hreports.success.mpr (hnil.trans htext.symm))
      · obtain ⟨unit, hc⟩ := Option.ne_none_iff_exists'.mp hcounts
        have hrest := hreports.remainder unit hc
        rw [hret, (hunit unit hc).1, Nat.zero_mul, List.drop_zero] at hrest
        exact List.append_left_eq_self.mp hrest
    · intro ⟨hempty, hcounts⟩
      have hnone : ∀ unit, c.unit = some unit → delivered tr = [] := fun unit hc =>
        hfirst.mp (hcounts (by rw [hc]; exact Option.some_ne_none unit))
      refine ⟨h.dest, h.inOrder, ⟨fun heq => ?_, fun heq => ?_⟩, ?_, fun unit hc => ?_⟩
      · have htext := hbad (hret.symm.trans heq)
        exact (List.prefix_nil.mp (htext ▸ h.inOrder)).trans htext.symm
      · obtain ⟨htext, hfd⟩ := hwhole heq
        exact hret.trans (hempty hrc htext hfd)
      · exact fun hne _ unit hc => absurd (hnone unit hc) hne
      · rw [hnone unit hc, hret, (hunit unit hc).1, Nat.zero_mul]
        rfl

/-- A call that calls nothing. -/
theorem reports_nothing (hret : ret ≤ 0) (hsuccess : ret = c.full ↔ c.text = []) :
    ReportsDelivered c [] ret where
  fd := nofun
  inOrder := List.nil_prefix
  success := hsuccess.trans ⟨fun h => h.symm, fun h => h.symm⟩
  partway hne := absurd rfl hne
  remainder unit _ := by
    rw [Int.toNat_of_nonpos hret, Nat.zero_mul]
    rfl

/-- What a writer of a stream makes of the result of `stream_write`. -/
theorem stream_reports {good : Int}
    (h : Prog.Trace (Fs.streamWrite (.file c.fd) c.text o >>= fun r =>
      .ret (if r.1 = 0 then good else bad, r.2)) tr (ret, o'))
    (hgood : good = c.full) (hbad : bad = c.full → c.text = [])
    (hunit : ∀ unit, c.unit = some unit → bad.toNat = 0 ∧ c.text.length ≤ c.full.toNat * unit) :
    ReportsDelivered c tr ret ↔
      (c.text = [] → c.fd < 0 → bad = c.full) ∧ (c.unit ≠ none → OnlyFirstFails tr) := by
  obtain ⟨⟨rc, o₁⟩, hwrite, heq⟩ := Prog.trace_map.mp h
  obtain ⟨hret, -⟩ := Prod.mk.inj heq
  obtain ⟨hwrote, hnone⟩ := streamWrite_trace hwrite
  rw [hwrote.reports_iff (hgood ▸ hret) hbad hunit]
  constructor
  · intro ⟨hempty, hcounts⟩
    exact ⟨fun htext hfd => hempty (hnone hfd) htext hfd, hcounts⟩
  · intro ⟨hempty, hcounts⟩
    exact ⟨fun _ => hempty, hcounts⟩

theorem fputs_reports {s : CString} {fileno : Int}
    (h : Prog.Trace ((FileCall.fputs s fileno).run o) tr (ret, o')) :
    ReportsDelivered (.fputs s fileno) tr ret ↔ (FileCall.fputs s fileno).Meets tr := by
  rw [stream_reports (c := .fputs s fileno) h rfl nofun nofun]
  constructor
  · intro ⟨hempty, _⟩ hs
    exact Int.not_lt.mp fun hneg => nomatch hempty hs hneg
  · intro hmeets
    exact ⟨fun hs hneg => absurd hneg (Int.not_lt.mpr (hmeets hs)), fun hne => absurd rfl hne⟩

theorem fputc_reports {ch fileno : Int}
    (h : Prog.Trace ((FileCall.fputc ch fileno).run o) tr (ret, o')) :
    ReportsDelivered (.fputc ch fileno) tr ret ↔ (FileCall.fputc ch fileno).Meets tr := by
  have hbad := FileCall.error_ne_full (.fputc ch fileno)
  rw [stream_reports (c := .fputc ch fileno) h rfl (fun heq => absurd heq hbad) nofun]
  exact ⟨fun _ => trivial, fun _ => ⟨nofun, fun hne => absurd rfl hne⟩⟩

/-- A format that comes to nothing writes nothing; without memory for a long one, -1 says so. -/
theorem formatted_reports {s : { text : List UInt8 // text.length ≤ 2147483647 }} {malloc : Bool}
    {fileno : Int} (h : Prog.Trace ((FileCall.formatted s malloc fileno).run o) tr (ret, o')) :
    ReportsDelivered (.formatted s malloc fileno) tr ret := by
  have hbad : -1 = (FileCall.formatted s malloc fileno).full →
      (FileCall.formatted s malloc fileno).text = [] := fun heq =>
    absurd heq (FileCall.error_ne_full (.formatted s malloc fileno))
  have hwrites : ∀ {text : List UInt8}, text = s.1 → s.1 ≠ [] →
      Prog.Trace (Fs.streamWrite (.file fileno) text o >>= fun r =>
        .ret (if r.1 = 0 then (s.1.length : Int) else -1, r.2)) tr (ret, o') →
      ReportsDelivered (.formatted s malloc fileno) tr ret := by
    rintro _ rfl hne hw
    refine (stream_reports (c := .formatted s malloc fileno) hw rfl hbad nofun).mpr ?_
    exact ⟨fun htext => absurd htext hne, fun hunit => absurd rfl hunit⟩
  have hfile : (!(Stream.file fileno).isCaptured) = true := rfl
  change Prog.Trace (Fs.emitFormatted (.file fileno) (some s) malloc o) tr (ret, o') at h
  unfold Fs.emitFormatted vsnprintf at h
  dsimp only at h
  rcases Decidable.em (s.1 = []) with hnil | hne
  · have hlen : s.1.length = 0 := List.length_eq_zero_iff.mpr hnil
    rw [if_pos (by omega)] at h
    obtain ⟨rfl, heq⟩ := Prog.trace_ret.mp h
    obtain ⟨rfl, -⟩ := Prod.mk.inj heq
    exact reports_nothing (by omega) ⟨fun _ => hnil, fun _ => rfl⟩
  · have hlen := List.length_pos_of_ne_nil hne
    rw [if_neg (by omega), Int.toNat_natCast] at h
    rcases Decidable.em (s.1.length < OOPS_LINE_MAX) with hfits | hlong
    · rw [if_pos hfits, if_pos hfile] at h
      refine hwrites ?_ hne h
      rw [List.take_take, List.take_of_length_le (by omega)]
    · rw [if_neg hlong] at h
      cases malloc with
      | false =>
        have hnone : (!false) = true := rfl
        rw [if_pos hnone, if_pos hfile] at h
        obtain ⟨rfl, heq⟩ := Prog.trace_ret.mp h
        obtain ⟨rfl, -⟩ := Prod.mk.inj heq
        exact reports_nothing (by decide) ⟨hbad, fun hnil => absurd hnil hne⟩
      | true =>
        rw [if_neg (by decide), if_pos hfile] at h
        refine hwrites ?_ hne h
        rw [List.take_take, List.take_of_length_le (by omega)]

theorem bytesAt_length (ptr : Nat → UInt8) (n : Nat) : (bytesAt ptr n).length = n := by
  unfold bytesAt
  rw [List.length_map, List.length_range]

theorem fwrite_reports {ptr : Nat → UInt8} {size nmemb : UInt64} {fileno : Int}
    (h : Prog.Trace ((FileCall.fwrite ptr size nmemb fileno).run o) tr (ret, o')) :
    ReportsDelivered (.fwrite ptr size nmemb fileno) tr ret ↔
      (FileCall.fwrite ptr size nmemb fileno).Meets tr := by
  have hlen : (FileCall.fwrite ptr size nmemb fileno).text.length = size.toNat * nmemb.toNat :=
    bytesAt_length ptr _
  have hempty : (FileCall.fwrite ptr size nmemb fileno).text = [] ↔
      size.toNat = 0 ∨ nmemb.toNat = 0 := by
    rw [← List.length_eq_zero_iff, hlen, Nat.mul_eq_zero]
  obtain ⟨⟨rc, o₁⟩, hwrite, heq⟩ := Prog.trace_map.mp h
  obtain ⟨rfl, rfl⟩ := Prod.mk.inj heq
  unfold Fs.fwrite at hwrite
  dsimp only at hwrite
  rcases Decidable.em (size.toNat * nmemb.toNat < 2 ^ 64) with hfits | hwraps
  · have hfile : (!(Stream.file fileno).isCaptured) = true := rfl
    rw [if_neg fun hover => (fwrite_overflow size nmemb).mp hover hfits, if_pos hfile,
      UInt64.toNat_mul, Nat.mod_eq_of_lt hfits] at hwrite
    obtain ⟨r, hstream, heq⟩ := Prog.trace_map.mp hwrite
    obtain ⟨rfl, rfl⟩ := Prod.mk.inj heq
    have hcount : Prog.Trace
        (Fs.streamWrite (.file fileno) (bytesAt ptr (size.toNat * nmemb.toNat)) o >>= fun r =>
          .ret (if r.1 = 0 then (nmemb.toNat : Int) else 0, r.2)) tr
        (((if r.1 = 0 then nmemb else 0 : UInt64).toNat : Int), r.2) := by
      refine Prog.trace_map.mpr ⟨r, hstream, ?_⟩
      split <;> rfl
    have hfull : (0 : Int) = (FileCall.fwrite ptr size nmemb fileno).full ↔ nmemb.toNat = 0 := by
      show 0 = (nmemb.toNat : Int) ↔ _
      omega
    have hbad : (0 : Int) = (FileCall.fwrite ptr size nmemb fileno).full →
        (FileCall.fwrite ptr size nmemb fileno).text = [] :=
      fun heq => hempty.mpr (.inr (hfull.mp heq))
    rw [stream_reports (c := .fwrite ptr size nmemb fileno) hcount rfl hbad]
    · constructor
      · intro ⟨hnothing, hfirst⟩
        refine ⟨fun hsize hn => Int.not_lt.mp fun hneg => hn ?_, hfirst (Option.some_ne_none _)⟩
        have htext := hempty.mpr (.inl (congrArg UInt64.toNat hsize))
        exact UInt64.toNat_inj.mp (hfull.mp (hnothing htext hneg))
      · intro ⟨hsize, hfirst⟩
        refine ⟨fun htext hneg => hfull.mpr ?_, fun _ => hfirst⟩
        rcases hempty.mp htext with hs | hn
        · rcases Decidable.em (nmemb = 0) with rfl | hn
          · rfl
          · exact absurd (hsize (UInt64.toNat_inj.mp hs) hn) (Int.not_le.mpr hneg)
        · exact hn
    · intro unit hunit
      obtain rfl := Option.some.inj hunit
      rw [hlen, Nat.mul_comm]
      exact ⟨rfl, Nat.le_refl _⟩
  · rw [if_pos ((fwrite_overflow size nmemb).mpr hwraps)] at hwrite
    obtain ⟨rfl, heq⟩ := Prog.trace_ret.mp hwrite
    obtain ⟨rfl, -⟩ := Prod.mk.inj heq
    have hne : ¬ (size.toNat = 0 ∨ nmemb.toNat = 0) := by
      rw [← Nat.mul_eq_zero]
      omega
    refine ⟨fun _ => ⟨fun hsize => ?_, nofun⟩,
      fun _ => reports_nothing (Int.le_refl 0) ⟨fun heq => ?_, fun hnil => ?_⟩⟩
    · exact absurd (.inl (congrArg UInt64.toNat hsize)) hne
    · have hzero : (0 : Int) = (nmemb.toNat : Int) := heq
      exact absurd (.inr (by omega)) hne
    · exact absurd (hempty.mp hnil) hne

/-- `(ssize_t)nbyte` -/
theorem toInt64_toInt (n : UInt64) :
    (n.toNat < 2 ^ 63 → n.toInt64.toInt = n.toNat) ∧ (2 ^ 63 ≤ n.toNat → n.toInt64.toInt < 0) := by
  have hcond : n.toInt64.toInt =
      if 2 * n.toNat < 2 ^ 64 then (n.toNat : Int) else (n.toNat : Int) - (2 ^ 64 : Nat) :=
    BitVec.toInt_eq_toNat_cond n.toBitVec
  have hlt := n.toNat_lt
  rw [hcond]
  constructor
  · intro h
    exact if_pos (by omega)
  · intro h
    rw [if_neg (by omega)]
    omega

theorem write_reports {d : { fd : Int // fd ≠ 1 ∧ fd ≠ 2 }} {buf : Option (Nat → UInt8)}
    {nbyte : UInt64} (h : Prog.Trace ((FileCall.write d buf nbyte).run o) tr (ret, o')) :
    ReportsDelivered (.write d buf nbyte) tr ret ↔ (FileCall.write d buf nbyte).Meets tr := by
  have hnothing : (FileCall.write d buf nbyte).text = [] → tr = [] → ret = 0 →
      (ReportsDelivered (.write d buf nbyte) tr ret ↔ (FileCall.write d buf nbyte).Meets tr) := by
    rintro htext rfl rfl
    have hfull : (FileCall.write d buf nbyte).full = 0 :=
      congrArg (fun text : List UInt8 => (text.length : Int)) htext
    have hshort : (FileCall.write d buf nbyte).text.length < 2 ^ 63 := by
      rw [htext]
      decide
    exact ⟨fun _ => ⟨nofun, fun _ => hshort⟩,
      fun _ => reports_nothing (Int.le_refl 0) ⟨fun _ => htext, fun _ => hfull.symm⟩⟩
  change Prog.Trace (Fs.write d.1 buf nbyte o) tr (ret, o') at h
  cases buf with
  | none =>
    obtain ⟨rfl, heq⟩ := Prog.trace_ret.mp h
    obtain ⟨rfl, -⟩ := Prod.mk.inj heq
    exact hnothing rfl rfl rfl
  | some buf =>
    unfold Fs.write at h
    dsimp only at h
    rcases Decidable.em (nbyte = 0) with rfl | hne
    · rw [if_pos rfl] at h
      obtain ⟨rfl, heq⟩ := Prog.trace_ret.mp h
      obtain ⟨rfl, -⟩ := Prod.mk.inj heq
      exact hnothing rfl rfl rfl
    · rw [if_neg hne, if_pos d.2] at h
      obtain ⟨⟨rc, o₁⟩, hloop, heq⟩ := Prog.trace_map.mp h
      obtain ⟨hret, -⟩ := Prod.mk.inj heq
      have hwrote := fdWriteAll_trace hloop
      have hlen : (FileCall.write d (some buf) nbyte).text.length = nbyte.toNat :=
        bytesAt_length buf _
      have hfull : (FileCall.write d (some buf) nbyte).full = (nbyte.toNat : Int) :=
        congrArg Nat.cast hlen
      have htext : (FileCall.write d (some buf) nbyte).text ≠ [] := by
        intro hnil
        rw [hnil] at hlen
        exact hne (UInt64.toNat_inj.mp hlen.symm)
      have hbad := FileCall.error_ne_full (.write d (some buf) nbyte)
      obtain ⟨hfits, hwraps⟩ := toInt64_toInt nbyte
      rcases Decidable.em (rc = 0 ∧ 2 ^ 63 ≤ nbyte.toNat) with ⟨hrc, hbig⟩ | hsmall
      · -- all is written, and a negative number returned
        rw [if_pos hrc] at hret
        obtain ⟨hall, hanswers⟩ := hwrote.all hrc
        refine ⟨fun hreports => ?_, fun hmeets => ?_⟩
        · have hneg := hwraps hbig
          have hsame := hreports.success.mpr hall
          omega
        · have hlt := hmeets.2 hanswers
          omega
      · have hgood : ret = if rc = 0 then (FileCall.write d (some buf) nbyte).full else -1 := by
          rcases Decidable.em (rc = 0) with hrc | hrc
          · rw [if_pos hrc] at hret ⊢
            rw [hret, hfull]
            exact hfits (by omega)
          · rw [if_neg hrc] at hret ⊢
            exact hret
        rw [WroteFile.reports_iff (c := .write d (some buf) nbyte) hwrote.wrote hgood
          fun heq => absurd heq hbad]
        · refine ⟨fun ⟨_, hfirst⟩ => ⟨hfirst (Option.some_ne_none _), fun hanswers => ?_⟩,
            fun hmeets => ⟨fun _ hnil => absurd hnil htext, fun _ => hmeets.1⟩⟩
          rcases Decidable.em (rc = 0) with hrc | hrc
          · omega
          · obtain ⟨-, ⟨ev, hev, hle⟩, -⟩ := hwrote.part hrc
            exact absurd (hanswers ev hev) (Int.not_lt.mpr hle)
        · intro unit hunit
          obtain rfl := Option.some.inj hunit
          rw [hfull, hlen]
          exact ⟨rfl, by omega⟩

/-- A call reports what reached the file exactly if no call of `oops_fs_write` but its first one
    fails (for `fwrite` and `write`), and none of the odd cases of `Meets` arises. -/
theorem file_write_iff (c : FileCall) (o : Output) {tr : List FsEvent} {ret : Int} {o' : Output}
    (h : Prog.Trace (c.run o) tr (ret, o')) : ReportsDelivered c tr ret ↔ c.Meets tr := by
  cases c with
  | fwrite ptr size nmemb fileno => exact fwrite_reports h
  | fputs s fileno => exact fputs_reports h
  | fputc ch fileno => exact fputc_reports h
  | formatted s malloc fileno => exact ⟨fun _ => trivial, fun _ => formatted_reports h⟩
  | write d buf nbyte => exact write_reports h

/-- A `write` of two bytes, of which the first is written first. -/
def twoBytes : FileCall := .write ⟨5, by decide⟩ (some fun _ => 65) 2

theorem twoBytes_trace {x rc : Int} {o : Output}
    (h : Prog.Trace (if x ≤ 0 then .ret (-1, { Output.init with errno := some StreamErrno.EIO })
      else Fs.fdWriteAll 5 ([65].drop x.toNat) .init) [] (rc, o)) :
    Prog.Trace (twoBytes.run .init) [⟨⟨5, [65, 65]⟩, 1⟩, ⟨⟨5, [65]⟩, x⟩]
      (if rc = 0 then 2 else -1, o) := by
  refine Prog.trace_map.mpr ⟨(rc, o), ?_, rfl⟩
  rw [Fs.fdWriteAll, if_neg (by decide)]
  refine Prog.trace_call.mpr ⟨(1 : Int), _, rfl, ?_⟩
  rw [if_neg (by decide), Fs.fdWriteAll, if_neg (by decide)]
  exact Prog.trace_call.mpr ⟨x, [], rfl, h⟩

/-- The second byte is written too. -/
theorem file_write_iff_two :
    ReportsDelivered twoBytes [⟨⟨5, [65, 65]⟩, 1⟩, ⟨⟨5, [65]⟩, 1⟩] 2 := by
  have hrest : Prog.Trace (Fs.fdWriteAll 5 ([65].drop (1 : Int).toNat) .init) [] (0, .init) := by
    rw [Fs.fdWriteAll]
    exact .ret _
  have hrun := twoBytes_trace (x := 1) (by rwa [if_neg (by decide)])
  exact (file_write_iff twoBytes .init hrun).mpr ⟨by decide, fun _ => by decide⟩

/-- It is not, and -1 is returned for the byte that reached the file. -/
theorem not_reports_delivered : ¬ ∀ (c : FileCall) (o : Output) (tr : List FsEvent) (ret : Int)
    (o' : Output), Prog.Trace (c.run o) tr (ret, o') → ReportsDelivered c tr ret := by
  intro h
  have hrun := twoBytes_trace (x := -1) (by rw [if_pos (by decide)]; exact .ret _)
  have hpartway := (h _ _ _ _ _ hrun).partway (by decide) (by decide) 1 rfl
  exact absurd hpartway (by decide)

end OopsMesa.Runtime
