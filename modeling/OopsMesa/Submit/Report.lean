/-
  The report on a submission that never retires.

  Every packet that writes or polls memory is noted before its buffer is submitted, with the dword
  at its address; a result that may be 0 is poisoned first. When the fence does not come, the
  report sets the dword of now beside the one of then. Between the two the GPU runs: what it
  stores, and when, nothing here knows, and the notes of one buffer are made while another runs. A
  `mark_add` is one step here, and so is the report.

  The report can be believed (`report_tells`). Its lines are those of the marks of this submission,
  the first 48; each reads back as the dword that the GPU had at the address when it was noted and
  the one it has now, and what is between them is what was stored there since. That includes the
  poison of a later mark, so a result that two packets write can read as if neither had run.
-/
import OopsMesa.Lib.Stores
import OopsMesa.Submit.MarkText
import OopsMesa.Winsys.Sizes

namespace OopsMesa.Submit

open OopsMesa.Lib OopsMesa.Runtime OopsMesa.Winsys

/-! ## The code -/

/-- The stores that a store of a dword is, to direct memory. -/
def wordStores (pt : PageTable) (a : UInt64) (v : UInt32) : Option (List (Int × UInt8)) := do
  let p0 ← pt a
  let p1 ← pt (a + 1)
  let p2 ← pt (a + 2)
  let p3 ← pt (a + 3)
  pure [(p0.phys, v.toUInt8), (p1.phys, (v >>> 8).toUInt8), (p2.phys, (v >>> 16).toUInt8),
    (p3.phys, (v >>> 24).toUInt8)]

/-- `s_marks` and `s_nib`, and what there is to map and to store in. -/
structure Noted where
  tracked : Tracked
  dram : Int → UInt8
  marks : List OopsMark
  nib : UInt32

def Noted.pageTable (s : Noted) : PageTable := s.tracked.shim.mem.pageTable

/-- The pointer that `mark_add` has for an address. -/
def Noted.ptr (s : Noted) (m : MarkArg) (map : Option UInt64) : UInt64 :=
  (cpuMapVa s.tracked.shim m.va 4 map).1

/-- `oops_winsys_cpu_map_va(va, 4)` -/
def Noted.mapped (s : Noted) (m : MarkArg) (map : Option UInt64) : Tracked :=
  trackedStep s.tracked (.cpuMapVa m.va 4 map)

/-- A destination that is poisoned. -/
def MarkArg.Sampled (m : MarkArg) : Prop := m.kind = .E ∨ m.kind = .S

instance (m : MarkArg) : Decidable m.Sampled := inferInstanceAs (Decidable (_ ∨ _))

def poison : UInt32 := 0x0bad0bad

/-- The entry of `s_marks` that is filled. -/
def Noted.entry (s : Noted) (m : MarkArg) (p : UInt64) (before : UInt32) : OopsMark :=
  ⟨m.va, p, before, m.ref, m.mask, m.pos.toUInt16, m.kind, s.nib.toUInt8⟩

/-- `mark_add`; nothing where a pointer leads nowhere. -/
def markAddIn (s : Noted) (m : MarkArg) (map : Option UInt64) : Option Noted :=
  if s.marks.length = marksMax then some s
  else do
    let t := s.mapped m map
    let p := s.ptr m map
    let dram ←
      if p ≠ 0 ∧ m.Sampled then
        (wordStores t.shim.mem.pageTable p poison).map (storeAll s.dram)
      else some s.dram
    let before ← if p ≠ 0 then readWord dram t.shim.mem.pageTable p else some 0
    some ⟨t, dram, s.marks ++ [s.entry m p before], s.nib⟩

/-- What happens to the marks, and to memory while they are made. -/
inductive NoteEv where
  /-- `oops_winsys_clear_marks` -/
  | clear
  | mark (m : MarkArg) (map : Option UInt64)
  /-- `s_nib++`, at the end of `oops_winsys_note_marks` -/
  | noted
  /-- A byte that the GPU stores, or anything else. -/
  | stored (phys : Int) (b : UInt8)
  deriving DecidableEq

def noteStep (s : Noted) : NoteEv → Option Noted
  | .clear => some { s with marks := [], nib := 0 }
  | .mark m map => markAddIn s m map
  | .noted => some { s with nib := s.nib + 1 }
  | .stored phys b => some { s with dram := Function.update s.dram phys b }

def noteRun (s : Noted) (evs : List NoteEv) : Option Noted := evs.foldlM noteStep s

/-- The text of a mark's line. -/
def Noted.line (s : Noted) (m : OopsMark) : Option (List UInt8) :=
  if m.cpu = 0 then some (markText m none)
  else (readWord s.dram s.pageTable m.cpu).map fun now => markText m (some now)

/-- `oops_winsys_report_marks` -/
def oopsWinsysReportMarks (s : Noted) (log : SystemLog) : Option SystemLog :=
  s.marks.foldlM (fun log m => (s.line m).map fun text => winsysVlog (formatted text) log) log

/-! ## The statement -/

/-- The marks and the ends of buffers since the last submission began. -/
def sinceClear (evs : List NoteEv) : List NoteEv :=
  (evs.reverse.takeWhile (· ≠ .clear)).reverse

def markOfEv : NoteEv → Option MarkArg
  | .mark m _ => some m
  | _ => none

/-- The marks asked for in this submission. -/
def asked (evs : List NoteEv) : List MarkArg := (sinceClear evs).filterMap markOfEv

/-- The buffers of this submission that were noted before. -/
def buffersNoted (evs : List NoteEv) : Nat := (sinceClear evs).count .noted

/-- What an event stores. -/
def NoteEv.stores (s : Noted) : NoteEv → List (Int × UInt8)
  | .stored phys b => [(phys, b)]
  | .mark m map =>
    if s.marks.length ≠ marksMax ∧ s.ptr m map ≠ 0 ∧ m.Sampled then
      (wordStores (s.mapped m map).shim.mem.pageTable m.va poison).getD []
    else []
  | _ => []

/-- What is stored in a run. -/
def storesIn (s : Noted) : List NoteEv → List (Int × UInt8)
  | [] => []
  | e :: es => e.stores s ++ (noteStep s e).elim [] fun s' => storesIn s' es

/-- The platform maps the CPU where nothing is mapped. -/
def NoteEv.Maps (s : Noted) : NoteEv → Prop
  | .mark m map => PlatformMaps s.tracked.shim (.cpuMapVa m.va 4 map)
  | _ => True

def AllMap (s : Noted) : List NoteEv → Prop
  | [] => True
  | e :: es => e.Maps s ∧ ∀ s', noteStep s e = some s' → AllMap s' es

/-- The four bytes from `va` on are those of direct memory from `phys` on. -/
def LeadsTo (pt : PageTable) (va : UInt64) (phys : Int) : Prop :=
  ∀ k : UInt64, k < 4 → (pt (va + k)).map Pte.phys = some (phys + k.toNat)

/-- The dword in direct memory. -/
def wordAt (dram : Int → UInt8) (phys : Int) : UInt32 :=
  wordOf (dram phys) (dram (phys + 1)) (dram (phys + 2)) (dram (phys + 3))

/-- An entry is that of a mark made in `u`, and after `post` it says what became of its dword. -/
structure EntryTells (u s : Noted) (m : MarkArg) (post : List NoteEv) (v : MarkValues)
    (phys : Int) : Prop where
  /-- It is the dword that the GPU has at the address. -/
  gpu : LeadsTo s.pageTable m.va phys
  before : v.before = (wordAt u.dram phys).toNat
  /-- Now there is what was stored last since. -/
  now : v.now = (wordAt (fun a => (lastStored a (storesIn u post)).getD (u.dram a)) phys).toNat
  ref : v.ref = m.ref.toNat
  mask : v.mask = m.mask.toNat
  /-- A sample was poisoned. -/
  sampled : m.Sampled → v.before = poison.toNat

/-- What the report says of a run from `s₀` to `s`. -/
structure ReportTells (s₀ s : Noted) (evs : List NoteEv) (entries : List MarkEntry) : Prop where
  /-- One entry for each mark, up to 48. -/
  length : entries.length = if (asked evs).length ≤ marksMax then (asked evs).length else marksMax
  /-- A mark's entry, and what it says. -/
  entry : ∀ pre m map post, evs = pre ++ .mark m map :: post → .clear ∉ post →
    (asked pre).length < marksMax →
    ∃ e u₀ u, entries[(asked pre).length]? = some e ∧
      e.kind = m.kind ∧ e.ib = buffersNoted pre % 256 ∧ e.pos = m.pos.toNat % 65536 ∧
      e.va = m.va.toNat ∧
      noteRun s₀ pre = some u₀ ∧ noteStep u₀ (.mark m map) = some u ∧
      (u₀.ptr m map = 0 → e.values = none) ∧
      (u₀.ptr m map ≠ 0 → ∃ v phys, e.values = some v ∧ EntryTells u s m post v phys)

/-- The lines of the report, read back. -/
def readReport (lines : List (List UInt8)) : Option (List MarkEntry) := lines.mapM readMark

/-! ## Dwords -/

variable {pt : PageTable} {a va : UInt64} {phys : Int} {t : Tracked} {w : Shim} {s s' : Noted}
  {e : NoteEv} {m : MarkArg} {map : Option UInt64}

/-- The stores of a dword in direct memory. -/
def storesAt (phys : Int) (v : UInt32) : List (Int × UInt8) :=
  [(phys, v.toUInt8), (phys + 1, (v >>> 8).toUInt8), (phys + 2, (v >>> 16).toUInt8),
    (phys + 3, (v >>> 24).toUInt8)]

theorem LeadsTo.pages (h : LeadsTo pt a phys) : ∃ p0 p1 p2 p3,
    (pt a = some p0 ∧ p0.phys = phys) ∧ (pt (a + 1) = some p1 ∧ p1.phys = phys + 1) ∧
    (pt (a + 2) = some p2 ∧ p2.phys = phys + 2) ∧ pt (a + 3) = some p3 ∧ p3.phys = phys + 3 := by
  obtain ⟨p0, h0, hp0⟩ := Option.map_eq_some_iff.mp (h 0 (by decide))
  obtain ⟨p1, h1, hp1⟩ := Option.map_eq_some_iff.mp (h 1 (by decide))
  obtain ⟨p2, h2, hp2⟩ := Option.map_eq_some_iff.mp (h 2 (by decide))
  obtain ⟨p3, h3, hp3⟩ := Option.map_eq_some_iff.mp (h 3 (by decide))
  rw [UInt64.add_zero] at h0
  exact ⟨p0, p1, p2, p3, ⟨h0, hp0.trans (Int.add_zero phys)⟩, ⟨h1, hp1⟩, ⟨h2, hp2⟩, h3, hp3⟩

theorem LeadsTo.wordStores_eq (h : LeadsTo pt a phys) (v : UInt32) :
    wordStores pt a v = some (storesAt phys v) := by
  obtain ⟨p0, p1, p2, p3, ⟨h0, hp0⟩, ⟨h1, hp1⟩, ⟨h2, hp2⟩, h3, hp3⟩ := h.pages
  unfold wordStores
  rw [h0, h1, h2, h3]
  dsimp only [Option.bind_eq_bind, Option.bind_some, Option.pure_def]
  rw [hp0, hp1, hp2, hp3]
  rfl

theorem LeadsTo.readWord_eq (h : LeadsTo pt a phys) (dram : Int → UInt8) :
    readWord dram pt a = some (wordAt dram phys) := by
  obtain ⟨p0, p1, p2, p3, ⟨h0, hp0⟩, ⟨h1, hp1⟩, ⟨h2, hp2⟩, h3, hp3⟩ := h.pages
  unfold readWord readByte
  rw [h0, h1, h2, h3]
  dsimp only [Option.map_some, Option.bind_eq_bind, Option.bind_some, Option.pure_def]
  rw [hp0, hp1, hp2, hp3]
  rfl

theorem LeadsTo.mono {pt' : PageTable} (h : LeadsTo pt a phys)
    (hpt : ∀ a pte, pt a = some pte → pt' a = some pte) : LeadsTo pt' a phys := by
  intro k hk
  obtain ⟨pte, hpte, hphys⟩ := Option.map_eq_some_iff.mp (h k hk)
  exact Option.map_eq_some_iff.mpr ⟨pte, hpt _ _ hpte, hphys⟩

theorem storeAll_storesAt (dram : Int → UInt8) (phys : Int) (v : UInt32) :
    wordAt (storeAll dram (storesAt phys v)) phys =
      wordOf v.toUInt8 (v >>> 8).toUInt8 (v >>> 16).toUInt8 (v >>> 24).toUInt8 := by
  have h3 : storeAll dram (storesAt phys v) (phys + 3) = (v >>> 24).toUInt8 :=
    Function.update_self ..
  have h2 : storeAll dram (storesAt phys v) (phys + 2) = (v >>> 16).toUInt8 :=
    (Function.update_of_ne (by omega) ..).trans (Function.update_self ..)
  have h1 : storeAll dram (storesAt phys v) (phys + 1) = (v >>> 8).toUInt8 :=
    (Function.update_of_ne (by omega) ..).trans
      ((Function.update_of_ne (by omega) ..).trans (Function.update_self ..))
  have h0 : storeAll dram (storesAt phys v) phys = v.toUInt8 :=
    (Function.update_of_ne (by omega) ..).trans ((Function.update_of_ne (by omega) ..).trans
      ((Function.update_of_ne (by omega) ..).trans (Function.update_self ..)))
  unfold wordAt
  rw [h0, h1, h2, h3]

theorem poison_word :
    wordOf poison.toUInt8 (poison >>> 8).toUInt8 (poison >>> 16).toUInt8
      (poison >>> 24).toUInt8 = poison := by decide

/-! ## Pointers -/

theorem shim_reach (h : Reach trackedStep WholeMaps .init t) :
    Reach step (fun _ _ => True) .init t.shim :=
  h.invariant (P := fun t => Reach step (fun _ _ => True) .init t.shim) .refl
    fun _ i ht _ => ht.tail i trivial

private theorem offset_gpu (va k base : UInt64) : va + k - base = va - base + k := by grind

private theorem offset_cpu (cpu off k : UInt64) : cpu + off + k - cpu = off + k := by grind

/-- A pointer and the address it is for lead to the same four bytes. -/
theorem pointer_leads (h : Reach trackedStep WholeMaps .init t)
    (hp : cpuForVa t.shim va 4 ≠ 0) : ∃ phys,
    LeadsTo t.shim.mem.pageTable (cpuForVa t.shim va 4) phys ∧
      LeadsTo t.shim.mem.pageTable va phys := by
  obtain ⟨hsteady, hwhole⟩ := steady_whole h
  cases ht : cpuForVaTarget t.shim va with
  | none => exact absurd (cpuForVa_none ht) hp
  | some i =>
    obtain ⟨hlive, hcpu, hholds⟩ := cpuForVaTarget_spec ht
    obtain ⟨-, hge, hlt, -⟩ := holdsVa_iff hholds
    have hoff := offset_toNat hholds
    have hsize := bo_size_le (shim_reach h) hlive
    have h4 : (4 : UInt64).toNat = 4 := rfl
    have hfits : OffsetFits (t.shim.bo i) va 4 := by
      unfold OffsetFits
      omega
    rw [cpuForVa_some ht] at hp ⊢
    split at hp
    · exact absurd rfl hp
    · next hlarge =>
      rw [if_neg hlarge]
      have hin := ((cpuForVa_passes 4 ht).mp hlarge).resolve_left (not_not_intro hfits)
      have hkeeps : KeepsContents t t i := hsteady.keepsContents hlive rfl
      have hspan : ∀ k : UInt64, k < 4 → (va - (t.shim.bo i).gpuVa + k).toNat =
          (va - (t.shim.bo i).gpuVa).toNat + k.toNat ∧
          va - (t.shim.bo i).gpuVa + k < (t.shim.bo i).size := by
        intro k hk
        rw [UInt64.lt_iff_toNat_lt, h4] at hk
        have hadd := toNat_add_of_lt (a := va - (t.shim.bo i).gpuVa) (b := k) (by omega)
        refine ⟨hadd, ?_⟩
        rw [UInt64.lt_iff_toNat_lt, hadd]
        omega
      refine ⟨(t.shim.bo i).phys + (va - (t.shim.bo i).gpuVa).toNat, fun k hk => ?_,
        fun k hk => ?_⟩
      · obtain ⟨hadd, hlt⟩ := hspan k hk
        obtain ⟨prot, hptr⟩ := hkeeps.cpu hcpu
          ((t.shim.bo i).cpuPtr + (va - (t.shim.bo i).gpuVa) + k)
          (by unfold InSpan; rw [offset_cpu]; exact hlt)
        rw [hptr, offset_cpu, Option.map_some, Option.some.injEq]
        show (t.shim.bo i).phys + ((va - (t.shim.bo i).gpuVa + k).toNat : Int) = _
        omega
      · obtain ⟨hadd, hlt⟩ := hspan k hk
        obtain ⟨prot, hgpu⟩ := hkeeps.gpu _ _ (hsteady.stands_whole hwhole (gpuVa_ne_zero hholds))
          (va + k) (by unfold InSpan; rw [offset_gpu]; exact hlt)
        rw [hgpu, offset_gpu, Option.map_some, Option.some.injEq]
        show (t.shim.bo i).phys + ((va - (t.shim.bo i).gpuVa + k).toNat : Int) = _
        omega

/-- The pointer given is the one that is found from then on. -/
theorem cpuMapVa_found {bytes : UInt64} (hp : (cpuMapVa w va bytes map).1 ≠ 0) :
    cpuForVa (cpuMapVa w va bytes map).2 va bytes = (cpuMapVa w va bytes map).1 := by
  unfold cpuMapVa at hp ⊢
  split at hp
  · rfl
  · split at hp
    · exact absurd rfl hp
    · rfl

/-- Mapping takes no mapping away. -/
theorem cpuMapVa_pages {bytes : UInt64} {pte : Pte}
    (hmaps : PlatformMaps w (.cpuMapVa va bytes map)) (h : w.mem.pageTable a = some pte) :
    (step w (.cpuMapVa va bytes map)).mem.pageTable a = some pte := by
  have he := step_effect (w := w) (.cpuMapVa va bytes map)
  generalize step w (.cpuMapVa va bytes map) = w' at he ⊢
  cases he with
  | idle => exact h
  | cpu _ i v hcall hlive hnone =>
    have hout : ¬ InSpan v (w.bo i).size a := by
      intro hin
      exact nomatch h.symm.trans ((hmaps i v hcall hnone).2 a hin)
    show mapSpan w.mem.pageTable v (w.bo i).size (pageOf (w.bo i).phys .cpuRw) a = some pte
    rw [mapSpan_of_not_inSpan hout]
    exact h

/-- A pointer that was found is found after another mapping. -/
theorem cpuForVa_kept {u : Tracked} {x bytes n : UInt64} (hsteady : Steady u) (hwhole : Whole u)
    (hu : u.shim = step w (.cpuMapVa va bytes map)) (hp : cpuForVa w x n ≠ 0) :
    cpuForVa u.shim x n = cpuForVa w x n := by
  cases ht : cpuForVaTarget w x with
  | none => exact absurd (cpuForVa_none ht) hp
  | some i =>
    obtain ⟨hlive, hcpu, hholds⟩ := cpuForVaTarget_spec ht
    have hbo : u.shim.bo i = w.bo i := by
      rw [hu]
      have he := step_effect (w := w) (.cpuMapVa va bytes map)
      generalize step w (.cpuMapVa va bytes map) = w' at he ⊢
      cases he with
      | idle => rfl
      | cpu _ j v _ _ hnone =>
        refine setBo_bo_of_ne _ _ _ _ ?_
        rintro rfl
        exact hcpu hnone
    have ht' : cpuForVaTarget u.shim x = some i :=
      hsteady.found hwhole (hbo ▸ hlive) (hbo ▸ hcpu) (hbo ▸ hholds)
    rw [cpuForVa_some ht, cpuForVa_some ht', hbo]

/-! ## One event -/

/-- What holds while marks are made. -/
structure NoteInv (s : Noted) : Prop where
  reach : Reach trackedStep WholeMaps .init s.tracked
  /-- The pointer of a mark is the one for its address. -/
  ptrs : ∀ x ∈ s.marks, x.cpu ≠ 0 → cpuForVa s.tracked.shim x.va 4 = x.cpu

/-- The mark that is made. -/
structure Makes (s s' : Noted) (m : MarkArg) (map : Option UInt64) (x : OopsMark) : Prop where
  marks : s'.marks = s.marks ++ [x]
  kind : x.kind = m.kind
  va : x.va = m.va
  ref : x.ref = m.ref
  mask : x.mask = m.mask
  pos : x.pos = m.pos.toUInt16
  ib : x.ib = s.nib.toUInt8
  cpu : x.cpu = s.ptr m map
  unmapped : x.cpu = 0 → x.before = 0
  before : x.cpu ≠ 0 → ∃ phys, LeadsTo s'.pageTable m.va phys ∧
    LeadsTo s'.pageTable x.cpu phys ∧ x.before = wordAt s'.dram phys ∧
    (m.Sampled → x.before = poison)

theorem mapped_reach (h : Reach trackedStep WholeMaps .init s.tracked)
    (hmaps : (NoteEv.mark m map).Maps s) :
    Reach trackedStep WholeMaps .init (s.mapped m map) := by
  have hok : WholeMaps s.tracked (.cpuMapVa m.va 4 map) := ⟨hmaps, trivial, trivial⟩
  exact h.tail _ hok

/-- With room in the table, `mark_add` makes a mark, and stores what its event does. -/
theorem markAddIn_room (h : NoteInv s) (hmaps : (NoteEv.mark m map).Maps s)
    (hroom : s.marks.length ≠ marksMax) : ∃ s' x, markAddIn s m map = some s' ∧
      s'.tracked = s.mapped m map ∧ s'.nib = s.nib ∧
      s'.dram = storeAll s.dram ((NoteEv.mark m map).stores s) ∧ Makes s s' m map x := by
  have hreach := mapped_reach h.reach hmaps
  by_cases hp : s.ptr m map = 0
  · have hnone : (NoteEv.mark m map).stores s = [] := if_neg fun hc => hc.2.1 hp
    refine ⟨⟨s.mapped m map, s.dram, s.marks ++ [s.entry m 0 0], s.nib⟩, s.entry m 0 0, ?_,
      rfl, rfl, ?_, rfl, rfl, rfl, rfl, rfl, rfl, rfl, hp.symm, fun _ => rfl,
      fun hne => absurd rfl hne⟩
    · unfold markAddIn
      rw [if_neg hroom]
      dsimp only
      rw [hp, if_neg fun hc => hc.1 rfl]
      rfl
    · rw [hnone]
      rfl
  · have hne : s.ptr m map ≠ 0 := hp
    have hfound : cpuForVa (s.mapped m map).shim m.va 4 = s.ptr m map := cpuMapVa_found hne
    have hfor : cpuForVa (s.mapped m map).shim m.va 4 ≠ 0 := hfound ▸ hne
    obtain ⟨phys, hptr, hva⟩ := pointer_leads hreach hfor
    rw [hfound] at hptr
    by_cases hsample : m.Sampled
    · have hstores : (NoteEv.mark m map).stores s = storesAt phys poison := by
        unfold NoteEv.stores
        dsimp only
        rw [if_pos ⟨hroom, hne, hsample⟩, hva.wordStores_eq, Option.getD_some]
      let dram := storeAll s.dram (storesAt phys poison)
      have hpoison : wordAt dram phys = poison := (storeAll_storesAt ..).trans poison_word
      let x := s.entry m (s.ptr m map) (wordAt dram phys)
      refine ⟨⟨s.mapped m map, dram, s.marks ++ [x], s.nib⟩, x, ?_, rfl, rfl, ?_,
        rfl, rfl, rfl, rfl, rfl, rfl, rfl, rfl, fun hzero => absurd hzero hne,
        fun _ => ⟨phys, hva, hptr, rfl, fun _ => hpoison⟩⟩
      · unfold markAddIn
        rw [if_neg hroom]
        dsimp only
        rw [if_pos ⟨hne, hsample⟩, hptr.wordStores_eq, Option.map_some]
        dsimp only [Option.bind_eq_bind, Option.bind_some]
        rw [if_pos hne, hptr.readWord_eq]
        rfl
      · rw [hstores]
    · have hnone : (NoteEv.mark m map).stores s = [] := if_neg fun hc => hsample hc.2.2
      let x := s.entry m (s.ptr m map) (wordAt s.dram phys)
      refine ⟨⟨s.mapped m map, s.dram, s.marks ++ [x], s.nib⟩, x, ?_, rfl, rfl, ?_,
        rfl, rfl, rfl, rfl, rfl, rfl, rfl, rfl, fun hzero => absurd hzero hne,
        fun _ => ⟨phys, hva, hptr, rfl, fun hc => absurd hc hsample⟩⟩
      · unfold markAddIn
        rw [if_neg hroom]
        dsimp only
        rw [if_neg fun hc => hsample hc.2]
        dsimp only [Option.bind_eq_bind, Option.bind_some]
        rw [if_pos hne, hptr.readWord_eq]
        rfl
      · rw [hnone]
        rfl

/-- What an event leaves. -/
structure Keeps (s s' : Noted) : Prop where
  inv : NoteInv s'
  pages : ∀ a pte, s.pageTable a = some pte → s'.pageTable a = some pte

theorem noteStep_spec (h : NoteInv s) (hmaps : e.Maps s) : ∃ s', noteStep s e = some s' ∧
    Keeps s s' ∧ s'.dram = storeAll s.dram (e.stores s) ∧ (e ≠ .clear → s.marks <+: s'.marks) := by
  cases e with
  | clear =>
    exact ⟨_, rfl, ⟨⟨h.reach, List.forall_mem_nil _⟩, fun _ _ h => h⟩, rfl, fun hc => absurd rfl hc⟩
  | noted => exact ⟨_, rfl, ⟨⟨h.reach, h.ptrs⟩, fun _ _ h => h⟩, rfl, fun _ => List.prefix_rfl⟩
  | stored phys b =>
    exact ⟨_, rfl, ⟨⟨h.reach, h.ptrs⟩, fun _ _ h => h⟩, rfl, fun _ => List.prefix_rfl⟩
  | mark m map =>
    by_cases hroom : s.marks.length = marksMax
    · have hnone : (NoteEv.mark m map).stores s = [] := if_neg fun hc => hc.1 hroom
      refine ⟨s, if_pos hroom, ⟨h, fun _ _ h => h⟩, ?_, fun _ => List.prefix_rfl⟩
      rw [hnone]
      rfl
    · obtain ⟨s', x, hstep, htracked, -, hdram, hmakes⟩ := markAddIn_room h hmaps hroom
      have hreach := mapped_reach h.reach hmaps
      obtain ⟨hsteady, hwhole⟩ := steady_whole hreach
      refine ⟨s', hstep, ⟨⟨htracked ▸ hreach, ?_⟩, fun a pte hpte => ?_⟩, hdram, fun _ => ?_⟩
      · intro y hy hcpu
        rw [htracked]
        rw [hmakes.marks] at hy
        rcases List.mem_append.mp hy with hy | hy
        · have hold := h.ptrs y hy hcpu
          rw [cpuForVa_kept hsteady hwhole rfl (hold ▸ hcpu), hold]
        · obtain rfl := List.mem_singleton.mp hy
          rw [hmakes.cpu] at hcpu
          rw [hmakes.va, hmakes.cpu]
          exact cpuMapVa_found hcpu
      · unfold Noted.pageTable
        rw [htracked]
        exact cpuMapVa_pages hmaps hpte
      · rw [hmakes.marks]
        exact List.prefix_append ..

/-! ## Runs -/

theorem noteRun_cons (s : Noted) (e : NoteEv) (es : List NoteEv) :
    noteRun s (e :: es) = noteStep s e >>= fun s' => noteRun s' es := List.foldlM_cons

/-- No event of a run goes wrong, and what is in memory is what was stored there. -/
theorem noteRun_spec (evs : List NoteEv) (h : NoteInv s) (hmaps : AllMap s evs) :
    ∃ s', noteRun s evs = some s' ∧ Keeps s s' ∧ s'.dram = storeAll s.dram (storesIn s evs) ∧
      (.clear ∉ evs → s.marks <+: s'.marks) := by
  induction evs generalizing s with
  | nil => exact ⟨s, rfl, ⟨h, fun _ _ h => h⟩, rfl, fun _ => List.prefix_rfl⟩
  | cons e es ih =>
    obtain ⟨u, hstep, hkeeps, hdram, hmarks⟩ := noteStep_spec h hmaps.1
    obtain ⟨s', hrun, hkeeps', hdram', hmarks'⟩ := ih hkeeps.inv (hmaps.2 u hstep)
    refine ⟨s', ?_, ⟨hkeeps'.inv, fun a pte h => hkeeps'.pages a pte (hkeeps.pages a pte h)⟩,
      ?_, fun hclear => ?_⟩
    · rw [noteRun_cons, hstep]
      exact hrun
    · unfold storesIn
      rw [hstep, Option.elim_some, storeAll_append, ← hdram]
      exact hdram'
    · obtain ⟨he, hes⟩ := List.ne_and_not_mem_of_not_mem_cons hclear
      exact (hmarks he.symm).trans (hmarks' hes)

theorem AllMap.append {pre post : List NoteEv} (h : AllMap s (pre ++ post)) : AllMap s pre ∧
    ∀ u, noteRun s pre = some u → AllMap u post := by
  induction pre generalizing s with
  | nil => exact ⟨trivial, fun u hu => Option.some.inj hu ▸ h⟩
  | cons e es ih =>
    refine ⟨⟨h.1, fun u hu => (ih (h.2 u hu)).1⟩, fun v hv => ?_⟩
    rw [noteRun_cons] at hv
    obtain ⟨u, hu, hv⟩ := Option.bind_eq_some_iff.mp hv
    exact (ih (h.2 u hu)).2 v hv

theorem noteRun_append {pre post : List NoteEv} {u : Noted} (h : noteRun s pre = some u) :
    noteRun s (pre ++ post) = noteRun u post := by
  unfold noteRun at h ⊢
  rw [List.foldlM_append, h]
  rfl

/-! ## What was asked -/

variable {evs pre post : List NoteEv}

theorem sinceClear_clear (evs : List NoteEv) : sinceClear (evs ++ [.clear]) = [] := by
  unfold sinceClear
  rw [List.reverse_append]
  rfl

theorem sinceClear_snoc (evs : List NoteEv) (he : e ≠ .clear) :
    sinceClear (evs ++ [e]) = sinceClear evs ++ [e] := by
  unfold sinceClear
  have hkept : (evs ++ [e]).reverse.takeWhile (· ≠ .clear) =
      e :: evs.reverse.takeWhile (· ≠ .clear) := by
    rw [List.reverse_append]
    exact List.takeWhile_cons_of_pos (decide_eq_true he)
  rw [hkept, List.reverse_cons]

theorem asked_snoc (evs : List NoteEv) (he : e ≠ .clear) :
    asked (evs ++ [e]) = asked evs ++ (markOfEv e).toList := by
  unfold asked
  rw [sinceClear_snoc evs he, List.filterMap_append]
  cases e <;> rfl

theorem buffersNoted_noted (evs : List NoteEv) :
    buffersNoted (evs ++ [.noted]) = buffersNoted evs + 1 := by
  unfold buffersNoted
  rw [sinceClear_snoc evs NoteEv.noConfusion, List.count_append]
  rfl

theorem buffersNoted_snoc (evs : List NoteEv) (he : e ≠ .clear) (hn : e ≠ .noted) :
    buffersNoted (evs ++ [e]) = buffersNoted evs := by
  unfold buffersNoted
  rw [sinceClear_snoc evs he, List.count_append, List.count_eq_zero.mpr fun hmem =>
    hn (List.mem_singleton.mp hmem).symm, Nat.add_zero]

/-- The table is as full as what was asked for makes it, and its index is that of the buffer. -/
theorem noteRun_counts {s₀ : Noted} (h₀ : NoteInv s₀) (hmarks : s₀.marks = [])
    (hnib : s₀.nib = 0) (hmaps : AllMap s₀ evs) (hrun : noteRun s₀ evs = some s) :
    (s.marks.length = if (asked evs).length ≤ marksMax then (asked evs).length else marksMax) ∧
      s.nib = UInt32.ofNat (buffersNoted evs) := by
  induction evs using List.reverseRecOn generalizing s with
  | nil =>
    obtain rfl := Option.some.inj hrun
    rw [hmarks, hnib]
    exact ⟨rfl, rfl⟩
  | append_singleton evs e ih =>
    obtain ⟨hpre, hpost⟩ := hmaps.append
    obtain ⟨u, hu, hkeeps, -⟩ := noteRun_spec evs h₀ hpre
    obtain ⟨hlen, hib⟩ := ih hpre hu
    rw [noteRun_append hu, noteRun_cons] at hrun
    obtain ⟨v, hstep, hv⟩ := Option.bind_eq_some_iff.mp hrun
    obtain rfl := Option.some.inj hv
    cases e with
    | clear =>
      obtain rfl := Option.some.inj hstep
      unfold asked buffersNoted
      rw [sinceClear_clear]
      exact ⟨rfl, rfl⟩
    | noted =>
      obtain rfl := Option.some.inj hstep
      have he : NoteEv.noted ≠ .clear := NoteEv.noConfusion
      rw [asked_snoc evs he, buffersNoted_noted, UInt32.ofNat_add, ← hib]
      exact ⟨(List.append_nil (asked evs)).symm ▸ hlen, rfl⟩
    | stored phys b =>
      obtain rfl := Option.some.inj hstep
      have he : NoteEv.stored phys b ≠ .clear := NoteEv.noConfusion
      rw [asked_snoc evs he, buffersNoted_snoc evs he NoteEv.noConfusion]
      exact ⟨(List.append_nil (asked evs)).symm ▸ hlen, hib⟩
    | mark m map =>
      have he : NoteEv.mark m map ≠ .clear := NoteEv.noConfusion
      have hlength : (asked evs ++ (markOfEv (.mark m map)).toList).length =
          (asked evs).length + 1 := List.length_append
      rw [asked_snoc evs he, buffersNoted_snoc evs he NoteEv.noConfusion, hlength]
      by_cases hroom : u.marks.length = marksMax
      · obtain rfl : u = v := Option.some.inj ((if_pos hroom).symm.trans hstep)
        refine ⟨?_, hib⟩
        rw [hroom] at hlen ⊢
        split at hlen <;> split <;> omega
      · obtain ⟨s', x, hstep', -, hnib', -, hmakes⟩ :=
          markAddIn_room hkeeps.inv (hpost u hu).1 hroom
        obtain rfl := Option.some.inj (hstep.symm.trans hstep')
        rw [hmakes.marks, hnib', List.length_append, List.length_singleton]
        refine ⟨?_, hib⟩
        split at hlen <;> split <;> omega

/-! ## The report -/

/-- The dword that a line has of a mark. -/
def Noted.read (s : Noted) (x : OopsMark) : Option UInt32 :=
  if x.cpu = 0 then none else readWord s.dram s.pageTable x.cpu

theorem line_eq (h : NoteInv s) {x : OopsMark} (hx : x ∈ s.marks) :
    s.line x = some (markText x (s.read x)) := by
  unfold Noted.line Noted.read
  by_cases hcpu : x.cpu = 0
  · rw [if_pos hcpu, if_pos hcpu]
  · have hptr := h.ptrs x hx hcpu
    have hfor : cpuForVa s.tracked.shim x.va 4 ≠ 0 := hptr ▸ hcpu
    obtain ⟨phys, hphys, -⟩ := pointer_leads h.reach hfor
    rw [hptr] at hphys
    have hread : readWord s.dram s.pageTable x.cpu = some (wordAt s.dram phys) :=
      LeadsTo.readWord_eq hphys s.dram
    rw [if_neg hcpu, if_neg hcpu, hread, Option.map_some]

/-- A text that fits is logged as it is. -/
theorem winsysVlog_fits {text : List UInt8} (log : SystemLog) (hlen : text.length < 255) :
    winsysVlog (formatted text) log = logLine log text := by
  have hformatted : formatted text = some ⟨text, by omega⟩ := dif_pos _
  unfold winsysVlog logLine
  rw [hformatted]
  unfold vsnprintf
  dsimp only
  rw [List.take_of_length_le (by omega)]

/-- The report is made, of the lines of the marks. -/
theorem reportMarks_eq (h : NoteInv s) (log : SystemLog) :
    oopsWinsysReportMarks s log =
      some ((s.marks.map fun x => markText x (s.read x)).foldl logLine log) := by
  have hall : ∀ xs : List OopsMark, (∀ x ∈ xs, x ∈ s.marks) → ∀ log,
      xs.foldlM (fun log x => (s.line x).map fun text => winsysVlog (formatted text) log) log =
        some ((xs.map fun x => markText x (s.read x)).foldl logLine log) := by
    intro xs
    induction xs with
    | nil => exact fun _ _ => rfl
    | cons x xs ih =>
      intro hxs log
      have hlen := (markText_fits x (s.read x)).1
      rw [List.foldlM_cons, line_eq h (hxs x List.mem_cons_self), Option.map_some,
        winsysVlog_fits log hlen]
      exact ih (fun y hy => hxs y (List.mem_cons_of_mem x hy)) _
  exact hall s.marks (fun x hx => hx) log

/-- It reads back as its marks. -/
theorem readReport_eq (log : SystemLog) (xs : List OopsMark) :
    readReport (loggedSince log ((xs.map fun x => markText x (s.read x)).foldl logLine log)) =
      some (xs.map fun x => markEntry x (s.read x)) := by
  obtain ⟨added, hlines, htexts⟩ := foldl_logLine (xs.map fun x => markText x (s.read x)) log
  unfold loggedSince readReport
  rw [hlines, List.drop_left, htexts]
  clear hlines htexts
  induction xs with
  | nil => rfl
  | cons x xs ih =>
    have hline : upToNul (markText x (s.read x)) = markText x (s.read x) :=
      upToNul_eq (markText_fits x (s.read x)).2
    rw [List.map_cons, List.map_cons, List.mapM_cons, hline, readMark_markText, ih]
    rfl

/-- A mark's entry, after what has happened since. -/
theorem entryTells_of_makes {u : Noted} {x : OopsMark} (hmakes : Makes s' u m map x)
    (hinv : NoteInv u) (hpost : AllMap u post) (hrun : noteRun u post = some s)
    (hclear : .clear ∉ post) : s.marks[s'.marks.length]? = some x ∧
      (s'.ptr m map = 0 → (markEntry x (s.read x)).values = none) ∧
      (s'.ptr m map ≠ 0 → ∃ v phys, (markEntry x (s.read x)).values = some v ∧
        EntryTells u s m post v phys) := by
  obtain ⟨v, hv, hkeeps, hdram, hprefix⟩ := noteRun_spec post hinv hpost
  obtain rfl := Option.some.inj (hrun.symm.trans hv)
  refine ⟨?_, fun hp => ?_, fun hp => ?_⟩
  · obtain ⟨more, hmore⟩ := hprefix hclear
    rw [← hmore, hmakes.marks, List.append_assoc, List.getElem?_append_right (Nat.le_refl _),
      Nat.sub_self]
    rfl
  · have hcpu : x.cpu = 0 := hmakes.cpu.trans hp
    unfold markEntry Noted.read
    rw [if_pos hcpu]
    rfl
  · have hcpu : x.cpu ≠ 0 := hmakes.cpu ▸ hp
    obtain ⟨phys, hva, hptr, hbefore, hsampled⟩ := hmakes.before hcpu
    have hread : s.read x = some (wordAt s.dram phys) := by
      unfold Noted.read
      rw [if_neg hcpu]
      exact (hptr.mono hkeeps.pages).readWord_eq s.dram
    have hnow : s.dram = fun a => (lastStored a (storesIn u post)).getD (u.dram a) :=
      funext fun a => hdram ▸ storeAll_apply ..
    refine ⟨⟨x.before.toNat, (wordAt s.dram phys).toNat, x.ref.toNat, x.mask.toNat⟩, phys, ?_,
      hva.mono hkeeps.pages, congrArg UInt32.toNat hbefore, ?_, congrArg UInt32.toNat hmakes.ref,
      congrArg UInt32.toNat hmakes.mask, fun hsample => congrArg UInt32.toNat (hsampled hsample)⟩
    · unfold markEntry
      rw [hread]
      rfl
    · rw [← hnow]

/-- **The report can be believed.** Whatever the GPU stores while marks are made and after, no
    pointer leads astray, and the report read back from the log tells of each mark of the
    submission, the first 48, what was at its address and what is there now. -/
theorem report_tells {t : Tracked} (h : Reach trackedStep WholeMaps .init t) (dram : Int → UInt8)
    (evs : List NoteEv) (hmaps : AllMap ⟨t, dram, [], 0⟩ evs) (log : SystemLog) :
    ∃ s log' entries, noteRun ⟨t, dram, [], 0⟩ evs = some s ∧
      oopsWinsysReportMarks s log = some log' ∧
      readReport (loggedSince log log') = some entries ∧
      ReportTells ⟨t, dram, [], 0⟩ s evs entries := by
  have h₀ : NoteInv ⟨t, dram, [], 0⟩ := ⟨h, List.forall_mem_nil _⟩
  obtain ⟨s, hrun, hkeeps, -⟩ := noteRun_spec evs h₀ hmaps
  refine ⟨s, _, _, hrun, reportMarks_eq hkeeps.inv log, readReport_eq log s.marks, ?_, ?_⟩
  · rw [List.length_map]
    exact (noteRun_counts h₀ rfl rfl hmaps hrun).1
  · rintro pre m map post rfl hclear hroom
    obtain ⟨hpre, hpost⟩ := hmaps.append
    obtain ⟨u₀, hu₀, hkeeps₀, -⟩ := noteRun_spec pre h₀ hpre
    obtain ⟨hlen, hib⟩ := noteRun_counts h₀ rfl rfl hpre hu₀
    rw [if_pos (Nat.le_of_lt hroom)] at hlen
    obtain ⟨hmap, hrest⟩ := hpost u₀ hu₀
    obtain ⟨u, x, hstep, htracked, -, -, hmakes⟩ :=
      markAddIn_room hkeeps₀.inv hmap (hlen ▸ Nat.ne_of_lt hroom)
    obtain ⟨u', hstep', hkeeps', -⟩ := noteStep_spec hkeeps₀.inv hmap
    obtain rfl : u = u' := Option.some.inj (hstep.symm.trans hstep')
    have hrun' : noteRun u post = some s := by
      rw [noteRun_append hu₀, noteRun_cons, hstep'] at hrun
      exact hrun
    obtain ⟨hentry, hnone, hsome⟩ :=
      entryTells_of_makes hmakes hkeeps'.inv (hrest u hstep') hrun' hclear
    refine ⟨markEntry x (s.read x), u₀, u, ?_, hmakes.kind, ?_, ?_, ?_, hu₀, hstep, hnone, hsome⟩
    · rw [List.getElem?_map, ← hlen, hentry]
      rfl
    · show x.ib.toNat = _
      rw [hmakes.ib, hib, UInt32.toNat_toUInt8, UInt32.toNat_ofNat']
      omega
    · show x.pos.toNat = _
      rw [hmakes.pos, UInt32.toNat_toUInt16]
    · exact congrArg UInt64.toNat hmakes.va

/-- A sample and a release in a page; the GPU stores a byte of the sample, and then two results
    are polled. -/
def pageEvents : List NoteEv :=
  [.clear, .mark ⟨.E, 0x10, 0x400000010, 0x38, 0xffffffff⟩ none,
    .mark ⟨.R, 0x30, 0x400000020, 7, 0xffffffff⟩ none, .noted, .stored 0x10 1,
    .mark ⟨.P, 0, 0x400000020, 7, 0xffffffff⟩ none, .mark ⟨.P, 0x18, 0x500000000, 1, 1⟩ none]

theorem report_tells_page : ∃ s log' entries,
    noteRun ⟨mappedPage, fun _ => 0, [], 0⟩ pageEvents = some s ∧
      oopsWinsysReportMarks s .init = some log' ∧
      readReport (loggedSince .init log') = some entries ∧
      ReportTells ⟨mappedPage, fun _ => 0, [], 0⟩ s pageEvents entries := by
  have hmaps : ∀ (s : Noted) (m : MarkArg), (NoteEv.mark m none).Maps s := by
    intro s m i v hcall
    unfold cpuCall at hcall
    obtain ⟨j, -, hj⟩ := Option.map_eq_some_iff.mp hcall
    exact nomatch (Prod.mk.inj hj).2
  refine report_tells mappedPage_reach (fun _ => 0) pageEvents ?_ .init
  exact ⟨trivial, fun _ _ => ⟨hmaps _ _, fun _ _ => ⟨hmaps _ _, fun _ _ => ⟨trivial, fun _ _ =>
    ⟨trivial, fun _ _ => ⟨hmaps _ _, fun _ _ => ⟨hmaps _ _, fun _ _ => trivial⟩⟩⟩⟩⟩⟩⟩

end OopsMesa.Submit
