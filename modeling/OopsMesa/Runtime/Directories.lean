/-
  Directories, read entry by entry.

  A `DIR` is a block with the platform's directory in it, the entry read last and the number of
  those read. The platform hands directories out and counts on getting them back; it may fail to
  read at any time. What is meant is a list and a place in it. Any number of streams, read in any
  order, are such lists (`streams_list`): each tells the entries of its directory, each once and in
  order, and what one has told stays until it is read again. The platform's open directories are
  those of the streams that are open, one each.

  The width of `ino_t` and the size of `struct dirent` are parameters.
-/
import OopsMesa.Lib.Custody
import OopsMesa.Runtime.Captured
import OopsMesa.Runtime.WorkingDirectory

namespace OopsMesa.Runtime

open OopsMesa.Lib

variable {w : Nat}

/-! ## The code -/

/-- `oops_dirent_t` -/
structure SdkEntry where
  name : List UInt8
  isDirectory : Bool
  deriving DecidableEq

/-- `struct dirent` -/
structure Dirent (w : Nat) where
  dFileno : BitVec w
  dReclen : UInt16
  dType : UInt8
  dNamlen : UInt16
  dName : List UInt8
  deriving DecidableEq

/-- `struct _dirdesc` -/
structure Dirdesc (w : Nat) where
  dir : Nat
  ent : Dirent w
  next : BitVec w

inductive DirErrno where
  | path (e : PathErrno)
  | EBADF
  | EIO
  deriving DecidableEq

/-- The blocks, by address; the directories that the platform has open, with what is left to read;
    and `errno`. -/
structure Streams (w : Nat) where
  live : Nat → Option (Dirdesc w)
  dirs : Nat → Option (List SdkEntry)
  errno : Option DirErrno

def Streams.init : Streams w := ⟨fun _ => none, fun _ => none, none⟩

/-- What there is at `a`, and of the directory. -/
def Streams.set (s : Streams w) (a : Nat) (d : Option (Dirdesc w)) (dir : Nat)
    (left : Option (List SdkEntry)) : Streams w :=
  { s with live := Function.update s.live a d, dirs := Function.update s.dirs dir left }

/-- `sizeof d_name` -/
def nameSize : Nat := 256

/-- `DT_DIR`, `DT_REG` -/
def dtDir : UInt8 := 4
def dtReg : UInt8 := 8

/-- A block of zeros. -/
def Dirent.zero : Dirent w := ⟨0, 0, 0, 0, List.replicate nameSize 0⟩

/-- `strnlen(e.name, sizeof d_name - 1)` -/
def SdkEntry.nameLen (e : SdkEntry) : Nat := (upToNul (e.name.take (nameSize - 1))).length

/-- What `readdir` writes. -/
def direntOf (reclen : UInt16) (fileno : BitVec w) (e : SdkEntry) : Dirent w where
  dFileno := fileno
  dReclen := reclen
  dType := if e.isDirectory then dtDir else dtReg
  dNamlen := UInt16.ofNat e.nameLen
  dName := e.name.take e.nameLen ++ List.replicate (nameSize - e.nameLen) 0

/-- A call, with the platform's answers: the block of `calloc` (null is zero), and the entries of
    the directory opened; whether a read fails; and what `oops_fs_closedir` answers. -/
inductive DirCall where
  | opendir (name : Option CString) (block : Nat) (entries : List SdkEntry)
  | readdir (dirp : Nat) (fails : Bool)
  | closedir (dirp : Nat) (rc : Int)

inductive DirAnswer (w : Nat) where
  | stream (dirp : Nat)
  | entry (e : Option (Dirent w))
  | code (rc : Int)

section Calls

variable (resolvePath : CString → CString) (files : Files) (cwd : Cwd) (reclen : UInt16)

/-- `opendir` -/
def Streams.opendir (s : Streams w) (name : Option CString) (block : Nat)
    (entries : List SdkEntry) : DirAnswer w × Streams w :=
  match Runtime.opendir resolvePath files cwd name (block ≠ 0) with
  | .error e => (.stream 0, { s with errno := some (.path e) })
  | .ok dir => (.stream block, s.set block (some ⟨dir, .zero, 0⟩) dir (some entries))

/-- `readdir`; nothing where there is no such stream, or the platform has not its directory. -/
def Streams.readdir (s : Streams w) (dirp : Nat) (fails : Bool) :
    Option (DirAnswer w × Streams w) :=
  if dirp = 0 then some (.entry none, { s with errno := some .EBADF })
  else do
    let d ← s.live dirp
    let left ← s.dirs d.dir
    if fails then some (.entry none, { s with errno := some DirErrno.EIO })
    else
      match left with
      | [] => some (.entry none, s)
      | e :: left =>
        let next := d.next + 1
        let ent := direntOf reclen next e
        some (.entry (some ent), s.set dirp (some ⟨d.dir, ent, next⟩) d.dir (some left))

/-- `closedir` -/
def Streams.closedir (s : Streams w) (dirp : Nat) (rc : Int) : Option (DirAnswer w × Streams w) :=
  if dirp = 0 then some (.code (-1), { s with errno := some .EBADF })
  else do
    let d ← s.live dirp
    let _ ← s.dirs d.dir
    some (.code rc, s.set dirp none d.dir none)

def Streams.call (s : Streams w) : DirCall → Option (DirAnswer w × Streams w)
  | .opendir name block entries =>
    some (s.opendir resolvePath files cwd name block entries)
  | .readdir dirp fails => s.readdir reclen dirp fails
  | .closedir dirp rc => s.closedir dirp rc

end Calls

/-- Calls one after the other, each with the files and the working directory at the time. -/
def Streams.run (resolvePath : CString → CString) (reclen : UInt16) (s : Streams w) :
    List (DirCall × Files × Cwd) → Option (List (DirAnswer w) × Streams w)
  | [] => some ([], s)
  | (c, files, cwd) :: calls => do
    let (answer, s) ← s.call resolvePath files cwd reclen c
    let (answers, s) ← Streams.run resolvePath reclen s calls
    some (answer :: answers, s)

/-! ## What is meant -/

/-- A list, and how much of it was read. -/
structure Listing where
  entries : List SdkEntry
  pos : Nat

/-- What is to be seen of an entry: its position, its name and its kind. -/
structure Shown where
  pos : Nat
  name : List UInt8
  isDirectory : Bool
  deriving DecidableEq

/-- The open listings, and the last error. -/
structure Listings where
  open_ : Nat → Option Listing
  errno : Option DirErrno

def Listings.init : Listings := ⟨fun _ => none, none⟩

def Listings.set (s : Listings) (a : Nat) (li : Option Listing) : Listings :=
  { s with open_ := Function.update s.open_ a li }

inductive ShownAnswer where
  | stream (dirp : Nat)
  | entry (e : Option Shown)
  | code (rc : Int)

/-- The entry at a place; names are of at most 255 bytes, and positions of `w` bits. -/
def Listing.shown (w : Nat) (l : Listing) : Option Shown :=
  l.entries[l.pos]?.map fun e =>
    ⟨(l.pos + 1) % 2 ^ w, (upToNul e.name).take (nameSize - 1), e.isDirectory⟩

/-- A call on lists. `opened` is what a name leads to. -/
def Listings.call (w : Nat) (opened : Option CString → Bool → Except PathErrno Nat)
    (s : Listings) : DirCall → ShownAnswer × Listings
  | .opendir name block entries =>
    match opened name (block ≠ 0) with
    | .error e => (.stream 0, { s with errno := some (.path e) })
    | .ok _ => (.stream block, s.set block (some ⟨entries, 0⟩))
  | .readdir dirp fails =>
    match s.open_ dirp with
    | none => (.entry none, { s with errno := some .EBADF })
    | some l =>
      if fails then (.entry none, { s with errno := some DirErrno.EIO })
      else
        match l.shown w with
        | none => (.entry none, s)
        | some e => (.entry (some e), s.set dirp (some ⟨l.entries, l.pos + 1⟩))
  | .closedir dirp rc =>
    match s.open_ dirp with
    | none => (.code (-1), { s with errno := some .EBADF })
    | some _ => (.code rc, s.set dirp none)

def Listings.run (w : Nat) (resolvePath : CString → CString) (s : Listings) :
    List (DirCall × Files × Cwd) → List ShownAnswer × Listings
  | [] => ([], s)
  | (c, files, cwd) :: calls =>
    let r := s.call w (Runtime.opendir resolvePath files cwd) c
    let rest := Listings.run w resolvePath r.2 calls
    (r.1 :: rest.1, rest.2)

/-- What is to be seen of a `struct dirent`: its name ends at the first NUL. -/
def Dirent.shown (d : Dirent w) : Shown := ⟨d.dFileno.toNat, upToNul d.dName, d.dType = dtDir⟩

def DirAnswer.shown : DirAnswer w → ShownAnswer
  | .stream dirp => .stream dirp
  | .entry e => .entry (e.map Dirent.shown)
  | .code rc => .code rc

/-- A call that may be made: of a stream that is open, or of none; and the allocator and the
    platform hand out what is not in use. -/
def DirCall.Allowed (resolvePath : CString → CString) (files : Files) (cwd : Cwd)
    (s : Streams w) : DirCall → Prop
  | .opendir name block _ => s.live block = none ∧
    ∀ dir, Runtime.opendir resolvePath files cwd name (block ≠ 0) = .ok dir → s.dirs dir = none
  | .readdir dirp _ => dirp = 0 ∨ (s.live dirp).isSome
  | .closedir dirp _ => dirp = 0 ∨ (s.live dirp).isSome

/-- Every call of a run may be made. -/
def AllAllowed (resolvePath : CString → CString) (reclen : UInt16) (s : Streams w) :
    List (DirCall × Files × Cwd) → Prop
  | [] => True
  | (c, files, cwd) :: calls => c.Allowed resolvePath files cwd s ∧
    ∀ r, s.call resolvePath files cwd reclen c = some r →
      AllAllowed resolvePath reclen r.2 calls

/-- The directory of a stream. -/
def Streams.holds (s : Streams w) (a : Nat) : Option (Nat × List SdkEntry) :=
  (s.live a).bind fun d => (s.dirs d.dir).map (d.dir, ·)

/-- What is left to read is what the list has from its place on, and the entry told last is the one
    before. -/
structure Told (dirs : Nat → Option (List SdkEntry)) (d : Dirdesc w) (li : Listing) : Prop where
  left : dirs d.dir = some (li.entries.drop li.pos)
  next : d.next = BitVec.ofNat w li.pos
  last : ∀ k, li.pos = k + 1 → Listing.shown w ⟨li.entries, k⟩ = some d.ent.shown

/-- The streams are lists. -/
structure Lists (s : Streams w) (l : Listings) : Prop where
  errno : s.errno = l.errno
  null : s.live 0 = none
  /-- Each open directory of the platform is that of one stream. -/
  custody : Custody s.dirs s.holds
  streams : ∀ a, (s.live a).isSome = (l.open_ a).isSome
  told : ∀ a d li, s.live a = some d → l.open_ a = some li → Told s.dirs d li

/-! ## An entry -/

variable {resolvePath : CString → CString} {files : Files} {cwd : Cwd} {reclen : UInt16}
  {s : Streams w} {l : Listings} {c : DirCall} {e : SdkEntry} {d : Dirdesc w} {a : Nat}

theorem upToNul_zeros {text : List UInt8} (h : 0 ∉ text) (n : Nat) :
    upToNul (text ++ List.replicate (n + 1) 0) = text := by
  have hall : ∀ c ∈ text, decide (c ≠ 0) = true := by
    intro c hc
    refine decide_eq_true ?_
    rintro rfl
    exact h hc
  unfold upToNul
  rw [List.takeWhile_append_of_pos hall, List.replicate_succ,
    List.takeWhile_cons_of_neg (by decide), List.append_nil]

theorem not_mem_upToNul (text : List UInt8) : 0 ∉ upToNul text := by
  intro hmem
  have hne := List.mem_takeWhile_imp hmem
  exact absurd hne (by decide)

/-- What is cut off a name first, its NUL or what is too long, makes no difference. -/
theorem upToNul_take (name : List UInt8) (n : Nat) :
    upToNul (name.take n) = (upToNul name).take n := by
  induction name generalizing n with
  | nil => rw [List.take_nil, show upToNul [] = [] from rfl, List.take_nil]
  | cons c name ih =>
    cases n with
    | zero => rfl
    | succ n =>
      unfold upToNul at ih ⊢
      rw [List.take_succ_cons, List.takeWhile_cons, List.takeWhile_cons]
      split
      · rw [List.take_succ_cons, ih]
      · rfl

/-- The name fits with its NUL, and nothing else is in it. -/
theorem direntOf_name (reclen : UInt16) (fileno : BitVec w) (e : SdkEntry) :
    (direntOf reclen fileno e).dName.length = nameSize ∧
      upToNul (direntOf reclen fileno e).dName = (upToNul e.name).take (nameSize - 1) := by
  have hprefix : upToNul (e.name.take (nameSize - 1)) <+: e.name :=
    (List.takeWhile_prefix _).trans (List.take_prefix _ _)
  have hlen : e.nameLen ≤ nameSize - 1 :=
    Nat.le_trans (List.takeWhile_prefix _).length_le (List.length_take_le _ _)
  have hname : e.name.take e.nameLen = upToNul (e.name.take (nameSize - 1)) :=
    (List.prefix_iff_eq_take.mp hprefix).symm
  have hle : e.nameLen ≤ e.name.length := hprefix.length_le
  have hpad : nameSize - e.nameLen = nameSize - 1 - e.nameLen + 1 := by
    unfold nameSize at hlen ⊢
    omega
  refine ⟨?_, ?_⟩
  · show (e.name.take e.nameLen ++ List.replicate (nameSize - e.nameLen) 0).length = nameSize
    rw [List.length_append, List.length_take_of_le hle, List.length_replicate]
    unfold nameSize at hlen ⊢
    omega
  · show upToNul (e.name.take e.nameLen ++ List.replicate (nameSize - e.nameLen) 0) = _
    rw [hpad, hname, upToNul_zeros (not_mem_upToNul _), upToNul_take]

theorem direntOf_shown (reclen : UInt16) (k : Nat) (e : SdkEntry) :
    (direntOf reclen (BitVec.ofNat w k) e).shown =
      ⟨k % 2 ^ w, (upToNul e.name).take (nameSize - 1), e.isDirectory⟩ := by
  have htype : decide ((direntOf reclen (BitVec.ofNat w k) e).dType = dtDir) = e.isDirectory := by
    show decide ((if e.isDirectory then dtDir else dtReg) = dtDir) = e.isDirectory
    cases e.isDirectory <;> rfl
  unfold Dirent.shown
  rw [htype, (direntOf_name reclen _ e).2]
  show Shown.mk (BitVec.ofNat w k).toNat _ _ = _
  rw [BitVec.toNat_ofNat]

/-! ## The streams -/

theorem opendir_null (name : Option CString) (dir : Nat) :
    Runtime.opendir resolvePath files cwd name false ≠ .ok dir := by
  unfold Runtime.opendir
  cases name with
  | none => exact fun h => nomatch h
  | some name => exact fun h => nomatch h

/-- A stream's directory is open. -/
theorem Lists.holds (h : Lists s l) (ha : s.live a = some d) : ∃ li, l.open_ a = some li ∧
    Told s.dirs d li ∧ s.holds a = some (d.dir, li.entries.drop li.pos) := by
  have hopen := h.streams a
  rw [ha, Option.isSome_some] at hopen
  obtain ⟨li, hli⟩ := Option.isSome_iff_exists.mp hopen.symm
  have htold := h.told a d li ha hli
  refine ⟨li, hli, htold, ?_⟩
  unfold Streams.holds
  rw [ha, Option.bind_some, htold.left]
  rfl

/-- And no other stream's. -/
theorem Lists.dir_ne (h : Lists s l) {b : Nat} {d' : Dirdesc w} (ha : s.live a = some d)
    (hb : s.live b = some d') (hne : b ≠ a) : d'.dir ≠ d.dir := by
  obtain ⟨_, -, -, hold⟩ := h.holds ha
  obtain ⟨_, -, -, hold'⟩ := h.holds hb
  intro heq
  rw [heq] at hold'
  exact hne (h.custody.unique b a _ _ _ hold' hold)

theorem Lists.init : Lists (w := w) .init .init where
  errno := rfl
  null := rfl
  custody := .empty (fun _ => rfl) fun _ => rfl
  streams _ := rfl
  told _ _ _ h := nomatch h

/-- The null pointer is no stream. -/
theorem Lists.open_null (h : Lists s l) : l.open_ 0 = none := by
  have hopen := h.streams 0
  cases hl : l.open_ 0 with
  | none => rfl
  | some li =>
    rw [h.null, hl] at hopen
    exact nomatch hopen

/-- An error leaves the streams as they are. -/
theorem Lists.fail (h : Lists s l) (err : DirErrno) :
    Lists { s with errno := some err } { l with errno := some err } :=
  ⟨rfl, h.null, h.custody, h.streams, h.told⟩

/-- What changes at one stream and its directory leaves the others as they are. -/
theorem Lists.set (h : Lists s l) {dir : Nat} {d : Option (Dirdesc w)}
    {left : Option (List SdkEntry)} {li : Option Listing} {own : Option (Nat × List SdkEntry)}
    (hothers : ∀ b d', b ≠ a → s.live b = some d' → d'.dir ≠ dir) (hnull : a = 0 → d = none)
    (hsome : d.isSome = li.isSome)
    (htold : ∀ d' li', d = some d' → li = some li' → Told (Function.update s.dirs dir left) d' li')
    (hown : (d.bind fun d' => (Function.update s.dirs dir left d'.dir).map (d'.dir, ·)) = own)
    (hcustody : Custody (Function.update s.dirs dir left) (Function.update s.holds a own)) :
    Lists (s.set a d dir left) (l.set a li) where
  errno := h.errno
  null := by
    show Function.update s.live a d 0 = none
    by_cases ha : 0 = a
    · rw [← ha, Function.update_self]
      exact hnull ha.symm
    · rw [Function.update_of_ne ha]
      exact h.null
  custody := by
    have hholds : (s.set a d dir left).holds = Function.update s.holds a own := by
      funext b
      show ((Function.update s.live a d b).bind fun d' =>
        (Function.update s.dirs dir left d'.dir).map (d'.dir, ·)) = _
      by_cases hb : b = a
      · rw [hb, Function.update_self, Function.update_self]
        exact hown
      · rw [Function.update_of_ne hb, Function.update_of_ne hb]
        unfold Streams.holds
        cases hd : s.live b with
        | none => rfl
        | some d' => rw [Option.bind_some, Option.bind_some,
            Function.update_of_ne (hothers b d' hb hd)]
    rw [hholds]
    exact hcustody
  streams b := by
    show (Function.update s.live a d b).isSome = (Function.update l.open_ a li b).isSome
    by_cases hb : b = a
    · rw [hb, Function.update_self, Function.update_self]
      exact hsome
    · rw [Function.update_of_ne hb, Function.update_of_ne hb]
      exact h.streams b
  told b d' li' hd hli := by
    change Function.update s.live a d b = some d' at hd
    change Function.update l.open_ a li b = some li' at hli
    by_cases hb : b = a
    · rw [hb, Function.update_self] at hd hli
      exact htold d' li' hd hli
    · rw [Function.update_of_ne hb] at hd hli
      have hold := h.told b d' li' hd hli
      exact ⟨(Function.update_of_ne (hothers b d' hb hd) ..).trans hold.left, hold.next, hold.last⟩

/-- A new stream. -/
theorem Lists.opened (h : Lists s l) {block dir : Nat} (hblock : block ≠ 0)
    (hlive : s.live block = none) (hdir : s.dirs dir = none) (entries : List SdkEntry) :
    Lists (s.set block (some ⟨dir, .zero, 0⟩) dir (some entries))
      (l.set block (some ⟨entries, 0⟩)) := by
  have hnone : s.holds block = none := by
    unfold Streams.holds
    rw [hlive]
    rfl
  refine h.set (fun b d' hb hd => ?_) (fun h0 => absurd h0 hblock) rfl ?_ ?_
    (h.custody.take (n := entries) hdir hnone)
  · obtain ⟨_, -, htold, -⟩ := h.holds hd
    rintro rfl
    exact nomatch htold.left.symm.trans hdir
  · rintro d' li' hd hli
    obtain rfl := Option.some.inj hd
    obtain rfl := Option.some.inj hli
    exact ⟨Function.update_self .., rfl, fun k hk => nomatch hk⟩
  · rw [Option.bind_some, Function.update_self]
    rfl

/-- The next entry of a stream. -/
theorem Lists.next (h : Lists s l) (reclen : UInt16) {li : Listing} {left : List SdkEntry}
    (ha : s.live a = some d) (hli : l.open_ a = some li) (hleft : s.dirs d.dir = some (e :: left)) :
    let ent := direntOf reclen (d.next + 1) e
    li.shown w = some ent.shown ∧
      Lists (s.set a (some ⟨d.dir, ent, d.next + 1⟩) d.dir (some left))
        (l.set a (some ⟨li.entries, li.pos + 1⟩)) := by
  intro ent
  have hold := h.told a d li ha hli
  have hdrop : li.entries.drop li.pos = e :: left := Option.some.inj (hold.left.symm.trans hleft)
  have hlt : li.pos < li.entries.length := by
    by_contra hge
    rw [List.drop_eq_nil_of_le (by omega)] at hdrop
    exact nomatch hdrop
  rw [List.drop_eq_getElem_cons hlt] at hdrop
  obtain ⟨he, hrest⟩ := List.cons.inj hdrop
  have hpos : d.next + 1 = BitVec.ofNat w (li.pos + 1) := by
    rw [hold.next, BitVec.ofNat_add]
    rfl
  have hent : ent.shown = ⟨(li.pos + 1) % 2 ^ w, (upToNul e.name).take (nameSize - 1),
      e.isDirectory⟩ := by
    show (direntOf reclen (d.next + 1) e).shown = _
    rw [hpos]
    exact direntOf_shown reclen (li.pos + 1) e
  have hshown : li.shown w = some ent.shown := by
    unfold Listing.shown
    rw [List.getElem?_eq_getElem hlt, he, Option.map_some, hent]
  obtain ⟨_, -, -, hown⟩ := h.holds ha
  refine ⟨hshown, h.set (fun b d' hb hd => h.dir_ne ha hd hb) ?_ rfl ?_ ?_
    (h.custody.change (m := left) hown)⟩
  · rintro rfl
    exact nomatch ha.symm.trans h.null
  · rintro d' li' hd hli'
    obtain rfl := Option.some.inj hd
    obtain rfl := Option.some.inj hli'
    refine ⟨(Function.update_self ..).trans (congrArg some hrest.symm), hpos, fun k hk => ?_⟩
    obtain rfl := Nat.succ.inj hk
    exact hshown
  · rw [Option.bind_some, Function.update_self]
    rfl

/-- A stream closed. -/
theorem Lists.closed (h : Lists s l) (ha : s.live a = some d) :
    Lists (s.set a none d.dir none) (l.set a none) := by
  obtain ⟨_, -, -, hown⟩ := h.holds ha
  exact h.set (fun b d' hb hd => h.dir_ne ha hd hb) (fun _ => rfl) rfl
    (fun _ _ hd => nomatch hd) rfl (h.custody.give hown)

/-- A call on the streams is that call on the lists. -/
theorem call_lists (h : Lists s l) (hc : c.Allowed resolvePath files cwd s) :
    ∃ r, s.call resolvePath files cwd reclen c = some r ∧
      r.1.shown = (l.call w (Runtime.opendir resolvePath files cwd) c).1 ∧
      Lists r.2 (l.call w (Runtime.opendir resolvePath files cwd) c).2 := by
  cases c with
  | opendir name block entries =>
    refine ⟨_, rfl, ?_⟩
    unfold Streams.opendir Listings.call
    dsimp only
    cases hopen : Runtime.opendir resolvePath files cwd name (block ≠ 0) with
    | error err => exact ⟨rfl, h.fail (.path err)⟩
    | ok dir =>
      have hblock : block ≠ 0 := by
        rintro rfl
        exact opendir_null name dir hopen
      exact ⟨rfl, h.opened hblock hc.1 (hc.2 dir hopen) entries⟩
  | readdir dirp fails =>
    show ∃ r, s.readdir reclen dirp fails = some r ∧ _
    unfold Streams.readdir Listings.call
    dsimp only
    by_cases h0 : dirp = 0
    · rw [if_pos h0, h0, h.open_null]
      exact ⟨_, rfl, rfl, h.fail .EBADF⟩
    · obtain ⟨d, hd⟩ := Option.isSome_iff_exists.mp (hc.resolve_left h0)
      obtain ⟨li, hli, htold, -⟩ := h.holds hd
      rw [if_neg h0, hd, hli]
      dsimp only [Option.bind_eq_bind, Option.bind_some]
      rw [htold.left]
      dsimp only [Option.bind_some]
      cases fails with
      | true => exact ⟨_, rfl, rfl, h.fail DirErrno.EIO⟩
      | false =>
        rw [if_neg Bool.false_ne_true, if_neg Bool.false_ne_true]
        cases hleft : li.entries.drop li.pos with
        | nil =>
          have hend : li.shown w = none := by
            have hle := List.drop_eq_nil_iff.mp hleft
            unfold Listing.shown
            rw [List.getElem?_eq_none hle]
            rfl
          rw [hend]
          exact ⟨_, rfl, rfl, h⟩
        | cons e left =>
          obtain ⟨hshown, hnext⟩ := h.next reclen hd hli (htold.left.trans
            (congrArg some hleft))
          rw [hshown]
          exact ⟨_, rfl, rfl, hnext⟩
  | closedir dirp rc =>
    show ∃ r, s.closedir dirp rc = some r ∧ _
    unfold Streams.closedir Listings.call
    dsimp only
    by_cases h0 : dirp = 0
    · rw [if_pos h0, h0, h.open_null]
      exact ⟨_, rfl, rfl, h.fail .EBADF⟩
    · obtain ⟨d, hd⟩ := Option.isSome_iff_exists.mp (hc.resolve_left h0)
      obtain ⟨li, hli, htold, -⟩ := h.holds hd
      rw [if_neg h0, hd, hli]
      dsimp only [Option.bind_eq_bind, Option.bind_some]
      rw [htold.left]
      exact ⟨_, rfl, rfl, h.closed hd⟩

theorem run_lists (calls : List (DirCall × Files × Cwd)) (h : Lists s l)
    (hcalls : AllAllowed resolvePath reclen s calls) :
    ∃ answers s', s.run resolvePath reclen calls = some (answers, s') ∧
      answers.map DirAnswer.shown = (l.run w resolvePath calls).1 ∧
      Lists s' (l.run w resolvePath calls).2 := by
  induction calls generalizing s l with
  | nil => exact ⟨[], s, rfl, rfl, h⟩
  | cons call calls ih =>
    obtain ⟨c, files, cwd⟩ := call
    obtain ⟨r, hr, hanswer, hlists⟩ := call_lists h hcalls.1
    obtain ⟨answers, s', hrun, hanswers, hlists'⟩ := ih hlists (hcalls.2 r hr)
    refine ⟨r.1 :: answers, s', ?_, ?_, hlists'⟩
    · unfold Streams.run
      rw [hr]
      dsimp only [Option.bind_eq_bind, Option.bind_some]
      rw [hrun]
      rfl
    · rw [List.map_cons, hanswer, hanswers]
      rfl

/-- **Directory streams are lists.** After any calls that may be made, every answer is that of a
    list read entry by entry, what each stream told last is still there, and the directories that
    the platform has open are those of the open streams, one each. -/
theorem streams_list (resolvePath : CString → CString) (reclen : UInt16)
    (calls : List (DirCall × Files × Cwd))
    (hcalls : AllAllowed resolvePath reclen (Streams.init (w := w)) calls) :
    ∃ answers s, Streams.run resolvePath reclen (Streams.init (w := w)) calls =
        some (answers, s) ∧
      answers.map DirAnswer.shown = (Listings.run w resolvePath .init calls).1 ∧
      Lists s (Listings.run w resolvePath .init calls).2 :=
  run_lists calls Lists.init hcalls

/-- The only directory there is, which the platform opens as `dir`. -/
def oneDirectory (dir : Nat) : Files :=
  ⟨fun _ => true, fun _ => true, fun _ => 0, fun _ => some dir⟩

/-- Two streams over "a" and "b", read in turn, one of them to its end and past a failure. -/
def twoStreams : List (DirCall × Files × Cwd) :=
  let a : SdkEntry := ⟨[0x61, 0], false⟩
  let b : SdkEntry := ⟨[0x62, 0], true⟩
  [(.opendir (some appRoot) 1 [a, b], oneDirectory 10, .init),
    (.opendir (some appRoot) 2 [b], oneDirectory 11, .init),
    (.readdir 1 false, oneDirectory 0, .init), (.readdir 2 false, oneDirectory 0, .init),
    (.readdir 1 true, oneDirectory 0, .init), (.readdir 1 false, oneDirectory 0, .init),
    (.readdir 1 false, oneDirectory 0, .init), (.closedir 1 0, oneDirectory 0, .init),
    (.closedir 0 0, oneDirectory 0, .init)]

theorem streams_list_two : ∃ answers s,
    Streams.run id 280 (Streams.init (w := 64)) twoStreams = some (answers, s) ∧
      answers.map DirAnswer.shown = (Listings.run 64 id .init twoStreams).1 ∧
      Lists s (Listings.run 64 id .init twoStreams).2 := by
  refine streams_list id 280 twoStreams ⟨⟨rfl, fun _ _ => rfl⟩, ?_⟩
  rintro _ ⟨⟩
  refine ⟨⟨rfl, ?_⟩, ?_⟩
  · rintro dir ⟨⟩
    rfl
  rintro _ ⟨⟩
  refine ⟨.inr rfl, ?_⟩
  rintro _ ⟨⟩
  refine ⟨.inr rfl, ?_⟩
  rintro _ ⟨⟩
  refine ⟨.inr rfl, ?_⟩
  rintro _ ⟨⟩
  refine ⟨.inr rfl, ?_⟩
  rintro _ ⟨⟩
  refine ⟨.inr rfl, ?_⟩
  rintro _ ⟨⟩
  refine ⟨.inr rfl, ?_⟩
  rintro _ ⟨⟩
  exact ⟨.inl rfl, fun _ _ => trivial⟩

end OopsMesa.Runtime
