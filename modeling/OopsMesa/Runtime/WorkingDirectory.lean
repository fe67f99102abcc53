/-
  The working directory, and the calls that look a name up in it.

  `s_cwd` is a string. A relative name is written behind it, with a '/' between them, and the
  platform's `oops_fs_resolve_path` takes the dots out; `chdir` keeps the result, if it is a
  directory. What is meant is a place in a tree: `Place.run` does the same calls on a list of
  names, and a relative name is a walk from there. The strings say the same after any calls
  (`paths_are_walks`), if the platform resolves paths as it says it does and knows no relative
  ones, and no call answers `ENAMETOOLONG`: a path that is too long for `s_cwd` was no directory
  before.

  What the platform's file calls answer is given with each call, and so is what the allocator
  does.
-/
import OopsMesa.Lib.Path
import OopsMesa.Runtime.Stdio

namespace OopsMesa.Runtime

open OopsMesa.Lib

/-! ## The code -/

/-- `PATH_MAX` -/
def pathMax : Nat := 1024

/-- '/' -/
def slash : UInt8 := 0x2f

/-- '.' -/
def period : UInt8 := 0x2e

/-- `errno`, where a call here sets it. -/
inductive PathErrno where
  | ENOENT | ENOTDIR | ENAMETOOLONG | EFAULT | ENOMEM | EINVAL | ERANGE
  deriving DecidableEq

/-- The answers of `oops_fs_exists`, of `oops_fs_open` (whether there is a descriptor),
    `oops_fs_file_size` and `oops_fs_opendir` (null is nothing), during a call. -/
structure Files where
  fsExists : CString → Bool
  fsOpen : CString → Bool
  fsFileSize : CString → Int
  fsOpendir : CString → Option Nat

/-- `s_cwd`, up to its NUL. -/
abbrev Cwd := { s : CString // s.1.length < pathMax }

/-- `"/app0"` -/
def appRoot : CString := ⟨[0x2f, 0x61, 0x70, 0x70, 0x30], by decide⟩

def Cwd.init : Cwd := ⟨appRoot, by decide⟩

/-- `"."` -/
def dotString : CString := ⟨[period], by decide⟩

/-- `"%s/%s"` of two strings. -/
def joined (dir name : CString) : CString :=
  ⟨dir.1 ++ slash :: name.1, by
    rw [List.mem_append, List.mem_cons]
    rintro (h | h | h)
    · exact dir.2 h
    · exact absurd h (by decide)
    · exact name.2 h⟩

/-- `snprintf` of that into `PATH_MAX` bytes, if it is not cut off. -/
def joinPath (dir name : CString) : Option CString :=
  if (joined dir name).1.length < pathMax then some (joined dir name) else none

section Calls

variable (resolvePath : CString → CString) (files : Files) (cwd : Cwd)

/-- `oops_mesa_absolute_path`, into a buffer of `PATH_MAX` bytes, which is what every caller has;
    `resolvePath` is `oops_fs_resolve_path`. -/
def oopsMesaAbsolutePath (path : CString) : CString :=
  if path.1.head? ≠ some slash then
    match joinPath cwd.1 path with
    | none => path
    | some joined => resolvePath joined
  else resolvePath path

/-- `stat_is_directory` -/
def statIsDirectory (path : CString) : Bool :=
  match joinPath path dotString with
  | none => false
  | some dot => files.fsOpen dot

/-- `chdir`. An error is -1 and the `errno`. -/
def chdir (path : Option CString) : Except PathErrno Unit × Cwd :=
  match path with
  | none => (.error .ENOENT, cwd)
  | some path =>
    if path.1 = [] then (.error .ENOENT, cwd)
    else
      let canon := oopsMesaAbsolutePath resolvePath cwd path
      if !files.fsExists canon then (.error .ENOENT, cwd)
      else if !statIsDirectory files canon then (.error .ENOTDIR, cwd)
      else if h : canon.1.length ≥ pathMax then (.error .ENAMETOOLONG, cwd)
      else (.ok (), ⟨canon, Nat.lt_of_not_le h⟩)

/-- `memcpy` to the start of a block; nothing if the block is too short. -/
def copyOver (block text : List UInt8) : Option (List UInt8) :=
  if text.length ≤ block.length then some (text ++ block.drop text.length) else none

/-- `getcwd`: the buffer afterwards. `buf` is what it holds before, if it is not null, and
    `malloc` what a new block of some size holds, if there is one. -/
def getcwd (buf : Option (List UInt8)) (bytes : Nat) (malloc : Nat → Option (List UInt8)) :
    Except PathErrno (Option (List UInt8)) :=
  let text := cwd.1.1 ++ [0]
  let len := text.length
  match buf with
  | none =>
    match malloc (if bytes > len then bytes else len) with
    | none => .error .ENOMEM
    | some out => .ok (copyOver out text)
  | some out =>
    if bytes = 0 then .error .EINVAL
    else if bytes < len then .error .ERANGE
    else .ok (copyOver out text)

/-- `S_IFDIR` -/
def sIfdir : Nat := 0o040000

/-- `S_IFREG` -/
def sIfreg : Nat := 0o100000

/-- The fields of `struct stat` that are not zero. -/
structure Stat where
  stMode : Nat
  stNlink : Nat
  stSize : Int
  deriving DecidableEq

/-- `stat`; `sb` is whether the pointer is not null. -/
def stat (path : Option CString) (sb : Bool) : Except PathErrno Stat :=
  match path with
  | none => .error .EFAULT
  | some path =>
    if !sb then .error .EFAULT
    else
      let path := oopsMesaAbsolutePath resolvePath cwd path
      if !files.fsExists path then .error .ENOENT
      else if statIsDirectory files path then .ok ⟨sIfdir ||| 0o755, 1, 0⟩
      else
        let len := files.fsFileSize path
        .ok ⟨sIfreg ||| 0o644, 1, if len > 0 then len else 0⟩

/-- `opendir`: the platform's directory; `calloc` is whether there is memory. -/
def opendir (name : Option CString) (calloc : Bool) : Except PathErrno Nat :=
  match name with
  | none => .error .EFAULT
  | some name =>
    if !calloc then .error .ENOMEM
    else
      match files.fsOpendir (oopsMesaAbsolutePath resolvePath cwd name) with
      | none => .error .ENOENT
      | some dir => .ok dir

end Calls

inductive PathCall where
  | chdir (path : Option CString)
  | getcwd (buf : Option (List UInt8)) (bytes : Nat) (malloc : Nat → Option (List UInt8))
  | stat (path : Option CString) (sb : Bool)
  | opendir (name : Option CString) (calloc : Bool)

inductive PathAnswer where
  | chdir (r : Except PathErrno Unit)
  | getcwd (r : Except PathErrno (Option (List UInt8)))
  | stat (r : Except PathErrno Stat)
  | opendir (r : Except PathErrno Nat)

def Cwd.call (resolvePath : CString → CString) (files : Files) (cwd : Cwd) :
    PathCall → PathAnswer × Cwd
  | .chdir path =>
    let r := Runtime.chdir resolvePath files cwd path
    (.chdir r.1, r.2)
  | .getcwd buf bytes malloc => (.getcwd (Runtime.getcwd cwd buf bytes malloc), cwd)
  | .stat path sb => (.stat (Runtime.stat resolvePath files cwd path sb), cwd)
  | .opendir name calloc => (.opendir (Runtime.opendir resolvePath files cwd name calloc), cwd)

/-- Calls one after the other, each with what the platform answers meanwhile: their answers, and
    the working directory at the end. -/
def Cwd.run (resolvePath : CString → CString) (cwd : Cwd) :
    List (PathCall × Files) → List PathAnswer × Cwd
  | [] => ([], cwd)
  | (c, files) :: calls =>
    let r := Cwd.call resolvePath files cwd c
    let rest := Cwd.run resolvePath r.2 calls
    (r.1 :: rest.1, rest.2)

/-! ## What is meant -/

/-- A place in the tree of files: the names from the root down to it. -/
abbrev Place := { d : List (List UInt8) // ∀ c ∈ d, IsName slash period c ∧ 0 ∉ c }

def Place.init : Place := ⟨[[0x61, 0x70, 0x70, 0x30]], by decide⟩

def Place.path (d : Place) : CString :=
  ⟨render slash d.1, fun h => by
    rcases mem_render h with h | ⟨c, hc, h⟩
    · exact absurd h (by decide)
    · exact (d.2 c hc).2 h⟩

/-- Where a name leads to from `d`: from the root, if it starts there. -/
def Place.walk (d : Place) (name : CString) : Place :=
  ⟨Lib.walk slash period (if name.1.head? = some slash then [] else d.1) name.1, by
    refine walk_keeps ?_ fun c hc hsub => ⟨hc, fun h => name.2 (hsub 0 h)⟩
    split
    · exact List.forall_mem_nil _
    · exact d.2⟩

/-- The place of a name, if there is room for the name behind the path of `d`. -/
def Place.find (d : Place) (name : CString) : Option Place :=
  if name.1.head? = some slash ∨ (joined d.path name).1.length < pathMax then
    some (d.walk name)
  else none

section Places

variable (files : Files) (d : Place)

def Place.chdir (path : Option CString) : Except PathErrno Unit × Place :=
  match path with
  | none => (.error .ENOENT, d)
  | some path =>
    if path.1 = [] then (.error .ENOENT, d)
    else
      match d.find path with
      | none => (.error .ENOENT, d)
      | some t =>
        if files.fsExists t.path then
          if statIsDirectory files t.path then (.ok (), t) else (.error .ENOTDIR, d)
        else (.error .ENOENT, d)

def Place.getcwd (buf : Option (List UInt8)) (bytes : Nat) (malloc : Nat → Option (List UInt8)) :
    Except PathErrno (Option (List UInt8)) :=
  let text := d.path.1 ++ [0]
  match buf with
  | none =>
    match malloc (if bytes > text.length then bytes else text.length) with
    | none => .error .ENOMEM
    | some out => .ok (some (text ++ out.drop text.length))
  | some out =>
    if bytes = 0 then .error .EINVAL
    else if bytes < text.length then .error .ERANGE
    else .ok (some (text ++ out.drop text.length))

def Place.stat (path : Option CString) (sb : Bool) : Except PathErrno Stat :=
  match path with
  | none => .error .EFAULT
  | some path =>
    if sb then
      match d.find path with
      | none => .error .ENOENT
      | some t =>
        if files.fsExists t.path then
          if statIsDirectory files t.path then .ok ⟨sIfdir ||| 0o755, 1, 0⟩
          else
            let len := files.fsFileSize t.path
            .ok ⟨sIfreg ||| 0o644, 1, if len > 0 then len else 0⟩
        else .error .ENOENT
    else .error .EFAULT

def Place.opendir (name : Option CString) (calloc : Bool) : Except PathErrno Nat :=
  match name with
  | none => .error .EFAULT
  | some name =>
    if calloc then
      match (d.find name).bind fun t => files.fsOpendir t.path with
      | none => .error .ENOENT
      | some dir => .ok dir
    else .error .ENOMEM

end Places

def Place.call (files : Files) (d : Place) : PathCall → PathAnswer × Place
  | .chdir path =>
    let r := Place.chdir files d path
    (.chdir r.1, r.2)
  | .getcwd buf bytes malloc => (.getcwd (Place.getcwd d buf bytes malloc), d)
  | .stat path sb => (.stat (Place.stat files d path sb), d)
  | .opendir name calloc => (.opendir (Place.opendir files d name calloc), d)

def Place.run (d : Place) : List (PathCall × Files) → List PathAnswer × Place
  | [] => ([], d)
  | (c, files) :: calls =>
    let r := Place.call files d c
    let rest := Place.run r.2 calls
    (r.1 :: rest.1, rest.2)

/-! ## The assumptions -/

/-- `oops_fs_resolve_path` takes out of an absolute path what names no place below the one before
    it: empty components, dots, and two dots with the name that they leave. -/
def Resolves (resolvePath : CString → CString) : Prop :=
  ∀ s : CString, s.1.head? = some slash → s.1.length < pathMax →
    (resolvePath s).1 = render slash (walk slash period [] s.1)

/-- The platform has no working directory of its own: under a relative name it knows nothing. -/
def Files.Rooted (files : Files) : Prop :=
  ∀ s : CString, s.1.head? ≠ some slash → files.fsExists s = false ∧ files.fsOpendir s = none

/-- An absolute name is shorter than `PATH_MAX`. -/
def Short (name : Option CString) : Prop :=
  ∀ s, name = some s → s.1.head? = some slash → s.1.length < pathMax

/-- What a caller passes: names that are not too long, and a buffer as long as it says. A block
    from the allocator is as long as was asked. -/
def PathCall.Proper : PathCall → Prop
  | .chdir path => Short path
  | .getcwd buf bytes malloc =>
    (∀ out, buf = some out → bytes ≤ out.length) ∧ ∀ n out, malloc n = some out → out.length = n
  | .stat path _ => Short path
  | .opendir name _ => Short name

/-! ## A name leads where the place says -/

variable {resolvePath : CString → CString} {files : Files} {cwd : Cwd} {d : Place}
  {name : CString}

theorem Place.names (d : Place) : ∀ c ∈ d.1, IsName slash period c := fun c hc => (d.2 c hc).1

theorem length_joined (dir name : CString) :
    (joined dir name).1.length = dir.1.length + 1 + name.1.length := by
  show (dir.1 ++ slash :: name.1).length = _
  rw [List.length_append, List.length_cons]
  omega

theorem joined_head (d : Place) (name : CString) :
    (joined d.path name).1.head? = some slash := by
  have hhead : (render slash d.1).head? = some slash := render_head
  show (render slash d.1 ++ slash :: name.1).head? = _
  rw [List.head?_append, hhead]
  rfl

/-- The name of a place is what `oops_mesa_absolute_path` gives; a name without one is given back
    as it was. -/
theorem absolutePath_find (hres : Resolves resolvePath) (hcwd : cwd.1 = d.path)
    (hshort : Short (some name)) :
    (∃ t, d.find name = some t ∧ oopsMesaAbsolutePath resolvePath cwd name = t.path) ∨
      (d.find name = none ∧ oopsMesaAbsolutePath resolvePath cwd name = name ∧
        name.1.head? ≠ some slash) := by
  unfold oopsMesaAbsolutePath Place.find joinPath
  rw [hcwd]
  by_cases habs : name.1.head? = some slash
  · rw [if_pos (.inl habs), if_neg (not_not_intro habs)]
    refine .inl ⟨_, rfl, Subtype.ext ?_⟩
    rw [hres name habs (hshort name rfl habs)]
    show render _ _ = render _ (walk _ _ (if _ then _ else _) _)
    rw [if_pos habs]
  · rw [if_pos habs]
    by_cases hfits : (joined d.path name).1.length < pathMax
    · rw [if_pos (.inr hfits), if_pos hfits]
      refine .inl ⟨_, rfl, Subtype.ext ?_⟩
      show (resolvePath (joined d.path name)).1 = render _ (walk _ _ (if _ then _ else _) _)
      rw [hres _ (joined_head d name) hfits, if_neg habs]
      exact congrArg (render slash) (walk_render_join d.names)
    · rw [if_neg (fun h => h.elim habs hfits), if_neg hfits]
      exact .inr ⟨rfl, rfl, habs⟩

/-- A directory has room for a dot behind its path. -/
theorem length_of_isDirectory {path : CString} (h : statIsDirectory files path = true) :
    path.1.length + 2 < pathMax := by
  have hlen : (joined path dotString).1.length = path.1.length + 2 := length_joined path dotString
  unfold statIsDirectory joinPath at h
  by_cases hfits : (joined path dotString).1.length < pathMax
  · rwa [hlen] at hfits
  · rw [if_neg hfits] at h
    cases h

/-! ## One call -/

theorem chdir_walks (hres : Resolves resolvePath) (hfiles : files.Rooted) (hcwd : cwd.1 = d.path)
    {path : Option CString} (hshort : Short path) :
    let r := chdir resolvePath files cwd path
    let p := d.chdir files path
    r.1 = p.1 ∧ r.2.1 = p.2.path ∧ r.1 ≠ .error .ENAMETOOLONG := by
  unfold chdir Place.chdir
  cases path with
  | none => exact ⟨rfl, hcwd, nofun⟩
  | some name =>
    show _ ∧ _ ∧ _
    by_cases hempty : name.1 = []
    · simp only [if_pos hempty]
      exact ⟨trivial, hcwd, nofun⟩
    simp only [if_neg hempty]
    rcases absolutePath_find hres hcwd hshort with ⟨t, hfind, habs⟩ | ⟨hfind, habs, hrel⟩
    · simp only [hfind, habs]
      cases files.fsExists t.path with
      | false => exact ⟨rfl, hcwd, nofun⟩
      | true =>
        cases hdir : statIsDirectory files t.path with
        | false => exact ⟨rfl, hcwd, nofun⟩
        | true =>
          have hlen : ¬ t.path.1.length ≥ pathMax := by
            have := length_of_isDirectory hdir
            omega
          simp only [Bool.not_true, Bool.false_eq_true, if_false, if_true, dif_neg hlen]
          exact ⟨trivial, trivial, nofun⟩
    · simp only [hfind, habs, (hfiles name hrel).1]
      exact ⟨rfl, hcwd, nofun⟩

theorem stat_walks (hres : Resolves resolvePath) (hfiles : files.Rooted) (hcwd : cwd.1 = d.path)
    {path : Option CString} (hshort : Short path) (sb : Bool) :
    stat resolvePath files cwd path sb = d.stat files path sb := by
  unfold stat Place.stat
  cases path with
  | none => rfl
  | some name =>
    cases sb with
    | false => rfl
    | true =>
      rcases absolutePath_find hres hcwd hshort with ⟨t, hfind, habs⟩ | ⟨hfind, habs, hrel⟩
      · simp only [hfind, habs]
        cases files.fsExists t.path <;> rfl
      · simp only [hfind, habs, (hfiles name hrel).1]
        rfl

theorem opendir_walks (hres : Resolves resolvePath) (hfiles : files.Rooted)
    (hcwd : cwd.1 = d.path) {name : Option CString} (hshort : Short name) (calloc : Bool) :
    opendir resolvePath files cwd name calloc = d.opendir files name calloc := by
  unfold opendir Place.opendir
  cases name with
  | none => rfl
  | some name =>
    cases calloc with
    | false => rfl
    | true =>
      rcases absolutePath_find hres hcwd hshort with ⟨t, hfind, habs⟩ | ⟨hfind, habs, hrel⟩
      · simp only [hfind, habs, Option.bind_some]
        rfl
      · simp only [hfind, habs, (hfiles name hrel).2, Option.bind_none]
        rfl

theorem copyOver_eq {block text : List UInt8} (h : text.length ≤ block.length) :
    copyOver block text = some (text ++ block.drop text.length) := if_pos h

theorem getcwd_walks (hcwd : cwd.1 = d.path) {buf : Option (List UInt8)} {bytes : Nat}
    {malloc : Nat → Option (List UInt8)} (hproper : (PathCall.getcwd buf bytes malloc).Proper) :
    getcwd cwd buf bytes malloc = d.getcwd buf bytes malloc := by
  obtain ⟨hbuf, hmalloc⟩ := hproper
  unfold getcwd Place.getcwd
  rw [hcwd]
  generalize d.path.1 ++ [0] = text
  cases buf with
  | none =>
    have hle : text.length ≤ if bytes > text.length then bytes else text.length := by
      split <;> omega
    dsimp only
    generalize (if bytes > text.length then bytes else text.length) = n at hle ⊢
    cases hout : malloc n with
    | none => rfl
    | some out =>
      rw [← hmalloc n out hout] at hle
      exact congrArg Except.ok (copyOver_eq hle)
  | some out =>
    have hle := hbuf out rfl
    by_cases hzero : bytes = 0
    · simp only [if_pos hzero]
    by_cases hlt : bytes < text.length
    · simp only [if_neg hzero, if_pos hlt]
    · simp only [if_neg hzero, if_neg hlt]
      rw [copyOver_eq (by omega)]

/-! ## Any calls -/

theorem call_walks (hres : Resolves resolvePath) (hfiles : files.Rooted) (hcwd : cwd.1 = d.path)
    {c : PathCall} (hproper : c.Proper) :
    let r := cwd.call resolvePath files c
    let p := d.call files c
    r.1 = p.1 ∧ r.2.1 = p.2.path ∧ r.1 ≠ .chdir (.error .ENAMETOOLONG) := by
  cases c with
  | chdir path =>
    obtain ⟨hret, hdir, hne⟩ := chdir_walks hres hfiles hcwd hproper
    exact ⟨congrArg PathAnswer.chdir hret, hdir, fun h => hne (PathAnswer.chdir.inj h)⟩
  | getcwd buf bytes malloc =>
    exact ⟨congrArg PathAnswer.getcwd (getcwd_walks hcwd hproper), hcwd, nofun⟩
  | stat path sb =>
    exact ⟨congrArg PathAnswer.stat (stat_walks hres hfiles hcwd hproper sb), hcwd, nofun⟩
  | opendir name calloc =>
    exact ⟨congrArg PathAnswer.opendir (opendir_walks hres hfiles hcwd hproper calloc), hcwd,
      nofun⟩

theorem run_walks (hres : Resolves resolvePath) (calls : List (PathCall × Files))
    (hcalls : ∀ c ∈ calls, c.1.Proper ∧ c.2.Rooted) (hcwd : cwd.1 = d.path) :
    let r := cwd.run resolvePath calls
    let p := d.run calls
    r.1 = p.1 ∧ r.2.1 = p.2.path ∧ PathAnswer.chdir (.error .ENAMETOOLONG) ∉ r.1 := by
  induction calls generalizing cwd d with
  | nil => exact ⟨rfl, hcwd, List.not_mem_nil⟩
  | cons c calls ih =>
    rw [List.forall_mem_cons] at hcalls
    obtain ⟨hproper, hfiles⟩ := hcalls.1
    obtain ⟨hret, hdir, hne⟩ := call_walks hres hfiles hcwd hproper
    obtain ⟨hrets, hend, hnone⟩ := ih hcalls.2 hdir
    refine ⟨List.cons_eq_cons.mpr ⟨hret, hrets⟩, hend, fun h => ?_⟩
    rcases List.mem_cons.mp h with h | h
    · exact hne h.symm
    · exact hnone h

/-- **A name is a walk from the working directory**, after any calls: the strings say what the
    places do, and no `chdir` finds the path too long. -/
theorem paths_are_walks (hres : Resolves resolvePath) (calls : List (PathCall × Files))
    (hcalls : ∀ c ∈ calls, c.1.Proper ∧ c.2.Rooted) :
    let r := Cwd.init.run resolvePath calls
    let p := Place.init.run calls
    r.1 = p.1 ∧ r.2.1 = p.2.path ∧ PathAnswer.chdir (.error .ENAMETOOLONG) ∉ r.1 :=
  run_walks hres calls hcalls rfl

/-- `oops_fs_resolve_path` as it is documented, also on paths that are too long. -/
def lexical (s : CString) : CString := (Place.walk ⟨[], List.forall_mem_nil _⟩ s).path

theorem lexical_resolves : Resolves lexical := by
  intro s habs _
  show render _ (walk _ _ (if _ then _ else _) _) = _
  rw [if_pos habs]

/-- A title whose data is in a directory `d`. -/
def dataFiles : Files where
  fsExists s := s.1 ∈ [[0x2f, 0x61, 0x70, 0x70, 0x30], [0x2f, 0x61, 0x70, 0x70, 0x30, 0x2f, 0x64]]
  fsOpen s := s.1 ∈ [[0x2f, 0x61, 0x70, 0x70, 0x30, 0x2f, 0x2e],
    [0x2f, 0x61, 0x70, 0x70, 0x30, 0x2f, 0x64, 0x2f, 0x2e]]
  fsFileSize _ := 0
  fsOpendir _ := none

theorem dataFiles_rooted : dataFiles.Rooted := by
  refine fun s hrel => ⟨decide_eq_false fun hs => hrel ?_, rfl⟩
  rw [List.mem_cons, List.mem_singleton] at hs
  rcases hs with hs | hs <;> rw [hs] <;> rfl

/-- Into `d` and what is above it. -/
theorem paths_are_walks_data :
    (Cwd.init.run lexical
      [(.chdir (some ⟨[0x64, 0x2f, 0x2f], by decide⟩), dataFiles),
        (.stat (some ⟨[0x2e, 0x2e], by decide⟩) true, dataFiles),
        (.getcwd (some (List.replicate 10 0xff)) 10 fun _ => none, dataFiles)]).1 =
      [.chdir (.ok ()), .stat (.ok ⟨0o040755, 1, 0⟩),
        .getcwd (.ok (some [0x2f, 0x61, 0x70, 0x70, 0x30, 0x2f, 0x64, 0, 0xff, 0xff]))] := by
  refine (paths_are_walks lexical_resolves _ ?_).1
  rw [List.forall_mem_cons, List.forall_mem_cons, List.forall_mem_singleton]
  refine ⟨⟨?_, dataFiles_rooted⟩, ⟨?_, dataFiles_rooted⟩, ⟨⟨?_, nofun⟩, dataFiles_rooted⟩⟩
  · rintro s ⟨⟩ h
    decide
  · rintro s ⟨⟩ h
    decide
  · rintro out ⟨⟩
    decide

end OopsMesa.Runtime
