/-
  The ioctl gate and the dispatch behind it.

  Every command of libdrm's comes through `oops_winsys_ioctl`: a descriptor that is neither the
  device's nor open is refused, and a request is looked up among the codes of the commands. What
  the handlers do to the winsys is a parameter, and so are the codes, of amdgpu_drm.h and drm.h,
  which are all different.

  Over any requests (`ioctl_session`) the winsys is changed by the commands that are served and
  came through the gate, in order, and by nothing else; each request is answered; those let
  through while the log is at debug have a line with their number; and a descriptor is named when
  it is not the one named last. The first name compared with is -1, so that a refused -1 has no
  line until another was refused.
-/
import OopsMesa.Winsys.Device

namespace OopsMesa.Winsys

/-! ## The code -/

/-- The commands that `ioctl_dispatch` has a case for. -/
inductive Command where
  | info | gemCreate | gemMmap | gemVa | cs | waitCs | ctx | boList | gemWaitIdle | gemOp
  | waitFences | fenceToHandle | vm | sched | gemMetadata | gemUserptr
  | userq | userqSignal | userqWait
  | getClient | getCap | version | gemClose | gemFlink | gemOpen
  | syncobjCreate | syncobjDestroy | syncobjWait | syncobjReset | syncobjSignal
  deriving DecidableEq

/-- The commands with something behind them. -/
def Command.served : Command → Bool
  | .waitFences | .fenceToHandle | .vm | .sched | .gemMetadata | .gemUserptr
  | .userq | .userqSignal | .userqWait | .gemFlink | .gemOpen
  | .syncobjWait | .syncobjReset | .syncobjSignal => false
  | _ => true

/-- The codes of the commands. `GEM_VA` has a second one, which libdrm uses. No two are the same:
    they are the cases of one `switch`. -/
structure Codes where
  code : Command → UInt64
  gemVaReadWrite : UInt64
  inj : ∀ c c', code c = code c' → c = c'
  apart : ∀ c, code c ≠ gemVaReadWrite

/-- The cases, in the order of the source. -/
def commands : List Command :=
  [.info, .gemCreate, .gemMmap, .gemVa, .cs, .waitCs, .ctx, .boList, .gemWaitIdle, .gemOp,
    .waitFences, .fenceToHandle, .vm, .sched, .gemMetadata, .gemUserptr, .userq, .userqSignal,
    .userqWait, .getClient, .getCap, .version, .gemClose, .gemFlink, .gemOpen, .syncobjCreate,
    .syncobjDestroy, .syncobjWait, .syncobjReset, .syncobjSignal]

/-- The case of a request. -/
def Codes.find (k : Codes) (request : UInt64) : Option Command :=
  if request = k.gemVaReadWrite then some .gemVa
  else commands.find? fun c => k.code c = request

/-- `-ENOSYS` and `-EINVAL`, of the platform's errno.h. -/
def notImplemented : Int32 := -78

def invalidRequest : Int32 := -22

inductive IoctlLine where
  /-- The descriptor is not open and is not the device's. -/
  | notOpen (fd held : Int32)
  | openDuplicate (fd held : Int32)
  | unimplemented (c : Command)
  | unknown (request : UInt64)
  /-- A call let through, numbered. -/
  | answered (seq : UInt32) (request : UInt64) (r : Int32)
  deriving DecidableEq

section Session

variable {σ α : Type}

/-- `s_seq`, `s_complained` and `s_noted`, the winsys, and the log. -/
structure IoctlState (σ : Type) where
  seq : UInt32
  complained : Int32
  noted : Int32
  winsys : σ
  log : List IoctlLine

def IoctlState.init (winsys : σ) : IoctlState σ := ⟨0, -1, -1, winsys, []⟩

def IoctlState.say (s : IoctlState σ) (line : IoctlLine) : IoctlState σ :=
  { s with log := s.log ++ [line] }

/-- `oops_winsys_log_debug`; `debug` is whether the channel's level is `OOPS_LOG_DEBUG` or more. -/
def IoctlState.sayDebug (s : IoctlState σ) (debug : Bool) (line : IoctlLine) : IoctlState σ :=
  if debug then s.say line else s

/-- A request: what is passed, what `s_winsys_fd` holds, whether `fcntl(fd, F_GETFD)` knows the
    descriptor, and whether the log is at debug. -/
structure IoctlCall (α : Type) where
  fd : Int32
  request : UInt64
  arg : α
  held : Int32
  getfd : Bool
  debug : Bool

variable (k : Codes) (serve : Command → α → σ → Int32 × σ)

/-- `ioctl_dispatch` -/
def ioctlDispatch (s : IoctlState σ) (request : UInt64) (arg : α) : Int32 × IoctlState σ :=
  match k.find request with
  | none => (invalidRequest, s.say (.unknown request))
  | some c =>
    if c.served then
      let r := serve c arg s.winsys
      (r.1, { s with winsys := r.2 })
    else (notImplemented, s.say (.unimplemented c))

/-- `oops_winsys_ioctl` -/
def oopsWinsysIoctl (s : IoctlState σ) (c : IoctlCall α) : Int32 × IoctlState σ :=
  let n := s.seq + 1
  let s := { s with seq := n }
  match ioctlGate c.held c.fd c.getfd with
  | .refused r =>
    (r, if c.fd ≠ s.complained then
      { s with complained := c.fd, log := s.log ++ [.notOpen c.fd c.held] } else s)
  | gate =>
    let s := if gate = .duplicate ∧ c.fd ≠ s.noted then
      { s with noted := c.fd, log := s.log ++ [.openDuplicate c.fd c.held] } else s
    let r := ioctlDispatch k serve s c.request c.arg
    (r.1, r.2.sayDebug c.debug (.answered n c.request r.1))

/-- Requests one after the other, and what they return. -/
def IoctlState.run (s : IoctlState σ) : List (IoctlCall α) → List Int32 × IoctlState σ
  | [] => ([], s)
  | c :: calls =>
    let r := oopsWinsysIoctl k serve s c
    let rest := IoctlState.run r.2 calls
    (r.1 :: rest.1, rest.2)

/-! ## What a session is -/

/-- The request comes through the gate. -/
def IoctlCall.Admitted (c : IoctlCall α) : Prop := c.fd = c.held ∨ c.getfd = true

instance (c : IoctlCall α) : Decidable c.Admitted := inferInstanceAs (Decidable (_ ∨ _))

/-- The command that a request is for, if it is served and comes through the gate. -/
def IoctlCall.command (c : IoctlCall α) : Option (Command × α) :=
  if c.Admitted then
    match k.find c.request with
    | some cmd => if cmd.served then some (cmd, c.arg) else none
    | none => none
  else none

/-- What a request returns, and the winsys after it. -/
def IoctlCall.effect (winsys : σ) (c : IoctlCall α) : Int32 × σ :=
  if c.Admitted then
    match k.find c.request with
    | none => (invalidRequest, winsys)
    | some cmd => if cmd.served then serve cmd c.arg winsys else (notImplemented, winsys)
  else (badDescriptor, winsys)

/-- What requests return, from a winsys on. -/
def effects (winsys : σ) : List (IoctlCall α) → List Int32
  | [] => []
  | c :: calls => (c.effect k serve winsys).1 :: effects (c.effect k serve winsys).2 calls

/-- The entries that differ from the one before, `last` before the first. -/
def changes (last : Int32) : List Int32 → List Int32
  | [] => []
  | fd :: fds => if fd ≠ last then fd :: changes fd fds else changes last fds

/-- The requests that came through with the log at debug, each with its number; the first has the
    number after `n`. -/
def numbered (n : UInt32) : List (IoctlCall α × Int32) → List (UInt32 × UInt64 × Int32)
  | [] => []
  | (c, r) :: calls =>
    if c.Admitted ∧ c.debug = true then (n + 1, c.request, r) :: numbered (n + 1) calls
    else numbered (n + 1) calls

/-- What the lines of each kind say. -/
def IoctlLine.refusedFd : IoctlLine → Option Int32
  | .notOpen fd _ => some fd
  | _ => none

def IoctlLine.notedFd : IoctlLine → Option Int32
  | .openDuplicate fd _ => some fd
  | _ => none

def IoctlLine.answer : IoctlLine → Option (UInt32 × UInt64 × Int32)
  | .answered n request r => some (n, request, r)
  | _ => none

def IoctlLine.missing : IoctlLine → Option (Command ⊕ UInt64)
  | .unimplemented c => some (.inl c)
  | .unknown request => some (.inr request)
  | _ => none

/-- The command without anything behind it, or the unknown code, that a request has. -/
def IoctlCall.lacking (c : IoctlCall α) : Option (Command ⊕ UInt64) :=
  if c.Admitted then
    match k.find c.request with
    | none => some (.inr c.request)
    | some cmd => if cmd.served then none else some (.inl cmd)
  else none

/-- Requests from a state on: `r` is what they return and the state at the end. -/
structure IoctlSession (s : IoctlState σ) (calls : List (IoctlCall α))
    (r : List Int32 × IoctlState σ) : Prop where
  rets : r.1 = effects k serve s.winsys calls
  winsys : r.2.winsys =
    (calls.filterMap (IoctlCall.command k)).foldl (fun w c => (serve c.1 c.2 w).2) s.winsys
  answers : r.2.log.filterMap IoctlLine.answer =
    s.log.filterMap IoctlLine.answer ++ numbered s.seq (calls.zip r.1)
  refused : r.2.log.filterMap IoctlLine.refusedFd = s.log.filterMap IoctlLine.refusedFd ++
    changes s.complained ((calls.filter fun c => ¬ c.Admitted).map (·.fd))
  noted : r.2.log.filterMap IoctlLine.notedFd = s.log.filterMap IoctlLine.notedFd ++
    changes s.noted ((calls.filter fun c => c.Admitted ∧ c.fd ≠ c.held).map (·.fd))
  missing : r.2.log.filterMap IoctlLine.missing =
    s.log.filterMap IoctlLine.missing ++ calls.filterMap (IoctlCall.lacking k)

/-! ## The codes -/

variable {k} {serve} {c : Command} {request : UInt64}

theorem find_readWrite : k.find k.gemVaReadWrite = some .gemVa := if_pos rfl

theorem mem_commands (c : Command) : c ∈ commands := by
  cases c <;> decide

/-- The code of a command leads to it. -/
theorem find_code (k : Codes) (c : Command) : k.find (k.code c) = some c := by
  unfold Codes.find
  rw [if_neg (k.apart c)]
  cases hfound : commands.find? fun c' => k.code c' = k.code c with
  | none =>
    have hnone := List.find?_eq_none.mp hfound c (mem_commands c)
    exact absurd (decide_eq_true rfl) hnone
  | some c' =>
    have heq := List.find?_some hfound
    rw [k.inj c' c (of_decide_eq_true heq)]

/-- Only a command's codes lead to it. -/
theorem of_find (h : k.find request = some c) :
    request = k.code c ∨ request = k.gemVaReadWrite ∧ c = .gemVa := by
  unfold Codes.find at h
  split at h
  · next hrw => exact .inr ⟨hrw, (Option.some.inj h).symm⟩
  · have heq := List.find?_some h
    exact .inl (of_decide_eq_true heq).symm

/-! ## One request -/

variable {s : IoctlState σ} {call : IoctlCall α} {calls : List (IoctlCall α)}
  {r : Int32 × IoctlState σ}

/-- What `ioctl_dispatch` does, for a request that came through. -/
theorem ioctlDispatch_spec (k : Codes) (serve : Command → α → σ → Int32 × σ)
    (hadm : call.Admitted) (s : IoctlState σ) :
    let r := ioctlDispatch k serve s call.request call.arg
    (r.1, r.2.winsys) = call.effect k serve s.winsys ∧ r.2.seq = s.seq ∧
      r.2.complained = s.complained ∧ r.2.noted = s.noted ∧
      ∃ lines : List IoctlLine, r.2.log = s.log ++ lines ∧
        lines.filterMap IoctlLine.missing = (call.lacking k).toList ∧
        lines.filterMap IoctlLine.answer = [] ∧ lines.filterMap IoctlLine.refusedFd = [] ∧
        lines.filterMap IoctlLine.notedFd = [] := by
  unfold ioctlDispatch IoctlCall.effect IoctlCall.lacking
  rw [if_pos hadm, if_pos hadm]
  cases hfind : k.find call.request with
  | none => exact ⟨rfl, rfl, rfl, rfl, [.unknown call.request], rfl, rfl, rfl, rfl, rfl⟩
  | some c =>
    dsimp only
    cases c.served with
    | true => exact ⟨rfl, rfl, rfl, rfl, [], (List.append_nil _).symm, rfl, rfl, rfl, rfl⟩
    | false => exact ⟨rfl, rfl, rfl, rfl, [.unimplemented c], rfl, rfl, rfl, rfl, rfl⟩

/-- What one request does. -/
structure IoctlStep (k : Codes) (serve : Command → α → σ → Int32 × σ) (s : IoctlState σ)
    (call : IoctlCall α) (r : Int32 × IoctlState σ) : Prop where
  effect : (r.1, r.2.winsys) = call.effect k serve s.winsys
  seq : r.2.seq = s.seq + 1
  complained : r.2.complained = if call.Admitted then s.complained else call.fd
  noted : r.2.noted = if call.Admitted ∧ call.fd ≠ call.held then call.fd else s.noted
  log : ∃ lines : List IoctlLine, r.2.log = s.log ++ lines ∧
    lines.filterMap IoctlLine.missing = (call.lacking k).toList ∧
    lines.filterMap IoctlLine.answer =
      (if call.Admitted ∧ call.debug = true then [(s.seq + 1, call.request, r.1)] else []) ∧
    lines.filterMap IoctlLine.refusedFd =
      (if call.Admitted then [] else if call.fd ≠ s.complained then [call.fd] else []) ∧
    lines.filterMap IoctlLine.notedFd =
      (if call.Admitted ∧ call.fd ≠ call.held ∧ call.fd ≠ s.noted then [call.fd] else [])

/-- What is said at debug is one line, or none. -/
theorem sayDebug_eq (s : IoctlState σ) (debug : Bool) (line : IoctlLine) :
    s.sayDebug debug line = { s with log := s.log ++ if debug = true then [line] else [] } := by
  cases debug with
  | true => rfl
  | false =>
    show s = { s with log := s.log ++ [] }
    rw [List.append_nil]

/-- A request that came through, from where it is dispatched. -/
theorem IoctlStep.dispatched {s' : IoctlState σ} {named : List IoctlLine} (hadm : call.Admitted)
    (hseq : s'.seq = s.seq + 1) (hcomplained : s'.complained = s.complained)
    (hnoted : s'.noted = if call.fd ≠ call.held then call.fd else s.noted)
    (hwinsys : s'.winsys = s.winsys) (hlog : s'.log = s.log ++ named)
    (hmissing : named.filterMap IoctlLine.missing = [])
    (hanswer : named.filterMap IoctlLine.answer = [])
    (hrefused : named.filterMap IoctlLine.refusedFd = [])
    (hnotes : named.filterMap IoctlLine.notedFd =
      if call.fd ≠ call.held ∧ call.fd ≠ s.noted then [call.fd] else []) :
    let r := ioctlDispatch k serve s' call.request call.arg
    IoctlStep k serve s call
      (r.1, r.2.sayDebug call.debug (.answered (s.seq + 1) call.request r.1)) := by
  intro r
  obtain ⟨heff, hs, hc, hn, lines, hl, hm, ha, hr, ht⟩ :=
    ioctlDispatch_spec k serve hadm s'
  rw [sayDebug_eq]
  have hquiet : ∀ {β : Type} (f : IoctlLine → Option β), (∀ n q r, f (.answered n q r) = none) →
      (if call.debug = true then [IoctlLine.answered (s.seq + 1) call.request r.1]
        else []).filterMap f = [] := by
    intro β f hf
    split
    · rw [List.filterMap_cons, hf]
      rfl
    · rfl
  refine ⟨hwinsys ▸ heff, hs.trans hseq, ?_, ?_,
    named ++ lines ++ if call.debug = true then [.answered (s.seq + 1) call.request r.1] else [],
    ?_, ?_, ?_, ?_, ?_⟩
  · rw [if_pos hadm]
    exact hc.trans hcomplained
  · refine (hn.trans hnoted).trans ?_
    simp only [hadm, true_and]
  · show _ ++ _ = _
    rw [hl, hlog, List.append_assoc, List.append_assoc, List.append_assoc]
  · rw [List.filterMap_append, List.filterMap_append, hmissing, hm, List.nil_append,
      hquiet _ fun _ _ _ => rfl]
    exact List.append_nil _
  · rw [List.filterMap_append, List.filterMap_append, hanswer, ha]
    simp only [hadm, true_and]
    split
    · rfl
    · rfl
  · rw [List.filterMap_append, List.filterMap_append, hrefused, hr, if_pos hadm,
      hquiet _ fun _ _ _ => rfl]
    rfl
  · rw [List.filterMap_append, List.filterMap_append, hnotes, ht, List.append_nil,
      hquiet _ fun _ _ _ => rfl]
    simp only [hadm, true_and]
    exact List.append_nil _

theorem oopsWinsysIoctl_step (k : Codes) (serve : Command → α → σ → Int32 × σ)
    (s : IoctlState σ) (call : IoctlCall α) :
    IoctlStep k serve s call (oopsWinsysIoctl k serve s call) := by
  unfold oopsWinsysIoctl
  by_cases hheld : call.fd = call.held
  · have hgate : ioctlGate call.held call.fd call.getfd = .device := if_neg (not_not_intro hheld)
    rw [hgate]
    dsimp only
    rw [if_neg (fun h => nomatch h.1)]
    refine IoctlStep.dispatched (.inl hheld) rfl rfl ?_ rfl (List.append_nil _).symm rfl rfl rfl ?_
    · rw [if_neg (not_not_intro hheld)]
    · rw [if_neg fun h => h.1 hheld]
      rfl
  cases hgetfd : call.getfd with
  | true =>
    have hadm : call.Admitted := .inr hgetfd
    have hgate : ioctlGate call.held call.fd true = .duplicate := if_pos hheld
    rw [hgate]
    dsimp only
    by_cases hsame : call.fd ≠ s.noted
    · rw [if_pos ⟨rfl, hsame⟩]
      have hlines : s.log ++ [.openDuplicate call.fd call.held] =
          s.log ++ [IoctlLine.openDuplicate call.fd call.held] := rfl
      refine IoctlStep.dispatched hadm rfl rfl ?_ rfl hlines rfl rfl rfl ?_
      · rw [if_pos hheld]
      · rw [if_pos ⟨hheld, hsame⟩]
        rfl
    · rw [if_neg fun h => hsame h.2]
      refine IoctlStep.dispatched hadm rfl rfl ?_ rfl (List.append_nil _).symm rfl rfl rfl ?_
      · rw [if_pos hheld]
        exact (Decidable.not_not.mp hsame).symm
      · rw [if_neg fun h => hsame h.2]
        rfl
  | false =>
    have hadm : ¬ call.Admitted := by
      rintro (h | h)
      · exact hheld h
      · rw [hgetfd] at h
        cases h
    have hgate : ioctlGate call.held call.fd false = .refused badDescriptor := if_pos hheld
    have heff : call.effect k serve s.winsys = (badDescriptor, s.winsys) := if_neg hadm
    have hlack : call.lacking k = none := if_neg hadm
    rw [hgate]
    dsimp only
    by_cases hsame : call.fd ≠ s.complained
    · rw [if_pos hsame]
      refine ⟨heff.symm, rfl, ?_, ?_, [.notOpen call.fd call.held], rfl, ?_, ?_, ?_, ?_⟩
      · rw [if_neg hadm]
      · rw [if_neg fun h => hadm h.1]
      · rw [hlack]
        rfl
      · rw [if_neg fun h => hadm h.1]
        rfl
      · rw [if_neg hadm, if_pos hsame]
        rfl
      · rw [if_neg fun h => hadm h.1]
        rfl
    · rw [if_neg hsame]
      refine ⟨heff.symm, rfl, ?_, ?_, [], (List.append_nil _).symm, ?_, ?_, ?_, ?_⟩
      · rw [if_neg hadm]
        exact (Decidable.not_not.mp hsame).symm
      · rw [if_neg fun h => hadm h.1]
      · rw [hlack]
        rfl
      · rw [if_neg fun h => hadm h.1]
        rfl
      · rw [if_neg hadm, if_neg hsame]
        rfl
      · rw [if_neg fun h => hadm h.1]
        rfl

/-! ## Any requests -/

theorem effect_command (call : IoctlCall α) (w : σ) :
    (call.effect k serve w).2 =
      (call.command k).toList.foldl (fun w c => (serve c.1 c.2 w).2) w := by
  unfold IoctlCall.effect IoctlCall.command
  split
  · cases k.find call.request with
    | none => rfl
    | some c =>
      dsimp only
      split
      · rfl
      · rfl
  · rfl

theorem filterMap_cons_toList {β γ : Type} (f : β → Option γ) (b : β) (l : List β) :
    (b :: l).filterMap f = (f b).toList ++ l.filterMap f := by
  rw [List.filterMap_cons]
  cases f b with
  | none => rfl
  | some x => rfl

/-- A request, and then a session. -/
theorem IoctlStep.cons {r : Int32 × IoctlState σ} {r' : List Int32 × IoctlState σ}
    (h : IoctlStep k serve s call r) (h' : IoctlSession k serve r.2 calls r') :
    IoctlSession k serve s (call :: calls) (r.1 :: r'.1, r'.2) := by
  obtain ⟨lines, hlog, hmissing, hanswer, hrefused, hnoted⟩ := h.log
  have hret : r.1 = (call.effect k serve s.winsys).1 := congrArg Prod.fst h.effect
  have hwinsys : r.2.winsys = (call.effect k serve s.winsys).2 := congrArg Prod.snd h.effect
  refine ⟨?_, ?_, ?_, ?_, ?_, ?_⟩
  · rw [effects, h'.rets, hret, hwinsys]
  · rw [h'.winsys, filterMap_cons_toList, List.foldl_append, hwinsys, effect_command]
  · rw [h'.answers, hlog, List.filterMap_append, hanswer, h.seq, List.append_assoc]
    congr 1
    rw [List.zip_cons_cons, numbered]
    split
    · rfl
    · rfl
  · rw [h'.refused, hlog, List.filterMap_append, hrefused, h.complained, List.append_assoc]
    congr 1
    rw [List.filter_cons]
    by_cases hadm : call.Admitted
    · rw [if_pos hadm, if_pos hadm, if_neg (by rw [decide_eq_true_iff]; exact not_not_intro hadm)]
      rfl
    · rw [if_neg hadm, if_neg hadm, if_pos (decide_eq_true hadm), List.map_cons, changes]
      split
      · rfl
      · next hsame => rw [Decidable.not_not.mp hsame, List.nil_append]
  · rw [h'.noted, hlog, List.filterMap_append, hnoted, h.noted, List.append_assoc]
    congr 1
    rw [List.filter_cons]
    by_cases hadm : call.Admitted ∧ call.fd ≠ call.held
    · rw [if_pos hadm, if_pos (decide_eq_true hadm), List.map_cons, changes]
      by_cases hsame : call.fd ≠ s.noted
      · rw [if_pos ⟨hadm.1, hadm.2, hsame⟩, if_pos hsame]
        rfl
      · rw [if_neg fun h => hsame h.2.2, if_neg hsame, Decidable.not_not.mp hsame,
          List.nil_append]
    · rw [if_neg hadm, if_neg fun h => hadm ⟨h.1, h.2.1⟩,
        if_neg (by rw [decide_eq_true_iff]; exact hadm), List.nil_append]
  · rw [h'.missing, hlog, List.filterMap_append, hmissing, filterMap_cons_toList,
      List.append_assoc]

theorem session_run (k : Codes) (serve : Command → α → σ → Int32 × σ) (s : IoctlState σ)
    (calls : List (IoctlCall α)) : IoctlSession k serve s calls (s.run k serve calls) := by
  induction calls generalizing s with
  | nil =>
    have hnil : ∀ {β : Type} (l : List β), l = l ++ [] := fun l => (List.append_nil l).symm
    exact ⟨rfl, rfl, hnil _, hnil _, hnil _, hnil _⟩
  | cons call calls ih => exact (oopsWinsysIoctl_step k serve s call).cons (ih _)

/-- **What the gate lets through is served**, each command under its codes and under no other, and
    the log tells the rest, the answers where it is at debug. -/
theorem ioctl_session (k : Codes) (serve : Command → α → σ → Int32 × σ) (winsys : σ)
    (calls : List (IoctlCall α)) :
    IoctlSession k serve (.init winsys) calls ((IoctlState.init winsys).run k serve calls) ∧
      ∀ c request, k.find request = some c ↔
        request = k.code c ∨ request = k.gemVaReadWrite ∧ c = .gemVa := by
  refine ⟨session_run k serve _ calls, fun c request => ⟨of_find, ?_⟩⟩
  rintro (rfl | ⟨rfl, rfl⟩)
  · exact find_code k c
  · exact find_readWrite

end Session

/-! ## A session -/

/-- The numbers of the commands in drm.h and, from 0x40 on, amdgpu_drm.h. -/
def Command.number : Command → UInt64
  | .gemCreate => 0x40 | .gemMmap => 0x41 | .ctx => 0x42 | .boList => 0x43 | .cs => 0x44
  | .info => 0x45 | .gemMetadata => 0x46 | .gemWaitIdle => 0x47 | .gemVa => 0x48
  | .waitCs => 0x49 | .gemOp => 0x50 | .gemUserptr => 0x51 | .waitFences => 0x52 | .vm => 0x53
  | .fenceToHandle => 0x54 | .sched => 0x55 | .userq => 0x56 | .userqSignal => 0x57
  | .userqWait => 0x58 | .version => 0x00 | .getClient => 0x05 | .gemClose => 0x09
  | .gemFlink => 0x0a | .gemOpen => 0x0b | .getCap => 0x0c | .syncobjCreate => 0xbf
  | .syncobjDestroy => 0xc0 | .syncobjWait => 0xc3 | .syncobjReset => 0xc4
  | .syncobjSignal => 0xc5

theorem number_find (c : Command) :
    (commands.find? fun c' => c'.number = c.number) = some c := by
  cases c <;> rfl

/-- Codes with the group 'd' over the number, and no more than the direction of `_IOWR` to tell the
    second one of `GEM_VA`. The structure's size is left out. -/
def numberCodes : Codes where
  code c := 0x6400 + c.number
  gemVaReadWrite := 0xc0000000 + (0x6400 + Command.number .gemVa)
  inj c c' h := by
    have hnumber : c.number = c'.number := (UInt64.add_right_inj _).mp h
    have hfind := number_find c
    rw [hnumber, number_find c'] at hfind
    exact (Option.some.inj hfind).symm
  apart c := by
    cases c <;> decide

/-- A winsys that records what is served. -/
private def recordServed (c : Command) (_ : Unit) (w : List Command) : Int32 × List Command :=
  (0, w ++ [c])

/-- One request by the device's own descriptor with the log at debug, one by a duplicate, one by a
    descriptor that is not open, one for a command that is missing, and one for none. -/
private def fiveRequests : List (IoctlCall Unit) :=
  [⟨winsysFd, 0x6440, (), winsysFd, true, true⟩, ⟨5, 0xc0006448, (), winsysFd, true, false⟩,
    ⟨9, 0x6440, (), winsysFd, false, true⟩, ⟨winsysFd, 0x6453, (), winsysFd, true, false⟩,
    ⟨winsysFd, 0x1234, (), winsysFd, true, true⟩]

theorem ioctl_session_five :
    let r := (IoctlState.init []).run numberCodes recordServed fiveRequests
    r.1 = [0, 0, badDescriptor, notImplemented, invalidRequest] ∧
      r.2.winsys = [.gemCreate, .gemVa] ∧
      r.2.log.filterMap IoctlLine.answer = [(1, 0x6440, 0), (5, 0x1234, invalidRequest)] ∧
      r.2.log.filterMap IoctlLine.refusedFd = [9] ∧
      r.2.log.filterMap IoctlLine.notedFd = [5] ∧
      r.2.log.filterMap IoctlLine.missing = [.inl .vm, .inr 0x1234] := by
  intro r
  have h : IoctlSession numberCodes recordServed (.init []) fiveRequests r :=
    (ioctl_session numberCodes recordServed [] fiveRequests).1
  have hrets : r.1 = [0, 0, badDescriptor, notImplemented, invalidRequest] :=
    h.rets.trans (by decide)
  refine ⟨hrets, h.winsys.trans (by decide), ?_, h.refused.trans (by decide),
    h.noted.trans (by decide), h.missing.trans (by decide)⟩
  rw [h.answers, hrets]
  decide

end OopsMesa.Winsys
