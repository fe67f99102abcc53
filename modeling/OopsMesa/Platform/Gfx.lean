/-
  The renderer: one display and one context, however often a title asks.

  `oops_gfx_create` keeps its handle in a static, and refuses a second one while that is in use. A
  size other than the display's own is probed first: a display is opened at that size and closed
  again, before there is any GL. Everything after that is `oops_gl_create`, which may fail at every
  step.

  `gfx_one_device` is about any calls with any outcomes. What there is afterwards is exactly what
  the handle has, and the images that a creation forgot before it failed. Never are there two GPU
  devices, nor two displays, at any moment between two acts, so the display that adopts the images
  never meets the probe's.
-/
import Mathlib.Data.List.Induction
import OopsMesa.Platform.Lifetime

namespace OopsMesa.Platform

open OopsMesa.Lib

/-! ## The code -/

/-- A width and a height: `oops_gfx_desc_t`, or the display's own size. -/
@[ext]
structure Extent where
  width : Nat
  height : Nat
  deriving DecidableEq, Repr

/-- What `struct oops_gl` is created with, which it keeps. -/
def Mesa.sized (m : Mesa) (size : Extent) : Mesa :=
  { m with width := size.width, height := size.height }

/-- An `oops_gl` with what Mesa answers about its images. -/
structure Renderer where
  gl : OopsGl
  mesa : Mesa

/-- `struct oops_gfx` -/
structure Gfx where
  gl : Option Renderer
  inUse : Bool

/-- `s_gfx` at the start. -/
def Gfx.zero : Gfx := ⟨none, false⟩

/-- The size that is asked for: no descriptor, and a zero in one, ask for the display's own. -/
def askedSize (own : Extent) (desc : Option Extent) : Extent where
  width := match desc with
    | some desc => if desc.width ≠ 0 then desc.width else own.width
    | none => own.width
  height := match desc with
    | some desc => if desc.height ≠ 0 then desc.height else own.height
    | none => own.height

/-- A probe: the display that `oops_display_open` gives, and whether it is ready. -/
structure Probe where
  opened : Option Nat
  ready : Bool

/-- `scannable` -/
def Probe.scannable (probe : Probe) : Bool := probe.opened.isSome && probe.ready

/-- The probe's display is closed again. -/
def Probe.acts (probe : Probe) : List (Act Object) :=
  match probe.opened with
  | some display => [.made (.display display), .gone (.display display)]
  | none => []

/-- The size that is opened, and what the probe does. -/
def probeSize (own size : Extent) (probe : Probe) : Extent × List (Act Object) :=
  if size.width ≠ own.width ∨ size.height ≠ own.height then
    (if !probe.scannable then own else size, probe.acts)
  else (size, [])

/-- `oops_gfx_create`: whether it returns the handle, the handle, and what it does. -/
def oopsGfxCreate (own : Extent) (s : Gfx) (desc : Option Extent) (probe : Probe) (m : Mesa)
    (b : BringUp) : Bool × Gfx × List (Act Object) :=
  if s.inUse then (false, s, [])
  else
    let opened := probeSize own (askedSize own desc) probe
    let creation := b.oopsGlCreate (m.sized opened.1)
    match creation.handle with
    | none => (false, s, opened.2 ++ creation.objects)
    | some gl => (true, ⟨some ⟨gl, m.sized opened.1⟩, true⟩, opened.2 ++ creation.objects)

/-- `oops_gfx_present`. `gfx` is whether the argument is the handle, and not null. -/
def oopsGfxPresent (s : Gfx) (gfx : Bool) (flip : Int) : Bool × Gfx :=
  match s.gl with
  | some r =>
    if gfx then
      ((oopsGlPresent r.gl.gl flip).1,
        { s with gl := some { r with gl := (r.gl.use r.mesa (.present flip)).1 } })
    else (false, s)
  | none => (false, s)

/-- Mesa asks for the drawable's buffers, while the title draws. -/
def Gfx.getBuffers (s : Gfx) (a : Asking) : Gfx × List (Act Object) :=
  match s.gl with
  | some r =>
    ({ s with gl := some { r with gl := (r.gl.use r.mesa (.getBuffers a)).1 } },
      (r.gl.use r.mesa (.getBuffers a)).2.map .made)
  | none => (s, [])

/-- `oops_gfx_extent` of the handle. -/
def oopsGfxExtent (s : Gfx) : Option Extent :=
  s.gl.map fun r => ⟨r.mesa.width, r.mesa.height⟩

/-- `oops_gfx_destroy` -/
def oopsGfxDestroy (s : Gfx) (gfx : Bool) : Gfx × List (Act Object) :=
  if !gfx then (s, [])
  else (.zero, oopsGlDestroy (s.gl.map Renderer.gl))

/-! ## Runs -/

/-- A call, and what it comes to. -/
inductive GfxCall where
  | create (desc : Option Extent) (probe : Probe) (m : Mesa) (b : BringUp)
  | present (gfx : Bool) (flip : Int)
  | getBuffers (a : Asking)
  | destroy (gfx : Bool)

/-- The images that a creation makes before it fails to make its context current. -/
def BringUp.forgotten (m : Mesa) (b : BringUp) : List Object :=
  if b.calloc ≠ none ∧ ¬ b.opened < 0 ∧ b.screen ≠ none ∧ chooseConfig b.configs ≠ none ∧
      b.drawable ≠ none ∧ b.context ≠ none ∧ b.current = false then
    (askAll m Gl.zero b.asked).2
  else []

/-- The renderer after some calls, what they did, and what was forgotten. -/
structure GfxRun where
  gfx : Gfx
  acts : List (Act Object)
  lost : List Object

def GfxRun.start : GfxRun := ⟨.zero, [], []⟩

def GfxRun.call (own : Extent) (r : GfxRun) : GfxCall → GfxRun
  | .create desc probe m b =>
    let res := oopsGfxCreate own r.gfx desc probe m b
    let m := m.sized (probeSize own (askedSize own desc) probe).1
    ⟨res.2.1, r.acts ++ res.2.2, r.lost ++ if r.gfx.inUse then [] else b.forgotten m⟩
  | .present gfx flip => ⟨(oopsGfxPresent r.gfx gfx flip).2, r.acts, r.lost⟩
  | .getBuffers a => ⟨(r.gfx.getBuffers a).1, r.acts ++ (r.gfx.getBuffers a).2, r.lost⟩
  | .destroy gfx => ⟨(oopsGfxDestroy r.gfx gfx).1, r.acts ++ (oopsGfxDestroy r.gfx gfx).2, r.lost⟩

/-! ## The statement -/

/-- The GPU device: each screen is one of its own. -/
def Object.isScreen : Object → Bool
  | .screen _ => true
  | _ => false

def Object.isDisplay : Object → Bool
  | .display _ => true
  | _ => false

/-- What the renderer has. -/
def Gfx.objects (s : Gfx) : List Object := (s.gl.map fun r => r.gl.objects).getD []

/-- There is one device at most, and all that there is belongs to it. -/
structure OneDevice (own : Extent) (calls : List GfxCall) (r : GfxRun) : Prop where
  /-- No act is of a thing that is not there, and what is left is what the renderer has. -/
  owned : exec r.acts 0 = some ↑(r.gfx.objects ++ r.lost)
  images : ∀ o ∈ r.lost, ∃ image, o = .image image
  inUse : r.gfx.inUse = r.gfx.gl.isSome
  screen : AtMostOne Object.isScreen r.acts 0
  display : AtMostOne Object.isDisplay r.acts 0
  /-- A second handle is refused, and refusing it does nothing. -/
  refused : r.gfx.inUse = true → ∀ desc probe m b,
    oopsGfxCreate own r.gfx desc probe m b = (false, r.gfx, [])
  /-- Another size than the display's own is one that a call asked for, and that a display could
      scan out. -/
  extent : ∀ size, oopsGfxExtent r.gfx = some size → size ≠ own →
    ∃ desc probe m b, GfxCall.create desc probe m b ∈ calls ∧ askedSize own desc = size ∧
      probe.scannable = true

/-! ## A creation -/

variable {m : Mesa} {b : BringUp} {own size : Extent} {live : Multiset Object} {objs : List Object}
  {calls : List GfxCall} {r : GfxRun} {probe : Probe} {state screen drawable context : Nat}

theorem forgotten_of_early (h : b.calloc = none ∨ b.opened < 0) : b.forgotten m = [] := by
  unfold BringUp.forgotten
  refine if_neg ?_
  rintro ⟨hcalloc, hopened, -⟩
  exact h.elim hcalloc hopened

theorem forgotten_of_before (h : ¬ b.MakesCurrent) : b.forgotten m = [] := by
  unfold BringUp.forgotten
  refine if_neg ?_
  rintro ⟨-, -, hscreen, hconfig, hdrawable, hcontext, -⟩
  exact h ⟨hscreen, hconfig, hdrawable, hcontext⟩

theorem MadeCurrent.forgotten (h : MadeCurrent b state screen drawable context) (m : Mesa) :
    b.forgotten m = if b.current = false then (askAll m Gl.zero b.asked).2 else [] := by
  obtain ⟨config, hconfig⟩ := h.config
  unfold BringUp.forgotten
  rw [h.calloc, h.screen, hconfig, h.drawable, h.context]
  simp only [ne_eq, reduceCtorEq, not_false_eq_true, true_and, h.opened]

theorem forgotten_images : ∀ o ∈ b.forgotten m, ∃ image, o = .image image := by
  intro o ho
  unfold BringUp.forgotten at ho
  split at ho
  · exact (adds_askAll m Gl.zero b.asked).kind o ho
  · exact nomatch ho

/-- What a handle has. -/
def handleObjects (handle : Option OopsGl) : List Object := (handle.map OopsGl.objects).getD []

/-- A creation leaves what its handle has, and what it forgot. -/
theorem exec_oopsGlCreate (m : Mesa) (b : BringUp) (live : Multiset Object) :
    exec (b.oopsGlCreate m).objects live =
      some (↑(handleObjects (b.oopsGlCreate m).handle ++ b.forgotten m) + live) := by
  have hunwound (hnone : (b.oopsGlCreate m).handle = none) (hforgotten : b.forgotten m = [])
      (hunwind : unwind (b.oopsGlCreate m).objects [] = some []) :
      exec (b.oopsGlCreate m).objects live =
        some (↑(handleObjects (b.oopsGlCreate m).handle ++ b.forgotten m) + live) := by
    rw [hnone, hforgotten]
    have hexec := exec_of_unwind hunwind live
    rw [Multiset.coe_nil, Multiset.zero_add] at hexec
    exact hexec.trans (congrArg some (Multiset.zero_add live).symm)
  by_cases hearly : b.calloc = none ∨ b.opened < 0
  · obtain ⟨hnone, hunwind, -⟩ := create_early m hearly
    exact hunwound hnone (forgotten_of_early hearly) hunwind
  · obtain ⟨hcalloc, hopened⟩ := not_or.mp hearly
    obtain ⟨state, hcalloc⟩ := Option.ne_none_iff_exists'.mp hcalloc
    by_cases hmakes : b.MakesCurrent
    · obtain ⟨screen, drawable, context, h⟩ := (makesCurrent_iff hcalloc hopened).mp hmakes
      rw [h.forgotten m]
      cases hcurrent : b.current with
      | false =>
        rw [h.fails m hcurrent, if_pos rfl]
        -- the images are made last, and stay
        refine exec_trans (exec_trans (exec_bringActs _ _ _ _ _ _) (exec_made _ _)) ?_
        rw [← Multiset.add_assoc, Multiset.add_comm (Multiset.ofList _), Multiset.add_assoc]
        exact exec_gone [Object.context context, .drawable drawable, .screen screen,
          .state state] _
      | true =>
        obtain ⟨handle, hhandle, hexec⟩ := h.exec m hcurrent
        rw [hhandle, hexec, if_neg nofun, List.append_nil]
        rfl
    · obtain ⟨hnone, hunwind, -⟩ := create_before m hcalloc hopened hmakes
      exact hunwound hnone (forgotten_of_before hmakes) hunwind

/-! ## Screens and displays -/

variable {p : Object → Bool}

theorem countP_made (objs : List Object) :
    (objs.map Act.made).countP (Act.makes p) = objs.countP p := by
  rw [List.countP_map]
  rfl

theorem countP_gone (objs : List Object) : (objs.map Act.gone).countP (Act.makes p) = 0 := by
  rw [List.countP_map]
  exact List.countP_false ▸ rfl

/-- Images are neither. -/
theorem countP_images (h : ∀ o ∈ objs, ∃ image, o = .image image)
    (hp : ∀ image, p (.image image) = false) : objs.countP p = 0 := by
  rw [List.countP_eq_zero]
  intro o ho
  obtain ⟨image, rfl⟩ := h o ho
  rw [hp image]
  exact Bool.false_ne_true

theorem countP_version (b : BringUp) (hp : ∀ n, p (.version n) = false) :
    b.versionActs.countP (Act.makes p) = 0 := by
  unfold BringUp.versionActs
  cases b.version with
  | none => rfl
  | some v => exact (List.countP_cons_of_neg (by exact Bool.not_eq_true _ ▸ hp v)).trans rfl

/-- A creation makes its screen and its display, and nothing else of their kinds. -/
theorem countP_creation (m : Mesa) (b : BringUp)
    (hp : ∀ o : Object, o.isScreen = false → o.isDisplay = false → p o = false) :
    (b.oopsGlCreate m).objects.countP (Act.makes p) ≤
      (b.screen.toList.map Object.screen).countP p + b.displayActs.countP (Act.makes p) := by
  have hstate (n : Nat) : p (.state n) = false := hp _ rfl rfl
  have hdrawable (n : Nat) : p (.drawable n) = false := hp _ rfl rfl
  have hcontext (n : Nat) : p (.context n) = false := hp _ rfl rfl
  have hversion := countP_version b (p := p) fun n => hp _ rfl rfl
  have hasked := countP_images (p := p) (adds_askAll m Gl.zero b.asked).kind fun _ => hp _ rfl rfl
  have hmade := countP_images (p := p) (adds_makeImages m b.created
    (askAll m Gl.zero b.asked).1 0 2).kind fun _ => hp _ rfl rfl
  unfold BringUp.oopsGlCreate
  cases b.calloc with
  | none => exact Nat.zero_le _
  | some state =>
    dsimp only
    cases b.screen with
    | none =>
      split
      · simp only [List.countP_cons, List.countP_nil, Act.makes, hstate, Bool.false_eq_true,
          if_false]
        exact Nat.zero_le _
      · simp only [List.countP_append, List.countP_cons, List.countP_nil, Act.makes, hstate,
          hversion, Bool.false_eq_true, if_false]
        exact Nat.zero_le _
    | some screen =>
      -- whichever exit is taken, at most the screen was made
      dsimp only
      cases hscreen : p (.screen screen)
      all_goals
        repeat' split
        all_goals
          simp only [List.countP_append, List.countP_cons, List.countP_nil, countP_made, hversion,
            hasked, hmade, Act.makes, hstate, hdrawable, hcontext, hscreen, Option.toList_some,
            List.map_cons, List.map_nil, Bool.false_eq_true, if_false, if_true]
          omega

theorem countP_displayActs (b : BringUp) :
    b.displayActs.countP (Act.makes Object.isDisplay) ≤ 1 ∧
      b.displayActs.countP (Act.makes Object.isScreen) = 0 := by
  unfold BringUp.displayActs
  repeat' split
  all_goals exact ⟨Nat.le_of_ble_eq_true rfl, rfl⟩

theorem countP_screen (b : BringUp) :
    (b.screen.toList.map Object.screen).countP Object.isScreen ≤ 1 ∧
      (b.screen.toList.map Object.screen).countP Object.isDisplay = 0 := by
  cases b.screen with
  | none => exact ⟨Nat.zero_le _, rfl⟩
  | some screen => exact ⟨Nat.le_refl _, rfl⟩

theorem countP_creation_screen (m : Mesa) (b : BringUp) :
    (b.oopsGlCreate m).objects.countP (Act.makes Object.isScreen) ≤ 1 := by
  have hle := countP_creation m b (p := Object.isScreen) fun _ h _ => h
  have hscreen := (countP_screen b).1
  rw [(countP_displayActs b).2] at hle
  omega

theorem countP_creation_display (m : Mesa) (b : BringUp) :
    (b.oopsGlCreate m).objects.countP (Act.makes Object.isDisplay) ≤ 1 := by
  have hle := countP_creation m b (p := Object.isDisplay) fun _ _ h => h
  have hdisplay := (countP_displayActs b).1
  rw [(countP_screen b).2] at hle
  omega

/-! ## A probe -/

theorem probeSize_acts (own size : Extent) (probe : Probe) :
    (probeSize own size probe).2 = [] ∨ (probeSize own size probe).2 = probe.acts := by
  unfold probeSize
  split
  · exact .inr rfl
  · exact .inl rfl

/-- A probe leaves what there was. -/
theorem exec_probe (own size : Extent) (probe : Probe) (live : Multiset Object) :
    exec (probeSize own size probe).2 live = some live := by
  rcases probeSize_acts own size probe with hnil | hacts
  · rw [hnil]
    rfl
  · rw [hacts]
    unfold Probe.acts
    cases probe.opened with
    | none => rfl
    | some display => exact exec_gone [Object.display display] live

theorem countP_probe (own size : Extent) (probe : Probe) :
    (probeSize own size probe).2.countP (Act.makes Object.isDisplay) ≤ 1 ∧
      (probeSize own size probe).2.countP (Act.makes Object.isScreen) = 0 := by
  rcases probeSize_acts own size probe with hnil | hacts
  · rw [hnil]
    exact ⟨Nat.zero_le _, rfl⟩
  · rw [hacts]
    unfold Probe.acts
    cases probe.opened with
    | none => exact ⟨Nat.zero_le _, rfl⟩
    | some display => exact ⟨Nat.le_refl _, rfl⟩

/-- Another size than the display's own can be scanned out. -/
theorem probeSize_scannable (hne : (probeSize own size probe).1 ≠ own) :
    (probeSize own size probe).1 = size ∧ probe.scannable = true := by
  unfold probeSize at *
  split at hne
  · next hsize =>
    rw [if_pos hsize]
    cases hscannable : probe.scannable with
    | false => exact absurd (by rw [hscannable]; rfl) hne
    | true => exact ⟨rfl, rfl⟩
  · next hsize =>
    obtain ⟨hwidth, hheight⟩ := not_or.mp hsize
    exact absurd (Extent.ext (not_not.mp hwidth) (not_not.mp hheight)) hne

/-! ## Calls -/

theorem OneDevice.objects_eq_nil (h : OneDevice own calls r) (hfree : r.gfx.inUse = false) :
    r.gfx.objects = [] := by
  rw [h.inUse] at hfree
  unfold Gfx.objects
  rw [Option.not_isSome_iff_eq_none.mp (Bool.eq_false_iff.mp hfree)]
  rfl

/-- Images that were forgotten are no screens and no displays. -/
theorem OneDevice.countP_lost (h : OneDevice own calls r) (hfree : r.gfx.inUse = false)
    (hp : ∀ image, p (.image image) = false) :
    Multiset.countP (p ·) (↑(r.gfx.objects ++ r.lost) : Multiset Object) = 0 := by
  rw [h.objects_eq_nil hfree, List.nil_append, Multiset.coe_countP]
  simp only [Bool.decide_eq_true]
  exact countP_images h.images hp

/-- The other parts, where a call has kept the size that is open. -/
theorem OneDevice.keep {c : GfxCall} {r' : GfxRun} (h : OneDevice own calls r)
    (howned : exec r'.acts 0 = some ↑(r'.gfx.objects ++ r'.lost))
    (himages : ∀ o ∈ r'.lost, ∃ image, o = .image image)
    (hinUse : r'.gfx.inUse = r'.gfx.gl.isSome) (hscreen : AtMostOne Object.isScreen r'.acts 0)
    (hdisplay : AtMostOne Object.isDisplay r'.acts 0)
    (hextent : ∀ size, oopsGfxExtent r'.gfx = some size → oopsGfxExtent r.gfx = some size) :
    OneDevice own (calls ++ [c]) r' where
  owned := howned
  images := himages
  inUse := hinUse
  screen := hscreen
  display := hdisplay
  refused hused _ _ _ _ := if_pos hused
  extent size hsize hne := by
    obtain ⟨desc, probe, m, b, hmem, hasked⟩ := h.extent size (hextent size hsize) hne
    exact ⟨desc, probe, m, b, List.mem_append_left _ hmem, hasked⟩

theorem OneDevice.create (h : OneDevice own calls r) (desc : Option Extent) (probe : Probe)
    (m : Mesa) (b : BringUp) : OneDevice own (calls ++ [.create desc probe m b])
      (r.call own (.create desc probe m b)) := by
  cases hfree : r.gfx.inUse with
  | true =>
    have hcall : r.call own (.create desc probe m b) = ⟨r.gfx, r.acts ++ [], r.lost ++ []⟩ := by
      unfold GfxRun.call oopsGfxCreate
      simp only [hfree, if_true]
    rw [hcall, List.append_nil, List.append_nil]
    exact h.keep h.owned h.images h.inUse h.screen h.display fun _ hsize => hsize
  | false =>
    have hprobe := exec_probe own (askedSize own desc) probe
    have hmakes := countP_probe own (askedSize own desc) probe
    unfold GfxRun.call oopsGfxCreate
    simp only [hfree, Bool.false_eq_true, if_false]
    have hscannable : (probeSize own (askedSize own desc) probe).1 ≠ own → _ := probeSize_scannable
    generalize probeSize own (askedSize own desc) probe = opened at *
    have hcreation := exec_oopsGlCreate (m.sized opened.1) b
    have hscreen : AtMostOne Object.isScreen
        (r.acts ++ (opened.2 ++ (b.oopsGlCreate (m.sized opened.1)).objects)) 0 := by
      have hnone := h.countP_lost hfree (p := Object.isScreen) fun _ => rfl
      have hmade := countP_creation_screen (m.sized opened.1) b
      exact h.screen.append h.owned ((atMostOne_of_makes (by omega)).append (hprobe _)
        (atMostOne_of_makes (by omega)))
    have hdisplay : AtMostOne Object.isDisplay
        (r.acts ++ (opened.2 ++ (b.oopsGlCreate (m.sized opened.1)).objects)) 0 := by
      have hnone := h.countP_lost hfree (p := Object.isDisplay) fun _ => rfl
      have hmade := countP_creation_display (m.sized opened.1) b
      exact h.display.append h.owned ((atMostOne_of_makes (by omega)).append (hprobe _)
        (atMostOne_of_makes (by omega)))
    have himages : ∀ o ∈ r.lost ++ b.forgotten (m.sized opened.1), ∃ image, o = .image image :=
      fun o ho => (List.mem_append.mp ho).elim (h.images o) (forgotten_images o)
    have hexec := exec_trans h.owned (exec_trans (hprobe _) (hcreation _))
    rw [h.objects_eq_nil hfree, List.nil_append, Multiset.coe_add, List.append_assoc] at hexec
    have howned {gfx : Gfx}
        (hgfx : gfx.objects = handleObjects (b.oopsGlCreate (m.sized opened.1)).handle) :
        exec (r.acts ++ (opened.2 ++ (b.oopsGlCreate (m.sized opened.1)).objects)) 0 =
          some ↑(gfx.objects ++ (r.lost ++ b.forgotten (m.sized opened.1))) := by
      rw [hexec, hgfx]
      exact congrArg some (Multiset.coe_eq_coe.mpr (List.perm_append_comm.append_left _))
    cases hhandle : (b.oopsGlCreate (m.sized opened.1)).handle with
    | none =>
      exact h.keep (howned (by rw [h.objects_eq_nil hfree, hhandle]; rfl)) himages h.inUse hscreen
        hdisplay fun _ hsize => hsize
    | some gl =>
      refine ⟨howned (by rw [hhandle]; rfl), himages, rfl, hscreen, hdisplay,
        fun hused _ _ _ _ => if_pos hused, fun size hsize hne => ?_⟩
      obtain rfl : opened.1 = size := Option.some.inj hsize
      obtain ⟨hasked, hready⟩ := hscannable hne
      exact ⟨desc, probe, m, b, List.mem_append_right _ List.mem_cons_self, hasked.symm, hready⟩

/-- Using the handle adds the images it makes. -/
theorem OneDevice.use {x : Renderer} {c : GfxCall} (h : OneDevice own calls r)
    (hgl : r.gfx.gl = some x) (u : Use) : OneDevice own (calls ++ [c])
      ⟨⟨some { x with gl := (x.gl.use x.mesa u).1 }, r.gfx.inUse⟩,
        r.acts ++ (x.gl.use x.mesa u).2.map .made, r.lost⟩ := by
  have himages : ∀ o ∈ (x.gl.use x.mesa u).2, ∃ image, o = .image image := by
    cases u with
    | getBuffers a => exact (adds_getBuffers x.mesa x.gl.gl a).kind
    | present flip => exact nofun
  have hobjects : r.gfx.objects = x.gl.objects := by
    unfold Gfx.objects
    rw [hgl]
    rfl
  refine h.keep ?_ h.images (by rw [h.inUse, hgl]; rfl)
    (h.screen.extend h.owned ((countP_made _).trans (countP_images himages fun _ => rfl)))
    (h.display.extend h.owned ((countP_made _).trans (countP_images himages fun _ => rfl)))
    fun size hsize => ?_
  · refine exec_trans h.owned ((exec_made _ _).trans (congrArg some ?_))
    show _ = (↑((x.gl.use x.mesa u).1.objects ++ r.lost) : Multiset Object)
    rw [← Multiset.coe_add, ← Multiset.coe_add, use_objects, hobjects, Multiset.add_assoc]
  · unfold oopsGfxExtent at *
    rw [hgl]
    exact hsize

theorem OneDevice.present (h : OneDevice own calls r) (gfx : Bool) (flip : Int) :
    OneDevice own (calls ++ [.present gfx flip]) (r.call own (.present gfx flip)) := by
  unfold GfxRun.call oopsGfxPresent
  cases hgl : r.gfx.gl with
  | none => exact h.keep h.owned h.images h.inUse h.screen h.display fun _ hsize => hsize
  | some x =>
    cases gfx with
    | false => exact h.keep h.owned h.images h.inUse h.screen h.display fun _ hsize => hsize
    | true =>
      have huse := h.use (c := .present true flip) hgl (.present flip)
      rw [show (x.gl.use x.mesa (.present flip)).2.map Act.made = [] from rfl,
        List.append_nil] at huse
      exact huse

theorem OneDevice.getBuffers (h : OneDevice own calls r) (a : Asking) :
    OneDevice own (calls ++ [.getBuffers a]) (r.call own (.getBuffers a)) := by
  unfold GfxRun.call Gfx.getBuffers
  cases hgl : r.gfx.gl with
  | none =>
    dsimp only
    rw [List.append_nil]
    exact h.keep h.owned h.images h.inUse h.screen h.display fun _ hsize => hsize
  | some x => exact h.use hgl (.getBuffers a)

theorem OneDevice.destroy (h : OneDevice own calls r) (gfx : Bool) :
    OneDevice own (calls ++ [.destroy gfx]) (r.call own (.destroy gfx)) := by
  unfold GfxRun.call oopsGfxDestroy
  cases gfx with
  | false =>
    simp only [Bool.not_false, if_true, List.append_nil]
    exact h.keep h.owned h.images h.inUse h.screen h.display fun _ hsize => hsize
  | true =>
    have hgone : oopsGlDestroy (r.gfx.gl.map Renderer.gl) = r.gfx.objects.map .gone := by
      unfold oopsGlDestroy Gfx.objects
      cases r.gfx.gl <;> rfl
    simp only [Bool.not_true, Bool.false_eq_true, if_false, hgone]
    refine h.keep ?_ h.images rfl (h.screen.extend h.owned (countP_gone _))
      (h.display.extend h.owned (countP_gone _)) nofun
    refine exec_trans h.owned ?_
    rw [← Multiset.coe_add]
    exact exec_gone _ _

/-- **One device.** After any calls, with any outcomes, what there is is what the renderer has, and
    the images that failed creations forgot. At no moment were there two devices or two displays,
    and what is open is the display's own size or one that a display could scan out. -/
theorem gfx_one_device (own : Extent) (calls : List GfxCall) :
    OneDevice own calls (calls.foldl (GfxRun.call own) .start) := by
  induction calls using List.reverseRecOn with
  | nil =>
    exact ⟨rfl, nofun, rfl, atMostOne_of_makes (Nat.zero_le _), atMostOne_of_makes (Nat.zero_le _),
      nofun, nofun⟩
  | append_singleton calls c ih =>
    rw [List.foldl_append]
    cases c with
    | create desc probe m b => exact ih.create desc probe m b
    | present gfx flip => exact ih.present gfx flip
    | getBuffers a => exact ih.getBuffers a
    | destroy gfx => exact ih.destroy gfx

end OopsMesa.Platform
