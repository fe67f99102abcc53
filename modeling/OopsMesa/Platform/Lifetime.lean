/-
  What `oops_gl_create` makes, and what goes again.

  Every step of the creation may fail. Seven exits return NULL, and each takes down by hand what was
  made so far; after the last one a failure only leaves a member null. The frontend may ask for the
  drawable's buffers while the context is made current, and `oops_get_buffers` then makes an image.
  Two descriptors are duplicated on the way, as a probe of what the frontend will do first.

  The duplicates are never closed, and an image made before the last exit is forgotten there.
  Nothing else is: every other creation that fails unwinds, and every one that succeeds is undone
  by `oops_gl_destroy`, whatever the handle was used for (`gl_rounds_iff`).

  The device descriptor itself is the winsys's, which holds it for the life of the process.
-/
import OopsMesa.Lib.Lifo
import OopsMesa.Platform.Frontend

namespace OopsMesa.Platform

open OopsMesa.Lib

/-! ## The code -/

/-- What can be destroyed, by its address. -/
inductive Object where
  | state (ptr : Nat)
  | version (ptr : Nat)
  | screen (ptr : Nat)
  | drawable (ptr : Nat)
  | context (ptr : Nat)
  | image (image : Image)
  | display (ptr : Nat)
  | frame (ptr : Nat)
  deriving DecidableEq, Repr

/-- A `dri_config`: what `driGetConfigAttrib` reports of it, `none` where it fails. -/
structure DriConfig where
  red : Option Nat
  green : Option Nat
  blue : Option Nat
  alpha : Option Nat
  doubleBuffer : Option Nat
  depth : Option Nat
  deriving DecidableEq, Repr

/-- One turn of the loop of `choose_config`, with `best` and `best_depth`. -/
def considerConfig (best : Option DriConfig × Nat) (config : DriConfig) : Option DriConfig × Nat :=
  if config.red = some 8 ∧ config.green = some 8 ∧ config.blue = some 8 ∧ config.alpha = some 8 ∧
      config.doubleBuffer.any (· ≠ 0) then
    let depth := config.depth.getD 0
    if best.1.isNone || depth > best.2 then (some config, depth) else best
  else best

/-- `choose_config`. The list is null where `driCreateNewScreen3` gave none. -/
def chooseConfig (configs : Option (List DriConfig)) : Option DriConfig :=
  match configs with
  | none => none
  | some configs => (configs.foldl considerConfig (none, 0)).1

/-- A call of `oops_get_buffers`, and what `dri_create_image` gives if it is called. -/
structure Asking where
  wantsBack : Bool
  created : Option Image
  deriving DecidableEq, Repr

/-- What each step of the creation comes to. Pointers are `none` where they are null. -/
structure BringUp where
  calloc : Option Nat
  /-- `oops_winsys_open` -/
  opened : Int
  /-- `drmGetVersion` -/
  version : Option Nat
  /-- `fcntl` with `F_DUPFD_CLOEXEC`, and with `F_DUPFD`. -/
  dupCloexec : Int
  dup : Int
  screen : Option Nat
  configs : Option (List DriConfig)
  drawable : Option Nat
  context : Option Nat
  /-- What is asked for during `dri_make_current`, and what that returns. -/
  asked : List Asking
  current : Bool
  /-- `dri_create_image` for each place. -/
  created : Nat → Option Image
  display : Option (Nat × Display)
  ready : Bool
  /-- `malloc` of the linear frame. -/
  frame : Option Nat

/-- A handle. `displayPtr` and `framePtr` are where the display and the frame are, if `gl` has
    them. -/
structure OopsGl where
  state : Nat
  screen : Option Nat
  drawable : Option Nat
  context : Option Nat
  gl : Gl
  displayPtr : Nat
  framePtr : Nat

/-- The image that a call of `oops_get_buffers` makes. -/
def imageMade (gl : Gl) (a : Asking) : Option Image :=
  if !a.wantsBack then none
  else
    match gl.back (if gl.draw > 1 then 0 else gl.draw) with
    | some _ => none
    | none => a.created

/-- Any number of calls, and the objects they make. -/
def askAll (m : Mesa) (gl : Gl) : List Asking → Gl × List Object
  | [] => (gl, [])
  | a :: asked =>
    let r := askAll m (oopsGetBuffers m gl a.wantsBack a.created).2 asked
    (r.1, (imageMade gl a).toList.map .image ++ r.2)

/-- The image that `ensure_back_image` makes. -/
def imageEnsured (gl : Gl) (which : Nat) (created : Option Image) : Option Image :=
  if which > 1 then none
  else if (gl.back which).isSome then none
  else imageMade { gl with draw := which } ⟨true, created⟩

/-- The images that the loop of `makeImages` makes. -/
def imagesMade (m : Mesa) (created : Nat → Option Image) (gl : Gl) (i : Nat) : Nat → List Object
  | 0 => []
  | left + 1 =>
    let r := ensureBackImage m gl i (created i)
    (imageEnsured gl i (created i)).toList.map .image ++
      if r.1 then imagesMade m created { r.2 with nImages := i + 1 } (i + 1) left else []

/-- What `drmGetVersion` gives is freed again. -/
def BringUp.versionActs (b : BringUp) : List (Act Object) :=
  match b.version with
  | some v => [.made (.version v), .gone (.version v)]
  | none => []

/-- The descriptors of the dup probe. -/
def BringUp.dupActs (b : BringUp) : List (Act Int) :=
  (if 0 ≤ b.dupCloexec then [.made b.dupCloexec] else []) ++
    if 0 ≤ b.dup then [.made b.dup] else []

/-- The display and the linear frame. -/
def BringUp.displayActs (b : BringUp) : List (Act Object) :=
  match b.display with
  | none => []
  | some (display, _) =>
    if b.ready then
      match b.frame with
      | some frame => [.made (.display display), .made (.frame frame)]
      | none => [.made (.display display), .gone (.display display)]
    else [.made (.display display), .gone (.display display)]

/-- What `oops_gl_create` returns, and what it does to objects and to descriptors. -/
structure Creation where
  handle : Option OopsGl
  objects : List (Act Object)
  descriptors : List (Act Int)

/-- `oops_gl_create`, all of it. -/
def BringUp.oopsGlCreate (m : Mesa) (b : BringUp) : Creation :=
  match b.calloc with
  | none => ⟨none, [], []⟩
  | some state =>
    if b.opened < 0 then ⟨none, [.made (.state state), .gone (.state state)], []⟩
    else
      let acts := .made (.state state) :: b.versionActs
      match b.screen with
      | none => ⟨none, acts ++ [.gone (.state state)], b.dupActs⟩
      | some screen =>
        let acts := acts ++ [.made (.screen screen)]
        match chooseConfig b.configs with
        | none => ⟨none, acts ++ [.gone (.screen screen), .gone (.state state)], b.dupActs⟩
        | some _ =>
          match b.drawable with
          | none => ⟨none, acts ++ [.gone (.screen screen), .gone (.state state)], b.dupActs⟩
          | some drawable =>
            let acts := acts ++ [.made (.drawable drawable)]
            match b.context with
            | none =>
              ⟨none, acts ++ [.gone (.drawable drawable), .gone (.screen screen),
                .gone (.state state)], b.dupActs⟩
            | some context =>
              let asked := askAll m Gl.zero b.asked
              let acts := acts ++ [.made (.context context)] ++ asked.2.map .made
              if !b.current then
                ⟨none, acts ++ [.gone (.context context), .gone (.drawable drawable),
                  .gone (.screen screen), .gone (.state state)], b.dupActs⟩
              else
                let gl := Platform.oopsGlCreate m asked.1 b.created (b.display.map Prod.snd) b.ready
                  b.frame.isSome
                ⟨some ⟨state, some screen, some drawable, some context, gl,
                    (b.display.map Prod.fst).getD 0, b.frame.getD 0⟩,
                  acts ++ (imagesMade m b.created asked.1 0 2).map .made ++ b.displayActs,
                  b.dupActs⟩

/-- The objects of a handle, in the order in which they are destroyed. -/
def OopsGl.objects (h : OopsGl) : List Object :=
  (if h.gl.scanbuf then [.frame h.framePtr] else []) ++
    (if h.gl.display.isSome then [.display h.displayPtr] else []) ++
    (h.gl.back 0).toList.map .image ++ (h.gl.back 1).toList.map .image ++
    h.context.toList.map .context ++ h.drawable.toList.map .drawable ++
    h.screen.toList.map .screen ++ [.state h.state]

/-- `oops_gl_destroy` -/
def oopsGlDestroy (h : Option OopsGl) : List (Act Object) :=
  match h with
  | none => []
  | some h => h.objects.map .gone

/-! ## The statement -/

/-- What a handle is used for, which may make images too. -/
inductive Use where
  | getBuffers (a : Asking)
  | present (flip : Int)

def OopsGl.use (m : Mesa) (h : OopsGl) : Use → OopsGl × List Object
  | .getBuffers a =>
    ({ h with gl := (oopsGetBuffers m h.gl a.wantsBack a.created).2 },
      (imageMade h.gl a).toList.map .image)
  | .present flip => ({ h with gl := (oopsGlPresent h.gl flip).2.1 }, [])

def OopsGl.useAll (m : Mesa) (h : OopsGl) : List Use → OopsGl × List Object
  | [] => (h, [])
  | u :: uses =>
    let r := useAll m (h.use m u).1 uses
    (r.1, (h.use m u).2 ++ r.2)

/-- A handle is created, used, and destroyed. -/
structure Round where
  bringUp : BringUp
  uses : List Use

/-- What becomes of a handle in a round. -/
def Round.after (m : Mesa) (r : Round) : Option OopsGl → List (Act Object)
  | none => []
  | some h => (h.useAll m r.uses).2.map .made ++ oopsGlDestroy (some (h.useAll m r.uses).1)

def Round.objects (m : Mesa) (r : Round) : List (Act Object) :=
  (r.bringUp.oopsGlCreate m).objects ++ r.after m (r.bringUp.oopsGlCreate m).handle

def Round.descriptors (m : Mesa) (r : Round) : List (Act Int) :=
  (r.bringUp.oopsGlCreate m).descriptors

/-- A round cleans up after itself. -/
structure CleansUp (m : Mesa) (r : Round) : Prop where
  /-- A creation that fails unwinds: everything goes once, in the reverse order. -/
  fails : (r.bringUp.oopsGlCreate m).handle = none →
    unwind (r.bringUp.oopsGlCreate m).objects [] = some []
  /-- A handle's destruction is of what exists, and of all of it. -/
  destroys : ∀ live, exec (r.objects m) live = some live
  descriptors : ∀ opened, exec (r.descriptors m) opened = some opened

/-- Any number of rounds leaves what there was. -/
structure RoundsCleanUp (m : Mesa) (rounds : List Round) : Prop where
  each : ∀ r ∈ rounds, CleansUp m r
  objects : ∀ live, exec (rounds.flatMap (·.objects m)) live = some live
  descriptors : ∀ opened, exec (rounds.flatMap (·.descriptors m)) opened = some opened

/-- `dri_make_current` is called. -/
def BringUp.MakesCurrent (b : BringUp) : Prop :=
  b.screen ≠ none ∧ chooseConfig b.configs ≠ none ∧ b.drawable ≠ none ∧ b.context ≠ none

/-- The creation ends before its probe, or the probe opens nothing; and if the context does not
    become current, no image was made meanwhile. -/
def BringUp.Meets (b : BringUp) : Prop :=
  b.calloc = none ∨ b.opened < 0 ∨ b.dupCloexec < 0 ∧ b.dup < 0 ∧
    (b.MakesCurrent → b.current = false → ∀ a ∈ b.asked, a.wantsBack = true → a.created = none)

/-! ## Images -/

variable {m : Mesa} {b : BringUp} {gl gl' : Gl} {objs : List Object}

/-- The images there are. -/
def Gl.images (gl : Gl) : List Object :=
  (gl.back 0).toList.map .image ++ (gl.back 1).toList.map .image

/-- The objects are images that were added. -/
structure Adds (gl : Gl) (objs : List Object) (gl' : Gl) : Prop where
  images : (gl'.images : Multiset Object) = ↑objs + ↑gl.images
  kind : ∀ o ∈ objs, ∃ image, o = .image image
  display : gl'.display = gl.display
  scanbuf : gl'.scanbuf = gl.scanbuf

theorem Adds.refl : Adds gl [] gl := ⟨(Multiset.zero_add _).symm, nofun, rfl, rfl⟩

theorem Adds.trans {gl'' : Gl} {objs' : List Object} (h : Adds gl objs gl')
    (h' : Adds gl' objs' gl'') : Adds gl (objs ++ objs') gl'' where
  images := by
    rw [h'.images, h.images, ← Multiset.coe_add, ← Multiset.add_assoc,
      Multiset.add_comm (objs' : Multiset Object)]
  kind o ho := (List.mem_append.mp ho).elim (h.kind o) (h'.kind o)
  display := h'.display.trans h.display
  scanbuf := h'.scanbuf.trans h.scanbuf

/-- An image in one of the two places, which was empty. -/
theorem adds_keepImage {which : Nat} {image : Image} (hwhich : which < 2)
    (hnone : gl.back which = none) : Adds gl [.image image] (keepImage m gl which image) := by
  have hkept : Kept gl (keepImage m gl which image) := kept_keepImage hnone
  have hscanbuf : (keepImage m gl which image).scanbuf = gl.scanbuf := by
    unfold keepImage
    cases m.queryImage image <;> rfl
  refine ⟨?_, fun o ho => ⟨image, List.mem_singleton.mp ho⟩, hkept.display, hscanbuf⟩
  unfold Gl.images
  rw [keepImage_back]
  have hcases : which = 0 ∨ which = 1 := by omega
  rcases hcases with rfl | rfl
  · rw [Function.update_self, Function.update_of_ne (by decide), hnone]
    rfl
  · rw [Function.update_self, Function.update_of_ne (by decide), hnone]
    show (↑((gl.back 0).toList.map Object.image ++ [Object.image image]) : Multiset Object) =
      ↑[Object.image image] +
        (((gl.back 0).toList.map Object.image ++ [] : List Object) : Multiset Object)
    rw [List.append_nil, ← Multiset.coe_add, Multiset.add_comm]

/-- A call of `oops_get_buffers` adds the image that it makes. -/
theorem adds_getBuffers (m : Mesa) (gl : Gl) (a : Asking) :
    Adds gl ((imageMade gl a).toList.map .image)
      (oopsGetBuffers m gl a.wantsBack a.created).2 := by
  unfold imageMade oopsGetBuffers
  cases a.wantsBack with
  | false => exact .refl
  | true =>
    have hwhich : (if gl.draw > 1 then 0 else gl.draw) < 2 := by
      split <;> omega
    dsimp only
    generalize (if gl.draw > 1 then 0 else gl.draw) = which at *
    rw [if_neg (by decide), if_neg (by decide)]
    cases hback : gl.back which with
    | some image => exact .refl
    | none =>
      cases a.created with
      | none => exact .refl
      | some image => exact adds_keepImage hwhich hback

theorem adds_askAll (m : Mesa) (gl : Gl) (asked : List Asking) :
    Adds gl (askAll m gl asked).2 (askAll m gl asked).1 := by
  induction asked generalizing gl with
  | nil => exact .refl
  | cons a asked ih => exact (adds_getBuffers m gl a).trans (ih _)

theorem adds_ensureBackImage (m : Mesa) (gl : Gl) (which : Nat) (created : Option Image) :
    Adds gl ((imageEnsured gl which created).toList.map .image)
      (ensureBackImage m gl which created).2 := by
  unfold imageEnsured ensureBackImage
  split
  · exact .refl
  · split
    · exact .refl
    · have hadds := adds_getBuffers m { gl with draw := which } ⟨true, created⟩
      exact ⟨hadds.images, hadds.kind, hadds.display, hadds.scanbuf⟩

theorem adds_makeImages (m : Mesa) (created : Nat → Option Image) (gl : Gl) (i left : Nat) :
    Adds gl (imagesMade m created gl i left) (makeImages m created gl i left) := by
  induction left generalizing gl i with
  | zero => exact .refl
  | succ left ih =>
    have hfirst := adds_ensureBackImage m gl i (created i)
    unfold imagesMade makeImages
    dsimp only
    generalize ensureBackImage m gl i (created i) = made at *
    split
    · have hrest := ih { made.2 with nImages := i + 1 } (i + 1)
      exact hfirst.trans ⟨hrest.images, hrest.kind, hrest.display, hrest.scanbuf⟩
    · rw [List.append_nil]
      exact hfirst

theorem adds_present (gl : Gl) (flip : Int) : Adds gl [] (oopsGlPresent gl flip).2.1 := by
  obtain ⟨indices, registered, htried, -⟩ := tried_eq gl
  obtain ⟨-, -, heq⟩ | ⟨-, -, heq⟩ | ⟨-, ok, es, -, heq⟩ | ⟨-, ok, es, -, heq⟩ :=
    oopsGlPresent_cases gl flip
  all_goals
    rw [heq, htried]
    exact ⟨(Multiset.zero_add _).symm, nofun, rfl, rfl⟩

/-! ## Handles -/

variable {h : OopsGl} {live : Multiset Object}

/-- The drawable's objects, and the state. -/
def OopsGl.core (h : OopsGl) : List Object :=
  h.context.toList.map .context ++ h.drawable.toList.map .drawable ++
    h.screen.toList.map .screen ++ [.state h.state]

/-- The objects of the display. -/
def OopsGl.output (h : OopsGl) : List Object :=
  (if h.gl.scanbuf then [.frame h.framePtr] else []) ++
    if h.gl.display.isSome then [.display h.displayPtr] else []

theorem objects_eq (h : OopsGl) :
    (h.objects : Multiset Object) = ↑h.gl.images + ↑(h.output ++ h.core) := by
  have hlist : h.objects = h.output ++ h.gl.images ++ h.core := by
    unfold OopsGl.objects OopsGl.output OopsGl.core Gl.images
    simp only [List.append_assoc]
  rw [hlist, Multiset.coe_add, ← List.append_assoc]
  exact Multiset.coe_eq_coe.mpr (List.perm_append_comm.append_right h.core)

/-- A use of a handle adds the objects it makes. -/
theorem use_objects (h : OopsGl) (u : Use) :
    ((h.use m u).1.objects : Multiset Object) = ↑(h.use m u).2 + ↑h.objects := by
  have hadds : Adds h.gl (h.use m u).2 (h.use m u).1.gl := by
    cases u with
    | getBuffers a => exact adds_getBuffers m h.gl a
    | present flip => exact adds_present h.gl flip
  have hrest : (h.use m u).1.output ++ (h.use m u).1.core = h.output ++ h.core := by
    have hframe : (h.use m u).1.framePtr = h.framePtr := by cases u <;> rfl
    have hdisplay : (h.use m u).1.displayPtr = h.displayPtr := by cases u <;> rfl
    have hcore : (h.use m u).1.core = h.core := by cases u <;> rfl
    unfold OopsGl.output
    rw [hadds.display, hadds.scanbuf, hframe, hdisplay, hcore]
  rw [objects_eq, objects_eq, hadds.images, hrest, Multiset.add_assoc]

theorem useAll_objects (h : OopsGl) (uses : List Use) :
    ((h.useAll m uses).1.objects : Multiset Object) = ↑(h.useAll m uses).2 + ↑h.objects := by
  induction uses generalizing h with
  | nil => exact (Multiset.zero_add _).symm
  | cons u uses ih =>
    show ((OopsGl.useAll m (h.use m u).1 uses).1.objects : Multiset Object) = _
    rw [ih, use_objects, ← Multiset.add_assoc]
    show _ = (↑((h.use m u).2 ++ _) : Multiset Object) + _
    rw [← Multiset.coe_add, Multiset.add_comm ((h.use m u).2 : Multiset Object)]

/-- What a handle has when it is destroyed is what it had, and what was made since. -/
theorem exec_after (r : Round) (h : OopsGl) (live : Multiset Object) :
    exec (r.after m (some h)) (↑h.objects + live) = some live := by
  refine exec_trans (exec_made _ _) ?_
  rw [← Multiset.add_assoc, ← useAll_objects]
  exact exec_gone _ _

/-! ## Creations -/

variable {state screen drawable context : Nat}

theorem unwind_version (b : BringUp) (o : Object) :
    unwind (.made o :: b.versionActs) [] = some [o] := by
  unfold BringUp.versionActs
  cases b.version with
  | none => rfl
  | some v => exact if_pos rfl

/-- A creation that ends before the probe. -/
theorem create_early (m : Mesa) (h : b.calloc = none ∨ b.opened < 0) :
    (b.oopsGlCreate m).handle = none ∧ unwind (b.oopsGlCreate m).objects [] = some [] ∧
      (b.oopsGlCreate m).descriptors = [] := by
  unfold BringUp.oopsGlCreate
  cases hcalloc : b.calloc with
  | none => exact ⟨rfl, rfl, rfl⟩
  | some state =>
    have hopened : b.opened < 0 := h.resolve_left fun hnone => nomatch hcalloc.symm.trans hnone
    dsimp only
    rw [if_pos hopened]
    exact ⟨rfl, if_pos rfl, rfl⟩

/-- The creation as far as making the context current. -/
structure MadeCurrent (b : BringUp) (state screen drawable context : Nat) : Prop where
  calloc : b.calloc = some state
  opened : ¬ b.opened < 0
  screen : b.screen = some screen
  config : ∃ config, chooseConfig b.configs = some config
  drawable : b.drawable = some drawable
  context : b.context = some context

theorem makesCurrent_iff (hcalloc : b.calloc = some state) (hopened : ¬ b.opened < 0) :
    b.MakesCurrent ↔ ∃ screen drawable context, MadeCurrent b state screen drawable context := by
  constructor
  · rintro ⟨hscreen, hconfig, hdrawable, hcontext⟩
    obtain ⟨screen, hscreen⟩ := Option.ne_none_iff_exists'.mp hscreen
    obtain ⟨drawable, hdrawable⟩ := Option.ne_none_iff_exists'.mp hdrawable
    obtain ⟨context, hcontext⟩ := Option.ne_none_iff_exists'.mp hcontext
    exact ⟨screen, drawable, context, hcalloc, hopened, hscreen,
      Option.ne_none_iff_exists'.mp hconfig, hdrawable, hcontext⟩
  · rintro ⟨screen, drawable, context, h⟩
    have hne {α : Type} {x : Option α} (hx : ∃ a, x = some a) : x ≠ none :=
      Option.ne_none_iff_exists'.mpr hx
    exact ⟨hne ⟨screen, h.screen⟩, hne h.config, hne ⟨drawable, h.drawable⟩,
      hne ⟨context, h.context⟩⟩

/-- A creation that ends before the context is made current. -/
theorem create_before (m : Mesa) (hcalloc : b.calloc = some state) (hopened : ¬ b.opened < 0)
    (h : ¬ b.MakesCurrent) :
    (b.oopsGlCreate m).handle = none ∧ unwind (b.oopsGlCreate m).objects [] = some [] ∧
      (b.oopsGlCreate m).descriptors = b.dupActs := by
  unfold BringUp.oopsGlCreate
  rw [hcalloc]
  dsimp only
  rw [if_neg hopened]
  have hversion := unwind_version b (.state state)
  cases hscreen : b.screen with
  | none =>
    refine ⟨rfl, ?_, rfl⟩
    rw [unwind_append, hversion]
    exact if_pos rfl
  | some screen =>
    dsimp only
    cases hconfig : chooseConfig b.configs with
    | none =>
      refine ⟨rfl, ?_, rfl⟩
      rw [unwind_append, unwind_append, hversion]
      exact (if_pos rfl).trans (if_pos rfl)
    | some config =>
      cases hdrawable : b.drawable with
      | none =>
        refine ⟨rfl, ?_, rfl⟩
        rw [unwind_append, unwind_append, hversion]
        exact (if_pos rfl).trans (if_pos rfl)
      | some drawable =>
        cases hcontext : b.context with
        | none =>
          refine ⟨rfl, ?_, rfl⟩
          rw [unwind_append, unwind_append, unwind_append, hversion]
          exact (if_pos rfl).trans ((if_pos rfl).trans (if_pos rfl))
        | some context =>
          exact absurd ((makesCurrent_iff hcalloc hopened).mpr ⟨screen, drawable, context, hcalloc,
            hopened, hscreen, ⟨config, hconfig⟩, hdrawable, hcontext⟩) h

/-- What there is when the context is made current. -/
def BringUp.bringActs (b : BringUp) (state screen drawable context : Nat) : List (Act Object) :=
  .made (.state state) :: b.versionActs ++ [.made (.screen screen)] ++
    [.made (.drawable drawable)] ++ [.made (.context context)]

theorem unwind_bringActs (b : BringUp) (state screen drawable context : Nat) :
    unwind (b.bringActs state screen drawable context) [] =
      some [.context context, .drawable drawable, .screen screen, .state state] := by
  unfold BringUp.bringActs
  rw [unwind_append, unwind_append, unwind_append, unwind_version]
  rfl

theorem exec_bringActs (b : BringUp) (state screen drawable context : Nat)
    (live : Multiset Object) : exec (b.bringActs state screen drawable context) live =
      some (↑[Object.context context, .drawable drawable, .screen screen, .state state] +
        live) := by
  have h := exec_of_unwind (unwind_bringActs b state screen drawable context) live
  rwa [Multiset.coe_nil, Multiset.zero_add] at h

/-- The exit where the context does not become current. -/
theorem MadeCurrent.fails (h : MadeCurrent b state screen drawable context) (m : Mesa)
    (hcurrent : b.current = false) : b.oopsGlCreate m =
      ⟨none, b.bringActs state screen drawable context ++
        (askAll m Gl.zero b.asked).2.map .made ++ [.gone (.context context),
          .gone (.drawable drawable), .gone (.screen screen), .gone (.state state)],
        b.dupActs⟩ := by
  obtain ⟨config, hconfig⟩ := h.config
  have hnot : (!false) = true := rfl
  unfold BringUp.oopsGlCreate
  simp only [h.calloc, if_neg h.opened, h.screen, hconfig, h.drawable, h.context, hcurrent,
    if_pos hnot]
  rfl

theorem MadeCurrent.succeeds (h : MadeCurrent b state screen drawable context) (m : Mesa)
    (hcurrent : b.current = true) : b.oopsGlCreate m =
      ⟨some ⟨state, some screen, some drawable, some context,
          Platform.oopsGlCreate m (askAll m Gl.zero b.asked).1 b.created
            (b.display.map Prod.snd) b.ready b.frame.isSome,
          (b.display.map Prod.fst).getD 0, b.frame.getD 0⟩,
        b.bringActs state screen drawable context ++
          (askAll m Gl.zero b.asked).2.map .made ++
          (imagesMade m b.created (askAll m Gl.zero b.asked).1 0 2).map .made ++
          b.displayActs, b.dupActs⟩ := by
  obtain ⟨config, hconfig⟩ := h.config
  have hnot : ¬ (!true) = true := by decide
  unfold BringUp.oopsGlCreate
  simp only [h.calloc, if_neg h.opened, h.screen, hconfig, h.drawable, h.context, hcurrent,
    if_neg hnot]
  rfl

/-- It unwinds exactly if no image was made. -/
theorem MadeCurrent.unwinds_iff (h : MadeCurrent b state screen drawable context) (m : Mesa)
    (hcurrent : b.current = false) :
    unwind (b.oopsGlCreate m).objects [] = some [] ↔ (askAll m Gl.zero b.asked).2 = [] := by
  rw [h.fails m hcurrent]
  dsimp only
  rw [unwind_append, unwind_append, unwind_bringActs, Option.bind_some, unwind_made,
    Option.bind_some]
  have hkind := (adds_askAll m Gl.zero b.asked).kind
  generalize (askAll m Gl.zero b.asked).2 = images at *
  constructor
  · intro hunwind
    rcases List.eq_nil_or_concat images with hnil | ⟨rest, o, rfl⟩
    · exact hnil
    · -- the last image is in the way
      obtain ⟨image, rfl⟩ := hkind o (by simp)
      rw [List.concat_eq_append, List.reverse_append] at hunwind
      have hfail : unwind (.gone (.context context) :: [.gone (.drawable drawable),
          .gone (.screen screen), .gone (.state state)])
          (Object.image image :: (rest.reverse ++ [.context context, .drawable drawable,
            .screen screen, .state state])) = none := if_neg nofun
      exact nomatch hfail.symm.trans hunwind
  · rintro rfl
    exact unwind_gone [Object.context context, Object.drawable drawable, Object.screen screen,
      Object.state state] []

/-- The display and its frame are there together or not at all. -/
theorem unwind_displayActs (b : BringUp) (h : OopsGl) (hscanbuf : gl.scanbuf = false)
    (hgl : h.gl = openDisplay gl (b.display.map Prod.snd) b.ready b.frame.isSome)
    (hdisplay : h.displayPtr = (b.display.map Prod.fst).getD 0)
    (hframe : h.framePtr = b.frame.getD 0) : unwind b.displayActs [] = some h.output := by
  unfold OopsGl.output BringUp.displayActs
  rw [hgl, hdisplay, hframe]
  unfold openDisplay
  cases b.display with
  | none =>
    show some [] = some ((if gl.scanbuf then _ else []) ++ [])
    rw [hscanbuf]
    rfl
  | some d =>
    cases b.ready with
    | false =>
      show (if _ then some [] else none) = some ((if gl.scanbuf then _ else []) ++ [])
      rw [hscanbuf]
      exact if_pos rfl
    | true =>
      cases b.frame with
      | none =>
        show (if _ then some [] else none) = some ((if gl.scanbuf then _ else []) ++ [])
        rw [hscanbuf]
        exact if_pos rfl
      | some frame => rfl

theorem openDisplay_images (gl : Gl) (opened : Option Display) (ready malloc : Bool) :
    (openDisplay gl opened ready malloc).images = gl.images := by
  unfold openDisplay
  cases opened with
  | none => rfl
  | some display =>
    dsimp only
    split <;> rfl

/-- What a handle has, piece by piece. -/
theorem objects_pieces {images images' core : List Object} (hcore : h.core = core)
    (himages : (h.gl.images : Multiset Object) = ↑(images ++ images') + 0)
    (live : Multiset Object) :
    (h.output : Multiset Object) + (↑images' + (↑images + (↑core + live))) =
      ↑h.objects + live := by
  rw [objects_eq, himages, hcore, ← Multiset.coe_add, ← Multiset.coe_add, Multiset.add_zero]
  generalize (images : Multiset Object) = i, (images' : Multiset Object) = i',
    (core : Multiset Object) = c, (h.output : Multiset Object) = o
  calc o + (i' + (i + (c + live))) = o + ((i + i') + (c + live)) := by
        rw [← Multiset.add_assoc i', Multiset.add_comm i']
    _ = (i + i') + o + (c + live) := by rw [← Multiset.add_assoc, Multiset.add_comm o]
    _ = (i + i') + (o + c) + live := by simp only [Multiset.add_assoc]

/-- A creation that succeeds leaves what its handle has. -/
theorem MadeCurrent.exec (h : MadeCurrent b state screen drawable context) (m : Mesa)
    (hcurrent : b.current = true) : ∃ handle, (b.oopsGlCreate m).handle = some handle ∧
      ∀ live, Lib.exec (b.oopsGlCreate m).objects live = some (↑handle.objects + live) := by
  have hboth := (adds_askAll m Gl.zero b.asked).trans
    (adds_makeImages m b.created (askAll m Gl.zero b.asked).1 0 2)
  have himages := hboth.images
  rw [← openDisplay_images _ (b.display.map Prod.snd) b.ready b.frame.isSome] at himages
  rw [h.succeeds m hcurrent]
  refine ⟨_, rfl, fun live => ?_⟩
  rw [← objects_pieces rfl himages]
  refine exec_trans (exec_trans (exec_trans (exec_bringActs _ _ _ _ _ _) (exec_made _ _))
    (exec_made _ _)) ?_
  have hdisplay := exec_of_unwind (unwind_displayActs b ⟨state, some screen, some drawable,
    some context, _, _, _⟩ hboth.scanbuf rfl rfl rfl)
  rw [Multiset.coe_nil] at hdisplay
  exact (congrArg _ (Multiset.zero_add _).symm).trans (hdisplay _)

/-! ## What is left -/

/-- The first images are made of whatever the frontend asks for. -/
theorem askAll_eq_nil_iff (m : Mesa) (asked : List Asking) :
    (askAll m Gl.zero asked).2 = [] ↔ ∀ a ∈ asked, a.wantsBack = true → a.created = none := by
  induction asked with
  | nil => exact ⟨fun _ => nofun, fun _ => rfl⟩
  | cons a asked ih =>
    obtain ⟨wantsBack, created⟩ := a
    rw [List.forall_mem_cons, ← ih]
    have hcons : (askAll m Gl.zero (⟨wantsBack, created⟩ :: asked)).2 =
        (imageMade Gl.zero ⟨wantsBack, created⟩).toList.map Object.image ++
          (askAll m (oopsGetBuffers m Gl.zero wantsBack created).2 asked).2 := rfl
    rw [hcons, List.append_eq_nil_iff]
    cases wantsBack with
    | false => exact and_congr_left fun _ => ⟨fun _ => nofun, fun _ => rfl⟩
    | true =>
      cases created with
      | none => exact and_congr_left fun _ => ⟨fun _ _ => rfl, fun _ => rfl⟩
      | some image =>
        constructor
        · rintro ⟨hmade, -⟩
          exact nomatch hmade
        · rintro ⟨hcreated, -⟩
          exact nomatch hcreated rfl

/-- The probe leaves open what it could open. -/
theorem exec_dupActs_iff (b : BringUp) :
    (∀ opened, exec b.dupActs opened = some opened) ↔ b.dupCloexec < 0 ∧ b.dup < 0 := by
  have hmade : b.dupActs = ([b.dupCloexec, b.dup].filter (0 ≤ ·)).map .made := by
    unfold BringUp.dupActs
    rw [List.filter_cons, List.filter_cons]
    simp only [decide_eq_true_eq]
    split <;> split <;> rfl
  rw [hmade, exec_made_eq_iff, List.filter_eq_nil_iff, List.forall_mem_cons,
    List.forall_mem_singleton]
  simp only [decide_eq_true_eq, Int.not_le]

variable {r : Round}

/-- A creation that fails leaves nothing to a handle. -/
theorem objects_of_fails (hnone : (r.bringUp.oopsGlCreate m).handle = none) :
    r.objects m = (r.bringUp.oopsGlCreate m).objects := by
  unfold Round.objects
  rw [hnone]
  exact List.append_nil _

/-- A creation that fails cleans up if it unwinds. -/
theorem cleansUp_of_fails (hnone : (r.bringUp.oopsGlCreate m).handle = none) :
    CleansUp m r ↔ unwind (r.bringUp.oopsGlCreate m).objects [] = some [] ∧
      ∀ opened, exec (r.descriptors m) opened = some opened := by
  constructor
  · intro h
    exact ⟨h.fails hnone, h.descriptors⟩
  · rintro ⟨hunwind, hdescriptors⟩
    refine ⟨fun _ => hunwind, fun live => ?_, hdescriptors⟩
    rw [objects_of_fails hnone]
    have hexec := exec_of_unwind hunwind live
    rwa [Multiset.coe_nil, Multiset.zero_add] at hexec

/-- A handle is destroyed with all that it has. -/
theorem MadeCurrent.cleansUp_iff (h : MadeCurrent r.bringUp state screen drawable context)
    (hcurrent : r.bringUp.current = true) :
    CleansUp m r ↔ ∀ opened, Lib.exec (r.descriptors m) opened = some opened := by
  obtain ⟨handle, hhandle, hexec⟩ := h.exec m hcurrent
  constructor
  · intro hclean
    exact hclean.descriptors
  · intro hdescriptors
    have hsome : (r.bringUp.oopsGlCreate m).handle ≠ none :=
      hhandle ▸ Option.some_ne_none handle
    refine ⟨fun hnone => absurd hnone hsome, fun live => ?_, hdescriptors⟩
    unfold Round.objects
    rw [hhandle]
    exact exec_trans (hexec live) (exec_after r handle live)

/-- The descriptors that are left open are those of the probe. -/
theorem MadeCurrent.descriptors (h : MadeCurrent b state screen drawable context) (m : Mesa) :
    (b.oopsGlCreate m).descriptors = b.dupActs := by
  cases hcurrent : b.current with
  | false => rw [h.fails m hcurrent]
  | true => rw [h.succeeds m hcurrent]

/-- A round cleans up exactly if nothing is forgotten. -/
theorem cleansUp_iff (m : Mesa) (r : Round) : CleansUp m r ↔ r.bringUp.Meets := by
  by_cases hearly : r.bringUp.calloc = none ∨ r.bringUp.opened < 0
  · obtain ⟨hnone, hunwind, hdescriptors⟩ := create_early m hearly
    rw [cleansUp_of_fails hnone]
    unfold Round.descriptors
    rw [hdescriptors]
    exact ⟨fun _ => hearly.imp_right .inl, fun _ => ⟨hunwind, fun _ => rfl⟩⟩
  · obtain ⟨hcalloc, hopened⟩ := not_or.mp hearly
    obtain ⟨state, hcalloc⟩ := Option.ne_none_iff_exists'.mp hcalloc
    have hmeets : r.bringUp.Meets ↔ (r.bringUp.dupCloexec < 0 ∧ r.bringUp.dup < 0) ∧
        (r.bringUp.MakesCurrent → r.bringUp.current = false →
          ∀ a ∈ r.bringUp.asked, a.wantsBack = true → a.created = none) := by
      unfold BringUp.Meets
      rw [← or_assoc, or_iff_right hearly, and_assoc]
    rw [hmeets]
    by_cases hmakes : r.bringUp.MakesCurrent
    · obtain ⟨screen, drawable, context, h⟩ := (makesCurrent_iff hcalloc hopened).mp hmakes
      have hdescriptors : (∀ opened, exec (r.descriptors m) opened = some opened) ↔
          r.bringUp.dupCloexec < 0 ∧ r.bringUp.dup < 0 := by
        unfold Round.descriptors
        rw [h.descriptors m]
        exact exec_dupActs_iff r.bringUp
      rw [← askAll_eq_nil_iff m]
      cases hcurrent : r.bringUp.current with
      | false =>
        have hnone : (r.bringUp.oopsGlCreate m).handle = none := by rw [h.fails m hcurrent]
        rw [cleansUp_of_fails hnone, h.unwinds_iff m hcurrent, hdescriptors, and_comm]
        exact and_congr_right fun _ => ⟨fun hnil _ _ => hnil, fun hnil => hnil hmakes rfl⟩
      | true =>
        rw [h.cleansUp_iff hcurrent, hdescriptors]
        exact ⟨fun hdups => ⟨hdups, nofun⟩, And.left⟩
    · obtain ⟨hnone, hunwind, hdescriptors⟩ := create_before m hcalloc hopened hmakes
      rw [cleansUp_of_fails hnone]
      unfold Round.descriptors
      rw [hdescriptors, exec_dupActs_iff]
      exact ⟨fun hclean => ⟨hclean.2, fun h => absurd h hmakes⟩,
        fun hmeets => ⟨hunwind, hmeets.1⟩⟩

/-- Any number of handles may be made, used and destroyed, and all that is made goes again, exactly
    if none of their creations opens a descriptor in its probe, or makes an image before it fails
    to make its context current. -/
theorem gl_rounds_iff (m : Mesa) (rounds : List Round) :
    RoundsCleanUp m rounds ↔ ∀ r ∈ rounds, r.bringUp.Meets := by
  constructor
  · intro h r hr
    exact (cleansUp_iff m r).mp (h.each r hr)
  · intro h
    have heach : ∀ r ∈ rounds, CleansUp m r := fun r hr => (cleansUp_iff m r).mpr (h r hr)
    exact ⟨heach, fun live => exec_flatMap rounds fun r hr => (heach r hr).destroys live,
      fun opened => exec_flatMap rounds fun r hr => (heach r hr).descriptors opened⟩

/-- A creation on the hardware, whose `F_DUPFD` gives 15 for the device descriptor 11. -/
def BringUp.probed : BringUp where
  calloc := some 1
  opened := 11
  version := some 2
  dupCloexec := -1
  dup := 15
  screen := some 3
  configs := some [⟨some 8, some 8, some 8, some 8, some 1, some 24⟩]
  drawable := some 4
  context := some 5
  asked := []
  current := true
  created _ := none
  display := none
  ready := false
  frame := none

/-- The handle is destroyed, and descriptor 15 is still open. -/
theorem not_rounds_clean_up :
    ¬ ∀ (m : Mesa) (rounds : List Round), RoundsCleanUp m rounds := by
  intro h
  have hopen := (h ⟨fun _ => none, fun _ => 0, fun _ => 0, 1920, 1080⟩
    [⟨BringUp.probed, []⟩]).descriptors 0
  have hprobe : exec [Act.made (15 : Int)] 0 = some 0 := hopen
  exact absurd hprobe (by decide)

end OopsMesa.Platform
