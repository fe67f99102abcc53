/-
  The frontend loader: the images Mesa draws into, and how they come on screen.

  `oops_gl_create` makes two images, offers their buffers to the display, and opens it.
  `getBuffers` gives the frontend the image that `draw` names. A present flips that image, if the
  display took the buffers, and goes on to the other one; otherwise the frame is read back and
  copied. Image creation, the display and the flips may each fail at any time.

  What Mesa and the winsys say of an image (its handle, and the size and the address of its
  buffer) is a parameter, and so is what the display makes of the buffers it was offered: the flip
  index of each, negative where it has none.
-/
import Mathlib.Algebra.Group.Nat.Defs
import Mathlib.Algebra.Ring.Int.Defs
import Mathlib.Data.List.Basic
import Mathlib.Logic.Function.Basic

namespace OopsMesa.Platform

/-! ## The code -/

/-- A `dri_image`, by its address. -/
abbrev Image := Nat

/-- What Mesa answers to `dri2_query_image` for the handle of an image, what the winsys says of a
    handle, and the size of the screen. -/
structure Mesa where
  queryImage : Image → Option Int
  boSize : Nat → Nat
  boGpuVa : Nat → Nat
  width : Nat
  height : Nat

/-- A display that was opened: the buffers it was offered, and `oops_display_adopted_index`, which
    has an index for no others. -/
structure Display where
  adopted : List Nat
  index : Nat → Int
  own : ∀ i, 0 ≤ index i → i < adopted.length

/-- `struct oops_gl`, from `back` on. `scanbuf` is whether there is one. -/
structure Gl where
  back : Nat → Option Image
  draw : Nat
  nImages : Nat
  gem : Nat → Int
  gemBytes : Nat → Nat
  scanoutIndex : Nat → Int
  registered : Bool
  directTried : Bool
  display : Option Display
  scanbuf : Bool

/-- `calloc` -/
def Gl.zero : Gl :=
  ⟨fun _ => none, 0, 0, fun _ => 0, fun _ => 0, fun _ => 0, false, false, none, false⟩

/-- `(uint32_t)gem` -/
def handleOf (gem : Int) : Nat := (gem % 2 ^ 32).toNat

/-- The address of the buffer of a handle, 0 for no handle. -/
def Mesa.vaOf (m : Mesa) (gem : Int) : Nat := if gem ≠ 0 then m.boGpuVa (handleOf gem) else 0

/-- A new image in `back[which]`, with its handle and size, if Mesa would say. -/
def keepImage (m : Mesa) (gl : Gl) (which : Nat) (image : Image) : Gl :=
  match m.queryImage image with
  | some gem =>
    { gl with
      back := Function.update gl.back which (some image)
      gem := Function.update gl.gem which gem
      gemBytes := Function.update gl.gemBytes which (m.boSize (handleOf gem)) }
  | none => { gl with back := Function.update gl.back which (some image) }

/-- `oops_get_buffers`. The result is `buffers->back`, `none` if it returns 0; `wantsBack` is the
    bit of `buffer_mask`, and `created` is what `dri_create_image` gives. -/
def oopsGetBuffers (m : Mesa) (gl : Gl) (wantsBack : Bool) (created : Option Image) :
    Option Image × Gl :=
  if !wantsBack then (none, gl)
  else
    let which := if gl.draw > 1 then 0 else gl.draw
    match gl.back which with
    | some image => (some image, gl)
    | none =>
      match created with
      | none => (none, gl)
      | some image => (some image, keepImage m gl which image)

/-- `ensure_back_image` -/
def ensureBackImage (m : Mesa) (gl : Gl) (which : Nat) (created : Option Image) : Bool × Gl :=
  if which > 1 then (false, gl)
  else if (gl.back which).isSome then (true, gl)
  else
    let (image, gl') := oopsGetBuffers m { gl with draw := which } true created
    (image.isSome && (gl'.back which).isSome, { gl' with draw := gl.draw })

/-- The loop of `oops_gl_create` that makes the images, from image `i` on. -/
def makeImages (m : Mesa) (created : Nat → Option Image) (gl : Gl) (i : Nat) : Nat → Gl
  | 0 => gl
  | left + 1 =>
    let (made, gl) := ensureBackImage m gl i (created i)
    if made then makeImages m created { gl with nImages := i + 1 } (i + 1) left else gl

/-- The size of a plain `64KB_R_X` surface. -/
def Mesa.plain (m : Mesa) : Nat := m.width * ((m.height + 127) / 128 * 128) * 4 % 2 ^ 64

/-- The buffers that may be scanned. -/
def offers (m : Mesa) (gl : Gl) : List Nat :=
  (List.range gl.nImages).filterMap fun i =>
    if m.vaOf (gl.gem i) ≠ 0 ∧ gl.gemBytes i = m.plain then some (m.vaOf (gl.gem i)) else none

/-- `adopt`: all of the buffers or none. -/
def adopt (m : Mesa) (gl : Gl) : List Nat :=
  if (offers m gl).length ≠ gl.nImages then [] else offers m gl

/-- The display as `oops_gl_create` keeps it: `opened` is what `oops_display_open_adopting` gives,
    `ready` what `oops_display_is_ready` says, and `malloc` whether there is memory for a frame. -/
def openDisplay (gl : Gl) (opened : Option Display) (ready malloc : Bool) : Gl :=
  match opened with
  | none => { gl with display := none }
  | some display =>
    if ready && malloc then { gl with display := some display, scanbuf := true }
    else { gl with display := none }

/-- `oops_gl_create`, from where the context is current. -/
def oopsGlCreate (m : Mesa) (gl : Gl) (created : Nat → Option Image) (opened : Option Display)
    (ready malloc : Bool) : Gl :=
  openDisplay (makeImages m created gl 0 2) opened ready malloc

/-- The loop of `try_direct_scanout`, from buffer `i` on. -/
def takeIndices (display : Display) (gl : Gl) (i : Nat) : Nat → Bool × Gl
  | 0 => (true, gl)
  | left + 1 =>
    if display.index i < 0 then (false, gl)
    else
      takeIndices display
        { gl with scanoutIndex := Function.update gl.scanoutIndex i (display.index i) } (i + 1) left

/-- `try_direct_scanout` -/
def tryDirectScanout (gl : Gl) : Bool × Gl :=
  let gl := { gl with directTried := true }
  match gl.display with
  | none => (false, gl)
  | some display =>
    if gl.nImages = 0 then (false, gl)
    else
      let (taken, gl) := takeIndices display gl 0 gl.nImages
      if taken then (true, { gl with registered := true }) else (false, gl)

inductive GlEvent where
  /-- `getBuffers` gave the frontend the image. -/
  | returned (image : Image)
  /-- The display flipped to the index; the image is `back[shown]`. -/
  | flipped (image : Option Image) (index : Int)
  | refused (image : Option Image) (index : Int)
  /-- `dri_invalidate_drawable` -/
  | invalidated
  /-- `oops_display_present` of a frame that was read back. -/
  | copied
  deriving DecidableEq

/-- The end of `oops_gl_present`, where the frame is read back. -/
def readBack (gl : Gl) (events : List GlEvent) : Bool × Gl × List GlEvent :=
  if gl.display.isNone || !gl.scanbuf then (false, gl, events) else (true, gl, .copied :: events)

/-- `oops_gl_present`, and what it does, the last thing first. `flip` is what
    `oops_display_flip_index` returns. -/
def oopsGlPresent (gl : Gl) (flip : Int) : Bool × Gl × List GlEvent :=
  let gl := if gl.directTried then gl else (tryDirectScanout gl).2
  if gl.registered then
    let shown := if gl.draw < gl.nImages then gl.draw else 0
    if flip = 0 then
      if gl.nImages > 1 then
        (true, { gl with draw := (gl.draw + 1) % gl.nImages },
          [.invalidated, .flipped (gl.back shown) (gl.scanoutIndex shown)])
      else (true, gl, [.flipped (gl.back shown) (gl.scanoutIndex shown)])
    else
      readBack { gl with registered := false } [.refused (gl.back shown) (gl.scanoutIndex shown)]
  else readBack gl []

/-! ## Runs -/

/-- The loader, and what has happened, the last thing first. -/
structure Loader where
  gl : Gl
  past : List GlEvent

def Loader.getBuffers (m : Mesa) (c : Loader) (wantsBack : Bool) (created : Option Image) :
    Loader :=
  match oopsGetBuffers m c.gl wantsBack created with
  | (some image, gl) => ⟨gl, .returned image :: c.past⟩
  | (none, gl) => ⟨gl, c.past⟩

def Loader.present (c : Loader) (flip : Int) : Loader :=
  ⟨(oopsGlPresent c.gl flip).2.1, (oopsGlPresent c.gl flip).2.2 ++ c.past⟩

/-- A new image is none that there is. -/
def Gl.Fresh (gl : Gl) (created : Option Image) : Prop :=
  ∀ image, created = some image → ∀ i, gl.back i ≠ some image

/-- Inside `oops_gl_create`: the frontend may have asked for buffers. -/
inductive Creating (m : Mesa) : Loader → Prop
  | start : Creating m ⟨Gl.zero, []⟩
  | getBuffers {c : Loader} (wantsBack : Bool) (created : Option Image) :
      Creating m c → c.gl.Fresh created → Creating m (c.getBuffers m wantsBack created)

/-- After `oops_gl_create`: any sequence of calls, with any outcomes. -/
inductive Presenting (m : Mesa) : Loader → Prop
  | create {c : Loader} (created : Nat → Option Image) (opened : Option Display)
      (ready malloc : Bool) : Creating m c → (∀ i, c.gl.Fresh (created i)) →
      (∀ i j image, created i = some image → created j = some image → i = j) →
      (∀ display, opened = some display →
        display.adopted = adopt m (makeImages m created c.gl 0 2)) →
      Presenting m ⟨oopsGlCreate m c.gl created opened ready malloc, c.past⟩
  | getBuffers {c : Loader} (wantsBack : Bool) (created : Option Image) :
      Presenting m c → c.gl.Fresh created → Presenting m (c.getBuffers m wantsBack created)
  | present {c : Loader} (flip : Int) : Presenting m c → Presenting m (c.present flip)

/-! ## The statement -/

/-- The image the frontend draws into: what it was given since the drawable was invalidated. -/
def drawing : List GlEvent → Option Image
  | [] => none
  | .returned image :: _ => some image
  | .invalidated :: _ => none
  | _ :: past => drawing past

/-- The image most recently flipped. -/
def lastFlipped : List GlEvent → Option Image
  | [] => none
  | .flipped image _ :: _ => image
  | _ :: past => lastFlipped past

/-- The address of an image's buffer. -/
def Mesa.address (m : Mesa) (image : Image) : Nat := m.vaOf ((m.queryImage image).getD 0)

/-- The frontend never draws into the image on screen. -/
structure NeverOnScreen (m : Mesa) (c : Loader) : Prop where
  draw : c.gl.draw < 2
  /-- A flip, refused or not, is of the image the frontend was drawing, by the index the display
      gave to that image's buffer. -/
  flips : ∀ flip image index, (.flipped image index ∈ (oopsGlPresent c.gl flip).2.2 ∨
    .refused image index ∈ (oopsGlPresent c.gl flip).2.2) → c.gl.nImages = 2 →
      ∃ display drawn, image = some drawn ∧ c.gl.back c.gl.draw = some drawn ∧
        c.gl.display = some display ∧ display.adopted[c.gl.draw]? = some (m.address drawn) ∧
        index = display.index c.gl.draw ∧ ∀ held, drawing c.past = some held → held = drawn
  /-- After a flip the frontend is to ask again, and gets the other image. -/
  after : ∀ flip image index, .flipped image index ∈ (oopsGlPresent c.gl flip).2.2 →
    c.gl.nImages = 2 → .invalidated ∈ (oopsGlPresent c.gl flip).2.2 ∧
      drawing (c.present flip).past = none ∧ ∀ wantsBack created next,
        (oopsGetBuffers m (c.present flip).gl wantsBack created).1 = some next → image ≠ some next
  /-- And so until the next flip, however often it asks. -/
  apart : c.gl.registered = true → c.gl.nImages = 2 → ∀ image, lastFlipped c.past = some image →
    drawing c.past ≠ some image ∧ ∀ wantsBack created,
      (oopsGetBuffers m c.gl wantsBack created).1 ≠ some image
  /-- A refused flip leaves `draw` and what was shown. -/
  refused : ∀ flip image index, .refused image index ∈ (oopsGlPresent c.gl flip).2.2 →
    (c.present flip).gl.draw = c.gl.draw ∧ lastFlipped (c.present flip).past = lastFlipped c.past
  /-- It is the last. -/
  never : ∀ image index, .refused image index ∈ c.past → ∀ flip image' index',
    .flipped image' index' ∉ (oopsGlPresent c.gl flip).2.2 ∧
      .refused image' index' ∉ (oopsGlPresent c.gl flip).2.2

end OopsMesa.Platform
