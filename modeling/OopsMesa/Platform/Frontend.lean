/-
  The frontend never draws into the image on screen.

  The invariant is `LoaderOk`. Images are only added, each in an empty place (`Kept`), so the
  buffer that the display took in a place stays the one of the image there. A present is one of
  four (`oopsGlPresent_cases`), and each keeps the invariant.
-/
import OopsMesa.Platform.Present

namespace OopsMesa.Platform

variable {m : Mesa} {gl gl' : Gl} {created : Option Image} {image : Image} {which : Nat}

/-! ## Images -/

/-- No image is in two places, and `gem` is what Mesa said of each. -/
structure ImagesOk (m : Mesa) (gl : Gl) : Prop where
  distinct : ∀ i j image, gl.back i = some image → gl.back j = some image → i = j
  gem : ∀ i, gl.gem i = ((gl.back i).bind m.queryImage).getD 0

/-- Images were added, and no more. -/
structure Kept (gl gl' : Gl) : Prop where
  back : ∀ i image, gl.back i = some image → gl'.back i = some image
  draw : gl'.draw = gl.draw
  registered : gl'.registered = gl.registered
  directTried : gl'.directTried = gl.directTried
  display : gl'.display = gl.display
  scanoutIndex : gl'.scanoutIndex = gl.scanoutIndex

theorem Kept.refl : Kept gl gl := ⟨fun _ _ h => h, rfl, rfl, rfl, rfl, rfl⟩

theorem Kept.trans {gl'' : Gl} (h : Kept gl gl') (h' : Kept gl' gl'') : Kept gl gl'' where
  back i image hi := h'.back i image (h.back i image hi)
  draw := h'.draw.trans h.draw
  registered := h'.registered.trans h.registered
  directTried := h'.directTried.trans h.directTried
  display := h'.display.trans h.display
  scanoutIndex := h'.scanoutIndex.trans h.scanoutIndex

/-- The address of the image in a place. -/
theorem ImagesOk.vaOf_gem (h : ImagesOk m gl) {i : Nat} (hi : gl.back i = some image) :
    m.vaOf (gl.gem i) = m.address image := by
  rw [h.gem i, hi]
  rfl

theorem keepImage_back : (keepImage m gl which image).back =
    Function.update gl.back which (some image) := by
  unfold keepImage
  cases m.queryImage image <;> rfl

theorem keepImage_nImages : (keepImage m gl which image).nImages = gl.nImages := by
  unfold keepImage
  cases m.queryImage image <;> rfl

theorem keepImage_gem (h : gl.gem which = 0) : (keepImage m gl which image).gem =
    Function.update gl.gem which ((m.queryImage image).getD 0) := by
  unfold keepImage
  cases m.queryImage image with
  | none => exact (by rw [← h]; exact Function.update_eq_self which gl.gem : _ = _).symm
  | some gem => rfl

theorem kept_keepImage (hnone : gl.back which = none) : Kept gl (keepImage m gl which image) := by
  refine ⟨fun i other hi => ?_, ?_, ?_, ?_, ?_, ?_⟩
  · have hne : i ≠ which := by
      rintro rfl
      exact nomatch hi.symm.trans hnone
    rw [keepImage_back, Function.update_of_ne hne, hi]
  all_goals
    unfold keepImage
    cases m.queryImage image <;> rfl

/-- A new image in an empty place. -/
theorem ImagesOk.keepImage (h : ImagesOk m gl) (hnone : gl.back which = none)
    (hfresh : ∀ i, gl.back i ≠ some image) : ImagesOk m (keepImage m gl which image) := by
  have hzero : gl.gem which = 0 := by
    rw [h.gem which, hnone]
    rfl
  have hcases : ∀ i other, (Platform.keepImage m gl which image).back i = some other →
      (i = which ∧ other = image) ∨ gl.back i = some other := by
    intro i other hi
    rw [keepImage_back] at hi
    rcases Decidable.em (i = which) with rfl | hne
    · rw [Function.update_self] at hi
      exact .inl ⟨rfl, (Option.some.inj hi).symm⟩
    · rw [Function.update_of_ne hne] at hi
      exact .inr hi
  refine ⟨fun i j other hi hj => ?_, fun i => ?_⟩
  · obtain ⟨rfl, rfl⟩ | hi' := hcases i other hi
    · obtain ⟨rfl, -⟩ | hj' := hcases j _ hj
      · rfl
      · exact absurd hj' (hfresh j)
    · obtain ⟨-, rfl⟩ | hj' := hcases j other hj
      · exact absurd hi' (hfresh i)
      · exact h.distinct i j other hi' hj'
  · rw [keepImage_gem hzero, keepImage_back]
    rcases Decidable.em (i = which) with rfl | hne
    · rw [Function.update_self, Function.update_self]
      rfl
    · rw [Function.update_of_ne hne, Function.update_of_ne hne]
      exact h.gem i

/-! ## `oops_get_buffers` and the images of `oops_gl_create` -/

theorem Loader.getBuffers_gl (c : Loader) (wantsBack : Bool) (created : Option Image) :
    (c.getBuffers m wantsBack created).gl = (oopsGetBuffers m c.gl wantsBack created).2 := by
  unfold Loader.getBuffers
  rcases oopsGetBuffers m c.gl wantsBack created with ⟨_ | image, gl⟩ <;> rfl

/-- `oops_get_buffers` gives nothing, or the image `draw` names, which it makes if there is none. -/
theorem oopsGetBuffers_cases (m : Mesa) (hdraw : gl.draw < 2) (wantsBack : Bool)
    (created : Option Image) :
    oopsGetBuffers m gl wantsBack created = (none, gl) ∨
    (∃ image, gl.back gl.draw = some image ∧
      oopsGetBuffers m gl wantsBack created = (some image, gl)) ∨
    ∃ image, gl.back gl.draw = none ∧ created = some image ∧
      oopsGetBuffers m gl wantsBack created = (some image, keepImage m gl gl.draw image) := by
  have hwhich : (if gl.draw > 1 then 0 else gl.draw) = gl.draw := if_neg (by omega)
  unfold oopsGetBuffers
  rw [hwhich]
  cases wantsBack with
  | false => exact .inl rfl
  | true =>
    dsimp only
    rw [if_neg (by decide)]
    cases hback : gl.back gl.draw with
    | some image => exact .inr (.inl ⟨image, rfl, rfl⟩)
    | none =>
      cases created with
      | none => exact .inl rfl
      | some image => exact .inr (.inr ⟨image, rfl, rfl, rfl⟩)

/-- `ensure_back_image` adds at most one image, which is new. -/
theorem ensureBackImage_spec (h : ImagesOk m gl) (hwhich : which ≤ 1)
    (hfresh : gl.Fresh created) :
    let r := ensureBackImage m gl which created
    ImagesOk m r.2 ∧ Kept gl r.2 ∧ r.2.nImages = gl.nImages ∧
      (r.1 = true → (r.2.back which).isSome) ∧
      ∀ i image, r.2.back i = some image → gl.back i = some image ∨ created = some image := by
  have hle : ¬ which > 1 := by omega
  unfold ensureBackImage
  rw [if_neg hle]
  rcases Decidable.em ((gl.back which).isSome = true) with hsome | hnone
  · rw [if_pos hsome]
    exact ⟨h, .refl, rfl, fun _ => hsome, fun _ _ hi => .inl hi⟩
  · rw [if_neg hnone]
    have hdraw : ({ gl with draw := which } : Gl).draw < 2 := by
      show which < 2
      omega
    obtain heq | ⟨image, hback, -⟩ | ⟨image, hback, rfl, heq⟩ :=
      oopsGetBuffers_cases m hdraw true created
    · rw [heq]
      exact ⟨⟨h.distinct, h.gem⟩, ⟨fun _ _ hi => hi, rfl, rfl, rfl, rfl, rfl⟩, rfl, nofun,
        fun _ _ hi => .inl hi⟩
    · exact absurd (Option.isSome_of_eq_some hback) hnone
    · rw [heq]
      have hkept : Kept { gl with draw := which }
          (keepImage m { gl with draw := which } which image) := kept_keepImage hback
      have himages : ImagesOk m ({ gl with draw := which } : Gl) := ⟨h.distinct, h.gem⟩
      have hok := himages.keepImage hback (hfresh image rfl)
      refine ⟨⟨hok.distinct, hok.gem⟩, ⟨hkept.back, rfl, hkept.registered, hkept.directTried,
        hkept.display, hkept.scanoutIndex⟩, keepImage_nImages, fun _ => ?_, fun i other hi => ?_⟩
      · show ((keepImage m { gl with draw := which } which image).back which).isSome = true
        rw [keepImage_back, Function.update_self]
        rfl
      · change (keepImage m { gl with draw := which } which image).back i = some other at hi
        rw [keepImage_back] at hi
        rcases Decidable.em (i = which) with rfl | hne
        · rw [Function.update_self] at hi
          exact .inr hi
        · rw [Function.update_of_ne hne] at hi
          exact .inl hi

/-- What holds once the first images are made. -/
structure Made (m : Mesa) (gl : Gl) : Prop where
  images : ImagesOk m gl
  two : gl.nImages ≤ 2
  some : ∀ i, i < gl.nImages → (gl.back i).isSome

theorem makeImages_spec {new : Nat → Option Image} (left : Nat) (h : Made m gl)
    (hleft : gl.nImages + left ≤ 2) (hfresh : ∀ i, gl.nImages ≤ i → gl.Fresh (new i))
    (hnew : ∀ i j image, new i = Option.some image → new j = Option.some image → i = j) :
    Made m (makeImages m new gl gl.nImages left) ∧
      Kept gl (makeImages m new gl gl.nImages left) := by
  induction left generalizing gl with
  | zero => exact ⟨h, .refl⟩
  | succ left ih =>
    obtain ⟨himages, hkept, hn, hmade, hadded⟩ :=
      ensureBackImage_spec h.images (by omega : gl.nImages ≤ 1) (hfresh gl.nImages (Nat.le_refl _))
    unfold makeImages
    dsimp only
    generalize ensureBackImage m gl gl.nImages (new gl.nImages) = r at *
    have hsome : ∀ i, i < gl.nImages → (r.2.back i).isSome := by
      intro i hi
      obtain ⟨image, himage⟩ := Option.isSome_iff_exists.mp (h.some i hi)
      exact Option.isSome_of_eq_some (hkept.back i image himage)
    rcases Decidable.em (r.1 = true) with hr | hr
    · rw [if_pos hr]
      have hnext : Made m { r.2 with nImages := gl.nImages + 1 } := by
        refine ⟨⟨himages.distinct, himages.gem⟩, ?_, fun i hi => ?_⟩
        · show gl.nImages + 1 ≤ 2
          omega
        · rcases Nat.lt_succ_iff_lt_or_eq.mp hi with hlt | rfl
          · exact hsome i hlt
          · exact hmade hr
      have hkept' : Kept gl { r.2 with nImages := gl.nImages + 1 } :=
        ⟨hkept.back, hkept.draw, hkept.registered, hkept.directTried, hkept.display,
          hkept.scanoutIndex⟩
      have hfresh' : ∀ i, gl.nImages + 1 ≤ i →
          Gl.Fresh { r.2 with nImages := gl.nImages + 1 } (new i) := by
        intro i hi image himage j hj
        rcases hadded j image hj with hold | hadd
        · exact hfresh i (by omega) image himage j hold
        · have := hnew i gl.nImages image himage hadd
          omega
      obtain ⟨hmade', hkept''⟩ := ih hnext (by show gl.nImages + 1 + left ≤ 2; omega) hfresh'
      exact ⟨hmade', hkept'.trans hkept''⟩
    · rw [if_neg hr]
      refine ⟨⟨himages, ?_, fun i hi => hsome i (hn ▸ hi)⟩, hkept⟩
      rw [hn]
      exact h.two

/-- The buffer in a place may be scanned. -/
def Scannable (m : Mesa) (gl : Gl) (i : Nat) : Prop :=
  m.vaOf (gl.gem i) ≠ 0 ∧ gl.gemBytes i = m.plain

theorem scannable_of_adopt (h : adopt m gl ≠ []) : ∀ i, i < gl.nImages → Scannable m gl i := by
  unfold adopt at h
  have hall : (offers m gl).length = gl.nImages :=
    Decidable.byContradiction fun hne => h (if_pos hne)
  rw [← List.length_range (n := gl.nImages)] at hall
  -- no image was left out
  intro i hi
  obtain ⟨va, hva⟩ := Option.isSome_iff_exists.mp
    (List.filterMap_length_eq_length.mp hall i (List.mem_range.mpr hi))
  rcases Decidable.em (m.vaOf (gl.gem i) ≠ 0 ∧ gl.gemBytes i = m.plain) with hi | hi
  · exact hi
  · rw [if_neg hi] at hva
    exact nomatch hva

theorem adopt_of_scannable (h : ∀ i, i < gl.nImages → Scannable m gl i) :
    adopt m gl = (List.range gl.nImages).map fun i => m.vaOf (gl.gem i) := by
  have hoffers : offers m gl = (List.range gl.nImages).map fun i => m.vaOf (gl.gem i) :=
    List.filterMap_eq_map_iff_forall_eq_some.mpr fun i hi =>
      if_pos (h i (List.mem_range.mp hi))
  have hlength : (offers m gl).length = gl.nImages := by
    rw [hoffers, List.length_map, List.length_range]
  unfold adopt
  rw [if_neg (not_not.mpr hlength), hoffers]

/-- An adopted buffer is that of the image in its place. -/
theorem adopt_getElem? {i va : Nat} (h : (adopt m gl)[i]? = some va) :
    i < gl.nImages ∧ va = m.vaOf (gl.gem i) := by
  have hne : adopt m gl ≠ [] := by
    intro hnil
    rw [hnil] at h
    exact nomatch h
  rw [adopt_of_scannable (scannable_of_adopt hne)] at h
  have hlt : i < gl.nImages := by
    have := (List.getElem?_eq_some_iff.mp h).1
    rwa [List.length_map, List.length_range] at this
  rw [List.getElem?_map, List.getElem?_range hlt] at h
  exact ⟨hlt, (Option.some.inj h).symm⟩

/-! ## `try_direct_scanout` and `oops_gl_present` -/

/-- The indices are those of the display. -/
theorem takeIndices_spec (display : Display) (gl : Gl) (i left : Nat) :
    ∃ indices, (takeIndices display gl i left).2 = { gl with scanoutIndex := indices } ∧
      (∀ j, j < i → indices j = gl.scanoutIndex j) ∧
      ((takeIndices display gl i left).1 = true →
        ∀ j, i ≤ j → j < i + left → indices j = display.index j ∧ 0 ≤ display.index j) := by
  induction left generalizing gl i with
  | zero => exact ⟨gl.scanoutIndex, rfl, fun _ _ => rfl, fun _ j hij hj => by omega⟩
  | succ left ih =>
    unfold takeIndices
    rcases Decidable.em (display.index i < 0) with hneg | hpos
    · rw [if_pos hneg]
      exact ⟨gl.scanoutIndex, rfl, fun _ _ => rfl, nofun⟩
    · rw [if_neg hpos]
      obtain ⟨indices, heq, hold, htaken⟩ :=
        ih { gl with scanoutIndex := Function.update gl.scanoutIndex i (display.index i) } (i + 1)
      refine ⟨indices, heq, fun j hj => ?_, fun ht j hij hj => ?_⟩
      · exact (hold j (by omega)).trans (Function.update_of_ne (by omega) ..)
      · rcases Nat.eq_or_lt_of_le hij with rfl | hlt
        · exact ⟨(hold i (by omega)).trans (Function.update_self ..), by omega⟩
        · exact htaken ht j hlt (by omega)

/-- `oops_gl` once present has tried the direct path. -/
def Gl.tried (gl : Gl) : Gl := if gl.directTried then gl else (tryDirectScanout gl).2

/-- `gl` is registered: each image has the index the display gave to it. -/
structure Direct (gl : Gl) (display : Display) : Prop where
  display_eq : gl.display = some display
  nonempty : gl.nImages ≠ 0
  index : ∀ i, i < gl.nImages → gl.scanoutIndex i = display.index i ∧ 0 ≤ display.index i

/-- It registers the images, or changes nothing that is used. -/
theorem tryDirectScanout_cases (gl : Gl) :
    ∃ indices registered, (tryDirectScanout gl).2 =
        { gl with directTried := true, scanoutIndex := indices, registered := registered } ∧
      (registered = gl.registered ∨
        ∃ display, Direct (tryDirectScanout gl).2 display) := by
  obtain ⟨back, draw, n, gem, gemBytes, indices₀, registered₀, tried, display, scanbuf⟩ := gl
  unfold tryDirectScanout
  cases display with
  | none => exact ⟨indices₀, registered₀, rfl, .inl rfl⟩
  | some display =>
    dsimp only
    rcases Decidable.em (n = 0) with hz | hz
    · rw [if_pos hz]
      exact ⟨indices₀, registered₀, rfl, .inl rfl⟩
    · rw [if_neg hz]
      obtain ⟨indices, heq, -, htaken⟩ := takeIndices_spec display
        ⟨back, draw, n, gem, gemBytes, indices₀, registered₀, true, some display, scanbuf⟩ 0 n
      rcases Decidable.em ((takeIndices display
        ⟨back, draw, n, gem, gemBytes, indices₀, registered₀, true, some display, scanbuf⟩ 0 n).1 =
          true) with ht | ht
      · rw [if_pos ht, heq]
        refine ⟨indices, true, rfl, .inr ⟨display, rfl, hz, fun i (hi : i < n) => ?_⟩⟩
        exact htaken ht i (Nat.zero_le i) (by omega)
      · rw [if_neg ht]
        exact ⟨indices, registered₀, heq, .inl rfl⟩

/-- What a present does, once it has tried the direct path. -/
theorem oopsGlPresent_cases (gl : Gl) (flip : Int) :
    let g := gl.tried
    let shown := if g.draw < g.nImages then g.draw else 0
    (g.registered = true ∧ 1 < g.nImages ∧ oopsGlPresent gl flip =
      (true, { g with draw := (g.draw + 1) % g.nImages },
        [.invalidated, .flipped (g.back shown) (g.scanoutIndex shown)])) ∨
    (g.registered = true ∧ g.nImages ≤ 1 ∧ oopsGlPresent gl flip =
      (true, g, [.flipped (g.back shown) (g.scanoutIndex shown)])) ∨
    (g.registered = true ∧ ∃ ok es, (es = [] ∨ es = [.copied]) ∧ oopsGlPresent gl flip =
      (ok, { g with registered := false },
        es ++ [.refused (g.back shown) (g.scanoutIndex shown)])) ∨
    (g.registered = false ∧ ∃ ok es, (es = [] ∨ es = [.copied]) ∧
      oopsGlPresent gl flip = (ok, g, es)) := by
  have hread : ∀ (g : Gl) events, ∃ ok es, (es = [] ∨ es = [GlEvent.copied]) ∧
      readBack g events = (ok, g, es ++ events) := by
    intro g events
    unfold readBack
    rcases Decidable.em ((g.display.isNone || !g.scanbuf) = true) with hnone | hsome
    · exact ⟨false, [], .inl rfl, if_pos hnone⟩
    · exact ⟨true, [.copied], .inr rfl, if_neg hsome⟩
  intro g shown
  have heq : oopsGlPresent gl flip = if g.registered then
      (if flip = 0 then
        (if g.nImages > 1 then (true, { g with draw := (g.draw + 1) % g.nImages },
          [.invalidated, .flipped (g.back shown) (g.scanoutIndex shown)])
        else (true, g, [.flipped (g.back shown) (g.scanoutIndex shown)]))
      else readBack { g with registered := false }
        [.refused (g.back shown) (g.scanoutIndex shown)])
    else readBack g [] := rfl
  rw [heq]
  cases hreg : g.registered with
  | false =>
    obtain ⟨ok, es, hes, hback⟩ := hread g []
    refine .inr (.inr (.inr ⟨rfl, ok, es, hes, ?_⟩))
    rw [if_neg Bool.false_ne_true, hback, List.append_nil]
  | true =>
    rw [if_pos rfl]
    rcases Decidable.em (flip = 0) with hflip | hflip
    · rw [if_pos hflip]
      rcases Decidable.em (g.nImages > 1) with hn | hn
      · exact .inl ⟨rfl, hn, if_pos hn⟩
      · exact .inr (.inl ⟨rfl, by omega, if_neg hn⟩)
    · rw [if_neg hflip]
      obtain ⟨ok, es, hes, hback⟩ := hread { g with registered := false }
        [.refused (g.back shown) (g.scanoutIndex shown)]
      exact .inr (.inr (.inl ⟨rfl, ok, es, hes, hback⟩))

/-! ## The invariant -/

structure LoaderOk (m : Mesa) (c : Loader) : Prop extends Made m c.gl where
  range : c.gl.draw = 0 ∨ c.gl.draw < c.gl.nImages
  /-- The display has the buffers of the images, in their places. -/
  adopted : ∀ display, c.gl.display = Option.some display → ∀ (i va : Nat),
    display.adopted[i]? = Option.some va →
      ∃ image, c.gl.back i = Option.some image ∧ va = m.address image
  registered : c.gl.registered = true → c.gl.directTried = true ∧ ∃ display, Direct c.gl display
  held : ∀ image, drawing c.past = Option.some image → c.gl.back c.gl.draw = Option.some image
  apart : c.gl.registered = true → c.gl.nImages = 2 → ∀ image,
    lastFlipped c.past = Option.some image → c.gl.back c.gl.draw ≠ Option.some image
  untried : c.gl.directTried = false → lastFlipped c.past = none
  spent : ∀ image index, .refused image index ∈ c.past →
    c.gl.registered = false ∧ c.gl.directTried = true

variable {c : Loader}

theorem LoaderOk.draw_lt (h : LoaderOk m c) : c.gl.draw < 2 := by
  have := h.two
  have := h.range
  omega

/-- Trying the direct path leaves the images and the display. -/
theorem tried_eq (gl : Gl) : ∃ indices registered,
    gl.tried = { gl with directTried := true, scanoutIndex := indices, registered := registered } ∧
      (gl.directTried = true → indices = gl.scanoutIndex ∧ registered = gl.registered) ∧
      (gl.directTried = false →
        registered = gl.registered ∨ ∃ display, Direct gl.tried display) := by
  unfold Gl.tried
  cases htried : gl.directTried with
  | true =>
    refine ⟨gl.scanoutIndex, gl.registered, ?_, fun _ => ⟨rfl, rfl⟩, nofun⟩
    rw [if_pos rfl, ← htried]
  | false =>
    obtain ⟨indices, registered, heq, hdirect⟩ := tryDirectScanout_cases gl
    exact ⟨indices, registered, heq, nofun, fun _ => hdirect⟩

theorem LoaderOk.tried (h : LoaderOk m c) : LoaderOk m ⟨c.gl.tried, c.past⟩ := by
  obtain ⟨indices, registered, heq, hold, hnew⟩ := tried_eq c.gl
  cases htried : c.gl.directTried with
  | true =>
    obtain ⟨rfl, rfl⟩ := hold htried
    have hsame : c.gl.tried = c.gl := by rw [heq, ← htried]
    rw [hsame]
    exact h
  | false =>
    have hunregistered : c.gl.registered ≠ true := by
      intro hr
      exact nomatch htried.symm.trans (h.registered hr).1
    have hdirect : registered = true → ∃ display, Direct c.gl.tried display := by
      intro hr
      refine (hnew htried).resolve_left fun hsame => hunregistered ?_
      rw [← hsame, hr]
    rw [heq] at hdirect ⊢
    exact {
      images := ⟨h.images.distinct, h.images.gem⟩
      two := h.two
      some := h.some
      range := h.range
      adopted := h.adopted
      registered := fun hr => ⟨rfl, hdirect hr⟩
      held := h.held
      apart := fun _ _ image hl => nomatch (h.untried htried).symm.trans hl
      untried := nofun
      spent := fun image index hr => nomatch htried.symm.trans (h.spent image index hr).2 }

theorem tried_directTried (gl : Gl) : gl.tried.directTried = true := by
  obtain ⟨indices, registered, heq, -⟩ := tried_eq gl
  rw [heq]

/-- With two images, the image `draw` names is the one shown. -/
theorem LoaderOk.shown_eq (h : LoaderOk m c) (hn : c.gl.nImages ≠ 0) :
    (if c.gl.draw < c.gl.nImages then c.gl.draw else 0) = c.gl.draw := by
  have hrange := h.range
  rw [if_pos (by omega)]

theorem drawing_copied {es past : List GlEvent} (hes : es = [] ∨ es = [.copied]) :
    drawing (es ++ past) = drawing past ∧ lastFlipped (es ++ past) = lastFlipped past := by
  rcases hes with rfl | rfl
  · exact ⟨rfl, rfl⟩
  · exact ⟨rfl, rfl⟩

theorem drawing_refused {es past : List GlEvent} {image : Option Image} {index : Int}
    (hes : es = [] ∨ es = [.copied]) :
    drawing (es ++ [.refused image index] ++ past) = drawing past ∧
      lastFlipped (es ++ [.refused image index] ++ past) = lastFlipped past := by
  rcases hes with rfl | rfl
  · exact ⟨rfl, rfl⟩
  · exact ⟨rfl, rfl⟩

/-- While the buffers are registered, no flip was refused. -/
theorem LoaderOk.not_refused (h : LoaderOk m c) (hreg : c.gl.registered = true)
    (image : Option Image) (index : Int) : .refused image index ∉ c.past := fun hr =>
  nomatch hreg.symm.trans (h.spent image index hr).1

theorem LoaderOk.present (h : LoaderOk m c) (flip : Int) : LoaderOk m (c.present flip) := by
  have hok := h.tried
  have htried := tried_directTried c.gl
  unfold Loader.present
  obtain ⟨hreg, hn, heq⟩ | ⟨hreg, hn, heq⟩ | ⟨hreg, ok, es, hes, heq⟩ | ⟨hreg, ok, es, hes, heq⟩ :=
    oopsGlPresent_cases c.gl flip
  all_goals
    rw [heq]
    generalize c.gl.tried = g at *
  · -- the image shown is not the one drawn next
    have htwo : g.nImages = 2 := Nat.le_antisymm hok.two hn
    have hshown := hok.shown_eq (by show g.nImages ≠ 0; omega)
    have hdraw := hok.draw_lt
    change (if g.draw < g.nImages then g.draw else 0) = g.draw at hshown
    change g.draw < 2 at hdraw
    exact {
      images := ⟨hok.images.distinct, hok.images.gem⟩
      two := hok.two
      some := hok.some
      range := .inr (Nat.mod_lt _ (by show 0 < g.nImages; omega))
      adopted := hok.adopted
      registered := fun hr => ⟨htried, (hok.registered hr).2.imp fun display hd =>
        ⟨hd.display_eq, hd.nonempty, hd.index⟩⟩
      held := nofun
      apart := fun _ _ image hl hback => by
        change g.back (if g.draw < g.nImages then g.draw else 0) = _ at hl
        change g.back ((g.draw + 1) % g.nImages) = _ at hback
        rw [hshown] at hl
        have hsame := hok.images.distinct _ _ image hl hback
        rw [htwo] at hsame
        omega
      untried := fun hu => nomatch htried.symm.trans hu
      spent := fun image index hr => absurd (by simpa using hr) (hok.not_refused hreg image index) }
  · exact {
      images := ⟨hok.images.distinct, hok.images.gem⟩
      two := hok.two
      some := hok.some
      range := hok.range
      adopted := hok.adopted
      registered := hok.registered
      held := hok.held
      apart := fun _ htwo => absurd (htwo ▸ hn : 2 ≤ 1) (by decide)
      untried := fun hu => nomatch htried.symm.trans hu
      spent := fun image index hr => absurd (by simpa using hr) (hok.not_refused hreg image index) }
  · exact {
      images := ⟨hok.images.distinct, hok.images.gem⟩
      two := hok.two
      some := hok.some
      range := hok.range
      adopted := hok.adopted
      registered := nofun
      held := fun image hd => hok.held image ((drawing_refused hes).1.symm.trans hd)
      apart := nofun
      untried := fun hu => nomatch htried.symm.trans hu
      spent := fun _ _ _ => ⟨rfl, htried⟩ }
  · exact {
      images := ⟨hok.images.distinct, hok.images.gem⟩
      two := hok.two
      some := hok.some
      range := hok.range
      adopted := hok.adopted
      registered := hok.registered
      held := fun image hd => hok.held image ((drawing_copied hes).1.symm.trans hd)
      apart := fun hr => nomatch hreg.symm.trans hr
      untried := fun hu => nomatch htried.symm.trans hu
      spent := fun _ _ _ => ⟨hreg, htried⟩ }

/-- The loader after the frontend was given an image, or nothing. -/
theorem LoaderOk.getBuffers (h : LoaderOk m c) (wantsBack : Bool) (hfresh : c.gl.Fresh created) :
    LoaderOk m (c.getBuffers m wantsBack created) := by
  unfold Loader.getBuffers
  obtain heq | ⟨image, hback, heq⟩ | ⟨image, hback, hcreated, heq⟩ :=
    oopsGetBuffers_cases m h.draw_lt wantsBack created
  all_goals rw [heq]
  · exact h
  · exact {
      images := h.images
      two := h.two
      some := h.some
      range := h.range
      adopted := h.adopted
      registered := h.registered
      held := fun other hd => by
        cases hd
        exact hback
      apart := h.apart
      untried := h.untried
      spent := fun other index hr => h.spent other index (by simpa using hr) }
  · have hkept : Kept c.gl (keepImage m c.gl c.gl.draw image) := kept_keepImage hback
    have hn : (keepImage m c.gl c.gl.draw image).nImages = c.gl.nImages := keepImage_nImages
    -- the place that `draw` names is only empty when no image was made at first
    have hnone : c.gl.nImages = 0 := by
      rcases Nat.eq_zero_or_pos c.gl.nImages with hz | hpos
      · exact hz
      · have hrange := h.range
        have hsome := h.some c.gl.draw (by omega)
        rw [hback] at hsome
        exact nomatch hsome
    exact {
      images := h.images.keepImage hback (hfresh image hcreated)
      two := hn ▸ h.two
      some := fun i hi => by
        change i < (keepImage m c.gl c.gl.draw image).nImages at hi
        omega
      range := .inl (by
        have hrange := h.range
        show (keepImage m c.gl c.gl.draw image).draw = 0
        rw [hkept.draw]
        omega)
      adopted := fun display hd i va hva => by
        obtain ⟨other, hother, heq⟩ := h.adopted display (hkept.display ▸ hd) i va hva
        exact ⟨other, hkept.back i other hother, heq⟩
      registered := fun hr => by
        obtain ⟨-, display, hdirect⟩ := h.registered (hkept.registered ▸ hr)
        exact absurd hnone hdirect.nonempty
      held := fun other hd => by
        cases hd
        show (keepImage m c.gl c.gl.draw image).back (keepImage m c.gl c.gl.draw image).draw = _
        rw [hkept.draw, keepImage_back, Function.update_self]
      apart := fun hr => by
        obtain ⟨-, display, hdirect⟩ := h.registered (hkept.registered ▸ hr)
        exact absurd hnone hdirect.nonempty
      untried := fun hu => h.untried (hkept.directTried ▸ hu)
      spent := fun other index hr => by
        obtain ⟨hreg, htried⟩ := h.spent other index (by simpa using hr)
        exact ⟨hkept.registered.trans hreg, hkept.directTried.trans htried⟩ }

/-! ## Runs -/

/-- Before `oops_gl_create` makes its images. -/
structure NoneMade (c : Loader) : Prop where
  nImages : c.gl.nImages = 0
  display : c.gl.display = none
  directTried : c.gl.directTried = false

theorem creating (h : Creating m c) : LoaderOk m c ∧ NoneMade c := by
  induction h with
  | start =>
    have hok : LoaderOk m ⟨Gl.zero, []⟩ := {
      images := ⟨nofun, fun _ => rfl⟩
      two := Nat.zero_le 2
      some := nofun
      range := .inl rfl
      adopted := nofun
      registered := nofun
      held := nofun
      apart := nofun
      untried := fun _ => rfl
      spent := nofun }
    exact ⟨hok, rfl, rfl, rfl⟩
  | @getBuffers c wantsBack created _ hfresh ih =>
    refine ⟨ih.1.getBuffers wantsBack hfresh, ?_⟩
    unfold Loader.getBuffers
    obtain heq | ⟨image, -, heq⟩ | ⟨image, hback, -, heq⟩ :=
      oopsGetBuffers_cases m ih.1.draw_lt wantsBack created
    all_goals rw [heq]
    · exact ih.2
    · exact ⟨ih.2.nImages, ih.2.display, ih.2.directTried⟩
    · have hkept : Kept c.gl (keepImage m c.gl c.gl.draw image) := kept_keepImage hback
      exact ⟨keepImage_nImages.trans ih.2.nImages, hkept.display.trans ih.2.display,
        hkept.directTried.trans ih.2.directTried⟩

/-- `oops_gl_create` keeps the invariant. -/
theorem LoaderOk.create {new : Nat → Option Image} {opened : Option Display} {ready malloc : Bool}
    (h : LoaderOk m c) (hnone : NoneMade c) (hfresh : ∀ i, c.gl.Fresh (new i))
    (hnew : ∀ i j image, new i = some image → new j = some image → i = j)
    (hopened : ∀ display, opened = some display →
      display.adopted = adopt m (makeImages m new c.gl 0 2)) :
    LoaderOk m ⟨oopsGlCreate m c.gl new opened ready malloc, c.past⟩ := by
  obtain ⟨hmade, hkept⟩ := makeImages_spec 2 h.toMade (by have := hnone.nImages; omega)
    (fun i _ => hfresh i) hnew
  rw [hnone.nImages] at hmade hkept
  unfold oopsGlCreate
  generalize makeImages m new c.gl 0 2 = gl at *
  -- the display, if there is one, has the buffers of the images
  have hopen : ∃ display scanbuf, openDisplay gl opened ready malloc =
      { gl with display := display, scanbuf := scanbuf } ∧
        ∀ d, display = some d → d.adopted = adopt m gl := by
    unfold openDisplay
    cases opened with
    | none => exact ⟨none, gl.scanbuf, rfl, nofun⟩
    | some display =>
      dsimp only
      rcases Decidable.em ((ready && malloc) = true) with hr | hr
      · rw [if_pos hr]
        exact ⟨some display, true, rfl, fun d hd => hopened d hd⟩
      · rw [if_neg hr]
        exact ⟨none, gl.scanbuf, rfl, nofun⟩
  obtain ⟨display, scanbuf, heq, hadopt⟩ := hopen
  rw [heq]
  have hunregistered : gl.registered = false := by
    rw [hkept.registered]
    cases hr : c.gl.registered with
    | false => rfl
    | true => exact nomatch hnone.directTried.symm.trans (h.registered hr).1
  exact {
    images := ⟨hmade.images.distinct, hmade.images.gem⟩
    two := hmade.two
    some := hmade.some
    range := .inl (by
      have hrange := h.range
      have hz := hnone.nImages
      show gl.draw = 0
      rw [hkept.draw]
      omega)
    adopted := fun d hd i va hva => by
      rw [hadopt d hd] at hva
      obtain ⟨hi, hva⟩ := adopt_getElem? hva
      obtain ⟨image, himage⟩ := Option.isSome_iff_exists.mp (hmade.some i hi)
      exact ⟨image, himage, hva.trans (hmade.images.vaOf_gem himage)⟩
    registered := fun hr => nomatch hunregistered.symm.trans hr
    held := fun image hd => by
      show gl.back gl.draw = some image
      rw [hkept.draw]
      exact hkept.back _ image (h.held image hd)
    apart := fun hr => nomatch hunregistered.symm.trans hr
    untried := fun _ => h.untried hnone.directTried
    spent := fun image index hr => nomatch hnone.directTried.symm.trans (h.spent image index hr).2 }

theorem presenting (h : Presenting m c) : LoaderOk m c := by
  induction h with
  | create new opened ready malloc hc hfresh hnew hopened =>
    exact (creating hc).1.create (creating hc).2 hfresh hnew hopened
  | getBuffers wantsBack created _ hfresh ih => exact ih.getBuffers wantsBack hfresh
  | present flip _ ih => exact ih.present flip

/-- What a present flips, or is refused, with two images. -/
theorem LoaderOk.flips (h : LoaderOk m c) {flip : Int} {image : Option Image} {index : Int}
    (he : .flipped image index ∈ (oopsGlPresent c.gl flip).2.2 ∨
      .refused image index ∈ (oopsGlPresent c.gl flip).2.2) (hn : c.gl.nImages = 2) :
    ∃ display drawn, image = some drawn ∧ c.gl.back c.gl.draw = some drawn ∧
      c.gl.display = some display ∧ display.adopted[c.gl.draw]? = some (m.address drawn) ∧
      index = display.index c.gl.draw := by
  have hok := h.tried
  obtain ⟨indices, registered, heq, -⟩ := tried_eq c.gl
  have hdraw : c.gl.draw < 2 := h.draw_lt
  have hshown : (if c.gl.tried.draw < c.gl.tried.nImages then c.gl.tried.draw else 0) =
      c.gl.draw := by
    rw [heq]
    exact h.shown_eq (by omega)
  -- either way it is the image `draw` names, and its index
  have hflip : c.gl.tried.registered = true ∧ image = c.gl.tried.back c.gl.draw ∧
      index = c.gl.tried.scanoutIndex c.gl.draw := by
    obtain ⟨hreg, -, hp⟩ | ⟨hreg, -, hp⟩ | ⟨hreg, ok, es, hes, hp⟩ | ⟨hreg, ok, es, hes, hp⟩ :=
      oopsGlPresent_cases c.gl flip
    all_goals rw [hp] at he
    · rw [hshown] at he
      refine ⟨hreg, ?_⟩
      simpa using he
    · rw [hshown] at he
      refine ⟨hreg, ?_⟩
      simpa using he
    · rw [hshown] at he
      refine ⟨hreg, ?_⟩
      rcases hes with rfl | rfl <;> simpa using he
    · rcases hes with rfl | rfl <;> simp at he
  obtain ⟨hreg, rfl, rfl⟩ := hflip
  obtain ⟨-, display, hdirect⟩ := hok.registered hreg
  have htwo : c.gl.tried.nImages = 2 := by rw [heq]; exact hn
  obtain ⟨hindex, hpos⟩ := hdirect.index c.gl.draw (by
    show c.gl.draw < c.gl.tried.nImages
    omega)
  have hlt := display.own c.gl.draw hpos
  obtain ⟨drawn, hback, hva⟩ := hok.adopted display hdirect.display_eq c.gl.draw _
    (List.getElem?_eq_getElem hlt)
  have hback' : c.gl.back c.gl.draw = some drawn := by
    rw [heq] at hback
    exact hback
  have hdisplay : c.gl.display = some display := by
    have hd := hdirect.display_eq
    rw [heq] at hd
    exact hd
  refine ⟨display, drawn, hback, hback', hdisplay, ?_, hindex⟩
  rw [List.getElem?_eq_getElem hlt, hva]

/-- `getBuffers` gives the image that `draw` names, if there is one. -/
theorem LoaderOk.given (h : LoaderOk m c) {wantsBack : Bool} {next : Image}
    (hnext : (oopsGetBuffers m c.gl wantsBack created).1 = some next) (hn : c.gl.nImages = 2) :
    c.gl.back c.gl.draw = some next := by
  have hdraw := h.draw_lt
  obtain ⟨image, himage⟩ := Option.isSome_iff_exists.mp (h.some c.gl.draw (by omega))
  obtain heq | ⟨other, hback, heq⟩ | ⟨other, hback, -⟩ :=
    oopsGetBuffers_cases m h.draw_lt wantsBack created
  · rw [heq] at hnext
    exact nomatch hnext
  · rw [heq] at hnext
    exact hback.trans hnext
  · exact nomatch hback.symm.trans himage

theorem LoaderOk.apart_given (h : LoaderOk m c) (hr : c.gl.registered = true)
    (hn : c.gl.nImages = 2) (hl : lastFlipped c.past = some image) :
    drawing c.past ≠ some image ∧ ∀ wantsBack created,
      (oopsGetBuffers m c.gl wantsBack created).1 ≠ some image :=
  ⟨fun hd => h.apart hr hn image hl (h.held image hd),
    fun _ _ hg => h.apart hr hn image hl (h.given hg hn)⟩

/-- **The frontend never draws into the image on screen.** -/
theorem never_on_screen (h : Presenting m c) : NeverOnScreen m c where
  draw := (presenting h).draw_lt
  flips flip image index he hn := by
    obtain ⟨display, drawn, rfl, hback, hrest⟩ := (presenting h).flips he hn
    refine ⟨display, drawn, rfl, hback, hrest.1, hrest.2.1, hrest.2.2, fun held hheld => ?_⟩
    exact Option.some.inj (((presenting h).held held hheld).symm.trans hback)
  after flip image index he hn := by
    have hnext := (presenting h).present flip
    obtain ⟨indices, registered, htried, -⟩ := tried_eq c.gl
    have hn' : c.gl.tried.nImages = 2 := by rw [htried]; exact hn
    obtain ⟨hreg, -, hp⟩ | ⟨-, hle, -⟩ | ⟨-, ok, es, hes, hp⟩ | ⟨-, ok, es, hes, hp⟩ :=
      oopsGlPresent_cases c.gl flip
    · unfold Loader.present at hnext ⊢
      rw [hp] at he hnext ⊢
      refine ⟨List.mem_cons_self, rfl, fun wantsBack created next hgiven heq => ?_⟩
      rcases List.mem_cons.mp he with hinvalidated | hflipped
      · exact nomatch hinvalidated
      · cases List.mem_singleton.mp hflipped
        exact (hnext.apart_given hreg hn' heq).2 wantsBack created hgiven
    · omega
    · rw [hp] at he
      rcases hes with rfl | rfl <;> simp at he
    · rw [hp] at he
      rcases hes with rfl | rfl <;> simp at he
  apart hr hn image hl := (presenting h).apart_given hr hn hl
  refused flip image index he := by
    obtain ⟨indices, registered, htried, -⟩ := tried_eq c.gl
    unfold Loader.present
    obtain ⟨-, -, hp⟩ | ⟨-, -, hp⟩ | ⟨-, ok, es, hes, hp⟩ | ⟨-, ok, es, hes, hp⟩ :=
      oopsGlPresent_cases c.gl flip
    all_goals rw [hp] at he ⊢
    · simp at he
    · simp at he
    · refine ⟨?_, (drawing_refused hes).2⟩
      show c.gl.tried.draw = c.gl.draw
      rw [htried]
    · rcases hes with rfl | rfl <;> simp at he
  never image index hr flip image' index' := by
    obtain ⟨hreg, htried⟩ := (presenting h).spent image index hr
    have hsame : c.gl.tried = c.gl := by
      unfold Gl.tried
      rw [if_pos htried]
    obtain ⟨hreg', -⟩ | ⟨hreg', -⟩ | ⟨hreg', -⟩ | ⟨-, ok, es, hes, hp⟩ :=
      oopsGlPresent_cases c.gl flip
    all_goals try
      rw [hsame, hreg] at hreg'
      exact nomatch hreg'
    rw [hp]
    rcases hes with rfl | rfl <;> simp

/-- A Mesa that makes images 100 and 200, of handles 1 and 2, as plain surfaces. -/
private def twoImages : Mesa where
  queryImage image := if image = 100 then some 1 else some 2
  boSize _ := 512
  boGpuVa handle := 4096 * handle
  width := 1
  height := 1

/-- Image 100 is drawn and flipped, then image 200 is drawn, whose flip is refused. -/
theorem never_on_screen_two : ∃ c : Loader,
    c.past = [.copied, .refused (some 200) 4, .returned 200, .invalidated, .flipped (some 100) 3,
      .returned 100] ∧ NeverOnScreen twoImages c := by
  have hcreate := Presenting.create (m := twoImages)
    (fun i => if i = 0 then some 100 else if i = 1 then some 200 else none)
    (some ⟨[4096, 8192], fun i => if i = 0 then 3 else if i = 1 then 4 else -1, by
      intro i hi
      have hle : i = 0 ∨ i = 1 := by
        by_contra hne
        rw [if_neg (by omega), if_neg (by omega)] at hi
        exact absurd hi (by decide)
      rcases hle with rfl | rfl <;> decide⟩)
    true true .start (fun _ _ _ _ => nofun)
    (by
      intro i j image hi hj
      split at hi <;> split at hj <;> grind)
    (by
      intro display hd
      cases hd
      decide)
  have hdrawn := (hcreate.getBuffers true none nofun).present 0
  have hrefused := (hdrawn.getBuffers true none nofun).present (-1)
  exact ⟨_, rfl, never_on_screen hrefused⟩

end OopsMesa.Platform
