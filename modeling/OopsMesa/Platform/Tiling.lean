/-
  Which colour buffers are tiled.

  `oops_get_buffers` and `oops_gl_create` tell a tiled buffer from a linear one by its size: addrlib
  pads the height of a `64KB_R_X` surface to a multiple of 128. The size is the one GEM_CREATE was
  asked for, in whole pages. So a height that is a multiple of 128 already leaves no difference,
  and a small one may be lost in the page; and a tiled surface that is not of whole pages itself is
  never found to be one. All other extents are told apart (`size_test_iff`).
-/
import OopsMesa.Platform.Frontend
import OopsMesa.Winsys.Sizes

namespace OopsMesa.Platform

open OopsMesa.Winsys (Requested WholePages roundUpPage)

variable {m : Mesa} {gl : Gl} {image : Image} {which : Nat}

/-! ## The code -/

/-- The size of a linear frame, as `oops_get_buffers` computes it. -/
def Mesa.linear (m : Mesa) : Nat := m.width * m.height * 4 % 2 ^ 64

/-- What `oops_get_buffers` says of a buffer. -/
inductive BufferClass where
  | notLive
  | tiled
  | linear
  | neither
  deriving DecidableEq

def Mesa.classify (m : Mesa) (bytes : Nat) : BufferClass :=
  if bytes = 0 then .notLive
  else if m.plain ≤ bytes then .tiled
  else if m.linear ≤ bytes then .linear
  else .neither

/-- The classification that `oops_get_buffers` logs, if it makes an image whose handle Mesa
    reports. -/
def oopsGetBuffersClass (m : Mesa) (gl : Gl) (wantsBack : Bool) (created : Option Image) :
    Option BufferClass :=
  if !wantsBack then none
  else
    match gl.back (if gl.draw > 1 then 0 else gl.draw) with
    | some _ => none
    | none => (created.bind m.queryImage).map fun gem => m.classify (m.boSize (handleOf gem))

/-! ## The statement -/

/-- The bytes of a linear frame. -/
def linearBytes (width height : UInt32) : Nat := width.toNat * height.toNat * 4

/-- The bytes of a plain `64KB_R_X` surface. -/
def plainBytes (width height : UInt32) : Nat :=
  width.toNat * ((height.toNat + 127) / 128 * 128) * 4

/-- Mesa asked for the image's buffer with a GEM_CREATE of so many bytes, and the winsys answers
    for it. -/
def Mesa.Asked (m : Mesa) (image : Image) (bytes : Nat) : Prop :=
  ∃ gem request w, m.queryImage image = some gem ∧ request.toNat = bytes ∧
    Requested w (UInt32.ofNat (handleOf gem)) request ∧
    m.boSize (handleOf gem) = (Winsys.boSize w (UInt32.ofNat (handleOf gem))).toNat

/-- `oops_gl_create` where it offers the buffers. -/
inductive Offering (m : Mesa) : Gl → Prop
  | made {c : Loader} (created : Nat → Option Image) : Creating m c →
      (∀ i, c.gl.Fresh (created i)) →
      (∀ i j image, created i = some image → created j = some image → i = j) →
      Offering m (makeImages m created c.gl 0 2)

/-- The size test tells a linear buffer from a tiled one. -/
structure SizeTest (width height : UInt32) : Prop where
  classified : ∀ m : Mesa, m.width = width.toNat → m.height = height.toNat →
    ∀ gl wantsBack image, m.Asked image (linearBytes width height) →
      oopsGetBuffersClass m gl wantsBack (some image) ≠ some .tiled
  linear : ∀ m : Mesa, m.width = width.toNat → m.height = height.toNat →
    ∀ gl, Offering m gl → ∀ i image, i < gl.nImages → gl.back i = some image →
      m.Asked image (linearBytes width height) → m.address image ∉ adopt m gl
  plain : ∀ m : Mesa, m.width = width.toNat → m.height = height.toNat →
    ∀ gl, Offering m gl → ∀ i image, i < gl.nImages → gl.back i = some image →
      m.Asked image (plainBytes width height) → m.address image ≠ 0 →
      (∀ j, j < gl.nImages → j ≠ i → Scannable m gl j) → m.address image ∈ adopt m gl

/-- A whole number of pages lies between the sizes, and the tiled one is whole pages, where the
    winsys has that much to give. -/
structure Separable (width height : UInt32) : Prop where
  apart : 0 < linearBytes width height → linearBytes width height ≤ 2 ^ 64 - 0x4000 →
    plainBytes width height < 2 ^ 64 ∧ ∃ pages, linearBytes width height ≤ 0x4000 * pages ∧
      0x4000 * pages < plainBytes width height
  whole : 0 < plainBytes width height → plainBytes width height ≤ 2 ^ 64 - 0x4000 →
    0x4000 ∣ plainBytes width height

/-! ## Sizes -/

variable {width height : UInt32} {bytes : Nat}

/-- The buffer has the least whole pages of what was asked for. -/
theorem Mesa.Asked.size (h : m.Asked image bytes) :
    ∃ gem, m.queryImage image = some gem ∧ 0 < bytes ∧ bytes ≤ 2 ^ 64 - 0x4000 ∧
      IsLeast {n | 0x4000 ∣ n ∧ bytes ≤ n} (m.boSize (handleOf gem)) := by
  obtain ⟨gem, request, w, hgem, rfl, hrequested, hsize⟩ := h
  obtain ⟨heq, hne⟩ := hrequested.boSize_eq
  have hfits := Winsys.roundUpPage_of_ne_zero hne
  have hpos : request.toNat ≠ 0 := by
    intro hzero
    have hrequest : request = 0 := UInt64.toNat_inj.mp hzero
    rw [hrequest] at hne
    exact hne rfl
  refine ⟨gem, hgem, by omega, by omega, ?_⟩
  rw [hsize, heq]
  exact Winsys.roundUpPage_wholePages hfits

theorem plain_eq (hw : m.width = width.toNat) (hh : m.height = height.toNat) :
    m.plain = plainBytes width height % 2 ^ 64 := by
  unfold Mesa.plain
  rw [hw, hh]
  rfl

/-- A tiled size that does not fit wraps to less than the linear one. -/
theorem plainBytes_wraps (hlinear : linearBytes width height ≤ 2 ^ 64 - 0x4000)
    (hplain : 2 ^ 64 ≤ plainBytes width height) :
    plainBytes width height % 2 ^ 64 ≤ linearBytes width height := by
  unfold linearBytes at hlinear ⊢
  unfold plainBytes at hplain ⊢
  obtain ⟨rows, hrows, hlt⟩ :
      ∃ rows, (height.toNat + 127) / 128 * 128 = height.toNat + rows ∧ rows < 128 :=
    ⟨(height.toNat + 127) / 128 * 128 - height.toNat, by omega, by omega⟩
  have hpad : width.toNat * rows ≤ 2 ^ 32 * 127 :=
    Nat.mul_le_mul (Nat.le_of_lt width.toNat_lt) (by omega)
  rw [hrows, Nat.mul_add] at hplain ⊢
  omega

theorem classify_eq_tiled (hb : bytes ≠ 0) : m.classify bytes = .tiled ↔ m.plain ≤ bytes := by
  unfold Mesa.classify
  rw [if_neg hb]
  rcases Decidable.em (m.plain ≤ bytes) with h | h
  · rw [if_pos h]
    exact ⟨fun _ => h, fun _ => rfl⟩
  · rw [if_neg h]
    refine ⟨fun heq => ?_, fun h' => absurd h' h⟩
    split at heq <;> exact nomatch heq

/-- What is said of a new image is what its size says. -/
theorem oopsGetBuffersClass_eq {wantsBack : Bool} {class_ : BufferClass} {gem : Int}
    (hgem : m.queryImage image = some gem)
    (h : oopsGetBuffersClass m gl wantsBack (some image) = some class_) :
    class_ = m.classify (m.boSize (handleOf gem)) := by
  unfold oopsGetBuffersClass at h
  cases wantsBack with
  | false => exact nomatch h
  | true =>
    rw [if_neg (by decide)] at h
    cases hback : gl.back (if gl.draw > 1 then 0 else gl.draw) with
    | some other =>
      rw [hback] at h
      exact nomatch h
    | none =>
      rw [hback, Option.bind_some, hgem] at h
      exact (Option.some.inj h).symm

/-! ## The images -/

/-- `gemBytes` is what the winsys says of each image. -/
def SizesOk (m : Mesa) (gl : Gl) : Prop :=
  ∀ i image gem, gl.back i = some image → m.queryImage image = some gem →
    gl.gemBytes i = m.boSize (handleOf gem)

theorem SizesOk.keepImage (h : SizesOk m gl) : SizesOk m (keepImage m gl which image) := by
  intro i other gem hback hgem
  rw [keepImage_back] at hback
  unfold Platform.keepImage
  rcases Decidable.em (i = which) with rfl | hne
  · rw [Function.update_self] at hback
    obtain rfl := Option.some.inj hback
    rw [hgem]
    exact Function.update_self ..
  · rw [Function.update_of_ne hne] at hback
    cases m.queryImage image with
    | none => exact h i other gem hback hgem
    | some _ => exact (Function.update_of_ne hne ..).trans (h i other gem hback hgem)

theorem SizesOk.getBuffers (h : SizesOk m gl) (wantsBack : Bool) (created : Option Image) :
    SizesOk m (oopsGetBuffers m gl wantsBack created).2 := by
  unfold oopsGetBuffers
  split
  · exact h
  · dsimp only
    split
    · exact h
    · split
      · exact h
      · exact h.keepImage

theorem SizesOk.ensureBackImage (h : SizesOk m gl) (which : Nat) (created : Option Image) :
    SizesOk m (ensureBackImage m gl which created).2 := by
  unfold Platform.ensureBackImage
  split
  · exact h
  · split
    · exact h
    · have hset : SizesOk m { gl with draw := which } := h
      exact hset.getBuffers true created

theorem SizesOk.makeImages (h : SizesOk m gl) (created : Nat → Option Image) (i left : Nat) :
    SizesOk m (makeImages m created gl i left) := by
  induction left generalizing gl i with
  | zero => exact h
  | succ left ih =>
    have hmade := h.ensureBackImage i (created i)
    unfold Platform.makeImages
    dsimp only
    generalize Platform.ensureBackImage m gl i (created i) = made at *
    split
    · have hnext : SizesOk m { made.2 with nImages := i + 1 } := hmade
      exact ih hnext (i + 1)
    · exact hmade

theorem creating_sizes {c : Loader} (h : Creating m c) : SizesOk m c.gl := by
  induction h with
  | start => exact nofun
  | @getBuffers c wantsBack created _ _ ih =>
    rw [Loader.getBuffers_gl]
    exact ih.getBuffers wantsBack created

/-- Where the buffers are offered, a place has the handle and the size of its image. -/
theorem Offering.at (h : Offering m gl) {i : Nat} {gem : Int} (hback : gl.back i = some image)
    (hgem : m.queryImage image = some gem) :
    gl.gemBytes i = m.boSize (handleOf gem) ∧ m.vaOf (gl.gem i) = m.address image := by
  cases h with
  | @made c created hc hfresh hnew =>
    obtain ⟨hok, hnone⟩ := creating hc
    obtain ⟨hmade, -⟩ := makeImages_spec 2 hok.toMade (by rw [hnone.nImages])
      (fun i _ => hfresh i) hnew
    rw [hnone.nImages] at hmade
    exact ⟨(creating_sizes hc).makeImages created 0 2 i image gem hback hgem,
      hmade.images.vaOf_gem hback⟩

theorem Offering.mem_adopt (h : Offering m gl) {i : Nat} {gem : Int} (hi : i < gl.nImages)
    (hback : gl.back i = some image) (hgem : m.queryImage image = some gem) :
    m.address image ∈ adopt m gl ↔ ∀ j, j < gl.nImages → Scannable m gl j := by
  constructor
  · intro hmem
    exact scannable_of_adopt (List.ne_nil_of_mem hmem)
  · intro hall
    rw [adopt_of_scannable hall, ← (h.at hback hgem).2]
    exact List.mem_map_of_mem (List.mem_range.mpr hi)

/-! ## Extents that are told apart -/

theorem Separable.linear_lt (h : Separable width height) (hw : m.width = width.toNat)
    (hh : m.height = height.toNat) (hasked : m.Asked image (linearBytes width height)) :
    ∃ gem, m.queryImage image = some gem ∧ m.boSize (handleOf gem) < m.plain := by
  obtain ⟨gem, hgem, hpos, hle, -, hleast⟩ := hasked.size
  obtain ⟨hfits, pages, hlinear, hplain⟩ := h.apart hpos hle
  refine ⟨gem, hgem, ?_⟩
  rw [plain_eq hw hh, Nat.mod_eq_of_lt hfits]
  exact Nat.lt_of_le_of_lt (hleast ⟨Nat.dvd_mul_right _ _, hlinear⟩) hplain

theorem Separable.plain_eq_size (h : Separable width height) (hw : m.width = width.toNat)
    (hh : m.height = height.toNat) (hasked : m.Asked image (plainBytes width height)) :
    ∃ gem, m.queryImage image = some gem ∧ m.boSize (handleOf gem) = m.plain := by
  obtain ⟨gem, hgem, hpos, hle, ⟨-, hsize⟩, hleast⟩ := hasked.size
  refine ⟨gem, hgem, ?_⟩
  rw [plain_eq hw hh, Nat.mod_eq_of_lt (by omega)]
  exact Nat.le_antisymm (hleast ⟨h.whole hpos hle, Nat.le_refl _⟩) hsize

theorem Separable.sizeTest (h : Separable width height) : SizeTest width height where
  classified m hw hh gl wantsBack image hasked hclass := by
    obtain ⟨gem, hgem, hlt⟩ := h.linear_lt hw hh hasked
    obtain ⟨gem', hgem', hpos, -, ⟨-, hsize⟩, -⟩ := hasked.size
    obtain rfl := Option.some.inj (hgem.symm.trans hgem')
    have htiled := (oopsGetBuffersClass_eq hgem hclass).symm
    have hle := (classify_eq_tiled (by omega)).mp htiled
    exact absurd hlt (Nat.not_lt.mpr hle)
  linear m hw hh gl hgl i image hi hback hasked hmem := by
    obtain ⟨gem, hgem, hlt⟩ := h.linear_lt hw hh hasked
    have hscan := (hgl.mem_adopt hi hback hgem).mp hmem i hi
    have hsize := (hgl.at hback hgem).1
    exact absurd (hsize.symm.trans hscan.2) (Nat.ne_of_lt hlt)
  plain m hw hh gl hgl i image hi hback hasked hva hothers := by
    obtain ⟨gem, hgem, hsize⟩ := h.plain_eq_size hw hh hasked
    obtain ⟨hbytes, haddress⟩ := hgl.at hback hgem
    refine (hgl.mem_adopt hi hback hgem).mpr fun j hj => ?_
    rcases Decidable.em (j = i) with rfl | hne
    · exact ⟨haddress ▸ hva, hbytes.trans hsize⟩
    · exact hothers j hj hne

/-! ## Extents that are not -/

/-- A Mesa that asked for one buffer. -/
def askedMesa (width height : UInt32) (bytes : Nat) : Mesa where
  queryImage _ := some 1
  boSize _ :=
    (Winsys.boSize
      (Winsys.step .init (.gemCreate ⟨UInt64.ofNat bytes, 0, 0, 0⟩ (some 0))) 1).toNat
  boGpuVa _ := 0x400000000
  width := width.toNat
  height := height.toNat

theorem askedMesa_asked (width height : UInt32) (image : Image) (hpos : 0 < bytes)
    (hle : bytes ≤ 2 ^ 64 - 0x4000) : (askedMesa width height bytes).Asked image bytes := by
  have hbytes : (UInt64.ofNat bytes).toNat = bytes :=
    UInt64.toNat_ofNat_of_lt' (Nat.lt_of_le_of_lt hle (by decide))
  have hpages := Winsys.roundUpPage_wholePages (n := UInt64.ofNat bytes) (by omega)
  have hne : roundUpPage (UInt64.ofNat bytes) ≠ 0 := by
    intro hzero
    have hsize : (UInt64.ofNat bytes).toNat ≤ (roundUpPage (UInt64.ofNat bytes)).toNat :=
      hpages.1.2
    rw [hzero, hbytes] at hsize
    exact absurd hsize (Nat.not_le.mpr hpos)
  have hfree : Winsys.freeBo .init = some 0 := by decide +kernel
  have hcreate : (Winsys.gemCreate .init ⟨UInt64.ofNat bytes, 0, 0, 0⟩ (some 0)).1 = .ok ∧
      (Winsys.gemCreate .init ⟨UInt64.ofNat bytes, 0, 0, 0⟩ (some 0)).2.1 = 1 := by
    unfold Winsys.gemCreate
    dsimp only
    rw [if_neg hne, hfree]
    exact ⟨rfl, rfl⟩
  exact ⟨1, UInt64.ofNat bytes, _, rfl, hbytes,
    ⟨.init, _, some 0, [], rfl, hcreate.1, hcreate.2, nofun, rfl⟩, rfl⟩

/-- The first image is made and the second one not. -/
def firstOnly : Nat → Option Image := Function.update (fun _ => none) 0 (some 0)

theorem offering_firstOnly (m : Mesa) : Offering m (makeImages m firstOnly Gl.zero 0 2) := by
  refine .made (c := ⟨Gl.zero, []⟩) firstOnly .start (fun _ _ _ _ => nofun) ?_
  intro i j image hi hj
  have hzero : ∀ k, firstOnly k = some image → k = 0 := by
    intro k hk
    rcases Decidable.em (k = 0) with hk0 | hne
    · exact hk0
    · unfold firstOnly at hk
      rw [Function.update_of_ne hne] at hk
      exact nomatch hk
  rw [hzero i hi, hzero j hj]

theorem firstOnly_nImages (width height : UInt32) (bytes : Nat) :
    (makeImages (askedMesa width height bytes) firstOnly Gl.zero 0 2).nImages = 1 := rfl

theorem SizeTest.separable (h : SizeTest width height) : Separable width height where
  apart hpos hle := by
    have hasked := askedMesa_asked width height 0 hpos hle
    have hclass := h.classified _ rfl rfl Gl.zero true 0 hasked
    have hplain := plain_eq (m := askedMesa width height (linearBytes width height)) rfl rfl
    obtain ⟨gem, hgem, -, -, ⟨⟨pages, hpages⟩, hsize⟩, -⟩ := hasked.size
    generalize askedMesa width height (linearBytes width height) = m at *
    have hlt : m.boSize (handleOf gem) < m.plain := by
      apply Nat.lt_of_not_le
      intro htiled
      have hb : m.boSize (handleOf gem) ≠ 0 := by omega
      have heq : oopsGetBuffersClass m Gl.zero true (some 0) =
          some (m.classify (m.boSize (handleOf gem))) := by
        show ((some 0).bind m.queryImage).map _ = _
        rw [Option.bind_some, hgem]
        rfl
      exact hclass (heq.trans (congrArg some ((classify_eq_tiled hb).mpr htiled)))
    have hfits : plainBytes width height < 2 ^ 64 := by
      apply Nat.lt_of_not_le
      intro hwraps
      have := plainBytes_wraps hle hwraps
      omega
    rw [hplain, Nat.mod_eq_of_lt hfits] at hlt
    exact ⟨hfits, pages, hpages ▸ hsize, hpages ▸ hlt⟩
  whole hpos hle := by
    have hasked := askedMesa_asked width height 0 hpos hle
    have hplain := plain_eq (m := askedMesa width height (plainBytes width height)) rfl rfl
    have hone := firstOnly_nImages width height (plainBytes width height)
    have hback : (makeImages (askedMesa width height (plainBytes width height)) firstOnly
      Gl.zero 0 2).back 0 = some 0 := rfl
    have hva : (askedMesa width height (plainBytes width height)).address 0 ≠ 0 :=
      nofun
    have hoffering := offering_firstOnly (askedMesa width height (plainBytes width height))
    have hoffers := h.plain _ rfl rfl _ hoffering 0 0 (by rw [hone]; decide) hback hasked hva
      fun j hj hne => by omega
    obtain ⟨gem, hgem, -, -, ⟨hpages, -⟩, -⟩ := hasked.size
    have hscan := (hoffering.mem_adopt (by rw [hone]; decide) hback hgem).mp hoffers 0
      (by rw [hone]; decide)
    have hsize := (hoffering.at hback hgem).1.symm.trans hscan.2
    rw [hplain, Nat.mod_eq_of_lt (by omega)] at hsize
    rwa [hsize] at hpages

/-- The size test separates tiled from linear colour buffers exactly for the extents whose sizes a
    whole number of pages lies between, the tiled size being whole pages. -/
theorem size_test_iff (width height : UInt32) :
    SizeTest width height ↔ Separable width height :=
  ⟨SizeTest.separable, Separable.sizeTest⟩

example : Separable 1920 1080 :=
  ⟨fun _ _ => ⟨by decide, 507, by decide, by decide⟩, fun _ _ => by decide⟩

/-- 768 is a multiple of 128: a linear frame of 1024 x 768 is offered as a tiled one. -/
theorem not_size_test : ¬ SizeTest 1024 768 := by
  intro h
  have hasked : (askedMesa 1024 768 0x300000).Asked 0 (linearBytes 1024 768) :=
    askedMesa_asked 1024 768 0 (by decide) (by decide)
  have hoffered : (askedMesa 1024 768 0x300000).address 0 ∈
      adopt (askedMesa 1024 768 0x300000)
        (makeImages (askedMesa 1024 768 0x300000) firstOnly Gl.zero 0 2) := by decide +kernel
  exact h.linear _ rfl rfl _ (offering_firstOnly _) 0 0 (by decide) rfl hasked hoffered

end OopsMesa.Platform
