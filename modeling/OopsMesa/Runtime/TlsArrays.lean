/-
  The arrays of emulated TLS, and what is in them.

  A thread's array is a block of words: the count, and that many slots. What each of the three
  functions that touch it does is said here once, on the heap (`emutlsArrayFor_cases`,
  `emutlsThreadCleanup_eq`). `HeapOk` is what the heap looks like between moves: every array is
  well formed, every slot is empty or holds an object, and no block is two threads' or in two
  slots. A change to one thread's blocks keeps it, if it leaves the others' alone (`HeapOk.local`).
-/
import OopsMesa.Runtime.Tls

namespace OopsMesa.Runtime

open OopsMesa.Lib

variable {ι : Type} {h h' : Heap} {a b i n o x : Nat} {ws slots : List Nat}

/-! ## The functions -/

theorem initial_length (control : Control) : control.initial.length = control.size := by
  unfold Control.initial
  cases control.value with
  | none => exact List.length_replicate
  | some value => rw [List.length_map, List.length_range]

/-- An object starts as the control says. -/
theorem emutlsFill_take {control : Control} {garbage : List UInt8} :
    (emutlsFill control garbage).take control.size = control.initial := by
  unfold emutlsFill
  exact List.take_left' (initial_length control)

theorem emutlsFill_length {control : Control} {garbage : List UInt8}
    (hlen : garbage.length = control.request) :
    (emutlsFill control garbage).length = control.request := by
  have hle : control.size ≤ control.request := by
    unfold Control.request
    split <;> omega
  unfold emutlsFill
  rw [List.length_append, initial_length, List.length_drop, hlen]
  omega

/-- The slots of the array at `a`, none if there is none. -/
def slotsAt (h : Heap) (a : Nat) : List Nat :=
  match h a with
  | some (.words (_ :: ws)) => ws
  | _ => []

/-- The block at `a` is an array. -/
def IsArray (h : Heap) (a : Nat) : Prop :=
  h a = some (.words ((slotsAt h a).length :: slotsAt h a))

/-- The objects in the slots of the array at `a`. -/
def objectsAt (h : Heap) (a : Nat) : List Nat := (slotsAt h a).filter (· ≠ 0)

/-- The heap with the array at `a` moved to `b`, and empty slots added up to `n`. -/
def regrown (h : Heap) (a b n : Nat) : Heap :=
  Function.update (Function.update h a none) b
    (some (.words (n :: (slotsAt h a ++ List.replicate (n - (slotsAt h a).length) 0))))

/-- The heap with a new object at `o`, in slot `n` of the array at `a`. -/
def filled (h : Heap) (a n o : Nat) (bs : List UInt8) : Heap :=
  Function.update (Function.update h o (some (.bytes bs))) a
    (some (.words ((slotsAt h a).length :: (slotsAt h a).set (n - 1) o)))

/-- The heap without the array at `a` and its objects. -/
def cleaned (h : Heap) (a : Nat) : Heap := Function.update (h.erase (objectsAt h a)) a none

theorem slotsAt_words (hb : h a = some (.words (n :: ws))) : slotsAt h a = ws := by
  unfold slotsAt
  rw [hb]

theorem slotsAt_none (hb : h a = none) : slotsAt h a = [] := by
  unfold slotsAt
  rw [hb]

theorem slotsAt_bytes {bs : List UInt8} (hb : h a = some (.bytes bs)) : slotsAt h a = [] := by
  unfold slotsAt
  rw [hb]

theorem slotsAt_regrown : slotsAt (regrown h a b n) b =
    slotsAt h a ++ List.replicate (n - (slotsAt h a).length) 0 :=
  slotsAt_words (Function.update_self ..)

theorem slotsAt_filled {bs : List UInt8} :
    slotsAt (filled h a n o bs) a = (slotsAt h a).set (n - 1) o :=
  slotsAt_words (Function.update_self ..)

theorem isArray_of (slots : List Nat) (hb : h a = some (.words (slots.length :: slots))) :
    IsArray h a := by
  unfold IsArray
  rw [slotsAt_words hb]
  exact hb

/-- Slot `n` of an array is its word `n`. -/
theorem IsArray.load (ha : IsArray h a) (hn : n ≠ 0) : h.load a n = (slotsAt h a)[n - 1]? := by
  obtain ⟨m, rfl⟩ := Nat.exists_eq_succ_of_ne_zero hn
  rw [Heap.load_words ha]
  rfl

/-- New slots zeroed, and then the count written. -/
private theorem grown_words {garbage : List Nat} {x : Nat}
    (hb : h b = some (.words (x :: (slots ++ garbage)))) :
    ((h.zero b (slots.length + 1) garbage.length).bind fun h => (h.store b 0 n).bind fun h =>
      some (b, h)) = some (b, Function.update h b
        (some (.words (n :: (slots ++ List.replicate garbage.length 0))))) := by
  have hfit : slots.length + 1 + garbage.length ≤ (x :: (slots ++ garbage)).length := by
    simp only [List.length_cons, List.length_append]
    omega
  have htake : (x :: (slots ++ garbage)).take (slots.length + 1) = x :: slots := by
    rw [List.take_succ_cons, List.take_left]
  have hdrop : (x :: (slots ++ garbage)).drop (slots.length + 1 + garbage.length) = [] := by
    rw [List.drop_eq_nil_iff]
    exact Nat.le_of_eq (by simp only [List.length_cons, List.length_append]; omega)
  rw [Heap.zero_words hb hfit, htake, hdrop, List.append_nil, Option.bind_some]
  have hzeroed : Function.update h b
      (some (Block.words (x :: slots ++ List.replicate garbage.length 0))) b =
        some (.words (x :: (slots ++ List.replicate garbage.length 0))) := Function.update_self ..
  rw [Heap.store_words hzeroed (Nat.succ_pos _), Option.bind_some, Function.update_idem]
  rfl

/-- The count of an array is that of its slots. -/
theorem arrayCount_eq (h0 : h 0 = none) (ha : a ≠ 0 → IsArray h a) :
    arrayCount h a = some (slotsAt h a).length := by
  unfold arrayCount
  rcases Decidable.em (a = 0) with rfl | hne
  · rw [if_neg fun hne => hne rfl, slotsAt_none h0]
    rfl
  · rw [if_pos hne, Heap.load_words (ha hne)]
    rfl

/-- `emutls_array_for` leaves a large enough array alone; is refused; or has a larger one, with the
    old slots, and empty ones after them. -/
theorem emutlsArrayFor_cases (h0 : h 0 = none) (ha : a ≠ 0 → IsArray h a)
    (answer : Option (Nat × (Nat → Nat))) :
    (n ≤ (slotsAt h a).length ∧ emutlsArrayFor h a n answer = some (a, h)) ∨
    ((slotsAt h a).length < n ∧ answer = none ∧ emutlsArrayFor h a n answer = some (0, h)) ∨
    ∃ b rest, (slotsAt h a).length < n ∧ answer = some (b, rest) ∧
      emutlsArrayFor h a n answer = some (b, regrown h a b n) := by
  have hcount := arrayCount_eq h0 ha
  unfold emutlsArrayFor
  simp only [Option.bind_eq_bind]
  rw [hcount, Option.bind_some]
  rcases Decidable.em (n ≤ (slotsAt h a).length) with hle | hlt
  · exact .inl ⟨hle, if_pos hle⟩
  · right
    rw [if_neg hlt]
    cases answer with
    | none => exact .inl ⟨by omega, rfl, rfl⟩
    | some r =>
      obtain ⟨b, rest⟩ := r
      refine .inr ⟨b, rest, by omega, rfl, ?_⟩
      dsimp only
      -- the block that `realloc` gives: a count, the old slots, and as many new words
      obtain ⟨x, garbage, hlen, hnew⟩ : ∃ x garbage, garbage.length = n - (slotsAt h a).length ∧
          h.realloc a (n + 1) b rest = some (Function.update (Function.update h a none) b
            (some (.words (x :: (slotsAt h a ++ garbage))))) := by
        rcases Decidable.em (a = 0) with rfl | hne
        · refine ⟨rest 0, (List.range n).map (rest ∘ Nat.succ), ?_, ?_⟩
          · rw [slotsAt_none h0, List.length_map, List.length_range]
            rfl
          · have hsame : Function.update h 0 none = h := by rw [← h0, Function.update_eq_self]
            rw [hsame, slotsAt_none h0, List.nil_append, Heap.realloc, if_pos rfl,
              List.range_succ_eq_map, List.map_cons, List.map_map]
        · refine ⟨(slotsAt h a).length,
            (List.range (n - (slotsAt h a).length)).map rest, ?_, ?_⟩
          · rw [List.length_map, List.length_range]
          · unfold Heap.realloc
            rw [if_neg hne, ha hne]
            dsimp only
            rw [List.take_of_length_le (by rw [List.length_cons]; omega), List.length_cons,
              Nat.add_sub_add_right, List.cons_append]
      unfold regrown
      rw [hnew, ← hlen, Option.bind_some]
      have hb : Function.update (Function.update h a none) b
          (some (Block.words (x :: (slotsAt h a ++ garbage)))) b =
            some (.words (x :: (slotsAt h a ++ garbage))) := Function.update_self ..
      exact (grown_words hb).trans (by rw [Function.update_idem])

/-- The loop frees what the slots hold, in order. -/
theorem freeSlots_eq (hb : h a = some (.words ws)) {left : Nat} (hlen : i + left ≤ ws.length)
    {os : List Nat} (hos : os = ((ws.drop i).take left).filter (· ≠ 0)) (hnodup : os.Nodup)
    (hlive : ∀ o ∈ os, (h o).isSome ∧ o ≠ a) : freeSlots h a i left = some (os, h.erase os) := by
  induction left generalizing h i os with
  | zero =>
    have hnil : os = [] := by rw [hos, List.take_zero]; rfl
    subst hnil
    have hsame : h.erase [] = h := funext fun _ => if_neg List.not_mem_nil
    rw [hsame]
    rfl
  | succ left ih =>
    have hi : i < ws.length := by omega
    have hload : h.load a i = some ws[i] := by
      rw [Heap.load_words hb, List.getElem?_eq_getElem hi]
    have hcons : (ws.drop i).take (left + 1) = ws[i] :: (ws.drop (i + 1)).take left := by
      rw [List.drop_eq_getElem_cons hi, List.take_succ_cons]
    unfold freeSlots
    simp only [Option.bind_eq_bind]
    rw [hload, Option.bind_some]
    rw [hcons] at hos
    rcases Decidable.em (ws[i] = 0) with hz | hz
    · rw [List.filter_cons_of_neg (by simpa using hz)] at hos
      rw [hz, Heap.free_null, Option.bind_some, ih hb (by omega) hos hnodup hlive]
      rfl
    · rw [List.filter_cons_of_pos (by simpa using hz)] at hos
      subst hos
      obtain ⟨hhead, hrest⟩ := List.nodup_cons.mp hnodup
      obtain ⟨hsome, hne⟩ := hlive _ List.mem_cons_self
      have hb' : Function.update h ws[i] none a = some (.words ws) := by
        rw [Function.update_of_ne (Ne.symm hne), hb]
      have hlive' : ∀ o ∈ ((ws.drop (i + 1)).take left).filter (· ≠ 0),
          (Function.update h ws[i] none o).isSome ∧ o ≠ a := by
        intro o ho
        have hoi : o ≠ ws[i] := fun heq => hhead (heq ▸ ho)
        rw [Function.update_of_ne hoi]
        exact hlive o (List.mem_cons_of_mem _ ho)
      rw [Heap.free_live hz hsome, Option.bind_some, ih hb' (by omega) rfl hrest hlive',
        Heap.erase_update]
      show some (if ws[i] = 0 then _ else _, _) = _
      rw [if_neg hz]

/-- The cleanup frees the objects of an array, and the array. -/
theorem emutlsThreadCleanup_eq (h0 : h 0 = none) (ha : a ≠ 0 → IsArray h a)
    (hnodup : (objectsAt h a).Nodup) (hlive : ∀ o ∈ objectsAt h a, (h o).isSome ∧ o ≠ a) :
    emutlsThreadCleanup h a = some (objectsAt h a, cleaned h a) := by
  unfold emutlsThreadCleanup cleaned
  rcases Decidable.em (a = 0) with rfl | hne
  · have hnil : objectsAt h 0 = [] := by
      unfold objectsAt
      rw [slotsAt_none h0]
      rfl
    have hsame : Function.update (h.erase []) 0 none = h := by
      funext x
      rcases Decidable.em (x = 0) with rfl | hx
      · rw [Function.update_self, h0]
      · rw [Function.update_of_ne hx]
        exact if_neg List.not_mem_nil
    rw [if_pos rfl, hnil, hsame]
  · have harr := ha hne
    have hcount : h.load a 0 = some (slotsAt h a).length := by
      rw [Heap.load_words harr]
      rfl
    have hslots : ((((slotsAt h a).length :: slotsAt h a).drop 1).take
        (slotsAt h a).length).filter (· ≠ 0) = objectsAt h a := by
      rw [List.drop_one, List.tail_cons, List.take_length]
      rfl
    have hfit : 1 + (slotsAt h a).length ≤ ((slotsAt h a).length :: slotsAt h a).length := by
      rw [List.length_cons]
      omega
    have hmem : a ∉ objectsAt h a := fun hm => (hlive a hm).2 rfl
    simp only [Option.bind_eq_bind]
    rw [if_neg hne, hcount, Option.bind_some,
      freeSlots_eq harr hfit hslots.symm hnodup hlive, Option.bind_some]
    show Option.bind (Heap.free (h.erase (objectsAt h a)) a) _ = _
    rw [Heap.free_live hne (by rw [Heap.erase_of_not_mem hmem, harr]; rfl), Option.bind_some]

/-! ## The heap between moves -/

/-- Arrays are well formed, slots hold objects, and no block has two places. -/
structure HeapOk (key : ι → Nat) (h : Heap) : Prop where
  null : h 0 = none
  arrays : ∀ i, key i ≠ 0 → IsArray h (key i)
  keys : ∀ i j, key i = key j → key i ≠ 0 → i = j
  objects : ∀ i o, o ∈ slotsAt h (key i) → o ≠ 0 → ∃ bs, h o = some (.bytes bs)
  apart : ∀ i j (n m o : Nat), (slotsAt h (key i))[n]? = some o →
    (slotsAt h (key j))[m]? = some o → o ≠ 0 → i = j ∧ n = m

/-- The block is a thread's: its array, or an object in a slot of it. -/
def Mine (key : ι → Nat) (h : Heap) (i : ι) (x : Nat) : Prop :=
  x ≠ 0 ∧ (x = key i ∨ x ∈ slotsAt h (key i))

/-- A change to one thread's blocks: the heap stays as it should be, and the other threads have
    the array and the slots they had. -/
structure ChangeOf (i : ι) (key : ι → Nat) (h : Heap) (key' : ι → Nat) (h' : Heap) : Prop where
  ok : HeapOk key' h'
  key_eq : ∀ j, j ≠ i → key' j = key j
  slots_eq : ∀ j, j ≠ i → slotsAt h' (key' j) = slotsAt h (key j)

theorem ChangeOf.refl {i : ι} {key : ι → Nat} (hok : HeapOk key h) : ChangeOf i key h key h :=
  ⟨hok, fun _ _ => rfl, fun _ _ => rfl⟩

section HeapOk

variable {key : ι → Nat} {i j : ι}

theorem HeapOk.mine_isSome (hok : HeapOk key h) (hx : Mine key h i x) : (h x).isSome := by
  obtain ⟨h0, rfl | hm⟩ := hx
  · rw [hok.arrays i h0]
    rfl
  · obtain ⟨bs, hbs⟩ := hok.objects i x hm h0
    rw [hbs]
    rfl

/-- An object is no array. -/
theorem HeapOk.object_ne_key (hok : HeapOk key h) (hx : x ∈ slotsAt h (key i)) (h0 : x ≠ 0) :
    x ≠ key j := by
  rintro rfl
  obtain ⟨bs, hbs⟩ := hok.objects i _ hx h0
  cases hbs.symm.trans (hok.arrays j h0)

theorem HeapOk.key_ne_free (hok : HeapOk key h) (ho : h o = none) (hk : key i ≠ 0) :
    key i ≠ o := by
  intro heq
  have harr := hok.arrays i hk
  rw [heq] at harr
  cases ho.symm.trans harr

/-- No block is two threads'. -/
theorem HeapOk.mine_unique (hok : HeapOk key h) (hi : Mine key h i x) (hj : Mine key h j x) :
    i = j := by
  obtain ⟨h0, rfl | hmi⟩ := hi
  · obtain ⟨-, heq | hmj⟩ := hj
    · exact hok.keys i j heq h0
    · exact absurd rfl (hok.object_ne_key hmj h0)
  · obtain ⟨-, rfl | hmj⟩ := hj
    · exact absurd rfl (hok.object_ne_key hmi h0)
    · obtain ⟨n, hn⟩ := List.mem_iff_getElem?.mp hmi
      obtain ⟨m, hm⟩ := List.mem_iff_getElem?.mp hmj
      exact (hok.apart i j n m x hn hm h0).1

/-- Slots of a thread whose blocks are as they were. -/
theorem HeapOk.slotsAt_eq (hok : HeapOk key h) (hnull : h' 0 = none)
    (hframe : ∀ x, Mine key h j x → h' x = h x) : slotsAt h' (key j) = slotsAt h (key j) := by
  have hsame : h' (key j) = h (key j) := by
    rcases Decidable.em (key j = 0) with hz | hz
    · rw [hz, hnull, hok.null]
    · exact hframe _ ⟨hz, .inl rfl⟩
  unfold slotsAt
  rw [hsame]

/-- Blocks of two threads. -/
theorem HeapOk.mine_ne {y : Nat} (hok : HeapOk key h) (hi : Mine key h i x) (hj : Mine key h j y)
    (hji : j ≠ i) : y ≠ x :=
  fun heq => hji (hok.mine_unique hj (heq ▸ hi))

/-- What the allocator gives a thread is no block of another. -/
theorem HeapOk.mine_ne_fresh (hok : HeapOk key h) (hb : h.Fresh (key i) b) (hj : Mine key h j x)
    (hji : j ≠ i) : x ≠ b := by
  rintro rfl
  obtain ⟨h0, hnone | heq⟩ := hb
  · have hsome := hok.mine_isSome hj
    rw [hnone] at hsome
    exact nomatch hsome
  · exact hji (hok.mine_unique hj ⟨h0, .inl heq⟩)

/-- What the allocator gives a thread is none of its objects. -/
theorem HeapOk.object_ne_fresh (hok : HeapOk key h) (hb : h.Fresh (key i) b)
    (hx : x ∈ slotsAt h (key i)) (h0 : x ≠ 0) : x ≠ b := by
  rintro rfl
  obtain ⟨-, hnone | heq⟩ := hb
  · obtain ⟨bs, hbs⟩ := hok.objects i x hx h0
    cases hnone.symm.trans hbs
  · exact hok.object_ne_key hx h0 heq

/-- Bytes written to an object. -/
theorem HeapOk.written {bs : List UInt8} (hok : HeapOk key h) (bs' : List UInt8)
    (ho : h o = some (.bytes bs)) :
    HeapOk key (Function.update h o (some (.bytes bs'))) ∧
      ∀ j, slotsAt (Function.update h o (some (.bytes bs'))) (key j) = slotsAt h (key j) := by
  have hslots : ∀ a, slotsAt (Function.update h o (some (.bytes bs'))) a = slotsAt h a := by
    intro a
    rcases Decidable.em (a = o) with rfl | hao
    · rw [slotsAt_bytes ho, slotsAt_bytes (Function.update_self ..)]
    · unfold slotsAt
      rw [Function.update_of_ne hao]
  refine ⟨⟨?_, fun j hj => ?_, hok.keys, fun j x hx h0 => ?_, fun j l n m x hn hm h0 => ?_⟩,
    fun j => hslots (key j)⟩
  · rw [Function.update_of_ne, hok.null]
    rintro rfl
    cases hok.null.symm.trans ho
  · unfold IsArray
    rw [hslots, Function.update_of_ne]
    · exact hok.arrays j hj
    · rintro heq
      cases (heq ▸ hok.arrays j hj : _ = _).symm.trans ho
  · rw [hslots] at hx
    rcases Decidable.em (x = o) with rfl | hxo
    · exact ⟨bs', Function.update_self ..⟩
    · rw [Function.update_of_ne hxo]
      exact hok.objects j x hx h0
  · rw [hslots] at hn hm
    exact hok.apart j l n m x hn hm h0

/-- No object is in two slots of an array. -/
theorem HeapOk.objects_nodup (hok : HeapOk key h) (i : ι) : (objectsAt h (key i)).Nodup := by
  have hapart : ∀ n m o : Nat, (slotsAt h (key i))[n]? = some o →
      (slotsAt h (key i))[m]? = some o → o ≠ 0 → n = m :=
    fun n m o hn hm h0 => (hok.apart i i n m o hn hm h0).2
  unfold objectsAt
  generalize slotsAt h (key i) = ws at hapart
  induction ws with
  | nil => exact List.nodup_nil
  | cons w ws ih =>
    have hrest := ih fun n m o hn hm h0 => Nat.succ.inj (hapart (n + 1) (m + 1) o hn hm h0)
    rcases Decidable.em (w = 0) with rfl | hw
    · rwa [List.filter_cons_of_neg (by simp)]
    · rw [List.filter_cons_of_pos (by simpa using hw)]
      refine List.nodup_cons.mpr ⟨fun hm => ?_, hrest⟩
      obtain ⟨m, hm⟩ := List.mem_iff_getElem?.mp (List.mem_filter.mp hm).1
      exact nomatch hapart 0 (m + 1) w rfl hm hw

/-- The cleanup of a thread's blocks. -/
theorem HeapOk.cleanup (hok : HeapOk key h) (i : ι) :
    emutlsThreadCleanup h (key i) = some (objectsAt h (key i), Runtime.cleaned h (key i)) := by
  refine emutlsThreadCleanup_eq hok.null (hok.arrays i) (hok.objects_nodup i) fun o ho => ?_
  obtain ⟨hmem, h0⟩ := List.mem_filter.mp ho
  have h0 : o ≠ 0 := by simpa using h0
  exact ⟨hok.mine_isSome ⟨h0, .inr hmem⟩, hok.object_ne_key hmem h0⟩

/-- Slots added to an array are empty. -/
theorem getElem?_padded {k : Nat} (h0 : o ≠ 0) :
    (slots ++ List.replicate k 0)[n]? = some o ↔ slots[n]? = some o := by
  rcases Nat.lt_or_ge n slots.length with hlt | hge
  · rw [List.getElem?_append_left hlt]
  · rw [List.getElem?_append_right hge, List.getElem?_eq_none hge]
    constructor
    · intro hn
      have hmem := List.mem_of_getElem? hn
      exact absurd (List.eq_of_mem_replicate hmem) h0
    · exact nofun

/-- The store of a new object stays inside the array. -/
theorem HeapOk.store_filled {bs : List UInt8} (hok : HeapOk key h) (hk : key i ≠ 0)
    (ho : h.Fresh 0 o) (hn : n ≠ 0) (hlen : n ≤ (slotsAt h (key i)).length) :
    Heap.store (Function.update h o (some (.bytes bs))) (key i) n o =
      some (Runtime.filled h (key i) n o bs) := by
  have hfree : h o = none := ho.2.elim id fun heq => absurd heq ho.1
  have harr : Function.update h o (some (.bytes bs)) (key i) =
      some (.words ((slotsAt h (key i)).length :: slotsAt h (key i))) := by
    rw [Function.update_of_ne (hok.key_ne_free hfree hk)]
    exact hok.arrays i hk
  rw [Heap.store_words harr (by rw [List.length_cons]; omega)]
  obtain ⟨m, rfl⟩ := Nat.exists_eq_succ_of_ne_zero hn
  rfl

variable [DecidableEq ι]

/-- A change to the blocks of one thread. -/
theorem HeapOk.local (hok : HeapOk key h) {k : Nat} (hnull : h' 0 = none)
    (hframe : ∀ j, j ≠ i → ∀ x, Mine key h j x → h' x = h x) (harray : k ≠ 0 → IsArray h' k)
    (hobjects : ∀ o, o ∈ slotsAt h' k → o ≠ 0 → ∃ bs, h' o = some (.bytes bs))
    (hapart : ∀ n m o : Nat, (slotsAt h' k)[n]? = some o → (slotsAt h' k)[m]? = some o →
      o ≠ 0 → n = m)
    (hown : ∀ x, x ≠ 0 → x = k ∨ x ∈ slotsAt h' k → ∀ j, j ≠ i → ¬ Mine key h j x) :
    ChangeOf i key h (Function.update key i k) h' := by
  have hself : Function.update key i k i = k := Function.update_self ..
  have hne : ∀ j, j ≠ i → Function.update key i k j = key j :=
    fun j hj => Function.update_of_ne hj ..
  have hslots : ∀ j, j ≠ i → slotsAt h' (key j) = slotsAt h (key j) :=
    fun j hj => hok.slotsAt_eq hnull (hframe j hj)
  -- the other threads keep their blocks, and the thread's own are not theirs
  have hmine : ∀ j, j ≠ i → ∀ (n o : Nat), (slotsAt h (key j))[n]? = some o → o ≠ 0 →
      Mine key h j o := fun j _ n o hn h0 => ⟨h0, .inr (List.mem_of_getElem? hn)⟩
  refine ⟨⟨hnull, fun j hj => ?_, fun j l hjl hj => ?_, fun j o ho h0 => ?_,
    fun j l n m o hn hm h0 => ?_⟩, hne, fun j hj => (hne j hj).symm ▸ hslots j hj⟩
  · rcases Decidable.em (j = i) with rfl | hji
    · rw [hself] at hj ⊢
      exact harray hj
    · rw [hne j hji] at hj ⊢
      unfold IsArray
      rw [hslots j hji, hframe j hji _ ⟨hj, .inl rfl⟩]
      exact hok.arrays j hj
  · rcases Decidable.em (j = i) with rfl | hji
    · rcases Decidable.em (l = j) with rfl | hlj
      · rfl
      · rw [hself] at hjl hj
        rw [hne l hlj] at hjl
        exact absurd ⟨hj, .inl hjl⟩ (hown k hj (.inl rfl) l hlj)
    · rw [hne j hji] at hjl hj
      rcases Decidable.em (l = i) with rfl | hli
      · rw [hself] at hjl
        exact absurd ⟨hj, .inl rfl⟩ (hown (key j) hj (.inl hjl) j hji)
      · rw [hne l hli] at hjl
        exact hok.keys j l hjl hj
  · rcases Decidable.em (j = i) with rfl | hji
    · rw [hself] at ho
      exact hobjects o ho h0
    · rw [hne j hji, hslots j hji] at ho
      rw [hframe j hji o ⟨h0, .inr ho⟩]
      exact hok.objects j o ho h0
  · rcases Decidable.em (j = i) with rfl | hji
    · rw [hself] at hn
      rcases Decidable.em (l = j) with rfl | hlj
      · rw [hself] at hm
        exact ⟨rfl, hapart n m o hn hm h0⟩
      · rw [hne l hlj, hslots l hlj] at hm
        exact absurd (hmine l hlj m o hm h0)
          (hown o h0 (.inr (List.mem_of_getElem? hn)) l hlj)
    · rw [hne j hji, hslots j hji] at hn
      rcases Decidable.em (l = i) with rfl | hli
      · rw [hself] at hm
        exact absurd (hmine j hji n o hn h0)
          (hown o h0 (.inr (List.mem_of_getElem? hm)) j hji)
      · rw [hne l hli, hslots l hli] at hm
        exact hok.apart j l n m o hn hm h0

/-- An array that `realloc` moved and made longer. -/
theorem HeapOk.regrown (hok : HeapOk key h) (hb : h.Fresh (key i) b)
    (hn : (slotsAt h (key i)).length ≤ n) :
    ChangeOf i key h (Function.update key i b) (regrown h (key i) b n) := by
  have hne : ∀ x, x ≠ b → x ≠ key i → Runtime.regrown h (key i) b n x = h x := by
    intro x hxb hxk
    unfold Runtime.regrown
    rw [Function.update_of_ne hxb, Function.update_of_ne hxk]
  -- an object in the longer array was in the old one
  have hold : ∀ x, x ∈ slotsAt (Runtime.regrown h (key i) b n) b → x ≠ 0 →
      x ∈ slotsAt h (key i) := by
    intro x hx h0
    rw [slotsAt_regrown] at hx
    exact (List.mem_append.mp hx).resolve_right fun hr => h0 (List.eq_of_mem_replicate hr)
  refine hok.local ?_ (fun j hj x hx => ?_) (fun _ => ?_) (fun o ho h0 => ?_)
    (fun n' m o hn' hm h0 => ?_) (fun x h0 hx j hj hmine => ?_)
  · rcases Decidable.em (key i = 0) with hz | hz
    · unfold Runtime.regrown
      rw [Function.update_of_ne (Ne.symm hb.1), hz, Function.update_self]
    · rw [hne 0 (Ne.symm hb.1) (Ne.symm hz), hok.null]
  · refine hne x (hok.mine_ne_fresh hb hx hj) fun heq => hj ?_
    exact hok.mine_unique hx ⟨hx.1, .inl heq⟩
  · refine isArray_of
      (slotsAt h (key i) ++ List.replicate (n - (slotsAt h (key i)).length) 0) ?_
    unfold Runtime.regrown
    rw [Function.update_self, List.length_append, List.length_replicate, Nat.add_sub_cancel' hn]
  · have ho' := hold o ho h0
    rw [hne o (hok.object_ne_fresh hb ho' h0) (hok.object_ne_key ho' h0)]
    exact hok.objects i o ho' h0
  · rw [slotsAt_regrown, getElem?_padded h0] at hn' hm
    exact (hok.apart i i n' m o hn' hm h0).2
  · rcases hx with rfl | hx
    · exact hok.mine_ne_fresh hb hmine hj rfl
    · exact hok.mine_ne ⟨h0, .inr (hold x hx h0)⟩ hmine hj rfl

/-- A new object in an empty slot. -/
theorem HeapOk.filled {bs : List UInt8} (hok : HeapOk key h) (hk : key i ≠ 0)
    (ho : h.Fresh 0 o) (hn : (slotsAt h (key i))[n - 1]? = some 0) :
    ChangeOf i key h key (filled h (key i) n o bs) := by
  have hfree : h o = none := ho.2.elim id fun heq => absurd heq ho.1
  have hfresh : ∀ j, h.Fresh (key j) o := fun j => ⟨ho.1, .inl hfree⟩
  have hok' : o ≠ key i := Ne.symm (hok.key_ne_free hfree hk)
  have hne : ∀ x, x ≠ key i → x ≠ o → Runtime.filled h (key i) n o bs x = h x := by
    intro x hxk hxo
    unfold Runtime.filled
    rw [Function.update_of_ne hxk, Function.update_of_ne hxo]
  -- what is in the slots now is the new object, or was there before
  have hold : ∀ m x, (slotsAt (Runtime.filled h (key i) n o bs) (key i))[m]? = some x → x ≠ 0 →
      (x = o ∧ m = n - 1) ∨ (x ≠ o ∧ (slotsAt h (key i))[m]? = some x) := by
    intro m x hm h0
    rw [slotsAt_filled, List.getElem?_set] at hm
    rcases Decidable.em (n - 1 = m) with rfl | hnm
    · rw [if_pos rfl, if_pos (List.getElem?_eq_some_iff.mp hn).1] at hm
      exact .inl ⟨(Option.some.inj hm).symm, rfl⟩
    · rw [if_neg hnm] at hm
      exact .inr ⟨hok.object_ne_fresh (hfresh i) (List.mem_of_getElem? hm) h0, hm⟩
  have hcases : ∀ x, x ∈ slotsAt (Runtime.filled h (key i) n o bs) (key i) → x ≠ 0 →
      x = o ∨ (x ≠ o ∧ x ∈ slotsAt h (key i)) := by
    intro x hx h0
    obtain ⟨m, hm⟩ := List.mem_iff_getElem?.mp hx
    exact (hold m x hm h0).imp And.left fun hr => ⟨hr.1, List.mem_of_getElem? hr.2⟩
  have hchange : ChangeOf i key h (Function.update key i (key i))
      (Runtime.filled h (key i) n o bs) := by
    refine hok.local ?_ (fun j hj x hx => ?_) (fun _ => ?_) (fun x hx h0 => ?_)
      (fun m l x hm hl h0 => ?_) (fun x h0 hx j hj hmine => ?_)
    · rw [hne 0 (Ne.symm hk) (Ne.symm ho.1), hok.null]
    · exact hne x (hok.mine_ne ⟨hk, .inl rfl⟩ hx hj) (hok.mine_ne_fresh (hfresh i) hx hj)
    · refine isArray_of ((slotsAt h (key i)).set (n - 1) o) ?_
      unfold Runtime.filled
      rw [Function.update_self, List.length_set]
    · rcases hcases x hx h0 with rfl | ⟨hxo, hx'⟩
      · refine ⟨bs, ?_⟩
        unfold Runtime.filled
        rw [Function.update_of_ne hok', Function.update_self]
      · rw [hne x (hok.object_ne_key hx' h0) hxo]
        exact hok.objects i x hx' h0
    · rcases hold m x hm h0 with ⟨rfl, rfl⟩ | ⟨hxo, hm'⟩
      · exact ((hold l _ hl h0).resolve_right fun hr => hr.1 rfl).2.symm
      · have hl' := (hold l x hl h0).resolve_left fun hr => hxo hr.1
        exact (hok.apart i i m l x hm' hl'.2 h0).2
    · rcases hx with rfl | hx
      · exact hok.mine_ne ⟨hk, .inl rfl⟩ hmine hj rfl
      · rcases hcases x hx h0 with rfl | ⟨-, hx'⟩
        · exact hok.mine_ne_fresh (hfresh i) hmine hj rfl
        · exact hok.mine_ne ⟨h0, .inr hx'⟩ hmine hj rfl
  rwa [Function.update_eq_self] at hchange

/-- The blocks of a thread freed. -/
theorem HeapOk.cleaned (hok : HeapOk key h) :
    ChangeOf i key h (Function.update key i 0) (cleaned h (key i)) := by
  have hmine : ∀ x, x ∈ objectsAt h (key i) → Mine key h i x := by
    intro x hx
    obtain ⟨hmem, h0⟩ := List.mem_filter.mp hx
    exact ⟨by simpa using h0, .inr hmem⟩
  have hnull : Runtime.cleaned h (key i) 0 = none := by
    unfold Runtime.cleaned
    rcases Decidable.em (0 = key i) with hz | hz
    · rw [hz, Function.update_self]
    · rw [Function.update_of_ne hz, Heap.erase_of_not_mem fun hm => (hmine 0 hm).1 rfl, hok.null]
  have hnil : slotsAt (Runtime.cleaned h (key i)) 0 = [] := slotsAt_none hnull
  refine hok.local hnull (fun j hj x hx => ?_) (fun h0 => absurd rfl h0) (fun o ho => ?_)
    (fun n m o hn => ?_) (fun x h0 hx => ?_)
  · unfold Runtime.cleaned
    have hxk : x ≠ key i := fun heq => hj (hok.mine_unique hx ⟨hx.1, .inl heq⟩)
    rw [Function.update_of_ne hxk,
      Heap.erase_of_not_mem fun hm => hok.mine_ne (hmine x hm) hx hj rfl]
  · rw [hnil] at ho
    exact nomatch ho
  · rw [hnil] at hn
    exact nomatch hn
  · rw [hnil] at hx
    exact absurd (hx.resolve_right List.not_mem_nil) h0

/-- `emutls_array_for` stays inside the array. It gives null and changes nothing, or an array with
    room for the index, and the objects it had where they were. -/
theorem HeapOk.arrayFor (hok : HeapOk key h) (hn : n ≠ 0) {answer : Option (Nat × (Nat → Nat))}
    (hfresh : ∀ r, answer = some r → h.Fresh (key i) r.1) :
    emutlsArrayFor h (key i) n answer = some (0, h) ∨
    ∃ a h', emutlsArrayFor h (key i) n answer = some (a, h') ∧ a ≠ 0 ∧
      ChangeOf i key h (Function.update key i a) h' ∧ n ≤ (slotsAt h' a).length ∧
      ∀ m o : Nat, o ≠ 0 → ((slotsAt h' a)[m]? = some o ↔ (slotsAt h (key i))[m]? = some o) := by
  obtain ⟨hle, heq⟩ | ⟨-, -, heq⟩ | ⟨b, rest, hlt, rfl, heq⟩ :=
    emutlsArrayFor_cases (n := n) hok.null (hok.arrays i) answer
  · right
    have hk : key i ≠ 0 := by
      intro hz
      rw [hz, slotsAt_none hok.null, List.length_nil] at hle
      omega
    refine ⟨key i, h, heq, hk, ?_, hle, fun _ _ _ => Iff.rfl⟩
    rw [Function.update_eq_self]
    exact .refl hok
  · exact .inl heq
  · right
    have hb := hfresh _ rfl
    refine ⟨b, _, heq, hb.1, hok.regrown hb (Nat.le_of_lt hlt), ?_, fun m o h0 => ?_⟩
    · rw [slotsAt_regrown, List.length_append, List.length_replicate]
      omega
    · rw [slotsAt_regrown, getElem?_padded h0]

end HeapOk

end OopsMesa.Runtime
