/-
  An access to a thread-local that needs a larger array, with every answer it can meet.

  Two of the calls it makes may fail one after the other. `realloc` gives the larger array, and
  from then on the old one is no block; `pthread_setspecific` is to put the larger one under
  `s_key`, and where it is refused the larger one is freed. The key then holds neither: it still
  holds the address of the old array, which is gone (`emutlsGetAddress_refused`). With no array
  before, with `realloc` refused, or with `pthread_setspecific` done, the thread keeps what it had
  (`access_keeps_iff`).

  `HeapOk` is the heap between moves, as every run keeps it (OopsMesa.Runtime.TlsRuns), with
  `pthread_setspecific` done (`emutlsArrayForKey_true`).
-/
import OopsMesa.Runtime.TlsArrays

namespace OopsMesa.Runtime

open OopsMesa.Lib

variable {ι : Type} {i : ι} {h h' : Heap} {k k' b n o : Nat}

/-! ## The code -/

/-- What a call comes to: what it returns, the thread's value of `s_key`, and the heap. -/
structure TlsResult where
  result : Nat
  key : Nat
  heap : Heap

/-- `emutls_array_for`, with `pthread_setspecific` done or refused. -/
def emutlsArrayForKey (h : Heap) (key index : Nat) (realloc : Option (Nat × (Nat → Nat)))
    (setspecific : Bool) : Option TlsResult := do
  let count ← arrayCount h key
  if index ≤ count then some ⟨key, key, h⟩
  else
    match realloc with
    | none => some ⟨0, key, h⟩
    | some (grown, rest) => do
      let h ← h.realloc key (index + 1) grown rest
      let h ← h.zero grown (count + 1) (index - count)
      let h ← h.store grown 0 index
      if setspecific then some ⟨grown, grown, h⟩
      else do
        let h ← h.free grown
        some ⟨0, key, h⟩

/-- `emutls_allocate`; `memalign` is what `posix_memalign` gives, and what its bytes hold. -/
def emutlsAllocate (h : Heap) (control : Control) : Option (Nat × List UInt8) → Nat × Heap
  | none => (0, h)
  | some (object, garbage) =>
    (object, Function.update h object (some (.bytes (emutlsFill control garbage))))

/-- `__emutls_get_address`, from where the control has its index. -/
def emutlsGetAddress (h : Heap) (key : Nat) (control : Control) (index : Nat)
    (realloc : Option (Nat × (Nat → Nat))) (setspecific : Bool)
    (memalign : Option (Nat × List UInt8)) : Option TlsResult := do
  let array ← emutlsArrayForKey h key index realloc setspecific
  if array.result = 0 then some ⟨0, array.key, array.heap⟩
  else do
    let word ← array.heap.load array.result index
    if word = 0 then do
      let made := emutlsAllocate array.heap control memalign
      if made.1 = 0 then some ⟨0, array.key, made.2⟩
      else do
        let h ← made.2.store array.result index made.1
        let word ← h.load array.result index
        some ⟨word, array.key, h⟩
    else some ⟨word, array.key, array.heap⟩

/-! ## The statement -/

/-- The thread that had the array at `k` has one at `k'` with the same objects in the same slots:
    a later access to one of them gives it and changes nothing, whatever answers there are, and
    an exit frees each once. -/
structure ArrayKept (h : Heap) (k : Nat) (h' : Heap) (k' : Nat) : Prop where
  array : k ≠ 0 ∨ k' ≠ 0 → IsArray h' k'
  objects : ∀ m o : Nat, o ≠ 0 → ((slotsAt h' k')[m]? = some o ↔ (slotsAt h k)[m]? = some o)
  again : ∀ m o : Nat, (slotsAt h k)[m]? = some o → o ≠ 0 →
    ∀ control realloc setspecific memalign,
      emutlsGetAddress h' k' control (m + 1) realloc setspecific memalign = some ⟨o, k', h'⟩
  exit : ∃ left, emutlsThreadCleanup h' k' = some (objectsAt h k, left)
  once : (objectsAt h k).Nodup

/-- A null return leaves the thread what it had, and, unless the larger array was made and put
    under the key, the array it had. -/
def AccessKeeps (h : Heap) (k : Nat) (realloc : Option (Nat × (Nat → Nat))) (setspecific : Bool)
    (r : TlsResult) : Prop :=
  r.result = 0 → ArrayKept h k r.heap r.key ∧
    (realloc = none ∨ setspecific = false → r.key = k ∧ slotsAt r.heap r.key = slotsAt h k)

/-- A null return leaves the thread the array it had, of as many slots, also where it had been
    grown. -/
def AccessKeepsArray (h : Heap) (k : Nat) (r : TlsResult) : Prop :=
  r.result = 0 → ArrayKept h k r.heap r.key ∧ slotsAt r.heap r.key = slotsAt h k

/-! ## What the functions come to -/

variable {control : Control} {realloc : Option (Nat × (Nat → Nat))} {setspecific : Bool}
  {memalign : Option (Nat × List UInt8)}

/-- With `pthread_setspecific` done, it is the function of the runs. -/
theorem emutlsArrayForKey_true :
    (emutlsArrayForKey h k n realloc true).map (fun r => (r.result, r.heap)) =
      emutlsArrayFor h k n realloc := by
  unfold emutlsArrayForKey emutlsArrayFor
  simp only [Option.bind_eq_bind, Option.map_bind]
  congr 1
  funext count
  rw [Function.comp_apply]
  by_cases hle : n ≤ count
  · rw [if_pos hle, if_pos hle]
    rfl
  · rw [if_neg hle, if_neg hle]
    obtain _ | ⟨grown, rest⟩ := realloc
    · rfl
    · simp only [Option.map_bind, Function.comp_def, if_true, Option.map_some]

/-- An array that is large enough is given as it is. -/
theorem emutlsArrayForKey_fits (h0 : h 0 = none) (ha : k ≠ 0 → IsArray h k)
    (hle : n ≤ (slotsAt h k).length) :
    emutlsArrayForKey h k n realloc setspecific = some ⟨k, k, h⟩ := by
  unfold emutlsArrayForKey
  rw [arrayCount_eq h0 ha, Option.bind_eq_bind, Option.bind_some, if_pos hle]

/-- `realloc` refused, there is none. -/
theorem emutlsArrayForKey_none (h0 : h 0 = none) (ha : k ≠ 0 → IsArray h k)
    (hlt : (slotsAt h k).length < n) (setspecific : Bool) :
    emutlsArrayForKey h k n none setspecific = some ⟨0, k, h⟩ := by
  unfold emutlsArrayForKey
  rw [arrayCount_eq h0 ha, Option.bind_eq_bind, Option.bind_some, if_neg (by omega)]

/-- The larger array is as the runs have it; then it goes under the key, or is freed. -/
theorem emutlsArrayForKey_grows (h0 : h 0 = none) (ha : k ≠ 0 → IsArray h k)
    (hlt : (slotsAt h k).length < n) (hb : b ≠ 0) (rest : Nat → Nat) (setspecific : Bool) :
    emutlsArrayForKey h k n (some (b, rest)) setspecific =
      if setspecific then some ⟨b, b, regrown h k b n⟩
      else some ⟨0, k, Function.update (regrown h k b n) b none⟩ := by
  have hcount := arrayCount_eq h0 ha
  obtain ⟨hle, -⟩ | ⟨-, hnone, -⟩ | ⟨b', rest', -, heq, hfor⟩ :=
    emutlsArrayFor_cases (n := n) h0 ha (some (b, rest))
  · omega
  · exact nomatch hnone
  · obtain ⟨rfl, rfl⟩ := Prod.mk.inj (Option.some.inj heq)
    unfold emutlsArrayFor at hfor
    rw [hcount, Option.bind_eq_bind, Option.bind_some, if_neg (by omega)] at hfor
    simp only [Option.bind_eq_bind, Option.bind_eq_some_iff] at hfor
    obtain ⟨moved, hmoved, zeroed, hzeroed, counted, hcounted, hend⟩ := hfor
    obtain ⟨-, rfl⟩ := Prod.mk.inj (Option.some.inj hend)
    have hlive : (regrown h k b n b).isSome := by
      unfold regrown
      rw [Function.update_self]
      rfl
    unfold emutlsArrayForKey
    simp only [Option.bind_eq_bind]
    rw [hcount, Option.bind_some, if_neg (by omega), hmoved, Option.bind_some, hzeroed,
      Option.bind_some, hcounted, Option.bind_some, Heap.free_live hb hlive, Option.bind_some]

/-- No array, no object. -/
theorem emutlsGetAddress_null
    (hfor : emutlsArrayForKey h k n realloc setspecific = some ⟨0, k', h'⟩) :
    emutlsGetAddress h k control n realloc setspecific memalign = some ⟨0, k', h'⟩ := by
  unfold emutlsGetAddress
  rw [hfor]
  rfl

/-- An object that is there is given, and nothing is asked for. -/
theorem emutlsGetAddress_held (hnull : h 0 = none) (ha : IsArray h k) (hk : k ≠ 0) {m : Nat}
    (hm : (slotsAt h k)[m]? = some o) (h0 : o ≠ 0) (control : Control)
    (realloc : Option (Nat × (Nat → Nat))) (setspecific : Bool)
    (memalign : Option (Nat × List UInt8)) :
    emutlsGetAddress h k control (m + 1) realloc setspecific memalign = some ⟨o, k, h⟩ := by
  have hlt : m < (slotsAt h k).length := (List.getElem?_eq_some_iff.mp hm).1
  have hfor : emutlsArrayForKey h k (m + 1) realloc setspecific = some ⟨k, k, h⟩ :=
    emutlsArrayForKey_fits hnull (fun _ => ha) hlt
  have hload : h.load k (m + 1) = some o := by
    rw [ha.load (Nat.succ_ne_zero m)]
    exact hm
  unfold emutlsGetAddress
  simp only [Option.bind_eq_bind]
  rw [hfor, Option.bind_some]
  dsimp only
  rw [if_neg hk, hload, Option.bind_some, if_neg h0]

section HeapOk

variable {key key' : ι → Nat}

/-- An empty slot gets an object, or there is no memory for one. -/
theorem emutlsGetAddress_empty [DecidableEq ι] (control : Control) (hok : HeapOk key' h')
    (hk : key' i ≠ 0) (hn : n ≠ 0) (hslot : (slotsAt h' (key' i))[n - 1]? = some 0)
    (hfor : emutlsArrayForKey h k n realloc setspecific = some ⟨key' i, key' i, h'⟩)
    (hobject : ∀ p, memalign = some p → h'.Fresh 0 p.1) :
    ∃ r, emutlsGetAddress h k control n realloc setspecific memalign = some r ∧
      (r.result = 0 → r.key = key' i ∧ r.heap = h') ∧ (r.result = 0 ↔ memalign = none) := by
  have hload : h'.load (key' i) n = some 0 := by
    rw [(hok.arrays i hk).load hn, hslot]
  unfold emutlsGetAddress
  simp only [Option.bind_eq_bind]
  rw [hfor, Option.bind_some]
  dsimp only
  rw [if_neg hk, hload, Option.bind_some, if_pos rfl]
  cases memalign with
  | none => exact ⟨_, rfl, fun _ => ⟨rfl, rfl⟩, fun _ => rfl, fun _ => rfl⟩
  | some p =>
    obtain ⟨object, garbage⟩ := p
    have hfresh : h'.Fresh 0 object := hobject _ rfl
    have hlen := (List.getElem?_eq_some_iff.mp hslot).1
    have hstore : Heap.store (Function.update h' object
        (some (.bytes (emutlsFill control garbage)))) (key' i) n object =
          some (filled h' (key' i) n object (emutlsFill control garbage)) :=
      hok.store_filled hk hfresh hn (by omega)
    have harr : IsArray (filled h' (key' i) n object (emutlsFill control garbage)) (key' i) :=
      (hok.filled hk hfresh hslot).ok.arrays i hk
    have hread : (filled h' (key' i) n object (emutlsFill control garbage)).load (key' i) n =
        some object := by
      rw [harr.load hn, slotsAt_filled, List.getElem?_set_self hlen]
    unfold emutlsAllocate
    dsimp only
    rw [if_neg hfresh.1, hstore, Option.bind_some, hread, Option.bind_some]
    exact ⟨_, rfl, fun hz => absurd hz hfresh.1, fun hz => absurd hz hfresh.1, nofun⟩

/-- A thread keeps what it had where its array, if it has one, has the objects it had. -/
theorem arrayKept_of (hok : HeapOk key h) (hok' : HeapOk key' h')
    (harr : key i ≠ 0 → key' i ≠ 0)
    (hsame : ∀ m o : Nat, o ≠ 0 →
      ((slotsAt h' (key' i))[m]? = some o ↔ (slotsAt h (key i))[m]? = some o))
    (hobjects : objectsAt h' (key' i) = objectsAt h (key i)) :
    ArrayKept h (key i) h' (key' i) := by
  refine ⟨fun hk => hok'.arrays i (hk.elim harr id), hsame, ?_, ?_, hok.objects_nodup i⟩
  · intro m o hm h0 control realloc setspecific memalign
    have hm' := (hsame m o h0).mpr hm
    have hk' : key' i ≠ 0 := by
      intro hz
      rw [hz, slotsAt_none hok'.null] at hm'
      exact nomatch hm'
    exact emutlsGetAddress_held hok'.null (hok'.arrays i hk') hk' hm' h0 control realloc setspecific
      memalign
  · rw [← hobjects]
    exact ⟨_, hok'.cleanup i⟩

theorem arrayKept_self (hok : HeapOk key h) (i : ι) : ArrayKept h (key i) h (key i) :=
  arrayKept_of hok hok id (fun _ _ _ => Iff.rfl) rfl

/-- A thread whose block is gone has kept nothing, unless it had none. -/
theorem arrayKept_gone_iff (hok : HeapOk key h) (hgone : h' (key i) = none)
    (hnull : key i = 0 → h' = h) : ArrayKept h (key i) h' (key i) ↔ key i = 0 := by
  constructor
  · intro hkept
    by_contra hk
    exact nomatch hgone.symm.trans (hkept.array (.inl hk))
  · intro hk
    rw [hnull hk]
    exact arrayKept_self hok i

/-- The larger array has the objects of the one it replaces. -/
theorem objectsAt_regrown : objectsAt (regrown h k b n) b = objectsAt h k := by
  unfold objectsAt
  rw [slotsAt_regrown, List.filter_append]
  simp

/-- `pthread_setspecific` refused, the key holds the address of a block that is gone, unless it
    held none. -/
theorem emutlsGetAddress_refused (hok : HeapOk key h) (hlt : (slotsAt h (key i)).length < n)
    (hb : h.Fresh (key i) b) (rest : Nat → Nat) (control : Control)
    (memalign : Option (Nat × List UInt8)) :
    ∃ h', emutlsGetAddress h (key i) control n (some (b, rest)) false memalign =
        some ⟨0, key i, h'⟩ ∧ h' (key i) = none ∧ (key i = 0 → h' = h) := by
  have hfor := emutlsArrayForKey_grows hok.null (hok.arrays i) hlt hb.1 rest false
  rw [if_neg Bool.false_ne_true] at hfor
  refine ⟨_, emutlsGetAddress_null hfor, ?_, fun hz => ?_⟩
  · unfold regrown
    rw [Function.update_idem]
    by_cases hbk : key i = b
    · rw [hbk, Function.update_self]
    · rw [Function.update_of_ne hbk, Function.update_self]
  · have hnone : h b = none := hb.2.elim id fun hbk => absurd (hbk.trans hz) hb.1
    have hnull : Function.update h 0 none = h := by rw [← hok.null, Function.update_eq_self]
    unfold regrown
    rw [Function.update_idem, hz, hnull, ← hnone, Function.update_eq_self]

/-- The larger array made and put under the key, a null return leaves the objects in their
    slots. -/
theorem emutlsGetAddress_grown [DecidableEq ι] (hok : HeapOk key h)
    (hlt : (slotsAt h (key i)).length < n) (hb : h.Fresh (key i) b) (rest : Nat → Nat)
    (control : Control) (memalign : Option (Nat × List UInt8))
    (hobject : ∀ a, emutlsArrayForKey h (key i) n (some (b, rest)) true = some a →
      ∀ p, memalign = some p → a.heap.Fresh 0 p.1) :
    ∃ r, emutlsGetAddress h (key i) control n (some (b, rest)) true memalign = some r ∧
      (r.result = 0 → ArrayKept h (key i) r.heap r.key ∧
        slotsAt r.heap r.key ≠ slotsAt h (key i)) ∧ (r.result = 0 ↔ memalign = none) := by
  have hfor := emutlsArrayForKey_grows hok.null (hok.arrays i) hlt hb.1 rest true
  rw [if_pos rfl] at hfor
  have hchange := hok.regrown hb (Nat.le_of_lt hlt)
  have hself : Function.update key i b i = b := Function.update_self ..
  have hslot : (slotsAt (regrown h (key i) b n) b)[n - 1]? = some 0 := by
    rw [slotsAt_regrown, List.getElem?_append_right (by omega), List.getElem?_replicate]
    exact if_pos (by omega)
  have hempty := emutlsGetAddress_empty (i := i) (n := n) control hchange.ok
    (by rw [hself]; exact hb.1) (by omega) (by rwa [hself]) (by rw [hself]; exact hfor)
    (hobject _ hfor)
  rw [hself] at hempty
  obtain ⟨r, hr, hkept, hnone⟩ := hempty
  refine ⟨r, hr, fun hz => ?_, hnone⟩
  obtain ⟨hkey, hheap⟩ := hkept hz
  have hkeep := arrayKept_of (i := i) hok hchange.ok (fun _ => by rw [hself]; exact hb.1)
    (fun m o h0 => by rw [hself, slotsAt_regrown, getElem?_padded h0])
    (by rw [hself, objectsAt_regrown])
  rw [hself] at hkeep
  rw [hkey, hheap]
  refine ⟨hkeep, fun hsame => ?_⟩
  -- there are more slots
  have hlen := congrArg List.length hsame
  rw [slotsAt_regrown, List.length_append, List.length_replicate] at hlen
  omega

/-! ## What a null return leaves -/

/-- An access that needs a larger array leaves the thread what it had, if it returns null, exactly
    where `realloc` is refused, `pthread_setspecific` is done, or there was no array; and the array
    as it was, where `posix_memalign` does not fail after the array was grown. -/
theorem access_keeps_iff [DecidableEq ι] (hok : HeapOk key h)
    (hlt : (slotsAt h (key i)).length < n) (control : Control)
    (realloc : Option (Nat × (Nat → Nat))) (setspecific : Bool)
    (memalign : Option (Nat × List UInt8))
    (hfresh : ∀ r, realloc = some r → h.Fresh (key i) r.1)
    (hobject : ∀ a, emutlsArrayForKey h (key i) n realloc setspecific = some a →
      ∀ p, memalign = some p → a.heap.Fresh 0 p.1) :
    ∃ r, emutlsGetAddress h (key i) control n realloc setspecific memalign = some r ∧
      (AccessKeeps h (key i) realloc setspecific r ↔
        realloc = none ∨ setspecific = true ∨ key i = 0) ∧
      (AccessKeepsArray h (key i) r ↔
        realloc = none ∨ if setspecific then memalign ≠ none else key i = 0) := by
  have hself := arrayKept_self hok i
  unfold AccessKeeps AccessKeepsArray
  obtain _ | ⟨b, rest⟩ := realloc
  · have hfor := emutlsArrayForKey_none hok.null (hok.arrays i) hlt setspecific
    exact ⟨_, emutlsGetAddress_null hfor,
      ⟨fun _ => .inl rfl, fun _ _ => ⟨hself, fun _ => ⟨rfl, rfl⟩⟩⟩,
      ⟨fun _ => .inl rfl, fun _ _ => ⟨hself, rfl⟩⟩⟩
  · have hb : h.Fresh (key i) b := hfresh _ rfl
    cases setspecific with
    | true =>
      obtain ⟨r, hr, hkept, hnone⟩ :=
        emutlsGetAddress_grown hok hlt hb rest control memalign hobject
      refine ⟨r, hr, ⟨fun _ => .inr (.inl rfl), fun _ hz => ⟨(hkept hz).1, nofun⟩⟩,
        fun hkeeps => .inr ?_, fun hcase hz => ?_⟩
      · rw [if_pos rfl]
        intro hmem
        have hz := hnone.mpr hmem
        exact (hkept hz).2 (hkeeps hz).2
      · have hmem := hcase.resolve_left nofun
        rw [if_pos rfl] at hmem
        exact absurd (hnone.mp hz) hmem
    | false =>
      obtain ⟨h', hr, hgone, hnull⟩ :=
        emutlsGetAddress_refused hok hlt hb rest control memalign
      have hkept := arrayKept_gone_iff hok hgone hnull
      have hslots : key i = 0 → slotsAt h' (key i) = slotsAt h (key i) := by
        intro hk
        rw [hnull hk]
      refine ⟨_, hr, ⟨fun hkeeps => .inr (.inr (hkept.mp (hkeeps rfl).1)), fun hcase _ => ?_⟩,
        fun hkeeps => .inr ?_, fun hcase _ => ?_⟩
      · have hk : key i = 0 := (hcase.resolve_left nofun).resolve_left nofun
        exact ⟨hkept.mpr hk, fun _ => ⟨rfl, hslots hk⟩⟩
      · rw [if_neg Bool.false_ne_true]
        exact hkept.mp (hkeeps rfl).1
      · have hk := hcase.resolve_left nofun
        rw [if_neg Bool.false_ne_true] at hk
        exact ⟨hkept.mpr hk, hslots hk⟩

end HeapOk

/-- An array at 16 of one slot, with an object at 32. -/
def oneObject : Heap := fun a =>
  if a = 16 then some (.words [1, 32]) else if a = 32 then some (.bytes [7]) else none

theorem oneObject_ok : HeapOk (fun _ : Unit => 16) oneObject := by
  have hslots : slotsAt oneObject 16 = [32] := rfl
  refine ⟨rfl, fun _ _ => rfl, fun _ _ _ _ => rfl, fun _ o ho _ => ?_,
    fun _ _ n m o hn hm _ => ⟨rfl, ?_⟩⟩
  · rw [hslots] at ho
    rw [List.mem_singleton.mp ho]
    exact ⟨_, rfl⟩
  · rw [hslots] at hn hm
    have h1 := (List.getElem?_eq_some_iff.mp hn).1
    have h2 := (List.getElem?_eq_some_iff.mp hm).1
    rw [List.length_singleton] at h1 h2
    omega

/-- A thread-local of a byte. -/
def oneByte : Control := ⟨1, 1, none⟩

theorem access_keeps_iff_one :
    ∃ r, emutlsGetAddress oneObject 16 oneByte 2 (some (48, fun _ => 0)) true none = some r ∧
      AccessKeeps oneObject 16 (some (48, fun _ => 0)) true r := by
  obtain ⟨r, hr, hiff, -⟩ := access_keeps_iff (i := ()) (n := 2) oneObject_ok (by decide) oneByte
    (some (48, fun _ => 0)) true none
    (fun r hr => by rw [← Option.some.inj hr]; exact ⟨by decide, .inl rfl⟩) nofun
  exact ⟨r, hr, hiff.mpr (.inr (.inl rfl))⟩

/-- The array is moved from 16 to 48 for a second slot, and freed there. -/
theorem not_access_keeps :
    ¬ ∀ (h : Heap) (key : Unit → Nat) (n : Nat) (control : Control)
      (realloc : Option (Nat × (Nat → Nat))) (setspecific : Bool)
      (memalign : Option (Nat × List UInt8)), HeapOk key h → (slotsAt h (key ())).length < n →
      (∀ r, realloc = some r → h.Fresh (key ()) r.1) →
      (∀ a, emutlsArrayForKey h (key ()) n realloc setspecific = some a →
        ∀ p, memalign = some p → a.heap.Fresh 0 p.1) →
      ∃ r, emutlsGetAddress h (key ()) control n realloc setspecific memalign = some r ∧
        AccessKeeps h (key ()) realloc setspecific r := by
  intro hall
  have hfresh : oneObject.Fresh 16 48 := ⟨by decide, .inl rfl⟩
  obtain ⟨r, hr, hkeeps⟩ := hall oneObject (fun _ => 16) 2 oneByte (some (48, fun _ => 0)) false
    none oneObject_ok (by decide) (fun r hr => by rw [← Option.some.inj hr]; exact hfresh) nofun
  obtain ⟨h', hr', hgone, hnull⟩ := emutlsGetAddress_refused (i := ()) (n := 2) oneObject_ok
    (by decide) hfresh (fun _ => 0) oneByte none
  obtain rfl := Option.some.inj (hr.symm.trans hr')
  have hkept := arrayKept_gone_iff (i := ()) oneObject_ok hgone hnull
  exact absurd (hkept.mp (hkeeps rfl).1) (by decide)

end OopsMesa.Runtime
