/-
  Emulated TLS, over runs.

  The invariant is `TlsInv`. Its heart is `slots`: a slot of a thread's array holds what was made
  for the control of that index since the thread last exited, and nothing else. A move changes the
  blocks of one thread (`TlsAct.change`), fills one empty slot with what it made, or frees what the
  slots hold (`TlsAct.slots_of`); indices are only handed out (`TlsAct.index_eq`), under the lock.
-/
import OopsMesa.Runtime.TlsArrays

namespace OopsMesa.Runtime

open OopsMesa.Lib

variable {ι κ : Type}

/-! ## Lives -/

/-- The thread an event is of. -/
def TlsEvent.thread : TlsEvent ι κ → ι
  | .returned i _ _ => i
  | .created i _ _ _ => i
  | .exited i _ => i
  | .fault i => i

section Life

variable [DecidableEq ι] {i j : ι} {e : TlsEvent ι κ} {es past : List (TlsEvent ι κ)}

/-- What happens without the thread's exit is in its life. -/
theorem life_append (h : ∀ os, .exited i os ∉ es) : life i (es ++ past) = es ++ life i past := by
  induction es with
  | nil => rfl
  | cons e es ih =>
    have hrest := ih fun os hos => h os (List.mem_cons_of_mem e hos)
    cases e with
    | exited k os =>
      have hki : k ≠ i := fun heq => h os (heq ▸ List.mem_cons_self)
      show (if k = i then _ else _ :: life i (es ++ past)) = _
      rw [if_neg hki, hrest]
      rfl
    | _ =>
      show _ :: life i (es ++ past) = _
      rw [hrest]
      rfl

theorem life_exited {os : List Nat} : life i (.exited i os :: past) = [] := if_pos rfl

theorem mem_of_mem_life (h : e ∈ life i past) : e ∈ past := by
  induction past with
  | nil => exact h
  | cons x past ih =>
    cases x with
    | exited k os =>
      change e ∈ (if k = i then _ else _ :: life i past) at h
      rcases Decidable.em (k = i) with hki | hki
      · rw [if_pos hki] at h
        exact nomatch h
      · rw [if_neg hki] at h
        exact (List.mem_cons.mp h).elim (fun heq => heq ▸ List.mem_cons_self) fun hm =>
          List.mem_cons_of_mem _ (ih hm)
    | _ =>
      exact (List.mem_cons.mp h).elim (fun heq => heq ▸ List.mem_cons_self) fun hm =>
        List.mem_cons_of_mem _ (ih hm)

/-- What one thread does is not in the life of another. -/
theorem mem_life_of_ne (hes : ∀ e ∈ es, e.thread = i) (hji : j ≠ i) (he : e.thread = j) :
    e ∈ life j (es ++ past) ↔ e ∈ life j past := by
  rw [life_append fun os hos => hji (hes _ hos), List.mem_append]
  exact or_iff_right fun hm => hji (he.symm.trans (hes e hm))

end Life

/-! ## The invariant -/

/-- The slots of a thread. -/
def TlsShared.slots (s : TlsShared ι κ) (i : ι) : List Nat := slotsAt s.heap (s.key i)

/-- Where a thread holds `s_index_lock`. -/
def TlsPc.Locked : TlsPc κ → Prop
  | .recheck _ | .assign _ | .publish _ _ | .unlock _ _ => True
  | _ => False

/-- What a thread that has come to a place has found out. -/
def TlsPc.Right (s : TlsShared ι κ) (i : ι) : TlsPc κ → Prop
  | .out | .check _ | .lock _ | .recheck _ => True
  | .assign d => s.index d = 0
  | .publish d n => s.index d = 0 ∧ n = s.next ∧ ∀ e, s.index e < n
  | .unlock d n | .array d n => s.index d = n ∧ n ≠ 0
  | .slot d n a => s.index d = n ∧ n ≠ 0 ∧ a = s.key i ∧ a ≠ 0 ∧ n ≤ (s.slots i).length
  | .allocate d n a => s.index d = n ∧ n ≠ 0 ∧ a = s.key i ∧ a ≠ 0 ∧ (s.slots i)[n - 1]? = some 0
  | .load d n a => s.index d = n ∧ n ≠ 0 ∧ a = s.key i ∧ a ≠ 0 ∧
      ∃ o, o ≠ 0 ∧ (s.slots i)[n - 1]? = some o

structure TlsInv [DecidableEq ι] (control : κ → Control) (c : WithTls ι κ) : Prop where
  held : Threads.Held TlsPc.Locked c.shared.lock c
  heap : HeapOk c.shared.key c.shared.heap
  right : ∀ i, (c.pc i).Right c.shared i
  bound : ∀ d, c.shared.index d ≤ c.shared.next
  unshared : ∀ d e, c.shared.index d ≠ 0 → c.shared.index d = c.shared.index e → d = e
  /-- A slot holds what was made for the control of its index. -/
  slots : ∀ i (n o : Nat), o ≠ 0 → ((c.shared.slots i)[n]? = some o ↔
    ∃ d bs, c.shared.index d = n + 1 ∧ .created i d o bs ∈ life i c.past)
  created : ∀ i d o bs, .created i d o bs ∈ c.past → o ≠ 0 ∧ c.shared.index d ≠ 0 ∧
    bs.take (control d).size = (control d).initial ∧ bs.length = (control d).request
  returned : ∀ i d o, .returned i d o ∈ c.past → c.shared.index d ≠ 0
  given : ∀ i d o, .returned i d o ∈ life i c.past → o ≠ 0 →
    ∃ bs, .created i d o bs ∈ life i c.past
  freed : Threads.EachAfter (fun e pre => ∀ i os, e = .exited i os →
    os.Nodup ∧ ∀ o, o ∈ os ↔ ∃ d bs, .created i d o bs ∈ life i pre) c.past
  safe : ∀ i, .fault i ∉ c.past

variable {control : κ → Control}

theorem TlsInv.init [DecidableEq ι] : TlsInv control (WithTls.init : WithTls ι κ) where
  held := .of_free fun _ h => h
  heap := ⟨rfl, fun _ h => absurd rfl h, fun _ _ _ h => absurd rfl h, nofun, nofun⟩
  right _ := trivial
  bound _ := Nat.le_refl 0
  unshared _ _ h := absurd rfl h
  slots _ _ _ _ := ⟨nofun, fun ⟨_, _, h, _⟩ => nomatch h⟩
  created _ _ _ _ h := nomatch h
  returned _ _ _ h := nomatch h
  given _ _ _ h := nomatch h
  freed := trivial
  safe _ h := nomatch h

section Slots

variable [DecidableEq ι] {c : WithTls ι κ}

/-- What the slots of a thread hold is what was made in its life. -/
theorem TlsInv.mem_objectsAt (h : TlsInv control c) (i : ι) (o : Nat) :
    o ∈ objectsAt c.shared.heap (c.shared.key i) ↔ ∃ d bs, .created i d o bs ∈ life i c.past := by
  unfold objectsAt
  rw [List.mem_filter, List.mem_iff_getElem?]
  constructor
  · rintro ⟨⟨n, hn⟩, h0⟩
    obtain ⟨d, bs, -, hc⟩ := (h.slots i n o (by simpa using h0)).mp hn
    exact ⟨d, bs, hc⟩
  · rintro ⟨d, bs, hc⟩
    obtain ⟨h0, hd, -⟩ := h.created i d o bs (mem_of_mem_life hc)
    exact ⟨⟨_, (h.slots i (c.shared.index d - 1) o h0).mpr ⟨d, bs, by omega, hc⟩⟩, by simpa using h0⟩

/-- What a thread got for a control is in the slot of its index. -/
theorem TlsInv.slot_of_returned (h : TlsInv control c) {i : ι} {d : κ} {o : Nat}
    (hr : .returned i d o ∈ life i c.past) (h0 : o ≠ 0) :
    (c.shared.slots i)[c.shared.index d - 1]? = some o := by
  obtain ⟨bs, hc⟩ := h.given i d o hr h0
  have hd := (h.created i d o bs (mem_of_mem_life hc)).2.1
  exact (h.slots i _ o h0).mpr ⟨d, bs, by omega, hc⟩

end Slots

/-! ## One move -/

/-- What a thread has found out stays so while others move. -/
theorem TlsPc.Right.stays {j : ι} {q : TlsPc κ} {s s₀ : TlsShared ι κ} (hq : q.Right s₀ j)
    (hkey : s.key j = s₀.key j)
    (hslots : s.slots j = s₀.slots j) (hindex : ∀ d, s₀.index d ≠ 0 → s.index d = s₀.index d)
    (hlocked : q.Locked → s.index = s₀.index ∧ s.next = s₀.next) : q.Right s j := by
  cases q with
  | out | check | lock | recheck => trivial
  | assign d =>
    show s.index d = 0
    rw [(hlocked trivial).1]
    exact hq
  | publish d n =>
    show s.index d = 0 ∧ n = s.next ∧ ∀ e, s.index e < n
    rw [(hlocked trivial).1, (hlocked trivial).2]
    exact hq
  | unlock d n | array d n =>
    exact ⟨(hindex d (hq.1.symm ▸ hq.2)).trans hq.1, hq.2⟩
  | slot d n a | allocate d n a | load d n a =>
    obtain ⟨hd, hn, ha, h⟩ := hq
    refine ⟨(hindex d (hd.symm ▸ hn)).trans hd, hn, ha.trans hkey.symm, ?_⟩
    rw [hslots]
    exact h

section Act

variable [DecidableEq ι] [DecidableEq κ] {i j : ι} {p q : TlsPc κ} {s s₀ : TlsShared ι κ}
  {es : List (TlsEvent ι κ)} {d : κ}

/-- A move leaves one event or none. -/
theorem TlsAct.events (ha : TlsAct control i q s₀ p s es) : es = [] ∨ ∃ e, es = [e] := by
  cases ha <;> first | exact .inl rfl | exact .inr ⟨_, rfl⟩

theorem TlsAct.thread_eq (ha : TlsAct control i q s₀ p s es) : ∀ e ∈ es, e.thread = i := by
  cases ha <;> simp [TlsEvent.thread]

/-- Indices change where one is published. -/
theorem TlsAct.index_eq (ha : TlsAct control i q s₀ p s es) :
    s.index = s₀.index ∨
      ∃ d n, q = .publish d n ∧ p = .unlock d n ∧ s.index = Function.update s₀.index d n ∧
        s.next = s₀.next := by
  cases ha with
  | publish _ d n => exact .inr ⟨d, n, rfl, rfl, rfl, rfl⟩
  | _ => exact .inl rfl

/-- `s_next_index` changes where it is counted up. -/
theorem TlsAct.next_eq (ha : TlsAct control i q s₀ p s es) :
    s.next = s₀.next ∨
      ∃ d, q = .assign d ∧ s.next = s₀.next + 1 := by
  cases ha with
  | assign _ d => exact .inr ⟨d, rfl, rfl⟩
  | _ => exact .inl rfl

/-- An index that was handed out stays. -/
theorem TlsAct.index_stays (ha : TlsAct control i q s₀ p s es) (hq : q.Right s₀ i)
    (hd : s₀.index d ≠ 0) : s.index d = s₀.index d := by
  obtain heq | ⟨e, n, rfl, -, heq, -⟩ := ha.index_eq
  · rw [heq]
  · have hed : d ≠ e := fun h => hd (h ▸ hq.1)
    rw [heq, Function.update_of_ne hed]

/-- The memory changes only in the blocks of the thread that moves. -/
theorem TlsAct.change (ha : TlsAct control i q s₀ p s es) (hok : HeapOk s₀.key s₀.heap)
    (hq : q.Right s₀ i) : ChangeOf i s₀.key s₀.heap s.key s.heap := by
  cases ha with
  | array _ d n answer a h hfresh heq ha =>
    obtain heq' | ⟨a', h', heq', -, hchange, -⟩ := hok.arrayFor hq.2 hfresh
    · cases heq.symm.trans heq'
      exact absurd rfl ha
    · cases heq.symm.trans heq'
      exact hchange
  | arrayNull _ d n answer h hfresh heq =>
    obtain heq' | ⟨a', h', heq', ha', -⟩ := hok.arrayFor hq.2 hfresh
    · cases heq.symm.trans heq'
      exact .refl hok
    · cases heq.symm.trans heq'
      exact absurd rfl ha'
  | allocate _ d n a o garbage h hfresh hdvd hlen heq =>
    obtain ⟨-, hn, rfl, hk, hslot⟩ := hq
    have hlt := (List.getElem?_eq_some_iff.mp hslot).1
    have hlen' : n ≤ (slotsAt s₀.heap (s₀.key i)).length := by
      have : n - 1 < (slotsAt s₀.heap (s₀.key i)).length := hlt
      omega
    cases heq.symm.trans (hok.store_filled hk hfresh hn hlen')
    exact hok.filled hk hfresh hslot
  | exit _ os h heq =>
    cases heq.symm.trans (hok.cleanup i)
    exact hok.cleaned
  | write _ o bs bs' hbs =>
    obtain ⟨hok', hslots⟩ := hok.written bs' hbs
    exact ⟨hok', fun _ _ => rfl, fun j _ => hslots j⟩
  | _ => exact .refl hok

/-- The slots of the thread that moves hold what they held; or one that was empty has the object
    it made; or it exits, and what they held is freed. -/
theorem TlsAct.slots_of (ha : TlsAct control i q s₀ p s es) (hok : HeapOk s₀.key s₀.heap)
    (hq : q.Right s₀ i) :
    ((∀ m o : Nat, o ≠ 0 → ((s.slots i)[m]? = some o ↔ (s₀.slots i)[m]? = some o)) ∧
      (∀ d o bs, .created i d o bs ∉ es) ∧ ∀ os, .exited i os ∉ es) ∨
    (∃ d n o garbage, o ≠ 0 ∧ garbage.length = (control d).request ∧
      es = [.created i d o (emutlsFill (control d) garbage)] ∧ s.index = s₀.index ∧
      s₀.index d = n ∧ n ≠ 0 ∧ (s₀.slots i)[n - 1]? = some 0 ∧
      s.slots i = (s₀.slots i).set (n - 1) o) ∨
    es = [.exited i (objectsAt s₀.heap (s₀.key i))] ∧ s.slots i = [] := by
  cases ha with
  | array _ d n answer a h hfresh heq ha =>
    left
    refine ⟨?_, by simp, by simp⟩
    obtain heq' | ⟨a', h', heq', -, -, -, hslots⟩ := hok.arrayFor hq.2 hfresh
    · cases heq.symm.trans heq'
      exact absurd rfl ha
    · cases heq.symm.trans heq'
      unfold TlsShared.slots
      dsimp only
      rw [Function.update_self]
      exact hslots
  | arrayNull _ d n answer h hfresh heq =>
    left
    refine ⟨?_, by simp, by simp⟩
    obtain heq' | ⟨a', h', heq', ha', -⟩ := hok.arrayFor hq.2 hfresh
    · cases heq.symm.trans heq'
      exact fun _ _ _ => Iff.rfl
    · cases heq.symm.trans heq'
      exact absurd rfl ha'
  | allocate _ d n a o garbage h hfresh hdvd hlen heq =>
    obtain ⟨hd, hn, rfl, hk, hslot⟩ := hq
    have hlt : n - 1 < (slotsAt s₀.heap (s₀.key i)).length := (List.getElem?_eq_some_iff.mp hslot).1
    cases heq.symm.trans (hok.store_filled hk hfresh hn (by omega))
    exact .inr (.inl ⟨d, n, o, garbage, hfresh.1, hlen, rfl, rfl, hd, hn, hslot,
      slotsAt_filled⟩)
  | exit _ os h heq =>
    cases heq.symm.trans (hok.cleanup i)
    refine .inr (.inr ⟨rfl, ?_⟩)
    unfold TlsShared.slots
    dsimp only
    rw [Function.update_self]
    exact slotsAt_none (hok.cleaned (i := i)).ok.null
  | write _ o bs bs' hbs =>
    left
    refine ⟨fun m o _ => ?_, by simp, by simp⟩
    unfold TlsShared.slots
    dsimp only
    rw [(hok.written bs' hbs).2 i]
  | _ => exact .inl ⟨fun _ _ _ => Iff.rfl, by simp, by simp⟩

/-- A thread that is in the middle of `__emutls_get_address` does not go outside its blocks. -/
theorem TlsAct.no_fault (ha : TlsAct control i q s₀ p s es) (hok : HeapOk s₀.key s₀.heap)
    (hq : q.Right s₀ i) : .fault j ∉ es := by
  cases ha with
  | arrayFault _ d n answer hfresh heq =>
    obtain heq' | ⟨a', h', heq', -⟩ := hok.arrayFor hq.2 hfresh
    · cases heq.symm.trans heq'
    · cases heq.symm.trans heq'
  | slotFault _ d n a heq =>
    obtain ⟨-, hn, rfl, hk, hlen⟩ := hq
    have hlen' : n ≤ (slotsAt s.heap (s.key i)).length := hlen
    rw [(hok.arrays i hk).load hn, List.getElem?_eq_getElem (by omega)] at heq
    exact nomatch heq
  | allocateFault _ d n a o garbage hfresh heq =>
    obtain ⟨-, hn, rfl, hk, hslot⟩ := hq
    have hlt : n - 1 < (slotsAt s.heap (s.key i)).length := (List.getElem?_eq_some_iff.mp hslot).1
    cases heq.symm.trans (hok.store_filled hk hfresh hn (by omega))
  | retFault _ d n a heq =>
    obtain ⟨-, hn, rfl, hk, o, -, hslot⟩ := hq
    have hslot' : (slotsAt s.heap (s.key i))[n - 1]? = some o := hslot
    rw [(hok.arrays i hk).load hn, hslot'] at heq
    exact nomatch heq
  | exitFault _ heq =>
    rw [hok.cleanup i] at heq
    exact nomatch heq
  | _ => simp

/-- What is returned for a control is in the slot of its index. -/
theorem TlsAct.returned {o : Nat} (ha : TlsAct control i q s₀ p s es)
    (hok : HeapOk s₀.key s₀.heap) (hq : q.Right s₀ i) (h : .returned j d o ∈ es) :
    j = i ∧ s.index = s₀.index ∧ s₀.index d ≠ 0 ∧ (∀ os, .exited i os ∉ es) ∧
      (o ≠ 0 → (s₀.slots i)[s₀.index d - 1]? = some o) := by
  cases ha with
  | arrayNull _ e n answer h' hfresh heq =>
    cases List.mem_singleton.mp h
    exact ⟨rfl, rfl, hq.1.symm ▸ hq.2, by simp, fun h0 => absurd rfl h0⟩
  | allocateNull _ e n a =>
    cases List.mem_singleton.mp h
    exact ⟨rfl, rfl, hq.1.symm ▸ hq.2.1, by simp, fun h0 => absurd rfl h0⟩
  | ret _ e n a o' hload =>
    cases List.mem_singleton.mp h
    obtain ⟨hd, hn, rfl, hk, -⟩ := hq
    rw [(hok.arrays i hk).load hn] at hload
    exact ⟨rfl, rfl, hd.symm ▸ hn, by simp, fun _ => hd.symm ▸ hload⟩
  | _ => simp at h

/-- A thread finds out what is so. -/
theorem TlsAct.right_self (ha : TlsAct control i q s₀ p s es) (hok : HeapOk s₀.key s₀.heap)
    (hq : q.Right s₀ i) (hbound : ∀ d, s₀.index d ≤ s₀.next) : p.Right s i := by
  cases ha with
  | indexed _ d hd => exact ⟨rfl, hd⟩
  | found _ d hd => exact ⟨rfl, hd⟩
  | absent _ d hd => exact hd
  | assign _ d => exact ⟨hq, rfl, fun e => Nat.lt_succ_of_le (hbound e)⟩
  | publish _ d n =>
    refine ⟨Function.update_self .., ?_⟩
    have hlt := hq.2.2 d
    omega
  | unlock => exact hq
  | array _ d n answer a h hfresh heq ha =>
    obtain heq' | ⟨a', h', heq', ha', -, hlen, -⟩ := hok.arrayFor hq.2 hfresh
    · cases heq.symm.trans heq'
      exact absurd rfl ha
    · cases heq.symm.trans heq'
      refine ⟨hq.1, hq.2, (Function.update_self i a s₀.key).symm, ha', ?_⟩
      unfold TlsShared.slots
      dsimp only
      rw [Function.update_self]
      exact hlen
  | slotEmpty _ d n a hload =>
    obtain ⟨hd, hn, rfl, hk, -⟩ := hq
    rw [(hok.arrays i hk).load hn] at hload
    exact ⟨hd, hn, rfl, hk, hload⟩
  | slotFull _ d n a o hload ho =>
    obtain ⟨hd, hn, rfl, hk, -⟩ := hq
    rw [(hok.arrays i hk).load hn] at hload
    exact ⟨hd, hn, rfl, hk, o, ho, hload⟩
  | allocate _ d n a o garbage h hfresh hdvd hlen heq =>
    obtain ⟨hd, hn, rfl, hk, hslot⟩ := hq
    have hlt : n - 1 < (slotsAt s₀.heap (s₀.key i)).length := (List.getElem?_eq_some_iff.mp hslot).1
    cases heq.symm.trans (hok.store_filled hk hfresh hn (by omega))
    refine ⟨hd, hn, rfl, hk, o, hfresh.1, ?_⟩
    unfold TlsShared.slots
    dsimp only
    rw [slotsAt_filled, List.getElem?_set_self hlt]
  | _ => trivial

end Act

section Move

variable [DecidableEq ι] [DecidableEq κ] {c : WithTls ι κ} {i : ι} {p : TlsPc κ}
  {s : TlsShared ι κ} {es : List (TlsEvent ι κ)}

theorem TlsInv.held_move (h : TlsInv control c)
    (ha : TlsAct control i (c.pc i) c.shared p s es) :
    Threads.Held TlsPc.Locked s.lock (c.move i p s es) := by
  have hheld := h.held
  generalize hpc : c.pc i = q at ha
  have hsame : q.Locked ↔ (c.pc i).Locked := by rw [hpc]
  generalize c.shared = s₀ at ha hheld
  cases ha with
  | lock _ _ hfree =>
    rw [hfree] at hheld
    exact hheld.take trivial
  | unlock => exact hheld.give (show (c.pc i).Locked by rw [hpc]; trivial) id
  | _ => exact hheld.stay hsame

/-- While one thread holds the lock, no other changes an index. -/
theorem TlsInv.index_of_other (h : TlsInv control c)
    (ha : TlsAct control i (c.pc i) c.shared p s es) {j : ι} (hj : j ≠ i)
    (hl : (c.pc j).Locked) : s.index = c.shared.index ∧ s.next = c.shared.next := by
  have hnot : ∀ q : TlsPc κ, c.pc i = q → ¬ q.Locked :=
    fun q hq hql => hj (h.held.one j i hl (hq ▸ hql))
  constructor
  · exact ha.index_eq.resolve_right fun ⟨d, n, hq, _⟩ => hnot _ hq trivial
  · exact ha.next_eq.resolve_right fun ⟨d, hq, _⟩ => hnot _ hq trivial

theorem TlsInv.right_move (h : TlsInv control c)
    (ha : TlsAct control i (c.pc i) c.shared p s es) (j : ι) :
    ((c.move i p s es).pc j).Right s j := by
  have hchange := ha.change h.heap (h.right i)
  refine Threads.forall_move (R := fun j (q : TlsPc κ) => q.Right s j) ?_ ?_ j
  · exact ha.right_self h.heap (h.right i) h.bound
  · exact fun k hk => (h.right k).stays (hchange.key_eq k hk) (hchange.slots_eq k hk)
      (fun d hd => ha.index_stays (h.right i) hd) (h.index_of_other ha hk)

theorem TlsInv.bound_move (h : TlsInv control c)
    (ha : TlsAct control i (c.pc i) c.shared p s es) (d : κ) : s.index d ≤ s.next := by
  have hd := h.bound d
  have hnext : c.shared.next ≤ s.next := by
    obtain heq | ⟨_, -, heq⟩ := ha.next_eq <;> omega
  obtain heq | ⟨e, n, hq, -, heq, -⟩ := ha.index_eq
  · rw [heq]
    omega
  · have hright := h.right i
    rw [hq] at hright
    have hn : n = c.shared.next := hright.2.1
    rw [heq]
    rcases Decidable.em (d = e) with rfl | hde
    · rw [Function.update_self]
      omega
    · rw [Function.update_of_ne hde]
      omega

theorem TlsInv.unshared_move (h : TlsInv control c)
    (ha : TlsAct control i (c.pc i) c.shared p s es) (d e : κ) (hd : s.index d ≠ 0)
    (hde : s.index d = s.index e) : d = e := by
  obtain heq | ⟨k, n, hq, -, heq, -⟩ := ha.index_eq
  · rw [heq] at hd hde
    exact h.unshared d e hd hde
  · have hright := h.right i
    rw [hq] at hright
    -- the index that is published is larger than every other
    have hlt : ∀ x, c.shared.index x ≠ n := fun x => Nat.ne_of_lt (hright.2.2 x)
    rw [heq] at hd hde
    rcases Decidable.em (d = k) with rfl | hdk
    · rcases Decidable.em (e = d) with rfl | hed
      · rfl
      · rw [Function.update_self, Function.update_of_ne hed] at hde
        exact absurd hde.symm (hlt e)
    · rw [Function.update_of_ne hdk] at hd hde
      rcases Decidable.em (e = k) with rfl | hek
      · rw [Function.update_self] at hde
        exact absurd hde (hlt d)
      · rw [Function.update_of_ne hek] at hde
        exact h.unshared d e hd hde

/-- The index of a control something was made for. -/
theorem TlsInv.index_of_created (h : TlsInv control c)
    (ha : TlsAct control i (c.pc i) c.shared p s es) {j : ι} {d : κ} {o : Nat} {bs : List UInt8}
    (hc : .created j d o bs ∈ life j c.past) : s.index d = c.shared.index d :=
  ha.index_stays (h.right i) (h.created j d o bs (mem_of_mem_life hc)).2.1

/-- Slots that held what was made before still do. -/
theorem TlsInv.slots_same (h : TlsInv control c)
    (ha : TlsAct control i (c.pc i) c.shared p s es) {j : ι} {n o : Nat}
    (hslots : (s.slots j)[n]? = some o ↔ (c.shared.slots j)[n]? = some o)
    (hlife : ∀ d bs, .created j d o bs ∈ life j (es ++ c.past) ↔
      .created j d o bs ∈ life j c.past) (h0 : o ≠ 0) :
    (s.slots j)[n]? = some o ↔
      ∃ d bs, s.index d = n + 1 ∧ .created j d o bs ∈ life j (es ++ c.past) := by
  refine hslots.trans ((h.slots j n o h0).trans ?_)
  refine exists_congr fun d => exists_congr fun bs => ?_
  rw [hlife d bs]
  constructor
  · rintro ⟨hd, hc⟩
    exact ⟨(h.index_of_created ha hc).trans hd, hc⟩
  · rintro ⟨hd, hc⟩
    exact ⟨(h.index_of_created ha hc).symm.trans hd, hc⟩

theorem TlsInv.slots_move (h : TlsInv control c)
    (ha : TlsAct control i (c.pc i) c.shared p s es) (j : ι) (n o : Nat) (h0 : o ≠ 0) :
    (s.slots j)[n]? = some o ↔
      ∃ d bs, s.index d = n + 1 ∧ .created j d o bs ∈ life j (es ++ c.past) := by
  rcases Decidable.em (j = i) with rfl | hj
  · obtain ⟨hslots, hnew, hlives⟩ | ⟨d, m, o', garbage, ho', -, rfl, hidx, hd, hm, hslot, heq⟩ |
      ⟨rfl, heq⟩ := ha.slots_of h.heap (h.right j)
    · refine h.slots_same ha (hslots n o h0) (fun d bs => ?_) h0
      rw [life_append hlives, List.mem_append]
      exact or_iff_right (hnew d o bs)
    · -- the slot was empty, and has the new object
      have hlt := (List.getElem?_eq_some_iff.mp hslot).1
      have hl : ∀ e, e ∈ life j (.created j d o' (emutlsFill (control d) garbage) :: c.past) ↔
          e = .created j d o' (emutlsFill (control d) garbage) ∨ e ∈ life j c.past :=
        fun e => List.mem_cons
      rw [heq, hidx, List.getElem?_set]
      rcases Decidable.em (m - 1 = n) with rfl | hmn
      · rw [if_pos rfl, if_pos hlt]
        constructor
        · intro hoo
          cases hoo
          exact ⟨d, _, by omega, (hl _).mpr (.inl rfl)⟩
        · rintro ⟨e, bs, he, hc⟩
          rcases (hl _).mp hc with hnew | hold
          · cases hnew
            rfl
          · have hslot' := (h.slots j (m - 1) o h0).mpr ⟨e, bs, he, hold⟩
            cases hslot.symm.trans hslot'
            exact absurd rfl h0
      · rw [if_neg hmn]
        refine (h.slots j n o h0).trans (exists_congr fun e => exists_congr fun bs => ?_)
        refine and_congr_right fun he => ?_
        rw [List.singleton_append, hl]
        refine (or_iff_right fun hnew => hmn ?_).symm
        cases hnew
        omega
    · rw [heq, List.singleton_append, life_exited]
      exact ⟨nofun, fun ⟨_, _, _, hc⟩ => nomatch hc⟩
  · have hslots := (ha.change h.heap (h.right i)).slots_eq j hj
    exact h.slots_same ha (by rw [show s.slots j = c.shared.slots j from hslots])
      (fun d bs => mem_life_of_ne ha.thread_eq hj rfl) h0

theorem TlsInv.created_move (h : TlsInv control c)
    (ha : TlsAct control i (c.pc i) c.shared p s es) (j : ι) (d : κ) (o : Nat) (bs : List UInt8)
    (hc : .created j d o bs ∈ es ++ c.past) : o ≠ 0 ∧ s.index d ≠ 0 ∧
      bs.take (control d).size = (control d).initial ∧ bs.length = (control d).request := by
  rcases List.mem_append.mp hc with hnew | hold
  · obtain ⟨-, hnone, -⟩ | ⟨e, m, o', garbage, ho', hlen, rfl, hidx, he, hm, -⟩ | ⟨rfl, -⟩ :=
      ha.slots_of h.heap (h.right i)
    · obtain rfl : j = i := ha.thread_eq _ hnew
      exact absurd hnew (hnone d o bs)
    · cases List.mem_singleton.mp hnew
      exact ⟨ho', by rw [hidx]; omega, emutlsFill_take, emutlsFill_length hlen⟩
    · exact nomatch List.mem_singleton.mp hnew
  · obtain ⟨ho, hd, hbs⟩ := h.created j d o bs hold
    exact ⟨ho, (ha.index_stays (h.right i) hd).symm ▸ hd, hbs⟩

theorem TlsInv.returned_move (h : TlsInv control c)
    (ha : TlsAct control i (c.pc i) c.shared p s es) (j : ι) (d : κ) (o : Nat)
    (hr : .returned j d o ∈ es ++ c.past) : s.index d ≠ 0 := by
  rcases List.mem_append.mp hr with hnew | hold
  · obtain ⟨-, hidx, hd, -⟩ := ha.returned h.heap (h.right i) hnew
    rwa [hidx]
  · have hd := h.returned j d o hold
    rwa [ha.index_stays (h.right i) hd]

theorem TlsInv.given_move (h : TlsInv control c)
    (ha : TlsAct control i (c.pc i) c.shared p s es) (j : ι) (d : κ) (o : Nat)
    (hr : .returned j d o ∈ life j (es ++ c.past)) (h0 : o ≠ 0) :
    ∃ bs, .created j d o bs ∈ life j (es ++ c.past) := by
  rcases Decidable.em (j = i) with rfl | hj
  · rcases Classical.em (∃ os, .exited j os ∈ es) with ⟨os, hos⟩ | hlives
    · -- the life is over, and nothing was returned in it
      obtain ⟨-, -, hnone⟩ | ⟨_, _, _, _, -, -, rfl, -⟩ | ⟨rfl, -⟩ :=
        ha.slots_of h.heap (h.right j)
      · exact absurd hos (hnone os)
      · exact nomatch List.mem_singleton.mp hos
      · rw [List.singleton_append, life_exited] at hr
        exact nomatch hr
    · rw [life_append fun os hos => hlives ⟨os, hos⟩] at hr ⊢
      have hold : ∃ bs, .created j d o bs ∈ life j c.past := by
        rcases List.mem_append.mp hr with hnew | hold
        · obtain ⟨-, hidx, hd, -, hslot⟩ := ha.returned h.heap (h.right j) hnew
          obtain ⟨e, bs, he, hc⟩ := (h.slots j _ o h0).mp (hslot h0)
          have hed : e = d := h.unshared e d (by omega) (by omega)
          exact ⟨bs, hed ▸ hc⟩
        · exact h.given j d o hold h0
      exact hold.imp fun bs hc => List.mem_append_right es hc
  · rw [mem_life_of_ne ha.thread_eq hj rfl] at hr
    refine (h.given j d o hr h0).imp fun bs hc => ?_
    rwa [mem_life_of_ne ha.thread_eq hj rfl]

theorem TlsInv.freed_move (h : TlsInv control c)
    (ha : TlsAct control i (c.pc i) c.shared p s es) :
    Threads.EachAfter (fun e pre => ∀ i os, e = .exited i os →
      os.Nodup ∧ ∀ o, o ∈ os ↔ ∃ d bs, .created i d o bs ∈ life i pre) (es ++ c.past) := by
  rcases ha.events with rfl | ⟨e, rfl⟩
  · exact h.freed
  · refine ⟨fun j os hos => ?_, h.freed⟩
    subst hos
    obtain ⟨-, -, hnone⟩ | ⟨_, _, _, _, -, -, heq, -⟩ | ⟨heq, -⟩ := ha.slots_of h.heap (h.right i)
    · obtain rfl : j = i := ha.thread_eq _ List.mem_cons_self
      exact absurd List.mem_cons_self (hnone os)
    · exact nomatch heq
    · cases heq
      exact ⟨h.heap.objects_nodup i, h.mem_objectsAt i⟩

theorem TlsInv.move (h : TlsInv control c) (ha : TlsAct control i (c.pc i) c.shared p s es) :
    TlsInv control (c.move i p s es) where
  held := h.held_move ha
  heap := (ha.change h.heap (h.right i)).ok
  right := h.right_move ha
  bound := h.bound_move ha
  unshared := h.unshared_move ha
  slots := h.slots_move ha
  created := h.created_move ha
  returned := h.returned_move ha
  given := h.given_move ha
  freed := h.freed_move ha
  safe j hj := (List.mem_append.mp hj).elim (ha.no_fault h.heap (h.right i)) (h.safe j)

end Move

/-! ## Runs -/

variable [DecidableEq ι] [DecidableEq κ] {c : WithTls ι κ}

theorem tlsInv (h : TlsRun control c) : TlsInv control c :=
  Threads.Turns.invariant h .init fun _ _ _ _ _ hc ha _ => hc.move ha

/-- **Emulated TLS behaves as TLS.** -/
theorem thread_local (h : TlsRun control c) : ThreadLocal control c where
  indexed := (tlsInv h).returned
  keeps i _ _ _ _ ha hd := ha.index_stays ((tlsInv h).right i) hd
  unshared := (tlsInv h).unshared
  same i d o o' ho ho' h0 h0' := by
    have hslot := (tlsInv h).slot_of_returned ho h0
    have hslot' := (tlsInv h).slot_of_returned ho' h0'
    exact Option.some.inj (hslot.symm.trans hslot')
  distinct i j d e o hd he h0 := by
    have hslot := (tlsInv h).slot_of_returned hd h0
    have hslot' := (tlsInv h).slot_of_returned he h0
    obtain ⟨hij, hidx⟩ := (tlsInv h).heap.apart i j _ _ o hslot hslot' h0
    have hd0 := (tlsInv h).returned i d o (mem_of_mem_life hd)
    have he0 := (tlsInv h).returned j e o (mem_of_mem_life he)
    exact ⟨hij, (tlsInv h).unshared d e hd0 (by omega)⟩
  made := (tlsInv h).given
  starts i d o bs hc := ((tlsInv h).created i d o bs hc).2.2
  freed _ i os _ hp := (tlsInv h).freed.split hp i os rfl
  safe := (tlsInv h).safe

/-- A thread-local of two zero bytes, and one of a nine, aligned to 16. -/
private def twoControls (d : Bool) : Control := if d then ⟨1, 16, some fun _ => 9⟩ else ⟨2, 1, none⟩

/-- Two threads touch the first at once, one of them waiting for the index; this one touches the
    second too, for which its array grows; and the other exits. -/
theorem thread_local_two : ∃ c : WithTls Bool Bool,
    c.past = [.exited true [24], .returned false true 48, .created false true 48 [9],
      .returned false false 40, .returned true false 24, .created false false 40 [0, 0],
      .created true false 24 [0, 0]] ∧
    ThreadLocal twoControls c := by
  have fresh : ∀ {h : Heap} {a b : Nat} {rest : Nat → Nat}, b ≠ 0 → h b = none →
      ∀ r, some (b, rest) = some r → h.Fresh a r.1 := by
    rintro h a b rest hb hnone r ⟨⟩
    exact ⟨hb, .inl hnone⟩
  have h : TlsRun twoControls (WithTls.init : WithTls Bool Bool) := .start
  -- both find the first without an index, and one hands it out
  have h := h.turn true _ _ _ (.call _ false) trivial
  have h := h.turn false _ _ _ (.call _ false) trivial
  have h := h.turn true _ _ _ (.unindexed _ false rfl) trivial
  have h := h.turn false _ _ _ (.unindexed _ false rfl) trivial
  have h := h.turn true _ _ _ (.lock _ false rfl) trivial
  have h := h.turn true _ _ _ (.absent _ false rfl) trivial
  have h := h.turn true _ _ _ (.assign _ false) trivial
  have h := h.turn true _ _ _ (.publish _ false 1) trivial
  have h := h.turn true _ _ _ (.unlock _ false 1) trivial
  have h := h.turn false _ _ _ (.lock _ false rfl) trivial
  have h := h.turn false _ _ _ (.found _ false (by decide)) trivial
  have h := h.turn false _ _ _ (.unlock _ false 1) trivial
  -- each makes its own
  have h := h.turn true _ _ _ (.array _ false 1 (some (16, fun _ => 7)) 16 _
    (fresh (by decide) rfl) rfl (by decide)) trivial
  have h := h.turn true _ _ _ (.slotEmpty _ false 1 16 rfl) trivial
  have h := h.turn true _ _ _ (.allocate _ false 1 16 24 [5, 5] _ ⟨by decide, .inl rfl⟩
    (by decide) rfl rfl) trivial
  have h := h.turn false _ _ _ (.array _ false 1 (some (32, fun _ => 7)) 32 _
    (fresh (by decide) rfl) rfl (by decide)) trivial
  have h := h.turn false _ _ _ (.slotEmpty _ false 1 32 rfl) trivial
  have h := h.turn false _ _ _ (.allocate _ false 1 32 40 [5, 5] _ ⟨by decide, .inl rfl⟩
    (by decide) rfl rfl) trivial
  have h := h.turn true _ _ _ (.ret _ false 1 16 24 rfl) trivial
  have h := h.turn false _ _ _ (.ret _ false 1 32 40 rfl) trivial
  -- the second, by one of them
  have h := h.turn false _ _ _ (.call _ true) trivial
  have h := h.turn false _ _ _ (.unindexed _ true rfl) trivial
  have h := h.turn false _ _ _ (.lock _ true rfl) trivial
  have h := h.turn false _ _ _ (.absent _ true rfl) trivial
  have h := h.turn false _ _ _ (.assign _ true) trivial
  have h := h.turn false _ _ _ (.publish _ true 2) trivial
  have h := h.turn false _ _ _ (.unlock _ true 2) trivial
  have h := h.turn false _ _ _ (.array _ true 2 (some (64, fun _ => 7)) 64 _
    (fresh (by decide) rfl) rfl (by decide)) trivial
  have h := h.turn false _ _ _ (.slotEmpty _ true 2 64 rfl) trivial
  have h := h.turn false _ _ _ (.allocate _ true 2 64 48 [5] _ ⟨by decide, .inl rfl⟩
    (by decide) rfl rfl) trivial
  have h := h.turn false _ _ _ (.ret _ true 2 64 48 rfl) trivial
  have h := h.turn true _ _ _ (.exit _ [24] _ rfl) trivial
  exact ⟨_, rfl, thread_local h⟩

end OopsMesa.Runtime
