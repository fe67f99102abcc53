/-
  Guards of function-local statics are exactly once.

  A guard is two bytes, "initialised" and "in progress", each 0 or 1. A thread takes the second by
  exchanging it, looks at the first again, and then either clears what it took or runs the
  initialiser and sets the first before it clears the second. Every load, store and exchange is a
  move of its own, and any number of threads take turns.

  The byte in progress says where the threads are: it is set exactly while one of them is between
  its exchange and its clearing store (`Held`). `guard_exactly_once` follows from that and from
  what the places between them say of the other byte.
-/
import OopsMesa.Lib.Threads

namespace OopsMesa.Runtime

open OopsMesa.Lib

variable {ι : Type}

/-! ## The code -/

/-- The bytes of a guard. -/
structure Guard where
  done : Bool
  pending : Bool
  deriving DecidableEq, Repr

/-- What a thread is about to do. -/
inductive GuardPc where
  /-- It is in neither function. -/
  | out
  /-- `__cxa_guard_acquire`: load byte 0, before the loop. -/
  | load
  /-- Exchange byte 1. -/
  | exchange
  /-- Load byte 0 inside the loop. -/
  | spin
  /-- Load byte 0 after the loop. -/
  | recheck
  /-- Clear byte 1 and return 0. -/
  | clear
  /-- It was told 1, and runs the initialiser. -/
  | initialise
  /-- `__cxa_guard_release`: set byte 0. -/
  | setDone
  /-- Clear byte 1. -/
  | unpend
  deriving DecidableEq, Repr

inductive GuardEvent (ι : Type) where
  | returnedZero (i : ι)
  | returnedOne (i : ι)
  | finished (i : ι)
  | wasSet (i : ι)
  deriving DecidableEq, Repr

/-- The moves of a thread, one for each atomic operation and what follows from its outcome. -/
inductive GuardAct (i : ι) : GuardPc → Guard → GuardPc → Guard → List (GuardEvent ι) → Prop
  | call (g : Guard) : GuardAct i .out g .load g []
  | alreadyDone (g : Guard) : g.done = true → GuardAct i .load g .out g [.returnedZero i]
  | notDone (g : Guard) : g.done = false → GuardAct i .load g .exchange g []
  | busy (g : Guard) : g.pending = true → GuardAct i .exchange g .spin g []
  | taken (g : Guard) : g.pending = false →
      GuardAct i .exchange g .recheck { g with pending := true } []
  | waited (g : Guard) : g.done = true → GuardAct i .spin g .out g [.returnedZero i]
  | again (g : Guard) : g.done = false → GuardAct i .spin g .exchange g []
  | late (g : Guard) : g.done = true → GuardAct i .recheck g .clear g []
  | first (g : Guard) : g.done = false →
      GuardAct i .recheck g .initialise g [.returnedOne i]
  | clear (g : Guard) : GuardAct i .clear g .out { g with pending := false } [.returnedZero i]
  | finish (g : Guard) : GuardAct i .initialise g .setDone g [.finished i]
  | setDone (g : Guard) : GuardAct i .setDone g .unpend { g with done := true } [.wasSet i]
  | unpend (g : Guard) : GuardAct i .unpend g .out { g with pending := false } []

/-- Threads at a guard. -/
abbrev AtGuard (ι : Type) := Threads ι GuardPc Guard (GuardEvent ι)

/-- Both bytes zero, and no thread there yet. -/
def AtGuard.init : AtGuard ι := ⟨fun _ => .out, ⟨false, false⟩, []⟩

/-- The states that any number of threads can reach. -/
def GuardRun [DecidableEq ι] : AtGuard ι → Prop :=
  Threads.Turns GuardAct (fun _ _ _ _ => True) AtGuard.init

/-! ## The statement -/

/-- The thread was told 1, its initialiser finished, and its release set byte 0, in this order. -/
def Initialised (past : List (GuardEvent ι)) (i : ι) : Prop :=
  [.wasSet i, .finished i, .returnedOne i].Sublist past

/-- The thread is in neither function. -/
def GuardPc.Quiet : GuardPc → Prop
  | .out | .initialise => True
  | _ => False

/-- Exactly once, as far as a run has come. -/
structure ExactlyOnce (c : AtGuard ι) : Prop where
  one : (c.past.filter fun e => match e with | .returnedOne _ => true | _ => false).length ≤ 1
  zero : ∀ pre i post, c.past = post ++ .returnedZero i :: pre → ∃ k, Initialised pre k
  stays : ∀ i p g es, GuardAct i (c.pc i) c.shared p g es → c.shared.done = true → g.done = true
  clear : (∃ i, .wasSet i ∈ c.past) → (∀ i, (c.pc i).Quiet) → c.shared.pending = false

/-! ## The invariant -/

/-- The thread has taken the byte in progress and not cleared it. -/
def GuardPc.Owns : GuardPc → Prop
  | .recheck | .clear | .initialise | .setDone | .unpend => True
  | _ => False

/-- It was told 1, and has not set the byte yet. -/
def GuardPc.Chosen : GuardPc → Prop
  | .initialise | .setDone => True
  | _ => False

/-- What the places of the threads say about the bytes and the events. -/
structure GuardInv (c : AtGuard ι) : Prop where
  held : Threads.Held GuardPc.Owns c.shared.pending c
  unset : ∀ i, (c.pc i).Chosen → c.shared.done = false
  set : ∀ i, c.pc i = .clear → c.shared.done = true
  ones : ∀ i, .returnedOne i ∈ c.past → c.shared.done = true ∨ (c.pc i).Chosen
  chosen : ∀ i, c.pc i = .initialise → [.returnedOne i].Sublist c.past
  finished : ∀ i, c.pc i = .setDone → [.finished i, .returnedOne i].Sublist c.past
  done : c.shared.done = true → ∃ k, Initialised c.past k
  wasSet : ∀ i, .wasSet i ∈ c.past → c.shared.done = true
  count : (c.past.filter fun e => match e with | .returnedOne _ => true | _ => false).length ≤ 1
  zeros : Threads.EachAfter
    (fun e pre => ∀ i, e = .returnedZero i → ∃ k, Initialised pre k) c.past

variable {c : AtGuard ι} {i : ι} {p : GuardPc} {g : Guard} {es : List (GuardEvent ι)}

theorem GuardInv.init : GuardInv (AtGuard.init : AtGuard ι) where
  held := .of_free fun _ h => h
  unset _ h := h.elim
  set _ h := nomatch h
  ones _ h := nomatch h
  chosen _ h := nomatch h
  finished _ h := nomatch h
  done h := nomatch h
  wasSet _ h := nomatch h
  count := Nat.zero_le 1
  zeros := trivial

/-- What was initialised stays so. -/
theorem Initialised.mono {past : List (GuardEvent ι)} {k : ι} (h : Initialised past k) :
    Initialised (es ++ past) k := h.trans (List.sublist_append_right es past)

/-! ## One move -/

section Act

variable {j : ι} {q : GuardPc} {g₀ : Guard}

theorem GuardPc.Chosen.owns (h : q.Chosen) : q.Owns := by
  cases q <;> trivial

/-- Byte 0 is written by the release, and only set. -/
theorem GuardAct.done_eq (ha : GuardAct i q g₀ p g es) :
    g.done = g₀.done ∨ q = .setDone ∧ g.done = true ∧ es = [.wasSet i] := by
  cases ha with
  | setDone => exact .inr ⟨rfl, rfl, rfl⟩
  | _ => exact .inl rfl

theorem GuardAct.done_stays (ha : GuardAct i q g₀ p g es) (h : g₀.done = true) : g.done = true :=
  ha.done_eq.elim (fun heq => heq.trans h) fun hset => hset.2.1

/-- A thread that was told 1 goes on until it has set byte 0. -/
theorem GuardAct.chosen (ha : GuardAct i q g₀ p g es) (h : q.Chosen) :
    g.done = true ∨ p.Chosen := by
  cases ha with
  | finish => exact .inr trivial
  | setDone => exact .inl rfl
  | _ => exact h.elim

/-- A thread is told 1 after it took byte 1 and saw byte 0 clear. -/
theorem GuardAct.one (ha : GuardAct i q g₀ p g es) (h : .returnedOne j ∈ es) :
    j = i ∧ q = .recheck ∧ p = .initialise ∧ g₀.done = false := by
  cases ha with
  | first _ hd =>
    cases List.mem_singleton.mp h
    exact ⟨rfl, rfl, rfl, hd⟩
  | _ => simp at h

/-- A thread is told 0 when byte 0 is set, or was when it went to clear byte 1. -/
theorem GuardAct.zero (ha : GuardAct i q g₀ p g es) (h : .returnedZero j ∈ es) :
    g₀.done = true ∨ q = .clear := by
  cases ha with
  | alreadyDone _ hd => exact .inl hd
  | waited _ hd => exact .inl hd
  | clear => exact .inr rfl
  | _ => simp at h

theorem GuardAct.wasSet (ha : GuardAct i q g₀ p g es) (h : .wasSet j ∈ es) : g.done = true := by
  cases ha with
  | setDone => rfl
  | _ => simp at h

/-- A move leaves one event or none. -/
theorem GuardAct.events (ha : GuardAct i q g₀ p g es) : es = [] ∨ ∃ e, es = [e] := by
  cases ha <;> first | exact .inl rfl | exact .inr ⟨_, rfl⟩

end Act

/-- While another thread holds the byte in progress, this one does not set byte 0. -/
theorem GuardInv.done_of_other (h : GuardInv c) (ha : GuardAct i (c.pc i) c.shared p g es) {j : ι}
    (hj : j ≠ i) (hown : (c.pc j).Owns) : g.done = c.shared.done := by
  refine ha.done_eq.resolve_right fun ⟨hq, _⟩ => hj ?_
  exact h.held.one j i hown (show (c.pc i).Owns by rw [hq]; trivial)

/-- Nobody was told 1 while byte 0 is clear and the thread at `recheck` holds byte 1. -/
theorem GuardInv.none_yet (h : GuardInv c) (hq : c.pc i = .recheck) (hd : c.shared.done = false)
    (j : ι) : .returnedOne j ∉ c.past := by
  intro hj
  have hc : (c.pc j).Chosen := (h.ones j hj).resolve_left (by rw [hd]; exact nofun)
  have hji : j = i := h.held.one j i hc.owns (by rw [hq]; trivial)
  rw [hji, hq] at hc
  exact hc

/-- With byte 1 set, the thread that holds it is inside one of the functions, or runs the
    initialiser and byte 0 is clear. -/
theorem GuardInv.quiet (h : GuardInv c) (hset : ∃ i, .wasSet i ∈ c.past)
    (hquiet : ∀ i, (c.pc i).Quiet) : c.shared.pending = false := by
  obtain ⟨i, hi⟩ := hset
  rw [← Bool.not_eq_true, h.held.taken]
  rintro ⟨k, hk⟩
  have hkq := hquiet k
  have hchosen : (c.pc k).Chosen := by
    generalize c.pc k = q at hk hkq ⊢
    cases q <;> trivial
  exact nomatch (h.wasSet i hi).symm.trans (h.unset k hchosen)

variable [DecidableEq ι]

/-- The byte in progress is held through every move. -/
theorem GuardInv.held_move (h : GuardInv c) (ha : GuardAct i (c.pc i) c.shared p g es) :
    Threads.Held GuardPc.Owns g.pending (c.move i p g es) := by
  have hheld := h.held
  generalize hpc : c.pc i = q at ha
  generalize c.shared = g₀ at ha hheld
  cases ha with
  | taken _ hp =>
    rw [hp] at hheld
    exact hheld.take trivial
  | clear => exact hheld.give (show (c.pc i).Owns by rw [hpc]; trivial) id
  | unpend => exact hheld.give (show (c.pc i).Owns by rw [hpc]; trivial) id
  | _ => exact hheld.stay (by rw [hpc]; exact Iff.rfl)

theorem GuardInv.unset_move (h : GuardInv c) (ha : GuardAct i (c.pc i) c.shared p g es) (j : ι) :
    ((c.move i p g es).pc j).Chosen → g.done = false := by
  refine Threads.forall_move (R := fun _ (q : GuardPc) => q.Chosen → g.done = false) ?_ ?_ j
  · intro hp
    have hi := h.unset i
    generalize c.pc i = q at ha hi
    cases ha with
    | first _ hd => exact hd
    | finish => exact hi trivial
    | _ => exact hp.elim
  · intro k hk hc
    rw [h.done_of_other ha hk hc.owns]
    exact h.unset k hc

theorem GuardInv.set_move (h : GuardInv c) (ha : GuardAct i (c.pc i) c.shared p g es) (j : ι) :
    (c.move i p g es).pc j = .clear → g.done = true := by
  refine Threads.forall_move (R := fun _ (q : GuardPc) => q = .clear → g.done = true) ?_ ?_ j
  · intro hp
    generalize c.pc i = q at ha
    cases ha with
    | late _ hd => exact hd
    | _ => cases hp
  · intro k hk hc
    rw [h.done_of_other ha hk (by rw [hc]; trivial)]
    exact h.set k hc

theorem GuardInv.ones_move (h : GuardInv c) (ha : GuardAct i (c.pc i) c.shared p g es) (j : ι)
    (hj : .returnedOne j ∈ (c.move i p g es).past) :
    g.done = true ∨ ((c.move i p g es).pc j).Chosen := by
  rcases List.mem_append.mp hj with hnew | hold
  · obtain ⟨rfl, -, rfl, -⟩ := ha.one hnew
    right
    rw [Threads.move_pc_self]
    trivial
  · rcases h.ones j hold with hd | hc
    · exact .inl (ha.done_stays hd)
    · rcases Decidable.em (j = i) with rfl | hne
      · rw [Threads.move_pc_self]
        exact ha.chosen hc
      · rw [Threads.move_pc_of_ne hne]
        exact .inr hc

theorem GuardInv.chosen_move (h : GuardInv c) (ha : GuardAct i (c.pc i) c.shared p g es) (j : ι) :
    (c.move i p g es).pc j = .initialise →
      [.returnedOne j].Sublist (c.move i p g es).past := by
  refine Threads.forall_move
    (R := fun k (q : GuardPc) => q = .initialise → [.returnedOne k].Sublist (es ++ c.past)) ?_ ?_ j
  · intro hp
    generalize c.pc i = q at ha
    cases ha with
    | first => exact List.cons_sublist_cons.mpr (List.nil_sublist _)
    | _ => cases hp
  · intro k _ hk
    exact (h.chosen k hk).trans (List.sublist_append_right _ _)

theorem GuardInv.finished_move (h : GuardInv c) (ha : GuardAct i (c.pc i) c.shared p g es)
    (j : ι) : (c.move i p g es).pc j = .setDone →
      [.finished j, .returnedOne j].Sublist (c.move i p g es).past := by
  refine Threads.forall_move
    (R := fun k (q : GuardPc) => q = .setDone →
      [.finished k, .returnedOne k].Sublist (es ++ c.past)) ?_ ?_ j
  · intro hp
    have hi := h.chosen i
    generalize c.pc i = q at ha hi
    cases ha with
    | finish => exact List.cons_sublist_cons.mpr (hi rfl)
    | _ => cases hp
  · intro k _ hk
    exact (h.finished k hk).trans (List.sublist_append_right _ _)

theorem GuardInv.done_move (h : GuardInv c) (ha : GuardAct i (c.pc i) c.shared p g es)
    (hd : g.done = true) : ∃ k, Initialised (c.move i p g es).past k := by
  rcases ha.done_eq with heq | ⟨hq, -, rfl⟩
  · obtain ⟨k, hk⟩ := h.done (heq ▸ hd)
    exact ⟨k, hk.mono⟩
  · exact ⟨i, List.cons_sublist_cons.mpr (h.finished i hq)⟩

theorem GuardInv.wasSet_move (h : GuardInv c) (ha : GuardAct i (c.pc i) c.shared p g es) (j : ι)
    (hj : .wasSet j ∈ (c.move i p g es).past) : g.done = true := by
  rcases List.mem_append.mp hj with hnew | hold
  · exact ha.wasSet hnew
  · exact ha.done_stays (h.wasSet j hold)

theorem GuardInv.count_move (h : GuardInv c) (ha : GuardAct i (c.pc i) c.shared p g es) :
    ((c.move i p g es).past.filter
      fun e => match e with | .returnedOne _ => true | _ => false).length ≤ 1 := by
  have hcount := h.count
  have hnone := h.none_yet (i := i)
  show ((es ++ c.past).filter _).length ≤ 1
  generalize c.pc i = q at ha hnone
  generalize c.shared = g₀ at ha hnone
  cases ha with
  | first _ hd =>
    have hempty : (c.past.filter
        fun e => match e with | .returnedOne _ => true | _ => false) = [] := by
      refine List.filter_eq_nil_iff.mpr fun e he => ?_
      cases e with
      | returnedOne j => exact absurd he (hnone rfl hd j)
      | _ => exact nofun
    rw [List.singleton_append, List.filter_cons_of_pos rfl, hempty]
    exact Nat.le_refl 1
  | _ => exact hcount

theorem GuardInv.zeros_move (h : GuardInv c) (ha : GuardAct i (c.pc i) c.shared p g es) :
    Threads.EachAfter (fun e pre => ∀ i, e = .returnedZero i → ∃ k, Initialised pre k)
      (c.move i p g es).past := by
  rw [Threads.move_past]
  rcases ha.events with rfl | ⟨e, rfl⟩
  · exact h.zeros
  · refine ⟨fun j hj => h.done ?_, h.zeros⟩
    rcases ha.zero (List.mem_singleton.mpr hj.symm) with hd | hq
    · exact hd
    · exact h.set i hq

theorem GuardInv.move (h : GuardInv c) (ha : GuardAct i (c.pc i) c.shared p g es) :
    GuardInv (c.move i p g es) where
  held := h.held_move ha
  unset := h.unset_move ha
  set := h.set_move ha
  ones := h.ones_move ha
  chosen := h.chosen_move ha
  finished := h.finished_move ha
  done := h.done_move ha
  wasSet := h.wasSet_move ha
  count := h.count_move ha
  zeros := h.zeros_move ha

/-! ## Runs -/

theorem guardInv (h : GuardRun c) : GuardInv c :=
  Threads.Turns.invariant h .init fun _ _ _ _ _ hc ha _ => hc.move ha

/-- **Guards are exactly once.** -/
theorem guard_exactly_once (h : GuardRun c) : ExactlyOnce c where
  one := (guardInv h).count
  zero _ i _ hp := (guardInv h).zeros.split hp i rfl
  stays _ _ _ _ ha := ha.done_stays
  clear := (guardInv h).quiet

/-- One thread initialises; the other comes while it does, and waits. -/
theorem guard_exactly_once_two : ∃ c : AtGuard Bool,
    c.past = [.returnedZero false, .wasSet true, .finished true, .returnedOne true] ∧
      ExactlyOnce c := by
  have h₀ : GuardRun (AtGuard.init : AtGuard Bool) := .start
  have h₁ := h₀.turn true .load ⟨false, false⟩ [] (.call _) trivial
  have h₂ := h₁.turn true .exchange ⟨false, false⟩ [] (.notDone _ rfl) trivial
  have h₃ := h₂.turn true .recheck ⟨false, true⟩ [] (.taken _ rfl) trivial
  have h₄ := h₃.turn true .initialise ⟨false, true⟩ [.returnedOne true] (.first _ rfl) trivial
  have h₅ := h₄.turn false .load ⟨false, true⟩ [] (.call _) trivial
  have h₆ := h₅.turn false .exchange ⟨false, true⟩ [] (.notDone _ rfl) trivial
  have h₇ := h₆.turn false .spin ⟨false, true⟩ [] (.busy _ rfl) trivial
  have h₈ := h₇.turn true .setDone ⟨false, true⟩ [.finished true] (.finish _) trivial
  have h₉ := h₈.turn true .unpend ⟨true, true⟩ [.wasSet true] (.setDone _) trivial
  have h := h₉.turn false .out ⟨true, true⟩ [.returnedZero false] (.waited _ rfl) trivial
  exact ⟨_, rfl, guard_exactly_once h⟩

end OopsMesa.Runtime
