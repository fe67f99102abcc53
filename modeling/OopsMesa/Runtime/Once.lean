/-
  `pthread_once` runs its routine once; and who returns before it is done.

  The once object holds one flag, which is set under `s_once_lock` before the lock is given up and
  the routine begun. A thread that takes the lock afterwards finds the flag set and returns 0,
  whether the routine has ended or not (`not_pthread_once_done`). As long as none takes the lock
  in between, an object is untouched, claimed, running its routine or done (`Phase`), and nobody
  returns before it is done (`pthread_once_done`).

  The routine is a list of steps on the data that it is there to set up. For `__emutls_get_address`
  it is the one call that creates `s_key`, and the data is the key.
-/
import OopsMesa.Lib.Threads

namespace OopsMesa.Runtime

open OopsMesa.Lib

variable {ι D : Type}

/-! ## The code -/

/-- What the threads share: `s_once_lock`, `once->state`, and what the routine sets up. -/
structure OnceShared (D : Type) where
  lock : Bool
  state : Bool
  data : D

/-- What a thread is about to do. -/
inductive OncePc where
  | out
  /-- Take `s_once_lock`. -/
  | lock
  /-- Test `once->state`. -/
  | test
  /-- Set `once->state`. -/
  | claim
  /-- Give up `s_once_lock` and call the routine. -/
  | unlockFirst
  /-- Step `k` of the routine. -/
  | routine (k : Nat)
  /-- Give up `s_once_lock` with the state found set. -/
  | unlockSecond
  /-- Return 0. -/
  | ret
  /-- Its call has returned 0. -/
  | beyond
  deriving DecidableEq, Repr

inductive OnceEvent (ι D : Type) where
  | started (i : ι)
  | finished (i : ι)
  | returned (i : ι)
  /-- A thread beyond its call found the data so. -/
  | used (i : ι) (d : D)

/-- The moves of a thread in `pthread_once`, and of one that goes on to use what was set up. -/
inductive OnceAct (routine : List (D → D → Prop)) (i : ι) :
    OncePc → OnceShared D → OncePc → OnceShared D → List (OnceEvent ι D) → Prop
  | call (s : OnceShared D) : OnceAct routine i .out s .lock s []
  | lock (s : OnceShared D) : s.lock = false →
      OnceAct routine i .lock s .test { s with lock := true } []
  | untouched (s : OnceShared D) : s.state = false → OnceAct routine i .test s .claim s []
  | claim (s : OnceShared D) : OnceAct routine i .claim s .unlockFirst { s with state := true } []
  | start (s : OnceShared D) :
      OnceAct routine i .unlockFirst s (.routine 0) { s with lock := false } [.started i]
  | step (s : OnceShared D) (k : Nat) (r : D → D → Prop) (d : D) :
      routine[k]? = some r → r s.data d →
        OnceAct routine i (.routine k) s (.routine (k + 1)) { s with data := d } []
  | finish (s : OnceShared D) :
      OnceAct routine i (.routine routine.length) s .ret s [.finished i]
  | already (s : OnceShared D) : s.state = true → OnceAct routine i .test s .unlockSecond s []
  | unlock (s : OnceShared D) :
      OnceAct routine i .unlockSecond s .ret { s with lock := false } []
  | ret (s : OnceShared D) : OnceAct routine i .ret s .beyond s [.returned i]
  | use (s : OnceShared D) : OnceAct routine i .beyond s .beyond s [.used i s.data]
  | again (s : OnceShared D) : OnceAct routine i .beyond s .lock s []

/-- Threads at a once object. -/
abbrev AtOnce (ι D : Type) := Threads ι OncePc (OnceShared D) (OnceEvent ι D)

/-- Nobody there yet, the lock free, the object untouched. -/
def AtOnce.init (d₀ : D) : AtOnce ι D := ⟨fun _ => .out, ⟨false, false, d₀⟩, []⟩

/-- Runs of any number of threads, in which each move meets a condition. -/
def OnceRun [DecidableEq ι] (ok : AtOnce ι D → ι → OncePc → OnceShared D → Prop)
    (routine : List (D → D → Prop)) (d₀ : D) : AtOnce ι D → Prop :=
  Threads.Turns (OnceAct routine) ok (AtOnce.init d₀)

/-- `emutls_key_init`, which ignores a refusal: `answer` is the key that `pthread_key_create`
    gives, or none. -/
def emutlsKeyInit {Key : Type} (answer : Option Key) :
    List (Option Key → Option Key → Prop) := [fun key key' => key' = answer.or key]

/-! ## The statement -/

/-- From one data to the other by the steps of the list, in order. -/
def Ran : List (D → D → Prop) → D → D → Prop
  | [], d, d' => d' = d
  | r :: rs, d, d' => ∃ m, r d m ∧ Ran rs m d'

/-- The routine ran once, and nobody returned, or went on to use the data, before it had. -/
structure OnceDone (routine : List (D → D → Prop)) (d₀ : D) (c : AtOnce ι D) : Prop where
  once : (c.past.filter fun e => match e with | .started _ => true | _ => false).length ≤ 1
  returned : ∀ pre i post, c.past = post ++ .returned i :: pre → ∃ j, .finished j ∈ pre
  used : ∀ i d, .used i d ∈ c.past → Ran routine d₀ d

/-- The condition on a move: the lock is not taken between the claim and the end of the routine. -/
def NotWhileRunning (c : AtOnce ι D) (i : ι) (p : OncePc) (_ : OnceShared D) : Prop :=
  c.pc i = .lock → p = .test → c.shared.state = true → ∃ j, .finished j ∈ c.past

/-! ## Phases -/

/-- The thread holds `s_once_lock`. -/
def OncePc.Locked : OncePc → Prop
  | .test | .claim | .unlockFirst | .unlockSecond => True
  | _ => False

/-- It has not taken the lock. -/
def OncePc.Waiting : OncePc → Prop
  | .out | .lock => True
  | _ => False

/-- It has not set the state. -/
def OncePc.Early : OncePc → Prop
  | .out | .lock | .test | .claim => True
  | _ => False

/-- It neither claims the object nor runs the routine. -/
def OncePc.Late : OncePc → Prop
  | .out | .lock | .test | .unlockSecond | .ret | .beyond => True
  | _ => False

/-- An event after the routine. -/
def OnceEvent.Late (routine : List (D → D → Prop)) (d₀ : D) : OnceEvent ι D → Prop
  | .returned _ => True
  | .used _ d => Ran routine d₀ d
  | _ => False

/-- How far the object is. -/
inductive Phase (routine : List (D → D → Prop)) (d₀ : D) (c : AtOnce ι D) : Prop
  | untouched : c.shared.state = false → c.shared.data = d₀ → c.past = [] →
      (∀ j, (c.pc j).Early) → Phase routine d₀ c
  | claimed (i : ι) : c.shared.state = true → c.shared.data = d₀ → c.past = [] →
      c.pc i = .unlockFirst → (∀ j, j ≠ i → (c.pc j).Waiting) → Phase routine d₀ c
  | running (i : ι) (k : Nat) : c.shared.state = true →
      Ran (routine.take k) d₀ c.shared.data → c.past = [.started i] → c.pc i = .routine k →
      (∀ j, j ≠ i → (c.pc j).Waiting) → Phase routine d₀ c
  | done (i : ι) (after : List (OnceEvent ι D)) : c.shared.state = true →
      Ran routine d₀ c.shared.data → c.past = after ++ [.finished i, .started i] →
      (∀ e ∈ after, e.Late routine d₀) → (∀ j, (c.pc j).Late) → Phase routine d₀ c

variable {routine : List (D → D → Prop)} {d₀ : D}

theorem Ran.append {rs : List (D → D → Prop)} {r : D → D → Prop} {d m d' : D} (h : Ran rs d m)
    (hr : r m d') : Ran (rs ++ [r]) d d' := by
  induction rs generalizing d with
  | nil =>
    obtain rfl : m = d := h
    exact ⟨d', hr, rfl⟩
  | cons r' rs ih =>
    obtain ⟨n, hn, hrest⟩ := h
    exact ⟨n, hn, ih hrest⟩

variable {c : AtOnce ι D} {i : ι} {p : OncePc} {s : OnceShared D} {es : List (OnceEvent ι D)}

/-- What has been returned and used in each phase is as it should be. -/
theorem Phase.onceDone (h : Phase routine d₀ c) : OnceDone routine d₀ c := by
  let R : OnceEvent ι D → List (OnceEvent ι D) → Prop := fun e pre =>
    ∀ j, e = .returned j → ∃ k, .finished k ∈ pre
  have hof : Threads.EachAfter R c.past → ∀ pre j post, c.past = post ++ .returned j :: pre →
      ∃ k, .finished k ∈ pre := fun hall pre j post hp => hall.split hp j rfl
  cases h with
  | untouched _ _ hp =>
    refine ⟨?_, hof ?_, ?_⟩
    · rw [hp]
      exact Nat.zero_le 1
    · rw [hp]
      exact trivial
    · rw [hp]
      exact nofun
  | claimed i _ _ hp =>
    refine ⟨?_, hof ?_, ?_⟩
    · rw [hp]
      exact Nat.zero_le 1
    · rw [hp]
      exact trivial
    · rw [hp]
      exact nofun
  | running i k _ _ hp =>
    refine ⟨?_, hof ?_, fun j d hj => ?_⟩
    · rw [hp]
      exact Nat.le_refl 1
    · rw [hp]
      exact ⟨nofun, trivial⟩
    · rw [hp] at hj
      cases List.mem_singleton.mp hj
  | done i after _ _ hp hafter =>
    refine ⟨?_, hof ?_, fun j d hj => ?_⟩
    · have hnone : (after.filter
          fun e => match e with | .started _ => true | _ => false) = [] := by
        refine List.filter_eq_nil_iff.mpr fun e he => ?_
        cases e with
        | started j => exact (hafter _ he).elim
        | _ => exact nofun
      rw [hp, List.filter_append, hnone]
      exact Nat.le_refl 1
    · have hbase : Threads.EachAfter R [.finished i, .started i] := ⟨nofun, nofun, trivial⟩
      rw [hp]
      exact hbase.append (fun e l j _ => ⟨i, List.mem_append_right l List.mem_cons_self⟩) after
    · rw [hp] at hj
      rcases List.mem_append.mp hj with hj | hj
      · exact hafter _ hj
      · simp at hj

/-! ## One move -/

/-- A thread that has not taken the lock may come to take it, and that is all. -/
theorem OnceAct.waiting {q : OncePc} {s₀ : OnceShared D} (ha : OnceAct routine i q s₀ p s es)
    (hq : q.Waiting) :
    (p = .lock ∧ s = s₀ ∧ es = []) ∨
      (q = .lock ∧ s₀.lock = false ∧ p = .test ∧ s = { s₀ with lock := true } ∧ es = []) := by
  cases ha with
  | call => exact .inl ⟨rfl, rfl, rfl⟩
  | lock _ hfree => exact .inr ⟨rfl, hfree, rfl, rfl, rfl⟩
  | _ => exact hq.elim

variable [DecidableEq ι]

/-- The lock is held through every move. -/
theorem held_move (h : Threads.Held OncePc.Locked c.shared.lock c)
    (ha : OnceAct routine i (c.pc i) c.shared p s es) :
    Threads.Held OncePc.Locked s.lock (c.move i p s es) := by
  have hlocked : ∀ q : OncePc, c.pc i = q → q.Locked → (c.pc i).Locked := fun q hq hl => hq ▸ hl
  generalize hpc : c.pc i = q at ha
  have hsame : q.Locked ↔ (c.pc i).Locked := by rw [hpc]
  generalize c.shared = s₀ at ha h
  cases ha with
  | lock _ hfree =>
    rw [hfree] at h
    exact h.take trivial
  | start => exact h.give (hlocked _ hpc trivial) id
  | unlock => exact h.give (hlocked _ hpc trivial) id
  | _ => exact h.stay hsame

theorem Phase.move_untouched (hheld : Threads.Held OncePc.Locked c.shared.lock c)
    (ha : OnceAct routine i (c.pc i) c.shared p s es) (hstate : c.shared.state = false)
    (hdata : c.shared.data = d₀) (hp : c.past = []) (hearly : ∀ j, (c.pc j).Early) :
    Phase routine d₀ (c.move i p s es) := by
  have hi := hearly i
  have hpast : ∀ es : List (OnceEvent ι D), es = [] → es ++ c.past = [] := by
    intro es hes
    rw [hes, hp]
    rfl
  generalize hpc : c.pc i = q at ha hi
  generalize c.shared = s₀ at ha hstate hdata hheld
  cases ha with
  | call => exact .untouched hstate hdata hp (Threads.forall_move trivial fun j _ => hearly j)
  | lock => exact .untouched hstate hdata hp (Threads.forall_move trivial fun j _ => hearly j)
  | untouched =>
    exact .untouched hstate hdata hp (Threads.forall_move trivial fun j _ => hearly j)
  | claim =>
    refine .claimed i rfl hdata hp Threads.move_pc_self fun j hj => ?_
    rw [Threads.move_pc_of_ne hj]
    -- this thread holds the lock, so no other is past taking it
    have hfree : ¬ (c.pc j).Locked := fun hl => hj (hheld.one j i hl (by rw [hpc]; trivial))
    have hj' := hearly j
    generalize c.pc j = q at hj' hfree
    cases q <;> trivial
  | already _ hset => exact nomatch hstate.symm.trans hset
  | _ => exact hi.elim

theorem Phase.move_claimed {j : ι} (hheld : Threads.Held OncePc.Locked c.shared.lock c)
    (ha : OnceAct routine i (c.pc i) c.shared p s es) (hstate : c.shared.state = true)
    (hdata : c.shared.data = d₀) (hp : c.past = []) (hj : c.pc j = .unlockFirst)
    (hwait : ∀ k, k ≠ j → (c.pc k).Waiting) : Phase routine d₀ (c.move i p s es) := by
  rcases Decidable.em (i = j) with rfl | hij
  · rw [hj] at ha
    cases ha with
    | start =>
      refine .running i 0 hstate hdata ?_ Threads.move_pc_self fun k hk => ?_
      · rw [Threads.move_past, hp]
        rfl
      · rw [Threads.move_pc_of_ne hk]
        exact hwait k hk
  · rcases ha.waiting (hwait i hij) with ⟨rfl, rfl, rfl⟩ | ⟨-, hfree, -⟩
    · refine .claimed j hstate hdata hp ?_ fun k hk => ?_
      · rw [Threads.move_pc_of_ne (Ne.symm hij)]
        exact hj
      · exact Threads.forall_move (R := fun k (q : OncePc) => k ≠ j → q.Waiting)
          (fun _ => show OncePc.Waiting .lock from trivial) (fun k _ => hwait k) k hk
    · rw [hfree] at hheld
      exact absurd (show (c.pc j).Locked by rw [hj]; trivial) (hheld.clear j)

theorem Phase.move_running {j : ι} {k : Nat} (ha : OnceAct routine i (c.pc i) c.shared p s es)
    (hok : NotWhileRunning c i p s) (hstate : c.shared.state = true)
    (hran : Ran (routine.take k) d₀ c.shared.data) (hp : c.past = [.started j])
    (hj : c.pc j = .routine k) (hwait : ∀ l, l ≠ j → (c.pc l).Waiting) :
    Phase routine d₀ (c.move i p s es) := by
  rcases Decidable.em (i = j) with rfl | hij
  · rw [hj] at ha
    cases ha with
    | step _ _ r d hr hd =>
      refine .running i (k + 1) hstate ?_ hp Threads.move_pc_self fun l hl => ?_
      · rw [List.take_add_one, hr]
        exact hran.append hd
      · rw [Threads.move_pc_of_ne hl]
        exact hwait l hl
    | finish =>
      rw [List.take_length] at hran
      refine .done i [] hstate hran ?_ nofun (Threads.forall_move trivial fun l hl => ?_)
      · rw [Threads.move_past, hp]
        rfl
      · have hl' := hwait l hl
        generalize c.pc l = q at hl'
        cases q <;> trivial
  · rcases ha.waiting (hwait i hij) with ⟨rfl, rfl, rfl⟩ | ⟨hq, -, rfl, -, -⟩
    · refine .running j k hstate hran hp ?_ fun l hl => ?_
      · rw [Threads.move_pc_of_ne (Ne.symm hij)]
        exact hj
      · exact Threads.forall_move (R := fun l (q : OncePc) => l ≠ j → q.Waiting)
          (fun _ => show OncePc.Waiting .lock from trivial) (fun l _ => hwait l) l hl
    · obtain ⟨l, hl⟩ := hok hq rfl hstate
      rw [hp] at hl
      cases List.mem_singleton.mp hl

theorem Phase.move_done {j : ι} {after : List (OnceEvent ι D)}
    (ha : OnceAct routine i (c.pc i) c.shared p s es) (hstate : c.shared.state = true)
    (hran : Ran routine d₀ c.shared.data) (hp : c.past = after ++ [.finished j, .started j])
    (hafter : ∀ e ∈ after, e.Late routine d₀) (hlate : ∀ j, (c.pc j).Late) :
    Phase routine d₀ (c.move i p s es) := by
  have hi := hlate i
  -- one more event, or none, and the thread stays late
  have hdone : ∀ {q : OncePc} {s' : OnceShared D} {es : List (OnceEvent ι D)}, q.Late →
      s'.state = true → s'.data = c.shared.data → (∀ e ∈ es, e.Late routine d₀) →
      Phase routine d₀ (c.move i q s' es) := by
    intro q s' es hq hs' hd hes
    refine .done j (es ++ after) hs' (hd ▸ hran) ?_ (fun e he => ?_)
      (Threads.forall_move hq fun k _ => hlate k)
    · rw [Threads.move_past, hp, List.append_assoc]
    · exact (List.mem_append.mp he).elim (hes e) (hafter e)
  generalize c.pc i = q at ha hi
  generalize c.shared = s₀ at ha hstate hran hdone
  cases ha with
  | untouched _ hunset => exact nomatch hstate.symm.trans hunset
  | ret => exact hdone trivial hstate rfl fun e he => List.mem_singleton.mp he ▸ trivial
  | use => exact hdone trivial hstate rfl fun e he => List.mem_singleton.mp he ▸ hran
  | call => exact hdone trivial hstate rfl nofun
  | lock => exact hdone trivial hstate rfl nofun
  | already => exact hdone trivial hstate rfl nofun
  | unlock => exact hdone trivial hstate rfl nofun
  | again => exact hdone trivial hstate rfl nofun
  | _ => exact hi.elim

theorem Phase.move (hheld : Threads.Held OncePc.Locked c.shared.lock c) (h : Phase routine d₀ c)
    (ha : OnceAct routine i (c.pc i) c.shared p s es) (hok : NotWhileRunning c i p s) :
    Phase routine d₀ (c.move i p s es) := by
  cases h with
  | untouched hstate hdata hp hearly => exact move_untouched hheld ha hstate hdata hp hearly
  | claimed j hstate hdata hp hj hwait => exact move_claimed hheld ha hstate hdata hp hj hwait
  | running j k hstate hran hp hj hwait => exact move_running ha hok hstate hran hp hj hwait
  | done j after hstate hran hp hafter hlate => exact move_done ha hstate hran hp hafter hlate

/-! ## Runs -/

/-- The lock is held, and the object is in one of its phases. -/
theorem once_phase (h : OnceRun NotWhileRunning routine d₀ c) :
    Threads.Held OncePc.Locked c.shared.lock c ∧ Phase routine d₀ c :=
  Threads.Turns.invariant
    (I := fun c => Threads.Held OncePc.Locked c.shared.lock c ∧ Phase routine d₀ c) h
    ⟨.of_free fun _ h => h, .untouched rfl rfl rfl fun _ => trivial⟩
    fun _ _ _ _ _ hc ha hok => ⟨held_move hc.1 ha, hc.2.move hc.1 ha hok⟩

/-- **The routine runs once, and nobody returns before it is done**, where the lock is not taken
    while it runs. And so a thread that is past the `pthread_once` of `__emutls_get_address` uses
    the key that was created. -/
theorem pthread_once_done :
    (∀ (D : Type) (routine : List (D → D → Prop)) (d₀ : D) (c : AtOnce ι D),
      OnceRun NotWhileRunning routine d₀ c → OnceDone routine d₀ c) ∧
    ∀ (Key : Type) (answer : Option Key) (c : AtOnce ι (Option Key)),
      OnceRun NotWhileRunning (emutlsKeyInit answer) none c →
        ∀ i key, .used i key ∈ c.past → key = answer := by
  refine ⟨fun D routine d₀ c h => (once_phase h).2.onceDone, fun Key answer c h i key hused => ?_⟩
  obtain ⟨m, hm, hkey⟩ := (once_phase h).2.onceDone.used i key hused
  have hm' : m = answer := by
    rw [hm, Option.or_none]
  exact hkey.trans hm'

/-- Two threads, the second when the first is done. -/
theorem pthread_once_done_two : ∃ c : AtOnce Bool (Option Nat),
    c.past = [.used false (some 7), .returned false, .returned true, .finished true,
      .started true] ∧ OnceDone (emutlsKeyInit (some 7)) none c := by
  have h₀ : OnceRun NotWhileRunning (emutlsKeyInit (some 7)) none
      (AtOnce.init none : AtOnce Bool (Option Nat)) := .start
  have h₁ := h₀.turn true .lock ⟨false, false, none⟩ [] (.call _) nofun
  have h₂ := h₁.turn true .test ⟨true, false, none⟩ [] (.lock _ rfl) nofun
  have h₃ := h₂.turn true .claim ⟨true, false, none⟩ [] (.untouched _ rfl) nofun
  have h₄ := h₃.turn true .unlockFirst ⟨true, true, none⟩ [] (.claim _) nofun
  have h₅ := h₄.turn true (.routine 0) ⟨false, true, none⟩ [.started true] (.start _) nofun
  have hstep : OnceAct (ι := Bool) (D := Option Nat) (emutlsKeyInit (some 7)) true (.routine 0)
      ⟨false, true, none⟩ (.routine 1) ⟨false, true, some 7⟩ [] :=
    .step _ 0 (fun key key' => key' = (some 7).or key) _ rfl rfl
  have h₆ := h₅.turn true (OncePc.routine 1) ⟨false, true, some 7⟩ [] (by exact hstep) nofun
  have h₇ := h₆.turn true .ret ⟨false, true, some 7⟩ [.finished true] (.finish _) nofun
  have h₈ := h₇.turn true .beyond ⟨false, true, some 7⟩ [.returned true] (.ret _) nofun
  have h₉ := h₈.turn false .lock ⟨false, true, some 7⟩ [] (.call _) nofun
  have h₁₀ := h₉.turn false .test ⟨true, true, some 7⟩ [] (.lock _ rfl)
    fun _ _ _ => ⟨true, List.mem_cons_of_mem _ List.mem_cons_self⟩
  have h₁₁ := h₁₀.turn false .unlockSecond ⟨true, true, some 7⟩ [] (.already _ rfl) nofun
  have h₁₂ := h₁₁.turn false .ret ⟨false, true, some 7⟩ [] (.unlock _) nofun
  have h₁₃ := h₁₂.turn false .beyond ⟨false, true, some 7⟩ [.returned false] (.ret _) nofun
  have h := h₁₃.turn false .beyond ⟨false, true, some 7⟩ [.used false (some 7)] (.use _) nofun
  exact ⟨_, rfl, pthread_once_done.1 _ _ _ _ h⟩

/-- **The second thread does not wait.** It takes the lock while the first runs the routine, finds
    the state set, returns 0, and goes on with no key. -/
theorem not_pthread_once_done :
    ¬ ∀ c : AtOnce Bool (Option Nat),
      OnceRun (fun _ _ _ _ => True) (emutlsKeyInit (some 7)) none c →
        OnceDone (emutlsKeyInit (some 7)) none c := by
  intro hall
  have h₀ : OnceRun (fun _ _ _ _ => True) (emutlsKeyInit (some 7)) none
      (AtOnce.init none : AtOnce Bool (Option Nat)) := .start
  have h₁ := h₀.turn true .lock ⟨false, false, none⟩ [] (.call _) trivial
  have h₂ := h₁.turn true .test ⟨true, false, none⟩ [] (.lock _ rfl) trivial
  have h₃ := h₂.turn true .claim ⟨true, false, none⟩ [] (.untouched _ rfl) trivial
  have h₄ := h₃.turn true .unlockFirst ⟨true, true, none⟩ [] (.claim _) trivial
  have h₅ := h₄.turn true (.routine 0) ⟨false, true, none⟩ [.started true] (.start _) trivial
  have h₆ := h₅.turn false .lock ⟨false, true, none⟩ [] (.call _) trivial
  have h₇ := h₆.turn false .test ⟨true, true, none⟩ [] (.lock _ rfl) trivial
  have h₈ := h₇.turn false .unlockSecond ⟨true, true, none⟩ [] (.already _ rfl) trivial
  have h₉ := h₈.turn false .ret ⟨false, true, none⟩ [] (.unlock _) trivial
  have h := h₉.turn false .beyond ⟨false, true, none⟩ [.returned false] (.ret _) trivial
  obtain ⟨j, hj⟩ := (hall _ h).returned [.started true] false [] rfl
  cases List.mem_singleton.mp hj

end OopsMesa.Runtime
