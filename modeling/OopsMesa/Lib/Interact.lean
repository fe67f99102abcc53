/-
  Programs that call, and what happens while they do.

  A program is a tree: it returns, or it makes a call and goes on with the answer. The calls `e`
  and their answers `A e` are parameters; nothing is said of what a call does until the program
  is run. Two readings are given. `Trace`: the calls a run makes with their answers, any answer
  being possible; `Makes` is what holds of all of them. `Interleave`: runs on a state, where a
  call acts by a relation `act` and an environment moves the state by itself between any two
  calls.

  `wp` is the precondition for the second reading, with an assertion `pre` at every call;
  `Interleave.post` and `Interleave.asserts` are its soundness, and `wp_bind`, `wp_call`, `wp_ret`
  the rules a proof uses: what it knows of the state before a call must be stable under the
  environment. A `Session` is a sequence of programs with something carried from each to the
  next, and other steps between them.
-/
import Mathlib.Logic.Relation

namespace OopsMesa.Lib

/-- A program with calls `E`, answered in `A`, that returns an `α`. -/
inductive Prog (E : Type) (A : E → Type) (α : Type) : Type
  | ret (a : α)
  | call (e : E) (k : A e → Prog E A α)

namespace Prog

variable {E : Type} {A : E → Type} {α β : Type}

/-- First `p`, then `f` on what it returns. -/
def bind : Prog E A α → (α → Prog E A β) → Prog E A β
  | ret a, f => f a
  | call e k, f => call e fun x => (k x).bind f

instance : Monad (Prog E A) where
  pure := ret
  bind := bind

/-- One call, returning its answer. -/
def ask (e : E) : Prog E A (A e) := call e ret

@[simp] theorem pure_eq (a : α) : (Pure.pure a : Prog E A α) = ret a := rfl

@[simp] theorem ret_bind (a : α) (f : α → Prog E A β) : (ret a >>= f) = f a := rfl

@[simp] theorem call_bind (e : E) (k : A e → Prog E A α) (f : α → Prog E A β) :
    (call e k >>= f) = call e fun x => k x >>= f := rfl

@[simp] theorem ask_bind (e : E) (f : A e → Prog E A β) : (ask e >>= f) = call e f := rfl

/-! ## Traces -/

/-- A call made, and its answer. -/
abbrev Event (E : Type) (A : E → Type) := Σ e : E, A e

/-- The program makes the calls of the list, gets its answers, and returns `a`. -/
inductive Trace : Prog E A α → List (Event E A) → α → Prop
  | ret (a : α) : Trace (.ret a) [] a
  | call (e : E) (x : A e) (k : A e → Prog E A α) {tr : List (Event E A)} {a : α} :
      Trace (k x) tr a → Trace (.call e k) (⟨e, x⟩ :: tr) a

theorem trace_ret {a b : α} {tr : List (Event E A)} :
    Trace (.ret a : Prog E A α) tr b ↔ tr = [] ∧ b = a := by
  constructor
  · intro h
    cases h
    exact ⟨rfl, rfl⟩
  · rintro ⟨rfl, rfl⟩
    exact .ret b

theorem trace_call {e : E} {k : A e → Prog E A α} {tr : List (Event E A)} {a : α} :
    Trace (.call e k) tr a ↔ ∃ x tr', tr = ⟨e, x⟩ :: tr' ∧ Trace (k x) tr' a := by
  constructor
  · intro h
    cases h with
    | call _ x _ h => exact ⟨x, _, rfl, h⟩
  · rintro ⟨x, tr', rfl, h⟩
    exact .call e x k h

/-- The run in which `answer` answers every call. -/
def runWith (answer : (e : E) → A e) : Prog E A α → List (Event E A) × α
  | ret a => ([], a)
  | call e k =>
    let r := runWith answer (k (answer e))
    (⟨e, answer e⟩ :: r.1, r.2)

theorem trace_runWith (answer : (e : E) → A e) (p : Prog E A α) :
    Trace p (runWith answer p).1 (runWith answer p).2 := by
  induction p with
  | ret a => exact .ret a
  | call e k ih => exact .call e _ k (ih (answer e))

theorem runWith_bind (answer : (e : E) → A e) (p : Prog E A α) (f : α → Prog E A β) :
    (runWith answer (p >>= f)).2 = (runWith answer (f (runWith answer p).2)).2 := by
  induction p with
  | ret a => rfl
  | call e k ih => exact ih (answer e)

/-- A run of `p` and then `f` is a run of each. -/
theorem trace_bind {p : Prog E A α} {f : α → Prog E A β} {tr : List (Event E A)} {b : β} :
    Trace (p >>= f) tr b ↔ ∃ tr₁ tr₂ a, tr = tr₁ ++ tr₂ ∧ Trace p tr₁ a ∧ Trace (f a) tr₂ b := by
  induction p generalizing tr with
  | ret a =>
    constructor
    · intro h
      exact ⟨[], tr, a, rfl, .ret a, h⟩
    · rintro ⟨tr₁, tr₂, a', rfl, h₁, h₂⟩
      obtain ⟨rfl, rfl⟩ := trace_ret.mp h₁
      exact h₂
  | call e k ih =>
    rw [call_bind, trace_call]
    constructor
    · rintro ⟨x, tr', rfl, h⟩
      obtain ⟨tr₁, tr₂, a, rfl, h₁, h₂⟩ := (ih x).mp h
      exact ⟨⟨e, x⟩ :: tr₁, tr₂, a, rfl, .call e x k h₁, h₂⟩
    · rintro ⟨tr₁, tr₂, a, rfl, h₁, h₂⟩
      obtain ⟨x, tr', rfl, hk⟩ := trace_call.mp h₁
      exact ⟨x, tr' ++ tr₂, rfl, (ih x).mpr ⟨tr', tr₂, a, rfl, hk, h₂⟩⟩

/-- A run of `p` that ends by computing something of its result. -/
theorem trace_map {p : Prog E A α} {f : α → β} {tr : List (Event E A)} {b : β} :
    Trace (p >>= fun a => .ret (f a)) tr b ↔ ∃ a, Trace p tr a ∧ b = f a := by
  constructor
  · intro h
    obtain ⟨tr₁, tr₂, a, rfl, h₁, h₂⟩ := trace_bind.mp h
    obtain ⟨rfl, rfl⟩ := trace_ret.mp h₂
    exact ⟨a, by rwa [List.append_nil], rfl⟩
  · rintro ⟨a, h, rfl⟩
    exact trace_bind.mpr ⟨tr, [], a, (List.append_nil tr).symm, h, .ret (f a)⟩

/-- Whatever the answers, every call meets `P` and what is returned meets `Q`. -/
def Makes (P : E → Prop) : Prog E A α → (α → Prop) → Prop
  | ret a, Q => Q a
  | call e k, Q => P e ∧ ∀ x, Makes P (k x) Q

section Makes

variable {P : E → Prop} {p : Prog E A α} {Q Q' : α → Prop}

theorem Makes.seq {f : α → Prog E A β} {R : β → Prop} (h : Makes P p Q)
    (hf : ∀ a, Q a → Makes P (f a) R) : Makes P (p >>= f) R := by
  induction p with
  | ret a => exact hf a h
  | call e k ih => exact ⟨h.1, fun x => ih x (h.2 x)⟩

theorem Makes.weaken {P' : E → Prop} (h : Makes P p Q) (hP : ∀ e, P e → P' e) : Makes P' p Q := by
  induction p with
  | ret a => exact h
  | call e k ih => exact ⟨hP e h.1, fun x => ih x (h.2 x)⟩

/-- Nothing is asked of the calls. -/
theorem makes_any (p : Prog E A α) : Makes (fun _ => True) p fun _ => True := by
  induction p with
  | ret a => exact trivial
  | call e k ih => exact ⟨trivial, ih⟩

theorem Trace.makes {tr : List (Event E A)} {a : α} (h : Trace p tr a) (hp : Makes P p Q) :
    (∀ ev ∈ tr, P ev.1) ∧ Q a := by
  induction h with
  | ret a => exact ⟨nofun, hp⟩
  | call e x k _ ih =>
    obtain ⟨hP, hk⟩ := hp
    obtain ⟨htr, hQ⟩ := ih (hk x)
    exact ⟨List.forall_mem_cons.mpr ⟨hP, htr⟩, hQ⟩

end Makes

/-! ## Runs on a state, interleaved with an environment -/

section Interleaved

variable {σ : Type} {act : (e : E) → σ → A e → σ → Prop} {env : σ → σ → Prop}
  {pre : E → σ → Prop} {p q : Prog E A α} {s s' t : σ} {Q Q' : α → σ → Prop}

/-- The program `p` in the state `s` can come to `q` in `s'`. -/
inductive Interleave (act : (e : E) → σ → A e → σ → Prop) (env : σ → σ → Prop)
    (p : Prog E A α) (s : σ) : Prog E A α → σ → Prop
  | refl : Interleave act env p s p s
  | call {e : E} {k : A e → Prog E A α} {s₁ s₂ : σ} {x : A e} :
      Interleave act env p s (.call e k) s₁ → act e s₁ x s₂ → Interleave act env p s (k x) s₂
  | env {q : Prog E A α} {s₁ s₂ : σ} :
      Interleave act env p s q s₁ → env s₁ s₂ → Interleave act env p s q s₂

/-- Whatever happens from `s` on, `pre` holds when a call is made, and `Q` when `p` returns. -/
def wp (act : (e : E) → σ → A e → σ → Prop) (env : σ → σ → Prop) (pre : E → σ → Prop) :
    Prog E A α → (α → σ → Prop) → σ → Prop
  | ret a, Q, s => ∀ s', Relation.ReflTransGen env s s' → Q a s'
  | call e k, Q, s => ∀ s', Relation.ReflTransGen env s s' →
    pre e s' ∧ ∀ x t, act e s' x t → wp act env pre (k x) Q t

/-- The environment may move before the program does. -/
theorem wp_env (h : wp act env pre p Q s) (he : env s s') : wp act env pre p Q s' := by
  cases p with
  | ret a => exact fun t ht => h t (.head he ht)
  | call e k => exact fun t ht => h t (.head he ht)

/-- Along every run the precondition of what is left holds. -/
theorem Interleave.wp (h : Interleave act env p s q t) (hp : Prog.wp act env pre p Q s) :
    Prog.wp act env pre q Q t := by
  induction h with
  | refl => exact hp
  | call _ hact ih => exact (ih _ .refl).2 _ _ hact
  | env _ he ih => exact wp_env ih he

/-- A program that has returned, returned with its postcondition. -/
theorem Interleave.post {a : α} (h : Interleave act env p s (.ret a) t)
    (hp : Prog.wp act env pre p Q s) : Q a t := h.wp hp t .refl

/-- A program about to make a call, makes it where it may. -/
theorem Interleave.asserts {e : E} {k : A e → Prog E A α} (h : Interleave act env p s (.call e k) t)
    (hp : Prog.wp act env pre p Q s) : pre e t := (h.wp hp t .refl).1

/-- Where fixed answers leave the state as it is, they make a run. -/
theorem interleave_runWith {answer : (e : E) → A e} (hact : ∀ e, act e s (answer e) s)
    (p : Prog E A α) : Interleave act env p s (.ret (runWith answer p).2) s := by
  have hrun : ∀ q : Prog E A α, Interleave act env p s q s →
      Interleave act env p s (.ret (runWith answer q).2) s := by
    intro q
    induction q with
    | ret a => exact id
    | call e k ih => exact fun h => ih (answer e) (.call h (hact e))
  exact hrun p .refl

/-- The environment keeps `P`. -/
def Stable (env : σ → σ → Prop) (P : σ → Prop) : Prop := ∀ s s', P s → env s s' → P s'

theorem Stable.star {P : σ → Prop} (h : Stable env P) (hs : P s)
    (ht : Relation.ReflTransGen env s t) : P t := by
  induction ht with
  | refl => exact hs
  | tail _ he ih => exact h _ _ ih he

/-- Returning establishes what is stable. -/
theorem wp_ret {a : α} (hQ : Stable env (Q a)) (h : Q a s) : wp act env pre (.ret a) Q s :=
  fun _ ht => hQ.star h ht

/-- A call made where a stable `P` holds. -/
theorem wp_call {e : E} {k : A e → Prog E A α} {P : σ → Prop} (hP : Stable env P) (hs : P s)
    (hpre : ∀ s, P s → pre e s)
    (h : ∀ x s s', P s → act e s x s' → wp act env pre (k x) Q s') :
    wp act env pre (.call e k) Q s := by
  intro s' hs'
  have hP' := hP.star hs hs'
  exact ⟨hpre s' hP', fun x t hact => h x s' t hP' hact⟩

theorem wp_mono (h : wp act env pre p Q s) (hQ : ∀ a s, Q a s → Q' a s) :
    wp act env pre p Q' s := by
  induction p generalizing s with
  | ret a => exact fun t ht => hQ a t (h t ht)
  | call e k ih =>
    exact fun s' hs' => ⟨(h s' hs').1, fun x t hact => ih x ((h s' hs').2 x t hact)⟩

theorem wp_bind {f : α → Prog E A β} {Q : β → σ → Prop}
    (h : wp act env pre p (fun a s => wp act env pre (f a) Q s) s) :
    wp act env pre (p >>= f) Q s := by
  induction p generalizing s with
  | ret a => exact h s .refl
  | call e k ih =>
    exact fun s' hs' => ⟨(h s' hs').1, fun x t hact => ih x ((h s' hs').2 x t hact)⟩

/-- First `p` up to `Q'`, then `f` from there. -/
theorem wp_seq {f : α → Prog E A β} {Q : β → σ → Prop} (h : wp act env pre p Q' s)
    (hf : ∀ a s, Q' a s → wp act env pre (f a) Q s) : wp act env pre (p >>= f) Q s :=
  wp_bind (wp_mono h hf)

/-- A program all of whose calls keep a stable `T`, and may be made where `T` holds. -/
theorem wp_makes {P : E → Prop} {R : α → Prop} {T : σ → Prop} (hp : Makes P p R)
    (hT : Stable env T) (hs : T s) (hpre : ∀ e s, P e → T s → pre e s)
    (hact : ∀ e s x s', P e → T s → act e s x s' → T s') :
    wp act env pre p (fun a s' => R a ∧ T s') s := by
  induction p generalizing s with
  | ret a => exact fun t ht => ⟨hp, hT.star hs ht⟩
  | call e k ih =>
    intro s' hs'
    have hT' := hT.star hs hs'
    exact ⟨hpre e s' hp.1 hT', fun x t h => ih x (hp.2 x) (hact e s' x t hp.1 hT' h)⟩

end Interleaved

/-! ## Sessions -/

section Session

variable {σ τ ι ρ : Type} {act : (e : E) → σ → A e → σ → Prop} {env other : σ → σ → Prop}
  {pre : E → σ → Prop} {body : ι → τ → Prog E A (ρ × τ)} {t₀ t : τ} {s₀ s : σ}

/-- What is carried and the state, between the programs of a sequence. The environment moves
    between them too, and so do `other` steps. -/
inductive Session (act : (e : E) → σ → A e → σ → Prop) (env other : σ → σ → Prop)
    (body : ι → τ → Prog E A (ρ × τ)) (t₀ : τ) (s₀ : σ) : τ → σ → Prop
  | start : Session act env other body t₀ s₀ t₀ s₀
  | env {t : τ} {s s' : σ} :
      Session act env other body t₀ s₀ t s → env s s' → Session act env other body t₀ s₀ t s'
  | other {t : τ} {s s' : σ} :
      Session act env other body t₀ s₀ t s → other s s' → Session act env other body t₀ s₀ t s'
  | call {t t' : τ} {s s' : σ} (i : ι) (r : ρ) :
      Session act env other body t₀ s₀ t s → Interleave act env (body i t) s (.ret (r, t')) s' →
        Session act env other body t₀ s₀ t' s'

/-- What holds at the start, is stable, and is kept by each program, holds between them all. -/
theorem Session.invariant {J : τ → σ → Prop} (h : Session act env other body t₀ s₀ t s)
    (h₀ : J t₀ s₀) (henv : ∀ t, Stable env (J t)) (hother : ∀ t, Stable other (J t))
    (hbody : ∀ i t s, J t s → wp act env pre (body i t) (fun r s' => J r.2 s') s) : J t s := by
  induction h with
  | start => exact h₀
  | env _ he ih => exact henv _ _ _ ih he
  | other _ ho ih => exact hother _ _ _ ih ho
  | call i r _ hrun ih => exact hrun.post (hbody i _ _ ih)

end Session

/-! ## Runs by a script -/

section Drive

variable {σ : Type} {act : (e : E) → σ → A e → σ → Prop} {env : σ → σ → Prop}

/-- What happens next: the program's call is answered, or the environment moves. -/
inductive Move (A : E → Type) (σ : Type)
  | answer (f : (e : E) → σ → Option (A e × σ))
  | env (f : σ → Option σ)

/-- The move is one that `act` and `env` allow. -/
def Move.Allowed (act : (e : E) → σ → A e → σ → Prop) (env : σ → σ → Prop) : Move A σ → Prop
  | .answer f => ∀ e s x s', f e s = some (x, s') → act e s x s'
  | .env f => ∀ s s', f s = some s' → env s s'

/-- One move. A program that has returned makes no call. -/
def Move.apply : Move A σ → Prog E A α × σ → Option (Prog E A α × σ)
  | .answer _, (ret _, _) => none
  | .answer f, (call e k, s) => (f e s).map fun r => (k r.1, r.2)
  | .env f, (p, s) => (f s).map fun s' => (p, s')

/-- The program and the state after a list of moves. -/
def drive : List (Move A σ) → Prog E A α × σ → Option (Prog E A α × σ)
  | [], c => some c
  | m :: moves, c => (m.apply c).bind (drive moves)

/-- A script that repeats one move, before and after some others. -/
theorem Move.allowed_around {m : Move A σ} {moves : List (Move A σ)} {a b : Nat}
    (hm : m.Allowed act env) (hmoves : ∀ m' ∈ moves, m'.Allowed act env) :
    ∀ m' ∈ List.replicate a m ++ moves ++ List.replicate b m, m'.Allowed act env := by
  intro m' hm'
  rcases List.mem_append.mp hm' with hm' | hm'
  · rcases List.mem_append.mp hm' with hm' | hm'
    · exact List.eq_of_mem_replicate hm' ▸ hm
    · exact hmoves m' hm'
  · exact List.eq_of_mem_replicate hm' ▸ hm

/-- A script of allowed moves is a run. -/
theorem interleave_drive {p q r : Prog E A α} {s t u : σ} {moves : List (Move A σ)}
    (hmoves : ∀ m ∈ moves, m.Allowed act env) (hrun : Interleave act env p s q t)
    (h : drive moves (q, t) = some (r, u)) : Interleave act env p s r u := by
  induction moves generalizing q t with
  | nil =>
    cases h
    exact hrun
  | cons m moves ih =>
    have hm := hmoves m (List.mem_cons_self ..)
    obtain ⟨⟨q', t'⟩, happly, hrest⟩ := Option.bind_eq_some_iff.mp h
    refine ih (fun m' hm' => hmoves m' (List.mem_cons_of_mem _ hm')) ?_ hrest
    cases m with
    | answer f =>
      cases q with
      | ret a => cases happly
      | call e k =>
        obtain ⟨⟨x, t''⟩, hf, heq⟩ := Option.map_eq_some_iff.mp happly
        cases heq
        exact .call hrun (hm e t x _ hf)
    | env f =>
      obtain ⟨t'', hf, heq⟩ := Option.map_eq_some_iff.mp happly
      cases heq
      exact .env hrun (hm t _ hf)

end Drive

end Prog

end OopsMesa.Lib
