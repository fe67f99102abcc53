/-
  The environment, a table of `NAME=VALUE` strings.

  A name is looked up by comparing as many bytes of an entry as it has, and then the byte after
  them with '='. No name has a '=', so this is to compare the names (`matchesName_iff`), also
  where one is the start of the other. The table is then a keyed one: `Represents env t` says that
  its entries are those of `t`, each written as one string, and each call is a lookup or a write
  in `t` (`setenv_cases`, `unsetenv_cases`). Over any calls the environment is the map that they
  have written, of at most `ENV_MAX` names (`environment_map`).

  A string is its bytes, and a null pointer is nothing. What `malloc` answers is an argument.
-/
import OopsMesa.Lib.Keyed
import OopsMesa.Lib.Reach
import OopsMesa.Runtime.Stdio

namespace OopsMesa.Runtime

open OopsMesa.Lib

/-! ## The code -/

/-- `ENV_MAX` -/
def envMax : Nat := 128

/-- '=' -/
def eqSign : UInt8 := 0x3d

/-- `s_env` -/
abbrev EnvTable := Fin envMax → Option CString

/-- `errno`, where a call here sets it. -/
inductive EnvErrno where
  | EINVAL | ENOMEM
  deriving DecidableEq

/-- What `setenv` and `unsetenv` return, and what they write to `errno`. -/
structure EnvStatus where
  ret : Int
  errno : Option EnvErrno
  deriving DecidableEq

/-- A name POSIX accepts: not empty and without '='. -/
abbrev EnvName := { s : List UInt8 // 0 ∉ s ∧ s ≠ [] ∧ eqSign ∉ s }

/-- `env_name_ok` -/
def envNameOk (name : Option CString) : Option EnvName :=
  name.bind fun name =>
    if h : name.1 ≠ [] ∧ eqSign ∉ name.1 then some ⟨name.1, name.2, h⟩ else none

/-- `strncmp(s, t, n) == 0`, on the bytes before the NUL. -/
def strncmpEq : List UInt8 → List UInt8 → Nat → Bool
  | _, _, 0 => true
  | [], [], _ + 1 => true
  | a :: s, b :: t, n + 1 => a = b && strncmpEq s t n
  | _, _, _ + 1 => false

/-- `s[i]`, with the NUL. -/
def charAt (s : CString) (i : Nat) : Option UInt8 := (s.1 ++ [0])[i]?

/-- The test of `env_find` on an entry. -/
def matchesName (entry : CString) (name : EnvName) : Bool :=
  strncmpEq entry.1 name.1 name.1.length && charAt entry name.1.length = some eqSign

/-- `env_find` -/
def envFind (env : EnvTable) (name : EnvName) : Option (Fin envMax) :=
  firstIdx fun i => (env i).any (matchesName · name)

/-- `s + i` -/
def CString.drop (s : CString) (i : Nat) : CString :=
  ⟨s.1.drop i, fun h => s.2 (List.mem_of_mem_drop h)⟩

/-- `getenv` -/
def getenv (env : EnvTable) (name : Option CString) : Option CString := do
  let name ← envNameOk name
  let i ← envFind env name
  let entry ← env i
  some (entry.drop (name.1.length + 1))

/-- The string that `setenv` makes: the name, '=' and the value. -/
def envEntry (name : EnvName) (value : CString) : CString :=
  ⟨name.1 ++ eqSign :: value.1, by
    rw [List.mem_append, List.mem_cons]
    rintro (h | h | h)
    · exact name.2.1 h
    · exact absurd h (by decide)
    · exact value.2 h⟩

/-- `""` -/
def emptyString : CString := ⟨[], List.not_mem_nil⟩

/-- `setenv`; `malloc` is whether there is memory for the entry. -/
def setenv (env : EnvTable) (name value : Option CString) (overwrite : Int32) (malloc : Bool) :
    EnvStatus × EnvTable :=
  match envNameOk name with
  | none => (⟨-1, some .EINVAL⟩, env)
  | some name =>
    let i := envFind env name
    if i.isSome ∧ overwrite = 0 then (⟨0, none⟩, env)
    else
      let value := value.getD emptyString
      if !malloc then (⟨-1, some .ENOMEM⟩, env)
      else
        match i with
        | some i => (⟨0, none⟩, Function.update env i (some (envEntry name value)))
        | none =>
          match firstIdx fun i => (env i).isNone with
          | none => (⟨-1, some .ENOMEM⟩, env)
          | some i => (⟨0, none⟩, Function.update env i (some (envEntry name value)))

/-- `unsetenv` -/
def unsetenv (env : EnvTable) (name : Option CString) : EnvStatus × EnvTable :=
  match envNameOk name with
  | none => (⟨-1, some .EINVAL⟩, env)
  | some name =>
    match envFind env name with
    | some i => (⟨0, none⟩, Function.update env i none)
    | none => (⟨0, none⟩, env)

/-- A call, with the answer of `malloc` for a `setenv`. -/
inductive EnvCall where
  | getenv (name : Option CString)
  | setenv (name value : Option CString) (overwrite : Int32) (malloc : Bool)
  | unsetenv (name : Option CString)

inductive EnvAnswer where
  | value (v : Option CString)
  | status (s : EnvStatus)
  deriving DecidableEq

def EnvTable.call (env : EnvTable) : EnvCall → EnvAnswer × EnvTable
  | .getenv name => (.value (Runtime.getenv env name), env)
  | .setenv name value overwrite malloc =>
    let r := Runtime.setenv env name value overwrite malloc
    (.status r.1, r.2)
  | .unsetenv name =>
    let r := Runtime.unsetenv env name
    (.status r.1, r.2)

/-- The table, and the calls with their answers, the last one first. -/
structure EnvHistory where
  env : EnvTable
  past : List (EnvCall × EnvAnswer)

def EnvHistory.after (s : EnvHistory) (c : EnvCall) : EnvHistory :=
  ⟨(s.env.call c).2, (c, (s.env.call c).1) :: s.past⟩

/-- Calls from the empty environment. -/
def environment (calls : List EnvCall) : EnvHistory :=
  calls.foldl EnvHistory.after ⟨fun _ => none, []⟩

/-! ## The statement -/

/-- The value of the last `setenv` of a name that took effect, if no `unsetenv` of it came after,
    whatever that answered. A `setenv` that returned 0 took effect, unless the name was set and
    not to be overwritten. -/
def lastSet (name : CString) : List (EnvCall × EnvAnswer) → Option CString
  | [] => none
  | (.getenv _, _) :: past => lastSet name past
  | (.setenv n value overwrite _, answer) :: past =>
    if answer = .status ⟨0, none⟩ ∧ n = some name ∧
        (overwrite ≠ 0 ∨ lastSet name past = none) then
      some (value.getD emptyString)
    else lastSet name past
  | (.unsetenv n, _) :: past => if n = some name then none else lastSet name past

/-- A name as a string. -/
def EnvName.str (name : EnvName) : CString := ⟨name.1, name.2.1⟩

variable {env : EnvTable} {t : Keyed envMax EnvName CString} {n m : EnvName} {v w : CString}
  {name value : Option CString} {overwrite : Int32} {malloc : Bool}

/-! ## Names and entries -/

theorem envNameOk_eq_some : envNameOk name = some n ↔ name = some n.str := by
  unfold envNameOk
  constructor
  · intro h
    obtain ⟨s, rfl, hs⟩ := Option.bind_eq_some_iff.mp h
    split at hs
    · obtain rfl := Option.some.inj hs
      rfl
    · exact nomatch hs
  · rintro rfl
    exact dif_pos n.2.2

theorem strncmpEq_iff (s t : List UInt8) : strncmpEq s t t.length = true ↔ t <+: s := by
  induction t generalizing s with
  | nil => simp [strncmpEq]
  | cons b t ih =>
    cases s with
    | nil => simp [strncmpEq]
    | cons a s =>
      simp only [List.length_cons, strncmpEq, Bool.and_eq_true, decide_eq_true_eq, ih,
        List.cons_prefix_cons]
      exact and_congr_left' eq_comm

/-- The test of an entry against a name is whether the entry is of the name. -/
theorem matchesName_iff {e : CString} : matchesName e n = true ↔ ∃ v, e = envEntry n v := by
  unfold matchesName charAt
  rw [Bool.and_eq_true, strncmpEq_iff, decide_eq_true_eq]
  constructor
  · rintro ⟨⟨r, hr⟩, hchar⟩
    rw [← hr, List.append_assoc, List.getElem?_append_right (Nat.le_refl _), Nat.sub_self] at hchar
    obtain _ | ⟨c, v⟩ := r
    · exact absurd hchar (by decide)
    · have hc : c = eqSign := Option.some.inj hchar
      have hv : 0 ∉ v := by
        intro h
        apply e.2
        rw [← hr]
        exact List.mem_append_right _ (List.mem_cons_of_mem _ h)
      exact ⟨⟨v, hv⟩, Subtype.ext (by rw [← hr, hc]; rfl)⟩
  · rintro ⟨v, rfl⟩
    refine ⟨⟨eqSign :: v.1, rfl⟩, ?_⟩
    unfold envEntry
    rw [List.append_assoc, List.getElem?_append_right (Nat.le_refl _), Nat.sub_self]
    rfl

/-- An entry is of one name, and has one value. -/
theorem envEntry_inj (h : envEntry n v = envEntry m w) : n = m ∧ v = w := by
  have hlist : n.1 ++ eqSign :: v.1 = m.1 ++ eqSign :: w.1 := congrArg Subtype.val h
  have htake : ∀ (k : EnvName) (x : CString),
      (k.1 ++ eqSign :: x.1).takeWhile (· ≠ eqSign) = k.1 := by
    intro k x
    rw [List.takeWhile_append_of_pos fun c hc => ?_, List.takeWhile_cons_of_neg (by simp),
      List.append_nil]
    rw [decide_eq_true_eq]
    rintro rfl
    exact k.2.2.2 hc
  have hname : n.1 = m.1 := by rw [← htake n v, hlist, htake]
  rw [hname] at hlist
  exact ⟨Subtype.ext hname, Subtype.ext (List.cons.inj (List.append_cancel_left hlist)).2⟩

/-- The value follows the name and the '='. -/
theorem envEntry_drop : (envEntry n v).drop (n.1.length + 1) = v := by
  apply Subtype.ext
  show (n.1 ++ eqSign :: v.1).drop (n.1.length + 1) = v.1
  rw [List.drop_append, List.drop_eq_nil_of_le (by omega)]
  simp

/-! ## The table -/

/-- The entries are those of a keyed table. -/
structure Represents (env : EnvTable) (t : Keyed envMax EnvName CString) : Prop where
  entries : ∀ i, env i = (t i).map fun e => envEntry e.1 e.2
  distinct : t.Distinct

theorem Represents.init : Represents (fun _ => none) (fun _ => none) := ⟨fun _ => rfl, nofun⟩

theorem Represents.entry_iff (h : Represents env t) {i : Fin envMax} :
    env i = some (envEntry n v) ↔ t i = some (n, v) := by
  rw [h.entries, Option.map_eq_some_iff]
  constructor
  · rintro ⟨⟨m, w⟩, hi, heq⟩
    obtain ⟨rfl, rfl⟩ := envEntry_inj heq
    exact hi
  · intro hi
    exact ⟨(n, v), hi, rfl⟩

theorem Represents.find (h : Represents env t) (n : EnvName) : envFind env n = t.find n := by
  unfold envFind Keyed.find
  congr 1
  funext i
  rw [Bool.eq_iff_iff, Keyed.any_key_iff, Option.any_eq_true]
  constructor
  · rintro ⟨e, hi, hmatch⟩
    obtain ⟨v, rfl⟩ := matchesName_iff.mp hmatch
    exact ⟨v, h.entry_iff.mp hi⟩
  · rintro ⟨v, hi⟩
    exact ⟨_, h.entry_iff.mpr hi, matchesName_iff.mpr ⟨v, rfl⟩⟩

theorem Represents.getenv (h : Represents env t) (n : EnvName) :
    Runtime.getenv env (some n.str) = t.get n := by
  unfold Runtime.getenv Keyed.get
  rw [envNameOk_eq_some.mpr rfl]
  simp only [Option.bind_eq_bind, Option.bind_some]
  rw [h.find]
  cases hf : t.find n with
  | none => rfl
  | some i =>
    obtain ⟨v, hi⟩ := Keyed.find_some hf
    rw [Option.bind_some, Option.bind_some, h.entry_iff.mpr hi, hi, Option.bind_some]
    exact congrArg some envEntry_drop

/-- A write in the entry of a name, or in an empty one where the name has none. -/
theorem Represents.put (h : Represents env t) {i : Fin envMax}
    (hkey : ∀ j w, t j = some (n, w) → j = i) (e : Option CString) :
    Represents (Function.update env i (e.map (envEntry n)))
      (Function.update t i (e.map (n, ·))) := by
  refine ⟨fun j => ?_, h.distinct.put hkey e⟩
  by_cases hji : j = i
  · rw [hji, Function.update_self, Function.update_self, Option.map_map]
    rfl
  · rw [Function.update_of_ne hji, Function.update_of_ne hji, h.entries]

/-- No entry is empty exactly where `ENV_MAX` names are set. -/
theorem Represents.full_iff (h : Represents env t) :
    (firstIdx fun i => (env i).isNone) = none ↔ HasKeys t.get envMax := by
  rw [← Keyed.full_iff h.distinct, firstIdx_eq_none]
  apply forall_congr'
  intro i
  rw [h.entries, Option.isNone_map, Option.isNone_eq_false_iff, ← Option.isSome_iff_ne_none]

/-- `setenv` refuses what is no name; leaves a name that is set alone where it is not to be
    overwritten; finds no memory or no room; or sets the name. -/
theorem Represents.setenv (h : Represents env t) (name value : Option CString)
    (overwrite : Int32) (malloc : Bool) :
    envNameOk name = none ∧
      Runtime.setenv env name value overwrite malloc = (⟨-1, some .EINVAL⟩, env) ∨
    ∃ n : EnvName, name = some n.str ∧
      ((t.get n ≠ none ∧ overwrite = 0) ∧
          Runtime.setenv env name value overwrite malloc = (⟨0, none⟩, env) ∨
        ¬ (t.get n ≠ none ∧ overwrite = 0) ∧
          (malloc = false ∨ t.get n = none ∧ HasKeys t.get envMax) ∧
          Runtime.setenv env name value overwrite malloc = (⟨-1, some .ENOMEM⟩, env) ∨
        ¬ (t.get n ≠ none ∧ overwrite = 0) ∧
          ¬ (malloc = false ∨ t.get n = none ∧ HasKeys t.get envMax) ∧
          ∃ env' t', Runtime.setenv env name value overwrite malloc = (⟨0, none⟩, env') ∧
            Represents env' t' ∧
            t'.get = Function.update t.get n (some (value.getD emptyString))) := by
  cases hname : envNameOk name with
  | none =>
    left
    unfold Runtime.setenv
    rw [hname]
    exact ⟨rfl, rfl⟩
  | some n =>
    right
    refine ⟨n, envNameOk_eq_some.mp hname, ?_⟩
    unfold Runtime.setenv
    rw [hname]
    dsimp only
    rw [h.find]
    have hset : (t.find n).isSome = true ↔ t.get n ≠ none := by
      rw [Option.isSome_iff_ne_none]
      exact not_congr Keyed.get_eq_none.symm
    by_cases hkeep : t.get n ≠ none ∧ overwrite = 0
    · exact .inl ⟨hkeep, if_pos ⟨hset.mpr hkeep.1, hkeep.2⟩⟩
    · right
      rw [if_neg fun hk => hkeep ⟨hset.mp hk.1, hk.2⟩]
      cases malloc with
      | false => exact .inl ⟨hkeep, .inl rfl, rfl⟩
      | true =>
        rw [if_neg (by decide)]
        cases hfind : t.find n with
        | some i =>
          -- in the entry that the name has
          have hget : t.get n ≠ none := hset.mp (by rw [hfind]; rfl)
          obtain ⟨hkey, hown⟩ := Keyed.find_unique h.distinct hfind
          exact .inr ⟨hkeep, fun hno => hno.elim nofun fun hno => hget hno.1, _, _, rfl,
            h.put hkey (some (value.getD emptyString)), Keyed.get_put h.distinct hkey hown _⟩
        | none =>
          have hget : t.get n = none := Keyed.get_eq_none.mpr hfind
          have hkey : ∀ (i j : Fin envMax) w, t j = some (n, w) → j = i :=
            fun i j w hj => absurd hj (Keyed.find_eq_none.mp hfind j w)
          cases hempty : firstIdx fun i => (env i).isNone with
          | none => exact .inl ⟨hkeep, .inr ⟨hget, h.full_iff.mp hempty⟩, rfl⟩
          | some i =>
            have hroom : ¬ HasKeys t.get envMax := fun hfull =>
              nomatch hempty.symm.trans (h.full_iff.mpr hfull)
            have hi : t i = none := by
              have hnone := Option.isNone_iff_eq_none.mp (firstIdx_some hempty)
              rwa [h.entries, Option.map_eq_none_iff] at hnone
            have hown : ∀ l v, t i = some (l, v) → l = n := by
              intro l v hl
              exact nomatch hi.symm.trans hl
            exact .inr ⟨hkeep, fun hno => hno.elim nofun fun hno => hroom hno.2, _, _, rfl,
              h.put (hkey i) (some (value.getD emptyString)),
              Keyed.get_put h.distinct (hkey i) hown _⟩

/-- `unsetenv` refuses what is no name, or unsets it. -/
theorem Represents.unsetenv (h : Represents env t) (name : Option CString) :
    envNameOk name = none ∧ Runtime.unsetenv env name = (⟨-1, some .EINVAL⟩, env) ∨
    ∃ n : EnvName, name = some n.str ∧ ∃ env' t',
      Runtime.unsetenv env name = (⟨0, none⟩, env') ∧ Represents env' t' ∧
        t'.get = Function.update t.get n none := by
  unfold Runtime.unsetenv
  cases hname : envNameOk name with
  | none => exact .inl ⟨rfl, rfl⟩
  | some n =>
    refine .inr ⟨n, envNameOk_eq_some.mp hname, ?_⟩
    dsimp only
    rw [h.find]
    cases hfind : t.find n with
    | none =>
      have hget : t.get n = none := Keyed.get_eq_none.mpr hfind
      exact ⟨env, t, rfl, h, by rw [← hget, Function.update_eq_self]⟩
    | some i =>
      obtain ⟨hkey, hown⟩ := Keyed.find_unique h.distinct hfind
      exact ⟨_, _, rfl, h.put hkey none, Keyed.get_put h.distinct hkey hown none⟩

/-! ## Runs -/

theorem EnvName.str_inj (h : n.str = m.str) : n = m := by
  have hbytes : n.str.1 = m.str.1 := congrArg Subtype.val h
  exact Subtype.ext hbytes

section LastSet

variable {answer : EnvAnswer} {past : List (EnvCall × EnvAnswer)} {s : CString}

theorem lastSet_getenv : lastSet s ((.getenv name, answer) :: past) = lastSet s past := rfl

/-- A `setenv` that fails, or is of another name, or leaves the name alone. -/
theorem lastSet_setenv_same (h : answer = .status ⟨0, none⟩ → name = some s →
      overwrite = 0 ∧ lastSet s past ≠ none) :
    lastSet s ((.setenv name value overwrite malloc, answer) :: past) = lastSet s past := by
  rw [lastSet, if_neg]
  rintro ⟨hanswer, hname, hwrite⟩
  obtain ⟨hzero, hset⟩ := h hanswer hname
  exact hwrite.elim (fun hne => hne hzero) hset

theorem lastSet_setenv (h : overwrite ≠ 0 ∨ lastSet s past = none) :
    lastSet s ((.setenv (some s) value overwrite malloc, .status ⟨0, none⟩) :: past) =
      some (value.getD emptyString) := if_pos ⟨rfl, rfl, h⟩

theorem lastSet_unsetenv : lastSet s ((.unsetenv (some s), answer) :: past) = none := if_pos rfl

theorem lastSet_unsetenv_of_ne (h : name ≠ some s) :
    lastSet s ((.unsetenv name, answer) :: past) = lastSet s past := if_neg h

end LastSet

/-- The table is the map that the calls have written. -/
structure Wrote (s : EnvHistory) (t : Keyed envMax EnvName CString) : Prop where
  represents : Represents s.env t
  names : ∀ n : EnvName, t.get n = lastSet n.str s.past
  invalid : ∀ name, envNameOk (some name) = none → lastSet name s.past = none

theorem Wrote.init : Wrote ⟨fun _ => none, []⟩ fun _ => none :=
  ⟨.init, fun _ => Keyed.get_eq_none.mpr (Keyed.find_eq_none.mpr fun _ _ => nofun), fun _ _ => rfl⟩

/-- What a call that leaves table and names alone has written. -/
theorem Wrote.same {s s' : EnvHistory} (h : Wrote s t) (henv : s'.env = s.env)
    (hpast : ∀ name, lastSet name s'.past = lastSet name s.past) : Wrote s' t := by
  refine ⟨henv ▸ h.represents, fun n => ?_, fun name hname => ?_⟩
  · rw [hpast]
    exact h.names n
  · rw [hpast]
    exact h.invalid name hname

/-- What a call that writes one name has written. -/
theorem Wrote.written {s s' : EnvHistory} {t' : Keyed envMax EnvName CString} (h : Wrote s t)
    (henv : Represents s'.env t') {e : Option CString} (hget : t'.get = Function.update t.get n e)
    (hself : lastSet n.str s'.past = e)
    (hother : ∀ name, name ≠ n.str → lastSet name s'.past = lastSet name s.past) :
    Wrote s' t' := by
  refine ⟨henv, fun m => ?_, fun name hname => ?_⟩
  · rw [hget]
    by_cases hm : m = n
    · rw [hm, Function.update_self, hself]
    · rw [Function.update_of_ne hm, hother _ fun heq => hm (EnvName.str_inj heq)]
      exact h.names m
  · rw [hother]
    · exact h.invalid name hname
    · rintro rfl
      exact nomatch hname.symm.trans (envNameOk_eq_some.mpr rfl)

/-- Every call leaves it so. -/
theorem Wrote.after {s : EnvHistory} (h : Wrote s t) (c : EnvCall) :
    ∃ t', Wrote (s.after c) t' := by
  cases c with
  | getenv name => exact ⟨t, h.same rfl fun _ => lastSet_getenv⟩
  | setenv name value overwrite malloc =>
    have hafter : s.after (.setenv name value overwrite malloc) =
      ⟨(setenv s.env name value overwrite malloc).2, (.setenv name value overwrite malloc,
        .status (setenv s.env name value overwrite malloc).1) :: s.past⟩ := rfl
    rw [hafter]
    obtain ⟨-, heq⟩ | ⟨n, rfl, ⟨hkeep, heq⟩ | ⟨-, -, heq⟩ | ⟨hset, -, env', t', heq, hrep, hget⟩⟩ :=
      h.represents.setenv name value overwrite malloc
    · rw [heq]
      exact ⟨t, h.same rfl fun _ => lastSet_setenv_same nofun⟩
    · rw [heq]
      refine ⟨t, h.same rfl fun name => lastSet_setenv_same fun _ hname => ⟨hkeep.2, ?_⟩⟩
      rw [← Option.some.inj hname, ← h.names]
      exact hkeep.1
    · rw [heq]
      exact ⟨t, h.same rfl fun _ => lastSet_setenv_same nofun⟩
    · rw [heq]
      refine ⟨t', h.written hrep hget (lastSet_setenv ?_) fun name hname =>
        lastSet_setenv_same fun _ hn => absurd (Option.some.inj hn).symm hname⟩
      rw [← h.names]
      by_contra hno
      exact hset ⟨fun hnone => hno (.inr hnone), by_contra fun hne => hno (.inl hne)⟩
  | unsetenv name =>
    have hafter : s.after (.unsetenv name) = ⟨(unsetenv s.env name).2,
      (.unsetenv name, .status (unsetenv s.env name).1) :: s.past⟩ := rfl
    rw [hafter]
    obtain ⟨hno, heq⟩ | ⟨n, rfl, env', t', heq, hrep, hget⟩ := h.represents.unsetenv name
    · rw [heq]
      refine ⟨t, h.same rfl fun s' => ?_⟩
      -- what is no name was never set
      by_cases hs : name = some s'
      · subst hs
        rw [lastSet_unsetenv, h.invalid s' hno]
      · rw [lastSet_unsetenv_of_ne hs]
    · rw [heq]
      exact ⟨t', h.written hrep hget lastSet_unsetenv fun name hname =>
        lastSet_unsetenv_of_ne fun heq => hname (Option.some.inj heq).symm⟩

/-- So it is after any calls. -/
theorem wrote (calls : List EnvCall) : ∃ t, Wrote (environment calls) t := by
  have hreach : Reach EnvHistory.after (fun _ _ => True) ⟨fun _ => none, []⟩ (environment calls) :=
    Reach.foldl calls fun _ _ _ => trivial
  refine hreach.invariant (P := fun s => ∃ t, Wrote s t) ⟨_, Wrote.init⟩ fun s c h _ => ?_
  obtain ⟨t, h⟩ := h
  exact h.after c

theorem getenv_of_invalid (h : envNameOk name = none) : getenv env name = none := by
  unfold getenv
  rw [h]
  rfl

/-- A name that is set and not to be overwritten is left alone. -/
theorem Represents.kept (h : Represents env t) (hset : Runtime.getenv env name ≠ none) :
    Runtime.setenv env name value 0 malloc = (⟨0, none⟩, env) := by
  obtain ⟨hname, -⟩ | ⟨n, rfl, ⟨-, heq⟩ | ⟨hno, -, -⟩ | ⟨hno, -, -⟩⟩ := h.setenv name value 0 malloc
  · exact absurd (getenv_of_invalid hname) hset
  · exact heq
  · exact absurd ⟨by rwa [← h.getenv], rfl⟩ hno
  · exact absurd ⟨by rwa [← h.getenv], rfl⟩ hno

/-- `unsetenv` of a name returns 0, and the name is not set after it. -/
theorem Represents.unset (h : Represents env t) (hname : envNameOk name ≠ none) :
    (Runtime.unsetenv env name).1 = ⟨0, none⟩ ∧
      Runtime.getenv (Runtime.unsetenv env name).2 name = none := by
  obtain ⟨hno, -⟩ | ⟨n, rfl, env', t', heq, h', hput⟩ := h.unsetenv name
  · exact absurd hno hname
  · rw [heq]
    refine ⟨rfl, ?_⟩
    rw [h'.getenv, hput, Function.update_self]

/-- A `setenv` that fails leaves the table alone. -/
theorem Represents.failed (h : Represents env t)
    (hne : (Runtime.setenv env name value overwrite malloc).1.ret ≠ 0) :
    (Runtime.setenv env name value overwrite malloc).2 = env := by
  obtain ⟨-, heq⟩ | ⟨n, rfl, ⟨-, heq⟩ | ⟨-, -, heq⟩ | ⟨-, -, env', t', heq, -, -⟩⟩ :=
    h.setenv name value overwrite malloc
  · rw [heq]
  · rw [heq]
  · rw [heq]
  · rw [heq] at hne
    exact absurd rfl hne

/-- A name reads as it was last set. -/
theorem Wrote.reads {s : EnvHistory} (h : Wrote s t) (name : Option CString) :
    getenv s.env name = name.bind fun name => lastSet name s.past := by
  cases name with
  | none => rfl
  | some name =>
    rw [Option.bind_some]
    cases hname : envNameOk (some name) with
    | none => rw [getenv_of_invalid hname, h.invalid name hname]
    | some n =>
      obtain rfl := Option.some.inj (envNameOk_eq_some.mp hname)
      rw [h.represents.getenv, h.names]

end OopsMesa.Runtime
