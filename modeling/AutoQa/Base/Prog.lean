/-!
# Effectful programs

A program over the state `σ` returns a value or throws a message, and a throw
keeps the state changes made before it: the reading of an `async` function
whose awaits may reject. Where the state is a log that only grows, `Logs R p`
is the judgment about `p`: `R` relates its way out to the entries it appended.
The rules follow the control flow, one for each construct.
-/

namespace AutoQa.Base

/-- A computation that may throw; the state survives the throw. -/
def Prog (σ α : Type) : Type := σ → Except String α × σ

namespace Prog

variable {σ τ α β : Type}

instance : Monad (Prog σ) where
  pure a := fun s => (.ok a, s)
  bind p f := fun s =>
    match p s with
    | (.ok a, t) => f a t
    | (.error e, t) => (.error e, t)

/-- `throw new Error(message)`. -/
def throw (message : String) : Prog σ α := fun s => (.error message, s)

/-- `try { p } catch (err) { h(err.message) }`. -/
def tryCatch (p : Prog σ α) (h : String → Prog σ α) : Prog σ α := fun s =>
  match p s with
  | (.ok a, t) => (.ok a, t)
  | (.error e, t) => h e t

/-- `try { p } finally { f }`: a throw of `f` replaces the way out of `p`. -/
def tryFinally (p : Prog σ α) (f : Prog σ Unit) : Prog σ α := fun s =>
  match p s with
  | (r, t) =>
    match f t with
    | (.ok _, u) => (r, u)
    | (.error e, u) => (.error e, u)

/-- Run `p` and hand its way out to the caller as a value. -/
def attempt (p : Prog σ α) : Prog σ (Except String α) := fun s => (.ok (p s).1, (p s).2)

def ofExcept (r : Except String α) : Prog σ α := fun s => (r, s)

def get : Prog σ σ := fun s => (.ok s, s)

def modify (f : σ → σ) : Prog σ Unit := fun s => (.ok (), f s)

/-- Run a program over a part of the state; `get` reads the part and `set`
writes it back. -/
def zoom (get : σ → τ) (set : τ → σ → σ) (p : Prog τ α) : Prog σ α := fun s =>
  ((p (get s)).1, set (p (get s)).2 s)

@[simp] theorem pure_apply (a : α) (s : σ) : (pure a : Prog σ α) s = (.ok a, s) := rfl

@[simp] theorem throw_apply (e : String) (s : σ) : (throw e : Prog σ α) s = (.error e, s) := rfl

@[simp] theorem modify_apply (f : σ → σ) (s : σ) : modify f s = (.ok (), f s) := rfl

@[simp] theorem get_apply (s : σ) : (get : Prog σ σ) s = (.ok s, s) := rfl

@[simp] theorem ofExcept_apply (r : Except String α) (s : σ) : ofExcept r s = (r, s) := rfl

theorem bind_apply (p : Prog σ α) (f : α → Prog σ β) (s : σ) :
    (p >>= f) s = match p s with
      | (.ok a, t) => f a t
      | (.error e, t) => (.error e, t) := rfl

theorem bind_ok {p : Prog σ α} {f : α → Prog σ β} {s t : σ} {a : α}
    (h : p s = (.ok a, t)) : (p >>= f) s = f a t := by
  simp [bind_apply, h]

theorem bind_error {p : Prog σ α} {f : α → Prog σ β} {s t : σ} {e : String}
    (h : p s = (.error e, t)) : (p >>= f) s = (.error e, t) := by
  simp [bind_apply, h]

/-- A sequence that returns has run both of its parts. -/
theorem bind_eq_ok {p : Prog σ α} {f : α → Prog σ β} {s u : σ} {b : β}
    (h : (p >>= f) s = (.ok b, u)) : ∃ a t, p s = (.ok a, t) ∧ f a t = (.ok b, u) := by
  cases hp : p s with
  | mk r t =>
  cases r with
  | error e =>
    rw [bind_error hp] at h
    cases h
  | ok a =>
    rw [bind_ok hp] at h
    exact ⟨a, t, rfl, h⟩

theorem bind_returns (p : Prog σ α) (f : α → Prog σ β) (s : σ) (b : β) :
    ((p >>= f) s).1 = .ok b ↔ ∃ a, (p s).1 = .ok a ∧ (f a (p s).2).1 = .ok b := by
  cases hp : p s with
  | mk r t =>
  cases r with
  | error e =>
    rw [bind_error hp]
    simp
  | ok a =>
    rw [bind_ok hp]
    simp

theorem tryCatch_ok {p : Prog σ α} {h : String → Prog σ α} {s t : σ} {a : α}
    (hp : p s = (.ok a, t)) : tryCatch p h s = (.ok a, t) := by
  simp [tryCatch, hp]

theorem tryCatch_error {p : Prog σ α} {h : String → Prog σ α} {s t : σ} {e : String}
    (hp : p s = (.error e, t)) : tryCatch p h s = h e t := by
  simp [tryCatch, hp]

theorem tryFinally_ok {p : Prog σ α} {f : Prog σ Unit} {s t u : σ} {r : Except String α}
    (hp : p s = (r, t)) (hf : f t = (.ok (), u)) : tryFinally p f s = (r, u) := by
  simp [tryFinally, hp, hf]

theorem tryFinally_error {p : Prog σ α} {f : Prog σ Unit} {s t u : σ} {r : Except String α}
    {e : String} (hp : p s = (r, t)) (hf : f t = (.error e, u)) :
    tryFinally p f s = (.error e, u) := by
  simp [tryFinally, hp, hf]

end Prog

/-! ## Frames -/

/-- `p` leaves the part `f` of the state as it was. -/
def Keeps {σ τ α : Type} (f : σ → τ) (p : Prog σ α) : Prop := ∀ s, f (p s).2 = f s

/-- What follows keeps the part, so it is as the first program left it. -/
theorem Keeps.bind_tail {σ τ α β : Type} {f : σ → τ} {p : Prog σ α} {k : α → Prog σ β}
    (hk : ∀ a, Keeps f (k a)) (s : σ) : f ((p >>= k) s).2 = f (p s).2 := by
  cases hp : p s with
  | mk r t =>
  cases r with
  | error e => rw [Prog.bind_error hp]
  | ok a =>
    rw [Prog.bind_ok hp]
    exact hk a t

/-! ## Two programs side by side -/

/-- `f` shows all that `p` reads of its state: from states that look the same it
ends in the same way, and in states that look the same. -/
def Steady {σ τ α : Type} (f : σ → τ) (p : Prog σ α) : Prop :=
  ∀ s t, f s = f t → (p s).1 = (p t).1 ∧ f (p s).2 = f (p t).2

namespace Steady

variable {σ τ α β : Type} {f : σ → τ}

theorem pure (a : α) : Steady f (Pure.pure a : Prog σ α) := fun _ _ h => ⟨rfl, h⟩

theorem throw (e : String) : Steady f (Prog.throw e : Prog σ α) := fun _ _ h => ⟨rfl, h⟩

theorem ofExcept (r : Except String α) : Steady f (Prog.ofExcept r : Prog σ α) :=
  fun _ _ h => ⟨rfl, h⟩

/-- Both ways of a program, from two states that look the same. -/
theorem cases {p : Prog σ α} (hp : Steady f p) {s t : σ} (h : f s = f t) :
    (∃ a s' t', p s = (.ok a, s') ∧ p t = (.ok a, t') ∧ f s' = f t') ∨
      ∃ e s' t', p s = (.error e, s') ∧ p t = (.error e, t') ∧ f s' = f t' := by
  obtain ⟨hvalue, hstate⟩ := hp s t h
  cases hs : p s with
  | mk r s' =>
  cases ht : p t with
  | mk r' t' =>
  rw [hs, ht] at hvalue hstate
  obtain rfl : r = r' := hvalue
  cases r with
  | ok a => exact .inl ⟨a, s', t', rfl, rfl, hstate⟩
  | error e => exact .inr ⟨e, s', t', rfl, rfl, hstate⟩

theorem bind {p : Prog σ α} {k : α → Prog σ β} (hp : Steady f p) (hk : ∀ a, Steady f (k a)) :
    Steady f (p >>= k) := by
  intro s t h
  rcases hp.cases h with ⟨a, s', t', hs, ht, heq⟩ | ⟨e, s', t', hs, ht, heq⟩
  · rw [Prog.bind_ok hs, Prog.bind_ok ht]
    exact hk a s' t' heq
  · rw [Prog.bind_error hs, Prog.bind_error ht]
    exact ⟨rfl, heq⟩

theorem tryCatch {p : Prog σ α} {k : String → Prog σ α} (hp : Steady f p)
    (hk : ∀ e, Steady f (k e)) : Steady f (Prog.tryCatch p k) := by
  intro s t h
  rcases hp.cases h with ⟨a, s', t', hs, ht, heq⟩ | ⟨e, s', t', hs, ht, heq⟩
  · rw [Prog.tryCatch_ok hs, Prog.tryCatch_ok ht]
    exact ⟨rfl, heq⟩
  · rw [Prog.tryCatch_error hs, Prog.tryCatch_error ht]
    exact hk e s' t' heq

end Steady

/-- As far as `f` shows, `p` from `s` on and `q` from `t` on do the same: they return
the same value, or both throw. -/
def Alike {σ τ α : Type} (f : σ → τ) (p q : Prog σ α) (s t : σ) : Prop :=
  f (p s).2 = f (q t).2 ∧ (p s).1.toOption = (q t).1.toOption

namespace Alike

variable {σ τ α β : Type} {f : σ → τ} {p q : Prog σ α} {s t s' t' : σ}

theorem of_ok {a : α} (hp : p s = (.ok a, s')) (hq : q t = (.ok a, t')) (h : f s' = f t') :
    Alike f p q s t := by
  simp [Alike, hp, hq, h]

theorem of_error {e e' : String} (hp : p s = (.error e, s')) (hq : q t = (.error e', t'))
    (h : f s' = f t') : Alike f p q s t := by
  simp [Alike, hp, hq, h, Except.toOption]

theorem of_steady (hp : Steady f p) (h : f s = f t) : Alike f p p s t := by
  rcases hp.cases h with ⟨a, s', t', hs, ht, heq⟩ | ⟨e, s', t', hs, ht, heq⟩
  · exact of_ok hs ht heq
  · exact of_error hs ht heq

/-- Either both return one value, or both throw. -/
theorem ways_out (h : Alike f p q s t) :
    (∃ a s' t', p s = (.ok a, s') ∧ q t = (.ok a, t') ∧ f s' = f t') ∨
      ∃ e e' s' t', p s = (.error e, s') ∧ q t = (.error e', t') ∧ f s' = f t' := by
  obtain ⟨hstate, hvalue⟩ := h
  cases hp : p s with
  | mk r s' =>
  cases hq : q t with
  | mk r' t' =>
  rw [hp, hq] at hstate hvalue
  cases r with
  | ok a =>
    cases r' with
    | ok b =>
      obtain rfl : a = b := Option.some.inj hvalue
      exact .inl ⟨a, s', t', rfl, rfl, hstate⟩
    | error e => cases hvalue
  | error e =>
    cases r' with
    | ok b => cases hvalue
    | error e' => exact .inr ⟨e, e', s', t', rfl, rfl, hstate⟩

theorem bind {k l : α → Prog σ β} (h : Alike f p q s t)
    (hrest : ∀ a s' t', p s = (.ok a, s') → q t = (.ok a, t') → f s' = f t' →
      Alike f (k a) (l a) s' t') : Alike f (p >>= k) (q >>= l) s t := by
  rcases h.ways_out with ⟨a, s', t', hp, hq, heq⟩ | ⟨e, e', s', t', hp, hq, heq⟩
  · have hboth := hrest a s' t' hp hq heq
    rwa [Alike, Prog.bind_ok hp, Prog.bind_ok hq]
  · exact of_error (Prog.bind_error hp) (Prog.bind_error hq) heq

theorem tryFinally (h : Alike f p q s t) {k : Prog σ Unit} (hk : Steady f k) :
    Alike f (Prog.tryFinally p k) (Prog.tryFinally q k) s t := by
  rcases h.ways_out with ⟨a, s', t', hp, hq, heq⟩ | ⟨e, e', s', t', hp, hq, heq⟩
  · rcases hk.cases heq with ⟨_, s₂, t₂, hs, ht, hend⟩ | ⟨u, s₂, t₂, hs, ht, hend⟩
    · exact of_ok (Prog.tryFinally_ok hp hs) (Prog.tryFinally_ok hq ht) hend
    · exact of_error (Prog.tryFinally_error hp hs) (Prog.tryFinally_error hq ht) hend
  · rcases hk.cases heq with ⟨_, s₂, t₂, hs, ht, hend⟩ | ⟨u, s₂, t₂, hs, ht, hend⟩
    · exact of_error (Prog.tryFinally_ok hp hs) (Prog.tryFinally_ok hq ht) hend
    · exact of_error (Prog.tryFinally_error hp hs) (Prog.tryFinally_error hq ht) hend

end Alike

/-! ## Programs over a log -/

/-- Whatever the log before it, `p` only appends to it, and `R` holds of its
way out and the entries it appended. -/
def Logs {ε α : Type} (R : Except String α → List ε → Prop) (p : Prog (List ε) α) : Prop :=
  ∀ l, ∃ es, (p l).2 = l ++ es ∧ R (p l).1 es

namespace Logs

variable {ε α β : Type} {R R' : Except String α → List ε → Prop}
  {T : Except String β → List ε → Prop}

theorem mono {p : Prog (List ε) α} (h : Logs R p) (himp : ∀ r es, R r es → R' r es) :
    Logs R' p := by
  intro l
  obtain ⟨es, hes, hr⟩ := h l
  exact ⟨es, hes, himp _ _ hr⟩

theorem and {p : Prog (List ε) α} (h : Logs R p) (h' : Logs R' p) :
    Logs (fun r es => R r es ∧ R' r es) p := by
  intro l
  obtain ⟨es, hes, hr⟩ := h l
  obtain ⟨es', hes', hr'⟩ := h' l
  have heq : es' = es := List.append_cancel_left (hes'.symm.trans hes)
  subst heq
  exact ⟨es', hes, hr, hr'⟩

theorem pure {a : α} (h : R (.ok a) []) : Logs R (Pure.pure a) :=
  fun l => ⟨[], (List.append_nil l).symm, h⟩

theorem throw {e : String} (h : R (.error e) []) : Logs R (Prog.throw e) :=
  fun l => ⟨[], (List.append_nil l).symm, h⟩

theorem ofExcept {r : Except String α} (h : R r []) : Logs R (Prog.ofExcept r) :=
  fun l => ⟨[], (List.append_nil l).symm, h⟩

theorem append {R : Except String Unit → List ε → Prop} {e : ε} (h : R (.ok ()) [e]) :
    Logs R (Prog.modify (· ++ [e])) :=
  fun _ => ⟨[e], rfl, h⟩

theorem get {R : Except String (List ε) → List ε → Prop} (h : ∀ l, R (.ok l) []) :
    Logs R Prog.get :=
  fun l => ⟨[], (List.append_nil l).symm, h l⟩

/-- Sequencing: `f` is judged after each way `p` can return. -/
theorem bind {p : Prog (List ε) α} {f : α → Prog (List ε) β} (hp : Logs R p)
    (herr : ∀ e es, R (.error e) es → T (.error e) es)
    (hok : ∀ a es, R (.ok a) es → Logs (fun r fs => T r (es ++ fs)) (f a)) :
    Logs T (p >>= f) := by
  intro l
  obtain ⟨es, hes, hr⟩ := hp l
  cases hrun : p l with
  | mk r t =>
    rw [hrun] at hes hr
    cases r with
    | error e =>
      rw [Prog.bind_error hrun]
      exact ⟨es, hes, herr e es hr⟩
    | ok a =>
      rw [Prog.bind_ok hrun]
      obtain ⟨fs, hfs, ht⟩ := hok a es hr t
      refine ⟨es ++ fs, ?_, ht⟩
      rw [hfs, ← List.append_assoc]
      exact congrArg (· ++ fs) hes

theorem tryCatch {p : Prog (List ε) α} {h : String → Prog (List ε) α} (hp : Logs R p)
    (hok : ∀ a es, R (.ok a) es → R' (.ok a) es)
    (herr : ∀ e es, R (.error e) es → Logs (fun r fs => R' r (es ++ fs)) (h e)) :
    Logs R' (Prog.tryCatch p h) := by
  intro l
  obtain ⟨es, hes, hr⟩ := hp l
  cases hrun : p l with
  | mk r t =>
    rw [hrun] at hes hr
    cases r with
    | ok a =>
      rw [Prog.tryCatch_ok hrun]
      exact ⟨es, hes, hok a es hr⟩
    | error e =>
      rw [Prog.tryCatch_error hrun]
      obtain ⟨fs, hfs, ht⟩ := herr e es hr t
      refine ⟨es ++ fs, ?_, ht⟩
      rw [hfs, ← List.append_assoc]
      exact congrArg (· ++ fs) hes

theorem tryFinally {p : Prog (List ε) α} {f : Prog (List ε) Unit}
    {S : Except String Unit → List ε → Prop} (hp : Logs R p) (hf : Logs S f)
    (hok : ∀ r es fs, R r es → S (.ok ()) fs → R' r (es ++ fs))
    (herr : ∀ r es e fs, R r es → S (.error e) fs → R' (.error e) (es ++ fs)) :
    Logs R' (Prog.tryFinally p f) := by
  intro l
  obtain ⟨es, hes, hr⟩ := hp l
  obtain ⟨fs, hfs, hs⟩ := hf (p l).2
  refine ⟨es ++ fs, ?_⟩
  have hlog : (f (p l).2).2 = l ++ (es ++ fs) := by
    rw [hfs, hes, List.append_assoc]
  simp only [Prog.tryFinally]
  cases hrun : f (p l).2 with
  | mk u t =>
    rw [hrun] at hlog hs
    cases u with
    | ok _ => exact ⟨hlog, hok _ es fs hr hs⟩
    | error e => exact ⟨hlog, herr _ es e fs hr hs⟩

end Logs

/-- Every entry that `p` appends satisfies `P`. -/
def Emits {ε α : Type} (P : ε → Prop) (p : Prog (List ε) α) : Prop :=
  Logs (fun _ es => ∀ e ∈ es, P e) p

namespace Emits

variable {ε α β : Type} {P : ε → Prop}

theorem pure (a : α) : Emits P (Pure.pure a) := Logs.pure (by simp)

theorem throw (e : String) : Emits P (Prog.throw e : Prog (List ε) α) := Logs.throw (by simp)

theorem ofExcept (r : Except String α) : Emits P (Prog.ofExcept r) := Logs.ofExcept (by simp)

theorem append {e : ε} (h : P e) : Emits P (Prog.modify (· ++ [e])) :=
  Logs.append (by simpa using h)

theorem bind {p : Prog (List ε) α} {f : α → Prog (List ε) β} (hp : Emits P p)
    (hf : ∀ a, Emits P (f a)) : Emits P (p >>= f) := by
  apply Logs.bind hp (fun _ _ h => h)
  intro a es hes
  apply (hf a).mono
  intro r fs hfs e he
  rcases List.mem_append.mp he with he | he
  · exact hes e he
  · exact hfs e he

theorem tryCatch {p : Prog (List ε) α} {h : String → Prog (List ε) α} (hp : Emits P p)
    (hh : ∀ e, Emits P (h e)) : Emits P (Prog.tryCatch p h) := by
  apply Logs.tryCatch hp (fun _ _ h => h)
  intro err es hes
  apply (hh err).mono
  intro r fs hfs e he
  rcases List.mem_append.mp he with he | he
  · exact hes e he
  · exact hfs e he

theorem tryFinally {p : Prog (List ε) α} {f : Prog (List ε) Unit} (hp : Emits P p)
    (hf : Emits P f) : Emits P (Prog.tryFinally p f) := by
  have happend : ∀ es fs : List ε, (∀ e ∈ es, P e) → (∀ e ∈ fs, P e) → ∀ e ∈ es ++ fs, P e := by
    intro es fs hes hfs e he
    rcases List.mem_append.mp he with he | he
    · exact hes e he
    · exact hfs e he
  exact Logs.tryFinally hp hf (fun _ es fs h h' => happend es fs h h')
    (fun _ es _ fs h h' => happend es fs h h')

end Emits

end AutoQa.Base
