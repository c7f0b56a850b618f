import AutoQa.Base.Prog

/-!
# Processes that wait for replies

An `async` function as a tree: it is done, or it waits at an `await` for the
reply to an operation, which may be an exception. One text then has two
readings. `run` answers every operation at once through a handler and gives the
program's effect as a whole; a system of several processes answers one
operation at a time, in any order.
-/

namespace AutoQa.Base

/-- `O ρ` are the operations with a reply of type `ρ`. -/
inductive Proc (O : Type → Type) (α : Type) : Type 1 where
  | done (r : Except String α)
  | step {ρ : Type} (o : O ρ) (k : Except String ρ → Proc O α)

namespace Proc

variable {O : Type → Type} {α β ρ σ : Type}

def bind : Proc O α → (α → Proc O β) → Proc O β
  | .done (.ok a), f => f a
  | .done (.error e), _ => .done (.error e)
  | .step o k, f => .step o fun r => (k r).bind f

instance : Monad (Proc O) where
  pure a := .done (.ok a)
  bind := bind

/-- `await o`. -/
def call (o : O ρ) : Proc O ρ := .step o .done

def throw (message : String) : Proc O α := .done (.error message)

/-- Run `p` and hand its way out on as a value. -/
def attempt : Proc O α → Proc O (Except String α)
  | .done r => .done (.ok r)
  | .step o k => .step o fun r => (k r).attempt

/-- `try { p } catch (err) { h(err.message) }`. -/
def tryCatch (p : Proc O α) (h : String → Proc O α) : Proc O α :=
  p.attempt.bind fun
    | .ok a => .done (.ok a)
    | .error e => h e

/-- A process of one kind of operations as a part of another. -/
def lift {Q : Type → Type} (f : {ρ : Type} → O ρ → Q ρ) : Proc O α → Proc Q α
  | .done r => .done r
  | .step o k => .step (f o) fun r => (k r).lift f

def isDone : Proc O α → Bool
  | .done _ => true
  | .step _ _ => false

theorem isDone_iff (p : Proc O α) : p.isDone = true ↔ ∃ r, p = .done r := by
  cases p with
  | done r => exact ⟨fun _ => ⟨r, rfl⟩, fun _ => rfl⟩
  | step o k => exact ⟨nofun, nofun⟩

/-- Answer every operation through `handle`. -/
def run (handle : {ρ : Type} → O ρ → Prog σ ρ) : Proc O α → Prog σ α
  | .done r => Prog.ofExcept r
  | .step o k => fun s => (k (handle o s).1).run handle (handle o s).2

section Run

variable (handle : {ρ : Type} → O ρ → Prog σ ρ)

@[simp] theorem run_pure (a : α) : (pure a : Proc O α).run handle = pure a := rfl

@[simp] theorem run_throw (e : String) : (throw e : Proc O α).run handle = Prog.throw e := rfl

@[simp] theorem run_call (o : O ρ) : (call o : Proc O ρ).run handle = handle o := rfl

@[simp] theorem run_bind (p : Proc O α) (f : α → Proc O β) :
    (p >>= f).run handle = p.run handle >>= fun a => (f a).run handle := by
  funext s
  show (p.bind f).run handle s = _
  induction p generalizing s with
  | done r => cases r <;> rfl
  | step o k ih => exact ih (handle o s).1 (handle o s).2

@[simp] theorem run_attempt (p : Proc O α) :
    p.attempt.run handle = Prog.attempt (p.run handle) := by
  funext s
  induction p generalizing s with
  | done r => rfl
  | step o k ih => exact ih (handle o s).1 (handle o s).2

@[simp] theorem run_tryCatch (p : Proc O α) (h : String → Proc O α) :
    (p.tryCatch h).run handle = Prog.tryCatch (p.run handle) fun e => (h e).run handle := by
  funext s
  have hbind := congrFun (run_bind handle p.attempt fun
    | .ok a => .done (.ok a)
    | .error e => h e) s
  apply hbind.trans
  rw [run_attempt, Prog.bind_apply]
  simp only [Prog.attempt, Prog.tryCatch]
  cases hp : p.run handle s with
  | mk r t => cases r <;> rfl

@[simp] theorem run_lift {Q : Type → Type} (f : {ρ : Type} → Q ρ → O ρ) (p : Proc Q α) :
    (p.lift f).run handle = p.run fun o => handle (f o) := by
  funext s
  induction p generalizing s with
  | done r => rfl
  | step o k ih => exact ih (handle (f o) s).1 (handle (f o) s).2

/-- A process whose operations see a part of the state sees that part itself. -/
theorem run_zoom {τ : Type} (get : σ → τ) (set : τ → σ → σ) (hget : ∀ a s, get (set a s) = a)
    (hset : ∀ s, set (get s) s = s) (htwice : ∀ a b s, set a (set b s) = set a s)
    (inner : {ρ : Type} → O ρ → Prog τ ρ) (p : Proc O α) :
    p.run (fun o => Prog.zoom get set (inner o)) = Prog.zoom get set (p.run inner) := by
  funext s
  induction p generalizing s with
  | done r => exact congrArg (Prod.mk r) (hset s).symm
  | step o k ih =>
    apply (ih _ _).trans
    simp only [Prog.zoom, hget, htwice]
    rfl

end Run

/-! ## What a run issues -/

section Issued

variable {ω : Type} (handle : {ρ : Type} → O ρ → Prog σ ρ) (log : {ρ : Type} → O ρ → List ω)

/-- What the operations of a run stand for, in order. -/
def issued : Proc O α → σ → List ω
  | .done _, _ => []
  | .step o k, s => log o ++ (k (handle o s).1).issued (handle o s).2

@[simp] theorem issued_call (o : O ρ) (s : σ) : (call o).issued handle log s = log o :=
  List.append_nil _

theorem issued_bind (p : Proc O α) (f : α → Proc O β) (s : σ) :
    (p >>= f).issued handle log s = p.issued handle log s ++
      match p.run handle s with
      | (.ok a, t) => (f a).issued handle log t
      | (.error _, _) => [] := by
  show (p.bind f).issued handle log s = _
  induction p generalizing s with
  | done r => cases r <;> rfl
  | step o k ih =>
    rw [bind, issued, ih, issued, List.append_assoc]
    rfl

@[simp] theorem issued_attempt (p : Proc O α) (s : σ) :
    p.attempt.issued handle log s = p.issued handle log s := by
  induction p generalizing s with
  | done r => rfl
  | step o k ih => exact congrArg (log o ++ ·) (ih _ _)

@[simp] theorem issued_lift {Q : Type → Type} (f : {ρ : Type} → Q ρ → O ρ) (p : Proc Q α) (s : σ) :
    (p.lift f).issued handle log s = p.issued (fun o => handle (f o)) (fun o => log (f o)) s := by
  induction p generalizing s with
  | done r => rfl
  | step o k ih => exact congrArg (log (f o) ++ ·) (ih _ _)

/-- What holds of everything a sequence issues holds of both parts. -/
theorem forall_issued_bind {R : ω → Prop} (p : Proc O α) (f : α → Proc O β) (s : σ) :
    (∀ w ∈ (p >>= f).issued handle log s, R w) ↔ (∀ w ∈ p.issued handle log s, R w) ∧
      ∀ a t, p.run handle s = (.ok a, t) → ∀ w ∈ (f a).issued handle log t, R w := by
  rw [issued_bind, List.forall_mem_append]
  cases hrun : p.run handle s with
  | mk r t => cases r <;> simp

end Issued

/-! ## The operations of a process -/

/-- Every operation that `p` can come to satisfies `P`, whatever the replies. -/
def Only (P : {ρ : Type} → O ρ → Prop) : Proc O α → Prop
  | .done _ => True
  | .step o k => P o ∧ ∀ r, (k r).Only P

namespace Only

variable {P Q : {ρ : Type} → O ρ → Prop}

theorem mono {p : Proc O α} (hp : p.Only P) (himp : ∀ {ρ : Type} (o : O ρ), P o → Q o) :
    p.Only Q := by
  induction p with
  | done r => trivial
  | step o k ih => exact ⟨himp o hp.1, fun r => ih r (hp.2 r)⟩

theorem all (p : Proc O α) (h : ∀ {ρ : Type} (o : O ρ), P o) : p.Only P := by
  induction p with
  | done r => trivial
  | step o k ih => exact ⟨h o, fun r => ih r⟩

theorem pure (a : α) : (Pure.pure a : Proc O α).Only P := trivial

theorem throw (e : String) : (Proc.throw e : Proc O α).Only P := trivial

theorem call {o : O ρ} (h : P o) : (Proc.call o).Only P := ⟨h, fun _ => trivial⟩

theorem bind {p : Proc O α} {f : α → Proc O β} (hp : p.Only P) (hf : ∀ a, (f a).Only P) :
    (p >>= f).Only P := by
  show (p.bind f).Only P
  induction p with
  | done r =>
    cases r with
    | ok a => exact hf a
    | error e => trivial
  | step o k ih => exact ⟨hp.1, fun r => ih r (hp.2 r)⟩

theorem attempt {p : Proc O α} (hp : p.Only P) : p.attempt.Only P := by
  induction p with
  | done r => trivial
  | step o k ih => exact ⟨hp.1, fun r => ih r (hp.2 r)⟩

theorem tryCatch {p : Proc O α} {h : String → Proc O α} (hp : p.Only P)
    (hh : ∀ e, (h e).Only P) : (p.tryCatch h).Only P := by
  apply bind (attempt hp)
  rintro (e | a)
  · exact hh e
  · trivial

theorem lift {Q : Type → Type} {f : {ρ : Type} → Q ρ → O ρ} {p : Proc Q α}
    (hp : p.Only fun o => P (f o)) : (p.lift f).Only P := by
  induction p with
  | done r => trivial
  | step o k ih => exact ⟨hp.1, fun r => ih r (hp.2 r)⟩

/-- A transition that every operation makes, repeated, is what the process makes. -/
theorem rel {T : σ → σ → Prop} {handle : {ρ : Type} → O ρ → Prog σ ρ} {p : Proc O α}
    (hp : p.Only P) (hrefl : ∀ s, T s s) (htrans : ∀ {s t u}, T s t → T t u → T s u)
    (hop : ∀ {ρ : Type} (o : O ρ), P o → ∀ s, T s (handle o s).2) (s : σ) :
    T s (p.run handle s).2 := by
  induction p generalizing s with
  | done r => exact hrefl s
  | step o k ih => exact htrans (hop o hp.1 s) (ih _ (hp.2 _) _)

/-- What every operation stands for, a run issues. -/
theorem issued {ω : Type} {R : ω → Prop} {handle : {ρ : Type} → O ρ → Prog σ ρ}
    {log : {ρ : Type} → O ρ → List ω} {p : Proc O α} (hp : p.Only P)
    (hlog : ∀ {ρ : Type} (o : O ρ), P o → ∀ w ∈ log o, R w) (s : σ) :
    ∀ w ∈ p.issued handle log s, R w := by
  induction p generalizing s with
  | done r => exact List.forall_mem_nil _
  | step o k ih => exact List.forall_mem_append.mpr ⟨hlog o hp.1, ih _ (hp.2 _) _⟩

/-- Operations that stand for nothing issue nothing. -/
theorem issued_nil {ω : Type} {handle : {ρ : Type} → O ρ → Prog σ ρ}
    {log : {ρ : Type} → O ρ → List ω} {p : Proc O α} (hp : p.Only fun o => log o = []) (s : σ) :
    p.issued handle log s = [] := by
  induction p generalizing s with
  | done r => rfl
  | step o k ih => exact List.append_eq_nil_iff.mpr ⟨hp.1, ih _ (hp.2 _) _⟩

theorem issued_bind_tail {ω : Type} {handle : {ρ : Type} → O ρ → Prog σ ρ}
    {log : {ρ : Type} → O ρ → List ω} (p : Proc O α) {f : α → Proc O β}
    (hf : ∀ a, (f a).Only fun o => log o = []) (s : σ) :
    (p >>= f).issued handle log s = p.issued handle log s := by
  rw [issued_bind]
  cases p.run handle s with
  | mk r t =>
  cases r with
  | error e => exact List.append_nil _
  | ok a =>
    dsimp only
    rw [issued_nil (hf a) t, List.append_nil]

/-- What every operation keeps, the process keeps. -/
theorem keeps {τ : Type} {f : σ → τ} {handle : {ρ : Type} → O ρ → Prog σ ρ} {p : Proc O α}
    (hp : p.Only P) (hkeep : ∀ {ρ : Type} (o : O ρ), P o → Keeps f (handle o)) :
    Keeps f (p.run handle) :=
  hp.rel (T := fun s s' => f s' = f s) (fun _ => rfl) (fun h h' => h'.trans h) hkeep

end Only

end Proc

end AutoQa.Base
