import Mathlib.Logic.Basic
import Mathlib.Tactic.TypeStar

/-!
# Coroutines that suspend at effects and locks

A coroutine is a finite tree. Each node is one suspension point: an effect whose
answer selects the continuation, or a lock to take or give back. Exceptions end a
coroutine unless `attempt` turns them into a value, which is how `withLock` gives
its lock back on every exit.
-/

namespace WorkerHarness.Coroutines

universe u

/-- A coroutine with effects `E`, locks `L`, exceptions `ε` and result `α`. -/
inductive Prog (E : Type → Type u) (L ε α : Type) : Type (max 1 u) where
  | ret (a : α)
  | raise (e : ε)
  | perform {β : Type} (e : E β) (k : β → Prog E L ε α)
  | acquire (l : L) (k : Prog E L ε α)
  | release (l : L) (k : Prog E L ε α)

namespace Prog

variable {E : Type → Type u} {L ε α β γ : Type}

/-- Sequencing grafts the continuation onto every normal leaf. -/
protected def bind : Prog E L ε α → (α → Prog E L ε β) → Prog E L ε β
  | .ret a, f => f a
  | .raise e, _ => .raise e
  | .perform e k, f => .perform e fun b => (k b).bind f
  | .acquire l k, f => .acquire l (k.bind f)
  | .release l k, f => .release l (k.bind f)

instance : Monad (Prog E L ε) where
  pure := .ret
  bind := Prog.bind

/-- Catch every exception of the coroutine as a value. -/
def attempt : Prog E L ε α → Prog E L ε (Except ε α)
  | .ret a => .ret (.ok a)
  | .raise e => .ret (.error e)
  | .perform e k => .perform e fun b => (k b).attempt
  | .acquire l k => .acquire l k.attempt
  | .release l k => .release l k.attempt

/-- Re-raise a caught exception. -/
def ofExcept : Except ε α → Prog E L ε α
  | .ok a => .ret a
  | .error e => .raise e

def call (e : E α) : Prog E L ε α := .perform e .ret

/-- `async with lock:` around a body; the lock is given back on every exit. -/
def withLock (l : L) (p : Prog E L ε α) : Prog E L ε α :=
  .acquire l (p.attempt.bind fun r => .release l (ofExcept r))

/-- `for a in as:` with a body that keeps no value. -/
def forEach (f : α → Prog E L ε Unit) : List α → Prog E L ε Unit
  | [] => .ret ()
  | a :: as => (f a).bind fun _ => forEach f as

@[simp] theorem pure_eq (a : α) : (pure a : Prog E L ε α) = .ret a := rfl

@[simp] theorem bind_eq (p : Prog E L ε α) (f : α → Prog E L ε β) : p >>= f = p.bind f := rfl

@[simp] theorem ret_bind (a : α) (f : α → Prog E L ε β) : (ret a).bind f = f a := rfl

@[simp] theorem raise_bind (e : ε) (f : α → Prog E L ε β) : (raise e).bind f = .raise e := rfl

@[simp] theorem call_bind (e : E α) (f : α → Prog E L ε β) : (call e).bind f = .perform e f := rfl

@[simp] theorem bind_ret (p : Prog E L ε α) : p.bind .ret = p := by
  induction p with
  | ret a => rfl
  | raise e => rfl
  | perform e k ih => simp [Prog.bind, ih]
  | acquire l k ih => simp [Prog.bind, ih]
  | release l k ih => simp [Prog.bind, ih]

theorem bind_assoc (p : Prog E L ε α) (f : α → Prog E L ε β) (g : β → Prog E L ε γ) :
    (p.bind f).bind g = p.bind fun a => (f a).bind g := by
  induction p with
  | ret a => rfl
  | raise e => rfl
  | perform e k ih => simp [Prog.bind, ih]
  | acquire l k ih => simp [Prog.bind, ih]
  | release l k ih => simp [Prog.bind, ih]

end Prog

end WorkerHarness.Coroutines
