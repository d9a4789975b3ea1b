import Mathlib.Data.Fintype.Basic

/-!
# Thread programs over mutexes and condition variables

A thread of a monitor-style program is a tree: at each node it performs one
atomic action and continues with the answer. Besides the actions of the
application (a signature `Op` with answers `Res`), the nodes are the usual
synchronisation primitives: locking and unlocking a mutex, waiting for a
condition on a condition variable, and waking everybody who waits on one.

The tree is inductive, so a program always comes to an end when it is left
alone; what interleaving can do to it is the subject of `Monitor.Semantics`.
-/

namespace Monitor

/-- The vocabulary of a family of thread programs: the application's atomic
    operations with the type of their answers, the mutexes, the condition
    variables, and the conditions a thread can wait for. -/
structure Sig where
  Op : Type
  Res : Op → Type
  Lock : Type
  Cv : Type
  Cond : Type
  [decLock : DecidableEq Lock]
  [finLock : Fintype Lock]
  [decCv : DecidableEq Cv]

attribute [instance] Sig.decLock Sig.finLock Sig.decCv

/-- A thread program with exceptions `ε` and results `α`. -/
inductive Prog (S : Sig) (ε α : Type) : Type where
  /-- Normal return. -/
  | ret (a : α)
  /-- An exception leaves the program. -/
  | throw (e : ε)
  /-- One atomic operation of the application. -/
  | op (o : S.Op) (k : S.Res o → Prog S ε α)
  /-- Take a mutex. -/
  | lock (l : S.Lock) (k : Prog S ε α)
  /-- Give a mutex back. -/
  | unlock (l : S.Lock) (k : Prog S ε α)
  /-- `cv.wait(lock, pred)`: the mutex is held before and after. -/
  | wait (w : S.Cond) (k : Prog S ε α)
  /-- `cv.notify_all()`. -/
  | notify (v : S.Cv) (k : Prog S ε α)

namespace Prog

variable {S : Sig} {ε α β γ : Type}

/-- Sequential composition. -/
def bind : Prog S ε α → (α → Prog S ε β) → Prog S ε β
  | ret a, f => f a
  | throw e, _ => throw e
  | op o k, f => op o fun r => (k r).bind f
  | lock l k, f => lock l (k.bind f)
  | unlock l k, f => unlock l (k.bind f)
  | wait w k, f => wait w (k.bind f)
  | notify v k, f => notify v (k.bind f)

theorem bind_assoc {δ : Type} (p : Prog S ε α) (f : α → Prog S ε β) (g : β → Prog S ε δ) :
    (p.bind f).bind g = p.bind fun a => (f a).bind g := by
  induction p with
  | ret a => rfl
  | throw e => rfl
  | op o k ih => exact congrArg (op o) (funext fun r => ih r)
  | lock l k ih => exact congrArg (lock l) ih
  | unlock l k ih => exact congrArg (unlock l) ih
  | wait w k ih => exact congrArg (wait w) ih
  | notify v k ih => exact congrArg (notify v) ih

/-- `try … catch`. -/
def tryCatch : Prog S ε α → (ε → Prog S ε α) → Prog S ε α
  | ret a, _ => ret a
  | throw e, h => h e
  | op o k, h => op o fun r => (k r).tryCatch h
  | lock l k, h => lock l (k.tryCatch h)
  | unlock l k, h => unlock l (k.tryCatch h)
  | wait w k, h => wait w (k.tryCatch h)
  | notify v k, h => notify v (k.tryCatch h)

instance : Monad (Prog S ε) where
  pure := ret
  bind := bind

instance : MonadExcept ε (Prog S ε) where
  throw := throw
  tryCatch := tryCatch

/-- Perform one operation and return its answer. -/
def perform (o : S.Op) : Prog S ε (S.Res o) := op o ret

/-- Wait for a condition; the caller holds the condition's mutex. -/
def await (w : S.Cond) : Prog S ε Unit := wait w (ret ())

/-- Wake every thread asleep on a condition variable. -/
def notifyAll (v : S.Cv) : Prog S ε Unit := notify v (ret ())

/-- Run `p` under mutex `l`, released on both exits as by a scoped guard. -/
def withLock (l : S.Lock) (p : Prog S ε α) : Prog S ε α :=
  lock l <| (p.tryCatch fun e => unlock l (throw e)).bind fun a => unlock l (ret a)

/-- Turn an exception into a value. -/
def attempt (p : Prog S ε α) : Prog S ε (Except ε α) :=
  (p.bind fun a => ret (Except.ok a)).tryCatch fun e => ret (Except.error e)

/-- Every wait in the program, with what follows it, is as `P` says. -/
def AllWaits (P : S.Cond → Prog S ε α → Prop) : Prog S ε α → Prop
  | ret _ | throw _ => True
  | op _ k => ∀ r, (k r).AllWaits P
  | lock _ k | unlock _ k | notify _ k => k.AllWaits P
  | wait w k => P w k ∧ k.AllWaits P

/-- A thread program is over when it has returned or thrown. -/
def finished : Prog S ε α → Bool
  | ret _ | throw _ => true
  | _ => false

end Prog

end Monitor
