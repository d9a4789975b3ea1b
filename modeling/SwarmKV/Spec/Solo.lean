import SwarmKV.Monitor.Alone
import SwarmKV.Native.ContextBudget
import SwarmKV.Spec.Effects
import SwarmKV.Spec.Prefix

/-!
# A thread of the pipeline on its own

What a single call does to the blackboard is a statement about a thread that is left alone. The
environment decides about memory, the clock and the calls of llama.cpp and ggml that can fail.
-/

namespace SwarmKV

open Monitor

/-- The environment decides how the operation ends. -/
def Op.asks : Op → Bool
  | allocate => true
  | steadyClock => true
  | llamaInitFromModel => true
  | llamaDecode _ _ => true
  | llamaStateSeqGetData _ _ _ _ => true
  | llamaStateSeqSetData _ _ _ _ => true
  | allocBuffer _ => true
  | _ => false

/-- Thread `i` on its own. -/
def solo (E : Engine) (i : Thread) : Alone (machine E) := ⟨i, Op.asks, .ok⟩

variable {E : Engine} {i : Thread} {o : Op} {x : Choice} {xs ys : List Choice} {w : World}

/-- Nobody decides about the other operations. -/
theorem exec_calm (ho : o.asks = false) : exec E i o x w = exec E i o .ok w := by
  cases o <;> first | rfl | cases ho

theorem choose_asks (ho : o.asks = true) : (solo E i).choose o xs = some (x, ys) ↔ xs = x :: ys := by
  cases xs with
  | nil => simp [Alone.choose, solo, ho]
  | cons y xs => simp [Alone.choose, solo, ho]

theorem choose_calm (ho : o.asks = false) :
    (solo E i).choose o xs = some (x, ys) ↔ .ok = x ∧ xs = ys := by
  cases xs <;> simp [Alone.choose, solo, ho]

/-! ## Rules -/

section Rules

variable {H : Finset Lock} {P : Alone.Assertion (machine E)} {X : Error → Alone.Assertion (machine E)}

/-- An operation that asks nobody. -/
theorem ends_calm {Q : o.Res → Alone.Assertion (machine E)} (ho : o.asks = false)
    (h : ∀ w xs r w', P w xs → exec E i o .ok w = some (r, w') → Q r w' xs) :
    (solo E i).Ends H P (perform o) Q X := by
  refine .op fun w xs x ys r w' hP hx hexec => ?_
  obtain ⟨rfl, rfl⟩ := (choose_calm ho).mp hx
  exact h w xs r w' hP hexec

/-- An operation whose outcome is the first decision. -/
theorem ends_asks {Q : o.Res → Alone.Assertion (machine E)} (ho : o.asks = true)
    (h : ∀ w x xs r w', P w (x :: xs) → exec E i o x w = some (r, w') → Q r w' xs) :
    (solo E i).Ends H P (perform o) Q X := by
  refine .op fun w xs x ys r w' hP hx hexec => ?_
  obtain rfl := (choose_asks ho).mp hx
  exact h w x ys r w' hP hexec

/-- Memory may run out. -/
theorem ends_alloc {Q : Alone.Assertion (machine E)}
    (hok : ∀ w x xs, P w (x :: xs) → x ≠ .fail → Q w xs)
    (hfail : ∀ w xs, P w (.fail :: xs) → X .badAlloc (w.record i .badAlloc) xs) :
    (solo E i).Ends H P alloc (fun _ => Q) X := by
  refine .bind (Q := fun b w xs => if b then Q w xs else X .badAlloc w xs) ?_ fun b => ?_
  · refine ends_asks rfl fun w x xs r w' hP hx => ?_
    cases x with
    | fail =>
      simp only [exec, Option.some.injEq, Prod.mk.injEq] at hx
      obtain ⟨rfl, rfl⟩ := hx
      exact hfail w xs hP
    | _ =>
      simp only [exec, Option.some.injEq, Prod.mk.injEq] at hx
      obtain ⟨rfl, rfl⟩ := hx
      exact hok w _ xs hP (by simp)
  · cases b with
    | true => exact .ret fun _ _ h => h
    | false => exact .throw fun _ _ h => h

end Rules

end SwarmKV
