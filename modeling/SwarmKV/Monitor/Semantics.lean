import SwarmKV.Monitor.Program
import Mathlib.Logic.Relation

/-!
# Interleaving semantics

A machine runs one program per thread over shared data. Every step is taken by
one thread and is atomic; which thread moves, and how an operation with several
possible outcomes ends, is the schedule's choice.

Condition variables follow the standard library: a waiter whose condition does
not hold releases the mutex and sleeps, `notify_all` makes every sleeper on that
condition variable runnable again, and a woken waiter needs the mutex back
before it looks at its condition once more.
-/

namespace Monitor

/-- Shared data with the meaning of the operations and of the conditions. -/
structure Machine (S : Sig) where
  Thread : Type
  Data : Type
  /-- What the environment decides about an operation's outcome. -/
  Choice : Type
  /-- The operation's answer and the new data; `none` when the operation is
      blocked or the choice does not apply to it. -/
  exec : Thread → (o : S.Op) → Choice → Data → Option (S.Res o × Data)
  mutex : S.Cond → S.Lock
  cv : S.Cond → S.Cv
  holds : S.Cond → Data → Bool
  [decThread : DecidableEq Thread]
  [neChoice : Nonempty Choice]

attribute [instance] Machine.decThread Machine.neChoice

/-- Where a thread is: running, asleep on a condition, or woken and in need of
    the condition's mutex. The program of a waiter is what it does next. -/
inductive TState (S : Sig) (ε : Type) : Type where
  | run (p : Prog S ε Unit)
  | asleep (w : S.Cond) (k : Prog S ε Unit)
  | woken (w : S.Cond) (k : Prog S ε Unit)

/-- The thread's program has returned or thrown. -/
def TState.finished {S : Sig} {ε : Type} : TState S ε → Bool
  | run p => p.finished
  | _ => false

/-- An ended thread has returned or thrown. -/
theorem TState.eq_of_finished {S : Sig} {ε : Type} {t : TState S ε} (h : t.finished) :
    t = run (.ret ()) ∨ ∃ e, t = run (.throw e) := by
  cases t with
  | asleep w k => cases h
  | woken w k => cases h
  | run p =>
    cases p with
    | ret a => exact .inl rfl
    | throw e => exact .inr ⟨e, rfl⟩
    | _ => cases h

/-- Every wait ahead of the thread, and the one that it is in, is as `P` says. -/
def TState.AllWaits {S : Sig} {ε : Type} (P : S.Cond → Prog S ε Unit → Prop) :
    TState S ε → Prop
  | run p => p.AllWaits P
  | asleep w k | woken w k => P w k ∧ k.AllWaits P

/-- The operation the thread is about to perform. -/
def TState.nextOp {S : Sig} {ε : Type} : TState S ε → Option S.Op
  | run (.op o _) => some o
  | _ => none

/-- The condition the thread is asleep on. -/
def TState.sleepsOn {S : Sig} {ε : Type} : TState S ε → Option S.Cond
  | asleep w _ => some w
  | _ => none

/-- A whole machine state: the data, who holds which mutex, and the threads. -/
structure Config {S : Sig} (M : Machine S) (ε : Type) where
  data : M.Data
  holder : S.Lock → Option M.Thread
  threads : M.Thread → TState S ε

namespace Config

variable {S : Sig} {M : Machine S} {ε : Type}

/-- `c` with thread `i` in state `t`. -/
def setThread (c : Config M ε) (i : M.Thread) (t : TState S ε) : Config M ε :=
  { c with threads := Function.update c.threads i t }

/-- `c` with mutex `l` in the hands of `o`. -/
def setHolder (c : Config M ε) (l : S.Lock) (o : Option M.Thread) : Config M ε :=
  { c with holder := Function.update c.holder l o }

/-- `c` after `notify_all` on `v`. -/
def wake (c : Config M ε) (v : S.Cv) : Config M ε :=
  { c with threads := fun j => match c.threads j with
      | .asleep w k => if M.cv w = v then .woken w k else .asleep w k
      | t => t }

/-- One step of thread `i`, with outcome `x` where it has an outcome. -/
def step (c : Config M ε) (i : M.Thread) (x : M.Choice) : Option (Config M ε) :=
  match c.threads i with
  | .run (.ret _) => none
  | .run (.throw _) => none
  | .run (.op o k) =>
    match M.exec i o x c.data with
    | some (r, d) => some ({ c with data := d }.setThread i (.run (k r)))
    | none => none
  | .run (.lock l k) =>
    if c.holder l = none then some ((c.setHolder l (some i)).setThread i (.run k)) else none
  | .run (.unlock l k) =>
    if c.holder l = some i then some ((c.setHolder l none).setThread i (.run k)) else none
  | .run (.wait w k) =>
    if c.holder (M.mutex w) = some i then
      if M.holds w c.data then some (c.setThread i (.run k))
      else some ((c.setHolder (M.mutex w) none).setThread i (.asleep w k))
    else none
  | .run (.notify v k) => some ((c.wake v).setThread i (.run k))
  | .asleep _ _ => none
  | .woken w k =>
    if c.holder (M.mutex w) = none then
      if M.holds w c.data then
        some ((c.setHolder (M.mutex w) (some i)).setThread i (.run k))
      else some (c.setThread i (.asleep w k))
    else none

/-- Some thread takes `c` to `c'`. -/
def Step (c c' : Config M ε) : Prop := ∃ i x, c.step i x = some c'

/-- A sleeper wakes up without having been notified. -/
def Spurious (c c' : Config M ε) : Prop :=
  ∃ i w k, c.threads i = .asleep w k ∧ c' = c.setThread i (.woken w k)

/-- Thread `i` can move. -/
def Enabled (c : Config M ε) (i : M.Thread) : Prop := ∃ x, (c.step i x).isSome

/-- `c'` can be reached from `c`. -/
def Reaches (c c' : Config M ε) : Prop := Relation.ReflTransGen Step c c'

/-- No thread can move. -/
def Terminal (c : Config M ε) : Prop := ∀ i, ¬ c.Enabled i

/-- Thread `i` waits for condition `w`: it is about to look at it, asleep, or
    woken and about to look again. -/
def WaitsFor (c : Config M ε) (i : M.Thread) (w : S.Cond) : Prop :=
  ∃ k, c.threads i = .run (.wait w k) ∨ c.threads i = .asleep w k ∨ c.threads i = .woken w k

/-- Thread `i` is about to perform operation `o`. -/
def AtOp (c : Config M ε) (i : M.Thread) (o : S.Op) : Prop :=
  ∃ k, c.threads i = .run (.op o k)

/-- Run a schedule: a list of threads with the outcomes of their steps. -/
def run (c : Config M ε) : List (M.Thread × M.Choice) → Option (Config M ε)
  | [] => some c
  | (i, x) :: s => match c.step i x with
    | some c' => c'.run s
    | none => none

/-- The state after a schedule, or `c` itself if some step of it is not possible. -/
def after (c : Config M ε) (s : List (M.Thread × M.Choice)) : Config M ε := (c.run s).getD c

/-- A schedule that runs to its end gives a reachable state. -/
theorem run_reaches {c c' : Config M ε} {s : List (M.Thread × M.Choice)}
    (h : c.run s = some c') : c.Reaches c' := by
  induction s generalizing c with
  | nil => cases h; exact .refl
  | cons a s ih =>
    simp only [run] at h
    split at h
    · rename_i c₁ hc₁
      exact .head ⟨a.1, a.2, hc₁⟩ (ih h)
    · cases h

theorem reaches_after (c : Config M ε) (s : List (M.Thread × M.Choice)) :
    c.Reaches (c.after s) := by
  unfold after
  cases hs : c.run s with
  | none => exact .refl
  | some c' => exact run_reaches hs

/-- What holds at the start and survives every step holds of every reachable
    state. -/
theorem Reaches.invariant {P : Config M ε → Prop} {c c' : Config M ε} (h : c.Reaches c')
    (hstep : ∀ c₁ c₂, P c₁ → c₁.Step c₂ → P c₂) (hc : P c) : P c' := by
  induction h with
  | refl => exact hc
  | tail _ hs ih => exact hstep _ _ ih hs

theorem enabled_iff {c : Config M ε} {i : M.Thread} :
    c.Enabled i ↔ ∃ x c', c.step i x = some c' := by
  simp only [Enabled, Option.isSome_iff_exists]

/-- A state without successors is one in which no thread can move. -/
theorem terminal_iff {c : Config M ε} : c.Terminal ↔ ∀ c', ¬ c.Step c' := by
  constructor
  · rintro h c' ⟨i, x, hs⟩
    exact h i (enabled_iff.mpr ⟨x, c', hs⟩)
  · intro h i hi
    obtain ⟨x, c', hs⟩ := enabled_iff.mp hi
    exact h c' ⟨i, x, hs⟩

section Simp

variable (c : Config M ε) (i j : M.Thread) (t : TState S ε) (l : S.Lock) (o : Option M.Thread)
  (v : S.Cv)

@[simp] theorem setThread_data : (c.setThread i t).data = c.data := rfl
@[simp] theorem setThread_holder : (c.setThread i t).holder = c.holder := rfl
@[simp] theorem setThread_same : (c.setThread i t).threads i = t := by simp [setThread]
@[simp] theorem setHolder_data : (c.setHolder l o).data = c.data := rfl
@[simp] theorem setHolder_threads : (c.setHolder l o).threads = c.threads := rfl
@[simp] theorem setHolder_same : (c.setHolder l o).holder l = o := by simp [setHolder]
@[simp] theorem wake_data : (c.wake v).data = c.data := rfl
@[simp] theorem wake_holder : (c.wake v).holder = c.holder := rfl

theorem setThread_other (h : j ≠ i) : (c.setThread i t).threads j = c.threads j := by
  simp [setThread, h]

theorem setHolder_other {l' : S.Lock} (h : l' ≠ l) :
    (c.setHolder l o).holder l' = c.holder l' := by
  simp [setHolder, h]

end Simp

/-- A step of another thread leaves a thread where it is, or wakes it. -/
theorem step_other {c c' : Config M ε} {i j : M.Thread} {x : M.Choice}
    (h : c.step i x = some c') (hj : j ≠ i) :
    c'.threads j = c.threads j ∨
      ∃ w k, c.threads j = .asleep w k ∧ c'.threads j = .woken w k := by
  simp only [Config.step] at h
  split at h
  case h_7 =>
    obtain rfl := Option.some.inj h
    rw [setThread_other _ _ _ _ hj]
    simp only [wake]
    split
    · rename_i w k heq
      split
      · exact .inr ⟨w, k, heq, rfl⟩
      · exact .inl heq.symm
    · exact .inl rfl
  all_goals
    repeat' split at h
    all_goals first
      | (obtain rfl := Option.some.inj h
         exact .inl (by simp [setThread, setHolder, hj]))
      | exact absurd h (by simp)

/-- An ended thread does not move. -/
theorem not_enabled_of_finished {c : Config M ε} {i : M.Thread} (h : (c.threads i).finished) :
    ¬ c.Enabled i := by
  rintro ⟨x, hx⟩
  obtain ht | ⟨e, ht⟩ := TState.eq_of_finished h <;> simp [step, ht] at hx

/-- An ended thread stays where it is. -/
theorem threads_of_finished {c c' : Config M ε} {i j : M.Thread} {x : M.Choice}
    (h : c.step i x = some c') (hj : (c.threads j).finished) : c'.threads j = c.threads j := by
  by_cases hji : j = i
  · subst hji
    exact absurd ⟨x, by simp [h]⟩ (not_enabled_of_finished hj)
  · rcases step_other h hji with heq | ⟨w, k, hw, -⟩
    · exact heq
    · rw [hw] at hj
      cases hj

/-- A step changes the data only by an operation. -/
theorem Step.data {c c' : Config M ε} (h : c.Step c') : c'.data = c.data ∨
    ∃ i o x r, c.AtOp i o ∧ M.exec i o x c.data = some (r, c'.data) := by
  obtain ⟨i, x, h⟩ := h
  simp only [Config.step] at h
  split at h
  case h_3 o k ht =>
    split at h
    · rename_i r d hx
      obtain rfl := Option.some.inj h
      exact .inr ⟨i, o, x, r, ⟨k, ht⟩, hx⟩
    · cases h
  all_goals
    repeat' split at h
    all_goals first
      | (obtain rfl := Option.some.inj h
         exact .inl rfl)
      | cases h

/-- A step that takes a mutex or gives it back leaves the data alone. -/
theorem Step.holder {c c' : Config M ε} (h : c.Step c') (l : S.Lock) :
    c'.holder l = c.holder l ∨ c'.data = c.data ∧ (c.holder l = none ∨ c'.holder l = none) := by
  obtain ⟨i, x, h⟩ := h
  have hset : ∀ l' o t, c.holder l' = none ∨ o = none →
      ((c.setHolder l' o).setThread i t).holder l = c.holder l ∨ c.holder l = none ∨
        ((c.setHolder l' o).setThread i t).holder l = none := by
    intro l' o t ho
    by_cases hl : l = l'
    · subst hl
      exact .inr (ho.imp_right fun ho => by simp [ho])
    · exact .inl (by simp [setHolder_other, hl])
  simp only [Config.step] at h
  split at h
  all_goals
    repeat' split at h
    all_goals first
      | (obtain rfl := Option.some.inj h
         first
           | exact .inl rfl
           | exact (hset _ _ _ (.inl ‹_›)).imp_right fun ho => ⟨rfl, ho⟩
           | exact (hset _ _ _ (.inr rfl)).imp_right fun ho => ⟨rfl, ho⟩)
      | cases h

theorem atOp_iff {c : Config M ε} {i : M.Thread} {o : S.Op} :
    c.AtOp i o ↔ (c.threads i).nextOp = some o := by
  constructor
  · intro h
    obtain ⟨k, hk⟩ := h
    rw [hk]
    rfl
  · intro h
    unfold TState.nextOp at h
    split at h
    · rename_i o' k hk
      obtain rfl := Option.some.inj h
      exact ⟨k, hk⟩
    · cases h

/-- A sleeping thread waits and does not move. -/
theorem asleep_of_sleepsOn {c : Config M ε} {i : M.Thread} {w : S.Cond}
    (h : (c.threads i).sleepsOn = some w) : c.WaitsFor i w ∧ ¬ c.Enabled i := by
  unfold TState.sleepsOn at h
  split at h
  · rename_i w' k hk
    obtain rfl := Option.some.inj h
    refine ⟨⟨k, .inr (.inl hk)⟩, fun hi => ?_⟩
    obtain ⟨x, hx⟩ := hi
    simp [step, hk] at hx
  · cases h

/-- A thread does not move at an operation that no outcome lets through. -/
theorem not_enabled_of_nextOp {c : Config M ε} {i : M.Thread} {o : S.Op}
    (h : (c.threads i).nextOp = some o) (hx : ∀ x, M.exec i o x c.data = none) :
    ¬ c.Enabled i := by
  intro hi
  obtain ⟨k, hk⟩ := atOp_iff.mpr h
  obtain ⟨x, hs⟩ := hi
  simp [step, hk, hx] at hs

/-- A thread that has not ended runs, or waits. -/
theorem run_or_waits {c : Config M ε} {i : M.Thread} (h : (c.threads i).finished = false) :
    (∃ p, c.threads i = .run p ∧ p.finished = false) ∨ ∃ w, c.WaitsFor i w := by
  cases ht : c.threads i with
  | run p =>
    rw [ht] at h
    exact .inl ⟨p, rfl, h⟩
  | asleep w k => exact .inr ⟨w, k, .inr (.inl ht)⟩
  | woken w k => exact .inr ⟨w, k, .inr (.inr ht)⟩

/-- A thread waits for one condition at a time. -/
theorem WaitsFor.unique {c : Config M ε} {i : M.Thread} {w w' : S.Cond} (h : c.WaitsFor i w)
    (h' : c.WaitsFor i w') : w = w' := by
  obtain ⟨k, hk⟩ := h
  obtain ⟨k', hk'⟩ := h'
  obtain hk | hk | hk := hk <;> rw [hk] at hk' <;> simp at hk' <;> exact hk'.1

/-- A thread keeps waiting for a condition that does not hold. -/
theorem WaitsFor.step {c c' : Config M ε} {i : M.Thread} {w : S.Cond} (hi : c.WaitsFor i w)
    (hw : M.holds w c.data = false) (h : c.Step c') : c'.WaitsFor i w := by
  obtain ⟨j, x, h⟩ := h
  obtain ⟨k, hk⟩ := hi
  refine ⟨k, ?_⟩
  by_cases hij : i = j
  · -- its own step sends it to sleep
    subst hij
    obtain hk | hk | hk := hk
    · simp only [Config.step, hk, hw, Bool.false_eq_true, if_false] at h
      split at h
      · obtain rfl := Option.some.inj h
        exact .inr (.inl (setThread_same _ _ _))
      · cases h
    · simp [Config.step, hk] at h
    · simp only [Config.step, hk, hw, Bool.false_eq_true, if_false] at h
      split at h
      · obtain rfl := Option.some.inj h
        exact .inr (.inl (setThread_same _ _ _))
      · cases h
  · obtain heq | ⟨w', k', hold, hnew⟩ := step_other h hij
    · rwa [heq]
    · rw [hold] at hk
      obtain hk | hk | hk := hk
      · cases hk
      · cases hk
        exact .inr (.inr hnew)
      · cases hk

section AllWaits

variable {P : S.Cond → Prog S ε Unit → Prop} {c c' : Config M ε} {i : M.Thread}

end AllWaits

end Config

end Monitor
