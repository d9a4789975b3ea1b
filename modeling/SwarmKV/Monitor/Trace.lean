import SwarmKV.Monitor.Termination

/-!
# Traces

A run leaves a trace: the actions that were answered, each with its thread, its answer and
the data it found. What a run has done so far, how often and in which order, is a statement
about its trace. The moves that answer nothing, a waiter that goes to sleep, leave no entry.
-/

namespace Monitor

variable {S : Sig} {ε : Type}

/-- What a thread can do next. -/
inductive Action (S : Sig) : Type where
  | op (o : S.Op)
  | lock (l : S.Lock)
  | unlock (l : S.Lock)
  | wait (w : S.Cond)
  | notify (v : S.Cv)

/-- The answer to an action. -/
@[reducible] def Action.Res : Action S → Type
  | op o => S.Res o
  | _ => Unit

/-- Whether a thread holds mutex `l` after an action, if `b` says so before it. -/
def Action.holding (l : S.Lock) (b : Bool) : Action S → Bool
  | lock l' => decide (l' = l) || b
  | unlock l' => !decide (l' = l) && b
  | _ => b

/-- An action that was answered. -/
structure Entry (M : Machine S) where
  thread : M.Thread
  action : Action S
  answer : action.Res
  /-- The data that the action found. -/
  data : M.Data

/-- The actions of a run so far, the latest one first. -/
abbrev Trace (M : Machine S) := List (Entry M)

/-- Thread `i` has performed operation `o`, with answer `r`. -/
def Trace.Did {M : Machine S} (tr : Trace M) (i : M.Thread) (o : S.Op) (r : S.Res o) : Prop :=
  ∃ d, ⟨i, .op o, r, d⟩ ∈ tr

/-- Thread `i` has taken mutex `l` and not given it back. -/
def Trace.holding {M : Machine S} : Trace M → M.Thread → S.Lock → Bool
  | [], _, _ => false
  | e :: tr, i, l =>
    if e.thread = i then e.action.holding l (holding tr i l) else holding tr i l

namespace Config

variable {M : Machine S} {c c₀ c₁ c' : Config M ε} {i : M.Thread}

/-- A step that answers an action of thread `e.thread`. -/
inductive Acts (c : Config M ε) : Entry M → Config M ε → Prop
  | op {i : M.Thread} {o : S.Op} {k : S.Res o → Prog S ε Unit} {x : M.Choice} {r : S.Res o}
    {d : M.Data} (ht : c.threads i = .run (.op o k)) (hx : M.exec i o x c.data = some (r, d)) :
    Acts c ⟨i, .op o, r, c.data⟩ ({ c with data := d }.setThread i (.run (k r)))
  | lock {i : M.Thread} {l : S.Lock} {k : Prog S ε Unit} (ht : c.threads i = .run (.lock l k))
    (hl : c.holder l = none) :
    Acts c ⟨i, .lock l, (), c.data⟩ ((c.setHolder l (some i)).setThread i (.run k))
  | unlock {i : M.Thread} {l : S.Lock} {k : Prog S ε Unit} (ht : c.threads i = .run (.unlock l k))
    (hl : c.holder l = some i) :
    Acts c ⟨i, .unlock l, (), c.data⟩ ((c.setHolder l none).setThread i (.run k))
  | wait {i : M.Thread} {w : S.Cond} {k : Prog S ε Unit} (ht : c.threads i = .run (.wait w k))
    (hl : c.holder (M.mutex w) = some i) (hw : M.holds w c.data = true) :
    Acts c ⟨i, .wait w, (), c.data⟩ (c.setThread i (.run k))
  | resume {i : M.Thread} {w : S.Cond} {k : Prog S ε Unit} (ht : c.threads i = .woken w k)
    (hl : c.holder (M.mutex w) = none) (hw : M.holds w c.data = true) :
    Acts c ⟨i, .wait w, (), c.data⟩ ((c.setHolder (M.mutex w) (some i)).setThread i (.run k))
  | notify {i : M.Thread} {v : S.Cv} {k : Prog S ε Unit} (ht : c.threads i = .run (.notify v k)) :
    Acts c ⟨i, .notify v, (), c.data⟩ ((c.wake v).setThread i (.run k))

/-- A step in which a waiter finds its condition false. -/
inductive Silent (c : Config M ε) : Config M ε → Prop
  | sleep {i : M.Thread} {w : S.Cond} {k : Prog S ε Unit} (ht : c.threads i = .run (.wait w k))
    (hl : c.holder (M.mutex w) = some i) (hw : M.holds w c.data = false) :
    Silent c ((c.setHolder (M.mutex w) none).setThread i (.asleep w k))
  | doze {i : M.Thread} {w : S.Cond} {k : Prog S ε Unit} (ht : c.threads i = .woken w k)
    (hl : c.holder (M.mutex w) = none) (hw : M.holds w c.data = false) :
    Silent c (c.setThread i (.asleep w k))

/-- Every step answers an action or is silent. -/
theorem step_iff : c.Step c' ↔ (∃ e, c.Acts e c') ∨ c.Silent c' := by
  constructor
  · rintro ⟨i, x, h⟩
    simp only [Config.step] at h
    split at h
    case h_1 => cases h
    case h_2 => cases h
    case h_3 o k ht =>
      split at h
      · rename_i r d hx
        obtain rfl := Option.some.inj h
        exact .inl ⟨_, .op ht hx⟩
      · cases h
    case h_4 l k ht =>
      split at h
      · obtain rfl := Option.some.inj h
        exact .inl ⟨_, .lock ht ‹_›⟩
      · cases h
    case h_5 l k ht =>
      split at h
      · obtain rfl := Option.some.inj h
        exact .inl ⟨_, .unlock ht ‹_›⟩
      · cases h
    case h_6 w k ht =>
      split at h
      · split at h
        · obtain rfl := Option.some.inj h
          exact .inl ⟨_, .wait ht ‹_› ‹_›⟩
        · obtain rfl := Option.some.inj h
          exact .inr (.sleep ht ‹_› (Bool.eq_false_iff.mpr ‹_›))
      · cases h
    case h_7 v k ht =>
      obtain rfl := Option.some.inj h
      exact .inl ⟨_, .notify ht⟩
    case h_8 => cases h
    case h_9 w k ht =>
      split at h
      · split at h
        · obtain rfl := Option.some.inj h
          exact .inl ⟨_, .resume ht ‹_› ‹_›⟩
        · obtain rfl := Option.some.inj h
          exact .inr (.doze ht ‹_› (Bool.eq_false_iff.mpr ‹_›))
      · cases h
  · obtain ⟨x₀⟩ := M.neChoice
    rintro (⟨e, h⟩ | h)
    · cases h with
      | @op i o k x r d ht hx => exact ⟨i, x, by simp [Config.step, ht, hx]⟩
      | @lock i l k ht hl => exact ⟨i, x₀, by simp [Config.step, ht, hl]⟩
      | @unlock i l k ht hl => exact ⟨i, x₀, by simp [Config.step, ht, hl]⟩
      | @wait i w k ht hl hw => exact ⟨i, x₀, by simp [Config.step, ht, hl, hw]⟩
      | @resume i w k ht hl hw => exact ⟨i, x₀, by simp [Config.step, ht, hl, hw]⟩
      | @notify i v k ht => exact ⟨i, x₀, by simp [Config.step, ht]⟩
    · cases h with
      | @sleep i w k ht hl hw => exact ⟨i, x₀, by simp [Config.step, ht, hl, hw]⟩
      | @doze i w k ht hl hw => exact ⟨i, x₀, by simp [Config.step, ht, hl, hw]⟩

/-- An entry records the data it found. -/
theorem Acts.data_eq {e : Entry M} (h : c.Acts e c') : e.data = c.data := by
  cases h <;> rfl

/-- A wait is answered when its condition holds. -/
theorem Acts.holds {e : Entry M} (h : c.Acts e c') {w : S.Cond} (hw : e.action = .wait w) :
    M.holds w c.data = true := by
  cases h with
  | wait ht hl hholds => cases hw; exact hholds
  | resume ht hl hholds => cases hw; exact hholds
  | _ => cases hw

/-- Only an operation changes the data. -/
theorem Acts.data {e : Entry M} (h : c.Acts e c') : c'.data = c.data ∨
    ∃ i o r x, e = ⟨i, .op o, r, c.data⟩ ∧ c.AtOp i o ∧ M.exec i o x c.data = some (r, c'.data) := by
  cases h with
  | @op i o k x r d ht hx => exact .inr ⟨i, o, r, x, rfl, ⟨k, ht⟩, hx⟩
  | _ => exact .inl rfl

theorem Silent.data (h : c.Silent c') : c'.data = c.data := by
  cases h <;> rfl

/-- A thread that does not act keeps its program. -/
theorem Acts.prog_other {e : Entry M} (h : c.Acts e c') {j : M.Thread} (hj : j ≠ e.thread) :
    (c'.threads j).prog = (c.threads j).prog := by
  cases h with
  | notify ht =>
    rw [setThread_other _ _ _ _ hj]
    simp only [wake]
    split
    · rename_i w k heq
      split <;> simp [heq, TState.prog]
    · rfl
  | _ => exact congrArg TState.prog (setThread_other _ _ _ _ hj)

/-- A silent step leaves all programs where they are. -/
theorem Silent.prog (h : c.Silent c') (j : M.Thread) :
    (c'.threads j).prog = (c.threads j).prog := by
  cases h with
  | @sleep i w k ht hl hw =>
    by_cases hj : j = i
    · subst hj
      simp [ht, TState.prog]
    · rw [setThread_other _ _ _ _ hj]
      rfl
  | @doze i w k ht hl hw =>
    by_cases hj : j = i
    · subst hj
      simp [ht, TState.prog]
    · rw [setThread_other _ _ _ _ hj]

/-- `c` is a state of a run from `c₀` that has left the trace `tr`. -/
inductive Run (c₀ : Config M ε) : Trace M → Config M ε → Prop
  | start : Run c₀ [] c₀
  | act {tr : Trace M} {c c' : Config M ε} {e : Entry M} (h : Run c₀ tr c) (he : c.Acts e c') :
    Run c₀ (e :: tr) c'
  | silent {tr : Trace M} {c c' : Config M ε} (h : Run c₀ tr c) (hs : c.Silent c') : Run c₀ tr c'

variable {tr : Trace M}

/-- The states of the runs are the reachable states. -/
theorem Run.reaches (h : c₀.Run tr c) : c₀.Reaches c := by
  induction h with
  | start => exact .refl
  | act _ he ih => exact ih.tail (step_iff.mpr (.inl ⟨_, he⟩))
  | silent _ hs ih => exact ih.tail (step_iff.mpr (.inr hs))

theorem Reaches.exists_run (h : c₀.Reaches c) : ∃ tr, c₀.Run tr c := by
  induction h with
  | refl => exact ⟨[], .start⟩
  | tail _ hs ih =>
    obtain ⟨tr, htr⟩ := ih
    obtain ⟨e, he⟩ | hs := step_iff.mp hs
    · exact ⟨e :: tr, htr.act he⟩
    · exact ⟨tr, htr.silent hs⟩

/-- A mutex that no condition is waited for under is in the hands of the thread that has taken it
    and not given it back. -/
theorem Run.holding_iff {l : S.Lock} (hl : ∀ w, M.mutex w ≠ l) (h₀ : c₀.holder l = none)
    (h : c₀.Run tr c) (i : M.Thread) : tr.holding i l = true ↔ c.holder l = some i := by
  induction h generalizing i with
  | start => simp [Trace.holding, h₀]
  | @act tr c c' e hrun he ih =>
    cases he with
    | @lock j l' k ht hfree =>
      by_cases hl' : l' = l
      · subst hl'
        have hnone : tr.holding i l' = false := by
          rw [← Bool.not_eq_true, ih, hfree]
          simp
        by_cases hi : j = i <;> simp [Trace.holding, Action.holding, hi, hnone]
      · simp [Trace.holding, Action.holding, hl', setHolder_other _ _ _ (Ne.symm hl'), ih]
    | @unlock j l' k ht hheld =>
      by_cases hl' : l' = l
      · subst hl'
        by_cases hi : j = i
        · simp [Trace.holding, Action.holding, hi]
        · simp [Trace.holding, hi, ih, hheld]
      · simp [Trace.holding, Action.holding, hl', setHolder_other _ _ _ (Ne.symm hl'), ih]
    | @resume j w k ht hfree hw =>
      simp [Trace.holding, Action.holding, setHolder_other _ _ _ (Ne.symm (hl w)), ih]
    | _ => simpa [Trace.holding, Action.holding] using ih i
  | silent hrun hs ih =>
    cases hs with
    | @sleep j w k ht hheld hw => simpa [setHolder_other _ _ _ (Ne.symm (hl w))] using ih i
    | doze => simpa using ih i

/-- A mutex has one holder. -/
theorem Run.holding_unique {l : S.Lock} (hl : ∀ w, M.mutex w ≠ l) (h₀ : c₀.holder l = none)
    (h : c₀.Run tr c) {i j : M.Thread} (hi : tr.holding i l = true) (hj : tr.holding j l = true) :
    i = j := by
  rw [h.holding_iff hl h₀] at hi hj
  exact Option.some.inj (hi.symm.trans hj)

/-- A run goes on with the steps that its last state can take. -/
theorem Run.exists_tail (h : c₀.Run tr c) (hr : c.Reaches c') :
    ∃ tr', c₀.Run (tr' ++ tr) c' := by
  induction hr with
  | refl => exact ⟨[], h⟩
  | tail _ hs ih =>
    obtain ⟨tr', htr⟩ := ih
    obtain ⟨e, he⟩ | hs := step_iff.mp hs
    · exact ⟨e :: tr', htr.act he⟩
    · exact ⟨tr', htr.silent hs⟩

/-- What an action found were the data of an earlier state of the run. -/
theorem Run.earlier (h : c₀.Run tr c) {e : Entry M} {later earlier : Trace M}
    (htr : tr = later ++ e :: earlier) :
    ∃ c₁ c₂, c₀.Run earlier c₁ ∧ c₁.Acts e c₂ ∧ c₂.Reaches c := by
  induction h generalizing later with
  | start => simp at htr
  | @act tr c c' e' hrun he ih =>
    have hlast : c.Step c' := step_iff.mpr (.inl ⟨e', he⟩)
    cases later with
    | nil =>
      obtain ⟨rfl, rfl⟩ := List.cons.inj htr
      exact ⟨c, c', hrun, he, .refl⟩
    | cons e'' later =>
      obtain ⟨-, htr⟩ := List.cons.inj htr
      obtain ⟨c₁, c₂, h₁, h₂, h₃⟩ := ih htr
      exact ⟨c₁, c₂, h₁, h₂, h₃.tail hlast⟩
  | silent hrun hs ih =>
    obtain ⟨c₁, c₂, h₁, h₂, h₃⟩ := ih htr
    exact ⟨c₁, c₂, h₁, h₂, h₃.tail (step_iff.mpr (.inr hs))⟩

/-! ## Schedules -/

/-- The entry that a step of thread `i` leaves. -/
def entry (c : Config M ε) (i : M.Thread) (x : M.Choice) : Option (Entry M) :=
  match c.threads i with
  | .run (.op o _) => (M.exec i o x c.data).map fun r => ⟨i, .op o, r.1, c.data⟩
  | .run (.lock l _) => if c.holder l = none then some ⟨i, .lock l, (), c.data⟩ else none
  | .run (.unlock l _) => if c.holder l = some i then some ⟨i, .unlock l, (), c.data⟩ else none
  | .run (.wait w _) =>
    if c.holder (M.mutex w) = some i ∧ M.holds w c.data then some ⟨i, .wait w, (), c.data⟩ else none
  | .run (.notify v _) => some ⟨i, .notify v, (), c.data⟩
  | .woken w _ =>
    if c.holder (M.mutex w) = none ∧ M.holds w c.data then some ⟨i, .wait w, (), c.data⟩ else none
  | _ => none

/-- A step answers its entry, or is silent. -/
theorem step_entry {x : M.Choice} (h : c.step i x = some c') :
    (∃ e, c.entry i x = some e ∧ c.Acts e c') ∨ c.entry i x = none ∧ c.Silent c' := by
  simp only [Config.step] at h
  split at h
  case h_1 => cases h
  case h_2 => cases h
  case h_3 o k ht =>
    split at h
    · rename_i r d hx
      obtain rfl := Option.some.inj h
      exact .inl ⟨⟨i, .op o, r, c.data⟩, by simp [entry, ht, hx], .op ht hx⟩
    · cases h
  case h_4 l k ht =>
    split at h
    · obtain rfl := Option.some.inj h
      exact .inl ⟨_, by simp [entry, *], .lock ht ‹_›⟩
    · cases h
  case h_5 l k ht =>
    split at h
    · obtain rfl := Option.some.inj h
      exact .inl ⟨_, by simp [entry, *], .unlock ht ‹_›⟩
    · cases h
  case h_6 w k ht =>
    split at h
    · split at h
      · obtain rfl := Option.some.inj h
        exact .inl ⟨_, by simp [entry, *], .wait ht ‹_› ‹_›⟩
      · obtain rfl := Option.some.inj h
        exact .inr ⟨by simp [entry, *], .sleep ht ‹_› (Bool.eq_false_iff.mpr ‹_›)⟩
    · cases h
  case h_7 v k ht =>
    obtain rfl := Option.some.inj h
    exact .inl ⟨_, by simp [entry, ht], .notify ht⟩
  case h_8 => cases h
  case h_9 w k ht =>
    split at h
    · split at h
      · obtain rfl := Option.some.inj h
        exact .inl ⟨_, by simp [entry, *], .resume ht ‹_› ‹_›⟩
      · obtain rfl := Option.some.inj h
        exact .inr ⟨by simp [entry, *], .doze ht ‹_› (Bool.eq_false_iff.mpr ‹_›)⟩
    · cases h

/-- The trace that a schedule leaves, as far as its steps are possible. -/
def traceAfter (c : Config M ε) (tr : Trace M) : List (M.Thread × M.Choice) → Trace M
  | [] => tr
  | (i, x) :: s =>
    match c.step i x with
    | some c' => c'.traceAfter ((c.entry i x).toList ++ tr) s
    | none => tr

/-- A schedule that runs to its end leaves its trace. -/
theorem Run.of_schedule {s : List (M.Thread × M.Choice)} (h : c₀.Run tr c)
    (hs : c.run s = some c') : c₀.Run (c.traceAfter tr s) c' := by
  induction s generalizing c tr with
  | nil => cases hs; exact h
  | cons a s ih =>
    simp only [run] at hs
    split at hs
    · rename_i c₁ hc₁
      simp only [traceAfter, hc₁]
      refine ih ?_ hs
      obtain ⟨e, he, hacts⟩ | ⟨he, hsilent⟩ := step_entry hc₁
      · rw [he]
        exact h.act hacts
      · rw [he]
        exact h.silent hsilent
    · cases hs

theorem run_after {s : List (M.Thread × M.Choice)} (h : (c.run s).isSome) :
    c.Run (c.traceAfter [] s) (c.after s) := by
  obtain ⟨c', hc'⟩ := Option.isSome_iff_exists.mp h
  rw [after, hc']
  exact .of_schedule .start hc'

end Config

end Monitor
