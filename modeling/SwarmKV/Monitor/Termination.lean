import SwarmKV.Monitor.Semantics
import Mathlib.Logic.Hydra
import Mathlib.Algebra.BigOperators.Group.Finset.Basic

/-!
# Every run is finite

Programs are inductive trees, and an answered action descends into one of them.
The moves that do not (a waiter going to sleep, or looking at its condition in
vain) are paid for by the notification that woke it, which is an answered action
of another thread. So a machine in which all but finitely many threads have
ended comes to a halt under every schedule.
-/

namespace Monitor

variable {S : Sig} {ε : Type} {M : Machine S}

/-- `q` is what is left of `p` after its first action. -/
inductive Prog.Sub {α : Type} : Prog S ε α → Prog S ε α → Prop
  | op (o : S.Op) (k : S.Res o → Prog S ε α) (r : S.Res o) : Sub (k r) (.op o k)
  | lock (l : S.Lock) (k : Prog S ε α) : Sub k (.lock l k)
  | unlock (l : S.Lock) (k : Prog S ε α) : Sub k (.unlock l k)
  | wait (w : S.Cond) (k : Prog S ε α) : Sub k (.wait w k)
  | notify (v : S.Cv) (k : Prog S ε α) : Sub k (.notify v k)

theorem Prog.sub_wf {α : Type} : WellFounded (Prog.Sub (S := S) (ε := ε) (α := α)) := by
  refine ⟨fun p => ?_⟩
  induction p with
  | ret a => exact ⟨_, fun q h => by cases h⟩
  | throw e => exact ⟨_, fun q h => by cases h⟩
  | op o k ih => exact ⟨_, fun q h => by cases h; exact ih _⟩
  | lock l k ih => exact ⟨_, fun q h => by cases h; exact ih⟩
  | unlock l k ih => exact ⟨_, fun q h => by cases h; exact ih⟩
  | wait w k ih => exact ⟨_, fun q h => by cases h; exact ih⟩
  | notify v k ih => exact ⟨_, fun q h => by cases h; exact ih⟩

namespace TState

/-- What the thread has left to do; a waiter still has to wait. -/
def prog : TState S ε → Prog S ε Unit
  | run p => p
  | asleep w k => .wait w k
  | woken w k => .wait w k

/-- How many times the thread can move without getting on in its program. -/
def slack : TState S ε → Nat
  | run _ => 2
  | woken _ _ => 1
  | asleep _ _ => 0

end TState

namespace Config

variable {c c' : Config M ε} {T : Finset M.Thread}

/-- All threads outside `T` have ended. -/
def Within (c : Config M ε) (T : Finset M.Thread) : Prop :=
  ∀ i, i ∉ T → (c.threads i).finished

/-- The programs that the threads in `T` have left. -/
def work (T : Finset M.Thread) (c : Config M ε) : Multiset (Prog S ε Unit) :=
  T.val.map fun i => (c.threads i).prog

/-- The moves that the threads in `T` can make without getting on. -/
def slack (T : Finset M.Thread) (c : Config M ε) : Nat :=
  ∑ i ∈ T, (c.threads i).slack

/-- A step either gets its thread on in its program, or spends slack. -/
private theorem step_cases {i : M.Thread} {x : M.Choice} (h : c.step i x = some c') :
    (Prog.Sub (c'.threads i).prog (c.threads i).prog ∨
      (c'.threads i).prog = (c.threads i).prog ∧ (c'.threads i).slack < (c.threads i).slack ∧
        ∀ j, j ≠ i → (c'.threads j).slack = (c.threads j).slack) ∧
    ∀ j, j ≠ i → (c'.threads j).prog = (c.threads j).prog := by
  simp only [Config.step] at h
  split at h
  · cases h
  · cases h
  · rename_i o k ht
    split at h
    · obtain rfl := Option.some.inj h
      exact ⟨.inl (by simpa [ht] using .op o k _), fun j hj => by rw [setThread_other _ _ _ _ hj]⟩
    · cases h
  · rename_i l k ht
    split at h
    · obtain rfl := Option.some.inj h
      exact ⟨.inl (by simpa [ht] using .lock l k), fun j hj => by rw [setThread_other _ _ _ _ hj]; rfl⟩
    · cases h
  · rename_i l k ht
    split at h
    · obtain rfl := Option.some.inj h
      exact ⟨.inl (by simpa [ht] using .unlock l k),
        fun j hj => by rw [setThread_other _ _ _ _ hj]; rfl⟩
    · cases h
  · rename_i w k ht
    split at h
    · split at h
      · obtain rfl := Option.some.inj h
        exact ⟨.inl (by simpa [ht] using .wait w k), fun j hj => by rw [setThread_other _ _ _ _ hj]⟩
      · obtain rfl := Option.some.inj h
        refine ⟨.inr ⟨by simp [ht, TState.prog], by simp [ht, TState.slack], fun j hj => ?_⟩,
          fun j hj => ?_⟩ <;> rw [setThread_other _ _ _ _ hj] <;> rfl
    · cases h
  · rename_i v k ht
    obtain rfl := Option.some.inj h
    refine ⟨.inl (by simpa [ht] using .notify v k), fun j hj => ?_⟩
    rw [setThread_other _ _ _ _ hj]
    simp only [wake]
    split
    · rename_i heq
      split <;> simp [heq, TState.prog]
    · rfl
  · cases h
  · rename_i w k ht
    split at h
    · split at h
      · obtain rfl := Option.some.inj h
        exact ⟨.inl (by simpa [ht] using .wait w k),
          fun j hj => by rw [setThread_other _ _ _ _ hj]; rfl⟩
      · obtain rfl := Option.some.inj h
        refine ⟨.inr ⟨by simp [ht, TState.prog], by simp [ht, TState.slack], fun j hj => ?_⟩,
          fun j hj => ?_⟩ <;> rw [setThread_other _ _ _ _ hj]
    · cases h

private theorem mem_of_step {i : M.Thread} {x : M.Choice} (hT : c.Within T)
    (h : c.step i x = some c') : i ∈ T := by
  by_contra hi
  exact not_enabled_of_finished (hT i hi) ⟨x, by simp [h]⟩

private theorem work_eq_cons {i : M.Thread} (hi : i ∈ T) (c : Config M ε) :
    c.work T = (c.threads i).prog ::ₘ (T.erase i).val.map fun j => (c.threads j).prog := by
  rw [work, ← Multiset.map_cons (fun j => (c.threads j).prog), Finset.erase_val,
    Multiset.cons_erase hi]

private theorem work_rest {i : M.Thread} (h : ∀ j, j ≠ i → (c'.threads j).prog = (c.threads j).prog) :
    ((T.erase i).val.map fun j => (c'.threads j).prog) =
      (T.erase i).val.map fun j => (c.threads j).prog :=
  Multiset.map_congr rfl fun j hj => h j (Finset.ne_of_mem_erase hj)

/-- The order in which steps descend. -/
def Descends (T : Finset M.Thread) (c' c : Config M ε) : Prop :=
  Prod.Lex (Relation.CutExpand Prog.Sub) (· < ·) (c'.work T, c'.slack T) (c.work T, c.slack T)

theorem descends_wf (T : Finset M.Thread) : WellFounded (Descends (ε := ε) T) :=
  InvImage.wf (fun c : Config M ε => (c.work T, c.slack T))
    (WellFounded.prod_lex Prog.sub_wf.cutExpand Nat.lt_wfRel.wf)

/-- Every step descends. -/
theorem step_descends (hT : c.Within T) (h : c.Step c') : c'.Descends T c := by
  obtain ⟨i, x, h⟩ := h
  have hi := mem_of_step hT h
  obtain ⟨hown, hrest⟩ := step_cases h
  have hw := work_eq_cons hi c
  have hw' := work_eq_cons hi c'
  rw [work_rest hrest] at hw'
  rcases hown with hsub | ⟨hsame, hless, hothers⟩
  · refine Prod.Lex.left _ _ ?_
    rw [hw, hw', ← Multiset.singleton_add, ← Multiset.singleton_add]
    exact Relation.cutExpand_single_add hsub _
  · rw [Descends, hw, hw', hsame]
    refine Prod.Lex.right _ ?_
    refine Finset.sum_lt_sum (fun j _ => ?_) ⟨i, hi, hless⟩
    by_cases hj : j = i
    · exact hj ▸ hless.le
    · exact (hothers j hj).le

theorem Within.step (hT : c.Within T) (h : c.Step c') : c'.Within T := by
  obtain ⟨i, x, h⟩ := h
  intro j hj
  rw [threads_of_finished h (hT j hj)]
  exact hT j hj

/-- No machine with finitely many live threads runs forever. -/
theorem no_infinite_run (hT : c.Within T) :
    ¬ ∃ f : ℕ → Config M ε, f 0 = c ∧ ∀ n, (f n).Step (f (n + 1)) := by
  rintro ⟨f, rfl, hf⟩
  have hwithin : ∀ n, (f n).Within T := fun n => by
    induction n with
    | zero => exact hT
    | succ n ih => exact ih.step (hf n)
  have hchain := wellFounded_iff_isEmpty_descending_chain.mp (descends_wf (M := M) (ε := ε) T)
  exact hchain.elim ⟨f, fun n => step_descends (hwithin n) (hf n)⟩

/-- What some step keeps, as long as a thread can move, holds in some terminal state. -/
theorem exists_terminal_of {P : Config M ε → Prop} (hT : c.Within T) (hP : P c)
    (hstep : ∀ c, P c → ¬ c.Terminal → ∃ c', c.Step c' ∧ P c') : ∃ c', P c' ∧ c'.Terminal := by
  induction c using (descends_wf (M := M) (ε := ε) T).induction with
  | _ c ih =>
    by_cases hc : c.Terminal
    · exact ⟨c, hP, hc⟩
    · obtain ⟨c₁, hs, hP₁⟩ := hstep c hP hc
      exact ih c₁ (step_descends hT hs) (hT.step hs) hP₁

/-- Every state runs on to one in which no thread can move. -/
theorem exists_terminal (hT : c.Within T) : ∃ c', c.Reaches c' ∧ c'.Terminal := by
  refine exists_terminal_of hT .refl fun c₁ hr hc => ?_
  rw [terminal_iff] at hc
  push Not at hc
  obtain ⟨c₂, hs⟩ := hc
  exact ⟨c₂, hs, hr.tail hs⟩

end Config

end Monitor
