import SwarmKV.Monitor.Logic

/-!
# Adequacy of proof outlines

`Outline.Holds` says of a whole machine state that the invariants hold, that
every thread satisfies the weakest precondition of its remaining program, and
that no sleeper has been forgotten: unless a notification was dropped, a thread
asleep on a condition that holds is about to be notified by whoever has the
condition's mutex. Every step keeps this, so it holds of every reachable state.
-/

namespace Monitor

variable {S : Sig} {ε : Type} {M : Machine S}

namespace Outline

variable {O : Outline M ε}

/-- The state `c` is where the proof outline `O` says; `dirty i` are the
    condition variables thread `i` still has to notify. -/
structure HoldsWith (O : Outline M ε) (c : Config M ε) (dirty : M.Thread → Finset S.Cv) :
    Prop where
  inv : O.Inv c.data
  free : ∀ l, c.holder l = none → O.LockInv l c.data
  thread : ∀ i, O.ThreadOk i (c.held i) (dirty i) c.data (c.threads i)
  asleep : ∀ j w k, c.threads j = .asleep w k → M.holds w c.data = true →
    O.Lossy c.data ∨ ∃ i, c.holder (M.mutex w) = some i ∧ M.cv w ∈ dirty i

/-- The state `c` is where the proof outline `O` says. -/
def Holds (O : Outline M ε) (c : Config M ε) : Prop := ∃ dirty, O.HoldsWith c dirty

/-- Build `HoldsWith` after a step of thread `i` that leaves everybody else's
    mutexes and programs alone. -/
private theorem HoldsWith.of_step {c c' : Config M ε} {dirty dirty' : M.Thread → Finset S.Cv}
    {i : M.Thread} (h : O.HoldsWith c dirty)
    (hinv : O.Inv c'.data)
    (hfree : ∀ l, c'.holder l = none → O.LockInv l c'.data)
    (hrely : ∀ j, j ≠ i → O.Rely j (c.held j) c.data c'.data)
    (hheld : ∀ j, j ≠ i → c'.held j = c.held j)
    (hdirty : ∀ j, j ≠ i → dirty' j = dirty j)
    (hthreads : ∀ j, j ≠ i → c'.threads j = c.threads j ∨
      ∃ w k, c.threads j = .asleep w k ∧ c'.threads j = .woken w k)
    (hi : O.ThreadOk i (c'.held i) (dirty' i) c'.data (c'.threads i))
    (hasleep : ∀ j w k, c'.threads j = .asleep w k → M.holds w c'.data = true →
      O.Lossy c'.data ∨ ∃ i, c'.holder (M.mutex w) = some i ∧ M.cv w ∈ dirty' i) :
    O.HoldsWith c' dirty' where
  inv := hinv
  free := hfree
  asleep := hasleep
  thread := by
    intro j
    by_cases hj : j = i
    · subst hj; exact hi
    · rw [hheld j hj, hdirty j hj]
      have hok := (h.thread j).stable (hrely j hj) hinv
      rcases hthreads j hj with heq | ⟨w, k, hold, hnew⟩
      · rw [heq]; exact hok
      · rw [hold] at hok
        rw [hnew]
        exact hok

/-- One operation of thread `i`. -/
private theorem HoldsWith.step_op {c : Config M ε} {dirty : M.Thread → Finset S.Cv}
    {i : M.Thread} {o : S.Op} {k : S.Res o → Prog S ε Unit} {x : M.Choice} {r : S.Res o}
    {d : M.Data} (h : O.HoldsWith c dirty) (ht : c.threads i = .run (.op o k))
    (hx : M.exec i o x c.data = some (r, d)) :
    O.Holds ({ c with data := d }.setThread i (.run (k r))) := by
  have hwp := h.thread i
  rw [ht] at hwp
  obtain ⟨hpre, hk⟩ := hwp c.data (O.rely_refl _ _ _) h.inv
  have hinv : O.Inv d := O.inv_step h.inv hpre hx
  refine ⟨Function.update dirty i (dirty i ∪ O.touches o r), h.of_step (i := i) hinv ?_ ?_
    (fun _ _ => rfl) (fun j hj => by simp [hj]) (fun j hj => .inl (by simp [Config.setThread, hj]))
    ?_ ?_⟩
  · intro l hl
    exact O.lock_step h.inv hpre hx (by simpa using fun hh => by cases hl.symm.trans hh)
      (h.free l hl)
  · intro j hj
    exact O.rely_step h.inv hpre hx hj (Config.held_disjoint hj)
  · rw [Config.setThread_same, Function.update_self]
    exact hk x r d hx hinv
  · -- a sleeper whose condition has just become true is now owed a notification
    intro j w k' hj hw
    have hji : j ≠ i := by
      rintro rfl
      simp at hj
    rw [Config.setThread_other _ _ _ _ hji] at hj
    cases hold : M.holds w c.data with
    | false =>
      obtain ⟨hm, hcv⟩ := O.cond_step h.inv hpre hx hold hw
      exact .inr ⟨i, by simpa using hm, by simp [hcv]⟩
    | true =>
      rcases h.asleep j w k' hj hold with hlost | ⟨i', hi', hcv⟩
      · exact .inl (O.lossy_step hx hlost)
      refine .inr ⟨i', hi', ?_⟩
      by_cases hii : i' = i
      · subst hii; simp [hcv]
      · simpa [hii] using hcv

private theorem HoldsWith.step_lock {c : Config M ε} {dirty : M.Thread → Finset S.Cv}
    {i : M.Thread} {l : S.Lock} {k : Prog S ε Unit} (h : O.HoldsWith c dirty)
    (ht : c.threads i = .run (.lock l k)) (hl : c.holder l = none) :
    O.Holds ((c.setHolder l (some i)).setThread i (.run k)) := by
  have hwp := h.thread i
  rw [ht] at hwp
  have hk := (hwp.2.2 c.data (O.rely_refl _ _ _) h.inv).2 (h.free l hl)
  refine ⟨dirty, h.of_step (i := i) h.inv ?_ (fun j _ => O.rely_refl _ _ _)
    (fun j hj => Config.held_take_other hl hj) (fun _ _ => rfl)
    (fun j hj => .inl (by simp [Config.setThread, hj])) ?_ ?_⟩
  · intro l' hl'
    refine h.free l' ?_
    by_cases hll : l' = l
    · subst hll; simp at hl'
    · rwa [Config.setThread_holder, Config.setHolder_other _ _ _ hll] at hl'
  · rw [Config.held_setThread, Config.held_take hl]
    simpa [ThreadOk] using hk
  · intro j w k' hj hw
    have hji : j ≠ i := by
      rintro rfl
      simp at hj
    rw [Config.setThread_other _ _ _ _ hji] at hj
    rcases h.asleep j w k' hj hw with hlost | ⟨i', hi', hcv⟩
    · exact .inl hlost
    refine .inr ⟨i', ?_, hcv⟩
    have hne : M.mutex w ≠ l := by
      rintro hml
      rw [hml] at hi'
      cases hl.symm.trans hi'
    simpa [Config.setHolder_other _ _ _ hne] using hi'

private theorem HoldsWith.step_unlock {c : Config M ε} {dirty : M.Thread → Finset S.Cv}
    {i : M.Thread} {l : S.Lock} {k : Prog S ε Unit} (h : O.HoldsWith c dirty)
    (ht : c.threads i = .run (.unlock l k)) (hl : c.holder l = some i) :
    O.Holds ((c.setHolder l none).setThread i (.run k)) := by
  have hwp := h.thread i
  rw [ht] at hwp
  obtain ⟨hmem, hk⟩ := hwp
  obtain ⟨-, hL, D', hsub, hclean, hD, hk⟩ := hk c.data (O.rely_refl _ _ _) h.inv
  refine ⟨Function.update dirty i D', h.of_step (i := i) h.inv ?_ (fun j _ => O.rely_refl _ _ _)
    (fun j hj => Config.held_give_other hl hj) (fun j hj => by simp [hj])
    (fun j hj => .inl (by simp [Config.setThread, hj])) ?_ ?_⟩
  · intro l' hl'
    by_cases hll : l' = l
    · subst hll; exact hL
    · refine h.free l' ?_
      rwa [Config.setThread_holder, Config.setHolder_other _ _ _ hll] at hl'
  · rw [Config.held_setThread, Config.held_give]
    simpa [ThreadOk] using hk
  · intro j w k' hj hw
    have hji : j ≠ i := by
      rintro rfl
      simp at hj
    rw [Config.setThread_other _ _ _ _ hji] at hj
    rcases h.asleep j w k' hj hw with hlost | ⟨i', hi', hcv⟩
    · exact .inl hlost
    rcases hD with rfl | hlost
    · refine .inr ⟨i', ?_, by simpa using hcv⟩
      -- the owner of the debt cannot be the one who is releasing: its debts on `l` are paid
      have hne : M.mutex w ≠ l := by
        rintro hml
        rw [hml] at hi'
        obtain rfl := Option.some.inj (hl.symm.trans hi')
        exact hclean w hml hcv
      simpa [Config.setHolder_other _ _ _ hne] using hi'
    · exact .inl hlost

private theorem HoldsWith.step_wait {c c' : Config M ε} {dirty : M.Thread → Finset S.Cv}
    {i : M.Thread} {w : S.Cond} {k : Prog S ε Unit} (h : O.HoldsWith c dirty)
    (ht : c.threads i = .run (.wait w k)) (hl : c.holder (M.mutex w) = some i)
    (hc : (if M.holds w c.data then some (c.setThread i (.run k))
      else some ((c.setHolder (M.mutex w) none).setThread i (.asleep w k))) = some c') :
    O.Holds c' := by
  have hwp := h.thread i
  rw [ht] at hwp
  obtain ⟨hH, hD, hk⟩ := hwp
  obtain ⟨-, hL, hk⟩ := hk c.data (O.rely_refl _ _ _) h.inv
  split at hc
  · -- the condition holds: go on with the mutex
    rename_i hw
    obtain rfl := Option.some.inj hc
    obtain ⟨-, hk⟩ := hk c.data (O.rely_refl _ _ _) h.inv
    refine ⟨dirty, h.of_step (i := i) h.inv h.free (fun j _ => O.rely_refl _ _ _)
      (fun _ _ => rfl) (fun _ _ => rfl) (fun j hj => .inl (by simp [Config.setThread, hj])) ?_ ?_⟩
    · rw [Config.setThread_same]
      exact hk hw hL
    · intro j w' k' hj hw'
      have hji : j ≠ i := by
        rintro rfl
        simp at hj
      rw [Config.setThread_other _ _ _ _ hji] at hj
      exact h.asleep j w' k' hj hw'
  · -- release the mutex and sleep
    rename_i hw
    obtain rfl := Option.some.inj hc
    refine ⟨dirty, h.of_step (i := i) h.inv ?_ (fun j _ => O.rely_refl _ _ _)
      (fun j hj => Config.held_give_other hl hj) (fun _ _ => rfl)
      (fun j hj => .inl (by simp [Config.setThread, hj])) ?_ ?_⟩
    · intro l' hl'
      by_cases hll : l' = M.mutex w
      · subst hll; exact hL
      · refine h.free l' ?_
        rwa [Config.setThread_holder, Config.setHolder_other _ _ _ hll] at hl'
    · rw [Config.held_setThread, Config.held_give, Config.setThread_same, hH, hD]
      refine ⟨by simp, rfl, fun d₁ hR hI => ?_⟩
      obtain ⟨hwait, hk⟩ := hk d₁ hR hI
      exact ⟨hwait, fun hp hL₁ => hD ▸ hH ▸ hk hp hL₁⟩
    · intro j w' k' hj hw'
      by_cases hji : j = i
      · subst hji
        rw [Config.setThread_same] at hj
        obtain ⟨rfl, rfl⟩ : w = w' ∧ k = k' := by simpa using hj
        exact absurd hw' hw
      · rw [Config.setThread_other _ _ _ _ hji] at hj
        rcases h.asleep j w' k' hj hw' with hlost | ⟨i', hi', hcv⟩
        · exact .inl hlost
        refine .inr ⟨i', ?_, hcv⟩
        have hne : M.mutex w' ≠ M.mutex w := by
          intro hml
          rw [hml] at hi'
          obtain rfl := Option.some.inj (hl.symm.trans hi')
          rw [hD] at hcv
          simp at hcv
        simpa [Config.setHolder_other _ _ _ hne] using hi'

private theorem HoldsWith.step_notify {c : Config M ε} {dirty : M.Thread → Finset S.Cv}
    {i : M.Thread} {v : S.Cv} {k : Prog S ε Unit} (h : O.HoldsWith c dirty)
    (ht : c.threads i = .run (.notify v k)) :
    O.Holds ((c.wake v).setThread i (.run k)) := by
  have hwp := h.thread i
  rw [ht] at hwp
  refine ⟨Function.update dirty i ((dirty i).erase v), h.of_step (i := i) h.inv h.free
    (fun j _ => O.rely_refl _ _ _) (fun _ _ => rfl) (fun j hj => by simp [hj]) ?_ ?_ ?_⟩
  · intro j hj
    rw [Config.setThread_other _ _ _ _ hj]
    simp only [Config.wake]
    split
    · rename_i w k' heq
      split
      · exact .inr ⟨w, k', heq, rfl⟩
      · exact .inl heq.symm
    · exact .inl rfl
  · rw [Config.held_setThread, Config.held_wake]
    simpa [ThreadOk] using hwp.2
  · intro j w k' hj hw
    have hji : j ≠ i := by
      rintro rfl
      simp at hj
    rw [Config.setThread_other _ _ _ _ hji] at hj
    simp only [Config.wake] at hj
    -- whoever is still asleep sleeps on another condition variable
    split at hj
    · rename_i w' k'' heq
      split at hj
      · cases hj
      · rename_i hcv
        obtain ⟨rfl, rfl⟩ : w' = w ∧ k'' = k' := by simpa using hj
        rcases h.asleep j w' k'' heq hw with hlost | ⟨i', hi', hmem⟩
        · exact .inl hlost
        refine .inr ⟨i', hi', ?_⟩
        by_cases hii : i' = i
        · subst hii
          simpa [hcv] using hmem
        · simpa [hii] using hmem
    · rename_i hne
      exact absurd hj (hne w k')

private theorem HoldsWith.step_woken {c c' : Config M ε} {dirty : M.Thread → Finset S.Cv}
    {i : M.Thread} {w : S.Cond} {k : Prog S ε Unit} (h : O.HoldsWith c dirty)
    (ht : c.threads i = .woken w k) (hl : c.holder (M.mutex w) = none)
    (hc : (if M.holds w c.data then
        some ((c.setHolder (M.mutex w) (some i)).setThread i (.run k))
      else some (c.setThread i (.asleep w k))) = some c') : O.Holds c' := by
  have hok := h.thread i
  rw [ht] at hok
  obtain ⟨hH, hD, hres⟩ := hok
  split at hc
  · -- the condition holds: take the mutex back and go on
    rename_i hw
    obtain rfl := Option.some.inj hc
    have hk := (hres c.data (O.rely_refl _ _ _) h.inv).2 hw (h.free _ hl)
    refine ⟨dirty, h.of_step (i := i) h.inv ?_ (fun j _ => O.rely_refl _ _ _)
      (fun j hj => Config.held_take_other hl hj) (fun _ _ => rfl)
      (fun j hj => .inl (by simp [Config.setThread, hj])) ?_ ?_⟩
    · intro l' hl'
      refine h.free l' ?_
      by_cases hll : l' = M.mutex w
      · subst hll; simp at hl'
      · rwa [Config.setThread_holder, Config.setHolder_other _ _ _ hll] at hl'
    · rw [Config.held_setThread, Config.held_take hl, hH, hD]
      simpa [ThreadOk] using hk
    · intro j w' k' hj hw'
      have hji : j ≠ i := by
        rintro rfl
        simp at hj
      rw [Config.setThread_other _ _ _ _ hji] at hj
      rcases h.asleep j w' k' hj hw' with hlost | ⟨i', hi', hcv⟩
      · exact .inl hlost
      refine .inr ⟨i', ?_, hcv⟩
      have hne : M.mutex w' ≠ M.mutex w := by
        intro hml
        rw [hml] at hi'
        cases hl.symm.trans hi'
      simpa [Config.setHolder_other _ _ _ hne] using hi'
  · -- back to sleep; the mutex stays free
    rename_i hw
    obtain rfl := Option.some.inj hc
    refine ⟨dirty, h.of_step (i := i) h.inv h.free (fun j _ => O.rely_refl _ _ _)
      (fun _ _ => rfl) (fun _ _ => rfl) (fun j hj => .inl (by simp [Config.setThread, hj])) ?_ ?_⟩
    · rw [Config.setThread_same]
      exact ⟨hH, hD, hres⟩
    · intro j w' k' hj hw'
      by_cases hji : j = i
      · subst hji
        rw [Config.setThread_same] at hj
        obtain ⟨rfl, rfl⟩ : w = w' ∧ k = k' := by simpa using hj
        exact absurd hw' hw
      · rw [Config.setThread_other _ _ _ _ hji] at hj
        exact h.asleep j w' k' hj hw'

/-- Every step of every thread keeps the proof outline. -/
theorem Holds.step {c c' : Config M ε} (h : O.Holds c) (hs : c.Step c') : O.Holds c' := by
  obtain ⟨dirty, h⟩ := h
  obtain ⟨i, x, hs⟩ := hs
  simp only [Config.step] at hs
  split at hs
  · cases hs
  · cases hs
  · rename_i o k ht
    split at hs
    · rename_i r d hx
      obtain rfl := Option.some.inj hs
      exact h.step_op ht hx
    · cases hs
  · rename_i l k ht
    split at hs
    · rename_i hl
      obtain rfl := Option.some.inj hs
      exact h.step_lock ht hl
    · cases hs
  · rename_i l k ht
    split at hs
    · rename_i hl
      obtain rfl := Option.some.inj hs
      exact h.step_unlock ht hl
    · cases hs
  · rename_i w k ht
    split at hs
    · rename_i hl
      exact h.step_wait ht hl hs
    · cases hs
  · rename_i v k ht
    obtain rfl := Option.some.inj hs
    exact h.step_notify ht
  · cases hs
  · rename_i w k ht
    split at hs
    · rename_i hl
      exact h.step_woken ht hl hs
    · cases hs

/-- A spurious wake-up keeps the proof outline. -/
theorem Holds.spurious {c c' : Config M ε} (h : O.Holds c) (hs : c.Spurious c') : O.Holds c' := by
  obtain ⟨dirty, h⟩ := h
  obtain ⟨i, w, k, hi, rfl⟩ := hs
  have hok := h.thread i
  rw [hi] at hok
  refine ⟨dirty, h.of_step (i := i) h.inv h.free (fun j _ => O.rely_refl _ _ _)
    (fun _ _ => rfl) (fun _ _ => rfl) (fun j hj => .inl (Config.setThread_other _ _ _ _ hj)) ?_ ?_⟩
  · rw [Config.setThread_same]
    exact hok
  · intro j w' k' hj hw'
    have hji : j ≠ i := by
      rintro rfl
      simp at hj
    rw [Config.setThread_other _ _ _ _ hji] at hj
    exact h.asleep j w' k' hj hw'

/-- Nobody sleeps on a condition that holds while its mutex is free, unless a
    notification was dropped. -/
theorem Holds.asleep {c : Config M ε} {i : M.Thread} {w : S.Cond} (h : O.Holds c)
    (hi : (c.threads i).sleepsOn = some w) (hm : c.holder (M.mutex w) = none)
    (hlost : ¬ O.Lossy c.data) : M.holds w c.data = false := by
  obtain ⟨dirty, h⟩ := h
  unfold TState.sleepsOn at hi
  split at hi
  · rename_i w' k hk
    obtain rfl := Option.some.inj hi
    cases hw : M.holds w' c.data with
    | false => rfl
    | true =>
      obtain hl | ⟨j, hj, -⟩ := h.asleep i w' k hk hw
      · exact absurd hl hlost
      · cases hm.symm.trans hj
  · cases hi

/-- A proof outline that holds at the start holds of every reachable state. -/
theorem Holds.reaches {c c' : Config M ε} (h : O.Holds c) (hr : c.Reaches c') : O.Holds c' :=
  hr.invariant (P := O.Holds) (fun _ _ h hs => h.step hs) h

theorem Holds.inv {c : Config M ε} (h : O.Holds c) : O.Inv c.data := by
  obtain ⟨_, h⟩ := h
  exact h.inv

theorem Holds.lockInv {c : Config M ε} (h : O.Holds c) {l : S.Lock} (hl : c.holder l = none) :
    O.LockInv l c.data := by
  obtain ⟨_, h⟩ := h
  exact h.free l hl

/-- A thread that is about to perform an operation meets its precondition. -/
theorem Holds.pre {c : Config M ε} {i : M.Thread} {o : S.Op} (h : O.Holds c)
    (hi : c.AtOp i o) : O.Pre i (c.held i) o c.data := by
  obtain ⟨_, h⟩ := h
  obtain ⟨k, hk⟩ := hi
  have hok := h.thread i
  rw [hk] at hok
  exact (hok c.data (O.rely_refl _ _ _) h.inv).1

/-- A thread that runs and has not ended is active. -/
theorem Holds.active {c : Config M ε} {i : M.Thread} {p : Prog S ε Unit} (h : O.Holds c)
    (hp : c.threads i = .run p) (hf : p.finished = false) :
    O.Active i (c.held i) c.data := by
  obtain ⟨_, h⟩ := h
  have hok := h.thread i
  rw [hp] at hok
  cases p with
  | ret a => cases hf
  | throw e => cases hf
  | op o k => exact O.pre_active (hok c.data (O.rely_refl _ _ _) h.inv).1
  | lock l k => exact (hok.2.2 c.data (O.rely_refl _ _ _) h.inv).1
  | unlock l k => exact (hok.2 c.data (O.rely_refl _ _ _) h.inv).1
  | wait w k => exact (hok.2.2 c.data (O.rely_refl _ _ _) h.inv).1
  | notify v k => exact hok.1 c.data (O.rely_refl _ _ _) h.inv

/-- What a thread waits with. -/
theorem Holds.waits {c : Config M ε} {i : M.Thread} {w : S.Cond} (h : O.Holds c)
    (hi : c.WaitsFor i w) : O.Waits i w c.data := by
  obtain ⟨_, h⟩ := h
  obtain ⟨k, hk⟩ := hi
  have hok := h.thread i
  rcases hk with hk | hk | hk
  · rw [hk] at hok
    obtain ⟨-, -, hok⟩ := hok
    obtain ⟨-, -, hok⟩ := hok c.data (O.rely_refl _ _ _) h.inv
    exact (hok c.data (O.rely_refl _ _ _) h.inv).1
  · rw [hk] at hok
    exact (hok.2.2 c.data (O.rely_refl _ _ _) h.inv).1
  · rw [hk] at hok
    exact (hok.2.2 c.data (O.rely_refl _ _ _) h.inv).1

/-- What holds after a thread has returned. -/
theorem Holds.done_of_ret {c : Config M ε} {i : M.Thread} (h : O.Holds c)
    (hi : c.threads i = .run (.ret ())) : O.Done i (.ok ()) c.data := by
  obtain ⟨_, h⟩ := h
  have hok := h.thread i
  rw [hi] at hok
  exact hok.2.2 c.data (O.rely_refl _ _ _) h.inv

/-- What holds after a thread has thrown. -/
theorem Holds.done_of_throw {c : Config M ε} {i : M.Thread} {e : ε} (h : O.Holds c)
    (hi : c.threads i = .run (.throw e)) : O.Done i (.error e) c.data := by
  obtain ⟨_, h⟩ := h
  have hok := h.thread i
  rw [hi] at hok
  exact hok.2.2 c.data (O.rely_refl _ _ _) h.inv

/-- What holds after a thread has ended. -/
theorem Holds.done_of_finished {c : Config M ε} {i : M.Thread} (h : O.Holds c)
    (hi : (c.threads i).finished) : ∃ r, O.Done i r c.data := by
  obtain ht | ⟨e, ht⟩ := TState.eq_of_finished hi
  · exact ⟨.ok (), h.done_of_ret ht⟩
  · exact ⟨.error e, h.done_of_throw ht⟩

end Outline

end Monitor
