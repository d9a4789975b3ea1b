import SwarmKV.Monitor.Adequacy
import SwarmKV.Monitor.Trace

/-!
# Spurious wake-ups

A condition variable may wake a sleeper without a notification. The sleeper looks at its condition
and goes back to sleep, unless the condition holds and it has missed the notification. So a run
with spurious wake-ups leaves the trace of a run without, if no notification is dropped.
-/

namespace Monitor

variable {S : Sig} {M : Machine S} {ε : Type}

namespace Config

variable {c c' d c₀ : Config M ε} {tr : Trace M} {i : M.Thread} {e : Entry M}

/-- `c` is a state of a run from `c₀`, with spurious wake-ups, that has left the trace `tr`. -/
inductive LooseRun (c₀ : Config M ε) : Trace M → Config M ε → Prop
  | start : LooseRun c₀ [] c₀
  | act {tr : Trace M} {c c' : Config M ε} {e : Entry M} (h : LooseRun c₀ tr c)
    (he : c.Acts e c') : LooseRun c₀ (e :: tr) c'
  | silent {tr : Trace M} {c c' : Config M ε} (h : LooseRun c₀ tr c) (hs : c.Silent c') :
    LooseRun c₀ tr c'
  | spurious {tr : Trace M} {c c' : Config M ε} (h : LooseRun c₀ tr c) (hs : c.Spurious c') :
    LooseRun c₀ tr c'

/-- `d` is `c`, but for sleepers that have been woken only in `c`. -/
structure Drowses (c d : Config M ε) : Prop where
  data : d.data = c.data
  holder : d.holder = c.holder
  threads : ∀ i, d.threads i = c.threads i ∨
    ∃ w k, c.threads i = .woken w k ∧ d.threads i = .asleep w k

/-- A run is one with spurious wake-ups. -/
theorem Run.loose (hr : c₀.Run tr c) : c₀.LooseRun tr c := by
  induction hr with
  | start => exact .start
  | act _ he ih => exact .act ih he
  | silent _ hs ih => exact .silent ih hs

namespace Drowses

theorem refl (c : Config M ε) : c.Drowses c := ⟨rfl, rfl, fun _ => .inl rfl⟩

/-- A thread that is not woken is where it is. -/
theorem same (h : c.Drowses d) (hi : ∀ w k, c.threads i ≠ .woken w k) :
    d.threads i = c.threads i := by
  obtain heq | ⟨w, k, hw, -⟩ := h.threads i
  · exact heq
  · exact absurd hw (hi w k)

theorem run (h : c.Drowses d) {p : Prog S ε Unit} (hi : c.threads i = .run p) :
    d.threads i = .run p :=
  (h.same fun w k hw => by cases hi.symm.trans hw).trans hi

theorem setThread (h : c.Drowses d) (i : M.Thread) (t : TState S ε) :
    (c.setThread i t).Drowses (d.setThread i t) := by
  refine ⟨h.data, h.holder, fun j => ?_⟩
  by_cases hj : j = i
  · subst hj
    exact .inl (by rw [setThread_same, setThread_same])
  · rw [setThread_other _ _ _ _ hj, setThread_other _ _ _ _ hj]
    exact h.threads j

theorem setHolder (h : c.Drowses d) (l : S.Lock) (o : Option M.Thread) :
    (c.setHolder l o).Drowses (d.setHolder l o) := by
  refine ⟨h.data, ?_, h.threads⟩
  show Function.update d.holder l o = Function.update c.holder l o
  rw [h.holder]

/-- A notification wakes both. -/
theorem wake (h : c.Drowses d) (v : S.Cv) : (c.wake v).Drowses (d.wake v) := by
  refine ⟨h.data, h.holder, fun j => ?_⟩
  simp only [Config.wake]
  obtain heq | ⟨w, k, hw, ha⟩ := h.threads j
  · exact .inl (by rw [heq])
  · rw [hw, ha]
    by_cases hv : M.cv w = v
    · exact .inl (by simp [hv])
    · exact .inr ⟨w, k, rfl, by simp [hv]⟩

/-- A sleeper in `d` may be awake in `c`. -/
theorem of_asleep (h : c.Drowses d) {w : S.Cond} {k : Prog S ε Unit} {t : TState S ε}
    (hi : d.threads i = .asleep w k) (ht : t = .asleep w k ∨ t = .woken w k) :
    (c.setThread i t).Drowses d := by
  refine ⟨h.data, h.holder, fun j => ?_⟩
  by_cases hj : j = i
  · subst hj
    rw [setThread_same, hi]
    obtain rfl | rfl := ht
    · exact .inl rfl
    · exact .inr ⟨w, k, rfl, rfl⟩
  · rw [setThread_other _ _ _ _ hj]
    exact h.threads j

/-- An answered action is one of `d`, unless a sleeper of `d` has missed a notification. -/
theorem acts (h : c.Drowses d) (he : c.Acts e c')
    (hquiet : ∀ i w k, d.threads i = .asleep w k → d.holder (M.mutex w) = none →
      M.holds w d.data = false) : ∃ d', d.Acts e d' ∧ c'.Drowses d' := by
  cases he with
  | @op i o k x r a ht hx =>
    have hacts : d.Acts ⟨i, .op o, r, d.data⟩ ({ d with data := a }.setThread i (.run (k r))) :=
      .op (h.run ht) (by rw [h.data]; exact hx)
    rw [h.data] at hacts
    have hnew : ({ c with data := a } : Config M ε).Drowses { d with data := a } :=
      ⟨rfl, h.holder, h.threads⟩
    exact ⟨_, hacts, hnew.setThread i _⟩
  | @lock i l k ht hl =>
    have hacts := Acts.lock (h.run ht) (by rw [h.holder]; exact hl)
    rw [h.data] at hacts
    exact ⟨_, hacts, (h.setHolder l _).setThread i _⟩
  | @unlock i l k ht hl =>
    have hacts := Acts.unlock (h.run ht) (by rw [h.holder]; exact hl)
    rw [h.data] at hacts
    exact ⟨_, hacts, (h.setHolder l _).setThread i _⟩
  | @wait i w k ht hl hw =>
    have hacts := Acts.wait (h.run ht) (by rw [h.holder]; exact hl) (by rw [h.data]; exact hw)
    rw [h.data] at hacts
    exact ⟨_, hacts, h.setThread i _⟩
  | @resume i w k ht hl hw =>
    obtain heq | ⟨w', k', hwoken, hasleep⟩ := h.threads i
    · have hacts := Acts.resume (heq.trans ht) (by rw [h.holder]; exact hl)
        (by rw [h.data]; exact hw)
      rw [h.data] at hacts
      exact ⟨_, hacts, (h.setHolder _ _).setThread i _⟩
    · -- a sleeper whose condition holds has been notified
      cases ht.symm.trans hwoken
      have hfalse := hquiet i w k hasleep (by rw [h.holder]; exact hl)
      rw [h.data, hw] at hfalse
      cases hfalse
  | @notify i v k ht =>
    have hacts := Acts.notify (h.run ht)
    rw [h.data] at hacts
    exact ⟨_, hacts, (h.wake v).setThread i _⟩

/-- A silent step is one of `d`, or leaves it alone. -/
theorem silent (h : c.Drowses d) (hs : c.Silent c') :
    ∃ d', (d' = d ∨ d.Silent d') ∧ c'.Drowses d' := by
  cases hs with
  | @sleep i w k ht hl hw =>
    exact ⟨_, .inr (.sleep (h.run ht) (by rw [h.holder]; exact hl) (by rw [h.data]; exact hw)),
      (h.setHolder _ _).setThread i _⟩
  | @doze i w k ht hl hw =>
    obtain heq | ⟨w', k', hwoken, hasleep⟩ := h.threads i
    · exact ⟨_, .inr (.doze (heq.trans ht) (by rw [h.holder]; exact hl) (by rw [h.data]; exact hw)),
        h.setThread i _⟩
    · cases ht.symm.trans hwoken
      exact ⟨d, .inl rfl, h.of_asleep hasleep (.inl rfl)⟩

/-- A spurious wake-up leaves `d` alone. -/
theorem spurious (h : c.Drowses d) (hs : c.Spurious c') : c'.Drowses d := by
  obtain ⟨i, w, k, hi, rfl⟩ := hs
  have hasleep : d.threads i = .asleep w k :=
    (h.same fun w' k' hw => by cases hi.symm.trans hw).trans hi
  exact h.of_asleep hasleep (.inr rfl)

end Drowses

/-- Spurious wake-ups leave no trace, as long as nobody sleeps on a condition that holds while its
    mutex is free. That may depend on a condition `P` on the data that has held from the start. -/
theorem LooseRun.exists_run {P : M.Data → Prop}
    (hP : ∀ {c c' : Config M ε} {e}, c.Acts e c' → P c'.data → P c.data)
    (hquiet : ∀ {tr d}, c₀.Run tr d → P d.data → ∀ i w k, d.threads i = .asleep w k →
      d.holder (M.mutex w) = none → M.holds w d.data = false)
    (hr : c₀.LooseRun tr c) (hc : P c.data) : ∃ d, c₀.Run tr d ∧ c.Drowses d := by
  induction hr with
  | start => exact ⟨c₀, .start, .refl c₀⟩
  | act _ he ih =>
    have hold := hP he hc
    obtain ⟨d, hrun, hd⟩ := ih hold
    obtain ⟨d', he', hd'⟩ := hd.acts he (hquiet hrun (by rw [hd.data]; exact hold))
    exact ⟨d', .act hrun he', hd'⟩
  | silent _ hs ih =>
    obtain ⟨d, hrun, hd⟩ := ih (by rw [← hs.data]; exact hc)
    obtain ⟨d', hsame | hs', hd'⟩ := hd.silent hs
    · subst hsame
      exact ⟨_, hrun, hd'⟩
    · exact ⟨d', .silent hrun hs', hd'⟩
  | spurious _ hs ih =>
    have hdata : ∀ {c c' : Config M ε}, c.Spurious c' → c'.data = c.data := by
      intro c c' h
      obtain ⟨i, w, k, -, rfl⟩ := h
      rfl
    obtain ⟨d, hrun, hd⟩ := ih (by rw [← hdata hs]; exact hc)
    exact ⟨d, hrun, hd.spurious hs⟩

end Config

/-- A proof outline shows that spurious wake-ups leave no trace, unless a notification was
    dropped. -/
theorem Outline.Holds.exists_run {O : Outline M ε} {c₀ c : Config M ε} {tr : Trace M}
    (h : O.Holds c₀) (hr : c₀.LooseRun tr c) (hlost : ¬ O.Lossy c.data) :
    ∃ d, c₀.Run tr d ∧ c.Drowses d := by
  refine hr.exists_run (P := fun d => ¬ O.Lossy d) (fun he hlost hold => hlost ?_)
    (fun hrun hlost i w k hi hm => ?_) hlost
  · obtain hsame | ⟨i, o, r, x, -, -, hx⟩ := he.data
    · rw [hsame]
      exact hold
    · exact O.lossy_step hx hold
  · exact (h.reaches hrun.reaches).asleep (by rw [hi]; rfl) hm hlost

end Monitor
