import SwarmKV.Monitor.Adequacy
import Mathlib.Data.Finset.Max

/-!
# Mutexes do not deadlock

In a state where a proof outline holds, a held mutex means that some thread can
move. Hence in a state in which nobody moves, every thread has ended, sleeps on
a condition that does not hold, or is at an operation that is itself blocked,
unless a notification was dropped.
-/

namespace Monitor

variable {S : Sig} {ε : Type} {M : Machine S}

namespace Outline

variable {O : Outline M ε} {c : Config M ε}

/-- A thread that holds a mutex is active. -/
theorem Holds.active_of_held (h : O.Holds c) {i : M.Thread} (hi : (c.held i).Nonempty) :
    O.Active i (c.held i) c.data := by
  have hne := hi.ne_empty
  have hall := h
  obtain ⟨dirty, h⟩ := h
  have hok := h.thread i
  cases ht : c.threads i with
  | asleep w k => rw [ht] at hok; exact absurd hok.1 hne
  | woken w k => rw [ht] at hok; exact absurd hok.1 hne
  | run p =>
    cases hp : p.finished with
    | false => exact hall.active ht hp
    | true =>
      rw [ht] at hok
      cases p with
      | ret a => exact absurd hok.1 hne
      | throw e => exact absurd hok.1 hne
      | _ => cases hp

/-- Operations only block while their thread holds no mutex. -/
def NonBlocking (O : Outline M ε) : Prop :=
  ∀ i H o d, O.Inv d → O.Pre i H o d → H.Nonempty → ∃ x, (M.exec i o x d).isSome

/-- Among the mutexes that are held there is one of the highest rank. -/
private theorem exists_top_held {l : S.Lock} {i : M.Thread} (hl : c.holder l = some i) :
    ∃ l j, c.holder l = some j ∧
      ∀ l' j', c.holder l' = some j' → O.rank l' ≤ O.rank l := by
  have hne : (Finset.univ.filter fun l => (c.holder l).isSome).Nonempty := ⟨l, by simp [hl]⟩
  obtain ⟨l, hmem, hmax⟩ := Finset.exists_max_image _ O.rank hne
  obtain ⟨j, hj⟩ := Option.isSome_iff_exists.mp (by simpa using hmem : (c.holder l).isSome)
  exact ⟨l, j, hj, fun l' j' h' => hmax l' (by simp [h'])⟩

/-- The thread that holds the mutex of the highest rank can move. -/
private theorem enabled_of_top (h : O.Holds c) (hnb : O.NonBlocking) {l : S.Lock}
    {i : M.Thread} (hl : c.holder l = some i)
    (hmax : ∀ l' j', c.holder l' = some j' → O.rank l' ≤ O.rank l) : c.Enabled i := by
  obtain ⟨dirty, h⟩ := h
  have hmem : l ∈ c.held i := Config.mem_held.mpr hl
  have hne : c.held i ≠ ∅ := Finset.ne_empty_of_mem hmem
  obtain ⟨x⟩ := M.neChoice
  have hok := h.thread i
  cases ht : c.threads i with
  | asleep w k => rw [ht] at hok; exact absurd hok.1 hne
  | woken w k => rw [ht] at hok; exact absurd hok.1 hne
  | run p =>
    rw [ht] at hok
    cases p with
    | ret a => exact absurd hok.1 hne
    | throw e => exact absurd hok.1 hne
    | op o k =>
      obtain ⟨hpre, -⟩ := hok c.data (O.rely_refl _ _ _) h.inv
      obtain ⟨y, hy⟩ := hnb i _ o c.data h.inv hpre ⟨l, hmem⟩
      obtain ⟨⟨r, d⟩, hy⟩ := Option.isSome_iff_exists.mp hy
      exact ⟨y, by simp [Config.step, ht, hy]⟩
    | lock l' k =>
      -- a mutex of higher rank than every held one is free
      have hfree : c.holder l' = none := by
        cases hh : c.holder l' with
        | none => rfl
        | some j =>
          have h₁ := hok.2.1 l hmem
          have h₂ := hmax l' j hh
          omega
      exact ⟨x, by simp [Config.step, ht, hfree]⟩
    | unlock l' k =>
      have hl' : c.holder l' = some i := Config.mem_held.mp hok.1
      exact ⟨x, by simp [Config.step, ht, hl']⟩
    | wait w k =>
      have hw : c.holder (M.mutex w) = some i := by
        rw [← Config.mem_held, hok.1]; simp
      refine ⟨x, ?_⟩
      simp only [Config.step, ht, hw, if_true]
      split <;> rfl
    | notify v k => exact ⟨x, by simp [Config.step, ht]⟩

/-- If some mutex is held, the holder of some mutex can move. -/
theorem Holds.enabled_of_held (h : O.Holds c) (hnb : O.NonBlocking) {l : S.Lock} {i : M.Thread}
    (hl : c.holder l = some i) : ∃ j, (c.held j).Nonempty ∧ c.Enabled j := by
  obtain ⟨l, j, hj, hmax⟩ := exists_top_held (O := O) hl
  exact ⟨j, ⟨l, Config.mem_held.mpr hj⟩, enabled_of_top h hnb hj hmax⟩

/-- What a thread that cannot move is doing when no mutex is held. -/
inductive Blocked (O : Outline M ε) (c : Config M ε) (i : M.Thread) : Prop where
  /-- Its program is over. -/
  | ended (r : Except ε Unit)
      (ht : c.threads i = .run (match r with | .ok a => .ret a | .error e => .throw e))
      (hd : O.Done i r c.data)
  /-- It is at an operation that no outcome lets through. -/
  | op (o : S.Op) (ht : c.AtOp i o) (hpre : O.Pre i ∅ o c.data)
      (hx : ∀ x, M.exec i o x c.data = none)
  /-- It sleeps on a condition that does not hold, or was not notified. -/
  | asleep (w : S.Cond) (ht : c.WaitsFor i w) (hw : M.holds w c.data = false ∨ O.Lossy c.data)
      (hwait : O.Waits i w c.data)

/-- With every mutex free, a thread that cannot move has ended, is at a blocked
    operation, or sleeps on a condition that does not hold. -/
theorem Holds.blocked (h : O.Holds c) (hfree : ∀ l, c.holder l = none) {i : M.Thread}
    (hi : ¬ c.Enabled i) : O.Blocked c i := by
  obtain ⟨dirty, h⟩ := h
  have hheld : c.held i = ∅ := by ext l; simp [hfree]
  have hno : ∀ x, c.step i x = none := by
    simpa [Config.Enabled] using hi
  obtain ⟨x⟩ := M.neChoice
  have hok := h.thread i
  rw [hheld] at hok
  cases ht : c.threads i with
  | asleep w k =>
    rw [ht] at hok
    have hw : M.holds w c.data = false ∨ O.Lossy c.data := by
      cases hw : M.holds w c.data with
      | false => exact .inl rfl
      | true =>
        rcases h.asleep i w k ht hw with hlost | ⟨j, hj, -⟩
        · exact .inr hlost
        · cases (hfree _).symm.trans hj
    exact .asleep w ⟨k, .inr (.inl ht)⟩ hw (hok.2.2 c.data (O.rely_refl _ _ _) h.inv).1
  | woken w k =>
    have := hno x
    simp only [Config.step, ht, hfree, if_true] at this
    split at this <;> cases this
  | run p =>
    rw [ht] at hok
    cases p with
    | ret a => exact .ended (.ok a) ht (hok.2.2 c.data (O.rely_refl _ _ _) h.inv)
    | throw e => exact .ended (.error e) ht (hok.2.2 c.data (O.rely_refl _ _ _) h.inv)
    | op o k =>
      refine .op o ⟨k, ht⟩ (hok c.data (O.rely_refl _ _ _) h.inv).1 fun y => ?_
      have := hno y
      simp only [Config.step, ht] at this
      split at this
      · cases this
      · assumption
    | lock l k => exact absurd (hno x) (by simp [Config.step, ht, hfree])
    | unlock l k => exact absurd hok.1 (by simp)
    | wait w k => exact absurd hok.1.symm (by simp)
    | notify v k => exact absurd (hno x) (by simp [Config.step, ht])

/-- In a state in which nobody moves, every mutex is free. -/
theorem Holds.free_of_terminal (h : O.Holds c) (hnb : O.NonBlocking) (ht : c.Terminal)
    (l : S.Lock) : c.holder l = none := by
  cases hl : c.holder l with
  | none => rfl
  | some i =>
    obtain ⟨j, -, hj⟩ := h.enabled_of_held hnb hl
    exact absurd hj (ht j)

/-- A waiter that cannot move waits for a condition that does not hold, or was not
    notified. -/
theorem Holds.blocked_waiter (h : O.Holds c) (hfree : ∀ l, c.holder l = none) {i : M.Thread}
    (hi : ¬ c.Enabled i) {w : S.Cond} (hw : c.WaitsFor i w) :
    M.holds w c.data = false ∨ O.Lossy c.data := by
  cases h.blocked hfree hi with
  | ended r ht _ =>
    obtain ⟨k, hk⟩ := hw
    rw [ht] at hk
    cases r <;> simp at hk
  | op o ht _ _ =>
    obtain ⟨k, hk⟩ := hw
    obtain ⟨k', hk'⟩ := ht
    simp [hk'] at hk
  | asleep w' ht hnot _ =>
    obtain rfl := ht.unique hw
    exact hnot

end Outline

end Monitor
