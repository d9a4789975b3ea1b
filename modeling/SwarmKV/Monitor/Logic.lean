import SwarmKV.Monitor.Semantics
import Mathlib.Data.Finset.Basic

/-!
# Proof outlines

A rely/guarantee logic for thread programs with mutexes and condition
variables. A proof outline fixes

* an invariant of the data, and for each mutex what holds while it is free,
* what a thread that holds the mutexes `H` may rely on while others move,
* for each operation a precondition, and that an operation performed under its
  precondition keeps the invariants and is covered by what the others rely on.

`wp` then walks through one program without looking at the other threads. It
tracks the mutexes held (`H`) and the condition variables still to be notified
(`D`): an operation that can make a condition true puts its condition variable
into `D`, and a mutex may only be released when no condition it guards is left
in there, unless the outline admits that a notification was dropped (`Lossy`),
as when an exception comes between a change and its notification.
`Outline.Holds.step` is adequacy: from a state in which every thread satisfies
its `wp`, every step leads to such a state again.
-/

namespace Monitor

variable {S : Sig} {ε α β : Type}

/-- A proof outline for the programs of machine `M` with exceptions `ε`. -/
structure Outline (M : Machine S) (ε : Type) where
  /-- Mutexes are taken in increasing rank. -/
  rank : S.Lock → Nat
  Inv : M.Data → Prop
  /-- What holds of the data while a mutex is free. -/
  LockInv : S.Lock → M.Data → Prop
  /-- What the steps of others can do to the data while a thread holds `H`. -/
  Rely : M.Thread → Finset S.Lock → M.Data → M.Data → Prop
  /-- What has to hold when a thread that holds `H` performs an operation. -/
  Pre : M.Thread → Finset S.Lock → S.Op → M.Data → Prop
  /-- What holds of a thread that holds `H` and has not ended. -/
  Active : M.Thread → Finset S.Lock → M.Data → Prop
  /-- A notification may have been dropped. -/
  Lossy : M.Data → Prop
  /-- What holds as long as a thread waits for a condition. -/
  Waits : M.Thread → S.Cond → M.Data → Prop
  /-- What holds after a thread has ended. -/
  Done : M.Thread → Except ε Unit → M.Data → Prop
  /-- The condition variables whose conditions an operation can make true. -/
  touches : (o : S.Op) → S.Res o → Finset S.Cv
  rely_refl : ∀ i H d, Rely i H d d
  rely_trans : ∀ {i H d₁ d₂ d₃}, Rely i H d₁ d₂ → Rely i H d₂ d₃ → Rely i H d₁ d₃
  rely_mono : ∀ {i H H' d d'}, H ⊆ H' → Rely i H' d d' → Rely i H d d'
  inv_step : ∀ {i H o x r d d'}, Inv d → Pre i H o d → M.exec i o x d = some (r, d') → Inv d'
  lock_step : ∀ {i H o x r d d' l}, Inv d → Pre i H o d → M.exec i o x d = some (r, d') →
    l ∉ H → LockInv l d → LockInv l d'
  rely_step : ∀ {i j H H' o x r d d'}, Inv d → Pre i H o d → M.exec i o x d = some (r, d') →
    j ≠ i → Disjoint H' H → Rely j H' d d'
  pre_active : ∀ {i H o d}, Pre i H o d → Active i H d
  lossy_step : ∀ {i o x r d d'}, M.exec i o x d = some (r, d') → Lossy d → Lossy d'
  cond_step : ∀ {i H o x r d d' w}, Inv d → Pre i H o d → M.exec i o x d = some (r, d') →
    M.holds w d = false → M.holds w d' = true → M.mutex w ∈ H ∧ M.cv w ∈ touches o r

/-- A postcondition speaks of the outcome, the mutexes held, the condition
    variables still to be notified, and the data. -/
abbrev Post {S : Sig} (M : Machine S) (ε α : Type) :=
  Except ε α → Finset S.Lock → Finset S.Cv → M.Data → Prop

namespace Outline

variable {M : Machine S} (O : Outline M ε) (i : M.Thread)

/-- No condition guarded by `l` is left to be notified. -/
def Clean (M : Machine S) (l : S.Lock) (D : Finset S.Cv) : Prop :=
  ∀ w, M.mutex w = l → M.cv w ∉ D

/-- The weakest precondition of `p` as a program of thread `i`: other threads
    may move, within `Rely`, before each of its actions. -/
def wp : Prog S ε α → Post M ε α → Finset S.Lock → Finset S.Cv → M.Data → Prop
  | .ret a, Q, H, D, d => Q (.ok a) H D d
  | .throw e, Q, H, D, d => Q (.error e) H D d
  | .op o k, Q, H, D, d => ∀ d₁, O.Rely i H d d₁ → O.Inv d₁ → O.Pre i H o d₁ ∧
      ∀ x r d₂, M.exec i o x d₁ = some (r, d₂) → O.Inv d₂ → wp (k r) Q H (D ∪ O.touches o r) d₂
  | .lock l k, Q, H, D, d => l ∉ H ∧ (∀ l' ∈ H, O.rank l' < O.rank l) ∧
      ∀ d₁, O.Rely i H d d₁ → O.Inv d₁ → O.Active i H d₁ ∧
        (O.LockInv l d₁ → wp k Q (insert l H) D d₁)
  | .unlock l k, Q, H, D, d => l ∈ H ∧
      ∀ d₁, O.Rely i H d d₁ → O.Inv d₁ → O.Active i H d₁ ∧ O.LockInv l d₁ ∧
        ∃ D' ⊆ D, Clean M l D' ∧ (D' = D ∨ O.Lossy d₁) ∧ wp k Q (H.erase l) D' d₁
  | .wait w k, Q, H, D, d => H = {M.mutex w} ∧ D = ∅ ∧
      ∀ d₁, O.Rely i H d d₁ → O.Inv d₁ → O.Active i H d₁ ∧ O.LockInv (M.mutex w) d₁ ∧
        ∀ d₂, O.Rely i ∅ d₁ d₂ → O.Inv d₂ → O.Waits i w d₂ ∧
          (M.holds w d₂ = true → O.LockInv (M.mutex w) d₂ → wp k Q H D d₂)
  | .notify v k, Q, H, D, d => (∀ d₁, O.Rely i H d d₁ → O.Inv d₁ → O.Active i H d₁) ∧
      wp k Q H (D.erase v) d

variable {O i}

/-- Rule of consequence. -/
theorem wp_mono {p : Prog S ε α} {Q Q' : Post M ε α} (hQ : ∀ r H D d, Q r H D d → Q' r H D d)
    {H : Finset S.Lock} {D : Finset S.Cv} {d : M.Data} (h : O.wp i p Q H D d) :
    O.wp i p Q' H D d := by
  induction p generalizing H D d with
  | ret a => exact hQ _ _ _ _ h
  | throw e => exact hQ _ _ _ _ h
  | op o k ih =>
    intro d₁ hR hI
    obtain ⟨hpre, hk⟩ := h d₁ hR hI
    exact ⟨hpre, fun x r d₂ hx hI₂ => ih r (hk x r d₂ hx hI₂)⟩
  | lock l k ih =>
    refine ⟨h.1, h.2.1, fun d₁ hR hI => ?_⟩
    obtain ⟨hA, hk⟩ := h.2.2 d₁ hR hI
    exact ⟨hA, fun hL => ih (hk hL)⟩
  | unlock l k ih =>
    refine ⟨h.1, fun d₁ hR hI => ?_⟩
    obtain ⟨hA, hL, D', hsub, hclean, hD, hk⟩ := h.2 d₁ hR hI
    exact ⟨hA, hL, D', hsub, hclean, hD, ih hk⟩
  | wait w k ih =>
    refine ⟨h.1, h.2.1, fun d₁ hR hI => ?_⟩
    obtain ⟨hA, hL, hk⟩ := h.2.2 d₁ hR hI
    refine ⟨hA, hL, fun d₂ hR₂ hI₂ => ?_⟩
    obtain ⟨hw, hk₂⟩ := hk d₂ hR₂ hI₂
    exact ⟨hw, fun hp hL₂ => ih (hk₂ hp hL₂)⟩
  | notify v k ih => exact ⟨h.1, ih h.2⟩

/-- Sequencing. -/
theorem wp_bind {p : Prog S ε α} {f : α → Prog S ε β} {Q : Post M ε β}
    {H : Finset S.Lock} {D : Finset S.Cv} {d : M.Data} :
    O.wp i (p.bind f) Q H D d ↔
      O.wp i p (fun r H D d => match r with
        | .ok a => O.wp i (f a) Q H D d
        | .error e => Q (.error e) H D d) H D d := by
  induction p generalizing H D d with
  | ret a => exact Iff.rfl
  | throw e => exact Iff.rfl
  | op o k ih => simp only [Prog.bind, wp, ih]
  | lock l k ih => simp only [Prog.bind, wp, ih]
  | unlock l k ih => simp only [Prog.bind, wp, ih]
  | wait w k ih => simp only [Prog.bind, wp, ih]
  | notify v k ih => simp only [Prog.bind, wp, ih]

/-- Exception handling. -/
theorem wp_tryCatch {p : Prog S ε α} {h : ε → Prog S ε α} {Q : Post M ε α}
    {H : Finset S.Lock} {D : Finset S.Cv} {d : M.Data} :
    O.wp i (p.tryCatch h) Q H D d ↔
      O.wp i p (fun r H D d => match r with
        | .ok a => Q (.ok a) H D d
        | .error e => O.wp i (h e) Q H D d) H D d := by
  induction p generalizing H D d with
  | ret a => exact Iff.rfl
  | throw e => exact Iff.rfl
  | op o k ih => simp only [Prog.tryCatch, wp, ih]
  | lock l k ih => simp only [Prog.tryCatch, wp, ih]
  | unlock l k ih => simp only [Prog.tryCatch, wp, ih]
  | wait w k ih => simp only [Prog.tryCatch, wp, ih]
  | notify v k ih => simp only [Prog.tryCatch, wp, ih]

/-- A postcondition that the steps of other threads cannot break. -/
def StablePost (O : Outline M ε) (i : M.Thread) (Q : Post M ε α) : Prop :=
  ∀ r H D d d', Q r H D d → O.Rely i H d d' → O.Inv d' → Q r H D d'

/-- The weakest precondition of a stable postcondition is stable. -/
theorem wp_stable {p : Prog S ε α} {Q : Post M ε α} (hQ : O.StablePost i Q)
    {H : Finset S.Lock} {D : Finset S.Cv} {d d' : M.Data} (h : O.wp i p Q H D d)
    (hR : O.Rely i H d d') (hI : O.Inv d') : O.wp i p Q H D d' := by
  induction p generalizing H D d d' with
  | ret a => exact hQ _ _ _ _ _ h hR hI
  | throw e => exact hQ _ _ _ _ _ h hR hI
  | op o k ih => exact fun d₁ hR₁ hI₁ => h d₁ (O.rely_trans hR hR₁) hI₁
  | lock l k ih => exact ⟨h.1, h.2.1, fun d₁ hR₁ => h.2.2 d₁ (O.rely_trans hR hR₁)⟩
  | unlock l k ih => exact ⟨h.1, fun d₁ hR₁ => h.2 d₁ (O.rely_trans hR hR₁)⟩
  | wait w k ih => exact ⟨h.1, h.2.1, fun d₁ hR₁ => h.2.2 d₁ (O.rely_trans hR hR₁)⟩
  | notify v k ih => exact ⟨fun d₁ hR₁ => h.1 d₁ (O.rely_trans hR hR₁), ih h.2 hR hI⟩

/-- The end of a thread: nothing held, nothing left to notify, and `Done`. -/
def final (O : Outline M ε) (i : M.Thread) : Post M ε Unit := fun r H D d =>
  H = ∅ ∧ D = ∅ ∧ ∀ d₁, O.Rely i ∅ d d₁ → O.Inv d₁ → O.Done i r d₁

theorem final_stable : O.StablePost i (O.final i) := by
  rintro r H D d d' ⟨rfl, rfl, h⟩ hR _
  exact ⟨rfl, rfl, fun d₁ hR₁ => h d₁ (O.rely_trans hR hR₁)⟩

/-- What a sleeping or woken waiter needs in order to go on. -/
def Resumes (O : Outline M ε) (i : M.Thread) (w : S.Cond) (k : Prog S ε Unit) (d : M.Data) :
    Prop :=
  ∀ d₁, O.Rely i ∅ d d₁ → O.Inv d₁ → O.Waits i w d₁ ∧
    (M.holds w d₁ = true → O.LockInv (M.mutex w) d₁ →
      O.wp i k (O.final i) {M.mutex w} ∅ d₁)

/-- A thread is where its proof outline says. -/
def ThreadOk (O : Outline M ε) (i : M.Thread) (H : Finset S.Lock) (D : Finset S.Cv)
    (d : M.Data) : TState S ε → Prop
  | .run p => O.wp i p (O.final i) H D d
  | .asleep w k => H = ∅ ∧ D = ∅ ∧ O.Resumes i w k d
  | .woken w k => H = ∅ ∧ D = ∅ ∧ O.Resumes i w k d

theorem ThreadOk.stable {H : Finset S.Lock} {D : Finset S.Cv} {d d' : M.Data}
    {t : TState S ε} (h : O.ThreadOk i H D d t) (hR : O.Rely i H d d') (hI : O.Inv d') :
    O.ThreadOk i H D d' t := by
  cases t with
  | run p => exact wp_stable final_stable h hR hI
  | asleep w k =>
    obtain ⟨rfl, rfl, h⟩ := h
    exact ⟨rfl, rfl, fun d₁ hR₁ => h d₁ (O.rely_trans hR hR₁)⟩
  | woken w k =>
    obtain ⟨rfl, rfl, h⟩ := h
    exact ⟨rfl, rfl, fun d₁ hR₁ => h d₁ (O.rely_trans hR hR₁)⟩

end Outline

/-- The mutexes thread `i` holds. -/
def Config.held {M : Machine S} (c : Config M ε) (i : M.Thread) : Finset S.Lock :=
  Finset.univ.filter fun l => c.holder l = some i

namespace Config

variable {M : Machine S} {c : Config M ε} {i j : M.Thread} {l : S.Lock}

@[simp] theorem mem_held : l ∈ c.held i ↔ c.holder l = some i := by
  simp [held]

theorem held_disjoint (h : j ≠ i) : Disjoint (c.held j) (c.held i) := by
  rw [Finset.disjoint_left]
  intro l hj hi
  rw [mem_held] at hj hi
  exact h (Option.some.inj (hj.symm.trans hi))

theorem held_take (h : c.holder l = none) :
    (c.setHolder l (some i)).held i = insert l (c.held i) := by
  ext l'
  by_cases hl : l' = l
  · subst hl; simp
  · simp [setHolder_other, hl]

theorem held_take_other (h : c.holder l = none) (hj : j ≠ i) :
    (c.setHolder l (some i)).held j = c.held j := by
  ext l'
  by_cases hl : l' = l
  · subst hl; simp [h, Ne.symm hj]
  · simp [setHolder_other, hl]

theorem held_give : (c.setHolder l none).held i = (c.held i).erase l := by
  ext l'
  by_cases hl : l' = l
  · subst hl; simp
  · simp [setHolder_other, hl]

theorem held_give_other (h : c.holder l = some i) (hj : j ≠ i) :
    (c.setHolder l none).held j = c.held j := by
  ext l'
  by_cases hl : l' = l
  · subst hl; simp [h, Ne.symm hj]
  · simp [setHolder_other, hl]

theorem held_setThread {t : TState S ε} : (c.setThread i t).held j = c.held j := rfl

theorem held_wake {v : S.Cv} : (c.wake v).held j = c.held j := rfl

end Config

end Monitor
