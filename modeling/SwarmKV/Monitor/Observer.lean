import SwarmKV.Monitor.Trace

/-!
# Observers

An observer watches a single thread: it keeps a state that each action of the thread moves
on, and says in each state which actions it accepts. Whether a program only does what its
observer accepts is a question about the program alone (`Observer.Meets`), for which there
are the usual rules (`Observer.Spec`). What the observers of all threads have seen in a run
is a function of its trace (`Observer.state`), so a property of a run is proved by tying the
observers' states to the shared data, one action at a time (`Config.Run.observe`).

An observer can take things for granted about the answers (`ans`). That they are given as
expected is part of what has to be shown of a run.
-/

namespace Monitor

variable {S : Sig} {σ ε ε' α β : Type}

/-- An observer of a thread, with states `σ`. -/
structure Observer (S : Sig) (σ : Type) where
  start : σ
  /-- The state after an action. -/
  next : σ → (a : Action S) → a.Res → σ
  /-- The thread may do this. -/
  ok : σ → Action S → Prop
  /-- The action may be answered like this. -/
  ans : σ → (a : Action S) → a.Res → Prop := fun _ _ _ => True

namespace Observer

variable (A : Observer S σ)

/-- `p` does from state `s` on what `A` accepts, and ends with `Q`. -/
def Meets : Prog S ε α → (Except ε α → σ → Prop) → σ → Prop
  | .ret a, Q, s => Q (.ok a) s
  | .throw e, Q, s => Q (.error e) s
  | .op o k, Q, s => A.ok s (.op o) ∧
    ∀ r, A.ans s (.op o) r → Meets (k r) Q (A.next s (.op o) r)
  | .lock l k, Q, s => A.ok s (.lock l) ∧
    (A.ans s (.lock l) () → Meets k Q (A.next s (.lock l) ()))
  | .unlock l k, Q, s => A.ok s (.unlock l) ∧
    (A.ans s (.unlock l) () → Meets k Q (A.next s (.unlock l) ()))
  | .wait w k, Q, s => A.ok s (.wait w) ∧
    (A.ans s (.wait w) () → Meets k Q (A.next s (.wait w) ()))
  | .notify v k, Q, s => A.ok s (.notify v) ∧
    (A.ans s (.notify v) () → Meets k Q (A.next s (.notify v) ()))

/-- A program that starts with `P` returns with `Q` or throws with `X`. -/
def Spec (P : σ → Prop) (p : Prog S ε α) (Q : α → σ → Prop) (X : ε → σ → Prop) : Prop :=
  ∀ s, P s → A.Meets p (fun r s => match r with
    | .ok a => Q a s
    | .error e => X e s) s

/-- An action that is accepted in all states of `I`, and stays in `I`. -/
def Keeps (I : σ → Prop) (a : Action S) : Prop :=
  ∀ s, I s → A.ok s a ∧ ∀ r, A.ans s a r → I (A.next s a r)

variable {A}

/-- Rule of consequence. -/
theorem Meets.mono {p : Prog S ε α} {Q J : Except ε α → σ → Prop} {s : σ}
    (h : A.Meets p Q s) (hQ : ∀ r s, Q r s → J r s) : A.Meets p J s := by
  induction p generalizing s with
  | ret a => exact hQ _ _ h
  | throw e => exact hQ _ _ h
  | op o k ih => exact ⟨h.1, fun r hr => ih r (h.2 r hr)⟩
  | lock l k ih => exact ⟨h.1, fun hr => ih (h.2 hr)⟩
  | unlock l k ih => exact ⟨h.1, fun hr => ih (h.2 hr)⟩
  | wait w k ih => exact ⟨h.1, fun hr => ih (h.2 hr)⟩
  | notify v k ih => exact ⟨h.1, fun hr => ih (h.2 hr)⟩

theorem meets_bind {p : Prog S ε α} {f : α → Prog S ε β} {Q : Except ε β → σ → Prop} {s : σ} :
    A.Meets (p.bind f) Q s ↔ A.Meets p (fun r s => match r with
      | .ok a => A.Meets (f a) Q s
      | .error e => Q (.error e) s) s := by
  induction p generalizing s with
  | ret a => exact Iff.rfl
  | throw e => exact Iff.rfl
  | op o k ih => simp only [Prog.bind, Meets, ih]
  | lock l k ih => simp only [Prog.bind, Meets, ih]
  | unlock l k ih => simp only [Prog.bind, Meets, ih]
  | wait w k ih => simp only [Prog.bind, Meets, ih]
  | notify v k ih => simp only [Prog.bind, Meets, ih]

theorem meets_tryCatch {p : Prog S ε α} {h : ε → Prog S ε α} {Q : Except ε α → σ → Prop}
    {s : σ} :
    A.Meets (p.tryCatch h) Q s ↔ A.Meets p (fun r s => match r with
      | .ok a => Q (.ok a) s
      | .error e => A.Meets (h e) Q s) s := by
  induction p generalizing s with
  | ret a => exact Iff.rfl
  | throw e => exact Iff.rfl
  | op o k ih => simp only [Prog.tryCatch, Meets, ih]
  | lock l k ih => simp only [Prog.tryCatch, Meets, ih]
  | unlock l k ih => simp only [Prog.tryCatch, Meets, ih]
  | wait w k ih => simp only [Prog.tryCatch, Meets, ih]
  | notify v k ih => simp only [Prog.tryCatch, Meets, ih]

namespace Spec

variable {P I : σ → Prop} {Q J : α → σ → Prop} {X K : ε → σ → Prop}

theorem ret {a : α} (h : ∀ s, P s → Q a s) :
    A.Spec P (pure a : Prog S ε α) Q X :=
  fun s hs => h s hs

theorem throw {e : ε} (h : ∀ s, P s → X e s) :
    A.Spec P (MonadExcept.throw e : Prog S ε α) Q X :=
  fun s hs => h s hs

/-- Rule of consequence. -/
theorem conseq {p : Prog S ε α} (h : A.Spec I p J K) (hP : ∀ s, P s → I s)
    (hQ : ∀ a s, J a s → Q a s) (hX : ∀ e s, K e s → X e s) : A.Spec P p Q X := by
  intro s hs
  refine (h s (hP s hs)).mono fun r s hr => ?_
  cases r with
  | ok a => exact hQ a s hr
  | error e => exact hX e s hr

/-- A weaker start will do. -/
theorem pre {p : Prog S ε α} (h : A.Spec I p Q X) (hP : ∀ s, P s → I s) : A.Spec P p Q X :=
  h.conseq hP (fun _ _ hs => hs) fun _ _ hs => hs

/-- Less is asked of a normal end. -/
theorem post {p : Prog S ε α} (h : A.Spec P p J X) (hQ : ∀ a s, J a s → Q a s) : A.Spec P p Q X :=
  h.conseq (fun _ hs => hs) hQ fun _ _ hs => hs

/-- Less is asked of an exception. -/
theorem err {p : Prog S ε α} (h : A.Spec P p Q K) (hX : ∀ e s, K e s → X e s) : A.Spec P p Q X :=
  h.conseq (fun _ hs => hs) (fun _ _ hs => hs) hX

/-- A program that throws nothing throws only what is allowed. -/
theorem noThrow {p : Prog S ε α} (h : A.Spec P p Q fun _ _ => False) : A.Spec P p Q X :=
  h.err fun _ _ hs => hs.elim

/-- A fact about the start state can be taken out of it. -/
theorem fix {p : Prog S ε α} (h : ∀ s₀, P s₀ → A.Spec (· = s₀) p Q X) : A.Spec P p Q X :=
  fun s hs => h s hs s rfl

theorem assume {φ : Prop} {p : Prog S ε α} (h : φ → A.Spec P p Q X) :
    A.Spec (fun s => P s ∧ φ) p Q X :=
  fun s hs => h hs.2 s hs.1

/-- Sequencing. -/
theorem bind {p : Prog S ε α} {f : α → Prog S ε β} {R : β → σ → Prop}
    (hp : A.Spec P p Q X) (hf : ∀ a, A.Spec (Q a) (f a) R X) : A.Spec P (p >>= f) R X := by
  intro s hs
  refine meets_bind.mpr ((hp s hs).mono fun r s hr => ?_)
  cases r with
  | ok a => exact hf a s hr
  | error e => exact hr

/-- Exception handling. -/
theorem catch' {p : Prog S ε α} {h : ε → Prog S ε α} (hp : A.Spec P p Q K)
    (hh : ∀ e, A.Spec (K e) (h e) Q X) : A.Spec P (tryCatch p h) Q X := by
  intro s hs
  refine meets_tryCatch.mpr ((hp s hs).mono fun r s hr => ?_)
  cases r with
  | ok a => exact hr
  | error e => exact hh e s hr

/-- An attempt does not throw. -/
theorem attempt {p : Prog S ε α} (hp : A.Spec P p Q X) :
    A.Spec P p.attempt (fun r s => match r with
      | .ok a => Q a s
      | .error e => X e s) K := by
  intro s hs
  refine meets_tryCatch.mpr (meets_bind.mpr ((hp s hs).mono fun r s hr => ?_))
  cases r <;> exact hr

theorem ite {c : Prop} [Decidable c] {p q : Prog S ε α} (hp : c → A.Spec P p Q X)
    (hq : ¬ c → A.Spec P q Q X) : A.Spec P (if c then p else q) Q X := by
  split
  · exact hp ‹_›
  · exact hq ‹_›

/-- One operation. -/
theorem op {o : S.Op} {Q : S.Res o → σ → Prop}
    (h : ∀ s, P s → A.ok s (.op o) ∧ ∀ r, A.ans s (.op o) r → Q r (A.next s (.op o) r)) :
    A.Spec P (Prog.perform o) Q X :=
  fun s hs => h s hs

theorem await {w : S.Cond} {Q : Unit → σ → Prop}
    (h : ∀ s, P s → A.ok s (.wait w) ∧ (A.ans s (.wait w) () → Q () (A.next s (.wait w) ()))) :
    A.Spec P (Prog.await w) Q X :=
  fun s hs => h s hs

theorem notifyAll {v : S.Cv} {Q : Unit → σ → Prop}
    (h : ∀ s, P s → A.ok s (.notify v) ∧
      (A.ans s (.notify v) () → Q () (A.next s (.notify v) ()))) :
    A.Spec P (Prog.notifyAll v) Q X :=
  fun s hs => h s hs

/-- A block under a mutex. -/
theorem withLock {l : S.Lock} {p : Prog S ε α}
    (hlock : ∀ s, P s → A.ok s (.lock l) ∧
      (A.ans s (.lock l) () → I (A.next s (.lock l) ())))
    (hp : A.Spec I p J K)
    (hok : ∀ a s, J a s → A.ok s (.unlock l) ∧
      (A.ans s (.unlock l) () → Q a (A.next s (.unlock l) ())))
    (herr : ∀ e s, K e s → A.ok s (.unlock l) ∧
      (A.ans s (.unlock l) () → X e (A.next s (.unlock l) ()))) :
    A.Spec P (Prog.withLock l p) Q X := by
  intro s hs
  refine ⟨(hlock s hs).1, fun hans => ?_⟩
  refine meets_bind.mpr (meets_tryCatch.mpr ((hp _ ((hlock s hs).2 hans)).mono fun r s hr => ?_))
  cases r with
  | ok a => exact hok a s hr
  | error e => exact herr e s hr

/-- A block under a mutex that the assertions do not mind. -/
theorem withLock_of_keeps {l : S.Lock} {p : Prog S ε α} (hlock : A.Keeps P (.lock l))
    (hp : A.Spec P p Q X) (hok : ∀ a, A.Keeps (Q a) (.unlock l))
    (herr : ∀ e, A.Keeps (X e) (.unlock l)) : A.Spec P (Prog.withLock l p) Q X :=
  .withLock (fun s hs => ⟨(hlock s hs).1, (hlock s hs).2 ()⟩) hp
    (fun a s hs => ⟨(hok a s hs).1, (hok a s hs).2 ()⟩)
    fun e s hs => ⟨(herr e s hs).1, (herr e s hs).2 ()⟩

end Spec

/-- The observer that accepts the actions `U` and remembers nothing. -/
def allows (U : Action S → Prop) : Observer S Unit where
  start := ()
  next := fun _ _ _ => ()
  ok := fun _ => U

end Observer

/-- An observer that accepts everything does so of every program. -/
theorem Observer.Meets.of_all {A : Observer S σ} (h : ∀ s a, A.ok s a) (p : Prog S ε α) (s : σ) :
    A.Meets p (fun _ _ => True) s := by
  induction p generalizing s with
  | ret a => trivial
  | throw e => trivial
  | op o k ih => exact ⟨h s _, fun r _ => ih r _⟩
  | lock l k ih => exact ⟨h s _, fun _ => ih _⟩
  | unlock l k ih => exact ⟨h s _, fun _ => ih _⟩
  | wait w k ih => exact ⟨h s _, fun _ => ih _⟩
  | notify v k ih => exact ⟨h s _, fun _ => ih _⟩

/-! ## Footprints -/

namespace Prog

/-- All actions of the program are in `U`, whatever it is answered. -/
def Uses (U : Action S → Prop) (p : Prog S ε α) : Prop :=
  (Observer.allows U).Meets p (fun _ _ => True) ()

variable {U U' : Action S → Prop}

theorem uses_iff_spec {p : Prog S ε α} :
    p.Uses U ↔ (Observer.allows U).Spec (fun _ => True) p (fun _ _ => True) fun _ _ => True := by
  constructor
  · intro h s _
    refine Observer.Meets.mono h fun r s _ => ?_
    cases r <;> trivial
  · intro h
    exact Observer.Meets.mono (h () trivial) fun _ _ _ => trivial

theorem Uses.ret (a : α) : (pure a : Prog S ε α).Uses U := trivial

theorem Uses.throw (e : ε) : (MonadExcept.throw e : Prog S ε α).Uses U := trivial

theorem Uses.perform {o : S.Op} (h : U (.op o)) : (Prog.perform o : Prog S ε _).Uses U :=
  ⟨h, fun _ _ => trivial⟩

theorem Uses.await {w : S.Cond} (h : U (.wait w)) : (Prog.await w : Prog S ε Unit).Uses U :=
  ⟨h, fun _ => trivial⟩

theorem Uses.notifyAll {v : S.Cv} (h : U (.notify v)) :
    (Prog.notifyAll v : Prog S ε Unit).Uses U :=
  ⟨h, fun _ => trivial⟩

theorem Uses.bind {p : Prog S ε α} {f : α → Prog S ε β} (hp : p.Uses U)
    (hf : ∀ a, (f a).Uses U) : (p >>= f).Uses U :=
  uses_iff_spec.mpr (.bind (uses_iff_spec.mp hp) fun a => uses_iff_spec.mp (hf a))

theorem Uses.catch' {p : Prog S ε α} {h : ε → Prog S ε α} (hp : p.Uses U)
    (hh : ∀ e, (h e).Uses U) : (tryCatch p h).Uses U :=
  uses_iff_spec.mpr (.catch' (uses_iff_spec.mp hp) fun e => uses_iff_spec.mp (hh e))

theorem Uses.ite {c : Prop} [Decidable c] {p q : Prog S ε α} (hp : p.Uses U) (hq : q.Uses U) :
    (if c then p else q).Uses U := by
  split
  · exact hp
  · exact hq

theorem Uses.withLock {l : S.Lock} {p : Prog S ε α} (hl : U (.lock l)) (hu : U (.unlock l))
    (hp : p.Uses U) : (Prog.withLock l p).Uses U :=
  uses_iff_spec.mpr (.withLock (I := fun _ => True) (J := fun _ _ => True)
    (K := fun _ _ => True) (fun _ _ => ⟨hl, fun _ => trivial⟩) (uses_iff_spec.mp hp)
    (fun _ _ _ => ⟨hu, fun _ => trivial⟩) fun _ _ _ => ⟨hu, fun _ => trivial⟩)

end Prog

namespace Observer

variable {A : Observer S σ} {U : Action S → Prop} {I : σ → Prop}

/-- A program whose actions all keep `I` keeps `I`. -/
theorem Spec.of_uses {p : Prog S ε α} (hp : p.Uses U) (hU : ∀ a, U a → A.Keeps I a) :
    A.Spec I p (fun _ => I) fun _ => I := by
  intro s hs
  unfold Prog.Uses at hp
  induction p generalizing s with
  | ret a => exact hs
  | throw e => exact hs
  | op o k ih =>
    obtain ⟨hok, hnext⟩ := hU _ hp.1 s hs
    exact ⟨hok, fun r hr => ih r (hp.2 r trivial) _ (hnext r hr)⟩
  | lock l k ih =>
    obtain ⟨hok, hnext⟩ := hU _ hp.1 s hs
    exact ⟨hok, fun hr => ih (hp.2 trivial) _ (hnext () hr)⟩
  | unlock l k ih =>
    obtain ⟨hok, hnext⟩ := hU _ hp.1 s hs
    exact ⟨hok, fun hr => ih (hp.2 trivial) _ (hnext () hr)⟩
  | wait w k ih =>
    obtain ⟨hok, hnext⟩ := hU _ hp.1 s hs
    exact ⟨hok, fun hr => ih (hp.2 trivial) _ (hnext () hr)⟩
  | notify v k ih =>
    obtain ⟨hok, hnext⟩ := hU _ hp.1 s hs
    exact ⟨hok, fun hr => ih (hp.2 trivial) _ (hnext () hr)⟩

end Observer

theorem Prog.Uses.mono {U U' : Action S → Prop} {p : Prog S ε α} (hp : p.Uses U)
    (hU : ∀ a, U a → U' a) : p.Uses U' :=
  uses_iff_spec.mpr ((Observer.Spec.of_uses (I := fun _ => True) hp
    fun a ha _ _ => ⟨hU a ha, fun _ _ => trivial⟩))

theorem Prog.Uses.attempt {U : Action S → Prop} {p : Prog S ε α} (hp : p.Uses U) :
    p.attempt.Uses U :=
  .catch' (.bind hp fun _ => .ret _) fun _ => .ret _

/-! ## Runs -/

section Runs

variable {M : Machine S} {A : M.Thread → Observer S σ} {c c₀ c' : Config M ε} {tr : Trace M}
  {Q : M.Thread → Except ε Unit → σ → Prop}

/-- What the observer of each thread has seen of a trace. -/
def Observer.state (A : M.Thread → Observer S σ) : Trace M → M.Thread → σ
  | [], i => (A i).start
  | e :: tr, i =>
    if e.thread = i then (A i).next (state A tr i) e.action e.answer else state A tr i

namespace Observer

@[simp] theorem state_nil (i : M.Thread) : state A [] i = (A i).start := rfl

@[simp] theorem state_act (tr : Trace M) (i : M.Thread) (a : Action S) (r : a.Res) (d : M.Data) :
    state A (⟨i, a, r, d⟩ :: tr) i = (A i).next (state A tr i) a r :=
  if_pos rfl

theorem state_same {e : Entry M} :
    state A (e :: tr) e.thread = (A e.thread).next (state A tr e.thread) e.action e.answer :=
  if_pos rfl

theorem state_other {e : Entry M} {i : M.Thread} (h : i ≠ e.thread) :
    state A (e :: tr) i = state A tr i :=
  if_neg (Ne.symm h)

/-- Observers that keep track of a mutex know who has taken it. -/
theorem state_holding {l : S.Lock} {held : σ → Bool} (hstart : ∀ i, held (A i).start = false)
    (hnext : ∀ i s a r, held ((A i).next s a r) = a.holding l (held s)) (tr : Trace M)
    (i : M.Thread) : held (state A tr i) = tr.holding i l := by
  induction tr with
  | nil => exact hstart i
  | cons e tr ih =>
    simp only [state, Trace.holding]
    split
    · rw [hnext, ih]
    · exact ih

/-- The program of each thread does what its observer expects. -/
def Follows (A : M.Thread → Observer S σ) (Q : M.Thread → Except ε Unit → σ → Prop)
    (tr : Trace M) (c : Config M ε) : Prop :=
  ∀ i, (A i).Meets (c.threads i).prog (Q i) (state A tr i)

/-- An action that is answered is accepted by the observer of its thread, and leaves the thread where
    the observer expects it. -/
theorem Meets.acts {A : Observer S σ} {Q : Except ε Unit → σ → Prop} {s : σ} {e : Entry M}
    (hm : A.Meets (c.threads e.thread).prog Q s) (he : c.Acts e c') :
    A.ok s e.action ∧ (A.ans s e.action e.answer →
      A.Meets (c'.threads e.thread).prog Q (A.next s e.action e.answer)) := by
  cases he with
  | op ht hx =>
    rw [ht] at hm
    refine ⟨hm.1, fun hans => ?_⟩
    simpa [TState.prog] using hm.2 _ hans
  | resume ht hl hw =>
    rw [ht] at hm
    refine ⟨hm.1, fun hans => ?_⟩
    simpa [TState.prog] using hm.2 hans
  | _ ht =>
    rw [ht] at hm
    refine ⟨hm.1, fun hans => ?_⟩
    simpa [TState.prog] using hm.2 hans

/-- The other threads follow as before. -/
theorem Follows.acts (h : Follows A Q tr c) {e : Entry M} (he : c.Acts e c') :
    (A e.thread).ok (state A tr e.thread) e.action ∧
      ((A e.thread).ans (state A tr e.thread) e.action e.answer → Follows A Q (e :: tr) c') := by
  obtain ⟨hok, hnext⟩ := (h e.thread).acts he
  refine ⟨hok, fun hans i => ?_⟩
  by_cases hi : i = e.thread
  · subst hi
    rw [state_same]
    exact hnext hans
  · rw [state_other hi, he.prog_other hi]
    exact h i

theorem Follows.silent (h : Follows A Q tr c) (hs : c.Silent c') : Follows A Q tr c' := by
  intro i
  rw [hs.prog i]
  exact h i

end Observer

open Observer

namespace Config

/-- Watching a run, as long as `P` holds of its trace. If the programs do what their observers
    accept, and each accepted action is answered as expected and keeps `R`, then `R` holds in
    every state of the run. -/
theorem Run.observe_while {P : Trace M → Prop} {R : Trace M → Config M ε → Prop}
    (hP : ∀ {e tr}, P (e :: tr) → P tr)
    (hstart : ∀ i, (A i).Meets (c₀.threads i).prog (Q i) (A i).start) (hR : R [] c₀)
    (hact : ∀ {tr c e c'}, c₀.Run tr c → P (e :: tr) → R tr c → c.Acts e c' →
      (A e.thread).ok (Observer.state A tr e.thread) e.action →
      (A e.thread).ans (Observer.state A tr e.thread) e.action e.answer ∧ R (e :: tr) c')
    (hsilent : ∀ {tr c c'}, c₀.Run tr c → R tr c → c.Silent c' → R tr c')
    (hr : c₀.Run tr c) (h : P tr) : R tr c ∧ Follows A Q tr c := by
  induction hr with
  | start => exact ⟨hR, hstart⟩
  | act hrun he ih =>
    obtain ⟨hold, hfollows⟩ := ih (hP h)
    obtain ⟨hok, hnext⟩ := hfollows.acts he
    obtain ⟨hans, hR'⟩ := hact hrun h hold he hok
    exact ⟨hR', hnext hans⟩
  | silent hrun hs ih =>
    obtain ⟨hold, hfollows⟩ := ih h
    exact ⟨hsilent hrun hold hs, hfollows.silent hs⟩

/-- Watching a single thread of a run, as long as `P` holds of its trace. Nothing is asked of the
    others. -/
theorem Run.observe_one {P : Trace M → Prop} {R : Trace M → Config M ε → Prop} {i : M.Thread}
    {Q : Except ε Unit → σ → Prop} (hP : ∀ {e tr}, P (e :: tr) → P tr)
    (hstart : (A i).Meets (c₀.threads i).prog Q (A i).start) (hR : R [] c₀)
    (hact : ∀ {tr c e c'}, c₀.Run tr c → P (e :: tr) → R tr c → c.Acts e c' →
      (e.thread = i → (A i).ok (Observer.state A tr i) e.action) →
      (e.thread = i → (A i).ans (Observer.state A tr i) e.action e.answer) ∧ R (e :: tr) c')
    (hsilent : ∀ {tr c c'}, c₀.Run tr c → R tr c → c.Silent c' → R tr c')
    (hr : c₀.Run tr c) (h : P tr) :
    R tr c ∧ (A i).Meets (c.threads i).prog Q (Observer.state A tr i) := by
  induction hr with
  | start => exact ⟨hR, hstart⟩
  | @act tr c c' e hrun he ih =>
    obtain ⟨hold, hmeets⟩ := ih (hP h)
    by_cases hi : e.thread = i
    · subst hi
      obtain ⟨hok, hnext⟩ := hmeets.acts he
      obtain ⟨hans, hR'⟩ := hact hrun h hold he fun _ => hok
      rw [state_same]
      exact ⟨hR', hnext (hans rfl)⟩
    · obtain ⟨-, hR'⟩ := hact hrun h hold he fun heq => absurd heq hi
      rw [state_other (Ne.symm hi), he.prog_other (Ne.symm hi)]
      exact ⟨hR', hmeets⟩
  | silent hrun hs ih =>
    obtain ⟨hold, hmeets⟩ := ih h
    rw [hs.prog i]
    exact ⟨hsilent hrun hold hs, hmeets⟩

/-- Watching a run to its end. -/
theorem Run.observe {R : Trace M → Config M ε → Prop}
    (hstart : ∀ i, (A i).Meets (c₀.threads i).prog (Q i) (A i).start) (hR : R [] c₀)
    (hact : ∀ {tr c e c'}, c₀.Run tr c → R tr c → c.Acts e c' →
      (A e.thread).ok (Observer.state A tr e.thread) e.action →
      (A e.thread).ans (Observer.state A tr e.thread) e.action e.answer ∧ R (e :: tr) c')
    (hsilent : ∀ {tr c c'}, c₀.Run tr c → R tr c → c.Silent c' → R tr c')
    (hr : c₀.Run tr c) : R tr c ∧ Follows A Q tr c :=
  hr.observe_while (P := fun _ => True) id hstart hR (fun hrun _ => hact hrun) hsilent trivial

/-- Watching a run with observers that expect nothing of the answers. -/
theorem Run.follows (hstart : ∀ i, (A i).Meets (c₀.threads i).prog (Q i) (A i).start)
    (hans : ∀ i s a r, (A i).ans s a r) (hr : c₀.Run tr c) : Follows A Q tr c :=
  (hr.observe (R := fun _ _ => True) hstart trivial (fun _ _ _ _ => ⟨hans _ _ _ _, trivial⟩)
    fun _ _ _ => trivial).2

end Config

namespace Observer

/-- A thread that has ended has ended as its observer expects. -/
theorem Follows.of_ret (h : Follows A Q tr c) {i : M.Thread} (hi : c.threads i = .run (.ret ())) :
    Q i (.ok ()) (state A tr i) := by
  have hm := h i
  rw [hi] at hm
  exact hm

theorem Follows.of_throw (h : Follows A Q tr c) {i : M.Thread} {e : ε}
    (hi : c.threads i = .run (.throw e)) : Q i (.error e) (state A tr i) := by
  have hm := h i
  rw [hi] at hm
  exact hm

/-- An operation that a thread is about to perform is accepted. -/
theorem Follows.ok_of_atOp (h : Follows A Q tr c) {i : M.Thread} {o : S.Op} (hi : c.AtOp i o) :
    (A i).ok (state A tr i) (.op o) := by
  obtain ⟨k, hk⟩ := hi
  have hm := h i
  rw [hk] at hm
  exact hm.1

end Observer

/-- The footprint of a program bounds what its thread does in a run. -/
theorem Config.Run.uses {U : M.Thread → Action S → Prop} (hr : c₀.Run tr c)
    (hstart : ∀ i, (c₀.threads i).prog.Uses (U i)) {i : M.Thread} {o : S.Op} (hi : c.AtOp i o) :
    U i (.op o) :=
  (hr.follows (A := fun i => .allows (U i)) (Q := fun _ _ _ => True) hstart
    fun _ _ _ _ => trivial).ok_of_atOp hi

end Runs

end Monitor
