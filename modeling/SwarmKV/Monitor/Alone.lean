import SwarmKV.Monitor.Logic

/-!
# Programs that are left alone

What a thread does when no other thread moves. It is the business of the environment how the
operations end that ask it; what it decides is given in advance, in the order in which it is
asked. A run that is possible alone is a run of the machine.
-/

namespace Monitor

variable {S : Sig} {ε α β : Type}

/-- A thread of `M` that is left alone. -/
structure Alone (M : Machine S) where
  thread : M.Thread
  /-- The operations whose outcome is open. -/
  asks : S.Op → Bool
  /-- The outcome of the other operations. -/
  calm : M.Choice

namespace Alone

/-- How a program ends: its outcome, the mutexes it still holds, the data, the decisions that
    nobody has asked for, and the operations it has performed. -/
structure End (M : Machine S) (ε α : Type) where
  outcome : Except ε α
  held : Finset S.Lock
  data : M.Data
  left : List M.Choice
  ops : List S.Op

variable {M : Machine S} (A : Alone M)

/-- The outcome of an operation, and the decisions that are left. -/
def choose (o : S.Op) : List M.Choice → Option (M.Choice × List M.Choice)
  | [] => if A.asks o then none else some (A.calm, [])
  | x :: xs => if A.asks o then some (x, xs) else some (A.calm, x :: xs)

/-- The run of a program by a thread that holds `H`, where the environment decides `xs`. There is
    none if the program blocks, or a decision is missing or does not apply. -/
def run : Prog S ε α → Finset S.Lock → M.Data → List M.Choice → Option (End M ε α)
  | .ret a, H, d, xs => some ⟨.ok a, H, d, xs, []⟩
  | .throw e, H, d, xs => some ⟨.error e, H, d, xs, []⟩
  | .op o k, H, d, xs =>
    match A.choose o xs with
    | none => none
    | some (x, ys) =>
      match M.exec A.thread o x d with
      | none => none
      | some (r, d') => (run (k r) H d' ys).map fun t => { t with ops := o :: t.ops }
  | .lock l k, H, d, xs => if l ∈ H then none else run k (insert l H) d xs
  | .unlock l k, H, d, xs => if l ∈ H then run k (H.erase l) d xs else none
  | .wait w k, H, d, xs => if M.mutex w ∈ H ∧ M.holds w d then run k H d xs else none
  | .notify _ k, H, d, xs => run k H d xs

/-- What follows a program that has ended. -/
def End.andThen (t : End M ε α) (f : α → Prog S ε β) : Option (End M ε β) :=
  match t.outcome with
  | .ok a => (A.run (f a) t.held t.data t.left).map fun u => { u with ops := t.ops ++ u.ops }
  | .error e => some ⟨.error e, t.held, t.data, t.left, t.ops⟩

/-- What follows a program that may have thrown. -/
def End.orElse (t : End M ε α) (h : ε → Prog S ε α) : Option (End M ε α) :=
  match t.outcome with
  | .ok a => some ⟨.ok a, t.held, t.data, t.left, t.ops⟩
  | .error e => (A.run (h e) t.held t.data t.left).map fun u => { u with ops := t.ops ++ u.ops }

variable {A} {H : Finset S.Lock} {d : M.Data} {xs : List M.Choice}

theorem run_op {o : S.Op} {k : S.Res o → Prog S ε α} {t : End M ε α}
    (h : A.run (.op o k) H d xs = some t) : ∃ x ys r d' u, A.choose o xs = some (x, ys) ∧
      M.exec A.thread o x d = some (r, d') ∧ A.run (k r) H d' ys = some u ∧
        t = { u with ops := o :: u.ops } := by
  simp only [run] at h
  split at h
  · cases h
  · rename_i x ys hx
    split at h
    · cases h
    · rename_i r d' hd
      obtain ⟨u, hu, rfl⟩ := Option.map_eq_some_iff.mp h
      exact ⟨x, ys, r, d', u, hx, hd, hu, rfl⟩

/-- Sequencing. -/
theorem run_bind {p : Prog S ε α} {f : α → Prog S ε β} :
    A.run (p.bind f) H d xs = (A.run p H d xs).bind fun t => t.andThen A f := by
  induction p generalizing H d xs with
  | ret a => simp [Prog.bind, run, End.andThen]
  | throw e => simp [Prog.bind, run, End.andThen]
  | op o k ih =>
    simp only [Prog.bind, run]
    split
    · rfl
    · split
      · rfl
      · rw [ih]
        cases A.run (k _) H _ _ with
        | none => rfl
        | some t =>
          obtain ⟨q, H', d', ys, os⟩ := t
          cases q with
          | error e => rfl
          | ok a => exact Option.map_map _ _ _
  | lock l k ih => simp only [Prog.bind, run, ih]; split <;> rfl
  | unlock l k ih => simp only [Prog.bind, run, ih]; split <;> rfl
  | wait w k ih => simp only [Prog.bind, run, ih]; split <;> rfl
  | notify v k ih => simp only [Prog.bind, run, ih]

/-- Exception handling. -/
theorem run_tryCatch {p : Prog S ε α} {h : ε → Prog S ε α} :
    A.run (p.tryCatch h) H d xs = (A.run p H d xs).bind fun t => t.orElse A h := by
  induction p generalizing H d xs with
  | ret a => simp [Prog.tryCatch, run, End.orElse]
  | throw e => simp [Prog.tryCatch, run, End.orElse]
  | op o k ih =>
    simp only [Prog.tryCatch, run]
    split
    · rfl
    · split
      · rfl
      · rw [ih]
        cases A.run (k _) H _ _ with
        | none => rfl
        | some t =>
          obtain ⟨q, H', d', ys, os⟩ := t
          cases q with
          | ok a => rfl
          | error e => exact Option.map_map _ _ _
  | lock l k ih => simp only [Prog.tryCatch, run, ih]; split <;> rfl
  | unlock l k ih => simp only [Prog.tryCatch, run, ih]; split <;> rfl
  | wait w k ih => simp only [Prog.tryCatch, run, ih]; split <;> rfl
  | notify v k ih => simp only [Prog.tryCatch, run, ih]

/-! ## Assertions -/

/-- What holds of the data and of the decisions that are left. -/
abbrev Assertion (M : Machine S) := M.Data → List M.Choice → Prop

/-- Where a run can end: normally with `Q`, with an exception and `X`, and with the same mutexes
    as it has started with. -/
def Ends (A : Alone M) (H : Finset S.Lock) (P : Assertion M) (p : Prog S ε α)
    (Q : α → Assertion M) (X : ε → Assertion M) : Prop :=
  ∀ d xs t, P d xs → A.run p H d xs = some t → t.held = H ∧ match t.outcome with
    | .ok a => Q a t.data t.left
    | .error e => X e t.data t.left

namespace Ends

variable {P I : Assertion M} {Q J : α → Assertion M} {X K : ε → Assertion M}

theorem ret {a : α} (h : ∀ d xs, P d xs → Q a d xs) :
    A.Ends H P (pure a : Prog S ε α) Q X := by
  intro d xs t hP hrun
  obtain rfl := Option.some.inj hrun
  exact ⟨rfl, h d xs hP⟩

theorem throw {e : ε} (h : ∀ d xs, P d xs → X e d xs) :
    A.Ends H P (MonadExcept.throw e : Prog S ε α) Q X := by
  intro d xs t hP hrun
  obtain rfl := Option.some.inj hrun
  exact ⟨rfl, h d xs hP⟩

/-- Rule of consequence. -/
theorem conseq {p : Prog S ε α} (h : A.Ends H I p J K) (hP : ∀ d xs, P d xs → I d xs)
    (hQ : ∀ a d xs, J a d xs → Q a d xs) (hX : ∀ e d xs, K e d xs → X e d xs) :
    A.Ends H P p Q X := by
  intro d xs t hd hrun
  obtain ⟨hH, hend⟩ := h d xs t (hP d xs hd) hrun
  refine ⟨hH, ?_⟩
  split at hend
  · exact hQ _ _ _ hend
  · exact hX _ _ _ hend

/-- The state in which a run starts can be fixed. -/
theorem fix {p : Prog S ε α}
    (h : ∀ d₀ xs₀, P d₀ xs₀ → A.Ends H (fun d xs => d = d₀ ∧ xs = xs₀) p Q X) :
    A.Ends H P p Q X :=
  fun d xs t hd hrun => h d xs hd d xs t ⟨rfl, rfl⟩ hrun

/-- Sequencing. -/
theorem bind {p : Prog S ε α} {f : α → Prog S ε β} {R : β → Assertion M}
    (hp : A.Ends H P p Q X) (hf : ∀ a, A.Ends H (Q a) (f a) R X) :
    A.Ends H P (p >>= f) R X := by
  intro d xs t hd hrun
  rw [show p >>= f = p.bind f from rfl, run_bind, Option.bind_eq_some_iff] at hrun
  obtain ⟨⟨r, H', d', ys, os⟩, hu, hthen⟩ := hrun
  obtain ⟨rfl, hend⟩ := hp d xs _ hd hu
  cases r with
  | error e =>
    obtain rfl := Option.some.inj hthen
    exact ⟨rfl, hend⟩
  | ok a =>
    obtain ⟨v, hv, rfl⟩ := Option.map_eq_some_iff.mp hthen
    exact hf a d' ys v hend hv

/-- Exception handling. -/
theorem catch' {p : Prog S ε α} {h : ε → Prog S ε α} (hp : A.Ends H P p Q K)
    (hh : ∀ e, A.Ends H (K e) (h e) Q X) : A.Ends H P (tryCatch p h) Q X := by
  intro d xs t hd hrun
  rw [show tryCatch p h = p.tryCatch h from rfl, run_tryCatch, Option.bind_eq_some_iff] at hrun
  obtain ⟨⟨r, H', d', ys, os⟩, hu, helse⟩ := hrun
  obtain ⟨rfl, hend⟩ := hp d xs _ hd hu
  cases r with
  | ok a =>
    obtain rfl := Option.some.inj helse
    exact ⟨rfl, hend⟩
  | error e =>
    obtain ⟨v, hv, rfl⟩ := Option.map_eq_some_iff.mp helse
    exact hh e d' ys v hend hv

theorem ite {c : Prop} [Decidable c] {p q : Prog S ε α} (hp : c → A.Ends H P p Q X)
    (hq : ¬ c → A.Ends H P q Q X) : A.Ends H P (if c then p else q) Q X := by
  split
  · exact hp ‹_›
  · exact hq ‹_›

/-- One operation. -/
theorem op {o : S.Op} {Q : S.Res o → Assertion M}
    (h : ∀ d xs x ys r d', P d xs → A.choose o xs = some (x, ys) →
      M.exec A.thread o x d = some (r, d') → Q r d' ys) :
    A.Ends H P (Prog.perform o) Q X := by
  intro d xs t hd hrun
  obtain ⟨x, ys, r, d', u, hx, hexec, hu, rfl⟩ := run_op hrun
  obtain rfl := Option.some.inj hu
  exact ⟨rfl, h d xs x ys r d' hd hx hexec⟩

theorem notifyAll {v : S.Cv} {Q : Unit → Assertion M} (h : ∀ d xs, P d xs → Q () d xs) :
    A.Ends H P (Prog.notifyAll v) Q X := by
  intro d xs t hd hrun
  obtain rfl := Option.some.inj hrun
  exact ⟨rfl, h d xs hd⟩

/-- A block under a mutex. -/
theorem withLock {l : S.Lock} {p : Prog S ε α} (hp : A.Ends (insert l H) P p Q X) :
    A.Ends H P (Prog.withLock l p) Q X := by
  intro d xs t hd hrun
  simp only [Prog.withLock, run] at hrun
  split at hrun
  · cases hrun
  rename_i hl
  have herase : (insert l H).erase l = H := Finset.erase_insert hl
  rw [run_bind, run_tryCatch, Option.bind_assoc, Option.bind_eq_some_iff] at hrun
  obtain ⟨⟨r, H', d', ys, os⟩, hu, hend⟩ := hrun
  obtain ⟨rfl, hpost⟩ := hp d xs _ hd hu
  cases r with
  | ok a =>
    simp only [End.orElse, End.andThen, Option.bind_some, run, Finset.mem_insert_self, if_true,
      Option.map_some, Option.some.injEq] at hend
    subst hend
    exact ⟨herase, hpost⟩
  | error e =>
    simp only [End.orElse, End.andThen, run, Finset.mem_insert_self, if_true,
      Option.map_some, Option.bind_some, Option.some.injEq] at hend
    subst hend
    exact ⟨herase, hpost⟩

end Ends

/-! ## Runs of the machine -/

/-- What a thread with this outcome has left to do. -/
def rest : Except ε Unit → Prog S ε Unit
  | .ok a => .ret a
  | .error e => .throw e

/-- A run that a thread makes alone is a run of the machine, when nobody else holds a mutex. -/
theorem run_reaches {p : Prog S ε Unit} {t : End M ε Unit} {c : Config M ε}
    (h : A.run p H d xs = some t) (hd : c.data = d) (hH : c.held A.thread = H)
    (hp : c.threads A.thread = .run p) (hfree : ∀ j, j ≠ A.thread → c.held j = ∅) :
    ∃ c', c.Reaches c' ∧ c'.data = t.data ∧ c'.held A.thread = t.held ∧
      c'.threads A.thread = .run (rest t.outcome) := by
  obtain ⟨x₀⟩ := M.neChoice
  -- a mutex that the thread does not hold is free
  have hnone : ∀ {c : Config M ε} {l}, (∀ j, j ≠ A.thread → c.held j = ∅) →
      l ∉ c.held A.thread → c.holder l = none := by
    intro c l hfree hl
    cases hj : c.holder l with
    | none => rfl
    | some j =>
      have hmem : l ∈ c.held j := Config.mem_held.mpr hj
      by_cases hne : j = A.thread
      · exact absurd (hne ▸ hmem) hl
      · rw [hfree j hne] at hmem
        exact absurd hmem (Finset.notMem_empty l)
  -- each action that the run makes is a step of the machine
  induction p generalizing H d xs t c with
  | ret a =>
    obtain rfl := Option.some.inj h
    exact ⟨c, .refl, hd, hH, hp⟩
  | throw e =>
    obtain rfl := Option.some.inj h
    exact ⟨c, .refl, hd, hH, hp⟩
  | op o k ih =>
    obtain ⟨x, ys, r, d', u, -, hx, hu, rfl⟩ := run_op h
    subst hd
    obtain ⟨c', hr, hc'⟩ := @ih r H d' ys u ({ c with data := d' }.setThread A.thread (.run (k r)))
      hu rfl hH (Config.setThread_same _ _ _) hfree
    exact ⟨c', .head ⟨A.thread, x, by simp [Config.step, hp, hx]⟩ hr, hc'⟩
  | lock l k ih =>
    simp only [run] at h
    split at h
    · cases h
    · rename_i hl
      subst hH
      have hl' := hnone hfree hl
      obtain ⟨c', hr, hc'⟩ := @ih _ _ _ _
        ((c.setHolder l (some A.thread)).setThread A.thread (.run k)) h hd
        (Config.held_take hl') (Config.setThread_same _ _ _) fun j hj =>
          (Config.held_take_other hl' hj).trans (hfree j hj)
      exact ⟨c', .head ⟨A.thread, x₀, by simp [Config.step, hp, hl']⟩ hr, hc'⟩
  | unlock l k ih =>
    simp only [run] at h
    split at h
    · rename_i hl
      subst hH
      have hl' := Config.mem_held.mp hl
      obtain ⟨c', hr, hc'⟩ := @ih _ _ _ _
        ((c.setHolder l none).setThread A.thread (.run k)) h hd
        Config.held_give (Config.setThread_same _ _ _) fun j hj =>
          (Config.held_give_other hl' hj).trans (hfree j hj)
      exact ⟨c', .head ⟨A.thread, x₀, by simp [Config.step, hp, hl']⟩ hr, hc'⟩
    · cases h
  | wait w k ih =>
    simp only [run] at h
    split at h
    · rename_i hw
      subst hH hd
      have hl' := Config.mem_held.mp hw.1
      obtain ⟨c', hr, hc'⟩ := @ih _ _ _ _ (c.setThread A.thread (.run k)) h rfl rfl
        (Config.setThread_same _ _ _) hfree
      exact ⟨c', .head ⟨A.thread, x₀, by simp [Config.step, hp, hl', hw.2]⟩ hr, hc'⟩
    · cases h
  | notify v k ih =>
    obtain ⟨c', hr, hc'⟩ := @ih _ _ _ _ ((c.wake v).setThread A.thread (.run k)) h hd hH
      (Config.setThread_same _ _ _) hfree
    exact ⟨c', .head ⟨A.thread, x₀, by simp [Config.step, hp]⟩ hr, hc'⟩

end Alone

end Monitor
