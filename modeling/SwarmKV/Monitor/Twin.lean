import SwarmKV.Monitor.Alone

/-!
# Two runs side by side

Two programs that are left alone, each with its own data and decisions: whenever the first one
ends, the second one ends in the same way, and what the two leave behind is related. The programs
need not be the same. A program that was handed a name by the machine is related to itself with
another name.
-/

namespace Monitor.Alone

variable {S : Sig} {M : Machine S} {ε α β γ δ ν : Type}

/-- What holds of two runs: of the data and of the decisions that are left. -/
abbrev Pairing (M : Machine S) := M.Data → List M.Choice → M.Data → List M.Choice → Prop

/-- Two runs have ended alike, with the mutexes `H` and the same view of their operations:
    normally with `Q`, or with an exception and `X`. -/
structure End.Pairs (see : S.Op → Option ν) (H : Finset S.Lock) (Q : α → β → Pairing M)
    (X : ε → Pairing M) (t : End M ε α) (t' : End M ε β) : Prop where
  held : t.held = H ∧ t'.held = H
  ops : t.ops.filterMap see = t'.ops.filterMap see
  outcome : match t.outcome, t'.outcome with
    | .ok a, .ok b => Q a b t.data t.left t'.data t'.left
    | .error e, .error e' => e = e' ∧ X e t.data t.left t'.data t'.left
    | _, _ => False

/-- If it does not matter how they end, they have ended in the same way. -/
theorem End.Pairs.same {see : S.Op → Option ν} {H : Finset S.Lock} {P : Pairing M}
    {t t' : End M ε Unit} (h : t.Pairs see H (fun _ _ => P) (fun _ => P) t') :
    t'.outcome = t.outcome ∧ P t.data t.left t'.data t'.left := by
  obtain ⟨r, H₁, d, xs, os⟩ := t
  obtain ⟨r', H₁', d', xs', os'⟩ := t'
  have hend := h.outcome
  cases r with
  | ok a =>
    cases r' with
    | ok b => exact ⟨rfl, hend⟩
    | error e' => exact hend.elim
  | error e =>
    cases r' with
    | ok b => exact hend.elim
    | error e' => exact ⟨congrArg Except.error hend.1.symm, hend.2⟩

/-- From `P`, the run of `p'` ends like the one of `p`. -/
def Twin (A : Alone M) (see : S.Op → Option ν) (H : Finset S.Lock) (P : Pairing M)
    (p : Prog S ε α) (p' : Prog S ε β) (Q : α → β → Pairing M) (X : ε → Pairing M) : Prop :=
  ∀ d xs d' xs' t, P d xs d' xs' → A.run p H d xs = some t →
    ∃ t', A.run p' H d' xs' = some t' ∧ t.Pairs see H Q X t'

namespace Twin

variable {A : Alone M} {see : S.Op → Option ν} {H : Finset S.Lock} {P I : Pairing M}
  {Q J : α → β → Pairing M} {X K : ε → Pairing M} {p : Prog S ε α} {p' : Prog S ε β}

/-- Two programs that do nothing. -/
theorem idle {a : α} {b : β} (hp : ∀ d xs, A.run p H d xs = some ⟨.ok a, H, d, xs, []⟩)
    (hp' : ∀ d xs, A.run p' H d xs = some ⟨.ok b, H, d, xs, []⟩)
    (h : ∀ d xs d' xs', P d xs d' xs' → Q a b d xs d' xs') : A.Twin see H P p p' Q X := by
  intro d xs d' xs' t hP hrun
  rw [hp] at hrun
  obtain rfl := Option.some.inj hrun
  exact ⟨_, hp' d' xs', ⟨rfl, rfl⟩, rfl, h d xs d' xs' hP⟩

theorem ret {a : α} {b : β} (h : ∀ d xs d' xs', P d xs d' xs' → Q a b d xs d' xs') :
    A.Twin see H P (pure a : Prog S ε α) (pure b : Prog S ε β) Q X :=
  .idle (fun _ _ => rfl) (fun _ _ => rfl) h

/-- Nothing starts like this. -/
theorem never (h : ∀ d xs d' xs', ¬ P d xs d' xs') : A.Twin see H P p p' Q X :=
  fun d xs d' xs' _ hP => absurd hP (h d xs d' xs')

theorem throw {e : ε} (h : ∀ d xs d' xs', P d xs d' xs' → X e d xs d' xs') :
    A.Twin see H P (MonadExcept.throw e : Prog S ε α) (MonadExcept.throw e : Prog S ε β) Q X := by
  intro d xs d' xs' t hP hrun
  obtain rfl := Option.some.inj hrun
  exact ⟨_, rfl, ⟨rfl, rfl⟩, rfl, rfl, h d xs d' xs' hP⟩

/-- Rule of consequence. -/
theorem conseq (h : A.Twin see H I p p' J K)
    (hP : ∀ d xs d' xs', P d xs d' xs' → I d xs d' xs')
    (hQ : ∀ a b d xs d' xs', J a b d xs d' xs' → Q a b d xs d' xs')
    (hX : ∀ e d xs d' xs', K e d xs d' xs' → X e d xs d' xs') : A.Twin see H P p p' Q X := by
  intro d xs d' xs' t hd hrun
  obtain ⟨t', hrun', hheld, hops, hend⟩ := h d xs d' xs' t (hP _ _ _ _ hd) hrun
  refine ⟨t', hrun', hheld, hops, ?_⟩
  split at hend
  · exact hQ _ _ _ _ _ _ hend
  · exact ⟨hend.1, hX _ _ _ _ _ hend.2⟩
  · exact hend

/-- A fact about the starts can be taken out of them. -/
theorem assume {φ : Prop} (h : φ → A.Twin see H P p p' Q X) :
    A.Twin see H (fun d xs d' xs' => P d xs d' xs' ∧ φ) p p' Q X :=
  fun d xs d' xs' t hd hrun => h hd.2 d xs d' xs' t hd.1 hrun

/-- A witness can be taken out of the starts. -/
theorem exists' {ι : Type} {P : ι → Pairing M} (h : ∀ i, A.Twin see H (P i) p p' Q X) :
    A.Twin see H (fun d xs d' xs' => ∃ i, P i d xs d' xs') p p' Q X := by
  intro d xs d' xs' t hd hrun
  obtain ⟨i, hi⟩ := hd
  exact h i d xs d' xs' t hi hrun

/-- Sequencing. -/
theorem bind {f : α → Prog S ε γ} {f' : β → Prog S ε δ} {R : γ → δ → Pairing M}
    (hp : A.Twin see H P p p' Q X) (hf : ∀ a b, A.Twin see H (Q a b) (f a) (f' b) R X) :
    A.Twin see H P (p >>= f) (p' >>= f') R X := by
  intro d xs d' xs' t hd hrun
  rw [show p >>= f = p.bind f from rfl, run_bind, Option.bind_eq_some_iff] at hrun
  obtain ⟨⟨r, H₁, d₁, ys, os⟩, hu, hthen⟩ := hrun
  obtain ⟨⟨r', H₁', d₁', ys', os'⟩, hu', hheld, hops, hend⟩ := hp d xs d' xs' _ hd hu
  obtain ⟨rfl, rfl⟩ := hheld
  rw [show p' >>= f' = p'.bind f' from rfl, run_bind, hu', Option.bind_some]
  cases r with
  | error e =>
    cases r' with
    | ok b => exact hend.elim
    | error e' =>
      obtain rfl := Option.some.inj hthen
      exact ⟨_, rfl, ⟨rfl, rfl⟩, hops, hend⟩
  | ok a =>
    cases r' with
    | error e' => exact hend.elim
    | ok b =>
      obtain ⟨v, hv, rfl⟩ := Option.map_eq_some_iff.mp hthen
      obtain ⟨v', hv', hheld', hops', hend'⟩ := hf a b d₁ ys d₁' ys' v hend hv
      refine ⟨{ v' with ops := os' ++ v'.ops }, by simp only [End.andThen, hv', Option.map_some],
        hheld', ?_, hend'⟩
      rw [List.filterMap_append, List.filterMap_append, hops', hops]

/-- Exception handling. -/
theorem catch' {h : ε → Prog S ε α} {h' : ε → Prog S ε β} (hp : A.Twin see H P p p' Q K)
    (hh : ∀ e, A.Twin see H (K e) (h e) (h' e) Q X) :
    A.Twin see H P (tryCatch p h) (tryCatch p' h') Q X := by
  intro d xs d' xs' t hd hrun
  rw [show tryCatch p h = p.tryCatch h from rfl, run_tryCatch, Option.bind_eq_some_iff] at hrun
  obtain ⟨⟨r, H₁, d₁, ys, os⟩, hu, helse⟩ := hrun
  obtain ⟨⟨r', H₁', d₁', ys', os'⟩, hu', hheld, hops, hend⟩ := hp d xs d' xs' _ hd hu
  obtain ⟨rfl, rfl⟩ := hheld
  rw [show tryCatch p' h' = p'.tryCatch h' from rfl, run_tryCatch, hu', Option.bind_some]
  cases r with
  | ok a =>
    cases r' with
    | error e' => exact hend.elim
    | ok b =>
      obtain rfl := Option.some.inj helse
      exact ⟨_, rfl, ⟨rfl, rfl⟩, hops, hend⟩
  | error e =>
    cases r' with
    | ok b => exact hend.elim
    | error e' =>
      obtain ⟨rfl, hX⟩ := hend
      obtain ⟨v, hv, rfl⟩ := Option.map_eq_some_iff.mp helse
      obtain ⟨v', hv', hheld', hops', hend'⟩ := hh e d₁ ys d₁' ys' v hX hv
      refine ⟨{ v' with ops := os' ++ v'.ops }, by simp only [End.orElse, hv', Option.map_some],
        hheld', ?_, hend'⟩
      rw [List.filterMap_append, List.filterMap_append, hops', hops]

theorem ite {c : Prop} [Decidable c] {q : Prog S ε α} {q' : Prog S ε β}
    (hp : c → A.Twin see H P p p' Q X) (hq : ¬ c → A.Twin see H P q q' Q X) :
    A.Twin see H P (if c then p else q) (if c then p' else q') Q X := by
  split
  · exact hp ‹_›
  · exact hq ‹_›

/-- One operation on each side. -/
theorem op {o o' : S.Op} {Q : S.Res o → S.Res o' → Pairing M} (hsee : see o = see o')
    (h : ∀ d xs x ys r d₁ d' xs', P d xs d' xs' → A.choose o xs = some (x, ys) →
      M.exec A.thread o x d = some (r, d₁) → ∃ x' ys' r' d₁', A.choose o' xs' = some (x', ys') ∧
        M.exec A.thread o' x' d' = some (r', d₁') ∧ Q r r' d₁ ys d₁' ys') :
    A.Twin see H P (Prog.perform o : Prog S ε _) (Prog.perform o' : Prog S ε _) Q X := by
  intro d xs d' xs' t hd hrun
  obtain ⟨x, ys, r, d₁, u, hx, hexec, hu, rfl⟩ := run_op hrun
  obtain rfl := Option.some.inj hu
  obtain ⟨x', ys', r', d₁', hx', hexec', hQ⟩ := h d xs x ys r d₁ d' xs' hd hx hexec
  refine ⟨⟨.ok r', H, d₁', ys', [o']⟩, ?_, ⟨rfl, rfl⟩, ?_, hQ⟩
  · simp only [Prog.perform, run, hx', hexec', Option.map_some]
  · simp only [List.filterMap_cons, hsee, List.filterMap_nil]

end Twin

/-- A run next to itself. -/
theorem Twin.diag {A : Alone M} {see : S.Op → Option ν} {H : Finset S.Lock} {P : Pairing M}
    {Q : α → α → Pairing M} {X : ε → Pairing M} {p : Prog S ε α} {d : M.Data}
    {xs : List M.Choice} {t : End M ε α} (h : A.Twin see H P p p Q X) (hP : P d xs d xs)
    (hrun : A.run p H d xs = some t) : t.Pairs see H Q X t := by
  obtain ⟨t', hrun', hpairs⟩ := h d xs d xs t hP hrun
  obtain rfl := Option.some.inj (hrun.symm.trans hrun')
  exact hpairs

/-- A block under a mutex, as it ends. -/
theorem run_withLock {p : Prog S ε α} {A : Alone M} {H : Finset S.Lock} {d : M.Data}
    {xs : List M.Choice} {l : S.Lock} (hl : l ∉ H) :
    A.run (Prog.withLock l p) H d xs = (A.run p (insert l H) d xs).bind fun t =>
      if l ∈ t.held then some { t with held := t.held.erase l } else none := by
  simp only [Prog.withLock, run, if_neg hl]
  rw [run_bind, run_tryCatch, Option.bind_assoc]
  congr 1
  funext t
  obtain ⟨r, H', d', ys, os⟩ := t
  cases r with
  | ok a =>
    simp only [End.orElse, End.andThen, Option.bind_some, run]
    split <;> simp
  | error e =>
    simp only [End.orElse, End.andThen, run]
    split <;> simp

/-- A block under a mutex. -/
theorem Twin.withLock {A : Alone M} {see : S.Op → Option ν} {H : Finset S.Lock} {P : Pairing M}
    {Q : α → β → Pairing M} {X : ε → Pairing M} {p : Prog S ε α} {p' : Prog S ε β} {l : S.Lock}
    (hp : A.Twin see (insert l H) P p p' Q X) :
    A.Twin see H P (Prog.withLock l p) (Prog.withLock l p') Q X := by
  intro d xs d' xs' t hd hrun
  by_cases hl : l ∈ H
  · simp only [Prog.withLock, run, if_pos hl] at hrun
    cases hrun
  have herase : (insert l H).erase l = H := Finset.erase_insert hl
  rw [run_withLock hl, Option.bind_eq_some_iff] at hrun
  obtain ⟨⟨r, H₁, d₁, ys, os⟩, hu, hend⟩ := hrun
  obtain ⟨⟨r', H₁', d₁', ys', os'⟩, hu', hheld, hops, hpost⟩ := hp d xs d' xs' _ hd hu
  obtain ⟨rfl, rfl⟩ := hheld
  rw [if_pos (Finset.mem_insert_self l H)] at hend
  obtain rfl := Option.some.inj hend
  rw [run_withLock hl, hu', Option.bind_some, if_pos (Finset.mem_insert_self l H)]
  exact ⟨_, rfl, ⟨herase, herase⟩, hops, hpost⟩

end Monitor.Alone
