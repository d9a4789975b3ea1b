import SwarmKV.Monitor.Logic

/-!
# Triples

Structured reasoning on top of `Outline.wp`. A triple says what a piece of a
thread's program does between two points at which the thread holds the same
mutexes and owes no notification: from a state with `P` it returns `a` with
`Q a`, or throws `e` with `X e`. Assertions have to be `Stable`: the moves of
the other threads keep them.
-/

namespace Monitor.Outline

open Prog

variable {S : Sig} {ε α β : Type} {M : Machine S} {O : Outline M ε} {i : M.Thread}
  {H H' : Finset S.Lock}

/-- Other threads keep the assertion while thread `i` holds `H`. -/
def Stable (O : Outline M ε) (i : M.Thread) (H : Finset S.Lock) (P : M.Data → Prop) : Prop :=
  ∀ d d', P d → O.Rely i H d d' → O.Inv d' → P d'

/-- Holding more mutexes, a thread relies on more. -/
theorem Stable.mono {P : M.Data → Prop} (h : O.Stable i H P) (hH : H ⊆ H') : O.Stable i H' P :=
  fun d d' hP hR hI => h d d' hP (O.rely_mono hH hR) hI

theorem Stable.and {P I : M.Data → Prop} (h : O.Stable i H P) (h' : O.Stable i H I) :
    O.Stable i H fun d => P d ∧ I d :=
  fun d d' hP hR hI => ⟨h d d' hP.1 hR hI, h' d d' hP.2 hR hI⟩

theorem Stable.exists {ι : Type} {P : ι → M.Data → Prop} (h : ∀ a, O.Stable i H (P a)) :
    O.Stable i H fun d => ∃ a, P a d := by
  intro d d' hP hR hI
  obtain ⟨a, hP⟩ := hP
  exact ⟨a, h a d d' hP hR hI⟩

/-- An assertion that does not depend on the data. -/
theorem Stable.const {p : Prop} : O.Stable i H fun _ => p :=
  fun _ _ h _ _ => h

/-- From `P`, the program `p` of thread `i` returns with `Q` or throws with `X`. -/
def Triple (O : Outline M ε) (i : M.Thread) (H : Finset S.Lock) (P : M.Data → Prop)
    (p : Prog S ε α) (Q : α → M.Data → Prop) (X : ε → M.Data → Prop) : Prop :=
  ∀ d, P d → O.Inv d → O.wp i p (fun r H' D' d' => H' = H ∧ D' = ∅ ∧ O.Inv d' ∧
    match r with
    | .ok a => Q a d'
    | .error e => X e d') H ∅ d

/-- One operation at the head of a program. -/
theorem wp_op {o : S.Op} {k : S.Res o → Prog S ε α} {P : M.Data → Prop} {Q : Post M ε α}
    {D : Finset S.Cv} {d : M.Data} (hP : O.Stable i H P) (hd : P d)
    (h : ∀ d₁, O.Inv d₁ → P d₁ → O.Pre i H o d₁ ∧ ∀ x r d₂, M.exec i o x d₁ = some (r, d₂) →
      O.Inv d₂ → O.wp i (k r) Q H (D ∪ O.touches o r) d₂) :
    O.wp i (perform o >>= k) Q H D d :=
  fun d₁ hR hI => h d₁ hI (hP d d₁ hd hR hI)

/-- A notification at the head of a program. -/
theorem wp_notifyAll {v : S.Cv} {k : Unit → Prog S ε α} {P : M.Data → Prop} {Q : Post M ε α}
    {D : Finset S.Cv} {d : M.Data} (hP : O.Stable i H P) (hd : P d)
    (hact : ∀ d, P d → O.Active i H d) (h : O.wp i (k ()) Q H (D.erase v) d) :
    O.wp i (notifyAll v >>= k) Q H D d :=
  ⟨fun d₁ hR hI => hact d₁ (hP d d₁ hd hR hI), h⟩

namespace Triple

variable {P I : M.Data → Prop} {Q J : α → M.Data → Prop} {R : β → M.Data → Prop}
  {X K : ε → M.Data → Prop}

/-- Normal return. -/
theorem ret {a : α} (h : ∀ d, O.Inv d → P d → Q a d) : O.Triple i H P (pure a) Q X :=
  fun d hP hI => ⟨rfl, rfl, hI, h d hI hP⟩

/-- An exception. -/
theorem throw {e : ε} (h : ∀ d, O.Inv d → P d → X e d) :
    O.Triple i H P (MonadExcept.throw e : Prog S ε α) Q X :=
  fun d hP hI => ⟨rfl, rfl, hI, h d hI hP⟩

/-- Rule of consequence. -/
theorem conseq {p : Prog S ε α} (h : O.Triple i H I p J K)
    (hP : ∀ d, O.Inv d → P d → I d) (hQ : ∀ a d, O.Inv d → J a d → Q a d)
    (hX : ∀ e d, O.Inv d → K e d → X e d) : O.Triple i H P p Q X := by
  intro d hd hI
  refine wp_mono (fun r H' D' d' hr => ?_) (h d (hP d hI hd) hI)
  obtain ⟨hH, hD, hI', hr⟩ := hr
  cases r with
  | ok a => exact ⟨hH, hD, hI', hQ a d' hI' hr⟩
  | error e => exact ⟨hH, hD, hI', hX e d' hI' hr⟩

/-- Start from a fixed state. -/
theorem fix {p : Prog S ε α} (h : ∀ d₀, P d₀ → O.Inv d₀ → O.Triple i H (· = d₀) p Q X) :
    O.Triple i H P p Q X :=
  fun d hP hI => h d hP hI d rfl hI

/-- An assertion that does not depend on the state can be assumed. -/
theorem assume {φ : Prop} {p : Prog S ε α} (h : φ → O.Triple i H P p Q X) :
    O.Triple i H (fun d => P d ∧ φ) p Q X :=
  fun d hd hI => h hd.2 d hd.1 hI

/-- A witness that the assertion gives can be named. -/
theorem of_exists {ι : Type} {A : ι → M.Data → Prop} {p : Prog S ε α}
    (hP : ∀ d, O.Inv d → P d → ∃ a, A a d) (h : ∀ a, O.Triple i H (A a) p Q X) :
    O.Triple i H P p Q X := by
  intro d hd hI
  obtain ⟨a, ha⟩ := hP d hI hd
  exact h a d ha hI

/-- Sequencing. -/
theorem bind {p : Prog S ε α} {f : α → Prog S ε β} (hp : O.Triple i H P p Q X)
    (hf : ∀ a, O.Triple i H (Q a) (f a) R X) : O.Triple i H P (p >>= f) R X := by
  intro d hd hI
  refine wp_bind.mpr (wp_mono (fun r H' D' d' hr => ?_) (hp d hd hI))
  obtain ⟨rfl, rfl, hI', hr⟩ := hr
  cases r with
  | ok a => exact hf a d' hr hI'
  | error e => exact ⟨rfl, rfl, hI', hr⟩

/-- Exception handling. -/
theorem catch' {p : Prog S ε α} {h : ε → Prog S ε α} (hp : O.Triple i H P p Q K)
    (hh : ∀ e, O.Triple i H (K e) (h e) Q X) :
    O.Triple i H P (MonadExcept.tryCatch p h) Q X := by
  intro d hd hI
  refine wp_tryCatch.mpr (wp_mono (fun r H' D' d' hr => ?_) (hp d hd hI))
  obtain ⟨rfl, rfl, hI', hr⟩ := hr
  cases r with
  | ok a => exact ⟨rfl, rfl, hI', hr⟩
  | error e => exact hh e d' hr hI'

/-- An exception turned into a value. -/
theorem attempt {p : Prog S ε α} (hp : O.Triple i H P p Q X) :
    O.Triple i H P p.attempt (fun r d => match r with
      | .ok a => Q a d
      | .error e => X e d) K := by
  intro d hd hI
  refine wp_tryCatch.mpr (wp_bind.mpr (wp_mono (fun r H' D' d' hr => ?_) (hp d hd hI)))
  obtain ⟨rfl, rfl, hI', hr⟩ := hr
  cases r with
  | ok a => exact ⟨rfl, rfl, hI', hr⟩
  | error e => exact ⟨rfl, rfl, hI', hr⟩

/-- A branch of the program. -/
theorem ite {c : Prop} [Decidable c] {p q : Prog S ε α}
    (hp : c → O.Triple i H P p Q X) (hq : ¬ c → O.Triple i H P q Q X) :
    O.Triple i H P (if c then p else q) Q X := by
  split
  · rename_i h
    exact hp h
  · rename_i h
    exact hq h

/-- One operation that no condition variable has to be notified of. -/
theorem op {o : S.Op} {Q : S.Res o → M.Data → Prop} (hP : O.Stable i H P)
    (h : ∀ d, O.Inv d → P d → O.Pre i H o d ∧ ∀ x r d', M.exec i o x d = some (r, d') →
      O.Inv d' → O.touches o r = ∅ ∧ Q r d') : O.Triple i H P (perform o) Q X := by
  intro d hd _ d₁ hR hI
  obtain ⟨hpre, hk⟩ := h d₁ hI (hP d d₁ hd hR hI)
  refine ⟨hpre, fun x r d₂ hx hI₂ => ?_⟩
  obtain ⟨ht, hQ⟩ := hk x r d₂ hx hI₂
  exact ⟨rfl, by simp [ht], hI₂, hQ⟩

/-- A critical section, with everything its end has to establish. -/
theorem critical {l : S.Lock} {p : Prog S ε α} (hl : l ∉ H) (hrank : ∀ l' ∈ H, O.rank l' < O.rank l)
    (hP : O.Stable i H P) (hact : ∀ d, P d → O.Active i H d)
    (hbody : ∀ d, P d → O.Inv d → O.LockInv l d → O.wp i p (fun r H' D' d' => H' = insert l H ∧
      ∀ d₁, O.Rely i (insert l H) d' d₁ → O.Inv d₁ → O.Active i (insert l H) d₁ ∧ O.LockInv l d₁ ∧
        (D' = ∅ ∨ O.Lossy d₁) ∧
        match r with
        | .ok a => Q a d₁
        | .error e => X e d₁) (insert l H) ∅ d) :
    O.Triple i H P (withLock l p) Q X := by
  intro d hd _
  refine ⟨hl, hrank, fun d₁ hR hI => ?_⟩
  have hd₁ := hP d d₁ hd hR hI
  refine ⟨hact d₁ hd₁, fun hL => ?_⟩
  refine wp_bind.mpr (wp_tryCatch.mpr (wp_mono (fun r H' D' d' hr => ?_) (hbody d₁ hd₁ hI hL)))
  obtain ⟨rfl, hr⟩ := hr
  have herase : (insert l H).erase l = H := Finset.erase_insert hl
  have hgive : ∀ d₂, D' = ∅ ∨ O.Lossy d₂ →
      ∃ D'' ⊆ D', Clean M l D'' ∧ (D'' = D' ∨ O.Lossy d₂) ∧ D'' = ∅ := by
    intro d₂ h
    refine ⟨∅, Finset.empty_subset _, fun w _ => Finset.notMem_empty _, ?_, rfl⟩
    rcases h with h | h
    · exact .inl h.symm
    · exact .inr h
  cases r with
  | ok a =>
    refine ⟨Finset.mem_insert_self _ _, fun d₂ hR₂ hI₂ => ?_⟩
    obtain ⟨hA, hL₂, hD, hQ⟩ := hr d₂ hR₂ hI₂
    obtain ⟨D'', hsub, hclean, hlost, rfl⟩ := hgive d₂ hD
    exact ⟨hA, hL₂, ∅, hsub, hclean, hlost, herase, rfl, hI₂, hQ⟩
  | error e =>
    refine ⟨Finset.mem_insert_self _ _, fun d₂ hR₂ hI₂ => ?_⟩
    obtain ⟨hA, hL₂, hD, hX⟩ := hr d₂ hR₂ hI₂
    obtain ⟨D'', hsub, hclean, hlost, rfl⟩ := hgive d₂ hD
    exact ⟨hA, hL₂, ∅, hsub, hclean, hlost, herase, rfl, hI₂, hX⟩

/-- A critical section around a program with a triple. -/
theorem withLock {l : S.Lock} {p : Prog S ε α} (hl : l ∉ H)
    (hrank : ∀ l' ∈ H, O.rank l' < O.rank l) (hP : O.Stable i H P)
    (hact : ∀ d, P d → O.Active i H d)
    (hbody : O.Triple i (insert l H) (fun d => P d ∧ O.LockInv l d) p J K)
    (hQs : ∀ a, O.Stable i (insert l H) (J a)) (hXs : ∀ e, O.Stable i (insert l H) (K e))
    (hQ : ∀ a d, O.Inv d → J a d → O.Active i (insert l H) d ∧ O.LockInv l d ∧ Q a d)
    (hX : ∀ e d, O.Inv d → K e d → O.Active i (insert l H) d ∧ O.LockInv l d ∧ X e d) :
    O.Triple i H P (withLock l p) Q X := by
  refine critical hl hrank hP hact fun d hd hI hL => ?_
  refine wp_mono (fun r H' D' d' hr => ?_) (hbody d ⟨hd, hL⟩ hI)
  obtain ⟨rfl, rfl, -, hr⟩ := hr
  refine ⟨rfl, fun d₁ hR hI₁ => ?_⟩
  cases r with
  | ok a =>
    obtain ⟨hA, hL₁, hQ₁⟩ := hQ a d₁ hI₁ (hQs a d' d₁ hr hR hI₁)
    exact ⟨hA, hL₁, .inl rfl, hQ₁⟩
  | error e =>
    obtain ⟨hA, hL₁, hX₁⟩ := hX e d₁ hI₁ (hXs e d' d₁ hr hR hI₁)
    exact ⟨hA, hL₁, .inl rfl, hX₁⟩

/-- Wait for a condition, with nothing else held. -/
theorem waiting {w : S.Cond} {Q : Unit → M.Data → Prop} (hP : O.Stable i ∅ P)
    (hact : ∀ d, P d → O.Active i ∅ d ∧ O.Active i {M.mutex w} d)
    (hwaits : ∀ d, O.Inv d → P d → O.Waits i w d)
    (hL : ∀ d d', O.LockInv (M.mutex w) d → O.Rely i {M.mutex w} d d' → O.Inv d' →
      O.LockInv (M.mutex w) d')
    (hQ : ∀ d d', P d → M.holds w d = true → O.Rely i {M.mutex w} d d' → O.Inv d' → Q () d') :
    O.Triple i ∅ P (Prog.withLock (M.mutex w) (await w)) Q X := by
  have hP' : O.Stable i {M.mutex w} P := hP.mono (Finset.empty_subset _)
  refine critical (Finset.notMem_empty _) (fun _ h => absurd h (Finset.notMem_empty _)) hP
    (fun d hd => (hact d hd).1) fun d hd hI hL₀ => ?_
  refine ⟨rfl, rfl, fun d₁ hR hI₁ => ?_⟩
  have hd₁ := hP' d d₁ hd hR hI₁
  refine ⟨(hact d₁ hd₁).2, hL d d₁ hL₀ hR hI₁, fun d₂ hR₂ hI₂ => ?_⟩
  have hd₂ := hP d₁ d₂ hd₁ hR₂ hI₂
  refine ⟨hwaits d₂ hI₂ hd₂, fun hw hL₂ => ⟨rfl, fun d₃ hR₃ hI₃ => ?_⟩⟩
  have hd₃ := hP' d₂ d₃ hd₂ hR₃ hI₃
  exact ⟨(hact d₃ hd₃).2, hL d₂ d₃ hL₂ hR₃ hI₃, .inl rfl, hQ d₂ d₃ hd₂ hw hR₃ hI₃⟩

/-- The triple of a whole thread. -/
theorem final {p : Prog S ε Unit} {Q : Unit → M.Data → Prop} (h : O.Triple i ∅ P p Q X)
    (hQ : ∀ d d', Q () d → O.Rely i ∅ d d' → O.Inv d' → O.Done i (.ok ()) d')
    (hX : ∀ e d d', X e d → O.Rely i ∅ d d' → O.Inv d' → O.Done i (.error e) d')
    {d : M.Data} (hd : P d) (hI : O.Inv d) : O.wp i p (O.final i) ∅ ∅ d := by
  refine wp_mono (fun r H' D' d' hr => ?_) (h d hd hI)
  obtain ⟨rfl, rfl, -, hr⟩ := hr
  cases r with
  | ok a => exact ⟨rfl, rfl, fun d₁ hR hI₁ => hQ d' d₁ hr hR hI₁⟩
  | error e => exact ⟨rfl, rfl, fun d₁ hR hI₁ => hX e d' d₁ hr hR hI₁⟩

end Triple

end Monitor.Outline
