import SwarmKV.Spec.Frame

/-!
# Triples of the helpers

The parts of `execute()` that both kinds of node share: allocation, tokenization,
the context budget, the pool, and the end that records the timing. Each triple is
stated for any assertion that is closed under quiet moves.
-/

namespace SwarmKV.Pipeline

open Monitor.Outline

variable {cfg : Pipeline} {n : String} {H : Finset Lock} {A : World → Prop}
  {X : Error → World → Prop}

/-- A quiet action. -/
theorem quiet_op {o : Op} (ho : o.quiet) {R : o.Res → World → Prop}
    (hA : cfg.Closed (.worker n) H A) (hrun : ∀ w, A w → cfg.Running n w)
    (hpre : ∀ w, cfg.Inv w → A w → cfg.ActionPre (.worker n) H o w)
    (hR : ∀ x r w w', cfg.Inv w → A w → exec cfg.engine (.worker n) o x w = some (r, w') → R r w') :
    cfg.outline.Triple (.worker n) H A (perform o) (fun r w => A w ∧ R r w) X := by
  refine Triple.op hA.stable fun w hinv hw => ⟨⟨(hrun w hw).live, hpre w hinv hw⟩, ?_⟩
  intro x r w' hx _
  refine ⟨?_, hA w w' hw (quiet_step ho hinv hx), hR x r w w' hinv hw hx⟩
  cases o <;> first | rfl | cases ho

/-- A quiet action whose answer does not matter. -/
theorem quiet_op' {o : Op} (ho : o.quiet) (hA : cfg.Closed (.worker n) H A)
    (hrun : ∀ w, A w → cfg.Running n w)
    (hpre : ∀ w, cfg.Inv w → A w → cfg.ActionPre (.worker n) H o w) :
    cfg.outline.Triple (.worker n) H A (perform o) (fun _ w => A w) X :=
  (quiet_op (R := fun _ _ => True) ho hA hrun hpre fun _ _ _ _ _ _ _ => trivial).conseq
    (fun _ _ h => h) (fun _ _ _ h => h.1) (fun _ _ _ h => h)

/-- A read of the blackboard. -/
theorem load_triple {R : PipelineState → World → Prop} (hA : cfg.Closed (.worker n) H A)
    (hrun : ∀ w, A w → cfg.Running n w) (hR : ∀ w, cfg.Inv w → A w → R w.state w) :
    cfg.outline.Triple (.worker n) H A (perform .load) (fun s w => A w ∧ R s w) X := by
  refine quiet_op rfl hA hrun (fun _ _ _ => trivial) fun x r w w' hinv hw hx => ?_
  simp only [exec, Option.some.injEq, Prod.mk.injEq] at hx
  obtain ⟨rfl, rfl⟩ := hx
  exact hR w hinv hw

/-- A new context is empty and belongs to its thread. -/
theorem init_triple (hA : cfg.Closed (.worker n) H A) (hrun : ∀ w, A w → cfg.Running n w) :
    cfg.outline.Triple (.worker n) H A (perform .llamaInitFromModel) (fun r w => A w ∧
      ∀ h, r = some h → w.contexts h = some { owner := .worker n }) X := by
  refine quiet_op rfl hA hrun (fun _ _ _ => trivial) fun x r w w' hinv hw hx => ?_
  intro h hh
  obtain ⟨rfl, -⟩ | ⟨rfl, rfl⟩ := exec_llamaInitFromModel hx
  · cases hh
  · obtain rfl := Option.some.inj hh
    exact Function.update_self _ _ _

/-- An allocation. -/
theorem alloc_triple (hA : cfg.Closed (.worker n) H A) (hrun : ∀ w, A w → cfg.Running n w)
    (hX : ∀ w, A w → X .badAlloc (w.record (.worker n) .badAlloc)) :
    cfg.outline.Triple (.worker n) H A alloc (fun _ w => A w) X := by
  unfold alloc
  refine Triple.bind (Q := fun b w => if b then A w else X .badAlloc w) ?_ fun b => ?_
  · refine Triple.op hA.stable fun w hinv hw =>
      ⟨⟨(hrun w hw).live, n, rfl, hrun w hw⟩, fun x r w' hx _ => ⟨rfl, ?_⟩⟩
    obtain ⟨rfl, rfl⟩ | ⟨rfl, rfl⟩ := exec_allocate hx
    · exact hw
    · exact hX w hw
  · cases b with
    | true => exact Triple.ret fun w _ hw => hw
    | false => exact Triple.throw fun w _ hw => hw

/-- The exceptions of a helper that starts with `A` leave with `X`. -/
structure Raises (n : String) (A : World → Prop) (X : Error → World → Prop) : Prop where
  failed : ∀ e w, A w → (∀ t, e ≠ .missingPrefixSnapshot t) → X e w
  outOfMemory : ∀ w, A w → X .badAlloc (w.record (.worker n) .badAlloc)

/-- Inside `execute()`. -/
theorem Raises.of_body (hB : ∀ w, A w → cfg.InBody n H w) : Raises n A (cfg.Failing n H) where
  failed _ w hw he := (hB w hw).failing he
  outOfMemory w hw := ((hB w hw).record (by simp)).failing (by simp)

/-- An allocation inside `execute()`. -/
theorem alloc_body (hA : cfg.Closed (.worker n) H A) (hB : ∀ w, A w → cfg.InBody n H w) :
    cfg.outline.Triple (.worker n) H A alloc (fun _ w => A w) (cfg.Failing n H) :=
  alloc_triple hA (fun w hw => (hB w hw).running) (Raises.of_body hB).outOfMemory

/-- Tokenization returns what the tokenizer says. -/
theorem tokenizeWith_triple {failure : Error} {text : String} (hA : cfg.Closed (.worker n) H A)
    (hrun : ∀ w, A w → cfg.Running n w) (hX : Raises n A X)
    (hf : ∀ t, failure ≠ .missingPrefixSnapshot t) :
    cfg.outline.Triple (.worker n) H A (tokenizeWith failure cfg.engine text)
      (fun tokens w => A w ∧ tokensOf cfg.engine text = some tokens) X := by
  have halloc : cfg.outline.Triple (.worker n) H A alloc (fun _ w => A w) X :=
    alloc_triple hA hrun hX.outOfMemory
  unfold tokenizeWith
  refine Triple.bind halloc fun _ => ?_
  dsimp only
  refine Triple.ite (fun hneg => ?_) (fun hpos => ?_)
  · refine Triple.bind halloc fun _ => ?_
    refine Triple.ite (fun _ => Triple.throw fun w _ hw => hX.failed _ w hw hf) (fun hpos => ?_)
    refine Triple.ret fun w _ hw => ⟨hw, ?_⟩
    simp only [tokensOf, hneg, if_true, hpos, if_false]
  · refine Triple.ret fun w _ hw => ⟨hw, ?_⟩
    simp only [tokensOf, hpos, if_false]

/-- The loop of the budget check. -/
theorem maxBranchTokens_triple (hA : cfg.Closed (.worker n) H A)
    (hrun : ∀ w, A w → cfg.Running n w) (hX : Raises n A X) (prompts : List String) (most : Int) :
    cfg.outline.Triple (.worker n) H A (maxBranchTokens cfg.engine prompts most)
      (fun _ w => A w) X := by
  induction prompts generalizing most with
  | nil => exact Triple.ret fun w _ hw => hw
  | cons prompt rest ih =>
    unfold maxBranchTokens swarmkvTokenizeForBudget
    refine Triple.bind (tokenizeWith_triple hA hrun hX (by simp)) fun tokens => ?_
    exact (ih _).conseq (fun _ _ h => h.1) (fun _ _ _ h => h) (fun _ _ _ h => h)

/-- The budget check lets only prefixes of non-negative length pass. -/
theorem validateContextBudget_triple {prefixTokens headroom : Int} {prompts : List String}
    {nCtx : Nat} (hA : cfg.Closed (.worker n) H A) (hrun : ∀ w, A w → cfg.Running n w)
    (hX : Raises n A X) :
    cfg.outline.Triple (.worker n) H A
      (swarmkvValidateContextBudget cfg.engine prefixTokens prompts nCtx headroom)
      (fun _ w => A w ∧ 0 ≤ prefixTokens) X := by
  unfold swarmkvValidateContextBudget
  refine Triple.ite (fun _ => Triple.throw fun w _ hw => hX.failed _ w hw (by simp)) fun hneg => ?_
  refine Triple.bind (maxBranchTokens_triple hA hrun hX prompts 0) fun most => ?_
  dsimp only
  refine Triple.ite (fun _ => Triple.throw fun w _ hw => hX.failed _ w hw (by simp)) fun _ => ?_
  exact Triple.ret fun w _ hw => ⟨hw, by omega⟩

/-! ## Plain mutexes -/

/-- A critical section of a mutex that protects nothing the properties speak of. -/
theorem plainLock_triple {α : Type} {l : Lock} {p : Prog α} {Q : α → World → Prop}
    (hl : l = .poolMutex ∨ l = .outputLock ∨ l = .timingLock) (hH : H ⊆ {.llamaApiMutex})
    (hA : cfg.Closed (.worker n) H A) (hB : ∀ w, A w → cfg.InBody n H w)
    (hbody : cfg.outline.Triple (.worker n) (insert l H) A p Q (cfg.Failing n (insert l H)))
    (hQ : ∀ a, cfg.Closed (.worker n) (insert l H) (Q a))
    (hQB : ∀ a w, Q a w → cfg.Running n w) :
    cfg.outline.Triple (.worker n) H A (withLock l p) Q (cfg.Failing n H) := by
  have hne : Lock.llamaApiMutex ≠ l := by
    obtain rfl | rfl | rfl := hl <;> decide
  have hfree : ∀ w, cfg.LockInv l w := by
    obtain rfl | rfl | rfl := hl <;> exact fun _ => trivial
  refine Triple.withLock (fun h => hne (Finset.mem_singleton.mp (hH h)).symm) ?_ hA.stable
    (fun w hw => (hB w hw).running.live)
    (hbody.conseq (fun _ _ h => h.1) (fun _ _ _ h => h) fun _ _ _ h => h)
    (fun a => (hQ a).stable) (fun e => Closed.failing.stable) ?_ ?_
  · intro l' hl'
    obtain rfl := Finset.mem_singleton.mp (hH hl')
    show rank .llamaApiMutex < rank l
    obtain rfl | rfl | rfl := hl <;> decide
  · exact fun a w _ hw => ⟨(hQB a w hw).live, hfree w, hw⟩
  · exact fun e w _ hw => ⟨hw.body.running.live, hfree w, hw.mono (Finset.mem_insert_of_mem ·)⟩

/-- The end of both `execute()` bodies. -/
theorem recordTiming_triple {key : String} {t₀ : Int} (hH : H ⊆ {.llamaApiMutex})
    (hA : cfg.Closed (.worker n) H A) (hB : ∀ w, A w → cfg.InBody n H w) :
    cfg.outline.Triple (.worker n) H A (PipelineState.recordTiming key t₀) (fun _ w => A w)
      (cfg.Failing n H) := by
  have hrun : ∀ w, A w → cfg.Running n w := fun w hw => (hB w hw).running
  have hA' := hA.mono (Finset.subset_insert .timingLock H)
  unfold PipelineState.recordTiming
  refine Triple.bind (quiet_op' rfl hA hrun fun _ _ _ => trivial) fun t₁ => ?_
  refine plainLock_triple (.inr (.inr rfl)) hH hA hB ?_ (fun _ => hA') fun _ => hrun
  refine Triple.bind (alloc_body hA' fun w hw => (hB w hw).mono ?_) fun _ => ?_
  · intro h
    simpa using h
  · exact quiet_op' rfl hA' hrun fun _ _ _ => trivial

/-! ## The pool -/

/-- The disposable context of the size query leaves no trace. -/
theorem getRequiredKvSize_triple {nCtx : Nat} (hA : cfg.Closed (.worker n) H A)
    (hB : ∀ w, A w → cfg.InBody n H w) :
    cfg.outline.Triple (.worker n) H A (MemoryPool.getRequiredKvSize nCtx) (fun _ w => A w)
      (cfg.Failing n H) := by
  refine Triple.fix fun w₀ hw₀ _ => ?_
  have hclosed : cfg.Closed (.worker n) H (cfg.Quiet (.worker n) H w₀) :=
    fun w w' h hq => h.trans hq
  have hrun : ∀ w, cfg.Quiet (.worker n) H w₀ w → cfg.Running n w :=
    fun w hw => (hB w (hA w₀ w hw₀ hw)).running
  unfold MemoryPool.getRequiredKvSize
  refine Triple.bind (Q := fun (r : Option Nat) (w : World) => cfg.Quiet (.worker n) H w₀ w ∧ ∀ h, r = some h →
      w.contexts h = some { owner := .worker n } ∧
      ∀ ctx, w₀.contexts h = some ctx → ctx.owner ≠ .worker n) ?_ fun r => ?_
  · -- the new context is its own
    refine Triple.conseq (quiet_op rfl hclosed hrun (fun _ _ _ => trivial) ?_)
      (fun w _ h => ?_) (fun _ _ _ h => h) (fun _ _ _ h => h)
    · intro x r w w' hinv hw hx h hh
      obtain ⟨rfl, -⟩ | ⟨rfl, rfl⟩ := exec_llamaInitFromModel hx
      · cases hh
      · obtain rfl := Option.some.inj hh
        refine ⟨Function.update_self _ _ _, fun ctx hctx ho => ?_⟩
        cases (hinv.freshContext _ le_rfl).symm.trans (hw.contexts _ ctx hctx ho)
    · subst h
      exact Quiet.refl cfg _ _ _
  · cases r with
    | none => exact Triple.throw fun w _ hw => (hB w (hA w₀ w hw₀ hw.1)).failing (by simp)
    | some h =>
      have hctx : cfg.Closed (.worker n) H fun w => cfg.Quiet (.worker n) H w₀ w ∧
          w.contexts h = some { owner := .worker n } ∧
          ∀ ctx, w₀.contexts h = some ctx → ctx.owner ≠ .worker n :=
        fun w w' hw hq => ⟨hw.1.trans hq, hq.contexts h _ hw.2.1 rfl, hw.2.2⟩
      refine Triple.bind (Q := fun _ (w : World) => cfg.Quiet (.worker n) H w₀ w ∧
          w.contexts h = some { owner := .worker n } ∧
          ∀ ctx, w₀.contexts h = some ctx → ctx.owner ≠ .worker n) ?_ fun sz => ?_
      · exact Triple.conseq (quiet_op' rfl hctx (fun w hw => hrun w hw.1) fun _ _ _ => trivial)
          (fun w _ hw => ⟨hw.1, hw.2 h rfl⟩) (fun _ _ _ h => h) (fun _ _ _ h => h)
      -- and when it has been freed all is as before
      refine Triple.bind (Q := fun _ w => A w) ?_ fun _ => Triple.ret fun w _ hw => hw
      refine Triple.op hctx.stable fun w hinv hw => ⟨⟨(hrun w hw.1).live, ?_⟩, ?_⟩
      · intro ctx hctx'
        obtain rfl := Option.some.inj (hw.2.1.symm.trans hctx')
        rfl
      · intro x r w' hx _
        simp only [exec, Option.some.injEq, Prod.mk.injEq] at hx
        obtain ⟨-, rfl⟩ := hx
        refine ⟨rfl, hA w₀ _ hw₀ { hw.1 with contexts := fun h' ctx hh ho => ?_ }⟩
        have hne : h' ≠ h := by
          rintro rfl
          exact hw.2.2 ctx hh ho
        simp only [Function.update_of_ne hne]
        exact hw.1.contexts h' ctx hh ho

/-- A branch buffer is new: it is live, and not the canonical buffer. -/
theorem allocateBranchCache_triple {nCtx : Nat}
    (hA : cfg.Closed (.worker n) {.llamaApiMutex} A)
    (hB : ∀ w, A w → cfg.InBody n {.llamaApiMutex} w) :
    cfg.outline.Triple (.worker n) {.llamaApiMutex} A (MemoryPool.allocateBranchCache nCtx)
      (fun b w => A w ∧ (w.buffers b).isSome ∧ cfg.stagingBuffer ≠ some b)
      (cfg.Failing n {.llamaApiMutex}) := by
  have hA' := hA.mono (Finset.subset_insert .poolMutex {.llamaApiMutex})
  have hB' : ∀ w, A w → cfg.InBody n (insert .poolMutex {.llamaApiMutex}) w :=
    fun w hw => (hB w hw).mono (by simp)
  have hnew : ∀ b, cfg.Closed (.worker n) (insert .poolMutex {.llamaApiMutex}) fun w =>
      A w ∧ (w.buffers b).isSome ∧ cfg.stagingBuffer ≠ some b := by
    intro b w w' hw hq
    obtain ⟨buf, hbuf⟩ := Option.isSome_iff_exists.mp hw.2.1
    refine ⟨hA' w w' hw.1 hq, ?_, hw.2.2⟩
    rw [hq.buffers (by simp) n rfl (hB w hw.1).running.live b buf hbuf]
    rfl
  unfold MemoryPool.allocateBranchCache
  refine plainLock_triple (.inl rfl) subset_rfl hA hB ?_ hnew fun b w hw => (hB w hw.1).running
  refine Triple.bind (getRequiredKvSize_triple hA' hB') fun size => ?_
  refine Triple.bind (Q := fun (r : Option Nat) (w : World) => A w ∧
      ∀ b, r = some b → (w.buffers b).isSome ∧ cfg.stagingBuffer ≠ some b) ?_ fun r => ?_
  · refine quiet_op rfl hA' (fun w hw => (hB w hw).running) (fun _ _ _ => ⟨by simp, n, rfl⟩) ?_
    intro x r w w' hinv hw hx b hb
    obtain ⟨rfl, -⟩ | ⟨rfl, rfl⟩ := exec_allocBuffer hx
    · cases hb
    · obtain rfl := Option.some.inj hb
      exact ⟨by simp, fun h => Nat.lt_irrefl _ (hinv.stagingOld _ h)⟩
  · cases r with
    | none => exact Triple.throw fun w _ hw => (hB' w hw.1).failing (by simp)
    | some b =>
      refine Triple.bind (Triple.conseq (alloc_body (hnew b) fun w hw => hB' w hw.1)
        (fun w _ hw => ⟨hw.1, hw.2 b rfl⟩) (fun _ _ _ h => h) fun _ _ _ h => h) fun _ => ?_
      refine Triple.bind (quiet_op' rfl (hnew b) (fun w hw => (hB w hw.1).running)
        fun _ _ _ => ⟨n, rfl⟩) fun _ => ?_
      exact Triple.ret fun w _ hw => hw

end SwarmKV.Pipeline
