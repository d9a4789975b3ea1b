import SwarmKV.Spec.WorkerRules
import SwarmKV.Spec.Stuck
import SwarmKV.Spec.Toy

/-!
# The guard

Every call that creates, frees or uses a llama context is made under the guard, except by a
prefiller before its first slice and behind `mark_prefill_complete`.
-/

namespace SwarmKV

open Monitor

/-- The call creates, frees, decodes on, reads or writes a context. -/
def Op.onContext : Op → Bool
  | llamaInitFromModel => true
  | llamaFree _ => true
  | llamaDecode _ _ => true
  | llamaStateGetSize _ _ => true
  | llamaStateSeqGetSize _ _ => true
  | llamaStateSeqGetData _ _ _ _ => true
  | llamaStateSeqSetData _ _ _ _ => true
  | _ => false

/-- What a thread has done with the guard. -/
private structure GuardUse where
  held : Bool := false
  taken : Bool := false
  /-- `mark_prefill_complete` has been called. -/
  marked : Bool := false

namespace GuardUse

private def next (s : GuardUse) : Action sig → GuardUse
  | .lock .llamaApiMutex => { s with held := true, taken := true }
  | .unlock .llamaApiMutex => { s with held := false }
  | .op (.note (.markPrefillComplete _)) => { s with marked := true }
  | _ => s

/-- Under the guard, with the prefill not yet marked complete. -/
private structure Inside (s : GuardUse) : Prop where
  held : s.held = true
  taken : s.taken = true
  marked : s.marked = false

/-- Outside the guard, with the prefill not yet marked complete. -/
private structure Outside (s : GuardUse) : Prop where
  held : s.held = false
  marked : s.marked = false

end GuardUse

/-- The action does not concern the guard. -/
private def unguarded : Action sig → Bool
  | .op (.note (.markPrefillComplete _)) => false
  | .op o => !o.onContext
  | .lock .llamaApiMutex => false
  | .unlock .llamaApiMutex => false
  | _ => true

/-- The action neither takes nor gives the guard, and does not mark the prefill complete. -/
private def inner : Action sig → Bool
  | .op (.note (.markPrefillComplete _)) => false
  | .lock .llamaApiMutex => false
  | .unlock .llamaApiMutex => false
  | _ => true

/-- Calls on contexts are made under the guard; by a prefiller, between its first slice and
    the end of its prefill. -/
private def guardWatch (cfg : Pipeline) (i : Thread) : Observer sig GuardUse where
  start := {}
  next s a _ := s.next a
  ok s a := match a with
    | .op o => o.onContext = true → ∃ n, i = .worker n ∧
      s.held = (!cfg.orchestrator.isPrefill n || s.taken && !s.marked)
    | _ => True

/-- An inner action is not seen. -/
private theorem GuardUse.next_eq {a : Action sig} (ha : inner a = true) (s : GuardUse) :
    s.next a = s := by
  cases a with
  | op o =>
    cases o with
    | note e => cases e <;> first | rfl | exact absurd ha Bool.false_ne_true
    | _ => rfl
  | lock l => cases l <;> first | rfl | exact absurd ha Bool.false_ne_true
  | unlock l => cases l <;> first | rfl | exact absurd ha Bool.false_ne_true
  | _ => rfl

private theorem inner_of_unguarded {a : Action sig} (ha : unguarded a = true) : inner a = true := by
  cases a with
  | op o =>
    cases o with
    | note e => cases e <;> first | rfl | exact ha
    | _ => rfl
  | lock l => cases l <;> first | rfl | exact ha
  | unlock l => cases l <;> first | rfl | exact ha
  | _ => rfl

theorem HostAction.unguarded {a : Action sig} (h : HostAction a) : SwarmKV.unguarded a = true := by
  cases h <;> rfl

theorem LookupAction.unguarded {a : Action sig} (h : LookupAction a) :
    SwarmKV.unguarded a = true := by
  cases h <;> rfl

theorem HostAction.inner {a : Action sig} (h : HostAction a) : SwarmKV.inner a = true := by
  cases h <;> rfl

theorem LookupAction.inner {a : Action sig} (h : LookupAction a) : SwarmKV.inner a = true := by
  cases h <;> rfl

theorem CommitAction.inner {a : Action sig} (h : CommitAction a) : SwarmKV.inner a = true := by
  cases h <;> rfl

theorem DecodeAction.inner {E : Engine} {within : Prop} {a : Action sig}
    (h : DecodeAction E within a) : SwarmKV.inner a = true := by
  cases h <;> rfl

theorem RestoreAction.inner {a : Action sig} (h : RestoreAction a) : SwarmKV.inner a = true := by
  cases h with
  | lookup h => exact h.inner
  | llamaStateSeqSetData => rfl

theorem BodyAction.inner {E : Engine} {within : Prop} {t : Int} {a : Action sig}
    (h : BodyAction E within t a) : SwarmKV.inner a = true := by
  cases h with
  | branch h =>
    cases h with
    | host h => exact h.inner
    | lookup h => exact h.inner
    | copy h => cases h <;> rfl
    | pool h => cases h <;> rfl
    | decode h => exact h.inner
    | _ => rfl
  | signal h => cases h <;> rfl

namespace Pipeline

variable {cfg : Pipeline} {c : Config cfg.engine} {tr : Trace (machine cfg.engine)}
  {n p : String}

/-! ## Programs -/

private theorem keeps_unguarded {i : Thread} {I : GuardUse → Prop} {a : Action sig}
    (ha : unguarded a = true) : (guardWatch cfg i).Keeps I a := by
  refine fun s hs => ⟨?_, fun _ _ => ?_⟩
  · cases a with
    | op o =>
      intro ho
      cases o <;> first
        | exact absurd ho Bool.false_ne_true
        | exact absurd ha Bool.false_ne_true
    | _ => trivial
  · show I (s.next a)
    rwa [s.next_eq (inner_of_unguarded ha)]

private theorem keeps_inside {a : Action sig} (ha : inner a = true) :
    (guardWatch cfg (.worker n)).Keeps GuardUse.Inside a := by
  refine fun s hs => ⟨?_, fun _ _ => ?_⟩
  · cases a with
    | op o => exact fun _ => ⟨n, rfl, by simp [hs.held, hs.taken, hs.marked]⟩
    | _ => trivial
  · show GuardUse.Inside (s.next a)
    rwa [s.next_eq ha]

/-- A block under the guard. -/
private theorem withGuard {α : Type} {q : Prog α} {U : Action sig → Prop} (hq : q.Uses U)
    (hU : ∀ a, U a → inner a = true) {P : GuardUse → Prop} (hP : ∀ s, P s → s.marked = false) :
    (guardWatch cfg (.worker n)).Spec P (withLock .llamaApiMutex q) (fun _ => GuardUse.Outside)
      fun _ _ => True :=
  .withLock (I := GuardUse.Inside) (fun s hs => ⟨trivial, fun _ => ⟨rfl, rfl, hP s hs⟩⟩)
    (.of_uses hq fun a ha => keeps_inside (hU a ha))
    (fun _ _ hs => ⟨trivial, fun _ => ⟨rfl, hs.marked⟩⟩)
    fun _ _ _ => ⟨trivial, fun _ => trivial⟩

/-- A branch makes all its calls under the guard. -/
private theorem executeBranch_guardWatch (node : AnalyticalNode) (ctx : OrchestratorContext) :
    (guardWatch cfg (.worker n)).Spec (· = {}) (node.execute ctx) (fun _ _ => True)
      fun _ _ => True :=
  .post (withGuard (node.forkAndDecode_uses ctx) (fun _ ha => ha.inner)
    (fun s hs => by rw [hs])) fun _ _ _ => trivial

/-- A prefiller makes its calls between the first slice and the last one under the guard. -/
private theorem executePrefill_guardWatch (node : PrefillNode) (ctx : OrchestratorContext)
    (hp : cfg.orchestrator.isPrefill n) :
    (guardWatch cfg (.worker n)).Spec (· = {}) (node.execute ctx) (fun _ _ => True)
      fun _ _ => True := by
  have hquiet : ∀ {α : Type} {I : GuardUse → Prop} {q : Prog α} {U : Action sig → Prop},
      q.Uses U → (∀ a, U a → unguarded a = true) →
      (guardWatch cfg (.worker n)).Spec I q (fun _ => I) fun _ _ => True := fun hq hU =>
    .err (.of_uses hq fun a ha => keeps_unguarded (hU a ha)) fun _ _ _ => trivial
  -- a call outside the guard, before the first slice or behind the last one
  have hcall : ∀ {I : GuardUse → Prop} {o : Op}, (∀ s, I s → s.held = false ∧
      (s.taken = false ∨ s.marked = true)) → inner (.op o) = true →
      (guardWatch cfg (.worker n)).Spec I (perform o) (fun _ => I) fun _ _ => True := by
    refine fun hI ho => .op fun s hs => ⟨fun _ => ⟨n, rfl, ?_⟩, fun _ _ => ?_⟩
    · obtain ⟨hheld, hout⟩ := hI s hs
      obtain htaken | hmarked := hout
      · simp [hp, hheld, htaken]
      · simp [hp, hheld, hmarked]
    · rename_i I o r _
      show I (s.next (.op o))
      rwa [s.next_eq ho]
  have hstart : ∀ s : GuardUse, s = {} → s.held = false ∧ (s.taken = false ∨ s.marked = true) :=
    fun s hs => by simp [hs]
  unfold PrefillNode.execute
  refine .bind (hquiet (.perform .steadyClock) fun _ ha => HostAction.unguarded ha) fun t₀ => ?_
  refine .bind (hcall hstart rfl) fun r => ?_
  cases r with
  | none => exact .throw fun _ _ => trivial
  | some h =>
    refine .bind (hquiet (.perform .load) fun _ ha => LookupAction.unguarded ha) fun s => ?_
    refine .bind (hquiet (KVHandoff.bindContiguousCache_uses (U := fun _ => False) _ _)
      fun _ ha => ha.elim) fun _ => ?_
    dsimp only
    refine .bind (.conseq PrefillNode.loadDocumentText_spec (fun _ hs => hs)
      (Q := fun _ => (· = {})) (fun _ _ hs => hs.1) fun _ _ _ => trivial) fun text => ?_
    refine .bind (Q := fun tokens s => s = {} ∧ tokensOf ctx.engine text = some tokens)
      (.conseq (PrefillNode.tokenizeText_spec (keeps_unguarded rfl)) (fun _ hs => hs)
      (fun _ _ hs => hs) fun _ _ _ => trivial) fun tokens => ?_
    generalize hcount : toInt32 tokens.length = count
    generalize toInt32 ctx.nCtx = limit
    refine .assume fun htokens => ?_
    have htotal : count.toNat ≤ tokens.length := by
      rw [← hcount, toInt32_of_lt (tokensOf_length htokens), Int.toNat_natCast]
    refine .ite (fun _ => .bind (hcall hstart rfl) fun _ => .throw fun _ _ => trivial) fun _ => ?_
    refine .bind (Q := fun _ => GuardUse.Outside) (.pre (PrefillNode.prefillLoop_spec
      (J := fun _ _ => GuardUse.Outside) (K := fun _ _ => GuardUse.Outside)
      (L := fun _ _ => GuardUse.Outside) (X := fun _ _ => True) (N := count.toNat)
      (fun h t _ hlt => ?_) (fun h t _ => ?_) (fun h t _ => ?_) _ _ 0 (Nat.zero_le _)
      (fun _ => Nat.dvd_zero _) (Nat.sub_le _ _)) ?_)
      fun h' => ?_
    · refine withGuard (U := fun a => inner a = true) (.bind ?_ fun _ => ?_) (fun _ ha => ha)
        fun s hs => hs.marked
      · exact (PrefillNode.decodeLoop_uses h _ t _ (by omega)).mono fun _ ha => ha.inner
      · exact (PipelineState.commitWatermark_uses _ _).mono fun _ ha => ha.inner
    · refine .post (hquiet (PipelineState.isSnapshotMilestone_uses _) fun _ ha => ha.unguarded)
        fun b s hs => ?_
      split <;> exact hs
    · unfold PrefillNode.pauseAtMilestone
      refine .bind (withGuard (U := fun a => inner a = true) (.perform rfl) (fun _ ha => ha)
        fun s hs => hs.marked) fun _ => .bind (Q := fun _ => GuardUse.Outside) ?_ fun _ => ?_
      · exact hquiet (U := fun a => unguarded a = true) (.ite (.ret ()) (.withLock rfl rfl
          (.await rfl))) fun _ ha => ha
      · refine withGuard (U := fun a => inner a = true) (.bind (.perform rfl) fun r => ?_)
          (fun _ ha => ha) fun s hs => hs.marked
        cases r with
        | none => exact .throw _
        | some h' =>
          refine .bind (.perform rfl) fun s => ?_
          refine .bind (KVHandoff.bindContiguousCache_uses _ _) fun _ => ?_
          exact .bind ((PrefillNode.restorePrefixSnapshot_uses _ _).mono fun _ ha => ha.inner)
            fun _ => .ret _
    · rintro s rfl
      exact ⟨rfl, rfl⟩
    · have hdone : ∀ s : GuardUse, s.held = false ∧ s.marked = true →
          s.held = false ∧ (s.taken = false ∨ s.marked = true) := fun s hs => ⟨hs.1, .inr hs.2⟩
      refine .bind (Q := fun _ s => s.held = false ∧ s.marked = true)
        (.op fun s hs => ⟨fun ho => (by cases ho), fun _ _ => ⟨hs.held, rfl⟩⟩) fun _ => ?_
      refine .bind (hquiet (U := fun a => unguarded a = true) (.withLock rfl rfl
        (.bind (.perform rfl) fun _ => .notifyAll rfl)) fun _ ha => ha) fun _ => ?_
      refine .bind (hcall hdone rfl) fun _ => ?_
      exact .post (hquiet (PipelineState.recordTiming_uses _ _) fun _ ha => ha.unguarded)
        fun _ _ _ => trivial

private theorem program_guardWatch (i : Thread) :
    (guardWatch cfg i).Meets (cfg.program i) (fun _ _ => True) {} := by
  refine cfg.program_meets (A := guardWatch cfg) (fun a ha => keeps_unguarded ?_) (fun n _ => ?_) i
  · cases ha <;> rfl
  refine Orchestrator.worker_spec (I := (· = {})) (J := (· = {})) (K := fun _ => True)
    (fun _ _ => trivial) ?_ ?_ ?_ ?_ ?_
  · exact fun node _ => .err (.of_uses (Orchestrator.awaitDependencies_uses _ _) fun a ha =>
      keeps_unguarded (I := (· = {})) (by cases ha <;> rfl)) fun _ _ _ => trivial
  · exact fun s hs => ⟨fun ho => (by cases ho), fun _ _ => hs⟩
  · exact fun a ha _ => keeps_unguarded (by cases ha <;> rfl)
  · exact fun t a ha => keeps_unguarded (by cases ha <;> rfl)
  · intro node ctx hnode _ _
    cases node with
    | prefill node =>
      refine executePrefill_guardWatch node ctx ?_
      simp [Orchestrator.isPrefill, hnode, Node.isPrefillProvider]
    | analytical node => exact executeBranch_guardWatch node ctx

/-! ## Runs -/

/-- The prefiller is before its first slice, or behind `mark_prefill_complete`. -/
def OutsideGuard (p : String) (tr : Trace (machine cfg.engine)) : Prop :=
  (∀ e ∈ tr, e.thread = .worker p → e.action ≠ .lock .llamaApiMutex) ∨
    ∃ e ∈ tr, e.thread = .worker p ∧ ∃ h, e.action = .op (.note (.markPrefillComplete h))

/-- The calls on contexts exclude each other: whoever makes one holds the guard. -/
structure EngineExclusive (cfg : Pipeline) (c : Config cfg.engine) : Prop where
  one : ∀ i j o o', c.AtOp i o → c.AtOp j o' → o.onContext → o'.onContext → i = j
  guarded : ∀ i o, c.AtOp i o → o.onContext → c.holder .llamaApiMutex = some i

private theorem held_eq (tr : Trace (machine cfg.engine)) (i : Thread) :
    (Observer.state (guardWatch cfg) tr i).held = tr.holding i .llamaApiMutex := by
  refine Observer.state_holding (fun _ => rfl) (fun _ s a _ => ?_) tr i
  show (s.next a).held = a.holding Lock.llamaApiMutex s.held
  cases a with
  | op o =>
    cases o with
    | note ev => cases ev <;> rfl
    | _ => rfl
  | lock l => cases l <;> rfl
  | unlock l => cases l <;> rfl
  | _ => rfl

private theorem taken_iff (tr : Trace (machine cfg.engine)) (i : Thread) :
    (Observer.state (guardWatch cfg) tr i).taken = true ↔
      ∃ e ∈ tr, e.thread = i ∧ e.action = .lock .llamaApiMutex := by
  induction tr with
  | nil => simp [guardWatch]
  | cons e tr ih =>
    rw [List.exists_mem_cons_iff, ← ih]
    simp only [Observer.state]
    split
    · show ((Observer.state (guardWatch cfg) tr i).next e.action).taken = true ↔ _
      unfold GuardUse.next
      split <;> simp_all
    · rename_i hthread
      simp [hthread]

private theorem marked_iff (tr : Trace (machine cfg.engine)) (i : Thread) :
    (Observer.state (guardWatch cfg) tr i).marked = true ↔
      ∃ e ∈ tr, e.thread = i ∧ ∃ h, e.action = .op (.note (.markPrefillComplete h)) := by
  induction tr with
  | nil => simp [guardWatch]
  | cons e tr ih =>
    rw [List.exists_mem_cons_iff, ← ih]
    simp only [Observer.state]
    split
    · show ((Observer.state (guardWatch cfg) tr i).next e.action).marked = true ↔ _
      unfold GuardUse.next
      split <;> simp_all
    · rename_i hthread
      simp [hthread]

/-- What the observer of a prefiller has seen of its guard. -/
private theorem inside_iff (tr : Trace (machine cfg.engine)) (p : String) :
    ((Observer.state (guardWatch cfg) tr (.worker p)).taken = true ∧
      (Observer.state (guardWatch cfg) tr (.worker p)).marked = false) ↔ ¬ OutsideGuard p tr := by
  rw [OutsideGuard, ← marked_iff, not_or, Bool.not_eq_true, taken_iff]
  push Not
  exact Iff.rfl

/-- In every state of every run, the calls on contexts exclude each other exactly if no
    prefiller makes one before its first slice or behind `mark_prefill_complete`. -/
theorem engineExclusive_iff (hr : cfg.initial.Run tr c) : cfg.EngineExclusive c ↔
    ∀ p, cfg.orchestrator.isPrefill p → OutsideGuard p tr →
      ∀ o, o.onContext → ¬ c.AtOp (.worker p) o := by
  have hfollows := hr.follows program_guardWatch fun _ _ _ _ => trivial
  -- what is seen of the guard is the mutex itself
  have hholder : ∀ i, (Observer.state (guardWatch cfg) tr i).held = true ↔
      c.holder .llamaApiMutex = some i := by
    intro i
    rw [held_eq]
    refine hr.holding_iff (fun w => ?_) rfl i
    show Lock.watermarkMutex ≠ .llamaApiMutex
    decide
  constructor
  · -- a call outside would have the guard, and then it is not outside
    intro hex p hp hout o ho hat
    obtain ⟨n, hn, hheld⟩ := hfollows.ok_of_atOp hat ho
    obtain rfl := Thread.worker.inj hn
    rw [(hholder _).mpr (hex.guarded _ o hat ho), hp] at hheld
    simp only [Bool.not_true, Bool.false_or, Bool.true_eq, Bool.and_eq_true,
      Bool.not_eq_true'] at hheld
    exact (inside_iff tr p).mp hheld hout
  · intro hin
    -- otherwise every call is under the guard
    have hguarded : ∀ i o, c.AtOp i o → o.onContext → c.holder .llamaApiMutex = some i := by
      intro i o hat ho
      obtain ⟨n, rfl, hheld⟩ := hfollows.ok_of_atOp hat ho
      rw [← hholder, hheld]
      cases hp : cfg.orchestrator.isPrefill n with
      | false => rfl
      | true =>
        have hinside := (inside_iff tr n).mpr fun hout => hin n hp hout o ho hat
        simp [hinside]
    refine ⟨fun i j o o' hi hj ho ho' => ?_, hguarded⟩
    exact Option.some.inj ((hguarded i o hi ho).symm.trans (hguarded j o' hj ho'))

/-- While the toy prefiller is paused, the calls of the branch exclude all others. -/
theorem engineExclusive_iff_toy :
    (Toy.star 1 false 1).EngineExclusive ((Toy.star 1 false 1).after Toy.forkAtOne) := by
  obtain ⟨tr, hr⟩ := Config.Reaches.exists_run (reachable_after _ Toy.forkAtOne)
  refine (engineExclusive_iff hr).mpr fun p hp _ o _ hat => ?_
  have hsole : (Toy.star 1 false 1).orchestrator.Sole "P" := by decide
  obtain rfl := hsole.2 p hp
  have hnone : (((Toy.star 1 false 1).after Toy.forkAtOne).threads (.worker "P")).nextOp = none := rfl
  cases hnone.symm.trans (Config.atOp_iff.mp hat)

/-- Two prefillers of an accepted graph create their contexts at the same time, without the
    guard. -/
theorem not_engineExclusive : Toy.twins.orchestrator.validateAcyclic = some (.ok ()) ∧
    ∃ c, Toy.twins.Reachable c ∧ c.AtOp (.worker "P") .llamaInitFromModel ∧
      c.AtOp (.worker "Q") .llamaInitFromModel ∧ c.holder .llamaApiMutex = none ∧
      ¬ Toy.twins.EngineExclusive c := by
  have hP : (Toy.twins.after (Toy.steps "P" 2 ++ Toy.steps "Q" 2)).AtOp (.worker "P")
    .llamaInitFromModel := Config.atOp_iff.mpr rfl
  have hQ : (Toy.twins.after (Toy.steps "P" 2 ++ Toy.steps "Q" 2)).AtOp (.worker "Q")
    .llamaInitFromModel := Config.atOp_iff.mpr rfl
  refine ⟨by decide +kernel, _, reachable_after _ _, hP, hQ, by decide +kernel, fun hex => ?_⟩
  exact absurd (hex.one _ _ _ _ hP hQ rfl rfl) (by decide)

end Pipeline

end SwarmKV
