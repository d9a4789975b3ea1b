import SwarmKV.Spec.ScheduleCorrect
import SwarmKV.Spec.LivenessCorrect

/-!
# Every run returns

When its provider does not fail and its branches fork in time, a graph with one provider computes
what the sequential program computes in every run that goes on for as long as a thread can move.
-/

namespace SwarmKV.Pipeline

open Monitor

variable {cfg : Pipeline} {D : Calls} {p n : String} {c c' : Config cfg.engine}
  {tr : Trace (machine cfg.engine)} {s : Thread → View}

/-! ## The end of a run -/

/-- When nobody can move and all workers have ended, the caller has returned. -/
theorem Reachable.returned (hc : cfg.Reachable c) (ht : c.Terminal)
    (hall : ∀ n ∈ cfg.orchestrator.names, Finished c n) : Returned c := by
  have h := reachable_holds hc
  cases h.blocked (h.free_of_terminal nonBlocking ht) (ht .main) with
  | ended r hr hdone =>
    obtain ⟨rfl, -⟩ : r = .ok () ∧ _ := hdone
    exact hr
  | op o hop hpre hx =>
    -- the caller waits for tasks only, and these are done
    obtain ⟨d, rfl⟩ | ⟨m, rfl⟩ := blocked_op hpre hx
    · obtain ⟨-, m, hm, -⟩ := hpre.2
      cases hm
    · obtain ⟨-, -, hm⟩ := hpre.2
      obtain ⟨q, hsome⟩ := Option.isSome_iff_exists.mp ((hc.finished_iff hm).mp (hall m hm))
      have hnone : SwarmKV.exec cfg.engine .main (.awaitTask m) .ok c.data = none := hx .ok
      simp [SwarmKV.exec, hsome] at hnone
  | asleep w hw hlost hwait =>
    have hwait : cfg.Waits .main w c.data := hwait
    cases w <;> exact hwait.elim

/-- A provider that cannot move and has failed has ended. -/
theorem Reachable.finished_of_failed (hc : cfg.Reachable c) (ht : c.Terminal)
    (hfail : c.data.Failed p) : Finished c p := by
  have h := reachable_holds hc
  obtain ⟨e, he⟩ := hfail
  by_contra hun
  have hwait : ¬ cfg.Waiting p c.data := by
    intro hw
    rw [World.Ended, hw.log] at he
    cases he
  cases hc.blocked (h.free_of_terminal nonBlocking ht) (ht _) hun with
  | completion d hw _ _ _ => exact hwait hw
  | watermark q hw _ _ _ _ => exact hwait hw
  | consumers t hw hn _ _ _ _ =>
    have hrunning : cfg.Waits (.worker p) (.milestoneConsumers t) c.data := h.waits hw
    exact hrunning.1.notEnded _ he

/-- In a graph without a provider everybody ends. -/
private theorem Reachable.finished_without_provider (hc : cfg.Reachable c)
    (hacyclic : cfg.orchestrator.Acyclic)
    (hreg : ∀ n ∈ cfg.orchestrator.names, cfg.orchestrator.DepsRegistered n)
    (hnone : ∀ n ∈ cfg.orchestrator.names, cfg.orchestrator.isPrefill n = false)
    (ht : c.Terminal) (hn : n ∈ cfg.orchestrator.names) : Finished c n := by
  by_contra hun
  have hfree := (reachable_holds hc).free_of_terminal nonBlocking ht
  -- a node with nothing unfinished upstream
  obtain ⟨m, ⟨hm, hmun⟩, hmin⟩ := hacyclic.exists_minimal
    (P := fun m => m ∈ cfg.orchestrator.names ∧ ¬ Finished c m) (fun m hm => hm.1) ⟨hn, hun⟩
  have hup : ∀ d ∈ cfg.orchestrator.getDependenciesForNode m, Finished c d := by
    intro d hd
    by_contra hdun
    exact hmin d ⟨hreg m hm d hd, hdun⟩ (.single hd)
  cases hc.blocked hfree (ht _) hmun with
  | completion d _ hd hd' hdun =>
    have hsome := (hc.done hd' (hreg d hd') (hup d (Orchestrator.mem_completionDeps.mp hd).1)).1
    rw [hdun] at hsome
    cases hsome
  | watermark q _ _ hq _ _ =>
    rw [hnone q (Orchestrator.mem_names_of_isPrefill hq)] at hq
    cases hq
  | consumers t _ hq _ _ _ _ =>
    rw [hnone m hm] at hq
    cases hq

/-- The provider ends, and no branch is beyond its document, or waits for a later one. -/
structure Served (cfg : Pipeline) (D : Calls) (p : String) : Prop where
  outcome : (D.provided cfg p).outcome = .ok ()
  forksInTime : cfg.orchestrator.ForksInTime p
  req_le : ∀ n ∈ cfg.orchestrator.names, 0 < cfg.orchestrator.req n →
    cfg.orchestrator.req n ≤ (cfg.doc p).length

/-- At the end of a run that is in step, everybody has ended. -/
theorem InStep.finished (h : cfg.InStep D p s c.data) (hc : cfg.Reachable c)
    (hacyclic : cfg.orchestrator.Acyclic) (hfed : cfg.orchestrator.FedBy p)
    (hserved : p ∈ cfg.orchestrator.names → cfg.Served D p) (ht : c.Terminal)
    (hn : n ∈ cfg.orchestrator.names) : Finished c n := by
  by_cases hp : p ∈ cfg.orchestrator.names
  · obtain ⟨houtcome, hfork, hreq⟩ := hserved hp
    have hprefill := hfed.provider hp
    -- the provider has what the sequential one has, so it has not failed
    have hok : ¬ c.data.Failed p := by
      intro hfail
      obtain ⟨hpromise, -⟩ := hc.done hp (hfed.registered p hp) (hc.finished_of_failed ht hfail)
      obtain ⟨r, hr⟩ := Option.isSome_iff_exists.mp hpromise
      have hresult : (D.result cfg p p).1 = .ok () := by
        obtain ⟨node, hnode⟩ := Orchestrator.mem_names.mp hp
        cases node with
        | prefill node =>
          simp only [Calls.provided, hnode] at houtcome
          simp only [Calls.result, hnode, houtcome]
        | analytical node =>
          simp [Orchestrator.isPrefill, hnode, Node.isPrefillProvider] at hprefill
      obtain ⟨e, he⟩ := hfail
      have hinv := (reachable_holds hc).inv
      cases (hinv.endedOnce p _ _ he (hinv.promise p r hr)).trans
        (((h.workers p).promise r hr).trans hresult)
    -- somebody could still move
    by_contra hun
    obtain ⟨m, -, hm⟩ := hc.workerEnabled hacyclic hfed.registered ⟨hprefill, hfed.sole⟩ hfork hreq hok
      ⟨n, hn, hun⟩
    exact ht _ hm
  · -- without a provider nobody waits for a watermark
    refine hc.finished_without_provider hacyclic hfed.registered (fun m hm => ?_) ht hn
    rw [← Bool.not_eq_true]
    exact fun hm' => hp (hfed.sole m hm' ▸ hm)

/-! ## Runs that go on -/

/-- Where an action has an answer, it has the one of `D`. -/
private theorem exists_answer {E : Engine} (hset : ∀ cells bytes, D.setData cells bytes = true →
    (E.restore bytes).isSome) {i : Thread} {o : Op} {x : Choice} {r : o.Res} {w w' : World}
    (hx : exec E i o x w = some (r, w')) :
    ∃ y r' w'', exec E i o y w = some (r', w'') ∧ D.Answers w (.op o) r' := by
  cases o with
  | allocate => exact ⟨.ok, _, _, rfl, rfl⟩
  | llamaInitFromModel => exact ⟨.ok, _, _, rfl, rfl⟩
  | allocBuffer size => exact ⟨.ok, _, _, rfl, rfl⟩
  | llamaDecode h batch =>
    -- a decode succeeds exactly if `D` says so
    cases hctx : w.contexts h with
    | none =>
      refine ⟨.fail, _, _, rfl, fun ctx hmem => ?_⟩
      rw [hctx] at hmem
      cases hmem
    | some ctx =>
      by_cases hdecode : D.decodes ctx.cells batch = true
      · have hpos : 0 < batch.nTokens := of_decide_eq_true (Bool.and_eq_true_iff.mp hdecode).1
        refine ⟨.ok, true, w.setCells h (ctx.cells ++ batch.cells), by simp [exec, hctx, hpos],
          fun ctx' hmem => ?_⟩
        obtain rfl := Option.some.inj (hctx.symm.trans hmem)
        exact hdecode.symm
      · refine ⟨.fail, _, _, rfl, fun ctx' hmem => ?_⟩
        obtain rfl := Option.some.inj (hctx.symm.trans hmem)
        exact (Bool.eq_false_iff.mpr hdecode).symm
  | llamaStateSeqSetData h q k seq =>
    -- and so does a restore
    cases hctx : w.contexts h with
    | none =>
      refine ⟨.fail, _, _, rfl, fun ctx hmem => ?_⟩
      rw [hctx] at hmem
      cases hmem
    | some ctx =>
      by_cases hdata : D.setData ctx.cells (w.bytesAt q k) = true
      · obtain ⟨seqs, hseqs⟩ := Option.isSome_iff_exists.mp (hset _ _ hdata)
        refine ⟨.ok, (w.bytesAt q k).length, (w.setCells h (restoreSeq seq seqs ctx.cells)).record i
          (.restored (w.bytesAt q k)), by simp [exec, hctx, hseqs], fun ctx' hmem => ?_⟩
        obtain rfl := Option.some.inj (hctx.symm.trans hmem)
        rw [if_pos hdata]
      · refine ⟨.fail, _, _, rfl, fun ctx' hmem => ?_⟩
        obtain rfl := Option.some.inj (hctx.symm.trans hmem)
        rw [if_neg hdata]
  | _ => exact ⟨x, r, w', hx, trivial⟩

/-- A run whose answers are those of `D` goes on like that, for as long as a thread can move. -/
private theorem Run.exists_obeyed (hset : ∀ cells bytes, D.setData cells bytes = true →
    (cfg.engine.restore bytes).isSome) (hr : cfg.initial.Run tr c) (htr : D.Obeyed tr)
    (ht : ¬ c.Terminal) :
    ∃ c', c.Step c' ∧ ∃ tr', cfg.initial.Run (tr' ++ tr) c' ∧ D.Obeyed (tr' ++ tr) := by
  rw [Config.terminal_iff] at ht
  push Not at ht
  obtain ⟨c', hs⟩ := ht
  obtain ⟨e, he⟩ | hsilent := Config.step_iff.mp hs
  · have hgo : ∀ {e c'}, c.Acts e c' → D.Answers e.data e.action e.answer →
        ∃ c', c.Step c' ∧ ∃ tr', cfg.initial.Run (tr' ++ tr) c' ∧ D.Obeyed (tr' ++ tr) := by
      intro e c' he hans
      refine ⟨c', Config.step_iff.mpr (.inl ⟨e, he⟩), [e], hr.act he, fun e' he' => ?_⟩
      obtain rfl | he' := List.mem_cons.mp he'
      · exact hans
      · exact htr e' he'
    cases he with
    | @op i o k x r d ht hx =>
      obtain ⟨y, r', d', hy, hans⟩ := exists_answer hset hx
      exact hgo (.op ht hy) hans
    | lock ht hl => exact hgo (.lock ht hl) trivial
    | unlock ht hl => exact hgo (.unlock ht hl) trivial
    | wait ht hl hw => exact hgo (.wait ht hl hw) trivial
    | resume ht hl hw => exact hgo (.resume ht hl hw) trivial
    | notify ht => exact hgo (.notify ht) trivial
  · exact ⟨c', hs, [], hr.silent hsilent, htr⟩

/-- It goes on until nobody can move. -/
theorem Run.exists_terminal (hset : ∀ cells bytes, D.setData cells bytes = true →
    (cfg.engine.restore bytes).isSome) (hr : cfg.initial.Run tr c) (htr : D.Obeyed tr) :
    ∃ tr' c', cfg.initial.Run (tr' ++ tr) c' ∧ D.Obeyed (tr' ++ tr) ∧ c'.Terminal := by
  obtain ⟨c', ⟨tr', hr', htr'⟩, ht⟩ := Config.exists_terminal_of
    (P := fun c => ∃ tr', cfg.initial.Run (tr' ++ tr) c ∧ D.Obeyed (tr' ++ tr))
    (Reachable.within hr.reaches) ⟨[], hr, htr⟩ fun c₁ h₁ ht => by
      obtain ⟨tr₁, hr₁, htr₁⟩ := h₁
      obtain ⟨c₂, hs, tr₂, hr₂, htr₂⟩ := Run.exists_obeyed hset hr₁ htr₁ ht
      rw [← List.append_assoc] at hr₂ htr₂
      exact ⟨c₂, hs, _, hr₂, htr₂⟩
  exact ⟨tr', c', hr', htr', ht⟩

/-- Total correctness. If the provider ends and the branches fork in time, every run computes what the
    sequential program computes: no run goes on forever, each goes on until nobody can move, and then
    `execute_pipeline` has returned. -/
theorem returns_sequentially (hacyclic : cfg.orchestrator.validateAcyclic = some (.ok ()))
    (hfed : cfg.orchestrator.FedBy p) (hserved : p ∈ cfg.orchestrator.names → cfg.Served D p)
    (hD : ∀ q bytes, cfg.engine.exports q bytes = true → bytes = D.getData q)
    (hset : ∀ cells bytes, D.setData cells bytes = true → (cfg.engine.restore bytes).isSome)
    (hr : cfg.initial.Run tr c) (htr : D.Obeyed tr) :
    (c.Terminal → Returned c ∧ cfg.Computed D p c.data) ∧
    (∃ tr' c', cfg.initial.Run (tr' ++ tr) c' ∧ D.Obeyed (tr' ++ tr) ∧ c'.Terminal) ∧
    ¬ ∃ f : Nat → Config cfg.engine, f 0 = c ∧ ∀ k, (f k).Step (f (k + 1)) := by
  refine ⟨fun ht => ?_, Run.exists_terminal hset hr htr,
    Config.no_infinite_run (Reachable.within hr.reaches)⟩
  obtain ⟨hviews, hstep⟩ := inStep_of_run hfed hD hr htr
  have hret := Reachable.returned hr.reaches ht fun n hn =>
    hstep.finished hr.reaches (Orchestrator.acyclic_of_validateAcyclic hacyclic) hfed hserved ht hn
  exact ⟨hret, hstep.computed hr.reaches hviews hfed hret⟩

/-- The toy pipeline goes on from its start until it has returned. -/
theorem returns_sequentially_toy : ∃ c, (Toy.star 1 false 1).Reachable c ∧ Returned c ∧
    (Toy.star 1 false 1).Computed Toy.calls "P" c.data := by
  have hserved : (Toy.star 1 false 1).Served Toy.calls "P" :=
    ⟨by decide +kernel, forksInTime_of_star (by decide) (by decide), by decide⟩
  have hrun : ∀ {tr c}, (Toy.star 1 false 1).initial.Run tr c → Toy.calls.Obeyed tr → _ :=
    fun hr htr => returns_sequentially (by decide +kernel) (Toy.star_fedBy 1 false 1 [])
      (fun _ => hserved) (Toy.calls_exports 1) (fun _ _ _ => rfl) hr htr
  obtain ⟨tr, c, hr, htr, ht⟩ := (hrun .start fun e he => by cases he).2.1
  exact ⟨c, hr.reaches, (hrun hr htr).1 ht⟩

end SwarmKV.Pipeline
