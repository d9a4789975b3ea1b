import SwarmKV.Spec.VramTrace
import SwarmKV.Spec.Toy

/-!
# Correctness of the prefill loop

However often the prefiller gives its context up at a milestone and rebuilds it from
the snapshot, each `commit_watermark(t)` finds exactly the first `t` tokens of the
document in its context, and the last one all of them. The loop gets there if
`llama_n_batch` fits into an `int32_t`; otherwise its first batch is refused.
-/

namespace SwarmKV.Pipeline

open Monitor

variable {cfg : Pipeline} {c c' : Config cfg.engine} {p : String} {tr : Trace (machine cfg.engine)}

/-- The context with handle `h` holds the first `n` tokens of the document of `p`, each
    of them once and at its own position, and nothing else. -/
def HoldsPrefix (cfg : Pipeline) (p : String) (h n : Nat) (w : World) : Prop :=
  ∃ ctx, w.contexts h = some ctx ∧ ctx.cells = toCells (docSeq (cfg.doc p) n)

/-- What the prefiller does at its commits and at its end. -/
structure PrefillExact (cfg : Pipeline) (p : String) (c : Config cfg.engine) : Prop where
  increasing : (c.data.commits (.worker p)).Pairwise (· < ·)
  commit : ∀ ctx t, c.AtOp (.worker p) (.note (.commitWatermark ctx t)) →
    (∀ t' ∈ c.data.commits (.worker p), t' < t) ∧
      ∃ h, ctx = some h ∧ cfg.HoldsPrefix p h t.toNat c.data
  complete : ∀ h, c.AtOp (.worker p) (.note (.markPrefillComplete h)) →
    (0 < (cfg.doc p).length →
      (c.data.commits (.worker p)).getLast? = some ((cfg.doc p).length : Int)) ∧
    ∃ ctx, c.data.contexts h = some ctx ∧
      Baseline.decodeTokensChunked cfg.engine.llamaNBatch (cfg.doc p) = some ctx.cells

/-- The prefiller has stopped at a milestone where some branch has still to fork. -/
def PausedFor (cfg : Pipeline) (p : String) (t : Int) (c : Config cfg.engine) : Prop :=
  c.WaitsFor (.worker p) (.milestoneConsumers t) ∧
    ∃ b ∈ cfg.orchestrator.branchesAt t, c.data.consumed b t = 0

/-- The only prefix of a document of a given length. -/
theorem IsPrefix.eq_docSeq {n : Nat} {s : SeqState} (h : cfg.IsPrefix n s)
    (hp : cfg.orchestrator.Sole p) : s = docSeq (cfg.doc p) n :=
  h.2 p hp

/-- In every state of every run, the prefiller is exact. -/
theorem reachable_prefillExact (hp : cfg.orchestrator.Sole p) (hr : cfg.engine.RoundTrips)
    (hne : cfg.engine.ExportsNonempty) (hc : cfg.Reachable c) : cfg.PrefillExact p c := by
  have h := reachable_holds hc
  refine ⟨h.inv.commits _, fun ctx t hat => ?_, fun k hat => ?_⟩
  · obtain ⟨-, n, hn, -, hpre⟩ := h.pre hat
    cases hn
    obtain ⟨k, lctx, rfl, hctx, hcells⟩ := hpre.ctx
    obtain ⟨s, hs, hcells⟩ := hcells (h.inv.good hp hr hne hpre.inMemory)
    rw [hs.eq_docSeq hp] at hcells
    exact ⟨hpre.increasing, k, rfl, lctx, hctx, hcells⟩
  · obtain ⟨-, n, hn, -, hpre⟩ := h.pre hat
    cases hn
    obtain ⟨lctx, hctx, hcells⟩ := hpre.ctx
    obtain ⟨s, hs, hcells⟩ := hcells (h.inv.good hp hr hne hpre.done.inMemory)
    rw [hs.eq_docSeq hp] at hcells
    refine ⟨hpre.done.commits, lctx, hctx, ?_⟩
    rw [hcells]
    obtain hnil | hpos := Nat.eq_zero_or_pos (cfg.doc p).length
    · rw [List.length_eq_zero_iff.mp hnil, Baseline.decodeTokensChunked_nil]
      rfl
    · exact Baseline.decodeTokensChunked_eq cfg.engine.llamaNBatch_pos (hpre.done.nBatch hpos) _

/-- A node that waits for the end of all its upstream nodes and has started depends on registered
    nodes only. -/
private theorem Reachable.depsRegistered (hc : cfg.Reachable c) (hs : c.data.Started p)
    (hneg : cfg.orchestrator.req p < 0) : cfg.orchestrator.DepsRegistered p := by
  have hinv := (reachable_holds hc).inv
  intro d hd
  have hdep := Orchestrator.mem_completionDeps.mpr ⟨hd, fun h => absurd h.2 (by omega)⟩
  obtain ⟨r, hr⟩ := Option.isSome_iff_exists.mp ((hinv.started p hs).completion d hdep)
  exact (hinv.started d (hinv.ended d r (hinv.promise d r hr)).1).registered

/-- When nobody moves any more, a started prefiller has ended or is paused for a branch. -/
theorem Reachable.ended_or_paused (hp : cfg.orchestrator.Sole p) (hc : cfg.Reachable c)
    (ht : c.Terminal) (hs : c.data.Started p) :
    (∃ r, c.data.Ended p r) ∨ ∃ t, cfg.PausedFor p t c := by
  have h := reachable_holds hc
  by_cases hf : Finished c p
  · left
    have hreq := Orchestrator.req_of_isPrefill hp.1
    have hreg := hc.depsRegistered hs (by omega)
    exact (hc.done (h.inv.started p hs).registered hreg hf).2.1
  right
  -- a started node waits neither for a promise nor for the watermark
  have hempty : ¬ cfg.Waiting p c.data := by
    intro hw
    rw [World.Started, hw.log] at hs
    cases hs
  cases hc.blocked (h.free_of_terminal nonBlocking ht) (ht _) hf with
  | completion d hwait _ _ _ => exact absurd hwait hempty
  | watermark q hwait _ _ _ _ => exact absurd hwait hempty
  | consumers t hwaits _ hmem _ _ hleft =>
    refine ⟨t, hwaits, hleft.resolve_right fun hlossy => ?_⟩
    obtain ⟨q, hq, hout⟩ := hlossy
    obtain rfl := hp.2 q hq
    exact hmem hout

/-! ## Calls that succeed -/

/-- What the observer of the prefiller has to do with the world while its calls succeed. -/
private structure Succeeding (cfg : Pipeline) (p : String) (s : VramUse) (w : World) : Prop where
  filed : ∀ t ∈ s.filed, (w.state.prefixSnapshots t).isSome
  ended : ∀ r, w.Ended p r → r = .ok () ∨ kSwarmkvDefaultPipelineCtx ≤ (cfg.doc p).length

/-- The end of `execute()` is as the observer accepts it. -/
private theorem ended_act (hp : cfg.orchestrator.Sole p) (he : c.Acts e c')
    (hended : ∀ r, c.data.Ended p r → r = .ok () ∨ kSwarmkvDefaultPipelineCtx ≤ (cfg.doc p).length)
    (hok : e.thread = .worker p →
      (vramWatch cfg (.worker p)).ok (cfg.vram tr (.worker p)) e.action)
    {r : Outcome} (hr : c'.data.Ended p r) :
    r = .ok () ∨ kSwarmkvDefaultPipelineCtx ≤ (cfg.doc p).length := by
  obtain hold | ⟨o, hthread, hact, hemits⟩ := mem_log_act he hr
  · exact hended r hold
  · have hok : if cfg.orchestrator.isPrefill p then
        (cfg.vram tr (.worker p)).prefillAccepts cfg p e.action else _ := hok hthread.symm
    rw [if_pos hp.1, hact] at hok
    cases hemits with
    | note => exact hok.2

/-- If its calls succeed, a prefiller whose document fits and has batches that fit ends normally. -/
private theorem ended_of_granted (hp : cfg.orchestrator.Sole p) (hstaging : cfg.staging.isSome)
    (htext : ∀ node, cfg.orchestrator.node p = some node → node.Tokenizes cfg.engine)
    (hbatch : cfg.engine.llamaNBatch < 2 ^ 31 ∨ cfg.doc p = []) (hr : cfg.initial.Run tr c)
    (hg : granted p tr = true) {r : Outcome} (hend : c.data.Ended p r) :
    r = .ok () ∨ kSwarmkvDefaultPipelineCtx ≤ (cfg.doc p).length := by
  have hmem : p ∈ cfg.orchestrator.names := Orchestrator.mem_names_of_isPrefill hp.1
  have hprogram : cfg.program (.worker p) = cfg.orchestrator.worker cfg.engine p := if_pos hmem
  have hstart : (vramWatch cfg (.worker p)).Meets (cfg.program (.worker p)) (fun _ _ => True) {} := by
    rw [hprogram]
    exact (worker_vram htext {} rfl).mono fun _ _ _ => trivial
  have hfiled : Succeeding cfg p (cfg.vram [] (.worker p)) cfg.initialWorld :=
    ⟨fun t h => (by cases h), fun q h => (by cases h)⟩
  have hact : ∀ {tr c e c'}, cfg.initial.Run tr c → granted p (e :: tr) = true →
      Succeeding cfg p (cfg.vram tr (.worker p)) c.data → c.Acts e c' →
      (e.thread = .worker p → (vramWatch cfg (.worker p)).ok (cfg.vram tr (.worker p)) e.action) →
      (e.thread = .worker p →
        (vramWatch cfg (.worker p)).ans (cfg.vram tr (.worker p)) e.action e.answer) ∧
      Succeeding cfg p (cfg.vram (e :: tr) (.worker p)) c'.data := by
    intro tr c e c' hrun hg hR he hok
    refine ⟨fun hthread => ?_, filed_act hR.filed he, fun r => ended_act hp he hR.ended hok⟩
    simp only [granted, Bool.and_eq_true, Bool.or_eq_true, decide_eq_true_eq] at hg
    obtain ⟨hobliges, hroom⟩ := hg.1.resolve_left fun hne => hne hthread
    obtain ⟨i, a, r, d⟩ := e
    obtain rfl : i = .worker p := hthread
    have hok : if cfg.orchestrator.isPrefill p then
        (cfg.vram tr (.worker p)).prefillAccepts cfg p a else _ := hok rfl
    rw [if_pos hp.1] at hok
    -- each batch has a token
    have hsucceeds : succeeds a r = true := succeeds_of_obliges hobliges fun hd batch ha => by
      subst ha
      exact hok hbatch
    exact expects_act hstaging hrun he hR.filed hsucceeds hroom
  exact (hr.observe_one (A := vramWatch cfg) (P := fun tr => granted p tr = true)
    (R := fun tr c => Succeeding cfg p (cfg.vram tr (.worker p)) c.data)
    (fun h => (Bool.and_eq_true_iff.mp h).2) hstart hfiled hact
    (fun _ hR hs => by rwa [hs.data]) hg).1.ended r hend

/-! ## The loop as a whole -/

/-- Paused and resumed prefill is uninterrupted prefill. In every run the commits are exact, a
    prefiller that has started ends or is paused for a branch, and one whose calls succeed ends
    normally exactly if `llama_n_batch` fits into an `int32_t` or there is nothing to decode. -/
theorem prefill_correct (hp : cfg.orchestrator.Sole p) (hr : cfg.engine.RoundTrips)
    (hne : cfg.engine.ExportsNonempty) (hstaging : cfg.staging.isSome)
    (htext : ∀ node, cfg.orchestrator.node p = some node → node.Tokenizes cfg.engine)
    (hshort : (cfg.doc p).length < kSwarmkvDefaultPipelineCtx) :
    (∀ tr c, cfg.initial.Run tr c → cfg.PrefillExact p c ∧
      (0 < (cfg.doc p).length → c.data.Ended p (.ok ()) →
        (c.data.commits (.worker p)).getLast? = some ((cfg.doc p).length : Int)) ∧
      (c.Terminal → c.data.Started p → (∃ r, c.data.Ended p r) ∨ ∃ t, cfg.PausedFor p t c) ∧
      (granted p tr = true → ∀ r, c.data.Ended p r →
        (r = .ok () ↔ cfg.engine.llamaNBatch < 2 ^ 31 ∨ cfg.doc p = []))) ∧
    ¬ ∃ f : Nat → Config cfg.engine, f 0 = cfg.initial ∧ ∀ k, (f k).Step (f (k + 1)) := by
  refine ⟨fun tr c hrun => ⟨reachable_prefillExact hp hr hne hrun.reaches, fun hpos hend => ?_,
    Reachable.ended_or_paused hp hrun.reaches, fun hg r hend => ⟨fun hok => ?_, fun hbatch => ?_⟩⟩,
    cfg.no_infinite_run⟩
  · have hok := ((reachable_holds hrun.reaches).inv.ended p _ hend).2
    exact (hok.prefill hp.1 rfl).commits hpos
  · -- a normal end has decoded all batches
    have hdone := (((reachable_holds hrun.reaches).inv.ended p _ hend).2).prefill hp.1 hok
    obtain hzero | hpos := Nat.eq_zero_or_pos (cfg.doc p).length
    · exact .inr (List.length_eq_zero_iff.mp hzero)
    · exact .inl (hdone.nBatch hpos)
  · obtain hok | hlong := ended_of_granted hp hstaging htext hbatch hrun hg hend
    · exact hok
    · exact absurd hlong (not_le.mpr hshort)

private theorem sliced_tokenizes (node : Node) (hn : Toy.sliced.orchestrator.node "P" = some node) :
    node.Tokenizes Toy.sliced.engine := by
  obtain rfl := Option.some.inj ((show Toy.sliced.orchestrator.node "P" =
    some (.prefill ⟨"document"⟩) from rfl).symm.trans hn)
  rfl

set_option maxRecDepth 4096 in
/-- The toy prefiller has given its context up at 128 and decodes the rest of the document in the
    next one: at its last commit it holds all 130 tokens, and then it ends normally. -/
theorem prefill_correct_toy :
    Toy.sliced.HoldsPrefix "P" 3 130 (Toy.sliced.after Toy.resumeSliced).data ∧
    ∀ r, (Toy.sliced.after Toy.endSliced).data.Ended "P" r → r = .ok () := by
  have hsole : Toy.sliced.orchestrator.Sole "P" := by decide
  have hcorrect := prefill_correct hsole Toy.slicedEngine_roundTrips
    Toy.slicedEngine_exportsNonempty rfl sliced_tokenizes (by decide +kernel)
  have hresumed := Config.run_after (c := Toy.sliced.initial) (s := Toy.resumeSliced)
    (by decide +kernel)
  have hended := Config.run_after (c := Toy.sliced.initial) (s := Toy.endSliced) (by decide +kernel)
  constructor
  · obtain ⟨-, h, hctx, hholds⟩ := (hcorrect.1 _ _ hresumed).1.commit (some 3) 130
      (Monitor.Config.atOp_iff.mpr rfl)
    obtain rfl := Option.some.inj hctx
    exact hholds
  · intro r hend
    exact ((hcorrect.1 _ _ hended).2.2.2 (by decide +kernel) r hend).mpr (.inl (by decide))

/-- With a batch size of 2^31 the first batch of the toy prefiller has a negative number of tokens: no
    call that could succeed fails, and it ends with an exception. -/
theorem not_prefill_completes : ¬ ∀ (cfg : Pipeline) (p : String), cfg.orchestrator.Sole p →
    cfg.engine.RoundTrips → cfg.engine.ExportsNonempty → cfg.staging.isSome →
    (∀ node, cfg.orchestrator.node p = some node → node.Tokenizes cfg.engine) →
    (cfg.doc p).length < kSwarmkvDefaultPipelineCtx →
    ∀ tr c, cfg.initial.Run tr c → granted p tr = true → ∀ r, c.data.Ended p r → r = .ok () := by
  intro hall
  have hrun := Config.run_after (c := Toy.hugeBatch.initial) (s := Toy.refuseHuge) (by decide +kernel)
  have hok := hall Toy.hugeBatch "P" (by decide) (Toy.engine_roundTrips 1 false)
    (Toy.engine_exportsNonempty 1) rfl (fun node hn => ?_) (by decide +kernel) _ _ hrun
    (by decide +kernel) (.error .prefillDecodeFailed) (by decide +kernel)
  · cases hok
  · obtain rfl := Option.some.inj ((show Toy.hugeBatch.orchestrator.node "P" =
      some (.prefill ⟨"document"⟩) from rfl).symm.trans hn)
    rfl

end SwarmKV.Pipeline
