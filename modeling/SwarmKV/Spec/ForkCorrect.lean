import SwarmKV.Spec.PrefillCorrect

/-!
# Correctness of the forks

What a branch has in its context when it decodes its prompt, compared with the
document of the one prefiller: a watermark branch has exactly its watermark, a
full-prefill branch has the whole document only if its length is a milestone, and
both have whatever the exports gave them.
-/

namespace SwarmKV.Pipeline

variable {cfg : Pipeline} {c : Config cfg.engine} {n p : String} {h : Nat} {batch : LlamaBatch}

/-! ## What a branch decodes -/

/-- A branch in front of `llama_decode`. -/
structure AtPrompt (cfg : Pipeline) (n : String) (h : Nat) (batch : LlamaBatch) (start : Nat)
    (ctx : LlamaContext) (w : World) : Prop where
  batch : ∃ id lastLogits, batch = fillBatch id (cfg.prompt n) start lastLogits
  context : w.contexts h = some ctx
  cells : cfg.Good w → ∃ s, cfg.IsPrefix start s ∧ ctx.cells = toCells s
  branch : cfg.BranchPre n start (cfg.prompt n) w

/-- A branch decodes its own prompt. -/
theorem Reachable.atPrompt (hc : cfg.Reachable c) (hn : cfg.orchestrator.isPrefill n = false)
    (hat : c.AtOp (.worker n) (.llamaDecode h batch)) :
    ∃ start ctx, cfg.AtPrompt n h batch start ctx c.data := by
  obtain ⟨-, n', hn', hpre⟩ := (reachable_holds hc).pre hat
  cases hn'
  obtain ⟨id, start, tokens, lastLogits, ctx, -, hctx, -, hcells, hbranch⟩ := hpre.batch
  obtain ⟨hbatch, -, hbranch⟩ := hbranch hn
  obtain rfl := hbranch.tokens
  exact ⟨start, ctx, ⟨id, lastLogits, hbatch⟩, hctx, hcells, hbranch⟩

/-- What the decode adds behind the fork. -/
theorem AtPrompt.batch_cells {start : Nat} {ctx : LlamaContext} {w : World}
    (hat : cfg.AtPrompt n h batch start ctx w) :
    batch.cells = toCells (seqFrom start (cfg.prompt n)) := by
  obtain ⟨id, lastLogits, rfl⟩ := hat.batch
  exact cells_fillBatch _ _ _ _

/-- The fork of node `n` at `len` restored the export of the first `len` tokens. -/
def Forked (cfg : Pipeline) (p n : String) (len : Nat) (w : World) : Prop :=
  ∃ bytes, .forked len bytes ∈ w.log (.worker n) ∧ .restored bytes ∈ w.log (.worker n) ∧
    w.Exported (docSeq (cfg.doc p) len) bytes

/-- Behind a fork of positive length is an export of that length. -/
theorem AtPrompt.forked {start : Nat} {ctx : LlamaContext} {w : World}
    (hat : cfg.AtPrompt n h batch start ctx w) (hp : cfg.orchestrator.Sole p)
    (hgood : cfg.Good w) (hpos : 0 < start) : cfg.Forked p n start w := by
  obtain ⟨s, bytes, hfork, hrestored, hexp, hs⟩ := hat.branch.restored hgood (by omega)
  rw [Int.toNat_natCast] at hs
  rw [hs.eq_docSeq hp] at hexp
  exact ⟨bytes, hfork, hrestored, hexp⟩

/-! ## Watermark branches -/

/-- A watermark branch that decodes has forked at its watermark. -/
structure ForkExact (cfg : Pipeline) (p n : String) (h : Nat) (batch : LlamaBatch) (w : World) :
    Prop where
  batch : ∃ id lastLogits,
    batch = fillBatch id (cfg.prompt n) (cfg.orchestrator.req n) lastLogits
  forked : cfg.Forked p n (cfg.orchestrator.req n).toNat w
  holds : cfg.HoldsPrefix p h (cfg.orchestrator.req n).toNat w

/-- What a branch forks comes from one commit: it is empty, or a length together with
    the export of the first tokens of that length. -/
def FromOneCommit (cfg : Pipeline) (p : String) (len : Int) (bytes : List UInt8) (w : World) :
    Prop :=
  len = 0 ∧ bytes = [] ∨ ∃ k : Nat, 0 < k ∧ len = k ∧ w.Exported (docSeq (cfg.doc p) k) bytes

/-- Forks are exact whatever the prefiller does meanwhile. -/
theorem forks_exact (hp : cfg.orchestrator.Sole p) (hr : cfg.engine.RoundTrips)
    (hne : cfg.engine.ExportsNonempty) (hc : cfg.Reachable c) (hmem : ¬ c.data.OutOfMemory p) :
    (∀ n h batch, 0 < cfg.orchestrator.req n → c.AtOp (.worker n) (.llamaDecode h batch) →
      cfg.ForkExact p n h batch c.data) ∧
    ∀ n len bytes, .forked len bytes ∈ c.data.log (.worker n) →
      cfg.FromOneCommit p len bytes c.data := by
  have hinv := (reachable_holds hc).inv
  have hgood := hinv.good hp hr hne hmem
  constructor
  · intro n h batch hreq hat
    have hn : cfg.orchestrator.isPrefill n = false := by
      cases hn : cfg.orchestrator.isPrefill n with
      | false => rfl
      | true =>
        rw [Orchestrator.req_of_isPrefill hn] at hreq
        omega
    obtain ⟨start, ctx, hprompt⟩ := hc.atPrompt hn hat
    have hstart : (start : Int) = cfg.orchestrator.req n := hprompt.branch.milestone (by omega)
    obtain ⟨s, hs, hcells⟩ := hprompt.cells hgood
    rw [hs.eq_docSeq hp] at hcells
    have hbatch := hprompt.batch
    have hfork := hprompt.forked hp hgood (by omega)
    rw [hstart] at hbatch
    have hnat : (cfg.orchestrator.req n).toNat = start := by omega
    refine ⟨hbatch, ?_, ctx, hprompt.context, ?_⟩
    · rw [hnat]
      exact hfork
    · rw [hnat]
      exact hcells
  · intro n len bytes hlog
    obtain hempty | ⟨k, s, hk, hlen, hs, hexp⟩ := hinv.forked _ len bytes hlog hgood
    · exact .inl hempty
    · rw [hs.eq_docSeq hp] at hexp
      exact .inr ⟨k, hk, hlen, hexp⟩

/-- The toy branch has forked the one token of the document. -/
theorem forks_exact_toy : (Toy.star 1 false 1).ForkExact "P" "B" 2 (fillBatch 1 [7] 1 true)
    ((Toy.star 1 false 1).after Toy.forkAtOne).data := by
  have hsole : (Toy.star 1 false 1).orchestrator.Sole "P" := by decide
  have hexact := forks_exact hsole (Toy.engine_roundTrips 1 false) (Toy.engine_exportsNonempty 1)
    (reachable_after _ Toy.forkAtOne) (by decide +kernel)
  exact hexact.1 "B" 2 _ (by decide) (Monitor.Config.atOp_iff.mpr rfl)

/-! ## Full-prefill branches -/

/-- A full-prefill branch that decodes has what the single-context baseline has. -/
structure MatchesBaseline (cfg : Pipeline) (p n : String) (h : Nat) (batch : LlamaBatch)
    (w : World) : Prop where
  forked : cfg.Forked p n (cfg.doc p).length w
  cells : ∃ ctx, w.contexts h = some ctx ∧
    Baseline.runBaselineAgent cfg.engine.llamaNBatch (cfg.doc p) (cfg.prompt n) =
      some (ctx.cells ++ batch.cells)

/-- A full-prefill branch behind a finished prefiller matches the baseline exactly if
    the end of the document is a milestone. -/
theorem matchesBaseline_iff (hp : cfg.orchestrator.Sole p) (hr : cfg.engine.RoundTrips)
    (hne : cfg.engine.ExportsNonempty) (hc : cfg.Reachable c) (hend : c.data.Ended p (.ok ()))
    (hpos : 0 < (cfg.doc p).length) (hn : cfg.orchestrator.isPrefill n = false)
    (hreq : cfg.orchestrator.req n < 0) (hat : c.AtOp (.worker n) (.llamaDecode h batch)) :
    cfg.MatchesBaseline p n h batch c.data ↔ cfg.IsMilestone (cfg.doc p).length := by
  have hinv := (reachable_holds hc).inv
  have hdone := (hinv.ended p _ hend).2.prefill hp.1 rfl
  have hgood := hinv.good hp hr hne hdone.inMemory
  obtain ⟨start, ctx, hprompt⟩ := hc.atPrompt hn hat
  obtain ⟨s, hs, hcells⟩ := hprompt.cells hgood
  -- the prefiller has decoded, so the baseline can
  have hbaseline : Baseline.runBaselineAgent cfg.engine.llamaNBatch (cfg.doc p) (cfg.prompt n) =
      some (toCells (docSeq (cfg.doc p) (cfg.doc p).length) ++
        toCells (seqFrom (cfg.doc p).length (cfg.prompt n))) := by
    rw [Baseline.runBaselineAgent, Baseline.decodeTokensChunked_eq cfg.engine.llamaNBatch_pos
      (hdone.nBatch hpos), cells_fillBatch]
    rfl
  -- the branch continues where the last export ended
  have hstart : (start : Int) = c.data.state.prefixSeqLen := hprompt.branch.canonical hreq
  rw [← hdone.prefixSeqLen hp hpos, ← hstart]
  constructor
  · intro hm
    obtain ⟨ctx', hctx', hsame⟩ := hm.cells
    obtain rfl := Option.some.inj (hprompt.context.symm.trans hctx')
    have hlen := congrArg List.length (Option.some.inj (hbaseline.symm.trans hsame))
    have hs' : s.length = start := hs.1.length
    simp only [hcells, hprompt.batch_cells, List.length_append, toCells, List.length_map,
      length_seqFrom, (covers_docSeq (cfg.doc p) le_rfl).length] at hlen
    omega
  · intro hlen
    have hlen : start = (cfg.doc p).length := by omega
    subst hlen
    refine ⟨hprompt.forked hp hgood hpos, ctx, hprompt.context, ?_⟩
    rw [hbaseline, hcells, hs.eq_docSeq hp, hprompt.batch_cells]

/-- With the end of the document as a milestone, the toy branch matches the baseline. -/
theorem matchesBaseline_iff_toy : (Toy.star 1 false (-1) [1]).MatchesBaseline "P" "B" 3
    (fillBatch 1 [7] 1 true) ((Toy.star 1 false (-1) [1]).after Toy.forkAtEnd).data := by
  have hsole : (Toy.star 1 false (-1) [1]).orchestrator.Sole "P" := by decide
  have hend : ((Toy.star 1 false (-1) [1]).after Toy.forkAtEnd).data.Ended "P" (.ok ()) := by
    decide +kernel
  have hat : ((Toy.star 1 false (-1) [1]).after Toy.forkAtEnd).AtOp (.worker "B")
      (.llamaDecode 3 (fillBatch 1 [7] 1 true)) := Monitor.Config.atOp_iff.mpr rfl
  have hiff := matchesBaseline_iff hsole (Toy.engine_roundTrips 1 false)
    (Toy.engine_exportsNonempty 1) (reachable_after _ Toy.forkAtEnd) hend (by decide +kernel)
    (by decide) (by decide) hat
  exact hiff.mpr (by decide)

/-- Without any milestone, the toy branch decodes without the document. -/
theorem not_matchesBaseline : ¬ ∀ c, (Toy.star 1 false (-1)).Reachable c →
    c.data.Ended "P" (.ok ()) → ∀ h batch, c.AtOp (.worker "B") (.llamaDecode h batch) →
      (Toy.star 1 false (-1)).MatchesBaseline "P" "B" h batch c.data := by
  intro hall
  have hmatch := hall _ (reachable_after _ (Toy.steps "P" 33 ++ Toy.steps "B" 12))
    (by decide +kernel) 1 (fillBatch 1 [7] 0 true) (Monitor.Config.atOp_iff.mpr rfl)
  obtain ⟨ctx, hctx, hcells⟩ := hmatch.cells
  -- the context is empty
  have hempty : ((Toy.star 1 false (-1)).after (Toy.steps "P" 33 ++ Toy.steps "B" 12)).data.contexts
      1 = some { owner := .worker "B" } := rfl
  obtain rfl := Option.some.inj (hempty.symm.trans hctx)
  exact absurd hcells (by decide +kernel)

/-! ## Failed exports -/

/-- The context has every position of the prefix sequence before the batch. -/
def CoveredBelow (h : Nat) (batch : LlamaBatch) (w : World) : Prop :=
  ∃ ctx, w.contexts h = some ctx ∧ ∀ first, batch.slots.head? = some first →
    ∀ q, 0 ≤ q → q < first.pos →
      ∃ cell ∈ ctx.cells, cell.seqId = kSwarmkvPrefixSeqId ∧ cell.pos = q

/-- No snapshot of positive length has empty data. -/
def NoEmptySnapshot (w : World) : Prop :=
  ∀ t snap, w.state.prefixSnapshots t = some snap → 0 < snap.seqLen → snap.data ≠ []

/-- A batch starts at the position its filling loop starts at. -/
theorem fillBatch_head {id : Nat} {tokens : List LlamaToken} {start : Int} {lastLogits : Bool}
    {first : BatchToken} (hf : (fillBatch id tokens start lastLogits).slots.head? = some first) :
    first.pos = start := by
  cases tokens with
  | nil => cases hf
  | cons t rest =>
    simp only [fillBatch, List.zipIdx_cons, List.map_cons, List.head?_cons, Option.some.injEq] at hf
    subst hf
    show start + ((0 : Nat) : Int) = start
    omega

/-- As long as every export wrote something, and the prefill providers do not run out
    of memory, nothing is decoded behind a hole. -/
theorem covered_of_exports (hr : cfg.engine.RoundTrips) (hc : cfg.Reachable c)
    (hexp : ∀ s bytes, c.data.Exported s bytes → bytes ≠ [])
    (hmem : ∀ q, cfg.orchestrator.isPrefill q → ¬ c.data.OutOfMemory q) :
    (∀ i h batch, c.AtOp i (.llamaDecode h batch) → CoveredBelow h batch c.data) ∧
      NoEmptySnapshot c.data := by
  have hinv := (reachable_holds hc).inv
  have hgood : cfg.Good c.data := ⟨hr, hmem, hexp⟩
  constructor
  · intro i h batch hat
    obtain ⟨-, n, rfl, hpre⟩ := (reachable_holds hc).pre hat
    obtain ⟨id, start, tokens, lastLogits, ctx, hslots, hctx, -, hcells, -⟩ := hpre.batch
    obtain ⟨s, hs, hcells⟩ := hcells hgood
    refine ⟨ctx, hctx, fun first hfirst q hq hlt => ?_⟩
    rw [hslots] at hfirst
    rw [fillBatch_head hfirst] at hlt
    obtain ⟨t, ht⟩ := hs.1.mem hq hlt
    rw [hcells]
    exact ⟨_, List.mem_map.mpr ⟨_, ht, rfl⟩, rfl, rfl⟩
  · intro t snap hsnap _
    obtain ⟨s, hs, -⟩ := (hinv.snapshots t snap hsnap).exported
    exact hexp s _ hs

/-- With an export in it, the toy branch decodes behind the token of the document. -/
theorem covered_of_exports_toy : CoveredBelow 2 (fillBatch 1 [7] 1 true)
    ((Toy.star 1 false 1).after Toy.forkAtOne).data := by
  have hc := reachable_after (Toy.star 1 false 1) Toy.forkAtOne
  have hexp : ∀ s bytes, ((Toy.star 1 false 1).after Toy.forkAtOne).data.Exported s bytes →
      bytes ≠ [] := by
    intro s bytes h
    obtain ⟨hs, hbytes⟩ := (reachable_holds hc).inv.exported s bytes h
    exact Toy.engine_exportsNonempty 1 s bytes hs hbytes
  have hsole : (Toy.star 1 false 1).orchestrator.Sole "P" := by decide
  have hcovered := covered_of_exports (Toy.engine_roundTrips 1 false) hc hexp fun q hq => by
    rw [hsole.2 q hq]
    decide +kernel
  exact hcovered.1 (.worker "B") 2 _ (Monitor.Config.atOp_iff.mpr rfl)

/-- An export that writes nothing is published, and the toy branch decodes behind it at
    position 1 with an empty context. -/
theorem not_covered : ¬ ∀ c, (Toy.star 1 true 1).Reachable c →
    (∀ i h batch, c.AtOp i (.llamaDecode h batch) → CoveredBelow h batch c.data) ∧
      NoEmptySnapshot c.data := by
  intro hall
  have hcovered := (hall _ (reachable_after _ Toy.forkFailed)).1 (.worker "B") 1
    (fillBatch 1 [7] 1 true) (Monitor.Config.atOp_iff.mpr rfl)
  obtain ⟨ctx, hctx, hcells⟩ := hcovered
  have hempty : ((Toy.star 1 true 1).after Toy.forkFailed).data.contexts 1 =
      some { owner := .worker "B" } := rfl
  obtain rfl := Option.some.inj (hempty.symm.trans hctx)
  obtain ⟨cell, hcell, -⟩ := hcells _ rfl 0 le_rfl (by decide)
  cases hcell

end SwarmKV.Pipeline
