import SwarmKV.Spec.WorkerRules
import SwarmKV.Spec.BudgetCorrect
import SwarmKV.Spec.Run

/-!
# Positions stay inside the context

A prefiller decodes the slices of a document that is shorter than the context, and a branch
decodes its prompt behind a prefix that was committed before. The observer of this module
knows where a branch forks; what it takes for granted, that the prefix lengths on the
blackboard do not exceed the context, is in turn what all threads keep true.
-/

namespace SwarmKV

open Monitor

/-- The slots of a batch are at consecutive positions of the prefix sequence. -/
def LlamaBatch.Consecutive (b : LlamaBatch) (start : Int) : Prop :=
  ∀ j (h : j < b.slots.length), b.slots[j].pos = start + j ∧ b.slots[j].seqId = kSwarmkvPrefixSeqId

theorem consecutive_fillBatch (id : Nat) (tokens : List LlamaToken) (start : Int)
    (lastLogits : Bool) : (fillBatch id tokens start lastLogits).Consecutive start := by
  intro j h
  simp [fillBatch]

theorem tokens_fillBatch (id : Nat) (tokens : List LlamaToken) (start : Int) (lastLogits : Bool) :
    (fillBatch id tokens start lastLogits).slots.map (·.token) = tokens := by
  simp only [fillBatch, List.map_map]
  exact List.zipIdx_map_fst 0 tokens

/-- The prefix lengths on the blackboard are within the context. -/
structure PipelineState.Inside (nCtx : Nat) (s : PipelineState) : Prop where
  prefixSeqLen : 0 ≤ s.prefixSeqLen ∧ s.prefixSeqLen ≤ nCtx
  snapshots : ∀ t snap, s.prefixSnapshots t = some snap → 0 ≤ snap.seqLen ∧ snap.seqLen ≤ nCtx

/-- A batch that the node may submit: a part of its document, which is shorter than the context,
    or its whole prompt behind the fork, with room for 128 more tokens. -/
def DecodesInside (E : Engine) (nCtx : Nat) (fork : Option Int) (batch : LlamaBatch) :
    Option Node → Prop
  | none => False
  | some (.prefill node) => ∃ tokens id cur k,
    documentTokens E node.sourceDocumentPath = some tokens ∧
    tokens.length < nCtx ∧ cur + k ≤ tokens.length ∧
    batch.slots = (fillBatch id ((tokens.drop cur).take k) (cur : Nat) false).slots
  | some (.analytical node) => ∃ tokens id len, fork = some len ∧
    tokensOf E node.branchPrompt = some tokens ∧ batch = fillBatch id tokens len true ∧
    0 ≤ len ∧ len + tokens.length + 128 ≤ nCtx

/-- The observer of a node's positions; its state is where the node has forked. -/
def positionWatch (E : Engine) (nCtx : Nat) (node : Option Node) : Observer sig (Option Int) where
  start := none
  next s a _ := match a with
    | .op (.noteFork len _ _) => some len
    | _ => s
  ok s a := match a with
    | .op (.llamaDecode _ batch) => DecodesInside E nCtx s batch node
    | .op (.setPrefixSeqLen t) => 0 ≤ t ∧ t ≤ nCtx
    | .op (.putSnapshot t _) => 0 ≤ t ∧ t ≤ nCtx
    | .op (.noteFork _ _ _) => s = none
    | .op (.note (.forked _ _)) => False
    | _ => True
  ans _ a r := match a, r with
    | .op .load, r => (r : PipelineState).Inside nCtx
    | .op (.llamaDecode _ batch), r => r = true → 0 < batch.nTokens
    | _, _ => True

namespace Position

variable {E : Engine} {nCtx : Nat} {node : Option Node} {I : Option Int → Prop}

/-- The action decodes nothing, publishes no length and forks nothing. -/
def neutral : Action sig → Bool
  | .op (.llamaDecode _ _) => false
  | .op (.setPrefixSeqLen _) => false
  | .op (.putSnapshot _ _) => false
  | .op (.noteFork _ _ _) => false
  | .op (.note (.forked _ _)) => false
  | _ => true

theorem keeps_neutral {a : Action sig} (ha : neutral a = true) :
    (positionWatch E nCtx node).Keeps I a := by
  intro s hs
  cases a with
  | op o =>
    cases o with
    | note e =>
      cases e <;> first
        | exact ⟨trivial, fun _ _ => hs⟩
        | exact absurd ha Bool.false_ne_true
    | _ =>
      first
        | exact ⟨trivial, fun _ _ => hs⟩
        | exact absurd ha Bool.false_ne_true
  | _ => exact ⟨trivial, fun _ _ => hs⟩

theorem uses_neutral {α : Type} {p : Prog α} {U : Action sig → Prop} (hp : p.Uses U)
    (hU : ∀ a, U a → neutral a = true) :
    (positionWatch E nCtx node).Spec I p (fun _ => I) fun _ => I :=
  .of_uses hp fun a ha => keeps_neutral (hU a ha)

theorem op_neutral {o : Op} {X : Error → Option Int → Prop} (ho : neutral (.op o) = true) :
    (positionWatch E nCtx node).Spec I (perform o) (fun _ => I) X :=
  .op fun s hs => ⟨(keeps_neutral ho s hs).1, (keeps_neutral ho s hs).2⟩

theorem notifyAll_neutral {v : Cv} {X : Error → Option Int → Prop} :
    (positionWatch E nCtx node).Spec I (notifyAll v) (fun _ => I) X :=
  .notifyAll fun _ hs => ⟨trivial, fun _ => hs⟩

/-- A critical section that is neutral, but for what it does inside. -/
theorem withLock_neutral {α : Type} {l : Lock} {p : Prog α} {P : Option Int → Prop}
    {Q : α → Option Int → Prop} {X : Error → Option Int → Prop}
    (hp : (positionWatch E nCtx node).Spec P p Q X) :
    (positionWatch E nCtx node).Spec P (withLock l p) Q X :=
  .withLock_of_keeps (keeps_neutral rfl) hp (fun _ => keeps_neutral rfl) fun _ => keeps_neutral rfl

/-- What the blackboard shows is within the context. -/
theorem load_inside {X : Error → Option Int → Prop} :
    (positionWatch E nCtx node).Spec I (perform .load) (fun r s => I s ∧ r.Inside nCtx) X :=
  .op fun _ hs => ⟨trivial, fun _ hr => ⟨hs, hr⟩⟩

/-! ## The prefiller -/

/-- A commit of a length within the context. -/
theorem commitWatermark_inside {ctx : Option Nat} {t : Nat} (ht : t ≤ nCtx) :
    (positionWatch E nCtx node).Spec I (PipelineState.commitWatermark ctx t) (fun _ => I)
      fun _ => I := by
  refine .of_uses (PipelineState.commitWatermark_uses_to ctx t) fun a ha => ?_
  cases ha with
  | setPrefixSeqLen => exact fun s hs => ⟨⟨by omega, by omega⟩, fun _ _ => hs⟩
  | putSnapshot data => exact fun s hs => ⟨⟨by omega, by omega⟩, fun _ _ => hs⟩
  | _ => exact keeps_neutral rfl

/-- A slice of a document that is shorter than the context. -/
theorem prefillSlice_inside {source : PrefillNode} {tokens : List LlamaToken} {h t k : Nat}
    (hdocument : documentTokens E source.sourceDocumentPath = some tokens)
    (hlen : tokens.length < nCtx) (hle : t + k ≤ tokens.length) :
    (positionWatch E nCtx (some (.prefill source))).Spec I (PrefillNode.prefillSlice E h tokens t k)
      (fun _ => I) fun _ => I := by
  have hdecode : (positionWatch E nCtx (some (.prefill source))).Spec I
      (PrefillNode.decodeTokenRange E h tokens t k) (fun _ => I) fun _ => I := by
    refine PrefillNode.decodeLoop_spec (I := fun _ => I) (X := I) hle (fun _ _ _ hr => hr)
      (fun _ => keeps_neutral rfl) (fun _ _ => keeps_neutral rfl) (fun _ => keeps_neutral rfl) ?_ ?_
      k t k rfl le_rfl
    · -- a chunk is a part of the document
      intro cur k' id s _ hstop hs
      refine ⟨⟨tokens, id, cur, k', hdocument, hlen, by omega, rfl⟩, fun _ _ => ?_⟩
      exact ⟨fun _ => hs, fun _ => hs⟩
    · -- a batch with a negative count has no slots
      intro _ n cur id s _ hcur hs
      exact ⟨⟨tokens, id, cur, 0, hdocument, hlen, by omega, rfl⟩, fun _ => hs⟩
  exact withLock_neutral (.bind hdecode fun _ => commitWatermark_inside (by omega))

/-- The loop over a document that is shorter than the context. -/
theorem prefillLoop_inside {source : PrefillNode} {tokens : List LlamaToken} {h : Nat}
    (hdocument : documentTokens E source.sourceDocumentPath = some tokens)
    (hlen : tokens.length < nCtx) :
    (positionWatch E nCtx (some (.prefill source))).Spec I
      (PrefillNode.prefillLoop E tokens tokens.length tokens.length h 0) (fun _ => I) fun _ => I := by
  refine PrefillNode.prefillLoop_spec (J := fun _ _ => I) (K := fun _ _ => I) (L := fun _ _ => I)
    (fun h t _ _ => prefillSlice_inside hdocument hlen (by omega)) (fun h t _ => ?_)
    (fun h t _ => uses_neutral (PrefillNode.pauseAtMilestone_uses h t) fun _ ha => ?_)
    _ h 0 (Nat.zero_le _) (fun _ => Nat.dvd_zero _) (Nat.sub_le _ _)
  · refine .post (uses_neutral (PipelineState.isSnapshotMilestone_uses t) fun _ ha => ?_) fun b _ hs => ?_
    · cases ha <;> rfl
    · cases b <;> exact hs
  · -- a pause decodes nothing
    cases ha with
    | restore ha => cases ha with
      | lookup ha => cases ha <;> rfl
      | _ => rfl
    | _ => rfl

theorem prefill_inside (node : PrefillNode) (ctx : OrchestratorContext) (hctx : ctx.nCtx < 2 ^ 29) :
    (positionWatch ctx.engine ctx.nCtx (some (.prefill node))).Spec I (node.execute ctx)
      (fun _ => I) fun _ => I := by
  unfold PrefillNode.execute
  refine .bind (op_neutral rfl) fun t₀ => .bind (op_neutral rfl) fun r => ?_
  cases r with
  | none => exact .throw fun _ hs => hs
  | some h =>
    refine .bind (op_neutral rfl) fun r => .bind (.of_uses (U := fun _ => False)
      (KVHandoff.bindContiguousCache_uses _ _) fun _ ha => ha.elim) fun _ => ?_
    dsimp only
    refine .bind PrefillNode.loadDocumentText_spec fun text => .assume fun htext => ?_
    refine .bind (PrefillNode.tokenizeText_spec (keeps_neutral rfl)) fun tokens => ?_
    generalize hcount : toInt32 tokens.length = count
    generalize hlimit : toInt32 ctx.nCtx = limit
    refine .assume fun htokens => ?_
    have hdocument : documentTokens ctx.engine node.sourceDocumentPath = some tokens := by
      rw [documentTokens, htext, Option.bind_some, htokens]
    -- neither the token count nor the limit is changed by its cast
    have htotal : count = tokens.length := by
      rw [← hcount, toInt32_of_lt (tokensOf_length htokens)]
    have hlim : limit = ctx.nCtx := by
      rw [← hlimit, toInt32_of_lt (by omega)]
    refine .ite (fun _ => ?_) fun hlt => ?_
    · exact .bind (op_neutral rfl) fun _ => .throw fun _ hs => hs
    -- behind the size check the document is shorter than the context
    have hlen : tokens.length < ctx.nCtx := by omega
    rw [htotal, Int.toNat_natCast]
    refine .bind (prefillLoop_inside hdocument hlen) fun h' => .bind (op_neutral rfl) fun _ => ?_
    refine .bind (withLock_neutral (.bind (op_neutral rfl) fun _ => notifyAll_neutral)) fun _ => ?_
    refine .bind (op_neutral rfl) fun _ => ?_
    refine uses_neutral (PipelineState.recordTiming_uses _ _) fun _ ha => ?_
    cases ha <;> rfl

/-! ## A branch -/

/-- A snapshot that is found is within the context. -/
theorem tryGetPrefixSnapshot_inside (t : Int) {X : Error → Option Int → Prop} :
    (positionWatch E nCtx node).Spec I (PipelineState.tryGetPrefixSnapshot t)
      (fun r s => I s ∧ ∀ x, r = some x → 0 ≤ x.2.2 ∧ x.2.2 ≤ (nCtx : Int)) X := by
  unfold PipelineState.tryGetPrefixSnapshot
  refine withLock_neutral (.bind load_inside fun r => .assume fun hr => ?_)
  split
  · exact .ret fun s hs => ⟨hs, fun x hx => by cases hx⟩
  · rename_i snap hsnap
    refine .ret fun s hs => ⟨hs, fun x hx => ?_⟩
    cases hx
    exact hr.snapshots _ _ hsnap

/-- What a branch forks is within the context. -/
theorem chooseFork_inside (branch : AnalyticalNode) :
    (positionWatch E nCtx node).Spec I branch.chooseFork
      (fun fork s => I s ∧ 0 ≤ fork.prefixLen ∧ fork.prefixLen ≤ nCtx) fun _ => I := by
  unfold AnalyticalNode.chooseFork
  refine .ite (fun _ => .bind (tryGetPrefixSnapshot_inside _) fun r => .assume fun hr => ?_) fun _ => ?_
  · split
    · exact .throw fun _ hs => hs
    · exact .ret fun s hs => ⟨hs, hr _ rfl⟩
  · -- only the first of the three looks decides the length
    refine .bind load_inside fun s₁ => .assume fun hs₁ => ?_
    refine .bind (op_neutral (o := .load) rfl) fun s₂ => .ite (fun _ => ?_) fun _ => ?_
    · refine .bind (op_neutral (o := .load) rfl) fun s₃ => ?_
      split
      · exact .throw fun _ hs => hs
      · exact .ret fun s hs => ⟨hs, hs₁.prefixSeqLen⟩
    · exact .ret fun s hs => ⟨hs, hs₁.prefixSeqLen⟩

theorem restoreAction_neutral {a : Action sig} (ha : RestoreAction a) : neutral a = true := by
  cases ha with
  | lookup ha => cases ha <;> rfl
  | _ => rfl

theorem forkAction_neutral {a : Action sig} (ha : ForkAction a) : neutral a = true := by
  cases ha with
  | copy ha => cases ha <;> rfl
  | pool ha => cases ha <;> rfl

theorem promptAction_neutral {a : Action sig} (ha : PromptAction a) : neutral a = true := by
  cases ha with
  | lookup ha => cases ha <;> rfl
  | _ => rfl

theorem hostAction_neutral {a : Action sig} (ha : HostAction a) : neutral a = true := by
  cases ha <;> rfl

/-- The budget check of a branch leaves room, as nothing wraps. -/
theorem budget_room {len : Int} {n nCtx : Nat} (hlen : 0 ≤ len ∧ len ≤ nCtx) (hn : n < 2 ^ 29)
    (hctx : nCtx < 2 ^ 29) (h : toInt32 (len + n + 128) ≤ toInt32 nCtx) :
    len + n + 128 ≤ nCtx := by
  rw [toInt32_of_lt (show nCtx < 2 ^ 31 by omega)] at h
  unfold toInt32 at h
  rw [Int.bmod_eq_of_le (by omega) (by omega)] at h
  exact h

/-- A branch that knows its fork and has room behind it decodes its prompt. -/
theorem decodePrompt_inside {branch : AnalyticalNode} {ctx : OrchestratorContext} {h : Nat}
    {tokens : List LlamaToken} {fork : AnalyticalNode.Fork}
    (htokens : tokensOf E branch.branchPrompt = some tokens) (hpos : 0 ≤ fork.prefixLen)
    (hroom : fork.prefixLen + tokens.length + 128 ≤ nCtx) :
    (positionWatch E nCtx (some (.analytical branch))).Spec (· = some fork.prefixLen)
      (branch.decodePrompt ctx h tokens fork) (fun _ _ => True) fun _ _ => True := by
  unfold AnalyticalNode.decodePrompt
  refine .bind (op_neutral rfl) fun id => .bind (Q := fun _ _ => True) (.op fun s hs => ?_)
    fun ok => .ite (fun _ => ?_) fun _ => ?_
  · exact ⟨⟨tokens, id, fork.prefixLen, hs, htokens, rfl, hpos, hroom⟩, fun _ _ => trivial⟩
  · refine .bind (uses_neutral (AnalyticalNode.publishOutput_uses _ _ _)
      fun _ ha => hostAction_neutral ha) fun _ => ?_
    exact .bind (op_neutral rfl) fun _ => op_neutral rfl
  · refine .bind (op_neutral rfl) fun _ => .bind (op_neutral rfl) fun _ => ?_
    exact .throw fun _ _ => trivial

theorem branch_inside (branch : AnalyticalNode) (ctx : OrchestratorContext)
    (hctx : ctx.nCtx < 2 ^ 29)
    (hprompt : ∀ tokens, tokensOf ctx.engine branch.branchPrompt = some tokens →
      tokens.length < 2 ^ 29) :
    (positionWatch ctx.engine ctx.nCtx (some (.analytical branch))).Spec (· = none)
      (branch.execute ctx) (fun _ _ => True) fun _ _ => True := by
  unfold AnalyticalNode.execute AnalyticalNode.forkAndDecode
  refine withLock_neutral ?_
  refine .bind (op_neutral rfl) fun t₀ => .ite (fun _ => .throw fun _ _ => trivial) fun _ => ?_
  -- where it forks is noted
  refine .bind (.err (chooseFork_inside branch) fun _ _ _ => trivial) fun fork =>
    .assume fun hfork => ?_
  refine .bind (.err (uses_neutral (AnalyticalNode.materializeFork_uses fork)
    fun _ ha => forkAction_neutral ha) fun _ _ _ => trivial) fun branchBuf => ?_
  refine .bind (Q := fun _ s => s = some fork.prefixLen) (.op fun s hs => ⟨hs, fun _ _ => rfl⟩)
    fun _ => ?_
  refine .bind (op_neutral rfl) fun r => ?_
  cases r with
  | none => exact .throw fun _ _ => trivial
  | some h =>
    refine .bind (.err (uses_neutral (AnalyticalNode.restoreFork_uses h fork branchBuf)
      fun _ ha => promptAction_neutral ha) fun _ _ _ => trivial) fun _ => ?_
    -- the budget check has passed
    refine .bind (.err (AnalyticalNode.preparePrompt_fits_spec h branchBuf fork
      fun a ha => keeps_neutral (promptAction_neutral ha)) fun _ _ _ => trivial) fun tokens => ?_
    refine .fix fun s₀ hs₀ => ?_
    obtain ⟨hs₀, htokens, -, -, hfits⟩ := hs₀
    have hroom : fork.prefixLen + tokens.length + 128 ≤ ctx.nCtx :=
      budget_room hfork (hprompt tokens htokens) hctx hfits
    refine .bind (.pre (decodePrompt_inside htokens hfork.1 hroom) fun s hs => hs ▸ hs₀) fun _ => ?_
    refine .ite (fun _ => ?_) fun _ => ?_
    · refine .bind (uses_neutral (PipelineState.signalMilestoneConsumed_uses _) fun _ ha => ?_)
        fun _ => ?_
      · cases ha <;> rfl
      · exact uses_neutral (PipelineState.recordTiming_uses _ _) fun _ ha => hostAction_neutral ha
    · exact uses_neutral (PipelineState.recordTiming_uses _ _) fun _ ha => hostAction_neutral ha

/-! ## All threads -/

theorem gateAction_neutral {a : Action sig} (ha : GateAction a) : neutral a = true := by
  cases ha <;> rfl

theorem workerAction_neutral {n : String} {a : Action sig} (ha : WorkerAction n a) :
    neutral a = true := by
  cases ha <;> rfl

/-- The observers of the threads. -/
def watch (cfg : Pipeline) (nCtx : Nat) (i : Thread) : Observer sig (Option Int) :=
  positionWatch cfg.engine nCtx (match i with
    | .main => none
    | .worker n => cfg.orchestrator.node n)

/-- The prompts of the branches are shorter than 2^29 tokens. -/
def ShortPrompts (cfg : Pipeline) : Prop :=
  ∀ n branch tokens, cfg.orchestrator.node n = some (.analytical branch) →
    tokensOf cfg.engine branch.branchPrompt = some tokens → tokens.length < 2 ^ 29

theorem program_inside (cfg : Pipeline) (hctx : nCtx < 2 ^ 29) (hprompt : ShortPrompts cfg)
    (i : Thread) :
    (watch cfg nCtx i).Meets (cfg.programAt nCtx i) (fun _ _ => True) (watch cfg nCtx i).start := by
  refine cfg.programAt_meets (fun a ha => keeps_neutral (by cases ha <;> rfl)) (fun n _ => ?_) i
  refine .conseq (Orchestrator.workerAt_spec (P := (· = none)) (I := (· = none)) (J := (· = none))
    (K := fun _ => True) (fun _ _ => trivial) (fun node _ => ?_) (fun s hs => ⟨trivial, fun _ _ => hs⟩)
    (fun a ha _ => keeps_neutral (workerAction_neutral ha))
    (fun t a ha => keeps_neutral (by cases ha <;> rfl)) fun node ctx hn hE hlen _ => ?_)
    (fun s hs => hs) (fun _ _ _ => trivial) fun _ _ _ => trivial
  · exact .err (uses_neutral (Orchestrator.awaitDependencies_uses _ _)
      fun _ ha => gateAction_neutral ha) fun _ _ _ => trivial
  · show (positionWatch cfg.engine nCtx (cfg.orchestrator.node n)).Spec _ _ _ _
    rw [hn, ← hE, ← hlen]
    cases node with
    | prefill node =>
      exact .conseq (prefill_inside (I := (· = none)) node ctx (hlen ▸ hctx)) (fun _ hs => hs)
        (fun _ _ _ => trivial) fun _ _ _ => trivial
    | analytical node =>
      exact branch_inside node ctx (hlen ▸ hctx) fun tokens htokens =>
        hprompt n node tokens hn (hE ▸ htokens)

end Position

/-- The blackboard stays within the context. -/
theorem PipelineState.Inside.exec {E : Engine} {i : Thread} {o : Op} {x : Choice} {w w' : World}
    {r : o.Res} {nCtx : Nat} {node : Option Node} {s : Option Int} (h : w.state.Inside nCtx)
    (hok : (positionWatch E nCtx node).ok s (.op o)) (hx : exec E i o x w = some (r, w')) :
    w'.state.Inside nCtx := by
  refine ⟨?_, fun t snap hsnap => ?_⟩
  · rcases exec_prefixSeqLen hx with heq | ⟨t, rfl, heq⟩
    · rw [heq]
      exact h.prefixSeqLen
    · rw [heq]
      exact hok
  · rcases exec_prefixSnapshots hx with heq | ⟨t', data, rfl, heq⟩
    · rw [heq] at hsnap
      exact h.snapshots t snap hsnap
    · rw [heq] at hsnap
      by_cases ht : t = t'
      · rw [ht, Function.update_self] at hsnap
        obtain rfl := Option.some.inj hsnap
        exact hok
      · rw [Function.update_of_ne ht] at hsnap
        exact h.snapshots t snap hsnap

namespace Pipeline

variable {cfg : Pipeline} {nCtx : Nat} {c : Config cfg.engine}

/-- What holds of the world while the observers watch. -/
structure PositionInv (nCtx : Nat) (forks : Thread → Option Int) (w : World) : Prop where
  inside : w.state.Inside nCtx
  forked : ∀ i len, (∃ bytes, .forked len bytes ∈ w.log i) ↔ forks i = some len

theorem registeredState_inside (cfg : Pipeline) (nCtx : Nat) :
    cfg.registeredState.Inside nCtx := by
  refine ⟨?_, fun t snap hsnap => ?_⟩
  · rw [registeredState_prefixSeqLen]
    omega
  · rw [registeredState_prefixSnapshots] at hsnap
    cases hsnap

theorem PositionInv.init (cfg : Pipeline) (nCtx : Nat) :
    PositionInv nCtx (Observer.state (Position.watch cfg nCtx) ([] : Trace (machine cfg.engine)))
      cfg.initialWorld := by
  refine ⟨registeredState_inside cfg nCtx, fun i len => iff_of_false (fun h => ?_) fun h => ?_⟩
  · obtain ⟨bytes, hmem⟩ := h
    cases hmem
  · cases i <;> cases h

/-- One operation. -/
theorem PositionInv.exec {forks : Thread → Option Int} {i : Thread} {o : Op} {x : Choice}
    {w w' : World} {r : o.Res} {node : Option Node} (h : PositionInv nCtx forks w)
    (hok : (positionWatch cfg.engine nCtx node).ok (forks i) (.op o))
    (hx : SwarmKV.exec cfg.engine i o x w = some (r, w')) {forks' : Thread → Option Int}
    (hsame : forks' i = (positionWatch cfg.engine nCtx node).next (forks i) (.op o) r)
    (hother : ∀ j, j ≠ i → forks' j = forks j) :
    (positionWatch cfg.engine nCtx node).ans (forks i) (.op o) r ∧ PositionInv nCtx forks' w' := by
  refine ⟨?_, h.inside.exec hok hx, fun j len => ?_⟩
  · -- the answers are as the observers take them for granted
    cases o with
    | load =>
      obtain ⟨rfl, rfl⟩ := Prod.mk.inj (Option.some.inj hx)
      exact h.inside
    | llamaDecode hd batch => exact exec_answered hx
    | _ => trivial
  -- the log of a thread says where it has forked
  by_cases hj : j = i
  · subst hj
    rw [hsame]
    by_cases hfork : ∃ len' buf n, o = .noteFork len' buf n
    · -- it has not forked before
      obtain ⟨len', buf, n, rfl⟩ := hfork
      obtain ⟨rfl, rfl⟩ := Prod.mk.inj (Option.some.inj hx)
      have hnone : forks j = none := hok
      show _ ↔ some len' = some len
      rw [Option.some.injEq]
      constructor
      · intro hmem
        obtain ⟨bytes, hmem⟩ := hmem
        rcases exec_mem_log hx hmem with hold | ⟨-, hemit⟩
        · exact absurd ((h.forked j len).mp ⟨bytes, hold⟩) (by simp [hnone])
        · cases hemit
          rfl
      · intro heq
        exact ⟨w.branchBytes buf n, by simp [World.record, World.branchBytes, heq]⟩
    · have hnext : (positionWatch cfg.engine nCtx node).next (forks j) (.op o) r = forks j := by
        cases o with
        | noteFork len' buf n => exact absurd ⟨len', buf, n, rfl⟩ hfork
        | _ => rfl
      rw [hnext, ← h.forked j len]
      constructor
      · intro hmem
        obtain ⟨bytes, hmem⟩ := hmem
        rcases exec_mem_log hx hmem with hold | ⟨-, hemit⟩
        · exact ⟨bytes, hold⟩
        · cases hemit with
          | note e => exact hok.elim
          | noteFork len buf n => exact absurd ⟨len, buf, n, rfl⟩ hfork
      · intro hmem
        obtain ⟨bytes, hmem⟩ := hmem
        exact ⟨bytes, (exec_log_grows hx j).subset hmem⟩
  · rw [hother j hj, exec_log_other hx hj]
    exact h.forked j len

theorem PositionInv.congr {forks forks' : Thread → Option Int} {w w' : World}
    (h : PositionInv nCtx forks w) (hstate : w'.state = w.state) (hlog : w'.log = w.log)
    (hforks : ∀ j, forks' j = forks j) : PositionInv nCtx forks' w' :=
  ⟨hstate ▸ h.inside, fun i len => by rw [hlog, hforks, h.forked]⟩

/-- Only operations count. -/
theorem state_quiet {e : Entry (machine cfg.engine)} {tr : Trace (machine cfg.engine)}
    (he : ∀ o, e.action ≠ .op o) (j : Thread) :
    Observer.state (Position.watch cfg nCtx) (e :: tr) j =
      Observer.state (Position.watch cfg nCtx) tr j := by
  obtain ⟨i, a, r, d⟩ := e
  by_cases hj : j = i
  · subst hj
    rw [Observer.state_act]
    cases a with
    | op o => exact absurd rfl (he o)
    | _ => rfl
  · exact Observer.state_other hj

/-- Observers and world agree in every state of a run. -/
theorem positions (hctx : nCtx < 2 ^ 29) (hprompt : Position.ShortPrompts cfg)
    (hr : (cfg.initialAt nCtx).Reaches c) :
    ∃ forks : Thread → Option Int, PositionInv nCtx forks c.data ∧ ∀ i o, c.AtOp i o →
      (Position.watch cfg nCtx i).ok (forks i) (.op o) := by
  obtain ⟨tr, hrun⟩ := hr.exists_run
  have hobs := hrun.observe (A := Position.watch cfg nCtx) (Q := fun _ _ _ => True)
    (R := fun tr c => PositionInv nCtx (Observer.state (Position.watch cfg nCtx) tr) c.data)
    (Position.program_inside cfg hctx hprompt) (PositionInv.init cfg nCtx)
    (fun {tr c e c'} _ hR he hok => ?_) fun _ hR hs => ?_
  · exact ⟨_, hobs.1, fun i o hat => hobs.2.ok_of_atOp hat⟩
  · have hother : ∀ j, j ≠ e.thread → Observer.state (Position.watch cfg nCtx) (e :: tr) j =
        Observer.state (Position.watch cfg nCtx) tr j := fun _ => Observer.state_other
    cases he with
    | op ht hx => exact hR.exec hok hx Observer.state_same hother
    | _ =>
      exact ⟨trivial, hR.congr rfl rfl fun j => state_quiet (fun o => by simp) j⟩
  · cases hs <;> exact hR

end Pipeline

/-! ## The tokenizer -/

/-- A tokenize helper returns the complete token list, unless memory runs out. -/
theorem Engine.Tokenizes.outcome {E : Engine} {complete : List UInt8 → List LlamaToken}
    (h : E.Tokenizes complete) {failure : Error} {text : String} (hlen : text.utf8ByteSize < 2 ^ 31)
    {i : Thread} {H : Finset Lock} {w : World} {xs : List Choice}
    {t : Alone.End (machine E) Error (List LlamaToken)}
    (hrun : (solo E i).run (tokenizeWith failure E text) H w xs = some t) :
    t.outcome = .ok (complete (textBytes text)) ∨ t.outcome = .error .badAlloc := by
  have hend := (tokenizeWith_ends w xs t trivial hrun).2
  obtain ⟨r, H', w', ys, os⟩ := t
  cases r with
  | ok tokens =>
    have htokens : tokensOf E text = some tokens := hend
    rw [h.tokensOf_eq hlen, Option.some.injEq] at htokens
    exact .inl (congrArg _ htokens.symm)
  | error e =>
    have hend : e ≠ .badAlloc → tokensOf E text = none := hend
    rw [h.tokensOf_eq hlen] at hend
    exact .inr (congrArg _ (by_contra fun hne => absurd (hend hne) (by simp)))

namespace Pipeline

variable {cfg : Pipeline} {nCtx : Nat}

/-- No text has 2^31 bytes or more: neither the documents nor the prompts. -/
structure ShortTexts (cfg : Pipeline) : Prop where
  documents : ∀ n node text, cfg.orchestrator.node n = some (.prefill node) →
    documentText cfg.engine node.sourceDocumentPath = some text → text.utf8ByteSize < 2 ^ 31
  prompts : ∀ n branch, cfg.orchestrator.node n = some (.analytical branch) →
    branch.branchPrompt.utf8ByteSize < 2 ^ 31

/-- Whatever the document, the milestones and the schedule are: a batch that is submitted has
    consecutive positions of the prefix sequence; a prefiller decodes tokens of its document, each
    at its place in it, and only if the document is shorter than the context; a branch decodes its
    whole prompt behind its fork, and only if that leaves room for 128 more tokens. The tokens that
    the budget counts are the ones that are decoded, as both tokenizers return the complete list of
    each text of fewer than 2^31 bytes. -/
theorem decodes_inside {complete : List UInt8 → List LlamaToken} (hE : cfg.engine.Tokenizes complete)
    (hctx : nCtx < 2 ^ 29) (hshort : cfg.ShortTexts)
    (hprompt : ∀ n branch, cfg.orchestrator.node n = some (.analytical branch) →
      (complete (textBytes branch.branchPrompt)).length < 2 ^ 29) :
    (∀ c, (cfg.initialAt nCtx).Reaches c → ∀ n h batch,
      c.AtOp (.worker n) (.llamaDecode h batch) →
        (∃ start, batch.Consecutive start) ∧
        (∀ node, cfg.orchestrator.node n = some (.prefill node) →
          ∃ text, documentText cfg.engine node.sourceDocumentPath = some text ∧
            (complete (textBytes text)).length < nCtx ∧ ∃ start : Nat, batch.Consecutive start ∧
            batch.slots.map (·.token) =
              ((complete (textBytes text)).drop start).take batch.slots.length ∧
            ∀ slot ∈ batch.slots, 0 ≤ slot.pos ∧ slot.pos < nCtx) ∧
        ∀ branch, cfg.orchestrator.node n = some (.analytical branch) →
          ∃ len, (∃ bytes, .forked len bytes ∈ c.data.log (.worker n)) ∧
            (∀ len' bytes, .forked len' bytes ∈ c.data.log (.worker n) → len' = len) ∧
            batch.Consecutive len ∧
            batch.slots.map (·.token) = complete (textBytes branch.branchPrompt) ∧
            0 ≤ len ∧ len + (complete (textBytes branch.branchPrompt)).length + 128 ≤ nCtx) ∧
    ∀ text, text.utf8ByteSize < 2 ^ 31 →
      tokensOf cfg.engine text = some (complete (textBytes text)) ∧ ∀ i H w xs,
        (∀ t, (solo cfg.engine i).run (swarmkvTokenizeForBudget cfg.engine text) H w xs = some t →
          t.outcome = .ok (complete (textBytes text)) ∨ t.outcome = .error .badAlloc) ∧
        ∀ t, (solo cfg.engine i).run (AnalyticalNode.tokenizeText cfg.engine text) H w xs = some t →
          t.outcome = .ok (complete (textBytes text)) ∨ t.outcome = .error .badAlloc := by
  refine ⟨fun c hr n h batch hat => ?_, fun text hlen => ⟨hE.tokensOf_eq hlen, fun i H w xs =>
    ⟨fun t hrun => hE.outcome hlen hrun, fun t hrun => hE.outcome hlen hrun⟩⟩⟩
  have hcounted : Position.ShortPrompts cfg := by
    intro m branch tokens hm htokens
    rw [hE.tokensOf_eq (hshort.prompts m branch hm)] at htokens
    obtain rfl := Option.some.inj htokens
    exact hprompt m branch hm
  obtain ⟨forks, hinv, hok⟩ := positions hctx hcounted hr
  have hdec : DecodesInside cfg.engine nCtx (forks (.worker n)) batch (cfg.orchestrator.node n) :=
    hok (.worker n) _ hat
  cases hn : cfg.orchestrator.node n with
  | none => simp [hn, DecodesInside] at hdec
  | some node =>
    rw [hn] at hdec
    cases node with
    | prefill node =>
      -- a chunk of the document
      obtain ⟨tokens, id, cur, k, htokens, hlen, hle, hslots⟩ := hdec
      have hcons : batch.Consecutive cur := by
        unfold LlamaBatch.Consecutive
        rw [hslots]
        exact consecutive_fillBatch id _ cur false
      refine ⟨⟨cur, hcons⟩, fun node' hp => ?_, fun branch hb => by cases hb⟩
      cases hp
      -- the document is tokenized as a whole
      obtain ⟨text, htext, hcut⟩ := Option.bind_eq_some_iff.mp htokens
      rw [hE.tokensOf_eq (hshort.documents n node text hn htext)] at hcut
      obtain rfl := Option.some.inj hcut
      have hcount : batch.slots.length = k := by
        rw [hslots, length_fillBatch, List.length_take, List.length_drop]
        omega
      refine ⟨text, htext, hlen, cur, hcons, ?_, fun slot hslot => ?_⟩
      · rw [hcount, hslots, tokens_fillBatch]
      · obtain ⟨j, hj, rfl⟩ := List.getElem_of_mem hslot
        rw [(hcons j hj).1]
        rw [hcount] at hj
        omega
    | analytical node =>
      -- the one batch of a branch, behind its only fork
      obtain ⟨tokens, id, len, hfork, htokens, rfl, hpos, hroom⟩ := hdec
      refine ⟨⟨_, consecutive_fillBatch _ _ _ _⟩, fun node' hp => ?_, fun branch hb => ?_⟩
      · cases hp
      cases hb
      -- and so is the prompt
      rw [hE.tokensOf_eq (hshort.prompts n node hn)] at htokens
      obtain rfl := Option.some.inj htokens
      refine ⟨len, (hinv.forked _ len).mpr hfork, fun len' bytes hmem => ?_,
        consecutive_fillBatch _ _ _ _, tokens_fillBatch _ _ _ _, hpos, hroom⟩
      have hfork' := (hinv.forked _ len').mp ⟨bytes, hmem⟩
      exact Option.some.inj (hfork'.symm.trans hfork)

private theorem capped_node {n : String} {node : Node}
    (hn : Toy.capped.orchestrator.node n = some node) :
    node = .prefill ⟨"document"⟩ ∨ node = .analytical ⟨"prompt", 1⟩ := by
  have hmem : (n, node) ∈ [Toy.prefiller, Toy.branch "B" 1] := Orchestrator.node_eq_some.mp hn
  rw [List.mem_cons, List.mem_singleton] at hmem
  obtain h | h := hmem <;> obtain ⟨-, rfl⟩ := Prod.mk.inj h
  · exact .inl rfl
  · exact .inr rfl

private theorem capped_shortTexts : Toy.capped.ShortTexts where
  documents n node text hn htext := by
    obtain h | h := capped_node hn <;> cases h
    obtain rfl : "document" = text := Option.some.inj htext
    decide +kernel
  prompts n branch hn := by
    obtain h | h := capped_node hn <;> cases h
    decide +kernel

/-- The branch has forked at 1, and is about to decode its prompt there. -/
theorem decodes_inside_capped :
    (∃ bytes, .forked 1 bytes ∈ (Toy.capped.after Toy.forkAtOne).data.log (.worker "B")) ∧
    (fillBatch 1 [7] 1 true).Consecutive 1 ∧ (1 : Int) + 1 + 128 ≤ kSwarmkvDefaultPipelineCtx ∧
    tokensOf Toy.capped.engine "document" = some [5] := by
  have hcapped := @decodes_inside Toy.capped kSwarmkvDefaultPipelineCtx Toy.byteTokens
    Toy.byteEngine_tokenizes (by decide) capped_shortTexts (fun n branch _ => by
      have htwo := Toy.byteTokens_length (textBytes branch.branchPrompt)
      omega)
  have hdec := hcapped.1 (Toy.capped.after Toy.forkAtOne)
    (reachable_after Toy.capped Toy.forkAtOne) "B" 2 (fillBatch 1 [7] 1 true)
    (Config.atOp_iff.mpr rfl)
  obtain ⟨len, hfork, -, hpos, -, -, hroom⟩ := hdec.2.2 ⟨"prompt", 1⟩ rfl
  obtain rfl : len = 1 := by
    have hfirst := (hpos 0 (by decide)).1
    simpa [fillBatch] using hfirst.symm
  have hone : (Toy.byteTokens (textBytes "prompt")).length = 1 := by decide +kernel
  have hdocument : Toy.byteTokens (textBytes "document") = [5] := by decide +kernel
  refine ⟨hfork, hpos, by rwa [hone] at hroom, ?_⟩
  rw [(hcapped.2 "document" (by decide +kernel)).1, hdocument]

/-- A text of `n` bytes. -/
private def textOf (n : Nat) : String := String.ofList (List.replicate n 'a')

private theorem textOf_size (n : Nat) : (textOf n).utf8ByteSize = n := by
  unfold textOf
  induction n with
  | zero => rfl
  | succ n ih =>
    rw [List.replicate_succ', String.ofList_append, String.utf8ByteSize_append, ih]
    rfl

/-- Of a text of 2^32 + 1 bytes both helpers return the tokens of its first byte. -/
theorem not_tokenizes_complete : ¬ ∀ (E : Engine) (complete : List UInt8 → List LlamaToken),
    E.Tokenizes complete → ∀ text w xs t,
      (solo E .main).run (AnalyticalNode.tokenizeText E text) ∅ w xs = some t →
      t.outcome = .ok (complete (textBytes text)) ∨ t.outcome = .error .badAlloc := by
  intro hall
  have hsize := textOf_size (2 ^ 32 + 1)
  generalize textOf (2 ^ 32 + 1) = hugeText at hsize
  have hone : toInt32 hugeText.utf8ByteSize = (1 : Nat) := by
    rw [hsize]
    decide
  -- the cast leaves one byte
  have hcut := Toy.byteEngine_tokenizes.tokensOf_cut hone
  have hfirst : Toy.byteTokens ((textBytes hugeText).take 1) = [7] := by
    unfold Toy.byteTokens
    have hlen : ((textBytes hugeText).take 1).length ≤ 1 := List.length_take_le 1 _
    exact if_pos (by omega)
  have hwhole : Toy.byteTokens (textBytes hugeText) = [9, 9] := by
    unfold Toy.byteTokens
    rw [length_textBytes, if_neg (by omega), if_neg (by omega)]
  rw [hfirst] at hcut
  obtain ⟨xs, t, hrun, hret⟩ := tokenizeWith_returns (E := Toy.byteEngine) (i := .main)
    (show Error.branchTokenizeFailed ≠ .badAlloc by simp) hcut { state := {} }
  have houtcome := hall Toy.byteEngine Toy.byteTokens Toy.byteEngine_tokenizes hugeText _ xs t hrun
  rw [hwhole, hret] at houtcome
  obtain heq | heq := houtcome <;> cases heq

end Pipeline

end SwarmKV
