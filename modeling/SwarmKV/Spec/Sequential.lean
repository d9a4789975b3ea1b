import SwarmKV.Spec.Graph

/-!
# The pipeline without threads

What `execute_pipeline` computes, as plain functions of the graph and of what llama.cpp answers:
the prefill is run to its end, and each branch then forks from what the prefill has filed. The
functions follow those of the nodes, with the contents of a context in place of its handle.
-/

namespace SwarmKV

/-- No node but `p` is a prefill provider, and all others depend on `p` if it is in the graph. -/
structure Orchestrator.FedBy (o : Orchestrator) (p : String) : Prop where
  provider : p ∈ o.names → o.isPrefill p = true
  sole : ∀ n, o.isPrefill n = true → n = p
  direct : p ∈ o.names → ∀ n ∈ o.names, n ≠ p → p ∈ o.getDependenciesForNode n
  registered : ∀ n ∈ o.names, o.DepsRegistered n

/-- What the calls of llama.cpp answer, by what is in the context. -/
structure Calls where
  /-- `llama_decode` of some slots succeeds. -/
  decode : List KvCell → List BatchToken → Bool
  /-- What `llama_state_seq_get_data` writes for a sequence. -/
  getData : SeqState → List UInt8
  /-- `llama_state_seq_set_data` of some bytes succeeds. -/
  setData : List KvCell → List UInt8 → Bool

/-- The engine does not fail, and restores what it has exported. -/
structure Calls.Faithful (D : Calls) (E : Engine) : Prop where
  exports : ∀ q bytes, E.exports q bytes = true → bytes = D.getData q
  decode : ∀ cells slots, slots.length ≤ E.llamaNBatch → D.decode cells slots = true
  getData : ∀ q, q ≠ [] → D.getData q ≠ []
  setData : ∀ q, q ≠ [] → D.setData [] (D.getData q) = true
  restore : ∀ q, q ≠ [] → E.restore (D.getData q) = some q

/-- What a prefill leaves behind: the snapshots that it has filed, the last one first, and how it
    has ended. -/
structure Prefilled where
  filed : List (Int × List UInt8)
  outcome : Outcome

namespace Calls

variable (D : Calls) (cfg : Pipeline)

/-- `llama_decode` of a batch succeeds. Without tokens it does not. -/
def decodes (cells : List KvCell) (batch : LlamaBatch) : Bool :=
  0 < batch.nTokens && D.decode cells batch.slots

/-- `llama_decode` of a batch: what is in the context afterwards. -/
def decodeBatch (cells : List KvCell) (batch : LlamaBatch) : Option (List KvCell) :=
  if D.decodes cells batch then some (cells ++ batch.cells) else none

/-- `llama_decode` of tokens at consecutive positions. -/
def decodeTokens (cells : List KvCell) (tokens : List LlamaToken) (start : Int)
    (lastLogits : Bool) : Option (List KvCell) :=
  D.decodeBatch cells (fillBatch 0 tokens start lastLogits)

/-- The batch can be any. -/
theorem decodeTokens_eq (id : Nat) (cells : List KvCell) (tokens : List LlamaToken) (start : Int)
    (lastLogits : Bool) : D.decodeTokens cells tokens start lastLogits =
      D.decodeBatch cells (fillBatch id tokens start lastLogits) :=
  rfl

/-- What is in a fresh context once `data` has been restored there, if there is any. -/
def restoreData (data : List UInt8) : Option (List KvCell) :=
  if data = [] then some []
  else if D.setData [] data then
    some ((cfg.engine.restore data).elim [] (restoreSeq kSwarmkvPrefixSeqId · []))
  else none

/-! ## The prefill -/

/-- `decode_token_range`. -/
def decodeLoop (tokens : List LlamaToken) :
    (fuel cur remaining : Nat) → List KvCell → Option (List KvCell)
  | 0, _, _, cells => some cells
  | fuel + 1, cur, remaining, cells =>
    if remaining > 0 then
      let chunk := min (toInt32 cfg.engine.llamaNBatch) remaining
      let filled := fillBatch 0 ((tokens.drop cur).take chunk.toNat) cur false
      (D.decodeBatch cells { filled with nTokens := chunk }).bind
        (decodeLoop tokens fuel (cur + chunk.toNat) (remaining - chunk.toNat))
    else some cells

/-- Behind the milestone whose snapshot is `data`, the prefill goes on in a fresh context, with
    `rest`. -/
def resumeThen (data : List UInt8) (filed : List (Int × List UInt8))
    (rest : List KvCell → List (Int × List UInt8) → Prefilled) : Prefilled :=
  match D.restoreData cfg data with
  | none => ⟨filed, .error .resumeSizeMismatch⟩
  | some cells => rest cells filed

/-- The commit of `t`, with a canonical buffer of `cap` bytes. A milestone is filed. -/
def commitThen (cap t : Nat) (cells : List KvCell) (filed : List (Int × List UInt8))
    (rest : List KvCell → List (Int × List UInt8) → Prefilled) : Prefilled :=
  if cfg.registeredState.snapshotMilestones.contains (t : Int) then
    let seq := seqState kSwarmkvPrefixSeqId cells
    if cap < cfg.engine.llamaStateSeqGetSize seq then ⟨filed, .error .commitBufferTooSmall⟩
    else D.resumeThen cfg (D.getData seq) ((t, D.getData seq) :: filed) rest
  else rest cells filed

/-- The V2 loop from `t` on. -/
def prefillFrom (cap : Nat) (tokens : List LlamaToken) :
    (fuel t : Nat) → List KvCell → List (Int × List UInt8) → Prefilled
  | 0, _, _, filed => ⟨filed, .ok ()⟩
  | fuel + 1, t, cells, filed =>
    if t < tokens.length then
      let chunk := min kSwarmkvPrefillChunkTokens (tokens.length - t)
      match D.decodeLoop cfg tokens chunk t chunk cells with
      | none => ⟨filed, .error .prefillDecodeFailed⟩
      | some cells =>
        D.commitThen cfg cap (t + chunk) cells filed (prefillFrom cap tokens fuel (t + chunk))
    else ⟨filed, .ok ()⟩

/-- `PrefillNode::execute`. -/
def prefill (node : PrefillNode) : Prefilled :=
  match cfg.staging with
  | none => ⟨[], .error .bindNull⟩
  | some cap =>
    match documentText cfg.engine node.sourceDocumentPath with
    | none => ⟨[], .error .documentUnreadable⟩
    | some text =>
      match tokensOf cfg.engine text with
      | none => ⟨[], .error .prefillTokenizeFailed⟩
      | some tokens =>
        if toInt32 tokens.length ≥ toInt32 kSwarmkvDefaultPipelineCtx then
          ⟨[], .error (.documentTooLarge tokens.length kSwarmkvDefaultPipelineCtx)⟩
        else D.prefillFrom cfg cap tokens tokens.length 0 [] []

/-- What the provider `p` of the graph leaves behind. -/
def provided (p : String) : Prefilled :=
  match cfg.orchestrator.node p with
  | some (.prefill node) => D.prefill cfg node
  | _ => ⟨[], .ok ()⟩

/-! ## The branches -/

/-- The size of a branch buffer. -/
def branchSize (nCtx : Nat) : Nat :=
  if cfg.engine.llamaStateGetSize nCtx = 0 then 2 ^ 20 else cfg.engine.llamaStateGetSize nCtx

/-- The last of some snapshots, which is the canonical export. -/
def lastFiled (filed : List (Int × List UInt8)) : Int × List UInt8 := filed.head?.getD (0, [])

/-- What a branch forks: `fork_prefix_len` and the bytes. -/
def chooseFork (filed : List (Int × List UInt8)) (watermark : Int) :
    Except Error (Int × List UInt8) :=
  if watermark ≥ 0 then
    match filed.lookup watermark with
    | none => .error (.missingPrefixSnapshot watermark)
    | some data => .ok (watermark, data)
  else if (lastFiled filed).2 ≠ [] ∧ cfg.staging = none then .error .noCanonicalBuffer
  else .ok (lastFiled filed)

/-- The copy of the fork into a branch buffer, if it has any bytes. -/
def materializeFork (watermark : Int) (data : List UInt8) : Except Error Unit :=
  let size := branchSize cfg kSwarmkvDefaultPipelineCtx
  if data = [] then .ok ()
  else
    match cfg.staging with
    | some cap =>
      if watermark < 0 then
        if data.length > cap ∨ data.length > size then .error .materializeTooLarge else .ok ()
      else if size < data.length then .error .branchBufferTooSmall else .ok ()
    | none => if size < data.length then .error .branchBufferTooSmall else .ok ()

theorem materializeFork_nil (watermark : Int) : materializeFork cfg watermark [] = .ok () := by
  simp only [materializeFork, if_true]

theorem materializeFork_canonical {watermark : Int} {data : List UInt8} {cap : Nat}
    (hneg : watermark < 0) (hne : data ≠ []) (hcap : cfg.staging = some cap) :
    materializeFork cfg watermark data =
      if data.length > cap ∨ data.length > branchSize cfg kSwarmkvDefaultPipelineCtx then
        .error .materializeTooLarge
      else .ok () := by
  simp only [materializeFork, if_neg hne, hcap, if_pos hneg]

theorem materializeFork_snapshot {watermark : Int} {data : List UInt8} (hpos : ¬ watermark < 0)
    (hne : data ≠ []) : materializeFork cfg watermark data =
      if branchSize cfg kSwarmkvDefaultPipelineCtx < data.length then .error .branchBufferTooSmall
      else .ok () := by
  simp only [materializeFork, if_neg hne, if_neg hpos]
  split <;> rfl

/-- The restored fork. -/
def restoreFork (data : List UInt8) : Except Error (List KvCell) :=
  match D.restoreData cfg data with
  | none => .error .branchSizeMismatch
  | some cells => .ok cells

/-- `swarmkv_validate_context_budget` of a single prompt with these tokens. -/
def validateContextBudget (prefixTokens : Int) (tokens : List LlamaToken) (nCtx : Nat) :
    Except Error Unit :=
  if prefixTokens < 0 then .error .budgetNegativePrefix
  else
    let required := toInt32 (prefixTokens + tokens.length + 128)
    if required > toInt32 nCtx then
      .error (.budgetExceeded prefixTokens tokens.length 128 required (toInt32 nCtx))
    else .ok ()

/-- The tokens of the prompt, if it fits behind the fork. -/
def preparePrompt (prompt : String) (len : Int) (data : List UInt8) :
    Except Error (List LlamaToken) :=
  if data = [] ∧ cfg.staging = none then .error .bindNull
  else
    match tokensOf cfg.engine prompt with
    | none => .error .branchTokenizeFailed
    | some tokens =>
      if tokens = [] then .error .emptyPrompt
      else
        match validateContextBudget len tokens kSwarmkvDefaultPipelineCtx with
        | .error e => .error (.branchBudget e)
        | .ok () => .ok tokens

/-- The diagnostic string of a branch whose prompt has been decoded behind the fork. -/
def decodePrompt (node : AnalyticalNode) (len : Int) (cells : List KvCell)
    (tokens : List LlamaToken) : Except Error String :=
  match D.decodeTokens cells tokens len true with
  | none => .error .branchDecodeFailed
  | some _ => .ok (s!"branch_ok n_tok={tokens.length} prefix={len}" ++
      s!" watermark={node.requiredPrefixTokens}")

/-- `AnalyticalNode::execute`, behind a prefill that has filed `filed`. -/
def branch (filed : List (Int × List UInt8)) (node : AnalyticalNode) : Except Error String := do
  let fork ← chooseFork cfg filed node.requiredPrefixTokens
  materializeFork cfg node.requiredPrefixTokens fork.2
  let cells ← D.restoreFork cfg fork.2
  let tokens ← preparePrompt cfg node.branchPrompt fork.1 fork.2
  D.decodePrompt node fork.1 cells tokens

/-! ## The pipeline -/

/-- How node `n` ends, and what it publishes in `node_outputs`. -/
def result (p n : String) : Outcome × Option String :=
  match cfg.orchestrator.node n with
  | none => (.ok (), none)
  | some (.prefill node) => ((D.prefill cfg node).outcome, none)
  | some (.analytical node) =>
    match D.branch cfg (D.provided cfg p).filed node with
    | .error e => (.error e, none)
    | .ok output => (.ok (), some output)

/-! ## Names outside the graph -/

variable {D cfg}

theorem provided_of_not_mem {p : String} (hp : p ∉ cfg.orchestrator.names) :
    D.provided cfg p = ⟨[], .ok ()⟩ := by
  have hnone : cfg.orchestrator.node p = none := by
    rw [← Option.not_isSome_iff_eq_none, Option.isSome_iff_exists]
    exact fun hsome => hp (Orchestrator.mem_names.mpr hsome)
  rw [provided, hnone]

theorem result_of_not_mem {p n : String} (hn : n ∉ cfg.orchestrator.names) :
    D.result cfg p n = (.ok (), none) := by
  have hnone : cfg.orchestrator.node n = none := by
    rw [← Option.not_isSome_iff_eq_none, Option.isSome_iff_exists]
    exact fun hsome => hn (Orchestrator.mem_names.mpr hsome)
  rw [result, hnone]

/-! ## The snapshots -/

variable {cap : Nat} {tokens : List LlamaToken}

/-- A commit files nothing below its own position. -/
theorem commitThen_lookup {t : Nat} {cells : List KvCell} {filed : List (Int × List UInt8)}
    {rest : List KvCell → List (Int × List UInt8) → Prefilled} {u : Int} (hu : u < t)
    (hrest : ∀ cells filed, (rest cells filed).filed.lookup u = filed.lookup u) :
    (D.commitThen cfg cap t cells filed rest).filed.lookup u = filed.lookup u := by
  have hcons : ∀ data, ((t, data) :: filed : List (Int × List UInt8)).lookup u = filed.lookup u := by
    intro data
    have hne : (u == (t : Int)) = false := by
      rw [beq_eq_false_iff_ne]
      omega
    rw [List.lookup_cons, hne]
  unfold commitThen
  split
  · dsimp only
    split
    · rfl
    · unfold resumeThen
      split
      · exact hcons _
      · rw [hrest, hcons]
  · exact hrest _ _

/-- The rest of a prefill files nothing up to the position where it starts. -/
theorem prefillFrom_lookup {u : Int} (fuel t : Nat) (cells : List KvCell)
    (filed : List (Int × List UInt8)) (hu : u ≤ t) :
    (D.prefillFrom cfg cap tokens fuel t cells filed).filed.lookup u = filed.lookup u := by
  induction fuel generalizing t cells filed with
  | zero => rfl
  | succ fuel ih =>
    unfold prefillFrom
    split
    · dsimp only
      have hchunk : 0 < min kSwarmkvPrefillChunkTokens (tokens.length - t) := by
        simp only [kSwarmkvPrefillChunkTokens]
        omega
      generalize min kSwarmkvPrefillChunkTokens (tokens.length - t) = chunk at hchunk
      split
      · rfl
      · exact commitThen_lookup (by omega) fun cells filed => ih _ cells filed (by omega)
    · rfl

end Calls

/-! ## Pipelines with the same nodes -/

/-- Two pipelines have the same nodes, on the same engine: they differ in the order of registration
    and in the edges. -/
structure Pipeline.SameNodes (cfg cfg' : Pipeline) : Prop where
  engine : cfg'.engine = cfg.engine
  staging : cfg'.staging = cfg.staging
  node : ∀ n, cfg'.orchestrator.node n = cfg.orchestrator.node n
  milestones : ∀ t, t ∈ cfg'.milestones ↔ t ∈ cfg.milestones

namespace Pipeline.SameNodes

variable {D : Calls} {cfg cfg' : Pipeline}

theorem mem_names (h : cfg.SameNodes cfg') {n : String} :
    n ∈ cfg'.orchestrator.names ↔ n ∈ cfg.orchestrator.names := by
  rw [Orchestrator.mem_names, Orchestrator.mem_names, h.node]

theorem contains (h : cfg.SameNodes cfg') (t : Int) :
    cfg'.registeredState.snapshotMilestones.contains t =
      cfg.registeredState.snapshotMilestones.contains t := by
  have hreq : ∀ n, cfg'.orchestrator.req n = cfg.orchestrator.req n := fun n => by
    rw [Orchestrator.req, Orchestrator.req, h.node]
  have hbranch : ∀ n, n ∈ cfg'.orchestrator.branchesAt t ↔ n ∈ cfg.orchestrator.branchesAt t :=
    fun n => by rw [Orchestrator.mem_branchesAt, Orchestrator.mem_branchesAt, h.mem_names, hreq]
  rw [Bool.eq_iff_iff, List.contains_iff_mem, List.contains_iff_mem, cfg'.mem_registeredMilestones,
    cfg.mem_registeredMilestones]
  have hnil : cfg'.orchestrator.branchesAt t = [] ↔ cfg.orchestrator.branchesAt t = [] := by
    simp only [List.eq_nil_iff_forall_not_mem, hbranch]
  simp only [IsMilestone, Orchestrator.HasConsumers, h.milestones, ne_eq, hnil]

private theorem decodeLoop_eq (h : cfg.SameNodes cfg') (tokens : List LlamaToken)
    (fuel cur remaining : Nat) (cells : List KvCell) :
    D.decodeLoop cfg' tokens fuel cur remaining cells =
      D.decodeLoop cfg tokens fuel cur remaining cells := by
  induction fuel generalizing cur remaining cells with
  | zero => rfl
  | succ fuel ih =>
    have hrest : ∀ cur remaining, D.decodeLoop cfg' tokens fuel cur remaining =
        D.decodeLoop cfg tokens fuel cur remaining := fun cur remaining => funext (ih cur remaining)
    simp only [Calls.decodeLoop, h.engine, hrest]

private theorem prefillFrom_eq (h : cfg.SameNodes cfg') (cap : Nat) (tokens : List LlamaToken)
    (fuel t : Nat) (cells : List KvCell) (filed : List (Int × List UInt8)) :
    D.prefillFrom cfg' cap tokens fuel t cells filed =
      D.prefillFrom cfg cap tokens fuel t cells filed := by
  induction fuel generalizing t cells filed with
  | zero => rfl
  | succ fuel ih =>
    simp only [Calls.prefillFrom, h.decodeLoop_eq, Calls.commitThen, h.contains, Calls.resumeThen,
      Calls.restoreData, h.engine, ih]

theorem prefill_eq (h : cfg.SameNodes cfg') (node : PrefillNode) :
    D.prefill cfg' node = D.prefill cfg node := by
  simp only [Calls.prefill, h.staging, h.engine, h.prefillFrom_eq]

theorem provided_eq (h : cfg.SameNodes cfg') (p : String) :
    D.provided cfg' p = D.provided cfg p := by
  simp only [Calls.provided, h.node, h.prefill_eq]

/-- The sequential program does the same for both. -/
theorem result_eq (h : cfg.SameNodes cfg') (p n : String) :
    D.result cfg' p n = D.result cfg p n := by
  have hchoose : Calls.chooseFork cfg' = Calls.chooseFork cfg := by
    funext filed W
    simp only [Calls.chooseFork, h.staging]
  have hmaterialize : Calls.materializeFork cfg' = Calls.materializeFork cfg := by
    have hsize : Calls.branchSize cfg' = Calls.branchSize cfg := by
      funext nCtx
      simp only [Calls.branchSize, h.engine]
    funext W data
    simp only [Calls.materializeFork, hsize, h.staging]
  have hrestore : D.restoreFork cfg' = D.restoreFork cfg := by
    funext data
    simp only [Calls.restoreFork, Calls.restoreData, h.engine]
  have hprepare : Calls.preparePrompt cfg' = Calls.preparePrompt cfg := by
    funext prompt len data
    simp only [Calls.preparePrompt, h.staging, h.engine]
  simp only [Calls.result, h.node, h.prefill_eq, h.provided_eq, Calls.branch, hchoose, hmaterialize,
    hrestore, hprepare]

end Pipeline.SameNodes

end SwarmKV
