import SwarmKV.Spec.ScheduleCorrect

/-!
# What a pipeline puts out

With an engine that does not fail, the sequential program files the document at each of its
milestones, and each branch answers with the prefix that it has forked.
-/

namespace SwarmKV

open Monitor

/-- The diagnostic string of a branch that has forked at `len`. -/
def Pipeline.branchOk (cfg : Pipeline) (n : String) (node : AnalyticalNode) (len : Int) : String :=
  s!"branch_ok n_tok={(cfg.prompt n).length} prefix={len}" ++
    s!" watermark={node.requiredPrefixTokens}"

/-- How a branch ends and what it puts out, behind a prefill whose last milestone is `L`: a branch
    without a watermark forks there, one with a watermark forks at it if it is committed. -/
def Pipeline.answer (cfg : Pipeline) (p : String) (L : Nat) (n : String) (node : AnalyticalNode) :
    Outcome × Option String :=
  if node.requiredPrefixTokens < 0 then (.ok (), some (cfg.branchOk n node L))
  else if CommitValue (cfg.doc p).length node.requiredPrefixTokens then
    (.ok (), some (cfg.branchOk n node node.requiredPrefixTokens))
  else (.error (.missingPrefixSnapshot node.requiredPrefixTokens), none)

/-- `L` is the last milestone that the prefill of `p` commits, and 0 if there is none. -/
structure Pipeline.LastMilestone (cfg : Pipeline) (p : String) (L : Nat) : Prop where
  committed : L = 0 ∨ CommitValue (cfg.doc p).length L ∧ cfg.IsMilestone L
  last : ∀ t : Nat, CommitValue (cfg.doc p).length t → cfg.IsMilestone t → t ≤ L

/-- The document and the prompts can be tokenized and fit, and the buffers have room for the
    exports. The size of a batch fits, too, if there is something to prefill. -/
structure Pipeline.Fitting (cfg : Pipeline) (p : String) (cap : Nat) : Prop where
  staging : cfg.staging = some cap
  document : ∀ node, cfg.orchestrator.node p = some (.prefill node) →
    documentTokens cfg.engine node.sourceDocumentPath = some (cfg.doc p)
  nBatch : cfg.doc p ≠ [] → cfg.engine.llamaNBatch < 2 ^ 31
  short : (cfg.doc p).length < kSwarmkvDefaultPipelineCtx
  exports : ∀ t : Nat, CommitValue (cfg.doc p).length t → cfg.IsMilestone t →
    cfg.engine.llamaStateSeqGetSize (docSeq (cfg.doc p) t) ≤ cap ∧
      cfg.engine.llamaStateSeqGetSize (docSeq (cfg.doc p) t) ≤
        Calls.branchSize cfg kSwarmkvDefaultPipelineCtx
  prompts : ∀ n node, cfg.orchestrator.node n = some (.analytical node) →
    tokensOf cfg.engine node.branchPrompt = some (cfg.prompt n) ∧ cfg.prompt n ≠ [] ∧
      (cfg.prompt n).length ≤ cfg.engine.llamaNBatch ∧
      (cfg.doc p).length + (cfg.prompt n).length + 128 ≤ kSwarmkvDefaultPipelineCtx

namespace Calls

variable {D : Calls} {cfg : Pipeline} {p n : String} {cap : Nat} {tokens : List LlamaToken}

/-! ## The prefill -/

/-- The positions that the V2 loop commits from `t` on. -/
def commitsFrom (total : Nat) : (fuel t : Nat) → List Nat
  | 0, _ => []
  | fuel + 1, t =>
    if t < total then
      let chunk := min kSwarmkvPrefillChunkTokens (total - t)
      (t + chunk) :: commitsFrom total fuel (t + chunk)
    else []

theorem mem_commitsFrom {total fuel t u : Nat} (ht : 128 ∣ t ∨ t = total) (hfuel : total ≤ t + fuel) :
    u ∈ commitsFrom total fuel t ↔ CommitValue total u ∧ t < u := by
  induction fuel generalizing t with
  | zero =>
    simp only [commitsFrom, List.not_mem_nil, false_iff, not_and]
    intro hu
    have hle := hu.2.1
    omega
  | succ fuel ih =>
    unfold commitsFrom
    split
    · rename_i hlt
      have hdvd : 128 ∣ t := by omega
      simp only [kSwarmkvPrefillChunkTokens, List.mem_cons]
      rw [ih (by omega) (by omega)]
      constructor
      · rintro (rfl | ⟨hu, hlt'⟩)
        · exact ⟨commitValue_slice hdvd hlt, by omega⟩
        · exact ⟨hu, by omega⟩
      · rintro ⟨hu, htu⟩
        by_cases hle : u ≤ t + min 128 (total - t)
        · left
          have hslice := hu.slice hdvd hlt (by omega)
          omega
        · exact .inr ⟨hu, by omega⟩
    · simp only [List.not_mem_nil, false_iff, not_and]
      intro hu
      have hle := hu.2.1
      omega

theorem commitsFrom_sorted (total fuel t : Nat) :
    (commitsFrom total fuel t).Pairwise (· < ·) ∧ ∀ u ∈ commitsFrom total fuel t, t < u := by
  induction fuel generalizing t with
  | zero => exact ⟨.nil, fun u hu => by cases hu⟩
  | succ fuel ih =>
    unfold commitsFrom
    split
    · have hpos : 0 < min kSwarmkvPrefillChunkTokens (total - t) := by
        simp only [kSwarmkvPrefillChunkTokens]
        omega
      dsimp only
      generalize min kSwarmkvPrefillChunkTokens (total - t) = chunk at hpos
      obtain ⟨hsorted, hlt⟩ := ih (t + chunk)
      refine ⟨List.pairwise_cons.mpr ⟨hlt, hsorted⟩, fun u hu => ?_⟩
      obtain rfl | hu := List.mem_cons.mp hu
      · omega
      · have := hlt u hu
        omega
    · exact ⟨.nil, fun u hu => by cases hu⟩

/-- `llama_decode` of tokens that fit into a batch extends the context. -/
theorem decodeBatch_eq (hD : D.Faithful cfg.engine) (id : Nat) {slice : List LlamaToken}
    (hne : slice ≠ []) (hbatch : slice.length ≤ cfg.engine.llamaNBatch) (cells : List KvCell)
    (start : Int) (lastLogits : Bool) :
    D.decodeBatch cells (fillBatch id slice start lastLogits) =
      some (cells ++ toCells (seqFrom start slice)) := by
  have hpos : 0 < slice.length := List.length_pos_iff.mpr hne
  have hyes : D.decodes cells (fillBatch id slice start lastLogits) = true := by
    unfold decodes
    rw [Bool.and_eq_true, decide_eq_true_iff]
    exact ⟨Int.natCast_pos.mpr hpos, hD.decode _ _ (by simpa [fillBatch] using hbatch)⟩
  rw [decodeBatch, if_pos hyes, cells_fillBatch]

/-- `decode_token_range` extends the prefix by its slice. -/
theorem decodeLoop_eq (hD : D.Faithful cfg.engine) (hnb : cfg.engine.llamaNBatch < 2 ^ 31)
    {fuel cur remaining : Nat} (hfuel : remaining ≤ fuel) (hle : cur + remaining ≤ tokens.length) :
    D.decodeLoop cfg tokens fuel cur remaining (toCells (docSeq tokens cur)) =
      some (toCells (docSeq tokens (cur + remaining))) := by
  induction fuel generalizing cur remaining with
  | zero =>
    obtain rfl : remaining = 0 := by omega
    rfl
  | succ fuel ih =>
    unfold decodeLoop
    split
    · have hpos := cfg.engine.llamaNBatch_pos
      have hchunk : 0 < min cfg.engine.llamaNBatch remaining ∧
          min cfg.engine.llamaNBatch remaining ≤ remaining := by omega
      have hbatch : min cfg.engine.llamaNBatch remaining ≤ cfg.engine.llamaNBatch := Nat.min_le_left _ _
      dsimp only
      rw [chunk_eq hnb, Int.toNat_natCast]
      generalize min cfg.engine.llamaNBatch remaining = chunk at hchunk hbatch
      have hlen : ((tokens.drop cur).take chunk).length = chunk := by
        rw [List.length_take, List.length_drop]
        omega
      have hne : (tokens.drop cur).take chunk ≠ [] := by
        rw [← List.length_pos_iff, hlen]
        exact hchunk.1
      -- the chunk is a part of the document
      rw [PrefillNode.chunk_batch tokens (by omega), decodeBatch_eq hD 0 hne (by omega),
        ← toCells_append, ← docSeq_add tokens (by omega), Option.bind_some]
      rw [ih (by omega) (by omega), Nat.add_assoc, Nat.add_sub_cancel' hchunk.2]
    · obtain rfl : remaining = 0 := by omega
      rfl

/-- The snapshots of the milestones among some positions, the last one first. -/
def snapshotsAt (D : Calls) (cfg : Pipeline) (tokens : List LlamaToken) (positions : List Nat) :
    List (Int × List UInt8) :=
  (positions.filter fun t : Nat => cfg.registeredState.snapshotMilestones.contains (t : Int)).reverse.map
    fun t : Nat => ((t : Int), D.getData (docSeq tokens t))

theorem snapshotsAt_cons (t : Nat) (positions : List Nat) :
    D.snapshotsAt cfg tokens (t :: positions) =
      D.snapshotsAt cfg tokens positions ++
        if cfg.registeredState.snapshotMilestones.contains (t : Int) then
          [((t : Int), D.getData (docSeq tokens t))]
        else [] := by
  unfold snapshotsAt
  rw [List.filter_cons]
  split
  · rw [List.reverse_cons, List.map_append, List.map_cons, List.map_nil]
  · rw [List.append_nil]

theorem docSeq_ne_nil {t : Nat} (hpos : 0 < t) (hle : t ≤ tokens.length) : docSeq tokens t ≠ [] := by
  have hlen := (covers_docSeq tokens hle).length
  intro hnil
  rw [hnil, List.length_nil] at hlen
  omega

/-- The context behind a milestone is the one before it. -/
theorem restoreData_getData (hD : D.Faithful cfg.engine) {q : SeqState} (hq : q ≠ []) :
    D.restoreData cfg (D.getData q) = some (toCells q) := by
  unfold restoreData
  rw [if_neg (hD.getData q hq), if_pos (hD.setData q hq), hD.restore q hq]
  exact congrArg some (restoreSeq_nil q)

/-- The V2 loop files the milestones that it commits. -/
theorem prefillFrom_eq (hD : D.Faithful cfg.engine)
    (hnb : tokens ≠ [] → cfg.engine.llamaNBatch < 2 ^ 31)
    (hcap : ∀ t : Nat, CommitValue tokens.length t → cfg.IsMilestone t →
      cfg.engine.llamaStateSeqGetSize (docSeq tokens t) ≤ cap)
    {fuel t : Nat} {filed : List (Int × List UInt8)} (ht : 128 ∣ t ∨ t = tokens.length)
    (hle : t ≤ tokens.length) (hfuel : tokens.length ≤ t + fuel) :
    D.prefillFrom cfg cap tokens fuel t (toCells (docSeq tokens t)) filed =
      ⟨D.snapshotsAt cfg tokens (commitsFrom tokens.length fuel t) ++ filed, .ok ()⟩ := by
  induction fuel generalizing t filed with
  | zero => rfl
  | succ fuel ih =>
    unfold prefillFrom commitsFrom
    split
    · rename_i hlt
      -- the next commit value
      have hdvd : 128 ∣ t := by omega
      have hcommit := commitValue_slice hdvd hlt
      have hchunk : min kSwarmkvPrefillChunkTokens (tokens.length - t) =
        min 128 (tokens.length - t) := rfl
      rw [hchunk]
      dsimp only
      have hend : 128 ∣ t + min 128 (tokens.length - t) ∨
        t + min 128 (tokens.length - t) = tokens.length := by omega
      have hpos : 0 < min 128 (tokens.length - t) := by omega
      have hle' : t + min 128 (tokens.length - t) ≤ tokens.length := by omega
      generalize min 128 (tokens.length - t) = chunk at hcommit hend hpos hle'
      have hne : tokens ≠ [] := by
        rintro rfl
        exact absurd hlt (Nat.not_lt_zero t)
      -- the slice is decoded, and filed if it ends at a milestone
      rw [decodeLoop_eq hD (hnb hne) (Nat.le_refl _) hle', snapshotsAt_cons]
      dsimp only
      unfold commitThen
      split
      · rename_i hm
        have hmilestone : cfg.IsMilestone (t + chunk : Nat) :=
          cfg.mem_registeredMilestones.mp (List.contains_iff_mem.mp hm)
        dsimp only
        rw [seqState_toCells, if_neg (by have := hcap _ hcommit hmilestone; omega)]
        unfold resumeThen
        rw [restoreData_getData hD (docSeq_ne_nil (by omega) hle')]
        dsimp only
        rw [ih hend hle' (by omega), List.append_assoc, List.singleton_append]
      · -- no milestone
        rw [ih hend hle' (by omega), List.append_nil]
    · rfl

/-- The lookup of a position finds its export. -/
private theorem lookup_map {f : Nat → List UInt8} {l : List Nat} {u : Int} :
    (l.map fun t : Nat => ((t : Int), f t)).lookup u =
      if u ∈ l.map (fun t : Nat => (t : Int)) then some (f u.toNat) else none := by
  induction l with
  | nil => rfl
  | cons t l ih =>
    simp only [List.map_cons, List.lookup_cons, List.mem_cons]
    by_cases hu : u = t
    · subst hu
      simp
    · rw [beq_eq_false_iff_ne.mpr hu]
      simp only [ih, hu, false_or]

/-- A snapshot is there if its position is a milestone that is committed. -/
theorem snapshotsAt_lookup {u : Int} :
    (D.snapshotsAt cfg tokens (commitsFrom tokens.length tokens.length 0)).lookup u =
      if CommitValue tokens.length u ∧ cfg.IsMilestone u then
        some (D.getData (docSeq tokens u.toNat))
      else none := by
  unfold snapshotsAt
  rw [lookup_map]
  refine if_congr ?_ rfl rfl
  have hcommit : ∀ t : Nat, t ∈ commitsFrom tokens.length tokens.length 0 ↔
      CommitValue tokens.length t := fun t => by
    rw [mem_commitsFrom (.inl (Nat.dvd_zero 128)) (by omega)]
    exact ⟨fun h => h.1, fun h => ⟨h, by have := h.1; omega⟩⟩
  simp only [List.mem_map, List.mem_reverse, List.mem_filter, hcommit, List.contains_iff_mem,
    cfg.mem_registeredMilestones]
  constructor
  · rintro ⟨t, ht, rfl⟩
    exact ht
  · rintro ⟨hu, hm⟩
    have hpos := hu.1
    obtain ⟨t, rfl⟩ := Int.eq_ofNat_of_zero_le (show 0 ≤ u by omega)
    exact ⟨t, ⟨hu, hm⟩, rfl⟩

/-- The last snapshot is that of the last milestone. -/
theorem lastFiled_snapshotsAt {L : Nat} (hL : cfg.LastMilestone p L) :
    lastFiled (D.snapshotsAt cfg (cfg.doc p) (commitsFrom (cfg.doc p).length (cfg.doc p).length 0)) =
      ((L : Int), if L = 0 then [] else D.getData (docSeq (cfg.doc p) L)) := by
  obtain ⟨hsorted, hpos⟩ := commitsFrom_sorted (cfg.doc p).length (cfg.doc p).length 0
  have hmem : ∀ t : Nat, t ∈ (commitsFrom (cfg.doc p).length (cfg.doc p).length 0).filter
      (fun t : Nat => cfg.registeredState.snapshotMilestones.contains (t : Int)) ↔
        CommitValue (cfg.doc p).length t ∧ cfg.IsMilestone t := fun t => by
    rw [List.mem_filter, mem_commitsFrom (.inl (Nat.dvd_zero 128)) (by omega), List.contains_iff_mem,
      cfg.mem_registeredMilestones]
    exact ⟨fun h => ⟨h.1.1, h.2⟩, fun h => ⟨⟨h.1, by have := h.1.1; omega⟩, h.2⟩⟩
  replace hsorted := hsorted.filter
    (fun t : Nat => cfg.registeredState.snapshotMilestones.contains (t : Int))
  unfold snapshotsAt lastFiled
  generalize (commitsFrom (cfg.doc p).length (cfg.doc p).length 0).filter
    (fun t : Nat => cfg.registeredState.snapshotMilestones.contains (t : Int)) = l at hmem hsorted
  obtain rfl | ⟨l, t, rfl⟩ := List.eq_nil_or_concat' l
  · -- no milestone has been committed
    have hzero : L = 0 := hL.committed.resolve_right fun h => by
      have hnil := (hmem L).mpr h
      cases hnil
    subst hzero
    rfl
  · obtain ⟨hcommit, hmilestone⟩ := (hmem t).mp (by simp)
    have hle := hL.last t hcommit hmilestone
    have hpos := hcommit.1
    have hge : L ≤ t := by
      have hin := (hmem L).mpr (hL.committed.resolve_left (by omega))
      obtain hin | hin := List.mem_append.mp hin
      · have := (List.pairwise_append.mp hsorted).2.2 L hin t (by simp)
        omega
      · exact (List.mem_singleton.mp hin).le
    obtain rfl : L = t := by omega
    rw [List.reverse_append, List.reverse_singleton, List.singleton_append, List.map_cons,
      List.head?_cons, Option.getD_some, if_neg (by omega)]

/-- There is a last milestone. -/
theorem exists_lastMilestone (cfg : Pipeline) (p : String) : ∃ L, cfg.LastMilestone p L := by
  have hbound : ∀ k : Nat, ∃ L : Nat, (L = 0 ∨ CommitValue (cfg.doc p).length L ∧ cfg.IsMilestone L) ∧
      ∀ t : Nat, t ≤ k → CommitValue (cfg.doc p).length t → cfg.IsMilestone t → t ≤ L := by
    intro k
    induction k with
    | zero => exact ⟨0, .inl rfl, fun t ht _ _ => ht⟩
    | succ k ih =>
      obtain ⟨L, hL, hlast⟩ := ih
      by_cases hk : CommitValue (cfg.doc p).length (k + 1 : Nat) ∧ cfg.IsMilestone (k + 1 : Nat)
      · exact ⟨k + 1, .inr hk, fun t ht _ _ => ht⟩
      · refine ⟨L, hL, fun t ht hcommit hm => ?_⟩
        by_cases heq : t = k + 1
        · subst heq
          exact absurd ⟨hcommit, hm⟩ hk
        · exact hlast t (by omega) hcommit hm
  obtain ⟨L, hL, hlast⟩ := hbound (cfg.doc p).length
  exact ⟨L, hL, fun t hcommit => hlast t (by have := hcommit.2.1; omega) hcommit⟩

/-- The prefill of a document that fits ends, and has filed its milestones. -/
theorem provided_eq (hD : D.Faithful cfg.engine) (hp : cfg.orchestrator.isPrefill p = true)
    (hfit : cfg.Fitting p cap) : D.provided cfg p =
      ⟨D.snapshotsAt cfg (cfg.doc p) (commitsFrom (cfg.doc p).length (cfg.doc p).length 0),
        .ok ()⟩ := by
  obtain ⟨node, hnode⟩ : ∃ node, cfg.orchestrator.node p = some (.prefill node) := by
    cases hnode : cfg.orchestrator.node p with
    | none => simp [Orchestrator.isPrefill, hnode] at hp
    | some node =>
      cases node with
      | prefill node => exact ⟨node, rfl⟩
      | analytical node => simp [Orchestrator.isPrefill, hnode, Node.isPrefillProvider] at hp
  have hshort := hfit.short
  obtain ⟨text, htext, htokens⟩ := Option.bind_eq_some_iff.mp (hfit.document node hnode)
  simp only [provided, hnode, prefill, hfit.staging, htext, htokens]
  rw [toInt32_of_lt (by unfold kSwarmkvDefaultPipelineCtx at hshort; omega),
    toInt32_of_lt (by decide), if_neg (by omega)]
  have hrun : D.prefillFrom cfg cap (cfg.doc p) (cfg.doc p).length 0
      (toCells (docSeq (cfg.doc p) 0)) [] = _ :=
    prefillFrom_eq hD hfit.nBatch (fun t ht hm => (hfit.exports t ht hm).1) (.inl (Nat.dvd_zero 128))
      (Nat.zero_le _) (Nat.le_of_eq (Nat.zero_add _).symm)
  rwa [docSeq_zero, toCells_nil, List.append_nil] at hrun

/-! ## The branches -/

variable {node : AnalyticalNode}

/-- No export is longer than its size says. -/
theorem length_getData (hD : D.Faithful cfg.engine) (q : SeqState) :
    (D.getData q).length ≤ cfg.engine.llamaStateSeqGetSize q := by
  obtain ⟨bytes, hbytes⟩ := cfg.engine.exports_total q
  obtain rfl := hD.exports q bytes hbytes
  exact cfg.engine.exports_size q _ hbytes

/-- A branch that forks a snapshot that fits decodes its prompt behind it. -/
theorem branch_eq (hD : D.Faithful cfg.engine) (hfit : cfg.Fitting p cap)
    (hnode : cfg.orchestrator.node n = some (.analytical node)) {filed : List (Int × List UInt8)}
    {t : Nat} (hle : t ≤ (cfg.doc p).length)
    (ht : t = 0 ∨ CommitValue (cfg.doc p).length t ∧ cfg.IsMilestone t)
    (hchoose : chooseFork cfg filed node.requiredPrefixTokens =
      .ok ((t : Int), if t = 0 then [] else D.getData (docSeq (cfg.doc p) t))) :
    D.branch cfg filed node = .ok (cfg.branchOk n node t) := by
  obtain ⟨htokens, hne, hbatch, hbudget⟩ := hfit.prompts n node hnode
  -- the fork is copied and restored
  obtain ⟨hcopy, cells, hrestore⟩ : materializeFork cfg node.requiredPrefixTokens
      (if t = 0 then [] else D.getData (docSeq (cfg.doc p) t)) = .ok () ∧ ∃ cells, D.restoreFork cfg
        (if t = 0 then [] else D.getData (docSeq (cfg.doc p) t)) = .ok cells := by
    obtain rfl | ⟨hcommit, hm⟩ := ht
    · exact ⟨materializeFork_nil cfg _, [], rfl⟩
    · have hpos := hcommit.1
      have hseq := docSeq_ne_nil (show 0 < t by omega) hle
      obtain ⟨hcap, hsize⟩ := hfit.exports t hcommit hm
      have hlen := length_getData hD (docSeq (cfg.doc p) t)
      rw [if_neg (by omega)]
      constructor
      · by_cases hneg : node.requiredPrefixTokens < 0
        · rw [materializeFork_canonical cfg hneg (hD.getData _ hseq) hfit.staging,
            if_neg (by omega)]
        · rw [materializeFork_snapshot cfg hneg (hD.getData _ hseq), if_neg (by omega)]
      · refine ⟨toCells (docSeq (cfg.doc p) t), ?_⟩
        rw [restoreFork, restoreData_getData hD hseq]
  -- the prompt is decoded in one batch
  have hprompt : ∀ data, preparePrompt cfg node.branchPrompt t data = .ok (cfg.prompt n) := by
    intro data
    unfold kSwarmkvDefaultPipelineCtx at hbudget
    have hbudget : validateContextBudget t (cfg.prompt n) kSwarmkvDefaultPipelineCtx = .ok () := by
      unfold validateContextBudget kSwarmkvDefaultPipelineCtx
      have hrequired : toInt32 ((t : Int) + (cfg.prompt n).length + 128) =
          (t : Int) + (cfg.prompt n).length + 128 := by
        have h := toInt32_of_lt (show t + (cfg.prompt n).length + 128 < 2 ^ 31 by omega)
        push_cast at h
        exact h
      have hlimit : toInt32 (4096 : Nat) = 4096 := by decide
      rw [if_neg (by omega)]
      dsimp only
      rw [hrequired, hlimit, if_neg (by omega)]
    unfold preparePrompt
    rw [if_neg (by rw [hfit.staging]; exact fun h => by cases h.2), htokens]
    dsimp only
    rw [if_neg hne, hbudget]
  have hdecode : D.decodePrompt node t cells (cfg.prompt n) = .ok (cfg.branchOk n node t) := by
    rw [decodePrompt, decodeTokens, decodeBatch_eq hD 0 hne hbatch]
    rfl
  unfold branch
  rw [hchoose]
  show (materializeFork cfg node.requiredPrefixTokens _ >>= fun _ => _) = _
  rw [hcopy]
  show (D.restoreFork cfg _ >>= fun cells => _) = _
  rw [hrestore]
  show (preparePrompt cfg node.branchPrompt t _ >>= fun tokens => _) = _
  rw [hprompt]
  exact hdecode

/-- What the sequential program computes for a branch. -/
theorem result_branch (hD : D.Faithful cfg.engine) (hp : cfg.orchestrator.isPrefill p = true)
    (hfit : cfg.Fitting p cap) {L : Nat} (hL : cfg.LastMilestone p L)
    (hnode : cfg.orchestrator.node n = some (.analytical node)) :
    D.result cfg p n = cfg.answer p L n node := by
  have hprovided := provided_eq hD hp hfit
  unfold result
  rw [hnode]
  dsimp only
  rw [hprovided]
  dsimp only
  unfold Pipeline.answer
  by_cases hneg : node.requiredPrefixTokens < 0
  · -- without a watermark it takes the last export
    rw [if_pos hneg]
    have hle : L ≤ (cfg.doc p).length := by
      obtain rfl | ⟨hcommit, -⟩ := hL.committed
      · exact Nat.zero_le _
      · have := hcommit.2.1
        omega
    rw [branch_eq hD hfit hnode hle hL.committed]
    unfold chooseFork
    have hstaging : ∀ q : Prop, ¬ (q ∧ cfg.staging = none) := fun q h => by
      rw [hfit.staging] at h
      cases h.2
    rw [if_neg (by omega), lastFiled_snapshotsAt hL, if_neg (hstaging _)]
  · rw [if_neg hneg]
    by_cases hcommit : CommitValue (cfg.doc p).length node.requiredPrefixTokens
    · -- its watermark is committed
      rw [if_pos hcommit]
      have hpos := hcommit.1
      have hm : cfg.IsMilestone node.requiredPrefixTokens := by
        refine .inr ⟨hpos, List.ne_nil_of_mem (a := n) (Orchestrator.mem_branchesAt.mpr ⟨?_, ?_⟩)⟩
        · exact Orchestrator.mem_names.mpr ⟨_, hnode⟩
        · simp only [Orchestrator.req, hnode]
          rfl
      generalize hW : node.requiredPrefixTokens = W at hcommit hm hpos hneg
      obtain ⟨t, rfl⟩ := Int.eq_ofNat_of_zero_le (show 0 ≤ W by omega)
      rw [branch_eq hD hfit hnode (by have := hcommit.2.1; omega) (.inr ⟨hcommit, hm⟩)]
      unfold chooseFork
      rw [hW, if_pos (by omega), snapshotsAt_lookup, if_pos ⟨hcommit, hm⟩, if_neg (by omega)]
      rfl
    · -- nothing is ever filed there
      rw [if_neg hcommit]
      have hchoose : chooseFork cfg (D.snapshotsAt cfg (cfg.doc p)
          (commitsFrom (cfg.doc p).length (cfg.doc p).length 0)) node.requiredPrefixTokens =
          .error (.missingPrefixSnapshot node.requiredPrefixTokens) := by
        unfold chooseFork
        rw [if_pos (by omega), snapshotsAt_lookup, if_neg fun h => hcommit h.1]
      unfold branch
      rw [hchoose]
      rfl

end Calls

namespace Pipeline

variable {cfg : Pipeline} {D : Calls} {p : String} {cap : Nat} {c : Config cfg.engine}
  {tr : Trace (machine cfg.engine)}

/-- What `execute_pipeline` leaves behind when the engine does not fail and everything fits: the
    snapshots of the committed milestones, and the outputs of the branches, each with the prefix that
    it has forked. A branch whose watermark is not committed fails, and one without a watermark
    continues at the last milestone, not at the end of the document. -/
theorem answers_exactly (hfed : cfg.orchestrator.FedBy p) (hp : p ∈ cfg.orchestrator.names)
    (hD : D.Faithful cfg.engine) (hfit : cfg.Fitting p cap) (hr : cfg.initial.Run tr c)
    (htr : D.Obeyed tr) (hret : Returned c) : ∃ L, cfg.LastMilestone p L ∧
      c.data.tasks p = some (.ok ()) ∧ c.data.state.prefixSeqLen = L ∧
      (∀ t, c.data.state.prefixSnapshots t =
        if CommitValue (cfg.doc p).length t ∧ cfg.IsMilestone t then
          some ⟨D.getData (docSeq (cfg.doc p) t.toNat), t⟩
        else none) ∧
      ∀ n node, cfg.orchestrator.node n = some (.analytical node) →
        c.data.tasks n = some (cfg.answer p L n node).1 ∧
          c.data.state.nodeOutputs n = (cfg.answer p L n node).2 := by
  have h := computed_of_run hfed hD.exports hr htr hret
  have hprefill := hfed.provider hp
  have hprovided := Calls.provided_eq hD hprefill hfit
  obtain ⟨L, hL⟩ := Calls.exists_lastMilestone cfg p
  refine ⟨L, hL, ?_, ?_, fun t => ?_, fun n node hnode => ?_⟩
  · -- the provider has ended normally
    obtain ⟨node, hnode⟩ := Orchestrator.mem_names.mp hp
    rw [h.tasks p hp]
    cases node with
    | prefill node =>
      rw [Calls.provided, hnode] at hprovided
      simp only [Calls.result, hnode, hprovided]
    | analytical node => simp [Orchestrator.isPrefill, hnode, Node.isPrefillProvider] at hprefill
  · -- the canonical export is the last one
    have hcanonical := congrArg Prod.fst h.canonical
    rwa [hprovided, Calls.lastFiled_snapshotsAt hL] at hcanonical
  · rw [h.snapshots t, hprovided, Calls.snapshotsAt_lookup]
    split <;> rfl
  · have hresult := Calls.result_branch hD hprefill hfit hL hnode
    rw [h.tasks n (Orchestrator.mem_names.mpr ⟨_, hnode⟩), h.outputs n, hresult]
    exact ⟨rfl, rfl⟩

/-- The toy branch has forked the only token of the document. -/
theorem answers_exactly_toy : ((Toy.star 1 false 1).after Toy.joinAtOne).data.state.nodeOutputs "B" =
    some "branch_ok n_tok=1 prefix=1 watermark=1" := by
  have hrun : (Toy.star 1 false 1).initial.Run _ ((Toy.star 1 false 1).after Toy.joinAtOne) :=
    Config.run_after (by decide +kernel)
  have hret := (Reachable.main_returns hrun.reaches (by decide +kernel)).1
  have hfit : (Toy.star 1 false 1).Fitting "P" 64 := {
    staging := rfl
    document := fun node hnode => by
      have hnode : some (Node.prefill ⟨"document"⟩) = some (.prefill node) := hnode
      cases hnode
      rfl
    nBatch := fun _ => by decide
    short := by decide
    exports := fun t hcommit _ => by
      have hle : (t : Int) ≤ 1 := hcommit.2.1
      have hpos := hcommit.1
      obtain rfl : t = 1 := by omega
      decide
    prompts := fun n node hnode => by
      have hmem : n ∈ ["P", "B"] := Orchestrator.mem_names.mpr ⟨_, hnode⟩
      obtain rfl | rfl : n = "P" ∨ n = "B" := by simpa using hmem
      · cases hnode
      · have hnode : some (Node.analytical ⟨"prompt", 1⟩) = some (.analytical node) := hnode
        cases hnode
        decide }
  obtain ⟨L, -, -, -, -, hanswers⟩ := answers_exactly (Toy.star_fedBy 1 false 1 []) (by decide)
    (Toy.calls_faithful 1) hfit hrun (by decide +kernel) hret
  exact (hanswers "B" ⟨"prompt", 1⟩ rfl).2

end Pipeline

end SwarmKV
