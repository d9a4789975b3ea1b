import SwarmKV.Spec.ScheduleCommit

/-!
# The provider

From slice to slice, through the pauses and to its end, the provider does what is left of the
sequential prefill.
-/

namespace SwarmKV

open Monitor

namespace Pipeline

variable {cfg : Pipeline} {D : Calls} {p n : String} {h t cap : Nat} {s : View} {tokens : List LlamaToken}
  {R : Prefilled}

/-- Between two slices. -/
private def SliceAhead (cfg : Pipeline) (D : Calls) (cap : Nat) (tokens : List LlamaToken)
    (R : Prefilled) (h t : Nat) (s : View) : Prop :=
  ∃ cells filed, s.bare = atSlice false (some h) (some cells) t filed ∧
    cfg.Ahead D cap tokens R t cells filed

/-- Behind a slice, with or without a pause ahead. -/
private def SliceBehind (cfg : Pipeline) (D : Calls) (cap : Nat) (tokens : List LlamaToken)
    (R : Prefilled) (h t : Nat) (s : View) : Prop :=
  if cfg.registeredState.snapshotMilestones.contains (t : Int) then
    ∃ cells filed, s.bare = atSlice false (some h) cells t filed ∧
      cfg.ResumeAhead D cap tokens R t filed
  else cfg.SliceAhead D cap tokens R h t s

private theorem lock_atSlice {ctx : Option Nat} {cells : Option (List KvCell)}
    {filed : List (Int × List UInt8)} (hs : s.bare = atSlice false ctx cells t filed) :
    View.bare { s with
      held := true, found := none, last := none, copied := none, exported := none } =
        atSlice true ctx cells t filed := by
  have hnext := congrArg (fun v : View => ({ v with
    held := true, copied := none, exported := none } : View)) hs
  exact hnext

private theorem unlock_atSlice {ctx : Option Nat} {cells : Option (List KvCell)}
    {filed : List (Int × List UInt8)} (hs : s.bare = atSlice true ctx cells t filed) :
    View.bare { s with held := false } = atSlice false ctx cells t filed := by
  have hnext := congrArg (fun v : View => ({ v with held := false } : View)) hs
  exact hnext

private theorem PrefillEnded.unlock {r : Outcome} (hs : PrefillEnded R true r s) :
    PrefillEnded R false r { s with held := false } := by
  obtain ⟨ctx, cells, t, filed, hbare, hR⟩ := hs
  exact ⟨ctx, cells, t, filed, unlock_atSlice hbare, hR⟩

/-- Behind the commit of a slice, under the guard. -/
private def SliceCommitted (cfg : Pipeline) (D : Calls) (cap : Nat) (tokens : List LlamaToken)
    (R : Prefilled) (h t : Nat) (s : View) : Prop :=
  if cfg.registeredState.snapshotMilestones.contains (t : Int) then
    ∃ cells filed, s.bare = atSlice true (some h) cells t filed ∧
      cfg.ResumeAhead D cap tokens R t filed
  else ∃ cells filed, s.bare = atSlice true (some h) (some cells) t filed ∧
    cfg.Ahead D cap tokens R t cells filed

/-- All is published when the guard of a slice is given away. -/
private theorem SliceCommitted.unlock (hs : cfg.SliceCommitted D cap tokens R h t s)
    (hR : D.provided cfg p = R) : cfg.AllPublished D p s ∧
      cfg.SliceBehind D cap tokens R h t { s with held := false } := by
  unfold SliceCommitted at hs
  unfold SliceBehind
  split at hs
  · rw [if_pos ‹_›]
    obtain ⟨cells, filed, hbare, hresume⟩ := hs
    exact ⟨allPublished_atSlice hbare hR fun u hu => hresume.lookup hu,
      cells, filed, unlock_atSlice hbare, hresume⟩
  · rw [if_neg ‹_›]
    obtain ⟨cells, filed, hbare, hahead⟩ := hs
    exact ⟨allPublished_atSlice hbare hR fun u hu => hahead.lookup hu,
      cells, filed, unlock_atSlice hbare, hahead⟩

/-- A slice under the guard: it is decoded, and then committed. -/
private theorem decodeAndCommit_schedule (hcap : cfg.staging = some cap)
    (hD : ∀ q bytes, cfg.engine.exports q bytes = true → bytes = D.getData q) {chunk : Nat}
    {cells : List KvCell} {filed : List (Int × List UInt8)} (hnext : t < t + chunk) {fuel : Nat}
    (hfuel : tokens.length ≤ t + chunk + fuel)
    (hnone : D.decodeLoop cfg tokens chunk t chunk cells = none →
      R = ⟨filed, .error .prefillDecodeFailed⟩)
    (hsome : ∀ cells', D.decodeLoop cfg tokens chunk t chunk cells = some cells' →
      D.commitThen cfg cap (t + chunk) cells' filed
        (D.prefillFrom cfg cap tokens fuel (t + chunk)) = R) :
    (cfg.scheduleWatch D p (.worker p)).Spec (·.bare = atSlice true (some h) (some cells) t filed)
      (PrefillNode.decodeLoop cfg.engine h tokens chunk t chunk >>= fun _ =>
        PipelineState.commitWatermark (some h) ((t + chunk : Nat) : Int))
      (fun _ => cfg.SliceCommitted D cap tokens R h (t + chunk))
      fun e => PrefillEnded R true (.error e) := by
  have hdecode : (cfg.scheduleWatch D p (.worker p)).Spec
      (·.bare = atSlice true (some h) (some cells) t filed)
      (PrefillNode.decodeLoop cfg.engine h tokens chunk t chunk)
      (fun _ s => ∃ cells', s.bare = atSlice true (some h) (some cells') t filed ∧
        D.decodeLoop cfg tokens chunk t chunk cells = some cells')
      fun e => PrefillEnded R true (.error e) := by
    refine .pre (.err (decodeLoop_schedule chunk t chunk) fun e s hs => ?_)
      fun s hs => ⟨cells, hs, rfl⟩
    obtain ⟨⟨cells', hbare⟩, rfl, hfail⟩ := hs
    exact ⟨_, _, _, _, hbare, hnone hfail⟩
  refine .bind hdecode fun _ => .fix fun s₁ hs₁ => ?_
  obtain ⟨cells', hbare, hdone⟩ := hs₁
  refine .pre (.post (commitWatermark_schedule hcap hD hnext ⟨fuel, hfuel, hsome cells' hdone⟩)
    fun _ s hs => ?_)
    fun s hs => hs ▸ hbare
  -- a milestone leaves a snapshot behind, another value does not
  unfold SliceCommitted
  split at hs
  · rw [if_pos ‹_›]
    obtain ⟨filed', hbare', hresume⟩ := hs
    exact ⟨_, filed', hbare', hresume⟩
  · rw [if_neg ‹_›]
    exact ⟨_, _, hs⟩

private theorem prefillSlice_schedule (hp : p ∈ cfg.orchestrator.names)
    (hcap : cfg.staging = some cap)
    (hD : ∀ q bytes, cfg.engine.exports q bytes = true → bytes = D.getData q)
    (hR : D.provided cfg p = R) (hlt : t < tokens.length) :
    (cfg.scheduleWatch D p (.worker p)).Spec (cfg.SliceAhead D cap tokens R h t)
      (PrefillNode.prefillSlice cfg.engine h tokens t (min 128 (tokens.length - t)))
      (fun _ => cfg.SliceBehind D cap tokens R h (t + min 128 (tokens.length - t)))
      fun e => PrefillEnded R false (.error e) := by
  have hnext : t < t + min 128 (tokens.length - t) := by omega
  refine .fix fun s₀ hs₀ => ?_
  obtain ⟨cells, filed, hbare, fuel, hfuel, hleft⟩ := hs₀
  -- one step of the sequential prefill
  obtain ⟨fuel, rfl⟩ : ∃ k, fuel = k + 1 := ⟨fuel - 1, by omega⟩
  unfold Calls.prefillFrom at hleft
  simp only [hlt, if_true, kSwarmkvPrefillChunkTokens] at hleft
  unfold PrefillNode.prefillSlice
  have hrest : tokens.length ≤ t + min 128 (tokens.length - t) + fuel := by omega
  generalize min 128 (tokens.length - t) = chunk at hnext hleft hrest ⊢
  have hnone : D.decodeLoop cfg tokens chunk t chunk cells = none →
      R = ⟨filed, .error .prefillDecodeFailed⟩ := fun hfail => by rw [← hleft, hfail]
  have hsome : ∀ cells', D.decodeLoop cfg tokens chunk t chunk cells = some cells' →
      D.commitThen cfg cap (t + chunk) cells' filed
        (D.prefillFrom cfg cap tokens fuel (t + chunk)) = R :=
    fun cells' hdone => by rw [← hleft, hdone]
  have hbody := decodeAndCommit_schedule (p := p) (h := h) hcap hD hnext hrest hnone hsome
  refine .withLock (fun s hs => ?_) hbody (fun _ s hs => ?_) fun e s hs => ?_
  · have hlive : s.done = false := hs ▸ (congrArg View.done hbare :)
    exact ⟨⟨⟨hlive, p, hp, rfl⟩, trivial⟩, fun _ => lock_atSlice (hs ▸ hbare)⟩
  · obtain ⟨hpublished, hbehind⟩ := hs.unlock hR
    exact ⟨⟨trivial, fun _ => hpublished⟩, fun _ => hbehind⟩
  · exact ⟨⟨trivial, fun _ => hs.allPublished hR⟩, fun _ => hs.unlock⟩

private theorem isSnapshotMilestone_schedule :
    (cfg.scheduleWatch D p (.worker p)).Spec (cfg.SliceBehind D cap tokens R h t)
      (PipelineState.isSnapshotMilestone t)
      (fun m => if m = true then fun s => ∃ cells filed, s.bare = atSlice false (some h) cells t filed ∧
          cfg.ResumeAhead D cap tokens R t filed
        else cfg.SliceAhead D cap tokens R h t)
      fun e => PrefillEnded R false (.error e) := by
  unfold PipelineState.isSnapshotMilestone
  refine .noThrow (scheduleRule_lenient.withLock rfl rfl (.fix fun s₀ hs₀ => ?_))
  have hread : (cfg.scheduleWatch D p (.worker p)).Spec (· = s₀) (perform .load)
      (fun r s => s.bare = s₀.bare ∧ cfg.Looked D p p s₀.bare r) fun _ _ => False :=
    .pre load_schedule fun s hs => congrArg View.bare hs
  refine .bind hread fun r => .assume fun hr => .ret fun s hs => ?_
  -- the answer is whether the value is registered
  rw [hr.milestones]
  unfold SliceBehind SliceAhead at hs₀
  unfold SliceAhead
  rw [← hs] at hs₀
  split at hs₀
  · rw [if_pos ‹_›]
    exact hs₀
  · rw [if_neg ‹_›]
    exact hs₀

/-- The provider restores what it has filed last. -/
private theorem restorePrefixSnapshot_schedule {filed : List (Int × List UInt8)}
    (hresume : cfg.ResumeAhead D cap tokens R t filed) :
    (cfg.scheduleWatch D p (.worker p)).Spec (·.bare = atSlice true (some h) (some []) t filed)
      (PrefillNode.restorePrefixSnapshot h t)
      (fun _ s => ∃ cells filed, s.bare = atSlice true (some h) (some cells) t filed ∧
        cfg.Ahead D cap tokens R t cells filed)
      fun e => PrefillEnded R true (.error e) := by
  obtain ⟨fuel, data, older, hfuel, hfiled, hleft⟩ := hresume
  unfold Calls.resumeThen Calls.restoreData at hleft
  unfold PrefillNode.restorePrefixSnapshot
  refine .bind (tryGetPrefixSnapshot_schedule rfl) fun a => .fix fun s₀ hs₀ => ?_
  obtain ⟨r, hbare, hfound, hr, rfl⟩ := hs₀
  -- the snapshot that is found is the one filed last
  have hsnap : r.prefixSnapshots t = some ⟨data, t⟩ := by
    rw [(hr.shows rfl).own rfl]
    show (filed.lookup (t : Int)).map _ = _
    rw [hfiled, List.lookup_cons_self, Option.map_some]
  simp only [hsnap, Option.map_some]
  by_cases hnil : data = []
  · -- an empty one is not restored
    simp only [hnil, List.isEmpty_nil, if_true] at hleft ⊢
    exact .ret fun s hs => ⟨[], filed, hs ▸ hbare, fuel, hfuel, hleft⟩
  have hempty : data.isEmpty = false := by simpa using hnil
  simp only [hempty, Bool.false_eq_true, if_false, if_neg hnil] at hleft ⊢
  have hknows : s₀.Knows (.snapshot t) ∧ s₀.bytesAt (.snapshot t) data.length = data := by
    constructor
    · simp [View.Knows, hfound]
    · simp [View.bytesAt, hfound, hsnap]
  refine .bind (.pre (seqSetData_schedule (C := atSlice true (some h) (some []) t filed)
    (q := .snapshot t) rfl rfl rfl hnil) fun s hs => hs ▸ ⟨hbare, hknows⟩) fun nr => ?_
  refine .ite (fun hne => .throw fun s hs => ?_) fun heq => .ret fun s hs => ?_
  · rw [if_neg hne] at hs
    rw [hs.2] at hleft
    exact ⟨_, _, _, _, hs.1, hleft.symm⟩
  · rw [if_pos (not_not.mp heq)] at hs
    rw [hs.2] at hleft
    exact ⟨_, _, hs.1, fuel, hfuel, hleft⟩

section Pause

variable {filed : List (Int × List UInt8)}

/-- The provider gives its context back, under the guard. -/
private theorem pauseFree_schedule (hp : p ∈ cfg.orchestrator.names) (hR : D.provided cfg p = R)
    (hresume : cfg.ResumeAhead D cap tokens R t filed) {cells : Option (List KvCell)} :
    (cfg.scheduleWatch D p (.worker p)).Spec (·.bare = atSlice false (some h) cells t filed)
      (withLock .llamaApiMutex (perform (.llamaFree h)))
      (fun _ s => s.bare = atSlice false none none t filed) fun _ _ => False := by
  refine .withLock (fun s hs => ?_) (freeContext_schedule (C := atSlice true (some h) cells t filed)
    (X := fun _ _ => False) rfl) (fun _ s hs => ?_) fun _ _ hs => hs.elim
  · have hlive : s.done = false := (congrArg View.done hs :)
    exact ⟨⟨⟨hlive, p, hp, rfl⟩, trivial⟩, fun _ => lock_atSlice hs⟩
  · have hpublished := allPublished_atSlice hs hR fun u hu => hresume.lookup hu
    exact ⟨⟨trivial, fun _ => hpublished⟩, fun _ => unlock_atSlice hs⟩

/-- The provider waits for its consumers. -/
private theorem waitForMilestoneConsumers_schedule {I : View → Prop} (u : Int) :
    (cfg.scheduleWatch D p (.worker p)).Spec I (PipelineState.waitForMilestoneConsumers u)
      (fun _ => I) fun _ _ => False := by
  unfold PipelineState.waitForMilestoneConsumers
  refine .ite (fun _ => .ret fun _ hs => hs) fun _ => ?_
  exact scheduleRule_lenient.withLock rfl rfl (.await fun s hs => ⟨⟨trivial, trivial⟩, fun _ => hs⟩)

/-- The provider goes on in a new context. -/
private theorem resume_schedule (hcap : cfg.staging = some cap)
    (hresume : cfg.ResumeAhead D cap tokens R t filed) :
    (cfg.scheduleWatch D p (.worker p)).Spec (·.bare = atSlice true (some h) (some []) t filed)
      (do
        let s ← perform .load
        KVHandoff.bindContiguousCache (some h) s.materializedBranchBuffer
        PrefillNode.restorePrefixSnapshot h t
        pure h : Prog Nat)
      (fun h' s => ∃ cells filed, s.bare = atSlice true (some h') (some cells) t filed ∧
        cfg.Ahead D cap tokens R t cells filed)
      fun e => PrefillEnded R true (.error e) := by
  refine .bind load_schedule fun r => .assume fun hr => ?_
  have hbind : KVHandoff.bindContiguousCache (some h) r.materializedBranchBuffer = pure () := by
    simp [KVHandoff.bindContiguousCache, hr.staging, stagingBuffer, hcap]
  rw [hbind]
  refine .bind (Q := fun _ => (·.bare = atSlice true (some h) (some []) t filed))
    (.ret fun _ hs => hs) fun _ => ?_
  exact .bind (restorePrefixSnapshot_schedule hresume) fun _ => .ret fun _ hs => hs

private theorem pauseAtMilestone_schedule (hp : p ∈ cfg.orchestrator.names)
    (hcap : cfg.staging = some cap) (hR : D.provided cfg p = R) :
    (cfg.scheduleWatch D p (.worker p)).Spec
      (fun s => ∃ cells filed, s.bare = atSlice false (some h) cells t filed ∧
        cfg.ResumeAhead D cap tokens R t filed)
      (PrefillNode.pauseAtMilestone h t) (fun h' => cfg.SliceAhead D cap tokens R h' t)
      fun e => PrefillEnded R false (.error e) := by
  refine .fix fun s₀ hs₀ => ?_
  obtain ⟨cells, filed, hbare, hresume⟩ := hs₀
  unfold PrefillNode.pauseAtMilestone
  refine .bind (.pre (.noThrow (pauseFree_schedule hp hR hresume)) fun s hs => hs ▸ hbare) fun _ => ?_
  refine .bind (.noThrow (waitForMilestoneConsumers_schedule t)) fun _ => ?_
  refine .withLock (I := (·.bare = atSlice true none none t filed))
    (J := fun h' s => ∃ cells filed, s.bare = atSlice true (some h') (some cells) t filed ∧
      cfg.Ahead D cap tokens R t cells filed) (K := fun e => PrefillEnded R true (.error e))
    (fun s hs => ?_) ?_ (fun _ s hs => ?_) fun e s hs => ?_
  · have hlive : s.done = false := (congrArg View.done hs :)
    exact ⟨⟨⟨hlive, p, hp, rfl⟩, trivial⟩, fun _ => lock_atSlice hs⟩
  · refine .bind (initContext_schedule rfl) fun r => .fix fun s₁ hs₁ => ?_
    obtain ⟨h', rfl, hbare'⟩ := hs₁
    exact .pre (resume_schedule hcap hresume) fun s hs => hs ▸ hbare'
  · obtain ⟨cells', filed', hbare', hahead⟩ := hs
    have hpublished := allPublished_atSlice hbare' hR fun u hu => hahead.lookup hu
    exact ⟨⟨trivial, fun _ => hpublished⟩, fun _ => ⟨_, _, unlock_atSlice hbare', hahead⟩⟩
  · exact ⟨⟨trivial, fun _ => hs.allPublished hR⟩, fun _ => hs.unlock⟩

end Pause

private theorem PrefillEnded.nodeEnded {node : PrefillNode} {r : Outcome}
    (hnode : cfg.orchestrator.node p = some (.prefill node))
    (hs : PrefillEnded (D.prefill cfg node) false r s) : cfg.NodeEnded D p p r s := by
  obtain ⟨ctx, cells, t, filed, hbare, hR⟩ := hs
  have houtput : s.output = none := (congrArg View.output hbare :)
  refine ⟨(congrArg View.held hbare :), (congrArg View.done hbare :), (congrArg View.settled hbare :),
    ?_, fun _ => ?_⟩
  · simp only [Calls.result, hnode, hR, houtput]
  · simp only [Calls.provided, hnode, hR]
    exact (congrArg View.filed hbare :)

/-- The loop does what the sequential prefill does. -/
private theorem prefillLoop_schedule (hp : p ∈ cfg.orchestrator.names)
    (hcap : cfg.staging = some cap)
    (hD : ∀ q bytes, cfg.engine.exports q bytes = true → bytes = D.getData q)
    (hR : D.provided cfg p = R)
    (hleft : D.prefillFrom cfg cap tokens tokens.length 0 [] [] = R) :
    (cfg.scheduleWatch D p (.worker p)).Spec (·.bare = atSlice false (some h) (some []) 0 [])
      (PrefillNode.prefillLoop cfg.engine tokens tokens.length tokens.length h 0)
      (fun h' s => ∃ cells filed, R = ⟨filed, .ok ()⟩ ∧
        s.bare = atSlice false (some h') (some cells) tokens.length filed)
      fun e => PrefillEnded R false (.error e) := by
  have hloop := PrefillNode.prefillLoop_spec (A := cfg.scheduleWatch D p (.worker p))
    (J := cfg.SliceAhead D cap tokens R) (K := cfg.SliceBehind D cap tokens R)
    (L := fun h t s => ∃ cells filed, s.bare = atSlice false (some h) cells t filed ∧
      cfg.ResumeAhead D cap tokens R t filed)
    (fun h t _ hlt => prefillSlice_schedule hp hcap hD hR hlt)
    (fun h t _ => isSnapshotMilestone_schedule)
    (fun h t _ => pauseAtMilestone_schedule hp hcap hR)
    tokens.length h 0 (Nat.zero_le _) (fun _ => Nat.dvd_zero _) (Nat.sub_le _ _)
  refine .pre (.post hloop fun h' s hs => ?_) fun s hs => ?_
  · -- nothing is left behind the last token
    obtain ⟨cells, filed, hbare, fuel, -, hend⟩ := hs
    refine ⟨cells, filed, ?_, hbare⟩
    rw [← hend]
    cases fuel with
    | zero => rfl
    | succ fuel => exact if_neg (Nat.lt_irrefl _)
  · exact ⟨[], [], hs, tokens.length, by omega, hleft⟩

/-- The provider marks the prefill as complete. -/
private theorem markPrefillComplete_schedule {I : View → Prop} :
    (cfg.scheduleWatch D p (.worker p)).Spec I PipelineState.markPrefillComplete (fun _ => I)
      fun _ _ => False := by
  refine scheduleRule_lenient.withLock rfl rfl (.bind (scheduleRule_lenient.op' rfl) fun _ => ?_)
  exact .notifyAll fun s hs => ⟨⟨trivial, trivial⟩, fun _ => hs⟩

/-- The provider with the tokens of its document. -/
private theorem prefillTokens_schedule {ctx : OrchestratorContext} {t₀ : Int}
    (hp : p ∈ cfg.orchestrator.names) (hcap : cfg.staging = some cap)
    (hctx : ctx.nCtx = kSwarmkvDefaultPipelineCtx)
    (hD : ∀ q bytes, cfg.engine.exports q bytes = true → bytes = D.getData q)
    (hR : D.provided cfg p = R) {text : String}
    (hlarge : tokensOf cfg.engine text = some tokens →
      toInt32 tokens.length ≥ toInt32 kSwarmkvDefaultPipelineCtx →
        R = ⟨[], .error (.documentTooLarge tokens.length kSwarmkvDefaultPipelineCtx)⟩)
    (hfits : tokensOf cfg.engine text = some tokens →
      ¬ toInt32 tokens.length ≥ toInt32 kSwarmkvDefaultPipelineCtx →
        D.prefillFrom cfg cap tokens tokens.length 0 [] [] = R) :
    (cfg.scheduleWatch D p (.worker p)).Spec
      (fun s => s.bare = atSlice false (some h) (some []) 0 [] ∧
        tokensOf cfg.engine text = some tokens)
      (if toInt32 tokens.length ≥ toInt32 ctx.nCtx then do
          perform (.llamaFree h)
          throw (.documentTooLarge tokens.length ctx.nCtx)
        else do
          let total := (toInt32 tokens.length).toNat
          let lctx ← PrefillNode.prefillLoop cfg.engine tokens total total h 0
          perform (.note (.markPrefillComplete lctx))
          PipelineState.markPrefillComplete
          perform (.llamaFree lctx)
          PipelineState.recordTiming ctx.nodeName t₀ : Prog Unit)
      (fun _ => PrefillEnded R false (.ok ())) fun e => PrefillEnded R false (.error e) := by
  rw [hctx]
  generalize hlen : toInt32 tokens.length = len at hlarge hfits ⊢
  generalize toInt32 kSwarmkvDefaultPipelineCtx = limit at hlarge hfits ⊢
  refine .assume fun htokens => ?_
  obtain rfl : len = tokens.length := hlen.symm.trans (toInt32_of_lt (tokensOf_length htokens))
  rw [Int.toNat_natCast]
  refine .ite (fun hover => ?_) fun hunder => ?_
  · refine .bind (freeContext_schedule rfl) fun _ => .throw fun s hs => ?_
    exact ⟨none, none, 0, [], hs, hlarge htokens hover⟩
  refine .bind (prefillLoop_schedule hp hcap hD hR (hfits htokens hunder)) fun h' =>
    .fix fun s₀ hs₀ => ?_
  obtain ⟨cells, filed, hfiled, hbare⟩ := hs₀
  refine .pre (I := (·.bare = atSlice false (some h') (some cells) tokens.length filed)) ?_
    fun s hs => hs ▸ hbare
  refine .bind (scheduleRule_lenient.op' rfl) fun _ => ?_
  refine .bind (.noThrow markPrefillComplete_schedule) fun _ => ?_
  refine .bind (freeContext_schedule rfl) fun _ => .post (recordTiming_schedule _ _) fun _ s hs => ?_
  exact ⟨none, none, tokens.length, filed, hs, hfiled⟩

/-- `execute()` of the provider. -/
theorem executePrefill_schedule {node : PrefillNode} {ctx : OrchestratorContext}
    (hnode : cfg.orchestrator.node p = some (.prefill node)) (hE : ctx.engine = cfg.engine)
    (hctx : ctx.nCtx = kSwarmkvDefaultPipelineCtx)
    (hD : ∀ q bytes, cfg.engine.exports q bytes = true → bytes = D.getData q) :
    (cfg.scheduleWatch D p (.worker p)).Spec (· = {}) (node.execute ctx)
      (fun _ => cfg.NodeEnded D p p (.ok ())) fun e => cfg.NodeEnded D p p (.error e) := by
  have hp : p ∈ cfg.orchestrator.names := Orchestrator.mem_names.mpr ⟨_, hnode⟩
  have hR : D.provided cfg p = D.prefill cfg node := by simp only [Calls.provided, hnode]
  refine .conseq (I := (·.bare = atSlice false none none 0 []))
    (J := fun _ => PrefillEnded (D.prefill cfg node) false (.ok ()))
    (K := fun e => PrefillEnded (D.prefill cfg node) false (.error e)) ?_ (fun s hs => hs ▸ rfl)
    (fun _ s hs => hs.nodeEnded hnode) fun _ s hs => hs.nodeEnded hnode
  unfold PrefillNode.execute
  rw [hE]
  refine .bind (scheduleRule_lenient.op' rfl) fun t₀ => ?_
  refine .bind (initContext_schedule rfl) fun r => .fix fun s₀ hs₀ => ?_
  obtain ⟨h, rfl, hbare⟩ := hs₀
  refine .pre (I := (·.bare = atSlice false (some h) (some []) 0 [])) ?_ fun s hs => hs ▸ hbare
  refine .bind load_schedule fun r => .assume fun hr => ?_
  generalize hend : D.prefill cfg node = R at hR ⊢
  unfold Calls.prefill at hend
  cases hstaging : cfg.staging with
  | none =>
    -- there is no buffer to bind
    have hbind : KVHandoff.bindContiguousCache (some h) r.materializedBranchBuffer =
        throw .bindNull := by
      simp [KVHandoff.bindContiguousCache, hr.staging, stagingBuffer, hstaging]
    rw [hstaging] at hend
    rw [hbind]
    refine .bind (Q := fun _ _ => False) (.throw fun s hs => ?_) fun _ s hs => hs.elim
    exact ⟨_, _, _, _, hs, hend.symm⟩
  | some cap =>
    have hbind : KVHandoff.bindContiguousCache (some h) r.materializedBranchBuffer = pure () := by
      simp [KVHandoff.bindContiguousCache, hr.staging, stagingBuffer, hstaging]
    rw [hbind]
    simp only [hstaging] at hend
    refine .bind (Q := fun _ => (·.bare = atSlice false (some h) (some []) 0 [])) (.ret fun _ hs => hs)
      fun _ => ?_
    -- the document is read
    refine .bind (.err loadDocumentText_schedule fun e s hs => ?_) fun text => .assume fun htext => ?_
    · obtain ⟨hbare', rfl, hnone⟩ := hs
      rw [hnone] at hend
      exact ⟨_, _, _, _, hbare', hend.symm⟩
    simp only [htext] at hend
    -- and tokenized
    refine .bind (.err tokenizeWith_schedule fun e s hs => ?_) fun tokens =>
      @prefillTokens_schedule cfg D p h cap tokens R ctx t₀ hp hstaging hctx hD hR text
        (fun htokens hover => ?_) fun htokens hunder => ?_
    · obtain ⟨hbare', rfl, hnone⟩ := hs
      rw [hnone] at hend
      exact ⟨_, _, _, _, hbare', hend.symm⟩
    · rw [← hend, htokens]
      exact if_pos hover
    · rw [← hend, htokens]
      exact (if_neg hunder).symm

end Pipeline

end SwarmKV
