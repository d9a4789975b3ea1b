import SwarmKV.Spec.ProvenanceProvider

/-!
# What a branch restores

`execute()` of a branch, by the rules about where forks come from: a branch that forks at `W` finds
the snapshot there, copies it, restores the copy, and decodes behind it.
-/

namespace SwarmKV.Pipeline

open Monitor

variable {cfg : Pipeline} {staging : Option Nat} {p n : String} {W : Int} {b h t : Nat}
  {s : View} {I : View → Prop} {X : Error → View → Prop}

/-- Branch `n` under the guard, before it has a context. -/
private structure Forking (s : View) : Prop where
  held : s.held = true
  live : s.done = false
  ctx : s.ctx = none
  restored : s.restored = []

private theorem Forking.same {s' : View} (hs : Forking s) (h' : SamePlace s s') : Forking s' where
  held := h'.held.trans hs.held
  live := h'.live.trans hs.live
  ctx := h'.ctx.trans hs.ctx
  restored := h'.restored.trans hs.restored

private theorem Forking.alive (hs : Forking s) : Alive true s := ⟨hs.held, hs.live⟩

/-- The snapshot at `W`, as a branch that forks there has found it. -/
private def FoundAt (cfg : Pipeline) (W : Int) (n : String) (s : View) (snap : PrefixKvSnapshot) :
    Prop :=
  cfg.orchestrator.req n = W ∧ snap.data ≠ [] ∧ ∃ q, s.found = some q ∧ q.prefixSnapshots W = some snap

/-- The blackboard is looked at once more: the snapshots are the same. -/
private theorem reload_provenance
    (hI : ∀ s r, I s → (s.held = true → ∀ q, s.found = some q → View.SameForks r q) →
      I { s with found := some r }) :
    (cfg.provenanceWatch staging p W (.worker n)).Spec I (perform .load) (fun _ => I) X := by
  refine .op fun s hs => ⟨⟨trivial, trivial⟩, fun r hr => ?_⟩
  show I (if s.held then { s with found := some r } else s)
  split
  · exact hI s r hs hr.1.2
  · exact hs

private theorem FoundAt.reload {snap : PrefixKvSnapshot} {r : PipelineState}
    (h : cfg.FoundAt W n s snap) (hr : ∀ q, s.found = some q → View.SameForks r q) :
    cfg.FoundAt W n { s with found := some r } snap := by
  obtain ⟨hreq, hne, q, hq, hsnap⟩ := h
  exact ⟨hreq, hne, r, rfl, (hr q hq).prefixSnapshots ▸ hsnap⟩

/-- What a branch forks. -/
private def ForkChosen (cfg : Pipeline) (W : Int) (n : String) (fork : AnalyticalNode.Fork) (s : View) :
    Prop :=
  Forking s ∧ (cfg.orchestrator.req n = W → ∃ snap, cfg.FoundAt W n s snap ∧
    fork.kvBytes = snap.data.length ∧ ∀ d, fork.data = some d → d = .snapshot W)

private theorem ForkChosen.same {s' : View} {fork : AnalyticalNode.Fork}
    (hs : cfg.ForkChosen W n fork s) (h' : SamePlace s s') (hfound : s'.found = s.found) :
    cfg.ForkChosen W n fork s' := by
  refine ⟨hs.1.same h', fun hreq => ?_⟩
  obtain ⟨snap, hat, hrest⟩ := hs.2 hreq
  refine ⟨snap, ?_, hrest⟩
  unfold FoundAt
  rw [hfound]
  exact hat

private theorem chooseFork_provenance {node : AnalyticalNode}
    (hnode : node.requiredPrefixTokens = cfg.orchestrator.req n) (hW : 0 < W) :
    (cfg.provenanceWatch staging p W (.worker n)).Spec Forking node.chooseFork
      (cfg.ForkChosen W n) fun _ => Alive true := by
  have hlookup : (cfg.provenanceWatch staging p W (.worker n)).Spec Forking
      (PipelineState.tryGetPrefixSnapshot node.requiredPrefixTokens)
      (fun r s => Forking s ∧ ∃ q, FoundBy p W n q s ∧ r = lookupOf node.requiredPrefixTokens q)
      fun _ => Alive true :=
    (tryGetPrefixSnapshot_provenance (fun s hs => hs.held)
      fun s r hs => hs.same (samePlace_found s r)).err fun _ _ hs => hs.alive
  have hload : (cfg.provenanceWatch staging p W (.worker n)).Spec Forking (perform .load)
      (fun _ => Forking) fun _ => Alive true :=
    reload_provenance fun s r hs _ => hs.same (samePlace_found s r)
  unfold AnalyticalNode.chooseFork
  refine .ite (fun hpos => ?_) fun hneg => ?_
  · refine .bind hlookup fun r => .fix fun s₀ hs₀ => ?_
    obtain ⟨hfork, q, hfound, rfl⟩ := hs₀
    cases hq : q.prefixSnapshots node.requiredPrefixTokens with
    | none =>
      simp only [lookupOf, hq, Option.map_none]
      exact .throw fun s hs => hs ▸ hfork.alive
    | some snap =>
      simp only [lookupOf, hq, Option.map_some]
      refine .ret fun s hs => ?_
      subst hs
      refine ⟨hfork, fun hreq => ?_⟩
      rw [hnode, hreq] at hq ⊢
      refine ⟨snap, ⟨hreq, hfound.2.1 snap hq, q, hfound.1, hq⟩, rfl, fun d hd => ?_⟩
      split at hd
      · cases hd
      · exact (Option.some.inj hd).symm
  · -- a full-prefill branch does not fork at `W`
    have hchosen : ∀ {fork} s, Forking s → cfg.ForkChosen W n fork s := by
      intro fork s hs
      refine ⟨hs, fun hreq => ?_⟩
      rw [hnode, hreq] at hneg
      omega
    refine .bind hload fun s₁ => .bind hload fun s₂ => .ite (fun _ => ?_) fun _ => .ret hchosen
    refine .bind hload fun s₃ => ?_
    split
    · exact .throw fun s hs => hs.alive
    · exact .ret hchosen

/-- A branch with an empty buffer `b` of its own. -/
private def Allocated (cfg : Pipeline) (W : Int) (n : String) (fork : AnalyticalNode.Fork) (b : Nat)
    (s : View) : Prop :=
  cfg.ForkChosen W n fork s ∧ ∃ size, s.own = some (b, size) ∧ s.copied = some []

/-- The size of a context is found out with one that is freed at once. -/
private theorem getRequiredKvSize_provenance {fork : AnalyticalNode.Fork} (nCtx : Nat) :
    (cfg.provenanceWatch staging p W (.worker n)).Spec (cfg.ForkChosen W n fork)
      (MemoryPool.getRequiredKvSize nCtx) (fun _ => cfg.ForkChosen W n fork) fun _ => Alive true := by
  have hinit : (cfg.provenanceWatch staging p W (.worker n)).Spec (cfg.ForkChosen W n fork)
      (perform .llamaInitFromModel)
      (fun r s => s.ctx = r ∧ cfg.ForkChosen W n fork { s with ctx := none })
      fun _ => Alive true := by
    refine .op fun s hs => ⟨⟨hs.1.ctx, trivial⟩, fun r _ => ?_⟩
    cases r with
    | none => exact ⟨hs.1.ctx, ⟨hs.1.held, hs.1.live, rfl, hs.1.restored⟩, hs.2⟩
    | some k => exact ⟨rfl, ⟨hs.1.held, hs.1.live, rfl, hs.1.restored⟩, hs.2⟩
  have hfree : ∀ {k : Nat}, (cfg.provenanceWatch staging p W (.worker n)).Spec
      (fun s => s.ctx = some k ∧ cfg.ForkChosen W n fork { s with ctx := none })
      (perform (.llamaFree k)) (fun _ => cfg.ForkChosen W n fork) fun _ => Alive true := by
    intro k
    refine .op fun s hs => ⟨⟨hs.1, trivial⟩, fun _ _ => ?_⟩
    exact ⟨⟨hs.2.1.held, hs.2.1.live, rfl, hs.2.1.restored⟩, hs.2.2⟩
  unfold MemoryPool.getRequiredKvSize
  refine .bind hinit fun r => ?_
  cases r with
  | none => exact .throw fun s hs => ⟨hs.2.1.held, hs.2.1.live⟩
  | some k =>
    refine .bind (provenanceRule_lenient.op' rfl) fun sz => .bind hfree fun _ => ?_
    exact .ret fun _ hs => hs

/-- A branch allocates its buffer. -/
private theorem allocateBranchCache_provenance {fork : AnalyticalNode.Fork} (nCtx : Nat) :
    (cfg.provenanceWatch staging p W (.worker n)).Spec (cfg.ForkChosen W n fork)
      (MemoryPool.allocateBranchCache nCtx) (cfg.Allocated W n fork) fun _ => Alive true := by
  have hbuffer : ∀ {kvSize : Nat}, (cfg.provenanceWatch staging p W (.worker n)).Spec
      (cfg.ForkChosen W n fork) (perform (.allocBuffer kvSize))
      (fun r s => cfg.ForkChosen W n fork s ∧ s.own = r.map (·, kvSize) ∧ s.copied = some [])
      fun _ => Alive true := by
    intro kvSize
    refine .op fun s hs => ⟨⟨hs.1.held, trivial⟩, fun r _ => ?_⟩
    exact ⟨hs.same (samePlace_next rfl) rfl, rfl, rfl⟩
  apply provenanceRule_lenient.withLock rfl rfl
  refine .bind (getRequiredKvSize_provenance nCtx) fun kvSize => .bind hbuffer fun r => ?_
  cases r with
  | none => exact .throw fun s hs => hs.1.1.alive
  | some b =>
    refine .bind (alloc_provenance fun _ s hs => hs.1.1.alive) fun _ => ?_
    refine .bind (provenanceRule_lenient.op' rfl) fun _ => ?_
    exact .ret fun s hs => ⟨hs.1, kvSize, hs.2⟩

/-- A branch has copied its fork. -/
private def Copied (cfg : Pipeline) (W : Int) (n : String) (fork : AnalyticalNode.Fork)
    (branchBuf : Option Nat) (s : View) : Prop :=
  Forking s ∧ (∀ b, branchBuf = some b → s.Knows (.buffer b)) ∧
    (cfg.orchestrator.req n = W → ∃ snap, cfg.FoundAt W n s snap ∧
      fork.kvBytes = snap.data.length ∧ ∃ b, branchBuf = some b ∧
        s.bytesAt (.buffer b) fork.kvBytes = snap.data)

/-- What is written into an empty buffer is all that is known of it. -/
private theorem copied_writeBytes (E : Engine) (b : Nat) (bytes : List UInt8)
    (hcopied : s.copied = some []) :
    (s.next E (.op (.writeBytes b bytes)) ()).copied = some bytes := by
  show s.copied.map (fun old => bytes ++ old.drop bytes.length) = some bytes
  simp [hcopied]

/-- Between two buffers, what is copied does not matter to a branch that does not fork at `W`. -/
private theorem materializeBranchCache_provenance {fork : AnalyticalNode.Fork}
    {source : Option Nat} (hno : cfg.orchestrator.req n ≠ W) (nbytes : Nat) :
    (cfg.provenanceWatch staging p W (.worker n)).Spec (cfg.Allocated W n fork b)
      (KVHandoff.materializeBranchCache source (some b) nbytes)
      (fun _ => cfg.Copied W n fork (some b)) fun _ => Alive true := by
  have hread : ∀ {source : DataPtr} {count : Nat}, (cfg.provenanceWatch staging p W (.worker n)).Spec
      (cfg.Allocated W n fork b) (perform (.readBytes source count))
      (fun _ => cfg.Allocated W n fork b) fun _ => Alive true := by
    intro source count
    refine .op fun s hs => ⟨⟨hs.1.1.held, trivial⟩, fun _ _ => ?_⟩
    exact ⟨hs.1.same (samePlace_next rfl) rfl, hs.2⟩
  have hwrite : ∀ {bytes : List UInt8}, (cfg.provenanceWatch staging p W (.worker n)).Spec
      (cfg.Allocated W n fork b) (perform (.writeBytes b bytes))
      (fun _ => cfg.Copied W n fork (some b)) fun _ => Alive true := by
    intro bytes
    refine .op fun s hs => ?_
    obtain ⟨hchosen, size, hown, hcopied⟩ := hs
    refine ⟨⟨⟨hchosen.1.held, size, hown⟩, trivial⟩, fun _ _ => ?_⟩
    refine ⟨hchosen.1.same (samePlace_next rfl), fun b' hb' => ?_, fun hreq => absurd hreq hno⟩
    obtain rfl := Option.some.inj hb'
    exact ⟨size, bytes, hown, copied_writeBytes cfg.engine b bytes hcopied⟩
  unfold KVHandoff.materializeBranchCache
  split
  · rename_i source target hsource htarget
    obtain rfl := Option.some.inj htarget
    refine .bind (provenanceRule_lenient.op' rfl) fun _ => ?_
    refine .bind (provenanceRule_lenient.op' rfl) fun _ => .ite (fun _ => ?_) fun _ => ?_
    · exact .throw fun s hs => hs.1.1.alive
    · exact .bind hread fun bytes => hwrite
  · exact .throw fun s hs => hs.1.1.alive

/-- A branch copies the snapshot that it has found. -/
private theorem copySnapshot_provenance {fork : AnalyticalNode.Fork} {data : DataPtr}
    (hdata : fork.data = some data) :
    (cfg.provenanceWatch staging p W (.worker n)).Spec (cfg.Allocated W n fork b) (do
        let bytes ← perform (.readBytes data fork.kvBytes)
        perform (.writeBytes b bytes)
        pure (some b))
      (cfg.Copied W n fork) fun _ => Alive true := by
  have hread : (cfg.provenanceWatch staging p W (.worker n)).Spec (cfg.Allocated W n fork b)
      (perform (.readBytes data fork.kvBytes)) (fun bytes s => cfg.Allocated W n fork b s ∧
        ∀ snap, cfg.FoundAt W n s snap → fork.kvBytes = snap.data.length →
          data = .snapshot W → bytes = snap.data) fun _ => Alive true := by
    refine .op fun s hs => ⟨⟨hs.1.1.held, trivial⟩, fun bytes hbytes => ⟨?_, ?_⟩⟩
    · exact ⟨hs.1.same (samePlace_next rfl) rfl, hs.2⟩
    · rintro snap ⟨-, -, q, hq, hsnap⟩ hlen rfl
      have heq := hbytes.1 q snap hq hsnap
      rwa [hlen, List.take_length] at heq
  have hwrite : ∀ {bytes : List UInt8}, (cfg.provenanceWatch staging p W (.worker n)).Spec
      (fun s => cfg.Allocated W n fork b s ∧ ∀ snap, cfg.FoundAt W n s snap →
        fork.kvBytes = snap.data.length → data = .snapshot W → bytes = snap.data)
      (perform (.writeBytes b bytes)) (fun _ => cfg.Copied W n fork (some b))
      fun _ => Alive true := by
    intro bytes
    refine .op fun s hs => ?_
    obtain ⟨⟨hchosen, size, hown, hcopied⟩, hall⟩ := hs
    refine ⟨⟨⟨hchosen.1.held, size, hown⟩, trivial⟩, fun _ _ => ?_⟩
    have hnow := copied_writeBytes cfg.engine b bytes hcopied
    refine ⟨hchosen.1.same (samePlace_next rfl), fun b' hb' => ?_, fun hreq => ?_⟩
    · obtain rfl := Option.some.inj hb'
      exact ⟨size, bytes, hown, hnow⟩
    · obtain ⟨snap, hfound, hlen, hptr⟩ := hchosen.2 hreq
      refine ⟨snap, hfound, hlen, b, rfl, ?_⟩
      have heq := hall snap hfound hlen (hptr data hdata)
      show ((s.next cfg.engine (.op (.writeBytes b bytes)) ()).copied.getD []).take fork.kvBytes =
        snap.data
      rw [hnow, hlen, heq, Option.getD_some, List.take_length]
  exact .bind hread fun bytes => .bind hwrite fun _ => .ret fun _ hs => hs

private theorem materializeFork_provenance {node : AnalyticalNode}
    (hnode : node.requiredPrefixTokens = cfg.orchestrator.req n) (hW : 0 < W)
    (ctx : OrchestratorContext) (fork : AnalyticalNode.Fork) :
    (cfg.provenanceWatch staging p W (.worker n)).Spec (cfg.ForkChosen W n fork)
      (node.materializeFork ctx fork) (cfg.Copied W n fork) fun _ => Alive true := by
  have hload : ∀ {b : Nat}, (cfg.provenanceWatch staging p W (.worker n)).Spec
      (cfg.Allocated W n fork b) (perform .load) (fun _ => cfg.Allocated W n fork b)
      fun _ => Alive true := by
    intro b
    refine reload_provenance fun s r hs hr => ⟨⟨hs.1.1.same (samePlace_found s r), ?_⟩, hs.2⟩
    intro hreq
    obtain ⟨snap, hfound, hrest⟩ := hs.1.2 hreq
    exact ⟨snap, hfound.reload (hr hs.1.1.held), hrest⟩
  unfold AnalyticalNode.materializeFork
  refine .ite (fun _ => ?_) fun hzero => ?_
  · cases hdata : fork.data with
    | none => exact .throw fun s hs => hs.1.alive
    | some data =>
      refine .bind (allocateBranchCache_provenance ctx.nCtx) fun b => .bind hload fun r => ?_
      refine .ite (fun hneg => ?_) fun _ => ?_
      · have hno : cfg.orchestrator.req n ≠ W := by
          rw [← hnode]
          omega
        refine .bind (materializeBranchCache_provenance hno fork.kvBytes) fun _ => ?_
        exact .ret fun _ hs => hs
      · refine .bind (provenanceRule_lenient.op' rfl) fun size => .ite (fun _ => ?_) fun _ => ?_
        · exact .throw fun s hs => hs.1.1.alive
        · exact copySnapshot_provenance hdata
  · -- the snapshot at `W` is not empty
    refine .ret fun s hs => ⟨hs.1, fun b hb => ?_, fun hreq => ?_⟩
    · cases hb
    obtain ⟨snap, hfound, hlen, -⟩ := hs.2 hreq
    have hpos := List.length_pos_iff.mpr hfound.2.1
    omega

/-- A branch has restored its fork. -/
private def ForkRestored (cfg : Pipeline) (W : Int) (n : String) (h : Nat) (s : View) : Prop :=
  Alive true s ∧ s.ctx = some h ∧ (cfg.orchestrator.req n = W → ∃ snap, cfg.FoundAt W n s snap ∧
    s.restored = [snap.data])

/-- A branch that has copied its fork, and has a context. -/
private def Restoring (cfg : Pipeline) (W : Int) (n : String) (h : Nat) (fork : AnalyticalNode.Fork)
    (branchBuf : Option Nat) (s : View) : Prop :=
  s.ctx = some h ∧ cfg.Copied W n fork branchBuf { s with ctx := none }

/-- A branch that ends gives its context up. -/
private theorem freeBranch_provenance :
    (cfg.provenanceWatch staging p W (.worker n)).Spec (fun s => Alive true s ∧ s.ctx = some h)
      (perform (.llamaFree h)) (fun _ => Alive true) X :=
  .op fun _ hs => ⟨⟨hs.2, trivial⟩, fun _ _ => hs.1⟩

private theorem throwFreed_provenance {α : Type} {Q : α → View → Prop} (e : Error) :
    (cfg.provenanceWatch staging p W (.worker n)).Spec (fun s => Alive true s ∧ s.ctx = some h)
      (perform (.llamaFree h) >>= fun _ => throw e : Prog α) Q fun _ => Alive true :=
  .bind freeBranch_provenance fun _ => .throw fun _ hs => hs

private theorem restoreFork_provenance (fork : AnalyticalNode.Fork) (branchBuf : Option Nat) :
    (cfg.provenanceWatch staging p W (.worker n)).Spec (cfg.Restoring W n h fork branchBuf)
      (AnalyticalNode.restoreFork h fork branchBuf) (fun _ => cfg.ForkRestored W n h)
      fun _ => Alive true := by
  cases branchBuf with
  | none =>
    -- a branch that forks at `W` has a buffer
    refine .ret fun _ hs => ⟨hs.2.1.alive, hs.1, fun hreq => ?_⟩
    obtain ⟨snap, -, -, b, hb, -⟩ := hs.2.2.2 hreq
    cases hb
  | some b =>
    have hrestore : (cfg.provenanceWatch staging p W (.worker n)).Spec
        (cfg.Restoring W n h fork (some b))
        (perform (.llamaStateSeqSetData h (.buffer b) fork.kvBytes kSwarmkvPrefixSeqId))
        (fun r s => (Alive true s ∧ s.ctx = some h) ∧
          (r = fork.kvBytes → cfg.ForkRestored W n h s)) fun _ => Alive true := by
      refine .op fun s hs => ?_
      obtain ⟨hctx, hfork, hknows, hcopied⟩ := hs
      refine ⟨⟨⟨hctx, hfork.held, hknows b rfl⟩, trivial⟩, fun r _ => ?_⟩
      have hidle : Alive true s := ⟨hfork.held, hfork.live⟩
      have hnext : s.next cfg.engine (.op (.llamaStateSeqSetData h (.buffer b) fork.kvBytes
          kSwarmkvPrefixSeqId)) r = if r = 0 ∧ s.bytesAt (.buffer b) fork.kvBytes ≠ [] then s
            else s.restore cfg.engine (.buffer b) fork.kvBytes kSwarmkvPrefixSeqId := rfl
      show (Alive true (s.next cfg.engine _ r) ∧ (s.next cfg.engine _ r).ctx = some h) ∧
        (_ → cfg.ForkRestored W n h (s.next cfg.engine _ r))
      rw [hnext]
      split
      · -- the call has failed
        rename_i hzero
        refine ⟨⟨hidle, hctx⟩, fun hlen' => ⟨hidle, hctx, fun hreq => ?_⟩⟩
        obtain ⟨snap, hfound, hlen, -⟩ := hcopied hreq
        have hempty : snap.data.length = 0 := hlen.symm.trans (hlen'.symm.trans hzero.1)
        exact absurd (List.length_eq_zero_iff.mp hempty) hfound.2.1
      · refine ⟨⟨hidle, hctx⟩, fun _ => ⟨hidle, hctx, fun hreq => ?_⟩⟩
        obtain ⟨snap, hfound, -, b', hb', hat⟩ := hcopied hreq
        obtain rfl := Option.some.inj hb'
        refine ⟨snap, hfound, ?_⟩
        show s.bytesAt (.buffer b) fork.kvBytes :: s.restored = [snap.data]
        rw [show s.restored = [] from hfork.restored]
        exact congrArg (· :: []) hat
    refine .bind hrestore fun r => .ite (fun _ => ?_) fun heq => ?_
    · exact (throwFreed_provenance _).pre fun s hs => hs.1
    · exact .ret fun s hs => hs.2 (not_not.mp heq)

private theorem preparePrompt_provenance {node : AnalyticalNode} {ctx : OrchestratorContext}
    (branchBuf : Option Nat) (fork : AnalyticalNode.Fork) :
    (cfg.provenanceWatch staging p W (.worker n)).Spec (cfg.ForkRestored W n h)
      (node.preparePrompt ctx h branchBuf fork) (fun _ => cfg.ForkRestored W n h) fun _ => Alive true := by
  have hctx : ∀ s, cfg.ForkRestored W n h s → Alive true s ∧ s.ctx = some h :=
    fun s hs => ⟨hs.1, hs.2.1⟩
  have htarget : (cfg.provenanceWatch staging p W (.worker n)).Spec (cfg.ForkRestored W n h)
      (AnalyticalNode.bindTargetOf branchBuf) (fun _ => cfg.ForkRestored W n h)
      fun _ => Alive true := by
    cases branchBuf with
    | some b => exact .ret fun _ hs => hs
    | none =>
      refine .bind (reload_provenance fun s r hs hr => ⟨hs.1, hs.2.1, fun hreq => ?_⟩) fun r => ?_
      · obtain ⟨snap, hfound, hrestored⟩ := hs.2.2 hreq
        exact ⟨snap, hfound.reload (hr hs.1.1), hrestored⟩
      · exact .ret fun _ hs => hs
  have htokens : (cfg.provenanceWatch staging p W (.worker n)).Spec (cfg.ForkRestored W n h)
      (AnalyticalNode.tokenizeText ctx.engine node.branchPrompt)
      (fun _ => cfg.ForkRestored W n h) fun _ => Alive true :=
    .conseq (AnalyticalNode.tokenizeText_spec (provenanceRule_lenient.keeps rfl))
      (fun _ hs => hs) (fun _ _ hs => hs.1) fun _ _ hs => hs.1
  unfold AnalyticalNode.preparePrompt
  refine .bind htarget fun target => ?_
  refine .bind (bindContiguousCache_provenance fun _ s hs => hs.1) fun _ => .assume fun _ => ?_
  refine .bind htokens fun tokens => .ite (fun _ => ?_) fun _ => ?_
  · exact (throwFreed_provenance _).pre hctx
  refine .bind (.catch' (provenanceRule_lenient.validateContextBudget _ _ _ _) fun e => ?_) fun _ => ?_
  · exact (throwFreed_provenance _).pre hctx
  · exact .ret fun _ hs => hs

private theorem decodePrompt_provenance (node : AnalyticalNode) (ctx : OrchestratorContext)
    (tokens : List LlamaToken) (fork : AnalyticalNode.Fork) :
    (cfg.provenanceWatch staging p W (.worker n)).Spec (cfg.ForkRestored W n h)
      (node.decodePrompt ctx h tokens fork) (fun _ => Alive true) fun _ => Alive true := by
  have hdecode : ∀ {batch : LlamaBatch}, (cfg.provenanceWatch staging p W (.worker n)).Spec
      (cfg.ForkRestored W n h) (perform (.llamaDecode h batch))
      (fun _ s => Alive true s ∧ s.ctx = some h) fun _ => Alive true := by
    intro batch
    refine .op fun s hs => ⟨⟨hs.2.1, fun m hm hreq => ?_⟩, fun r _ => ?_⟩
    · obtain rfl := Thread.worker.inj hm
      obtain ⟨snap, ⟨-, -, q, hq, hsnap⟩, hrestored⟩ := hs.2.2 hreq
      exact ⟨hs.1.1, q, snap, hq, hsnap, hrestored⟩
    · cases r
      · exact ⟨hs.1, hs.2.1⟩
      · exact ⟨hs.1, hs.2.1⟩
  have houtput : (cfg.provenanceWatch staging p W (.worker n)).Spec
      (fun s => Alive true s ∧ s.ctx = some h) (node.publishOutput ctx.nodeName tokens.length fork)
      (fun _ s => Alive true s ∧ s.ctx = some h) fun _ => Alive true := by
    apply provenanceRule_lenient.withLock rfl rfl
    refine .bind (alloc_provenance fun _ _ hs => hs.1) fun _ => ?_
    exact .op fun s hs => ⟨⟨trivial, trivial⟩, fun _ _ => hs⟩
  unfold AnalyticalNode.decodePrompt
  refine .bind (provenanceRule_lenient.op' rfl) fun id => .bind hdecode fun ok => ?_
  refine .ite (fun _ => ?_) fun _ => ?_
  · refine .bind houtput fun _ => .bind (provenanceRule_lenient.op' rfl) fun _ => ?_
    exact freeBranch_provenance
  · refine .bind (provenanceRule_lenient.op' rfl) fun _ => ?_
    exact .bind freeBranch_provenance fun _ => .throw fun _ hs => hs

/-- `execute()` of a branch. -/
private theorem executeBranch_provenance {node : AnalyticalNode} {ctx : OrchestratorContext}
    (hnode : cfg.orchestrator.node n = some (.analytical node)) (hW : 0 < W) :
    (cfg.provenanceWatch staging p W (.worker n)).Spec (· = {}) (node.execute ctx)
      (fun _ => Alive false) fun _ => Alive false := by
  have hmem : n ∈ cfg.orchestrator.names := Orchestrator.mem_names.mpr ⟨_, hnode⟩
  have hreq : node.requiredPrefixTokens = cfg.orchestrator.req n := by
    simp [Orchestrator.req, hnode, Node.requiredPrefixTokens]
  have hinit : ∀ {fork : AnalyticalNode.Fork} {branchBuf : Option Nat},
      (cfg.provenanceWatch staging p W (.worker n)).Spec (cfg.Copied W n fork branchBuf)
        (perform .llamaInitFromModel)
        (fun r => r.elim (Alive true) fun h => cfg.Restoring W n h fork branchBuf)
        fun _ => Alive true := by
    intro fork branchBuf
    refine .op fun s hs => ⟨⟨hs.1.ctx, trivial⟩, fun r _ => ?_⟩
    cases r with
    | none => exact hs.1.alive
    | some h => exact ⟨rfl, ⟨hs.1.held, hs.1.live, rfl, hs.1.restored⟩, hs.2⟩
  have hsignal : (cfg.provenanceWatch staging p W (.worker n)).Spec (Alive true)
      (PipelineState.signalMilestoneConsumed node.requiredPrefixTokens) (fun _ => Alive true)
      fun _ => Alive true := by
    refine provenanceRule_lenient.uses (PipelineState.signalMilestoneConsumed_uses _) fun a ha => ?_
    cases ha <;> rfl
  refine .withLock (I := Forking) (J := fun _ => Alive true) (K := fun _ => Alive true)
    (fun s hs => ?_) ?_ (fun _ s hs => ?_) fun _ s hs => ?_
  · subst hs
    exact ⟨lock_provenance hmem rfl, fun _ => ⟨rfl, rfl, rfl, rfl⟩⟩
  · unfold AnalyticalNode.forkAndDecode
    refine .bind (provenanceRule_lenient.op' rfl) fun t₀ => .ite (fun _ => ?_) fun _ => ?_
    · exact .throw fun s hs => hs.alive
    refine .bind (chooseFork_provenance hreq hW) fun fork => ?_
    refine .bind (materializeFork_provenance hreq hW ctx fork) fun branchBuf => ?_
    refine .bind (provenanceRule_lenient.op' rfl) fun _ => .bind hinit fun r => ?_
    cases r with
    | none => exact .throw fun s hs => hs
    | some h =>
      refine .bind (restoreFork_provenance fork branchBuf) fun _ => ?_
      refine .bind (preparePrompt_provenance branchBuf fork) fun tokens => ?_
      refine .bind (decodePrompt_provenance node ctx tokens fork) fun _ => ?_
      refine .ite (fun _ => .bind hsignal fun _ => ?_) fun _ => ?_
      · exact provenanceRule_lenient.recordTiming _ _
      · exact provenanceRule_lenient.recordTiming _ _
  · exact ⟨⟨trivial, trivial⟩, fun _ => ⟨rfl, hs.2⟩⟩
  · exact ⟨⟨trivial, trivial⟩, fun _ => ⟨rfl, hs.2⟩⟩

/-- The threads of a pipeline keep to the rules about where forks come from. -/
theorem program_provenance (hr : cfg.engine.RoundTrips) (hW : 0 < W) (i : Thread) :
    (cfg.provenanceWatch staging p W i).Meets (cfg.program i) (fun _ _ => True) {} := by
  refine program_view provenanceRule_lenient (fun s a ha => ?_) (fun n s a ha => ?_)
    (fun n node ctx hn hE => ?_) i
  · cases ha <;> trivial
  · cases ha <;> trivial
  · have hheld : ∀ s, Alive false s → s.held = false := fun _ hs => hs.1
    cases node with
    | prefill node =>
      exact .conseq (executePrefill_provenance hn hE hr hW) (fun _ hs => hs) (fun _ => hheld)
        fun _ => hheld
    | analytical node =>
      exact .conseq (executeBranch_provenance hn hW) (fun _ hs => hs) (fun _ => hheld) fun _ => hheld

end SwarmKV.Pipeline
