import SwarmKV.Spec.Schedule

/-!
# The branches

A branch goes through the steps of the sequential branch: it chooses the same fork, copies and
restores it, and decodes the same prompt behind it. The first step that fails decides how both
end.
-/

namespace SwarmKV

open Monitor

namespace Pipeline

variable {cfg : Pipeline} {D : Calls} {p n : String} {h t : Nat} {s : View} {C : View}
  {I : View → Prop} {X : Error → View → Prop}

/-- A branch under the guard: its context and its buffer. -/
private def atFork (ctx : Option Nat) (cells : Option (List KvCell)) (own : Option (Nat × Nat))
    (copied : Option (List UInt8)) : View where
  held := true
  ctx := ctx
  cells := cells
  own := own
  copied := copied

/-- A branch under the guard that has published `output`. -/
private structure OnGuard (output : Option String) (s : View) : Prop where
  held : s.held = true
  live : s.done = false
  settled : s.settled = false
  output : s.output = output

private theorem onGuard_atFork {ctx : Option Nat} {cells : Option (List KvCell)}
    {own : Option (Nat × Nat)} {copied : Option (List UInt8)}
    (hs : s.bare = atFork ctx cells own copied) : OnGuard none s :=
  ⟨(congrArg View.held hs :), (congrArg View.done hs :), (congrArg View.settled hs :),
    (congrArg View.output hs :)⟩

/-- What a branch forks, with the bytes that are behind its pointer. -/
private structure ForksFrom (cfg : Pipeline) (D : Calls) (p n : String) (fork : AnalyticalNode.Fork)
    (data : List UInt8) : Prop where
  chosen : Calls.chooseFork cfg (D.provided cfg p).filed (cfg.orchestrator.req n) =
    .ok (fork.prefixLen, data)
  kvBytes : fork.kvBytes = data.length
  pointer : data ≠ [] → fork.data =
    some (if cfg.orchestrator.req n ≥ 0 then .snapshot (cfg.orchestrator.req n) else .buffer 0)

private theorem chooseFork_schedule {node : AnalyticalNode} (hn : n ≠ p)
    (hnode : node.requiredPrefixTokens = cfg.orchestrator.req n) :
    (cfg.scheduleWatch D p (.worker n)).Spec (·.bare = atFork none none none none) node.chooseFork
      (fun fork s => s.bare = atFork none none none none ∧ ∃ data, cfg.ForksFrom D p n fork data)
      fun e s => OnGuard none s ∧
        Calls.chooseFork cfg (D.provided cfg p).filed (cfg.orchestrator.req n) = .error e := by
  unfold AnalyticalNode.chooseFork
  rw [hnode]
  refine .ite (fun hpos => ?_) fun hneg => ?_
  · -- a branch at a watermark finds what the provider files there
    refine .bind (tryGetPrefixSnapshot_schedule rfl) fun a => .fix fun s₀ hs₀ => ?_
    obtain ⟨r, hbare, -, hr, rfl⟩ := hs₀
    rw [(hr.shows rfl).snapshot n rfl hn hpos]
    cases hlookup : (D.provided cfg p).filed.lookup (cfg.orchestrator.req n) with
    | none =>
      simp only [Option.map_none]
      refine .throw fun s hs => ⟨onGuard_atFork (hs ▸ hbare), ?_⟩
      simp only [Calls.chooseFork, if_pos hpos, hlookup]
    | some data =>
      simp only [Option.map_some]
      refine .ret fun s hs => ⟨hs ▸ hbare, data, ?_, rfl, fun hne => ?_⟩
      · simp only [Calls.chooseFork, if_pos hpos, hlookup]
      · simp [hpos, hne]
  · -- another one takes the canonical export, whose length and size are final
    have hlt : cfg.orchestrator.req n < 0 := by omega
    refine .bind load_schedule fun s₁ => .assume fun h₁ => ?_
    refine .bind load_schedule fun s₂ => .assume fun h₂ => ?_
    have hlen := congrArg Prod.fst ((h₁.shows rfl).canonical n rfl hn hlt)
    have hsize := congrArg Prod.snd ((h₂.shows rfl).canonical n rfl hn hlt)
    dsimp only at hlen hsize
    rw [hlen, hsize]
    generalize hlast : Calls.lastFiled (D.provided cfg p).filed = last
    refine .ite (fun hpos => ?_) fun hzero => ?_
    · -- there is an export, and so a buffer
      have hne : last.2 ≠ [] := List.length_pos_iff.mp hpos
      refine .bind load_schedule fun s₃ => .assume fun h₃ => ?_
      rw [h₃.staging]
      cases hstaging : cfg.staging with
      | none =>
        simp only [stagingBuffer, hstaging, Option.map_none]
        refine .throw fun s hs => ⟨onGuard_atFork hs, ?_⟩
        simp only [Calls.chooseFork, if_neg hneg, hlast, hstaging]
        rw [if_pos ⟨hne, trivial⟩]
      | some cap =>
        simp only [stagingBuffer, hstaging, Option.map_some]
        refine .ret fun s hs => ⟨hs, last.2, ?_, rfl, fun _ => ?_⟩
        · simp [Calls.chooseFork, if_neg hneg, hlast, hstaging]
        · simp [hneg]
    · -- nothing has been exported
      have hnil : last.2 = [] := List.length_eq_zero_iff.mp (Nat.eq_zero_of_not_pos hzero)
      refine .ret fun s hs => ⟨hs, last.2, ?_, rfl, fun hne => absurd hnil hne⟩
      simp only [Calls.chooseFork, if_neg hneg, hlast]
      rw [if_neg fun h => h.1 hnil]

/-- The size that a branch buffer needs, found out in a context of its own. -/
private theorem getRequiredKvSize_schedule (nCtx : Nat) :
    (cfg.scheduleWatch D p (.worker n)).Spec (·.bare = atFork none none none none)
      (MemoryPool.getRequiredKvSize nCtx)
      (fun size s => s.bare = atFork none none none none ∧ size = Calls.branchSize cfg nCtx) X := by
  unfold MemoryPool.getRequiredKvSize
  refine .bind (initContext_schedule rfl) fun r => .fix fun s₀ hs₀ => ?_
  obtain ⟨k, rfl, hbare⟩ := hs₀
  refine .pre (I := (·.bare = atFork (some k) (some []) none none)) ?_ fun s hs => hs ▸ hbare
  refine .bind (.post (scheduleRule_lenient.op rfl) fun sz s hs => (⟨hs.1, hs.2.2⟩ :
    s.bare = atFork (some k) (some []) none none ∧ sz = cfg.engine.llamaStateGetSize nCtx))
    fun sz => .assume fun hsz => ?_
  refine .bind (freeContext_schedule rfl) fun _ => .ret fun s hs => ⟨hs, ?_⟩
  rw [hsz, Calls.branchSize]

/-- A branch allocates its buffer. -/
private theorem allocateBranchCache_schedule (nCtx : Nat) :
    (cfg.scheduleWatch D p (.worker n)).Spec (·.bare = atFork none none none none)
      (MemoryPool.allocateBranchCache nCtx)
      (fun b s => s.bare = atFork none none (some (b, Calls.branchSize cfg nCtx)) (some [])) X := by
  refine .noThrow (scheduleRule_lenient.withLock rfl rfl ?_)
  refine .bind (getRequiredKvSize_schedule nCtx) fun size => .assume fun hsize => ?_
  subst hsize
  generalize Calls.branchSize cfg nCtx = size
  refine .bind (Q := fun r s => ∃ b, r = some b ∧ s.bare = atFork none none (some (b, size)) (some []))
    (.op fun s hs => ?_) fun r => .fix fun s₀ hs₀ => ?_
  · have hheld : s.held = true := (congrArg View.held hs :)
    refine ⟨⟨hheld, trivial⟩, fun r hr => ?_⟩
    obtain ⟨b, rfl⟩ := Option.isSome_iff_exists.mp hr.2
    have hnext := congrArg (fun v : View => ({ v with
      own := some (b, size), copied := some [] } : View)) hs
    exact ⟨b, rfl, hnext⟩
  · -- the pool keeps it
    obtain ⟨b, rfl, hbare⟩ := hs₀
    refine .pre (I := (·.bare = atFork none none (some (b, size)) (some []))) ?_ fun s hs => hs ▸ hbare
    refine .bind alloc_schedule fun _ => ?_
    exact .bind (scheduleRule_lenient.op' rfl) fun _ => .ret fun s hs => hs

/-- A branch has what it forks in its buffer, if there is anything to fork. -/
private def InBuffer (data : List UInt8) (branchBuf : Option Nat) (ctx : Option Nat)
    (cells : Option (List KvCell)) (s : View) : Prop :=
  (data = [] ∧ branchBuf = none ∧ s.bare = atFork ctx cells none none) ∨
    (data ≠ [] ∧ ∃ b size, branchBuf = some b ∧ s.bare = atFork ctx cells (some (b, size)) (some data))

private theorem InBuffer.onGuard {data : List UInt8} {branchBuf ctx : Option Nat}
    {cells : Option (List KvCell)} (h : InBuffer data branchBuf ctx cells s) : OnGuard none s := by
  obtain ⟨-, -, hbare⟩ | ⟨-, b, size, -, hbare⟩ := h
  · exact onGuard_atFork hbare
  · exact onGuard_atFork hbare

/-- A branch writes what it has read into its empty buffer. -/
private theorem writeBytes_schedule {b size : Nat} {data : List UInt8} :
    (cfg.scheduleWatch D p (.worker n)).Spec (·.bare = atFork none none (some (b, size)) (some []))
      (perform (.writeBytes b data))
      (fun _ s => s.bare = atFork none none (some (b, size)) (some data)) X := by
  refine .op fun s hs => ?_
  have hheld : s.held = true := (congrArg View.held hs :)
  have hown : s.own = some (b, size) := (congrArg View.own hs :)
  have hnext := congrArg (fun v : View => ({ v with
    copied := v.copied.map fun old => data ++ old.drop data.length } : View)) hs
  refine ⟨⟨⟨hheld, size, hown⟩, trivial⟩, fun _ _ => hnext.trans ?_⟩
  simp [atFork]

/-- The size of its buffer is the one that it has asked for. -/
private theorem bufferSize_own {P : View → Prop} {b size : Nat} {data : List UInt8}
    (hP : ∀ s, P s → s.bare = atFork none none (some (b, size)) (some data)) :
    (cfg.scheduleWatch D p (.worker n)).Spec P (perform (.bufferSize b))
      (fun k s => P s ∧ k = size) X := by
  refine .op fun s hs => ⟨⟨trivial, trivial⟩, fun k hk => ⟨hs, ?_⟩⟩
  have hheld : s.held = true := (congrArg View.held (hP s hs) :)
  have hown : s.own = some (b, size) := (congrArg View.own (hP s hs) :)
  exact hk.1 hheld size hown

/-- The size of the canonical buffer. -/
private theorem bufferSize_canonical {b size cap : Nat} (hcap : cfg.staging = some cap)
    (hstaging : cfg.stagingBuffer = some 0) :
    (cfg.scheduleWatch D p (.worker n)).Spec (·.bare = atFork none none (some (b, size)) (some []))
      (perform (.bufferSize 0))
      (fun k s => s.bare = atFork none none (some (b, size)) (some []) ∧ k = cap) X := by
  refine .op fun s hs => ⟨⟨trivial, trivial⟩, fun k hk => ⟨hs, ?_⟩⟩
  have hheld : s.held = true := (congrArg View.held hs :)
  have heq := hk.2 hheld hstaging
  exact (Option.some.inj (hcap.symm.trans heq)).symm

/-- What a branch without a watermark reads of the canonical buffer. -/
private theorem readCanonical_schedule {b size k : Nat} {data : List UInt8} (hn : n ≠ p)
    (hneg : cfg.orchestrator.req n < 0) (hstaging : cfg.stagingBuffer = some 0)
    (hdata : data = (Calls.lastFiled (D.provided cfg p).filed).2) (hk : k = data.length) :
    (cfg.scheduleWatch D p (.worker n)).Spec (·.bare = atFork none none (some (b, size)) (some []))
      (perform (.readBytes (.buffer 0) k))
      (fun bytes s => s.bare = atFork none none (some (b, size)) (some []) ∧ bytes = data) X := by
  refine .op fun s hs => ?_
  have hheld : s.held = true := (congrArg View.held hs :)
  refine ⟨⟨hheld, trivial⟩, fun bytes hbytes => ⟨hs, ?_⟩⟩
  rw [hbytes.2 hstaging n rfl hn hneg (hk.trans (congrArg List.length hdata)), ← hdata]

/-- The copy of the canonical export. -/
private theorem materializeBranchCache_schedule {b size cap : Nat} {data : List UInt8} (hn : n ≠ p)
    (hneg : cfg.orchestrator.req n < 0) (hcap : cfg.staging = some cap) (hne : data ≠ [])
    (hdata : data = (Calls.lastFiled (D.provided cfg p).filed).2) :
    (cfg.scheduleWatch D p (.worker n)).Spec (·.bare = atFork none none (some (b, size)) (some []))
      (KVHandoff.materializeBranchCache (some 0) (some b) data.length)
      (fun _ s => s.bare = atFork none none (some (b, size)) (some data) ∧
        ¬ (data.length > cap ∨ data.length > size))
      fun e s => OnGuard none s ∧ e = .materializeTooLarge ∧
        (data.length > cap ∨ data.length > size) := by
  have hstaging : cfg.stagingBuffer = some 0 := by simp [stagingBuffer, hcap]
  have hlen : data.length ≠ 0 := fun hzero => hne (List.length_eq_zero_iff.mp hzero)
  unfold KVHandoff.materializeBranchCache
  refine .bind (bufferSize_canonical hcap hstaging) fun k => .assume fun hk => ?_
  refine .bind (bufferSize_own fun _ hs => hs) fun m => .assume fun hm => ?_
  subst hk hm
  simp only [if_neg hlen]
  refine .ite (fun hlarge => ?_) fun hfits => ?_
  · exact .throw fun s hs => ⟨onGuard_atFork hs, rfl, hlarge⟩
  refine .bind (readCanonical_schedule hn hneg hstaging hdata (if_neg hlen)) fun bytes =>
    .assume fun hbytes => ?_
  rw [hbytes]
  exact .post writeBytes_schedule fun _ s hs => ⟨hs, hfits⟩

/-- The fork of a branch without a watermark: the canonical export. -/
private theorem materializeCanonical_schedule {b : Nat} {data : List UInt8} {len : Int}
    {r : PipelineState} (hn : n ≠ p) (hneg : cfg.orchestrator.req n < 0)
    (hchosen : Calls.chooseFork cfg (D.provided cfg p).filed (cfg.orchestrator.req n) =
      .ok (len, data)) (hne : data ≠ []) (hstaging : r.materializedBranchBuffer = cfg.stagingBuffer) :
    r.materializedBranchBuffer.isSome = true ∧ (cfg.scheduleWatch D p (.worker n)).Spec
      (·.bare = atFork none none
        (some (b, Calls.branchSize cfg kSwarmkvDefaultPipelineCtx)) (some []))
      (do
        KVHandoff.materializeBranchCache r.materializedBranchBuffer (some b) data.length
        pure (some b) : Prog (Option Nat))
      (fun branchBuf s => InBuffer data branchBuf none none s ∧
        Calls.materializeFork cfg (cfg.orchestrator.req n) data = .ok ())
      fun e s => OnGuard none s ∧
        Calls.materializeFork cfg (cfg.orchestrator.req n) data = .error e := by
  have hnpos : ¬ cfg.orchestrator.req n ≥ 0 := by omega
  simp only [Calls.chooseFork, if_neg hnpos] at hchosen
  split at hchosen
  · cases hchosen
  rename_i hsome
  have hlast := Except.ok.inj hchosen
  have hdata : data = (Calls.lastFiled (D.provided cfg p).filed).2 := by rw [hlast]
  rw [← hdata] at hsome
  obtain ⟨cap, hcap⟩ : ∃ cap, cfg.staging = some cap := by
    refine Option.ne_none_iff_exists'.mp fun hnone => hsome ⟨hne, hnone⟩
  have hbuffer : r.materializedBranchBuffer = some 0 := by
    rw [hstaging, stagingBuffer, hcap, Option.map_some]
  rw [hbuffer, Calls.materializeFork_canonical cfg hneg hne hcap]
  generalize Calls.branchSize cfg kSwarmkvDefaultPipelineCtx = size
  refine ⟨rfl, ?_⟩
  have hcopy := @materializeBranchCache_schedule cfg D p n b size cap data hn hneg hcap hne hdata
  refine .bind (.err hcopy fun e s hs => ?_) fun _ => .assume fun hfits => .ret fun s hs => ?_
  · obtain ⟨hon, rfl, hlarge⟩ := hs
    exact ⟨hon, if_pos hlarge⟩
  · exact ⟨.inr ⟨hne, b, size, rfl, hs⟩, if_neg hfits⟩

/-- The fork of a branch at a watermark: the snapshot that it finds there. -/
private theorem materializeSnapshot_schedule {b : Nat} {data : List UInt8} {r : PipelineState}
    (hneg : ¬ cfg.orchestrator.req n < 0) (hne : data ≠ [])
    (hsnap : r.prefixSnapshots (cfg.orchestrator.req n) = some ⟨data, cfg.orchestrator.req n⟩) :
    (cfg.scheduleWatch D p (.worker n)).Spec
      (fun s => s.bare = atFork none none
        (some (b, Calls.branchSize cfg kSwarmkvDefaultPipelineCtx)) (some []) ∧ s.found = some r)
      (do
        let size ← perform (.bufferSize b)
        if size < data.length then throw .branchBufferTooSmall
        else do
          let bytes ← perform (.readBytes (.snapshot (cfg.orchestrator.req n)) data.length)
          perform (.writeBytes b bytes)
          pure (some b) : Prog (Option Nat))
      (fun branchBuf s => InBuffer data branchBuf none none s ∧
        Calls.materializeFork cfg (cfg.orchestrator.req n) data = .ok ())
      fun e s => OnGuard none s ∧
        Calls.materializeFork cfg (cfg.orchestrator.req n) data = .error e := by
  rw [Calls.materializeFork_snapshot cfg hneg hne]
  generalize Calls.branchSize cfg kSwarmkvDefaultPipelineCtx = size
  refine .bind (bufferSize_own fun _ hs => hs.1) fun k => .assume fun hk => ?_
  subst hk
  refine .ite (fun hsmall => ?_) fun hfits => ?_
  · exact .throw fun s hs => ⟨onGuard_atFork hs.1, if_pos hsmall⟩
  refine .bind (Q := fun bytes s => s.bare = atFork none none (some (b, k)) (some []) ∧ bytes = data)
    (.op fun s hs => ?_) fun bytes => .assume fun hbytes => ?_
  · obtain ⟨hbare, hfound⟩ := hs
    have hheld : s.held = true := (congrArg View.held hbare :)
    refine ⟨⟨hheld, trivial⟩, fun bytes hbytes => ⟨hbare, ?_⟩⟩
    rw [hbytes.1 r _ hfound hsnap, List.take_length]
  · subst hbytes
    refine .bind writeBytes_schedule fun _ => .ret fun s hs => ?_
    exact ⟨.inr ⟨hne, b, k, rfl, hs⟩, if_neg hfits⟩

private theorem materializeFork_schedule {node : AnalyticalNode} {ctx : OrchestratorContext}
    {fork : AnalyticalNode.Fork} {data : List UInt8} (hn : n ≠ p)
    (hnode : node.requiredPrefixTokens = cfg.orchestrator.req n)
    (hctx : ctx.nCtx = kSwarmkvDefaultPipelineCtx) (hfork : cfg.ForksFrom D p n fork data) :
    (cfg.scheduleWatch D p (.worker n)).Spec (·.bare = atFork none none none none)
      (node.materializeFork ctx fork)
      (fun branchBuf s => InBuffer data branchBuf none none s ∧
        Calls.materializeFork cfg (cfg.orchestrator.req n) data = .ok ())
      fun e s => OnGuard none s ∧
        Calls.materializeFork cfg (cfg.orchestrator.req n) data = .error e := by
  obtain ⟨hchosen, hbytes, hpointer⟩ := hfork
  unfold AnalyticalNode.materializeFork
  rw [hnode, hbytes, hctx]
  refine .ite (fun hpos => ?_) fun hzero => ?_
  · have hne : data ≠ [] := List.length_pos_iff.mp hpos
    rw [hpointer hne]
    generalize hptr : (if cfg.orchestrator.req n ≥ 0 then DataPtr.snapshot (cfg.orchestrator.req n)
      else .buffer 0) = ptr
    refine .bind (allocateBranchCache_schedule _) fun b => ?_
    refine .bind (load_found rfl) fun r => .assume fun hr => ?_
    by_cases hneg : cfg.orchestrator.req n < 0
    · obtain ⟨hsome, hcopy⟩ := materializeCanonical_schedule (b := b) hn hneg hchosen hne hr.staging
      simp only [hsome, hneg, true_and, if_true]
      exact .pre hcopy fun s hs => hs.1
    · have hpos' : cfg.orchestrator.req n ≥ 0 := by omega
      rw [if_pos hpos'] at hptr
      subst hptr
      -- the snapshot at the watermark is the one that the provider files there
      simp only [Calls.chooseFork, if_pos hpos'] at hchosen
      split at hchosen
      · cases hchosen
      rename_i data' hlookup
      obtain ⟨-, rfl⟩ := Prod.mk.inj (Except.ok.inj hchosen)
      have hsnap := (hr.shows rfl).snapshot n rfl hn hpos'
      rw [hlookup, Option.map_some] at hsnap
      simp only [hneg, and_false, if_false]
      exact materializeSnapshot_schedule hneg hne hsnap
  · -- nothing is copied
    obtain rfl : data = [] := List.length_eq_zero_iff.mp (Nat.eq_zero_of_not_pos hzero)
    exact .ret fun s hs => ⟨.inl ⟨rfl, rfl, hs⟩, Calls.materializeFork_nil cfg _⟩

/-- A branch in its context, behind a fork of `data`. -/
private def WithFork (data : List UInt8) (branchBuf : Option Nat) (h : Nat) (cells : List KvCell)
    (s : View) : Prop :=
  (data = [] ↔ branchBuf = none) ∧ ∃ own copied, s.bare = atFork (some h) (some cells) own copied

private theorem WithFork.onGuard {data : List UInt8} {branchBuf : Option Nat} {cells : List KvCell}
    (hs : WithFork data branchBuf h cells s) : OnGuard none s := by
  obtain ⟨-, own, copied, hbare⟩ := hs
  exact onGuard_atFork hbare

private theorem freeBranch_schedule {cells : Option (List KvCell)} {own : Option (Nat × Nat)}
    {copied : Option (List UInt8)} :
    (cfg.scheduleWatch D p (.worker n)).Spec (·.bare = atFork (some h) cells own copied)
      (perform (.llamaFree h)) (fun _ => OnGuard none) X :=
  .post (freeContext_schedule rfl) fun _ _ hs => onGuard_atFork hs

private theorem freeWithFork_schedule {data : List UInt8} {branchBuf : Option Nat}
    {cells : List KvCell} :
    (cfg.scheduleWatch D p (.worker n)).Spec (WithFork data branchBuf h cells) (perform (.llamaFree h))
      (fun _ => OnGuard none) X := by
  refine .fix fun s₀ hs₀ => ?_
  obtain ⟨-, own, copied, hbare⟩ := hs₀
  exact .pre freeBranch_schedule fun s hs => hs ▸ hbare

private theorem restoreFork_schedule {fork : AnalyticalNode.Fork} {data : List UInt8}
    {branchBuf : Option Nat} (hbytes : fork.kvBytes = data.length) :
    (cfg.scheduleWatch D p (.worker n)).Spec (InBuffer data branchBuf (some h) (some []))
      (AnalyticalNode.restoreFork h fork branchBuf)
      (fun _ s => ∃ cells, WithFork data branchBuf h cells s ∧ D.restoreFork cfg data = .ok cells)
      fun e s => OnGuard none s ∧ D.restoreFork cfg data = .error e := by
  refine .fix fun s₀ hs₀ => ?_
  unfold Calls.restoreFork Calls.restoreData
  obtain ⟨rfl, rfl, hbare⟩ | ⟨hne, b, size, rfl, hbare⟩ := hs₀
  · exact .ret fun s hs => ⟨[], ⟨by simp, none, none, hs ▸ hbare⟩, rfl⟩
  simp only [if_neg hne]
  unfold AnalyticalNode.restoreFork
  rw [hbytes]
  have hcopied : s₀.copied = some data := (congrArg View.copied hbare :)
  have hown : s₀.own = some (b, size) := (congrArg View.own hbare :)
  have hknows : s₀.Knows (.buffer b) ∧ s₀.bytesAt (.buffer b) data.length = data := by
    refine ⟨⟨size, data, hown, hcopied⟩, ?_⟩
    simp [View.bytesAt, hcopied]
  refine .bind (.pre (seqSetData_schedule
    (C := atFork (some h) (some []) (some (b, size)) (some data)) rfl rfl rfl hne) fun s hs => ?_)
    fun nr => ?_
  · exact hs ▸ ⟨hbare, hknows⟩
  refine .ite (fun hdiff => ?_) fun heq => .ret fun s hs => ?_
  · simp only [if_neg hdiff]
    refine .assume fun hfail => ?_
    rw [hfail]
    exact .bind freeBranch_schedule fun _ => .throw fun s hs => ⟨hs, rfl⟩
  · rw [if_pos (not_not.mp heq)] at hs
    rw [hs.2]
    exact ⟨_, ⟨by simp [hne], _, _, hs.1⟩, rfl⟩

/-- The budget check of a single prompt. -/
private theorem validateContextBudget_schedule {prefixTokens : Int} {prompt : String}
    {tokens : List LlamaToken} {nCtx : Nat} (htokens : tokensOf cfg.engine prompt = some tokens) :
    (cfg.scheduleWatch D p (.worker n)).Spec I
      (swarmkvValidateContextBudget cfg.engine prefixTokens [prompt] nCtx)
      (fun _ s => I s ∧ Calls.validateContextBudget prefixTokens tokens nCtx = .ok ())
      fun e s => I s ∧ Calls.validateContextBudget prefixTokens tokens nCtx = .error e := by
  unfold swarmkvValidateContextBudget Calls.validateContextBudget
  refine .ite (fun hneg => .throw fun s hs => ⟨hs, if_pos hneg⟩) fun hpos => ?_
  simp only [if_neg hpos]
  -- the one prompt is the longest
  refine .bind (Q := fun (most : Int) s => I s ∧ most = tokens.length) ?_ fun most =>
    .assume fun hmost => ?_
  · refine .bind (.err tokenizeWith_schedule fun e s hs => ?_) fun tokens' =>
      .assume fun htokens' => .ret fun s hs => ⟨hs, ?_⟩
    · rw [htokens] at hs
      cases hs.2.2
    · obtain rfl := Option.some.inj (htokens.symm.trans htokens')
      rw [toInt32_of_lt (tokensOf_length htokens)]
      exact max_eq_right (Int.natCast_nonneg _)
  subst hmost
  generalize toInt32 (prefixTokens + tokens.length + 128) = required
  generalize toInt32 nCtx = limit
  refine .ite (fun hlarge => ?_) fun hfits => ?_
  · exact .throw fun s hs => ⟨hs, if_pos hlarge⟩
  · exact .ret fun s hs => ⟨hs, if_neg hfits⟩

/-- There is a buffer to bind unless nothing is forked and there is no canonical buffer. -/
private theorem bindTarget_schedule {data : List UInt8} {branchBuf : Option Nat}
    {cells : List KvCell} :
    (cfg.scheduleWatch D p (.worker n)).Spec (WithFork data branchBuf h cells)
      (AnalyticalNode.bindTargetOf branchBuf)
      (fun target s => WithFork data branchBuf h cells s ∧
        (target = none ↔ data = [] ∧ cfg.staging = none)) X := by
  cases branchBuf with
  | some b =>
    refine .ret fun s hs => ⟨hs, iff_of_false (Option.some_ne_none b) fun hnil => ?_⟩
    cases hs.1.mp hnil.1
  | none =>
    refine .fix fun s₀ hs₀ => ?_
    obtain ⟨hiff, own, copied, hbare⟩ := hs₀
    refine .pre (I := (·.bare = atFork (some h) (some cells) own copied)) ?_ fun s hs => hs ▸ hbare
    refine .bind load_schedule fun r => .assume fun hr => .ret fun s hs => ?_
    refine ⟨⟨hiff, own, copied, hs⟩, ?_⟩
    rw [hr.staging, stagingBuffer, Option.map_eq_none_iff]
    exact ⟨fun hnone => ⟨hiff.mpr rfl, hnone⟩, fun hboth => hboth.2⟩

private theorem preparePrompt_schedule {node : AnalyticalNode} {ctx : OrchestratorContext}
    {fork : AnalyticalNode.Fork} {data : List UInt8} {branchBuf : Option Nat} {cells : List KvCell}
    (hE : ctx.engine = cfg.engine) (hctx : ctx.nCtx = kSwarmkvDefaultPipelineCtx) :
    (cfg.scheduleWatch D p (.worker n)).Spec (WithFork data branchBuf h cells)
      (node.preparePrompt ctx h branchBuf fork)
      (fun tokens s => WithFork data branchBuf h cells s ∧
        Calls.preparePrompt cfg node.branchPrompt fork.prefixLen data = .ok tokens)
      fun e s => OnGuard none s ∧
        Calls.preparePrompt cfg node.branchPrompt fork.prefixLen data = .error e := by
  unfold AnalyticalNode.preparePrompt Calls.preparePrompt
  rw [hE, hctx]
  generalize kSwarmkvDefaultPipelineCtx = nCtx
  refine .bind bindTarget_schedule fun target => .assume fun htarget => ?_
  by_cases hnone : data = [] ∧ cfg.staging = none
  · rw [htarget.mpr hnone]
    refine .bind (Q := fun _ _ => False) (.throw fun s hs => ?_) fun _ s hs => hs.elim
    exact ⟨hs.onGuard, if_pos hnone⟩
  simp only [if_neg hnone]
  obtain ⟨b, rfl⟩ := Option.ne_none_iff_exists'.mp fun heq => hnone (htarget.mp heq)
  refine .bind (Q := fun _ => WithFork data branchBuf h cells) (.ret fun _ hs => hs) fun _ => ?_
  -- the prompt is tokenized
  refine .bind (.err tokenizeWith_schedule fun e s hs => ?_) fun tokens => .assume fun htokens => ?_
  · obtain ⟨hforked, rfl, hfail⟩ := hs
    exact ⟨hforked.onGuard, by rw [hfail]⟩
  simp only [htokens, List.isEmpty_iff]
  refine .ite (fun hempty => ?_) fun hne => ?_
  · simp only [if_pos hempty]
    exact .bind freeWithFork_schedule fun _ => .throw fun s hs => ⟨hs, rfl⟩
  simp only [if_neg hne]
  -- and has to fit behind the fork
  refine .bind (Q := fun _ s => WithFork data branchBuf h cells s ∧
      Calls.validateContextBudget fork.prefixLen tokens nCtx = .ok ())
    (.catch' (validateContextBudget_schedule htokens) fun e => .assume fun hfail => ?_) fun _ => ?_
  · rw [hfail]
    exact .bind freeWithFork_schedule fun _ => .throw fun s hs => ⟨hs, rfl⟩
  · exact .ret fun s hs => ⟨hs.1, by rw [hs.2]⟩

/-- The branch publishes its output. -/
private theorem publishOutput_schedule {node : AnalyticalNode} {nTok : Nat}
    {fork : AnalyticalNode.Fork}
    (hresult : D.result cfg p n = (.ok (), some
      (s!"branch_ok n_tok={nTok} prefix={fork.prefixLen}" ++
        s!" watermark={node.requiredPrefixTokens}"))) :
    (cfg.scheduleWatch D p (.worker n)).Spec (fun s => OnGuard none s ∧ s.ctx = some h)
      (node.publishOutput n nTok fork) (fun _ s => OnGuard (some
        (s!"branch_ok n_tok={nTok} prefix={fork.prefixLen}" ++
          s!" watermark={node.requiredPrefixTokens}")) s ∧ s.ctx = some h) X := by
  refine .noThrow (scheduleRule_lenient.withLock rfl rfl (.bind alloc_schedule fun _ => ?_))
  refine .op fun s hs => ?_
  obtain ⟨⟨hheld, hlive, hsettled, -⟩, hctx⟩ := hs
  exact ⟨⟨trivial, rfl, hheld, hresult⟩, fun _ _ => ⟨⟨hheld, hlive, hsettled, rfl⟩, hctx⟩⟩

/-- The branch has decoded its prompt, or not, and frees its context. -/
private theorem freeDecoded_schedule {output : Option String} :
    (cfg.scheduleWatch D p (.worker n)).Spec (fun s => OnGuard output s ∧ s.ctx = some h)
      (perform (.llamaFree h)) (fun _ => OnGuard output) X := by
  refine .op fun s hs => ?_
  obtain ⟨⟨hheld, hlive, hsettled, houtput⟩, hctx⟩ := hs
  exact ⟨⟨hctx, trivial⟩, fun _ _ => ⟨hheld, hlive, hsettled, houtput⟩⟩

/-- The one batch of a branch. -/
private theorem decodeBatch_schedule {data : List UInt8} {branchBuf : Option Nat}
    {cells : List KvCell} {batch : LlamaBatch} :
    (cfg.scheduleWatch D p (.worker n)).Spec (WithFork data branchBuf h cells)
      (perform (.llamaDecode h batch))
      (fun ok s => (OnGuard none s ∧ s.ctx = some h) ∧ ok = D.decodes cells batch) X := by
  refine .op fun s hs => ?_
  obtain ⟨hheld, hlive, hsettled, houtput⟩ := hs.onGuard
  obtain ⟨-, own, copied, hbare⟩ := hs
  have hctx : s.ctx = some h := (congrArg View.ctx hbare :)
  have hcells : s.cells = some cells := (congrArg View.cells hbare :)
  refine ⟨⟨hctx, trivial⟩, fun ok hok => ⟨?_, hok.2 cells hcells⟩⟩
  cases ok <;> exact ⟨⟨hheld, hlive, hsettled, houtput⟩, hctx⟩

private theorem decodePrompt_schedule {node : AnalyticalNode} {ctx : OrchestratorContext}
    {fork : AnalyticalNode.Fork} {data : List UInt8} {branchBuf : Option Nat} {cells : List KvCell}
    {tokens : List LlamaToken} (hname : ctx.nodeName = n)
    (hresult : ∀ output, D.decodePrompt node fork.prefixLen cells tokens = .ok output →
      D.result cfg p n = (.ok (), some output)) :
    (cfg.scheduleWatch D p (.worker n)).Spec (WithFork data branchBuf h cells)
      (node.decodePrompt ctx h tokens fork)
      (fun _ s => ∃ output, OnGuard (some output) s ∧
        D.decodePrompt node fork.prefixLen cells tokens = .ok output)
      fun e s => OnGuard none s ∧ D.decodePrompt node fork.prefixLen cells tokens = .error e := by
  unfold AnalyticalNode.decodePrompt
  unfold Calls.decodePrompt at hresult ⊢
  rw [hname]
  refine .bind (scheduleRule_lenient.op' rfl) fun batch => ?_
  rw [Calls.decodeTokens_eq D batch, Calls.decodeBatch] at hresult ⊢
  refine .bind decodeBatch_schedule fun ok => .assume fun hok => ?_
  refine .ite (fun hyes => ?_) fun hno => ?_
  · rw [hyes] at hok
    simp only [← hok, if_true] at hresult ⊢
    refine .bind (publishOutput_schedule (hresult _ rfl)) fun _ => ?_
    refine .bind (scheduleRule_lenient.op' rfl) fun _ => ?_
    exact .post freeDecoded_schedule fun _ s hs => ⟨_, hs, rfl⟩
  · rw [Bool.eq_false_iff.mpr hno] at hok
    simp only [← hok, Bool.false_eq_true, if_false]
    refine .bind (scheduleRule_lenient.op' rfl) fun _ => ?_
    exact .bind freeDecoded_schedule fun _ => .throw fun s hs => ⟨hs, rfl⟩

/-- A branch has ended like the sequential one. -/
private def BranchEnded (cfg : Pipeline) (D : Calls) (p : String) (node : AnalyticalNode)
    (r : Outcome) (s : View) : Prop :=
  match r with
  | .ok () => ∃ output, OnGuard (some output) s ∧
      D.branch cfg (D.provided cfg p).filed node = .ok output
  | .error e => OnGuard none s ∧ D.branch cfg (D.provided cfg p).filed node = .error e

/-- A branch that has chosen its fork creates its context. -/
private theorem initBranch_schedule {data : List UInt8} {branchBuf : Option Nat} :
    (cfg.scheduleWatch D p (.worker n)).Spec (InBuffer data branchBuf none none)
      (perform .llamaInitFromModel)
      (fun r s => ∃ h, r = some h ∧ InBuffer data branchBuf (some h) (some []) s) X := by
  refine .fix fun s₀ hs₀ => ?_
  obtain ⟨hnil, hbuf, hbare⟩ | ⟨hne, b, size, hbuf, hbare⟩ := hs₀
  · refine .pre (.post (initContext_schedule (C := atFork none none none none) rfl) fun r s hs => ?_)
      fun s hs => hs ▸ hbare
    obtain ⟨h, rfl, hnext⟩ := hs
    exact ⟨h, rfl, .inl ⟨hnil, hbuf, hnext⟩⟩
  · refine .pre (.post (initContext_schedule
      (C := atFork none none (some (b, size)) (some data)) rfl) fun r s hs => ?_) fun s hs => hs ▸ hbare
    obtain ⟨h, rfl, hnext⟩ := hs
    exact ⟨h, rfl, .inr ⟨hne, b, size, hbuf, hnext⟩⟩

private theorem forkAndDecode_schedule {node : AnalyticalNode} {ctx : OrchestratorContext}
    (hn : n ≠ p) (hnode : cfg.orchestrator.node n = some (.analytical node))
    (hE : ctx.engine = cfg.engine) (hctx : ctx.nCtx = kSwarmkvDefaultPipelineCtx)
    (hpool : ctx.memoryPool = true) (hname : ctx.nodeName = n) :
    (cfg.scheduleWatch D p (.worker n)).Spec (·.bare = atFork none none none none)
      (node.forkAndDecode ctx) (fun _ => cfg.BranchEnded D p node (.ok ()))
      fun e => cfg.BranchEnded D p node (.error e) := by
  have hreq : node.requiredPrefixTokens = cfg.orchestrator.req n := by
    simp [Orchestrator.req, hnode, Node.requiredPrefixTokens]
  unfold AnalyticalNode.forkAndDecode
  rw [hpool, hname]
  refine .bind (scheduleRule_lenient.op' rfl) fun t₀ => ?_
  simp only [Bool.not_true, Bool.false_eq_true, if_false]
  -- each step is one of the sequential branch; the first that fails decides
  refine .bind (.err (chooseFork_schedule hn hreq) fun e s hs => ?_) fun fork =>
    .fix fun s₀ hs₀ => ?_
  · refine ⟨hs.1, ?_⟩
    simp only [Calls.branch, hreq, hs.2, bind, Except.bind]
  obtain ⟨hbare, data, hfork⟩ := hs₀
  have hchosen := hfork.chosen
  refine .pre (I := (·.bare = atFork none none none none)) ?_ fun s hs => hs ▸ hbare
  refine .bind (.err (materializeFork_schedule hn hreq hctx hfork) fun e s hs => ?_) fun branchBuf =>
    .assume fun hcopied => ?_
  · refine ⟨hs.1, ?_⟩
    simp only [Calls.branch, hreq, hchosen, hs.2, bind, Except.bind]
  refine .bind (scheduleRule_lenient.op' rfl) fun _ => ?_
  refine .bind initBranch_schedule fun r => .fix fun s₁ hs₁ => ?_
  obtain ⟨h, rfl, hin⟩ := hs₁
  refine .pre (I := InBuffer data branchBuf (some h) (some [])) ?_ fun s hs => hs ▸ hin
  refine .bind (.err (restoreFork_schedule hfork.kvBytes) fun e s hs => ?_) fun _ =>
    .fix fun s₂ hs₂ => ?_
  · refine ⟨hs.1, ?_⟩
    simp only [Calls.branch, hreq, hchosen, hcopied, hs.2, bind, Except.bind]
  obtain ⟨cells, hforked, hrestored⟩ := hs₂
  refine .pre (I := WithFork data branchBuf h cells) ?_ fun s hs => hs ▸ hforked
  refine .bind (.err (preparePrompt_schedule hE hctx) fun e s hs => ?_) fun tokens =>
    .assume fun htokens => ?_
  · refine ⟨hs.1, ?_⟩
    simp only [Calls.branch, hreq, hchosen, hcopied, hrestored, hs.2, bind, Except.bind]
  have hresult : ∀ output, D.decodePrompt node fork.prefixLen cells tokens = .ok output →
      D.result cfg p n = (.ok (), some output) := by
    intro output hdecoded
    simp only [Calls.result, Calls.branch, hnode, hreq, hchosen, hcopied, hrestored, htokens,
      hdecoded, bind, Except.bind]
  refine .bind (Q := fun _ => cfg.BranchEnded D p node (.ok ()))
    (.conseq (decodePrompt_schedule hname hresult) (fun _ hs => hs) (fun _ s hs => ?_)
      fun e s hs => ?_) fun _ => ?_
  · obtain ⟨output, hon, hdecoded⟩ := hs
    refine ⟨output, hon, ?_⟩
    simp only [Calls.branch, hreq, hchosen, hcopied, hrestored, htokens, hdecoded, bind, Except.bind]
  · refine ⟨hs.1, ?_⟩
    simp only [Calls.branch, hreq, hchosen, hcopied, hrestored, htokens, hs.2, bind, Except.bind]
  · -- the rest changes nothing of the result
    refine .ite (fun _ => ?_) fun _ => recordTiming_schedule _ _
    exact .bind (signalMilestoneConsumed_schedule _) fun _ => recordTiming_schedule _ _

/-- `execute()` of a branch. -/
theorem executeBranch_schedule {node : AnalyticalNode} {ctx : OrchestratorContext}
    (hn : n ≠ p) (hnode : cfg.orchestrator.node n = some (.analytical node))
    (hE : ctx.engine = cfg.engine) (hctx : ctx.nCtx = kSwarmkvDefaultPipelineCtx)
    (hpool : ctx.memoryPool = true) (hname : ctx.nodeName = n) :
    (cfg.scheduleWatch D p (.worker n)).Spec (· = {}) (node.execute ctx)
      (fun _ => cfg.NodeEnded D p n (.ok ())) fun e => cfg.NodeEnded D p n (.error e) := by
  have hmem : n ∈ cfg.orchestrator.names := Orchestrator.mem_names.mpr ⟨_, hnode⟩
  have hthread : Thread.worker n ≠ .worker p := fun heq => hn (Thread.worker.inj heq)
  have hunlock : ∀ {r s}, cfg.BranchEnded D p node r s →
      cfg.NodeEnded D p n r { s with held := false } := by
    intro r s hs
    cases r with
    | ok a =>
      obtain ⟨output, hon, hbranch⟩ := hs
      refine ⟨rfl, hon.live, hon.settled, ?_, fun heq => absurd heq hn⟩
      simp only [Calls.result, hnode, hbranch, hon.output]
    | error e =>
      obtain ⟨hon, hbranch⟩ := hs
      refine ⟨rfl, hon.live, hon.settled, ?_, fun heq => absurd heq hn⟩
      simp only [Calls.result, hnode, hbranch, hon.output]
  refine .withLock (I := (·.bare = atFork none none none none)) (fun s hs => ?_)
    (forkAndDecode_schedule hn hnode hE hctx hpool hname) (fun _ s hs => ?_) fun e s hs => ?_
  · subst hs
    exact ⟨⟨⟨rfl, n, hmem, rfl⟩, trivial⟩, fun _ => rfl⟩
  · exact ⟨⟨trivial, fun heq => absurd heq hthread⟩, fun _ => hunlock hs⟩
  · exact ⟨⟨trivial, fun heq => absurd heq hthread⟩, fun _ => hunlock hs⟩

end Pipeline

end SwarmKV
