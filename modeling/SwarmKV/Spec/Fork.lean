import SwarmKV.Spec.Prefill

/-!
# A branch forks the prefix

From the choice of the fork's source to the restored context, all of it under the
guard. `Chosen` says what the bytes of a fork stand for while they are still in the
snapshot or in the canonical buffer, `Materialized` when they are in the branch's
own buffer, and `Restored` when they are in its context.
-/

namespace SwarmKV.Pipeline

open Monitor.Outline AnalyticalNode

variable {cfg : Pipeline} {n : String} {w w' : World} {h : Nat} {fork : Fork}
  {bytes : List UInt8} {branchBuf : Option Nat}

/-- The mutexes of a branch inside `execute`. -/
abbrev guard : Finset Lock := {.llamaApiMutex}

/-- The snapshot at `t` that node `n` asks for can only be missing if the prefiller
    does not stop at `t`. -/
def Missing (cfg : Pipeline) (n : String) (t : Int) (w : World) : Prop :=
  ∀ p, cfg.orchestrator.Sole p → p ∈ cfg.orchestrator.getDependenciesForNode n →
    ¬ w.OutOfMemory p → ¬ CommitValue (cfg.doc p).length t

theorem Closed.missing {H : Finset Lock} {t : Int} :
    cfg.Closed (.worker n) H (cfg.Missing n t) :=
  fun _ _ hw hq p hp hdep hmem => hw p hp hdep fun hm => hmem ((hq.grows _).subset hm)

/-- A started branch finds its snapshot if the prefiller stops there. -/
theorem Inv.missing (hI : cfg.Inv w) (hM : cfg.MutexInv w) (hr : cfg.Running n w)
    (hreq : 0 ≤ cfg.orchestrator.req n)
    (hnone : w.state.prefixSnapshots (cfg.orchestrator.req n) = none) :
    cfg.Missing n (cfg.orchestrator.req n) w := by
  intro p hp hdep hmem hvalue
  have hle := (hI.started n hr.started).watermark p hp hdep hreq
  have hm : cfg.IsMilestone (cfg.orchestrator.req n) :=
    .inr (Orchestrator.hasConsumers_req hr.live.1 hvalue.1)
  have hsome := hM p hp hmem _ hvalue hle hm
  rw [hnone] at hsome
  cases hsome

/-! ## The choice -/

/-- A chosen fork: `bytes` are what it points to, and what they stand for. -/
structure Chosen (cfg : Pipeline) (n : String) (fork : Fork) (bytes : List UInt8) (w : World) :
    Prop where
  body : cfg.InBody n guard w
  ok : cfg.Good w → cfg.ForkOk w fork.prefixLen bytes
  length : cfg.Good w → bytes.length = fork.kvBytes
  milestone : 0 ≤ cfg.orchestrator.req n → fork.prefixLen = cfg.orchestrator.req n
  canonical : cfg.orchestrator.req n < 0 → fork.prefixLen = w.state.prefixSeqLen
  data : ∀ p, fork.data = some p → w.bytesAt p fork.kvBytes = bytes ∧
    ∀ b, p = .buffer b → (w.buffers b).isSome
  staged : cfg.orchestrator.req n < 0 → ∀ b, cfg.stagingBuffer = some b →
    w.bytesAt (.buffer b) fork.kvBytes = bytes

/-- Under the guard, what a pointer points to stays. -/
theorem Quiet.bytesAt (hq : cfg.Quiet (.worker n) guard w w') (hl : cfg.Live n w) {p : DataPtr}
    (hp : ∀ b, p = .buffer b → (w.buffers b).isSome) (k : Nat) :
    w'.bytesAt p k = w.bytesAt p k := by
  cases p with
  | snapshot t =>
    simp only [World.bytesAt, hq.prefixSnapshots (by simp) n rfl hl]
  | buffer b =>
    have hlive : ∀ b', some b = some b' → (w.buffers b').isSome := by
      intro b' hb'
      rw [← Option.some.inj hb']
      exact hp b rfl
    exact hq.branchBytes (by simp) hl hlive k

theorem Closed.chosen : cfg.Closed (.worker n) guard (cfg.Chosen n fork bytes) := by
  intro w w' hw hq
  have hl := hw.body.running.live
  exact {
    body := Closed.inBody w w' hw.body hq
    ok := fun hgood => (hw.ok (hgood.grows hq.grows)).grows hq.grows
    length := fun hgood => hw.length (hgood.grows hq.grows)
    milestone := hw.milestone
    canonical := fun hreq =>
      (hw.canonical hreq).trans (hq.prefixSeqLen (by simp) n rfl hl).symm
    data := fun p hp => by
      obtain ⟨hbytes, hlive⟩ := hw.data p hp
      refine ⟨(hq.bytesAt hl hlive _).trans hbytes, fun b hb => ?_⟩
      obtain ⟨buf, hbuf⟩ := Option.isSome_iff_exists.mp (hlive b hb)
      rw [hq.buffers (by simp) n rfl hl b buf hbuf]
      rfl
    staged := fun hreq b hb => by
      have hlive : ∀ b', DataPtr.buffer b = .buffer b' → (w.buffers b').isSome := by
        intro b' hb'
        cases hb'
        exact hw.body.stagingLive (by simp) b hb
      exact (hq.bytesAt hl hlive _).trans (hw.staged hreq b hb) }

/-- A filed snapshot is a fork at its milestone. -/
theorem SnapshotOk.chosen {snap : PrefixKvSnapshot}
    (hok : cfg.SnapshotOk w (cfg.orchestrator.req n) snap) (hb : cfg.InBody n guard w)
    (hs : w.state.prefixSnapshots (cfg.orchestrator.req n) = some snap)
    {a : Option DataPtr × Nat × Int} (ha : a = snapshotAnswer (cfg.orchestrator.req n) snap) :
    cfg.Chosen n ⟨a.2.2, a.2.1, a.1⟩ snap.data w := by
  subst ha
  obtain ⟨s, hexp, hprefix⟩ := hok.exported
  have hpos := hok.milestone.pos
  refine ⟨hb, fun hgood => .inr ⟨(cfg.orchestrator.req n).toNat, s, by omega, ?_, hprefix hgood,
    hexp⟩, fun _ => rfl, fun _ => hok.seqLen, fun h => ?_, fun p hp => ?_, fun h => ?_⟩
  · show snap.seqLen = _
    rw [hok.seqLen]
    omega
  · omega
  · have hp : (if snap.data.isEmpty then none else some (.snapshot (cfg.orchestrator.req n))) =
        some p := hp
    split at hp
    · cases hp
    · obtain rfl := Option.some.inj hp
      refine ⟨?_, fun b hb => by cases hb⟩
      show w.bytesAt _ snap.data.length = snap.data
      simp [World.bytesAt, hs]
  · omega

/-- The canonical export as a fork, with or without a pointer to its bytes. -/
theorem InBody.chosen (hb : cfg.InBody n guard w) (hreq : cfg.orchestrator.req n < 0)
    {data : Option DataPtr} (hdata : ∀ p, data = some p →
      ∃ b, cfg.stagingBuffer = some b ∧ p = .buffer b) :
    cfg.Chosen n ⟨w.state.prefixSeqLen, w.state.prefixKvSerialBytes, data⟩
      (w.branchBytes cfg.stagingBuffer w.state.prefixKvSerialBytes) w := by
  have hlive := hb.stagingLive (by simp)
  refine ⟨hb, fun hgood => (hb.triple (by simp) hgood).1, fun hgood => (hb.triple (by simp) hgood).2,
    fun h => ?_, fun _ => rfl, fun p hp => ?_, fun _ b hb => ?_⟩
  · omega
  · obtain ⟨b, hstaging, rfl⟩ := hdata p hp
    rw [hstaging]
    refine ⟨rfl, fun b' hb' => ?_⟩
    cases hb'
    exact hlive b hstaging
  · rw [hb]
    rfl

/-- The branch has read the canonical fields, under the guard. -/
private theorem Closed.read {s : PipelineState} : cfg.Closed (.worker n) guard fun w =>
    cfg.InBody n guard w ∧ s.prefixSeqLen = w.state.prefixSeqLen ∧
      s.prefixKvSerialBytes = w.state.prefixKvSerialBytes := by
  intro w w' hw hq
  have hl := hw.1.running.live
  refine ⟨Closed.inBody w w' hw.1 hq, ?_, ?_⟩
  · rw [hq.prefixSeqLen (by simp) n rfl hl]
    exact hw.2.1
  · rw [hq.prefixKvSerialBytes (by simp) n rfl hl]
    exact hw.2.2

/-- The snapshot source. -/
theorem chooseFork_triple {node : AnalyticalNode}
    (hreq : cfg.orchestrator.req n = node.requiredPrefixTokens) :
    cfg.outline.Triple (.worker n) guard (cfg.InBody n guard) node.chooseFork
      (fun fork w => ∃ bytes, cfg.Chosen n fork bytes w) (cfg.Failing n guard) := by
  have hrun : ∀ w, cfg.InBody n guard w → cfg.Running n w := fun w hw => hw.running
  unfold chooseFork
  rw [← hreq]
  refine Triple.ite (fun hge => ?_) (fun hlt => ?_)
  · -- a watermark branch: the milestone snapshot
    refine Triple.bind (tryGetPrefixSnapshot_triple (N := cfg.Missing n (cfg.orchestrator.req n))
      Closed.inBody hrun (fun w hI hw hM hnone => hI.missing hM hw.running hge hnone)
      Closed.missing) fun r => ?_
    cases r with
    | none =>
      refine Triple.throw fun w _ hw => ⟨hw.1, fun t ht => ?_⟩
      cases ht
      exact hw.2
    | some a =>
      refine Triple.ret fun w hI hw => ?_
      obtain ⟨hb, snap, hs, ha⟩ := hw
      exact ⟨snap.data, (hI.snapshots _ snap hs).chosen hb hs ha⟩
  · -- a full-prefill branch: the latest canonical export
    have hneg : cfg.orchestrator.req n < 0 := by omega
    refine Triple.bind (load_triple (R := fun s w => s.prefixSeqLen = w.state.prefixSeqLen ∧
      s.prefixKvSerialBytes = w.state.prefixKvSerialBytes) Closed.inBody hrun
      fun w _ _ => ⟨rfl, rfl⟩) fun s₁ => ?_
    -- length and size belong to one export
    refine Triple.bind (Q := fun (s₂ : PipelineState) (w : World) => cfg.InBody n guard w ∧
        s₁.prefixSeqLen = w.state.prefixSeqLen ∧
        s₂.prefixKvSerialBytes = w.state.prefixKvSerialBytes) ?_ fun s₂ => ?_
    · exact (load_triple (R := fun s w => s.prefixKvSerialBytes = w.state.prefixKvSerialBytes)
        Closed.read (fun w hw => hrun w hw.1) fun w _ _ => rfl).conseq
        (fun _ _ h => h) (fun _ w _ hw => ⟨hw.1.1, hw.1.2.1, hw.2⟩) fun _ _ _ h => h
    · -- no commit comes between the two, as the branch has the guard
      have hread : cfg.Closed (.worker n) guard fun w => cfg.InBody n guard w ∧
          s₁.prefixSeqLen = w.state.prefixSeqLen ∧
          s₂.prefixKvSerialBytes = w.state.prefixKvSerialBytes := by
        intro w w' hw hq
        have hl := hw.1.running.live
        refine ⟨Closed.inBody w w' hw.1 hq, ?_, ?_⟩
        · rw [hq.prefixSeqLen (by simp) n rfl hl, hw.2.1]
        · rw [hq.prefixKvSerialBytes (by simp) n rfl hl, hw.2.2]
      refine Triple.ite (fun _ => ?_) (fun _ => ?_)
      · refine Triple.bind (load_triple (R := fun s _ =>
          s.materializedBranchBuffer = cfg.stagingBuffer) hread (fun w hw => hrun w hw.1)
          fun w hI _ => hI.staging) fun s₃ => Triple.assume fun hs₃ => ?_
        rw [hs₃]
        cases hb : cfg.stagingBuffer with
        | none => exact Triple.throw fun w _ hw => hw.1.failing (by simp)
        | some b =>
          refine Triple.ret fun w _ hw =>
            ⟨w.branchBytes cfg.stagingBuffer w.state.prefixKvSerialBytes, ?_⟩
          rw [hw.2.1, hw.2.2]
          exact hw.1.chosen hneg fun p hp => ⟨b, hb, (Option.some.inj hp).symm⟩
      · refine Triple.ret fun w _ hw =>
          ⟨w.branchBytes cfg.stagingBuffer w.state.prefixKvSerialBytes, ?_⟩
        rw [hw.2.1, hw.2.2]
        exact hw.1.chosen hneg fun p hp => by cases hp

/-! ## The branch buffer -/

/-- A fork in the branch's own buffer. -/
structure Materialized (cfg : Pipeline) (n : String) (fork : Fork) (branchBuf : Option Nat)
    (w : World) : Prop where
  body : cfg.InBody n guard w
  ok : cfg.Good w → cfg.ForkOk w fork.prefixLen (w.branchBytes branchBuf fork.kvBytes)
  milestone : 0 ≤ cfg.orchestrator.req n → fork.prefixLen = cfg.orchestrator.req n
  canonical : cfg.orchestrator.req n < 0 → fork.prefixLen = w.state.prefixSeqLen
  live : ∀ b, branchBuf = some b → (w.buffers b).isSome ∧ 0 < fork.kvBytes

theorem Closed.materialized : cfg.Closed (.worker n) guard (cfg.Materialized n fork branchBuf) := by
  intro w w' hw hq
  have hl := hw.body.running.live
  exact {
    body := Closed.inBody w w' hw.body hq
    ok := fun hgood => by
      rw [hq.branchBytes (by simp) hl fun b hb => (hw.live b hb).1]
      exact (hw.ok (hgood.grows hq.grows)).grows hq.grows
    milestone := hw.milestone
    canonical := fun hreq => (hw.canonical hreq).trans (hq.prefixSeqLen (by simp) n rfl hl).symm
    live := fun b hb => by
      obtain ⟨buf, hbuf⟩ := Option.isSome_iff_exists.mp (hw.live b hb).1
      refine ⟨?_, (hw.live b hb).2⟩
      rw [hq.buffers (by simp) n rfl hl b buf hbuf]
      rfl }

/-- Writing into another buffer leaves the canonical triple alone. -/
theorem InBody.overwrite {H : Finset Lock} (hw : cfg.InBody n H w) {b : Nat}
    (hb : cfg.stagingBuffer ≠ some b) (bytes : List UInt8) :
    cfg.InBody n H (w.overwrite b bytes) := by
  have hother : ∀ b', cfg.stagingBuffer = some b' →
      (w.overwrite b bytes).buffers b' = w.buffers b' := by
    intro b' hb'
    have hne : b' ≠ b := by
      intro heq
      exact hb (heq ▸ hb')
    exact Function.update_of_ne hne _ _
  refine ⟨hw.running.congr rfl rfl rfl, fun hH b' hb' => ?_, fun hH hgood => ?_⟩
  · rw [hother b' hb']
    exact hw.stagingLive hH b' hb'
  · have htriple := hw.triple hH (hgood.grows fun _ => List.prefix_rfl)
    have hbytes : ∀ k, (w.overwrite b bytes).branchBytes cfg.stagingBuffer k =
        w.branchBytes cfg.stagingBuffer k := by
      intro k
      cases hs : cfg.stagingBuffer with
      | none => rfl
      | some b' => simp only [World.branchBytes, Option.elim, World.bytesAt, hother b' hs]
    unfold TripleOk
    rw [hbytes]
    exact htriple

/-- A new branch buffer beside a chosen fork. -/
private structure ForkAllocated (cfg : Pipeline) (n : String) (fork : Fork) (bytes : List UInt8)
    (b : Nat) (w : World) : Prop where
  chosen : cfg.Chosen n fork bytes w
  live : (w.buffers b).isSome
  other : cfg.stagingBuffer ≠ some b

private theorem Closed.allocated {b : Nat} :
    cfg.Closed (.worker n) guard (cfg.ForkAllocated n fork bytes b) := by
  intro w w' hw hq
  obtain ⟨buf, hbuf⟩ := Option.isSome_iff_exists.mp hw.live
  refine ⟨Closed.chosen w w' hw.chosen hq, ?_, hw.other⟩
  rw [hq.buffers (by simp) n rfl hw.chosen.body.running.live b buf hbuf]
  rfl

/-- The bytes of the fork are copied into the new buffer. -/
private theorem ForkAllocated.write {b : Nat} (hw : cfg.ForkAllocated n fork bytes b w)
    (hpos : 0 < fork.kvBytes) : cfg.Materialized n fork (some b) (w.overwrite b bytes) where
  body := hw.chosen.body.overwrite hw.other bytes
  ok hgood := by
    have hgood' : cfg.Good w := hgood.grows fun _ => List.prefix_rfl
    obtain ⟨buf, hbuf⟩ := Option.isSome_iff_exists.mp hw.live
    have hbytes : (w.overwrite b bytes).branchBytes (some b) fork.kvBytes = bytes := by
      rw [← hw.chosen.length hgood']
      simp [World.branchBytes, World.bytesAt, World.overwrite, hbuf]
    rw [hbytes]
    exact (hw.chosen.ok hgood').grows fun _ => List.prefix_rfl
  milestone := hw.chosen.milestone
  canonical := hw.chosen.canonical
  live b' hb' := by
    obtain rfl := Option.some.inj hb'
    have := hw.live
    refine ⟨?_, hpos⟩
    simpa [World.overwrite] using this

/-- `std::memcpy` from `data` into the branch buffer. -/
private theorem copy_triple {b : Nat} {data : DataPtr} (hpos : 0 < fork.kvBytes)
    (hdata : ∀ w, cfg.Chosen n fork bytes w → w.bytesAt data fork.kvBytes = bytes) :
    cfg.outline.Triple (.worker n) guard (cfg.ForkAllocated n fork bytes b)
      (do
        let bytes ← perform (.readBytes data fork.kvBytes)
        perform (.writeBytes b bytes))
      (fun _ => cfg.Materialized n fork (some b)) (cfg.Failing n guard) := by
  refine Triple.bind (quiet_op (R := fun r _ => r = bytes) rfl Closed.allocated
    (fun w hw => hw.chosen.body.running) (fun _ _ _ => trivial) ?_) fun r =>
    Triple.assume fun hr => ?_
  · intro x r w w' _ hw hx
    simp only [exec, Option.some.injEq, Prod.mk.injEq] at hx
    rw [← hx.1]
    exact hdata w hw.chosen
  · subst hr
    refine Triple.op Closed.allocated.stable fun w _ hw =>
      ⟨⟨hw.chosen.body.running.live, by simp, ⟨n, rfl⟩, hw.other⟩, fun x r w' hx _ => ⟨rfl, ?_⟩⟩
    simp only [exec, Option.some.injEq, Prod.mk.injEq] at hx
    obtain ⟨-, rfl⟩ := hx
    exact hw.write hpos

/-- `materialize_branch_cache` from the canonical buffer. -/
private theorem materializeBranchCache_triple {b : Nat} (hpos : 0 < fork.kvBytes)
    (hreq : cfg.orchestrator.req n < 0) :
    cfg.outline.Triple (.worker n) guard (cfg.ForkAllocated n fork bytes b)
      (KVHandoff.materializeBranchCache cfg.stagingBuffer (some b) fork.kvBytes)
      (fun _ => cfg.Materialized n fork (some b)) (cfg.Failing n guard) := by
  have hrun : ∀ w, cfg.ForkAllocated n fork bytes b w → cfg.Running n w :=
    fun w hw => hw.chosen.body.running
  cases hs : cfg.stagingBuffer with
  | none => exact Triple.throw fun w _ hw => hw.chosen.body.failing (by simp)
  | some source =>
    unfold KVHandoff.materializeBranchCache
    refine Triple.bind (quiet_op' rfl Closed.allocated hrun fun _ _ _ => trivial) fun srcCap => ?_
    refine Triple.bind (quiet_op' rfl Closed.allocated hrun fun _ _ _ => trivial) fun dstCap => ?_
    have hne : fork.kvBytes ≠ 0 := by omega
    dsimp only
    rw [if_neg hne]
    refine Triple.ite (fun _ => Triple.throw fun w _ hw => hw.chosen.body.failing (by simp))
      fun _ => ?_
    exact copy_triple hpos fun w hw => hw.staged hreq source hs

/-- The fork is copied into a buffer of its own, if it has any bytes. -/
theorem materializeFork_triple {node : AnalyticalNode} {ctx : OrchestratorContext}
    (hreq : cfg.orchestrator.req n = node.requiredPrefixTokens) :
    cfg.outline.Triple (.worker n) guard (cfg.Chosen n fork bytes)
      (node.materializeFork ctx fork) (fun branchBuf => cfg.Materialized n fork branchBuf)
      (cfg.Failing n guard) := by
  unfold materializeFork
  rw [← hreq]
  refine Triple.ite (fun hpos => ?_) (fun hzero => ?_)
  · cases hdata : fork.data with
    | none => exact Triple.throw fun w _ hw => hw.body.failing (by simp)
    | some data =>
      refine Triple.bind (allocateBranchCache_triple Closed.chosen fun w hw => hw.body) fun b => ?_
      have hrun : ∀ w, cfg.ForkAllocated n fork bytes b w → cfg.Running n w :=
        fun w hw => hw.chosen.body.running
      refine Triple.bind (Q := fun (s : PipelineState) w => cfg.ForkAllocated n fork bytes b w ∧
        s.materializedBranchBuffer = cfg.stagingBuffer) ?_ fun s => Triple.assume fun hs => ?_
      · exact (load_triple (R := fun s _ => s.materializedBranchBuffer = cfg.stagingBuffer)
          Closed.allocated hrun fun w hI _ => hI.staging).conseq
          (fun w _ hw => ⟨hw.1, hw.2.1, hw.2.2⟩) (fun _ _ _ h => h) fun _ _ _ h => h
      rw [hs]
      refine Triple.ite (fun hcanonical => ?_) (fun _ => ?_)
      · refine Triple.bind (materializeBranchCache_triple hpos hcanonical.2) fun _ => ?_
        exact Triple.ret fun w _ hw => hw
      · refine Triple.bind (quiet_op' rfl Closed.allocated hrun fun _ _ _ => trivial) fun size => ?_
        refine Triple.ite (fun _ => Triple.throw fun w _ hw => hw.chosen.body.failing (by simp))
          fun _ => ?_
        have hcopy : cfg.outline.Triple (.worker n) guard (cfg.ForkAllocated n fork bytes b)
            (do
              let bytes ← perform (.readBytes data fork.kvBytes)
              perform (.writeBytes b bytes))
            (fun _ => cfg.Materialized n fork (some b)) (cfg.Failing n guard) :=
          copy_triple hpos fun w hw => (hw.data data hdata).1
        have hseq := Triple.bind (R := fun r w => cfg.Materialized n fork r w) hcopy
          fun _ => Triple.ret (a := some b) fun w _ hw => hw
        exact hseq
  · refine Triple.ret fun w _ hw => ⟨hw.body, fun hgood => ?_, hw.milestone, hw.canonical,
      fun b hb => by cases hb⟩
    -- an empty fork: what was chosen is empty, too
    have hlen := hw.length hgood
    obtain rfl : bytes = [] := List.length_eq_zero_iff.mp (by omega)
    exact hw.ok hgood

/-- A fork in the branch's own buffer that is on record. -/
structure Noted (cfg : Pipeline) (n : String) (fork : Fork) (branchBuf : Option Nat) (w : World) :
    Prop where
  materialized : cfg.Materialized n fork branchBuf w
  forked : .forked fork.prefixLen (w.branchBytes branchBuf fork.kvBytes) ∈ w.log (.worker n)

theorem Closed.noted : cfg.Closed (.worker n) guard (cfg.Noted n fork branchBuf) := by
  intro w w' hw hq
  have hm := hw.materialized
  have hbytes := hq.branchBytes (by simp) hm.body.running.live (fun b hb => (hm.live b hb).1)
    fork.kvBytes
  refine ⟨Closed.materialized w w' hm hq, ?_⟩
  rw [hbytes]
  exact (hq.grows _).subset hw.forked

/-- The fork goes on record. -/
theorem noteFork_triple :
    cfg.outline.Triple (.worker n) guard (cfg.Materialized n fork branchBuf)
      (perform (.noteFork fork.prefixLen branchBuf fork.kvBytes))
      (fun _ => cfg.Noted n fork branchBuf) (cfg.Failing n guard) := by
  have hrecord : ∀ (x : Choice) (r : Unit) (w w' : World), cfg.Inv w →
      cfg.Materialized n fork branchBuf w →
      exec cfg.engine (.worker n) (.noteFork fork.prefixLen branchBuf fork.kvBytes) x w =
        some (r, w') →
      .forked fork.prefixLen (w'.branchBytes branchBuf fork.kvBytes) ∈ w'.log (.worker n) := by
    intro x r w w' _ _ hx
    simp only [exec, Option.some.injEq, Prod.mk.injEq] at hx
    obtain ⟨-, rfl⟩ := hx
    show _ ∈ Function.update w.log _ _ _
    rw [Function.update_self]
    exact List.mem_append_right _ List.mem_cons_self
  have hop : cfg.outline.Triple (.worker n) guard (cfg.Materialized n fork branchBuf)
      (perform (.noteFork fork.prefixLen branchBuf fork.kvBytes))
      (fun _ w => cfg.Materialized n fork branchBuf w ∧
        .forked fork.prefixLen (w.branchBytes branchBuf fork.kvBytes) ∈ w.log (.worker n))
      (cfg.Failing n guard) :=
    quiet_op rfl Closed.materialized (fun w hw => hw.body.running) (fun w _ hw => hw.ok) hrecord
  exact hop.conseq (fun _ _ h => h) (fun _ w _ hw => ⟨hw.1, hw.2⟩) fun _ _ _ h => h

/-! ## The branch context -/

/-- A branch that has a context of its own. -/
structure InContext (cfg : Pipeline) (n : String) (h : Nat) (w : World) : Prop where
  body : cfg.InBody n guard w
  ctx : ∃ cells, w.contexts h = some ⟨.worker n, cells⟩

theorem Closed.inContext : cfg.Closed (.worker n) guard (cfg.InContext n h) := by
  intro w w' hw hq
  obtain ⟨cells, hctx⟩ := hw.ctx
  exact ⟨Closed.inBody w w' hw.body hq, cells, hq.contexts h _ hctx rfl⟩

/-- A branch that gives up frees its context. -/
theorem freeThrow_triple {α : Type} {Q : α → World → Prop} {e : Error}
    (he : ∀ t, e ≠ .missingPrefixSnapshot t) :
    cfg.outline.Triple (.worker n) guard (cfg.InContext n h)
      (do
        perform (.llamaFree h)
        throw e) Q (cfg.Failing n guard) := by
  refine Triple.bind (llamaFree_triple (B := cfg.InBody n guard) Closed.inContext
    (fun w hw => hw.body.running) (fun w hw => hw.ctx) fun w hw => hw.body.setContexts _)
    fun _ => ?_
  exact Triple.throw fun w _ hw => hw.failing he

/-- A branch context that holds the fork. -/
structure Restored (cfg : Pipeline) (n : String) (h : Nat) (len : Int) (w : World) : Prop where
  body : cfg.InBody n guard w
  ctx : ∃ cells, w.contexts h = some ⟨.worker n, cells⟩ ∧ (cfg.Good w → 0 ≤ len ∧
    ∃ s, cfg.IsPrefix len.toNat s ∧ cells = toCells s)
  milestone : 0 ≤ cfg.orchestrator.req n → len = cfg.orchestrator.req n
  canonical : cfg.orchestrator.req n < 0 → len = w.state.prefixSeqLen
  restored : cfg.Good w → 0 < len → ∃ s bytes, .forked len bytes ∈ w.log (.worker n) ∧
    .restored bytes ∈ w.log (.worker n) ∧ w.Exported s bytes ∧ cfg.IsPrefix len.toNat s

theorem Restored.inContext {len : Int} (hw : cfg.Restored n h len w) : cfg.InContext n h w := by
  obtain ⟨cells, hctx, -⟩ := hw.ctx
  exact ⟨hw.body, cells, hctx⟩

theorem Closed.restored {len : Int} : cfg.Closed (.worker n) guard (cfg.Restored n h len) := by
  intro w w' hw hq
  have hl := hw.body.running.live
  obtain ⟨cells, hctx, hcells⟩ := hw.ctx
  exact {
    body := Closed.inBody w w' hw.body hq
    ctx := ⟨cells, hq.contexts h _ hctx rfl, fun hgood => hcells (hgood.grows hq.grows)⟩
    milestone := hw.milestone
    canonical := fun hreq => (hw.canonical hreq).trans (hq.prefixSeqLen (by simp) n rfl hl).symm
    restored := fun hgood hpos => by
      obtain ⟨s, bytes, hfork, hlog, hexp, hprefix⟩ := hw.restored (hgood.grows hq.grows) hpos
      exact ⟨s, bytes, (hq.grows _).subset hfork, (hq.grows _).subset hlog,
        hexp.grows hq.grows, hprefix⟩ }

/-- A fork that was not copied is empty. -/
private theorem Materialized.empty (hw : cfg.Materialized n fork none w)
    (hctx : w.contexts h = some { owner := .worker n }) :
    cfg.Restored n h fork.prefixLen w := by
  have hzero : cfg.Good w → fork.prefixLen = 0 := by
    intro hgood
    obtain ⟨hlen, -⟩ | ⟨k, s, -, -, -, hexp⟩ := hw.ok hgood
    · exact hlen
    · exact absurd rfl (hgood.nonempty s _ hexp)
  refine ⟨hw.body, ⟨[], hctx, fun hgood => ?_⟩, hw.milestone, hw.canonical, fun hgood hpos => ?_⟩
  · rw [hzero hgood]
    exact ⟨le_rfl, [], ⟨covers_zero, fun _ _ => (docSeq_zero _).symm⟩, rfl⟩
  · rw [hzero hgood] at hpos
    exact absurd hpos (Int.lt_irrefl 0)

/-- A fork that was copied is restored as what it stands for. -/
private theorem Noted.restore {b : Nat} (hI : cfg.Inv w)
    (hnoted : cfg.Noted n fork (some b) w) (hctx : w.contexts h = some { owner := .worker n })
    {s : SeqState} (hs : cfg.engine.restore (w.bytesAt (.buffer b) fork.kvBytes) = some s)
    (hlen : (w.bytesAt (.buffer b) fork.kvBytes).length = fork.kvBytes) :
    cfg.Restored n h fork.prefixLen
      ((w.setCells h (restoreSeq kSwarmkvPrefixSeqId s [])).record (.worker n)
        (.restored (w.bytesAt (.buffer b) fork.kvBytes))) := by
  have hw := hnoted.materialized
  generalize hw' : (w.setCells h (restoreSeq kSwarmkvPrefixSeqId s [])).record (.worker n)
    (.restored (w.bytesAt (.buffer b) fork.kvBytes)) = w'
  have hg : ∀ j, w.log j <+: w'.log j := by
    rw [← hw']
    exact (w.setCells h (restoreSeq kSwarmkvPrefixSeqId s [])).log_grows_record (.worker n) _
  have hlog : .restored (w.bytesAt (.buffer b) fork.kvBytes) ∈ w'.log (.worker n) := by
    rw [← hw']
    simp [World.record]
  -- under `Good` the fork is an export, and what was restored is what was exported
  have hfork : cfg.Good w' → ∃ k : Nat, fork.prefixLen = k ∧ cfg.IsPrefix k s ∧
      w.Exported s (w.bytesAt (.buffer b) fork.kvBytes) := by
    intro hgood
    have hgood' := hgood.grows hg
    obtain ⟨-, hnil⟩ | ⟨k, s', -, hk, hprefix, hexp⟩ := hw.ok hgood'
    · have hpos := (hw.live b rfl).2
      have hnil : w.bytesAt (.buffer b) fork.kvBytes = [] := hnil
      rw [hnil] at hlen
      rw [← hlen] at hpos
      exact absurd hpos (Nat.lt_irrefl 0)
    · obtain rfl := Option.some.inj (hs.symm.trans (hI.restore_exported hgood' hexp))
      exact ⟨k, hk, hprefix, hexp⟩
  refine ⟨?_, ⟨toCells s, ?_, fun hgood => ?_⟩, hw.milestone, fun hreq => ?_, fun hgood _ => ?_⟩
  · rw [← hw']
    exact (hw.body.setContexts _).record (by simp)
  · rw [← hw']
    simp [World.record, World.setCells, hctx, restoreSeq_nil]
  · obtain ⟨k, hk, hprefix, -⟩ := hfork hgood
    rw [hk]
    exact ⟨Int.natCast_nonneg k, s, hprefix, rfl⟩
  · rw [← hw']
    exact hw.canonical hreq
  · obtain ⟨k, hk, hprefix, hexp⟩ := hfork hgood
    have hforked := (hg _).subset hnoted.forked
    rw [hk] at hforked ⊢
    exact ⟨s, _, hforked, hlog, hexp.grows hg, hprefix⟩

/-- The fork is restored into a fresh context, if it has any bytes. -/
theorem restoreFork_triple :
    cfg.outline.Triple (.worker n) guard
      (fun w => cfg.Noted n fork branchBuf w ∧ w.contexts h = some { owner := .worker n })
      (restoreFork h fork branchBuf) (fun _ => cfg.Restored n h fork.prefixLen)
      (cfg.Failing n guard) := by
  cases branchBuf with
  | none => exact Triple.ret fun w _ hw => hw.1.materialized.empty hw.2
  | some b =>
    have hclosed : cfg.Closed (.worker n) guard fun w =>
        cfg.Noted n fork (some b) w ∧ w.contexts h = some { owner := .worker n } :=
      Closed.noted.and fun w w' hw hq => hq.contexts h _ hw rfl
    unfold restoreFork
    refine Triple.bind (Q := fun (k : Nat) w => cfg.InContext n h w ∧
        (k = fork.kvBytes → cfg.Restored n h fork.prefixLen w)) ?_ fun k => ?_
    · refine Triple.op hclosed.stable fun w hI hw => ?_
      obtain ⟨hnoted, hctx⟩ := hw
      have hmat := hnoted.materialized
      refine ⟨⟨hmat.body.running.live, fun ctx hctx' => ?_⟩, fun x k w' hx _ => ⟨rfl, ?_⟩⟩
      · rw [← Option.some.inj (hctx.symm.trans hctx')]
      · obtain ⟨rfl, rfl⟩ | ⟨ctx, s, hctx', hs, rfl, rfl⟩ := exec_llamaStateSeqSetData hx
        · -- the call failed: the sizes differ
          refine ⟨⟨hmat.body, [], hctx⟩, fun hlen => ?_⟩
          have hpos := (hmat.live b rfl).2
          omega
        · obtain rfl := Option.some.inj (hctx.symm.trans hctx')
          refine ⟨⟨(hmat.body.setContexts _).record (by simp),
            restoreSeq kSwarmkvPrefixSeqId s [], ?_⟩, fun hlen => hnoted.restore hI hctx hs hlen⟩
          simp [World.record, World.setCells, hctx]
    · refine Triple.ite (fun _ => ?_) (fun hlen => ?_)
      · exact (freeThrow_triple (by simp)).conseq (fun w _ hw => hw.1) (fun _ _ _ h => h)
          fun _ _ _ h => h
      · exact Triple.ret fun w _ hw => hw.2 (not_not.mp hlen)

end SwarmKV.Pipeline
