import SwarmKV.Spec.Isolation
import SwarmKV.Spec.Toy

/-!
# Copy-on-fork isolation

A branch touches nothing that belongs to others, so two branches can be executed in either order.
-/

namespace SwarmKV

open Monitor

/-! ## Two branches -/

section Commute

variable {SA SA' SB SB' : Sides} {A B : Deeds} {w u u' v v' : World}

theorem Deeds.After.state_eq (h : A.After SA w u) (h' : B.After SB u v) :
    v.state = { w.state with
      nodeOutputs := v.state.nodeOutputs
      timingsMs := v.state.timingsMs
      milestoneConsumersRemaining := v.state.milestoneConsumersRemaining } := by
  refine h'.shared.trans ?_
  rw [h.shared]

/-- The counts stay where they are. -/
theorem Deeds.After.counted (h : A.After SA w u) (t : Int) :
    (u.state.milestoneConsumersRemaining t).isSome =
      (w.state.milestoneConsumersRemaining t).isSome := by
  rw [h.counts]
  split
  · by_cases ht : t = SA.node.requiredPrefixTokens
    · rw [ht, Function.update_self, Option.isSome_map]
    · rw [Function.update_of_ne ht]
  · rfl

/-- What one branch has done, the next one finds issued. -/
theorem Deeds.After.issued (h : A.After SA w u) (hw : w.Issued) : u.Issued := by
  refine ⟨fun b hb => ?_, fun b hb => ?_, fun b hb => ?_⟩
  · rw [h.nextBuffer] at hb
    rw [h.buffers]
    cases hbuf : A.buffer with
    | none => exact hw.buffers b (by omega)
    | some buf =>
      rw [hbuf] at hb
      have hne : b ≠ w.nextBuffer := by
        have hlen : (some buf).toList.length = 1 := rfl
        omega
      rw [Option.elim_some, Function.update_of_ne hne]
      exact hw.buffers b (by omega)
  · rw [h.shared] at hb
    have hlt := hw.staging b hb
    rw [h.nextBuffer]
    omega
  · rw [h.activeBuffers, List.mem_append] at hb
    rw [h.nextBuffer]
    rcases hb with hold | hnew
    · have hlt := hw.pool b hold
      omega
    · split at hnew
      · rename_i hp
        obtain ⟨buf, hbuf⟩ := Option.isSome_iff_exists.mp (h.pool hp)
        have hlen : A.buffer.toList.length = 1 := by rw [hbuf]; rfl
        have heq := List.mem_singleton.mp hnew
        omega
      · cases hnew

/-- The worlds before and after another branch look the same. -/
theorem Deeds.After.sides (h : A.After SA w u) (hw : w.Issued) (i : Thread) (name : String)
    (node : AnalyticalNode) : (Sides.mk i name node u w).Match := by
  have hu := h.shared
  refine ⟨?_, ?_, ?_, ?_, fun b hb => ?_, ?_, h.issued hw, hw⟩
  · show w.state.materializedBranchBuffer = u.state.materializedBranchBuffer
    rw [hu]
  · show w.state.prefixSnapshots = u.state.prefixSnapshots
    rw [hu]
  · show w.state.prefixSeqLen = u.state.prefixSeqLen
    rw [hu]
  · show w.state.prefixKvSerialBytes = u.state.prefixKvSerialBytes
    rw [hu]
  · have hb' : u.state.materializedBranchBuffer = some b := hb
    rw [hu] at hb'
    exact (h.buffer_old (hw.staging b hb')).symm
  · exact (h.counted node.requiredPrefixTokens).symm

theorem Sides.Match.symm {S : Sides} (h : S.Match) :
    (Sides.mk S.thread S.name S.node S.right S.left).Match :=
  ⟨h.staging.symm, h.snapshots.symm, h.prefixSeqLen.symm, h.prefixKvSerialBytes.symm,
    fun b hb => (h.bytes b (h.staging.symm.trans hb)).symm, h.counted.symm, h.issued.2, h.issued.1⟩

/-- Which timings there are. -/
theorem Deeds.After.timed_isSome (h : A.After SA w u) (k : String) :
    (u.state.timingsMs k).isSome =
      ((A.timed && decide (k = SA.name)) || (w.state.timingsMs k).isSome) := by
  obtain ⟨ms, hms⟩ := h.timingsMs
  rw [hms]
  cases A.timed with
  | false => rfl
  | true =>
    by_cases hk : k = SA.name
    · simp [hk]
    · simp [hk]

/-- One count less, and then one less of another count or of the same. -/
theorem lower_comm (f : Int → Option Int) (r s : Int) :
    let lower (f : Int → Option Int) (r : Int) := Function.update f r ((f r).map (· - 1))
    lower (lower f r) s = lower (lower f s) r := by
  intro lower
  by_cases hrs : r = s
  · rw [hrs]
  · simp only [lower, Function.update_of_ne hrs, Function.update_of_ne (Ne.symm hrs)]
    exact Function.update_comm hrs _ _ _

/-- The pool after a branch: what was there, and its own buffer. -/
theorem Deeds.After.pool_old (h : A.After SA w u) (hw : w.Issued) :
    w.activeBuffers.map u.buffers = w.activeBuffers.map w.buffers :=
  List.map_congr_left fun b hb => h.buffer_old (hw.pool b hb)

/-- What a branch adds to the pool. -/
def Deeds.pools (D : Deeds) : List (Option Buffer) := if D.pooled then [D.buffer] else []

theorem Deeds.After.pool_eq (h : A.After SA w u) (hw : w.Issued) :
    u.activeBuffers.map u.buffers = w.activeBuffers.map w.buffers ++ A.pools := by
  rw [h.activeBuffers, List.map_append, h.pool_old hw, Deeds.pools]
  congr 1
  split
  · rename_i hp
    obtain ⟨buf, hbuf⟩ := Option.isSome_iff_exists.mp (h.pool hp)
    rw [List.map_singleton, h.buffer_new hbuf, hbuf]
  · rfl

/-- Two branches with different names leave the same behind in either order, up to the order of
    the pool and the values of the timings. -/
theorem Deeds.After.commute (hA : A.After SA w u) (hB : B.After SB u v) (hB' : B.After SB' w u')
    (hA' : A.After SA' u' v') (hw : w.Issued) (hname : SA.name ≠ SB.name)
    (hthread : SA.thread ≠ SB.thread) (hSA : SA'.name = SA.name ∧ SA'.thread = SA.thread ∧
      SA'.node = SA.node) (hSB : SB'.name = SB.name ∧ SB'.thread = SB.thread ∧ SB'.node = SB.node) :
    v.state = { v'.state with timingsMs := v.state.timingsMs } ∧
    (∀ k, (v.state.timingsMs k).isSome = (v'.state.timingsMs k).isSome) ∧
    (v.activeBuffers.map v.buffers).Perm (v'.activeBuffers.map v'.buffers) ∧
    (∀ n < w.nextBuffer, v.buffers n = v'.buffers n) ∧ v.log = v'.log := by
  refine ⟨?_, fun k => ?_, ?_, fun n hn => ?_, ?_⟩
  · have hout : v.state.nodeOutputs = v'.state.nodeOutputs := by
      rw [hB.nodeOutputs, hA.nodeOutputs, hA'.nodeOutputs, hB'.nodeOutputs, hSA.1, hSB.1]
      cases A.output with
      | none => rfl
      | some a =>
        cases B.output with
        | none => rfl
        | some b => exact Function.update_comm hname _ _ _
    have hcounts : v.state.milestoneConsumersRemaining = v'.state.milestoneConsumersRemaining := by
      rw [hB.counts, hA.counts, hA'.counts, hB'.counts, hSA.2.2, hSB.2.2]
      cases A.consumed with
      | false => rfl
      | true =>
        cases B.consumed with
        | false => rfl
        | true => exact lower_comm _ _ _
    rw [hA.state_eq hB, hB'.state_eq hA', hout, hcounts]
  · rw [hB.timed_isSome, hA.timed_isSome, hA'.timed_isSome, hB'.timed_isSome, hSA.1, hSB.1]
    exact Bool.or_left_comm _ _ _
  · rw [hB.pool_eq (hA.issued hw), hA.pool_eq hw, hA'.pool_eq (hB'.issued hw), hB'.pool_eq hw,
      List.append_assoc, List.append_assoc]
    exact List.Perm.append_left _ List.perm_append_comm
  · rw [hB.buffer_old (hA.nextBuffer ▸ Nat.lt_add_right _ hn), hA.buffer_old hn,
      hA'.buffer_old (hB'.nextBuffer ▸ Nat.lt_add_right _ hn), hB'.buffer_old hn]
  · rw [hB.log, hA.log, hA'.log, hB'.log, hSA.2.1, hSB.2.1,
      Function.update_of_ne (Ne.symm hthread), Function.update_of_ne hthread]
    exact Function.update_comm hthread _ _ _

end Commute

/-! ## One branch -/

/-- What a call of a branch may do to the world: its own entries in `node_outputs`, `timings_ms`
    and the count of its own milestone, all three only if it returns, and a new buffer with a copy
    of the source. -/
structure Isolated (node : AnalyticalNode) (name : String) (i : Thread) (w : World)
    (r : Outcome) (w' : World) : Prop where
  shared : w'.state = { w.state with
    nodeOutputs := w'.state.nodeOutputs
    timingsMs := w'.state.timingsMs
    milestoneConsumersRemaining := w'.state.milestoneConsumersRemaining }
  nodeOutputs : ∀ k ≠ name, w'.state.nodeOutputs k = w.state.nodeOutputs k
  timingsMs : ∀ k ≠ name, w'.state.timingsMs k = w.state.timingsMs k
  counts : ∀ t ≠ node.requiredPrefixTokens, w'.state.milestoneConsumersRemaining t =
    w.state.milestoneConsumersRemaining t
  /-- At most one decrement. -/
  count : w'.state.milestoneConsumersRemaining node.requiredPrefixTokens =
      w.state.milestoneConsumersRemaining node.requiredPrefixTokens ∨
    w'.state.milestoneConsumersRemaining node.requiredPrefixTokens =
      (w.state.milestoneConsumersRemaining node.requiredPrefixTokens).map (· - 1)
  onlyOnSuccess : r ≠ .ok () → w'.state = w.state
  buffers : ∀ b, (w.buffers b).isSome → w'.buffers b = w.buffers b
  /-- At most one new buffer. -/
  fresh : ∀ b, w'.buffers b ≠ w.buffers b → b = w.nextBuffer
  pool : w'.activeBuffers = w.activeBuffers ∨ w'.activeBuffers = w.activeBuffers ++ [w.nextBuffer]
  /-- When the copy step has succeeded, which is on record, the buffer starts with the source. -/
  copied : ∃ events, w'.log = Function.update w.log i (w.log i ++ events) ∧
    ∀ len bytes, .forked len bytes ∈ events → bytes = node.chosenBytes w ∧
      w'.bytesAt (.buffer w.nextBuffer) (node.chosenSize w) = node.chosenBytes w

section Single

variable {S : Sides} {D : Deeds} {w : World} {r : Outcome}

/-- A branch is isolated, if a failing one has done nothing that can be seen. -/
theorem Deeds.After.isolated (h : D.After S S.left w) (hS : S.left.Issued) (hD : D.Sound S)
    (hr : r ≠ .ok () → w.state = S.left.state) :
    Isolated S.node S.name S.thread S.left r w := by
  refine ⟨h.shared, fun k hk => ?_, fun k hk => ?_, fun t ht => ?_, ?_, hr, fun b hb => ?_,
    fun b hb => ?_, ?_, D.events, h.log, fun len bytes hmem => ?_⟩
  · -- the entries of the other nodes
    rw [h.nodeOutputs]
    cases D.output with
    | none => rfl
    | some v => exact Function.update_of_ne hk _ _
  · obtain ⟨ms, hms⟩ := h.timingsMs
    rw [hms]
    split
    · exact Function.update_of_ne hk _ _
    · rfl
  · -- the counts of the other milestones, and its own
    rw [h.counts]
    split
    · exact Function.update_of_ne ht _ _
    · rfl
  · rw [h.counts]
    split
    · exact .inr (Function.update_self _ _ _)
    · exact .inl rfl
  · -- buffers that are already there, and those that are new
    refine h.buffer_old (not_le.mp fun hle => ?_)
    rw [hS.buffers b hle] at hb
    cases hb
  · rw [h.buffers] at hb
    cases hbuf : D.buffer with
    | none =>
      rw [hbuf] at hb
      exact absurd rfl hb
    | some buf =>
      rw [hbuf] at hb
      by_contra hne
      exact hb (Function.update_of_ne hne _ _)
  · -- the registry, and the bytes of the fork
    rw [h.activeBuffers]
    split
    · exact .inr rfl
    · exact .inl (List.append_nil _)
  · obtain ⟨-, hbytes, htake⟩ := hD len bytes hmem
    refine ⟨hbytes, ?_⟩
    rw [← hbytes, ← htake]
    cases hbuf : D.buffer with
    | none =>
      have hnone : w.buffers S.left.nextBuffer = none := by
        rw [h.buffers, hbuf]
        exact hS.buffers _ le_rfl
      simp [World.bytesAt, hnone]
    | some buf => simp only [World.bytesAt, h.buffer_new hbuf, Option.map_some, Option.getD_some,
        Option.elim_some]

/-- A quiet branch has not changed the blackboard. -/
theorem Deeds.After.state_of_quiet (h : D.After S S.left w) (hD : D.Quiet) :
    w.state = S.left.state := by
  obtain ⟨ms, hms⟩ := h.timingsMs
  rw [h.shared, h.nodeOutputs, hms, h.counts, hD.output, hD.consumed, hD.timed]
  rfl

end Single

section Timing

variable {E : Engine} {i : Thread} {H : Finset Lock} {w : World} {key : String} {t₀ : Int}

/-- The timing fails only for want of memory. -/
theorem recordTiming_ends (xs : List Choice) :
    (solo E i).Ends H (fun _ ys => ys = xs) (PipelineState.recordTiming key t₀) (fun _ _ _ => True)
      fun e _ _ => e = .badAlloc ∧ ∃ x ys, xs = x :: .fail :: ys := by
  unfold PipelineState.recordTiming
  refine .bind (Q := fun _ _ ys => ∃ x, xs = x :: ys) (ends_asks rfl fun w x ys r w' hP _ => ?_)
    fun t₁ => .withLock (.bind (Q := fun _ _ _ => True) ?_ fun _ => ?_)
  · exact ⟨x, hP.symm⟩
  · refine ends_alloc (fun _ _ _ _ _ => trivial) fun w ys hP => ?_
    obtain ⟨x, hx⟩ := hP
    exact ⟨rfl, x, ys, hx⟩
  · exact ends_calm rfl fun _ _ _ _ _ _ => trivial

/-- If memory is short, it fails. -/
theorem run_recordTiming_fail (x : Choice) (ys : List Choice) :
    ∃ t, (solo E i).run (PipelineState.recordTiming key t₀) {.llamaApiMutex} w (x :: .fail :: ys) =
      some t ∧ t.outcome = .error .badAlloc ∧ t.held = {.llamaApiMutex} ∧
        t.data = w.record i .badAlloc := by
  cases x <;> exact ⟨_, rfl, rfl, rfl, rfl⟩

end Timing

/-! ## A call -/

namespace AnalyticalNode

/-- There is memory for everything but the entry in `timings_ms`, which comes last. -/
def TimingFails (node : AnalyticalNode) (ctx : OrchestratorContext) (i : Thread) (w : World)
    (xs : List Choice) : Prop :=
  ∃ u t₀ x ys, (solo ctx.engine i).run (node.forkAndSignal ctx) {.llamaApiMutex} w xs = some u ∧
    u.outcome = .ok t₀ ∧ u.left = x :: .fail :: ys

/-- The branch reports what its entry says already, and nobody counts its milestone. -/
def Repeats (node : AnalyticalNode) (ctx : OrchestratorContext) (w : World) : Prop :=
  (∀ tokens, tokensOf ctx.engine node.branchPrompt = some tokens →
    w.state.nodeOutputs ctx.nodeName =
      some (node.statusLine tokens.length (node.chosenLen w))) ∧
  (0 < node.requiredPrefixTokens →
    w.state.milestoneConsumersRemaining node.requiredPrefixTokens = none)

variable {node : AnalyticalNode} {ctx : OrchestratorContext} {i : Thread} {w : World}
  {xs : List Choice}

/-- A single call, as both of two sides. -/
def side (node : AnalyticalNode) (ctx : OrchestratorContext) (i : Thread) (w : World) : Sides :=
  ⟨i, ctx.nodeName, node, w, w⟩

theorem side_match (hw : w.Issued) : (node.side ctx i w).Match :=
  ⟨rfl, rfl, rfl, rfl, fun _ _ => rfl, rfl, hw, hw⟩

theorem side_hold {R : Deeds → Prop} {D : Deeds} {u : World} (hR : R D)
    (h : D.After (node.side ctx i w) w u) (hD : D.Sound (node.side ctx i w)) (xs : List Choice) :
    (node.side ctx i w).Hold R none u xs u xs :=
  ⟨D, hR, ⟨h, h, List.forall₂_same.mpr fun x _ => .refl x, hD⟩, fun c hc => by cases hc⟩

/-- All but the timing. -/
theorem forkAndSignal_run (hw : w.Issued) {H : Finset Lock}
    {u : Alone.End (machine ctx.engine) Error Int}
    (hrun : (solo ctx.engine i).run (node.forkAndSignal ctx) H w xs = some u) :
    u.held = H ∧ ∃ D : Deeds, D.After (node.side ctx i w) w u.data ∧
      D.Sound (node.side ctx i w) ∧
      ((∃ t₀, u.outcome = .ok t₀ ∧ (node.side ctx i w).Finished ctx.engine D) ∨
        ∃ e, u.outcome = .error e ∧ D.Quiet) := by
  have hpairs := (Sides.twin_forkAndSignal (S := node.side ctx i w) (H := H) (side_match hw) ctx
    rfl rfl).diag (side_hold (R := (· = {})) rfl (.start _ w) (fun _ _ hmem => by cases hmem) xs) hrun
  refine ⟨hpairs.held.1, ?_⟩
  have hend := hpairs.outcome
  cases hr : u.outcome with
  | ok t₀ =>
    rw [hr] at hend
    obtain ⟨D, hD, hpair, -⟩ := hend
    exact ⟨D, hpair.left, hpair.sound, .inl ⟨t₀, rfl, hD⟩⟩
  | error e =>
    rw [hr] at hend
    obtain ⟨-, D, hD, hpair, -⟩ := hend
    exact ⟨D, hpair.left, hpair.sound, .inr ⟨e, rfl, hD⟩⟩

/-- The timing. -/
theorem recordTiming_run {H : Finset Lock} {D : Deeds} {u : World} {t₀ : Int}
    {v : Alone.End (machine ctx.engine) Error Unit} (hu : D.After (node.side ctx i w) w u)
    (hD : D.Sound (node.side ctx i w)) (htimed : D.timed = false)
    (hrun : (solo ctx.engine i).run (PipelineState.recordTiming ctx.nodeName t₀) H u xs = some v) :
    v.held = H ∧ ∃ D' : Deeds, D'.After (node.side ctx i w) w v.data ∧
      D'.Sound (node.side ctx i w) ∧
      (v.outcome = .ok () ∨ v.outcome ≠ .ok () ∧ D' = D.add .badAlloc) := by
  have hpairs := (Sides.twin_recordTiming (S := node.side ctx i w) (H := H) (R := (· = D)) rfl t₀ t₀
    fun D' hD' => hD' ▸ htimed).diag (side_hold (R := (· = D)) rfl hu hD xs) hrun
  refine ⟨hpairs.held.1, ?_⟩
  have hend := hpairs.outcome
  cases hr : v.outcome with
  | ok a =>
    rw [hr] at hend
    obtain ⟨D', -, hpair, -⟩ := hend
    exact ⟨D', hpair.left, hpair.sound, .inl rfl⟩
  | error e =>
    rw [hr] at hend
    obtain ⟨-, D', hD', hpair, -⟩ := hend
    obtain ⟨D₀, rfl, rfl⟩ := hD'
    exact ⟨_, hpair.left, hpair.sound, .inr ⟨by simp, rfl⟩⟩

/-- The run of a call: under its guard, and with its timing at the end. -/
theorem run_execute :
    (solo ctx.engine i).run (node.execute ctx) ∅ w xs =
      (((solo ctx.engine i).run (node.forkAndSignal ctx) {.llamaApiMutex} w xs).bind fun u =>
        u.andThen (solo ctx.engine i) fun t0 => PipelineState.recordTiming ctx.nodeName t0).bind
        fun v => if Lock.llamaApiMutex ∈ v.held then
          some { v with held := v.held.erase .llamaApiMutex } else none := by
  have hwith := @Alone.run_withLock _ _ _ _ (node.forkAndDecode ctx) (solo ctx.engine i) ∅ w xs _
    (Finset.notMem_empty Lock.llamaApiMutex)
  rw [node.forkAndDecode_eq ctx] at hwith
  rw [← Alone.run_bind]
  rw [show node.execute ctx = Prog.withLock Lock.llamaApiMutex (node.forkAndSignal ctx >>= fun t0 =>
    PipelineState.recordTiming ctx.nodeName t0) by rw [← node.forkAndDecode_eq ctx]; rfl]
  exact hwith

/-- What a call has done. -/
theorem execute_run (hw : w.Issued) {t : Alone.End (machine ctx.engine) Error Unit}
    (hrun : (solo ctx.engine i).run (node.execute ctx) ∅ w xs = some t) :
    ∃ D : Deeds, D.After (node.side ctx i w) w t.data ∧ D.Sound (node.side ctx i w) ∧
      (t.outcome = .ok () ∨ D.Quiet ∨ node.TimingFails ctx i w xs ∧
        ∃ D₀, (node.side ctx i w).Finished ctx.engine D₀ ∧ D = D₀.add .badAlloc) := by
  rw [run_execute, Option.bind_eq_some_iff] at hrun
  obtain ⟨v, hv, hlast⟩ := hrun
  split at hlast
  swap
  · cases hlast
  obtain rfl := Option.some.inj hlast
  obtain ⟨u, hu, hthen⟩ := Option.bind_eq_some_iff.mp hv
  obtain ⟨hheld, D, hafter, hsound, hend⟩ := forkAndSignal_run hw hu
  obtain ⟨r, H, d, ys, os⟩ := u
  rcases hend with ⟨t₀, hr, hfin⟩ | ⟨e, hr, hquiet⟩
  · dsimp only at hr hheld
    subst hr hheld
    obtain ⟨v', hv', rfl⟩ := Option.map_eq_some_iff.mp hthen
    obtain ⟨tokens, htokens, hserved⟩ := hfin
    obtain ⟨-, D', hafter', hsound', hend'⟩ := recordTiming_run hafter hsound hserved.timed hv'
    refine ⟨D', hafter', hsound', ?_⟩
    rcases hend' with hok | ⟨hne, rfl⟩
    · exact .inl hok
    · refine .inr (.inr ⟨?_, D, ⟨tokens, htokens, hserved⟩, rfl⟩)
      have hfail := (recordTiming_ends ys d ys v' rfl hv').2
      cases hr : v'.outcome with
      | ok a => exact absurd hr hne
      | error e =>
        rw [hr] at hfail
        obtain ⟨-, x, zs, rfl⟩ := hfail
        exact ⟨_, t₀, x, zs, hu, rfl, rfl⟩
  · dsimp only at hr
    subst hr
    obtain rfl := Option.some.inj hthen
    exact ⟨D, hafter, hsound, .inr (.inl hquiet)⟩

/-- A call whose timing fails throws, when everything else is done. -/
theorem TimingFails.run (hw : w.Issued) (h : node.TimingFails ctx i w xs) :
    ∃ t, (solo ctx.engine i).run (node.execute ctx) ∅ w xs = some t ∧ t.outcome ≠ .ok () ∧
      ∃ D₀, (node.side ctx i w).Finished ctx.engine D₀ ∧
        (D₀.add .badAlloc).After (node.side ctx i w) w t.data := by
  obtain ⟨u, t₀, x, ys, hu, hr, hleft⟩ := h
  obtain ⟨hheld, D, hafter, hsound, hend⟩ := forkAndSignal_run hw hu
  obtain ⟨r, H, d, zs, os⟩ := u
  dsimp only at hr hleft hheld
  subst hr hleft hheld
  obtain ⟨v, hv, hout, hH, hdata⟩ := @run_recordTiming_fail ctx.engine i d ctx.nodeName t₀ x ys
  rcases hend with ⟨t₁, -, hfin⟩ | ⟨e, he, -⟩
  · refine ⟨{ v with ops := os ++ v.ops, held := v.held.erase .llamaApiMutex }, ?_, ?_, D, hfin, ?_⟩
    · rw [run_execute, hu, Option.bind_some]
      simp only [Alone.End.andThen, hv, Option.map_some, Option.bind_some, hH,
        Finset.mem_singleton, if_true]
    · simp [hout]
    · rw [hdata]
      exact hafter.record .badAlloc
  · cases he

/-- A finished branch without a timing has changed nothing exactly if it repeats what is there. -/
theorem finished_state_iff {D : Deeds} {u : World} (h : D.After (node.side ctx i w) w u)
    {tokens : List LlamaToken} (htokens : tokensOf ctx.engine node.branchPrompt = some tokens)
    (hD : Sides.Served node.requiredPrefixTokens (node.statusLine tokens.length (node.chosenLen w)) D) :
    u.state = w.state ↔ node.Repeats ctx w := by
  have hout := h.nodeOutputs
  have hcounts := h.counts
  rw [hD.output, Option.elim_some] at hout
  rw [hD.consumed] at hcounts
  constructor
  · intro hstate
    rw [hstate] at hout hcounts
    refine ⟨fun tokens' htokens' => ?_, fun hreq => ?_⟩
    · obtain rfl := Option.some.inj (htokens.symm.trans htokens')
      rw [hout]
      exact Function.update_self _ _ _
    · rw [if_pos (decide_eq_true hreq)] at hcounts
      have hsame := congrFun hcounts node.requiredPrefixTokens
      rw [show (node.side ctx i w).node = node from rfl, Function.update_self] at hsame
      cases hn : w.state.milestoneConsumersRemaining node.requiredPrefixTokens with
      | none => rfl
      | some n =>
        rw [hn, Option.map_some, Option.some.injEq] at hsame
        omega
  · intro hrepeats
    obtain ⟨ms, hms⟩ := h.timingsMs
    rw [hD.timed] at hms
    have hout' : u.state.nodeOutputs = w.state.nodeOutputs := by
      rw [hout, ← hrepeats.1 tokens htokens]
      exact Function.update_eq_self _ _
    have hcounts' : u.state.milestoneConsumersRemaining = w.state.milestoneConsumersRemaining := by
      rw [hcounts]
      split
      · rename_i hreq
        have hnone := hrepeats.2 (of_decide_eq_true hreq)
        rw [show (node.side ctx i w).node = node from rfl, hnone, Option.map_none, ← hnone]
        exact Function.update_eq_self _ _
      · rfl
    rw [h.shared, hout', hms, hcounts']
    rfl

/-- A call is isolated exactly if there is memory for its timing, or else nothing new in what it
    has published before. -/
theorem isolated_iff (hw : w.Issued) :
    (∀ t, (solo ctx.engine i).run (node.execute ctx) ∅ w xs = some t →
      Isolated node ctx.nodeName i w t.outcome t.data) ↔
    (node.TimingFails ctx i w xs → node.Repeats ctx w) := by
  constructor
  · intro hall hfails
    obtain ⟨t, hrun, hne, D, hfin, hafter⟩ := TimingFails.run hw hfails
    obtain ⟨tokens, htokens, hD⟩ := hfin
    exact (finished_state_iff hafter htokens ⟨hD.output, hD.consumed, hD.timed⟩).mp
      ((hall t hrun).onlyOnSuccess hne)
  · intro hcond t hrun
    obtain ⟨D, hafter, hsound, hend⟩ := execute_run hw hrun
    refine Deeds.After.isolated hafter hw hsound fun hne => ?_
    rcases hend with hok | hquiet | ⟨hfails, D₀, hfin, rfl⟩
    · exact absurd hok hne
    · exact hafter.state_of_quiet hquiet
    · obtain ⟨tokens, htokens, hD⟩ := hfin
      exact (finished_state_iff hafter htokens ⟨hD.output, hD.consumed, hD.timed⟩).mpr
        (hcond hfails)

end AnalyticalNode

/-! ## Two calls -/

/-- The calls side by side, to their end. -/
theorem Sides.twin_execute {E : Engine} {S : Sides} {H : Finset Lock} (hS : S.Match)
    (ctx : OrchestratorContext) (hE : ctx.engine = E) (hname : S.name = ctx.nodeName) :
    S.Twin E H (S.Hold (· = {}) none) (S.node.execute ctx) (S.node.execute ctx)
      (fun _ _ => S.Hold (fun _ => True) none) fun _ => S.Hold (fun _ => True) none := by
  refine .withLock ?_
  rw [S.node.forkAndDecode_eq ctx]
  refine .bind (.conseq (twin_forkAndSignal hS ctx hE hname) (fun _ _ _ _ h => h)
    (fun _ _ _ _ _ _ h => h) fun _ _ _ _ _ h => h.mono fun _ _ => trivial) fun t₀ t₀' => ?_
  refine .conseq (twin_recordTiming hname t₀ t₀' fun D hD => ?_) (fun _ _ _ _ h => h)
    (fun _ _ _ _ _ _ h => h.mono fun _ _ => trivial) fun _ _ _ _ _ h => h.mono fun _ _ => trivial
  obtain ⟨tokens, -, hserved⟩ := hD
  exact hserved.timed

/-- Two calls `a` and `b` from `w`, one after the other, and the same calls the other way round: each
    ends in the same way, has decoded the same tokens at the same positions and restored the same
    bytes, and the final worlds are the same up to the order of the pool and the times. -/
structure Interchanged {E : Engine} (w : World) (a b b' a' : Alone.End (machine E) Error Unit) :
    Prop where
  outcome : a'.outcome = a.outcome ∧ b'.outcome = b.outcome
  decoded : a'.ops.filterMap Op.decoded = a.ops.filterMap Op.decoded ∧
    b'.ops.filterMap Op.decoded = b.ops.filterMap Op.decoded
  state : b.data.state = { a'.data.state with timingsMs := b.data.state.timingsMs }
  timings : ∀ k, (b.data.state.timingsMs k).isSome = (a'.data.state.timingsMs k).isSome
  pool : (b.data.activeBuffers.map b.data.buffers).Perm
    (a'.data.activeBuffers.map a'.data.buffers)
  buffers : ∀ n < w.nextBuffer, b.data.buffers n = a'.data.buffers n
  log : b.data.log = a'.data.log

/-- Two branches with different names can be executed in either order. -/
theorem execute_comm {E : Engine} {A B : AnalyticalNode} {ctxA ctxB : OrchestratorContext}
    (hA : ctxA.engine = E) (hB : ctxB.engine = E) (hname : ctxA.nodeName ≠ ctxB.nodeName)
    {w : World} (hw : w.Issued) {xs xs' ys ys' : List Choice}
    (hxs : List.Forall₂ Choice.Alike xs xs') (hys : List.Forall₂ Choice.Alike ys ys')
    {a b : Alone.End (machine E) Error Unit}
    (ha : (solo E (.worker ctxA.nodeName)).run (A.execute ctxA) ∅ w xs = some a)
    (hb : (solo E (.worker ctxB.nodeName)).run (B.execute ctxB) ∅ a.data ys = some b) :
    ∃ b' a', (solo E (.worker ctxB.nodeName)).run (B.execute ctxB) ∅ w ys' = some b' ∧
      (solo E (.worker ctxA.nodeName)).run (A.execute ctxA) ∅ b'.data xs' = some a' ∧
      Interchanged w a b b' a' := by
  subst hA
  have hstart : ∀ {S : Sides} {zs zs' : List Choice}, List.Forall₂ Choice.Alike zs zs' →
      S.Hold (· = {}) none S.left zs S.right zs' := fun hzs =>
    ⟨_, rfl, ⟨.start _ _, .start _ _, hzs, fun _ _ hmem => by cases hmem⟩, fun c hc => by cases hc⟩
  -- the first call, by itself
  obtain ⟨-, D₀, -, hpair₀, -⟩ := ((Sides.twin_execute (AnalyticalNode.side_match hw) ctxA rfl
    rfl).diag (hstart (S := A.side ctxA (.worker ctxA.nodeName) w)
      (List.forall₂_same.mpr fun x _ => .refl x)) ha).same
  -- the second call, from the world that the first one leaves and from the start
  obtain ⟨b', hb', hpairsB⟩ := Sides.twin_execute (hpair₀.left.sides hw (.worker ctxB.nodeName)
    ctxB.nodeName B) ctxB hB rfl _ _ _ _ _ (hstart hys) hb
  obtain ⟨houtB, DB, -, hpairB, -⟩ := hpairsB.same
  -- the first call, from the start and from the world that the second one leaves
  obtain ⟨a', ha', hpairsA⟩ := Sides.twin_execute (hpairB.right.sides hw (.worker ctxA.nodeName)
    ctxA.nodeName A).symm ctxA rfl rfl _ _ _ _ _ (hstart hxs) ha
  obtain ⟨houtA, DA, -, hpairA, -⟩ := hpairsA.same
  obtain ⟨hstate, htimings, hpool, hbuffers, hlog⟩ := Deeds.After.commute hpairA.left hpairB.left
    hpairB.right hpairA.right hw hname (fun h => hname (Thread.worker.inj h)) ⟨rfl, rfl, rfl⟩
    ⟨rfl, rfl, rfl⟩
  exact ⟨b', a', hb', ha', ⟨houtA, houtB⟩, ⟨hpairsA.ops.symm, hpairsB.ops.symm⟩, hstate, htimings,
    hpool, hbuffers, hlog⟩

/-- Copy-on-fork isolation. A call of a branch, from whatever blackboard and however it ends,
    touches only its own entries and a new buffer, and none of the entries unless it returns,
    exactly if the entry in `timings_ms` does not fail for want of memory, or nothing that was
    published before is news. Two calls under different names can be made in either order. -/
theorem execute_isolated_iff (node : AnalyticalNode) (ctx : OrchestratorContext) (i : Thread)
    (w : World) (xs : List Choice) (hw : w.Issued) :
    ((∀ t, (solo ctx.engine i).run (node.execute ctx) ∅ w xs = some t →
        Isolated node ctx.nodeName i w t.outcome t.data) ↔
      (node.TimingFails ctx i w xs → node.Repeats ctx w)) ∧
    ∀ (next : AnalyticalNode) (ctx' : OrchestratorContext), ctx'.engine = ctx.engine →
      ctx.nodeName ≠ ctx'.nodeName → ∀ xs' ys ys' : List Choice,
        List.Forall₂ Choice.Alike xs xs' → List.Forall₂ Choice.Alike ys ys' → ∀ a b,
        (solo ctx.engine (.worker ctx.nodeName)).run (node.execute ctx) ∅ w xs = some a →
        (solo ctx.engine (.worker ctx'.nodeName)).run (next.execute ctx') ∅ a.data ys = some b →
        ∃ b' a', (solo ctx.engine (.worker ctx'.nodeName)).run (next.execute ctx') ∅ w ys' = some b' ∧
          (solo ctx.engine (.worker ctx.nodeName)).run (node.execute ctx) ∅ b'.data xs' = some a' ∧
          Interchanged w a b b' a' :=
  ⟨AnalyticalNode.isolated_iff hw, fun _ _ hctx hname _ _ _ hxs hys _ _ ha hb =>
    execute_comm rfl hctx hname hw hxs hys ha hb⟩

/-! ## A world with one milestone -/

namespace Isolation

/-- A document of one token was exported, as milestone 1 and into the staging buffer; two branches
    wait for the milestone. -/
def exportedOne : World where
  state := {
    materializedBranchBuffer := some 0
    prefixKvSerialBytes := (Toy.write [(0, 5)]).length
    prefixSeqLen := 1
    watermark := 1
    snapshotMilestones := [1]
    prefixSnapshots := fun t => if t = 1 then some ⟨Toy.write [(0, 5)], 1⟩ else none
    milestoneConsumersRemaining := fun t => if t = 1 then some 2 else none }
  buffers := fun b => if b = 0 then some ⟨64, Toy.write [(0, 5)]⟩ else none
  nextBuffer := 1
  activeBuffers := [0]

theorem exportedOne_issued : exportedOne.Issued := by
  refine ⟨fun b hb => if_neg (Nat.ne_of_gt hb), fun b hb => ?_, fun b hb => ?_⟩
  · obtain rfl := Option.some.inj hb
    exact Nat.zero_lt_one
  · obtain rfl := List.mem_singleton.mp hb
    exact Nat.zero_lt_one

/-- The context of a call. -/
def context (name : String) : OrchestratorContext := ⟨Toy.shortEngine, 256, true, name⟩

/-- All goes well up to the timing. -/
def untilTiming : List Choice := List.replicate 11 .ok

end Isolation

open Isolation in
/-- With memory for its timing, the branch is isolated; a full-prefill branch can go first. -/
theorem execute_isolated_iff_exportedOne :
    (∃ t, (solo Toy.shortEngine (.worker "B")).run
      ((⟨"prompt", 1⟩ : AnalyticalNode).execute (context "B")) ∅ exportedOne
        (untilTiming ++ [.ok]) = some t ∧
      Isolated ⟨"prompt", 1⟩ "B" (.worker "B") exportedOne t.outcome t.data) ∧
    ∃ a b b' a', (solo Toy.shortEngine (.worker "B")).run
      ((⟨"prompt", 1⟩ : AnalyticalNode).execute (context "B")) ∅ exportedOne
        (untilTiming ++ [.ok]) = some a ∧
      (solo Toy.shortEngine (.worker "C")).run
        ((⟨"prompt", -1⟩ : AnalyticalNode).execute (context "C")) ∅ exportedOne
          (.time 3 :: untilTiming) = some b' ∧
      Interchanged exportedOne a b b' a' := by
  have hrun : ∃ t, (solo Toy.shortEngine (.worker "B")).run
      ((⟨"prompt", 1⟩ : AnalyticalNode).execute (context "B")) ∅ exportedOne
        (untilTiming ++ [.ok]) = some t := ⟨_, rfl⟩
  have hleft : ((solo (context "B").engine (.worker "B")).run
      ((⟨"prompt", 1⟩ : AnalyticalNode).forkAndSignal (context "B")) {.llamaApiMutex} exportedOne
        (untilTiming ++ [.ok])).map (·.left) = some [.ok, .ok] := rfl
  obtain ⟨a, ha⟩ := hrun
  have hrun' : ∃ b, (solo Toy.shortEngine (.worker "C")).run
      ((⟨"prompt", -1⟩ : AnalyticalNode).execute (context "C")) ∅ a.data
        (.time 2 :: untilTiming) = some b := by
    obtain rfl := Option.some.inj ha
    exact ⟨_, rfl⟩
  obtain ⟨b, hb⟩ := hrun'
  refine ⟨⟨a, ha, (execute_isolated_iff _ (context "B") _ _ _ exportedOne_issued).1.mpr
    (fun hfails => ?_) a ha⟩, ?_⟩
  · obtain ⟨u, t₀, x, ys, hu, -, hleft'⟩ := hfails
    rw [hu, Option.map_some, hleft', Option.some.injEq] at hleft
    cases hleft
  · have htimes : List.Forall₂ Choice.Alike (.time 2 :: untilTiming) (.time 3 :: untilTiming) :=
      .cons trivial (List.forall₂_same.mpr fun x _ => .refl x)
    obtain ⟨b', a', hb', -, hsame⟩ := (execute_isolated_iff ⟨"prompt", 1⟩ (context "B")
      (.worker "B") _ _ exportedOne_issued).2 ⟨"prompt", -1⟩ (context "C") rfl (by decide) _ _ _
      (List.forall₂_same.mpr fun x _ => .refl x) htimes a b ha hb
    exact ⟨a, b, b', a', ha, hb', hsame⟩

open Isolation in
/-- The branch throws, but its output is there, and its milestone has lost a consumer. -/
theorem not_execute_isolated : ¬ ∀ t, (solo Toy.shortEngine (.worker "B")).run
      ((⟨"prompt", 1⟩ : AnalyticalNode).execute (context "B")) ∅ exportedOne
        (untilTiming ++ [.fail]) = some t →
    Isolated ⟨"prompt", 1⟩ "B" (.worker "B") exportedOne t.outcome t.data := by
  intro hall
  have hrun : ∃ t, (solo Toy.shortEngine (.worker "B")).run
      ((⟨"prompt", 1⟩ : AnalyticalNode).execute (context "B")) ∅ exportedOne
        (untilTiming ++ [.fail]) = some t ∧ t.outcome = .error .badAlloc ∧
      t.data.state.milestoneConsumersRemaining 1 = some 1 := ⟨_, rfl, rfl, rfl⟩
  obtain ⟨t, hrun, hout, hcount⟩ := hrun
  have hstate := (hall t hrun).onlyOnSuccess (by simp [hout])
  rw [hstate] at hcount
  exact absurd hcount (by decide)

end SwarmKV
