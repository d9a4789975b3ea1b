import SwarmKV.Spec.Invariant
import Mathlib.Algebra.BigOperators.Group.List.Basic
import Mathlib.Algebra.Order.Group.Int

/-!
# The proof outline of `execute_pipeline`: its laws

An action performed under its precondition keeps the invariants, and what it does
to the world is covered by what the other threads rely on. `Pipeline.outline` puts
the assertions and these laws together.
-/

namespace SwarmKV

namespace World

variable {w w' : World}

theorem Exported.grows (hg : ∀ j, w.log j <+: w'.log j) {s : SeqState} {bytes : List UInt8}
    (h : w.Exported s bytes) : w'.Exported s bytes := by
  obtain ⟨j, hj⟩ := h
  exact ⟨j, (hg j).subset hj⟩

theorem commits_append {i : Thread} {e : Event}
    (h : w'.log = Function.update w.log i (w.log i ++ [e])) :
    w'.commits i = w.commits i ++ e.committed.toList := by
  unfold commits
  rw [h, Function.update_self, List.filterMap_append]
  cases hc : e.committed <;> simp [hc]

theorem consumed_append {n : String} {t : Int} {e : Event}
    (h : w'.log = Function.update w.log (.worker n) (w.log (.worker n) ++ [e])) :
    w'.consumed n t = w.consumed n t + [e].count (.milestoneConsumed t) := by
  unfold consumed
  rw [h, Function.update_self, List.count_append]

end World

namespace Pipeline

variable {cfg : Pipeline} {w w' : World}

/-- If exports are good now, they were before. -/
theorem Good.grows (h : cfg.Good w') (hg : ∀ j, w.log j <+: w'.log j) : cfg.Good w where
  roundTrips := h.roundTrips
  inMemory n hn hm := h.inMemory n hn ((hg _).subset hm)
  nonempty s bytes hs := h.nonempty s bytes (hs.grows hg)

/-- With one prefiller in good health, it is enough that the engine exports something. -/
theorem Inv.good (hI : cfg.Inv w) {p : String} (hp : cfg.orchestrator.Sole p)
    (hr : cfg.engine.RoundTrips) (hne : cfg.engine.ExportsNonempty) (hm : ¬ w.OutOfMemory p) :
    cfg.Good w where
  roundTrips := hr
  inMemory n hn := hp.2 n hn ▸ hm
  nonempty s bytes h := hne s bytes (hI.exported s bytes h).1 (hI.exported s bytes h).2

section Grows

variable (hg : ∀ j, w.log j <+: w'.log j)

include hg

theorem ForkOk.grows {len : Int} {bytes : List UInt8} (h : cfg.ForkOk w len bytes) :
    cfg.ForkOk w' len bytes := by
  rcases h with h | ⟨n, s, hn, hlen, hs, he⟩
  · exact .inl h
  · exact .inr ⟨n, s, hn, hlen, hs, he.grows hg⟩

theorem SnapshotOk.grows {t : Int} {snap : PrefixKvSnapshot} (h : cfg.SnapshotOk w t snap) :
    cfg.SnapshotOk w' t snap where
  seqLen := h.seqLen
  milestone := h.milestone
  commitValue := h.commitValue
  exported := by
    obtain ⟨s, he, hs⟩ := h.exported
    exact ⟨s, he.grows hg, fun hgood => hs (hgood.grows hg)⟩

end Grows

/-! ## The invariant is kept -/

section InvStep

variable {i : Thread} {H : Finset Lock} {o : Op} {x : Choice} {r : o.Res}

/-- A promise or a task that is set stays set. -/
private theorem promises_mono (hx : exec cfg.engine i o x w = some (r, w')) (n : String)
    (q : Outcome) (h : w.promises n = some q) : w'.promises n = some q := by
  rcases exec_promises hx with heq | ⟨m, q', -, hm, heq⟩
  · rw [heq, h]
  · have hne : n ≠ m := by
      rintro rfl
      cases h.symm.trans hm
    rw [heq, Function.update_of_ne hne, h]

private theorem tasks_mono (hpre : cfg.Pre i H o w) (hx : exec cfg.engine i o x w = some (r, w'))
    (n : String) (q : Outcome) (h : w.tasks n = some q) : w'.tasks n = some q := by
  rcases exec_tasks hx with heq | ⟨m, q', rfl, heq⟩
  · rw [heq, h]
  · obtain ⟨hact, rfl⟩ := hpre
    have hne : n ≠ m := by
      rintro rfl
      cases h.symm.trans hact.2
    rw [heq, Function.update_of_ne hne, h]

private theorem allDone_mono (hpre : cfg.Pre i H o w)
    (hx : exec cfg.engine i o x w = some (r, w')) (h : cfg.AllDone w) : cfg.AllDone w' := by
  intro n hn
  obtain ⟨q, hq⟩ := Option.isSome_iff_exists.mp (h n hn)
  rw [tasks_mono hpre hx n q hq]
  rfl

/-- With one prefill provider, the watermark rises. -/
private theorem watermark_mono (hpre : cfg.Pre i H o w)
    (hx : exec cfg.engine i o x w = some (r, w')) {p : String} (hp : cfg.orchestrator.Sole p) :
    w.state.watermark ≤ w'.state.watermark := by
  rcases exec_watermark hx with heq | ⟨t, rfl, heq⟩
  · rw [heq]
  · rw [heq]
    exact (hpre.2.2.2 p hp).2

private theorem gatesPassed_step (hpre : cfg.Pre i H o w)
    (hx : exec cfg.engine i o x w = some (r, w')) {n : String} (h : cfg.GatesPassed n w) :
    cfg.GatesPassed n w' where
  registered := h.registered
  completion d hd := by
    obtain ⟨q, hq⟩ := Option.isSome_iff_exists.mp (h.completion d hd)
    rw [promises_mono hx d q hq]
    rfl
  watermark p hp hdep hreq := (h.watermark p hp hdep hreq).trans (watermark_mono hpre hx hp)

private theorem consumers_step (hinv : cfg.Inv w) (hpre : cfg.Pre i H o w)
    (hx : exec cfg.engine i o x w = some (r, w')) (t : Int) :
    w'.state.milestoneConsumersRemaining t = cfg.consumersLeft w' t := by
  rcases exec_milestoneConsumersRemaining hx with ⟨heq, hnone⟩ | ⟨t₀, k, rfl, hk, heq, hlog⟩
  · -- no consumption is on record either
    have hsame : ∀ n, w'.consumed n t = w.consumed n t := by
      intro n
      rcases exec_log hx with hl | ⟨e, hemit, hl⟩
      · simp [World.consumed, hl]
      by_cases hn : i = .worker n
      · subst hn
        have hcount : [e].count (.milestoneConsumed t) = 0 := by
          cases hemit with
          | note e =>
            rw [List.count_singleton]
            cases e with
            | milestoneConsumed t' => exact hpre.2.elim
            | _ => rfl
          | consumeMilestone t' =>
            have := congrFun ((hnone t' rfl).2.symm.trans hl) (.worker n)
            simp at this
          | _ => rfl
        rw [World.consumed_append hl, hcount, Nat.add_zero]
      · simp only [World.consumed, hl, Function.update_of_ne (Ne.symm hn)]
    rw [heq, hinv.consumers]
    simp only [consumersLeft, hsame]
  · -- the branch `n₀` has signalled `t₀`
    obtain ⟨-, n₀, rfl, hmem⟩ := hpre.2
    rw [heq]
    by_cases ht : t = t₀
    · subst ht
      have hold := hinv.consumers t
      rw [hk] at hold
      have hm : cfg.orchestrator.HasConsumers t := by
        by_contra hm
        simp [consumersLeft, hm] at hold
      simp only [consumersLeft, hm, if_true, Option.some.injEq] at hold
      simp only [Function.update_self, consumersLeft, hm, if_true, Option.some.injEq]
      -- it is counted once, and the others as before
      have hother : ∀ n ∈ (cfg.orchestrator.branchesAt t).erase n₀,
          (1 : Int) - w'.consumed n t = 1 - w.consumed n t := by
        intro n hn
        have hne : n ≠ n₀ := ((cfg.orchestrator.branchesAt_nodup t).mem_erase_iff.mp hn).1
        have hth : Thread.worker n ≠ .worker n₀ := by simpa using hne
        simp only [World.consumed, hlog, Function.update_of_ne hth]
      have hself : w'.consumed n₀ t = w.consumed n₀ t + 1 := by
        rw [World.consumed_append hlog, List.count_singleton_self]
      rw [hold, ← List.sum_map_erase _ hmem, ← List.sum_map_erase _ hmem,
        List.map_congr_left hother, hself]
      push_cast
      omega
    · rw [Function.update_of_ne ht, hinv.consumers]
      have hsame : ∀ n, w'.consumed n t = w.consumed n t := by
        intro n
        by_cases hn : n = n₀
        · subst hn
          rw [World.consumed_append hlog, List.count_singleton]
          simp [Ne.symm ht]
        · have hth : Thread.worker n ≠ .worker n₀ := by simpa using hn
          simp only [World.consumed, hlog, Function.update_of_ne hth]
      simp only [consumersLeft, hsame]

private theorem freshContext_step (hinv : cfg.Inv w)
    (hx : exec cfg.engine i o x w = some (r, w')) {h : Nat} (hh : w'.nextContext ≤ h) :
    w'.contexts h = none := by
  rcases exec_contexts hx with ⟨hc, hn⟩ | ⟨-, hn, hc⟩ | ⟨hn, h', -, hc⟩ | ⟨hn, h', cells, -, hc⟩
  · rw [hc]
    exact hinv.freshContext h (by omega)
  · have hne : h ≠ w.nextContext := by omega
    rw [hc, Function.update_of_ne hne]
    exact hinv.freshContext h (by omega)
  · have hold := hinv.freshContext h (by omega)
    rw [hc]
    by_cases hhh : h = h'
    · rw [hhh, Function.update_self]
    · rw [Function.update_of_ne hhh, hold]
  · have hold := hinv.freshContext h (by omega)
    rw [hc, World.setCells]
    by_cases hhh : h = h'
    · subst hhh
      simp [hold]
    · simp only [Function.update_of_ne hhh, hold]

private theorem freshBuffer_step (hinv : cfg.Inv w)
    (hx : exec cfg.engine i o x w = some (r, w')) {b : Nat} (hb : w'.nextBuffer ≤ b) :
    w'.buffers b = none := by
  rcases exec_buffers hx with ⟨hc, hn⟩ | ⟨size, -, hn, hc⟩ | ⟨hn, b', -, hc⟩ | ⟨hn, b', bytes, -, hc⟩
  · rw [hc]
    exact hinv.freshBuffer b (by omega)
  · have hne : b ≠ w.nextBuffer := by omega
    rw [hc, Function.update_of_ne hne]
    exact hinv.freshBuffer b (by omega)
  · have hold := hinv.freshBuffer b (by omega)
    rw [hc]
    by_cases hbb : b = b'
    · rw [hbb, Function.update_self]
    · rw [Function.update_of_ne hbb, hold]
  · have hold := hinv.freshBuffer b (by omega)
    rw [hc, World.overwrite]
    by_cases hbb : b = b'
    · subst hbb
      simp [hold]
    · simp only [Function.update_of_ne hbb, hold]

private theorem nextBuffer_mono (hx : exec cfg.engine i o x w = some (r, w')) :
    w.nextBuffer ≤ w'.nextBuffer := by
  rcases exec_buffers hx with ⟨-, hn⟩ | ⟨_, -, hn, -⟩ | ⟨hn, -⟩ | ⟨hn, -⟩ <;> omega

private theorem stagingLive_step (hinv : cfg.Inv w) (hpre : cfg.Pre i H o w)
    (hx : exec cfg.engine i o x w = some (r, w')) :
    cfg.AllDone w' ∨ ∀ b, cfg.stagingBuffer = some b → (w'.buffers b).isSome := by
  rcases hinv.stagingLive with hdone | hlive
  · exact .inl (allDone_mono hpre hx hdone)
  rcases exec_buffers hx with ⟨hc, -⟩ | ⟨size, -, -, hc⟩ | ⟨-, b', rfl, hc⟩ | ⟨-, b', bytes, -, hc⟩
  · exact .inr (by rwa [hc])
  · refine .inr fun b hb => ?_
    have hne : b ≠ w.nextBuffer := Nat.ne_of_lt (hinv.stagingOld b hb)
    rw [hc, Function.update_of_ne hne]
    exact hlive b hb
  · exact .inl (allDone_mono hpre hx hpre.2.2)
  · refine .inr fun b hb => ?_
    have hb' := hlive b hb
    rw [hc, World.overwrite]
    by_cases hbb : b = b'
    · subst hbb
      simpa using hb'
    · simpa only [Function.update_of_ne hbb] using hb'

private theorem promise_step (hinv : cfg.Inv w) (hpre : cfg.Pre i H o w)
    (hx : exec cfg.engine i o x w = some (r, w')) (n : String) (q : Outcome)
    (h : w'.promises n = some q) : w'.Ended n q := by
  have hgrow := (exec_log_grows hx (.worker n)).subset
  rcases exec_promises hx with heq | ⟨m, q', rfl, hm, heq⟩
  · rw [heq] at h
    exact hgrow (hinv.promise n q h)
  · rw [heq] at h
    by_cases hnm : n = m
    · subst hnm
      obtain rfl : q' = q := by simpa using h
      exact hgrow hpre.2.2
    · rw [Function.update_of_ne hnm] at h
      exact hgrow (hinv.promise n q h)

private theorem started_step (hinv : cfg.Inv w) (hpre : cfg.Pre i H o w)
    (hx : exec cfg.engine i o x w = some (r, w')) (n : String) (h : w'.Started n) :
    cfg.GatesPassed n w' := by
  refine gatesPassed_step hpre hx ?_
  rcases exec_mem_log hx h with h | ⟨rfl, hemit⟩
  · exact hinv.started n h
  · cases hemit
    obtain ⟨m, heq, -, hgates⟩ := hpre.2
    obtain rfl := Thread.worker.inj heq
    exact hgates

/-- A commit or an allocation of a node comes before its end. -/
private theorem prefillDone_step (hpre : cfg.Pre i H o w)
    (hx : exec cfg.engine i o x w = some (r, w')) {n : String} {q : Outcome}
    (hp : cfg.orchestrator.isPrefill n) (hend : w.Ended n q) (h : cfg.PrefillDone n w) :
    cfg.PrefillDone n w' := by
  -- a sole prefiller that has ended commits nothing
  have hcommitting : ∀ m, cfg.Committing i H m w → ¬ cfg.orchestrator.Sole n := by
    intro m hm hs
    obtain rfl := hs.2 m hm.prefill
    exact hm.running.notEnded q hend
  constructor
  · intro hmem
    rcases exec_mem_log hx hmem with hmem | ⟨rfl, hemit⟩
    · exact h.inMemory hmem
    · cases hemit with
      | note => exact hpre.2
      | allocate =>
        obtain ⟨m, heq, hrun⟩ := hpre.2
        obtain rfl := Thread.worker.inj heq
        exact hrun.notEnded q hend
  · intro hlen
    rw [← h.commits hlen]
    rcases exec_log hx with hl | ⟨e, hemit, hl⟩
    · simp [World.commits, hl]
    by_cases hi : i = .worker n
    · subst hi
      rw [World.commits_append hl]
      cases hemit with
      | note e =>
        cases e with
        | commitWatermark ctx t =>
          obtain ⟨m, heq, hrun, -⟩ := hpre.2
          obtain rfl := Thread.worker.inj heq
          exact absurd hend (hrun.notEnded q)
        | _ => simp [Event.committed]
      | _ => simp [Event.committed]
    · simp only [World.commits, hl, Function.update_of_ne (Ne.symm hi)]
  · exact h.nBatch
  · intro hs
    rw [← h.watermark hs]
    rcases exec_watermark hx with heq | ⟨t, rfl, -⟩
    · exact heq
    · obtain ⟨m, hm⟩ := hpre.2.1
      exact absurd hs (hcommitting m hm)
  · intro hs hlen
    rw [← h.prefixSeqLen hs hlen]
    rcases exec_prefixSeqLen hx with heq | ⟨t, rfl, -⟩
    · rw [heq]
    · obtain ⟨m, hm⟩ := hpre.2
      exact absurd hs (hcommitting m hm)

private theorem endOk_step (hpre : cfg.Pre i H o w)
    (hx : exec cfg.engine i o x w = some (r, w')) {n : String} {q : Outcome}
    (hend : w.Ended n q) (h : cfg.EndOk n q w) : cfg.EndOk n q w' where
  prefill hp hq := prefillDone_step hpre hx hp hend (h.prefill hp hq)
  missing t ht p hs hdep hmem :=
    h.missing t ht p hs hdep fun hm => hmem ((exec_log_grows hx _).subset hm)

private theorem ended_step (hinv : cfg.Inv w) (hpre : cfg.Pre i H o w)
    (hx : exec cfg.engine i o x w = some (r, w')) (n : String) (q : Outcome)
    (h : w'.Ended n q) : w'.Started n ∧ cfg.EndOk n q w' := by
  rcases exec_mem_log hx h with h | ⟨rfl, hemit⟩
  · obtain ⟨hs, hok⟩ := hinv.ended n q h
    exact ⟨(exec_log_grows hx _).subset hs, endOk_step hpre hx h hok⟩
  · cases hemit
    obtain ⟨m, heq, hrun, hok⟩ := hpre.2
    obtain rfl := Thread.worker.inj heq
    refine ⟨(exec_log_grows hx _).subset hrun.started, ?_⟩
    simp only [exec, Option.some.injEq, Prod.mk.injEq] at hx
    obtain ⟨-, rfl⟩ := hx
    -- the record of the end itself changes nothing that `EndOk` speaks of
    refine ⟨fun hp hq => ?_, fun t ht p hs hdep hmem => ?_⟩
    · have hd := hok.prefill hp hq
      refine ⟨fun hm => hd.inMemory ?_, fun hlen => ?_, hd.nBatch, hd.watermark,
        hd.prefixSeqLen⟩
      · simpa [World.OutOfMemory, World.record] using hm
      · simpa [World.commits, World.record, Event.committed] using hd.commits hlen
    · refine hok.missing t ht p hs hdep fun hm => hmem ?_
      have := (exec_log_grows (E := cfg.engine) (i := .worker n) (o := .note (.executeEnd q))
        (x := .ok) (w := w) rfl (.worker p)).subset
      exact this hm

private theorem endedOnce_step (hinv : cfg.Inv w) (hpre : cfg.Pre i H o w)
    (hx : exec cfg.engine i o x w = some (r, w')) (n : String) (q q' : Outcome)
    (h : w'.Ended n q) (h' : w'.Ended n q') : q = q' := by
  rcases exec_mem_log hx h with h | ⟨hi, hemit⟩ <;> rcases exec_mem_log hx h' with h' | ⟨hi', hemit'⟩
  · exact hinv.endedOnce n q q' h h'
  · subst hi'
    cases hemit'
    obtain ⟨m, heq, hrun, -⟩ := hpre.2
    obtain rfl := Thread.worker.inj heq
    exact absurd h (hrun.notEnded q)
  · subst hi
    cases hemit
    obtain ⟨m, heq, hrun, -⟩ := hpre.2
    obtain rfl := Thread.worker.inj heq
    exact absurd h' (hrun.notEnded q')
  · cases hemit
    cases hemit'
    rfl

private theorem exported_step (hinv : cfg.Inv w) (hpre : cfg.Pre i H o w)
    (hx : exec cfg.engine i o x w = some (r, w')) (s : SeqState) (bytes : List UInt8)
    (h : w'.Exported s bytes) : s ≠ [] ∧ cfg.engine.exports s bytes := by
  obtain ⟨j, hj⟩ := h
  rcases exec_mem_log hx hj with hj | ⟨rfl, hemit⟩
  · exact hinv.exported s bytes ⟨j, hj⟩
  · cases hemit with
    | note => exact hpre.2.elim
    | getData hctx hb b cap =>
      obtain ⟨-, -, -, ctx', hctx', hne, hcap⟩ := hpre.2
      obtain rfl := Option.some.inj (hctx.symm.trans hctx')
      have hsize := cfg.engine.exports_size _ _ hb
      have hfit := hsize.trans hcap
      simp only [fitting, hfit, if_true]
      exact ⟨hne, hb⟩

private theorem forked_step (hinv : cfg.Inv w) (hpre : cfg.Pre i H o w)
    (hx : exec cfg.engine i o x w = some (r, w')) (j : Thread) (len : Int) (bytes : List UInt8)
    (h : .forked len bytes ∈ w'.log j) (hgood : cfg.Good w') : cfg.ForkOk w' len bytes := by
  have hgrow := exec_log_grows hx
  refine ForkOk.grows hgrow ?_
  rcases exec_mem_log hx h with h | ⟨rfl, hemit⟩
  · exact hinv.forked j len bytes h (hgood.grows hgrow)
  · cases hemit with
    | note => exact hpre.2.elim
    | noteFork => exact hpre.2 (hgood.grows hgrow)

private theorem commits_step (hinv : cfg.Inv w) (hpre : cfg.Pre i H o w)
    (hx : exec cfg.engine i o x w = some (r, w')) (j : Thread) :
    (w'.commits j).Pairwise (· < ·) := by
  have hold := hinv.commits j
  rcases exec_log hx with hl | ⟨e, hemit, hl⟩
  · simpa [World.commits, hl] using hold
  by_cases hj : j = i
  · subst hj
    rw [World.commits_append hl]
    cases hemit with
    | note e =>
      cases e with
      | commitWatermark ctx t =>
        obtain ⟨n, rfl, -, hc⟩ := hpre.2
        simp only [List.pairwise_append]
        exact ⟨hold, List.pairwise_singleton _ _, fun a ha b hb => by
          rw [List.mem_singleton.mp hb]
          exact hc.increasing a ha⟩
      | _ => simpa [Event.committed] using hold
    | _ => simpa [Event.committed] using hold
  · simpa only [World.commits, hl, Function.update_of_ne hj] using hold

private theorem snapshots_step (hinv : cfg.Inv w) (hpre : cfg.Pre i H o w)
    (hx : exec cfg.engine i o x w = some (r, w')) (t : Int) (snap : PrefixKvSnapshot)
    (h : w'.state.prefixSnapshots t = some snap) : cfg.SnapshotOk w' t snap := by
  refine SnapshotOk.grows (exec_log_grows hx) ?_
  rcases exec_prefixSnapshots hx with heq | ⟨t', data, rfl, heq⟩
  · rw [heq] at h
    exact hinv.snapshots t snap h
  · rw [heq] at h
    by_cases ht : t = t'
    · subst ht
      rw [Function.update_self] at h
      obtain rfl := Option.some.inj h
      exact hpre.2.2.1
    · rw [Function.update_of_ne ht] at h
      exact hinv.snapshots t snap h

theorem FiledUpTo.grows {c : Int} (h : cfg.FiledUpTo c w) (hg : ∀ j, w.log j <+: w'.log j)
    (hs : ∀ t, (w.state.prefixSnapshots t).isSome → (w'.state.prefixSnapshots t).isSome) :
    cfg.FiledUpTo c w' :=
  fun p hp hmem t ht hle hm => hs t (h p hp (fun hm => hmem ((hg _).subset hm)) t ht hle hm)

private theorem filed_step (hinv : cfg.Inv w) (hpre : cfg.Pre i H o w)
    (hx : exec cfg.engine i o x w = some (r, w')) :
    cfg.FiledUpTo (w'.state.watermark - 1) w' := by
  refine FiledUpTo.grows ?_ (exec_log_grows hx) (fun _ h => exec_snapshots_mono hx h)
  rcases exec_watermark hx with heq | ⟨t, rfl, heq⟩
  · rw [heq]
    exact hinv.filed
  · rw [heq]
    exact hpre.2.2.1

/-- An action under its precondition keeps the invariant. -/
theorem inv_step (hinv : cfg.Inv w) (hpre : cfg.Pre i H o w)
    (hx : exec cfg.engine i o x w = some (r, w')) : cfg.Inv w' where
  staging := (exec_materializedBranchBuffer hx).trans hinv.staging
  milestones t := by
    rw [exec_snapshotMilestones hx]
    exact hinv.milestones t
  consumers := consumers_step hinv hpre hx
  freshContext _ := freshContext_step hinv hx
  freshBuffer _ := freshBuffer_step hinv hx
  stagingOld b hb := (hinv.stagingOld b hb).trans_le (nextBuffer_mono hx)
  stagingLive := stagingLive_step hinv hpre hx
  promise := promise_step hinv hpre hx
  started := started_step hinv hpre hx
  ended := ended_step hinv hpre hx
  endedOnce := endedOnce_step hinv hpre hx
  exported := exported_step hinv hpre hx
  forked := forked_step hinv hpre hx
  commits := commits_step hinv hpre hx
  snapshots := snapshots_step hinv hpre hx
  watermark p hp := by
    rcases exec_watermark hx with heq | ⟨t, rfl, heq⟩
    · rw [heq]
      exact hinv.watermark p hp
    · rw [heq]
      exact .inr (hpre.2.2.2 p hp).1
  filed := filed_step hinv hpre hx

/-! ## Free mutexes -/

/-- Without the guard, or with everybody gone, the canonical triple stays. -/
private theorem guarded_step (hpre : cfg.Pre i H o w)
    (hx : exec cfg.engine i o x w = some (r, w')) (hH : .llamaApiMutex ∉ H) :
    cfg.AllDone w ∨ Guarded w w' := by
  rcases exec_buffers hx with ⟨hb, -⟩ | ⟨size, rfl, -⟩ | ⟨-, b, rfl, -⟩ | ⟨-, b, bytes, ho, -⟩
  · refine .inr ⟨?_, ?_, ?_, hb⟩
    · rcases exec_prefixSeqLen hx with heq | ⟨t, rfl, -⟩
      · exact heq
      · obtain ⟨n, hn⟩ := hpre.2
        exact absurd hn.guard hH
    · rcases exec_prefixKvSerialBytes hx with heq | ⟨t, rfl, -⟩
      · exact heq
      · obtain ⟨n, hn⟩ := hpre.2
        exact absurd hn.guard hH
    · rcases exec_prefixSnapshots hx with heq | ⟨t, data, rfl, -⟩
      · exact heq
      · obtain ⟨⟨n, hn⟩, -⟩ := hpre.2
        exact absurd hn.guard hH
  · exact absurd hpre.2.1 hH
  · exact .inl hpre.2.2
  · rcases ho with rfl | ⟨h, cap, seq, rfl⟩
    · exact absurd hpre.2.1 hH
    · exact absurd hpre.2.1 hH

/-- The canonical triple is what the guard protects. -/
theorem TripleOk.guarded (hg : ∀ j, w.log j <+: w'.log j) (h : cfg.TripleOk w)
    (hsame : Guarded w w') : cfg.TripleOk w' := by
  have hbytes : ∀ b n, w'.branchBytes b n = w.branchBytes b n := by
    intro b n
    simp only [World.branchBytes, World.bytesAt, hsame.buffers]
  unfold TripleOk at h ⊢
  rw [hsame.prefixSeqLen, hsame.prefixKvSerialBytes, hbytes]
  exact ⟨h.1.grows hg, h.2⟩

/-- Without `watermark_mutex`, the watermark and the snapshots stay. -/
private theorem mutex_step (hpre : cfg.Pre i H o w)
    (hx : exec cfg.engine i o x w = some (r, w')) (hH : .watermarkMutex ∉ H) :
    w'.state.watermark = w.state.watermark ∧
      w'.state.prefixSnapshots = w.state.prefixSnapshots := by
  constructor
  · rcases exec_watermark hx with heq | ⟨t, rfl, -⟩
    · exact heq
    · obtain ⟨⟨n, hn⟩, -⟩ := hpre.2
      exact absurd hn.mutex hH
  · rcases exec_prefixSnapshots hx with heq | ⟨t, data, rfl, -⟩
    · exact heq
    · obtain ⟨⟨n, hn⟩, -⟩ := hpre.2
      exact absurd hn.mutex hH

theorem MutexInv.same (hg : ∀ j, w.log j <+: w'.log j) (h : cfg.MutexInv w)
    (hw : w'.state.watermark = w.state.watermark)
    (hs : w'.state.prefixSnapshots = w.state.prefixSnapshots) : cfg.MutexInv w' := by
  unfold MutexInv at h ⊢
  rw [hw]
  refine h.grows hg fun t ht => ?_
  rwa [hs]

/-- An action of a thread keeps the invariants of the mutexes it does not hold. -/
theorem lock_step {l : Lock} (hpre : cfg.Pre i H o w)
    (hx : exec cfg.engine i o x w = some (r, w')) (hl : l ∉ H) (h : cfg.LockInv l w) :
    cfg.LockInv l w' := by
  have hgrow := exec_log_grows hx
  cases l with
  | llamaApiMutex =>
    intro hgood
    rcases h (hgood.grows hgrow) with hdone | htriple
    · exact .inl (allDone_mono hpre hx hdone)
    · rcases guarded_step hpre hx hl with hdone | hsame
      · exact .inl (allDone_mono hpre hx hdone)
      · exact .inr (htriple.guarded hgrow hsame)
  | watermarkMutex =>
    obtain ⟨hw, hs⟩ := mutex_step hpre hx hl
    exact MutexInv.same hgrow h hw hs
  | _ => trivial

/-! ## What others rely on -/

theorem Rely.refl (cfg : Pipeline) (i : Thread) (H : Finset Lock) (w : World) :
    cfg.Rely i H w w where
  log := rfl
  grows _ := List.prefix_rfl
  contexts _ _ h _ := h
  promises _ _ h := h
  tasks _ _ h := h
  ownPromise _ _ := rfl
  ownTask _ _ := rfl
  activeBuffers _ _ := rfl
  guarded _ _ _ _ := ⟨rfl, rfl, rfl, rfl⟩
  mutex _ := ⟨rfl, rfl⟩
  watermark _ _ := le_refl _
  sole _ _ _ := ⟨rfl, rfl⟩

theorem Rely.live {n : String} (h : cfg.Rely (.worker n) H w w') (hl : cfg.Live n w) :
    cfg.Live n w' :=
  ⟨hl.1, (h.ownTask n rfl).trans hl.2⟩

theorem Rely.allDone (h : cfg.Rely i H w w') (hd : cfg.AllDone w) : cfg.AllDone w' := by
  intro n hn
  obtain ⟨q, hq⟩ := Option.isSome_iff_exists.mp (hd n hn)
  rw [h.tasks n q hq]
  rfl

theorem Rely.trans {w'' : World} (h : cfg.Rely i H w w') (h' : cfg.Rely i H w' w'') :
    cfg.Rely i H w w'' where
  log := h'.log.trans h.log
  grows j := (h.grows j).trans (h'.grows j)
  contexts k ctx hk ho := h'.contexts k ctx (h.contexts k ctx hk ho) ho
  promises n q hq := h'.promises n q (h.promises n q hq)
  tasks n q hq := h'.tasks n q (h.tasks n q hq)
  ownPromise n hn := (h'.ownPromise n hn).trans (h.ownPromise n hn)
  ownTask n hn := (h'.ownTask n hn).trans (h.ownTask n hn)
  activeBuffers hi hd := (h'.activeBuffers hi (h.allDone hd)).trans (h.activeBuffers hi hd)
  guarded hH n hn hl := by
    subst hn
    have h₁ := h.guarded hH n rfl hl
    have h₂ := h'.guarded hH n rfl (h.live hl)
    exact ⟨h₂.prefixSeqLen.trans h₁.prefixSeqLen,
      h₂.prefixKvSerialBytes.trans h₁.prefixKvSerialBytes,
      h₂.prefixSnapshots.trans h₁.prefixSnapshots, h₂.buffers.trans h₁.buffers⟩
  mutex hH := ⟨(h'.mutex hH).1.trans (h.mutex hH).1, (h'.mutex hH).2.trans (h.mutex hH).2⟩
  watermark p hp := (h.watermark p hp).trans (h'.watermark p hp)
  sole p hp hi := ⟨(h'.sole p hp hi).1.trans (h.sole p hp hi).1,
    (h'.sole p hp hi).2.trans (h.sole p hp hi).2⟩

theorem Rely.mono {H' : Finset Lock} (hH : H ⊆ H') (h : cfg.Rely i H' w w') :
    cfg.Rely i H w w' where
  log := h.log
  grows := h.grows
  contexts := h.contexts
  promises := h.promises
  tasks := h.tasks
  ownPromise := h.ownPromise
  ownTask := h.ownTask
  activeBuffers := h.activeBuffers
  guarded hg := h.guarded (hH hg)
  mutex hm := h.mutex (hH hm)
  watermark := h.watermark
  sole := h.sole

/-- Nobody touches a context that belongs to another thread. -/
private theorem contexts_step (hinv : cfg.Inv w) (hpre : cfg.Pre i H o w)
    (hx : exec cfg.engine i o x w = some (r, w')) {j : Thread} (hj : j ≠ i) {h : Nat}
    {ctx : LlamaContext} (hh : w.contexts h = some ctx) (ho : ctx.owner = j) :
    w'.contexts h = some ctx := by
  have howned : ∀ h', w.Owns i h' → h ≠ h' := by
    rintro h' hown rfl
    exact hj (ho.symm.trans (hown ctx hh))
  rcases exec_contexts hx with ⟨hc, -⟩ | ⟨-, -, hc⟩ | ⟨-, h', rfl, hc⟩ | ⟨-, h', cells, hop, hc⟩
  · rw [hc, hh]
  · have hne : h ≠ w.nextContext := by
      rintro rfl
      cases (hinv.freshContext _ le_rfl).symm.trans hh
    rw [hc, Function.update_of_ne hne, hh]
  · rw [hc, Function.update_of_ne (howned h' hpre.2), hh]
  · have hown : w.Owns i h' := by
      rcases hop with ⟨batch, rfl⟩ | ⟨p, n, seq, rfl⟩
      · obtain ⟨n, rfl, hdec⟩ := hpre.2
        obtain ⟨_, _, _, _, c, -, hc, hco, -⟩ := hdec.batch
        intro ctx' hctx'
        obtain rfl := Option.some.inj (hc.symm.trans hctx')
        exact hco
      · exact hpre.2
    rw [hc, World.setCells]
    simp only [Function.update_of_ne (howned h' hown), hh]

/-- An action is covered by what every other thread relies on. -/
theorem rely_step {j : Thread} {H' : Finset Lock} (hinv : cfg.Inv w) (hpre : cfg.Pre i H o w)
    (hx : exec cfg.engine i o x w = some (r, w')) (hj : j ≠ i) (hd : Disjoint H' H) :
    cfg.Rely j H' w w' where
  log := exec_log_other hx hj
  grows := exec_log_grows hx
  contexts _ _ := contexts_step hinv hpre hx hj
  promises := promises_mono hx
  tasks := tasks_mono hpre hx
  ownPromise n hn := by
    rcases exec_promises hx with heq | ⟨m, q, rfl, -, heq⟩
    · rw [heq]
    · have hne : n ≠ m := by
        rintro rfl
        exact hj (hn.trans hpre.2.1.symm)
      rw [heq, Function.update_of_ne hne]
  ownTask n hn := by
    rcases exec_tasks hx with heq | ⟨m, q, rfl, heq⟩
    · rw [heq]
    · have hne : n ≠ m := by
        rintro rfl
        exact hj (hn.trans hpre.2.symm)
      rw [heq, Function.update_of_ne hne]
  activeBuffers hi hdone := by
    rcases exec_activeBuffers hx with heq | ⟨b, rfl⟩ | rfl
    · exact heq
    · -- whoever registers a buffer has not ended
      obtain ⟨hact, n, rfl⟩ := hpre
      have := hdone n hact.1
      rw [hact.2] at this
      cases this
    · exact absurd (hi.trans hpre.2.symm) hj
  guarded hH n hn hl := by
    rcases guarded_step hpre hx (Finset.disjoint_left.mp hd hH) with hdone | hsame
    · have := hdone n hl.1
      rw [hl.2] at this
      cases this
    · exact hsame
  mutex hH := mutex_step hpre hx (Finset.disjoint_left.mp hd hH)
  watermark p hp := watermark_mono hpre hx hp
  sole p hp hjp := by
    -- and the sole prefiller is another thread
    have hcommitting : ∀ n, ¬ cfg.Committing i H n w := by
      intro n hn
      obtain rfl := hp.2 n hn.prefill
      exact hj (hjp.trans hn.thread.symm)
    constructor
    · rcases exec_watermark hx with heq | ⟨t, rfl, -⟩
      · exact heq
      · obtain ⟨n, hn⟩ := hpre.2.1
        exact absurd hn (hcommitting n)
    · rcases exec_prefixSeqLen hx with heq | ⟨t, rfl, -⟩
      · exact heq
      · obtain ⟨n, hn⟩ := hpre.2
        exact absurd hn (hcommitting n)

/-- A condition becomes true by an action that publishes, and the condition's
    variable is among those the action touches. -/
theorem exec_publishes {E : Engine} {c : Cond} (hx : exec E i o x w = some (r, w'))
    (hold : c.holds w = false) (hnew : c.holds w' = true) :
    Publishes o ∧ c.cv ∈ touches o r := by
  cases c with
  | watermark t =>
    rcases exec_watermark hx with heq | ⟨t', rfl, -⟩
    · simp only [Cond.holds, heq] at hold hnew
      cases hold.symm.trans hnew
    · exact ⟨trivial, by simp [Cond.cv, touches]⟩
  | prefillComplete =>
    rcases exec_prefillComplete hx with heq | rfl
    · simp only [Cond.holds, heq] at hold hnew
      cases hold.symm.trans hnew
    · exact ⟨trivial, by simp [Cond.cv, touches]⟩
  | milestoneConsumers t =>
    rcases exec_milestoneConsumersRemaining hx with ⟨heq, -⟩ | ⟨t', k, rfl, hk, heq, -⟩
    · simp only [Cond.holds, heq] at hold hnew
      cases hold.symm.trans hnew
    · simp only [exec, hk, Option.some.injEq, Prod.mk.injEq] at hx
      obtain ⟨rfl, -⟩ := hx
      by_cases ht : t = t'
      · subst ht
        have hle : k - 1 ≤ 0 := by
          simpa [Cond.holds, heq] using hnew
        exact ⟨trivial, by simp [Cond.cv, touches, hle]⟩
      · simp only [Cond.holds, heq, Function.update_of_ne ht] at hold hnew
        cases hold.symm.trans hnew

/-- Whoever publishes has the mutex of the conditions. -/
theorem publishes_mutex (hpre : cfg.Pre i H o w) (ho : Publishes o) : .watermarkMutex ∈ H := by
  cases o with
  | setWatermark t =>
    obtain ⟨⟨n, hn⟩, -⟩ := hpre.2
    exact hn.mutex
  | setPrefillComplete => exact hpre.2
  | consumeMilestone t => exact hpre.2.1
  | _ => cases ho

/-- A condition becomes true under its mutex, and its condition variable is owed a
    notification. -/
theorem cond_step {c : Cond} (hpre : cfg.Pre i H o w)
    (hx : exec cfg.engine i o x w = some (r, w')) (hold : c.holds w = false)
    (hnew : c.holds w' = true) : .watermarkMutex ∈ H ∧ c.cv ∈ touches o r := by
  obtain ⟨ho, hcv⟩ := exec_publishes hx hold hnew
  exact ⟨publishes_mutex hpre ho, hcv⟩

end InvStep

/-- The proof outline of `execute_pipeline`. -/
def outline (cfg : Pipeline) : Monitor.Outline (machine cfg.engine) Error where
  rank := rank
  Inv := cfg.Inv
  LockInv := cfg.LockInv
  Rely := cfg.Rely
  Pre := cfg.Pre
  Active := cfg.Active
  Lossy := cfg.Lossy
  Waits := cfg.Waits
  Done := cfg.Done
  touches := touches
  rely_refl := Rely.refl cfg
  rely_trans := Rely.trans
  rely_mono := Rely.mono
  inv_step := inv_step
  lock_step := fun _ hpre hx hl h => lock_step hpre hx hl h
  rely_step := rely_step
  pre_active := And.left
  lossy_step := by
    rintro i o x r w w' hx ⟨n, hn, hmem⟩
    exact ⟨n, hn, (exec_log_grows hx _).subset hmem⟩
  cond_step := fun _ hpre hx hold hnew => cond_step hpre hx hold hnew

end Pipeline

end SwarmKV
