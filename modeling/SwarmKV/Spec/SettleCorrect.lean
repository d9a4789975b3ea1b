import SwarmKV.Spec.Lifecycle
import SwarmKV.Spec.FailureCorrect

/-!
# Settled obligations

A worker that has ended has given its promise a value and released its milestone, each
exactly once, if all its upstream nodes are registered and it did not run out of memory
between its release and the end of `execute()`. Behind an upstream node that is not
registered it ends in its gate, outside the `try` block, and gives nothing.
-/

namespace SwarmKV.Pipeline

open Monitor

variable {cfg : Pipeline} {c : Config cfg.engine} {tr : Trace (machine cfg.engine)}
  {n : String}

/-- The worker of node `n` has given what it owes, once. -/
structure Settled (cfg : Pipeline) (n : String) (tr : Trace (machine cfg.engine)) (w : World) :
    Prop where
  /-- The promise has been given one value, which is there. -/
  once : settlements tr n = 1
  fulfilled : (w.promises n).isSome
  /-- The milestone has been released once. -/
  released : 0 < cfg.orchestrator.req n → w.consumed n (cfg.orchestrator.req n) = 1

/-- How the worker has lived when it has ended. -/
theorem ended_life (hr : cfg.initial.Run tr c) (hn : n ∈ cfg.orchestrator.names)
    (hf : Finished c n) :
    (Observer.state (lifeWatch cfg) tr (.worker n)).Ended cfg.orchestrator n := by
  obtain ⟨-, hfollows⟩ := lives hr
  obtain ht | ⟨e, ht⟩ := TState.eq_of_finished hf
  · exact hfollows.of_ret ht n rfl hn
  · exact hfollows.of_throw ht n rfl hn

/-- When the gate has thrown, nothing is given. -/
private theorem settlements_eq (hr : cfg.initial.Run tr c) (hn : n ∈ cfg.orchestrator.names)
    (hf : Finished c n) :
    settlements tr n = if cfg.orchestrator.DepsRegistered n then 1 else 0 := by
  rw [((lives hr).1 n).settled]
  obtain ⟨hreg, hone, -⟩ | ⟨hreg, hzero⟩ := ended_life hr hn hf
  · rw [if_pos hreg, hone]
  · rw [if_neg hreg, hzero]

/-- When the gate has not thrown, the milestone is released, once more after an allocation
    that failed behind the release. -/
private theorem consumed_eq (hr : cfg.initial.Run tr c) (hn : n ∈ cfg.orchestrator.names)
    (hf : Finished c n) (hreg : cfg.orchestrator.DepsRegistered n)
    (hpos : 0 < cfg.orchestrator.req n) :
    c.data.consumed n (cfg.orchestrator.req n) = 1 ↔ ¬ cfg.StarvedAfterRelease n c.data := by
  have hlife := (lives hr).1 n
  rw [hlife.consumed, if_pos rfl, ← hlife.late]
  obtain ⟨-, -, hreleased⟩ | ⟨hunreg, -⟩ := ended_life hr hn hf
  · rw [hreleased, if_pos hpos]
    split <;> simp_all
  · exact absurd hreg hunreg

/-- A worker that has ended has settled its obligations exactly if its upstream nodes are
    registered and it has not run out of memory behind its release. -/
private theorem settled_iff (hr : cfg.initial.Run tr c) (hn : n ∈ cfg.orchestrator.names)
    (hf : Finished c n) : cfg.Settled n tr c.data ↔ cfg.orchestrator.DepsRegistered n ∧
      (0 < cfg.orchestrator.req n → ¬ cfg.StarvedAfterRelease n c.data) := by
  have hc : cfg.Reachable c := hr.reaches
  constructor
  · intro h
    have hreg : cfg.orchestrator.DepsRegistered n := by
      by_contra hunreg
      have hone := h.once
      rw [settlements_eq hr hn hf, if_neg hunreg] at hone
      cases hone
    exact ⟨hreg, fun hpos => (consumed_eq hr hn hf hreg hpos).mp (h.released hpos)⟩
  · intro h
    obtain ⟨hreg, hmemory⟩ := h
    refine ⟨?_, (hc.done hn hreg hf).1, fun hpos => ?_⟩
    · rw [settlements_eq hr hn hf, if_pos hreg]
    · exact (consumed_eq hr hn hf hreg hpos).mpr (hmemory hpos)

/-- Nobody waits for the end of a node that has ended behind registered nodes. -/
private theorem not_awaited (hc : cfg.Reachable c) (hn : n ∈ cfg.orchestrator.names)
    (hf : Finished c n) (hreg : cfg.orchestrator.DepsRegistered n) {m : String}
    (hm : c.AtOp (.worker m) (.awaitCompletion n)) : c.Enabled (.worker m) := by
  obtain ⟨k, hk⟩ := hm
  refine ⟨.ok, ?_⟩
  simp [Config.step, hk, exec, (hc.done hn hreg hf).1]

/-- The consumer count of a milestone is used up when its branches have ended. -/
private theorem consumers_done (hc : cfg.Reachable c) {t : Int}
    (hall : ∀ b ∈ cfg.orchestrator.branchesAt t, Finished c b ∧ cfg.orchestrator.DepsRegistered b) :
    (Cond.milestoneConsumers t).holds c.data = true := by
  have hinv := (reachable_holds hc).inv
  by_contra hholds
  obtain ⟨b, hb, hzero⟩ := hinv.exists_unconsumed (Bool.not_eq_true _ ▸ hholds)
  obtain ⟨hname, hreq⟩ := Orchestrator.mem_branchesAt.mp hb
  obtain ⟨hf, hreg⟩ := hall b hb
  have hpos : 0 < t := by
    by_contra hneg
    -- without a milestone there is no count
    have hcount := hinv.consumers t
    rw [consumersLeft, if_neg fun h => hneg h.1] at hcount
    simp [Cond.holds, hcount] at hholds
  subst hreq
  have hsignal := (hc.done hname hreg hf).2.2 hpos
  omega

/-- Workers that have ended have settled their obligations exactly if their upstream nodes are
    registered and no allocation failed behind their release. Where the upstream nodes are
    registered, neither their dependents nor the prefiller wait for them any longer. -/
theorem settles_iff (hr : cfg.initial.Run tr c) :
    (∀ n ∈ cfg.orchestrator.names, Finished c n → (cfg.Settled n tr c.data ↔
      cfg.orchestrator.DepsRegistered n ∧
        (0 < cfg.orchestrator.req n → ¬ cfg.StarvedAfterRelease n c.data))) ∧
    (∀ n ∈ cfg.orchestrator.names, Finished c n → cfg.orchestrator.DepsRegistered n →
      ∀ m, c.AtOp (.worker m) (.awaitCompletion n) → c.Enabled (.worker m)) ∧
    ∀ t, (∀ b ∈ cfg.orchestrator.branchesAt t, Finished c b ∧ cfg.orchestrator.DepsRegistered b) →
      (Cond.milestoneConsumers t).holds c.data = true :=
  ⟨fun _ => settled_iff hr, fun _ hn hf hreg _ => not_awaited hr.reaches hn hf hreg,
    fun _ => consumers_done hr.reaches⟩

/-- The toy branch that forks at 1 settles its obligations. -/
theorem settles_iff_toy : ∃ tr, (Toy.star 1 false 1).initial.Run tr
    ((Toy.star 1 false 1).after Toy.endAtOne) ∧
    (Toy.star 1 false 1).Settled "B" tr ((Toy.star 1 false 1).after Toy.endAtOne).data := by
  obtain ⟨tr, hr⟩ := Config.Reaches.exists_run (reachable_after _ Toy.endAtOne)
  have hreg : (Toy.star 1 false 1).orchestrator.DepsRegistered "B" := by decide
  have hmemory : ¬ (Toy.star 1 false 1).StarvedAfterRelease "B"
      ((Toy.star 1 false 1).after Toy.endAtOne).data := by
    unfold StarvedAfterRelease
    decide +kernel
  exact ⟨tr, hr, ((settles_iff hr).1 "B" (by decide) (by decide +kernel)).mpr
    ⟨hreg, fun _ => hmemory⟩⟩

/-- Who waits for the end of a node does not start before it. -/
private theorem started_upstream {w : World} {d : String} (hinv : cfg.Inv w) (hs : w.Started n)
    (hd : cfg.AwaitsEnd n d) : w.Started d := by
  obtain ⟨r, hr⟩ := hinv.ended_of_awaitsEnd hs hd
  exact (hinv.ended d r hr).1

/-- A branch of an accepted graph ends behind a node that is not registered, and leaves its
    promise without a value; the branch behind it does not end in any run, and
    `execute_pipeline` does not return. -/
theorem not_settles : Toy.dangling.orchestrator.validateAcyclic = some (.ok ()) ∧
    (∃ tr c, Toy.dangling.initial.Run tr c ∧ Finished c "A" ∧
      ¬ Toy.dangling.Settled "A" tr c.data) ∧
    ∀ c, Toy.dangling.Reachable c → ¬ Finished c "B" ∧ ¬ Returned c := by
  refine ⟨by decide +kernel, ?_, fun c hc => ?_⟩
  · obtain ⟨tr, hr⟩ := Config.Reaches.exists_run (reachable_after Toy.dangling (Toy.steps "A" 1))
    refine ⟨tr, _, hr, by decide +kernel, fun hsettled => ?_⟩
    exact absurd hsettled.fulfilled (by decide +kernel)
  · have hinv := (reachable_holds hc).inv
    have hB : ¬ Finished c "B" := by
      intro hf
      -- `B` waits for `A`, which waits for a node that is not there
      obtain ⟨-, ⟨r, hr⟩, -⟩ := hc.done (by decide) (by decide) hf
      have hA := started_upstream hinv (hinv.ended _ r hr).1
        (show "A" ∈ Toy.dangling.orchestrator.completionDeps "B" by decide)
      have hX := started_upstream hinv hA
        (show "X" ∈ Toy.dangling.orchestrator.completionDeps "A" by decide)
      exact absurd (hinv.started "X" hX).registered (by decide)
    refine ⟨hB, fun hret => hB ?_⟩
    have hfinished : (c.threads .main).finished := by
      rw [show c.threads .main = .run (.ret ()) from hret]
      rfl
    exact (hc.main_returns hfinished).2.2 "B" (by decide)

end SwarmKV.Pipeline
