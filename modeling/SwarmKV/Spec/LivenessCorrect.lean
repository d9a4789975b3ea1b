import SwarmKV.Spec.Stuck
import SwarmKV.Spec.Toy

/-!
# Who is released

Waiters behind a prefiller that has ended, the waits between a paused prefiller and its
branches, and graphs in which the branches wait for nothing but the prefiller.
-/

namespace SwarmKV.Pipeline

variable {cfg : Pipeline} {c c' : Config cfg.engine} {n p : String} {W : Int}

/-! ## Behind the end of the prefiller -/

/-- A waiter for watermark `W` does not wait any more when nobody moves. -/
def Released (c : Config cfg.engine) (n : String) (W : Int) : Prop :=
  ∀ c', c.Reaches c' → c'.Terminal → ¬ c'.WaitsFor (.worker n) (.watermark W)

/-- What stays of the world `w₀` once the prefiller has ended with `r`. -/
structure AfterPrefill (p : String) (r : Outcome) (w₀ w : World) : Prop where
  ended : w.Ended p r
  watermark : w.state.watermark = w₀.state.watermark
  inMemory : ¬ w₀.OutOfMemory p → ¬ w.OutOfMemory p

/-- The prefiller alone publishes watermarks, and it has done so. -/
private theorem AfterPrefill.step (hp : cfg.orchestrator.Sole p) (hc : cfg.Reachable c)
    (hs : c.Step c') {r : Outcome} {w₀ : World} (h : AfterPrefill p r w₀ c.data) :
    AfterPrefill p r w₀ c'.data := by
  obtain heq | ⟨i, o, x, q, hpre, hx⟩ := hc.exec hs
  · rw [heq]
    exact h
  refine ⟨(exec_log_grows hx _).subset h.ended, ?_, fun hmem hout => ?_⟩
  · obtain heq | ⟨t, rfl, -⟩ := exec_watermark hx
    · exact heq.trans h.watermark
    · obtain ⟨⟨m, hm⟩, -⟩ := hpre.2
      obtain rfl := hp.2 m hm.prefill
      exact absurd h.ended (hm.running.notEnded r)
  · -- after its end, a node allocates nothing
    obtain hold | ⟨rfl, hemit⟩ := exec_mem_log hx hout
    · exact h.inMemory hmem hold
    · cases hemit with
      | note e => exact hpre.2
      | allocate =>
        obtain ⟨m, hm, hrunning⟩ := hpre.2
        cases hm
        exact hrunning.notEnded r h.ended

/-- What holds after the end of the prefiller holds for the rest of the run. -/
private theorem AfterPrefill.reaches (hp : cfg.orchestrator.Sole p) (hc : cfg.Reachable c)
    {r : Outcome} (hend : c.data.Ended p r) (hr : c.Reaches c') :
    cfg.Reachable c' ∧ AfterPrefill p r c.data c'.data :=
  hr.invariant (P := fun c' => cfg.Reachable c' ∧ AfterPrefill p r c.data c'.data)
    (fun _ _ h hs => ⟨h.1.tail hs, h.2.step hp h.1 hs⟩) ⟨hc, hend, rfl, id⟩

/-- A waiter for more than the prefiller has published waits forever. -/
theorem Reachable.waits_forever (hp : cfg.orchestrator.Sole p) (hc : cfg.Reachable c)
    {r : Outcome} (hend : c.data.Ended p r) (hlt : c.data.state.watermark < W)
    (hw : c.WaitsFor (.worker n) (.watermark W)) (hr : c.Reaches c') :
    c'.WaitsFor (.worker n) (.watermark W) := by
  induction hr with
  | refl => exact hw
  | tail hr hs ih =>
    obtain ⟨-, h⟩ := AfterPrefill.reaches hp hc hend hr
    refine ih.step ?_ hs
    show decide (W ≤ _) = false
    rw [h.watermark]
    simpa using hlt

/-- A waiter behind the end of the prefiller is released if the prefiller has published
    what it waits for and did not run out of memory, and only if it has published it; a
    prefiller that has returned has published the length of its document. -/
theorem released_iff (hp : cfg.orchestrator.Sole p) (hc : cfg.Reachable c) {r : Outcome}
    (hend : c.data.Ended p r) (hw : c.WaitsFor (.worker n) (.watermark W)) :
    (W ≤ c.data.state.watermark → ¬ c.data.OutOfMemory p → Released c n W) ∧
      (Released c n W → W ≤ c.data.state.watermark) ∧
      (r = .ok () → c.data.state.watermark = (cfg.doc p).length ∧ ¬ c.data.OutOfMemory p) := by
  refine ⟨fun hle hmem c' hr ht hw' => ?_, fun hrel => ?_, fun hok => ?_⟩
  · obtain ⟨hc', h'⟩ := AfterPrefill.reaches hp hc hend hr
    have h := reachable_holds hc'
    obtain hnot | ⟨q, hq, hout⟩ := h.blocked_waiter (h.free_of_terminal nonBlocking ht) (ht _) hw'
    · have hnot : decide (W ≤ c'.data.state.watermark) = false := hnot
      rw [h'.watermark] at hnot
      simp [hle] at hnot
    · rw [hp.2 q hq] at hout
      exact h'.inMemory hmem hout
  · by_contra hnot
    obtain ⟨c', hr, ht⟩ := hc.exists_terminal
    exact hrel c' hr ht (hc.waits_forever hp hend (by omega) hw hr)
  · have hdone := ((reachable_holds hc).inv.ended p r hend).2.prefill hp.1 hok
    exact ⟨hdone.watermark hp, hdone.inMemory⟩

/-- A toy branch that slept until the prefiller published more than it waits for is released. -/
theorem released_iff_toy :
    Released ((Toy.star 2 false 1).after (Toy.steps "B" 2 ++ Toy.steps "P" 33)) "B" 1 := by
  have hsole : (Toy.star 2 false 1).orchestrator.Sole "P" := by decide
  have hc := reachable_after (Toy.star 2 false 1) (Toy.steps "B" 2 ++ Toy.steps "P" 33)
  have hend : ((Toy.star 2 false 1).after (Toy.steps "B" 2 ++ Toy.steps "P" 33)).data.Ended "P"
      (.ok ()) := by decide +kernel
  have hiff := released_iff (n := "B") (W := 1) hsole hc hend ⟨_, .inr (.inr rfl)⟩
  exact hiff.1 (by decide +kernel) (by decide +kernel)

/-- A branch beyond the end of the document is never released. -/
theorem not_released : ¬ ∀ c, (Toy.star 1 false 2).Reachable c → ∀ r, c.data.Ended "P" r →
    c.WaitsFor (.worker "B") (.watermark 2) → Released c "B" 2 := by
  intro hall
  have hc := reachable_after (Toy.star 1 false 2) (Toy.steps "P" 33 ++ Toy.steps "B" 2)
  have hend : ((Toy.star 1 false 2).after (Toy.steps "P" 33 ++ Toy.steps "B" 2)).data.Ended "P"
      (.ok ()) := by decide +kernel
  have hsleeps : (((Toy.star 1 false 2).after (Toy.steps "P" 33 ++ Toy.steps "B" 2)).threads
      (.worker "B")).sleepsOn = some (.watermark 2) := rfl
  have hwaits := (Monitor.Config.asleep_of_sleepsOn hsleeps).1
  obtain ⟨c', hr, ht⟩ := hc.exists_terminal
  refine hall _ hc _ hend hwaits c' hr ht ?_
  exact hc.waits_forever (p := "P") (by decide) hend (by decide +kernel) hwaits hr

/-! ## Paused prefillers -/

/-- Some worker has not ended. -/
def Unfinished (c : Config cfg.engine) : Prop := ∃ n ∈ cfg.orchestrator.names, ¬ Finished c n

/-- Some worker can move. -/
def WorkerEnabled (c : Config cfg.engine) : Prop :=
  ∃ n ∈ cfg.orchestrator.names, c.Enabled (.worker n)

/-- A branch whose only upstream node is the prefiller. -/
def OnlyPrefiller (cfg : Pipeline) (p b : String) : Prop :=
  ∀ d ∈ cfg.orchestrator.getDependenciesForNode b, d = p

instance (p b : String) : Decidable (cfg.OnlyPrefiller p b) :=
  inferInstanceAs (Decidable (∀ d ∈ _, _))

/-- In a star, every branch forks in time. -/
theorem forksInTime_of_star (hp : cfg.orchestrator.Sole p)
    (hstar : ∀ b ∈ cfg.orchestrator.names, 0 < cfg.orchestrator.req b → cfg.OnlyPrefiller p b) :
    cfg.orchestrator.ForksInTime p := by
  intro b hb hpos m hm hdep
  -- the branch waits for nothing but the watermark
  have hnone : ∀ d, d ∉ cfg.orchestrator.completionDeps b := by
    intro d hd
    obtain ⟨hdep, hgate⟩ := Orchestrator.mem_completionDeps.mp hd
    obtain rfl := hstar b hb hpos d hdep
    exact hgate ⟨hp.1, by omega⟩
  obtain rfl | ⟨d, hd, -⟩ := Relation.ReflTransGen.cases_head hm
  · exact ⟨by omega, le_rfl⟩
  · exact absurd hd (hnone d)

/-- In an acyclic graph in which the branches fork in time, some worker can move as long as
    the prefiller does not fail. -/
theorem Reachable.workerEnabled (hc : cfg.Reachable c) (hacyclic : cfg.orchestrator.Acyclic)
    (hreg : ∀ n ∈ cfg.orchestrator.names, cfg.orchestrator.DepsRegistered n)
    (hp : cfg.orchestrator.Sole p) (hfork : cfg.orchestrator.ForksInTime p)
    (hreq : ∀ n ∈ cfg.orchestrator.names, 0 < cfg.orchestrator.req n →
      cfg.orchestrator.req n ≤ (cfg.doc p).length)
    (hok : ¬ c.data.Failed p) (hun : Unfinished c) : WorkerEnabled c := by
  by_contra hstuck
  have hs : cfg.Stuck p c := {
    reachable := hc
    acyclic := hacyclic
    registered := hreg
    sole := hp
    noError := hok
    stuck := fun m hm hm' => hstuck ⟨m, hm, hm'⟩
    unfinished := hun }
  refine hs.false_of_forksInTime (fun m hm _ => ?_) hfork
  by_cases hpos : 0 < cfg.orchestrator.req m
  · exact hreq m hm hpos
  · omega

/-- In an accepted graph in which the branches fork in time, nobody gets stuck as long as
    no `execute()` throws. -/
theorem no_deadlock (hacyclic : cfg.orchestrator.validateAcyclic = some (.ok ()))
    (hreg : ∀ n ∈ cfg.orchestrator.names, cfg.orchestrator.DepsRegistered n)
    (hp : cfg.orchestrator.Sole p)
    (hvalues : ∀ n ∈ cfg.orchestrator.names, 0 < cfg.orchestrator.req n →
      CommitValue (cfg.doc p).length (cfg.orchestrator.req n))
    (hfork : cfg.orchestrator.ForksInTime p) (hc : cfg.Reachable c)
    (hok : ∀ n ∈ cfg.orchestrator.names, ¬ c.data.Failed n) (hun : Unfinished c) :
    WorkerEnabled c :=
  hc.workerEnabled (Orchestrator.acyclic_of_validateAcyclic hacyclic) hreg hp hfork
    (fun n hn hpos => (hvalues n hn hpos).2.1) (hok p (Orchestrator.mem_names_of_isPrefill hp.1)) hun

/-- In the toy star, a worker can move while the prefiller is paused at its milestone. -/
theorem no_deadlock_toy :
    (((Toy.star 1 false 1).after Toy.pauseAtOne).threads (.worker "P")).sleepsOn =
      some (.milestoneConsumers 1) ∧ WorkerEnabled ((Toy.star 1 false 1).after Toy.pauseAtOne) := by
  have hsole : (Toy.star 1 false 1).orchestrator.Sole "P" := by decide
  have hfork := forksInTime_of_star hsole (by decide)
  refine ⟨rfl, ?_⟩
  exact no_deadlock (by decide +kernel) (by decide) hsole (by decide) hfork (reachable_after _ _)
    (by decide +kernel) ⟨"P", by decide, by decide +kernel⟩

/-- Two branches that wait for each other through the paused prefiller: the graph is
    accepted, and nobody fails, but nobody can move. -/
theorem not_no_deadlock : Toy.crossed.orchestrator.validateAcyclic = some (.ok ()) ∧
    (∀ n ∈ Toy.crossed.orchestrator.names, Toy.crossed.orchestrator.DepsRegistered n) ∧
    Toy.crossed.orchestrator.Sole "P" ∧
    (∀ n ∈ Toy.crossed.orchestrator.names, 0 < Toy.crossed.orchestrator.req n →
      CommitValue (Toy.crossed.doc "P").length (Toy.crossed.orchestrator.req n)) ∧
    ¬ ∀ c, Toy.crossed.Reachable c →
      (∀ n ∈ Toy.crossed.orchestrator.names, ¬ c.data.Failed n) → Unfinished c →
        WorkerEnabled c := by
  refine ⟨by decide +kernel, by decide, by decide, by decide, fun hall => ?_⟩
  let c := Toy.crossed.after (Toy.pauseAtOne ++ Toy.steps "B" 3)
  obtain ⟨n, hn, hen⟩ := hall c (reachable_after _ _) (by decide +kernel)
    ⟨"P", by decide, by decide +kernel⟩
  have hnames : Toy.crossed.orchestrator.names = ["P", "A", "B"] := rfl
  rw [hnames] at hn
  have hcases : n = "P" ∨ n = "A" ∨ n = "B" := by simpa using hn
  obtain rfl | rfl | rfl := hcases
  · -- `P` waits for the consumer of milestone 1, which is `B`
    have hsleeps : (c.threads (.worker "P")).sleepsOn = some (.milestoneConsumers 1) := rfl
    exact (Monitor.Config.asleep_of_sleepsOn hsleeps).2 hen
  · -- `A` waits for the end of `P`
    have hop : (c.threads (.worker "A")).nextOp = some (.awaitCompletion "P") := rfl
    exact Monitor.Config.not_enabled_of_nextOp hop (fun _ => rfl) hen
  · -- `B` waits for the end of `A`
    have hop : (c.threads (.worker "B")).nextOp = some (.awaitCompletion "A") := rfl
    exact Monitor.Config.not_enabled_of_nextOp hop (fun _ => rfl) hen

/-- In a star, failing branches do not wedge the prefiller. -/
theorem star_completes (hacyclic : cfg.orchestrator.Acyclic)
    (hreg : ∀ n ∈ cfg.orchestrator.names, cfg.orchestrator.DepsRegistered n)
    (hp : cfg.orchestrator.Sole p)
    (hstar : ∀ b ∈ cfg.orchestrator.names, 0 < cfg.orchestrator.req b →
      cfg.OnlyPrefiller p b ∧ cfg.orchestrator.req b ≤ (cfg.doc p).length) :
    (∀ c, cfg.Reachable c → ¬ c.data.Failed p →
      (Unfinished c → WorkerEnabled c) ∧ (c.Terminal → ¬ Unfinished c)) ∧
    ¬ ∃ f : Nat → Config cfg.engine, f 0 = cfg.initial ∧ ∀ k, (f k).Step (f (k + 1)) := by
  refine ⟨fun c hc hok => ?_, cfg.no_infinite_run⟩
  have henabled : Unfinished c → WorkerEnabled c :=
    hc.workerEnabled hacyclic hreg hp (forksInTime_of_star hp fun b hb hpos => (hstar b hb hpos).1)
      (fun b hb hpos => (hstar b hb hpos).2) hok
  refine ⟨henabled, fun ht hun => ?_⟩
  obtain ⟨m, -, hm⟩ := henabled hun
  exact ht _ hm

/-- A toy branch that fails before it forks does not wedge the prefiller. -/
theorem star_completes_toy : ((Toy.star 1 false 1).after Toy.failBeforeFork).data.Failed "B" ∧
    WorkerEnabled ((Toy.star 1 false 1).after Toy.failBeforeFork) := by
  have hacyclic : (Toy.star 1 false 1).orchestrator.Acyclic :=
    Orchestrator.acyclic_of_validateAcyclic (by decide +kernel)
  have hsole : (Toy.star 1 false 1).orchestrator.Sole "P" := by decide
  have hcompletes := star_completes hacyclic (by decide) hsole (by decide)
  have hstate := hcompletes.1 _ (reachable_after _ Toy.failBeforeFork) (by decide +kernel)
  exact ⟨by decide +kernel, hstate.1 ⟨"P", by decide, by decide +kernel⟩⟩

end SwarmKV.Pipeline
