import SwarmKV.Spec.TotalCorrect
import SwarmKV.Spec.Pauses

/-!
# When `execute_pipeline` returns

The prefiller waits at each milestone for its branches, and the branches wait for the prefiller and
for each other. With one prefiller that does not fail, whether the pipeline gets through does not
depend on the schedule: either it returns in every run that goes on for as long as a thread can
move, or it hangs in each.
-/

namespace SwarmKV.Pipeline

open Monitor

variable {cfg : Pipeline} {c c' : Config cfg.engine} {tr : Trace (machine cfg.engine)}
  {p n m b : String}

/-- Node `n` does not start before `m` has started. -/
def StartsAfter (cfg : Pipeline) : String → String → Prop :=
  Relation.ReflTransGen fun n d => d ∈ cfg.orchestrator.completionDeps n

/-- No node waits for more than the document of `p`, and no branch of a committed milestone waits,
    through others or not, for more of the prefill than its milestone. -/
structure Passable (cfg : Pipeline) (p : String) : Prop where
  inside : ∀ m ∈ cfg.orchestrator.names, p ∈ cfg.orchestrator.getDependenciesForNode m →
    cfg.orchestrator.req m ≤ (cfg.doc p).length
  inTime : ∀ b ∈ cfg.orchestrator.names, CommitValue (cfg.doc p).length (cfg.orchestrator.req b) →
    ∀ m, cfg.StartsAfter b m → p ∈ cfg.orchestrator.getDependenciesForNode m →
      0 ≤ cfg.orchestrator.req m ∧ cfg.orchestrator.req m ≤ cfg.orchestrator.req b

/-! ## Pipelines that get through -/

/-- A pipeline that can get through has returned when nobody can move. -/
theorem Reachable.returned_of_passable (hc : cfg.Reachable c) (ht : c.Terminal)
    (hacyclic : cfg.orchestrator.Acyclic)
    (hreg : ∀ n ∈ cfg.orchestrator.names, cfg.orchestrator.DepsRegistered n)
    (hp : cfg.orchestrator.Sole p) (hok : ¬ c.data.Failed p) (hpass : cfg.Passable p) :
    Returned c := by
  refine hc.returned ht fun n hn => ?_
  by_contra hun
  have hs : cfg.Stuck p c := {
    reachable := hc
    acyclic := hacyclic
    registered := hreg
    sole := hp
    noError := hok
    stuck := fun m _ => ht (.worker m)
    unfinished := ⟨n, hn, hun⟩ }
  -- the prefiller has stopped at a milestone that it has just committed
  obtain ⟨b, hb, hpos, hbun, hwm⟩ := hs.exists_branch hpass.inside
  have hcommit : CommitValue (cfg.doc p).length (cfg.orchestrator.req b) := by
    rw [← hwm]
    exact ((reachable_holds hc).inv.watermark p hp).resolve_left (by omega)
  exact hs.false_of_branch hb hpos hbun hwm (hpass.inTime b hb hcommit)

/-! ## Pipelines that hang -/

/-- When a node has started, so has what it starts after. -/
theorem Reachable.started_of_startsAfter (hc : cfg.Reachable c) (hstart : c.data.Started b)
    (hm : cfg.StartsAfter b m) : c.data.Started m := by
  have hinv := (reachable_holds hc).inv
  induction hm with
  | refl => exact hstart
  | tail _ hd ih =>
    obtain ⟨r, hr⟩ := Option.isSome_iff_exists.mp ((hinv.started _ ih).completion _ hd)
    exact (hinv.ended _ r (hinv.promise _ r hr)).1

/-- A node that starts has a record of nothing else. -/
theorem Reachable.just_started (hc : cfg.Reachable c) (hs : c.Step c') (hno : ¬ c.data.Started b)
    (hstart : c'.data.Started b) : c'.data.log (.worker b) = [.executeStart] := by
  obtain heq | ⟨i, o, x, r, hpre, hx⟩ := hc.exec hs
  · rw [heq] at hstart
    exact absurd hstart hno
  · obtain hold | ⟨rfl, hemit⟩ := exec_mem_log hx hstart
    · exact absurd hold hno
    · cases hemit
      obtain ⟨m, hm, hwait, -⟩ := hpre.2
      obtain rfl := Thread.worker.inj hm
      have hx : some ((), c.data.record (.worker b) .executeStart) = some (r, c'.data) := hx
      obtain ⟨-, hdata⟩ := Prod.mk.inj (Option.some.inj hx)
      rw [← hdata]
      simp [World.record, hwait.log]

/-- The branch of a committed milestone never starts if it starts after a node that needs more of
    the prefill. -/
theorem Reachable.never_starts (hc : cfg.Reachable c) (hp : cfg.orchestrator.Sole p)
    (hok : ¬ c.data.Failed p) (hmem : ∀ n ∈ cfg.orchestrator.names, ¬ c.data.OutOfMemory n)
    (hb : b ∈ cfg.orchestrator.names)
    (hcommit : CommitValue (cfg.doc p).length (cfg.orchestrator.req b)) (hm : cfg.StartsAfter b m)
    (hdep : p ∈ cfg.orchestrator.getDependenciesForNode m)
    (hlate : ¬ (0 ≤ cfg.orchestrator.req m ∧ cfg.orchestrator.req m ≤ cfg.orchestrator.req b)) :
    ¬ c.data.Started b := by
  induction hc with
  | refl => exact fun hstart => by cases hstart
  | @tail c c' hr hs ih =>
    intro hstart
    have hc : cfg.Reachable c := hr
    have hc' := hc.tail hs
    have hgrow := fun j => reaches_log_grows (.single hs) j
    have hno : ¬ c.data.Started b := ih (fun ⟨e, he⟩ => hok ⟨e, (hgrow _).subset he⟩)
      fun n hn hout => hmem n hn ((hgrow _).subset hout)
    -- the branch has just started, so it has not signalled
    have hlog := hc.just_started hs hno hstart
    have hzero : c'.data.consumed b (cfg.orchestrator.req b) = 0 := by
      rw [World.consumed, hlog]
      rfl
    -- but the prefill has gone beyond its milestone
    have hinv := (reachable_holds hc').inv
    have hpassed := hinv.started _ (hc'.started_of_startsAfter hstart hm)
    have hpast : cfg.orchestrator.req b < c'.data.state.watermark ∨ c'.data.Ended p (.ok ()) := by
      by_cases hneg : 0 ≤ cfg.orchestrator.req m
      · left
        have hle := hpassed.watermark p hp hdep hneg
        omega
      · right
        have hgate : p ∈ cfg.orchestrator.completionDeps m :=
          Orchestrator.mem_completionDeps.mpr ⟨hdep, fun h => hneg h.2⟩
        obtain ⟨r, hr⟩ := Option.isSome_iff_exists.mp (hpassed.completion p hgate)
        have hend := hinv.promise p r hr
        cases r with
        | ok a => exact hend
        | error e => exact absurd ⟨e, hend⟩ hok
    have hmile : cfg.IsMilestone (cfg.orchestrator.req b) :=
      .inr ⟨hcommit.1, List.ne_nil_of_mem (Orchestrator.mem_branchesAt.mpr ⟨hb, rfl⟩)⟩
    obtain ⟨tr, hrun⟩ := Config.Reaches.exists_run hc'
    have hsignal := signalled_past hrun hp hmem hmile hcommit hpast
      (Orchestrator.mem_branchesAt.mpr ⟨hb, rfl⟩)
    omega

/-- When `execute_pipeline` has returned, all nodes have started. -/
theorem Reachable.started_of_returned (hc : cfg.Reachable c)
    (hreg : ∀ n ∈ cfg.orchestrator.names, cfg.orchestrator.DepsRegistered n) (hret : Returned c)
    (hn : n ∈ cfg.orchestrator.names) : c.data.Started n := by
  obtain ⟨-, hdone, -⟩ : (.ok () : Outcome) = .ok () ∧ cfg.AllDone c.data ∧
    c.data.activeBuffers = [] := (reachable_holds hc).done_of_ret hret
  obtain ⟨-, ⟨r, hr⟩, -⟩ := hc.done hn (hreg n hn) ((hc.finished_iff hn).mpr (hdone n hn))
  exact ((reachable_holds hc).inv.ended n r hr).1

/-- A node that waits for more than the document never starts. -/
theorem Reachable.req_le_of_started (hc : cfg.Reachable c) (hp : cfg.orchestrator.Sole p)
    (hstart : c.data.Started n) (hdep : p ∈ cfg.orchestrator.getDependenciesForNode n) :
    cfg.orchestrator.req n ≤ (cfg.doc p).length := by
  have hinv := (reachable_holds hc).inv
  have hwm : c.data.state.watermark ≤ (cfg.doc p).length := by
    obtain hzero | hcommit := hinv.watermark p hp
    · omega
    · exact hcommit.2.1
  by_cases hneg : 0 ≤ cfg.orchestrator.req n
  · have hle := (hinv.started n hstart).watermark p hp hdep hneg
    omega
  · omega

/-- With one prefiller that does not fail, `execute_pipeline` has returned when nobody can move if
    and only if no node waits for more than the document, and no branch of a committed milestone
    waits for more of the prefill than the milestone: all runs get through, or none. -/
theorem returns_iff (hacyclic : cfg.orchestrator.validateAcyclic = some (.ok ()))
    (hreg : ∀ n ∈ cfg.orchestrator.names, cfg.orchestrator.DepsRegistered n)
    (hp : cfg.orchestrator.Sole p) (hc : cfg.Reachable c) (ht : c.Terminal)
    (hok : ¬ c.data.Failed p) (hmem : ∀ n ∈ cfg.orchestrator.names, ¬ c.data.OutOfMemory n) :
    Returned c ↔ cfg.Passable p := by
  constructor
  · intro hret
    have hstarted : ∀ m ∈ cfg.orchestrator.names, c.data.Started m :=
      fun m hm => hc.started_of_returned hreg hret hm
    constructor
    · exact fun m hm hdep => hc.req_le_of_started hp (hstarted m hm) hdep
    · intro b hb hcommit m hm hdep
      by_contra hlate
      exact hc.never_starts hp hok hmem hb hcommit hm hdep hlate (hstarted b hb)
  · exact hc.returned_of_passable ht (Orchestrator.acyclic_of_validateAcyclic hacyclic) hreg hp hok

/-- Two branches that wait for each other through the paused prefiller: the graph is accepted, and
    cannot get through. -/
theorem returns_iff_crossed : ¬ Toy.crossed.Passable "P" := by
  let c := Toy.crossed.after (Toy.pauseAtOne ++ Toy.steps "B" 3)
  have hc : Toy.crossed.Reachable c := reachable_after _ _
  have hmain : (c.threads .main).nextOp = some (.awaitTask "P") := rfl
  have ht : c.Terminal := by
    intro i
    cases i with
    | main => exact Monitor.Config.not_enabled_of_nextOp hmain fun _ => rfl
    | worker n =>
      by_cases hn : n ∈ Toy.crossed.orchestrator.names
      · have hnames : n ∈ ["P", "A", "B"] := hn
        have hcases : n = "P" ∨ n = "A" ∨ n = "B" := by simpa using hnames
        obtain rfl | rfl | rfl := hcases
        · -- `P` waits for the consumer of milestone 1, which is `B`
          have hsleeps : (c.threads (.worker "P")).sleepsOn = some (.milestoneConsumers 1) := rfl
          exact (Monitor.Config.asleep_of_sleepsOn hsleeps).2
        · -- `A` waits for the end of `P`
          have hop : (c.threads (.worker "A")).nextOp = some (.awaitCompletion "P") := rfl
          exact Monitor.Config.not_enabled_of_nextOp hop fun _ => rfl
        · -- `B` waits for the end of `A`
          have hop : (c.threads (.worker "B")).nextOp = some (.awaitCompletion "A") := rfl
          exact Monitor.Config.not_enabled_of_nextOp hop fun _ => rfl
      · exact Monitor.Config.not_enabled_of_finished (hc.within (.worker n) (by simpa using hn))
  have hiff := returns_iff (p := "P") (by decide +kernel) (by decide) (by decide) hc ht
    (by decide +kernel) (by decide +kernel)
  rw [← hiff]
  intro hret
  rw [hret] at hmain
  cases hmain

end SwarmKV.Pipeline
