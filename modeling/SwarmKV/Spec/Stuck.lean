import SwarmKV.Spec.Run
import SwarmKV.Spec.Acyclic
import SwarmKV.Monitor.Progress
import SwarmKV.Monitor.Termination

/-!
# Workers that cannot move

When no worker can move and some worker has not ended, all mutexes are free, and
every such worker waits: for the end of another node, for the watermark, or, as the
prefiller, for the branches that fork at its milestone. In an acyclic graph with one
prefiller that does not fail, it can only be the prefiller that the others wait for,
and it waits for a branch.
-/

namespace SwarmKV

/-- The worker of the node has ended. -/
def Finished {E : Engine} (c : Config E) (n : String) : Prop :=
  (c.threads (.worker n)).finished = true

instance {E : Engine} (c : Config E) (n : String) : Decidable (Finished c n) :=
  inferInstanceAs (Decidable (_ = true))

namespace Pipeline

variable {cfg : Pipeline} {c c' : Config cfg.engine} {n p : String}

/-! ## Steps of a run -/

/-- A step changes the world only by an action that meets its precondition. -/
theorem Reachable.exec (hc : cfg.Reachable c) (hs : c.Step c') : c'.data = c.data ∨
    ∃ i o x r, cfg.Pre i (c.held i) o c.data ∧
      exec cfg.engine i o x c.data = some (r, c'.data) := by
  obtain heq | ⟨i, o, x, r, ho, hx⟩ := hs.data
  · exact .inl heq
  · exact .inr ⟨i, o, x, r, (reachable_holds hc).pre ho, hx⟩

theorem Reachable.tail (hc : cfg.Reachable c) (hs : c.Step c') : cfg.Reachable c' :=
  Relation.ReflTransGen.tail hc hs

/-- Records stay. -/
theorem reaches_log_grows {E : Engine} {c c' : Config E} (h : c.Reaches c') (j : Thread) :
    c.data.log j <+: c'.data.log j := by
  induction h with
  | refl => exact List.prefix_rfl
  | tail _ hs ih =>
    obtain heq | ⟨i, o, x, r, -, hx⟩ := hs.data
    · rwa [heq]
    · exact ih.trans (exec_log_grows hx j)

/-- Only the workers and the caller have anything to do. -/
theorem within (cfg : Pipeline) :
    cfg.initial.Within (insert .main (cfg.orchestrator.names.map Thread.worker).toFinset) := by
  intro i hi
  simp only [Finset.mem_insert, List.mem_toFinset, List.mem_map, not_or, not_exists,
    not_and] at hi
  cases i with
  | main => exact absurd rfl hi.1
  | worker n =>
    have hn : n ∉ cfg.orchestrator.names := fun hn => hi.2 n hn rfl
    show Monitor.Prog.finished (if n ∈ cfg.orchestrator.names then _ else _) = true
    rw [if_neg hn]
    rfl

theorem Reachable.within (hc : cfg.Reachable c) :
    c.Within (insert .main (cfg.orchestrator.names.map Thread.worker).toFinset) :=
  hc.invariant (P := fun c => c.Within _) (fun _ _ h hs => h.step hs) cfg.within

/-- A thread that has nothing to do leaves no record. -/
theorem log_outside {c₀ : Config cfg.engine} {T : Finset Thread} {i : Thread} (hT : c₀.Within T)
    (hr : c₀.Reaches c) (hi : i ∉ T) : c.data.log i = c₀.data.log i := by
  induction hr with
  | refl => rfl
  | @tail c c' hr hs ih =>
    have hwithin : c.Within T := Monitor.Config.Reaches.invariant (P := fun c => c.Within T) hr
      (fun c₁ c₂ (h : c₁.Within T) hs => h.step hs) hT
    obtain heq | ⟨j, o, x, r, hat, hx⟩ := hs.data
    · rw [heq]
      exact ih
    · have hij : i ≠ j := by
        rintro rfl
        obtain ⟨k, hk⟩ := hat
        have hend := hwithin i hi
        rw [hk] at hend
        exact Bool.noConfusion hend
      rw [exec_log_other hx hij]
      exact ih

/-- No run goes on forever. -/
theorem no_infinite_run (cfg : Pipeline) : ¬ ∃ f : Nat → Config cfg.engine,
    f 0 = cfg.initial ∧ ∀ k, (f k).Step (f (k + 1)) :=
  Monitor.Config.no_infinite_run cfg.within

/-- Every run comes to an end. -/
theorem Reachable.exists_terminal (hc : cfg.Reachable c) : ∃ c', c.Reaches c' ∧ c'.Terminal :=
  Monitor.Config.exists_terminal hc.within

/-! ## Ends -/

/-- A worker that has not ended has an open task. -/
theorem live_of_holds (h : cfg.outline.Holds c) (hn : ¬ Finished c n) : cfg.Live n c.data := by
  obtain ⟨q, ht, hq⟩ | ⟨w, hw⟩ := Monitor.Config.run_or_waits (Bool.not_eq_true _ ▸ hn)
  · exact h.active ht hq
  · have hwait : cfg.Waits (.worker n) w c.data := h.waits hw
    cases w with
    | watermark t => exact hwait.1.live
    | prefillComplete => exact hwait.elim
    | milestoneConsumers t => exact hwait.1.live

theorem Reachable.live (hc : cfg.Reachable c) (hn : ¬ Finished c n) : cfg.Live n c.data :=
  live_of_holds (reachable_holds hc) hn

/-- A worker has ended when its task is done. -/
theorem Reachable.finished_iff (hc : cfg.Reachable c) (hn : n ∈ cfg.orchestrator.names) :
    Finished c n ↔ (c.data.tasks n).isSome := by
  constructor
  · intro hf
    obtain ⟨r, hdone⟩ := (reachable_holds hc).done_of_finished hf
    exact (hdone hn).1
  · intro hsome
    by_contra hf
    rw [(hc.live hf).2] at hsome
    cases hsome

/-- What a worker has done when it has ended. -/
theorem Reachable.done (hc : cfg.Reachable c) (hn : n ∈ cfg.orchestrator.names)
    (hreg : cfg.orchestrator.DepsRegistered n) (hf : Finished c n) :
    (c.data.promises n).isSome ∧ (∃ r, c.data.Ended n r) ∧ cfg.Signalled n c.data := by
  have h := reachable_holds hc
  obtain ⟨r, hdone⟩ := h.done_of_finished hf
  obtain ⟨hpromise, hsignal⟩ := (hdone hn).2 hreg
  obtain ⟨q, hq⟩ := Option.isSome_iff_exists.mp hpromise
  exact ⟨hpromise, ⟨q, h.inv.promise n q hq⟩, hsignal⟩

/-! ## Blocked workers -/

/-- What a worker that has not ended waits for when it cannot move. -/
inductive Blocked (cfg : Pipeline) (c : Config cfg.engine) (n : String) : Prop where
  /-- The end of an upstream node. -/
  | completion (d : String) (hwait : cfg.Waiting n c.data)
      (hd : d ∈ cfg.orchestrator.completionDeps n) (hd' : d ∈ cfg.orchestrator.names)
      (hun : c.data.promises d = none)
  /-- The watermark of an upstream prefill provider. -/
  | watermark (q : String) (hwait : cfg.Waiting n c.data)
      (hq : q ∈ cfg.orchestrator.getDependenciesForNode n) (hq' : cfg.orchestrator.isPrefill q)
      (hreq : 0 ≤ cfg.orchestrator.req n)
      (hlt : c.data.state.watermark < cfg.orchestrator.req n ∨ cfg.Lossy c.data)
  /-- A branch that forks at the milestone where the prefill provider has stopped. -/
  | consumers (t : Int) (hwaits : c.WaitsFor (.worker n) (.milestoneConsumers t))
      (hn : cfg.orchestrator.isPrefill n) (hmem : ¬ c.data.OutOfMemory n)
      (ht : cfg.IsMilestone t) (hwm : cfg.orchestrator.Sole n → c.data.state.watermark = t)
      (hleft : (∃ b ∈ cfg.orchestrator.branchesAt t, c.data.consumed b t = 0) ∨
        cfg.Lossy c.data)

/-- As long as the count of a milestone is positive, some branch has not signalled. -/
theorem Inv.exists_unconsumed {w : World} (hI : cfg.Inv w) {t : Int}
    (h : (Cond.milestoneConsumers t).holds w = false) :
    ∃ b ∈ cfg.orchestrator.branchesAt t, w.consumed b t = 0 := by
  have hcount := hI.consumers t
  simp only [Cond.holds] at h
  unfold consumersLeft at hcount
  split at hcount
  · rw [hcount] at h
    have hpos : ((cfg.orchestrator.branchesAt t).map fun _ => (0 : Int)).sum <
        ((cfg.orchestrator.branchesAt t).map fun b => (1 : Int) - w.consumed b t).sum := by
      simpa using h
    obtain ⟨b, hb, hlt⟩ := List.exists_lt_of_sum_lt _ _ hpos
    exact ⟨b, hb, by omega⟩
  · rw [hcount] at h
    cases h

/-- With all mutexes free, this is all that can keep a worker. -/
theorem Reachable.blocked (hc : cfg.Reachable c) (hfree : ∀ l, c.holder l = none)
    (hi : ¬ c.Enabled (.worker n)) (hn : ¬ Finished c n) : cfg.Blocked c n := by
  have h := reachable_holds hc
  cases h.blocked hfree hi with
  | ended r ht _ =>
    refine absurd ?_ hn
    unfold Finished
    rw [ht]
    cases r <;> rfl
  | op o ht hpre hx =>
    obtain ⟨d, rfl⟩ | ⟨m, rfl⟩ := blocked_op hpre hx
    · obtain ⟨-, n', hn', hwait, hd, hd'⟩ := hpre.2
      cases hn'
      refine .completion d hwait hd hd' ?_
      have := hx .ok
      simpa [SwarmKV.exec] using this
    · cases hpre.2.2.1
  | asleep w ht hw hwait =>
    have hwait : cfg.Waits (.worker n) w c.data := hwait
    cases w with
    | watermark t =>
      obtain ⟨hwaiting, rfl, hreq, q, hq, hq'⟩ := hwait
      refine .watermark q hwaiting hq hq' hreq (hw.imp_left fun hlt => ?_)
      have hlt : decide (cfg.orchestrator.req n ≤ c.data.state.watermark) = false := hlt
      simpa using hlt
    | prefillComplete => exact hwait.elim
    | milestoneConsumers t =>
      obtain ⟨-, hq, hm, hmem, hwm⟩ := hwait
      exact .consumers t ht hq hmem hm hwm (hw.imp_left h.inv.exists_unconsumed)

/-- If no worker can move and some worker has not ended, all mutexes are free. -/
theorem Reachable.free (hc : cfg.Reachable c)
    (hstuck : ∀ m ∈ cfg.orchestrator.names, ¬ c.Enabled (.worker m))
    (hn : n ∈ cfg.orchestrator.names) (hun : ¬ Finished c n) (l : Lock) : c.holder l = none := by
  have h := reachable_holds hc
  cases hl : c.holder l with
  | none => rfl
  | some i =>
    exfalso
    obtain ⟨j, hheld, hj⟩ := h.enabled_of_held nonBlocking hl
    have hactive : cfg.Active j (c.held j) c.data := h.active_of_held hheld
    cases j with
    | worker m => exact hstuck m hactive.1 hj
    | main =>
      -- the caller takes mutexes only after the last worker
      obtain hempty | hdone := hactive
      · exact hheld.ne_empty hempty
      · exact hun ((hc.finished_iff hn).mpr (hdone n hn))

/-! ## The prefiller and its branches -/

/-- What the results about stuck workers share: a registered, acyclic graph with one
    prefiller `p`, which does not fail, and workers that cannot move. -/
structure Stuck (cfg : Pipeline) (p : String) (c : Config cfg.engine) : Prop where
  reachable : cfg.Reachable c
  acyclic : cfg.orchestrator.Acyclic
  registered : ∀ m ∈ cfg.orchestrator.names, cfg.orchestrator.DepsRegistered m
  sole : cfg.orchestrator.Sole p
  noError : ¬ c.data.Failed p
  stuck : ∀ m ∈ cfg.orchestrator.names, ¬ c.Enabled (.worker m)
  unfinished : ∃ m ∈ cfg.orchestrator.names, ¬ Finished c m

namespace Stuck

variable (hs : cfg.Stuck p c)
include hs

theorem names : p ∈ cfg.orchestrator.names :=
  Orchestrator.mem_names_of_isPrefill hs.sole.1

theorem blocked (hn : n ∈ cfg.orchestrator.names) (hun : ¬ Finished c n) : cfg.Blocked c n := by
  obtain ⟨m, hm, hm'⟩ := hs.unfinished
  exact hs.reachable.blocked (hs.reachable.free hs.stuck hm hm')
    (hs.stuck n hn) hun

/-- Nobody waits for the end of a node that has ended. -/
theorem not_finished (hn : n ∈ cfg.orchestrator.names) (hun : c.data.promises n = none) :
    ¬ Finished c n := by
  intro hf
  have hsome := (hs.reachable.done hn (hs.registered n hn) hf).1
  rw [hun] at hsome
  cases hsome

/-- A finished prefiller has published its document. -/
theorem prefillDone (hf : Finished c p) : cfg.PrefillDone p c.data := by
  obtain ⟨-, ⟨r, hr⟩, -⟩ := hs.reachable.done hs.names (hs.registered p hs.names) hf
  cases r with
  | error e => exact absurd ⟨e, hr⟩ hs.noError
  | ok a => exact (((reachable_holds hs.reachable).inv.ended p _ hr).2).prefill hs.sole.1 rfl

/-- No notification was dropped. -/
theorem not_lossy : ¬ cfg.Lossy c.data := by
  intro hlossy
  obtain ⟨q, hq, hmem⟩ := hlossy
  obtain rfl := hs.sole.2 q hq
  by_cases hf : Finished c q
  · exact (hs.prefillDone hf).inMemory hmem
  · have hempty : ¬ cfg.Waiting q c.data := by
      intro hw
      rw [World.OutOfMemory, hw.log] at hmem
      cases hmem
    cases hs.blocked hs.names hf with
    | completion d hwait _ _ _ => exact hempty hwait
    | watermark q' hwait _ _ _ _ => exact hempty hwait
    | consumers t _ _ hin _ _ _ => exact hin hmem

/-- The prefiller has stopped at a milestone where some branch has still to fork. -/
theorem exists_branch (hreq : ∀ m ∈ cfg.orchestrator.names,
      p ∈ cfg.orchestrator.getDependenciesForNode m → cfg.orchestrator.req m ≤ (cfg.doc p).length) :
    ∃ b ∈ cfg.orchestrator.names, 0 < cfg.orchestrator.req b ∧ ¬ Finished c b ∧
      c.data.state.watermark = cfg.orchestrator.req b := by
  -- a node with nothing unfinished upstream
  obtain ⟨m₀, hm₀, hun₀⟩ := hs.unfinished
  obtain ⟨m, ⟨hm, hun⟩, hmin⟩ := hs.acyclic.exists_minimal
    (P := fun m => m ∈ cfg.orchestrator.names ∧ ¬ Finished c m) (fun m hm => hm.1) ⟨hm₀, hun₀⟩
  have hup : ∀ d ∈ cfg.orchestrator.getDependenciesForNode m, Finished c d := by
    intro d hd
    by_contra hdun
    exact hmin d ⟨hs.registered m hm d hd, hdun⟩ (.single hd)
  cases hs.blocked hm hun with
  | completion d _ hd hd' hdun =>
    exact absurd (hup d (Orchestrator.mem_completionDeps.mp hd).1) (hs.not_finished hd' hdun)
  | watermark q _ hq hq' _ hlt =>
    -- the prefill is complete, so the watermark is high enough
    obtain rfl := hs.sole.2 q hq'
    have hwm := (hs.prefillDone (hup q hq)).watermark hs.sole
    have := hlt.resolve_right hs.not_lossy
    have := hreq m hm hq
    omega
  | consumers t _ hq _ ht hwm hleft =>
    obtain rfl := hs.sole.2 m hq
    obtain ⟨b, hb, hzero⟩ := hleft.resolve_right hs.not_lossy
    obtain ⟨hname, rfl⟩ := Orchestrator.mem_branchesAt.mp hb
    refine ⟨b, hname, ht.pos, fun hf => ?_, hwm hs.sole⟩
    have hsignal := (hs.reachable.done hname (hs.registered b hname) hf).2.2 ht.pos
    omega

/-- If the branch for which the prefiller has stopped forks in time, nobody is stuck. -/
theorem false_of_branch {b : String} (hb : b ∈ cfg.orchestrator.names)
    (hpos : 0 < cfg.orchestrator.req b) (hun : ¬ Finished c b)
    (hwm : c.data.state.watermark = cfg.orchestrator.req b)
    (hfork : ∀ m, Relation.ReflTransGen (fun n d => d ∈ cfg.orchestrator.completionDeps n) b m →
      p ∈ cfg.orchestrator.getDependenciesForNode m →
        0 ≤ cfg.orchestrator.req m ∧ cfg.orchestrator.req m ≤ cfg.orchestrator.req b) : False := by
  let gated : String → String → Prop := fun n d => d ∈ cfg.orchestrator.completionDeps n
  have hnames : ∀ m, Relation.ReflTransGen gated b m → m ∈ cfg.orchestrator.names := by
    intro m hm
    induction hm with
    | refl => exact hb
    | tail _ hd ih => exact hs.registered _ ih _ (Orchestrator.mem_completionDeps.mp hd).1
  -- the prefiller is not among what the branch waits for
  have hnot : ∀ m, Relation.ReflTransGen gated b m → m ≠ p := by
    intro m hm
    induction hm with
    | refl =>
      rintro rfl
      rw [Orchestrator.req_of_isPrefill hs.sole.1] at hpos
      omega
    | tail hm hd _ =>
      rintro rfl
      obtain ⟨hdep, hgate⟩ := Orchestrator.mem_completionDeps.mp hd
      exact hgate ⟨hs.sole.1, (hfork _ hm hdep).1⟩
  -- among the unfinished ones of them, one waits for none of the others
  obtain ⟨m, ⟨hm, hmun⟩, hmin⟩ := hs.acyclic.exists_minimal
    (P := fun m => Relation.ReflTransGen gated b m ∧ ¬ Finished c m) (fun m hm => hnames m hm.1)
    ⟨.refl, hun⟩
  cases hs.blocked (hnames m hm) hmun with
  | completion d _ hd hd' hdun =>
    exact hmin d ⟨hm.tail hd, hs.not_finished hd' hdun⟩ (.single (Orchestrator.mem_completionDeps.mp hd).1)
  | watermark q _ hq hq' _ hlt =>
    obtain rfl := hs.sole.2 q hq'
    have hle := (hfork m hm hq).2
    have := hlt.resolve_right hs.not_lossy
    omega
  | consumers t _ hq _ _ _ _ => exact hnot m hm (hs.sole.2 m hq)

/-- If the branches fork in time, nobody is stuck. -/
theorem false_of_forksInTime (hreq : ∀ m ∈ cfg.orchestrator.names,
      p ∈ cfg.orchestrator.getDependenciesForNode m → cfg.orchestrator.req m ≤ (cfg.doc p).length)
    (hfork : cfg.orchestrator.ForksInTime p) : False := by
  obtain ⟨b, hb, hpos, hun, hwm⟩ := hs.exists_branch hreq
  exact hs.false_of_branch hb hpos hun hwm (hfork b hb hpos)

end Stuck

end Pipeline

end SwarmKV
