import SwarmKV.Spec.FailureCorrect
import SwarmKV.Spec.WorkerRules

/-!
# The order of the starts

All workers are spawned at once, and each gates itself: it waits for the end of an upstream
node, or for a watermark. What its start finds at the end of the gate is read off the trace
of the run.
-/

namespace SwarmKV.Pipeline

open Monitor

variable {cfg : Pipeline} {c c' : Config cfg.engine} {tr : Trace (machine cfg.engine)}
  {n d : String}

/-- How often `execute()` of the node has been started. -/
def starts (w : World) (n : String) : Nat := (w.log (.worker n)).count .executeStart

/-- The start of `execute()` of node `n`, which found the world `w`. -/
def startOf (cfg : Pipeline) (n : String) (w : World) : Entry (machine cfg.engine) :=
  ⟨.worker n, .op (.note .executeStart), (), w⟩

/-! ## Starts -/

/-- A node that starts has only waited so far, and its gates are passed. -/
theorem start_pre {later earlier : Trace (machine cfg.engine)} {w : World}
    (hr : cfg.initial.Run (later ++ cfg.startOf n w :: earlier) c) :
    ∃ c₁ : Config cfg.engine, cfg.initial.Run earlier c₁ ∧ c₁.data = w ∧ cfg.Waiting n w ∧
      cfg.GatesPassed n w := by
  obtain ⟨c₁, c₂, hrun, hacts, -⟩ := hr.earlier rfl
  have hdata : w = c₁.data := hacts.data_eq
  obtain ⟨i, hop⟩ : ∃ i, c₁.AtOp i (.note .executeStart) ∧ i = .worker n := by
    cases hacts with
    | op ht _ => exact ⟨_, ⟨_, ht⟩, rfl⟩
  obtain ⟨hop, rfl⟩ := hop
  obtain ⟨m, hm, hwait, hgates⟩ := ((reachable_holds hrun.reaches).pre hop).2
  obtain rfl := Thread.worker.inj hm
  rw [hdata]
  exact ⟨c₁, hrun, rfl, hwait, hgates⟩

/-- `execute()` of a node is started at most once. -/
theorem Reachable.starts_le (hc : cfg.Reachable c) (n : String) : starts c.data n ≤ 1 := by
  induction hc with
  | refl => exact Nat.zero_le 1
  | @tail c c' hr hs ih =>
    have hc : cfg.Reachable c := hr
    obtain heq | ⟨i, o, x, r, hpre, hx⟩ := hc.exec hs
    · rwa [heq]
    · obtain hlog | ⟨e, hemit, hlog⟩ := exec_log hx
      · rwa [starts, hlog]
      by_cases hi : i = .worker n
      · subst hi
        rw [starts, hlog, Function.update_self, List.count_append]
        by_cases he : e = .executeStart
        · -- a node that starts has nothing on record yet
          subst he
          cases hemit
          obtain ⟨m, hm, hwait, -⟩ := hpre.2
          obtain rfl := Thread.worker.inj hm
          rw [hwait.log]
          decide
        · rw [List.count_singleton, if_neg (by simpa using he)]
          exact ih
      · rw [starts, hlog, Function.update_of_ne (Ne.symm hi)]
        exact ih

/-- A node that has started has an entry in the trace. -/
theorem started_mem (hr : cfg.initial.Run tr c) (hs : c.data.Started n) :
    ∃ w, cfg.startOf n w ∈ tr := by
  induction hr with
  | start => cases hs
  | @act tr c c' e hrun he ih =>
    obtain hsame | ⟨i, o, r, x, rfl, -, hx⟩ := he.data
    · rw [hsame] at hs
      obtain ⟨w, hw⟩ := ih hs
      exact ⟨w, List.mem_cons_of_mem _ hw⟩
    · obtain hold | ⟨rfl, hemit⟩ := exec_mem_log hx hs
      · obtain ⟨w, hw⟩ := ih hold
        exact ⟨w, List.mem_cons_of_mem _ hw⟩
      · cases hemit
        exact ⟨c.data, List.mem_cons_self⟩
  | silent hrun hs' ih =>
    rw [hs'.data] at hs
    exact ih hs

/-! ## Gates -/

/-- The watermarks that a worker has waited for; it starts when it has waited for its own
    one, if it is gated by the watermark. -/
private def gateWatch (cfg : Pipeline) (i : Thread) : Observer sig (List Int) where
  start := []
  next s a _ := match a with
    | .wait (.watermark t) => t :: s
    | _ => s
  ok s a := match a with
    | .op (.note .executeStart) => ∀ n, i = .worker n →
      ∀ d ∈ cfg.orchestrator.getDependenciesForNode n, cfg.orchestrator.isPrefill d →
        0 ≤ cfg.orchestrator.req n → cfg.orchestrator.req n ∈ s
    | _ => True

private theorem gateWatch_keeps {i : Thread} {a : Action sig}
    (ha : a ≠ .op (.note .executeStart)) : (gateWatch cfg i).Keeps (fun _ => True) a := by
  refine fun s _ => ⟨?_, fun _ _ => trivial⟩
  cases a with
  | op o =>
    cases o with
    | note e =>
      cases e with
      | executeStart => exact absurd rfl ha
      | _ => trivial
    | _ => trivial
  | _ => trivial

/-- The gate of a worker waits for its watermark if some upstream node is a prefiller. -/
private theorem awaitDependencies_gateWatch {i : Thread} {req : Int} {deps : List String} :
    (gateWatch cfg i).Spec (fun _ => True) (cfg.orchestrator.awaitDependencies req deps)
      (fun _ s => ∀ d ∈ deps, cfg.orchestrator.isPrefill d → 0 ≤ req → req ∈ s)
      fun _ _ => True := by
  -- the watermarks of the nodes before `deps` stay on the list
  suffices h : ∀ done : Prop, (gateWatch cfg i).Spec (fun s => done → req ∈ s)
      (cfg.orchestrator.awaitDependencies req deps)
      (fun _ s => (done → req ∈ s) ∧ ∀ d ∈ deps, cfg.orchestrator.isPrefill d → 0 ≤ req → req ∈ s)
      fun _ _ => True from
    (h False).conseq (fun _ _ hf => hf.elim) (fun _ _ h => h.2) fun _ _ h => h
  induction deps with
  | nil => exact fun done => .ret fun s hs => ⟨hs, fun d hd => by cases hd⟩
  | cons d deps ih =>
    intro done
    refine .bind (Q := fun _ s =>
      (done ∨ cfg.orchestrator.isPrefill d ∧ 0 ≤ req) → req ∈ s) ?_ fun _ => ?_
    · unfold Orchestrator.awaitDependency
      cases hd : cfg.orchestrator.node d with
      | none => exact .throw fun _ _ => trivial
      | some dep =>
        have hprefill : cfg.orchestrator.isPrefill d = dep.isPrefillProvider := by
          simp [Orchestrator.isPrefill, hd]
        refine .ite (fun hw => .ite (fun _ => .throw fun _ _ => trivial) fun _ => ?_) fun hw => ?_
        · refine .withLock (I := fun _ => True) (J := fun _ s => req ∈ s) (K := fun _ _ => True)
            (fun _ _ => ⟨trivial, fun _ => trivial⟩) ?_
            (fun _ s hs => ⟨trivial, fun _ _ => hs⟩) fun _ _ _ => ⟨trivial, fun _ => trivial⟩
          exact .await fun s _ => ⟨trivial, fun _ => List.mem_cons_self⟩
        · refine .op fun s hs => ⟨trivial, fun _ _ hor => ?_⟩
          obtain hdone | hgate := hor
          · exact hs hdone
          · rw [hprefill] at hgate
            exact absurd hgate hw
    · refine (ih _).conseq (fun _ h => h) (fun _ s hs => ⟨fun hdone => hs.1 (.inl hdone), ?_⟩)
        fun _ _ h => h
      intro d' hd' hp hreq
      obtain rfl | hd' := List.mem_cons.mp hd'
      · exact hs.1 (.inr ⟨hp, hreq⟩)
      · exact hs.2 d' hd' hp hreq

private theorem program_gateWatch (i : Thread) :
    (gateWatch cfg i).Meets (cfg.program i) (fun _ _ => True) [] := by
  refine cfg.program_meets (A := gateWatch cfg) (fun a ha => gateWatch_keeps ?_) (fun n _ => ?_) i
  · rintro rfl
    cases ha
  refine .pre (Orchestrator.worker_spec (P := fun _ => True) (I := fun s =>
    ∀ d ∈ cfg.orchestrator.getDependenciesForNode n, cfg.orchestrator.isPrefill d →
      0 ≤ cfg.orchestrator.req n → cfg.orchestrator.req n ∈ s) (J := fun _ => True)
    (K := fun _ => True) (fun _ _ => trivial) ?_ ?_ ?_ ?_ ?_) fun _ _ => trivial
  · intro node hnode
    have hreq : cfg.orchestrator.req n = node.requiredPrefixTokens := by
      simp [Orchestrator.req, hnode]
    rw [← hreq]
    exact awaitDependencies_gateWatch
  · refine fun s hs => ⟨fun m hm => ?_, fun _ _ => trivial⟩
    obtain rfl := Thread.worker.inj hm
    exact hs
  · exact fun a _ ha => gateWatch_keeps ha
  · refine fun t a ha => gateWatch_keeps ?_
    rintro rfl
    cases ha
  · refine fun node ctx _ _ _ => .of_uses (node.execute_uses ctx) fun a ha => gateWatch_keeps ?_
    rintro rfl
    obtain ⟨ctx, t, he⟩ | ⟨h, he⟩ := ha.note_cases <;> cases he

/-- Only a wait puts a watermark on the list. -/
private theorem mem_gateWatch_next {i : Thread} {s : List Int} {a : Action sig} {r : a.Res}
    {t : Int} (h : t ∈ (gateWatch cfg i).next s a r) : t ∈ s ∨ a = .wait (.watermark t) := by
  cases a with
  | wait w =>
    cases w with
    | watermark t' =>
      obtain rfl | h := List.mem_cons.mp h
      · exact .inr rfl
      · exact .inl h
    | _ => exact .inl h
  | _ => exact .inl h

/-- Who has waited for a watermark has found it at that moment. -/
private theorem waited (hr : cfg.initial.Run tr c) :
    (∀ i t, t ∈ Observer.state (gateWatch cfg) tr i → ∃ e ∈ tr, t ≤ e.data.state.watermark) ∧
      Observer.Follows (gateWatch cfg) (fun _ _ _ => True) tr c := by
  refine hr.observe (R := fun (tr : Trace (machine cfg.engine)) _ =>
    ∀ i t, t ∈ Observer.state (gateWatch cfg) tr i → ∃ e ∈ tr, t ≤ e.data.state.watermark)
    program_gateWatch (fun i t ht => by cases ht) ?_ fun _ h _ => h
  intro tr c e c' hrun hR he _
  refine ⟨trivial, fun i t ht => ?_⟩
  have hold : t ∈ Observer.state (gateWatch cfg) tr i → ∃ e' ∈ e :: tr,
      t ≤ e'.data.state.watermark := by
    intro ht
    obtain ⟨e', he', hle⟩ := hR i t ht
    exact ⟨e', List.mem_cons_of_mem _ he', hle⟩
  by_cases hi : i = e.thread
  · subst hi
    rw [Observer.state_same] at ht
    obtain ht | hwait := mem_gateWatch_next ht
    · exact hold ht
    · refine ⟨e, List.mem_cons_self, ?_⟩
      have hholds := he.holds hwait
      rw [he.data_eq]
      simpa [Cond.holds] using hholds
  · rw [Observer.state_other hi] at ht
    exact hold ht

/-- The watermark of a started node was reached before its start, if it is gated by it. -/
private theorem watermark_reached {later earlier : Trace (machine cfg.engine)} {w : World}
    (hr : cfg.initial.Run (later ++ cfg.startOf n w :: earlier) c)
    (hd : d ∈ cfg.orchestrator.getDependenciesForNode n) (hp : cfg.orchestrator.isPrefill d)
    (hreq : 0 ≤ cfg.orchestrator.req n) :
    ∃ e ∈ earlier, cfg.orchestrator.req n ≤ e.data.state.watermark := by
  obtain ⟨c₁, c₂, hrun, hacts, -⟩ := hr.earlier rfl
  obtain ⟨hfound, hfollows⟩ := waited hrun
  exact hfound _ _ ((hfollows.acts hacts).1 n rfl d hd hp hreq)

/-! ## The order -/

/-- When a node starts, each of its upstream nodes was at the gate's watermark at some earlier
    moment, or has ended. -/
private theorem gate_passed {later earlier : Trace (machine cfg.engine)} {w : World}
    (hr : cfg.initial.Run (later ++ cfg.startOf n w :: earlier) c)
    (hd : d ∈ cfg.orchestrator.getDependenciesForNode n) :
    (cfg.orchestrator.isPrefill d ∧ 0 ≤ cfg.orchestrator.req n ∧
      ∃ e ∈ earlier, cfg.orchestrator.req n ≤ e.data.state.watermark) ∨ ∃ r, w.Ended d r := by
  by_cases hgate : cfg.orchestrator.isPrefill d ∧ 0 ≤ cfg.orchestrator.req n
  · exact .inl ⟨hgate.1, hgate.2, watermark_reached hr hd hgate.1 hgate.2⟩
  · obtain ⟨c₁, hrun, rfl, -, hgates⟩ := start_pre hr
    have hcompletion := hgates.completion d (Orchestrator.mem_completionDeps.mpr ⟨hd, hgate⟩)
    obtain ⟨r, hr⟩ := Option.isSome_iff_exists.mp hcompletion
    exact .inr ⟨r, (reachable_holds hrun.reaches).inv.promise d r hr⟩

/-- Every node waits for the end of its upstream nodes. -/
def CompletionGated (cfg : Pipeline) : Prop :=
  ∀ n d, d ∈ cfg.orchestrator.getDependenciesForNode n →
    ¬ (cfg.orchestrator.isPrefill d ∧ 0 ≤ cfg.orchestrator.req n)

/-- Behind completion gates, a node starts after everything it depends on. -/
private theorem started_before (hgates : cfg.CompletionGated)
    {later earlier : Trace (machine cfg.engine)} {w : World}
    (hr : cfg.initial.Run (later ++ cfg.startOf n w :: earlier) c)
    (hd : Relation.TransGen (fun n d => d ∈ cfg.orchestrator.getDependenciesForNode n) n d) :
    ∃ w', cfg.startOf d w' ∈ earlier := by
  -- one edge: what has ended before has started before
  have hedge : ∀ {n d later earlier w},
      cfg.initial.Run (later ++ cfg.startOf n w :: earlier) c →
      d ∈ cfg.orchestrator.getDependenciesForNode n → ∃ w', cfg.startOf d w' ∈ earlier := by
    intro n d later earlier w hr hd
    obtain hgate | ⟨r, hended⟩ := gate_passed hr hd
    · exact absurd ⟨hgate.1, hgate.2.1⟩ (hgates n d hd)
    · obtain ⟨c₁, hrun, rfl, -, -⟩ := start_pre hr
      exact started_mem hrun ((reachable_holds hrun.reaches).inv.ended d r hended).1
  induction hd with
  | single hd => exact hedge hr hd
  | tail _ hd ih =>
    obtain ⟨w', hw'⟩ := ih
    obtain ⟨mid, earlier', rfl⟩ := List.append_of_mem hw'
    obtain ⟨w'', hw''⟩ := @hedge _ _ (later ++ cfg.startOf n w :: mid) _ _ (by simpa using hr) hd
    exact ⟨w'', List.mem_append_right _ (List.mem_cons_of_mem _ hw'')⟩

/-- Each node is started at most once, when each upstream node has passed the gate's watermark
    or has ended; behind completion gates, after everything it depends on. When
    `execute_pipeline` has returned, each node has been started exactly once. -/
theorem starts_in_order (hreg : ∀ n ∈ cfg.orchestrator.names, cfg.orchestrator.DepsRegistered n)
    (hr : cfg.initial.Run tr c) :
    (∀ n, starts c.data n ≤ 1) ∧
    (∀ n w later earlier, tr = later ++ cfg.startOf n w :: earlier →
      ∀ d ∈ cfg.orchestrator.getDependenciesForNode n,
        (cfg.orchestrator.isPrefill d ∧ 0 ≤ cfg.orchestrator.req n ∧
          ∃ e ∈ earlier, cfg.orchestrator.req n ≤ e.data.state.watermark) ∨
        ∃ r, w.Ended d r) ∧
    (cfg.CompletionGated → ∀ n w later earlier, tr = later ++ cfg.startOf n w :: earlier →
      ∀ d, Relation.TransGen (fun n d => d ∈ cfg.orchestrator.getDependenciesForNode n) n d →
        ∃ w', cfg.startOf d w' ∈ earlier) ∧
    (Returned c → ∀ n ∈ cfg.orchestrator.names, starts c.data n = 1) := by
  have hc : cfg.Reachable c := hr.reaches
  refine ⟨hc.starts_le, ?_, ?_, fun hret n hn => ?_⟩
  · intro n w later earlier htr d hd
    subst htr
    exact gate_passed hr hd
  · intro hgates n w later earlier htr d hd
    subst htr
    exact started_before hgates hr hd
  · have hfinished : (c.threads .main).finished := by
      rw [show c.threads .main = .run (.ret ()) from hret]
      rfl
    obtain ⟨-, -, hall⟩ := hc.main_returns hfinished
    obtain ⟨-, ⟨r, hended⟩, -⟩ := hc.done hn (hreg n hn) (hall n hn)
    have hstarted := ((reachable_holds hc).inv.ended n r hended).1
    have hpos : 0 < starts c.data n := List.count_pos_iff.mpr hstarted
    have hle := hc.starts_le n
    omega

/-- The toy branch behind a prefiller that fails has been started once. -/
theorem starts_in_order_toy :
    starts ((Toy.star 1 false (-1)).after Toy.joinAfterFailure).data "B" = 1 := by
  obtain ⟨tr, hr⟩ := Config.Reaches.exists_run (reachable_after _ Toy.joinAfterFailure)
  have hret : Returned ((Toy.star 1 false (-1)).after Toy.joinAfterFailure) := rfl
  exact (starts_in_order (by decide) hr).2.2.2 hret "B" (by decide)

end SwarmKV.Pipeline
