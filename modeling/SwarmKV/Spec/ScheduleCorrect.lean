import SwarmKV.Spec.ScheduleInvariant
import SwarmKV.Spec.FailureCorrect

/-!
# Every schedule computes the same

A graph with one provider computes what the sequential program computes, whatever the order in
which its threads are scheduled, as long as llama.cpp answers by what is in its contexts and no
allocation fails.
-/

namespace SwarmKV

open Monitor

namespace Pipeline

variable {cfg : Pipeline} {D : Calls} {p n : String} {c : Config cfg.engine}
  {tr : Trace (machine cfg.engine)} {s : Thread → View}

/-! ## Behind the gate -/

/-- A thread that takes the guard has started to execute its node. -/
private def startWatch : Observer sig Bool where
  start := false
  next started a _ := match a with
    | .op (.note .executeStart) => true
    | _ => started
  ok started a := match a with
    | .lock .llamaApiMutex => started = true
    | _ => True

private theorem startWatch_keeps (b : Bool) {a : Action sig}
    (ha : a = .lock .llamaApiMutex → b = true) (hb : a = .op (.note .executeStart) → b = true) :
    startWatch.Keeps (· = b) a := by
  rintro _ rfl
  cases a with
  | op o =>
    cases o with
    | note e =>
      cases e with
      | executeStart => exact ⟨trivial, fun _ _ => (hb rfl).symm⟩
      | _ => exact ⟨trivial, fun _ _ => rfl⟩
    | _ => exact ⟨trivial, fun _ _ => rfl⟩
  | lock l =>
    cases l with
    | llamaApiMutex => exact ⟨ha rfl, fun _ _ => rfl⟩
    | _ => exact ⟨trivial, fun _ _ => rfl⟩
  | _ => exact ⟨trivial, fun _ _ => rfl⟩

private theorem startWatch_program (cfg : Pipeline) (i : Thread) :
    startWatch.Meets (cfg.program i) (fun _ _ => True) false := by
  cases i with
  | main =>
    refine (Observer.Spec.of_uses (I := (· = false)) cfg.orchestrator.joinAll_uses
      (fun a ha => startWatch_keeps false ?_ ?_) false rfl).mono fun _ _ _ => trivial
    · rintro rfl
      cases ha
    · rintro rfl
      cases ha
  | worker n =>
    show startWatch.Meets (if n ∈ cfg.orchestrator.names then
      cfg.orchestrator.worker cfg.engine n else pure () : Prog Unit) _ _
    split
    · refine (Orchestrator.worker_spec (P := (· = false)) (I := (· = false)) (J := (· = true))
        (K := fun _ => True) (fun _ _ => trivial) (fun node _ => ?_) (fun s hs => ?_)
        (fun a ha hne s _ => ?_) (fun t a ha s _ => ?_) (fun node ctx _ _ _ => ?_) false rfl).mono
          fun _ _ _ => trivial
      · -- the gate does not take the guard
        refine .err (.of_uses (I := (· = false)) (Orchestrator.awaitDependencies_uses _ _)
          fun a ha => startWatch_keeps false ?_ ?_) fun _ _ _ => trivial
        · rintro rfl
          cases ha
        · rintro rfl
          cases ha
      · exact ⟨trivial, fun _ _ => rfl⟩
      · refine ⟨?_, fun _ _ => trivial⟩
        cases ha <;> trivial
      · refine ⟨?_, fun _ _ => trivial⟩
        cases ha <;> trivial
      · -- the node runs behind its start
        have hnode := Observer.Spec.of_uses (A := startWatch) (I := (· = true))
          (node.execute_uses ctx) fun a _ => startWatch_keeps true (fun _ => rfl) fun _ => rfl
        exact .conseq hnode (fun _ hs => hs) (fun _ _ _ => trivial) fun _ _ _ => trivial
    · trivial

private theorem startWatch_next (b : Bool) (a : Action sig) (r : a.Res) :
    startWatch.next b a r = true ↔ b = true ∨ a = .op (.note .executeStart) := by
  cases a with
  | op o =>
    cases o with
    | note e => cases e <;> simp [startWatch]
    | _ => simp [startWatch]
  | _ => simp [startWatch]

/-- What the run so far says about the start of `n`. -/
private structure StartSeen (n : String) (tr : Trace (machine cfg.engine)) (w : World) : Prop where
  held : tr.holding (.worker n) .llamaApiMutex = true →
    Observer.state (fun _ => startWatch) tr (.worker n) = true
  started : Observer.state (fun _ => startWatch) tr (.worker n) = true → w.Started n

private theorem StartSeen.act {c' : Config cfg.engine} {e : Entry (machine cfg.engine)}
    (h : StartSeen n tr c.data) (he : c.Acts e c')
    (hok : startWatch.ok (Observer.state (fun _ => startWatch) tr e.thread) e.action) :
    StartSeen n (e :: tr) c'.data := by
  -- who has started stays so
  have hgrows : c.data.Started n → c'.data.Started n := by
    intro hs
    cases he with
    | op ht hx => exact (exec_log_grows hx _).subset hs
    | _ => exact hs
  by_cases hi : e.thread = .worker n
  · constructor
    · rw [Observer.state, if_pos hi, startWatch_next, Trace.holding, if_pos hi]
      intro hheld
      left
      by_cases ha : e.action = .lock .llamaApiMutex
      · -- the rule is about this very step
        rw [hi, ha] at hok
        exact hok
      · -- otherwise it has held the guard before
        refine h.held ?_
        cases hact : e.action with
        | lock l =>
          rw [hact] at hheld ha
          simpa [Action.holding, show l ≠ .llamaApiMutex from fun hl => ha (hl ▸ rfl)] using hheld
        | unlock l =>
          rw [hact] at hheld
          simp only [Action.holding, Bool.and_eq_true] at hheld
          exact hheld.2
        | _ =>
          rw [hact] at hheld
          exact hheld
    · rw [Observer.state, if_pos hi, startWatch_next]
      rintro (hs | ha)
      · exact hgrows (h.started hs)
      · cases he with
        | op ht hx =>
          cases hi
          cases ha
          simp only [exec, Option.some.injEq, Prod.mk.injEq] at hx
          obtain ⟨-, rfl⟩ := hx
          simp [World.Started, World.record]
        | _ => cases ha
  · -- a step of another thread
    constructor
    · rw [Observer.state, if_neg hi, Trace.holding, if_neg hi]
      exact h.held
    · rw [Observer.state, if_neg hi]
      exact fun hs => hgrows (h.started hs)

/-- A worker that holds the guard has passed its gate. -/
private theorem gatesPassed_of_holding (hr : cfg.initial.Run tr c)
    (hheld : tr.holding (.worker n) .llamaApiMutex = true) : cfg.GatesPassed n c.data := by
  have hprogram : ∀ i, startWatch.Meets (cfg.initial.threads i).prog (fun _ _ => True) false :=
    startWatch_program cfg
  obtain ⟨hseen, -⟩ := hr.observe (A := fun _ => startWatch) (Q := fun _ _ _ => True)
    (R := fun tr c => StartSeen n tr c.data) hprogram
    ⟨fun h => Bool.noConfusion h, fun h => Bool.noConfusion h⟩
    (fun _ hold he hok => ⟨by cases he <;> trivial, hold.act he hok⟩)
    fun _ hold hs => by rwa [hs.data]
  exact (reachable_holds hr.reaches).inv.started n (hseen.started (hseen.held hheld))

/-! ## Runs -/

/-- Nothing is filed at the start of the document. -/
private theorem provided_lookup {t : Int} (ht : t ≤ 0) :
    (D.provided cfg p).filed.lookup t = none := by
  unfold Calls.provided
  split
  · unfold Calls.prefill
    -- the document, its tokens and its size come before the first commit
    split
    · rfl
    split
    · rfl
    split
    · rfl
    split
    · rfl
    · rw [Calls.prefillFrom_lookup _ _ _ _ ht]
      rfl
  · rfl

/-- The threads start in step. -/
private theorem InStep.start : cfg.InStep D p (fun _ => {}) cfg.initialWorld where
  milestones := rfl
  ofPrefix := by
    refine ⟨fun t => registeredState_prefixSnapshots t, registeredState_prefixSeqLen,
      registeredState_prefixKvSerialBytes, le_of_eq registeredState_watermark,
      fun _ => ⟨rfl, rfl, rfl, fun t ht => provided_lookup ht⟩, .inr fun b hb => ?_,
      .inr fun _ b _ => by simp [World.bytesAt, Calls.lastFiled], fun hp => ?_, fun _ => rfl⟩
    · obtain ⟨size, hsize, rfl⟩ := Option.map_eq_some_iff.mp hb
      simp [initialWorld, hsize]
    · cases hp
  workers n := by
    have hnone : cfg.registeredState.nodeOutputs n = none := by
      rw [cfg.registeredState_registered.rest]
      rfl
    refine ⟨hnone, rfl, fun value hvalue => ?_, fun r hr => ?_, fun r hr => ?_, fun _ => rfl⟩
    · have hvalue : cfg.registeredState.nodeOutputs n = some value := hvalue
      rw [hnone] at hvalue
      cases hvalue
    · cases hr
    · cases hr

/-- What the threads know after a trace. -/
abbrev scheduleViews (cfg : Pipeline) (D : Calls) (p : String) (tr : Trace (machine cfg.engine)) :
    Thread → View :=
  cfg.views cfg.stagingBuffer (cfg.scheduleRule D p) (cfg.scheduleAnswer D p) tr

/-- In every run whose answers are those of `D` the threads are in step. -/
theorem inStep_of_run (hfed : cfg.orchestrator.FedBy p)
    (hD : ∀ q bytes, cfg.engine.exports q bytes = true → bytes = D.getData q)
    (hr : cfg.initial.Run tr c) (htr : D.Obeyed tr) :
    ViewInv cfg cfg.stagingBuffer (cfg.scheduleViews D p tr) c.data ∧
      cfg.InStep D p (cfg.scheduleViews D p tr) c.data := by
  have hinv := cfg.initial_inv
  have hstart : cfg.Start cfg.stagingBuffer cfg.initialWorld :=
    ⟨⟨⟨hinv.freshContext, hinv.freshBuffer⟩, hinv.staging, hinv.stagingOld, hinv.stagingLive,
      fun _ _ _ hmem => by cases hmem⟩, fun _ => rfl, fun _ => rfl⟩
  refine (hstart.observe (P := D.Obeyed) (R := fun tr w => cfg.InStep D p
    (cfg.scheduleViews D p tr) w)
    (fun h e he => h e (List.mem_cons_of_mem _ he)) (program_schedule hfed hD) InStep.start ?_ hr
      htr).1
  intro tr c e c' hrun hobeys hviews hold he hok hrule _
  have hrun : cfg.initial.Run tr c := hrun
  have hanswers : D.Answers e.data e.action e.answer := hobeys e List.mem_cons_self
  refine ⟨hold.answer hviews hfed hD he hok hrule hanswers (fun _ _ => views_alone hrun)
    fun n hheld => ?_, hold.act hviews he hok hrule (fun hlock => ?_) Observer.state_same
      fun j hj => Observer.state_other hj⟩
  · rw [views_held] at hheld
    exact gatesPassed_of_holding hrun hheld
  · -- a mutex that is taken was free
    rw [views_held, ← Bool.not_eq_true, hrun.holding_iff (fun _ => by simp) rfl]
    cases he with
    | lock ht hfree =>
      cases hlock
      rw [hfree]
      simp
    | _ => cases hlock

/-! ## The sequential program -/

/-- The world is what the sequential program leaves behind. -/
structure Computed (cfg : Pipeline) (D : Calls) (p : String) (w : World) : Prop where
  tasks : ∀ n ∈ cfg.orchestrator.names, w.tasks n = some (D.result cfg p n).1
  promises : ∀ n ∈ cfg.orchestrator.names, w.promises n = some (D.result cfg p n).1
  outputs : ∀ n, w.state.nodeOutputs n = (D.result cfg p n).2
  snapshots : ∀ t, w.state.prefixSnapshots t =
    ((D.provided cfg p).filed.lookup t).map (⟨·, t⟩)
  canonical : (w.state.prefixSeqLen, w.state.prefixKvSerialBytes) =
    ((Calls.lastFiled (D.provided cfg p).filed).1, (Calls.lastFiled (D.provided cfg p).filed).2.length)

/-- What the threads have published when all have ended. -/
theorem InStep.computed (h : cfg.InStep D p s c.data) (hc : cfg.Reachable c)
    (hviews : ViewInv cfg cfg.stagingBuffer s c.data) (hfed : cfg.orchestrator.FedBy p)
    (hret : Returned c) : cfg.Computed D p c.data := by
  obtain ⟨-, hdone, -⟩ : (.ok () : Outcome) = .ok () ∧ cfg.AllDone c.data ∧
    c.data.activeBuffers = [] := (reachable_holds hc).done_of_ret hret
  have hpromise : ∀ n ∈ cfg.orchestrator.names, (c.data.promises n).isSome := fun n hn =>
    (hc.done hn (hfed.registered n hn) ((hc.finished_iff hn).mpr (hdone n hn))).1
  -- the provider has given the guard away, with everything filed and published
  have hfree : (s (.worker p)).held = false := by
    rw [← Bool.not_eq_true]
    exact fun hheld => (hviews.fits _).not_allDone hheld hdone
  have hpub := h.ofPrefix.published hfree
  have hfiled : (s (.worker p)).filed = (D.provided cfg p).filed := by
    by_cases hp : p ∈ cfg.orchestrator.names
    · exact h.ofPrefix.provided (hpromise p hp)
    · rw [h.ofPrefix.outside hp, Calls.provided_of_not_mem hp]
  refine ⟨fun n hn => ?_, fun n hn => ?_, fun n => ?_, fun t => ?_, ?_⟩
  -- the workers
  · obtain ⟨r, hr⟩ := Option.isSome_iff_exists.mp (hdone n hn)
    rw [hr, ← (h.workers n).task r hr]
  · obtain ⟨r, hr⟩ := Option.isSome_iff_exists.mp (hpromise n hn)
    rw [hr, (h.workers n).promise r hr]
  · by_cases hn : n ∈ cfg.orchestrator.names
    · obtain ⟨r, hr⟩ := Option.isSome_iff_exists.mp (hdone n hn)
      rw [← (h.workers n).task r hr]
    · rw [(h.workers n).output, (h.workers n).outside hn, Calls.result_of_not_mem hn]
  -- the prefix
  · rw [h.ofPrefix.snapshots, hfiled]
  · rw [h.ofPrefix.seqLen, h.ofPrefix.serialBytes, hpub.seqLen, hpub.serialBytes, hfiled]

/-- A run that has returned has computed all of it. -/
theorem computed_of_run (hfed : cfg.orchestrator.FedBy p)
    (hD : ∀ q bytes, cfg.engine.exports q bytes = true → bytes = D.getData q)
    (hr : cfg.initial.Run tr c) (htr : D.Obeyed tr) (hret : Returned c) : cfg.Computed D p c.data := by
  obtain ⟨hviews, hstep⟩ := inStep_of_run hfed hD hr htr
  exact hstep.computed hr.reaches hviews hfed hret

/-- The nodes that have thrown are those that throw in the sequential program. -/
theorem Computed.failed_iff (h : cfg.Computed D p c.data) (hc : cfg.Reachable c)
    (hn : n ∈ cfg.orchestrator.names) :
    c.data.Failed n ↔ ∃ e, (D.result cfg p n).1 = .error e := by
  have hinv := (reachable_holds hc).inv
  have hended : c.data.Ended n (D.result cfg p n).1 := hinv.promise n _ (h.promises n hn)
  constructor
  · intro hfailed
    obtain ⟨e, he⟩ := hfailed
    exact ⟨e, hinv.endedOnce n _ _ hended he⟩
  · intro herror
    obtain ⟨e, he⟩ := herror
    exact ⟨e, he ▸ hended⟩

/-- A graph with one provider computes what the sequential program computes, in every order of its
    steps: each result and each output that it has published so far is the sequential one, and when
    `execute_pipeline` returns nothing is missing. -/
theorem computes_sequentially (hfed : cfg.orchestrator.FedBy p)
    (hD : ∀ q bytes, cfg.engine.exports q bytes = true → bytes = D.getData q)
    (hr : cfg.initial.Run tr c) (htr : D.Obeyed tr) :
    (∀ n value, c.data.state.nodeOutputs n = some value →
      D.result cfg p n = (.ok (), some value)) ∧
    (∀ n r, c.data.promises n = some r → r = (D.result cfg p n).1) ∧
    (∀ n r, c.data.tasks n = some r → (r, c.data.state.nodeOutputs n) = D.result cfg p n) ∧
    (Returned c → cfg.Computed D p c.data) := by
  obtain ⟨-, hstep⟩ := inStep_of_run hfed hD hr htr
  exact ⟨fun n => (hstep.workers n).outputs, fun n => (hstep.workers n).promise,
    fun n => (hstep.workers n).task, computed_of_run hfed hD hr htr⟩

/-- The prefiller exports its token and the branch forks there; all is as in the sequential
    program when the caller returns. -/
theorem computes_sequentially_toy : (Toy.star 1 false 1).Computed Toy.calls "P"
    ((Toy.star 1 false 1).after Toy.joinAtOne).data := by
  have hrun := Config.run_after (c := (Toy.star 1 false 1).initial) (s := Toy.joinAtOne)
    (by decide +kernel)
  have hret := (Reachable.main_returns hrun.reaches (by decide +kernel)).1
  exact (computes_sequentially (Toy.star_fedBy 1 false 1 []) (Toy.calls_exports 1) hrun
    (by decide +kernel)).2.2.2 hret

/-- The outputs do not depend on the schedule: two runs that have returned have the same nodes that
    threw, the same results and the same outputs. -/
theorem outputs_deterministic (hfed : cfg.orchestrator.FedBy p)
    (hD : ∀ q bytes, cfg.engine.exports q bytes = true → bytes = D.getData q)
    {c' : Config cfg.engine} {tr' : Trace (machine cfg.engine)}
    (hr : cfg.initial.Run tr c) (htr : D.Obeyed tr) (hret : Returned c)
    (hr' : cfg.initial.Run tr' c') (htr' : D.Obeyed tr') (hret' : Returned c') :
    (∀ n ∈ cfg.orchestrator.names, (c'.data.Failed n ↔ c.data.Failed n) ∧
      c'.data.tasks n = c.data.tasks n) ∧
    c'.data.state.nodeOutputs = c.data.state.nodeOutputs := by
  -- both have computed what the sequential program computes
  have h := computed_of_run hfed hD hr htr hret
  have h' := computed_of_run hfed hD hr' htr' hret'
  refine ⟨fun n hn => ⟨?_, ?_⟩, ?_⟩
  · rw [h'.failed_iff hr'.reaches hn, h.failed_iff hr.reaches hn]
  · rw [h'.tasks n hn, h.tasks n hn]
  · funext n
    rw [h'.outputs n, h.outputs n]

/-- In one run the branch forks behind the pause of the prefiller, in the other it overtakes the
    prefiller. -/
theorem outputs_deterministic_toy :
    ((Toy.star 1 false 1).after Toy.joinOvertaken).data.state.nodeOutputs =
      ((Toy.star 1 false 1).after Toy.joinAtOne).data.state.nodeOutputs := by
  have hrun : (Toy.star 1 false 1).initial.Run _ ((Toy.star 1 false 1).after Toy.joinAtOne) :=
    Config.run_after (by decide +kernel)
  have hret := (Reachable.main_returns hrun.reaches (by decide +kernel)).1
  have hrun' : (Toy.star 1 false 1).initial.Run _ ((Toy.star 1 false 1).after Toy.joinOvertaken) :=
    Config.run_after (by decide +kernel)
  have hret' := (Reachable.main_returns hrun'.reaches (by decide +kernel)).1
  exact (outputs_deterministic (Toy.star_fedBy 1 false 1 []) (Toy.calls_exports 1) hrun
    (by decide +kernel) hret hrun' (by decide +kernel) hret').2

/-- Neither the order of steps nor the order of registration nor edges between branches matter: two
    calls of `execute_pipeline` on the same nodes leave the same results, outputs and snapshots
    behind. -/
theorem computes_same {cfg' : Pipeline} (hsame : cfg.SameNodes cfg')
    (hfed : cfg.orchestrator.FedBy p) (hfed' : cfg'.orchestrator.FedBy p)
    (hD : ∀ q bytes, cfg.engine.exports q bytes = true → bytes = D.getData q)
    {c' : Config cfg'.engine} {tr' : Trace (machine cfg'.engine)}
    (hr : cfg.initial.Run tr c) (htr : D.Obeyed tr) (hret : Returned c)
    (hr' : cfg'.initial.Run tr' c') (htr' : D.Obeyed tr') (hret' : Returned c') :
    (∀ n ∈ cfg.orchestrator.names, c'.data.tasks n = c.data.tasks n ∧
      c'.data.promises n = c.data.promises n) ∧
    c'.data.state.nodeOutputs = c.data.state.nodeOutputs ∧
    c'.data.state.prefixSnapshots = c.data.state.prefixSnapshots ∧
    c'.data.state.prefixSeqLen = c.data.state.prefixSeqLen ∧
    c'.data.state.prefixKvSerialBytes = c.data.state.prefixKvSerialBytes := by
  have h := computed_of_run hfed hD hr htr hret
  have h' := computed_of_run hfed' (hsame.engine ▸ hD) hr' htr' hret'
  -- and the sequential program looks at the nodes only
  have hprovided := hsame.provided_eq (D := D) p
  have hresult := fun n => hsame.result_eq (D := D) p n
  have hcanonical := h'.canonical
  rw [hprovided, ← h.canonical] at hcanonical
  refine ⟨fun n hn => ?_, ?_, ?_, congrArg Prod.fst hcanonical, congrArg Prod.snd hcanonical⟩
  · have hn' := hsame.mem_names.mpr hn
    exact ⟨by rw [h.tasks n hn, h'.tasks n hn', hresult], by
      rw [h.promises n hn, h'.promises n hn', hresult]⟩
  · funext n
    rw [h.outputs, h'.outputs, hresult]
  · funext t
    rw [h.snapshots, h'.snapshots, hprovided]

/-- In one run the prefiller waits for the branch, in the other the branch is there first. -/
theorem computes_same_toy :
    (Toy.flipped.after Toy.joinOvertaken).data.state.nodeOutputs =
      ((Toy.star 1 false 1).after Toy.joinAtOne).data.state.nodeOutputs := by
  have hrun : (Toy.star 1 false 1).initial.Run _ ((Toy.star 1 false 1).after Toy.joinAtOne) :=
    Config.run_after (by decide +kernel)
  have hret := (Reachable.main_returns hrun.reaches (by decide +kernel)).1
  have hrun' : Toy.flipped.initial.Run _ (Toy.flipped.after Toy.joinOvertaken) :=
    Config.run_after (by decide +kernel)
  have hret' := (Reachable.main_returns hrun'.reaches (by decide +kernel)).1
  exact (computes_same Toy.star_sameNodes (Toy.star_fedBy 1 false 1 []) Toy.flipped_fedBy
    (Toy.calls_exports 1) hrun (by decide +kernel) hret hrun' (by decide +kernel) hret').2.1

end Pipeline

end SwarmKV
