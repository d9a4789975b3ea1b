import SwarmKV.Spec.SchedulePrefix
import SwarmKV.Spec.Run

/-!
# Threads in step

What the threads have published belongs to the sequential program: the prefix, and for each worker
its output, its promise and its result. Every accepted action keeps them in step, and is answered as
the sequential program expects.
-/

namespace SwarmKV

open Monitor

namespace Calls

variable (D : Calls)

/-- llama.cpp answers as `D` says, and no allocation fails. -/
def Answers (w : World) : (a : Action sig) → a.Res → Prop
  | .op .allocate, r => r = true
  | .op .llamaInitFromModel, r => Option.isSome r = true
  | .op (.allocBuffer _), r => Option.isSome r = true
  | .op (.llamaDecode h batch), r => ∀ ctx ∈ w.contexts h, r = D.decodes ctx.cells batch
  | .op (.llamaStateSeqSetData h q k _), r => ∀ ctx ∈ w.contexts h,
    r = if D.setData ctx.cells (w.bytesAt q k) then (w.bytesAt q k).length else 0
  | _, _ => True

instance (w : World) (a : Action sig) (r : a.Res) : Decidable (D.Answers w a r) := by
  unfold Answers
  split <;> infer_instance

/-- All answers in a trace are those of `D`. -/
def Obeyed {E : Engine} (tr : Trace (machine E)) : Prop :=
  ∀ e ∈ tr, D.Answers e.data e.action e.answer

instance {E : Engine} (tr : Trace (machine E)) : Decidable (D.Obeyed tr) :=
  inferInstanceAs (Decidable (∀ e ∈ tr, D.Answers e.data e.action e.answer))

end Calls

namespace Pipeline

variable {cfg : Pipeline} {D : Calls} {p n : String} {i : Thread} {w w' : World}
  {c : Config cfg.engine} {v v' : View} {s s' : Thread → View}

/-! ## What is published of a worker -/

/-- How worker `n`, with view `v`, has ended so far. -/
structure WorkerInStep (cfg : Pipeline) (D : Calls) (p n : String) (v : View) (w : World) : Prop where
  output : w.state.nodeOutputs n = v.output
  settled : (w.promises n).isSome = v.settled
  outputs : ∀ value, w.state.nodeOutputs n = some value → D.result cfg p n = (.ok (), some value)
  promise : ∀ r, w.promises n = some r → r = (D.result cfg p n).1
  task : ∀ r, w.tasks n = some r → (r, w.state.nodeOutputs n) = D.result cfg p n
  outside : n ∉ cfg.orchestrator.names → v.output = none

private theorem WorkerInStep.frame (h : cfg.WorkerInStep D p n v w) (hv : v'.output = v.output)
    (hsettled : v'.settled = v.settled) (hout : w'.state.nodeOutputs n = w.state.nodeOutputs n)
    (hpromise : w'.promises n = w.promises n) (htask : w'.tasks n = w.tasks n) :
    cfg.WorkerInStep D p n v' w' := by
  refine ⟨?_, ?_, ?_, ?_, ?_, ?_⟩
  · rw [hout, hv, h.output]
  · rw [hpromise, hsettled, h.settled]
  · rw [hout]
    exact h.outputs
  · rw [hpromise]
    exact h.promise
  · rw [hout, htask]
    exact h.task
  · rw [hv]
    exact h.outside

/-- Another thread leaves the worker alone. -/
private theorem WorkerInStep.other (h : cfg.WorkerInStep D p n v w) {u : View} (hi : i ≠ .worker n)
    {o : Op} {x : Choice} {r : o.Res} (hok : u.accepts cfg cfg.stagingBuffer i (.op o))
    (hrule : cfg.scheduleRule D p i u (.op o)) (hx : exec cfg.engine i o x w = some (r, w')) :
    cfg.WorkerInStep D p n v w' := by
  refine h.frame rfl rfl ?_ ?_ ?_
  · obtain heq | ⟨key, value, rfl, heq⟩ := exec_nodeOutputs hx
    · rw [heq]
    · rw [heq, Function.update_of_ne fun hn : n = key => hi (hn ▸ hrule.1)]
  · obtain heq | ⟨m, q, rfl, -, heq⟩ := exec_promises hx
    · rw [heq]
    · rw [heq, Function.update_of_ne fun hn : n = m => hi (hn ▸ hrule.1)]
  · obtain heq | ⟨m, q, rfl, heq⟩ := exec_tasks hx
    · rw [heq]
    · rw [heq, Function.update_of_ne fun hn : n = m => hi (hn ▸ hok.1)]

/-- What a worker has published changes at an output and at a promise only. -/
private theorem next_published {E : Engine} (v : View) (a : Action sig) (r : a.Res)
    (hput : ∀ key value, a ≠ .op (.putOutput key value)) (hset : ∀ m q, a ≠ .op (.setPromise m q)) :
    (v.next E a r).output = v.output ∧ (v.next E a r).settled = v.settled := by
  cases a with
  | op o =>
    cases o with
    | note e => cases e <;> exact ⟨rfl, rfl⟩
    | load =>
      show (if v.held then { v with found := some r } else v).output = v.output ∧
        (if v.held then { v with found := some r } else v).settled = v.settled
      split <;> exact ⟨rfl, rfl⟩
    | llamaInitFromModel => cases r <;> exact ⟨rfl, rfl⟩
    | llamaDecode h batch => cases r <;> exact ⟨rfl, rfl⟩
    | llamaStateSeqSetData h q k seq =>
      show (if r = (0 : Nat) ∧ v.bytesAt q k ≠ [] then v else v.restore E q k seq).output = v.output ∧
        (if r = (0 : Nat) ∧ v.bytesAt q k ≠ [] then v else v.restore E q k seq).settled = v.settled
      split <;> exact ⟨rfl, rfl⟩
    | putOutput key value => exact absurd rfl (hput key value)
    | setPromise m q => exact absurd rfl (hset m q)
    | _ => exact ⟨rfl, rfl⟩
  | lock l => cases l <;> exact ⟨rfl, rfl⟩
  | unlock l => cases l <;> exact ⟨rfl, rfl⟩
  | _ => exact ⟨rfl, rfl⟩

/-- A step of the worker itself. -/
private theorem WorkerInStep.own (h : cfg.WorkerInStep D p n v w)
    (hfits : Fits cfg cfg.stagingBuffer (.worker n) v w) {o : Op} {x : Choice} {r : o.Res}
    (hok : v.accepts cfg cfg.stagingBuffer (.worker n) (.op o))
    (hrule : cfg.scheduleRule D p (.worker n) v (.op o))
    (hx : exec cfg.engine (.worker n) o x w = some (r, w')) :
    cfg.WorkerInStep D p n (v.next cfg.engine (.op o) r) w' := by
  have hframe : (∀ key value, o ≠ .putOutput key value) → (∀ m q, o ≠ .setPromise m q) →
      (∀ m q, o ≠ .setTask m q) → cfg.WorkerInStep D p n (v.next cfg.engine (.op o) r) w' := by
    intro hput hset htask
    obtain ⟨hout, hsettled⟩ := next_published (E := cfg.engine) v (.op o) r
      (fun key value ha => hput key value (Action.op.inj ha))
      fun m q ha => hset m q (Action.op.inj ha)
    refine h.frame hout hsettled ?_ ?_ ?_
    · obtain heq | ⟨key, value, ho, -⟩ := exec_nodeOutputs hx
      · rw [heq]
      · exact absurd ho (hput key value)
    · obtain heq | ⟨m, q, ho, -⟩ := exec_promises hx
      · rw [heq]
      · exact absurd ho (hset m q)
    · obtain heq | ⟨m, q, ho, -⟩ := exec_tasks hx
      · rw [heq]
      · exact absurd ho (htask m q)
  cases o with
  | putOutput key value =>
    obtain ⟨hn, hheld, hresult⟩ := hrule
    obtain rfl := Thread.worker.inj hn
    obtain ⟨hopen, m, hm, heq⟩ := hfits.held hheld
    obtain rfl := Thread.worker.inj heq
    simp only [exec, Option.some.injEq, Prod.mk.injEq] at hx
    obtain ⟨-, rfl⟩ := hx
    refine ⟨Function.update_self _ _ _, h.settled, fun value' hvalue => ?_, h.promise, fun q hq => ?_,
      fun hout => absurd hm hout⟩
    · -- the output is the one of the sequential program
      have hvalue : Function.update w.state.nodeOutputs n (some value) n = some value' := hvalue
      rw [Function.update_self] at hvalue
      rw [← hvalue]
      exact hresult
    · -- a worker that holds the guard has not ended
      have hq : w.tasks n = some q := hq
      have hdone := hfits.task n rfl (hq ▸ rfl)
      rw [hopen] at hdone
      cases hdone
  | setPromise m q =>
    obtain ⟨hn, -, hopen, -, hq⟩ := hrule
    obtain rfl := Thread.worker.inj hn
    -- so far the promise is open
    have hnone : w.promises n = none := by
      rw [← Option.not_isSome_iff_eq_none, h.settled, hopen]
      exact Bool.false_ne_true
    simp only [exec, hnone, Option.some.injEq, Prod.mk.injEq] at hx
    obtain ⟨-, rfl⟩ := hx
    refine ⟨h.output, ?_, h.outputs, fun q' hq' => ?_, h.task, h.outside⟩
    · show (Function.update w.promises n (some q) n).isSome = true
      rw [Function.update_self]
      rfl
    · have hq' : Function.update w.promises n (some q) n = some q' := hq'
      rw [Function.update_self, Option.some.injEq] at hq'
      rw [← hq', hq]
  | setTask m q =>
    obtain rfl := Thread.worker.inj hok.1
    have hresult : (q, v.output) = D.result cfg p n := hrule
    simp only [exec, Option.some.injEq, Prod.mk.injEq] at hx
    obtain ⟨-, rfl⟩ := hx
    refine ⟨h.output, h.settled, h.outputs, h.promise, fun q' hq' => ?_, h.outside⟩
    -- the result of the task goes with the output that the worker has published
    have hq' : Function.update w.tasks n (some q) n = some q' := hq'
    rw [Function.update_self, Option.some.injEq] at hq'
    rw [← hresult, ← h.output, hq']
  | _ => exact hframe (fun _ _ => Op.noConfusion) (fun _ _ => Op.noConfusion) fun _ _ => Op.noConfusion

/-! ## All threads -/

/-- What the threads have published belongs to the sequential program. -/
structure InStep (cfg : Pipeline) (D : Calls) (p : String) (s : Thread → View) (w : World) :
    Prop where
  milestones : w.state.snapshotMilestones = cfg.registeredState.snapshotMilestones
  ofPrefix : cfg.PrefixInStep D p (s (.worker p)) w
  workers : ∀ n, cfg.WorkerInStep D p n (s (.worker n)) w

/-- An accepted action keeps the threads in step. -/
theorem InStep.act (h : cfg.InStep D p s c.data) {c' : Config cfg.engine}
    {e : Entry (machine cfg.engine)} (hviews : ViewInv cfg cfg.stagingBuffer s c.data)
    (he : c.Acts e c') (hok : (s e.thread).accepts cfg cfg.stagingBuffer e.thread e.action)
    (hrule : cfg.scheduleRule D p e.thread (s e.thread) e.action)
    (hfree : e.action = .lock .llamaApiMutex → (s e.thread).held = false)
    (hown : s' e.thread = (s e.thread).next cfg.engine e.action e.answer)
    (hother : ∀ j, j ≠ e.thread → s' j = s j) : cfg.InStep D p s' c'.data := by
  -- mutexes, waits and notifications
  have hstay : c'.data = c.data → (∀ o, e.action ≠ .op o) → cfg.InStep D p s' c'.data := by
    intro hdata hop
    rw [hdata]
    refine ⟨h.milestones, ?_, fun n => ?_⟩
    · by_cases hp : .worker p = e.thread
      · rw [hp, hown, ← hp]
        rw [← hp] at hrule hfree
        -- only the guard matters for what has to be published
        by_cases hlock : e.action = .lock .llamaApiMutex
        · exact h.ofPrefix.guard (.inl ⟨hlock, hfree hlock⟩)
        by_cases hunlock : e.action = .unlock .llamaApiMutex
        · rw [hunlock] at hrule
          exact h.ofPrefix.guard (.inr ⟨hunlock, hrule rfl⟩)
        · refine h.ofPrefix.frame (marks_next ?_ _ _) samePrefix_refl (.inr fun _ _ => rfl)
          cases hact : e.action with
          | op o => exact absurd hact (hop o)
          | lock l => cases l <;> first | rfl | exact absurd hact hlock
          | unlock l => cases l <;> first | rfl | exact absurd hact hunlock
          | _ => rfl
      · rw [hother _ hp]
        exact h.ofPrefix
    · by_cases hn : .worker n = e.thread
      · rw [hn, hown, ← hn]
        obtain ⟨hout, hsettled⟩ := next_published (E := cfg.engine) (s (.worker n)) e.action e.answer
          (fun _ _ => hop _) fun _ _ => hop _
        exact (h.workers n).frame hout hsettled rfl rfl rfl
      · rw [hother _ hn]
        exact h.workers n
  cases he with
  | @op i o k x r d ht hx =>
    -- the step of one thread, seen by `p` and by each worker
    have hfits := hviews.fits i
    refine ⟨(exec_snapshotMilestones hx).trans h.milestones, ?_, fun n => ?_⟩
    · by_cases hp : .worker p = i
      · subst hp
        rw [hown]
        exact h.ofPrefix.own hviews.sound hfits (h.workers p).settled hok hrule hx
      · rw [hother _ hp]
        exact h.ofPrefix.other hviews.sound hfits (Ne.symm hp) hok hrule hx
    · by_cases hn : .worker n = i
      · subst hn
        rw [hown]
        exact (h.workers n).own hfits hok hrule hx
      · rw [hother _ hn]
        exact (h.workers n).other (Ne.symm hn) hok hrule hx
  | _ => exact hstay rfl fun _ ha => by cases ha

/-- A branch that waits for the end of the provider forks behind all of it. -/
private theorem InStep.filed_eq (h : cfg.InStep D p s w) (hfed : cfg.orchestrator.FedBy p)
    (hgates : cfg.GatesPassed n w) (hn : n ≠ p)
    (hreq : p ∈ cfg.orchestrator.names → cfg.orchestrator.req n < 0) :
    (s (.worker p)).filed = (D.provided cfg p).filed := by
  by_cases hp : p ∈ cfg.orchestrator.names
  · refine h.ofPrefix.provided (hgates.completion p ?_)
    rw [Orchestrator.mem_completionDeps]
    have hneg := hreq hp
    exact ⟨hfed.direct hp n hgates.registered hn, fun hpos => by omega⟩
  · rw [h.ofPrefix.outside hp, Calls.provided_of_not_mem hp]

/-- While another worker holds the guard, all that the provider has filed is published. -/
private theorem InStep.published (h : cfg.InStep D p s w) (hn : n ≠ p)
    (halone : ∀ j, (s j).held = true → j = .worker n) : cfg.AllPublished D p (s (.worker p)) := by
  refine h.ofPrefix.published ?_
  rw [← Bool.not_eq_true]
  exact fun hp => hn (Thread.worker.inj (halone _ hp)).symm

/-- A worker under the guard sees what the sequential program has filed. -/
private theorem InStep.shows (h : cfg.InStep D p s w) (hfed : cfg.orchestrator.FedBy p)
    (halone : ∀ j, (s j).held = true → j = i)
    (hgates : ∀ n, i = .worker n → cfg.GatesPassed n w) :
    cfg.Shows D p i (s i).filed w.state where
  own := by
    rintro rfl t
    exact h.ofPrefix.snapshots t
  snapshot := by
    rintro n rfl hn hreq
    rw [h.ofPrefix.snapshots]
    by_cases hp : p ∈ cfg.orchestrator.names
    · -- behind its gate the provider has committed the watermark of the branch
      have hgate := (hgates n rfl).watermark p ⟨hfed.provider hp, hfed.sole⟩
        (hfed.direct hp n (hgates n rfl).registered hn) hreq
      rw [(h.published hn halone).filed _ (hgate.trans h.ofPrefix.watermark)]
    · rw [h.filed_eq hfed (hgates n rfl) hn fun hp' => absurd hp' hp]
  canonical := by
    rintro n rfl hn hreq
    have hpub := h.published hn halone
    rw [h.ofPrefix.seqLen, h.ofPrefix.serialBytes, hpub.seqLen, hpub.serialBytes,
      h.filed_eq hfed (hgates n rfl) hn fun _ => hreq]

/-- The threads get the answers that they expect. -/
theorem InStep.answer (h : cfg.InStep D p s c.data) {c' : Config cfg.engine}
    {e : Entry (machine cfg.engine)} (hviews : ViewInv cfg cfg.stagingBuffer s c.data)
    (hfed : cfg.orchestrator.FedBy p)
    (hD : ∀ q bytes, cfg.engine.exports q bytes = true → bytes = D.getData q)
    (he : c.Acts e c') (hok : (s e.thread).accepts cfg cfg.stagingBuffer e.thread e.action)
    (hrule : cfg.scheduleRule D p e.thread (s e.thread) e.action)
    (hobeys : D.Answers e.data e.action e.answer)
    (halone : ∀ i j, (s i).held = true → (s j).held = true → i = j)
    (hgates : ∀ n, (s (.worker n)).held = true → cfg.GatesPassed n c.data) :
    cfg.scheduleAnswer D p e.thread (s e.thread) e.action e.answer := by
  cases he with
  | @op i o k x r d ht hx =>
    have hfits := hviews.fits i
    cases o with
    | allocate => exact hobeys
    | llamaInitFromModel => exact hobeys
    | allocBuffer size => exact hobeys
    | llamaStateGetSize hd nCtx =>
      simp only [exec, Option.some.injEq, Prod.mk.injEq] at hx
      exact hx.1.symm
    | llamaDecode hd batch =>
      -- the cells that the thread knows are those of the context
      intro cells hcells
      obtain ⟨known, hknown, hall⟩ := hfits.ctx hd hok
      obtain rfl := hall cells hcells
      exact hobeys _ hknown
    | llamaStateSeqGetData hd b cap seq =>
      intro cells hcells hcap
      obtain ⟨known, hknown, hall⟩ := hfits.ctx hd hok.1
      obtain rfl := hall cells hcells
      obtain ⟨bytes, hbytes, rfl, -⟩ := exec_llamaStateSeqGetData hknown hx
      have hsize := cfg.engine.exports_size _ _ hbytes
      rw [fitting, if_pos (hsize.trans hcap), hD _ _ hbytes]
    | llamaStateSeqSetData hd q k seq =>
      intro cells hcells
      obtain ⟨hctx, hheld, hknows⟩ := hok
      obtain ⟨known, hknown, hall⟩ := hfits.ctx hd hctx
      obtain rfl := hall cells hcells
      have hanswer := hobeys _ hknown
      rw [(hfits.right hheld).bytesAt hknows] at hanswer
      exact hanswer
    | bufferSize b =>
      intro hheld hb
      have hsize := h.ofPrefix.size.resolve_left (hfits.not_allDone hheld) b hb
      simp only [exec, Option.some.injEq, Prod.mk.injEq] at hx
      obtain ⟨size, hstaging, -⟩ := Option.map_eq_some_iff.mp hb
      rw [← hx.1, hsize, hstaging]
      rfl
    | readBytes q k =>
      cases q with
      | snapshot t => trivial
      | buffer b =>
        rintro hb n rfl hn hreq rfl
        have hheld : (s (.worker n)).held = true := hok
        -- a branch that reads the canonical buffer holds the guard, so nothing is being exported
        have hpub := h.published hn fun j hj => halone _ _ hj hheld
        have hbytes := h.ofPrefix.bytes.resolve_left (hfits.not_allDone hheld) hpub.exported b hb
        rw [h.filed_eq hfed (hgates n hheld) hn fun _ => hreq] at hbytes
        simp only [exec, Option.some.injEq, Prod.mk.injEq] at hx
        rw [← hx.1, hbytes]
    | load =>
      simp only [exec, Option.some.injEq, Prod.mk.injEq] at hx
      obtain ⟨rfl, -⟩ := hx
      refine ⟨h.milestones, fun hheld => h.shows hfed (fun j hj => halone _ _ hj hheld) ?_⟩
      rintro n rfl
      exact hgates n hheld
    | setPromise m q =>
      obtain ⟨hm, -, hopen, -⟩ := hrule
      have hnone : c.data.promises m = none := by
        rw [← Option.not_isSome_iff_eq_none, (h.workers m).settled, ← hm, hopen]
        exact Bool.false_ne_true
      simp only [exec, hnone, Option.some.injEq, Prod.mk.injEq] at hx
      exact hx.1.symm
    | _ => trivial
  | _ => trivial

end Pipeline

end SwarmKV
