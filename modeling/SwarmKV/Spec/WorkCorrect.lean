import SwarmKV.Native.Baseline
import SwarmKV.Spec.WorkerRules
import SwarmKV.Spec.Run
import SwarmKV.Spec.Toy

/-!
# The work of a run

The prefiller decodes each token of its document once, also across its pauses, and a branch decodes
its prompt and nothing else. So the document is decoded once for all branches together, where the
baseline decodes it for each of them.
-/

namespace SwarmKV

open Monitor

/-- The cells that an answered action has decoded. -/
def decodedCells : (a : Action sig) → a.Res → List KvCell
  | .op (.llamaDecode _ batch) => fun r : Bool => if r then batch.cells else []
  | _ => fun _ => []

/-- The cells that thread `i` has decoded in a run, in order. -/
def decodedBy {E : Engine} : Trace (machine E) → Thread → List KvCell
  | [], _ => []
  | e :: tr, i => decodedBy tr i ++ if e.thread = i then decodedCells e.action e.answer else []

theorem decodedBy_cons {E : Engine} (e : Entry (machine E)) (tr : Trace (machine E)) (i : Thread) :
    decodedBy (e :: tr) i =
      decodedBy tr i ++ if e.thread = i then decodedCells e.action e.answer else [] := rfl

namespace Pipeline

variable {cfg : Pipeline} {c c' : Config cfg.engine} {tr : Trace (machine cfg.engine)}
  {n p : String}

/-- What the worker of `n` may have decoded: a start of its document, or its prompt. -/
inductive PartOf (cfg : Pipeline) (n : String) : List KvCell → Prop
  | idle : cfg.PartOf n []
  | document {node : PrefillNode} (hn : cfg.orchestrator.node n = some (.prefill node)) (k : Nat)
    (hk : k ≤ (cfg.doc n).length) : cfg.PartOf n (toCells (docSeq (cfg.doc n) k))
  | prompt {node : AnalyticalNode} (hn : cfg.orchestrator.node n = some (.analytical node))
    (start : Int) : cfg.PartOf n (toCells (seqFrom start (cfg.prompt n)))

/-- What it has decoded when it has ended normally: its whole document, or its prompt. -/
inductive WholeOf (cfg : Pipeline) (n : String) : List KvCell → Prop
  | document {node : PrefillNode} (hn : cfg.orchestrator.node n = some (.prefill node)) :
    cfg.WholeOf n (toCells (docSeq (cfg.doc n) (cfg.doc n).length))
  | prompt {node : AnalyticalNode} (hn : cfg.orchestrator.node n = some (.analytical node))
    (start : Int) : cfg.WholeOf n (toCells (seqFrom start (cfg.prompt n)))

/-- A worker decodes only while there is something left, and ends normally when nothing is. -/
private def workWatch (cfg : Pipeline) (i : Thread) : Observer sig (List KvCell) where
  start := []
  next s a r := s ++ decodedCells a r
  ok s a := match a with
    | .op (.llamaDecode _ batch) =>
      ∃ n, i = .worker n ∧ cfg.PartOf n (s ++ batch.cells) ∧ ¬ cfg.WholeOf n s
    | .op (.note (.executeEnd (.ok ()))) => ∀ n, i = .worker n → cfg.WholeOf n s
    | _ => True
  ans _ a r := Answered a r

/-- Neither a decode nor an end. -/
private def Workless (a : Action sig) : Prop :=
  (∀ h b, a ≠ .op (.llamaDecode h b)) ∧ ∀ r, a ≠ .op (.note (.executeEnd r))

private theorem decodedCells_eq_nil {a : Action sig} {r : a.Res}
    (ha : ∀ h b, a ≠ .op (.llamaDecode h b)) : decodedCells a r = [] := by
  cases a with
  | op o =>
    cases o with
    | llamaDecode h b => exact absurd rfl (ha h b)
    | _ => rfl
  | _ => rfl

private theorem Workless.keeps {i : Thread} {I : List KvCell → Prop} {a : Action sig}
    (ha : Workless a) : (workWatch cfg i).Keeps I a := by
  intro s hs
  constructor
  · cases a with
    | op o =>
      cases o with
      | llamaDecode h b => exact absurd rfl (ha.1 h b)
      | note e =>
        cases e with
        | executeEnd r => exact absurd rfl (ha.2 r)
        | _ => trivial
      | _ => trivial
    | _ => trivial
  · intro r _
    show I (s ++ decodedCells a r)
    rw [decodedCells_eq_nil ha.1, List.append_nil]
    exact hs

private theorem workless_of_uses {α : Type} {q : Prog α} {i : Thread} {I : List KvCell → Prop}
    {X : Error → List KvCell → Prop} (hq : q.Uses Workless) (hX : ∀ e s, I s → X e s) :
    (workWatch cfg i).Spec I q (fun _ => I) X :=
  .err (.of_uses hq fun _ ha => ha.keeps) hX

/-! ## The prefiller -/

private theorem length_toCells_docSeq {doc : List LlamaToken} {k : Nat} (hk : k ≤ doc.length) :
    (toCells (docSeq doc k)).length = k := by
  simp [toCells, docSeq, length_seqFrom, hk]

private theorem wholeOf_document {node : PrefillNode} {s : List KvCell}
    (hn : cfg.orchestrator.node n = some (.prefill node)) :
    cfg.WholeOf n s ↔ s = toCells (docSeq (cfg.doc n) (cfg.doc n).length) := by
  constructor
  · intro h
    cases h with
    | document => rfl
    | prompt hn' => cases hn.symm.trans hn'
  · rintro rfl
    exact .document hn

/-- A chunk goes on where the last one has ended. -/
private theorem decodeLoop_work {node : PrefillNode} {h t chunk : Nat}
    (hn : cfg.orchestrator.node p = some (.prefill node)) (hle : t + chunk ≤ (cfg.doc p).length) :
    (workWatch cfg (.worker p)).Spec (· = toCells (docSeq (cfg.doc p) t))
      (PrefillNode.decodeTokenRange cfg.engine h (cfg.doc p) t chunk)
      (fun _ s => s = toCells (docSeq (cfg.doc p) (t + chunk))) fun _ _ => True := by
  have hleft : ∀ {cur}, cur < t + chunk → ¬ cfg.WholeOf p (toCells (docSeq (cfg.doc p) cur)) := by
    intro cur hcur hwhole
    have hlen := congrArg List.length ((wholeOf_document hn).mp hwhole)
    rw [length_toCells_docSeq (by omega), length_toCells_docSeq le_rfl] at hlen
    omega
  refine PrefillNode.decodeLoop_spec (I := fun cur s => s = toCells (docSeq (cfg.doc p) cur))
    (X := fun _ => True) hle (fun _ _ _ hr => hr) (fun _ => Workless.keeps ⟨by simp, by simp⟩)
    (fun _ _ => Workless.keeps ⟨by simp, by simp⟩) (fun _ => Workless.keeps ⟨by simp, by simp⟩)
    (fun cur k id s hpos hstop hs => ?_) (fun _ k cur id s _ hcur hs => ?_) chunk t chunk rfl le_rfl
  · subst hs
    have hcells : toCells (docSeq (cfg.doc p) cur) ++
        (fillBatch id (((cfg.doc p).drop cur).take k) cur false).cells =
          toCells (docSeq (cfg.doc p) (cur + k)) := by
      rw [cells_fillBatch, ← toCells_append, docSeq_add _ (by omega)]
    refine ⟨⟨p, rfl, ?_, hleft (by omega)⟩, fun r _ => ⟨fun hr => ?_, fun _ => trivial⟩⟩
    · rw [hcells]
      exact .document hn _ (by omega)
    · subst hr
      exact hcells
  · -- a batch that is refused has nothing to decode
    subst hs
    refine ⟨⟨p, rfl, ?_, hleft hcur⟩, fun _ => trivial⟩
    show cfg.PartOf p (toCells (docSeq (cfg.doc p) cur) ++ [])
    rw [List.append_nil]
    exact .document hn _ (by omega)

/-- The document is decoded once, whatever the pauses. -/
private theorem execute_work {node : PrefillNode} {ctx : OrchestratorContext}
    (hn : cfg.orchestrator.node p = some (.prefill node)) (hE : ctx.engine = cfg.engine) :
    (workWatch cfg (.worker p)).Spec (· = []) (node.execute ctx)
      (fun _ => cfg.WholeOf p) fun _ _ => True := by
  -- nothing but the loop decodes
  have hlookup : ∀ {a : Action sig}, LookupAction a → Workless a := fun ha => by
    cases ha <;> exact ⟨by simp, by simp⟩
  have houter : ∀ {a : Action sig}, OuterAction a → Workless a := fun ha => by
    cases ha with
    | host ha => cases ha <;> exact ⟨by simp, by simp⟩
    | lookup ha => exact hlookup ha
    | _ => exact ⟨by simp, by simp⟩
  have hpause : ∀ {a : Action sig}, PauseAction a → Workless a := fun ha => by
    cases ha with
    | restore ha =>
      cases ha with
      | lookup ha => exact hlookup ha
      | llamaStateSeqSetData => exact ⟨by simp, by simp⟩
    | _ => exact ⟨by simp, by simp⟩
  refine PrefillNode.execute_spec (fun _ ha => (houter ha).keeps) (fun _ ha => (houter ha).keeps)
    (fun _ _ _ => trivial) (fun _ _ _ => trivial) fun tokens h htokens => ?_
  rw [hE] at htokens ⊢
  have hdoc : tokens = cfg.doc p := by simp only [doc, hn, htokens, Option.getD_some]
  rw [hdoc]
  -- at each of its points the loop has decoded the document so far
  refine .conseq (PrefillNode.prefillLoop_spec
    (J := fun _ t s => s = toCells (docSeq (cfg.doc p) t))
    (K := fun _ t s => s = toCells (docSeq (cfg.doc p) t))
    (L := fun _ t s => s = toCells (docSeq (cfg.doc p) t)) (X := fun _ _ => True)
    (N := (cfg.doc p).length) (fun h' t hdvd hlt => ?_) (fun _ t _ => ?_)
    (fun h' t _ => workless_of_uses ((PrefillNode.pauseAtMilestone_uses h' t).mono
      fun _ => hpause) fun _ _ _ => trivial) _ h 0 (Nat.zero_le _)
    (fun _ => Nat.dvd_zero _) (Nat.sub_le _ _)) (fun s hs => ?_) (fun _ s hs => ?_)
    fun _ _ _ => trivial
  · -- a slice
    have hle : t + min 128 ((cfg.doc p).length - t) ≤ (cfg.doc p).length := by omega
    generalize min 128 ((cfg.doc p).length - t) = chunk at hle
    refine .withLock_of_keeps (Workless.keeps ⟨by simp, by simp⟩) (.bind (decodeLoop_work hn hle)
      fun _ => workless_of_uses ((PipelineState.commitWatermark_uses_to _ _).mono fun a ha => ?_)
        fun _ _ _ => trivial) (fun _ => Workless.keeps ⟨by simp, by simp⟩)
        fun _ => Workless.keeps ⟨by simp, by simp⟩
    cases ha <;> exact ⟨by simp, by simp⟩
  · -- the lookup of the milestone
    refine .post (workless_of_uses (X := fun _ _ => True)
      ((PipelineState.isSnapshotMilestone_uses _).mono fun _ ha => hlookup ha) fun _ _ _ => trivial)
      fun b s hs => ?_
    split
    · exact hs
    · exact hs
  · rw [hs, docSeq_zero, toCells_nil]
  · exact (wholeOf_document hn).mpr hs

/-! ## The branches -/

private theorem wholeOf_prompt {node : AnalyticalNode} {s : List KvCell}
    (hn : cfg.orchestrator.node n = some (.analytical node)) :
    cfg.WholeOf n s ↔ ∃ start, s = toCells (seqFrom start (cfg.prompt n)) := by
  constructor
  · intro h
    cases h with
    | document hn' => cases hn.symm.trans hn'
    | prompt _ start => exact ⟨start, rfl⟩
  · rintro ⟨start, rfl⟩
    exact .prompt hn start

/-- The prompt is decoded at once. -/
private theorem decodePrompt_work {node : AnalyticalNode} {ctx : OrchestratorContext} (h : Nat)
    (fork : AnalyticalNode.Fork) (hn : cfg.orchestrator.node n = some (.analytical node))
    (hne : cfg.prompt n ≠ []) :
    (workWatch cfg (.worker n)).Spec (· = []) (node.decodePrompt ctx h (cfg.prompt n) fork)
      (fun _ => cfg.WholeOf n) fun _ _ => True := by
  unfold AnalyticalNode.decodePrompt
  refine .bind (workless_of_uses (.perform ⟨by simp, by simp⟩) fun _ _ _ => trivial) fun id => ?_
  refine .bind (Q := fun ok s => ok = true → cfg.WholeOf n s) (.op fun s hs => ?_) fun ok =>
    .ite (fun hok => ?_) fun _ => ?_
  · subst hs
    have hcells : [] ++ (fillBatch id (cfg.prompt n) fork.prefixLen true).cells =
        toCells (seqFrom fork.prefixLen (cfg.prompt n)) := by
      rw [cells_fillBatch, List.nil_append]
    refine ⟨⟨n, rfl, ?_, fun hwhole => ?_⟩, fun r _ hr => ?_⟩
    · rw [hcells]
      exact .prompt hn _
    · -- the prompt is not empty
      obtain ⟨start, heq⟩ := (wholeOf_prompt hn).mp hwhole
      have hlen := congrArg List.length heq
      simp only [List.length_nil, toCells, List.length_map, length_seqFrom] at hlen
      exact hne (List.eq_nil_of_length_eq_zero hlen.symm)
    · subst hr
      exact (wholeOf_prompt hn).mpr ⟨_, hcells⟩
  · refine .conseq (I := cfg.WholeOf n) (workless_of_uses (X := fun _ _ => True)
      (.bind ((AnalyticalNode.publishOutput_uses _ _ _).mono fun a ha => ?_) fun _ => .bind
        (.perform ⟨by simp, by simp⟩) fun _ => .perform ⟨by simp, by simp⟩) fun _ _ _ => trivial)
      (fun s hs => hs hok) (fun _ _ hs => hs) fun _ _ hs => hs
    cases ha <;> exact ⟨by simp, by simp⟩
  · exact .conseq (J := fun _ _ => False) (I := fun _ => True) (.bind (workless_of_uses (X := fun _ _ => True)
      (.perform ⟨by simp, by simp⟩) fun _ _ _ => trivial) fun _ => .bind (workless_of_uses
        (.perform ⟨by simp, by simp⟩) fun _ _ _ => trivial) fun _ => .throw fun _ _ => trivial)
      (fun _ _ => trivial) (fun _ _ hs => hs.elim) fun _ _ hs => hs

/-- A branch decodes its prompt and nothing else. -/
private theorem forkAndDecode_work {node : AnalyticalNode} {ctx : OrchestratorContext}
    (hn : cfg.orchestrator.node n = some (.analytical node)) (hE : ctx.engine = cfg.engine) :
    (workWatch cfg (.worker n)).Spec (· = []) (node.forkAndDecode ctx)
      (fun _ => cfg.WholeOf n) fun _ _ => True := by
  refine AnalyticalNode.forkAndDecode_spec (Q := cfg.WholeOf n) (fun a ha => Workless.keeps ?_)
    (fun _ _ _ => trivial) (fun tokens h fork htokens hne => ?_) (fun a ha => Workless.keeps ?_)
    (fun _ _ _ => trivial) fun t₀ => workless_of_uses
      ((PipelineState.recordTiming_uses _ t₀).mono fun a ha => ?_) fun _ _ _ => trivial
  · cases ha with
    | fork ha =>
      cases ha with
      | copy ha => cases ha <;> exact ⟨by simp, by simp⟩
      | pool ha => cases ha <;> exact ⟨by simp, by simp⟩
    | prompt ha =>
      cases ha with
      | lookup ha => cases ha <;> exact ⟨by simp, by simp⟩
      | _ => exact ⟨by simp, by simp⟩
    | _ => exact ⟨by simp, by simp⟩
  · rw [hE] at htokens
    have heq : tokens = cfg.prompt n := by
      simp only [Pipeline.prompt, hn, htokens, Option.getD_some]
    rw [heq] at hne ⊢
    exact decodePrompt_work h fork hn hne
  · cases ha <;> exact ⟨by simp, by simp⟩
  · cases ha <;> exact ⟨by simp, by simp⟩

/-! ## Runs -/

private theorem program_work (i : Thread) :
    (workWatch cfg i).Meets (cfg.program i) (fun _ _ => True) [] := by
  refine cfg.program_meets (A := workWatch cfg) (fun a ha => Workless.keeps ?_) (fun n _ => ?_) i
  · cases ha <;> exact ⟨by simp, by simp⟩
  refine Orchestrator.workerAt_outcome_spec (I := (· = [])) (J := (· = [])) (K := fun _ => True)
    (Q := fun r s => r = .ok () → cfg.WholeOf n s) (fun _ _ => trivial) (fun node _ => ?_)
    (fun s hs => ⟨trivial, fun r _ => ?_⟩) (fun r s hs => ⟨?_, fun _ _ => trivial⟩)
    (fun _ => Workless.keeps ⟨by simp, by simp⟩) (fun _ => Workless.keeps ⟨by simp, by simp⟩)
    (fun t a ha => Workless.keeps ?_) fun node ctx hnode hE _ _ => ?_
  · refine workless_of_uses ((Orchestrator.awaitDependencies_uses _ _).mono fun a ha => ?_)
      fun _ _ _ => trivial
    cases ha <;> exact ⟨by simp, by simp⟩
  · subst hs
    rfl
  · cases r with
    | error e => trivial
    | ok a =>
      intro m hm
      obtain rfl := Thread.worker.inj hm
      exact hs rfl
  · cases ha <;> exact ⟨by simp, by simp⟩
  · cases node with
    | prefill node =>
      exact .conseq (execute_work hnode hE) (fun _ hs => hs) (fun _ _ hs _ => hs)
        fun _ _ _ h => by cases h
    | analytical node =>
      have hspec : (workWatch cfg (.worker n)).Spec (· = []) (node.execute ctx)
          (fun _ => cfg.WholeOf n) fun _ _ => True :=
        .withLock_of_keeps (Workless.keeps ⟨by simp, by simp⟩) (forkAndDecode_work hnode hE)
          (fun _ => Workless.keeps ⟨by simp, by simp⟩) fun _ => Workless.keeps ⟨by simp, by simp⟩
      exact .conseq hspec (fun _ hs => hs) (fun _ _ hs _ => hs) fun _ _ _ h => by cases h

private theorem state_workWatch (tr : Trace (machine cfg.engine)) (i : Thread) :
    Observer.state (workWatch cfg) tr i = decodedBy tr i := by
  induction tr with
  | nil => rfl
  | cons e tr ih =>
    unfold decodedBy
    by_cases hi : i = e.thread
    · subst hi
      rw [Observer.state_same, ih, if_pos rfl]
      rfl
    · rw [Observer.state_other hi, ih, if_neg fun h => hi h.symm, List.append_nil]

/-- What has been decoded so far. -/
private structure WorkSeen (cfg : Pipeline) (tr : Trace (machine cfg.engine)) (w : World) :
    Prop where
  part : ∀ n, cfg.PartOf n (decodedBy tr (.worker n))
  whole : ∀ n, w.Ended n (.ok ()) → cfg.WholeOf n (decodedBy tr (.worker n))
  caller : decodedBy tr .main = []

private theorem WorkSeen.act (h : cfg.WorkSeen tr c.data) {e : Entry (machine cfg.engine)}
    (he : c.Acts e c')
    (hok : (workWatch cfg e.thread).ok (Observer.state (workWatch cfg) tr e.thread) e.action) :
    cfg.WorkSeen (e :: tr) c'.data := by
  rw [state_workWatch] at hok
  -- an end is new only if it has just been noted
  have hended : ∀ n, c'.data.Ended n (.ok ()) → c.data.Ended n (.ok ()) ∨
      e.thread = .worker n ∧ e.action = .op (.note (.executeEnd (.ok ()))) := by
    intro n hend
    obtain heq | ⟨i, o, r, x, rfl, ho, hx⟩ := he.data
    · rw [heq] at hend
      exact .inl hend
    · obtain hin | ⟨rfl, hemit⟩ := exec_mem_log hx hend
      · exact .inl hin
      · cases hemit
        exact .inr ⟨rfl, rfl⟩
  obtain ⟨i, a, r, d⟩ := e
  by_cases hdecode : ∃ h b, a = .op (.llamaDecode h b)
  · -- a batch is decoded by a worker
    obtain ⟨h', b, rfl⟩ := hdecode
    obtain ⟨n, rfl, hpart, hwhole⟩ := hok
    have hother : ∀ j, j ≠ .worker n →
        decodedBy (⟨.worker n, .op (.llamaDecode h' b), r, d⟩ :: tr) j = decodedBy tr j := by
      intro j hj
      rw [decodedBy_cons, if_neg fun heq => hj heq.symm, List.append_nil]
    constructor
    · intro m
      by_cases hm : m = n
      · subst hm
        rw [decodedBy_cons, if_pos rfl]
        show cfg.PartOf m (decodedBy tr (.worker m) ++ if r = true then b.cells else [])
        split
        · exact hpart
        · rw [List.append_nil]
          exact h.part m
      · rw [hother _ fun heq => hm (Thread.worker.inj heq)]
        exact h.part m
    · intro m hend
      obtain hold | ⟨-, hact⟩ := hended m hend
      · -- who has ended has nothing left
        by_cases hm : m = n
        · subst hm
          exact absurd (h.whole m hold) hwhole
        · rw [hother _ fun heq => hm (Thread.worker.inj heq)]
          exact h.whole m hold
      · cases hact
    · rw [hother _ fun heq => by cases heq]
      exact h.caller
  · -- nothing is decoded
    have hsame : ∀ j, decodedBy (⟨i, a, r, d⟩ :: tr) j = decodedBy tr j := by
      intro j
      rw [decodedBy_cons, decodedCells_eq_nil fun h b heq => hdecode ⟨h, b, heq⟩, ite_self,
        List.append_nil]
    constructor
    · intro n
      rw [hsame]
      exact h.part n
    · intro n hend
      rw [hsame]
      obtain hold | ⟨hi, hact⟩ := hended n hend
      · exact h.whole n hold
      · obtain rfl : i = .worker n := hi
        obtain rfl : a = .op (.note (.executeEnd (.ok ()))) := hact
        exact hok n rfl
    · rw [hsame]
      exact h.caller

private theorem workSeen (hr : cfg.initial.Run tr c) : cfg.WorkSeen tr c.data := by
  refine (hr.observe (A := workWatch cfg) (Q := fun _ _ _ => True)
    (R := fun tr c => cfg.WorkSeen tr c.data) program_work ?_
    (fun _ h he hok => ⟨acts_answered he, h.act he hok⟩) fun _ h hs => hs.data ▸ h).1
  exact ⟨fun n => .idle, fun n hend => (by cases hend), rfl⟩

/-- In every run, each worker has decoded a start of its document, without a gap, a repetition or a
    change of order, or its prompt, and the caller nothing; who has ended normally has decoded all of
    it. -/
theorem decodes_once (hr : cfg.initial.Run tr c) :
    (∀ n, cfg.PartOf n (decodedBy tr (.worker n))) ∧
    (∀ n, c.data.Ended n (.ok ()) → cfg.WholeOf n (decodedBy tr (.worker n))) ∧
    decodedBy tr .main = [] :=
  ⟨(workSeen hr).part, (workSeen hr).whole, (workSeen hr).caller⟩

/-- The toy prefiller has decoded its 130 tokens in two slices, with a pause between them. -/
theorem decodes_once_toy : ∃ tr, Toy.sliced.initial.Run tr (Toy.sliced.after Toy.endSliced) ∧
    Toy.sliced.WholeOf "P" (decodedBy tr (.worker "P")) := by
  have hrun : Toy.sliced.initial.Run _ (Toy.sliced.after Toy.endSliced) :=
    Config.run_after (by decide +kernel)
  exact ⟨_, hrun, (decodes_once hrun).2.1 "P" (by decide +kernel)⟩

/-! ## The baseline -/

/-- The tokens that the workers decode. -/
def work (cfg : Pipeline) (tr : Trace (machine cfg.engine)) : Nat :=
  (cfg.orchestrator.names.map fun n => (decodedBy tr (.worker n)).length).sum

/-- The branches. -/
def branches (cfg : Pipeline) : List String :=
  cfg.orchestrator.names.filter fun n => !cfg.orchestrator.isPrefill n

/-- The tokens of the prompts. -/
def promptTokens (cfg : Pipeline) : Nat := (cfg.branches.map fun n => (cfg.prompt n).length).sum

/-- The tokens that a baseline agent decodes for each branch. One whose first batch is refused
    decodes nothing. -/
def baselineWork (cfg : Pipeline) (p : String) : Nat :=
  (cfg.branches.map fun n => ((Baseline.runBaselineAgent cfg.engine.llamaNBatch (cfg.doc p)
    (cfg.prompt n)).getD []).length).sum

/-- The baseline decodes the document for each branch, if it can decode it. -/
private theorem baselineWork_eq
    (hbatch : 0 < (cfg.doc p).length → cfg.engine.llamaNBatch < 2 ^ 31) : cfg.baselineWork p =
      cfg.branches.length * (cfg.doc p).length + cfg.promptTokens := by
  have hdecode : Baseline.decodeTokensChunked cfg.engine.llamaNBatch (cfg.doc p) =
      some (toCells (docSeq (cfg.doc p) (cfg.doc p).length)) := by
    obtain hzero | hpos := Nat.eq_zero_or_pos (cfg.doc p).length
    · rw [List.length_eq_zero_iff.mp hzero, Baseline.decodeTokensChunked_nil]
      rfl
    · exact Baseline.decodeTokensChunked_eq cfg.engine.llamaNBatch_pos (hbatch hpos) _
  have hagent : ∀ n, ((Baseline.runBaselineAgent cfg.engine.llamaNBatch (cfg.doc p)
      (cfg.prompt n)).getD []).length = (cfg.doc p).length + (cfg.prompt n).length := by
    intro n
    unfold Baseline.runBaselineAgent
    rw [hdecode]
    simp [LlamaBatch.cells, length_fillBatch, length_toCells_docSeq le_rfl]
  unfold baselineWork promptTokens
  simp only [hagent]
  induction cfg.branches with
  | nil => simp
  | cons n rest ih =>
    simp only [List.map_cons, List.sum_cons, List.length_cons, ih]
    rw [Nat.succ_mul]
    omega

/-- The work is that of the prefiller and that of the branches. -/
private theorem work_eq (hp : cfg.orchestrator.Sole p) : cfg.work tr =
    (decodedBy tr (.worker p)).length +
      (cfg.branches.map fun n => (decodedBy tr (.worker n)).length).sum := by
  have hbranches : cfg.branches = cfg.orchestrator.names.erase p := by
    unfold branches
    rw [show cfg.orchestrator.names.erase p = cfg.orchestrator.names.filter (· != p) from
      cfg.orchestrator.nodup.erase_eq_filter p]
    refine List.filter_congr fun n _ => ?_
    by_cases hn : n = p
    · subst hn
      simp [hp.1]
    · have hno : cfg.orchestrator.isPrefill n = false :=
        Bool.eq_false_iff.mpr fun h => hn (hp.2 n h)
      simp [hno, hn]
  unfold work
  rw [hbranches, ((List.perm_cons_erase (Orchestrator.mem_names_of_isPrefill hp.1)).map _).sum_eq]
  rfl

private theorem exists_analytical (hn : n ∈ cfg.branches) :
    ∃ node, cfg.orchestrator.node n = some (.analytical node) := by
  obtain ⟨hname, hno⟩ := List.mem_filter.mp hn
  obtain ⟨node, hnode⟩ := Orchestrator.mem_names.mp hname
  cases node with
  | prefill node => simp [Orchestrator.isPrefill, hnode, Node.isPrefillProvider] at hno
  | analytical node => exact ⟨node, hnode⟩

private theorem exists_prefill (hp : cfg.orchestrator.isPrefill p) :
    ∃ node, cfg.orchestrator.node p = some (.prefill node) := by
  obtain ⟨node, hnode⟩ := Orchestrator.mem_names.mp (Orchestrator.mem_names_of_isPrefill hp)
  cases node with
  | prefill node => exact ⟨node, hnode⟩
  | analytical node => simp [Orchestrator.isPrefill, hnode, Node.isPrefillProvider] at hp

private theorem length_prompt_cells (start : Int) (tokens : List LlamaToken) :
    (toCells (seqFrom start tokens)).length = tokens.length := by
  simp [toCells, length_seqFrom]

private theorem PartOf.length_document {node : PrefillNode} {s : List KvCell}
    (h : cfg.PartOf n s) (hn : cfg.orchestrator.node n = some (.prefill node)) :
    s.length ≤ (cfg.doc n).length := by
  cases h with
  | idle => exact Nat.zero_le _
  | document _ k hk => rwa [length_toCells_docSeq hk]
  | prompt hn' => cases hn'.symm.trans hn

private theorem PartOf.length_prompt {node : AnalyticalNode} {s : List KvCell}
    (h : cfg.PartOf n s) (hn : cfg.orchestrator.node n = some (.analytical node)) :
    s.length ≤ (cfg.prompt n).length := by
  cases h with
  | idle => exact Nat.zero_le _
  | document hn' => cases hn'.symm.trans hn
  | prompt => exact (length_prompt_cells _ _).le

/-- Whatever the schedule: the pipeline never decodes more than the document once and each prompt,
    which is less than the baseline agents would by the document for each branch but one; and exactly
    that when every node has ended normally. -/
theorem saves_prefills (hp : cfg.orchestrator.Sole p) (hr : cfg.initial.Run tr c) :
    cfg.work tr ≤ (cfg.doc p).length + cfg.promptTokens ∧
    (cfg.engine.llamaNBatch < 2 ^ 31 → cfg.work tr + cfg.branches.length * (cfg.doc p).length ≤
      (cfg.doc p).length + cfg.baselineWork p) ∧
    ((∀ n ∈ cfg.orchestrator.names, c.data.Ended n (.ok ())) →
      cfg.work tr + cfg.branches.length * (cfg.doc p).length =
        (cfg.doc p).length + cfg.baselineWork p) := by
  have hseen := workSeen hr
  obtain ⟨provider, hprovider⟩ := exists_prefill hp.1
  have hle : cfg.work tr ≤ (cfg.doc p).length + cfg.promptTokens := by
    have hdoc := (hseen.part p).length_document hprovider
    have hprompts : (cfg.branches.map fun n => (decodedBy tr (.worker n)).length).sum ≤
        cfg.promptTokens := by
      refine List.sum_le_sum fun n hn => ?_
      obtain ⟨node, hnode⟩ := exists_analytical hn
      exact (hseen.part n).length_prompt hnode
    rw [work_eq hp]
    omega
  refine ⟨hle, fun hbatch => ?_, fun hended => ?_⟩
  · rw [baselineWork_eq fun _ => hbatch]
    omega
  · have hp_ended := hended p (Orchestrator.mem_names_of_isPrefill hp.1)
    -- a prefiller that has ended normally has decoded its document
    have hdone := ((reachable_holds hr.reaches).inv.ended p _ hp_ended).2.prefill hp.1 rfl
    have hdoc : (decodedBy tr (.worker p)).length = (cfg.doc p).length := by
      rw [(wholeOf_document hprovider).mp (hseen.whole p hp_ended)]
      exact length_toCells_docSeq le_rfl
    have hprompts : (cfg.branches.map fun n => (decodedBy tr (.worker n)).length) =
        cfg.branches.map fun n => (cfg.prompt n).length := by
      refine List.map_congr_left fun n hn => ?_
      obtain ⟨node, hnode⟩ := exists_analytical hn
      obtain ⟨start, heq⟩ := (wholeOf_prompt hnode).mp
        (hseen.whole n (hended n (List.mem_filter.mp hn).1))
      rw [heq, length_prompt_cells]
    rw [work_eq hp, baselineWork_eq hdone.nBatch, hdoc, hprompts, promptTokens]
    omega

/-- The toy pipeline decodes the token of its document and the token of its prompt. -/
theorem saves_prefills_toy : ∃ tr,
    (Toy.star 1 false 1).initial.Run tr ((Toy.star 1 false 1).after Toy.joinAtOne) ∧
      (Toy.star 1 false 1).work tr = 2 := by
  have hrun : (Toy.star 1 false 1).initial.Run _ ((Toy.star 1 false 1).after Toy.joinAtOne) :=
    Config.run_after (by decide +kernel)
  refine ⟨_, hrun, ?_⟩
  have hsaved := (saves_prefills ⟨rfl, (Toy.star_fedBy 1 false 1 []).sole⟩ hrun).2.2
    (by decide +kernel)
  rw [show (Toy.star 1 false 1).branches = ["B"] by decide +kernel,
    show (Toy.star 1 false 1).doc "P" = [5] by decide +kernel,
    show (Toy.star 1 false 1).baselineWork "P" = 2 by decide +kernel] at hsaved
  simpa using hsaved

end Pipeline

end SwarmKV
