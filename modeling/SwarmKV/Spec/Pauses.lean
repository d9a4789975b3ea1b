import SwarmKV.Spec.GateCorrect

/-!
# The pace of the prefiller

A prefiller that pauses at a milestone publishes nothing behind it, and does not end normally,
before the branches of the milestone have signalled. So what a watermark says about the branches
can be read off the blackboard: those below it have signalled.
-/

namespace SwarmKV.Pipeline

open Monitor

variable {cfg : Pipeline} {c c' : Config cfg.engine} {tr : Trace (machine cfg.engine)}
  {p : String}

/-- `p` has waited at its milestones below `u`. -/
private def Passed (cfg : Pipeline) (p : String) (u : Int) (s : List Int) : Prop :=
  ∀ t, cfg.IsMilestone t → CommitValue (cfg.doc p).length t → t < u → t ∈ s

/-- The milestones at which a prefiller has waited: it publishes a watermark when it has waited at
    those below, and ends normally when it has waited at all. -/
private def paceWatch (cfg : Pipeline) (i : Thread) : Observer sig (List Int) where
  start := []
  next s a _ := match a with
    | .wait (.milestoneConsumers t) => t :: s
    | _ => s
  ok s a := match a with
    | .op (.setWatermark u) => ∀ n, i = .worker n → cfg.orchestrator.isPrefill n → cfg.Passed n u s
    | .op (.note (.executeEnd (.ok ()))) => ∀ n, i = .worker n → cfg.orchestrator.isPrefill n →
      cfg.Passed n ((cfg.doc n).length + 1) s
    | _ => True
  ans _ a := match a with
    | .op .load => fun r : PipelineState => ∀ t, t ∈ r.snapshotMilestones ↔ cfg.IsMilestone t
    | _ => fun _ => True

/-- Neither a watermark nor an end. -/
private def Unpaced (a : Action sig) : Prop :=
  (∀ u, a ≠ .op (.setWatermark u)) ∧ ∀ r, a ≠ .op (.note (.executeEnd r))

/-- Unpaced actions are accepted, and a wait only adds to the list. -/
private theorem Unpaced.keeps {i : Thread} {I : List Int → Prop} {a : Action sig} (ha : Unpaced a)
    (hI : ∀ t s, I s → I (t :: s)) : (paceWatch cfg i).Keeps I a := by
  refine fun s hs => ⟨?_, fun _ _ => ?_⟩
  · cases a with
    | op o =>
      cases o with
      | setWatermark u => exact absurd rfl (ha.1 u)
      | note e =>
        cases e with
        | executeEnd r => exact absurd rfl (ha.2 r)
        | _ => trivial
      | _ => trivial
    | _ => trivial
  · cases a with
    | wait w =>
      cases w with
      | milestoneConsumers t => exact hI t s hs
      | _ => exact hs
    | _ => exact hs

private theorem passed_cons {u : Int} (t : Int) (s : List Int) (h : cfg.Passed p u s) :
    cfg.Passed p u (t :: s) :=
  fun t' hm hv hlt => List.mem_cons_of_mem _ (h t' hm hv hlt)

/-- A program without watermarks and ends keeps what has been passed. -/
private theorem passed_of_uses {α : Type} {q : Prog α} {u : Int} {X : Error → List Int → Prop}
    (hq : q.Uses Unpaced) (hX : ∀ e s, X e s) :
    (paceWatch cfg (.worker p)).Spec (cfg.Passed p u) q (fun _ => cfg.Passed p u) X :=
  .err (.of_uses hq fun _ ha => ha.keeps passed_cons) fun e s _ => hX e s

/-- The end of a slice is the next commit value. -/
private theorem Passed.slice {t : Nat} {s : List Int} (h : cfg.Passed p (t + 1) s) (hdvd : 128 ∣ t)
    (hlt : t < (cfg.doc p).length) :
    cfg.Passed p (t + min 128 ((cfg.doc p).length - t) : Nat) s := by
  intro t' hm hv hlt'
  obtain hle | heq := hv.slice hdvd hlt hlt'.le
  · exact h t' hm hv (by omega)
  · omega

/-- A slice publishes its end. -/
private theorem prefillSlice_pace {h t : Nat} (hdvd : 128 ∣ t) (hlt : t < (cfg.doc p).length) :
    (paceWatch cfg (.worker p)).Spec (cfg.Passed p (t + 1))
      (PrefillNode.prefillSlice cfg.engine h (cfg.doc p) t (min 128 ((cfg.doc p).length - t)))
      (fun _ => cfg.Passed p (t + min 128 ((cfg.doc p).length - t) : Nat)) fun _ _ => True := by
  refine .conseq (I := cfg.Passed p (t + min 128 ((cfg.doc p).length - t) : Nat)) ?_
    (fun s hs => hs.slice hdvd hlt) (fun _ _ hs => hs) fun _ _ hs => hs
  have hle : t + min 128 ((cfg.doc p).length - t) ≤ (cfg.doc p).length := by omega
  generalize min 128 ((cfg.doc p).length - t) = chunk at hle
  unfold PrefillNode.prefillSlice
  refine .withLock (I := cfg.Passed p (t + chunk : Nat))
    (J := fun _ => cfg.Passed p (t + chunk : Nat)) (K := fun _ _ => True)
    (fun s hs => ⟨trivial, fun _ => hs⟩) ?_ (fun _ s hs => ⟨trivial, fun _ => hs⟩)
    fun _ _ _ => ⟨trivial, fun _ => trivial⟩
  refine .bind (passed_of_uses ((PrefillNode.decodeLoop_uses h chunk t chunk hle).mono
    fun a ha => ?_) fun _ _ => trivial) fun _ => ?_
  · cases ha <;> exact ⟨by simp, by simp⟩
  -- the commit sets the watermark to the end of the slice, and to nothing else
  refine .err (.of_uses (I := cfg.Passed p (t + chunk : Nat))
    (PipelineState.commitWatermark_uses_to _ _) fun a ha => ?_) fun _ _ _ => trivial
  cases ha with
  | setWatermark =>
    refine fun s hs => ⟨fun n hn _ => ?_, fun _ _ => hs⟩
    obtain rfl := Thread.worker.inj hn
    exact hs
  | _ => exact Unpaced.keeps ⟨by simp, by simp⟩ passed_cons

/-- Where a position is no milestone, it has been passed. -/
private theorem isSnapshotMilestone_pace (t : Nat) :
    (paceWatch cfg (.worker p)).Spec (cfg.Passed p t) (PipelineState.isSnapshotMilestone t)
      (fun b => if b = true then cfg.Passed p t else cfg.Passed p (t + 1)) fun _ _ => True := by
  unfold PipelineState.isSnapshotMilestone
  refine .withLock (I := cfg.Passed p t)
    (J := fun b => if b = true then cfg.Passed p t else cfg.Passed p (t + 1))
    (K := fun _ _ => True) (fun s hs => ⟨trivial, fun _ => hs⟩) ?_
    (fun b s hs => ⟨trivial, fun _ => hs⟩) fun _ _ _ => ⟨trivial, fun _ => trivial⟩
  refine .bind (Q := fun (r : PipelineState) s => cfg.Passed p t s ∧
    ∀ t, t ∈ r.snapshotMilestones ↔ cfg.IsMilestone t)
    (.op fun s hs => ⟨trivial, fun r hr => ⟨hs, hr⟩⟩) fun r => .ret fun s hs => ?_
  split
  · exact hs.1
  · rename_i hno
    rw [Bool.not_eq_true, ← Bool.not_eq_true, List.contains_iff_mem, hs.2] at hno
    intro t' hm hv hle
    have hne : t' ≠ t := fun heq => hno (heq ▸ hm)
    exact hs.1 t' hm hv (by omega)

/-- The pause at a milestone passes it. -/
private theorem pauseAtMilestone_pace {h t : Nat} (ht : 0 < t) :
    (paceWatch cfg (.worker p)).Spec (cfg.Passed p t) (PrefillNode.pauseAtMilestone h t)
      (fun _ => cfg.Passed p (t + 1)) fun _ _ => True := by
  have hrestore : ∀ {a : Action sig}, RestoreAction a → Unpaced a := fun ha => by
    cases ha with
    | lookup ha => cases ha <;> exact ⟨by simp, by simp⟩
    | llamaStateSeqSetData => exact ⟨by simp, by simp⟩
  unfold PrefillNode.pauseAtMilestone
  refine .bind (passed_of_uses (.withLock ⟨by simp, by simp⟩ ⟨by simp, by simp⟩
    (.perform ⟨by simp, by simp⟩)) fun _ _ => trivial) fun _ => .bind
      (Q := fun _ => cfg.Passed p (t + 1)) (.ite (fun hle => absurd hle (by omega)) fun _ => ?_)
      fun _ => passed_of_uses (.withLock ⟨by simp, by simp⟩ ⟨by simp, by simp⟩ ?_)
        fun _ _ => trivial
  · refine .withLock (I := cfg.Passed p t) (J := fun _ => cfg.Passed p (t + 1))
      (K := fun _ _ => True) (fun s hs => ⟨trivial, fun _ => hs⟩) ?_
      (fun b s hs => ⟨trivial, fun _ => hs⟩) fun _ _ _ => ⟨trivial, fun _ => trivial⟩
    refine .await fun s hs => ⟨trivial, fun _ t' hm hv hle => ?_⟩
    by_cases heq : t' = t
    · subst heq
      exact List.mem_cons_self
    · exact List.mem_cons_of_mem _ (hs t' hm hv (by omega))
  · refine .bind (.perform ⟨by simp, by simp⟩) fun r => ?_
    cases r with
    | none => exact .throw _
    | some h' =>
      refine .bind (.perform ⟨by simp, by simp⟩) fun s => ?_
      refine .bind (KVHandoff.bindContiguousCache_uses _ _) fun _ => ?_
      exact .bind ((PrefillNode.restorePrefixSnapshot_uses _ _).mono fun _ ha => hrestore ha)
        fun _ => .ret _

/-- A prefiller that ends normally has passed all its milestones. -/
private theorem execute_pace {node : PrefillNode} {ctx : OrchestratorContext}
    (hnode : cfg.orchestrator.node p = some (.prefill node)) (hE : ctx.engine = cfg.engine) :
    (paceWatch cfg (.worker p)).Spec (fun _ => True) (node.execute ctx)
      (fun _ => cfg.Passed p ((cfg.doc p).length + 1)) fun _ _ => True := by
  have houter : ∀ {a : Action sig}, OuterAction a → Unpaced a := fun ha => by
    cases ha with
    | host ha => cases ha <;> exact ⟨by simp, by simp⟩
    | lookup ha => cases ha <;> exact ⟨by simp, by simp⟩
    | _ => exact ⟨by simp, by simp⟩
  refine PrefillNode.execute_spec (fun _ ha => (houter ha).keeps fun _ _ h => h)
    (fun _ ha => (houter ha).keeps passed_cons) (fun _ _ _ => trivial) (fun _ _ _ => trivial)
    fun tokens h htokens => ?_
  rw [hE] at htokens ⊢
  have hdoc : tokens = cfg.doc p := by simp only [doc, hnode, htokens, Option.getD_some]
  rw [hdoc]
  -- the loop passes its milestones one after the other
  refine .conseq (PrefillNode.prefillLoop_spec
    (J := fun _ t => cfg.Passed p (t + 1)) (K := fun _ t => cfg.Passed p t)
    (L := fun _ t => cfg.Passed p t) (X := fun _ _ => True) (N := (cfg.doc p).length)
    (fun _ _ => prefillSlice_pace) (fun _ t _ => isSnapshotMilestone_pace t)
    (fun _ t ht => pauseAtMilestone_pace (Int.natCast_pos.mp ht.1)) _ _ 0 (Nat.zero_le _)
    (fun _ => Nat.dvd_zero _) (Nat.sub_le _ _)) ?_ (fun _ _ hs => hs) fun _ _ _ => trivial
  intro s _ t hm _ hle
  exact absurd hm.pos (by omega)

private theorem program_pace (i : Thread) :
    (paceWatch cfg i).Meets (cfg.program i) (fun _ _ => True) [] := by
  have hkeeps : ∀ {i : Thread} {a : Action sig}, Unpaced a →
      (paceWatch cfg i).Keeps (fun _ => True) a := fun ha => ha.keeps fun _ _ h => h
  refine cfg.program_meets (A := paceWatch cfg) (fun a ha => hkeeps ?_) (fun n _ => ?_) i
  · cases ha <;> exact ⟨by simp, by simp⟩
  refine Orchestrator.workerAt_outcome_spec (I := fun _ => True) (J := fun _ => True)
    (K := fun _ => True) (Q := fun r s => r = .ok () → cfg.orchestrator.isPrefill n →
      cfg.Passed n ((cfg.doc n).length + 1) s) (fun _ _ => trivial) (fun node _ => ?_)
    (fun _ _ => ⟨trivial, fun _ _ => trivial⟩) (fun r s hs => ⟨?_, fun _ _ => trivial⟩)
    (fun _ => hkeeps ⟨by simp, by simp⟩) (fun _ => hkeeps ⟨by simp, by simp⟩) (fun t a ha => ?_)
    fun node ctx hnode hE _ _ => ?_
  · refine .pre (.of_uses (Orchestrator.awaitDependencies_uses _ _) fun a ha => hkeeps ?_)
      fun _ _ => trivial
    cases ha <;> exact ⟨by simp, by simp⟩
  · cases r with
    | error e => trivial
    | ok a =>
      intro m hm hprefill
      obtain rfl := Thread.worker.inj hm
      exact hs rfl hprefill
  · cases ha <;> exact hkeeps ⟨by simp, by simp⟩
  · cases node with
    | prefill node =>
      exact .conseq (execute_pace hnode hE) (fun _ _ => trivial) (fun _ _ hs _ _ => hs)
        fun _ _ _ h => by cases h
    | analytical node =>
      -- a branch is no prefiller
      have hno : ¬ cfg.orchestrator.isPrefill n := by
        simp [Orchestrator.isPrefill, hnode, Node.isPrefillProvider]
      refine .conseq (.of_uses (I := fun _ => True) (Node.execute_uses _ ctx) fun a _ s _ =>
        ⟨?_, fun _ _ => trivial⟩) (fun _ hs => hs) (fun _ _ _ _ h => absurd h hno)
          fun _ _ _ h => by cases h
      cases a with
      | op o =>
        cases o with
        | setWatermark u =>
          intro m hm hprefill
          obtain rfl := Thread.worker.inj hm
          exact absurd hprefill hno
        | note e =>
          cases e with
          | executeEnd r =>
            cases r with
            | error e => trivial
            | ok a =>
              intro m hm hprefill
              obtain rfl := Thread.worker.inj hm
              exact absurd hprefill hno
          | _ => trivial
        | _ => trivial
      | _ => trivial

/-! ## Runs -/

/-- The list grows by the milestones that are waited for. -/
private theorem mem_paceWatch_next {i : Thread} {s : List Int} {a : Action sig} {r : a.Res}
    {t : Int} : t ∈ (paceWatch cfg i).next s a r ↔ t ∈ s ∨ a = .wait (.milestoneConsumers t) := by
  cases a with
  | wait w =>
    cases w with
    | milestoneConsumers u =>
      show t ∈ u :: s ↔ _
      rw [List.mem_cons]
      constructor
      · rintro (rfl | h)
        · exact .inr rfl
        · exact .inl h
      · rintro (h | h)
        · exact .inr h
        · cases h
          exact .inl rfl
    | _ => exact ⟨.inl, fun h => h.elim id fun h => by cases h⟩
  | _ => exact ⟨.inl, fun h => h.elim id fun h => by cases h⟩

/-- What the run so far says about the milestones. -/
private structure PaceSeen (cfg : Pipeline) (p : String) (tr : Trace (machine cfg.engine))
    (w : World) : Prop where
  /-- Where somebody has waited, the branches have signalled. -/
  signalled : (∀ n ∈ cfg.orchestrator.names, ¬ w.OutOfMemory n) →
    ∀ i, ∀ t ∈ Observer.state (paceWatch cfg) tr i, 0 < t →
      ∀ n ∈ cfg.orchestrator.branchesAt t, 0 < w.consumed n t
  published : cfg.Passed p w.state.watermark (Observer.state (paceWatch cfg) tr (.worker p))
  ended : w.Ended p (.ok ()) →
    cfg.Passed p ((cfg.doc p).length + 1) (Observer.state (paceWatch cfg) tr (.worker p))

private theorem PaceSeen.act (hp : cfg.orchestrator.Sole p) (hr : cfg.initial.Run tr c)
    (h : cfg.PaceSeen p tr c.data) {e : Entry (machine cfg.engine)} (he : c.Acts e c')
    (hok : (paceWatch cfg e.thread).ok (Observer.state (paceWatch cfg) tr e.thread) e.action) :
    cfg.PaceSeen p (e :: tr) c'.data := by
  have hgrow : ∀ j, c.data.log j <+: c'.data.log j := by
    obtain hsame | ⟨i, o, r, x, -, -, hx⟩ := he.data
    · rw [hsame]
      exact fun _ => List.prefix_rfl
    · exact exec_log_grows hx
  -- what has been waited for is old, or this step
  have hmem : ∀ {i t}, t ∈ Observer.state (paceWatch cfg) (e :: tr) i ↔
      t ∈ Observer.state (paceWatch cfg) tr i ∨
        i = e.thread ∧ e.action = .wait (.milestoneConsumers t) := by
    intro i t
    by_cases hi : i = e.thread
    · subst hi
      rw [Observer.state_same, mem_paceWatch_next]
      simp
    · rw [Observer.state_other hi]
      simp [hi]
  have hkeep : ∀ {u}, cfg.Passed p u (Observer.state (paceWatch cfg) tr (.worker p)) →
      cfg.Passed p u (Observer.state (paceWatch cfg) (e :: tr) (.worker p)) :=
    fun h t hm hv hlt => hmem.mpr (.inl (h t hm hv hlt))
  constructor
  · intro hout i t ht hpos n hn
    have hout : ∀ n ∈ cfg.orchestrator.names, ¬ c.data.OutOfMemory n :=
      fun n hn hmem => hout n hn ((hgrow _).subset hmem)
    have hold : 0 < c.data.consumed n t := by
      obtain hin | ⟨-, hwait⟩ := hmem.mp ht
      · exact h.signalled hout i t hin hpos n hn
      · exact signalled_of_holds hr hout hpos (he.holds hwait) n hn
    exact Nat.lt_of_lt_of_le hold ((hgrow _).sublist.count_le _)
  · -- the watermark is set by the prefiller, which has passed all below
    obtain hsame | ⟨i, o, r, x, rfl, ho, hx⟩ := he.data
    · rw [hsame]
      exact hkeep h.published
    · obtain heq | ⟨u, rfl, heq⟩ := exec_watermark hx
      · rw [heq]
        exact hkeep h.published
      · obtain ⟨⟨n, hcommit⟩, -, -⟩ := ((reachable_holds hr.reaches).pre ho).2
        obtain rfl := hcommit.thread
        obtain rfl := hp.2 n hcommit.prefill
        rw [heq]
        exact hkeep (hok n rfl hcommit.prefill)
  · -- nor does it end before it has passed them all
    intro hend
    by_cases hold : c.data.Ended p (.ok ())
    · exact hkeep (h.ended hold)
    · obtain hsame | ⟨i, o, r, x, rfl, ho, hx⟩ := he.data
      · rw [hsame] at hend
        exact absurd hend hold
      · obtain hin | ⟨rfl, hemit⟩ := exec_mem_log hx hend
        · exact absurd hin hold
        · cases hemit
          exact hkeep (hok p rfl hp.1)

/-- When the watermark is behind a milestone, or the prefiller has ended, the branches of the
    milestone have signalled. -/
theorem signalled_past (hr : cfg.initial.Run tr c) (hp : cfg.orchestrator.Sole p)
    (hmem : ∀ n ∈ cfg.orchestrator.names, ¬ c.data.OutOfMemory n) {t : Int}
    (hm : cfg.IsMilestone t) (hv : CommitValue (cfg.doc p).length t)
    (hpast : t < c.data.state.watermark ∨ c.data.Ended p (.ok ())) {b : String}
    (hb : b ∈ cfg.orchestrator.branchesAt t) : 0 < c.data.consumed b t := by
  have hseen : cfg.PaceSeen p tr c.data := by
    refine (hr.observe (R := fun tr c => cfg.PaceSeen p tr c.data) program_pace ?_
      (fun hrun h he hok => ⟨?_, h.act hp hrun he hok⟩) fun _ h hs => hs.data ▸ h).1
    · refine ⟨fun _ i t ht => (by cases ht), fun t _ hv hlt => ?_, fun hend => (by cases hend)⟩
      have hpos := hv.1
      rw [show cfg.initial.data.state.watermark = 0 from registeredState_watermark] at hlt
      omega
    · cases he with
      | @op i o k x r d ht hx =>
        cases o with
        | load =>
          simp only [exec, Option.some.injEq, Prod.mk.injEq] at hx
          obtain ⟨rfl, -⟩ := hx
          exact (reachable_holds hrun.reaches).inv.milestones
        | _ => trivial
      | _ => trivial
  refine hseen.signalled hmem (.worker p) t ?_ hm.pos b hb
  obtain hlt | hend := hpast
  · exact hseen.published t hm hv hlt
  · have hle := hv.2.1
    exact hseen.ended hend t hm hv (by omega)

end SwarmKV.Pipeline
