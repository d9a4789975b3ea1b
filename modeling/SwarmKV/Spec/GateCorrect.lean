import SwarmKV.Spec.Lifecycle
import SwarmKV.Spec.Toy

/-!
# The milestone gate

The count of a milestone is raised by the orchestrator, lowered by a branch that has decoded
and by the `catch` block of one that has failed. It is the number of branches that have not
signalled, and a prefiller that has committed a milestone decodes nothing behind it before
the count is used up.
-/

namespace SwarmKV.Pipeline

open Monitor

variable {cfg : Pipeline} {c c' : Config cfg.engine} {tr : Trace (machine cfg.engine)}
  {n p : String}

/-! ## Signals -/

/-- Without a failed allocation nobody signals twice. -/
private theorem consumed_le_one (hr : cfg.initial.Run tr c) (hmem : ¬ c.data.OutOfMemory n)
    (t : Int) : c.data.consumed n t ≤ 1 := by
  have hlife := (lives hr).1 n
  rw [hlife.consumed]
  split
  · exact hlife.once.resolve_left fun hstarved => hmem (hlife.starved hstarved)
  · exact Nat.zero_le 1

/-- Who has signalled has decoded or failed. -/
private theorem decoded_or_failed (hr : cfg.initial.Run tr c) {t : Int}
    (hs : 0 < c.data.consumed n t) :
    (∃ h batch, tr.Did (.worker n) (.llamaDecode h batch) true) ∨ c.data.Failed n := by
  have hlife := (lives hr).1 n
  rw [hlife.consumed] at hs
  split at hs
  · exact (hlife.earned hs).imp hlife.decoded hlife.failed
  · exact absurd hs (Nat.lt_irrefl 0)

/-- Where nobody signals twice, the sum that the blackboard keeps counts those who have not
    signalled. -/
private theorem sum_eq_countP {w : World} {t : Int} {names : List String}
    (hone : ∀ n ∈ names, w.consumed n t ≤ 1) :
    (names.map fun n => (1 : Int) - w.consumed n t).sum =
      (names.countP fun n => w.consumed n t = 0 : Nat) := by
  induction names with
  | nil => rfl
  | cons n names ih =>
    have hn := hone n List.mem_cons_self
    have hrest := ih fun n' hn' => hone n' (List.mem_cons_of_mem _ hn')
    rw [List.map_cons, List.sum_cons, List.countP_cons, hrest]
    by_cases hzero : w.consumed n t = 0
    · simp [hzero]
      omega
    · have hsignalled : w.consumed n t = 1 := by omega
      simp [hsignalled]

/-- How many branches of a milestone have not signalled. -/
def unsignalled (cfg : Pipeline) (t : Int) (w : World) : Nat :=
  (cfg.orchestrator.branchesAt t).countP fun n => w.consumed n t = 0

/-- The count of a milestone is the number of its branches that have not signalled. -/
private theorem remaining_eq (hr : cfg.initial.Run tr c)
    (hmem : ∀ n ∈ cfg.orchestrator.names, ¬ c.data.OutOfMemory n) (t : Int) :
    c.data.state.milestoneConsumersRemaining t =
      if cfg.orchestrator.HasConsumers t then some (cfg.unsignalled t c.data : Int) else none := by
  rw [(reachable_holds hr.reaches).inv.consumers t, consumersLeft]
  split
  · rw [sum_eq_countP fun n hn =>
      consumed_le_one hr (hmem n (Orchestrator.mem_branchesAt.mp hn).1) t]
    rfl
  · rfl

/-- When the milestone wait is over, all branches of the milestone have signalled. -/
theorem signalled_of_holds (hr : cfg.initial.Run tr c)
    (hmem : ∀ n ∈ cfg.orchestrator.names, ¬ c.data.OutOfMemory n) {t : Int} (ht : 0 < t)
    (hholds : (Cond.milestoneConsumers t).holds c.data = true) :
    ∀ n ∈ cfg.orchestrator.branchesAt t, 0 < c.data.consumed n t := by
  intro n hn
  have hcount := remaining_eq hr hmem t
  rw [if_pos ⟨ht, List.ne_nil_of_mem hn⟩] at hcount
  have hzero : cfg.unsignalled t c.data = 0 := by simpa [Cond.holds, hcount] using hholds
  have hne := List.countP_eq_zero.mp hzero n hn
  have hne : c.data.consumed n t ≠ 0 := by simpa using hne
  omega

/-! ## Pauses -/

/-- The milestones that a prefiller has waited for; behind a milestone that it commits, it
    decodes when it has waited there. -/
private def pauseWatch (cfg : Pipeline) (i : Thread) : Observer sig (List Int) where
  start := []
  next s a _ := match a with
    | .wait (.milestoneConsumers t) => t :: s
    | _ => s
  ok s a := match a with
    | .op (.llamaDecode _ batch) => ∀ n, i = .worker n → cfg.orchestrator.isPrefill n →
      ∀ slot ∈ batch.slots, ∀ t, cfg.IsMilestone t → CommitValue (cfg.doc n).length t →
        t ≤ slot.pos → t ∈ s
    | _ => True
  ans _ a := match a with
    | .op .load => fun r : PipelineState => ∀ t, t ∈ r.snapshotMilestones ↔ cfg.IsMilestone t
    | .op (.llamaDecode _ batch) => fun r : Bool => r = true → 0 < batch.nTokens
    | _ => fun _ => True

/-- `p` has waited for its milestones below `t`, or up to it. -/
private def WaitedBelow (cfg : Pipeline) (p : String) (t : Nat) (s : List Int) : Prop :=
  ∀ t', cfg.IsMilestone t' → CommitValue (cfg.doc p).length t' → t' < t → t' ∈ s

private def WaitedUpTo (cfg : Pipeline) (p : String) (t : Nat) (s : List Int) : Prop :=
  ∀ t', cfg.IsMilestone t' → CommitValue (cfg.doc p).length t' → t' ≤ t → t' ∈ s

/-- Only decoding can be unwanted, and a wait only adds to the list. -/
private theorem pauseWatch_keeps {i : Thread} {I : List Int → Prop} {a : Action sig}
    (hI : ∀ t s, I s → I (t :: s)) (ha : ∀ h batch, a ≠ .op (.llamaDecode h batch)) :
    (pauseWatch cfg i).Keeps I a := by
  refine fun s hs => ⟨?_, fun _ _ => ?_⟩
  · cases a with
    | op o =>
      cases o with
      | llamaDecode h batch => exact absurd rfl (ha h batch)
      | _ => trivial
    | _ => trivial
  · cases a with
    | wait w =>
      cases w with
      | milestoneConsumers t => exact hI t s hs
      | _ => exact hs
    | _ => exact hs

private theorem waitedUpTo_cons {t : Nat} (t' : Int) (s : List Int)
    (h : cfg.WaitedUpTo p t s) : cfg.WaitedUpTo p t (t' :: s) :=
  fun t'' hm hv hle => List.mem_cons_of_mem _ (h t'' hm hv hle)

private theorem waitedBelow_cons {t : Nat} (t' : Int) (s : List Int)
    (h : cfg.WaitedBelow p t s) : cfg.WaitedBelow p t (t' :: s) :=
  fun t'' hm hv hlt => List.mem_cons_of_mem _ (h t'' hm hv hlt)

/-- The end of a slice is the next commit value. -/
private theorem WaitedUpTo.slice {t : Nat} {s : List Int} (h : cfg.WaitedUpTo p t s)
    (hdvd : 128 ∣ t) (hlt : t < (cfg.doc p).length) :
    cfg.WaitedBelow p (t + min 128 ((cfg.doc p).length - t)) s := by
  intro t' hm hv hlt'
  obtain hle | heq := hv.slice hdvd hlt hlt'.le
  · exact h t' hm hv hle
  · omega

private theorem prefillSlice_pauseWatch {h t : Nat} (hdvd : 128 ∣ t)
    (hlt : t < (cfg.doc p).length) :
    (pauseWatch cfg (.worker p)).Spec (cfg.WaitedUpTo p t)
      (PrefillNode.prefillSlice cfg.engine h (cfg.doc p) t (min 128 ((cfg.doc p).length - t)))
      (fun _ => cfg.WaitedBelow p (t + min 128 ((cfg.doc p).length - t))) fun _ _ => True := by
  have hkeeps : ∀ {a : Action sig}, (∀ h batch, a ≠ .op (.llamaDecode h batch)) →
      (pauseWatch cfg (.worker p)).Keeps (cfg.WaitedUpTo p t) a :=
    fun ha => pauseWatch_keeps waitedUpTo_cons ha
  have hend : ∀ s, cfg.WaitedUpTo p t s →
      cfg.WaitedBelow p (t + min 128 ((cfg.doc p).length - t)) s := fun s hs => hs.slice hdvd hlt
  unfold PrefillNode.prefillSlice
  refine .withLock (I := cfg.WaitedUpTo p t) (J := fun _ => cfg.WaitedUpTo p t)
    (K := fun _ _ => True) (fun s hs => ⟨trivial, fun _ => hs⟩) ?_
    (fun _ s hs => ⟨trivial, fun _ => hend s hs⟩) fun _ _ _ => ⟨trivial, fun _ => trivial⟩
  refine .bind (Q := fun _ => cfg.WaitedUpTo p t) ?_ fun _ => ?_
  · refine PrefillNode.decodeLoop_spec (I := fun _ => cfg.WaitedUpTo p t)
      (X := fun _ => True) (by omega) (fun _ _ _ hr => hr) (fun _ => hkeeps (by simp))
      (fun _ _ => hkeeps (by simp)) (fun _ => pauseWatch_keeps (fun _ _ h => h) (by simp)) ?_ ?_
      _ _ _ rfl le_rfl
    · intro cur k id s _ hle hs
      refine ⟨?_, fun r _ => ⟨fun _ => hs, fun _ => trivial⟩⟩
      intro n hn _ slot hslot t' hm hv hle'
      obtain rfl := Thread.worker.inj hn
      -- the slots lie within the slice
      have hpos : slot.pos < cur + k := by
        obtain ⟨q, hq, rfl⟩ := List.mem_map.mp hslot
        have hlen := (List.mem_zipIdx hq).2.1
        simp only [List.length_take, List.length_drop] at hlen
        show (cur : Int) + q.2 < cur + k
        omega
      refine hs.slice hdvd hlt t' hm hv ?_
      have hle : cur + k ≤ t + min 128 ((cfg.doc p).length - t) := hle
      omega
    · intro _ n cur id s _ _ _
      exact ⟨fun _ _ _ slot hslot => absurd hslot List.not_mem_nil, fun _ => trivial⟩
  · exact .err (.of_uses (PipelineState.commitWatermark_uses _ _) fun a ha =>
      hkeeps fun h batch heq => by rw [heq] at ha; cases ha) fun _ _ _ => trivial

private theorem isSnapshotMilestone_pauseWatch (t : Nat) :
    (pauseWatch cfg (.worker p)).Spec (cfg.WaitedBelow p t)
      (PipelineState.isSnapshotMilestone t)
      (fun b => if b = true then cfg.WaitedBelow p t else cfg.WaitedUpTo p t)
      fun _ _ => True := by
  unfold PipelineState.isSnapshotMilestone
  refine .withLock (I := cfg.WaitedBelow p t)
    (J := fun b => if b = true then cfg.WaitedBelow p t else cfg.WaitedUpTo p t)
    (K := fun _ _ => True) (fun s hs => ⟨trivial, fun _ => hs⟩) ?_
    (fun b s hs => ⟨trivial, fun _ => hs⟩) fun _ _ _ => ⟨trivial, fun _ => trivial⟩
  refine .bind (Q := fun (r : PipelineState) s => cfg.WaitedBelow p t s ∧
    ∀ t, t ∈ r.snapshotMilestones ↔ cfg.IsMilestone t)
    (.op fun s hs => ⟨trivial, fun r hr => ⟨hs, hr⟩⟩) fun r => .ret fun s hs => ?_
  split
  · exact hs.1
  · rename_i hno
    rw [Bool.not_eq_true, ← Bool.not_eq_true, List.contains_iff_mem, hs.2] at hno
    intro t' hm hv hle
    have hne : t' ≠ t := fun heq => hno (heq ▸ hm)
    exact hs.1 t' hm hv (by omega)

private theorem pauseAtMilestone_pauseWatch {h t : Nat} (ht : 0 < t) :
    (pauseWatch cfg (.worker p)).Spec (cfg.WaitedBelow p t) (PrefillNode.pauseAtMilestone h t)
      (fun _ => cfg.WaitedUpTo p t) fun _ _ => True := by
  have hbelow : ∀ {α : Type} {q : Prog α}, q.Uses (fun a : Action sig => ∀ h batch,
      a ≠ .op (.llamaDecode h batch)) → (pauseWatch cfg (.worker p)).Spec (cfg.WaitedBelow p t) q
        (fun _ => cfg.WaitedBelow p t) fun _ _ => True := fun hq =>
    .err (.of_uses hq fun _ ha => pauseWatch_keeps waitedBelow_cons ha) fun _ _ _ => trivial
  have hupTo : ∀ {α : Type} {q : Prog α}, q.Uses (fun a : Action sig => ∀ h batch,
      a ≠ .op (.llamaDecode h batch)) → (pauseWatch cfg (.worker p)).Spec (cfg.WaitedUpTo p t) q
        (fun _ => cfg.WaitedUpTo p t) fun _ _ => True := fun hq =>
    .err (.of_uses hq fun _ ha => pauseWatch_keeps waitedUpTo_cons ha) fun _ _ _ => trivial
  unfold PrefillNode.pauseAtMilestone
  refine .bind (hbelow (.withLock (by simp) (by simp) (.perform (by simp)))) fun _ => ?_
  refine .bind (Q := fun _ => cfg.WaitedUpTo p t) (.ite (fun hle => absurd hle (by omega))
    fun _ => ?_) fun _ => hupTo (.withLock (by simp) (by simp) ?_)
  · refine .withLock (I := cfg.WaitedBelow p t) (J := fun _ => cfg.WaitedUpTo p t)
      (K := fun _ _ => True) (fun s hs => ⟨trivial, fun _ => hs⟩) ?_
      (fun b s hs => ⟨trivial, fun _ => hs⟩) fun _ _ _ => ⟨trivial, fun _ => trivial⟩
    refine .await fun s hs => ⟨trivial, fun _ t' hm hv hle => ?_⟩
    by_cases heq : t' = t
    · subst heq
      exact List.mem_cons_self
    · exact List.mem_cons_of_mem _ (hs t' hm hv (by omega))
  · refine .bind (.perform (by simp)) fun r => ?_
    cases r with
    | none => exact .throw _
    | some h' =>
      refine .bind (.perform (by simp)) fun s => ?_
      refine .bind (KVHandoff.bindContiguousCache_uses _ _) fun _ => ?_
      refine .bind ((PrefillNode.restorePrefixSnapshot_uses _ _).mono fun a ha h batch heq => ?_)
        fun _ => .ret _
      rw [heq] at ha
      cases ha with
      | lookup ha => cases ha

/-- A prefiller decodes nothing behind a milestone before it has waited there. -/
private theorem execute_pauseWatch {node : PrefillNode} {ctx : OrchestratorContext}
    (hnode : cfg.orchestrator.node p = some (.prefill node)) (hE : ctx.engine = cfg.engine) :
    (pauseWatch cfg (.worker p)).Spec (fun _ => True) (node.execute ctx) (fun _ _ => True)
      fun _ _ => True := by
  have houter : ∀ a, OuterAction a → (pauseWatch cfg (.worker p)).Keeps (fun _ => True) a := by
    refine fun a ha => pauseWatch_keeps (fun _ _ h => h) fun h batch heq => ?_
    rw [heq] at ha
    cases ha with
    | host ha => cases ha
    | lookup ha => cases ha
  refine PrefillNode.execute_spec houter houter (fun _ _ _ => trivial) (fun _ _ _ => trivial)
    fun tokens h htokens => ?_
  have hdoc : tokens = cfg.doc p := by
    rw [hE] at htokens
    simp only [doc, hnode, htokens, Option.getD_some]
  rw [hE, hdoc]
  refine .conseq (PrefillNode.prefillLoop_spec (J := fun _ => cfg.WaitedUpTo p)
    (K := fun _ => cfg.WaitedBelow p) (L := fun _ => cfg.WaitedBelow p) (X := fun _ _ => True)
    (N := (cfg.doc p).length) (fun _ _ => prefillSlice_pauseWatch)
    (fun _ t _ => isSnapshotMilestone_pauseWatch t)
    (fun _ t ht => pauseAtMilestone_pauseWatch (Int.natCast_pos.mp ht.1)) _ _ 0 (Nat.zero_le _)
    (fun _ => Nat.dvd_zero _) (Nat.sub_le _ _)) ?_ (fun _ _ _ => trivial) fun _ _ _ => trivial
  intro s _ t hm _ hle
  exact absurd hm.pos (by omega)

private theorem program_pauseWatch (i : Thread) :
    (pauseWatch cfg i).Meets (cfg.program i) (fun _ _ => True) [] := by
  have hkeeps : ∀ {i : Thread} {a : Action sig}, (∀ h batch, a ≠ .op (.llamaDecode h batch)) →
      (pauseWatch cfg i).Keeps (fun _ => True) a := fun ha => pauseWatch_keeps (fun _ _ h => h) ha
  refine cfg.program_meets (A := pauseWatch cfg) (fun a ha => hkeeps ?_) (fun n _ => ?_) i
  · rintro h batch rfl
    cases ha
  refine Orchestrator.worker_spec (I := fun _ => True) (J := fun _ => True) (K := fun _ => True)
    (fun _ _ => trivial) ?_ (fun _ _ => ⟨trivial, fun _ _ => trivial⟩) ?_ ?_ ?_
  · refine fun node _ => .pre (.of_uses (Orchestrator.awaitDependencies_uses _ _) fun a ha =>
      hkeeps fun h batch heq => ?_) fun _ _ => trivial
    rw [heq] at ha
    cases ha
  · refine fun a ha _ => hkeeps fun h batch heq => ?_
    rw [heq] at ha
    cases ha
  · refine fun t a ha => hkeeps fun h batch heq => ?_
    rw [heq] at ha
    cases ha
  · intro node ctx hnode hE _
    cases node with
    | prefill node => exact execute_pauseWatch hnode hE
    | analytical node =>
      -- a branch is no prefiller
      have hno : ¬ cfg.orchestrator.isPrefill n := by
        simp [Orchestrator.isPrefill, hnode, Node.isPrefillProvider]
      refine .of_uses (Node.execute_uses _ ctx) fun a _ s _ => ⟨?_, fun _ _ => trivial⟩
      cases a with
      | op o =>
        cases o with
        | llamaDecode h batch =>
          intro m hm hprefill
          obtain rfl := Thread.worker.inj hm
          exact absurd hprefill hno
        | _ => trivial
      | _ => trivial

/-- Where somebody has waited for the consumers of a milestone, they have all signalled. -/
private theorem waited_signalled (hr : cfg.initial.Run tr c) :
    ((∀ n ∈ cfg.orchestrator.names, ¬ c.data.OutOfMemory n) →
      ∀ i, ∀ t ∈ Observer.state (pauseWatch cfg) tr i, 0 < t →
        ∀ n ∈ cfg.orchestrator.branchesAt t, 0 < c.data.consumed n t) ∧
    Observer.Follows (pauseWatch cfg) (fun _ _ _ => True) tr c := by
  refine hr.observe (R := fun (tr : Trace (machine cfg.engine)) (c : Config cfg.engine) =>
    (∀ n ∈ cfg.orchestrator.names, ¬ c.data.OutOfMemory n) →
      ∀ i, ∀ t ∈ Observer.state (pauseWatch cfg) tr i, 0 < t →
        ∀ n ∈ cfg.orchestrator.branchesAt t, 0 < c.data.consumed n t)
    program_pauseWatch (fun _ i t ht => by cases ht) ?_ fun _ hR hs => by rwa [hs.data]
  intro tr c e c' hrun hR he _
  have hgrow : ∀ j, c.data.log j <+: c'.data.log j := by
    obtain hsame | ⟨i, o, r, x, -, -, hx⟩ := he.data
    · rw [hsame]
      exact fun _ => List.prefix_rfl
    · exact exec_log_grows hx
  constructor
  · cases he with
    | @op i o k x r d ht hx =>
      cases o with
      | load =>
        simp only [exec, Option.some.injEq, Prod.mk.injEq] at hx
        obtain ⟨rfl, -⟩ := hx
        exact (reachable_holds hrun.reaches).inv.milestones
      | llamaDecode hd batch => exact exec_answered hx
      | _ => trivial
    | _ => trivial
  · -- signals are not taken back, so only a new wait has to be looked at
    intro hmem i t ht hpos n hn
    have hmem : ∀ n ∈ cfg.orchestrator.names, ¬ c.data.OutOfMemory n :=
      fun n hn hout => hmem n hn ((hgrow _).subset hout)
    have hold : 0 < c.data.consumed n t := by
      by_cases hi : i = e.thread
      · subst hi
        rw [Observer.state_same] at ht
        -- waited before, or just now
        obtain hin | hwait : t ∈ Observer.state (pauseWatch cfg) tr e.thread ∨
            e.action = .wait (.milestoneConsumers t) := by
          revert ht
          cases e with
          | mk i a r d =>
            intro ht
            cases a with
            | wait w =>
              cases w with
              | milestoneConsumers t' =>
                obtain rfl | ht := List.mem_cons.mp ht
                · exact .inr rfl
                · exact .inl ht
              | _ => exact .inl ht
            | _ => exact .inl ht
        · exact hR hmem _ t hin hpos n hn
        · exact signalled_of_holds hrun hmem hpos (he.holds hwait) n hn
      · rw [Observer.state_other hi] at ht
        exact hR hmem i t ht hpos n hn
    exact Nat.lt_of_lt_of_le hold ((hgrow _).sublist.count_le _)

/-! ## The gate -/

/-- Only commit values are committed. -/
private theorem Reachable.commitValue (hc : cfg.Reachable c) {t : Int}
    (ht : t ∈ c.data.commits (.worker p)) : CommitValue (cfg.doc p).length t := by
  induction hc with
  | refl => cases ht
  | @tail c c' hr hs ih =>
    have hc : cfg.Reachable c := hr
    obtain heq | ⟨i, o, x, r, hpre, hx⟩ := hc.exec hs
    · rw [heq] at ht
      exact ih ht
    · obtain ⟨e, he, hcommit⟩ := List.mem_filterMap.mp ht
      obtain hold | ⟨rfl, hemit⟩ := exec_mem_log hx he
      · exact ih (List.mem_filterMap.mpr ⟨e, hold, hcommit⟩)
      · cases e with
        | commitWatermark ctx t' =>
          obtain rfl := Option.some.inj hcommit
          cases hemit
          obtain ⟨m, hm, -, hpre⟩ := hpre.2
          obtain rfl := Thread.worker.inj hm
          exact hpre.value
        | _ => cases hcommit

/-- In every state of every run without a failed allocation, the count of a milestone is the
    number of its branches that have not signalled, nobody has signalled twice, and when a
    prefiller has decoded anything behind a milestone that it has committed, every branch of
    the milestone has decoded or failed. -/
theorem milestone_gate (hr : cfg.initial.Run tr c)
    (hmem : ∀ n ∈ cfg.orchestrator.names, ¬ c.data.OutOfMemory n) :
    (∀ t, c.data.state.milestoneConsumersRemaining t =
      if cfg.orchestrator.HasConsumers t then some (cfg.unsignalled t c.data : Int) else none) ∧
    (∀ n ∈ cfg.orchestrator.names, ∀ t, c.data.consumed n t ≤ 1) ∧
    ∀ p, cfg.orchestrator.isPrefill p → ∀ t ∈ c.data.commits (.worker p), cfg.IsMilestone t →
      ∀ h batch r, tr.Did (.worker p) (.llamaDecode h batch) r → ∀ slot ∈ batch.slots,
        t ≤ slot.pos → ∀ n ∈ cfg.orchestrator.branchesAt t,
          (∃ h batch, tr.Did (.worker n) (.llamaDecode h batch) true) ∨ c.data.Failed n := by
  refine ⟨remaining_eq hr hmem, fun n hn => consumed_le_one hr (hmem n hn), ?_⟩
  intro p hp t ht hm h batch r hdid slot hslot hle n hn
  refine decoded_or_failed hr (t := t) ?_
  -- at the decoding the prefiller had waited for the milestone
  obtain ⟨d, hd⟩ := hdid
  obtain ⟨later, earlier, htr⟩ := List.append_of_mem hd
  obtain ⟨c₁, c₂, hrun, hacts, hreach⟩ := hr.earlier htr
  have hgrow : ∀ j, c₁.data.log j <+: c.data.log j := fun j =>
    reaches_log_grows (.head (Config.step_iff.mpr (.inl ⟨_, hacts⟩)) hreach) j
  obtain ⟨hsignalled, hfollows⟩ := waited_signalled hrun
  have hwaited := (hfollows.acts hacts).1 p rfl hp slot hslot t hm
    (Reachable.commitValue hr.reaches ht) hle
  have hmem₁ : ∀ n ∈ cfg.orchestrator.names, ¬ c₁.data.OutOfMemory n :=
    fun n hn hout => hmem n hn ((hgrow _).subset hout)
  exact Nat.lt_of_lt_of_le (hsignalled hmem₁ _ t hwaited hm.pos n hn)
    ((hgrow _).sublist.count_le _)

/-- When the toy branch that forks at 1 has decoded, nobody has still to signal. -/
theorem milestone_gate_toy : ((Toy.star 1 false 1).after
    Toy.endAtOne).data.state.milestoneConsumersRemaining 1 = some 0 := by
  obtain ⟨tr, hr⟩ := Config.Reaches.exists_run (reachable_after _ Toy.endAtOne)
  have hmem : ∀ n ∈ (Toy.star 1 false 1).orchestrator.names,
      ¬ ((Toy.star 1 false 1).after Toy.endAtOne).data.OutOfMemory n := by decide +kernel
  rw [(milestone_gate hr hmem).1 1, if_pos (by decide)]
  decide +kernel

end SwarmKV.Pipeline
