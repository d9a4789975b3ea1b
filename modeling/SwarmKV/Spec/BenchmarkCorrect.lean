import SwarmKV.Native.Benchmark
import SwarmKV.Spec.Effects
import SwarmKV.Spec.WorkerRules
import SwarmKV.Spec.Toy

/-!
# The second branch of the benchmark

The watermark of the second branch is no multiple of the slice size, so a prefiller passes it
without a commit, unless the document ends there. The branch is woken by the next commit, and finds
no snapshot.
-/

namespace SwarmKV.Benchmark

open Monitor

variable {E : Engine} {N : Nat} {path : String} {i : Thread}

/-- The watermark of the second branch is neither filed nor waited for. -/
private def Unfiled (a : Action sig) : Prop :=
  (∀ data, a ≠ .op (.putSnapshot kSwarmkvAgentBWatermark data)) ∧
    a ≠ .wait (.watermark kSwarmkvAgentBWatermark)

/-- What a branch does not do before its fork has been looked up. -/
def Unforked (a : Action sig) : Prop :=
  (∀ len b k, a ≠ .op (.noteFork len b k)) ∧ a ≠ .op .llamaInitFromModel ∧
    ∀ h batch, a ≠ .op (.llamaDecode h batch)

/-- An observer that knows whether the second branch is past its wait. It accepts no snapshot at
    that watermark and no fork of the branch, and expects no snapshot. -/
private def unfiled (i : Thread) : Observer sig Bool where
  start := false
  next s a _ := match a with
    | .wait (.watermark t) => s || decide (t = kSwarmkvAgentBWatermark)
    | _ => s
  ok s a := (∀ data, a ≠ .op (.putSnapshot kSwarmkvAgentBWatermark data)) ∧
    (i = .main → s = true → Unforked a)
  ans _ a := match a with
    | .op .load => fun r : PipelineState => r.prefixSnapshots kSwarmkvAgentBWatermark = none
    | _ => fun _ => True

private theorem next_unfiled {a : Action sig} (ha : Unfiled a) (s : Bool) (r : a.Res) :
    (unfiled i).next s a r = s := by
  cases a with
  | wait w =>
    cases w with
    | watermark t =>
      have hne : t ≠ kSwarmkvAgentBWatermark := fun heq => ha.2 (by rw [heq])
      show (s || decide (t = kSwarmkvAgentBWatermark)) = s
      rw [decide_eq_false hne, Bool.or_false]
    | _ => rfl
  | _ => rfl

/-- Nobody but the caller forks, and it does not before it is past the second wait. -/
private theorem keeps_unfiled {a : Action sig} (ha : Unfiled a) :
    (unfiled i).Keeps (fun s => i = .main → s = false) a := by
  refine fun s hs => ⟨⟨ha.1, fun hi hwoken => ?_⟩, fun r _ => ?_⟩
  · exact absurd ((hs hi).symm.trans hwoken) Bool.false_ne_true
  · rw [next_unfiled ha]
    exact hs

private theorem unfiled_of_uses {α : Type} {q : Prog α} (hq : q.Uses Unfiled) :
    (unfiled i).Spec (fun s => i = .main → s = false) q (fun _ s => i = .main → s = false)
      fun _ s => i = .main → s = false :=
  .of_uses hq fun _ ha => keeps_unfiled ha

/-- A commit files what it commits at most. -/
private theorem unfiled_of_commitsTo {t : Int} {a : Action sig} (ha : CommitsTo t a)
    (ht : t ≠ kSwarmkvAgentBWatermark) : Unfiled a := by
  refine ⟨fun data heq => ?_, ?_⟩
  · cases ha with
    | putSnapshot => exact ht (by cases heq; rfl)
    | _ => cases heq
  · cases ha <;> simp

/-- A slice files its end at most, which is at 3000 only if the document ends there. -/
private theorem prefillSlice_unfiled {tokens : List LlamaToken} {h p : Nat} (hN : N ≠ 3000)
    (hdvd : 128 ∣ p) (hlt : p < N) (hlen : N ≤ tokens.length) :
    (unfiled i).Spec (fun s => i = .main → s = false)
      (PrefillNode.prefillSlice E h tokens p (min 128 (N - p)))
      (fun _ s => i = .main → s = false) fun _ s => i = .main → s = false := by
  have hcommit := commitValue_slice hdvd hlt
  have hle : p + min 128 (N - p) ≤ tokens.length := by omega
  generalize min 128 (N - p) = chunk at hcommit hle
  have hne : ((p + chunk : Nat) : Int) ≠ kSwarmkvAgentBWatermark := by
    intro heq
    obtain ⟨-, -, hmul | hend⟩ := hcommit
    · rw [heq] at hmul
      exact absurd hmul (by decide)
    · rw [heq] at hend
      unfold kSwarmkvAgentBWatermark at hend
      omega
  refine unfiled_of_uses (.withLock (by simp [Unfiled]) (by simp [Unfiled])
    (.bind ((PrefillNode.decodeLoop_uses h chunk p chunk hle).mono fun a ha => ?_) fun _ =>
      (PipelineState.commitWatermark_uses_to _ _).mono fun a ha => unfiled_of_commitsTo ha hne))
  cases ha <;> simp [Unfiled]

/-- The prefiller files nothing at 3000. -/
private theorem prefill_unfiled {node : PrefillNode} {ctx : OrchestratorContext}
    (hlen : ((documentTokens ctx.engine node.sourceDocumentPath).getD []).length ≠ 3000) :
    (unfiled i).Spec (fun s => i = .main → s = false) (node.execute ctx)
      (fun _ s => i = .main → s = false) fun _ s => i = .main → s = false := by
  have hpause : ∀ {a : Action sig}, PauseAction a → Unfiled a := fun ha => by
    cases ha with
    | restore ha =>
      cases ha with
      | lookup ha => cases ha <;> simp [Unfiled]
      | llamaStateSeqSetData => simp [Unfiled]
    | _ => simp [Unfiled]
  have houter : ∀ a, OuterAction a → (unfiled i).Keeps (fun s => i = .main → s = false) a := by
    refine fun a ha => keeps_unfiled ?_
    cases ha with
    | host ha => cases ha <;> simp [Unfiled]
    | lookup ha => cases ha <;> simp [Unfiled]
    | _ => simp [Unfiled]
  refine PrefillNode.execute_spec houter houter (fun _ _ hs => hs) (fun _ _ hs => hs)
    fun tokens h htokens => ?_
  rw [htokens, Option.getD_some] at hlen
  refine PrefillNode.prefillLoop_spec (J := fun _ _ s => i = .main → s = false)
    (K := fun _ _ s => i = .main → s = false) (L := fun _ _ s => i = .main → s = false)
    (X := fun _ s => i = .main → s = false) (N := tokens.length)
    (fun _ _ hdvd hlt => prefillSlice_unfiled hlen hdvd hlt le_rfl) (fun _ t _ => ?_)
    (fun h t _ => unfiled_of_uses ((PrefillNode.pauseAtMilestone_uses h t).mono
      fun _ => hpause)) _ _ 0 (Nat.zero_le _) (fun _ => Nat.dvd_zero _) (Nat.sub_le _ _)
  refine .post (unfiled_of_uses ((PipelineState.isSnapshotMilestone_uses _).mono
    fun a ha => ?_)) fun b s hs => ?_
  · cases ha <;> simp [Unfiled]
  · split <;> exact hs

/-- A branch files nothing. -/
private theorem branch_unfiled (node : AnalyticalNode) (ctx : OrchestratorContext) :
    (node.forkAndDecode ctx).Uses Unfiled := by
  refine (node.forkAndDecode_uses ctx).mono fun a ha => ?_
  cases ha with
  | signal ha => cases ha <;> simp [Unfiled]
  | branch ha =>
    cases ha with
    | host ha => cases ha <;> simp [Unfiled]
    | lookup ha => cases ha <;> simp [Unfiled]
    | copy ha => cases ha <;> simp [Unfiled]
    | pool ha => cases ha <;> simp [Unfiled]
    | decode ha => cases ha <;> simp [Unfiled]
    | _ => simp [Unfiled]

private theorem waitForWatermark_unfiled {t : Int} (ht : t ≠ kSwarmkvAgentBWatermark) :
    (PipelineState.waitForWatermark t).Uses Unfiled :=
  .ite (.throw _) (.withLock (by simp [Unfiled]) (by simp [Unfiled])
    (.await (by simp [Unfiled, ht])))

/-- The second branch finds no snapshot, and throws. -/
private theorem agentB_throws {ctx : OrchestratorContext} (hpool : ctx.memoryPool = true)
    (prompt : String) :
    (unfiled i).Spec (fun _ => True)
      ((AnalyticalNode.mk prompt kSwarmkvAgentBWatermark).execute ctx)
      (fun _ _ => False) fun e _ => e = .missingPrefixSnapshot kSwarmkvAgentBWatermark := by
  unfold AnalyticalNode.execute
  refine .withLock (I := fun _ => True) (J := fun _ _ => False)
    (K := fun e _ => e = .missingPrefixSnapshot kSwarmkvAgentBWatermark)
    (fun _ _ => ⟨by simp [unfiled, Unforked], fun _ => trivial⟩) ?_ (fun _ _ h => h.elim)
    fun _ _ he => ⟨by simp [unfiled, Unforked], fun _ => he⟩
  unfold AnalyticalNode.forkAndDecode
  refine .bind (Q := fun _ _ => True) (.op fun _ _ => ⟨by simp [unfiled, Unforked],
    fun _ _ => trivial⟩) fun t₀ => .ite (fun hnone => ?_) fun _ => ?_
  · rw [hpool] at hnone
    cases hnone
  refine .bind (Q := fun _ _ => False) ?_ fun _ => fun _ h => h.elim
  unfold AnalyticalNode.chooseFork
  refine .ite (fun _ => ?_) fun hneg => absurd (show (0 : Int) ≤ 3000 by omega) hneg
  refine .bind (Q := fun r _ => r = none) ?_ fun r => .fix fun _ hr => ?_
  · -- the lookup
    unfold PipelineState.tryGetPrefixSnapshot
    refine .withLock (I := fun _ => True) (J := fun r _ => r = none) (K := fun _ _ => False)
      (fun _ _ => ⟨by simp [unfiled, Unforked], fun _ => trivial⟩) ?_
      (fun _ _ hr => ⟨by simp [unfiled, Unforked], fun _ => hr⟩) fun _ _ h => h.elim
    refine .bind (Q := fun (s : PipelineState) _ =>
      s.prefixSnapshots kSwarmkvAgentBWatermark = none)
      (.op fun _ _ => ⟨by simp [unfiled, Unforked], fun _ hr => hr⟩) fun s => .fix fun _ hs => ?_
    simp only [hs]
    exact .ret fun _ _ => rfl
  · rw [hr]
    exact .throw fun _ _ => rfl

/-- The caller does not return, and throws for want of the snapshot if it gets that far. -/
private theorem runAgents_throws {nCtx : Nat} :
    (unfiled .main).Spec (· = false) (runAgents E nCtx) (fun _ _ => False)
      fun e s => s = true → e = .missingPrefixSnapshot kSwarmkvAgentBWatermark := by
  have hfirst : (runAgent E nCtx kBranchPromptA kSwarmkvAgentAWatermark "AgentA").Uses Unfiled :=
    .bind (waitForWatermark_unfiled (by decide)) fun _ =>
      .withLock (by simp [Unfiled]) (by simp [Unfiled]) (branch_unfiled _ _)
  refine .bind (.conseq (unfiled_of_uses hfirst) (fun _ hs _ => hs) (Q := fun _ => (· = false))
    (fun _ _ hs => hs rfl) fun _ s hs hwoken => ?_) fun _ => ?_
  · exact absurd ((hs rfl).symm.trans hwoken) Bool.false_ne_true
  refine .bind (Q := fun _ _ => False) (.bind (Q := fun _ _ => True) ?_ fun _ => ?_)
    fun _ => fun _ h => h.elim
  · -- the wait of the second branch
    refine .ite (fun hneg => absurd hneg (by decide)) fun _ => ?_
    refine .withLock (I := (· = false)) (J := fun _ _ => True) (K := fun _ _ => False)
      (fun s hs => ⟨⟨by simp, fun _ hwoken => ?_⟩, fun _ => hs⟩)
      (.await fun s hs => ⟨⟨by simp, fun _ hwoken => ?_⟩, fun _ => trivial⟩)
      (fun _ s _ => ⟨by simp [unfiled, Unforked], fun _ => trivial⟩) fun _ _ h => h.elim
    all_goals exact absurd (hs.symm.trans hwoken) Bool.false_ne_true
  · exact .err (agentB_throws rfl _) fun _ _ hs _ => hs

/-- How a thread ends. -/
private def Ends (i : Thread) (r : Outcome) (woken : Bool) : Prop :=
  i = .main → r ≠ .ok () ∧
    (woken = true → r = .error (.missingPrefixSnapshot kSwarmkvAgentBWatermark))

private theorem program_unfiled {nCtx : Nat}
    (hlen : ((documentTokens E path).getD []).length ≠ 3000) (i : Thread) :
    (unfiled i).Meets (program E nCtx path i) (Ends i) false := by
  cases i with
  | main =>
    refine (runAgents_throws false rfl).mono fun r s hr => ?_
    cases r with
    | ok a => exact hr.elim
    | error e => exact fun _ => ⟨by simp, fun hwoken => congrArg _ (hr hwoken)⟩
  | worker n =>
    show (unfiled (.worker n)).Meets
      (if n = "Prefiller" then prefillThread E nCtx path else pure () : Prog Unit) _ false
    split
    · have hthread : (unfiled (.worker n)).Spec (fun s => Thread.worker n = .main → s = false)
          (prefillThread E nCtx path) (fun _ _ => True) fun _ _ => True :=
        .bind (.attempt (prefill_unfiled hlen)) fun r =>
          .op fun _ _ => ⟨⟨by simp, fun h => by cases h⟩, fun _ _ => trivial⟩
      exact (hthread false fun h => by cases h).mono fun _ _ _ h => by cases h
    · exact fun h => by cases h

/-- The second branch is past its wait. -/
def agentBWoken : Trace (machine E) → Bool
  | [] => false
  | ⟨.main, .wait (.watermark t), _, _⟩ :: tr =>
    agentBWoken tr || decide (t = kSwarmkvAgentBWatermark)
  | _ :: tr => agentBWoken tr

private theorem state_unfiled (tr : Trace (machine E)) :
    Observer.state unfiled tr .main = agentBWoken tr := by
  induction tr with
  | nil => rfl
  | cons e tr ih =>
    obtain ⟨j, a, r, d⟩ := e
    cases j with
    | main =>
      rw [Observer.state_act]
      cases a with
      | wait w =>
        cases w with
        | watermark t => exact congrArg (· || decide (t = kSwarmkvAgentBWatermark)) ih
        | _ => exact ih
      | _ => exact ih
    | worker n =>
      rw [Observer.state_other (by simp)]
      cases a <;> exact ih

/-- Whatever the schedule and the engine: unless the document has exactly 3000 tokens, nothing is
    filed for the second branch, the benchmark does not get through, and the second branch throws
    instead of forking once it has been woken. -/
theorem never_returns {nCtx : Nat} (hlen : ((documentTokens E path).getD []).length ≠ 3000)
    {tr : Trace (machine E)} {c : Config E} (hr : (initial E nCtx path).Run tr c) :
    c.data.state.prefixSnapshots kSwarmkvAgentBWatermark = none ∧
      c.threads .main ≠ .run (.ret ()) ∧
      (agentBWoken tr = true → (∀ o, c.AtOp .main o → Unforked (.op o)) ∧
        ∀ e, c.threads .main = .run (.throw e) →
          e = .missingPrefixSnapshot kSwarmkvAgentBWatermark) := by
  have hstart : ∀ i, (unfiled i).Meets ((initial E nCtx path).threads i).prog (Ends i)
      (unfiled i).start := program_unfiled hlen
  have hwatch := hr.observe (A := unfiled)
    (R := fun _ (c : Config E) => c.data.state.prefixSnapshots kSwarmkvAgentBWatermark = none)
    hstart rfl (fun {tr c e c'} _ hnone he hok => ⟨?_, ?_⟩) fun _ hnone hs => hs.data ▸ hnone
  · refine ⟨hwatch.1, fun hret => (hwatch.2.of_ret hret rfl).1 rfl, fun hwoken => ?_⟩
    rw [← state_unfiled] at hwoken
    refine ⟨fun o hat => (hwatch.2.ok_of_atOp hat).2 rfl hwoken, fun e hthrow => ?_⟩
    exact Except.error.inj ((hwatch.2.of_throw hthrow rfl).2 hwoken)
  · cases he with
    | @op i o k x r d ht hx =>
      cases o with
      | load =>
        simp only [exec, Option.some.injEq, Prod.mk.injEq] at hx
        obtain ⟨rfl, -⟩ := hx
        exact hnone
      | _ => trivial
    | _ => trivial
  · obtain hsame | ⟨i, o, r, x, rfl, -, hx⟩ := he.data
    · rw [hsame]
      exact hnone
    · obtain heq | ⟨t, data, rfl, heq⟩ := exec_prefixSnapshots hx
      · rw [heq]
        exact hnone
      · rw [heq, Function.update_of_ne fun ht => hok.1 data (by rw [ht])]
        exact hnone

/-- A document of 3500 tokens, when the second branch is past its wait. -/
theorem never_returns_toy :
    let c := (initial (Toy.muteEngine 3500) 4096 "base_doc.txt").after Toy.wakeBoth
    ∃ tr, (initial (Toy.muteEngine 3500) 4096 "base_doc.txt").Run tr c ∧ agentBWoken tr = true ∧
      c.threads .main ≠ .run (.ret ()) ∧ ∀ o, c.AtOp .main o → Unforked (.op o) := by
  have hrun := Config.run_after (c := initial (Toy.muteEngine 3500) 4096 "base_doc.txt")
    (s := Toy.wakeBoth) (by decide +kernel)
  have hnever := never_returns (by decide +kernel) hrun
  have hwoken : agentBWoken ((initial (Toy.muteEngine 3500) 4096 "base_doc.txt").traceAfter []
      Toy.wakeBoth) = true := by decide +kernel
  exact ⟨_, hrun, hwoken, hnever.2.1, (hnever.2.2 hwoken).1⟩

end SwarmKV.Benchmark
