import SwarmKV.Spec.WorkerRules
import SwarmKV.Spec.Graph

/-!
# Who frees what

The observer of this module watches one call of `execute()`. It knows the context and the
batch the call has, of which there is at most one at a time, and accepts only the use of
these two. It also looks at the answers the call gets: `Custody.unhandled` says which of
them make the code throw at a point where nothing frees the context that it has.
-/

namespace SwarmKV

open Monitor

/-- The text of a node can be read. -/
def Node.readable (E : Engine) : Node → Bool
  | .prefill node => (documentText E node.sourceDocumentPath).isSome
  | .analytical _ => true

/-- The text that a node tokenizes, if it can be read. -/
def Node.text (E : Engine) : Node → String
  | .prefill node => (documentText E node.sourceDocumentPath).getD ""
  | .analytical node => node.branchPrompt

/-- The allocations that the tokenization of a text makes when none of them fails. -/
def tokenizeAllocs (E : Engine) (text : String) : Nat :=
  if (E.llamaTokenize text (toInt32 text.utf8ByteSize)
    (toInt32 (text.utf8ByteSize + 8 : Nat))).1 < 0 then 2 else 1

/-- What a call of `execute()` has, and what it has been told. -/
structure Custody where
  /-- Its context. -/
  live : Option Nat := none
  /-- Its batch. -/
  batch : Option Nat := none
  /-- The allocations since it has its context. -/
  allocs : Nat := 0
  /-- The export size it has asked for. -/
  asked : Nat := 0
  /-- The snapshots it has filed. -/
  filed : List Int := []
  /-- It has been given an answer that it does not handle. -/
  exposed : Bool := false

namespace Custody

/-- A branch checks its budget, under a handler that frees the context. -/
def inBudgetCheck (E : Engine) (node : Node) (s : Custody) : Bool :=
  !node.isPrefillProvider && s.batch.isNone && decide (tokenizeAllocs E (node.text E) ≤ s.allocs)

/-- The answer makes the code throw while it has a context, and nothing frees the context:
    there is no staging buffer to bind, or the document, which is read next, cannot be; the text
    cannot be tokenized, or an allocation fails, outside the budget check; and in a prefiller, a
    batch cannot be decoded, the export does not fit, or the restored snapshot is not consumed
    completely. -/
def unhandled (E : Engine) (node : Node) (s : Custody) : (a : Action sig) → a.Res → Bool
  | .op .load, r => s.live.isSome &&
    ((r : PipelineState).materializedBranchBuffer.isNone || !node.readable E)
  | .op .allocate, r => s.live.isSome && !s.inBudgetCheck E node &&
    (!r || (tokensOf E (node.text E)).isNone)
  | .op (.llamaDecode _ _), r => node.isPrefillProvider && !r
  | .op (.bufferSize _), r => s.live.isSome && decide ((r : Nat) < s.asked)
  | .op (.llamaStateSeqSetData _ _ n _), r => node.isPrefillProvider && decide ((r : Nat) ≠ n)
  | _, _ => false

/-- What the call has after an action. -/
def advance (s : Custody) : (a : Action sig) → a.Res → Custody
  | .op .llamaInitFromModel, r => if Option.isSome r then { s with live := r, allocs := 0 } else s
  | .op (.llamaFree _), _ => { s with live := none }
  | .op .llamaBatchInit, r => { s with batch := some r }
  | .op (.llamaBatchFree _), _ => { s with batch := none }
  | .op .allocate, _ => { s with allocs := s.allocs + 1 }
  | .op (.llamaStateSeqGetSize _ _), r => { s with asked := r }
  | .op (.putSnapshot t _), _ => { s with filed := t :: s.filed }
  | _, _ => s

/-- What the watch knows after an action. -/
def next (E : Engine) (node : Node) (s : Custody) (a : Action sig) (r : a.Res) : Custody :=
  { s.advance a r with exposed := s.exposed || s.unhandled E node a r }

/-- The call uses and frees only what it has, and takes nothing new before. -/
def accepts (s : Custody) : Action sig → Prop
  | .op .llamaInitFromModel => s.live = none
  | .op (.llamaFree h) => s.live = some h
  | .op .llamaBatchInit => s.batch = none
  | .op (.llamaBatchFree b) => s.batch = some b
  | .op (.llamaDecode h b) => s.live = some h ∧ s.batch = some b.id
  | .op (.llamaStateGetSize h _) => s.live = some h
  | .op (.llamaStateSeqGetSize h _) => s.live = some h
  | .op (.llamaStateSeqGetData h _ _ _) => s.live = some h
  | .op (.llamaStateSeqSetData h _ _ _) => s.live = some h
  | _ => True

/-- The staging buffer and the milestones stay what they are, and so does what has been filed; a
    batch without tokens is not decoded. -/
def expects (staging : Option Nat) (milestones : List Int) (s : Custody) :
    (a : Action sig) → a.Res → Prop
  | .op .load, r => (r : PipelineState).materializedBranchBuffer = staging ∧
    (r : PipelineState).snapshotMilestones = milestones ∧
    ∀ t ∈ s.filed, ((r : PipelineState).prefixSnapshots t).isSome
  | .op (.llamaDecode _ batch), r => r = true → 0 < batch.nTokens
  | _, _ => True

/-- The call has nothing. -/
structure Bare (s : Custody) : Prop where
  live : s.live = none
  batch : s.batch = none
  exposed : s.exposed = false

/-- The call has context `h`, and no batch. -/
structure Has (h : Nat) (s : Custody) : Prop where
  live : s.live = some h
  batch : s.batch = none
  exposed : s.exposed = false

/-- The call has context `h` and batch `b`. -/
structure HasBoth (h b : Nat) (s : Custody) : Prop where
  live : s.live = some h
  batch : s.batch = some b
  exposed : s.exposed = false

/-- A call that is over has nothing, unless it was given an answer that it does not handle. -/
structure Ended (s : Custody) : Prop where
  live : s.exposed = s.live.isSome
  batch : s.exposed = false → s.batch = none

theorem Bare.ended {s : Custody} (h : s.Bare) : s.Ended :=
  ⟨by rw [h.live, h.exposed]; rfl, fun _ => h.batch⟩

theorem ended_of_exposed {s : Custody} (hlive : s.live.isSome) (hexposed : s.exposed = true) :
    s.Ended :=
  ⟨by rw [hlive, hexposed], fun h => by rw [hexposed] at h; cases h⟩

end Custody

/-- The watch over a call of the node's `execute()`. -/
def custodyWatch (E : Engine) (node : Node) (staging : Option Nat) (milestones : List Int) :
    Observer sig Custody where
  start := {}
  next := Custody.next E node
  ok := Custody.accepts
  ans := Custody.expects staging milestones

namespace Custody

variable {E : Engine} {node : Node} {staging : Option Nat} {milestones : List Int}
  {I : Custody → Prop} {h b : Nat}

/-! ## Code that leaves contexts and batches alone -/

/-- The action has nothing to do with what the watch knows. -/
def neutral : Action sig → Bool
  | .op .load => false
  | .op .allocate => false
  | .op .llamaInitFromModel => false
  | .op (.llamaFree _) => false
  | .op .llamaBatchInit => false
  | .op (.llamaBatchFree _) => false
  | .op (.llamaDecode _ _) => false
  | .op (.llamaStateGetSize _ _) => false
  | .op (.llamaStateSeqGetSize _ _) => false
  | .op (.llamaStateSeqGetData _ _ _ _) => false
  | .op (.llamaStateSeqSetData _ _ _ _) => false
  | .op (.bufferSize _) => false
  | .op (.putSnapshot _ _) => false
  | _ => true

/-- An answer that is handled only moves the books on. -/
theorem next_handled {s : Custody} {a : Action sig} {r : a.Res}
    (hr : s.unhandled E node a r = false) :
    s.next E node a r = { s.advance a r with exposed := s.exposed } := by
  simp only [next, hr, Bool.or_false]

theorem keeps_neutral {a : Action sig} (ha : neutral a = true) :
    (custodyWatch E node staging milestones).Keeps I a := by
  intro s hs
  have hok : s.accepts a ∧ ∀ r, s.next E node a r = s := by
    cases a with
    | op o =>
      cases o <;> first
        | exact ⟨trivial, fun r => next_handled rfl⟩
        | exact absurd ha Bool.false_ne_true
    | _ => exact ⟨trivial, fun r => next_handled rfl⟩
  refine ⟨hok.1, fun r _ => ?_⟩
  show I (s.next E node a r)
  rw [hok.2 r]
  exact hs

/-- What a call can do without a context that answers no more than it asks. -/
def plain : Action sig → Bool
  | .op .load => true
  | .op .allocate => true
  | .op (.bufferSize _) => true
  | a => neutral a

/-- A call without a context can read, copy and allocate. -/
theorem keeps_bare {a : Action sig} (ha : plain a = true) :
    (custodyWatch E node staging milestones).Keeps Bare a := by
  have handled : ∀ (s : Custody) (a : Action sig) (r : a.Res), s.exposed = false →
      s.unhandled E node a r = false → (s.advance a r).live = none →
      (s.advance a r).batch = none → Bare (s.next E node a r) := by
    intro s a r hexposed hr hlive hbatch
    rw [next_handled hr]
    exact ⟨hlive, hbatch, hexposed⟩
  cases a with
  | op o =>
    cases o with
    | load =>
      exact fun s hs => ⟨trivial, fun r _ => handled s (.op .load) r hs.exposed
        (by simp [unhandled, hs.live]) hs.live hs.batch⟩
    | allocate =>
      exact fun s hs => ⟨trivial, fun r _ => handled s (.op .allocate) r hs.exposed
        (by simp [unhandled, hs.live]) hs.live hs.batch⟩
    | bufferSize b =>
      exact fun s hs => ⟨trivial, fun r _ => handled s (.op (.bufferSize b)) r hs.exposed
        (by simp [unhandled, hs.live]) hs.live hs.batch⟩
    | _ => first | exact keeps_neutral rfl | exact absurd ha Bool.false_ne_true
  | _ => exact keeps_neutral rfl

theorem HostAction.plain {a : Action sig} (h : HostAction a) : plain a = true := by
  cases h <;> rfl

theorem LookupAction.plain {a : Action sig} (h : LookupAction a) : plain a = true := by
  cases h <;> rfl

theorem CopyAction.plain {a : Action sig} (h : CopyAction a) : plain a = true := by
  cases h <;> rfl

/-- Code of a call without a context. -/
theorem bare_uses {α : Type} {p : Prog α} {U : Action sig → Prop} (hp : p.Uses U)
    (hU : ∀ a, U a → plain a = true) :
    (custodyWatch E node staging milestones).Spec Bare p (fun _ => Bare) fun _ => Ended :=
  .err (.of_uses hp fun a ha => keeps_bare (hU a ha)) fun _ _ hs => hs.ended

/-- A neutral action. -/
theorem op_neutral {o : Op} {X : Error → Custody → Prop} (ho : neutral (.op o) = true) :
    (custodyWatch E node staging milestones).Spec I (perform o) (fun _ => I) X :=
  .op fun s hs => ⟨(keeps_neutral ho s hs).1, (keeps_neutral ho s hs).2⟩

theorem await_neutral {w : Cond} {X : Error → Custody → Prop} :
    (custodyWatch E node staging milestones).Spec I (await w) (fun _ => I) X :=
  .await fun s hs => ⟨(keeps_neutral (a := .wait w) rfl s hs).1,
    (keeps_neutral (a := .wait w) rfl s hs).2 ()⟩

theorem notifyAll_neutral {v : Cv} {X : Error → Custody → Prop} :
    (custodyWatch E node staging milestones).Spec I (notifyAll v) (fun _ => I) X :=
  .notifyAll fun s hs => ⟨(keeps_neutral (a := .notify v) rfl s hs).1,
    (keeps_neutral (a := .notify v) rfl s hs).2 ()⟩

/-- An action with an answer that is handled. -/
theorem op_handled {o : Op} {P : Custody → Prop} {Q : o.Res → Custody → Prop}
    {X : Error → Custody → Prop} (hok : ∀ s, P s → s.accepts (.op o))
    (hr : ∀ s r, P s → s.unhandled E node (.op o) r = false)
    (hQ : ∀ s r, P s → s.expects staging milestones (.op o) r →
      Q r { s.advance (.op o) r with exposed := s.exposed }) :
    (custodyWatch E node staging milestones).Spec P (perform o) Q X := by
  refine .op fun s hs => ⟨hok s hs, fun r hans => ?_⟩
  show Q r (s.next E node (.op o) r)
  rw [next_handled (hr s r hs)]
  exact hQ s r hs hans

/-- The context is freed. -/
theorem llamaFree_custody {X : Error → Custody → Prop} (hI : ∀ s, I s → Has h s) :
    (custodyWatch E node staging milestones).Spec I (perform (.llamaFree h)) (fun _ => Bare) X :=
  op_handled (fun s hs => (hI s hs).live) (fun _ _ _ => rfl)
    fun s _ hs _ => ⟨rfl, (hI s hs).batch, (hI s hs).exposed⟩

/-- A context is created, or not. -/
theorem llamaInitFromModel_custody {X : Error → Custody → Prop} :
    (custodyWatch E node staging milestones).Spec Bare (perform .llamaInitFromModel)
      (fun r s => match r with
        | none => Bare s
        | some h => Has h s ∧ s.allocs = 0) X := by
  refine op_handled (fun s hs => hs.live) (fun _ _ _ => rfl) fun s r hs _ => ?_
  cases r with
  | none => exact ⟨hs.live, hs.batch, hs.exposed⟩
  | some h => exact ⟨⟨rfl, hs.batch, hs.exposed⟩, rfl⟩

/-- The timing is recorded when nothing is left to free. -/
theorem recordTiming_custody (key : String) (t₀ : Int) :
    (custodyWatch E node staging milestones).Spec Bare (PipelineState.recordTiming key t₀)
      (fun _ => Ended) fun _ => Ended :=
  .post (bare_uses (PipelineState.recordTiming_uses key t₀) fun _ ha => HostAction.plain ha)
    fun _ _ hs => hs.ended

/-- The context is bound: there is a staging buffer, or a branch buffer in its place. -/
theorem bindContiguousCache_custody {target : Option Nat} :
    (custodyWatch E node staging milestones).Spec
      (fun s => (target.isSome → I s) ∧ (target = none → s.Ended))
      (KVHandoff.bindContiguousCache (some h) target) (fun _ => I) fun _ => Ended := by
  cases target with
  | none => exact .throw fun s hs => hs.2 rfl
  | some b => exact .ret fun s hs => hs.1 rfl

/-- The blackboard is read, with a context. -/
theorem load_custody {X : Error → Custody → Prop} {a : Nat} :
    (custodyWatch E node staging milestones).Spec (fun s => Has h s ∧ s.allocs = a) (perform .load)
      (fun r s => (r.materializedBranchBuffer.isSome → node.readable E = true →
          Has h s ∧ s.allocs = a) ∧
        (r.materializedBranchBuffer = none ∨ node.readable E = false → s.Ended)) X := by
  refine .op fun s hs => ⟨trivial, fun r _ => ?_⟩
  obtain ⟨hhas, hallocs⟩ := hs
  have hlive : (s.next E node (.op .load) r).live = some h := hhas.live
  have hexposed : (s.next E node (.op .load) r).exposed =
      ((r : PipelineState).materializedBranchBuffer.isNone || !node.readable E) := by
    show (s.exposed || (s.live.isSome &&
      ((r : PipelineState).materializedBranchBuffer.isNone || !node.readable E))) = _
    rw [hhas.exposed, hhas.live]
    rfl
  refine ⟨fun hsome hread => ⟨⟨hlive, hhas.batch, ?_⟩, hallocs⟩, fun hor => ended_of_exposed ?_ ?_⟩
  · show (s.next E node (.op .load) r).exposed = false
    rw [hexposed, hread, Option.isNone_eq_false_iff.mpr hsome]
    rfl
  · show (s.next E node (.op .load) r).live.isSome
    rw [hlive]
    rfl
  · show (s.next E node (.op .load) r).exposed = true
    rw [hexposed]
    obtain hnone | hread := hor
    · rw [hnone]
      rfl
    · rw [hread, Bool.not_false, Bool.or_true]

/-! ## Tokenization -/

/-- An allocation with a context, outside the budget check. -/
theorem alloc_custody {P Q : Custody → Prop} (htext : (tokensOf E (node.text E)).isSome)
    (hP : ∀ s, P s → s.live.isSome ∧ s.exposed = false ∧ s.inBudgetCheck E node = false)
    (hQ : ∀ s, P s → Q { s with allocs := s.allocs + 1 }) :
    (custodyWatch E node staging milestones).Spec P alloc (fun _ => Q) fun _ => Ended := by
  refine .bind (Q := fun r s => if r = true then Q s else s.Ended) (.op fun s hs => ?_) fun r =>
    .ite (fun hr => .ret fun s hs => by rwa [if_pos hr] at hs)
      fun hr => .throw fun s hs => by rwa [if_neg hr] at hs
  obtain ⟨hlive, hexposed, hout⟩ := hP s hs
  refine ⟨trivial, fun r _ => ?_⟩
  have hun : s.unhandled E node (.op .allocate) r = !r := by
    simp [unhandled, hlive, hout, Option.isNone_eq_false_iff.mpr htext]
  cases r with
  | true =>
    rw [if_pos rfl]
    show Q (s.next E node (.op .allocate) true)
    rw [next_handled hun]
    exact hQ s hs
  | false =>
    refine if_neg Bool.false_ne_true ▸ ended_of_exposed hlive ?_
    show (s.exposed || s.unhandled E node (.op .allocate) false) = true
    rw [hun, hexposed]
    rfl

/-- A text without tokens: the first allocation is the last one that could have been handled. -/
private theorem alloc_untokenizable (htext : tokensOf E (node.text E) = none) :
    (custodyWatch E node staging milestones).Spec
      (fun s => s.live.isSome ∧ (s.exposed = true ∨ s.inBudgetCheck E node = false)) alloc
      (fun _ s => s.live.isSome ∧ (s.exposed = true ∨ s.inBudgetCheck E node = false) ∧
        s.exposed = true) fun _ => Ended := by
  refine .bind (Q := fun _ s => s.live.isSome ∧ s.exposed = true) (.op fun s hs => ?_) fun r =>
    .ite (fun _ => .ret fun s hs => ⟨hs.1, .inl hs.2, hs.2⟩)
      fun _ => .throw fun s hs => ended_of_exposed hs.1 hs.2
  obtain ⟨hlive, hor⟩ := hs
  refine ⟨trivial, fun r _ => ⟨hlive, ?_⟩⟩
  show (s.exposed || s.unhandled E node (.op .allocate) r) = true
  obtain hexposed | hout := hor
  · rw [hexposed]
    rfl
  · simp [unhandled, hlive, hout, htext]

/-- The text of the node is tokenized, or the call ends. -/
theorem tokenizeWith_custody (failure : Error) :
    (custodyWatch E node staging milestones).Spec (fun s => Has h s ∧ s.allocs = 0)
      (tokenizeWith failure E (node.text E))
      (fun tokens s => (Has h s ∧ tokenizeAllocs E (node.text E) ≤ s.allocs) ∧
        tokensOf E (node.text E) = some tokens) fun _ => Ended := by
  have hout : ∀ s : Custody, s.allocs < tokenizeAllocs E (node.text E) →
      s.inBudgetCheck E node = false := by
    intro s hs
    simp [inBudgetCheck, Nat.not_le.mpr hs]
  have hpos : 0 < tokenizeAllocs E (node.text E) := by
    unfold tokenizeAllocs
    split <;> omega
  cases htext : tokensOf E (node.text E) with
  | none =>
    -- whatever happens, the call throws, and has not handled it
    have hstart : ∀ s, Has h s ∧ s.allocs = 0 →
        s.live.isSome ∧ (s.exposed = true ∨ s.inBudgetCheck E node = false) := by
      intro s hs
      exact ⟨by rw [hs.1.live]; rfl, .inr (hout s (by omega))⟩
    unfold tokenizeWith
    refine .bind (.pre (alloc_untokenizable htext) hstart)
      fun _ => ?_
    refine .ite (fun hneg => ?_) fun hnneg => ?_
    · refine .bind (.pre (alloc_untokenizable htext) fun _ hs => ⟨hs.1, hs.2.1⟩) fun _ =>
        .ite (fun _ => ?_) fun hnneg => ?_
      · exact .throw fun s hs => ended_of_exposed hs.1 hs.2.2
      · simp only [tokensOf, hneg, if_true, hnneg, if_false] at htext
        cases htext
    · simp only [tokensOf, hnneg, if_false] at htext
      cases htext
  | some tokens =>
    have hsome : (tokensOf E (node.text E)).isSome := by rw [htext]; rfl
    unfold tokenizeWith
    -- the first vector
    refine .bind (Q := fun _ s => Has h s ∧ s.allocs = 1) (alloc_custody hsome (fun s hs => ?_)
      fun s hs => ?_) fun _ => .ite (fun hneg => ?_) fun hnneg => ?_
    · exact ⟨by rw [hs.1.live]; rfl, hs.1.exposed, hout s (by omega)⟩
    · exact ⟨⟨hs.1.live, hs.1.batch, hs.1.exposed⟩, by rw [hs.2]⟩
    · -- it is too small: the second one
      have htwo : tokenizeAllocs E (node.text E) = 2 := if_pos hneg
      refine .bind (Q := fun _ s => Has h s ∧ s.allocs = 2) (alloc_custody hsome (fun s hs => ?_)
        fun s hs => ?_) fun _ => .ite (fun hneg' => ?_) fun hnneg => .ret fun s hs => ?_
      · exact ⟨by rw [hs.1.live]; rfl, hs.1.exposed, hout s (by omega)⟩
      · exact ⟨⟨hs.1.live, hs.1.batch, hs.1.exposed⟩, by rw [hs.2]⟩
      · simp only [tokensOf, hneg, if_true, hneg'] at htext
        cases htext
      · refine ⟨⟨hs.1, by omega⟩, ?_⟩
        rw [← htext]
        simp only [tokensOf, hneg, if_true, hnneg, if_false]
    · have hone : tokenizeAllocs E (node.text E) = 1 := if_neg hnneg
      refine .ret fun s hs => ⟨⟨hs.1, by omega⟩, ?_⟩
      rw [← htext]
      simp only [tokensOf, hnneg, if_false]

/-! ## The branch -/

section Branch

variable {branch : AnalyticalNode} {ctx : OrchestratorContext}

/-- The disposable context of a size query. -/
private theorem getRequiredKvSize_custody (nCtx : Nat) :
    (custodyWatch E node staging milestones).Spec Bare (MemoryPool.getRequiredKvSize nCtx)
      (fun _ => Bare) fun _ => Ended := by
  unfold MemoryPool.getRequiredKvSize
  refine .bind llamaInitFromModel_custody fun r => ?_
  cases r with
  | none => exact .throw fun s hs => Bare.ended hs
  | some h =>
    refine .bind (Q := fun _ => Has h) ?_ fun sz => .bind (llamaFree_custody fun _ hs => hs)
      fun _ => .ret fun _ hs => hs
    exact op_handled (fun s hs => hs.1.live) (fun _ _ _ => rfl)
      fun s _ hs _ => ⟨hs.1.live, hs.1.batch, hs.1.exposed⟩

private theorem materializeFork_custody (fork : AnalyticalNode.Fork) :
    (custodyWatch E node staging milestones).Spec Bare (branch.materializeFork ctx fork)
      (fun _ => Bare) fun _ => Ended := by
  unfold AnalyticalNode.materializeFork
  refine .ite (fun _ => ?_) fun _ => .ret fun _ hs => hs
  cases fork.data with
  | none => exact .throw fun _ hs => Bare.ended hs
  | some data =>
    have hpool : (custodyWatch E node staging milestones).Spec Bare
        (MemoryPool.allocateBranchCache ctx.nCtx) (fun _ => Bare) fun _ => Ended := by
      refine .withLock_of_keeps (keeps_neutral rfl) (.bind (getRequiredKvSize_custody ctx.nCtx)
        fun size => .bind (op_neutral rfl) fun r => ?_) (fun _ => keeps_neutral rfl)
        fun _ => keeps_neutral rfl
      cases r with
      | none => exact .throw fun _ hs => Bare.ended hs
      | some b =>
        refine .bind (bare_uses (alloc_uses (U := (· = .op .allocate)) rfl) ?_) fun _ =>
          .bind (op_neutral rfl) fun _ => .ret fun _ hs => hs
        rintro a rfl
        rfl
    have hread : (custodyWatch E node staging milestones).Spec Bare (perform .load)
        (fun _ => Bare) fun _ => Ended :=
      .op fun s hs => keeps_bare rfl s hs
    refine .bind hpool fun b => .bind hread fun r => .ite (fun _ => ?_) fun _ => ?_
    · exact .bind (bare_uses (KVHandoff.materializeBranchCache_uses _ _ _)
        fun _ ha => CopyAction.plain ha) fun _ => .ret fun _ hs => hs
    · refine .bind (Q := fun _ => Bare) (.op fun s hs => keeps_bare rfl s hs) fun size =>
        .ite (fun _ => .throw fun _ hs => Bare.ended hs) fun _ => ?_
      exact .bind (op_neutral rfl) fun _ => .bind (op_neutral rfl) fun _ => .ret fun _ hs => hs

/-- The fork is restored, or the context is freed again. -/
private theorem restoreFork_custody (fork : AnalyticalNode.Fork) (branchBuf : Option Nat) :
    (custodyWatch E (.analytical branch) staging milestones).Spec
      (fun s => Has h s ∧ s.allocs = 0) (AnalyticalNode.restoreFork h fork branchBuf)
      (fun _ s => Has h s ∧ s.allocs = 0) fun _ => Ended := by
  cases branchBuf with
  | none => exact .ret fun _ hs => hs
  | some b =>
    refine .bind (Q := fun _ s => Has h s ∧ s.allocs = 0) (op_handled (fun s hs => hs.1.live)
      (fun _ _ _ => rfl) fun s _ hs _ => hs) fun n => .ite (fun _ => ?_) fun _ => .ret fun _ hs => hs
    exact .bind (llamaFree_custody fun _ hs => hs.1) fun _ => .throw fun _ hs => Bare.ended hs

/-- The prompt passes the checks, or the context is gone, or the failure was not handled. -/
private theorem preparePrompt_custody (branchBuf : Option Nat) (fork : AnalyticalNode.Fork) :
    (custodyWatch ctx.engine (.analytical branch) staging milestones).Spec
      (fun s => Has h s ∧ s.allocs = 0) (branch.preparePrompt ctx h branchBuf fork)
      (fun _ s => Has h s ∧ (tokensOf ctx.engine branch.branchPrompt).isSome) fun _ => Ended := by
  unfold AnalyticalNode.preparePrompt
  have htarget : (custodyWatch ctx.engine (.analytical branch) staging milestones).Spec
      (fun s => Has h s ∧ s.allocs = 0) (AnalyticalNode.bindTargetOf branchBuf)
      (fun target s => (target.isSome → Has h s ∧ s.allocs = 0) ∧ (target = none → s.Ended))
      fun _ => Ended := by
    cases branchBuf with
    | none =>
      exact .bind load_custody fun r => .ret fun _ hs =>
        ⟨fun hsome => hs.1 hsome rfl, fun hnone => hs.2 (.inl hnone)⟩
    | some b => exact .ret fun s hs => ⟨fun _ => hs, fun hnone => by cases hnone⟩
  have htokenize : (custodyWatch ctx.engine (.analytical branch) staging milestones).Spec
      (fun s => Has h s ∧ s.allocs = 0)
      (AnalyticalNode.tokenizeText ctx.engine branch.branchPrompt)
      (fun tokens s => (Has h s ∧ tokenizeAllocs ctx.engine branch.branchPrompt ≤ s.allocs) ∧
        tokensOf ctx.engine branch.branchPrompt = some tokens) fun _ => Ended :=
    tokenizeWith_custody _
  -- bound, tokenized and checked
  refine .bind htarget fun target => .bind bindContiguousCache_custody fun _ => ?_
  refine .bind htokenize fun tokens => .assume fun htext => ?_
  refine .ite (fun _ => ?_) fun _ => ?_
  · exact .bind (llamaFree_custody fun _ hs => hs.1) fun _ => .throw fun _ hs => Bare.ended hs
  · -- a failure of the budget check is caught, and costs the branch its context
    have hcheck : ∀ a, HostAction a → (custodyWatch ctx.engine (.analytical branch) staging
        milestones).Keeps (fun s => Has h s ∧
          tokenizeAllocs ctx.engine branch.branchPrompt ≤ s.allocs) a := by
      intro a ha
      cases ha with
      | allocate =>
        refine fun s hs => ⟨trivial, fun r _ => ?_⟩
        have hin : s.inBudgetCheck ctx.engine (.analytical branch) = true := by
          simp [inBudgetCheck, Node.isPrefillProvider, Node.text, hs.1.batch, hs.2]
        have hun : s.unhandled ctx.engine (.analytical branch) (.op .allocate) r = false := by
          simp [unhandled, hin]
        show (Has h (s.next ctx.engine (.analytical branch) (.op .allocate) r) ∧ _)
        rw [next_handled hun]
        exact ⟨⟨hs.1.live, hs.1.batch, hs.1.exposed⟩, Nat.le_succ_of_le hs.2⟩
      | _ => exact keeps_neutral rfl
    refine .bind (Q := fun _ s => Has h s) (.catch' (.post (.of_uses
      (swarmkvValidateContextBudget_uses _ _ _ _) hcheck) fun _ _ hs => hs.1) fun e => ?_) fun _ =>
      .ret fun s hs => ⟨hs, by rw [htext]; rfl⟩
    exact .bind (llamaFree_custody fun _ hs => hs.1) fun _ => .throw fun _ hs => Bare.ended hs

/-- The prompt is decoded; only the entry of its output can fail with the context still there. -/
private theorem decodePrompt_custody (tokens : List LlamaToken) (fork : AnalyticalNode.Fork) :
    (custodyWatch ctx.engine (.analytical branch) staging milestones).Spec
      (fun s => Has h s ∧ (tokensOf ctx.engine branch.branchPrompt).isSome)
      (branch.decodePrompt ctx h tokens fork) (fun _ => Bare) fun _ => Ended := by
  refine .assume fun htext => ?_
  have hfree : ∀ id, (custodyWatch ctx.engine (.analytical branch) staging milestones).Spec
      (HasBoth h id) (perform (.llamaBatchFree id)) (fun _ => Has h) fun _ => Ended :=
    fun id => op_handled (fun s hs => hs.batch) (fun _ _ _ => rfl)
      fun s _ hs _ => ⟨hs.live, rfl, hs.exposed⟩
  unfold AnalyticalNode.decodePrompt
  refine .bind (Q := fun id => HasBoth h id) (op_handled (fun s hs => hs.batch) (fun _ _ _ => rfl)
    fun s id hs _ => ⟨hs.live, rfl, hs.exposed⟩) fun id => ?_
  refine .bind (Q := fun _ => HasBoth h id) (op_handled (fun s hs => ⟨hs.live, hs.batch⟩)
    (fun _ _ _ => rfl) fun s _ hs _ => ⟨hs.live, hs.batch, hs.exposed⟩) fun ok =>
    .ite (fun _ => ?_) fun _ => ?_
  · refine .bind (Q := fun _ => HasBoth h id) (.withLock_of_keeps (keeps_neutral rfl)
      (.bind (alloc_custody htext (fun s hs => ?_) fun s hs => ?_) fun _ => op_neutral rfl)
      (fun _ => keeps_neutral rfl) fun _ => keeps_neutral rfl) fun _ => ?_
    · exact ⟨by rw [hs.live]; rfl, hs.exposed, by simp [inBudgetCheck, hs.batch]⟩
    · exact ⟨hs.live, hs.batch, hs.exposed⟩
    · exact .bind (hfree id) fun _ => llamaFree_custody fun _ hs => hs
  · exact .bind (hfree id) fun _ => .bind (llamaFree_custody fun _ hs => hs) fun _ =>
      .throw fun _ hs => Bare.ended hs

/-- A call of `AnalyticalNode::execute`. -/
theorem branch_custody :
    (custodyWatch ctx.engine (.analytical branch) staging milestones).Spec Bare
      (branch.execute ctx) (fun _ => Ended) fun _ => Ended := by
  refine .withLock_of_keeps (keeps_neutral rfl) ?_ (fun _ => keeps_neutral rfl)
    fun _ => keeps_neutral rfl
  unfold AnalyticalNode.forkAndDecode
  refine .bind (op_neutral rfl) fun t₀ => .ite (fun _ => .throw fun _ hs => Bare.ended hs) fun _ => ?_
  refine .bind (bare_uses AnalyticalNode.chooseFork_uses fun _ ha => LookupAction.plain ha)
    fun fork => .bind (materializeFork_custody fork) fun branchBuf => ?_
  refine .bind (op_neutral rfl) fun _ => .bind llamaInitFromModel_custody fun r => ?_
  cases r with
  | none => exact .throw fun _ hs => Bare.ended hs
  | some h =>
    refine .bind (restoreFork_custody fork branchBuf) fun _ => ?_
    refine .bind (preparePrompt_custody branchBuf fork) fun tokens => ?_
    refine .bind (decodePrompt_custody tokens fork) fun _ => ?_
    have hend : (custodyWatch ctx.engine (.analytical branch) staging milestones).Spec Bare
        (PipelineState.recordTiming ctx.nodeName t₀) (fun _ => Ended) fun _ => Ended :=
      recordTiming_custody ctx.nodeName t₀
    refine .ite (fun _ => .bind (bare_uses (PipelineState.signalMilestoneConsumed_uses _) ?_)
      fun _ => hend) fun _ => hend
    intro a ha
    cases ha <;> rfl

end Branch

/-! ## The prefiller -/

section Prefill

variable {prefill : PrefillNode} {ctx : OrchestratorContext} {t : Nat}

/-- There is a staging buffer, and the document can be read. -/
private def CanStart (E : Engine) (prefill : PrefillNode) (staging : Option Nat) : Prop :=
  staging.isSome ∧ (Node.prefill prefill).readable E = true

/-- An allocation of a prefiller that has its tokens. -/
private theorem alloc_prefill {P : Custody → Prop} (hP : ∀ s, P s → Has h s)
    (hQ : ∀ s, P s → P { s with allocs := s.allocs + 1 })
    (htext : (tokensOf E ((Node.prefill prefill).text E)).isSome) :
    (custodyWatch E (.prefill prefill) staging milestones).Spec P alloc (fun _ => P)
      fun _ => Ended := by
  refine alloc_custody htext (fun s hs => ?_) hQ
  exact ⟨by rw [(hP s hs).live]; rfl, (hP s hs).exposed, rfl⟩

/-- The blackboard is read, and there is a staging buffer. -/
private theorem load_prefill {P : Custody → Prop} {X : Error → Custody → Prop}
    (hstart : CanStart E prefill staging)
    (hP : ∀ s r, P s → s.expects staging milestones (.op .load) r → I s) :
    (custodyWatch E (.prefill prefill) staging milestones).Spec P (perform .load)
      (fun r s => I s ∧ r.materializedBranchBuffer = staging ∧ r.snapshotMilestones = milestones ∧
        ∀ t ∈ s.filed, (r.prefixSnapshots t).isSome) X := by
  refine .op fun s hs => ⟨trivial, fun r hr => ?_⟩
  have hun : s.unhandled E (.prefill prefill) (.op .load) r = false := by
    have hsome : (r : PipelineState).materializedBranchBuffer.isSome := hr.1 ▸ hstart.1
    simp [unhandled, Option.isNone_eq_false_iff.mpr hsome, hstart.2]
  show I (s.next E (.prefill prefill) (.op .load) r) ∧ _ ∧ _ ∧
    ∀ t ∈ (s.next E (.prefill prefill) (.op .load) r).filed, _
  rw [next_handled hun]
  exact ⟨hP s r hs hr, hr.1, hr.2.1, hr.2.2⟩

/-- An export that does not fit is one the code does not handle. -/
private theorem exportPrefix_custody (hstart : CanStart E prefill staging)
    (htext : (tokensOf E ((Node.prefill prefill).text E)).isSome) :
    (custodyWatch E (.prefill prefill) staging milestones).Spec (Has h)
      (PipelineState.exportPrefix h) (fun _ => Has h) fun _ => Ended := by
  unfold PipelineState.exportPrefix
  refine .bind (load_prefill (I := Has h) hstart fun s r hs _ => hs) fun r => ?_
  split
  · exact .ret fun _ hs => hs.1
  · rename_i buffer hbuffer
    -- the call knows the size that it has asked for
    refine .bind (Q := fun need s => Has h s ∧ s.asked = need) (op_handled
      (fun s hs => hs.1.live) (fun _ _ _ => rfl) fun s need hs _ =>
        ⟨⟨hs.1.live, hs.1.batch, hs.1.exposed⟩, rfl⟩) fun need => ?_
    refine .bind (Q := fun cap s => if cap < need then s.Ended else Has h s) (.op fun s hs =>
      ⟨trivial, fun cap _ => ?_⟩) fun cap => .ite
        (fun hlt => .throw fun s hs => by rwa [if_pos hlt] at hs) fun hge => ?_
    · obtain ⟨hhas, rfl⟩ := hs
      have hun : s.unhandled E (.prefill prefill) (.op (.bufferSize buffer)) cap =
          decide ((cap : Nat) < s.asked) := by
        simp [unhandled, hhas.live]
      split
      · rename_i hlt
        refine ended_of_exposed (s := s.next E (.prefill prefill) (.op (.bufferSize buffer)) cap) ?_ ?_
        · show s.live.isSome
          rw [hhas.live]
          rfl
        · show (s.exposed || s.unhandled E (.prefill prefill) (.op (.bufferSize buffer)) cap) = true
          rw [hun, decide_eq_true hlt, Bool.or_true]
      · rename_i hge
        show Has h (s.next E (.prefill prefill) (.op (.bufferSize buffer)) cap)
        rw [next_handled (hun.trans (decide_eq_false hge))]
        exact hhas
    · simp only [if_neg hge]
      -- it fits: exported and copied
      refine .bind (Q := fun _ => Has h) (op_handled (fun s hs => hs.live) (fun _ _ _ => rfl)
        fun s _ hs _ => hs) fun nw => .ite (fun _ => ?_) fun _ => .ret fun _ hs => hs
      refine .bind (alloc_prefill (fun _ hs => hs) (fun s hs => ?_) htext) fun _ =>
        .bind (op_neutral rfl) fun _ => .ret fun _ hs => hs
      exact ⟨hs.live, hs.batch, hs.exposed⟩

/-- A commit; a milestone is filed. -/
private theorem commitWatermark_custody (hstart : CanStart E prefill staging)
    (htext : (tokensOf E ((Node.prefill prefill).text E)).isSome) :
    (custodyWatch E (.prefill prefill) staging milestones).Spec (Has h)
      (PipelineState.commitWatermark (some h) t)
      (fun _ s => Has h s ∧ ((t : Int) ∈ milestones → (t : Int) ∈ s.filed)) fun _ => Ended := by
  unfold PipelineState.commitWatermark
  refine .bind (op_neutral rfl) fun _ => .ite (fun hneg => absurd hneg (by omega)) fun _ => ?_
  refine .bind (Q := fun b s => Has h s ∧ (b = false → (t : Int) ∉ milestones))
    (.withLock_of_keeps (keeps_neutral rfl) ?_ (fun _ => keeps_neutral rfl)
      fun _ => keeps_neutral rfl) fun b => .ite (fun _ => ?_) fun hb => ?_
  · -- no milestone, or a value that is not exported
    refine .bind (load_prefill (I := Has h) hstart fun s r hs _ => hs) fun r => ?_
    refine .ite (fun _ => .ret fun s hs => ⟨hs.1, fun hb => by cases hb⟩) fun hno => ?_
    refine .bind (op_neutral rfl) fun _ => .bind notifyAll_neutral fun _ => .ret fun s hs =>
      ⟨hs.1, fun _ hm => hno ?_⟩
    rw [List.contains_iff_mem, hs.2.2.1]
    exact hm
  · refine .bind (.pre (exportPrefix_custody hstart htext) fun _ hs => hs.1) fun export' => ?_
    refine .withLock_of_keeps (keeps_neutral rfl) ?_ (fun _ => keeps_neutral rfl)
      fun _ => keeps_neutral rfl
    unfold PipelineState.publishExported
    refine .bind (op_neutral rfl) fun _ => .bind (op_neutral rfl) fun _ =>
      .bind (op_neutral rfl) fun _ => .bind (.post (load_prefill (I := Has h) (P := Has h)
        (X := fun _ => Ended) hstart fun s r hs _ => hs) fun _ _ hs => hs.1) fun r => ?_
    -- the snapshot is filed
    have hput : ∀ data, (custodyWatch E (.prefill prefill) staging milestones).Spec (Has h)
        (perform (.putSnapshot t data) >>= fun _ => notifyAll .watermarkCv)
        (fun _ s => Has h s ∧ ((t : Int) ∈ milestones → (t : Int) ∈ s.filed)) fun _ => Ended := by
      intro data
      exact .bind (op_handled (fun _ _ => trivial) (fun _ _ _ => rfl) fun s _ hs _ =>
        ⟨⟨hs.live, hs.batch, hs.exposed⟩, fun _ => List.mem_cons_self⟩) fun _ => notifyAll_neutral
    have hend := Observer.Spec.ite (c := export'.1 > 0) (fun _ => hput export'.2)
      fun _ => hput []
    refine .ite (fun _ => .bind (alloc_prefill (fun _ hs => hs) (fun s hs => ?_) htext)
      fun _ => hend) fun _ => hend
    exact ⟨hs.live, hs.batch, hs.exposed⟩
  · exact .ret fun s hs => ⟨hs.1, fun hm => absurd hm (hs.2 (by simpa using hb))⟩

/-- One batch after the other; if one cannot be decoded, it is freed but the context is not. -/
private theorem decodeTokenRange_custody {tokens : List LlamaToken} {offset count : Nat}
    (hlen : offset + count ≤ tokens.length) :
    (custodyWatch E (.prefill prefill) staging milestones).Spec (Has h)
      (PrefillNode.decodeTokenRange E h tokens offset count) (fun _ => Has h) fun _ => Ended := by
  refine PrefillNode.decodeLoop_spec_batch (I := fun _ => Has h) (B := fun id _ => HasBoth h id)
    (F := fun id s => s.live = some h ∧ s.batch = some id ∧ s.exposed = true) (X := Ended)
    hlen (fun _ _ _ hr => hr) (fun _ s hs => ⟨hs.batch, fun id _ => ?_⟩)
    (fun id _ s hs => ⟨hs.batch, fun r _ => ?_⟩)
    (fun id s hs => ⟨hs.2.1, fun r _ => ?_⟩) (fun cur k id s _ _ hs => ?_)
    (fun _ n cur id s _ _ hs => ?_) count offset count rfl le_rfl
  · show HasBoth h id (s.next E (.prefill prefill) (.op .llamaBatchInit) id)
    rw [next_handled rfl]
    exact ⟨hs.live, rfl, hs.exposed⟩
  · show Has h (s.next E (.prefill prefill) (.op (.llamaBatchFree id)) r)
    rw [next_handled rfl]
    exact ⟨hs.live, rfl, hs.exposed⟩
  · show Ended (s.next E (.prefill prefill) (.op (.llamaBatchFree id)) r)
    rw [next_handled rfl]
    refine ended_of_exposed ?_ hs.2.2
    show s.live.isSome
    rw [hs.1]
    rfl
  · refine ⟨⟨hs.live, hs.batch⟩, fun r _ => ⟨fun hr => ?_, fun hr => ⟨hs.live, hs.batch, ?_⟩⟩⟩
    · have hr : r = true := hr
      subst hr
      exact ⟨hs.live, hs.batch, by rw [← hs.exposed]; exact Bool.or_false _⟩
    · have hr : r = false := hr
      subst hr
      exact Bool.or_true _
  · -- a batch without tokens fails like any other
    exact ⟨⟨hs.live, hs.batch⟩, fun _ => ⟨hs.live, hs.batch, Bool.or_true _⟩⟩

private theorem prefillSlice_custody (hstart : CanStart E prefill staging)
    (htext : (tokensOf E ((Node.prefill prefill).text E)).isSome) {tokens : List LlamaToken}
    {p k : Nat} (hlen : p + k ≤ tokens.length) :
    (custodyWatch E (.prefill prefill) staging milestones).Spec (Has h)
      (PrefillNode.prefillSlice E h tokens p k)
      (fun _ s => Has h s ∧ (((p + k : Nat) : Int) ∈ milestones → ((p + k : Nat) : Int) ∈ s.filed))
      fun _ => Ended :=
  .withLock_of_keeps (keeps_neutral rfl) (.bind (decodeTokenRange_custody hlen) fun _ =>
    commitWatermark_custody hstart htext) (fun _ => keeps_neutral rfl) fun _ => keeps_neutral rfl

private theorem isSnapshotMilestone_custody (hstart : CanStart E prefill staging) :
    (custodyWatch E (.prefill prefill) staging milestones).Spec
      (fun s => Has h s ∧ ((t : Int) ∈ milestones → (t : Int) ∈ s.filed))
      (PipelineState.isSnapshotMilestone t)
      (fun b => if b = true then fun s => Has h s ∧ (t : Int) ∈ s.filed else Has h)
      fun _ => Ended := by
  refine .withLock_of_keeps (keeps_neutral rfl) (.bind (load_prefill (I := fun s => Has h s ∧
    ((t : Int) ∈ milestones → (t : Int) ∈ s.filed)) hstart fun s r hs _ => hs) fun r =>
      .ret fun s hs => ?_) (fun _ => keeps_neutral rfl) fun _ => keeps_neutral rfl
  obtain ⟨⟨hhas, hfiled⟩, -, hmilestones, -⟩ := hs
  rw [hmilestones]
  split
  · rename_i hmem
    exact ⟨hhas, hfiled (List.contains_iff_mem.mp hmem)⟩
  · exact hhas

/-- The snapshot is there; if it is not consumed completely, the context is lost. -/
private theorem restorePrefixSnapshot_custody (hstart : CanStart E prefill staging) :
    (custodyWatch E (.prefill prefill) staging milestones).Spec
      (fun s => Has h s ∧ (t : Int) ∈ s.filed) (PrefillNode.restorePrefixSnapshot h t)
      (fun _ => Has h) fun _ => Ended := by
  unfold PrefillNode.restorePrefixSnapshot
  refine .bind (Q := fun r s => Has h s ∧ r.isSome) ?_ fun r => ?_
  · refine .withLock_of_keeps (keeps_neutral rfl) (.bind (load_prefill (I := fun s => Has h s ∧
      (t : Int) ∈ s.filed) hstart fun s r hs _ => hs) fun r => ?_)
      (fun _ => keeps_neutral rfl) fun _ => keeps_neutral rfl
    split
    · rename_i hnone
      -- the snapshot has been filed
      refine .fix fun s hs => ?_
      have hsome := hs.2.2.2 t hs.1.2
      rw [hnone] at hsome
      cases hsome
    · exact .ret fun s hs => ⟨hs.1.1, rfl⟩
  · cases r with
    | none => exact .fix fun s hs => by cases hs.2
    | some a =>
      obtain ⟨data, nbytes, len⟩ := a
      cases data with
      | none => exact .ret fun s hs => hs.1
      | some data =>
        -- restored completely, or an answer that is not handled
        refine .bind (Q := fun nr s => if nr ≠ nbytes then s.Ended else Has h s)
          (.op fun s hs => ⟨hs.1.live, fun nr _ => ?_⟩) fun nr =>
            .ite (fun hne => .throw fun s hs => by rwa [if_pos hne] at hs)
              fun heq => .ret fun s hs => by rwa [if_neg heq] at hs
        obtain ⟨hhas, -⟩ := hs
        split
        · rename_i hne
          refine ended_of_exposed (s := s.next E (.prefill prefill)
            (.op (.llamaStateSeqSetData h data nbytes kSwarmkvPrefixSeqId)) nr) ?_ ?_
          · show s.live.isSome
            rw [hhas.live]
            rfl
          · show (s.exposed || decide ((nr : Nat) ≠ nbytes)) = true
            rw [decide_eq_true hne, Bool.or_true]
        · rename_i heq
          refine ⟨hhas.live, hhas.batch, ?_⟩
          show (s.exposed || decide ((nr : Nat) ≠ nbytes)) = false
          rw [hhas.exposed, decide_eq_false heq]
          rfl

/-- The context is given up for the branches, and the next one bound and restored. -/
private theorem pauseAtMilestone_custody (hstart : CanStart E prefill staging) :
    (custodyWatch E (.prefill prefill) staging milestones).Spec
      (fun s => Has h s ∧ (t : Int) ∈ s.filed) (PrefillNode.pauseAtMilestone h t)
      (fun h' => Has h') fun _ => Ended := by
  unfold PrefillNode.pauseAtMilestone
  -- the context is freed before the wait
  refine .bind (Q := fun _ s => Bare s ∧ (t : Int) ∈ s.filed) (.withLock_of_keeps
    (keeps_neutral rfl) (op_handled (fun s hs => hs.1.live) (fun _ _ _ => rfl) fun s _ hs _ =>
      ⟨⟨rfl, hs.1.batch, hs.1.exposed⟩, hs.2⟩) (fun _ => keeps_neutral rfl)
    fun _ => keeps_neutral rfl) fun _ => .bind (Q := fun _ s => Bare s ∧ (t : Int) ∈ s.filed) ?_
      fun _ => ?_
  · refine .ite (fun _ => .ret fun _ hs => hs) fun _ => .withLock_of_keeps (keeps_neutral rfl)
      await_neutral (fun _ => keeps_neutral rfl) fun _ => keeps_neutral rfl
  · -- and there is a new one behind it
    refine .withLock_of_keeps (keeps_neutral rfl) (.bind (Q := fun r s => (match r with
        | none => Bare s
        | some h => Has h s) ∧ (t : Int) ∈ s.filed) (op_handled (fun s hs => hs.1.live)
      (fun _ _ _ => rfl) fun s r hs _ => ?_) fun r => ?_) (fun _ => keeps_neutral rfl)
      fun _ => keeps_neutral rfl
    · cases r with
      | none => exact ⟨⟨hs.1.live, hs.1.batch, hs.1.exposed⟩, hs.2⟩
      | some h => exact ⟨⟨rfl, hs.1.batch, hs.1.exposed⟩, hs.2⟩
    · cases r with
      | none => exact .throw fun s hs => Bare.ended hs.1
      | some h =>
        refine .bind (load_prefill (I := fun s => Has h s ∧ (t : Int) ∈ s.filed) hstart
          fun s r hs _ => hs) fun r => .bind (Q := fun _ s => Has h s ∧ (t : Int) ∈ s.filed) ?_
            fun _ => .bind (restorePrefixSnapshot_custody hstart) fun _ => .ret fun _ hs => hs
        refine .pre (bindContiguousCache_custody (I := fun s => Has h s ∧ (t : Int) ∈ s.filed))
          fun s hs => ⟨fun _ => hs.1, fun hnone => ?_⟩
        -- the staging buffer is still there
        have hsome := hstart.1
        rw [← hs.2.1, hnone] at hsome
        cases hsome

/-- A call of `PrefillNode::execute`. -/
theorem prefill_custody :
    (custodyWatch ctx.engine (.prefill prefill) staging milestones).Spec Bare
      (prefill.execute ctx) (fun _ => Ended) fun _ => Ended := by
  unfold PrefillNode.execute
  refine .bind (op_neutral rfl) fun t₀ => .bind llamaInitFromModel_custody fun r => ?_
  cases r with
  | none => exact .throw fun _ hs => Bare.ended hs
  | some h =>
    have hload : (custodyWatch ctx.engine (.prefill prefill) staging milestones).Spec
        (fun s => Has h s ∧ s.allocs = 0) (perform .load) (fun r s =>
          ((r.materializedBranchBuffer.isSome → (Node.prefill prefill).readable ctx.engine = true →
              Has h s ∧ s.allocs = 0) ∧
            (r.materializedBranchBuffer = none ∨
              (Node.prefill prefill).readable ctx.engine = false → s.Ended)) ∧
          r.materializedBranchBuffer = staging) fun _ => Ended := by
      intro s hs
      obtain ⟨hok, hnext⟩ := load_custody (X := fun _ => Ended) s hs
      exact ⟨hok, fun r hr => ⟨hnext r hr, hr.1⟩⟩
    refine .bind hload fun r => .assume fun hr => ?_
    dsimp only
    obtain hread | ⟨text, hread⟩ :=
      (documentText ctx.engine prefill.sourceDocumentPath).eq_none_or_eq_some
    · -- the call ends with its context, if not at the binding then at the reading
      have hunread : (Node.prefill prefill).readable ctx.engine = false := by
        simp only [Node.readable, hread, Option.isSome_none]
      refine .bind (.pre (bindContiguousCache_custody (I := Ended)) fun s hs =>
        ⟨fun _ => hs.2 (.inr hunread), fun _ => hs.2 (.inr hunread)⟩) fun _ =>
        .bind PrefillNode.loadDocumentText_spec fun text =>
          .assume fun htext => ?_
      rw [hread] at htext
      cases htext
    have hreadable : (Node.prefill prefill).readable ctx.engine = true := by
      simp only [Node.readable, hread, Option.isSome_some]
    have hnodeText : (Node.prefill prefill).text ctx.engine = text := by
      simp only [Node.text, hread, Option.getD_some]
    -- the document is tokenized
    have htokenize : (custodyWatch ctx.engine (.prefill prefill) staging milestones).Spec
        (fun s => Has h s ∧ s.allocs = 0) (PrefillNode.tokenizeText ctx.engine text)
        (fun tokens s => Has h s ∧ tokensOf ctx.engine ((Node.prefill prefill).text ctx.engine) =
          some tokens) fun _ => Ended := by
      have htokenize := @tokenizeWith_custody ctx.engine (.prefill prefill) staging milestones h
        .prefillTokenizeFailed
      rw [hnodeText] at htokenize ⊢
      exact .post htokenize fun _ _ hs => ⟨hs.1.1, hs.2⟩
    refine .bind (Q := fun _ s => (Has h s ∧ s.allocs = 0) ∧ staging.isSome)
      (.pre bindContiguousCache_custody fun s hs => ⟨fun hsome => ⟨hs.1 hsome hreadable, hr ▸ hsome⟩,
        fun hnone => hs.2 (.inl hnone)⟩) fun _ => .assume fun hstaging => ?_
    have hstart : CanStart ctx.engine prefill staging := ⟨hstaging, hreadable⟩
    refine .bind (.noThrow (PrefillNode.loadDocumentText_total (Option.isSome_of_eq_some hread)))
      fun text' => .assume fun hread' => ?_
    obtain rfl := Option.some.inj (hread.symm.trans hread')
    refine .bind htokenize fun tokens => ?_
    generalize hcount : toInt32 tokens.length = count
    generalize toInt32 ctx.nCtx = limit
    refine .assume fun htokens => ?_
    have htotal : count.toNat = tokens.length := by
      rw [← hcount, toInt32_of_lt (tokensOf_length htokens), Int.toNat_natCast]
    refine .ite (fun _ => .bind (llamaFree_custody fun _ hs => hs) fun _ =>
      .throw fun _ hs => Bare.ended hs) fun _ => ?_
    rw [htotal]
    have htext : (tokensOf ctx.engine ((Node.prefill prefill).text ctx.engine)).isSome := by
      rw [htokens]
      rfl
    -- the loop, with a context at each of its points
    refine .bind (PrefillNode.prefillLoop_spec (J := fun h _ => Has h)
      (K := fun h t s => Has h s ∧ ((t : Int) ∈ milestones → (t : Int) ∈ s.filed))
      (L := fun h t s => Has h s ∧ (t : Int) ∈ s.filed) (X := fun _ => Ended)
      (fun h p _ hlt => prefillSlice_custody hstart htext (by omega))
      (fun h t _ => isSnapshotMilestone_custody hstart)
      (fun h t _ => pauseAtMilestone_custody hstart)
      _ h 0 (Nat.zero_le _) (fun _ => Nat.dvd_zero _) (Nat.sub_le _ _)) fun h' => ?_
    -- the end: marked, freed, and the timing
    refine .bind (op_neutral rfl) fun _ => .bind (.withLock_of_keeps (keeps_neutral rfl)
      (.bind (op_neutral rfl) fun _ => notifyAll_neutral) (fun _ => keeps_neutral rfl)
      fun _ => keeps_neutral rfl) fun _ => ?_
    exact .bind (llamaFree_custody fun _ hs => hs) fun _ => recordTiming_custody _ _

end Prefill

end Custody

end SwarmKV
