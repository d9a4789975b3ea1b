import SwarmKV.Native.PipelineState

/-!
# The blackboard on its own

In a pipeline run the milestones and their consumers are registered before the
threads start, so `Op` has no action for it. As a class, `PipelineState` allows
its calls in any order from any thread, and both registrations take
`watermark_mutex`. `BoardOp` adds their two writes to the actions, and `Client`
describes a thread that makes any number of calls, each chosen after the outcome
of the one before.
-/

namespace SwarmKV

/-- The actions of `PipelineState`, with those of the registrations. -/
inductive BoardOp where
  | base (o : Op)
  /-- `snapshot_milestones.insert(token_count)`. -/
  | insertMilestone (tokenCount : Int)
  /-- `milestone_consumers_remaining[token_count]++`. -/
  | countConsumer (tokenCount : Int)

/-- The answer of an action. -/
@[reducible] def BoardOp.Res : BoardOp → Type
  | base o => o.Res
  | _ => Unit

/-- The signature of the blackboard's clients. -/
abbrev boardSig : Monitor.Sig where
  Op := BoardOp
  Res := BoardOp.Res
  Lock := Lock
  Cv := Cv
  Cond := Cond

/-- A program of a client. -/
abbrev BoardProg (α : Type) := Monitor.Prog boardSig Error α

/-- One atomic action of thread `i`. -/
def execBoard (E : Engine) (i : Thread) :
    (o : BoardOp) → Choice → World → Option (o.Res × World)
  | .base o, x, w => exec E i o x w
  | .insertMilestone t, _, w =>
    some ((), w.update fun s => { s with snapshotMilestones := s.snapshotMilestones.insert t })
  | .countConsumer t, _, w =>
    some ((), w.update fun s => { s with
      milestoneConsumersRemaining := Function.update s.milestoneConsumersRemaining t
        (some ((s.milestoneConsumersRemaining t).getD 0 + 1)) })

/-- The machine that runs the blackboard's clients. -/
abbrev boardMachine (E : Engine) : Monitor.Machine boardSig where
  Thread := Thread
  Data := World
  Choice := Choice
  exec := execBoard E
  mutex := fun _ => .watermarkMutex
  cv := Cond.cv
  holds := Cond.holds

/-- A program of the pipeline as a program of a client. -/
def Board.embed {α : Type} : Prog α → BoardProg α
  | .ret a => .ret a
  | .throw e => .throw e
  | .op o k => .op (.base o) fun r => embed (k r)
  | .lock l k => .lock l (embed k)
  | .unlock l k => .unlock l (embed k)
  | .wait w k => .wait w (embed k)
  | .notify v k => .notify v (embed k)

namespace Board

/-- `register_snapshot_milestone`, as a call. -/
def registerSnapshotMilestone (tokenCount : Int) : BoardProg Unit :=
  if tokenCount ≤ 0 then throw .milestoneNotPositive
  else Monitor.Prog.withLock (S := boardSig) .watermarkMutex do
    embed alloc
    Monitor.Prog.perform (S := boardSig) (.insertMilestone tokenCount)

/-- `register_milestone_consumer`, as a call. -/
def registerMilestoneConsumer (tokenCount : Int) : BoardProg Unit :=
  if tokenCount ≤ 0 then pure ()
  else Monitor.Prog.withLock (S := boardSig) .watermarkMutex do
    embed alloc
    Monitor.Prog.perform (S := boardSig) (.countConsumer tokenCount)

/-- The calls that publish, register, signal and wait. -/
inductive Call where
  | registerSnapshotMilestone (tokenCount : Int)
  | commitWatermark (ctx : Option Nat) (tokensReady : Int)
  | markPrefillComplete
  | registerMilestoneConsumer (tokenCount : Int)
  | signalMilestoneConsumed (tokenCount : Int)
  | waitForWatermark (requiredTokens : Int)
  | waitForPrefillComplete
  | waitForMilestoneConsumers (tokenCount : Int)

/-- What a call does. -/
def Call.prog : Call → BoardProg Unit
  | registerSnapshotMilestone t => Board.registerSnapshotMilestone t
  | commitWatermark ctx t => embed (PipelineState.commitWatermark ctx t)
  | markPrefillComplete => embed PipelineState.markPrefillComplete
  | registerMilestoneConsumer t => Board.registerMilestoneConsumer t
  | signalMilestoneConsumed t => embed (PipelineState.signalMilestoneConsumed t)
  | waitForWatermark t => embed (PipelineState.waitForWatermark t)
  | waitForPrefillComplete => embed PipelineState.waitForPrefillComplete
  | waitForMilestoneConsumers t => embed (PipelineState.waitForMilestoneConsumers t)

/-- A thread that does nothing but calls. What it does after a call, or whether
    it ends there, may depend on how the call ended. -/
inductive Client : BoardProg Unit → Prop where
  | ret : Client (.ret ())
  | throw (e : Error) : Client (.throw e)
  | call (a : Call) (k : Except Error Unit → BoardProg Unit) (h : ∀ r, Client (k r)) :
    Client (a.prog.attempt >>= k)

/-- A state of the clients. -/
abbrev Config (E : Engine) := Monitor.Config (boardMachine E) Error

/-- Before the calls: no mutex is taken. What is in the blackboard is arbitrary. -/
structure Config.Start {E : Engine} (c : Config E) : Prop where
  free : ∀ l, c.holder l = none
  client : ∀ i, ∃ p, Client p ∧ c.threads i = .run p

end Board

/-- The registration action is the registration of a pipeline's set-up. -/
theorem exec_insertMilestone {E : Engine} {i : Thread} {t : Int} {x : Choice} {w : World}
    {s : PipelineState} (h : w.state.registerSnapshotMilestone t = .ok s) :
    execBoard E i (.insertMilestone t) x w = some ((), { w with state := s }) := by
  unfold PipelineState.registerSnapshotMilestone at h
  split at h
  · cases h
  · obtain rfl := Except.ok.inj h
    rfl

/-- The counting action is the counting of a pipeline's set-up. -/
theorem exec_countConsumer {E : Engine} {i : Thread} {t : Int} {x : Choice} {w : World}
    (ht : 0 < t) : execBoard E i (.countConsumer t) x w =
      some ((), { w with state := w.state.registerMilestoneConsumer t }) := by
  have hle : ¬ t ≤ 0 := by omega
  simp only [PipelineState.registerMilestoneConsumer, hle, if_false]
  rfl

end SwarmKV
