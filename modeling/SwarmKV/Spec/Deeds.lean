import SwarmKV.Monitor.Twin
import SwarmKV.Native.AnalyticalNode
import SwarmKV.Spec.Solo

/-!
# What a branch leaves behind

The deeds of a branch are its fork buffer, the events on its record and its entries on the
blackboard, without the handles it was given. Two calls of a branch from worlds that look the
same to it are followed side by side: at each point they have done the same deeds.
-/

namespace SwarmKV

open Monitor

/-- Two decisions that differ at most in the time that the clock shows. -/
def Choice.Alike : Choice → Choice → Prop
  | .time _, .time _ => True
  | x, y => x = y

theorem Choice.Alike.refl (x : Choice) : x.Alike x := by
  cases x with
  | time ms => trivial
  | _ => rfl

/-- What is submitted to `llama_decode`. -/
def Op.decoded : Op → Option (List BatchToken)
  | llamaDecode _ batch => some batch.slots
  | _ => none

/-- No handle is in use that has not been issued. -/
structure World.Issued (w : World) : Prop where
  buffers : ∀ b, w.nextBuffer ≤ b → w.buffers b = none
  staging : ∀ b, w.state.materializedBranchBuffer = some b → b < w.nextBuffer
  pool : ∀ b ∈ w.activeBuffers, b < w.nextBuffer

/-- What a branch has done. -/
structure Deeds where
  /-- The fork buffer, if one was allocated. -/
  buffer : Option Buffer := none
  /-- The buffer belongs to the pool. -/
  pooled : Bool := false
  /-- What the thread has put on record. -/
  events : List Event := []
  output : Option String := none
  /-- The milestone was signalled. -/
  consumed : Bool := false
  timed : Bool := false

namespace Deeds

/-- Nothing that anybody else could see. -/
structure Quiet (D : Deeds) : Prop where
  output : D.output = none
  consumed : D.consumed = false
  timed : D.timed = false

/-- One more event. -/
def add (D : Deeds) (e : Event) : Deeds := { D with events := D.events ++ [e] }

/-- The milestone has been signalled; this is on record if somebody counts. -/
def signalled (D : Deeds) (req : Int) (counted : Bool) : Deeds :=
  { D with consumed := true, events := D.events ++ if counted then [.milestoneConsumed req] else [] }

theorem Quiet.add {D : Deeds} (h : D.Quiet) (e : Event) : (D.add e).Quiet := ⟨h.1, h.2, h.3⟩

end Deeds

namespace AnalyticalNode

variable (node : AnalyticalNode) (w : World)

/-- The diagnostic string of a branch. -/
def statusLine (nTok : Nat) (prefixLen : Int) : String :=
  s!"branch_ok n_tok={nTok} prefix={prefixLen}" ++ s!" watermark={node.requiredPrefixTokens}"

/-- The length of the prefix that a branch forks. -/
def chosenLen : Int :=
  if 0 ≤ node.requiredPrefixTokens then
    ((w.state.prefixSnapshots node.requiredPrefixTokens).map (·.seqLen)).getD 0
  else w.state.prefixSeqLen

/-- The number of bytes that it forks. -/
def chosenSize : Nat :=
  if 0 ≤ node.requiredPrefixTokens then
    (((w.state.prefixSnapshots node.requiredPrefixTokens).map (·.data)).getD []).length
  else w.state.prefixKvSerialBytes

/-- The source it forks from. -/
def chosenSource : Option DataPtr :=
  if 0 ≤ node.requiredPrefixTokens then some (.snapshot node.requiredPrefixTokens)
  else w.state.materializedBranchBuffer.map .buffer

/-- The bytes that it forks. -/
def chosenBytes : List UInt8 :=
  (node.chosenSource w).elim [] fun p => w.bytesAt p (node.chosenSize w)

end AnalyticalNode

/-! ## Two calls -/

/-- Two calls of a branch: its thread and node, the name under which it reports, and the worlds
    in which they start. -/
structure Sides where
  thread : Thread
  name : String
  node : AnalyticalNode
  left : World
  right : World

/-- The worlds look the same to the branch. -/
structure Sides.Match (S : Sides) : Prop where
  staging : S.right.state.materializedBranchBuffer = S.left.state.materializedBranchBuffer
  snapshots : S.right.state.prefixSnapshots = S.left.state.prefixSnapshots
  prefixSeqLen : S.right.state.prefixSeqLen = S.left.state.prefixSeqLen
  prefixKvSerialBytes : S.right.state.prefixKvSerialBytes = S.left.state.prefixKvSerialBytes
  bytes : ∀ b, S.left.state.materializedBranchBuffer = some b →
    S.right.buffers b = S.left.buffers b
  counted : (S.right.state.milestoneConsumersRemaining S.node.requiredPrefixTokens).isSome =
    (S.left.state.milestoneConsumersRemaining S.node.requiredPrefixTokens).isSome
  issued : S.left.Issued ∧ S.right.Issued

/-- The world `w` after the deeds of a branch, from `w₀` on. -/
structure Deeds.After (D : Deeds) (S : Sides) (w₀ w : World) : Prop where
  shared : w.state = { w₀.state with
    nodeOutputs := w.state.nodeOutputs
    timingsMs := w.state.timingsMs
    milestoneConsumersRemaining := w.state.milestoneConsumersRemaining }
  nodeOutputs : w.state.nodeOutputs = D.output.elim w₀.state.nodeOutputs fun s =>
    Function.update w₀.state.nodeOutputs S.name (some s)
  timingsMs : ∃ ms, w.state.timingsMs = if D.timed then
    Function.update w₀.state.timingsMs S.name (some ms) else w₀.state.timingsMs
  counts : w.state.milestoneConsumersRemaining = if D.consumed then
    Function.update w₀.state.milestoneConsumersRemaining S.node.requiredPrefixTokens
      ((w₀.state.milestoneConsumersRemaining S.node.requiredPrefixTokens).map (· - 1))
    else w₀.state.milestoneConsumersRemaining
  buffers : w.buffers = D.buffer.elim w₀.buffers fun b =>
    Function.update w₀.buffers w₀.nextBuffer (some b)
  nextBuffer : w.nextBuffer = w₀.nextBuffer + D.buffer.toList.length
  activeBuffers : w.activeBuffers =
    w₀.activeBuffers ++ if D.pooled then [w₀.nextBuffer] else []
  pool : D.pooled = true → D.buffer.isSome = true
  promises : w.promises = w₀.promises
  tasks : w.tasks = w₀.tasks
  log : w.log = Function.update w₀.log S.thread (w₀.log S.thread ++ D.events)

/-- What is on record about the fork is true. -/
def Deeds.Sound (D : Deeds) (S : Sides) : Prop :=
  ∀ len bytes, .forked len bytes ∈ D.events →
    len = S.node.chosenLen S.left ∧ bytes = S.node.chosenBytes S.left ∧
      (D.buffer.elim [] fun b => b.bytes.take (S.node.chosenSize S.left)) = bytes

namespace Sides

variable (S : Sides)

/-- Both calls have done the deeds `D`. -/
structure Pair (D : Deeds) (w : World) (xs : List Choice) (w' : World) (xs' : List Choice) :
    Prop where
  left : D.After S S.left w
  right : D.After S S.right w'
  alike : List.Forall₂ Choice.Alike xs xs'
  sound : D.Sound S

/-- They have done deeds of this kind, and have contexts `C` with the same contents. -/
def Hold (R : Deeds → Prop) (C : Option (Nat × Nat)) (w : World) (xs : List Choice) (w' : World)
    (xs' : List Choice) : Prop :=
  ∃ D, R D ∧ S.Pair D w xs w' xs' ∧
    ∀ c ∈ C, ∃ ctx, w.contexts c.1 = some ctx ∧ w'.contexts c.2 = some ctx

/-- The calls proceed side by side. -/
abbrev Twin {α β : Type} (E : Engine) (H : Finset Lock) (P : Alone.Pairing (machine E))
    (p : Prog α) (p' : Prog β) (Q : α → β → Alone.Pairing (machine E))
    (X : Error → Alone.Pairing (machine E)) : Prop :=
  (solo E S.thread).Twin Op.decoded H P p p' Q X

end Sides

/-! ## One action on one side -/

namespace Deeds.After

variable {D : Deeds} {S : Sides} {w₀ w : World}

theorem start (S : Sides) (w : World) : ({} : Deeds).After S w w where
  shared := rfl
  nodeOutputs := rfl
  timingsMs := ⟨0, rfl⟩
  counts := rfl
  buffers := rfl
  nextBuffer := rfl
  activeBuffers := (List.append_nil _).symm
  pool h := by cases h
  promises := rfl
  tasks := rfl
  log := by rw [List.append_nil, Function.update_eq_self]

/-- Contexts and batches are nobody else's business. -/
theorem frame (h : D.After S w₀ w) {c : Nat → Option LlamaContext} {n m : Nat} {b : Nat → Bool} :
    D.After S w₀ { w with contexts := c, nextContext := n, batches := b, nextBatch := m } :=
  ⟨h.shared, h.nodeOutputs, h.timingsMs, h.counts, h.buffers, h.nextBuffer, h.activeBuffers,
    h.pool, h.promises, h.tasks, h.log⟩

theorem record (h : D.After S w₀ w) (e : Event) :
    (D.add e).After S w₀ (w.record S.thread e) where
  shared := h.shared
  nodeOutputs := h.nodeOutputs
  timingsMs := h.timingsMs
  counts := h.counts
  buffers := h.buffers
  nextBuffer := h.nextBuffer
  activeBuffers := h.activeBuffers
  pool := h.pool
  promises := h.promises
  tasks := h.tasks
  log := by
    simp only [World.record, add, h.log, Function.update_self, Function.update_idem,
      List.append_assoc]

theorem alloc (h : D.After S w₀ w) (hnone : D.buffer = none) (b : Buffer) :
    Deeds.After { D with buffer := some b } S w₀ { w with
      buffers := Function.update w.buffers w.nextBuffer (some b)
      nextBuffer := w.nextBuffer + 1 } where
  shared := h.shared
  nodeOutputs := h.nodeOutputs
  timingsMs := h.timingsMs
  counts := h.counts
  buffers := by
    simp [h.buffers, h.nextBuffer, hnone]
  nextBuffer := by
    simp [h.nextBuffer, hnone]
  activeBuffers := h.activeBuffers
  pool _ := rfl
  promises := h.promises
  tasks := h.tasks
  log := h.log

theorem push (h : D.After S w₀ w) (hnone : D.pooled = false) (hbuf : D.buffer.isSome = true) :
    Deeds.After { D with pooled := true } S w₀
      { w with activeBuffers := w.activeBuffers ++ [w₀.nextBuffer] } where
  shared := h.shared
  nodeOutputs := h.nodeOutputs
  timingsMs := h.timingsMs
  counts := h.counts
  buffers := h.buffers
  nextBuffer := h.nextBuffer
  activeBuffers := by
    simp [h.activeBuffers, hnone]
  pool _ := hbuf
  promises := h.promises
  tasks := h.tasks
  log := h.log

theorem putOutput (h : D.After S w₀ w) (hnone : D.output = none) (v : String) :
    Deeds.After { D with output := some v } S w₀ (w.update fun s => { s with
      nodeOutputs := Function.update s.nodeOutputs S.name (some v) }) where
  shared := by
    have hs := h.shared
    simp only [World.update]
    rw [hs]
  nodeOutputs := by
    simp [World.update, h.nodeOutputs, hnone]
  timingsMs := h.timingsMs
  counts := h.counts
  buffers := h.buffers
  nextBuffer := h.nextBuffer
  activeBuffers := h.activeBuffers
  pool := h.pool
  promises := h.promises
  tasks := h.tasks
  log := h.log

theorem putTiming (h : D.After S w₀ w) (hnone : D.timed = false) (ms : Int) :
    Deeds.After { D with timed := true } S w₀ (w.update fun s => { s with
      timingsMs := Function.update s.timingsMs S.name (some ms) }) where
  shared := by
    have hs := h.shared
    simp only [World.update]
    rw [hs]
  nodeOutputs := h.nodeOutputs
  timingsMs := by
    obtain ⟨ms₀, hms⟩ := h.timingsMs
    exact ⟨ms, by simp [World.update, hms, hnone]⟩
  counts := h.counts
  buffers := h.buffers
  nextBuffer := h.nextBuffer
  activeBuffers := h.activeBuffers
  pool := h.pool
  promises := h.promises
  tasks := h.tasks
  log := h.log

/-- The buffers that were there before. -/
theorem buffer_old (h : D.After S w₀ w) {b : Nat} (hb : b < w₀.nextBuffer) :
    w.buffers b = w₀.buffers b := by
  rw [h.buffers]
  cases D.buffer with
  | none => rfl
  | some buf => exact Function.update_of_ne (Nat.ne_of_lt hb) _ _

/-- The fork buffer. -/
theorem buffer_new (h : D.After S w₀ w) {buf : Buffer} (hbuf : D.buffer = some buf) :
    w.buffers w₀.nextBuffer = some buf := by
  rw [h.buffers, hbuf]
  exact Function.update_self _ _ _

theorem overwrite (h : D.After S w₀ w) {buf : Buffer} (hbuf : D.buffer = some buf)
    (bytes : List UInt8) :
    Deeds.After { D with buffer := some { buf with
      bytes := bytes ++ buf.bytes.drop bytes.length } } S w₀
      (w.overwrite w₀.nextBuffer bytes) where
  shared := h.shared
  nodeOutputs := h.nodeOutputs
  timingsMs := h.timingsMs
  counts := h.counts
  buffers := by
    simp only [World.overwrite, h.buffer_new hbuf, h.buffers, hbuf, Option.elim_some,
      Function.update_idem, Option.map_some]
  nextBuffer := by
    simp [World.overwrite, h.nextBuffer, hbuf]
  activeBuffers := h.activeBuffers
  pool _ := rfl
  promises := h.promises
  tasks := h.tasks
  log := h.log

theorem snapshots (h : D.After S w₀ w) : w.state.prefixSnapshots = w₀.state.prefixSnapshots := by
  rw [h.shared]

/-- The signal, of a milestone with a count or without one. -/
theorem consume (h : D.After S w₀ w) (hnone : D.consumed = false) {E : Engine} {r : Option Int}
    {w₁ : World} (hx : exec E S.thread (.consumeMilestone S.node.requiredPrefixTokens) .ok w =
      some (r, w₁)) :
    (D.signalled S.node.requiredPrefixTokens (w₀.state.milestoneConsumersRemaining
      S.node.requiredPrefixTokens).isSome).After S w₀ w₁ := by
  have hcounts : w.state.milestoneConsumersRemaining = w₀.state.milestoneConsumersRemaining := by
    rw [h.counts, hnone]
    rfl
  cases hn : w₀.state.milestoneConsumersRemaining S.node.requiredPrefixTokens with
  | none =>
    simp only [exec, hcounts, hn, Option.some.injEq, Prod.mk.injEq] at hx
    obtain ⟨rfl, rfl⟩ := hx
    refine ⟨h.shared, h.nodeOutputs, h.timingsMs, ?_, h.buffers, h.nextBuffer, h.activeBuffers,
      h.pool, h.promises, h.tasks, by simp [Deeds.signalled, h.log]⟩
    rw [hcounts, Deeds.signalled, if_pos rfl, hn, Option.map_none, ← hn, Function.update_eq_self]
  | some n =>
    simp only [exec, hcounts, hn, Option.some.injEq, Prod.mk.injEq] at hx
    obtain ⟨rfl, rfl⟩ := hx
    refine ⟨?_, h.nodeOutputs, h.timingsMs, ?_, h.buffers, h.nextBuffer, h.activeBuffers,
      h.pool, h.promises, h.tasks, ?_⟩
    · simp only [World.record, World.update]
      rw [h.shared]
    · simp [World.record, World.update, Deeds.signalled, hn, hcounts]
    · simp [World.record, World.update, Deeds.signalled, h.log]

end Deeds.After

end SwarmKV
