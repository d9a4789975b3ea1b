import SwarmKV.Spec.Effects
import SwarmKV.Spec.WorkerRules
import SwarmKV.Spec.Graph

/-!
# What a thread knows

The observer of this module keeps what a thread knows of the shared memory: what its context
holds, and what it has loaded, read and written under the guard. A thread that does what
`View.accepts` allows is right about all this, whatever the others do and whatever an earlier
call of `execute_pipeline` has left behind.
-/

namespace SwarmKV

open Monitor

/-- What a thread knows. -/
structure View where
  /-- It holds the guard. -/
  held : Bool := false
  /-- Its context. -/
  ctx : Option Nat := none
  /-- What is in its context. -/
  cells : Option (List KvCell) := none
  /-- The blackboard, as it has found it under the guard. -/
  found : Option PipelineState := none
  /-- Some bytes, as it has read them under the guard. -/
  last : Option (DataPtr × Nat × List UInt8) := none
  /-- The buffer it has allocated, with its size. -/
  own : Option (Nat × Nat) := none
  /-- What it has in there. -/
  copied : Option (List UInt8) := none
  /-- The sequence that it has exported, and the size of the export. -/
  exported : Option (SeqState × Nat) := none
  /-- What it may have restored; if there are bytes in it, it has. -/
  restored : List (List UInt8) := []
  /-- The snapshots it has filed. -/
  filed : List (Int × List UInt8) := []
  /-- The last value it has committed. -/
  top : Int := 0
  /-- What it has published: the watermark, the length and the size of the canonical export. -/
  watermark : Int := 0
  seqLen : Int := 0
  serialBytes : Nat := 0
  /-- The output it has published. -/
  output : Option String := none
  /-- It has fulfilled its promise. -/
  settled : Bool := false
  /-- The workers it has waited for. -/
  joined : List String := []
  /-- Its task is done. -/
  done : Bool := false

namespace View

/-- The bytes behind a pointer, as far as the thread knows them. -/
def bytesAt (s : View) : DataPtr → Nat → List UInt8
  | .snapshot t, n => (((s.found.bind (·.prefixSnapshots t)).map (·.data)).getD []).take n
  | .buffer _, n => (s.copied.getD []).take n

/-- What it knows when it has restored a sequence. When there is nothing to restore, it cannot tell
    from the answer whether the call has failed. -/
def restore (E : Engine) (s : View) (p : DataPtr) (n : Nat) (seq : Int) : View :=
  { s with
    cells := if s.bytesAt p n = [] then none else s.cells.map fun cells =>
      (E.restore (s.bytesAt p n)).elim cells (restoreSeq seq · cells)
    restored := s.bytesAt p n :: s.restored }

/-- What a thread knows after an action. -/
def next (E : Engine) (s : View) : (a : Action sig) → a.Res → View
  | .lock .llamaApiMutex, _ =>
    { s with held := true, found := none, last := none, copied := none, exported := none }
  | .unlock .llamaApiMutex, _ => { s with held := false }
  | .op .load, r => if s.held then { s with found := some r } else s
  | .op (.readBytes p n), r => { s with last := some (p, n, r) }
  | .op .llamaInitFromModel, r =>
    if Option.isSome r then { s with ctx := r, cells := some [] } else s
  | .op (.llamaFree _), _ => { s with ctx := none, cells := none }
  | .op (.llamaDecode _ batch), r =>
    if r = true then { s with cells := s.cells.map (· ++ batch.cells) } else s
  | .op (.llamaStateSeqGetData _ _ _ seq), r =>
    { s with exported := s.cells.map fun cells => (seqState seq cells, r), last := none }
  | .op (.llamaStateSeqSetData _ p n seq), r =>
    if r = (0 : Nat) ∧ s.bytesAt p n ≠ [] then s else s.restore E p n seq
  | .op (.allocBuffer size), r =>
    { s with own := Option.map (·, size) r, copied := some [], last := none }
  | .op (.writeBytes _ bytes), _ =>
    { s with copied := s.copied.map fun old => bytes ++ old.drop bytes.length, last := none }
  | .op (.putSnapshot t data), _ =>
    { s with filed := (t, data) :: s.filed, found := none, last := none, exported := none }
  | .op (.setPrefixSeqLen t), _ => { s with seqLen := t, found := none }
  | .op (.setPrefixKvSerialBytes n), _ => { s with serialBytes := n, found := none }
  | .op (.setWatermark t), _ => { s with watermark := t }
  | .op (.note (.commitWatermark _ t)), _ => { s with top := t }
  | .op (.putOutput _ value), _ => { s with output := some value }
  | .op (.setPromise _ _), _ => { s with settled := true }
  | .op (.awaitTask n), _ => { s with joined := n :: s.joined }
  | .op (.setTask _ _), _ => { s with done := true }
  | _, _ => s

/-- It knows the bytes behind a pointer. -/
def Knows (s : View) : DataPtr → Prop
  | .snapshot _ => s.found.isSome
  | .buffer b => ∃ size bytes, s.own = some (b, size) ∧ s.copied = some bytes

/-- What a thread of `cfg` may do, where `staging` is the canonical buffer. -/
def accepts (cfg : Pipeline) (staging : Option Nat) (i : Thread) (s : View) : Action sig → Prop
  | .lock .llamaApiMutex => s.done = false ∧ ∃ n ∈ cfg.orchestrator.names, i = .worker n
  | .op (.readBytes _ _) => s.held = true
  | .op .llamaInitFromModel => s.ctx = none
  | .op (.llamaFree h) => s.ctx = some h
  | .op (.llamaDecode h _) => s.ctx = some h
  | .op (.llamaStateSeqGetSize h _) => s.ctx = some h
  | .op (.llamaStateSeqGetData h b _ _) => s.ctx = some h ∧ s.held = true ∧ staging = some b
  | .op (.llamaStateSeqSetData h p _ _) => s.ctx = some h ∧ s.held = true ∧ s.Knows p
  | .op (.allocBuffer _) => s.held = true
  | .op (.writeBytes b _) => s.held = true ∧ ∃ size, s.own = some (b, size)
  | .op (.putSnapshot _ _) => s.held = true
  | .op (.setPrefixSeqLen _) => s.held = true
  | .op (.setPrefixKvSerialBytes _) => s.held = true
  | .op (.freeBuffer _) => ∀ n ∈ cfg.orchestrator.names, n ∈ s.joined
  | .op (.setTask n _) => i = .worker n ∧ s.held = false
  | .op (.note (.exported _ _)) => False
  | .op (.note (.restored _)) => False
  | _ => True

/-- Two states of the blackboard have the same snapshots and the same canonical export. -/
structure SameForks (r r' : PipelineState) : Prop where
  prefixSnapshots : r.prefixSnapshots = r'.prefixSnapshots
  prefixSeqLen : r.prefixSeqLen = r'.prefixSeqLen
  prefixKvSerialBytes : r.prefixKvSerialBytes = r'.prefixKvSerialBytes

/-- What a thread expects of the answers. -/
def expects (cfg : Pipeline) (staging : Option Nat) (s : View) : (a : Action sig) → a.Res → Prop
  | .op .load, r => (r : PipelineState).materializedBranchBuffer = staging ∧
    (s.held = true → ∀ r₀, s.found = some r₀ → SameForks r r₀)
  | .op (.readBytes (.snapshot t) n), r => ∀ r₀ snap, s.found = some r₀ →
    r₀.prefixSnapshots t = some snap → r = snap.data.take n
  | .op (.readBytes (.buffer b) n), r => staging = some b → ∀ q, s.exported = some (q, n) →
    List.length r = n ∧ (r ≠ [] → cfg.engine.exports q r)
  | .op (.llamaStateSeqGetSize _ seq), r => ∀ cells, s.cells = some cells →
    r = cfg.engine.llamaStateSeqGetSize (seqState seq cells)
  | .op (.llamaDecode _ batch), r => r = true → 0 < batch.nTokens
  | .op (.llamaStateSeqSetData _ p n _), r =>
    r = (0 : Nat) ∨ r = (s.bytesAt p n).length ∧ (cfg.engine.restore (s.bytesAt p n)).isSome
  | .op (.bufferSize b), r => s.held = true → ∀ size, s.own = some (b, size) → r = size
  | _, _ => True

end View

/-- The observer of what a thread knows, with more rules and more expectations. -/
def viewWatch (cfg : Pipeline) (staging : Option Nat) (U : Thread → View → Action sig → Prop)
    (V : Thread → View → (a : Action sig) → a.Res → Prop) (i : Thread) : Observer sig View where
  start := {}
  next := View.next cfg.engine
  ok s a := s.accepts cfg staging i a ∧ U i s a
  ans s a r := s.expects cfg staging a r ∧ V i s a r

/-! ## Actions that teach nothing -/

namespace View

/-- The action is free for all, and changes nothing of what a thread knows. -/
def quiet : Action sig → Bool
  | .lock .llamaApiMutex => false
  | .unlock .llamaApiMutex => false
  | .op .load => false
  | .op (.readBytes _ _) => false
  | .op .llamaInitFromModel => false
  | .op (.llamaFree _) => false
  | .op (.llamaDecode _ _) => false
  | .op (.llamaStateSeqGetSize _ _) => false
  | .op (.llamaStateSeqGetData _ _ _ _) => false
  | .op (.llamaStateSeqSetData _ _ _ _) => false
  | .op (.allocBuffer _) => false
  | .op (.writeBytes _ _) => false
  | .op (.freeBuffer _) => false
  | .op (.putSnapshot _ _) => false
  | .op (.setPrefixSeqLen _) => false
  | .op (.setPrefixKvSerialBytes _) => false
  | .op (.setWatermark _) => false
  | .op (.note (.commitWatermark _ _)) => false
  | .op (.note (.exported _ _)) => false
  | .op (.note (.restored _)) => false
  | .op (.putOutput _ _) => false
  | .op (.setPromise _ _) => false
  | .op (.awaitTask _) => false
  | .op (.setTask _ _) => false
  | _ => true

theorem next_quiet {E : Engine} {a : Action sig} (ha : quiet a = true) (s : View) (r : a.Res) :
    s.next E a r = s := by
  cases a with
  | op o =>
    cases o with
    | note e => cases e <;> first | rfl | exact absurd ha Bool.false_ne_true
    | _ => first | rfl | exact absurd ha Bool.false_ne_true
  | lock l => cases l <;> first | rfl | exact absurd ha Bool.false_ne_true
  | unlock l => cases l <;> first | rfl | exact absurd ha Bool.false_ne_true
  | wait w => rfl
  | notify v => rfl

theorem next_load {E : Engine} {s : View} (hs : s.held = true) (r : PipelineState) :
    s.next E (.op .load) r = { s with found := some r } :=
  if_pos hs

/-- Only a `putSnapshot` files a snapshot. -/
theorem next_filed {E : Engine} (s : View) (a : Action sig) (r : a.Res) :
    (s.next E a r).filed = s.filed ∨ ∃ t data, a = .op (.putSnapshot t data) ∧
      (s.next E a r).filed = (t, data) :: s.filed := by
  cases a with
  | op o =>
    cases o with
    | putSnapshot t data => exact .inr ⟨t, data, rfl, rfl⟩
    | note e => cases e <;> exact .inl rfl
    | load =>
      refine .inl ?_
      show (if s.held then { s with found := some r } else s).filed = s.filed
      split <;> rfl
    | llamaInitFromModel => cases r <;> exact .inl rfl
    | llamaDecode h batch => cases r <;> exact .inl rfl
    | llamaStateSeqSetData h p n seq =>
      refine .inl ?_
      show (if r = (0 : Nat) ∧ s.bytesAt p n ≠ [] then s else s.restore E p n seq).filed = s.filed
      split <;> rfl
    | _ => exact .inl rfl
  | lock l => cases l <;> exact .inl rfl
  | unlock l => cases l <;> exact .inl rfl
  | _ => exact .inl rfl

/-- Only a call of `commit_watermark` is a commit. -/
theorem next_top {E : Engine} (s : View) (a : Action sig) (r : a.Res) :
    (s.next E a r).top = s.top ∨ ∃ ctx t, a = .op (.note (.commitWatermark ctx t)) ∧
      (s.next E a r).top = t := by
  cases a with
  | op o =>
    cases o with
    | note e =>
      cases e with
      | commitWatermark ctx t => exact .inr ⟨ctx, t, rfl, rfl⟩
      | _ => exact .inl rfl
    | load =>
      refine .inl ?_
      show (if s.held then { s with found := some r } else s).top = s.top
      split <;> rfl
    | llamaInitFromModel => cases r <;> exact .inl rfl
    | llamaDecode h batch => cases r <;> exact .inl rfl
    | llamaStateSeqSetData h p n seq =>
      refine .inl ?_
      show (if r = (0 : Nat) ∧ s.bytesAt p n ≠ [] then s else s.restore E p n seq).top = s.top
      split <;> rfl
    | _ => exact .inl rfl
  | lock l => cases l <;> exact .inl rfl
  | unlock l => cases l <;> exact .inl rfl
  | _ => exact .inl rfl

theorem next_restore {E : Engine} {s : View} {p : DataPtr} {n : Nat} (hne : s.bytesAt p n ≠ [])
    (h : Nat) (seq : Int) (r : Nat) : s.next E (.op (.llamaStateSeqSetData h p n seq)) r =
      if r = 0 then s else s.restore E p n seq := by
  simp [next, hne]

theorem accepts_quiet {cfg : Pipeline} {staging : Option Nat} {i : Thread} {a : Action sig}
    (ha : quiet a = true) (s : View) : s.accepts cfg staging i a := by
  cases a with
  | op o =>
    cases o with
    | note e => cases e <;> trivial
    | _ => trivial
  | lock l => cases l <;> trivial
  | unlock l => trivial
  | wait w => trivial
  | notify v => trivial

end View

/-- The rules `U` say nothing about quiet actions. -/
def Lenient (U : Thread → View → Action sig → Prop) : Prop :=
  ∀ i s a, View.quiet a = true → U i s a

namespace Lenient

variable {cfg : Pipeline} {staging : Option Nat} {U : Thread → View → Action sig → Prop}
  {V : Thread → View → (a : Action sig) → a.Res → Prop} {i : Thread} {I : View → Prop}

theorem keeps (hU : Lenient U) {a : Action sig} (ha : View.quiet a = true) :
    (viewWatch cfg staging U V i).Keeps I a := by
  refine fun s hs => ⟨⟨View.accepts_quiet ha s, hU i s a ha⟩, fun r _ => ?_⟩
  show I (s.next cfg.engine a r)
  rwa [View.next_quiet ha]

theorem uses (hU : Lenient U) {α : Type} {q : Prog α} {B : Action sig → Prop} (hq : q.Uses B)
    (hB : ∀ a, B a → View.quiet a = true) :
    (viewWatch cfg staging U V i).Spec I q (fun _ => I) fun _ => I :=
  .of_uses hq fun a ha => hU.keeps (hB a ha)

/-- A critical section of a mutex other than the guard. -/
theorem withLock (hU : Lenient U) {α : Type} {l : Lock} {q : Prog α} {P : View → Prop}
    {Q : α → View → Prop} {X : Error → View → Prop} (hl : View.quiet (.lock l) = true)
    (hu : View.quiet (.unlock l) = true) (hq : (viewWatch cfg staging U V i).Spec P q Q X) :
    (viewWatch cfg staging U V i).Spec P (withLock l q) Q X :=
  .withLock_of_keeps (hU.keeps hl) hq (fun _ => hU.keeps hu) fun _ => hU.keeps hu

/-- A quiet operation, with what is expected of its answer. -/
theorem op (hU : Lenient U) {o : Op} {X : Error → View → Prop}
    (ho : View.quiet (.op o) = true) :
    (viewWatch cfg staging U V i).Spec I (perform o)
      (fun r s => I s ∧ s.expects cfg staging (.op o) r ∧ V i s (.op o) r) X := by
  refine .op fun s hs => ⟨⟨View.accepts_quiet ho s, hU i s _ ho⟩, fun r hr => ?_⟩
  show I (s.next cfg.engine (.op o) r) ∧ (s.next cfg.engine (.op o) r).expects cfg staging (.op o) r ∧
    V i (s.next cfg.engine (.op o) r) (.op o) r
  rw [View.next_quiet ho]
  exact ⟨hs, hr.1, hr.2⟩

theorem op' (hU : Lenient U) {o : Op} {X : Error → View → Prop}
    (ho : View.quiet (.op o) = true) :
    (viewWatch cfg staging U V i).Spec I (perform o) (fun _ => I) X :=
  .post (hU.op (X := X) ho) fun _ _ hs => hs.1

theorem recordTiming (hU : Lenient U) (key : String) (t₀ : Int) :
    (viewWatch cfg staging U V i).Spec I (PipelineState.recordTiming key t₀) (fun _ => I)
      fun _ => I := by
  refine .bind (hU.op' rfl) fun _ => .withLock_of_keeps (hU.keeps rfl) ?_ (fun _ => hU.keeps rfl)
    fun _ => hU.keeps rfl
  exact .bind (hU.uses (alloc_uses (U := (· = .op .allocate)) rfl) fun a ha => ha ▸ rfl) fun _ =>
    hU.op' rfl

theorem validateContextBudget (hU : Lenient U) {E : Engine} (prefixTokens : Int)
    (prompts : List String) (nCtx : Nat) (headroom : Int) :
    (viewWatch cfg staging U V i).Spec I
      (swarmkvValidateContextBudget E prefixTokens prompts nCtx headroom) (fun _ => I) fun _ => I := by
  have hmost : ∀ (rest : List String) (most : Int), (viewWatch cfg staging U V i).Spec I
      (maxBranchTokens E rest most) (fun _ => I) fun _ => I := by
    intro rest
    induction rest with
    | nil => exact fun _ => .ret fun _ hs => hs
    | cons prompt rest ih =>
      exact fun most =>
        .bind (.post (tokenizeWith_spec (hU.keeps rfl)) fun _ _ hs => hs.1) fun _ => ih _
  unfold swarmkvValidateContextBudget
  refine .ite (fun _ => .throw fun _ hs => hs) fun _ => .bind (hmost _ _) fun _ => ?_
  exact .ite (fun _ => .throw fun _ hs => hs) fun _ => .ret fun _ hs => hs

/-- The caller frees the buffers when it has waited for all workers. -/
theorem joinAll (hU : Lenient U) (hcaller : ∀ s a, CallerAction a → U .main s a) :
    (viewWatch cfg staging U V .main).Spec (· = {}) cfg.orchestrator.joinAll
      (fun _ _ => True) fun _ _ => True := by
  have hjoin : ∀ names joined, (viewWatch cfg staging U V .main).Spec (fun s => s.joined = joined)
      (Orchestrator.joinWorkers names) (fun _ s => s.joined = names.reverse ++ joined)
      fun _ _ => True := by
    intro names
    induction names with
    | nil => exact fun joined => .ret fun _ hs => hs
    | cons n names ih =>
      refine fun joined => .bind (Q := fun _ s => s.joined = n :: joined) (.op fun s hs =>
        ⟨⟨trivial, hcaller s _ (.awaitTask n)⟩, fun _ _ => congrArg (n :: ·) hs⟩) fun _ => ?_
      have hrest := ih (n :: joined)
      rw [List.reverse_cons, List.append_assoc]
      exact hrest
  have hfree : ∀ bs, (viewWatch cfg staging U V .main).Spec
      (fun s => ∀ n ∈ cfg.orchestrator.names, n ∈ s.joined) (MemoryPool.freeBuffers bs)
      (fun _ s => ∀ n ∈ cfg.orchestrator.names, n ∈ s.joined) fun _ _ => True := by
    intro bs
    induction bs with
    | nil => exact .ret fun _ hs => hs
    | cons b bs ih =>
      exact .bind (.op fun s hs => ⟨⟨hs, hcaller s _ (.freeBuffer b)⟩, fun _ _ => hs⟩) fun _ => ih
  refine .bind (.pre (hjoin cfg.orchestrator.names []) fun s hs => hs ▸ rfl) fun _ => ?_
  refine .conseq (I := fun s => ∀ n ∈ cfg.orchestrator.names, n ∈ s.joined)
    (J := fun _ _ => True) (K := fun _ _ => True) (.withLock_of_keeps (hU.keeps rfl) ?_
      (fun _ => hU.keeps rfl) fun _ => hU.keeps rfl) (fun s hs n hn => ?_) (fun _ _ hs => hs)
    fun _ _ hs => hs
  · refine .bind (hU.op' rfl) fun bs => .bind (hfree bs) fun _ => ?_
    exact .pre (hU.op' (I := fun _ => True) (X := fun _ _ => True) rfl) fun _ _ => trivial
  · rw [hs, List.append_nil, List.mem_reverse]
    exact hn

end Lenient

/-- All threads keep to the rules when the nodes do. -/
theorem Pipeline.program_view {cfg : Pipeline} {staging : Option Nat}
    {U : Thread → View → Action sig → Prop} {V : Thread → View → (a : Action sig) → a.Res → Prop}
    (hU : Lenient U) (hcaller : ∀ s a, CallerAction a → U .main s a)
    (hworker : ∀ n s a, WorkerAction n a → U (.worker n) s a)
    (hnode : ∀ n node ctx, cfg.orchestrator.node n = some node → ctx.engine = cfg.engine →
      (viewWatch cfg staging U V (.worker n)).Spec (· = {}) (node.execute ctx)
        (fun _ s => s.held = false) fun _ s => s.held = false) (i : Thread) :
    (viewWatch cfg staging U V i).Meets (cfg.program i) (fun _ _ => True) {} := by
  cases i with
  | main => exact (hU.joinAll hcaller {} rfl).mono fun _ _ _ => trivial
  | worker n =>
    show (viewWatch cfg staging U V (.worker n)).Meets (if n ∈ cfg.orchestrator.names then
      cfg.orchestrator.worker cfg.engine n else pure () : Prog Unit) _ _
    split
    · have hspec : (viewWatch cfg staging U V (.worker n)).Spec (· = {})
          (cfg.orchestrator.worker cfg.engine n) (fun _ s => s.held = false)
          fun _ s => s.held = false := by
        refine Orchestrator.worker_spec (I := (· = {})) (J := (· = {})) (fun s hs => hs ▸ rfl)
          (fun node _ => ?_) (fun s hs => ?_) (fun a ha hne s hs => ?_) (fun t a ha => ?_)
          fun node ctx hn hE _ => hnode n node ctx hn hE
        · refine .err (hU.uses (I := (· = {})) (Orchestrator.awaitDependencies_uses _ _)
            fun a ha => ?_) fun _ s hs => hs ▸ rfl
          cases ha <;> rfl
        · exact ⟨⟨trivial, hworker n s _ .start⟩, fun _ _ => hs⟩
        · cases ha with
          | start => exact absurd rfl hne
          | finish r => exact ⟨⟨trivial, hworker n s _ (.finish r)⟩, fun _ _ => hs⟩
          | setPromise r => exact ⟨⟨trivial, hworker n s _ (.setPromise r)⟩, fun _ _ => hs⟩
          | setTask r => exact ⟨⟨⟨rfl, hs⟩, hworker n s _ (.setTask r)⟩, fun _ _ => hs⟩
        · refine hU.keeps ?_
          cases ha <;> rfl
      exact (hspec {} rfl).mono fun _ _ _ => trivial
    · trivial

end SwarmKV
