import SwarmKV.Spec.Protocol

/-!
# The prefiller decodes

The prefiller's assertion has two halves. `Committed` says how far it has got: the
last value it has called `commit_watermark` with, and what it has published.
`HoldsDoc` says what its context holds. Decoding moves the second.
-/

namespace SwarmKV.Pipeline

open Monitor.Outline

variable {cfg : Pipeline} {n : String} {H : Finset Lock} {w w' : World}

/-- The prefill provider `n` is in its loop and has called `commit_watermark` up
    to `q`. -/
structure Called (cfg : Pipeline) (n : String) (q : Nat) (w : World) : Prop where
  prefill : cfg.orchestrator.isPrefill n
  running : cfg.Running n w
  inMemory : ¬ w.OutOfMemory n
  below : ∀ t ∈ w.commits (.worker n), t ≤ q
  last : 0 < q → (w.commits (.worker n)).getLast? = some (q : Int)
  nBatch : 0 < q → cfg.engine.llamaNBatch < 2 ^ 31

/-- The prefill provider `n` has published `p`. -/
structure Published (cfg : Pipeline) (n : String) (p : Nat) (w : World) : Prop where
  watermark : cfg.orchestrator.Sole n → w.state.watermark = p
  seqLen : cfg.orchestrator.Sole n → w.state.prefixSeqLen ≤ p
  canonical : cfg.orchestrator.Sole n → 0 < p →
    (w.state.prefixSeqLen = p ↔ cfg.IsMilestone p)

/-- The prefill provider `n` has called `commit_watermark` up to `q`, and published
    `p`. -/
structure Committed (cfg : Pipeline) (n : String) (q p : Nat) (w : World) : Prop extends
  Called cfg n q w, Published cfg n p w

/-- Something was decoded into these cells, so that batches have tokens. -/
def DecodedInto (cfg : Pipeline) (cells : List KvCell) : Prop :=
  seqState kSwarmkvPrefixSeqId cells ≠ [] ∧ cfg.engine.llamaNBatch < 2 ^ 31

/-- The context `h` of the prefill provider `n` holds the first `c` tokens; `ne` says
    that something was decoded into it. -/
def HoldsDoc (cfg : Pipeline) (n : String) (h c : Nat) (ne : Prop) (w : World) : Prop :=
  ∃ cells, w.contexts h = some ⟨.worker n, cells⟩ ∧
    (cfg.Good w → ∃ s, cfg.IsPrefix c s ∧ cells = toCells s) ∧ (ne → cfg.DecodedInto cells)

theorem Closed.called {q : Nat} : cfg.Closed (.worker n) H (cfg.Called n q) :=
  fun w w' h hq => {
    prefill := h.prefill
    running := Closed.running w w' h.running hq
    inMemory := fun hm => h.inMemory (hq.badAlloc hm)
    below := by
      rw [hq.commits]
      exact h.below
    last := by
      rw [hq.commits]
      exact h.last
    nBatch := h.nBatch }

theorem Closed.published {p : Nat} : cfg.Closed (.worker n) H (cfg.Published n p) :=
  fun w w' h hq => {
    watermark := fun hs => (hq.sole n hs rfl).1.trans (h.watermark hs)
    seqLen := fun hs => by
      rw [(hq.sole n hs rfl).2]
      exact h.seqLen hs
    canonical := fun hs => by
      rw [(hq.sole n hs rfl).2]
      exact h.canonical hs }

theorem Closed.committed {q p : Nat} : cfg.Closed (.worker n) H (cfg.Committed n q p) :=
  fun w w' h hq =>
    ⟨Closed.called w w' h.toCalled hq, Closed.published w w' h.toPublished hq⟩

theorem Closed.holdsDoc {h c : Nat} {ne : Prop} :
    cfg.Closed (.worker n) H (cfg.HoldsDoc n h c ne) := by
  intro w w' hd hq
  obtain ⟨cells, hctx, hcells, hne⟩ := hd
  exact ⟨cells, hq.contexts h _ hctx rfl, fun hgood => hcells (hgood.grows hq.grows), hne⟩

/-! ## Frames -/

theorem Running.congr (h : cfg.Running n w) (hlog : w'.log = w.log) (htasks : w'.tasks = w.tasks)
    (hpromises : w'.promises = w.promises) : cfg.Running n w' where
  live := ⟨h.live.1, by rw [htasks, h.live.2]⟩
  promise := by rw [hpromises, h.promise]
  started := by
    rw [World.Started, hlog]
    exact h.started
  notEnded r := by
    rw [World.Ended, hlog]
    exact h.notEnded r

/-- What the prefiller has called does not depend on handles or the blackboard. -/
theorem Called.congr {q : Nat} (h : cfg.Called n q w) (hlog : w'.log = w.log)
    (htasks : w'.tasks = w.tasks) (hpromises : w'.promises = w.promises) :
    cfg.Called n q w' where
  prefill := h.prefill
  running := h.running.congr hlog htasks hpromises
  inMemory := by
    rw [World.OutOfMemory, hlog]
    exact h.inMemory
  below := by
    rw [World.commits, hlog]
    exact h.below
  last := by
    rw [World.commits, hlog]
    exact h.last
  nBatch := h.nBatch

theorem Published.congr {p : Nat} (h : cfg.Published n p w) (hstate : w'.state = w.state) :
    cfg.Published n p w' where
  watermark := by
    rw [hstate]
    exact h.watermark
  seqLen := by
    rw [hstate]
    exact h.seqLen
  canonical := by
    rw [hstate]
    exact h.canonical

/-- What the prefiller has committed does not depend on handles. -/
theorem Committed.congr {q p : Nat} (h : cfg.Committed n q p w) (hstate : w'.state = w.state)
    (hlog : w'.log = w.log) (htasks : w'.tasks = w.tasks) (hpromises : w'.promises = w.promises) :
    cfg.Committed n q p w' :=
  ⟨h.toCalled.congr hlog htasks hpromises, h.toPublished.congr hstate⟩

/-- The canonical triple does not depend on contexts. -/
theorem InBody.setContexts (h : cfg.InBody n H w) (f : Nat → Option LlamaContext) :
    cfg.InBody n H { w with contexts := f } where
  running := h.running.congr rfl rfl rfl
  stagingLive := h.stagingLive
  triple hH hgood := h.triple hH (hgood.grows fun _ => List.prefix_rfl)

/-- Events other than a commit, an end or a failed allocation do not matter. -/
theorem Called.record {q : Nat} (h : cfg.Called n q w) {e : Event}
    (hc : e.committed = none) (he : ∀ r, e ≠ .executeEnd r) (hb : e ≠ .badAlloc) :
    cfg.Called n q (w.record (.worker n) e) := by
  have hcommits : (w.record (.worker n) e).commits (.worker n) = w.commits (.worker n) := by
    simp [World.commits, World.record, hc]
  exact {
    prefill := h.prefill
    running := h.running.record he
    inMemory := fun hm => h.inMemory (by
      simpa [World.OutOfMemory, World.record, hb.symm] using hm)
    below := by
      rw [hcommits]
      exact h.below
    last := by
      rw [hcommits]
      exact h.last
    nBatch := h.nBatch }

theorem HoldsDoc.record {h c : Nat} {ne : Prop} (hd : cfg.HoldsDoc n h c ne w) (e : Event) :
    cfg.HoldsDoc n h c ne (w.record (.worker n) e) := by
  obtain ⟨cells, hctx, hcells, hne⟩ := hd
  exact ⟨cells, hctx, fun hgood => hcells (hgood.grows (w.log_grows_record _ e)), hne⟩

/-! ## Decoding -/

/-- Decoding the next `k` tokens of the document extends the prefix. -/
theorem IsPrefix.add (hn : cfg.orchestrator.isPrefill n) {c k : Nat} {s : SeqState}
    (hs : cfg.IsPrefix c s) (hk : c + k ≤ (cfg.doc n).length) :
    cfg.IsPrefix (c + k) (s ++ seqFrom c (((cfg.doc n).drop c).take k)) := by
  have hlen : (((cfg.doc n).drop c).take k).length = k := by
    rw [List.length_take, List.length_drop]
    omega
  constructor
  · have := hs.1.append (((cfg.doc n).drop c).take k)
    rwa [hlen] at this
  · intro p hp
    obtain rfl := hp.2 n hn
    rw [hs.2 n hp, docSeq_add _ (by omega)]

/-- A decoded batch moves the context's assertion on. -/
theorem HoldsDoc.decode (hn : cfg.orchestrator.isPrefill n) {h c m id : Nat} {cells : List KvCell}
    (hctx : w.contexts h = some ⟨.worker n, cells⟩)
    (hcells : cfg.Good w → ∃ s, cfg.IsPrefix c s ∧ cells = toCells s)
    (htokens : ((cfg.doc n).drop c).take m ≠ []) (hm : c + m ≤ (cfg.doc n).length)
    (hlt : cfg.engine.llamaNBatch < 2 ^ 31) :
    cfg.HoldsDoc n h (c + m) True (w.setCells h
      (cells ++ (fillBatch id (((cfg.doc n).drop c).take m) c false).cells)) := by
  refine ⟨cells ++ (fillBatch id (((cfg.doc n).drop c).take m) c false).cells, ?_,
    fun hgood => ?_, fun _ => ?_⟩
  · simp only [World.setCells, hctx, Function.update_self, Option.map_some]
  · obtain ⟨s, hs, rfl⟩ := hcells (hgood.grows fun _ => List.prefix_rfl)
    refine ⟨_, hs.add hn hm, ?_⟩
    rw [toCells_append, cells_fillBatch]
  · rw [cells_fillBatch]
    exact ⟨seqState_append_ne_nil htokens c, hlt⟩

/-- `decode_token_range`, for any state of the fuel. -/
theorem decodeLoop_triple {h q p : Nat} (hn : cfg.orchestrator.isPrefill n) (ne : Prop)
    (fuel c k : Nat) (hfuel : k ≤ fuel) (hk : c + k ≤ (cfg.doc n).length) :
    cfg.outline.Triple (.worker n) {.llamaApiMutex}
      (fun w => cfg.Committed n q p w ∧ cfg.HoldsDoc n h c ne w ∧
        cfg.InBody n {.llamaApiMutex} w)
      (PrefillNode.decodeLoop cfg.engine h (cfg.doc n) fuel c k)
      (fun _ w => cfg.Committed n q p w ∧ cfg.HoldsDoc n h (c + k) (ne ∨ 0 < k) w ∧
        cfg.InBody n {.llamaApiMutex} w)
      (cfg.Failing n {.llamaApiMutex}) := by
  induction fuel generalizing c k ne with
  | zero =>
    obtain rfl : k = 0 := by omega
    exact Triple.ret fun w _ hw => ⟨hw.1, by simpa using hw.2.1, hw.2.2⟩
  | succ fuel ih =>
    have hclosed : ∀ {c : Nat} {ne : Prop}, cfg.Closed (.worker n) {.llamaApiMutex} fun w =>
        cfg.Committed n q p w ∧ cfg.HoldsDoc n h c ne w ∧ cfg.InBody n {.llamaApiMutex} w :=
      Closed.committed.and (Closed.holdsDoc.and Closed.inBody)
    -- behind a batch that could not be decoded
    have hthrow : ∀ id, cfg.outline.Triple (.worker n) {.llamaApiMutex}
        (fun w => cfg.Committed n q p w ∧ cfg.HoldsDoc n h c ne w ∧
          cfg.InBody n {.llamaApiMutex} w)
        (do
          perform (.llamaBatchFree id)
          throw .prefillDecodeFailed : Prog Unit)
        (fun _ w => cfg.Committed n q p w ∧ cfg.HoldsDoc n h (c + k) (ne ∨ 0 < k) w ∧
          cfg.InBody n {.llamaApiMutex} w) (cfg.Failing n {.llamaApiMutex}) := fun id =>
      Triple.bind (quiet_op' rfl hclosed (fun w hw => hw.2.2.running) fun _ _ _ => trivial)
        fun _ => Triple.throw fun w _ hw => hw.2.2.failing (by simp)
    by_cases hpos : 0 < k
    · obtain ⟨hlt, m, hm, hmk, -, heq⟩ | ⟨-, nTokens, hneg, heq⟩ :=
        PrefillNode.decodeLoop_succ (E := cfg.engine) (cfg.doc n) h fuel
          hpos hk
      · -- a chunk of the document
        have htokens : ((cfg.doc n).drop c).take m ≠ [] := by
          apply List.ne_nil_of_length_pos
          rw [List.length_take, List.length_drop]
          omega
        rw [heq]
        refine Triple.bind (quiet_op' rfl hclosed (fun w hw => hw.2.2.running)
          fun _ _ _ => trivial) fun id => ?_
        refine Triple.bind (Q := fun (ok : Bool) w => if ok then
            cfg.Committed n q p w ∧ cfg.HoldsDoc n h (c + m) True w ∧
              cfg.InBody n {.llamaApiMutex} w
          else cfg.Committed n q p w ∧ cfg.HoldsDoc n h c ne w ∧
            cfg.InBody n {.llamaApiMutex} w) ?_ fun ok => ?_
        · refine Triple.op hclosed.stable fun w hinv hw => ?_
          obtain ⟨hcom, ⟨cells, hctx, hcells, hne⟩, hbody⟩ := hw
          refine ⟨⟨hbody.running.live, n, rfl, hbody.running, id, c, _, false, _, rfl, hctx, rfl,
            hcells, fun hp => absurd hn (by simp [hp])⟩, fun x r w' hx _ => ⟨rfl, ?_⟩⟩
          obtain ⟨rfl, rfl⟩ | ⟨ctx, hctx', -, rfl, rfl⟩ := exec_llamaDecode hx
          · exact ⟨hcom, ⟨cells, hctx, hcells, hne⟩, hbody⟩
          · obtain rfl := Option.some.inj (hctx.symm.trans hctx')
            exact ⟨hcom.congr rfl rfl rfl rfl, .decode hn hctx hcells htokens (by omega) hlt,
              hbody.setContexts _⟩
        · cases ok with
          | false => exact hthrow id
          | true =>
            refine Triple.bind (quiet_op' rfl hclosed (fun w hw => hw.2.2.running)
              fun _ _ _ => trivial) fun _ => ?_
            refine (ih True (c + m) (k - m) (by omega) (by omega)).conseq
              (fun _ _ h => h) (fun _ w _ hw => ?_) (fun _ _ _ h => h)
            have hsum : c + m + (k - m) = c + k := by omega
            obtain ⟨hcom, ⟨cells, hctx, hcells, hne⟩, hbody⟩ := hw
            rw [hsum] at hcells
            exact ⟨hcom, ⟨cells, hctx, hcells, fun _ => hne (.inl trivial)⟩, hbody⟩
      · -- a batch whose `n_tokens` is negative is not decoded
        rw [heq]
        refine Triple.bind (quiet_op' rfl hclosed (fun w hw => hw.2.2.running)
          fun _ _ _ => trivial) fun id => ?_
        refine Triple.bind (Q := fun (ok : Bool) w => ok = false ∧ cfg.Committed n q p w ∧
          cfg.HoldsDoc n h c ne w ∧ cfg.InBody n {.llamaApiMutex} w) ?_ fun ok => ?_
        · refine Triple.op hclosed.stable fun w hinv hw => ?_
          obtain ⟨hcom, ⟨cells, hctx, hcells, hne⟩, hbody⟩ := hw
          refine ⟨⟨hbody.running.live, n, rfl, hbody.running, id, c, [], false, _, rfl, hctx, rfl,
            hcells, fun hp => absurd hn (by simp [hp])⟩, fun x r w' hx _ => ⟨rfl, ?_⟩⟩
          obtain ⟨rfl, rfl⟩ | ⟨ctx, -, hpos', -, -⟩ := exec_llamaDecode hx
          · exact ⟨rfl, hcom, ⟨cells, hctx, hcells, hne⟩, hbody⟩
          · exact absurd hpos' (not_lt.mpr hneg.le)
        · cases ok with
          | false => exact (hthrow id).conseq (fun w _ hw => hw.2) (fun _ _ _ h => h) fun _ _ _ h => h
          | true => exact Triple.fix fun w hw _ => Bool.noConfusion hw.1
    · obtain rfl : k = 0 := by omega
      have hzero : PrefillNode.decodeLoop cfg.engine h (cfg.doc n) (fuel + 1) c 0 = pure () := by
        simp [PrefillNode.decodeLoop]
      rw [hzero]
      exact Triple.ret fun w _ hw => ⟨hw.1, by simpa using hw.2.1, hw.2.2⟩

end SwarmKV.Pipeline
