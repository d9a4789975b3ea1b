import SwarmKV.Spec.Outline
import SwarmKV.Monitor.Hoare

/-!
# Quiet moves

Most actions inside `execute()` do not touch what the properties of a run speak
about. `Quiet` says what such moves, of the thread itself and of others, leave
alone; an assertion that is `Closed` under it can be carried past them. The
helpers that consist of quiet actions get their triples here, for any such
assertion.
-/

namespace SwarmKV

/-- Actions that neither write a field of the prefix protocol, nor change an
    existing handle, nor speak to another thread. -/
def Op.quiet : Op → Bool
  | .noteFork _ _ _ | .load | .putOutput _ _ | .putTiming _ _ | .steadyClock
  | .llamaInitFromModel | .llamaBatchInit | .llamaBatchFree _ | .llamaStateGetSize _ _
  | .llamaStateSeqGetSize _ _ | .allocBuffer _ | .bufferSize _ | .readBytes _ _
  | .pushActiveBuffer _ => true
  | _ => false

namespace Pipeline

variable {cfg : Pipeline}

/-- What quiet moves leave of the world, for thread `i` with the mutexes `H`. -/
structure Quiet (cfg : Pipeline) (i : Thread) (H : Finset Lock) (w w' : World) : Prop where
  grows : ∀ j, w.log j <+: w'.log j
  ended : ∀ r, .executeEnd r ∈ w'.log i → .executeEnd r ∈ w.log i
  badAlloc : .badAlloc ∈ w'.log i → .badAlloc ∈ w.log i
  commits : w'.commits i = w.commits i
  contexts : ∀ h ctx, w.contexts h = some ctx → ctx.owner = i → w'.contexts h = some ctx
  ownPromise : ∀ n, i = .worker n → w'.promises n = w.promises n
  ownTask : ∀ n, i = .worker n → w'.tasks n = w.tasks n
  prefixSeqLen : .llamaApiMutex ∈ H → ∀ n, i = .worker n → cfg.Live n w →
    w'.state.prefixSeqLen = w.state.prefixSeqLen
  prefixKvSerialBytes : .llamaApiMutex ∈ H → ∀ n, i = .worker n → cfg.Live n w →
    w'.state.prefixKvSerialBytes = w.state.prefixKvSerialBytes
  prefixSnapshots : .llamaApiMutex ∈ H → ∀ n, i = .worker n → cfg.Live n w →
    w'.state.prefixSnapshots = w.state.prefixSnapshots
  buffers : .llamaApiMutex ∈ H → ∀ n, i = .worker n → cfg.Live n w →
    ∀ b buf, w.buffers b = some buf → w'.buffers b = some buf
  mutex : .watermarkMutex ∈ H → w'.state.watermark = w.state.watermark ∧
    w'.state.prefixSnapshots = w.state.prefixSnapshots
  watermark : ∀ p, cfg.orchestrator.Sole p → w.state.watermark ≤ w'.state.watermark
  sole : ∀ p, cfg.orchestrator.Sole p → i = .worker p →
    w'.state.watermark = w.state.watermark ∧ w'.state.prefixSeqLen = w.state.prefixSeqLen

section Quiet

variable {i : Thread} {H H' : Finset Lock} {w w' w'' : World}

theorem Rely.quiet (h : cfg.Rely i H w w') : cfg.Quiet i H w w' where
  grows := h.grows
  ended _ hr := by rwa [h.log] at hr
  badAlloc hr := by rwa [h.log] at hr
  commits := by simp only [World.commits, h.log]
  contexts := h.contexts
  ownPromise := h.ownPromise
  ownTask := h.ownTask
  prefixSeqLen hH n hn hl := (h.guarded hH n hn hl).prefixSeqLen
  prefixKvSerialBytes hH n hn hl := (h.guarded hH n hn hl).prefixKvSerialBytes
  prefixSnapshots hH n hn hl := (h.guarded hH n hn hl).prefixSnapshots
  buffers hH n hn hl b buf hb := by rw [(h.guarded hH n hn hl).buffers, hb]
  mutex := h.mutex
  watermark := h.watermark
  sole := h.sole

theorem Quiet.refl (cfg : Pipeline) (i : Thread) (H : Finset Lock) (w : World) :
    cfg.Quiet i H w w :=
  Rely.quiet (Rely.refl cfg i H w)

theorem Quiet.trans (h : cfg.Quiet i H w w') (h' : cfg.Quiet i H w' w'') :
    cfg.Quiet i H w w'' := by
  have hlive : ∀ n, i = .worker n → cfg.Live n w → cfg.Live n w' :=
    fun n hn hl => ⟨hl.1, (h.ownTask n hn).trans hl.2⟩
  exact {
    grows := fun j => (h.grows j).trans (h'.grows j)
    ended := fun r hr => h.ended r (h'.ended r hr)
    badAlloc := fun hr => h.badAlloc (h'.badAlloc hr)
    commits := h'.commits.trans h.commits
    contexts := fun k ctx hk ho => h'.contexts k ctx (h.contexts k ctx hk ho) ho
    ownPromise := fun n hn => (h'.ownPromise n hn).trans (h.ownPromise n hn)
    ownTask := fun n hn => (h'.ownTask n hn).trans (h.ownTask n hn)
    prefixSeqLen := fun hH n hn hl =>
      (h'.prefixSeqLen hH n hn (hlive n hn hl)).trans (h.prefixSeqLen hH n hn hl)
    prefixKvSerialBytes := fun hH n hn hl =>
      (h'.prefixKvSerialBytes hH n hn (hlive n hn hl)).trans (h.prefixKvSerialBytes hH n hn hl)
    prefixSnapshots := fun hH n hn hl =>
      (h'.prefixSnapshots hH n hn (hlive n hn hl)).trans (h.prefixSnapshots hH n hn hl)
    buffers := fun hH n hn hl b buf hb =>
      h'.buffers hH n hn (hlive n hn hl) b buf (h.buffers hH n hn hl b buf hb)
    mutex := fun hH =>
      ⟨(h'.mutex hH).1.trans (h.mutex hH).1, (h'.mutex hH).2.trans (h.mutex hH).2⟩
    watermark := fun p hp => (h.watermark p hp).trans (h'.watermark p hp)
    sole := fun p hp hi => ⟨(h'.sole p hp hi).1.trans (h.sole p hp hi).1,
      (h'.sole p hp hi).2.trans (h.sole p hp hi).2⟩ }

theorem Quiet.mono (hH : H ⊆ H') (h : cfg.Quiet i H' w w') : cfg.Quiet i H w w' where
  grows := h.grows
  ended := h.ended
  badAlloc := h.badAlloc
  commits := h.commits
  contexts := h.contexts
  ownPromise := h.ownPromise
  ownTask := h.ownTask
  prefixSeqLen hg := h.prefixSeqLen (hH hg)
  prefixKvSerialBytes hg := h.prefixKvSerialBytes (hH hg)
  prefixSnapshots hg := h.prefixSnapshots (hH hg)
  buffers hg := h.buffers (hH hg)
  mutex hm := h.mutex (hH hm)
  watermark := h.watermark
  sole := h.sole

/-- A quiet action is a quiet move. -/
theorem quiet_step {o : Op} {x : Choice} {r : o.Res} (ho : o.quiet) (hinv : cfg.Inv w)
    (hx : exec cfg.engine i o x w = some (r, w')) : cfg.Quiet i H w w' where
  grows := exec_log_grows hx
  ended q hq := by
    rcases exec_mem_log hx hq with hq | ⟨-, hemit⟩
    · exact hq
    · cases hemit
      cases ho
  badAlloc hq := by
    rcases exec_mem_log hx hq with hq | ⟨-, hemit⟩
    · exact hq
    · cases hemit <;> cases ho
  commits := by
    rcases exec_log hx with hl | ⟨e, hemit, hl⟩
    · simp only [World.commits, hl]
    · rw [World.commits_append hl]
      cases hemit with
      | noteFork => simp [Event.committed]
      | _ => cases ho
  contexts h ctx hh _ := by
    rcases exec_contexts hx with ⟨hc, -⟩ | ⟨-, -, hc⟩ | ⟨-, h', rfl, -⟩ | ⟨-, h', cells, hop, -⟩
    · rw [hc, hh]
    · -- a new context has a new handle
      have hne : h ≠ w.nextContext := by
        rintro rfl
        cases (hinv.freshContext _ le_rfl).symm.trans hh
      rw [hc, Function.update_of_ne hne, hh]
    · cases ho
    · rcases hop with ⟨_, rfl⟩ | ⟨_, _, _, rfl⟩ <;> cases ho
  ownPromise n _ := by
    rcases exec_promises hx with heq | ⟨m, q, rfl, -⟩
    · rw [heq]
    · cases ho
  ownTask n _ := by
    rcases exec_tasks hx with heq | ⟨m, q, rfl, -⟩
    · rw [heq]
    · cases ho
  prefixSeqLen _ _ _ _ := by
    rcases exec_prefixSeqLen hx with heq | ⟨t, rfl, -⟩
    · exact heq
    · cases ho
  prefixKvSerialBytes _ _ _ _ := by
    rcases exec_prefixKvSerialBytes hx with heq | ⟨t, rfl, -⟩
    · exact heq
    · cases ho
  prefixSnapshots _ _ _ _ := by
    rcases exec_prefixSnapshots hx with heq | ⟨t, data, rfl, -⟩
    · exact heq
    · cases ho
  buffers _ _ _ _ b buf hb := by
    rcases exec_buffers hx with ⟨hc, -⟩ | ⟨size, -, -, hc⟩ | ⟨-, b', rfl, -⟩ | ⟨-, b', bytes, hop, -⟩
    · rw [hc, hb]
    · -- and a new buffer as well
      have hne : b ≠ w.nextBuffer := by
        rintro rfl
        cases (hinv.freshBuffer _ le_rfl).symm.trans hb
      rw [hc, Function.update_of_ne hne, hb]
    · cases ho
    · rcases hop with rfl | ⟨_, _, _, rfl⟩ <;> cases ho
  mutex _ := by
    constructor
    · rcases exec_watermark hx with heq | ⟨t, rfl, -⟩
      · exact heq
      · cases ho
    · rcases exec_prefixSnapshots hx with heq | ⟨t, data, rfl, -⟩
      · exact heq
      · cases ho
  watermark p _ := by
    rcases exec_watermark hx with heq | ⟨t, rfl, -⟩
    · rw [heq]
    · cases ho
  sole p _ _ := by
    constructor
    · rcases exec_watermark hx with heq | ⟨t, rfl, -⟩
      · exact heq
      · cases ho
    · rcases exec_prefixSeqLen hx with heq | ⟨t, rfl, -⟩
      · exact heq
      · cases ho

/-- Quiet moves keep the assertion. -/
def Closed (cfg : Pipeline) (i : Thread) (H : Finset Lock) (A : World → Prop) : Prop :=
  ∀ w w', A w → cfg.Quiet i H w w' → A w'

theorem Closed.stable {A : World → Prop} (h : cfg.Closed i H A) : cfg.outline.Stable i H A :=
  fun w w' hA hR _ => h w w' hA (Rely.quiet hR)

theorem Closed.mono {A : World → Prop} (hH : H ⊆ H') (h : cfg.Closed i H A) : cfg.Closed i H' A :=
  fun w w' hA hq => h w w' hA (hq.mono hH)

theorem Closed.and {A B : World → Prop} (hA : cfg.Closed i H A) (hB : cfg.Closed i H B) :
    cfg.Closed i H fun w => A w ∧ B w :=
  fun w w' h hq => ⟨hA w w' h.1 hq, hB w w' h.2 hq⟩

theorem Closed.const {p : Prop} : cfg.Closed i H fun _ => p := fun _ _ h _ => h

/-- What holds under `Good` can be carried along under `Good`. -/
theorem Closed.good {A : World → Prop} (hA : cfg.Closed i H A) :
    cfg.Closed i H fun w => cfg.Good w → A w :=
  fun w w' h hq hgood => hA w w' (h (hgood.grows hq.grows)) hq

theorem Closed.exported {s : SeqState} {bytes : List UInt8} :
    cfg.Closed i H fun w => w.Exported s bytes :=
  fun _ _ h hq => h.grows hq.grows

theorem Closed.mem_log {j : Thread} {e : Event} : cfg.Closed i H fun w => e ∈ w.log j :=
  fun _ _ h hq => (hq.grows j).subset h

theorem Closed.forkOk {len : Int} {bytes : List UInt8} :
    cfg.Closed i H fun w => cfg.ForkOk w len bytes :=
  fun _ _ h hq => h.grows hq.grows

end Quiet

section Body

variable {n : String} {H : Finset Lock} {w w' : World}

theorem Quiet.live (h : cfg.Quiet (.worker n) H w w') (hl : cfg.Live n w) : cfg.Live n w' :=
  ⟨hl.1, (h.ownTask n rfl).trans hl.2⟩

theorem Closed.running : cfg.Closed (.worker n) H (cfg.Running n) := fun _ _ h hq => {
  live := hq.live h.live
  promise := (hq.ownPromise n rfl).trans h.promise
  started := (hq.grows _).subset h.started
  notEnded := fun r hr => h.notEnded r (hq.ended r hr) }

/-- The bytes behind a handle that existed before. -/
theorem Quiet.branchBytes (h : cfg.Quiet (.worker n) H w w') (hH : .llamaApiMutex ∈ H)
    (hl : cfg.Live n w) {buffer : Option Nat} (hb : ∀ b, buffer = some b → (w.buffers b).isSome)
    (k : Nat) : w'.branchBytes buffer k = w.branchBytes buffer k := by
  cases buffer with
  | none => rfl
  | some b =>
    obtain ⟨buf, hbuf⟩ := Option.isSome_iff_exists.mp (hb b rfl)
    have hbuf' := h.buffers hH n rfl hl b buf hbuf
    simp only [World.branchBytes, Option.elim, World.bytesAt, hbuf, hbuf']

/-- While a worker lives, the canonical buffer does. -/
theorem Inv.stagingLive' (h : cfg.Inv w) (hl : cfg.Live n w) :
    ∀ b, cfg.stagingBuffer = some b → (w.buffers b).isSome := by
  rcases h.stagingLive with hdone | hlive
  · have := hdone n hl.1
    rw [hl.2] at this
    cases this
  · exact hlive

/-- The assertion of a node inside `execute()`: under the guard, the canonical triple
    is in order. -/
structure InBody (cfg : Pipeline) (n : String) (H : Finset Lock) (w : World) : Prop where
  running : cfg.Running n w
  stagingLive : .llamaApiMutex ∈ H → ∀ b, cfg.stagingBuffer = some b → (w.buffers b).isSome
  triple : .llamaApiMutex ∈ H → cfg.Good w → cfg.TripleOk w

theorem Closed.inBody : cfg.Closed (.worker n) H (cfg.InBody n H) := by
  intro w w' h hq
  have hl := h.running.live
  refine ⟨Closed.running w w' h.running hq, fun hH b hb => ?_, fun hH hgood => ?_⟩
  · obtain ⟨buf, hbuf⟩ := Option.isSome_iff_exists.mp (h.stagingLive hH b hb)
    rw [hq.buffers hH n rfl hl b buf hbuf]
    rfl
  · have htriple := h.triple hH (hgood.grows hq.grows)
    unfold TripleOk at htriple ⊢
    rw [hq.prefixSeqLen hH n rfl hl, hq.prefixKvSerialBytes hH n rfl hl,
      hq.branchBytes hH hl (h.stagingLive hH)]
    exact ⟨htriple.1.grows hq.grows, htriple.2⟩

theorem InBody.mono {H' : Finset Lock} (h : cfg.InBody n H w)
    (hH : .llamaApiMutex ∈ H' → .llamaApiMutex ∈ H) : cfg.InBody n H' w where
  running := h.running
  stagingLive hg := h.stagingLive (hH hg)
  triple hg := h.triple (hH hg)

/-- Events other than the end keep the node inside `execute()`. -/
theorem Running.record (h : cfg.Running n w) {e : Event} (he : ∀ r, e ≠ .executeEnd r) :
    cfg.Running n (w.record (.worker n) e) where
  live := h.live
  promise := h.promise
  started := (w.log_grows_record _ e _).subset h.started
  notEnded r hr := h.notEnded r (by simpa [World.Ended, World.record, (he r).symm] using hr)

theorem InBody.record (h : cfg.InBody n H w) {e : Event} (he : ∀ r, e ≠ .executeEnd r) :
    cfg.InBody n H (w.record (.worker n) e) where
  running := h.running.record he
  stagingLive := h.stagingLive
  triple hH hgood := by
    have hg := w.log_grows_record (.worker n) e
    have htriple := h.triple hH (hgood.grows hg)
    exact ⟨htriple.1.grows hg, htriple.2⟩

/-- The assertion with which an exception leaves a part of `execute()`. -/
structure Failing (cfg : Pipeline) (n : String) (H : Finset Lock) (e : Error) (w : World) :
    Prop where
  body : cfg.InBody n H w
  missing : ∀ t, e = .missingPrefixSnapshot t → ∀ p, cfg.orchestrator.Sole p →
    p ∈ cfg.orchestrator.getDependenciesForNode n → ¬ w.OutOfMemory p →
    ¬ CommitValue (cfg.doc p).length t

theorem Closed.failing {e : Error} : cfg.Closed (.worker n) H (cfg.Failing n H e) :=
  fun w w' h hq => {
    body := Closed.inBody w w' h.body hq
    missing := fun t ht p hp hdep hmem =>
      h.missing t ht p hp hdep fun hm => hmem ((hq.grows _).subset hm) }

theorem Failing.mono {H' : Finset Lock} {e : Error} (h : cfg.Failing n H e w)
    (hH : .llamaApiMutex ∈ H' → .llamaApiMutex ∈ H) : cfg.Failing n H' e w :=
  ⟨h.body.mono hH, h.missing⟩

/-- All exceptions but one say nothing about the graph. -/
theorem InBody.failing {e : Error} (h : cfg.InBody n H w)
    (he : ∀ t, e ≠ .missingPrefixSnapshot t) : cfg.Failing n H e w :=
  ⟨h, fun t ht => absurd ht (he t)⟩

end Body

end Pipeline

end SwarmKV
