import SwarmKV.Spec.View
import SwarmKV.Spec.Stuck

/-!
# What a thread knows fits the world

A thread that keeps to the rules of `View.accepts` is right about its context, its buffer and what
it has looked at under the guard, and the steps of other threads leave it so.
-/

namespace SwarmKV.Pipeline

open Monitor

variable {cfg : Pipeline} {staging : Option Nat} {i j : Thread} {n : String} {w w' : World}
  {s : View}

/-- `execute_pipeline`, from world `w` on. -/
def startAt (cfg : Pipeline) (w : World) : Config cfg.engine := { cfg.initial with data := w }

/-! ## The world alone -/

/-- The next handles are fresh. -/
structure FreshHandles (w : World) : Prop where
  context : ∀ h, w.nextContext ≤ h → w.contexts h = none
  buffer : ∀ b, w.nextBuffer ≤ b → w.buffers b = none

private theorem overwrite_isSome (w : World) (b b' : Nat) (bytes : List UInt8) :
    ((w.overwrite b bytes).buffers b').isSome = (w.buffers b').isSome := by
  by_cases hb : b' = b
  · subst hb
    simp [World.overwrite]
  · simp [World.overwrite, Function.update_of_ne hb]

theorem FreshHandles.exec (h : FreshHandles w) {E : Engine} {o : Op} {x : Choice} {r : o.Res}
    (hx : exec E i o x w = some (r, w')) : FreshHandles w' where
  context := by
    intro k hk
    obtain ⟨hctx, hnext⟩ | ⟨-, hnext, hctx⟩ | ⟨hnext, k', -, hctx⟩ | ⟨hnext, k', cells, -, hctx⟩ :=
      exec_contexts hx
    · rw [hctx]
      exact h.context k (hnext ▸ hk)
    · rw [hctx, Function.update_of_ne (by omega)]
      exact h.context k (by omega)
    · rw [hctx]
      by_cases hkk : k = k'
      · simp [hkk]
      · rw [Function.update_of_ne hkk]
        exact h.context k (hnext ▸ hk)
    · have hnone := h.context k (hnext ▸ hk)
      rw [hctx]
      by_cases hkk : k = k'
      · subst hkk
        simp [World.setCells, hnone]
      · simp only [World.setCells, Function.update_of_ne hkk]
        exact hnone
  buffer := by
    intro b hb
    obtain ⟨hbuf, hnext⟩ | ⟨size, -, hnext, hbuf⟩ | ⟨hnext, b', -, hbuf⟩ |
      ⟨hnext, b', bytes, -, hbuf⟩ := exec_buffers hx
    · rw [hbuf]
      exact h.buffer b (hnext ▸ hb)
    · rw [hbuf, Function.update_of_ne (by omega)]
      exact h.buffer b (by omega)
    · rw [hbuf]
      by_cases hbb : b = b'
      · simp [hbb]
      · rw [Function.update_of_ne hbb]
        exact h.buffer b (hnext ▸ hb)
    · have hnone := h.buffer b (hnext ▸ hb)
      rw [hbuf]
      have hsome := overwrite_isSome w b' b bytes
      rw [hnone] at hsome
      simpa using hsome

/-- Handles are fresh, and the canonical buffer is there as long as a task is open. -/
structure Sound (cfg : Pipeline) (staging : Option Nat) (w : World) : Prop where
  fresh : FreshHandles w
  stagingBuffer : w.state.materializedBranchBuffer = staging
  stagingOld : ∀ b, staging = some b → b < w.nextBuffer
  stagingLive : cfg.AllDone w ∨ ∀ b, staging = some b → (w.buffers b).isSome
  exported : ∀ i q bytes, .exported q bytes ∈ w.log i → bytes ≠ [] → cfg.engine.exports q bytes

theorem tasks_exec {E : Engine} {o : Op} {x : Choice} {r : o.Res}
    (hx : exec E i o x w = some (r, w')) (h : (w.tasks n).isSome) : (w'.tasks n).isSome := by
  obtain heq | ⟨m, q, -, heq⟩ := exec_tasks hx
  · rwa [heq]
  · rw [heq]
    by_cases hm : n = m
    · simp [hm]
    · rwa [Function.update_of_ne hm]

theorem allDone_exec {E : Engine} {o : Op} {x : Choice} {r : o.Res}
    (hx : exec E i o x w = some (r, w')) (h : cfg.AllDone w) : cfg.AllDone w' :=
  fun n hn => tasks_exec hx (h n hn)

/-- The canonical buffer is only freed when all tasks are done. -/
theorem Sound.exec (h : Sound cfg staging w) {o : Op} {x : Choice} {r : o.Res}
    (hx : exec cfg.engine i o x w = some (r, w'))
    (hfree : ∀ b, o = .freeBuffer b → cfg.AllDone w)
    (hnote : ∀ q bytes, o ≠ .note (.exported q bytes)) : Sound cfg staging w' where
  fresh := h.fresh.exec hx
  stagingBuffer := (exec_materializedBranchBuffer hx).trans h.stagingBuffer
  stagingOld := by
    intro b hb
    have hold := h.stagingOld b hb
    obtain ⟨-, hnext⟩ | ⟨size, -, hnext, -⟩ | ⟨hnext, -⟩ | ⟨hnext, -⟩ := exec_buffers hx <;> omega
  stagingLive := by
    obtain hdone | hlive := h.stagingLive
    · exact .inl (allDone_exec hx hdone)
    obtain ⟨hbuf, -⟩ | ⟨size, -, -, hbuf⟩ | ⟨-, b', ho, -⟩ | ⟨-, b', bytes, -, hbuf⟩ :=
      exec_buffers hx
    · rw [hbuf]
      exact .inr hlive
    · refine .inr fun b hb => ?_
      have hold := h.stagingOld b hb
      rw [hbuf, Function.update_of_ne (by omega)]
      exact hlive b hb
    · exact .inl (allDone_exec hx (hfree b' ho))
    · refine .inr fun b hb => ?_
      rw [hbuf, overwrite_isSome]
      exact hlive b hb
  exported := by
    intro j q bytes hmem hne
    obtain hold | ⟨-, hemit⟩ := exec_mem_log hx hmem
    · exact h.exported j q bytes hold hne
    · cases hemit with
      | note => exact absurd rfl (hnote q bytes)
      | getData hctx hb b cap =>
        rename_i h' ctx bytes' seq
        rw [fitting] at hne ⊢
        split at hne
        · rw [if_pos ‹_›]
          exact hb
        · exact absurd rfl hne

/-! ## Snapshots and buffers -/

/-- The operation can change what branches fork from, or a buffer. -/
def writes : Op → Bool
  | .putSnapshot _ _ => true
  | .setPrefixSeqLen _ => true
  | .setPrefixKvSerialBytes _ => true
  | .llamaStateSeqGetData _ _ _ _ => true
  | .writeBytes _ _ => true
  | .allocBuffer _ => true
  | .freeBuffer _ => true
  | _ => false

theorem exec_memory {E : Engine} {o : Op} {x : Choice} {r : o.Res}
    (hx : exec E i o x w = some (r, w')) (ho : writes o = false) :
    View.SameForks w.state w'.state ∧ w'.buffers = w.buffers := by
  refine ⟨⟨?_, ?_, ?_⟩, ?_⟩
  · obtain heq | ⟨t, data, rfl, -⟩ := exec_prefixSnapshots hx
    · exact heq.symm
    · cases ho
  · obtain heq | ⟨t, rfl, -⟩ := exec_prefixSeqLen hx
    · exact heq.symm
    · cases ho
  · obtain heq | ⟨t, rfl, -⟩ := exec_prefixKvSerialBytes hx
    · exact heq.symm
    · cases ho
  · obtain ⟨heq, -⟩ | ⟨size, rfl, -⟩ | ⟨-, b, rfl, -⟩ | ⟨-, b, bytes, hor, -⟩ := exec_buffers hx
    · exact heq
    · cases ho
    · cases ho
    · obtain rfl | ⟨h, cap, seq, rfl⟩ := hor <;> cases ho

theorem bytesAt_congr (hs : w.state.prefixSnapshots = w'.state.prefixSnapshots)
    (hb : w'.buffers = w.buffers) (p : DataPtr) (k : Nat) : w'.bytesAt p k = w.bytesAt p k := by
  cases p with
  | snapshot t => simp only [World.bytesAt, hs]
  | buffer b => simp only [World.bytesAt, hb]

/-- The thread is right about the snapshots and the buffers. -/
structure Right (staging : Option Nat) (i : Thread) (s : View) (w : World) : Prop where
  found : ∀ r, s.found = some r → View.SameForks r w.state
  last : ∀ p k bytes, s.last = some (p, k, bytes) → w.bytesAt p k = bytes
  copied : ∀ b size bytes, s.own = some (b, size) → s.copied = some bytes →
    (w.buffers b).map (·.bytes) = some bytes
  exported : ∀ q k, s.exported = some (q, k) → ∃ bytes, .exported q bytes ∈ w.log i ∧
    bytes.length = k ∧ ∀ b, staging = some b → w.bytesAt (.buffer b) k = bytes

namespace Right

theorem frame (h : Right staging i s w) (hs : View.SameForks w.state w'.state)
    (hb : w'.buffers = w.buffers) (hlog : w.log i <+: w'.log i) : Right staging i s w' where
  found r hr := by
    obtain ⟨h₁, h₂, h₃⟩ := h.found r hr
    exact ⟨h₁.trans hs.1, h₂.trans hs.2, h₃.trans hs.3⟩
  last p k bytes hl := (bytesAt_congr hs.1 hb p k).trans (h.last p k bytes hl)
  copied b size bytes ho hc := by rw [hb]; exact h.copied b size bytes ho hc
  exported q k he := by
    obtain ⟨bytes, hmem, hlen, hat⟩ := h.exported q k he
    exact ⟨bytes, hlog.subset hmem, hlen, fun b hst =>
      (bytesAt_congr hs.1 hb _ _).trans (hat b hst)⟩

/-- Who knows the bytes behind a pointer knows what is there. -/
theorem bytesAt (h : Right staging i s w) {p : DataPtr} (hk : s.Knows p) (k : Nat) :
    w.bytesAt p k = s.bytesAt p k := by
  cases p with
  | snapshot t =>
    obtain ⟨r, hr⟩ := Option.isSome_iff_exists.mp hk
    have hsame := (h.found r hr).prefixSnapshots
    simp [World.bytesAt, View.bytesAt, hr, ← hsame]
  | buffer b =>
    obtain ⟨size, bytes, hown, hbytes⟩ := hk
    simp [World.bytesAt, View.bytesAt, hbytes, h.copied b size bytes hown hbytes]

end Right

/-- How the view of a thread belongs to the world. -/
structure Fits (cfg : Pipeline) (staging : Option Nat) (i : Thread) (s : View) (w : World) :
    Prop where
  ctx : ∀ h, s.ctx = some h → ∃ cells, w.contexts h = some ⟨i, cells⟩ ∧
    ∀ known, s.cells = some known → cells = known
  own : ∀ b size, s.own = some (b, size) → b < w.nextBuffer ∧ staging ≠ some b ∧
    (cfg.AllDone w ∨ (w.buffers b).map (·.size) = some size)
  right : s.held = true → Right staging i s w
  held : s.held = true → s.done = false ∧ ∃ n ∈ cfg.orchestrator.names, i = .worker n
  task : ∀ n, i = .worker n → (w.tasks n).isSome → s.done = true
  joined : ∀ n ∈ s.joined, (w.tasks n).isSome
  restored : ∀ bytes, .restored bytes ∈ w.log i → bytes ∈ s.restored
  logged : ∀ bytes ∈ s.restored, bytes ≠ [] → .restored bytes ∈ w.log i

namespace Fits

/-- A worker under the guard has not ended. -/
theorem not_allDone (h : Fits cfg staging i s w) (hs : s.held = true) : ¬ cfg.AllDone w := by
  intro hdone
  obtain ⟨hopen, n, hn, hi⟩ := h.held hs
  have hend := h.task n hi (hdone n hn)
  rw [hopen] at hend
  cases hend

/-- The view still fits when its context, its buffer, its log and its task are as before, and the
    snapshots and all buffers if the thread has the guard. -/
theorem frame (h : Fits cfg staging i s w)
    (hctx : ∀ k, s.ctx = some k → w'.contexts k = w.contexts k)
    (hnext : w.nextBuffer ≤ w'.nextBuffer)
    (hown : ∀ b size, s.own = some (b, size) →
      (w.buffers b).map (·.size) = some size → cfg.AllDone w' ∨ (w'.buffers b).map (·.size) = some size)
    (hmem : s.held = true → View.SameForks w.state w'.state ∧ w'.buffers = w.buffers)
    (hlog : w.log i <+: w'.log i)
    (hrestored : ∀ bytes, .restored bytes ∈ w'.log i → .restored bytes ∈ w.log i)
    (htask : ∀ n, i = .worker n → w'.tasks n = w.tasks n)
    (hjoined : ∀ n, (w.tasks n).isSome → (w'.tasks n).isSome) : Fits cfg staging i s w' where
  ctx k hk := by rw [hctx k hk]; exact h.ctx k hk
  own b size hb := by
    obtain ⟨hlt, hne, hsize⟩ := h.own b size hb
    refine ⟨by omega, hne, ?_⟩
    obtain hdone | hsize := hsize
    · exact .inl fun n hn => hjoined n (hdone n hn)
    · exact hown b size hb hsize
  right hs := (h.right hs).frame (hmem hs).1 (hmem hs).2 hlog
  held := h.held
  task n hi hsome := h.task n hi (htask n hi ▸ hsome)
  joined n hn := hjoined n (h.joined n hn)
  restored bytes hb := h.restored bytes (hrestored bytes hb)
  logged bytes hb hne := hlog.subset (h.logged bytes hb hne)

/-! ## The steps of others -/

private theorem held_of_writes {t : View} {o : Op} (hok : t.accepts cfg staging i (.op o))
    (ho : writes o = true) : t.held = true ∨ ∃ b, o = .freeBuffer b := by
  cases o with
  | putSnapshot => exact .inl hok
  | setPrefixSeqLen => exact .inl hok
  | setPrefixKvSerialBytes => exact .inl hok
  | llamaStateSeqGetData => exact .inl hok.2.1
  | writeBytes => exact .inl hok.1
  | allocBuffer => exact .inl hok
  | freeBuffer b => exact .inr ⟨b, rfl⟩
  | _ => cases ho

/-- A buffer is only freed when all tasks are done. -/
theorem allDone_of_free (h : Fits cfg staging i s w) {b : Nat}
    (hok : s.accepts cfg staging i (.op (.freeBuffer b))) : cfg.AllDone w :=
  fun n hn => h.joined n (hok n hn)

/-- The sizes of the old buffers, as long as a task is open. -/
theorem size_exec (h : Fits cfg staging i s w) {o : Op} {x : Choice} {r : o.Res}
    (hok : s.accepts cfg staging i (.op o)) (hx : exec cfg.engine i o x w = some (r, w'))
    {b size : Nat} (hb : b < w.nextBuffer) (hsize : (w.buffers b).map (·.size) = some size) :
    cfg.AllDone w' ∨ (w'.buffers b).map (·.size) = some size := by
  obtain ⟨hbuf, -⟩ | ⟨size', -, -, hbuf⟩ | ⟨-, b', rfl, -⟩ | ⟨-, b', bytes, -, hbuf⟩ :=
    exec_buffers hx
  · exact .inr (hbuf ▸ hsize)
  · rw [hbuf, Function.update_of_ne (by omega)]
    exact .inr hsize
  · exact .inl (allDone_exec hx (h.allDone_of_free hok))
  · refine .inr ?_
    rw [hbuf]
    by_cases hbb : b = b'
    · subst hbb
      simpa [World.overwrite, Option.map_map, Function.comp_def] using hsize
    · simpa [World.overwrite, Function.update_of_ne hbb] using hsize

theorem nextBuffer_exec {E : Engine} {o : Op} {x : Choice} {r : o.Res}
    (hx : exec E i o x w = some (r, w')) : w.nextBuffer ≤ w'.nextBuffer := by
  obtain ⟨-, hnext⟩ | ⟨size, -, hnext, -⟩ | ⟨hnext, -⟩ | ⟨hnext, -⟩ := exec_buffers hx <;> omega

/-- The thread keeps its buffer. -/
theorem own_exec {t : View} (h : Fits cfg staging j s w) (hi : Fits cfg staging i t w)
    {o : Op} {x : Choice} {r : o.Res} (hok : t.accepts cfg staging i (.op o))
    (hx : exec cfg.engine i o x w = some (r, w')) (b size : Nat) (hb : s.own = some (b, size)) :
    b < w'.nextBuffer ∧ staging ≠ some b ∧
      (cfg.AllDone w' ∨ (w'.buffers b).map (·.size) = some size) := by
  obtain ⟨hlt, hne, hsize⟩ := h.own b size hb
  refine ⟨hlt.trans_le (nextBuffer_exec hx), hne, ?_⟩
  exact hsize.elim (fun hdone => .inl (allDone_exec hx hdone)) (hi.size_exec hok hx hlt)

/-- The step of another thread. -/
theorem other {t : View} (h : Fits cfg staging j s w) (hsound : Sound cfg staging w)
    (hi : Fits cfg staging i t w) (hj : j ≠ i) {o : Op} {x : Choice} {r : o.Res}
    (hok : t.accepts cfg staging i (.op o)) (hx : exec cfg.engine i o x w = some (r, w'))
    (halone : s.held = true → t.held = false) : Fits cfg staging j s w' := by
  have hlog : w'.log j = w.log j := exec_log_other hx hj
  have hforeign : ∀ k k', s.ctx = some k → t.ctx = some k' → k ≠ k' := by
    intro k k' hk hk' heq
    subst heq
    obtain ⟨cells, hcells, -⟩ := h.ctx k hk
    obtain ⟨cells', hcells', -⟩ := hi.ctx k hk'
    exact hj (LlamaContext.mk.inj (Option.some.inj (hcells.symm.trans hcells'))).1
  refine h.frame ?_ (nextBuffer_exec hx) (fun b size hb => hi.size_exec hok hx (h.own b size hb).1)
    ?_ ?_ (fun bytes hb => hlog ▸ hb) ?_ fun n => tasks_exec hx
  · intro k hk
    obtain ⟨cells, hlive, -⟩ := h.ctx k hk
    obtain ⟨hctx, -⟩ | ⟨-, -, hctx⟩ | ⟨-, k', rfl, hctx⟩ | ⟨-, k', cells', hor, hctx⟩ :=
      exec_contexts hx
    · rw [hctx]
    · have hne : k ≠ w.nextContext := by
        rintro rfl
        rw [hsound.fresh.context _ le_rfl] at hlive
        cases hlive
      rw [hctx, Function.update_of_ne hne]
    · rw [hctx, Function.update_of_ne (hforeign k k' hk hok)]
    · have hhas : t.ctx = some k' := by
        obtain ⟨batch, rfl⟩ | ⟨p, m, seq, rfl⟩ := hor
        · exact hok
        · exact hok.1
      rw [hctx, World.setCells]
      exact Function.update_of_ne (hforeign k k' hk hhas) _ _
  · intro hs
    by_cases ho : writes o = true
    · obtain ht | ⟨b, rfl⟩ := held_of_writes hok ho
      · rw [halone hs] at ht
        cases ht
      · exact absurd (hi.allDone_of_free hok) (h.not_allDone hs)
    · exact exec_memory hx (Bool.eq_false_iff.mpr ho)
  · rw [hlog]
  · rintro n rfl
    obtain heq | ⟨m, q, rfl, heq⟩ := exec_tasks hx
    · rw [heq]
    · rw [heq, Function.update_of_ne]
      rintro rfl
      exact hj hok.1.symm

end Fits

end SwarmKV.Pipeline
