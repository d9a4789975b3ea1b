import SwarmKV.Spec.PoolPhase
import SwarmKV.Spec.Effects

/-!
# The books of the pool

Between two calls the live buffers are the registered ones; inside a call, a buffer may be
allocated and not yet registered, or freed and still registered. What the observers have seen of
a run tells which buffers are live at any moment.
-/

namespace SwarmKV

open Monitor

namespace MemoryPool

/-! ## Traces -/

variable {E : Engine} {tr : Trace (machine E)} {w₀ w w' : World} {c c' : Config E} {i j : Thread}
  {b : Nat} {L registry : List Nat}

/-- The action frees the buffer. -/
def freesBuffer (b : Nat) : Action sig → Bool
  | .op (.freeBuffer b') => b' == b
  | _ => false

/-- How often a buffer has been freed. -/
def frees (tr : Trace (machine E)) (b : Nat) : Nat := tr.countP fun e => freesBuffer b e.action

/-- The buffer has been allocated, before the run or in it. -/
def Allocated (w₀ : World) (tr : Trace (machine E)) (b : Nat) : Prop :=
  (w₀.buffers b).isSome ∨ ∃ i size, tr.Did i (.allocBuffer size) (some b)

/-- The registry that a thread has found in its last call on the pool. -/
def foundRegistry : Trace (machine E) → Thread → List Nat
  | [], _ => []
  | e :: tr, i =>
    if e.thread = i then
      match e.action with
      | .lock .poolMutex => e.data.activeBuffers
      | _ => foundRegistry tr i
    else foundRegistry tr i

/-- A thread is in a call on the pool that has got no context to size its buffer, or no buffer. -/
def callFailed : Trace (machine E) → Thread → Bool
  | [], _ => false
  | ⟨j, a, r, _⟩ :: tr, i =>
    if j = i then
      match a, r with
      | .lock .poolMutex, _ => false
      | .unlock .poolMutex, _ => false
      | .op .llamaInitFromModel, none => Trace.holding tr i .poolMutex
      | .op (.allocBuffer _), none => true
      | _, _ => callFailed tr i
    else callFailed tr i

/-- A thread is in a call of `free_all`, which has looked up the registry. -/
def freeing : Trace (machine E) → Thread → Bool
  | [], _ => false
  | e :: tr, i =>
    if e.thread = i then
      match e.action with
      | .lock .poolMutex => false
      | .unlock .poolMutex => false
      | .op .getActiveBuffers => true
      | _ => freeing tr i
    else freeing tr i

/-- A call of `free_all` has ended, and nothing has been allocated since. -/
def emptied : Trace (machine E) → Bool
  | [] => false
  | ⟨i, a, r, _⟩ :: tr =>
    match a, r with
    | .unlock .poolMutex, _ => freeing tr i || emptied tr
    | .op (.allocBuffer _), some _ => false
    | _, _ => emptied tr

/-- No thread has run out of memory in a call on the pool: `push_back` has not thrown. -/
def VectorGrows (tr : Trace (machine E)) : Prop :=
  ∀ (later earlier : Trace (machine E)) (i : Thread) (d : World),
    tr = later ++ ⟨i, .op .allocate, false, d⟩ :: earlier → earlier.holding i .poolMutex = false

/-- The registry owns the buffers of the pool. -/
structure Owned (w₀ : World) (tr : Trace (machine E)) (c : Config E) : Prop where
  live : c.holder .poolMutex = none →
    ∀ b, (c.data.buffers b).isSome ↔ b ∈ c.data.activeBuffers
  nodup : c.holder .poolMutex = none → c.data.activeBuffers.Nodup
  freed : c.holder .poolMutex = none → ∀ b, Allocated w₀ tr b →
    frees tr b = if b ∈ c.data.activeBuffers then 0 else 1
  once : ∀ b, frees tr b ≤ 1
  failed : ∀ i, callFailed tr i = true → c.data.activeBuffers = foundRegistry tr i
  emptied : emptied tr = true →
    (∀ b, c.data.buffers b = none) ∧ ∀ b, Allocated w₀ tr b → frees tr b = 1

/-- The pool that a run starts with: it has registered its buffers. -/
structure Registered (w : World) : Prop where
  live : ∀ b, (w.buffers b).isSome ↔ b ∈ w.activeBuffers
  nodup : w.activeBuffers.Nodup
  old : ∀ b ∈ w.activeBuffers, b < w.nextBuffer

/-! ## The books -/

/-- The books of a pool whose live buffers are `L`. -/
structure Books (w₀ : World) (tr : Trace (machine E)) (L : List Nat) (w : World) :
    Prop where
  live : ∀ b, (w.buffers b).isSome ↔ b ∈ L
  nodup : L.Nodup
  known : ∀ b ∈ L, Allocated w₀ tr b
  old : ∀ b, Allocated w₀ tr b → b < w.nextBuffer
  kept : ∀ b ∈ L, frees tr b = 0
  freed : ∀ b, Allocated w₀ tr b → b ∉ L → frees tr b = 1
  fresh : ∀ b, ¬ Allocated w₀ tr b → frees tr b = 0
  emptied : emptied tr = true → L = []

private theorem Books.start (h : Registered w₀) : Books w₀ ([] : Trace (machine E))
    w₀.activeBuffers w₀ where
  live := h.live
  nodup := h.nodup
  known b hb := .inl ((h.live b).mpr hb)
  old b hb := by
    obtain hb | ⟨i, size, d, hd⟩ := hb
    · exact h.old b ((h.live b).mp hb)
    · cases hd
  kept _ _ := rfl
  freed b hb hL := by
    obtain hb | ⟨i, size, d, hd⟩ := hb
    · exact absurd ((h.live b).mp hb) hL
    · cases hd
  fresh _ _ := rfl
  emptied h := by cases h

private theorem allocated_cons {e : Entry (machine E)}
    (he : ∀ i size r d, e ≠ ⟨i, .op (.allocBuffer size), some r, d⟩) :
    Allocated w₀ (e :: tr) b ↔ Allocated w₀ tr b := by
  refine or_congr Iff.rfl ⟨?_, ?_⟩
  · rintro ⟨i, size, d, hd⟩
    obtain rfl | hd := List.mem_cons.mp hd
    · exact absurd rfl (he i size b d)
    · exact ⟨i, size, d, hd⟩
  · rintro ⟨i, size, d, hd⟩
    exact ⟨i, size, d, List.mem_cons_of_mem _ hd⟩

private theorem frees_cons {e : Entry (machine E)} (he : freesBuffer b e.action = false) :
    frees (e :: tr) b = frees tr b :=
  List.countP_cons_of_neg (by simp [he])

/-- An action that neither allocates nor frees. -/
private theorem Books.keep (h : Books w₀ tr L w) {e : Entry (machine E)}
    (halloc : ∀ i size r d, e ≠ ⟨i, .op (.allocBuffer size), some r, d⟩)
    (hfree : ∀ b, freesBuffer b e.action = false)
    (hemptied : MemoryPool.emptied (e :: tr) = true → L = [])
    (hlive : ∀ b, (w'.buffers b).isSome = (w.buffers b).isSome)
    (hnext : w'.nextBuffer = w.nextBuffer) : Books w₀ (e :: tr) L w' where
  live b := by rw [hlive]; exact h.live b
  nodup := h.nodup
  known b hb := (allocated_cons halloc).mpr (h.known b hb)
  old b hb := by rw [hnext]; exact h.old b ((allocated_cons halloc).mp hb)
  kept b hb := by rw [frees_cons (hfree b)]; exact h.kept b hb
  freed b hb hL := by
    rw [frees_cons (hfree b)]
    exact h.freed b ((allocated_cons halloc).mp hb) hL
  fresh b hb := by
    rw [frees_cons (hfree b)]
    exact h.fresh b fun hb' => hb ((allocated_cons halloc).mpr hb')
  emptied := hemptied

/-- A new buffer. -/
private theorem Books.alloc (h : Books w₀ tr L w) {size : Nat} :
    Books w₀ (⟨i, .op (.allocBuffer size), some w.nextBuffer, w⟩ :: tr) (L ++ [w.nextBuffer])
      { w with
        buffers := Function.update w.buffers w.nextBuffer (some { size := size })
        nextBuffer := w.nextBuffer + 1 } := by
  -- the counter is beyond all handles
  have hnew : ¬ Allocated w₀ tr w.nextBuffer := fun hb => Nat.lt_irrefl _ (h.old _ hb)
  have halloc : ∀ b, Allocated w₀ (⟨i, .op (.allocBuffer size), some w.nextBuffer, w⟩ :: tr) b ↔
      b = w.nextBuffer ∨ Allocated w₀ tr b := by
    intro b
    constructor
    · rintro (hb | ⟨j, size', d, hd⟩)
      · exact .inr (.inl hb)
      · obtain heq | hd := List.mem_cons.mp hd
        · cases heq
          exact .inl rfl
        · exact .inr (.inr ⟨j, size', d, hd⟩)
    · rintro (rfl | hb | ⟨j, size', d, hd⟩)
      · exact .inr ⟨i, size, w, List.mem_cons_self⟩
      · exact .inl hb
      · exact .inr ⟨j, size', d, List.mem_cons_of_mem _ hd⟩
  have hfrees : ∀ b, frees (⟨i, .op (.allocBuffer size), some w.nextBuffer, w⟩ :: tr) b =
      frees tr b := fun b => frees_cons rfl
  constructor
  · intro b
    rw [List.mem_append, List.mem_singleton, ← h.live]
    by_cases hb : b = w.nextBuffer
    · subst hb
      simp
    · simp [hb]
  · refine List.nodup_append.mpr ⟨h.nodup, List.nodup_singleton _, ?_⟩
    intro a ha b hb hab
    obtain rfl := List.mem_singleton.mp hb
    subst hab
    exact hnew (h.known _ ha)
  · intro b hb
    obtain hb | hb := List.mem_append.mp hb
    · exact (halloc b).mpr (.inr (h.known b hb))
    · exact (halloc b).mpr (.inl (List.mem_singleton.mp hb))
  · intro b hb
    show b < w.nextBuffer + 1
    obtain rfl | hb := (halloc b).mp hb
    · exact Nat.lt_succ_self _
    · exact Nat.lt_succ_of_lt (h.old b hb)
  · intro b hb
    rw [hfrees]
    obtain hb | hb := List.mem_append.mp hb
    · exact h.kept b hb
    · obtain rfl := List.mem_singleton.mp hb
      exact h.fresh _ hnew
  · intro b hb hL
    rw [hfrees]
    obtain rfl | hb := (halloc b).mp hb
    · exact absurd (List.mem_append_right _ (List.mem_singleton_self _)) hL
    · exact h.freed b hb fun hb' => hL (List.mem_append_left _ hb')
  · intro b hb
    rw [hfrees]
    exact h.fresh b fun hb' => hb ((halloc b).mpr (.inr hb'))
  · intro hemptied
    cases hemptied

/-- A buffer is given back. -/
private theorem Books.free (h : Books w₀ tr (b :: L) w) :
    Books w₀ (⟨i, .op (.freeBuffer b), (), w⟩ :: tr) L
      { w with buffers := Function.update w.buffers b none } := by
  obtain ⟨hb, hnodup⟩ := List.nodup_cons.mp h.nodup
  have halloc : ∀ a, Allocated w₀ (⟨i, .op (.freeBuffer b), (), w⟩ :: tr) a ↔ Allocated w₀ tr a :=
    fun a => allocated_cons fun _ _ _ _ heq => by cases heq
  have hother : ∀ a, a ≠ b → frees (⟨i, .op (.freeBuffer b), (), w⟩ :: tr) a = frees tr a :=
    fun a ha => frees_cons (by simpa [freesBuffer] using Ne.symm ha)
  constructor
  · intro a
    by_cases ha : a = b
    · subst ha
      simpa using hb
    · simp [h.live, ha]
  · exact hnodup
  · exact fun a ha => (halloc a).mpr (h.known a (List.mem_cons_of_mem _ ha))
  · exact fun a ha => h.old a ((halloc a).mp ha)
  · intro a ha
    rw [hother a fun hab => hb (hab ▸ ha)]
    exact h.kept a (List.mem_cons_of_mem _ ha)
  · intro a ha hL
    by_cases hab : a = b
    · subst hab
      have hzero := h.kept a List.mem_cons_self
      unfold frees at hzero ⊢
      rw [List.countP_cons_of_pos (by simp [freesBuffer]), hzero]
    · rw [hother a hab]
      exact h.freed a ((halloc a).mp ha) fun hmem => (List.mem_cons.mp hmem).elim hab hL
  · intro a ha
    have hab : a ≠ b := fun hab => ha ((halloc a).mpr (hab ▸ h.known b List.mem_cons_self))
    rw [hother a hab]
    exact h.fresh a fun ha' => ha ((halloc a).mpr ha')
  · intro hemptied
    cases h.emptied hemptied

/-! ## Runs -/

/-- Where a thread is in a call on the pool, by its trace. -/
abbrev phase (tr : Trace (machine E)) (i : Thread) : PoolPhase :=
  Observer.state (M := machine E) (fun _ => poolWatch) tr i

/-- Where the thread in the pool is in its call. -/
def inside (tr : Trace (machine E)) (c : Config E) : PoolPhase :=
  (c.holder .poolMutex).elim .away (phase tr)

private theorem phase_same (e : Entry (machine E)) :
    phase (e :: tr) e.thread = (phase tr e.thread).next e.action e.answer :=
  Observer.state_same

private theorem phase_other {e : Entry (machine E)} (h : j ≠ e.thread) :
    phase (e :: tr) j = phase tr j :=
  Observer.state_other h

/-- Whoever holds the mutex of the pool is in a call. -/
theorem phase_away_iff : phase tr i = .away ↔ tr.holding i .poolMutex = false := by
  induction tr with
  | nil => exact iff_of_true rfl rfl
  | cons e tr ih =>
    by_cases hi : e.thread = i
    · subst hi
      rw [phase_same]
      simp only [Trace.holding, if_true]
      generalize phase tr e.thread = s at ih
      generalize Trace.holding tr e.thread .poolMutex = held at ih
      obtain ⟨j, a, r, d⟩ := e
      cases a with
      | op o => exact (s.next_op_away o r).trans ih
      | lock l => cases l <;> simp_all [PoolPhase.next, Action.holding]
      | unlock l => cases l <;> simp_all [PoolPhase.next, Action.holding]
      | _ => exact ih
    · rw [phase_other (Ne.symm hi)]
      simp only [Trace.holding, if_neg hi]
      exact ih

/-- What its phase says about the call of a thread. -/
structure Call (tr : Trace (machine E)) (i : Thread) (w : World) : Prop where
  failed : callFailed tr i = true → phase tr i = .failed
  freeing : freeing tr i = true → phase tr i = .cleared ∨ ∃ rest, phase tr i = .freeing rest
  found : phase tr i = .entered ∨ phase tr i = .failed → w.activeBuffers = foundRegistry tr i
  cleared : phase tr i = .cleared → w.activeBuffers = []

/-- Others do not touch the registry during a call. -/
private theorem Call.other {e : Entry (machine E)} (h : Call tr j w) (hj : j ≠ e.thread)
    (hreg : phase tr j = .away ∨ w'.activeBuffers = w.activeBuffers) : Call (e :: tr) j w' := by
  have hphase : phase (e :: tr) j = phase tr j := phase_other hj
  have hfailed : callFailed (e :: tr) j = callFailed tr j := if_neg (Ne.symm hj)
  have hfreeing : MemoryPool.freeing (e :: tr) j = MemoryPool.freeing tr j := if_neg (Ne.symm hj)
  have hfound : foundRegistry (e :: tr) j = foundRegistry tr j := if_neg (Ne.symm hj)
  refine ⟨?_, ?_, fun hp => ?_, fun hp => ?_⟩
  · rw [hfailed, hphase]
    exact h.failed
  · rw [hfreeing, hphase]
    exact h.freeing
  · rw [hphase] at hp
    obtain haway | hreg := hreg
    · rw [haway] at hp
      obtain hp | hp := hp <;> cases hp
    · rw [hreg, hfound]
      exact h.found hp
  · rw [hphase] at hp
    obtain haway | hreg := hreg
    · rw [haway] at hp
      cases hp
    · rw [hreg]
      exact h.cleared hp

/-- An action that its thread's call does not mind. -/
private theorem Call.quiet {e : Entry (machine E)} (h : Call tr e.thread e.data)
    (hnext : (phase tr e.thread).next e.action e.answer = phase tr e.thread)
    (hfailed : callFailed (e :: tr) e.thread = callFailed tr e.thread)
    (hfreeing : MemoryPool.freeing (e :: tr) e.thread = MemoryPool.freeing tr e.thread)
    (hfound : foundRegistry (e :: tr) e.thread = foundRegistry tr e.thread)
    (hreg : w'.activeBuffers = e.data.activeBuffers) : Call (e :: tr) e.thread w' := by
  have hphase : phase (e :: tr) e.thread = phase tr e.thread := (phase_same e).trans hnext
  constructor
  · rw [hfailed, hphase]
    exact h.failed
  · rw [hfreeing, hphase]
    exact h.freeing
  · rw [hphase, hfound, hreg]
    exact h.found
  · rw [hphase, hreg]
    exact h.cleared

/-- The next action of a call. -/
private theorem Call.own {e : Entry (machine E)} (h : Call tr e.thread e.data)
    (hok : (phase tr e.thread).accepts e.action)
    (hreg : (∀ b, e.action ≠ .op (.pushActiveBuffer b)) → e.action ≠ .op .clearActiveBuffers →
      w'.activeBuffers = e.data.activeBuffers)
    (hclear : e.action = .op .clearActiveBuffers → w'.activeBuffers = []) :
    Call (e :: tr) e.thread w' := by
  obtain ⟨i, a, r, d⟩ := e
  have hquiet := @Call.quiet E tr w' ⟨i, a, r, d⟩ h
  obtain ⟨hfailed, hfreeing, hfound, -⟩ := h
  have hphase := @phase_same E tr ⟨i, a, r, d⟩
  have haway := (@phase_away_iff E tr i).mp
  dsimp only at hphase hok hfailed hfreeing hfound hreg hclear haway hquiet ⊢
  generalize phase tr i = s at hphase hok hfailed hfreeing hfound haway hquiet
  -- one phase for each action of a call
  cases a with
  | op o =>
    cases o with
    | llamaInitFromModel =>
      have hsame := hreg (by simp) (by simp)
      constructor <;> rw [hphase] <;> obtain rfl | rfl := hok <;> cases r <;>
        simp_all [PoolPhase.next, callFailed, MemoryPool.freeing, foundRegistry]
    | allocBuffer size =>
      have hsame := hreg (by simp) (by simp)
      obtain rfl := hok
      constructor <;> rw [hphase] <;> cases r <;>
        simp_all [PoolPhase.next, callFailed, MemoryPool.freeing, foundRegistry]
    | pushActiveBuffer b =>
      obtain rfl := hok
      constructor <;> rw [hphase] <;>
        simp_all [PoolPhase.next, callFailed, MemoryPool.freeing]
    | getActiveBuffers =>
      obtain rfl := hok
      constructor <;> rw [hphase] <;>
        simp_all [PoolPhase.next, callFailed]
    | freeBuffer b =>
      obtain ⟨rest, rfl⟩ := hok
      constructor <;> rw [hphase] <;>
        simp_all [PoolPhase.next, callFailed]
    | clearActiveBuffers =>
      obtain rfl := hok
      constructor <;> rw [hphase] <;>
        simp_all [PoolPhase.next, callFailed]
    | _ => exact hquiet rfl (if_pos rfl) (if_pos rfl) (if_pos rfl) (hreg (by simp) (by simp))
  | lock l =>
    cases l with
    | poolMutex =>
      have hsame := hreg (by simp) (by simp)
      constructor <;> rw [hphase] <;>
        simp_all [PoolPhase.next, callFailed, MemoryPool.freeing, foundRegistry]
    | _ => exact hquiet rfl (if_pos rfl) (if_pos rfl) (if_pos rfl) (hreg (by simp) (by simp))
  | unlock l =>
    cases l with
    | poolMutex =>
      constructor <;> rw [hphase] <;> simp_all [PoolPhase.next, callFailed, MemoryPool.freeing]
    | _ => exact hquiet rfl (if_pos rfl) (if_pos rfl) (if_pos rfl) (hreg (by simp) (by simp))
  | _ => exact hquiet rfl (if_pos rfl) (if_pos rfl) (if_pos rfl) (hreg (by simp) (by simp))

/-- What holds of the pool in a run. -/
structure Kept (w₀ : World) (tr : Trace (machine E)) (c : Config E) : Prop where
  books : Books w₀ tr ((inside tr c).owned c.data.activeBuffers) c.data
  call : ∀ i, Call tr i c.data

/-- An action that is none of the pool's is not counted. -/
private theorem unpooled_entry {a : Action sig} {r : a.Res} {d : World} (ha : unpooled a = true) :
    (∀ j size b d', (⟨i, a, r, d⟩ : Entry (machine E)) ≠
      ⟨j, .op (.allocBuffer size), some b, d'⟩) ∧ (∀ b, freesBuffer b a = false) ∧
    MemoryPool.emptied (⟨i, a, r, d⟩ :: tr) = MemoryPool.emptied tr ∧
    ∀ s : PoolPhase, (s.next a r).owned registry = s.owned registry := by
  refine ⟨fun j size b d' heq => ?_, ?_⟩
  · cases heq
    cases ha
  · cases a with
    | op o =>
      cases o with
      | llamaInitFromModel =>
        refine ⟨fun _ => rfl, rfl, fun s => ?_⟩
        cases s <;> cases r <;> rfl
      | _ => first
        | exact absurd ha Bool.false_ne_true
        | exact ⟨fun _ => rfl, rfl, fun _ => rfl⟩
    | lock l =>
      cases l <;> first
        | exact absurd ha Bool.false_ne_true
        | exact ⟨fun _ => rfl, rfl, fun _ => rfl⟩
    | unlock l =>
      cases l <;> first
        | exact absurd ha Bool.false_ne_true
        | exact ⟨fun _ => rfl, rfl, fun _ => rfl⟩
    | _ => exact ⟨fun _ => rfl, rfl, fun _ => rfl⟩

/-- Whether a buffer is live changes only by the pool's own actions. -/
private theorem unpooled_exec {o : Op} {x : Choice} {r : o.Res} (ho : unpooled (.op o) = true)
    (hx : exec E i o x w = some (r, w')) :
    (∀ b, (w'.buffers b).isSome = (w.buffers b).isSome) ∧ w'.nextBuffer = w.nextBuffer ∧
      w'.activeBuffers = w.activeBuffers := by
  have hreg : w'.activeBuffers = w.activeBuffers := by
    obtain hreg | ⟨b, rfl⟩ | rfl := exec_activeBuffers hx
    · exact hreg
    · cases ho
    · cases ho
  obtain ⟨hbuf, hnext⟩ | ⟨size, rfl, -⟩ | ⟨-, b, rfl, -⟩ | ⟨hnext, b, bytes, -, hbuf⟩ :=
    exec_buffers hx
  · exact ⟨fun b => by rw [hbuf], hnext, hreg⟩
  · cases ho
  · cases ho
  · refine ⟨fun a => ?_, hnext, hreg⟩
    rw [hbuf]
    by_cases ha : a = b
    · subst ha
      simp [World.overwrite]
    · simp [World.overwrite, ha]

/-- A step of the thread that is in the pool, or of another one that stays out of it. -/
private theorem inside_owned {e : Entry (machine E)}
    (hholder : c'.holder .poolMutex = c.holder .poolMutex)
    (hnext : ((phase tr e.thread).next e.action e.answer).owned registry =
      (phase tr e.thread).owned registry) :
    (inside (e :: tr) c').owned registry = (inside tr c).owned registry := by
  unfold inside
  rw [hholder]
  cases c.holder .poolMutex with
  | none => rfl
  | some j =>
    show (phase (e :: tr) j).owned registry = (phase tr j).owned registry
    by_cases hj : j = e.thread
    · subst hj
      rw [phase_same, hnext]
    · rw [phase_other hj]

private theorem inside_of_holder (h : c.holder .poolMutex = some i) : inside tr c = phase tr i := by
  unfold inside
  rw [h]
  rfl

private theorem inside_of_free (h : c.holder .poolMutex = none) : inside tr c = .away := by
  unfold inside
  rw [h]
  rfl

/-- An action that is none of the pool's. -/
private theorem Kept.quiet (h : Kept w₀ tr c) {e : Entry (machine E)}
    (ha : unpooled e.action = true) (hdata : e.data = c.data)
    (hok : (phase tr e.thread).accepts e.action)
    (hholder : c'.holder .poolMutex = c.holder .poolMutex)
    (hlive : ∀ b, (c'.data.buffers b).isSome = (c.data.buffers b).isSome)
    (hnext : c'.data.nextBuffer = c.data.nextBuffer)
    (hreg : c'.data.activeBuffers = c.data.activeBuffers) : Kept w₀ (e :: tr) c' where
  books := by
    obtain ⟨i, a, r, d⟩ := e
    obtain ⟨halloc, hfree, hemptied, howned⟩ :=
      @unpooled_entry E tr i c.data.activeBuffers a r d ha
    rw [hreg, inside_owned hholder (howned _)]
    refine h.books.keep halloc hfree (fun hem => ?_) hlive hnext
    rw [hemptied] at hem
    exact h.books.emptied hem
  call j := by
    by_cases hj : j = e.thread
    · subst hj
      refine Call.own (hdata ▸ h.call e.thread) hok (fun _ _ => hreg.trans (by rw [hdata])) ?_
      intro hclear
      rw [hclear] at ha
      cases ha
    · exact (h.call j).other hj (.inr hreg)

/-- A thread that is in a call holds the mutex. -/
private def Held (tr : Trace (machine E)) (c : Config E) : Prop :=
  ∀ i, phase tr i ≠ .away → c.holder .poolMutex = some i

/-- An operation of the pool. -/
private theorem Kept.op (h : Kept w₀ tr c) (hheld : Held tr c) {o : Op} {r : o.Res} {t : TState sig Error}
    (hok : (phase tr i).accepts (.op o)) (haway : phase tr i ≠ .away)
    (hbooks : Books w₀ tr ((phase tr i).owned c.data.activeBuffers) c.data →
      Books w₀ (⟨i, .op o, r, c.data⟩ :: tr)
        (((phase tr i).next (.op o) r).owned w'.activeBuffers) w')
    (hreg : (∀ b, o ≠ .pushActiveBuffer b) → o ≠ .clearActiveBuffers →
      w'.activeBuffers = c.data.activeBuffers)
    (hclear : o = .clearActiveBuffers → w'.activeBuffers = []) :
    Kept w₀ (⟨i, .op o, r, c.data⟩ :: tr) ({ c with data := w' }.setThread i t) where
  books := by
    have hholder := hheld i haway
    have hbooks' := hbooks (by rw [← inside_of_holder hholder]; exact h.books)
    rw [inside_of_holder (i := i) (by exact hholder)]
    show Books w₀ _ ((phase (⟨i, .op o, r, c.data⟩ :: tr) i).owned w'.activeBuffers) w'
    rw [phase_same ⟨i, .op o, r, c.data⟩]
    exact hbooks'
  call j := by
    by_cases hj : j = i
    · subst hj
      exact Call.own (e := ⟨j, .op o, r, c.data⟩) (h.call j) hok
        (fun hp hc => hreg (fun b hb => hp b (congrArg Action.op hb))
          fun hb => hc (congrArg Action.op hb))
        fun hb => hclear (by simpa using hb)
    · refine (h.call j).other hj (.inl ?_)
      by_contra hne
      have heq := (hheld i haway).symm.trans (hheld j hne)
      exact hj (Option.some.inj heq).symm

/-- What is accepted keeps the books. -/
private theorem Kept.acts (h : Kept w₀ tr c) (hheld : Held tr c) {e : Entry (machine E)}
    (he : c.Acts e c') (hok : (phase tr e.thread).accepts e.action) : Kept w₀ (e :: tr) c' := by
  have hdata := he.data_eq
  have hquiet := @Kept.quiet E tr w₀ c c' h e
  cases he with
  | @op i o k x r d ht hx =>
    -- most calls are not on the pool
    by_cases ho : unpooled (.op o) = true
    · obtain ⟨hlive, hnext, hreg⟩ := unpooled_exec ho hx
      exact hquiet ho rfl hok rfl hlive hnext hreg
    have hop := @Kept.op E tr w₀ d c i h hheld o r (.run (k r)) hok
    dsimp only at hok
    generalize phase tr i = s at hok hop
    cases o with
    | allocBuffer size =>
      obtain rfl := hok
      obtain ⟨rfl, rfl⟩ | ⟨rfl, rfl⟩ := exec_allocBuffer hx
      · exact hop (by simp) (fun hb => hb.keep (by simp) (fun _ => rfl) hb.emptied (fun _ => rfl) rfl)
          (fun _ _ => rfl) (by simp)
      · exact hop (by simp) (fun hb => hb.alloc) (fun _ _ => rfl) (by simp)
    | pushActiveBuffer b =>
      obtain rfl := hok
      obtain ⟨rfl, rfl⟩ := hx
      exact hop (by simp) (fun hb => hb.keep (by simp) (fun _ => rfl) hb.emptied (fun _ => rfl) rfl)
        (fun hne => absurd rfl (hne b)) (by simp)
    | getActiveBuffers =>
      obtain rfl := hok
      obtain ⟨rfl, rfl⟩ := hx
      exact hop (by simp) (fun hb => hb.keep (by simp) (fun _ => rfl) hb.emptied (fun _ => rfl) rfl)
        (fun _ _ => rfl) (by simp)
    | freeBuffer b =>
      obtain ⟨rest, rfl⟩ := hok
      obtain ⟨rfl, rfl⟩ := hx
      exact hop (by simp) (fun hb => hb.free) (fun _ _ => rfl) (by simp)
    | clearActiveBuffers =>
      obtain rfl := hok
      obtain ⟨rfl, rfl⟩ := hx
      exact hop (by simp) (fun hb => hb.keep (by simp) (fun _ => rfl) hb.emptied (fun _ => rfl) rfl)
        (fun _ hne => absurd rfl hne) fun _ => rfl
    | _ => exact absurd rfl ho
  | @lock i l k ht hl =>
    by_cases hp : l = .poolMutex
    · -- a call begins
      subst hp
      refine ⟨?_, fun j => ?_⟩
      · rw [inside_of_holder (i := i) (by simp)]
        show Books w₀ _ ((phase (⟨i, .lock .poolMutex, (), c.data⟩ :: tr) i).owned _) c.data
        rw [phase_same ⟨i, .lock .poolMutex, (), c.data⟩]
        have hbooks := h.books
        rw [inside_of_free hl] at hbooks
        exact hbooks.keep (by simp) (fun _ => rfl) hbooks.emptied (fun _ => rfl) rfl
      · by_cases hj : j = i
        · subst hj
          exact Call.own (h.call j) hok (fun _ _ => rfl) (by simp)
        · exact (h.call j).other hj (.inr rfl)
    · exact hquiet (by cases l <;> first | rfl | exact absurd rfl hp) rfl hok
        (Monitor.Config.setHolder_other _ _ _ (Ne.symm hp)) (fun _ => rfl) rfl rfl
  | @unlock i l k ht hl =>
    by_cases hp : l = .poolMutex
    · -- a call ends
      subst hp
      have hcall : Call tr i c.data := h.call i
      have hok : phase tr i = .registered ∨ phase tr i = .failed ∨ phase tr i = .cleared := hok
      have hbooks := h.books
      rw [inside_of_holder hl] at hbooks
      -- what the phase still had is in the registry, or freed
      have howned : (phase tr i).owned c.data.activeBuffers = c.data.activeBuffers := by
        obtain heq | heq | heq := hok <;> rw [heq] <;> rfl
      rw [howned] at hbooks
      refine ⟨?_, fun j => ?_⟩
      · rw [inside_of_free (by simp)]
        refine hbooks.keep (by simp) (fun _ => rfl) (fun hem => ?_) (fun _ => rfl) rfl
        -- a call of `free_all` ends with an empty registry
        obtain hfreeing | hem := Bool.or_eq_true_iff.mp hem
        · obtain hcleared | ⟨rest, hrest⟩ := hcall.freeing hfreeing
          · exact hcall.cleared hcleared
          · rw [hrest] at hok
            obtain heq | heq | heq := hok <;> cases heq
        · exact hbooks.emptied hem
      · by_cases hj : j = i
        · subst hj
          exact Call.own hcall hok (fun _ _ => rfl) (by simp)
        · exact (h.call j).other hj (.inr rfl)
    · exact hquiet (by cases l <;> first | rfl | exact absurd rfl hp) rfl hok
        (Monitor.Config.setHolder_other _ _ _ (Ne.symm hp)) (fun _ => rfl) rfl rfl
  | @resume i w k ht hl hw =>
    have hne : Lock.poolMutex ≠ .watermarkMutex := by simp
    have hholder : (Monitor.Config.setHolder c .watermarkMutex (some i)).holder .poolMutex =
        c.holder .poolMutex := Monitor.Config.setHolder_other _ _ _ hne
    exact hquiet rfl rfl hok hholder (fun _ => rfl) rfl rfl
  | _ => exact hquiet rfl rfl hok rfl (fun _ => rfl) rfl rfl

/-- Whoever is in a call holds the mutex, at every moment. -/
private theorem held_of_run {c₀ : Config E} (hfree : c₀.holder .poolMutex = none)
    (hr : c₀.Run tr c) : Held tr c := by
  intro i hi
  refine (hr.holding_iff (fun _ => by simp) hfree i).mp ?_
  rw [ne_eq, phase_away_iff, Bool.not_eq_false] at hi
  exact hi

/-- The pool in a run of threads that use it by its calls only. -/
theorem kept_of_run {c₀ : Config E} (h₀ : Registered c₀.data)
    (hfree : c₀.holder .poolMutex = none)
    (hstart : ∀ i, poolWatch.Meets (c₀.threads i).prog (fun _ s => s = .away) .away)
    (hr : c₀.Run tr c) (hv : VectorGrows tr) :
    Kept c₀.data tr c ∧ Observer.Follows (M := machine E) (fun _ => poolWatch)
      (fun _ _ s => s = .away) tr c := by
  refine hr.observe_while (P := VectorGrows) (R := Kept c₀.data) ?_ hstart ?_ ?_ ?_ hv
  · intro e tr hv later earlier i d htr
    exact hv (e :: later) earlier i d (by rw [htr, List.cons_append])
  · refine ⟨?_, fun i => ?_⟩
    · rw [inside_of_free hfree]
      exact Books.start h₀
    · refine ⟨fun h => (by cases h), fun h => (by cases h), fun h => ?_, fun h => (by cases h)⟩
      obtain h | h := h <;> cases h
  · intro tr c e c' hrun hv hkept he hok
    refine ⟨?_, hkept.acts (held_of_run hfree hrun) he hok⟩
    -- memory is there for a buffer that has to be registered
    obtain ⟨i, a, r, d⟩ := e
    cases a with
    | op o =>
      cases o with
      | allocate =>
        rintro ⟨b, hb⟩
        cases r with
        | true => rfl
        | false =>
          have haway := phase_away_iff.mpr (hv [] tr i d rfl)
          cases haway.symm.trans hb
      | _ => trivial
    | _ => trivial
  · intro tr c c' hrun hkept hs
    have hdata := hs.data
    refine ⟨?_, fun i => hdata ▸ hkept.call i⟩
    have hinside : inside tr c' = inside tr c := by
      have hne : Lock.poolMutex ≠ .watermarkMutex := by simp
      cases hs with
      | @sleep i w k ht hl hw =>
        show ((Monitor.Config.setHolder c .watermarkMutex none).holder .poolMutex).elim _ _ = _
        rw [Monitor.Config.setHolder_other _ _ _ hne]
        rfl
      | doze => rfl
    rw [hinside, hdata]
    exact hkept.books

/-- The registry owns the buffers of the pool in a run of threads that use it by its calls only. -/
theorem owned_of_run {c₀ : Config E} (h₀ : Registered c₀.data)
    (hfree : c₀.holder .poolMutex = none)
    (hstart : ∀ i, poolWatch.Meets (c₀.threads i).prog (fun _ s => s = .away) .away)
    (hr : c₀.Run tr c) (hv : VectorGrows tr) : Owned c₀.data tr c := by
  obtain ⟨hbooks, hcall⟩ := (kept_of_run h₀ hfree hstart hr hv).1
  have hregistry : c.holder .poolMutex = none → Books c₀.data tr c.data.activeBuffers c.data := by
    intro hnone
    rw [inside_of_free hnone] at hbooks
    exact hbooks
  constructor
  · exact fun hnone => (hregistry hnone).live
  · exact fun hnone => (hregistry hnone).nodup
  · intro hnone b hb
    split
    · exact (hregistry hnone).kept b ‹_›
    · exact (hregistry hnone).freed b hb ‹_›
  · intro b
    by_cases hb : Allocated c₀.data tr b
    · by_cases hL : b ∈ (inside tr c).owned c.data.activeBuffers
      · rw [hbooks.kept b hL]
        exact Nat.zero_le _
      · exact (hbooks.freed b hb hL).le
    · rw [hbooks.fresh b hb]
      exact Nat.zero_le _
  · exact fun i hi => (hcall i).found (.inr ((hcall i).failed hi))
  · intro hem
    have hnil := hbooks.emptied hem
    refine ⟨fun b => ?_, fun b hb => hbooks.freed b hb ?_⟩
    · have hlive := hbooks.live b
      rw [hnil] at hlive
      simpa using hlive
    · rw [hnil]
      exact List.not_mem_nil

end MemoryPool

end SwarmKV
