import SwarmKV.Spec.VramWatch
import SwarmKV.Spec.Stuck

/-!
# What a trace says about contexts

Whether the calls of a run have succeeded, whether the prefiller is between the commit of a
milestone and its pause, and what an action does to what the observers of the contexts know.
-/

namespace SwarmKV

open Monitor

/-! ## What a trace says -/

section Traces

variable {E : Engine}

/-- The size of an export that thread `i` has been told last. -/
def exportSize : Trace (machine E) → Thread → Nat
  | [], _ => 0
  | ⟨j, .op (.llamaStateSeqGetSize _ _), r, _⟩ :: tr, i => if j = i then r else exportSize tr i
  | _ :: tr, i => exportSize tr i

/-- The buffer has room for the export. -/
def hasRoom (tr : Trace (machine E)) : Entry (machine E) → Bool
  | ⟨i, .op (.bufferSize _), r, _⟩ => decide (exportSize tr i ≤ r)
  | _ => true

/-- Nothing that can fail has failed, and no buffer was too small for an export. -/
def smooth : Trace (machine E) → Bool
  | [] => true
  | e :: tr => succeeds e.action e.answer && hasRoom tr e && smooth tr

/-- The call has not failed, but for a `llama_decode` without tokens, which is none. -/
def obliges : (a : Action sig) → a.Res → Bool
  | .op (.llamaDecode _ batch), r => r || decide (batch.nTokens ≤ 0)
  | a, r => succeeds a r

/-- A call that has a chance has not failed. -/
theorem succeeds_of_obliges {a : Action sig} {r : a.Res} (h : obliges a r = true)
    (hbatch : ∀ hd batch, a = .op (.llamaDecode hd batch) → 0 < batch.nTokens) :
    succeeds a r = true := by
  cases a with
  | op o =>
    cases o with
    | llamaDecode hd batch =>
      have hpos := hbatch hd batch rfl
      obtain hyes | hnone := Bool.or_eq_true_iff.mp h
      · exact hyes
      · exact absurd (of_decide_eq_true hnone) (not_le.mpr hpos)
    | _ => exact h
  | _ => exact h

/-- No call of node `p` has failed that could succeed, and no buffer was too small for its exports. -/
def granted (p : String) : Trace (machine E) → Bool
  | [] => true
  | e :: tr => (decide (e.thread ≠ .worker p) || obliges e.action e.answer && hasRoom tr e) &&
    granted p tr

end Traces

namespace Pipeline

/-- `p` has committed a milestone, and not yet given its context up for it. -/
def pausing (cfg : Pipeline) (p : String) : Trace (machine cfg.engine) → Bool
  | [] => false
  | e :: tr =>
    if e.thread = .worker p then
      match e.action with
      | .op (.note (.commitWatermark _ t)) => decide (cfg.IsMilestone t)
      | .op (.llamaFree _) => false
      | _ => pausing cfg p tr
    else pausing cfg p tr

/-- Nobody else has taken the guard while `p` was pausing. -/
def undisturbed (cfg : Pipeline) (p : String) : Trace (machine cfg.engine) → Bool
  | [] => true
  | e :: tr => (match e with
    | ⟨i, .lock .llamaApiMutex, _, _⟩ => decide (i = .worker p) || !cfg.pausing p tr
    | _ => true) && undisturbed cfg p tr

variable {cfg : Pipeline} {p : String} {tr : Trace (machine cfg.engine)} {i j : Thread}
  {w w' : World} {c c' : Config cfg.engine} {e : Entry (machine cfg.engine)} {n : String}

/-- What the threads have done with their contexts. -/
abbrev vram (cfg : Pipeline) (tr : Trace (machine cfg.engine)) : Thread → VramUse :=
  Observer.state (vramWatch cfg) tr

theorem vram_act (tr : Trace (machine cfg.engine)) (i : Thread) (a : Action sig)
    (r : a.Res) (d : World) :
    cfg.vram (⟨i, a, r, d⟩ :: tr) i = (cfg.vram tr i).next cfg a r :=
  Observer.state_act tr i a r d

theorem vram_other {a : Action sig} {r : a.Res} {d : World} (h : j ≠ i) :
    cfg.vram (⟨i, a, r, d⟩ :: tr) j = cfg.vram tr j :=
  Observer.state_other h

theorem vram_next_held (s : VramUse) (a : Action sig) (r : a.Res) :
    (s.next cfg a r).held = a.holding Lock.llamaApiMutex s.held := by
  cases a with
  | op o =>
    cases o with
    | note e => cases e <;> rfl
    | llamaInitFromModel => cases r <;> rfl
    | _ => rfl
  | lock l => cases l <;> rfl
  | unlock l => cases l <;> rfl
  | wait w => cases w <;> rfl
  | notify v => rfl

/-- The observers know who holds the guard. -/
theorem vram_held_eq (tr : Trace (machine cfg.engine)) (i : Thread) :
    (cfg.vram tr i).held = tr.holding i .llamaApiMutex :=
  Observer.state_holding (fun _ => rfl) (fun _ s a r => vram_next_held s a r) tr i

/-- The observer of the prefiller knows that it is pausing. -/
theorem pausing_eq (tr : Trace (machine cfg.engine)) :
    (cfg.vram tr (.worker p)).pausing = cfg.pausing p tr := by
  induction tr with
  | nil => rfl
  | cons e tr ih =>
    obtain ⟨j, a, r, d⟩ := e
    by_cases hj : j = .worker p
    · -- a commit starts the pause, and `llama_free` ends it
      subst hj
      rw [vram_act]
      refine Eq.trans ?_ (if_pos rfl).symm
      cases a with
      | op o =>
        cases o with
        | note e => cases e <;> first | exact ih | rfl
        | llamaInitFromModel => cases r <;> exact ih
        | llamaFree h => rfl
        | _ => exact ih
      | lock l => cases l <;> exact ih
      | unlock l => cases l <;> exact ih
      | wait w => cases w <;> exact ih
      | notify v => exact ih
    · rw [vram_other (Ne.symm hj), ih]
      exact (if_neg hj).symm

/-- The observers know which size they have been told. -/
theorem asked_eq (tr : Trace (machine cfg.engine)) (i : Thread) :
    (cfg.vram tr i).asked = exportSize tr i := by
  induction tr with
  | nil => rfl
  | cons e tr ih =>
    obtain ⟨j, a, r, d⟩ := e
    by_cases hj : j = i
    · subst hj
      rw [vram_act]
      cases a with
      | op o =>
        cases o with
        | note e => cases e <;> exact ih
        | llamaInitFromModel => cases r <;> exact ih
        | llamaStateSeqGetSize h seq => exact (if_pos rfl).symm
        | _ => exact ih
      | lock l => cases l <;> exact ih
      | unlock l => cases l <;> exact ih
      | wait w => cases w <;> exact ih
      | notify v => exact ih
    · rw [vram_other (Ne.symm hj), ih]
      cases a with
      | op o =>
        cases o with
        | llamaStateSeqGetSize h seq => exact (if_neg hj).symm
        | _ => rfl
      | _ => rfl

/-! ## What an action can do -/

/-- An action of a thread has moved its observer from `s` on. -/
inductive Moves (cfg : Pipeline) (s : VramUse) : Action sig → VramUse → Prop
  | stay {a : Action sig} : Moves cfg s a s
  | lock : Moves cfg s (.lock .llamaApiMutex) { s with held := true }
  | unlock : Moves cfg s (.unlock .llamaApiMutex) { s with held := false }
  | wait (t : Int) : Moves cfg s (.wait (.milestoneConsumers t)) { s with waited := t :: s.waited }
  | init (h : Nat) :
    Moves cfg s (.op .llamaInitFromModel) { s with live := some h, opened := true }
  | free (h : Nat) : Moves cfg s (.op (.llamaFree h)) { s with live := none, pausing := false }
  | start : Moves cfg s (.op (.note .executeStart)) { s with started := true }
  | finish (r : Outcome) : Moves cfg s (.op (.note (.executeEnd r))) { s with ended := true }
  | commit (ctx : Option Nat) (t : Int) : Moves cfg s (.op (.note (.commitWatermark ctx t)))
    { s with top := t, pausing := decide (cfg.IsMilestone t) }
  | consume (t : Int) : Moves cfg s (.op (.consumeMilestone t)) { s with signalled := true }
  | put (t : Int) (data : List UInt8) :
    Moves cfg s (.op (.putSnapshot t data)) { s with filed := t :: s.filed }
  | ask (h : Nat) (seq : Int) (n : Nat) :
    Moves cfg s (.op (.llamaStateSeqGetSize h seq)) { s with asked := n }

theorem next_moves (s : VramUse) (a : Action sig) (r : a.Res) :
    Moves cfg s a (s.next cfg a r) := by
  cases a with
  | op o =>
    cases o with
    | note e => cases e <;> constructor
    | llamaInitFromModel => cases r <;> constructor
    | _ => constructor
  | lock l => cases l <;> constructor
  | unlock l => cases l <;> constructor
  | wait w => cases w <;> constructor
  | notify v => constructor

theorem vram_moves (e : Entry (machine cfg.engine)) (j : Thread) :
    cfg.vram (e :: tr) j = cfg.vram tr j ∨
      j = e.thread ∧ Moves cfg (cfg.vram tr j) e.action (cfg.vram (e :: tr) j) := by
  obtain ⟨i, a, r, d⟩ := e
  by_cases hj : j = i
  · subst hj
    rw [vram_act]
    exact .inr ⟨rfl, next_moves _ a r⟩
  · exact .inl (vram_other hj)

namespace Moves

variable {s s' : VramUse} {a : Action sig} {t : Int}

theorem top (h : Moves cfg s a s') :
    s'.top = s.top ∨ ∃ ctx, a = .op (.note (.commitWatermark ctx s'.top)) := by
  cases h with
  | commit ctx t => exact .inr ⟨ctx, rfl⟩
  | _ => exact .inl rfl

theorem filed (h : Moves cfg s a s') (ht : t ∈ s'.filed) :
    t ∈ s.filed ∨ ∃ data, a = .op (.putSnapshot t data) := by
  cases h with
  | put t' data =>
    obtain rfl | ht := List.mem_cons.mp ht
    · exact .inr ⟨data, rfl⟩
    · exact .inl ht
  | _ => exact .inl ht

theorem waited (h : Moves cfg s a s') (ht : t ∈ s'.waited) :
    t ∈ s.waited ∨ a = .wait (.milestoneConsumers t) := by
  cases h with
  | wait t' =>
    obtain rfl | ht := List.mem_cons.mp ht
    · exact .inr rfl
    · exact .inl ht
  | _ => exact .inl ht

theorem started (h : Moves cfg s a s') (hs : s'.started = true) :
    s.started = true ∨ a = .op (.note .executeStart) := by
  cases h with
  | start => exact .inr rfl
  | _ => exact .inl hs

theorem ended (h : Moves cfg s a s') (hs : s.ended = true) : s'.ended = true := by
  cases h with
  | finish r => rfl
  | _ => exact hs

theorem opened (h : Moves cfg s a s') (hs : s.opened = true) : s'.opened = true := by
  cases h with
  | init h => rfl
  | _ => exact hs

theorem signalled (h : Moves cfg s a s') (hs : s'.signalled = false) : s.signalled = false := by
  cases h with
  | consume t => cases hs
  | _ => exact hs

theorem held (h : Moves cfg s a s') (hs : s'.held = true) :
    s.held = true ∨ a = .lock .llamaApiMutex := by
  cases h with
  | lock => exact .inr rfl
  | unlock => cases hs
  | _ => exact .inl hs

theorem live (h : Moves cfg s a s') :
    s'.live = s.live ∨ s'.live = none ∨ a = .op .llamaInitFromModel := by
  cases h with
  | init h => exact .inr (.inr rfl)
  | free h => exact .inr (.inl rfl)
  | _ => exact .inl rfl

end Moves

/-! ## The shared data -/

theorem log_grows (he : c.Acts e c') (j : Thread) : c.data.log j <+: c'.data.log j :=
  reaches_log_grows (.single (Config.step_iff.mpr (.inl ⟨e, he⟩))) j

theorem mem_log_act (he : c.Acts e c') {ev : Event} (hev : ev ∈ c'.data.log j) :
    ev ∈ c.data.log j ∨ ∃ o, j = e.thread ∧ e.action = .op o ∧ Emits cfg.engine c.data o ev := by
  obtain hsame | ⟨i, o, r, x, rfl, -, hx⟩ := he.data
  · rw [hsame] at hev
    exact .inl hev
  · obtain hold | ⟨rfl, hemit⟩ := exec_mem_log hx hev
    · exact .inl hold
    · exact .inr ⟨o, rfl, rfl, hemit⟩

/-- The snapshots that a thread has filed stay filed. -/
theorem filed_act (hfiled : ∀ t ∈ (cfg.vram tr i).filed, (c.data.state.prefixSnapshots t).isSome)
    (he : c.Acts e c') (t : Int) (ht : t ∈ (cfg.vram (e :: tr) i).filed) :
    (c'.data.state.prefixSnapshots t).isSome := by
  -- nothing takes a snapshot away
  have hkeep : ∀ t, (c.data.state.prefixSnapshots t).isSome →
      (c'.data.state.prefixSnapshots t).isSome := by
    intro t ht
    obtain hsame | ⟨i, o, r, x, -, -, hx⟩ := he.data
    · rwa [hsame]
    · obtain heq | ⟨t', data, -, heq⟩ := exec_prefixSnapshots hx
      · rwa [heq]
      · rw [heq]
        by_cases htt : t = t'
        · simp [htt]
        · rwa [Function.update_of_ne htt]
  -- a new one is there from now on
  obtain heq | ⟨-, hmove⟩ := vram_moves e i
  · rw [heq] at ht
    exact hkeep t (hfiled t ht)
  · obtain hold | ⟨data, ha⟩ := hmove.filed ht
    · exact hkeep t (hfiled t hold)
    · cases he with
      | op hat hx =>
        cases ha
        simp only [exec, Option.some.injEq, Prod.mk.injEq] at hx
        obtain ⟨-, rfl⟩ := hx
        simp [World.update]
      | _ => cases ha

/-- An answer without a failure is as the observer expects it. -/
theorem expects_act (hstaging : cfg.staging.isSome) (hr : cfg.initial.Run tr c) (he : c.Acts e c')
    (hfiled : ∀ t ∈ (cfg.vram tr e.thread).filed, (c.data.state.prefixSnapshots t).isSome)
    (hs : succeeds e.action e.answer = true) (hroom : hasRoom tr e = true) :
    (cfg.vram tr e.thread).expects cfg e.action e.answer := by
  cases he with
  | @op i o k x r d ht hx =>
    cases o with
    | load =>
      simp only [exec, Option.some.injEq, Prod.mk.injEq] at hx
      obtain ⟨rfl, -⟩ := hx
      have hinv := (reachable_holds hr.reaches).inv
      refine ⟨hinv.milestones, ?_, hfiled⟩
      -- the staging buffer stays where it is
      show c.data.state.materializedBranchBuffer.isSome
      rw [hinv.staging, stagingBuffer, Option.isSome_map]
      exact hstaging
    | bufferSize b =>
      show (cfg.vram tr i).asked ≤ r
      rw [asked_eq]
      exact of_decide_eq_true hroom
    | llamaDecode hd batch => exact ⟨hs, exec_answered hx hs⟩
    | _ => exact hs
  | _ => exact hs

end Pipeline

end SwarmKV
