import SwarmKV.Spec.Custody
import SwarmKV.Spec.Effects
import SwarmKV.Spec.Toy

/-!
# No leak and no double free

A call of `execute()` in an arbitrary run: whatever the other threads do and however the
engine, the allocator and the blackboard answer, the call never uses or frees what it has
freed, and when it is over everything that it has created is freed exactly once, unless one
of the answers was one it does not handle. Then its context is still there.
-/

namespace SwarmKV

open Monitor

/-- What a call creates and has to free. -/
inductive Resource where
  | context
  | batch

namespace Resource

/-- The handle that an action creates. -/
def created : Resource → (a : Action sig) → a.Res → Option Nat
  | .context, .op .llamaInitFromModel, r => r
  | .batch, .op .llamaBatchInit, r => some r
  | _, _, _ => none

/-- The handle that an action frees. -/
def freed : Resource → Action sig → Option Nat
  | .context, .op (.llamaFree h) => some h
  | .batch, .op (.llamaBatchFree b) => some b
  | _, _ => none

/-- The handle that an action uses; to free it is a use. -/
def used : Resource → Action sig → Option Nat
  | .context, .op (.llamaFree h) => some h
  | .context, .op (.llamaDecode h _) => some h
  | .context, .op (.llamaStateGetSize h _) => some h
  | .context, .op (.llamaStateSeqGetSize h _) => some h
  | .context, .op (.llamaStateSeqGetData h _ _ _) => some h
  | .context, .op (.llamaStateSeqSetData h _ _ _) => some h
  | .batch, .op (.llamaBatchFree b) => some b
  | .batch, .op (.llamaDecode _ b) => some b.id
  | _, _ => none

/-- The next handle. -/
def fresh : Resource → World → Nat
  | .context, w => w.nextContext
  | .batch, w => w.nextBatch

/-- What the call has, as its watch sees it. -/
def held : Resource → Custody → Option Nat
  | .context, s => s.live
  | .batch, s => s.batch

variable {E : Engine} {i : Thread}

/-- Thread `i` has created `h`. -/
def Created (R : Resource) (tr : Trace (machine E)) (i : Thread) (h : Nat) : Prop :=
  ∃ e ∈ tr, e.thread = i ∧ R.created e.action e.answer = some h

/-- How often thread `i` has freed `h`. -/
def frees (R : Resource) (tr : Trace (machine E)) (i : Thread) (h : Nat) : Nat :=
  tr.countP fun e => decide (e.thread = i ∧ R.freed e.action = some h)

end Resource

/-- Thread `i` has freed what it has created exactly once, and has not used it after that. -/
def CleanedUp {E : Engine} (tr : Trace (machine E)) (i : Thread) : Prop :=
  ∀ R : Resource, (∀ h, R.Created tr i h → R.frees tr i h = 1) ∧
    ∀ later e earlier, tr = later ++ e :: earlier → e.thread = i →
      ∀ h, R.used e.action = some h → R.frees earlier i h = 0

/-- What the watch over thread `i` knows after a trace, if the thread is in a call of the
    node's `execute()`. -/
def custody {E : Engine} (node : Node) (i : Thread) : Trace (machine E) → Custody
  | [] => {}
  | e :: tr => if e.thread = i then (custody node i tr).next E node e.action e.answer
    else custody node i tr

/-- Thread `i` has been given an answer that the node's code does not handle. -/
def Exposed {E : Engine} (node : Node) (tr : Trace (machine E)) (i : Thread) : Prop :=
  ∃ later e earlier, tr = later ++ e :: earlier ∧ e.thread = i ∧
    (custody node i earlier).unhandled E node e.action e.answer = true

/-! ## The books of a call -/

namespace Resource

variable {E : Engine} {node : Node} {i : Thread} {tr : Trace (machine E)} {R : Resource}
  {s : Custody} {w w' : World}

/-- An action creates a handle, frees one, or does neither. -/
theorem action_cases (R : Resource) (s : Custody) (a : Action sig) (r : a.Res) :
    (∃ h, R.created a r = some h ∧ R.freed a = none ∧ R.used a = none ∧
      R.held (s.next E node a r) = some h ∧ (s.accepts a → R.held s = none)) ∨
    (∃ h, R.created a r = none ∧ R.freed a = some h ∧ R.used a = some h ∧
      R.held (s.next E node a r) = none ∧ (s.accepts a → R.held s = some h)) ∨
    R.created a r = none ∧ R.freed a = none ∧ R.held (s.next E node a r) = R.held s ∧
      (s.accepts a → ∀ h, R.used a = some h → R.held s = some h) := by
  cases R with
  | context =>
    cases a with
    | op o =>
      cases o with
      | llamaInitFromModel =>
        cases (r : Option Nat) with
        | none => exact .inr (.inr ⟨rfl, rfl, rfl, fun _ h hh => by cases hh⟩)
        | some h => exact .inl ⟨h, rfl, rfl, rfl, rfl, id⟩
      | llamaFree h => exact .inr (.inl ⟨h, rfl, rfl, rfl, rfl, id⟩)
      | llamaDecode h b => exact .inr (.inr ⟨rfl, rfl, rfl, fun hs _ hh => hs.1.trans hh⟩)
      | llamaStateGetSize h n => exact .inr (.inr ⟨rfl, rfl, rfl, fun hs _ hh => hs.trans hh⟩)
      | llamaStateSeqGetSize h n => exact .inr (.inr ⟨rfl, rfl, rfl, fun hs _ hh => hs.trans hh⟩)
      | llamaStateSeqGetData h b n q =>
        exact .inr (.inr ⟨rfl, rfl, rfl, fun hs _ hh => hs.trans hh⟩)
      | llamaStateSeqSetData h p n q =>
        exact .inr (.inr ⟨rfl, rfl, rfl, fun hs _ hh => hs.trans hh⟩)
      | _ => exact .inr (.inr ⟨rfl, rfl, rfl, fun _ h hh => by cases hh⟩)
    | _ => exact .inr (.inr ⟨rfl, rfl, rfl, fun _ h hh => by cases hh⟩)
  | batch =>
    cases a with
    | op o =>
      cases o with
      | llamaInitFromModel =>
        cases (r : Option Nat) with
        | none => exact .inr (.inr ⟨rfl, rfl, rfl, fun _ h hh => by cases hh⟩)
        | some h => exact .inr (.inr ⟨rfl, rfl, rfl, fun _ h hh => by cases hh⟩)
      | llamaBatchInit => exact .inl ⟨r, rfl, rfl, rfl, rfl, id⟩
      | llamaBatchFree b => exact .inr (.inl ⟨b, rfl, rfl, rfl, rfl, id⟩)
      | llamaDecode h b => exact .inr (.inr ⟨rfl, rfl, rfl, fun hs _ hh => hs.2.trans hh⟩)
      | _ => exact .inr (.inr ⟨rfl, rfl, rfl, fun _ h hh => by cases hh⟩)
    | _ => exact .inr (.inr ⟨rfl, rfl, rfl, fun _ h hh => by cases hh⟩)

/-- Handles are given out in order. -/
theorem fresh_exec {o : Op} {x : Choice} {r : o.Res} (hx : exec E i o x w = some (r, w')) :
    R.fresh w ≤ R.fresh w' ∧ ∀ h, R.created (.op o) r = some h →
      h = R.fresh w ∧ R.fresh w' = R.fresh w + 1 := by
  unfold exec at hx
  split at hx
  all_goals
    repeat' split at hx
    all_goals first
      | (obtain ⟨rfl, rfl⟩ := Prod.mk.inj (Option.some.inj hx)
         cases R <;> first
           | exact ⟨le_rfl, fun h hh => by cases hh⟩
           | exact ⟨Nat.le_succ _, fun h hh => ⟨(Option.some.inj hh).symm, rfl⟩⟩)
      | cases hx

/-- The books of a call over one kind of resource. -/
structure Books (R : Resource) (i : Thread) (tr : Trace (machine E)) (s : Custody) (w : World) :
    Prop where
  created : ∀ h, R.Created tr i h → h < R.fresh w ∧
    R.frees tr i h = if R.held s = some h then 0 else 1
  held : ∀ h, R.held s = some h → R.Created tr i h
  freed : ∀ h, ¬ R.Created tr i h → R.frees tr i h = 0
  used : ∀ later e earlier, tr = later ++ e :: earlier → e.thread = i →
    ∀ h, R.used e.action = some h → R.frees earlier i h = 0

/-- The use of a handle after an action. -/
private theorem used_cons {e : Entry (machine E)}
    (hold : ∀ later e' earlier, tr = later ++ e' :: earlier → e'.thread = i →
      ∀ h, R.used e'.action = some h → R.frees earlier i h = 0)
    (hnew : e.thread = i → ∀ h, R.used e.action = some h → R.frees tr i h = 0) :
    ∀ later e' earlier, e :: tr = later ++ e' :: earlier → e'.thread = i →
      ∀ h, R.used e'.action = some h → R.frees earlier i h = 0 := by
  intro later e' earlier htr hi h hh
  cases later with
  | nil =>
    obtain ⟨rfl, rfl⟩ := List.cons.inj htr
    exact hnew hi h hh
  | cons e'' later =>
    obtain ⟨-, htr⟩ := List.cons.inj htr
    exact hold later e' earlier htr hi h hh

/-- An action of another thread. -/
theorem Books.other (hb : Books R i tr s w) {e : Entry (machine E)} (he : e.thread ≠ i)
    (hfresh : R.fresh w ≤ R.fresh w') : Books R i (e :: tr) s w' := by
  have hfrees : ∀ h, R.frees (e :: tr) i h = R.frees tr i h := by
    intro h
    simp [frees, he]
  have hcreated : ∀ h, R.Created (e :: tr) i h ↔ R.Created tr i h := by
    intro h
    simp [Created, he]
  exact {
    created := fun h hh => by
      rw [hfrees]
      obtain ⟨hlt, hcount⟩ := hb.created h ((hcreated h).mp hh)
      exact ⟨by omega, hcount⟩
    held := fun h hh => (hcreated h).mpr (hb.held h hh)
    freed := fun h hh => by
      rw [hfrees]
      exact hb.freed h fun hold => hh ((hcreated h).mpr hold)
    used := used_cons hb.used fun hi => absurd hi he }

/-- An action of the call itself that its watch accepts. -/
theorem Books.own (hb : Books R i tr s w) {a : Action sig} {r : a.Res} {d : World}
    (hok : s.accepts a) (hfresh : R.fresh w ≤ R.fresh w')
    (hnew : ∀ h, R.created a r = some h → h = R.fresh w ∧ R.fresh w' = R.fresh w + 1) :
    Books R i (⟨i, a, r, d⟩ :: tr) (s.next E node a r) w' := by
  have hcreated : ∀ h, R.Created (E := E) (⟨i, a, r, d⟩ :: tr) i h ↔
      R.created a r = some h ∨ R.Created tr i h := by
    intro h
    simp [Created]
  have hfrees : ∀ h, R.frees (E := E) (⟨i, a, r, d⟩ :: tr) i h =
      R.frees tr i h + if R.freed a = some h then 1 else 0 := by
    intro h
    simp [frees, List.countP_cons]
  obtain ⟨k, hc, hf, hu, hheld, hnone⟩ | ⟨k, hc, hf, hu, hheld, hhad⟩ | ⟨hc, hf, hheld, hhad⟩ :=
    @action_cases E node R s a r
  · -- a new handle: nobody has seen it before
    obtain ⟨rfl, hsucc⟩ := hnew k hc
    have hunseen : ¬ R.Created tr i (R.fresh w) := fun hh => absurd (hb.created _ hh).1 (by omega)
    refine ⟨fun h hh => ?_, fun h hh => ?_, fun h hh => ?_, used_cons hb.used fun _ h hh => ?_⟩
    · rw [hfrees, hf, hheld]
      obtain hh | hh := (hcreated h).mp hh
      · obtain rfl := Option.some.inj (hc.symm.trans hh)
        exact ⟨by omega, by simp [hb.freed _ hunseen]⟩
      · obtain ⟨hlt, hcount⟩ := hb.created h hh
        have hne : R.fresh w ≠ h := by omega
        rw [hnone hok] at hcount
        exact ⟨by omega, by simpa [hne] using hcount⟩
    · rw [hheld] at hh
      exact (hcreated h).mpr (.inl (hc.trans hh))
    · rw [hfrees, hf]
      have hold : ¬ R.Created tr i h := fun hold => hh ((hcreated h).mpr (.inr hold))
      simpa using hb.freed h hold
    · rw [hu] at hh
      cases hh
  · -- the handle at hand is freed
    have hhad := hhad hok
    have hzero : R.frees tr i k = 0 := by
      rw [(hb.created k (hb.held k hhad)).2, if_pos hhad]
    refine ⟨fun h hh => ?_, fun h hh => ?_, fun h hh => ?_, used_cons hb.used fun _ h hh => ?_⟩
    · rw [hfrees, hf, hheld]
      obtain hh | hh := (hcreated h).mp hh
      · rw [hc] at hh
        cases hh
      · obtain ⟨hlt, hcount⟩ := hb.created h hh
        refine ⟨by omega, ?_⟩
        rw [hcount, hhad]
        by_cases hk : k = h <;> simp [hk]
    · rw [hheld] at hh
      cases hh
    · rw [hfrees, hf]
      have hold : ¬ R.Created tr i h := fun hold => hh ((hcreated h).mpr (.inr hold))
      have hk : k ≠ h := fun hk => hold (hk ▸ hb.held k hhad)
      simpa [hk] using hb.freed h hold
    · rw [hu] at hh
      obtain rfl := Option.some.inj hh
      exact hzero
  · -- neither
    refine ⟨fun h hh => ?_, fun h hh => ?_, fun h hh => ?_, used_cons hb.used fun _ h hh => ?_⟩
    · rw [hfrees, hf, hheld]
      obtain hh | hh := (hcreated h).mp hh
      · rw [hc] at hh
        cases hh
      · obtain ⟨hlt, hcount⟩ := hb.created h hh
        exact ⟨by omega, by simpa using hcount⟩
    · rw [hheld] at hh
      exact (hcreated h).mpr (.inr (hb.held h hh))
    · rw [hfrees, hf]
      have hold : ¬ R.Created tr i h := fun hold => hh ((hcreated h).mpr (.inr hold))
      simpa using hb.freed h hold
    · have hhas := hhad hok h hh
      rw [(hb.created h (hb.held h hhas)).2, if_pos hhas]

end Resource

/-! ## Calls in a run -/

/-- A call of `execute()`. -/
theorem Node.execute_custody (node : Node) (ctx : OrchestratorContext) {staging : Option Nat}
    {milestones : List Int} :
    (custodyWatch ctx.engine node staging milestones).Spec Custody.Bare (node.execute ctx)
      (fun _ => Custody.Ended) fun _ => Custody.Ended := by
  cases node with
  | prefill node => exact Custody.prefill_custody
  | analytical node => exact Custody.branch_custody

section Run

variable {E : Engine} {node : Node} {i : Thread} {c₀ c : Config E} {tr : Trace (machine E)}
  {staging : Option Nat} {milestones : List Int}

/-- The watch over the call, with nobody watching the other threads. -/
private def watchCall (E : Engine) (node : Node) (staging : Option Nat) (milestones : List Int)
    (i j : Thread) : Observer sig Custody :=
  if j = i then custodyWatch E node staging milestones
  else { start := {}, next := fun s _ _ => s, ok := fun _ _ => True }

private theorem watchCall_self :
    watchCall E node staging milestones i i = custodyWatch E node staging milestones :=
  if_pos rfl

private theorem state_eq_custody :
    Observer.state (watchCall E node staging milestones i) tr i = custody node i tr := by
  induction tr with
  | nil =>
    rw [Observer.state_nil, watchCall_self]
    rfl
  | cons e tr ih =>
    simp only [Observer.state, custody, watchCall_self, ih]
    rfl

/-- An exposed call has been given an answer that it does not handle. -/
theorem exposed_iff : Exposed node tr i ↔ (custody node i tr).exposed = true := by
  induction tr with
  | nil =>
    refine ⟨fun h => ?_, fun h => by cases h⟩
    obtain ⟨later, e, earlier, htr, -⟩ := h
    simp at htr
  | cons e tr ih =>
    have hcons : Exposed node (e :: tr) i ↔ Exposed node tr i ∨ e.thread = i ∧
        (custody node i tr).unhandled E node e.action e.answer = true := by
      constructor
      · rintro ⟨later, e', earlier, htr, hi, hun⟩
        cases later with
        | nil =>
          obtain ⟨rfl, rfl⟩ := List.cons.inj htr
          exact .inr ⟨hi, hun⟩
        | cons e'' later =>
          obtain ⟨-, htr⟩ := List.cons.inj htr
          exact .inl ⟨later, e', earlier, htr, hi, hun⟩
      · rintro (⟨later, e', earlier, rfl, hi, hun⟩ | ⟨hi, hun⟩)
        · exact ⟨e :: later, e', earlier, rfl, hi, hun⟩
        · exact ⟨[], e, tr, rfl, hi, hun⟩
    rw [hcons, ih, custody]
    by_cases hi : e.thread = i
    · simp [hi, Custody.next]
    · simp [hi]

/-- What the watch over the call knows is so. -/
private structure CallOk (staging : Option Nat) (milestones : List Int) (i : Thread)
    (tr : Trace (machine E)) (s : Custody) (w : World) : Prop where
  staging : w.state.materializedBranchBuffer = staging
  milestones : w.state.snapshotMilestones = milestones
  filed : ∀ t ∈ s.filed, (w.state.prefixSnapshots t).isSome
  books : ∀ R : Resource, R.Books i tr s w

/-- A filed snapshot was there before, or has just been put there. -/
private theorem filed_next {s : Custody} {o : Op} {x : Choice} {r : o.Res} {w w' : World}
    (hx : exec E i o x w = some (r, w')) (hs : ∀ t ∈ s.filed, (w.state.prefixSnapshots t).isSome) :
    ∀ t ∈ (s.next E node (.op o) r).filed, (w'.state.prefixSnapshots t).isSome := by
  have hold : (s.next E node (.op o) r).filed = s.filed →
      ∀ t ∈ (s.next E node (.op o) r).filed, (w'.state.prefixSnapshots t).isSome := by
    intro heq t ht
    exact exec_snapshots_mono hx (hs t (heq ▸ ht))
  cases o with
  | putSnapshot t data =>
    obtain ⟨-, rfl⟩ := Prod.mk.inj (Option.some.inj hx)
    intro t' ht'
    obtain rfl | ht' := List.mem_cons.mp ht'
    · simp [World.update]
    · exact exec_snapshots_mono (E := E) (i := i) (o := .putSnapshot t data) (x := x) rfl (hs t' ht')
  | llamaInitFromModel =>
    cases (r : Option Nat) with
    | none => exact hold rfl
    | some h => exact hold rfl
  | _ => exact hold rfl

/-- An action of the call keeps what its watch knows true. -/
private theorem CallOk.own {s : Custody} {e : Entry (machine E)} {c' : Config E}
    (h : CallOk staging milestones i tr s c.data) (he : c.Acts e c') (hi : e.thread = i)
    (hok : s.accepts e.action) :
    CallOk staging milestones i (e :: tr) (s.next E node e.action e.answer) c'.data := by
  subst hi
  cases he with
  | op ht hx =>
    exact {
      staging := (exec_materializedBranchBuffer hx).trans h.staging
      milestones := (exec_snapshotMilestones hx).trans h.milestones
      filed := filed_next hx h.filed
      books := fun R => (h.books R).own hok (Resource.fresh_exec hx).1 (Resource.fresh_exec hx).2 }
  | _ =>
    exact {
      staging := h.staging
      milestones := h.milestones
      filed := h.filed
      books := fun R => (h.books R).own hok le_rfl fun h hh => by cases R <;> cases hh }

/-- So does an action of another thread. -/
private theorem CallOk.other {s : Custody} {e : Entry (machine E)} {c' : Config E}
    (h : CallOk staging milestones i tr s c.data) (he : c.Acts e c') (hi : e.thread ≠ i) :
    CallOk staging milestones i (e :: tr) s c'.data := by
  cases he with
  | op ht hx =>
    exact {
      staging := (exec_materializedBranchBuffer hx).trans h.staging
      milestones := (exec_snapshotMilestones hx).trans h.milestones
      filed := fun t ht => exec_snapshots_mono hx (h.filed t ht)
      books := fun R => (h.books R).other hi (Resource.fresh_exec hx).1 }
  | _ =>
    exact {
      staging := h.staging
      milestones := h.milestones
      filed := h.filed
      books := fun R => (h.books R).other hi le_rfl }

/-- What the blackboard answers is as the watch expects. -/
private theorem CallOk.expects {s : Custody} {e : Entry (machine E)} {c' : Config E}
    (h : CallOk staging milestones i tr s c.data) (he : c.Acts e c') :
    s.expects staging milestones e.action e.answer := by
  have hload : ∀ {j : Thread} {o : Op} {x : Choice} {r : o.Res} {w' : World},
      exec E j o x c.data = some (r, w') → s.expects staging milestones (.op o) r := by
    intro j o x r w' hx
    cases o with
    | load =>
      obtain ⟨rfl, -⟩ := Prod.mk.inj (Option.some.inj hx)
      exact ⟨h.staging, h.milestones, h.filed⟩
    | llamaDecode hd batch => exact exec_answered hx
    | _ => trivial
  cases he with
  | op ht hx => exact hload hx
  | _ => trivial

/-- A call that is over has its books in order. -/
private theorem call_over {ctx : OrchestratorContext} {c₀ c : Config ctx.engine}
    {tr : Trace (machine ctx.engine)} (hcall : c₀.threads i = .run (node.execute ctx))
    (hrun : c₀.Run tr c) (hend : (c.threads i).finished) :
    (∀ R : Resource, R.Books i tr (custody node i tr) c.data) ∧ (custody node i tr).Ended := by
  generalize hst : c₀.data.state.materializedBranchBuffer = st
  generalize hms : c₀.data.state.snapshotMilestones = ms
  -- before the call nothing is on the books
  have hstart : CallOk (E := ctx.engine) st ms i [] {} c₀.data := by
    have hnone : ∀ (R : Resource) h, ¬ R.Created (E := ctx.engine) [] i h := by
      rintro R h ⟨e, he, -⟩
      cases he
    refine ⟨hst, hms, (fun t ht => by cases ht), fun R => ⟨fun h hh => absurd hh (hnone R h),
      fun h hh => ?_, fun _ _ => rfl, fun later e earlier htr => by simp at htr⟩⟩
    cases R <;> cases hh
  -- only the thread of the call is watched
  have hmeets : ∀ j, (watchCall ctx.engine node st ms i j).Meets (c₀.threads j).prog
      (fun _ s => j = i → s.Ended) (watchCall ctx.engine node st ms i j).start := by
    intro j
    unfold watchCall
    split
    · rename_i hji
      subst hji
      rw [hcall]
      refine (node.execute_custody ctx {} ⟨rfl, rfl, rfl⟩).mono fun r s hs _ => ?_
      cases r <;> exact hs
    · rename_i hji
      exact (Observer.Meets.of_all (fun _ _ => trivial) _ _).mono fun _ _ _ hj => absurd hj hji
  have hact : ∀ {tr c e c'}, c₀.Run tr c → CallOk st ms i tr (custody node i tr) c.data →
      c.Acts e c' →
      (watchCall ctx.engine node st ms i e.thread).ok
        (Observer.state (watchCall ctx.engine node st ms i) tr e.thread) e.action →
      (watchCall ctx.engine node st ms i e.thread).ans
        (Observer.state (watchCall ctx.engine node st ms i) tr e.thread) e.action e.answer ∧
      CallOk st ms i (e :: tr) (custody node i (e :: tr)) c'.data := by
    intro tr c e c' _ hR he hok
    by_cases hi : e.thread = i
    · have hself : custody node i (e :: tr) =
          (custody node i tr).next ctx.engine node e.action e.answer := if_pos hi
      rw [hi, watchCall_self, state_eq_custody] at hok ⊢
      rw [hself]
      exact ⟨hR.expects he, hR.own he hi hok⟩
    · -- a step of another thread
      have hself : custody node i (e :: tr) = custody node i tr := if_neg hi
      rw [hself]
      refine ⟨?_, hR.other he hi⟩
      unfold watchCall
      rw [if_neg hi]
      trivial
  obtain ⟨hok, hfollows⟩ := hrun.observe
    (R := fun tr c => CallOk st ms i tr (custody node i tr) c.data) hmeets hstart hact
    fun _ hR hs => hs.data ▸ hR
  refine ⟨hok.books, ?_⟩
  -- at its end the watch says what the call has left
  have hstate : Observer.state (watchCall ctx.engine node st ms i) tr i = custody node i tr :=
    state_eq_custody
  rw [← hstate]
  obtain ht | ⟨e, ht⟩ := TState.eq_of_finished hend
  · exact hfollows.of_ret ht rfl
  · exact hfollows.of_throw ht rfl

end Run

/-- Whatever happens during a call of `execute()`: when the call is over, each context and
    each batch that it has created has been freed exactly once and not been used after that,
    exactly if it has not been given an answer that its code does not handle. -/
theorem execute_cleanedUp_iff {node : Node} {ctx : OrchestratorContext} {i : Thread}
    {c₀ c : Config ctx.engine} {tr : Trace (machine ctx.engine)}
    (hcall : c₀.threads i = .run (node.execute ctx)) (hrun : c₀.Run tr c)
    (hend : (c.threads i).finished) : CleanedUp tr i ↔ ¬ Exposed node tr i := by
  obtain ⟨hbooks, hended⟩ := call_over hcall hrun hend
  rw [exposed_iff]
  constructor
  · intro hclean hexposed
    obtain ⟨h, hlive⟩ := Option.isSome_iff_exists.mp (hended.live.symm.trans hexposed)
    have hcreated := (hbooks .context).held h hlive
    have hone := (hclean .context).1 h hcreated
    have hzero := ((hbooks .context).created h hcreated).2.trans (if_pos hlive)
    cases hzero.symm.trans hone
  · intro hexposed R
    rw [Bool.not_eq_true] at hexposed
    have hheld : R.held (custody node i tr) = none := by
      cases R with
      | context =>
        have hlive := hended.live
        rw [hexposed] at hlive
        exact Option.isNone_iff_eq_none.mp (Option.isSome_eq_false_iff.mp hlive.symm)
      | batch => exact hended.batch hexposed
    refine ⟨fun h hh => ?_, (hbooks R).used⟩
    rw [((hbooks R).created h hh).2, hheld]
    rfl

namespace Toy

/-- The context of a call, with a document of one token. -/
def callContext (nCtx : Nat) : OrchestratorContext where
  engine := shortEngine
  nCtx := nCtx
  memoryPool := true
  nodeName := "P"

/-- A call of a prefiller. -/
def prefillCall (nCtx : Nat) : Config (callContext nCtx).engine where
  data := {
    state := { materializedBranchBuffer := some 0 }
    buffers := fun b => if b = 0 then some { size := 64 } else none
    nextBuffer := 1 }
  holder := fun _ => none
  threads := fun i => if i = .main then .run ((Node.prefill ⟨"document"⟩).execute (callContext nCtx))
    else .run (.ret ())

end Toy

/-- A document that is too long is rejected, and the context is freed. -/
theorem execute_cleanedUp_iff_toy : ∃ tr c, (Toy.prefillCall 1).Run tr c ∧
    c.threads .main = .run (.throw (.documentTooLarge 1 1)) ∧ CleanedUp tr .main := by
  have hsome : ((Toy.prefillCall 1).run (List.replicate 5 (.main, .ok))).isSome := rfl
  have hrun := Monitor.Config.run_after hsome
  have hthrown : ((Toy.prefillCall 1).after (List.replicate 5 (.main, .ok))).threads .main =
      .run (.throw (.documentTooLarge 1 1)) := rfl
  have hend : (((Toy.prefillCall 1).after (List.replicate 5 (.main, .ok))).threads .main).finished := by
    rw [hthrown]
    rfl
  have hcall : (Toy.prefillCall 1).threads .main =
      .run ((Node.prefill ⟨"document"⟩).execute (Toy.callContext 1)) := rfl
  refine ⟨_, _, hrun, hthrown, (execute_cleanedUp_iff hcall hrun hend).mpr ?_⟩
  rw [exposed_iff, Bool.not_eq_true]
  rfl

/-- A batch that cannot be decoded is freed, and the context of the prefiller is not. -/
theorem not_execute_cleanedUp : ¬ ∀ tr c, (Toy.prefillCall 64).Run tr c →
    (c.threads .main).finished → CleanedUp tr .main := by
  intro hall
  have hsome : ((Toy.prefillCall 64).run (List.replicate 6 (.main, .ok) ++ [(.main, .fail)] ++
      List.replicate 2 (.main, .ok))).isSome := rfl
  have hrun := Monitor.Config.run_after hsome
  have hclean := (hall _ _ hrun rfl .context).1 0
  have hcreated : Resource.context.Created (Monitor.Config.traceAfter (Toy.prefillCall 64) []
      (List.replicate 6 (.main, .ok) ++ [(.main, .fail)] ++ List.replicate 2 (.main, .ok))) .main 0 :=
    ⟨_, List.getElem_mem (n := 7) (by decide +kernel), rfl, rfl⟩
  have hzero : Resource.context.frees (Monitor.Config.traceAfter (Toy.prefillCall 64) []
      (List.replicate 6 (.main, .ok) ++ [(.main, .fail)] ++ List.replicate 2 (.main, .ok)))
      .main 0 = 0 := rfl
  cases hzero.symm.trans (hclean hcreated)

end SwarmKV
