import SwarmKV.Spec.WorkerRules

/-!
# Calls on the pool

Each call on the pool is one critical section. The observer of this module knows where in its
call a thread is, and which actions come next.
-/

namespace SwarmKV

open Monitor

/-- Where a thread is in a call on the pool. -/
inductive PoolPhase where
  | away
  | entered
  /-- A buffer has been allocated. -/
  | allocated (b : Nat)
  /-- The buffer has been registered. -/
  | registered
  /-- There is no buffer, or no context to size it. -/
  | failed
  /-- These buffers have still to be freed. -/
  | freeing (rest : List Nat)
  | cleared

namespace PoolPhase

def next (s : PoolPhase) : (a : Action sig) → a.Res → PoolPhase
  | .lock .poolMutex, _ => entered
  | .unlock .poolMutex, _ => away
  | .op .llamaInitFromModel, r =>
    match s, r with
    | entered, none => failed
    | s, _ => s
  | .op (.allocBuffer _), r =>
    match s, r with
    | entered, none => failed
    | entered, some b => allocated b
    | s, _ => s
  | .op (.pushActiveBuffer _), _ =>
    match s with
    | allocated _ => registered
    | s => s
  | .op .getActiveBuffers, r =>
    match s with
    | entered => freeing r
    | s => s
  | .op (.freeBuffer _), _ =>
    match s with
    | freeing (_ :: rest) => freeing rest
    | s => s
  | .op .clearActiveBuffers, _ =>
    match s with
    | freeing [] => cleared
    | s => s
  | _, _ => s

def accepts (s : PoolPhase) : Action sig → Prop
  | .lock .poolMutex => s = away
  | .op .llamaInitFromModel => s = away ∨ s = entered
  | .unlock .poolMutex => s = registered ∨ s = failed ∨ s = cleared
  | .op (.allocBuffer _) => s = entered
  | .op (.pushActiveBuffer b) => s = allocated b
  | .op .getActiveBuffers => s = entered
  | .op (.freeBuffer b) => ∃ rest, s = freeing (b :: rest)
  | .op .clearActiveBuffers => s = freeing []
  | _ => True

/-- `push_back` does not throw. -/
def expects (s : PoolPhase) : (a : Action sig) → a.Res → Prop
  | .op .allocate, r => (∃ b, s = allocated b) → r = true
  | _, _ => True

/-- An operation neither begins a call nor ends it. -/
theorem next_op_away (s : PoolPhase) (o : Op) (r : o.Res) :
    s.next (.op o) r = away ↔ s = away := by
  cases o with
  | llamaInitFromModel => cases s <;> cases r <;> simp [next]
  | allocBuffer => cases s <;> cases r <;> simp [next]
  | pushActiveBuffer => cases s <;> simp [next]
  | getActiveBuffers => cases s <;> simp [next]
  | freeBuffer b =>
    cases s with
    | freeing rest => cases rest <;> simp [next]
    | _ => simp [next]
  | clearActiveBuffers =>
    cases s with
    | freeing rest => cases rest <;> simp [next]
    | _ => simp [next]
  | _ => exact Iff.rfl

/-- The live buffers, in a call that is here and has this registry. -/
def owned (s : PoolPhase) (registry : List Nat) : List Nat :=
  match s with
  | allocated b => registry ++ [b]
  | freeing rest => rest
  | _ => registry

end PoolPhase

/-- The observer of the calls on the pool. -/
def poolWatch : Observer sig PoolPhase where
  start := .away
  next := PoolPhase.next
  ok := PoolPhase.accepts
  ans := PoolPhase.expects

/-- The action does not concern the pool. -/
def unpooled : Action sig → Bool
  | .lock .poolMutex => false
  | .unlock .poolMutex => false
  | .op (.allocBuffer _) => false
  | .op (.pushActiveBuffer _) => false
  | .op .getActiveBuffers => false
  | .op (.freeBuffer _) => false
  | .op .clearActiveBuffers => false
  | _ => true

/-! ## Programs -/

namespace MemoryPool

/-- Outside the pool nothing is seen. -/
theorem keeps_away {a : Action sig} (ha : unpooled a = true) :
    poolWatch.Keeps (· = .away) a := by
  intro s hs
  subst hs
  cases a with
  | op o =>
    cases o <;> first
      | exact absurd ha Bool.false_ne_true
      | exact ⟨trivial, fun _ _ => rfl⟩
      | exact ⟨.inl rfl, fun _ _ => rfl⟩
  | lock l =>
    cases l <;> first
      | exact absurd ha Bool.false_ne_true
      | exact ⟨trivial, fun _ _ => rfl⟩
  | unlock l =>
    cases l <;> first
      | exact absurd ha Bool.false_ne_true
      | exact ⟨trivial, fun _ _ => rfl⟩
  | _ => exact ⟨trivial, fun _ _ => rfl⟩

/-- An allocation registers its buffer, or has none. -/
theorem allocateCache_poolWatch (failure : Error) (nCtx : Nat) :
    poolWatch.Spec (· = .away) (allocateCache failure nCtx) (fun _ => (· = .away))
      fun _ => (· = .away) := by
  unfold allocateCache
  refine .withLock (I := (· = .entered)) (J := fun _ => (· = .registered))
    (K := fun _ => (· = .failed)) (fun _ hs => ⟨hs, fun _ => rfl⟩) ?_
    (fun _ _ hs => ⟨.inl hs, fun _ => rfl⟩) fun _ _ hs => ⟨.inr (.inl hs), fun _ => rfl⟩
  refine .bind (Q := fun _ => (· = .entered)) ?_ fun kvSize => ?_
  · unfold getRequiredKvSize
    refine .bind (Q := fun r s => s = if r.isSome then .entered else .failed)
      (.op fun s hs => ⟨.inr hs, fun r _ => ?_⟩) fun r => ?_
    · subst hs
      cases r <;> rfl
    · cases r with
      | none => exact .throw fun _ hs => hs
      | some h =>
        have hkeep : ∀ {o : Op}, (∀ s r, poolWatch.next s (.op o) r = s) →
            (∀ s, poolWatch.ok s (.op o)) → poolWatch.Spec (· = .entered) (perform o)
              (fun _ => (· = .entered)) fun _ => (· = .failed) :=
          fun hnext hok => .op fun s hs => ⟨hok s, fun r _ => (hnext s r).trans hs⟩
        refine .bind (hkeep (fun _ _ => rfl) fun _ => trivial) fun sz => ?_
        exact .bind (hkeep (fun _ _ => rfl) fun _ => trivial) fun _ => .ret fun _ hs => hs
  · refine .bind (Q := fun r s => s = r.elim .failed .allocated) (.op fun s hs => ⟨hs, fun r _ => ?_⟩)
      fun r => ?_
    · subst hs
      cases r <;> rfl
    · cases r with
      | none => exact .throw fun _ hs => hs
      | some b =>
        refine .bind (Q := fun _ => (· = .allocated b)) ?_ fun _ => ?_
        · refine .bind (Q := fun r s => r = true ∧ s = .allocated b) (.op fun s hs => ?_) fun r => ?_
          · exact ⟨trivial, fun r hr => ⟨hr ⟨b, hs⟩, hs⟩⟩
          · refine .ite (fun _ => .ret fun _ hs => hs.2) fun hr => .fix fun s hs => ?_
            exact absurd hs.1 hr
        · refine .bind (Q := fun _ => (· = .registered)) (.op fun s hs => ?_) fun _ =>
            .ret fun _ hs => hs
          subst hs
          exact ⟨rfl, fun _ _ => rfl⟩

/-- `free_all` frees what is registered. -/
theorem freeAll_poolWatch :
    poolWatch.Spec (· = .away) freeAll (fun _ => (· = .away)) fun _ _ => False := by
  have hloop : ∀ bs : List Nat, poolWatch.Spec (· = .freeing bs) (freeBuffers bs)
      (fun _ => (· = .freeing [])) fun _ _ => False := by
    intro bs
    induction bs with
    | nil => exact .ret fun _ hs => hs
    | cons b bs ih =>
      refine .bind (Q := fun _ => (· = .freeing bs)) (.op fun s hs => ?_) fun _ => ih
      subst hs
      exact ⟨⟨bs, rfl⟩, fun _ _ => rfl⟩
  unfold freeAll
  refine .withLock (I := (· = .entered)) (J := fun _ => (· = .cleared))
    (K := fun _ _ => False) (fun _ hs => ⟨hs, fun _ => rfl⟩) ?_
    (fun _ _ hs => ⟨.inr (.inr hs), fun _ => rfl⟩) fun _ _ hs => hs.elim
  refine .bind (Q := fun bs => (· = .freeing bs)) (.op fun s hs => ⟨hs, fun r _ => ?_⟩)
    fun bs => .bind (hloop bs) fun _ => .op fun s hs => ⟨hs, fun _ _ => ?_⟩
  · subst hs
    rfl
  · subst hs
    rfl

end MemoryPool

end SwarmKV
