import SwarmKV.Spec.PoolBooks

/-!
# Clients of the pool

A pool in the hands of its clients: threads that allocate and free by the pool's calls, in any
number and any order, and look at the buffer behind each handle they are given. The owner of the
pool destroys it when the last client is done.

The observer of this module knows the buffer that a call has allocated and not yet handed out.
-/

namespace SwarmKV

open Monitor

namespace MemoryPool

/-- A call on the pool. -/
inductive PoolCall where
  | allocatePrefixCache (nCtx : Nat)
  | allocateBranchCache (nCtx : Nat)
  | freeAll

/-- A call, with the handle that it returns. Its exception, if there is one, is caught. -/
def PoolCall.run (call : PoolCall) : Prog (Option Nat) :=
  match call with
  | allocatePrefixCache nCtx =>
    tryCatch (do pure (some (← MemoryPool.allocatePrefixCache nCtx))) fun _ => pure none
  | allocateBranchCache nCtx =>
    tryCatch (do pure (some (← MemoryPool.allocateBranchCache nCtx))) fun _ => pure none
  | freeAll => do
    MemoryPool.freeAll
    pure none

/-- A thread that makes these calls, and looks at each buffer that it is given. -/
def client : List PoolCall → Prog Unit
  | [] => pure ()
  | call :: calls => do
    match ← call.run with
    | some buffer => do
      let _ ← perform (.bufferSize buffer)
      client calls
    | none => client calls

/-- A new pool with its clients. Its owner waits for them, and destroys it. -/
def clients (E : Engine) (names : List String) (calls : String → List PoolCall) : Config E where
  data := { state := {} }
  holder := fun _ => none
  threads
    | .main => .run (do
      Orchestrator.joinWorkers names
      destroy)
    | .worker n => .run (if n ∈ names then do
        client (calls n)
        perform (.setTask n (.ok ()))
      else pure ())

variable {E : Engine} {names : List String} {calls : String → List PoolCall}
  {tr : Trace (machine E)} {c c' : Config E} {i : Thread} {b : Nat}

/-! ## Calls -/

/-- The calls of a client use the pool by its calls. -/
private theorem call_poolWatch (call : PoolCall) :
    poolWatch.Spec (· = .away) call.run (fun _ => (· = .away)) fun _ _ => False := by
  have hallocate : ∀ failure nCtx, poolWatch.Spec (· = .away)
      (tryCatch (do pure (some (← allocateCache failure nCtx))) fun _ => pure none : Prog (Option Nat))
      (fun _ => (· = .away)) fun _ _ => False := by
    intro failure nCtx
    refine .catch' (.bind (allocateCache_poolWatch failure nCtx) fun b => ?_) fun e => ?_
    · exact .ret fun _ hs => hs
    · exact .ret fun _ hs => hs
  cases call with
  | allocatePrefixCache nCtx => exact hallocate .prefixAllocationFailed nCtx
  | allocateBranchCache nCtx => exact hallocate .branchAllocationFailed nCtx
  | freeAll => exact .bind freeAll_poolWatch fun _ => .ret fun _ hs => hs

private theorem client_poolWatch (calls : List PoolCall) :
    poolWatch.Spec (· = .away) (client calls) (fun _ => (· = .away)) fun _ _ => False := by
  induction calls with
  | nil => exact .ret fun _ hs => hs
  | cons call calls ih =>
    refine .bind (call_poolWatch call) fun r => ?_
    cases r with
    | none => exact ih
    | some b => exact .bind (.op fun s hs => ⟨trivial, fun _ _ => hs⟩) fun _ => ih

/-- All threads around a pool use it by its calls. -/
theorem clients_poolWatch (i : Thread) :
    poolWatch.Meets ((clients E names calls).threads i).prog (fun _ s => s = .away) .away := by
  have hmeets : ∀ {p : Prog Unit}, poolWatch.Spec (· = .away) p (fun _ => (· = .away))
      (fun _ _ => False) → poolWatch.Meets p (fun _ s => s = .away) .away := by
    intro p hp
    refine (hp .away rfl).mono fun r s hs => ?_
    cases r with
    | ok a => exact hs
    | error e => exact hs.elim
  cases i with
  | main =>
    have hjoin : ∀ names, poolWatch.Spec (· = .away) (Orchestrator.joinWorkers names)
        (fun _ => (· = .away)) fun _ _ => False := by
      intro names
      induction names with
      | nil => exact .ret fun _ hs => hs
      | cons n names ih => exact .bind (.op fun s hs => ⟨trivial, fun _ _ => hs⟩) fun _ => ih
    refine hmeets (.bind (hjoin names) fun _ => .catch' freeAll_poolWatch fun e => ?_)
    exact .ret fun _ hs => hs.elim
  | worker n =>
    show poolWatch.Meets (if n ∈ names then _ else _ : Prog Unit) _ _
    split
    · refine hmeets (.bind (client_poolWatch (calls n)) fun _ => .op fun s hs => ?_)
      exact ⟨trivial, fun _ _ => hs⟩
    · exact rfl

/-- A pool starts empty. -/
theorem clients_registered : Registered (clients E names calls).data where
  live b := iff_of_false (fun h => by cases h) List.not_mem_nil
  nodup := List.nodup_nil
  old b hb := by cases hb

/-! ## Handles -/

/-- A call of the thread has returned this handle, and the thread has looked at the buffer. -/
def Given (tr : Trace (machine E)) (i : Thread) (b : Nat) : Prop :=
  ∃ size, tr.Did i (.bufferSize b) size

/-- A call of the thread has allocated this buffer. -/
def Obtained (tr : Trace (machine E)) (i : Thread) (b : Nat) : Prop :=
  ∃ size, tr.Did i (.allocBuffer size) (some b)

/-- The action looks at the buffer. -/
def looksAt (b : Nat) : Action sig → Bool
  | .op (.bufferSize b') => b' == b
  | _ => false

/-- How many calls have returned the handle. -/
def handouts (tr : Trace (machine E)) (b : Nat) : Nat := tr.countP fun e => looksAt b e.action

/-- The observer of the handles: it knows the buffer that a call has allocated and not yet
    handed out. -/
def handleWatch : Observer sig (Option Nat) where
  start := none
  next s
    | .op (.allocBuffer _), r => r
    | .op (.bufferSize _), _ => none
    | _, _ => s
  ok s
    | .op (.bufferSize b) => s = some b
    | _ => True

/-- The buffer that a thread has got and not yet looked at. -/
private abbrev inHand (tr : Trace (machine E)) (i : Thread) : Option Nat :=
  Observer.state (M := machine E) (fun _ => handleWatch) tr i

/-- An allocation returns the handle of the buffer that it has allocated. -/
private theorem allocateCache_handleWatch (failure : Error) (nCtx : Nat) :
    handleWatch.Spec (fun _ => True) (allocateCache failure nCtx) (fun b s => s = some b)
      fun _ _ => True := by
  unfold allocateCache
  refine .withLock (I := fun _ => True) (J := fun b s => s = some b) (K := fun _ _ => True)
    (fun _ _ => ⟨trivial, fun _ => trivial⟩) ?_ (fun _ _ hs => ⟨trivial, fun _ => hs⟩)
    fun _ _ _ => ⟨trivial, fun _ => trivial⟩
  refine .bind (Q := fun _ _ => True) ?_ fun kvSize => ?_
  · refine .of_uses (getRequiredKvSize_uses nCtx) fun a ha s _ => ?_
    cases ha <;> exact ⟨trivial, fun _ _ => trivial⟩
  · -- from here on the buffer is in the hands of the call
    refine .bind (Q := fun r s => s = r) (.op fun s _ => ⟨trivial, fun r _ => rfl⟩) fun r => ?_
    cases r with
    | none => exact .throw fun _ _ => trivial
    | some b =>
      have hkeep : ∀ {o : Op} {X : Error → Option Nat → Prop},
          (∀ s r, handleWatch.next s (.op o) r = s) → (∀ s, handleWatch.ok s (.op o)) →
          handleWatch.Spec (· = some b) (perform o) (fun _ => (· = some b)) X :=
        fun hnext hok => .op fun s hs => ⟨hok s, fun r _ => (hnext s r).trans hs⟩
      refine .bind (Q := fun _ => (· = some b)) ?_ fun _ => ?_
      · refine .bind (hkeep (fun _ _ => rfl) fun _ => trivial) fun r => .ite (fun _ => ?_) fun _ => ?_
        · exact .ret fun _ hs => hs
        · exact .throw fun _ _ => trivial
      · refine .bind (hkeep (fun _ _ => rfl) fun _ => trivial) fun _ => ?_
        exact .ret fun _ hs => hs

/-- Waiting for the clients and freeing their buffers are no look at a buffer. -/
private theorem keeps_handle {a : Action sig} (ha : CallerAction a) :
    handleWatch.Keeps (fun _ => True) a := by
  intro s _
  cases ha <;> exact ⟨trivial, fun _ _ => trivial⟩

/-- A client looks at what it is given. -/
private theorem client_handleWatch (calls : List PoolCall) :
    handleWatch.Spec (fun _ => True) (client calls) (fun _ _ => True) fun _ _ => True := by
  have hallocate : ∀ failure nCtx, handleWatch.Spec (fun _ => True)
      (tryCatch (do pure (some (← allocateCache failure nCtx))) fun _ => pure none : Prog (Option Nat))
      (fun r s => ∀ b, r = some b → s = some b) fun _ _ => True := by
    intro failure nCtx
    refine .catch' (.bind (allocateCache_handleWatch failure nCtx) fun b => .ret ?_) fun e => .ret ?_
    · intro s hs b' hb
      rw [hs, hb]
    · intro s _ b hb
      cases hb
  induction calls with
  | nil => exact .ret fun _ _ => trivial
  | cons call calls ih =>
    refine .bind (Q := fun r s => ∀ b, r = some b → s = some b) ?_ fun r => ?_
    · cases call with
      | allocatePrefixCache nCtx => exact hallocate .prefixAllocationFailed nCtx
      | allocateBranchCache nCtx => exact hallocate .branchAllocationFailed nCtx
      | freeAll =>
        refine .bind (.of_uses Orchestrator.freeAll_uses fun _ => keeps_handle) fun _ => .ret ?_
        intro s _ b hb
        cases hb
    · cases r with
      | none => exact .pre ih fun _ _ => trivial
      | some b =>
        exact .bind (.op fun s hs => ⟨hs b rfl, fun _ _ => trivial⟩) fun _ => ih

private theorem clients_handleWatch (i : Thread) :
    handleWatch.Meets ((clients E names calls).threads i).prog (fun _ _ => True) none := by
  have hmeets : ∀ {p : Prog Unit}, handleWatch.Spec (fun _ => True) p (fun _ _ => True)
      (fun _ _ => True) → handleWatch.Meets p (fun _ _ => True) none :=
    fun hp => (hp none trivial).mono fun _ _ _ => trivial
  cases i with
  | main =>
    refine hmeets (.bind (.of_uses (Orchestrator.joinWorkers_uses names) fun _ => keeps_handle)
      fun _ => .catch' (.of_uses Orchestrator.freeAll_uses fun _ => keeps_handle) fun e => ?_)
    exact .ret fun _ _ => trivial
  | worker n =>
    show handleWatch.Meets (if n ∈ names then _ else _ : Prog Unit) _ _
    split
    · refine hmeets (.bind (client_handleWatch (calls n)) fun _ => .op fun _ _ => ?_)
      exact ⟨trivial, fun _ _ => trivial⟩
    · exact trivial

/-- What is known of the handles. -/
structure Handles (tr : Trace (machine E)) (c : Config E) : Prop where
  /-- A buffer that is in a thread's hands is its own, and has not been handed out. -/
  own : ∀ i b, inHand tr i = some b → Obtained tr i b ∧ handouts tr b = 0
  apart : ∀ i j b, inHand tr i = some b → inHand tr j = some b → i = j
  given : ∀ i b, Given tr i b → Obtained tr i b
  once : ∀ b, handouts tr b ≤ 1
  old : ∀ i b, Obtained tr i b → b < c.data.nextBuffer

private theorem inHand_same (e : Entry (machine E)) :
    inHand (e :: tr) e.thread = handleWatch.next (inHand tr e.thread) e.action e.answer :=
  Observer.state_same

private theorem inHand_other {e : Entry (machine E)} {j : Thread} (h : j ≠ e.thread) :
    inHand (e :: tr) j = inHand tr j :=
  Observer.state_other h

/-- The action neither allocates a buffer nor looks at one. -/
private def handless : Action sig → Bool
  | .op (.allocBuffer _) => false
  | .op (.bufferSize _) => false
  | _ => true

private theorem did_cons {e : Entry (machine E)} {o : Op} {r : o.Res} (he : e.action ≠ .op o) :
    Trace.Did (e :: tr) i o r ↔ tr.Did i o r := by
  constructor
  · rintro ⟨d, hd⟩
    obtain rfl | hd := List.mem_cons.mp hd
    · exact absurd rfl he
    · exact ⟨d, hd⟩
  · rintro ⟨d, hd⟩
    exact ⟨d, List.mem_cons_of_mem _ hd⟩

/-- An action that has nothing to do with handles. -/
private theorem Handles.quiet (h : Handles tr c) {e : Entry (machine E)}
    (he : handless e.action = true) (hnext : c'.data.nextBuffer = c.data.nextBuffer) :
    Handles (e :: tr) c' := by
  -- nobody gets a buffer into his hands, and none is handed out
  have hhand : ∀ j, inHand (e :: tr) j = inHand tr j := by
    intro j
    by_cases hj : j = e.thread
    · subst hj
      rw [inHand_same]
      obtain ⟨i, a, r, d⟩ := e
      cases a with
      | op o => cases o <;> first | rfl | exact absurd he Bool.false_ne_true
      | _ => rfl
    · exact inHand_other hj
  have hgiven : ∀ j b, Given (e :: tr) j b ↔ Given tr j b := by
    refine fun j b => exists_congr fun size => did_cons fun heq => ?_
    rw [heq] at he
    cases he
  have hobtained : ∀ j b, Obtained (e :: tr) j b ↔ Obtained tr j b := by
    refine fun j b => exists_congr fun size => did_cons fun heq => ?_
    rw [heq] at he
    cases he
  have hhandouts : ∀ b, handouts (e :: tr) b = handouts tr b := by
    refine fun b => List.countP_cons_of_neg ?_
    obtain ⟨i, a, r, d⟩ := e
    cases a with
    | op o => cases o <;> first | exact Bool.false_ne_true | exact absurd he Bool.false_ne_true
    | _ => exact Bool.false_ne_true
  constructor
  · intro j b hb
    rw [hhand] at hb
    rw [hobtained, hhandouts]
    exact h.own j b hb
  · intro j k b hj hk
    rw [hhand] at hj hk
    exact h.apart j k b hj hk
  · intro j b hb
    rw [hgiven] at hb
    exact (hobtained j b).mpr (h.given j b hb)
  · intro b
    rw [hhandouts]
    exact h.once b
  · intro j b hb
    rw [hobtained] at hb
    rw [hnext]
    exact h.old j b hb

/-- A call allocates a buffer. -/
private theorem Handles.alloc (h : Handles tr c) {size : Nat} {d : World}
    (hnext : c'.data.nextBuffer = c.data.nextBuffer + 1) :
    Handles (⟨i, .op (.allocBuffer size), some c.data.nextBuffer, d⟩ :: tr) c' := by
  have hhandouts : ∀ b, handouts (⟨i, .op (.allocBuffer size), some c.data.nextBuffer, d⟩ :: tr) b =
      handouts tr b := fun b => List.countP_cons_of_neg Bool.false_ne_true
  have hobtained : ∀ j b, Obtained (⟨i, .op (.allocBuffer size), some c.data.nextBuffer, d⟩ :: tr)
      j b → j = i ∧ b = c.data.nextBuffer ∨ Obtained tr j b := by
    intro j b hb
    obtain ⟨size', d', hd⟩ := hb
    obtain heq | hd := List.mem_cons.mp hd
    · cases heq
      exact .inl ⟨rfl, rfl⟩
    · exact .inr ⟨size', d', hd⟩
  have hmono : ∀ j b, Obtained tr j b →
      Obtained (⟨i, .op (.allocBuffer size), some c.data.nextBuffer, d⟩ :: tr) j b := by
    intro j b hb
    obtain ⟨size', d', hd⟩ := hb
    exact ⟨size', d', List.mem_cons_of_mem _ hd⟩
  -- nobody has heard of the new buffer
  have hunknown : ∀ j, ¬ Obtained tr j c.data.nextBuffer :=
    fun j hj => Nat.lt_irrefl _ (h.old j _ hj)
  have hfresh : handouts tr c.data.nextBuffer = 0 := by
    by_contra hne
    obtain ⟨e, he, hlook⟩ := List.countP_pos_iff.mp (Nat.pos_of_ne_zero hne)
    obtain ⟨j, a, r, d'⟩ := e
    unfold looksAt at hlook
    dsimp only at hlook
    split at hlook
    · rename_i b'
      obtain rfl : b' = c.data.nextBuffer := by simpa using hlook
      exact hunknown j (h.given j _ ⟨r, d', he⟩)
    · cases hlook
  have hother : ∀ j b, j ≠ i → inHand tr j = some b → b ≠ c.data.nextBuffer := by
    intro j b _ hj hb
    exact hunknown j (hb ▸ (h.own j b hj).1)
  constructor
  · intro j b hj
    rw [hhandouts]
    by_cases hji : j = i
    · subst hji
      rw [inHand_same ⟨j, .op (.allocBuffer size), some c.data.nextBuffer, d⟩] at hj
      obtain rfl : c.data.nextBuffer = b := Option.some.inj hj
      exact ⟨⟨size, d, List.mem_cons_self⟩, hfresh⟩
    · rw [inHand_other hji] at hj
      exact ⟨hmono j b (h.own j b hj).1, (h.own j b hj).2⟩
  · intro j k b hj hk
    by_cases hji : j = i <;> by_cases hki : k = i
    · rw [hji, hki]
    · subst hji
      rw [inHand_same ⟨j, .op (.allocBuffer size), some c.data.nextBuffer, d⟩] at hj
      rw [inHand_other hki] at hk
      exact absurd (Option.some.inj hj).symm (hother k b hki hk)
    · subst hki
      rw [inHand_same ⟨k, .op (.allocBuffer size), some c.data.nextBuffer, d⟩] at hk
      rw [inHand_other hji] at hj
      exact absurd (Option.some.inj hk).symm (hother j b hji hj)
    · rw [inHand_other hji] at hj
      rw [inHand_other hki] at hk
      exact h.apart j k b hj hk
  · intro j b hb
    obtain ⟨size', d', hd⟩ := hb
    obtain heq | hd := List.mem_cons.mp hd
    · cases heq
    · exact hmono j b (h.given j b ⟨size', d', hd⟩)
  · intro b
    rw [hhandouts]
    exact h.once b
  · intro j b hb
    rw [hnext]
    obtain ⟨-, rfl⟩ | hb := hobtained j b hb
    · exact Nat.lt_succ_self _
    · exact Nat.lt_succ_of_lt (h.old j b hb)

/-- A call gets no buffer. -/
private theorem Handles.refuse (h : Handles tr c) {size : Nat} {d : World}
    (hnext : c'.data.nextBuffer = c.data.nextBuffer) :
    Handles (⟨i, .op (.allocBuffer size), none, d⟩ :: tr) c' := by
  -- nothing has been allocated, and nobody has more in his hands
  have hobtained : ∀ j b, Obtained (⟨i, .op (.allocBuffer size), none, d⟩ :: tr) j b ↔
      Obtained tr j b := by
    intro j b
    constructor
    · rintro ⟨size', d', hd⟩
      obtain heq | hd := List.mem_cons.mp hd
      · cases heq
      · exact ⟨size', d', hd⟩
    · rintro ⟨size', d', hd⟩
      exact ⟨size', d', List.mem_cons_of_mem _ hd⟩
  have hhand : ∀ j b, inHand (⟨i, .op (.allocBuffer size), none, d⟩ :: tr) j = some b →
      inHand tr j = some b := by
    intro j b hj
    by_cases hji : j = i
    · subst hji
      rw [inHand_same ⟨j, .op (.allocBuffer size), none, d⟩] at hj
      cases hj
    · rwa [inHand_other hji] at hj
  have hhandouts : ∀ b, handouts (⟨i, .op (.allocBuffer size), none, d⟩ :: tr) b = handouts tr b :=
    fun b => List.countP_cons_of_neg Bool.false_ne_true
  constructor
  · intro j b hj
    rw [hobtained, hhandouts]
    exact h.own j b (hhand j b hj)
  · exact fun j k b hj hk => h.apart j k b (hhand j b hj) (hhand k b hk)
  · rintro j b ⟨size', d', hd⟩
    obtain heq | hd := List.mem_cons.mp hd
    · cases heq
    · exact (hobtained j b).mpr (h.given j b ⟨size', d', hd⟩)
  · intro b
    rw [hhandouts]
    exact h.once b
  · intro j b hb
    rw [hnext]
    exact h.old j b ((hobtained j b).mp hb)

/-- A thread looks at the buffer that it has been given. -/
private theorem Handles.look (h : Handles tr c) {r : Nat} {d : World} (hb : inHand tr i = some b)
    (hnext : c'.data.nextBuffer = c.data.nextBuffer) :
    Handles (⟨i, .op (.bufferSize b), r, d⟩ :: tr) c' := by
  have hobtained : ∀ j b', Obtained (⟨i, .op (.bufferSize b), r, d⟩ :: tr) j b' ↔
      Obtained tr j b' := fun j b' => exists_congr fun size => did_cons (by simp)
  have hhand : ∀ j b', inHand (⟨i, .op (.bufferSize b), r, d⟩ :: tr) j = some b' →
      j ≠ i ∧ inHand tr j = some b' := by
    intro j b' hj
    by_cases hji : j = i
    · subst hji
      rw [inHand_same ⟨j, .op (.bufferSize b), r, d⟩] at hj
      cases hj
    · exact ⟨hji, by rwa [inHand_other hji] at hj⟩
  have hother : ∀ b', b' ≠ b → handouts (⟨i, .op (.bufferSize b), r, d⟩ :: tr) b' =
      handouts tr b' := by
    refine fun b' hne => List.countP_cons_of_neg ?_
    show ¬ (b == b') = true
    simpa using Ne.symm hne
  constructor
  · intro j b' hj
    obtain ⟨hji, hj⟩ := hhand j b' hj
    have hne : b' ≠ b := fun hbb => hji (h.apart j i b (hbb ▸ hj) hb)
    rw [hobtained, hother b' hne]
    exact h.own j b' hj
  · exact fun j k b' hj hk => h.apart j k b' (hhand j b' hj).2 (hhand k b' hk).2
  · rintro j b' ⟨size', d', hd⟩
    obtain heq | hd := List.mem_cons.mp hd
    · cases heq
      exact (hobtained i b).mpr (h.own i b hb).1
    · exact (hobtained j b').mpr (h.given j b' ⟨size', d', hd⟩)
  · intro b'
    by_cases hbb : b' = b
    · subst hbb
      -- it has not been handed out before
      have hzero := (h.own i b' hb).2
      unfold handouts at hzero ⊢
      rw [List.countP_cons_of_pos (by simp [looksAt]), hzero]
    · rw [hother b' hbb]
      exact h.once b'
  · intro j b' hb'
    rw [hnext]
    exact h.old j b' ((hobtained j b').mp hb')

/-- What is accepted keeps the handles. -/
private theorem Handles.acts (h : Handles tr c) {e : Entry (machine E)} (he : c.Acts e c')
    (hok : handleWatch.ok (inHand tr e.thread) e.action) : Handles (e :: tr) c' := by
  cases he with
  | @op i o k x r d ht hx =>
    have hsame : (∀ size, o ≠ .allocBuffer size) → d.nextBuffer = c.data.nextBuffer := by
      intro hne
      obtain ⟨-, hnext⟩ | ⟨size, rfl, -⟩ | ⟨hnext, -⟩ | ⟨hnext, -⟩ := exec_buffers hx
      · exact hnext
      · exact absurd rfl (hne size)
      · exact hnext
      · exact hnext
    cases o with
    | allocBuffer size =>
      obtain ⟨rfl, rfl⟩ | ⟨rfl, rfl⟩ := exec_allocBuffer hx
      · exact h.refuse rfl
      · exact h.alloc rfl
    | bufferSize b => exact h.look hok (hsame (by simp))
    | _ => exact h.quiet rfl (hsame (by simp))
  | _ => exact h.quiet rfl rfl

/-- The handles in every run of the clients. -/
theorem handles_of_run (hr : (clients E names calls).Run tr c) : Handles tr c := by
  refine (hr.observe (A := fun _ => handleWatch) (Q := fun _ _ _ => True) (R := Handles)
    clients_handleWatch ?_ ?_ ?_).1
  · constructor
    · intro i b hb
      cases hb
    · intro i j b hb
      cases hb
    · rintro i b ⟨size, d, hd⟩
      cases hd
    · exact fun b => Nat.zero_le _
    · rintro i b ⟨size, d, hd⟩
      cases hd
  · exact fun _ h he hok => ⟨trivial, h.acts he hok⟩
  · intro tr c c' hrun h hs
    refine ⟨h.own, h.apart, h.given, h.once, ?_⟩
    rw [hs.data]
    exact h.old

end MemoryPool

end SwarmKV
