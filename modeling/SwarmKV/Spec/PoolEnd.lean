import SwarmKV.Spec.PoolClients

/-!
# The end of the pool

The owner of a pool waits for the last client, and then frees what is left. The observer of this
module knows how far a thread is on the way there: while a client is at work the owner waits, and
when the owner has gone through the registry there is nobody left to allocate.
-/

namespace SwarmKV

open Monitor

namespace MemoryPool

variable {E : Engine} {names : List String} {calls : String → List PoolCall}
  {tr : Trace (machine E)} {c c' : Config E} {i : Thread}

/-- How far a thread is on the way to the end of the pool. -/
inductive Stage where
  /-- A client makes its calls. -/
  | working
  /-- The thread has nothing to do any more. -/
  | gone
  /-- The owner waits for these clients. -/
  | joining (rest : List String)
  /-- The owner destroys the pool, and has looked up the registry or not. -/
  | destroying (looked : Bool)
  | destroyed

namespace Stage

def next : Stage → Action sig → Stage
  | working, .op (.setTask _ _) => gone
  | joining (_ :: rest), .op (.awaitTask _) => joining rest
  | joining _, .lock .poolMutex => destroying false
  | destroying _, .op .getActiveBuffers => destroying true
  | destroying _, .unlock .poolMutex => destroyed
  | s, _ => s

def accepts (i : Thread) (s : Stage) (a : Action sig) : Prop :=
  match s with
  | working => i ≠ .main ∧ ∀ n r, a = .op (.setTask n r) → i = .worker n
  | joining (n :: _) => i = .main ∧ a = .op (.awaitTask n)
  | joining [] => i = .main ∧ a = .lock .poolMutex
  | destroying false => i = .main ∧ a = .op .getActiveBuffers
  | destroying true => i = .main ∧
    (a = .unlock .poolMutex ∨ a = .op .clearActiveBuffers ∨ ∃ b, a = .op (.freeBuffer b))
  | _ => False

end Stage

/-- The observer of the end of the pool. -/
def endWatch (names : List String) (i : Thread) : Observer sig Stage where
  start :=
    match i with
    | .main => .joining names
    | .worker n => if n ∈ names then .working else .gone
  next s a _ := s.next a
  ok s a := s.accepts i a

/-- Where a thread is, by its trace. -/
private abbrev stage (names : List String) (tr : Trace (machine E)) (i : Thread) : Stage :=
  Observer.state (M := machine E) (endWatch names) tr i

/-- The owner ends with the pool destroyed. -/
private def Ended (i : Thread) (r : Except Error Unit) (s : Stage) : Prop :=
  i = .main → r = .ok () → s = .destroyed

private theorem owner_endWatch : ((endWatch names) .main).Spec (· = .joining names)
    (do Orchestrator.joinWorkers names; destroy : Prog Unit) (fun _ => (· = .destroyed))
    fun _ _ => False := by
  -- one client after the other is joined
  have hjoin : ∀ rest, ((endWatch names) .main).Spec (· = .joining rest)
      (Orchestrator.joinWorkers rest) (fun _ => (· = .joining [])) fun _ _ => False := by
    intro rest
    induction rest with
    | nil => exact .ret fun _ hs => hs
    | cons n rest ih =>
      refine .bind (Q := fun _ => (· = .joining rest)) (.op fun s hs => ?_) fun _ => ih
      subst hs
      exact ⟨⟨rfl, rfl⟩, fun _ _ => rfl⟩
  -- and one buffer after the other is freed
  have hloop : ∀ bs : List Nat, ((endWatch names) .main).Spec (· = .destroying true)
      (freeBuffers bs) (fun _ => (· = .destroying true)) fun _ _ => False := by
    intro bs
    induction bs with
    | nil => exact .ret fun _ hs => hs
    | cons b bs ih =>
      refine .bind (Q := fun _ => (· = .destroying true)) (.op fun s hs => ?_) fun _ => ih
      subst hs
      exact ⟨⟨rfl, .inr (.inr ⟨b, rfl⟩)⟩, fun _ _ => rfl⟩
  -- an exception of `free_all` is caught by the destructor, but there is none
  refine .bind (hjoin names) fun _ => .catch' (K := fun _ _ => False) ?_ fun e => .ret ?_
  · unfold freeAll
    refine .withLock (I := (· = .destroying false)) (J := fun _ => (· = .destroying true))
      (K := fun _ _ => False) (fun s hs => ?_) ?_ (fun _ s hs => ?_) fun _ _ hs => hs.elim
    · subst hs
      exact ⟨⟨rfl, rfl⟩, fun _ => rfl⟩
    · refine .bind (Q := fun _ => (· = .destroying true)) (.op fun s hs => ?_) fun bs => ?_
      · subst hs
        exact ⟨⟨rfl, rfl⟩, fun _ _ => rfl⟩
      · refine .bind (hloop bs) fun _ => .op fun s hs => ?_
        subst hs
        exact ⟨⟨rfl, .inr (.inl rfl)⟩, fun _ _ => rfl⟩
    · subst hs
      exact ⟨⟨rfl, .inl rfl⟩, fun _ => rfl⟩
  · exact fun _ hs => hs.elim

/-- A client ends no task before it is done. -/
private theorem client_endWatch {n : String} (calls : List PoolCall) :
    ((endWatch names) (.worker n)).Spec (· = .working) (client calls) (fun _ => (· = .working))
      fun _ => (· = .working) := by
  have hpool : ∀ a, PoolAction a → ((endWatch names) (.worker n)).Keeps (· = .working) a := by
    intro a ha s hs
    subst hs
    cases ha <;> exact ⟨⟨Thread.noConfusion, by simp⟩, fun _ _ => rfl⟩
  have hcaller : ∀ a, CallerAction a → ((endWatch names) (.worker n)).Keeps (· = .working) a := by
    intro a ha s hs
    subst hs
    cases ha <;> exact ⟨⟨Thread.noConfusion, by simp⟩, fun _ _ => rfl⟩
  have hallocate : ∀ failure nCtx, ((endWatch names) (.worker n)).Spec (· = .working)
      (tryCatch (do pure (some (← allocateCache failure nCtx))) fun _ => pure none : Prog (Option Nat))
      (fun _ => (· = .working)) fun _ => (· = .working) := by
    intro failure nCtx
    refine .catch' (.bind (.of_uses (allocateCache_uses failure nCtx) hpool) fun b => ?_) fun e => ?_
    · exact .ret fun _ hs => hs
    · exact .ret fun _ hs => hs
  induction calls with
  | nil => exact .ret fun _ hs => hs
  | cons call calls ih =>
    refine .bind (Q := fun _ => (· = .working)) ?_ fun r => ?_
    · cases call with
      | allocatePrefixCache nCtx => exact hallocate _ nCtx
      | allocateBranchCache nCtx => exact hallocate _ nCtx
      | freeAll =>
        exact .bind (.of_uses Orchestrator.freeAll_uses hcaller) fun _ => .ret fun _ hs => hs
    · cases r with
      | none => exact ih
      | some b =>
        refine .bind (Q := fun _ => (· = .working)) (.op fun s hs => ?_) fun _ => ih
        subst hs
        exact ⟨⟨Thread.noConfusion, by simp⟩, fun _ _ => rfl⟩

private theorem clients_endWatch (i : Thread) : ((endWatch names) i).Meets
    ((clients E names calls).threads i).prog (Ended i) ((endWatch names) i).start := by
  cases i with
  | main =>
    refine (owner_endWatch _ rfl).mono fun r s hs => ?_
    cases r with
    | ok a => exact fun _ _ => hs
    | error e => exact hs.elim
  | worker n =>
    show ((endWatch names) (.worker n)).Meets (if n ∈ names then _ else _ : Prog Unit) _
      (if n ∈ names then _ else _)
    split
    · have hclient : ((endWatch names) (.worker n)).Spec (· = .working) (do
          client (calls n)
          perform (.setTask n (.ok ())) : Prog Unit) (fun _ _ => True) fun _ _ => True :=
        .err (.bind (client_endWatch (calls n)) fun _ => .op (Q := fun _ _ => True) fun s hs => by
          subst hs
          exact ⟨⟨Thread.noConfusion, by simp⟩, fun _ _ => trivial⟩) fun _ _ _ => trivial
      refine (hclient _ rfl).mono fun r s _ => ?_
      intro h
      cases h
    · intro h
      cases h

/-- A client acts only while it works, and ends its own task only. -/
private theorem Stage.working_of_accepts {s : Stage} {n : String} {a : Action sig}
    (h : s.accepts (.worker n) a) : s = .working ∧ ∀ m r, a = .op (.setTask m r) → m = n := by
  unfold Stage.accepts at h
  split at h
  · exact ⟨rfl, fun m r ha => (Thread.worker.inj (h.2 m r ha)).symm⟩
  all_goals first
    | exact h.elim
    | cases h.1

/-- All clients are done. -/
private def AllGone (names : List String) (w : World) : Prop := ∀ n ∈ names, (w.tasks n).isSome

/-- How far the end of the pool is. -/
private structure Ending (names : List String) (tr : Trace (machine E)) (c : Config E) : Prop where
  gone : ∀ n, n ∉ names ∨ (c.data.tasks n).isSome → stage names tr (.worker n) = .gone
  joining : ∀ rest, stage names tr .main = .joining rest →
    ∀ n ∈ names, n ∉ rest → (c.data.tasks n).isSome
  destroying : ∀ looked, stage names tr .main = .destroying looked →
    AllGone names c.data ∧ freeing tr .main = looked
  destroyed : stage names tr .main = .destroyed → AllGone names c.data ∧ emptied tr = true

private theorem stage_same (e : Entry (machine E)) :
    stage names (e :: tr) e.thread = (stage names tr e.thread).next e.action :=
  Observer.state_same

private theorem stage_other {e : Entry (machine E)} {j : Thread} (h : j ≠ e.thread) :
    stage names (e :: tr) j = stage names tr j :=
  Observer.state_other h

private theorem acts_tasks {e : Entry (machine E)} (he : c.Acts e c') :
    c'.data.tasks = c.data.tasks ∨ ∃ n q, e.action = .op (.setTask n q) ∧
      c'.data.tasks = Function.update c.data.tasks n (some q) := by
  obtain heq | ⟨i, o, r, x, rfl, -, hx⟩ := he.data
  · exact .inl (by rw [heq])
  · obtain heq | ⟨n, q, rfl, heq⟩ := exec_tasks hx
    · exact .inl heq
    · exact .inr ⟨n, q, rfl, heq⟩

/-- Futures stay ready. -/
private theorem tasks_mono {e : Entry (machine E)} (he : c.Acts e c') {n : String}
    (hn : (c.data.tasks n).isSome) : (c'.data.tasks n).isSome := by
  obtain heq | ⟨m, q, -, heq⟩ := acts_tasks he
  · rwa [heq]
  · rw [heq]
    by_cases hm : n = m
    · simp [hm]
    · rwa [Function.update_of_ne hm]

private theorem ready_of_awaitTask {n : String} {r : Outcome} {d : World}
    (he : c.Acts ⟨i, .op (.awaitTask n), r, d⟩ c') : (c.data.tasks n).isSome := by
  cases he with
  | op ht hx =>
    simp only [exec] at hx
    split at hx
    · rename_i q hq
      rw [hq]
      rfl
    · cases hx

/-- A client acts. -/
private theorem Ending.client (h : Ending names tr c) {n : String} {e : Entry (machine E)}
    (he : c.Acts e c') (hthread : e.thread = .worker n)
    (hok : (stage names tr (.worker n)).accepts (.worker n) e.action) :
    Ending names (e :: tr) c' := by
  obtain ⟨hworking, hown⟩ := Stage.working_of_accepts hok
  have hmain : stage names (e :: tr) .main = stage names tr .main :=
    stage_other (by rw [hthread]; exact Thread.noConfusion)
  -- as long as there is a client at work, the owner waits
  have hwaits : ¬ AllGone names c.data := by
    intro hall
    have hgone : stage names tr (.worker n) = .gone := by
      by_cases hn : n ∈ names
      · exact h.gone n (.inr (hall n hn))
      · exact h.gone n (.inl hn)
    rw [hgone] at hworking
    cases hworking
  have hstage : ∀ m, stage names tr (.worker m) = .gone → stage names (e :: tr) (.worker m) = .gone := by
    intro m hm
    refine (stage_other ?_).trans hm
    rw [hthread]
    rintro heq
    cases heq
    rw [hm] at hworking
    cases hworking
  constructor
  · rintro m (hm | hm)
    · exact hstage m (h.gone m (.inl hm))
    obtain heq | ⟨m', q, ha, heq⟩ := acts_tasks he
    · rw [heq] at hm
      exact hstage m (h.gone m (.inr hm))
    by_cases hmm : m = m'
    · -- it ends its own task, and is gone
      subst hmm
      obtain rfl := hown m q ha
      rw [← hthread, stage_same, ha, hthread, hworking]
      rfl
    · rw [heq, Function.update_of_ne hmm] at hm
      exact hstage m (h.gone m (.inr hm))
  · intro rest hrest m hm hnot
    rw [hmain] at hrest
    exact tasks_mono he (h.joining rest hrest m hm hnot)
  · intro looked hlooked
    rw [hmain] at hlooked
    exact absurd (h.destroying looked hlooked).1 hwaits
  · intro hdestroyed
    rw [hmain] at hdestroyed
    exact absurd (h.destroyed hdestroyed).1 hwaits

/-- The owner acts. -/
private theorem Ending.owner (h : Ending names tr c) {e : Entry (machine E)} (he : c.Acts e c')
    (hthread : e.thread = .main) (hok : (stage names tr .main).accepts .main e.action) :
    Ending names (e :: tr) c' := by
  have hsame : stage names (e :: tr) .main = (stage names tr .main).next e.action := by
    rw [← hthread]
    exact stage_same e
  have hother : ∀ n, stage names (e :: tr) (.worker n) = stage names tr (.worker n) :=
    fun n => stage_other (by rw [hthread]; exact Thread.noConfusion)
  have hmono : AllGone names c.data → AllGone names c'.data :=
    fun hall n hn => tasks_mono he (hall n hn)
  -- it ends no task
  have htasks : c'.data.tasks = c.data.tasks := by
    obtain heq | ⟨m, q, ha, -⟩ := acts_tasks he
    · exact heq
    · rw [ha] at hok
      unfold Stage.accepts at hok
      split at hok
      · exact absurd rfl hok.1
      all_goals simp at hok
  have hgone : ∀ n, n ∉ names ∨ (c'.data.tasks n).isSome →
      stage names (e :: tr) (.worker n) = .gone := by
    intro n hn
    rw [htasks] at hn
    rw [hother]
    exact h.gone n hn
  obtain ⟨i, a, r, d⟩ := e
  obtain rfl : i = .main := hthread
  dsimp only at hok hsame
  have hjoining := h.joining
  have hdestroying := h.destroying
  generalize stage names tr .main = s at hok hsame hjoining hdestroying
  have hstays : ∀ looked, s.next a = .destroying looked → AllGone names c'.data →
      freeing (⟨.main, a, r, d⟩ :: tr) .main = looked → Ending names (⟨.main, a, r, d⟩ :: tr) c' := by
    intro looked hnext hall hlooked
    rw [hnext] at hsame
    refine ⟨hgone, fun rest hrest => ?_, fun looked' hl => ⟨hall, ?_⟩, fun hdestroyed => ?_⟩
    · rw [hsame] at hrest
      cases hrest
    · rw [hsame] at hl
      cases hl
      exact hlooked
    · rw [hsame] at hdestroyed
      cases hdestroyed
  unfold Stage.accepts at hok
  split at hok
  case h_1 => exact absurd rfl hok.1
  case h_2 n rest =>
    -- the next future is ready
    obtain ⟨-, rfl⟩ := hok
    refine ⟨hgone, fun rest' hrest m hm hnot => ?_, fun looked hl => ?_, fun hdestroyed => ?_⟩
    · rw [hsame] at hrest
      cases hrest
      by_cases hmn : m = n
      · subst hmn
        rw [htasks]
        exact ready_of_awaitTask he
      · refine tasks_mono he (hjoining _ rfl m hm fun hmem => ?_)
        exact (List.mem_cons.mp hmem).elim hmn hnot
    · rw [hsame] at hl
      cases hl
    · rw [hsame] at hdestroyed
      cases hdestroyed
  case h_3 =>
    -- the last client is done: the owner goes to free what is left
    obtain ⟨-, rfl⟩ := hok
    exact hstays false rfl
      (hmono fun n hn => hjoining [] rfl n hn List.not_mem_nil) rfl
  case h_4 =>
    obtain ⟨-, rfl⟩ := hok
    exact hstays true rfl (hmono (hdestroying false rfl).1) rfl
  case h_5 =>
    obtain ⟨hall, hfreeing⟩ := hdestroying true rfl
    obtain ⟨-, rfl | rfl | ⟨b, rfl⟩⟩ := hok
    · -- the call ends
      refine ⟨hgone, fun rest hrest => ?_, fun looked hl => ?_, fun _ => ⟨hmono hall, ?_⟩⟩
      · rw [hsame] at hrest
        cases hrest
      · rw [hsame] at hl
        cases hl
      · show (freeing tr .main || emptied tr) = true
        rw [hfreeing]
        rfl
    · exact hstays true rfl (hmono hall) hfreeing
    · exact hstays true rfl (hmono hall) hfreeing
  all_goals exact hok.elim

/-- When the owner has returned, a call of `free_all` has ended and nothing has been allocated
    since. -/
theorem emptied_of_returned (hr : (clients E names calls).Run tr c)
    (hret : c.threads .main = .run (.ret ())) : emptied tr = true := by
  have hend : Ending names tr c ∧ Observer.Follows (M := machine E) (endWatch names) Ended tr c := by
    refine hr.observe clients_endWatch ?_ ?_ ?_
    · refine ⟨?_, ?_, ?_, ?_⟩
      · rintro n (hn | hn)
        · exact if_neg hn
        · cases hn
      · intro rest hrest n hn hnot
        cases hrest
        exact absurd hn hnot
      · intro looked hl
        cases hl
      · intro hdestroyed
        cases hdestroyed
    · intro tr c e c' _ hending he hok
      refine ⟨trivial, ?_⟩
      cases hthread : e.thread with
      | main =>
        rw [hthread] at hok
        exact hending.owner he hthread hok
      | worker n =>
        rw [hthread] at hok
        exact hending.client he hthread hok
    · intro tr c c' _ hending hs
      obtain ⟨hgone, hjoining, hdestroying, hdestroyed⟩ := hending
      rw [← hs.data] at hgone hjoining hdestroying hdestroyed
      exact ⟨hgone, hjoining, hdestroying, hdestroyed⟩
  exact (hend.1.destroyed (hend.2.of_ret hret rfl rfl)).2

end MemoryPool

end SwarmKV
