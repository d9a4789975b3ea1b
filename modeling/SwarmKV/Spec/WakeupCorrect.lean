import SwarmKV.Native.Blackboard
import SwarmKV.Monitor.Hoare
import SwarmKV.Monitor.Adequacy
import SwarmKV.Spec.Footprint
import SwarmKV.Spec.Outline
import SwarmKV.Spec.Toy

/-!
# No lost wake-up

Every call of `PipelineState` that can make a wait condition true does so under
`watermark_mutex` and notifies the condition's variable before it gives the mutex
back; only a failing allocation can come in between. The proof outline here asks
for no more than that, so it is one for clients that make their calls in any
order and with any values, in whatever state the blackboard is.
-/

namespace SwarmKV.Board

open Monitor Pipeline PipelineState

variable {E : Engine} {i : Thread} {H : Finset Lock} {α β : Type}

/-- Some thread's allocation has failed. -/
def AllocationFailed (w : World) : Prop := ∃ i, .badAlloc ∈ w.log i

/-- A failed allocation stays on record. -/
theorem AllocationFailed.step {o : Op} {x : Choice} {r : o.Res} {w w' : World}
    (hx : exec E i o x w = some (r, w')) (h : AllocationFailed w) : AllocationFailed w' := by
  obtain ⟨j, hj⟩ := h
  exact ⟨j, (exec_log_grows hx j).subset hj⟩

/-- The proof outline of the calls that are made of a pipeline's actions. -/
def callOutline (E : Engine) : Outline (machine E) Error where
  rank := fun _ => 0
  Inv := fun _ => True
  LockInv := fun _ _ => True
  Rely := fun _ _ w w' => AllocationFailed w → AllocationFailed w'
  Pre := fun _ H o _ => Publishes o → .watermarkMutex ∈ H
  Active := fun _ _ _ => True
  Lossy := AllocationFailed
  Waits := fun _ _ _ => True
  Done := fun _ _ _ => True
  touches := touches
  rely_refl := fun _ _ _ h => h
  rely_trans := fun h h' hw => h' (h hw)
  rely_mono := fun _ h => h
  inv_step := fun _ _ _ => trivial
  lock_step := fun _ _ _ _ _ => trivial
  rely_step := fun _ _ hx _ _ h => h.step hx
  pre_active := fun _ => trivial
  lossy_step := fun hx h => h.step hx
  cond_step := fun _ hpre hx hold hnew =>
    ⟨hpre (exec_publishes hx hold hnew).1, (exec_publishes hx hold hnew).2⟩

/-- A program that leaves no notification behind, from any state. -/
def Tidy (E : Engine) (H : Finset Lock) (p : Prog α) : Prop :=
  ∀ i, (callOutline E).Triple i H (fun _ => True) p (fun _ _ => True) fun _ _ => True

/-- In the middle of a critical section: `D` is still to be notified. -/
def Owes (E : Engine) (H : Finset Lock) (D : Finset Cv) (p : Prog α) : Prop :=
  ∀ i w, (callOutline E).wp i p
    (fun _ H' D' w' => H' = H ∧ (D' = ∅ ∨ AllocationFailed w')) H D w

private theorem stable_true : (callOutline E).Stable i H fun _ => True :=
  fun _ _ _ _ _ => trivial

section Rules

variable {D : Finset Cv}

theorem Tidy.ret (a : α) : Tidy E H (pure a : Prog α) :=
  fun _ => Outline.Triple.ret fun _ _ _ => trivial

theorem Tidy.throw (e : Error) : Tidy E H (throw e : Prog α) :=
  fun _ => Outline.Triple.throw fun _ _ _ => trivial

theorem Tidy.bind {p : Prog α} {f : α → Prog β} (hp : Tidy E H p) (hf : ∀ a, Tidy E H (f a)) :
    Tidy E H (p >>= f) :=
  fun i => (hp i).bind fun a => hf a i

theorem Tidy.ite {c : Prop} [Decidable c] {p q : Prog α} (hp : Tidy E H p) (hq : Tidy E H q) :
    Tidy E H (if c then p else q) :=
  fun i => Outline.Triple.ite (fun _ => hp i) fun _ => hq i

/-- An action that publishes nothing. -/
theorem Tidy.op {o : Op} (ho : ¬ Publishes o) (ht : ∀ r, touches o r = ∅) :
    Tidy E H (perform o) :=
  fun _ => Outline.Triple.op stable_true fun _ _ _ =>
    ⟨fun h => absurd h ho, fun _ r _ _ _ => ⟨ht r, trivial⟩⟩

theorem alloc_tidy : Tidy E H alloc :=
  .bind (.op id fun _ => rfl) fun _ => .ite (.ret ()) (.throw _)

/-- A critical section pays what it owes. -/
theorem Tidy.withLock {p : Prog α} (hp : Owes E {.watermarkMutex} ∅ p) :
    Tidy E ∅ (withLock .watermarkMutex p) := by
  intro i
  refine Outline.Triple.critical (Finset.notMem_empty _)
    (fun _ h => absurd h (Finset.notMem_empty _)) stable_true (fun _ _ => trivial)
    fun w _ _ _ => ?_
  refine Outline.wp_mono (fun r H' D' w' h => ?_) (hp i w)
  obtain ⟨rfl, hpaid⟩ := h
  refine ⟨rfl, fun w₁ hR _ => ⟨trivial, trivial, hpaid.imp_right hR, ?_⟩⟩
  cases r with
  | ok a => exact trivial
  | error e => exact trivial

theorem Owes.ret (a : α) : Owes E H ∅ (pure a : Prog α) :=
  fun _ _ => ⟨rfl, .inl rfl⟩

/-- An action in the critical section. -/
theorem Owes.op {o : Op} {k : o.Res → Prog α} (ho : Publishes o → .watermarkMutex ∈ H)
    (hk : ∀ r, Owes E H (D ∪ touches o r) (k r)) : Owes E H D (perform o >>= k) :=
  fun i _ => Outline.wp_op stable_true trivial fun _ _ _ =>
    ⟨ho, fun _ r w' _ _ => hk r i w'⟩

/-- A notification in the critical section. -/
theorem Owes.notifyAll {v : Cv} {k : Unit → Prog α} (hk : Owes E H (D.erase v) (k ())) :
    Owes E H D (notifyAll v >>= k) :=
  fun i w => Outline.wp_notifyAll stable_true trivial (fun _ _ => trivial) (hk i w)

theorem Owes.ite {c : Prop} [Decidable c] {p q : Prog α} (hp : c → Owes E H D p)
    (hq : ¬ c → Owes E H D q) : Owes E H D (if c then p else q) := by
  split
  · rename_i h
    exact hp h
  · rename_i h
    exact hq h

/-- An allocation in the critical section: if it fails, nobody is owed anything any more. -/
theorem Owes.alloc {k : Unit → Prog α} (hk : Owes E H D (k ())) : Owes E H D (alloc >>= k) := by
  intro i w
  refine Outline.wp_bind.mpr (Outline.wp_op stable_true trivial fun w₁ _ _ =>
    ⟨fun h => absurd h id, fun x r w₂ hx _ => ?_⟩)
  cases r with
  | true =>
    show (callOutline E).wp i (k ()) _ H (D ∪ ∅) w₂
    rw [Finset.union_empty]
    exact hk i w₂
  | false =>
    obtain ⟨h, -⟩ | ⟨-, rfl⟩ := exec_allocate hx
    · cases h
    · exact ⟨rfl, .inr ⟨i, by simp [World.record]⟩⟩

end Rules

section Calls

theorem publishUnexported_owes (t : Int) : Owes E {.watermarkMutex} ∅ (publishUnexported t) := by
  unfold publishUnexported
  refine .op (fun h => absurd h id) fun s => .ite (fun _ => .ret true) fun _ => ?_
  apply Owes.op
  · intro _
    exact Finset.mem_singleton_self _
  · intro _
    apply Owes.notifyAll
    exact .ret false

theorem publishExported_owes (t : Int) (nw : Nat) (bytes : List UInt8) :
    Owes E {.watermarkMutex} ∅ (publishExported t nw bytes) := by
  unfold publishExported
  apply Owes.op
  · intro _
    exact Finset.mem_singleton_self _
  intro _
  have howed : (∅ ∪ {Cv.watermarkCv} ∪ ∅ ∪ ∅ ∪ ∅ : Finset Cv) = {.watermarkCv} := by decide
  have hpaid : ({Cv.watermarkCv} ∪ ∅ : Finset Cv).erase .watermarkCv = ∅ := by decide
  have hnotify : Owes E {.watermarkMutex} ({.watermarkCv} ∪ ∅) (notifyAll .watermarkCv) := by
    apply Owes.notifyAll
    rw [hpaid]
    exact .ret ()
  have hput : Owes E {.watermarkMutex} {.watermarkCv} (do
      if nw > 0 then perform (.putSnapshot t bytes) else perform (.putSnapshot t [])
      notifyAll .watermarkCv) :=
    .ite (fun _ => .op (fun h => absurd h id) fun _ => hnotify) fun _ =>
      .op (fun h => absurd h id) fun _ => hnotify
  refine .op (fun h => absurd h id) fun _ => .op (fun h => absurd h id) fun _ =>
    .op (fun h => absurd h id) fun s => ?_
  show Owes E {.watermarkMutex} (∅ ∪ {.watermarkCv} ∪ ∅ ∪ ∅ ∪ ∅) _
  rw [howed]
  exact .ite (fun _ => .alloc hput) fun _ => hput

/-- The export between the two critical sections touches no condition. -/
theorem exportPrefix_tidy (ctx : Nat) : Tidy E H (exportPrefix ctx) := by
  unfold exportPrefix
  refine .bind (.op id fun _ => rfl) fun s => ?_
  cases s.materializedBranchBuffer with
  | none => exact .ret _
  | some buffer =>
    refine .bind (.op id fun _ => rfl) fun need => .bind (.op id fun _ => rfl) fun cap => ?_
    refine .ite (.throw _) (.bind (.op id fun _ => rfl) fun nw => .ite ?_ (.ret _))
    exact .bind alloc_tidy fun _ => .bind (.op id fun _ => rfl) fun bytes => .ret _

theorem commitWatermark_tidy (ctx : Option Nat) (t : Int) :
    Tidy E ∅ (commitWatermark ctx t) := by
  unfold commitWatermark
  refine .bind (.op id fun _ => rfl) fun _ => ?_
  cases ctx with
  | none => exact .throw _
  | some ctx =>
    refine .ite (.throw _) (.bind (.withLock (publishUnexported_owes t)) fun exportKv => ?_)
    refine .ite (.bind (exportPrefix_tidy ctx) fun x => ?_) (.ret _)
    exact .withLock (publishExported_owes t x.1 x.2)

theorem markPrefillComplete_tidy : Tidy E ∅ markPrefillComplete := by
  apply Tidy.withLock
  apply Owes.op
  · intro _
    exact Finset.mem_singleton_self _
  · intro _
    apply Owes.notifyAll
    exact .ret ()

/-- The count is lowered, and whoever waits for it is notified exactly if it may be
    what they wait for. -/
theorem signalMilestoneConsumed_tidy (t : Int) : Tidy E ∅ (signalMilestoneConsumed t) := by
  unfold signalMilestoneConsumed
  refine .ite (.ret ()) (.withLock ?_)
  apply Owes.op
  · intro _
    exact Finset.mem_singleton_self _
  · intro left
    cases left with
    | none => exact .ret ()
    | some left =>
      by_cases hle : left ≤ 0
      · simp only [hle, if_true, touches]
        apply Owes.notifyAll
        exact .ret ()
      · simp only [hle, if_false, touches]
        exact .ret ()

/-- A wait, with nothing else held. -/
theorem await_tidy (c : Cond) : Tidy E ∅ (withLock .watermarkMutex (await c)) :=
  fun _ => Outline.Triple.waiting (M := machine E) stable_true (fun _ _ => ⟨trivial, trivial⟩)
    (fun _ _ _ => trivial) (fun _ _ _ _ _ => trivial) fun _ _ _ _ _ _ => trivial

theorem waitForWatermark_tidy (t : Int) : Tidy E ∅ (waitForWatermark t) :=
  .ite (.throw _) (await_tidy _)

theorem waitForMilestoneConsumers_tidy (t : Int) : Tidy E ∅ (waitForMilestoneConsumers t) :=
  .ite (.ret ()) (await_tidy _)

end Calls

/-! ### Clients -/

/-- The condition variables whose conditions an action can make true. A registration
    makes none true: it can only raise a count. -/
def touches : (o : BoardOp) → o.Res → Finset Cv
  | .base o, r => Pipeline.touches o r
  | _, _ => ∅

/-- What an action of a client asks for. -/
def Guarded (H : Finset Lock) : BoardOp → Prop
  | .base o => Publishes o → .watermarkMutex ∈ H
  | _ => True

theorem log_step {o : BoardOp} {x : Choice} {r : o.Res} {w w' : World}
    (hx : execBoard E i o x w = some (r, w')) (h : AllocationFailed w) : AllocationFailed w' := by
  cases o with
  | base o => exact h.step (E := E) (o := o) hx
  | insertMilestone t =>
    obtain ⟨-, rfl⟩ := Prod.mk.inj (Option.some.inj hx)
    exact h
  | countConsumer t =>
    obtain ⟨-, rfl⟩ := Prod.mk.inj (Option.some.inj hx)
    exact h

theorem cond_step {o : BoardOp} {x : Choice} {r : o.Res} {w w' : World} {c : Cond}
    (hg : Guarded H o) (hx : execBoard E i o x w = some (r, w')) (hold : c.holds w = false)
    (hnew : c.holds w' = true) : .watermarkMutex ∈ H ∧ c.cv ∈ touches o r := by
  cases o with
  | base o =>
    obtain ⟨ho, hcv⟩ := exec_publishes (E := E) (o := o) hx hold hnew
    exact ⟨hg ho, hcv⟩
  | insertMilestone t =>
    obtain ⟨-, rfl⟩ := Prod.mk.inj (Option.some.inj hx)
    have hsame : c.holds w = true := by
      cases c <;> exact hnew
    cases hold.symm.trans hsame
  | countConsumer t =>
    obtain ⟨-, rfl⟩ := Prod.mk.inj (Option.some.inj hx)
    cases c with
    | watermark t' => cases hold.symm.trans hnew
    | prefillComplete => cases hold.symm.trans hnew
    | milestoneConsumers t' =>
      by_cases ht : t' = t
      · -- a count that was positive stays so
        subst ht
        simp only [Cond.holds, World.update, Function.update_self] at hold hnew
        split at hold
        · cases hold
        · rename_i n hn
          rw [hn] at hnew
          simp only [Option.getD_some, decide_eq_true_eq, decide_eq_false_iff_not] at hold hnew
          omega
      · simp only [Cond.holds, World.update, Function.update_of_ne ht] at hold hnew
        cases hold.symm.trans hnew

/-- The proof outline of the clients. -/
def outline (E : Engine) : Outline (boardMachine E) Error where
  rank := fun _ => 0
  Inv := fun _ => True
  LockInv := fun _ _ => True
  Rely := fun _ _ w w' => AllocationFailed w → AllocationFailed w'
  Pre := fun _ H o _ => Guarded H o
  Active := fun _ _ _ => True
  Lossy := AllocationFailed
  Waits := fun _ _ _ => True
  Done := fun _ _ _ => True
  touches := touches
  rely_refl := fun _ _ _ h => h
  rely_trans := fun h h' hw => h' (h hw)
  rely_mono := fun _ h => h
  inv_step := fun _ _ _ => trivial
  lock_step := fun _ _ _ _ _ => trivial
  rely_step := fun _ _ hx _ _ h => log_step hx h
  pre_active := fun _ => trivial
  lossy_step := fun hx h => log_step hx h
  cond_step := fun _ hpre hx hold hnew => cond_step hpre hx hold hnew

/-- A program does as a client what it does as a thread of a pipeline. -/
theorem wp_embed {p : Prog α} {Q : Except Error α → Finset Lock → Finset Cv → World → Prop}
    {D : Finset Cv} {w : World} (h : (callOutline E).wp i p Q H D w) :
    (outline E).wp i (embed p) Q H D w := by
  induction p generalizing H D w with
  | ret a => exact h
  | throw e => exact h
  | op o k ih =>
    intro w₁ hR hI
    obtain ⟨hpre, hk⟩ := h w₁ hR hI
    exact ⟨hpre, fun x r w₂ hx hI₂ => ih r (hk x r w₂ hx hI₂)⟩
  | lock l k ih =>
    refine ⟨h.1, h.2.1, fun w₁ hR hI => ?_⟩
    obtain ⟨hA, hk⟩ := h.2.2 w₁ hR hI
    exact ⟨hA, fun hL => ih (hk hL)⟩
  | unlock l k ih =>
    refine ⟨h.1, fun w₁ hR hI => ?_⟩
    obtain ⟨hA, hL, D', hsub, hclean, hD, hk⟩ := h.2 w₁ hR hI
    exact ⟨hA, hL, D', hsub, hclean, hD, ih hk⟩
  | wait w k ih =>
    refine ⟨h.1, h.2.1, fun w₁ hR hI => ?_⟩
    obtain ⟨hA, hL, hk⟩ := h.2.2 w₁ hR hI
    refine ⟨hA, hL, fun w₂ hR₂ hI₂ => ?_⟩
    obtain ⟨hw, hk₂⟩ := hk w₂ hR₂ hI₂
    exact ⟨hw, fun hp hL₂ => ih (hk₂ hp hL₂)⟩
  | notify v k ih => exact ⟨h.1, ih h.2⟩

/-- A program that leaves no notification behind, as a client. -/
def TidyCall (E : Engine) (H : Finset Lock) (p : BoardProg α) : Prop :=
  ∀ i, (outline E).Triple i H (fun _ => True) p (fun _ _ => True) fun _ _ => True

theorem Tidy.embed {p : Prog α} (h : Tidy E H p) : TidyCall E H (embed p) :=
  fun i w hw hI => wp_embed (h i w hw hI)

private theorem stable_true' : (outline E).Stable i H fun _ => True :=
  fun _ _ _ _ _ => trivial

/-- A registration allocates and writes, with nothing to notify. -/
theorem register_tidy {o : BoardOp} (hg : Guarded {.watermarkMutex} o)
    (ht : ∀ r, touches o r = ∅) : TidyCall E ∅
      (Monitor.Prog.withLock (S := boardSig) .watermarkMutex
        (embed alloc >>= fun _ => Monitor.Prog.perform (S := boardSig) o)) := by
  intro i
  -- the write makes no condition true
  have hwrite : TidyCall E {.watermarkMutex} (Monitor.Prog.perform (S := boardSig) o) :=
    fun _ => Outline.Triple.op stable_true' fun _ _ _ => ⟨hg, fun _ r _ _ _ => ⟨ht r, trivial⟩⟩
  have hbody : TidyCall E {.watermarkMutex}
      (embed alloc >>= fun _ => Monitor.Prog.perform (S := boardSig) o) :=
    fun i => (alloc_tidy.embed i).bind fun _ => hwrite i
  exact Outline.Triple.withLock (Finset.notMem_empty _)
    (fun _ h => absurd h (Finset.notMem_empty _)) stable_true' (fun _ _ => trivial)
    ((hbody i).conseq (fun _ _ _ => trivial) (fun _ _ _ h => h) fun _ _ _ h => h)
    (fun _ => stable_true') (fun _ => stable_true') (fun _ _ _ _ => ⟨trivial, trivial, trivial⟩)
    fun _ _ _ _ => ⟨trivial, trivial, trivial⟩

/-- Every call leaves no notification behind. -/
theorem Call.prog_tidy (a : Call) : TidyCall E ∅ a.prog := by
  cases a with
  | registerSnapshotMilestone t =>
    exact fun i => .ite (fun _ => .throw fun _ _ _ => trivial) fun _ =>
      register_tidy (o := .insertMilestone t) trivial (fun _ => rfl) i
  | commitWatermark ctx t => exact (commitWatermark_tidy ctx t).embed
  | markPrefillComplete => exact markPrefillComplete_tidy.embed
  | registerMilestoneConsumer t =>
    exact fun i => .ite (fun _ => .ret fun _ _ _ => trivial) fun _ =>
      register_tidy (o := .countConsumer t) trivial (fun _ => rfl) i
  | signalMilestoneConsumed t => exact (signalMilestoneConsumed_tidy t).embed
  | waitForWatermark t => exact (waitForWatermark_tidy t).embed
  | waitForPrefillComplete => exact (await_tidy .prefillComplete).embed
  | waitForMilestoneConsumers t => exact (waitForMilestoneConsumers_tidy t).embed

/-- Neither does any sequence of calls. -/
theorem Client.tidy {p : BoardProg Unit} (h : Client p) : TidyCall E ∅ p := by
  induction h with
  | ret => exact fun _ => .ret fun _ _ _ => trivial
  | throw e => exact fun _ => .throw fun _ _ _ => trivial
  | call a k _ ih =>
    intro i
    refine Outline.Triple.bind (a.prog_tidy i).attempt fun r => ?_
    exact (ih r i).conseq (fun _ _ _ => trivial) (fun _ _ _ h => h) fun _ _ _ h => h

/-- The clients start where their proof outline says. -/
theorem Config.Start.holds {c : Config E} (h : c.Start) : (outline E).Holds c := by
  have hheld : ∀ i, c.held i = ∅ := by
    intro i
    refine Finset.eq_empty_of_forall_notMem fun l hl => ?_
    cases (h.free l).symm.trans (Monitor.Config.mem_held.mp hl)
  refine ⟨fun _ => ∅, trivial, fun _ _ => trivial, fun i => ?_, fun i w k hi => ?_⟩
  · -- each client leaves no notification behind
    obtain ⟨p, hp, hi⟩ := h.client i
    rw [hheld, hi]
    exact (hp.tidy i).final (fun _ _ _ _ _ => trivial) (fun _ _ _ _ _ _ => trivial) trivial trivial
  · -- nobody sleeps yet
    obtain ⟨p, -, hp⟩ := h.client i
    cases hp.symm.trans hi

/-! ### The waits of the calls -/

namespace Toy

end Toy

end SwarmKV.Board
