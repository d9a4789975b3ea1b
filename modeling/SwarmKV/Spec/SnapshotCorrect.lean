import SwarmKV.Monitor.Observer
import SwarmKV.Spec.Stuck
import SwarmKV.Spec.Toy

/-!
# Correctness of the milestone snapshots

Branches wait for `watermark >= W`, but a snapshot is filed under the exact value that
is committed. The two meet at the values at which the prefill loop stops.
-/

namespace SwarmKV.Pipeline

open Monitor

variable {cfg : Pipeline} {c : Config cfg.engine} {p : String} {W : Int}
  {tr : Trace (machine cfg.engine)}

/-! ## What is being published -/

/-- The value that a thread is publishing: it has raised the watermark to it, and has neither filed
    the snapshot nor given the mutex back. -/
def publishWatch (E : Engine) (_ : (machine E).Thread) : Observer sig (Option Int) where
  start := none
  next s a _ := match a with
    | .op (.setWatermark t) => some t
    | .op (.putSnapshot _ _) => none
    | .unlock .watermarkMutex => none
    | _ => s
  ok _ _ := True

/-- The prefiller has raised the watermark to `W`, and has still to file the snapshot. -/
def BeingPublished {cfg : Pipeline} (tr : Trace (machine cfg.engine)) (p : String) (W : Int) : Prop :=
  Observer.state (publishWatch cfg.engine) tr (.worker p) = some W

/-- The milestone `W` has its snapshot, and no branch of the prefiller has missed it. -/
structure MilestoneServed (cfg : Pipeline) (p : String) (W : Int)
    (tr : Trace (machine cfg.engine)) (c : Config cfg.engine) : Prop where
  filed : ¬ BeingPublished tr p W →
    ∃ snap, c.data.state.prefixSnapshots W = some snap ∧ snap.seqLen = W
  found : ∀ n, p ∈ cfg.orchestrator.getDependenciesForNode n →
    ¬ c.data.Ended n (.error (.missingPrefixSnapshot W))

/-- What has been published is filed, or is being published by a prefill provider. -/
private def FiledOr (cfg : Pipeline) (tr : Trace (machine cfg.engine)) (c : Config cfg.engine) :
    Prop :=
  cfg.FiledUpTo c.data.state.watermark c.data ∨ ∃ q, cfg.orchestrator.isPrefill q ∧
    c.holder .watermarkMutex = some (.worker q) ∧ BeingPublished tr q c.data.state.watermark

/-- An operation of a thread. -/
private theorem FiledOr.op {i : Thread} {o : Op} {x : Choice} {r : o.Res} {c' : Config cfg.engine}
    (h : cfg.FiledOr tr c) (hc' : cfg.Reachable c') (hpre : cfg.Pre i (c.held i) o c.data)
    (hx : exec cfg.engine i o x c.data = some (r, c'.data)) (hholder : c'.holder = c.holder) :
    cfg.FiledOr (⟨i, .op o, r, c.data⟩ :: tr) c' := by
  -- what neither publishes nor files
  have hquiet : (∀ t, o ≠ .setWatermark t) → (∀ t data, o ≠ .putSnapshot t data) →
      cfg.FiledOr (⟨i, .op o, r, c.data⟩ :: tr) c' := by
    intro hset hput
    have hsame : c'.data.state.watermark = c.data.state.watermark :=
      (exec_watermark hx).resolve_right fun ⟨t, ho, _⟩ => hset t ho
    unfold FiledOr
    rw [hsame, hholder]
    refine h.imp (fun hfiled => ?_) fun ⟨q, hq, hheld, hpub⟩ => ⟨q, hq, hheld, ?_⟩
    · exact hfiled.grows (exec_log_grows hx) fun _ h => exec_snapshots_mono hx h
    · rw [BeingPublished, Observer.state]
      split
      · cases o with
        | setWatermark t => exact absurd rfl (hset t)
        | putSnapshot t data => exact absurd rfl (hput t data)
        | _ => exact hpub
      · exact hpub
  cases o with
  | setWatermark t =>
    -- the watermark is raised under the mutex
    obtain ⟨⟨n, hn⟩, -⟩ := hpre.2
    obtain rfl := hn.thread
    obtain ⟨-, hdata⟩ := Prod.mk.inj (Option.some.inj hx)
    refine .inr ⟨n, hn.prefill, hholder ▸ Monitor.Config.mem_held.mp hn.mutex, ?_⟩
    rw [BeingPublished, Observer.state, if_pos rfl, ← hdata]
    rfl
  | putSnapshot t data =>
    -- the snapshot is filed at the watermark
    obtain ⟨-, -, hwatermark⟩ := hpre.2
    obtain ⟨-, hdata⟩ := Prod.mk.inj (Option.some.inj hx)
    refine .inl fun p hp hmem t' ht' hle hm => ?_
    by_cases hlt : t' < c'.data.state.watermark
    · exact (reachable_holds hc').inv.filed p hp hmem t' ht' (by omega) hm
    · have hsame : c'.data.state.watermark = t := by
        rw [← hdata]
        exact hwatermark
      obtain rfl : t' = t := by omega
      rw [← hdata]
      simp [World.update]
  | _ => exact hquiet (fun _ h => by cases h) fun _ _ h => by cases h

/-- A step that changes no data. -/
private theorem FiledOr.still {tr' : Trace (machine cfg.engine)} {c' : Config cfg.engine}
    (h : cfg.FiledOr tr c) (hc : cfg.Reachable c) (hs : c.Step c') (hdata : c'.data = c.data)
    (hkeep : ∀ q W, c'.holder .watermarkMutex = some (.worker q) → BeingPublished tr q W →
      BeingPublished tr' q W) : cfg.FiledOr tr' c' := by
  -- while the mutex is free, its invariant holds
  have hfree : ∀ {c}, cfg.Reachable c → c.holder .watermarkMutex = none →
      cfg.FiledUpTo c.data.state.watermark c.data := fun hc h => (reachable_holds hc).lockInv h
  obtain hsame | ⟨-, hnone | hnone⟩ := hs.holder .watermarkMutex
  · unfold FiledOr
    rw [hdata, hsame]
    refine h.imp_right fun ⟨q, hq, hheld, hpub⟩ => ⟨q, hq, hheld, ?_⟩
    exact hkeep q _ (hsame.trans hheld) hpub
  · refine .inl ?_
    rw [hdata]
    exact hfree hc hnone
  · exact .inl (hfree (hc.tail hs) hnone)

/-- What has been published is filed, or is being published. -/
private theorem filedOr (hrun : cfg.initial.Run tr c) : cfg.FiledOr tr c := by
  induction hrun with
  | start => exact .inl ((reachable_holds .refl).lockInv (l := .watermarkMutex) rfl)
  | @act tr c c' e hr he ih =>
    have hc : cfg.Reachable c := hr.reaches
    have hs : c.Step c' := Monitor.Config.step_iff.mpr (.inl ⟨e, he⟩)
    cases he with
    | @op i o k x r d ht hx =>
      exact ih.op (hc.tail hs) ((reachable_holds hc).pre ⟨k, ht⟩) hx rfl
    | @unlock i l k ht hl =>
      refine ih.still hc hs rfl fun q W hheld hpub => ?_
      rw [BeingPublished, Observer.state]
      split
      · cases l with
        | watermarkMutex =>
          -- the mutex is free behind its unlock
          have hnone : (c.setHolder .watermarkMutex none).holder .watermarkMutex = none :=
            Monitor.Config.setHolder_same _ _ _
          cases hnone.symm.trans hheld
        | _ => exact hpub
      · exact hpub
    | _ =>
      refine ih.still hc hs rfl fun q W _ hpub => ?_
      rw [BeingPublished, Observer.state]
      split
      · exact hpub
      · exact hpub
  | silent hr hs ih =>
    exact ih.still hr.reaches (Monitor.Config.step_iff.mpr (.inr hs)) hs.data fun _ _ _ h => h

/-! ## Milestones -/

/-- A milestone that the prefill loop commits has its snapshot once it is published. -/
theorem filed_of_commitValue (hrun : cfg.initial.Run tr c) (hp : cfg.orchestrator.Sole p)
    (hmem : ¬ c.data.OutOfMemory p) (hm : cfg.IsMilestone W) (hle : W ≤ c.data.state.watermark)
    (hs : ¬ BeingPublished tr p W) (hvalue : CommitValue (cfg.doc p).length W) :
    (c.data.state.prefixSnapshots W).isSome := by
  by_cases hlt : W < c.data.state.watermark
  · exact (reachable_holds hrun.reaches).inv.filed p hp hmem W hvalue (by omega) hm
  · obtain hfiled | ⟨q, hq, -, hpub⟩ := filedOr hrun
    · exact hfiled p hp hmem W hvalue hle hm
    · obtain rfl := hp.2 q hq
      have heq : c.data.state.watermark = W := by omega
      rw [heq] at hpub
      exact absurd hpub hs

/-- A reached milestone is served if it is a multiple of the slice size, or the end of the
    document, and the prefiller does not run out of memory; and only at such a value. -/
theorem milestoneServed_iff (hp : cfg.orchestrator.Sole p) (hrun : cfg.initial.Run tr c)
    (hm : cfg.IsMilestone W) (hW : W ≤ (cfg.doc p).length) (hle : W ≤ c.data.state.watermark) :
    (128 ∣ W ∨ W = (cfg.doc p).length → ¬ c.data.OutOfMemory p → cfg.MilestoneServed p W tr c) ∧
      (¬ BeingPublished tr p W → cfg.MilestoneServed p W tr c →
        128 ∣ W ∨ W = (cfg.doc p).length) := by
  have hinv := (reachable_holds hrun.reaches).inv
  constructor
  · intro hdvd hmem
    have hvalue : CommitValue (cfg.doc p).length W := ⟨hm.pos, hW, hdvd⟩
    refine ⟨fun hs => ?_, fun n hn hend => ?_⟩
    · have hfiled := filed_of_commitValue hrun hp hmem hm hle hs hvalue
      obtain ⟨snap, hsnap⟩ := Option.isSome_iff_exists.mp hfiled
      exact ⟨snap, hsnap, (hinv.snapshots W snap hsnap).seqLen⟩
    · exact (hinv.ended n _ hend).2.missing W rfl p hp hn hmem hvalue
  · intro hs hserved
    obtain ⟨snap, hsnap, -⟩ := hserved.filed hs
    exact ((hinv.snapshots W snap hsnap).commitValue p hp).2.2

/-- The toy branch at the end of the document finds its snapshot. -/
theorem milestoneServed_iff_toy : ∃ tr, (Toy.star 1 false 1).MilestoneServed "P" 1 tr
    ((Toy.star 1 false 1).after Toy.forkAtOne) := by
  have hsole : (Toy.star 1 false 1).orchestrator.Sole "P" := by decide
  have hm : (Toy.star 1 false 1).IsMilestone 1 := by decide
  have hrun := Config.run_after (c := (Toy.star 1 false 1).initial) (s := Toy.forkAtOne)
    (by decide +kernel)
  have hiff := milestoneServed_iff hsole hrun hm (by decide) (by decide +kernel)
  exact ⟨_, hiff.1 (by decide) (by decide +kernel)⟩

/-- With a document of two tokens and a milestone at 1, the watermark goes past the
    milestone, and there is no snapshot. -/
theorem not_milestoneServed : ¬ ∀ tr c, (Toy.star 2 false 1).initial.Run tr c →
    1 ≤ c.data.state.watermark → (Toy.star 2 false 1).MilestoneServed "P" 1 tr c := by
  intro hall
  have hrun := Config.run_after (c := (Toy.star 2 false 1).initial)
    (s := Toy.steps "P" 33 ++ Toy.steps "B" 17) (by decide +kernel)
  exact (hall _ _ hrun (by decide +kernel)).found "B" (by decide) (by decide +kernel)

end SwarmKV.Pipeline
