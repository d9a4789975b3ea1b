import SwarmKV.Spec.Helpers

/-!
# Triples of the watermark protocol

The operations of `PipelineState` as the nodes use them inside `execute()`.
-/

namespace SwarmKV.Pipeline

open Monitor.Outline

variable {cfg : Pipeline} {n : String} {H : Finset Lock} {A : World → Prop}
  {X : Error → World → Prop}

/-- What `watermark_mutex` protects stays while it is held. -/
theorem Closed.mutexInv {i : Thread} (hH : .watermarkMutex ∈ H) :
    cfg.Closed i H cfg.MutexInv :=
  fun _ _ h hq => MutexInv.same hq.grows h (hq.mutex hH).1 (hq.mutex hH).2

theorem stable_mutexInv {i : Thread} {w w' : World} (hH : .watermarkMutex ∈ H)
    (h : cfg.MutexInv w) (hR : cfg.Rely i H w w') : cfg.MutexInv w' :=
  MutexInv.same hR.grows h (hR.mutex hH).1 (hR.mutex hH).2

theorem rank_lt_watermarkMutex (hH : H ⊆ {.llamaApiMutex}) :
    ∀ l ∈ H, cfg.outline.rank l < cfg.outline.rank .watermarkMutex := by
  intro l hl
  obtain rfl := Finset.mem_singleton.mp (hH hl)
  exact Nat.zero_lt_one

theorem watermarkMutex_notMem (hH : H ⊆ {.llamaApiMutex}) : .watermarkMutex ∉ H := by
  intro h
  cases Finset.mem_singleton.mp (hH h)

/-- A critical section of `watermark_mutex` that only reads. -/
theorem readLock_triple {α : Type} {f : PipelineState → α} {R : α → World → Prop}
    (hH : H ⊆ {.llamaApiMutex}) (hA : cfg.Closed (.worker n) H A)
    (hrun : ∀ w, A w → cfg.Running n w)
    (hR : ∀ w, cfg.Inv w → A w → cfg.MutexInv w → R (f w.state) w)
    (hRc : ∀ a, cfg.Closed (.worker n) H fun w => A w ∧ R a w) :
    cfg.outline.Triple (.worker n) H A
      (withLock .watermarkMutex (perform .load >>= fun s => pure (f s)))
      (fun a w => A w ∧ R a w) X := by
  have hsub := Finset.subset_insert .watermarkMutex H
  have hmem : Lock.watermarkMutex ∈ insert .watermarkMutex H := Finset.mem_insert_self _ _
  have hM : cfg.Closed (.worker n) (insert .watermarkMutex H) cfg.MutexInv :=
    Closed.mutexInv hmem
  have hAM := (hA.mono hsub).and hM
  have hbody : cfg.outline.Triple (.worker n) (insert .watermarkMutex H)
      (fun w => A w ∧ cfg.MutexInv w) (perform .load >>= fun s => pure (f s))
      (fun a w => (A w ∧ R a w) ∧ cfg.MutexInv w) (fun _ _ => False) := by
    refine Triple.bind (Q := fun s w => (A w ∧ cfg.MutexInv w) ∧ R (f s) w) ?_ fun s => ?_
    · exact load_triple hAM (fun w hw => hrun w hw.1) fun w hinv hw => hR w hinv hw.1 hw.2
    · exact Triple.ret fun w _ hw => ⟨⟨hw.1.1, hw.2⟩, hw.1.2⟩
  refine Triple.withLock (watermarkMutex_notMem hH) (rank_lt_watermarkMutex hH) hA.stable
    (fun w hw => (hrun w hw).live) hbody
    (fun a => (((hRc a).mono hsub).and hM).stable)
    (fun _ => Closed.const.stable) ?_ (fun _ _ _ h => h.elim)
  exact fun a w _ hw => ⟨(hrun w hw.1.1).live, hw.2, hw.1⟩

/-- `is_snapshot_milestone` answers what was registered. -/
theorem isSnapshotMilestone_triple {t : Int} (hH : H ⊆ {.llamaApiMutex})
    (hA : cfg.Closed (.worker n) H A) (hrun : ∀ w, A w → cfg.Running n w) :
    cfg.outline.Triple (.worker n) H A (PipelineState.isSnapshotMilestone t)
      (fun b w => A w ∧ (b = true ↔ cfg.IsMilestone t)) X := by
  unfold PipelineState.isSnapshotMilestone
  refine readLock_triple hH hA hrun (fun w hinv _ _ => ?_) fun b => hA.and Closed.const
  rw [List.contains_iff_mem, hinv.milestones]

/-- What `try_get_prefix_snapshot` answers for an entry. -/
def snapshotAnswer (t : Int) (snap : PrefixKvSnapshot) : Option DataPtr × Nat × Int :=
  (if snap.data.isEmpty then none else some (.snapshot t), snap.data.length, snap.seqLen)

/-- `try_get_prefix_snapshot` under the guard: the entry it describes stays. -/
theorem tryGetPrefixSnapshot_triple {t : Int} {N : World → Prop}
    (hA : cfg.Closed (.worker n) {.llamaApiMutex} A) (hrun : ∀ w, A w → cfg.Running n w)
    (hN : ∀ w, cfg.Inv w → A w → cfg.MutexInv w → w.state.prefixSnapshots t = none → N w)
    (hNc : cfg.Closed (.worker n) {.llamaApiMutex} N) :
    cfg.outline.Triple (.worker n) {.llamaApiMutex} A (PipelineState.tryGetPrefixSnapshot t)
      (fun r w => A w ∧ match r with
        | none => N w
        | some a => ∃ snap, w.state.prefixSnapshots t = some snap ∧ a = snapshotAnswer t snap)
      X := by
  have heq : PipelineState.tryGetPrefixSnapshot t =
      withLock .watermarkMutex (perform .load >>= fun s =>
        pure ((s.prefixSnapshots t).map (snapshotAnswer t))) := by
    unfold PipelineState.tryGetPrefixSnapshot
    congr 2
    funext s
    cases s.prefixSnapshots t <;> rfl
  rw [heq]
  refine readLock_triple (R := fun r w => match r with
    | none => N w
    | some a => ∃ snap, w.state.prefixSnapshots t = some snap ∧ a = snapshotAnswer t snap)
    subset_rfl hA hrun (fun w hinv hw hM => ?_) fun r => ?_
  · cases hs : w.state.prefixSnapshots t with
    | none => exact hN w hinv hw hM hs
    | some snap => exact ⟨snap, rfl, rfl⟩
  · intro w w' hw hq
    refine ⟨hA w w' hw.1 hq, ?_⟩
    cases r with
    | none => exact hNc w w' hw.2 hq
    | some a =>
      obtain ⟨snap, hsnap, ha⟩ := hw.2
      refine ⟨snap, ?_, ha⟩
      rw [hq.prefixSnapshots (by simp) n rfl (hrun w hw.1).live, hsnap]

end SwarmKV.Pipeline
