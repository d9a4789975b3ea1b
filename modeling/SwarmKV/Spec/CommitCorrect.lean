import SwarmKV.Spec.Solo
import SwarmKV.Spec.Toy

/-!
# When `commit_watermark` throws

The checks of `commit_watermark` come before all its effects, but the two allocations behind the
export do not: what it has written by then stays written.
-/

namespace SwarmKV

open Monitor

variable {E : Engine} {i : Thread} {H : Finset Lock} {w w' : World} {h b : Nat} {t : Int}
  {ctx : Option Nat} {xs : List Choice}

/-- The blackboard and all buffers are as they were. -/
def Unchanged (w w' : World) : Prop := w'.state = w.state ∧ w'.buffers = w.buffers

/-- The capacity of a buffer. -/
def World.capacity (w : World) (b : Nat) : Nat := ((w.buffers b).map (·.size)).getD 0

/-- What the export of context `h` writes into the canonical buffer, if the environment decides `xs`. -/
def exportedBytes (w : World) (h : Nat) (xs : List Choice) : List UInt8 :=
  match w.state.materializedBranchBuffer, xs with
  | some b, .data bytes :: _ =>
    if (w.contexts h).isSome then fitting (w.capacity b) bytes else []
  | _, _ => []

/-- The call gets past its checks: the context is not null, the value is a milestone, and the
    sequence fits into the canonical buffer. -/
def PassesChecks (E : Engine) (w : World) (ctx : Option Nat) (t : Int) (h : Nat) : Prop :=
  ctx = some h ∧ 0 ≤ t ∧ t ∈ w.state.snapshotMilestones ∧
    ∀ b, w.state.materializedBranchBuffer = some b →
      ((w.contexts h).map fun c => E.llamaStateSeqGetSize (seqState kSwarmkvPrefixSeqId c.cells)).getD 0
        ≤ w.capacity b

/-- An allocation behind the export fails, but the call has rewritten what was there already: the
    bytes of the export, and the published values unless the first allocation has failed. -/
def Rewrites (w : World) (h : Nat) (t : Int) (xs : List Choice) : Prop :=
  (∀ b, w.state.materializedBranchBuffer = some b →
    w.bytesAt (.buffer b) (exportedBytes w h xs).length = exportedBytes w h xs) ∧
  ((exportedBytes w h xs ≠ [] → xs[1]? ≠ some .fail) →
    w.state.watermark = t ∧ w.state.prefixSeqLen = t ∧
      w.state.prefixKvSerialBytes = (exportedBytes w h xs).length)

/-! ## Overwriting -/

/-- Overwriting the start of a buffer changes nothing if that is how the buffer starts. -/
theorem overwrite_eq_iff {bytes : List UInt8} (hb : (w.buffers b).isSome ∨ bytes = []) :
    (w.overwrite b bytes).buffers = w.buffers ↔ w.bytesAt (.buffer b) bytes.length = bytes := by
  cases hbuf : w.buffers b with
  | none =>
    obtain rfl : bytes = [] := hb.resolve_left (by simp [hbuf])
    refine iff_of_true ?_ (by simp [World.bytesAt])
    simp only [World.overwrite, hbuf, Option.map_none]
    rw [← hbuf, Function.update_eq_self]
  | some buf =>
    have hat : w.bytesAt (.buffer b) bytes.length = buf.bytes.take bytes.length := by
      simp [World.bytesAt, hbuf]
    rw [hat]
    constructor
    · intro heq
      have hnow := congrFun heq b
      simp only [World.overwrite, Function.update_self, hbuf, Option.map_some, Option.some.injEq] at hnow
      rw [← congrArg Buffer.bytes hnow, List.take_left]
    · intro htake
      have hold : bytes ++ buf.bytes.drop bytes.length = buf.bytes := by
        calc bytes ++ buf.bytes.drop bytes.length
            = buf.bytes.take bytes.length ++ buf.bytes.drop bytes.length := by rw [htake]
          _ = buf.bytes := List.take_append_drop _ _
      simp only [World.overwrite, hbuf, Option.map_some, hold]
      rw [← hbuf, Function.update_eq_self]

theorem overwrite_nil : (w.overwrite b []).buffers = w.buffers :=
  (overwrite_eq_iff (.inr rfl)).mpr (by simp [World.bytesAt])

/-- Bytes that are written fit into a buffer that is there. -/
theorem fitting_capacity (bytes : List UInt8) :
    (w.buffers b).isSome ∨ fitting (w.capacity b) bytes = [] := by
  cases hbuf : w.buffers b with
  | some buf => exact .inl rfl
  | none =>
    refine .inr ?_
    simp only [World.capacity, hbuf, Option.map_none, Option.getD_none, fitting]
    split
    · exact List.length_eq_zero_iff.mp (Nat.le_zero.mp ‹_›)
    · rfl

/-! ## The two critical sections and the export between them -/

/-- Nothing that the call looks at has changed. -/
private structure SameSo (w : World) (xs : List Choice) (d : World) (ys : List Choice) : Prop where
  state : d.state = w.state
  buffers : d.buffers = w.buffers
  contexts : d.contexts = w.contexts
  left : ys = xs

/-- The first critical section. -/
private theorem publishUnexported_ends :
    (solo E i).Ends H (SameSo w xs) (PipelineState.publishUnexported t)
      (fun yes d ys => yes = true → t ∈ w.state.snapshotMilestones ∧ SameSo w xs d ys)
      fun _ _ _ => False := by
  unfold PipelineState.publishUnexported
  refine .bind (Q := fun s d ys => s = w.state ∧ SameSo w xs d ys) ?_ fun s => ?_
  · refine ends_calm rfl fun d ys r d' hd hx => ?_
    simp only [exec, Option.some.injEq, Prod.mk.injEq] at hx
    obtain ⟨rfl, rfl⟩ := hx
    exact ⟨hd.state, hd⟩
  · refine .ite (fun hyes => .ret fun d ys hd _ => ?_) fun _ => .bind (Q := fun _ _ _ => True)
      (ends_calm rfl fun _ _ _ _ _ _ => trivial) fun _ => .bind (Q := fun _ _ _ => True)
        (.notifyAll fun _ _ _ => trivial) fun _ => .ret fun _ _ _ hno => ?_
    · obtain ⟨rfl, hsame⟩ := hd
      exact ⟨by simpa using hyes, hsame⟩
    · cases hno

/-- The canonical buffer starts with the export already. -/
private def Already (w : World) (h : Nat) (xs : List Choice) : Prop :=
  ∀ b, w.state.materializedBranchBuffer = some b →
    w.bytesAt (.buffer b) (exportedBytes w h xs).length = exportedBytes w h xs

/-- The sequence has been exported, `nw` bytes of it. -/
private structure ExportDone (w : World) (h : Nat) (xs : List Choice) (nw : Nat) (d : World) :
    Prop where
  state : d.state = w.state
  buffers : d.buffers = w.buffers ↔ Already w h xs
  count : nw = (exportedBytes w h xs).length

/-- The claim about a call that has thrown. -/
private def KeepsIff (E : Engine) (w : World) (ctx : Option Nat) (t : Int) (xs : List Choice)
    (d : World) : Prop :=
  Unchanged w d ↔ ∀ h, PassesChecks E w ctx t h → Rewrites w h t xs

private theorem getData_ends (hb : w.state.materializedBranchBuffer = some b) :
    (solo E i).Ends H (SameSo w xs)
      (perform (.llamaStateSeqGetData h b (w.capacity b) kSwarmkvPrefixSeqId))
      (fun nw d ys => ExportDone w h xs nw d ∧ ∃ x, xs = x :: ys) fun _ _ _ => False := by
  refine ends_asks rfl fun d x ys nw d' hd hx => ?_
  obtain ⟨hstate, hbuffers, hcontexts, hleft⟩ := hd
  have hnothing : exportedBytes w h xs = [] → ExportDone w h xs 0 d := fun hnil =>
    ⟨hstate, iff_of_true hbuffers fun b' _ => by simp [hnil, World.bytesAt], by simp [hnil]⟩
  cases hctx : w.contexts h with
  | none =>
    have hnil : exportedBytes w h xs = [] := by
      rw [← hleft]
      cases x <;> simp [exportedBytes, hb, hctx]
    have hsame : nw = 0 ∧ d' = d := by
      cases x <;> simp [exec, hcontexts, hctx] at hx <;> exact ⟨hx.1.symm, hx.2.symm⟩
    obtain ⟨rfl, rfl⟩ := hsame
    exact ⟨hnothing hnil, x, hleft.symm⟩
  | some c =>
    cases x with
    | data bytes =>
      have hbytes : exportedBytes w h xs = fitting (w.capacity b) bytes := by
        rw [← hleft]
        simp [exportedBytes, hb, hctx]
      simp only [exec, hcontexts, hctx] at hx
      split at hx
      · simp only [Option.some.injEq, Prod.mk.injEq] at hx
        obtain ⟨rfl, rfl⟩ := hx
        refine ⟨⟨hstate, ?_, by rw [hbytes]⟩, _, hleft.symm⟩
        have hover : ((d.overwrite b (fitting (w.capacity b) bytes)).record i
            (.exported (seqState kSwarmkvPrefixSeqId c.cells) (fitting (w.capacity b) bytes))).buffers =
              (w.overwrite b (fitting (w.capacity b) bytes)).buffers := by
          simp only [World.record, World.overwrite, hbuffers]
        rw [hover, overwrite_eq_iff (fitting_capacity bytes), Already, hbytes, hb]
        simp
      · cases hx
    | _ => simp [exec, hcontexts, hctx] at hx

/-- The export, and the copy of its bytes. -/
private theorem exportPrefix_ends (ht : 0 ≤ t) :
    (solo E i).Ends H (fun d ys => t ∈ w.state.snapshotMilestones ∧ SameSo w xs d ys)
      (PipelineState.exportPrefix h)
      (fun e d _ => PassesChecks E w (some h) t h ∧ ExportDone w h xs e.1 d ∧
        (exportedBytes w h xs ≠ [] → xs[1]? ≠ some .fail))
      fun _ d _ => KeepsIff E w (some h) t xs d := by
  unfold PipelineState.exportPrefix
  refine .bind (Q := fun s d ys => s = w.state ∧ t ∈ w.state.snapshotMilestones ∧ SameSo w xs d ys)
    (ends_calm rfl fun d ys r d' hd hx => ?_) fun s => .fix fun d₀ ys₀ hd₀ => ?_
  · simp only [exec, Option.some.injEq, Prod.mk.injEq] at hx
    obtain ⟨rfl, rfl⟩ := hx
    exact ⟨hd.2.state, hd.1, hd.2⟩
  obtain ⟨rfl, hm, hsame⟩ := hd₀
  refine .conseq (I := SameSo w xs) ?_ (fun d ys hd => by rw [hd.1, hd.2]; exact hsame)
    (fun _ _ _ hd => hd) fun _ _ _ hd => hd
  -- without a canonical buffer there is no export
  cases hb : w.state.materializedBranchBuffer with
  | none =>
    have hnil : exportedBytes w h xs = [] := by simp [exportedBytes, hb]
    refine .ret fun d ys hd => ⟨⟨rfl, ht, hm, fun b hb' => ?_⟩, ⟨hd.state,
      iff_of_true hd.buffers fun b hb' => ?_, ?_⟩, fun hne => ?_⟩
    · rw [hb] at hb'
      cases hb'
    · rw [hb] at hb'
      cases hb'
    · simp [hnil]
    · exact absurd hnil hne
  | some b =>
    -- its size, and that of the buffer
    refine .bind (Q := fun need d ys => need = ((w.contexts h).map fun c =>
      E.llamaStateSeqGetSize (seqState kSwarmkvPrefixSeqId c.cells)).getD 0 ∧ SameSo w xs d ys)
      (ends_calm rfl fun d ys r d' hd hx => ?_) fun need => .bind (Q := fun cap d ys =>
        need = ((w.contexts h).map fun c =>
          E.llamaStateSeqGetSize (seqState kSwarmkvPrefixSeqId c.cells)).getD 0 ∧
        cap = w.capacity b ∧ SameSo w xs d ys) (ends_calm rfl fun d ys r d' hd hx => ?_) fun cap => ?_
    · simp only [exec, Option.some.injEq, Prod.mk.injEq] at hx
      obtain ⟨rfl, rfl⟩ := hx
      exact ⟨by rw [hd.contexts], hd⟩
    · simp only [exec, Option.some.injEq, Prod.mk.injEq] at hx
      obtain ⟨rfl, rfl⟩ := hx
      exact ⟨hd.1, by rw [hd.2.buffers, World.capacity], hd.2⟩
    refine .ite (fun hsmall => .throw fun d ys hd => ?_) fun hfits => .fix fun d₁ ys₁ hd₁ => ?_
    · -- the size check comes before the export
      obtain ⟨rfl, rfl, hsame⟩ := hd
      refine iff_of_true ⟨hsame.state, hsame.buffers⟩ fun h' hpass => ?_
      obtain ⟨heq, -, -, hfits⟩ := hpass
      obtain rfl := Option.some.inj heq
      exact absurd hsmall (not_lt.mpr (hfits b hb))
    · obtain ⟨rfl, rfl, hsame₁⟩ := hd₁
      have hpass : PassesChecks E w (some h) t h := by
        refine ⟨rfl, ht, hm, fun b' hb' => ?_⟩
        obtain rfl := Option.some.inj (hb.symm.trans hb')
        exact not_lt.mp hfits
      refine .conseq (I := SameSo w xs) (.bind (.conseq (getData_ends hb) (fun _ _ hd => hd)
        (fun _ _ _ hd => hd) fun _ _ _ hd => hd.elim) fun nw => ?_)
        (fun d ys hd => by rw [hd.1, hd.2]; exact hsame₁) (fun _ _ _ hd => hd) fun _ _ _ hd => hd
      refine .ite (fun hpos => ?_) fun hzero => .ret fun d ys hd => ?_
      · -- the copy of what has been exported
        refine .bind (ends_alloc (Q := fun d _ => ExportDone w h xs nw d ∧ xs[1]? ≠ some .fail)
          (fun d x ys hd hx => ?_) fun d ys hd => ?_) fun _ => .bind (Q := fun _ d _ =>
            ExportDone w h xs nw d ∧ xs[1]? ≠ some .fail) (ends_calm rfl fun d ys r d' hd hx => ?_)
              fun bytes => .ret fun d ys hd => ⟨hpass, hd.1, fun _ => hd.2⟩
        · obtain ⟨hdone, y, rfl⟩ := hd
          exact ⟨hdone, by simpa using hx⟩
        · -- the copy cannot be allocated: the canonical buffer has been written
          obtain ⟨hdone, y, rfl⟩ := hd
          have hne : exportedBytes w h (y :: .fail :: ys) ≠ [] := by
            intro hnil
            have hcount := hdone.count
            rw [hnil] at hcount
            exact absurd hcount (Nat.pos_iff_ne_zero.mp hpos)
          constructor
          · intro hkept h' hpass
            obtain rfl := Option.some.inj hpass.1
            exact ⟨hdone.buffers.mp hkept.2, fun hcopied => absurd rfl (hcopied hne)⟩
          · intro hrewrites
            exact ⟨hdone.state, hdone.buffers.mpr (hrewrites h hpass).1⟩
        · simp only [exec, Option.some.injEq, Prod.mk.injEq] at hx
          obtain ⟨rfl, rfl⟩ := hx
          exact hd
      · -- nothing has been exported, and nothing is copied
        obtain ⟨hdone, -⟩ := hd
        have hnil : exportedBytes w h xs = [] :=
          List.length_eq_zero_iff.mp (hdone.count.symm.trans (Nat.eq_zero_of_not_pos hzero))
        exact ⟨hpass, ⟨hdone.state, hdone.buffers, by simp [hnil]⟩, fun hne => absurd hnil hne⟩

/-- Everything but the snapshot is published. -/
private structure ValuesDone (w : World) (h : Nat) (t : Int) (xs : List Choice) (nw : Nat) (d : World) :
    Prop where
  state : d.state = { w.state with watermark := t, prefixSeqLen := t, prefixKvSerialBytes := nw }
  buffers : d.buffers = w.buffers ↔ Already w h xs

private theorem sameValues {s : PipelineState} {n : Nat} (h₁ : s.watermark = t)
    (h₂ : s.prefixSeqLen = t) (h₃ : s.prefixKvSerialBytes = n) :
    { s with watermark := t, prefixSeqLen := t, prefixKvSerialBytes := n } = s := by
  subst h₁ h₃
  cases s
  simp only at h₂
  rw [h₂]

/-- The last critical section. -/
private theorem publishExported_ends {nw : Nat} {bytes : List UInt8}
    (hpass : PassesChecks E w (some h) t h) (hnw : nw = (exportedBytes w h xs).length)
    (hcopied : exportedBytes w h xs ≠ [] → xs[1]? ≠ some .fail) :
    (solo E i).Ends H (fun d _ => ExportDone w h xs nw d) (PipelineState.publishExported t nw bytes)
      (fun _ _ _ => True) fun _ d _ => KeepsIff E w (some h) t xs d := by
  unfold PipelineState.publishExported
  -- the three values are written one after the other
  refine .bind (Q := fun _ (d : World) _ => d.state = { w.state with watermark := t } ∧
    (d.buffers = w.buffers ↔ Already w h xs)) (ends_calm rfl fun d ys r d' hd hx => ?_) fun _ =>
    .bind (Q := fun _ (d : World) _ => d.state = { w.state with watermark := t, prefixSeqLen := t } ∧
      (d.buffers = w.buffers ↔ Already w h xs)) (ends_calm rfl fun d ys r d' hd hx => ?_) fun _ =>
    .bind (Q := fun _ d _ => ValuesDone w h t xs nw d) (ends_calm rfl fun d ys r d' hd hx => ?_)
      fun _ => .bind (Q := fun _ d _ => ValuesDone w h t xs nw d)
        (ends_calm rfl fun d ys r d' hd hx => ?_) fun s => ?_
  · simp only [exec, Option.some.injEq, Prod.mk.injEq] at hx
    obtain ⟨-, rfl⟩ := hx
    exact ⟨by simp [World.update, hd.state], hd.buffers⟩
  · simp only [exec, Option.some.injEq, Prod.mk.injEq] at hx
    obtain ⟨-, rfl⟩ := hx
    exact ⟨by simp [World.update, hd.1], hd.2⟩
  · simp only [exec, Option.some.injEq, Prod.mk.injEq] at hx
    obtain ⟨-, rfl⟩ := hx
    exact ⟨by simp [World.update, hd.1], hd.2⟩
  · simp only [exec, Option.some.injEq, Prod.mk.injEq] at hx
    obtain ⟨-, rfl⟩ := hx
    exact hd
  -- if the entry of the snapshot cannot be made, the values stay
  have hfail : ∀ d, ValuesDone w h t xs nw d → KeepsIff E w (some h) t xs d := by
    intro d hd
    have hstate : d.state = w.state ↔ w.state.watermark = t ∧ w.state.prefixSeqLen = t ∧
        w.state.prefixKvSerialBytes = nw := by
      rw [hd.state]
      constructor
      · intro heq
        exact ⟨(congrArg PipelineState.watermark heq).symm,
          (congrArg PipelineState.prefixSeqLen heq).symm,
          (congrArg PipelineState.prefixKvSerialBytes heq).symm⟩
      · intro heq
        obtain ⟨h₁, h₂, h₃⟩ := heq
        exact sameValues h₁ h₂ h₃
    constructor
    · intro hkept h' hpass'
      obtain rfl := Option.some.inj hpass'.1
      refine ⟨hd.buffers.mp hkept.2, fun _ => ?_⟩
      rw [← hnw]
      exact hstate.mp hkept.1
    · intro hrewrites
      obtain ⟨hbytes, hvalues⟩ := hrewrites h hpass
      rw [← hnw] at hvalues
      exact ⟨hstate.mpr (hvalues hcopied), hd.buffers.mpr hbytes⟩
  -- nothing can fail behind it
  have hput : ∀ data, (solo E i).Ends H (fun d _ => ValuesDone w h t xs nw d)
      (perform (.putSnapshot t data) >>= fun _ => notifyAll .watermarkCv) (fun _ _ _ => True)
      fun _ d _ => KeepsIff E w (some h) t xs d := fun data =>
    .bind (Q := fun _ _ _ => True) (ends_calm rfl fun _ _ _ _ _ _ => trivial) fun _ =>
      .notifyAll fun _ _ _ => trivial
  have hend := Alone.Ends.ite (c := nw > 0) (fun _ => hput bytes) fun _ => hput []
  refine .ite (fun _ => .bind (Q := fun _ d _ => ValuesDone w h t xs nw d) (ends_alloc
    (fun _ _ _ hd _ => hd) fun d ys hd => ?_) fun _ => ?_) fun _ => ?_
  · exact hfail _ ⟨hd.state, hd.buffers⟩
  · exact hend
  · exact hend

/-- The whole call. -/
private theorem commitWatermark_ends :
    (solo E i).Ends H (SameSo w xs) (PipelineState.commitWatermark ctx t) (fun _ _ _ => True)
      fun _ d _ => KeepsIff E w ctx t xs d := by
  unfold PipelineState.commitWatermark
  refine .bind (Q := fun _ => SameSo w xs) (ends_calm rfl fun d ys r d' hd hx => ?_) fun _ => ?_
  · simp only [exec, Option.some.injEq, Prod.mk.injEq] at hx
    obtain ⟨-, rfl⟩ := hx
    exact ⟨hd.state, hd.buffers, hd.contexts, hd.left⟩
  -- what throws in front of the export has changed nothing
  have hclean : ∀ d ys, SameSo w xs d ys → (∀ h, ¬ PassesChecks E w ctx t h) →
      KeepsIff E w ctx t xs d := fun d ys hd hno =>
    iff_of_true ⟨hd.state, hd.buffers⟩ fun h hpass => absurd hpass (hno h)
  cases ctx with
  | none =>
    refine .throw fun d ys hd => hclean d ys hd fun h hpass => ?_
    cases hpass.1
  | some h =>
    refine .ite (fun hneg => .throw fun d ys hd => hclean d ys hd fun h' hpass => ?_) fun hpos => ?_
    · exact absurd hneg (not_lt.mpr hpass.2.1)
    have ht : 0 ≤ t := not_lt.mp hpos
    refine .bind (.conseq (.withLock publishUnexported_ends) (fun _ _ hd => hd)
      (fun _ _ _ hd => hd) fun _ _ _ hd => hd.elim) fun yes => ?_
    cases yes with
    | false => exact .ret fun _ _ _ => trivial
    | true =>
      refine .fix fun d₀ ys₀ hd₀ => ?_
      obtain ⟨hm, hsame⟩ := hd₀ rfl
      refine .conseq (I := fun d ys => t ∈ w.state.snapshotMilestones ∧ SameSo w xs d ys)
        (.bind (exportPrefix_ends ht) fun e => .fix fun d₁ ys₁ hd₁ => ?_)
        (fun d ys hd => by rw [hd.1, hd.2]; exact ⟨hm, hsame⟩) (fun _ _ _ hd => hd)
        fun _ _ _ hd => hd
      obtain ⟨hpass, hdone, hcopied⟩ := hd₁
      refine .conseq (.withLock (publishExported_ends hpass hdone.count hcopied)) (fun d ys hd => ?_)
        (fun _ _ _ hd => hd) fun _ _ _ hd => hd
      rw [hd.1]
      exact hdone

/-- A call of `commit_watermark` that throws leaves the blackboard and all buffers as they were,
    exactly if it has thrown in one of its checks, or has rewritten what was there: whatever the
    state is, whatever is committed, and however the environment makes the call fail. -/
theorem commitWatermark_unchanged_iff (hrun : ∃ u e, (solo E i).run
      (PipelineState.commitWatermark ctx t) H w xs = some u ∧ u.outcome = .error e ∧ u.data = w') :
    Unchanged w w' ↔ ∀ h, PassesChecks E w ctx t h → Rewrites w h t xs := by
  obtain ⟨⟨r, H', w'', ys, os⟩, e, hrun, rfl, rfl⟩ := hrun
  exact (commitWatermark_ends w xs _ ⟨rfl, rfl, rfl, rfl⟩ hrun).2

/-! ## Runs -/

namespace Toy

/-- A prefiller with its one token decoded, in front of the commit of the milestone 1. -/
def atCommit : World where
  state := { materializedBranchBuffer := some 0, snapshotMilestones := [1] }
  contexts := fun h => if h = 0 then some ⟨.worker "P", toCells [(0, 5)]⟩ else none
  nextContext := 1
  buffers := fun b => if b = 0 then some { size := 64 } else none
  nextBuffer := 1

end Toy

/-- A second commit of the milestone exports the same bytes again: when the copy of this export cannot
    be allocated, nothing has changed. -/
theorem commitWatermark_unchanged_iff_toy : ∃ u v,
    (solo (Toy.engine 1 false) (.worker "P")).run (PipelineState.commitWatermark (some 0) 1) ∅
      Toy.atCommit [.data (Toy.write [(0, 5)]), .ok, .ok] = some u ∧ u.outcome = .ok () ∧
    (solo (Toy.engine 1 false) (.worker "P")).run (PipelineState.commitWatermark (some 0) 1) ∅
      u.data [.data (Toy.write [(0, 5)]), .fail] = some v ∧ v.outcome = .error .badAlloc ∧
    Unchanged u.data v.data := by
  have hrun : ∃ u v,
      (solo (Toy.engine 1 false) (.worker "P")).run (PipelineState.commitWatermark (some 0) 1) ∅
        Toy.atCommit [.data (Toy.write [(0, 5)]), .ok, .ok] = some u ∧ u.outcome = .ok () ∧
      (solo (Toy.engine 1 false) (.worker "P")).run (PipelineState.commitWatermark (some 0) 1) ∅
        u.data [.data (Toy.write [(0, 5)]), .fail] = some v ∧ v.outcome = .error .badAlloc ∧
      u.data.state.materializedBranchBuffer = some 0 ∧
      exportedBytes u.data 0 [.data (Toy.write [(0, 5)]), .fail] = Toy.write [(0, 5)] ∧
      u.data.bytesAt (.buffer 0) (Toy.write [(0, 5)]).length = Toy.write [(0, 5)] :=
    ⟨_, _, rfl, rfl, rfl, rfl, rfl, by decide +kernel, by decide +kernel⟩
  obtain ⟨u, v, hfirst, hok, hsecond, herr, hbuffer, hexport, hbytes⟩ := hrun
  refine ⟨u, v, hfirst, hok, hsecond, herr, ?_⟩
  apply (commitWatermark_unchanged_iff ⟨v, _, hsecond, herr, rfl⟩).mpr
  rintro h ⟨hctx, -⟩
  obtain rfl := Option.some.inj hctx
  constructor
  · intro b hb
    obtain rfl := Option.some.inj (hbuffer.symm.trans hb)
    rw [hexport]
    exact hbytes
  · intro hcopied
    rw [hexport] at hcopied
    exact absurd rfl (hcopied (by decide +kernel))

/-- If the copy of the export cannot be allocated, the canonical buffer has changed; if the entry of
    the snapshot cannot, the milestone is published without one. -/
theorem not_commitWatermark_unchanged :
    (¬ ∀ xs u e, (solo (Toy.engine 1 false) (.worker "P")).run
        (PipelineState.commitWatermark (some 0) 1) ∅ Toy.atCommit xs = some u →
      u.outcome = .error e → Unchanged Toy.atCommit u.data) ∧
    ¬ ∀ xs u e, (solo (Toy.engine 1 false) (.worker "P")).run
        (PipelineState.commitWatermark (some 0) 1) ∅ Toy.atCommit xs = some u →
      u.outcome = .error e → u.data.state.watermark = 1 → (u.data.state.prefixSnapshots 1).isSome := by
  constructor
  · intro hall
    have hcopy : ∃ u, (solo (Toy.engine 1 false) (.worker "P")).run
        (PipelineState.commitWatermark (some 0) 1) ∅ Toy.atCommit
          [.data (Toy.write [(0, 5)]), .fail] = some u ∧ u.outcome = .error .badAlloc ∧
        u.data.bytesAt (.buffer 0) 1 ≠ [] := ⟨_, rfl, rfl, by decide +kernel⟩
    obtain ⟨u, hrun, herr, hbytes⟩ := hcopy
    obtain ⟨-, hbuffers⟩ := hall _ u _ hrun herr
    rw [World.bytesAt, hbuffers] at hbytes
    exact hbytes rfl
  · intro hall
    have hentry : ∃ u, (solo (Toy.engine 1 false) (.worker "P")).run
        (PipelineState.commitWatermark (some 0) 1) ∅ Toy.atCommit
          [.data (Toy.write [(0, 5)]), .ok, .fail] = some u ∧ u.outcome = .error .badAlloc ∧
        u.data.state.watermark = 1 ∧ u.data.state.prefixSnapshots 1 = none :=
      ⟨_, rfl, rfl, rfl, rfl⟩
    obtain ⟨u, hrun, herr, hwatermark, hnone⟩ := hentry
    have hsome := hall _ u _ hrun herr hwatermark
    rw [hnone] at hsome
    cases hsome

end SwarmKV
