import SwarmKV.Spec.Schedule

/-!
# The commits of the provider

A provider that has everything published, and a prefill of which some part is left to do. A slice
is decoded as in the sequential prefill, and its commit files and publishes what that one files.
-/

namespace SwarmKV

open Monitor

namespace Pipeline

variable {cfg : Pipeline} {D : Calls} {p n : String} {h t cap : Nat} {s : View} {tokens : List LlamaToken}
  {R : Prefilled}

/-- The provider with everything published: its context, what it has committed last, and what it
    has filed. -/
def atSlice (held : Bool) (ctx : Option Nat) (cells : Option (List KvCell)) (t : Nat)
    (filed : List (Int × List UInt8)) : View where
  held := held
  ctx := ctx
  cells := cells
  top := t
  filed := filed
  seqLen := (Calls.lastFiled filed).1
  serialBytes := (Calls.lastFiled filed).2.length

/-- The provider has ended with what the sequential prefill leaves behind. -/
def PrefillEnded (R : Prefilled) (held : Bool) (r : Outcome) (s : View) : Prop :=
  ∃ ctx cells t filed, s.bare = atSlice held ctx cells t filed ∧ R = ⟨filed, r⟩

/-- What is left to do from `t` on leads to `R`. -/
def Ahead (cfg : Pipeline) (D : Calls) (cap : Nat) (tokens : List LlamaToken) (R : Prefilled)
    (t : Nat) (cells : List KvCell) (filed : List (Int × List UInt8)) : Prop :=
  ∃ fuel, tokens.length ≤ t + fuel ∧ D.prefillFrom cfg cap tokens fuel t cells filed = R

/-- What is left to do from the commit of `t` on leads to `R`. -/
def CommitAhead (cfg : Pipeline) (D : Calls) (cap : Nat) (tokens : List LlamaToken)
    (R : Prefilled) (t : Nat) (cells : List KvCell) (filed : List (Int × List UInt8)) : Prop :=
  ∃ fuel, tokens.length ≤ t + fuel ∧
    D.commitThen cfg cap t cells filed (D.prefillFrom cfg cap tokens fuel t) = R

/-- What is left to do from the pause at `t` on leads to `R`. -/
def ResumeAhead (cfg : Pipeline) (D : Calls) (cap : Nat) (tokens : List LlamaToken)
    (R : Prefilled) (t : Nat) (filed : List (Int × List UInt8)) : Prop :=
  ∃ fuel data older, tokens.length ≤ t + fuel ∧ filed = ((t : Int), data) :: older ∧
    D.resumeThen cfg data filed (D.prefillFrom cfg cap tokens fuel t) = R

theorem Ahead.lookup {cells : List KvCell} {filed : List (Int × List UInt8)}
    (h : cfg.Ahead D cap tokens R t cells filed) {u : Int} (hu : u ≤ t) :
    R.filed.lookup u = filed.lookup u := by
  obtain ⟨fuel, -, rfl⟩ := h
  exact Calls.prefillFrom_lookup fuel t cells filed hu

theorem ResumeAhead.lookup {filed : List (Int × List UInt8)}
    (h : cfg.ResumeAhead D cap tokens R t filed) {u : Int} (hu : u ≤ t) :
    R.filed.lookup u = filed.lookup u := by
  obtain ⟨fuel, data, older, -, -, rfl⟩ := h
  unfold Calls.resumeThen
  split
  · rfl
  · exact Calls.prefillFrom_lookup fuel t _ filed hu

/-- A provider with everything published. -/
theorem allPublished_atSlice {held : Bool} {ctx : Option Nat}
    {cells : Option (List KvCell)} {filed : List (Int × List UInt8)}
    (hs : s.bare = atSlice held ctx cells t filed) (hR : D.provided cfg p = R)
    (hlookup : ∀ u ≤ (t : Int), R.filed.lookup u = filed.lookup u) : cfg.AllPublished D p s := by
  obtain rfl : s.filed = filed := congrArg View.filed hs
  refine ⟨(congrArg View.exported hs :), (congrArg View.seqLen hs :),
    (congrArg View.serialBytes hs :), fun u hu => ?_⟩
  have htop : s.top = t := (congrArg View.top hs :)
  rw [hR]
  exact hlookup u (htop ▸ hu)

theorem PrefillEnded.allPublished {r : Outcome} {held : Bool}
    (hs : PrefillEnded R held r s) (hR : D.provided cfg p = R) : cfg.AllPublished D p s := by
  obtain ⟨ctx, cells, t, filed, hbare, rfl⟩ := hs
  exact allPublished_atSlice hbare hR fun _ _ => rfl

/-- The provider decodes a slice. -/
theorem decodeLoop_schedule
    {filed : List (Int × List UInt8)} {Y : Option (List KvCell)} (fuel cur remaining : Nat) :
    (cfg.scheduleWatch D p (.worker n)).Spec
      (fun s => ∃ cells, s.bare = atSlice true (some h) (some cells) t filed ∧
        D.decodeLoop cfg tokens fuel cur remaining cells = Y)
      (PrefillNode.decodeLoop cfg.engine h tokens fuel cur remaining)
      (fun _ s => ∃ cells, s.bare = atSlice true (some h) (some cells) t filed ∧ Y = some cells)
      fun e s => (∃ cells, s.bare = atSlice true (some h) (some cells) t filed) ∧
        e = .prefillDecodeFailed ∧ Y = none := by
  induction fuel generalizing cur remaining with
  | zero =>
    refine .ret fun s hs => ?_
    obtain ⟨cells, hbare, rfl⟩ := hs
    exact ⟨cells, hbare, rfl⟩
  | succ fuel ih =>
    unfold PrefillNode.decodeLoop
    refine .ite (fun hpos => ?_) fun hzero => .ret fun s hs => ?_
    · dsimp only
      simp only [Calls.decodeLoop, if_pos hpos]
      generalize min (toInt32 cfg.engine.llamaNBatch) (remaining : Int) = chunk
      refine .bind (scheduleRule_lenient.op' rfl) fun batch => ?_
      refine .bind (Q := fun r s => if r = true then
          ∃ cells, s.bare = atSlice true (some h) (some cells) t filed ∧
            D.decodeLoop cfg tokens fuel (cur + chunk.toNat) (remaining - chunk.toNat) cells = Y
        else (∃ cells, s.bare = atSlice true (some h) (some cells) t filed) ∧ Y = none)
        (.op fun s hs => ?_) fun r => .ite (fun hr => ?_) fun hr => ?_
      · obtain ⟨cells, hbare, hY⟩ := hs
        have hctx : s.ctx = some h := (congrArg View.ctx hbare :)
        have hcells : s.cells = some cells := (congrArg View.cells hbare :)
        refine ⟨⟨hctx, trivial⟩, fun r hr => ?_⟩
        -- the same chunk decodes to the same cells, in whatever batch
        have hr : r = D.decodes cells { fillBatch 0 ((tokens.drop cur).take chunk.toNat) cur false with
            nTokens := chunk } := hr.2 cells hcells
        rw [Calls.decodeBatch, ← hr] at hY
        cases r with
        | true =>
          have hnext := fun new : List KvCell =>
            congrArg (fun v : View => ({ v with cells := v.cells.map (· ++ new) } : View)) hbare
          exact ⟨_, hnext _, hY⟩
        | false => exact ⟨⟨cells, hbare⟩, hY.symm⟩
      · rw [hr]
        exact .bind (scheduleRule_lenient.op' rfl) fun _ => ih _ _
      · simp only [hr, Bool.false_eq_true, if_false]
        refine .bind (scheduleRule_lenient.op' rfl) fun _ => .throw fun s hs => ?_
        exact ⟨hs.1, rfl, hs.2⟩
    · -- nothing remains to be decoded
      obtain ⟨cells, hbare, hY⟩ := hs
      refine ⟨cells, hbare, ?_⟩
      rw [← hY]
      simp only [Calls.decodeLoop, if_neg hzero]

/-- The first critical section of the commit. -/
private theorem publishUnexported_schedule {C : View} (hheld : C.held = true) (htop : C.top = t) :
    (cfg.scheduleWatch D p (.worker p)).Spec (·.bare = C)
      (withLock .watermarkMutex (PipelineState.publishUnexported t))
      (fun b s => s.bare = C ∧ b = cfg.registeredState.snapshotMilestones.contains (t : Int))
      fun _ _ => False := by
  refine scheduleRule_lenient.withLock rfl rfl ?_
  unfold PipelineState.publishUnexported
  refine .bind load_schedule fun r => .assume fun hr => ?_
  rw [hr.milestones]
  refine .ite (fun hyes => .ret fun s hs => ⟨hs, hyes.symm⟩) fun hno => ?_
  -- a value that is no milestone is the new watermark
  refine .bind (Q := fun _ => (·.bare = C)) (.op fun s hs => ?_) fun _ => ?_
  · subst hs
    exact ⟨⟨trivial, rfl, hheld, htop.symm⟩, fun _ _ => rfl⟩
  refine .bind (Q := fun _ => (·.bare = C)) (.notifyAll fun s hs => ?_) fun _ => ?_
  · exact ⟨⟨trivial, trivial⟩, fun _ => hs⟩
  exact .ret fun s hs => ⟨hs, (Bool.eq_false_iff.mpr hno).symm⟩

/-- The provider under the guard, with what it has decoded in its context. -/
private abbrev Decoded (h : Nat) (cells : List KvCell) (t : Nat) (filed : List (Int × List UInt8))
    (s : View) : Prop :=
  s.bare = atSlice true (some h) (some cells) t filed

/-- Then the canonical buffer has an export of `nw` bytes. -/
private abbrev Written (h : Nat) (cells : List KvCell) (t : Nat) (filed : List (Int × List UInt8))
    (nw : Nat) (s : View) : Prop :=
  s.bare = { atSlice true (some h) (some cells) t filed with
    exported := some (seqState kSwarmkvPrefixSeqId cells, nw) }

section Export

variable {cells : List KvCell} {filed : List (Int × List UInt8)} {X : Error → View → Prop}

/-- The size that an export needs. -/
private theorem seqGetSize_schedule :
    (cfg.scheduleWatch D p (.worker p)).Spec (Decoded h cells t filed)
      (perform (.llamaStateSeqGetSize h kSwarmkvPrefixSeqId))
      (fun need s => Decoded h cells t filed s ∧
        need = cfg.engine.llamaStateSeqGetSize (seqState kSwarmkvPrefixSeqId cells)) X := by
  refine .op fun s hs => ?_
  have hctx : s.ctx = some h := (congrArg View.ctx hs :)
  have hcells : s.cells = some cells := (congrArg View.cells hs :)
  refine ⟨⟨hctx, trivial⟩, fun need hneed => ⟨hs, ?_⟩⟩
  exact hneed.1 cells hcells

/-- The size of the canonical buffer. -/
private theorem bufferSize_schedule (hcap : cfg.staging = some cap)
    (hstaging : cfg.stagingBuffer = some 0) :
    (cfg.scheduleWatch D p (.worker p)).Spec (Decoded h cells t filed) (perform (.bufferSize 0))
      (fun cap' s => Decoded h cells t filed s ∧ cap' = cap) X := by
  refine .op fun s hs => ⟨⟨trivial, trivial⟩, fun cap' hcap' => ⟨hs, ?_⟩⟩
  have hheld : s.held = true := (congrArg View.held hs :)
  have heq := hcap'.2 hheld hstaging
  exact (Option.some.inj (hcap.symm.trans heq)).symm

/-- The export itself, into a buffer that is large enough. -/
private theorem seqGetData_schedule (hstaging : cfg.stagingBuffer = some 0)
    (hfits : ¬ cap < cfg.engine.llamaStateSeqGetSize (seqState kSwarmkvPrefixSeqId cells)) :
    (cfg.scheduleWatch D p (.worker p)).Spec (Decoded h cells t filed)
      (perform (.llamaStateSeqGetData h 0 cap kSwarmkvPrefixSeqId))
      (fun nw s => Written h cells t filed nw s ∧
        nw = (D.getData (seqState kSwarmkvPrefixSeqId cells)).length) X := by
  refine .op fun s hs => ?_
  have hctx : s.ctx = some h := (congrArg View.ctx hs :)
  have hheld : s.held = true := (congrArg View.held hs :)
  have hcells : s.cells = some cells := (congrArg View.cells hs :)
  refine ⟨⟨⟨hctx, hheld, hstaging⟩, rfl, congrArg Option.isSome hcells⟩, fun nw hnw => ⟨?_, ?_⟩⟩
  · have hnext := congrArg (fun v : View => ({ v with
      exported := v.cells.map fun cells => (seqState kSwarmkvPrefixSeqId cells, nw) } : View)) hs
    exact hnext
  · exact hnw.2 cells hcells (Nat.not_lt.mp hfits)

/-- What is read back is what has been exported. -/
private theorem readBack_schedule (hstaging : cfg.stagingBuffer = some 0)
    (hD : ∀ q bytes, cfg.engine.exports q bytes = true → bytes = D.getData q) {nw : Nat}
    (hpos : 0 < nw) :
    (cfg.scheduleWatch D p (.worker p)).Spec (Written h cells t filed nw)
      (perform (.readBytes (.buffer 0) nw))
      (fun bytes s => (Written h cells t filed nw s ∧ s.last = some (.buffer 0, nw, bytes)) ∧
        bytes = D.getData (seqState kSwarmkvPrefixSeqId cells)) X := by
  refine .op fun s hs => ?_
  have hheld : s.held = true := (congrArg View.held hs :)
  have hexported : s.exported = some (seqState kSwarmkvPrefixSeqId cells, nw) :=
    (congrArg View.exported hs :)
  refine ⟨⟨hheld, trivial⟩, fun bytes hbytes => ⟨⟨hs, rfl⟩, ?_⟩⟩
  obtain ⟨hlen, hexports⟩ := hbytes.1 hstaging _ hexported
  have hne : bytes ≠ [] := by
    intro hnil
    rw [hnil] at hlen
    exact absurd hlen.symm (Nat.pos_iff_ne_zero.mp hpos)
  exact hD _ _ (hexports hne)

/-- The provider exports its sequence into the canonical buffer and reads it back. -/
private theorem exportPrefix_schedule (hcap : cfg.staging = some cap)
    (hD : ∀ q bytes, cfg.engine.exports q bytes = true → bytes = D.getData q) :
    (cfg.scheduleWatch D p (.worker p)).Spec (Decoded h cells t filed) (PipelineState.exportPrefix h)
      (fun e s => (Written h cells t filed e.1 s ∧
        (e.2 ≠ [] → s.last = some (.buffer 0, e.2.length, e.2))) ∧
        e.1 = e.2.length ∧ e.2 = D.getData (seqState kSwarmkvPrefixSeqId cells) ∧
        ¬ cap < cfg.engine.llamaStateSeqGetSize (seqState kSwarmkvPrefixSeqId cells))
      fun e s => Decoded h cells t filed s ∧ e = .commitBufferTooSmall ∧
        cap < cfg.engine.llamaStateSeqGetSize (seqState kSwarmkvPrefixSeqId cells) := by
  have hstaging : cfg.stagingBuffer = some 0 := by simp [stagingBuffer, hcap]
  unfold PipelineState.exportPrefix
  refine .bind load_schedule fun r => .assume fun hr => ?_
  rw [hr.staging, hstaging]
  -- both sizes are known
  refine .bind seqGetSize_schedule fun need => .assume fun hneed => ?_
  refine .bind (bufferSize_schedule hcap hstaging) fun cap' => .assume fun hcap' => ?_
  subst hneed hcap'
  refine .ite (fun hlt => ?_) fun hfits => ?_
  · exact .throw fun s hs => ⟨hs, rfl, hlt⟩
  refine .bind (seqGetData_schedule hstaging hfits) fun nw => .assume fun hnw => ?_
  refine .ite (fun hpos => ?_) fun hzero => ?_
  · refine .bind alloc_schedule fun _ => ?_
    refine .bind (readBack_schedule hstaging hD hpos) fun bytes => .assume fun hbytes => ?_
    refine .ret fun s hs => ?_
    rw [hnw, ← hbytes] at hs ⊢
    exact ⟨⟨hs.1, fun _ => hs.2⟩, rfl, rfl, hfits⟩
  · -- nothing has been written
    have hnil : D.getData (seqState kSwarmkvPrefixSeqId cells) = [] := by
      rw [← List.length_eq_zero_iff, ← hnw]
      exact Nat.eq_zero_of_not_pos hzero
    refine .ret fun s hs => ?_
    have hwritten : Written h cells t filed 0 s := by
      rw [hnw, hnil] at hs
      exact hs
    exact ⟨⟨hwritten, fun hne => absurd rfl hne⟩, rfl, hnil.symm, hfits⟩

end Export

/-- The provider under the guard, with `data` in hand, which it has yet to file. -/
private def Exported (C : View) (data : List UInt8) (s : View) : Prop :=
  s.bare = C ∧ (data ≠ [] → s.last = some (.buffer 0, data.length, data))

section Publish

variable {C : View} {data : List UInt8}

/-- The three scalar fields of the export are set. -/
private theorem setScalars_schedule (hheld : C.held = true) (htop : C.top = t) :
    (cfg.scheduleWatch D p (.worker p)).Spec (Exported C data)
      (do
        perform (.setWatermark t)
        perform (.setPrefixSeqLen t)
        perform (.setPrefixKvSerialBytes data.length) : Prog Unit)
      (fun _ => Exported { C with seqLen := t, serialBytes := data.length } data)
      fun _ _ => False := by
  refine .bind (Q := fun _ => Exported C data) ?_ fun _ =>
    .bind (Q := fun _ => Exported { C with seqLen := t } data) ?_ fun _ => ?_
  · refine .op fun s hs => ?_
    obtain ⟨rfl, hlast⟩ := hs
    exact ⟨⟨trivial, rfl, hheld, htop.symm⟩, fun _ _ => ⟨rfl, hlast⟩⟩
  · refine .op fun s hs => ?_
    obtain ⟨rfl, hlast⟩ := hs
    exact ⟨⟨hheld, rfl⟩, fun _ _ => ⟨rfl, hlast⟩⟩
  · refine .op fun s hs => ?_
    obtain ⟨hbare, hlast⟩ := hs
    have hheld' : s.held = true := (congrArg View.held hbare :).trans hheld
    have hnext := congrArg (fun v : View => ({ v with serialBytes := data.length } : View)) hbare
    exact ⟨⟨hheld', rfl⟩, fun _ _ => ⟨hnext, hlast⟩⟩

/-- The snapshot is filed. -/
private theorem putSnapshot_schedule (hheld : C.held = true) (hsettled : C.settled = false)
    (hstaging : cfg.stagingBuffer = some 0) :
    (cfg.scheduleWatch D p (.worker p)).Spec
      (Exported { C with seqLen := t, serialBytes := data.length } data)
      (perform (.putSnapshot t data) >>= fun _ => notifyAll .watermarkCv)
      (fun _ s => s.bare = { C with
        exported := none, seqLen := t, serialBytes := data.length, filed := (t, data) :: C.filed })
      fun _ _ => False := by
  refine .bind (Q := fun _ s => s.bare = { C with
    exported := none, seqLen := t, serialBytes := data.length, filed := (t, data) :: C.filed }) ?_
    fun _ => ?_
  · refine .op fun s hs => ?_
    obtain ⟨hbare, hlast⟩ := hs
    have hheld' : s.held = true := (congrArg View.held hbare :).trans hheld
    have hsettled' : s.settled = false := (congrArg View.settled hbare :).trans hsettled
    have hnext := congrArg (fun v : View => ({ v with
      exported := none, filed := ((t : Int), data) :: v.filed } : View)) hbare
    refine ⟨⟨hheld', rfl, hsettled', fun hne b hb => ?_⟩, fun _ _ => hnext⟩
    obtain rfl := Option.some.inj (hstaging.symm.trans hb)
    exact hlast hne
  · exact .notifyAll fun s hs => ⟨⟨trivial, trivial⟩, fun _ => hs⟩

/-- The last critical section of the commit. -/
private theorem publishExported_schedule (hheld : C.held = true)
    (htop : C.top = t) (hsettled : C.settled = false) (hcap : cfg.staging = some cap) :
    (cfg.scheduleWatch D p (.worker p)).Spec (Exported C data)
      (withLock .watermarkMutex (PipelineState.publishExported t data.length data))
      (fun _ s => s.bare = { C with
        exported := none, seqLen := t, serialBytes := data.length, filed := (t, data) :: C.filed })
      fun _ _ => False := by
  have hstaging : cfg.stagingBuffer = some 0 := by simp [stagingBuffer, hcap]
  refine scheduleRule_lenient.withLock rfl rfl ?_
  show (cfg.scheduleWatch D p (.worker p)).Spec (Exported C data) ((do
    perform (.setWatermark t)
    perform (.setPrefixSeqLen t)
    perform (.setPrefixKvSerialBytes data.length) : Prog Unit) >>= fun _ => _) _ _
  refine .bind (setScalars_schedule hheld htop) fun _ => ?_
  refine .bind (Q := fun _ => Exported { C with seqLen := t, serialBytes := data.length } data)
    (.op fun s hs => ?_) fun r => ?_
  · -- a look at the blackboard
    refine ⟨⟨trivial, trivial⟩, fun r _ => ?_⟩
    show Exported _ data (if s.held then { s with found := some r } else s)
    split
    · exact hs
    · exact hs
  dsimp only
  have hput := @putSnapshot_schedule cfg D p t C data hheld hsettled hstaging
  have hend : (cfg.scheduleWatch D p (.worker p)).Spec
      (Exported { C with seqLen := t, serialBytes := data.length } data)
      (if data.length > 0 then perform (.putSnapshot t data) >>= fun _ => notifyAll .watermarkCv
        else perform (.putSnapshot t []) >>= fun _ => notifyAll .watermarkCv)
      (fun _ s => s.bare = { C with
        exported := none, seqLen := t, serialBytes := data.length, filed := (t, data) :: C.filed })
      fun _ _ => False := by
    refine .ite (fun _ => hput) fun hzero => ?_
    obtain rfl : data = [] := List.length_eq_zero_iff.mp (Nat.eq_zero_of_not_pos hzero)
    exact hput
  refine .ite (fun _ => ?_) fun _ => hend
  exact .bind alloc_schedule fun _ => hend

end Publish

/-- The commit of a position that has been decoded. -/
theorem commitWatermark_schedule (hcap : cfg.staging = some cap)
    (hD : ∀ q bytes, cfg.engine.exports q bytes = true → bytes = D.getData q) {t₀ : Nat}
    (ht : t₀ < t) {cells : List KvCell} {filed : List (Int × List UInt8)}
    (hahead : cfg.CommitAhead D cap tokens R t cells filed) :
    (cfg.scheduleWatch D p (.worker p)).Spec (·.bare = atSlice true (some h) (some cells) t₀ filed)
      (PipelineState.commitWatermark (some h) t)
      (fun _ s => if cfg.registeredState.snapshotMilestones.contains (t : Int) then
          ∃ filed, s.bare = atSlice true (some h) (some cells) t filed ∧
            cfg.ResumeAhead D cap tokens R t filed
        else s.bare = atSlice true (some h) (some cells) t filed ∧
          cfg.Ahead D cap tokens R t cells filed)
      fun e => PrefillEnded R true (.error e) := by
  obtain ⟨fuel, hfuel, hR⟩ := hahead
  unfold PipelineState.commitWatermark
  -- the commit is noted
  refine .bind (Q := fun _ => (·.bare = atSlice true (some h) (some cells) t filed))
    (.op fun s hs => ?_) fun _ => .ite (fun hneg => absurd hneg (by omega)) fun _ => ?_
  · have hheld : s.held = true := (congrArg View.held hs :)
    have htop : s.top = t₀ := (congrArg View.top hs :)
    have hnext := congrArg (fun v : View => ({ v with top := t } : View)) hs
    refine ⟨⟨trivial, rfl, hheld, ?_⟩, fun _ _ => hnext⟩
    rw [htop]
    exact Int.ofNat_lt.mpr ht
  refine .bind (.noThrow (publishUnexported_schedule rfl rfl)) fun b => .assume fun hb => ?_
  unfold Calls.commitThen at hR
  refine .ite (fun hyes => ?_) fun hno => .ret fun s hs => ?_
  · -- a milestone is exported and filed, unless its export does not fit
    rw [hyes] at hb
    simp only [← hb, if_true] at hR ⊢
    refine .bind (.err (exportPrefix_schedule hcap hD) fun e s hs => ?_) fun e => .assume fun he => ?_
    · obtain ⟨hbare, rfl, hlt⟩ := hs
      rw [if_pos hlt] at hR
      exact ⟨_, _, _, _, hbare, hR.symm⟩
    obtain ⟨nw, data⟩ := e
    obtain ⟨hnw, hdata, hfits⟩ := he
    dsimp only at hnw hdata
    subst hnw
    rw [if_neg hfits, ← hdata] at hR
    refine .noThrow (.post (publishExported_schedule
      (C := { atSlice true (some h) (some cells) t filed with
        exported := some (seqState kSwarmkvPrefixSeqId cells, data.length) }) rfl rfl rfl hcap)
      fun _ s hs => ?_)
    exact ⟨_, hs, fuel, data, filed, hfuel, rfl, hR⟩
  · have hfalse := Bool.eq_false_iff.mpr hno
    rw [hfalse] at hb
    simp only [← hb, Bool.false_eq_true, if_false] at hR ⊢
    exact ⟨hs, fuel, hfuel, hR⟩

end Pipeline

end SwarmKV
