import SwarmKV.Spec.Footprint

/-!
# Rules for the prefiller

How an observer goes through the code of a prefiller: its chunks, its slices with their pauses, and
`execute()` around them.
-/

namespace SwarmKV

open Monitor

variable {E : Engine}

@[simp] theorem length_fillBatch (id : Nat) (tokens : List LlamaToken) (start : Int)
    (lastLogits : Bool) : (fillBatch id tokens start lastLogits).slots.length = tokens.length := by
  simp [fillBatch]

/-! ## Footprints -/

namespace PrefillNode

/-- The chunks of a slice that lies within the document. -/
theorem decodeLoop_uses {tokens : List LlamaToken} (h : Nat) (fuel cur remaining : Nat)
    (hle : cur + remaining ≤ tokens.length) :
    (decodeLoop E h tokens fuel cur remaining).Uses (DecodeAction E (E.llamaNBatch < 2 ^ 31)) := by
  induction fuel generalizing cur remaining with
  | zero => exact .ret ()
  | succ fuel ih =>
    unfold decodeLoop
    split
    · rename_i hpos
      refine .bind (.perform .llamaBatchInit) fun id => ?_
      refine .bind (.perform (.llamaDecode h _ ?_)) fun ok => .ite ?_ ?_
      · show 1 ≤ min (toInt32 E.llamaNBatch) (remaining : Int) ∧
          min (toInt32 E.llamaNBatch) (remaining : Int) ≤ E.llamaNBatch ↔ E.llamaNBatch < 2 ^ 31
        rw [← chunk_pos_iff E.llamaNBatch_pos E.llamaNBatch_lt hpos]
        refine ⟨fun hle => by omega, fun hchunk => ⟨by omega, ?_⟩⟩
        rw [chunk_eq ((chunk_pos_iff E.llamaNBatch_pos E.llamaNBatch_lt hpos).mp hchunk)]
        omega
      · exact .bind (.perform (.llamaBatchFree id)) fun _ => ih _ _ (by omega)
      · exact .bind (.perform (.llamaBatchFree id)) fun _ => .throw _
    · exact .ret ()

theorem restorePrefixSnapshot_uses (h : Nat) (t : Int) :
    (restorePrefixSnapshot h t).Uses RestoreAction := by
  unfold restorePrefixSnapshot
  refine .bind ((PipelineState.tryGetPrefixSnapshot_uses t).mono fun _ => .lookup) fun r => ?_
  split
  · exact .throw _
  · split
    · exact .ret ()
    · exact .bind (.perform (.llamaStateSeqSetData _ _ _ _)) fun nr => .ite (.throw _) (.ret ())

theorem pauseAtMilestone_uses (h : Nat) (t : Int) :
    (pauseAtMilestone h t).Uses PauseAction := by
  unfold pauseAtMilestone
  refine .bind (.withLock .lock .unlock (.perform (.llamaFree h))) fun _ => .bind ?_ fun _ => ?_
  · exact .ite (.ret ()) (.withLock (.restore (.lookup .lock)) (.restore (.lookup .unlock))
      (.await (.wait t)))
  · refine .withLock .lock .unlock (.bind (.perform .llamaInitFromModel) fun r => ?_)
    split
    · exact .throw _
    · refine .bind (.perform (.restore (.lookup .load))) fun s => ?_
      refine .bind (KVHandoff.bindContiguousCache_uses _ _) fun _ => ?_
      exact .bind ((restorePrefixSnapshot_uses _ t).mono fun _ => .restore) fun _ => .ret _

theorem prefillSlice_uses {tokens : List LlamaToken} (h prefilled chunk : Nat)
    (hle : prefilled + chunk ≤ tokens.length) :
    (prefillSlice E h tokens prefilled chunk).Uses (PrefillAction E) := by
  refine .withLock .lock .unlock (.bind ?_ fun _ => ?_)
  · exact (decodeLoop_uses h chunk prefilled chunk hle).mono fun _ => .decode
  · exact (PipelineState.commitWatermark_uses _ _).mono fun _ => .commit

theorem prefillLoop_uses {tokens : List LlamaToken} {total : Nat} (ht : total ≤ tokens.length)
    (fuel h prefilled : Nat) :
    (prefillLoop E tokens total fuel h prefilled).Uses (PrefillAction E) := by
  induction fuel generalizing h prefilled with
  | zero => exact .ret _
  | succ fuel ih =>
    unfold prefillLoop
    split
    · have hle : min kSwarmkvPrefillChunkTokens (total - prefilled) ≤ total - prefilled :=
        Nat.min_le_right _ _
      refine .bind (prefillSlice_uses h prefilled _ (by omega)) fun _ => ?_
      refine .bind ((PipelineState.isSnapshotMilestone_uses _).mono fun _ ha =>
        .restore (.lookup ha)) fun m => .ite ?_ (ih _ _)
      exact .bind ((pauseAtMilestone_uses _ _).mono fun _ ha => ha.prefill) fun h' => ih _ _
    · exact .ret _

theorem tokenizeText_spec {σ : Type} {A : Observer sig σ} {I : σ → Prop} {text : String}
    (h : A.Keeps I (.op .allocate)) :
    A.Spec I (tokenizeText E text) (fun tokens s => I s ∧ tokensOf E text = some tokens)
      fun _ => I :=
  tokenizeWith_spec h

theorem execute_uses (node : PrefillNode) (ctx : OrchestratorContext) :
    (node.execute ctx).Uses (PrefillAction ctx.engine) := by
  unfold execute
  refine .bind (.perform (.host .steadyClock)) fun t0 => ?_
  refine .bind (.perform .llamaInitFromModel) fun r => ?_
  split
  · exact .throw _
  · rename_i h
    refine .bind (.perform (.restore (.lookup .load))) fun s => ?_
    refine .bind (KVHandoff.bindContiguousCache_uses _ _) fun _ => ?_
    have hkeeps : (Observer.allows (PrefillAction ctx.engine)).Keeps (fun _ => True)
        (.op .allocate) := fun _ _ => ⟨.host .allocate, fun _ _ => trivial⟩
    refine Prog.uses_iff_spec.mpr (.bind loadDocumentText_spec fun text => .assume fun _ =>
      .bind (tokenizeText_spec hkeeps) fun tokens => ?_)
    generalize hcount : toInt32 tokens.length = count
    generalize toInt32 ctx.nCtx = limit
    refine .fix fun s hs => ?_
    -- the token count survives its cast
    have htotal : count.toNat ≤ tokens.length := by
      rw [← hcount, toInt32_of_lt (tokensOf_length hs.2), Int.toNat_natCast]
    refine .conseq (Prog.uses_iff_spec.mp ?_) (fun _ _ => trivial) (fun _ _ _ => trivial)
      fun _ _ _ => trivial
    refine .ite (.bind (.perform (.llamaFree h)) fun _ => .throw _) ?_
    refine .bind (prefillLoop_uses htotal _ _ _) fun h' => ?_
    refine .bind (.perform (.note h')) fun _ => ?_
    refine .bind (.withLock (.commit .lock) (.commit .unlock) (.bind (.perform .setPrefillComplete)
      fun _ => .notifyAll (.commit .notify))) fun _ => ?_
    exact .bind (.perform (.llamaFree h')) fun _ =>
      (PipelineState.recordTiming_uses _ _).mono fun _ => .host

/-! ## The loops of the prefiller -/

section Loops

variable {σ : Type} {A : Observer sig σ} {tokens : List LlamaToken}

/-- The chunks of a slice: `I` between two batches, `B` with a batch, `F` with one that could not
    be decoded. -/
theorem decodeLoop_spec_batch {I : Nat → σ → Prop} {B : Nat → Nat → σ → Prop} {F : Nat → σ → Prop}
    {X : σ → Prop} {h stop : Nat} (hlen : stop ≤ tokens.length)
    (hans : ∀ s batch r, A.ans s (.op (.llamaDecode h batch)) r →
      Answered (.op (.llamaDecode h batch)) r)
    (hinit : ∀ cur s, I cur s → A.ok s (.op .llamaBatchInit) ∧
      ∀ id, A.ans s (.op .llamaBatchInit) id → B id cur (A.next s (.op .llamaBatchInit) id))
    (hfree : ∀ id cur s, B id cur s → A.ok s (.op (.llamaBatchFree id)) ∧
      ∀ r, A.ans s (.op (.llamaBatchFree id)) r → I cur (A.next s (.op (.llamaBatchFree id)) r))
    (hfail : ∀ id s, F id s → A.ok s (.op (.llamaBatchFree id)) ∧
      ∀ r, A.ans s (.op (.llamaBatchFree id)) r → X (A.next s (.op (.llamaBatchFree id)) r))
    (hdecode : ∀ cur k id s, 0 < k → cur + k ≤ stop → B id cur s →
      A.ok s (.op (.llamaDecode h (fillBatch id ((tokens.drop cur).take k) cur false))) ∧
      ∀ r, A.ans s (.op (.llamaDecode h (fillBatch id ((tokens.drop cur).take k) cur false))) r →
        (r = true → B id (cur + k) (A.next s
          (.op (.llamaDecode h (fillBatch id ((tokens.drop cur).take k) cur false))) r)) ∧
        (r = false → F id (A.next s
          (.op (.llamaDecode h (fillBatch id ((tokens.drop cur).take k) cur false))) r)))
    (hrefuse : 2 ^ 31 ≤ E.llamaNBatch → ∀ n cur id s, n < 0 → cur < stop → B id cur s →
      A.ok s (.op (.llamaDecode h ⟨id, n, []⟩)) ∧
      (A.ans s (.op (.llamaDecode h ⟨id, n, []⟩)) false →
        F id (A.next s (.op (.llamaDecode h ⟨id, n, []⟩)) false)))
    (fuel cur remaining : Nat) (hstop : cur + remaining = stop) (hfuel : remaining ≤ fuel) :
    A.Spec (I cur) (decodeLoop E h tokens fuel cur remaining) (fun _ => I stop) fun _ => X := by
  induction fuel generalizing cur remaining with
  | zero =>
    obtain rfl : cur = stop := by omega
    exact .ret fun _ => id
  | succ fuel ih =>
    by_cases hpos : 0 < remaining
    · -- behind a batch that has failed
      have hthrow : ∀ id, A.Spec (F id) (do
          perform (.llamaBatchFree id)
          throw .prefillDecodeFailed : Prog Unit) (fun _ => I stop) fun _ => X := fun id =>
        .bind (Q := fun _ => X) (.op fun s hs => hfail id s hs) fun _ => .throw fun _ hs => hs
      have hwithin : cur + remaining ≤ tokens.length := by omega
      obtain ⟨-, k, hk, hle, -, heq⟩ | ⟨hlarge, n, hn, heq⟩ :=
        decodeLoop_succ (E := E) tokens h fuel hpos hwithin
      · rw [heq]
        refine .bind (Q := fun id => B id cur) (.op fun s hs => hinit cur s hs) fun id => ?_
        refine .bind (Q := fun r s => (r = true → B id (cur + k) s) ∧ (r = false → F id s))
          (.op fun s hs => hdecode cur k id s hk (by omega) hs) fun r => .ite (fun hr => ?_) fun hr => ?_
        · exact .bind (Q := fun _ => I (cur + k)) (.op fun s hs => hfree id _ s (hs.1 hr)) fun _ =>
            ih (cur + k) (remaining - k) (by omega) (by omega)
        · exact .pre (hthrow id) fun s hs => hs.2 (Bool.eq_false_iff.mpr hr)
      · rw [heq]
        refine .bind (Q := fun id => B id cur) (.op fun s hs => hinit cur s hs) fun id => ?_
        refine .bind (Q := fun r s => r = false ∧ F id s) (.op fun s hs => ?_) fun r =>
          .ite (fun hr s hs => absurd (hs.1.symm.trans hr) Bool.false_ne_true) fun _ =>
            .pre (hthrow id) fun s hs => hs.2
        obtain ⟨hok, hnext⟩ := hrefuse hlarge n cur id s hn (by omega) hs
        refine ⟨hok, fun r hr => ?_⟩
        -- a batch without tokens is not decoded
        cases r with
        | false => exact ⟨rfl, hnext hr⟩
        | true => exact absurd (hans s _ _ hr rfl) (not_lt.mpr hn.le)
    · obtain rfl : remaining = 0 := by omega
      obtain rfl : cur = stop := by omega
      exact .ret fun _ => id

/-- The chunks of a slice, with an invariant of the position. -/
theorem decodeLoop_spec {I : Nat → σ → Prop} {X : σ → Prop} {h stop : Nat}
    (hlen : stop ≤ tokens.length)
    (hans : ∀ s batch r, A.ans s (.op (.llamaDecode h batch)) r →
      Answered (.op (.llamaDecode h batch)) r)
    (hinit : ∀ cur, A.Keeps (I cur) (.op .llamaBatchInit))
    (hfree : ∀ cur id, A.Keeps (I cur) (.op (.llamaBatchFree id)))
    (hfail : ∀ id, A.Keeps X (.op (.llamaBatchFree id)))
    (hdecode : ∀ cur k id s, 0 < k → cur + k ≤ stop → I cur s →
      A.ok s (.op (.llamaDecode h (fillBatch id ((tokens.drop cur).take k) cur false))) ∧
      ∀ r, A.ans s (.op (.llamaDecode h (fillBatch id ((tokens.drop cur).take k) cur false))) r →
        (r = true → I (cur + k) (A.next s
          (.op (.llamaDecode h (fillBatch id ((tokens.drop cur).take k) cur false))) r)) ∧
        (r = false → X (A.next s
          (.op (.llamaDecode h (fillBatch id ((tokens.drop cur).take k) cur false))) r)))
    (hrefuse : 2 ^ 31 ≤ E.llamaNBatch → ∀ n cur id s, n < 0 → cur < stop → I cur s →
      A.ok s (.op (.llamaDecode h ⟨id, n, []⟩)) ∧
      (A.ans s (.op (.llamaDecode h ⟨id, n, []⟩)) false →
        X (A.next s (.op (.llamaDecode h ⟨id, n, []⟩)) false)))
    (fuel cur remaining : Nat) (hstop : cur + remaining = stop) (hfuel : remaining ≤ fuel) :
    A.Spec (I cur) (decodeLoop E h tokens fuel cur remaining) (fun _ => I stop) fun _ => X :=
  decodeLoop_spec_batch (B := fun _ => I) (F := fun _ => X) hlen hans hinit
    (fun id cur => hfree cur id) hfail hdecode hrefuse fuel cur remaining hstop hfuel

/-- The V2 loop, with an invariant of the context and the position between two slices. -/
theorem prefillLoop_spec {J K L : Nat → Nat → σ → Prop} {X : Error → σ → Prop} {N : Nat}
    (hslice : ∀ h p, 128 ∣ p → p < N → A.Spec (J h p)
      (prefillSlice E h tokens p (min 128 (N - p))) (fun _ => K h (p + min 128 (N - p))) X)
    (hmilestone : ∀ h t : Nat, CommitValue N t → A.Spec (K h t)
      (PipelineState.isSnapshotMilestone t) (fun b => if b = true then L h t else J h t) X)
    (hpause : ∀ h t : Nat, CommitValue N t → A.Spec (L h t) (pauseAtMilestone h t)
      (fun h' => J h' t) X)
    (fuel h p : Nat) (hp : p ≤ N) (hdvd : p < N → 128 ∣ p) (hfuel : N - p ≤ fuel) :
    A.Spec (J h p) (prefillLoop E tokens N fuel h p) (fun h' => J h' N) X := by
  induction fuel generalizing h p with
  | zero =>
    obtain rfl : p = N := by omega
    exact .ret fun _ => id
  | succ fuel ih =>
    unfold prefillLoop
    refine .ite (fun hlt => ?_) fun hge => ?_
    · have hvalue := commitValue_slice (hdvd hlt) hlt
      refine .bind (hslice h p (hdvd hlt) hlt) fun _ => ?_
      show A.Spec (K h (p + min 128 (N - p))) (PipelineState.isSnapshotMilestone
        (p + min 128 (N - p) : Nat) >>= fun b => if b = true then
          pauseAtMilestone h (p + min 128 (N - p) : Nat) >>= fun h' =>
            prefillLoop E tokens N fuel h' (p + min 128 (N - p))
          else prefillLoop E tokens N fuel h (p + min 128 (N - p))) (fun h' => J h' N) X
      have hnext : p + min 128 (N - p) < N → 128 ∣ p + min 128 (N - p) := by
        have := hdvd hlt
        omega
      have hle : p + min 128 (N - p) ≤ N := by omega
      have hlast : N - (p + min 128 (N - p)) ≤ fuel := by omega
      generalize p + min 128 (N - p) = t at hvalue hnext hle hlast
      refine .bind (hmilestone h t hvalue) fun b => .ite (fun hb => ?_) fun hb => ?_
      · rw [if_pos hb]
        exact .bind (hpause h t hvalue) fun h' => ih h' t hle hnext hlast
      · rw [if_neg hb]
        exact ih h t hle hnext hlast
    · obtain rfl : p = N := by omega
      exact .ret fun _ => id

/-- `execute()` around its loop, which gets the whole document. -/
theorem execute_spec {P Q : σ → Prop} {X : Error → σ → Prop} {node : PrefillNode}
    {ctx : OrchestratorContext} (hbefore : ∀ a, OuterAction a → A.Keeps P a)
    (hafter : ∀ a, OuterAction a → A.Keeps Q a) (hP : ∀ e s, P s → X e s) (hQ : ∀ e s, Q s → X e s)
    (hloop : ∀ tokens h,
      documentTokens ctx.engine node.sourceDocumentPath = some tokens →
      A.Spec P (prefillLoop ctx.engine tokens tokens.length tokens.length h 0) (fun _ => Q) X) :
    A.Spec P (node.execute ctx) (fun _ => Q) X := by
  have hpre : ∀ {α : Type} {q : Prog α}, q.Uses OuterAction → A.Spec P q (fun _ => P) X :=
    fun hq => .err (.of_uses hq hbefore) hP
  unfold execute
  refine .bind (hpre (.perform (.host .steadyClock))) fun t₀ =>
    .bind (hpre (.perform .llamaInitFromModel)) fun r => ?_
  cases r with
  | none => exact .throw fun s hs => hP _ s hs
  | some h =>
    refine .bind (hpre (.perform (.lookup .load))) fun s => ?_
    refine .bind (hpre (KVHandoff.bindContiguousCache_uses _ _)) fun _ => ?_
    refine .bind (.err (loadDocumentText_spec (I := P)) hP)
      fun text => .assume fun htext => ?_
    refine .bind (.err (tokenizeText_spec (hbefore _ (.host .allocate))) hP) fun tokens => ?_
    generalize hcount : toInt32 tokens.length = count
    generalize toInt32 ctx.nCtx = limit
    refine .assume fun htokens => ?_
    -- the token count survives its cast
    have htotal : count.toNat = tokens.length := by
      rw [← hcount, toInt32_of_lt (tokensOf_length htokens), Int.toNat_natCast]
    refine .ite (fun _ => .bind (hpre (.perform (.llamaFree h))) fun _ =>
      .throw fun s hs => hP _ s hs) fun _ => ?_
    rw [htotal]
    have hdocument : documentTokens ctx.engine node.sourceDocumentPath = some tokens := by
      rw [documentTokens, htext, Option.bind_some, htokens]
    refine .bind (hloop tokens h hdocument) fun h' => .err (.of_uses (U := OuterAction) ?_ hafter) hQ
    refine .bind (.perform (.note h')) fun _ => .bind ?_ fun _ =>
      .bind (.perform (.llamaFree h')) fun _ => (PipelineState.recordTiming_uses _ _).mono
        fun _ => .host
    exact .withLock (.lookup .lock) (.lookup .unlock)
      (.bind (.perform .setPrefillComplete) fun _ => .notifyAll .notify)

end Loops

end PrefillNode

end SwarmKV
