import SwarmKV.Spec.ProvenanceBranch
import SwarmKV.Spec.ViewCorrect
import SwarmKV.Spec.FailureCorrect
import SwarmKV.Spec.SnapshotCorrect

/-!
# Fork provenance

Snapshots are filed under their watermark alone, in a map that outlives the call of
`execute_pipeline` and that all providers share. What a branch restores at `W` is the export of
its own provider from this call if no snapshot was there at the start of the call, and no other
provider commits `W`, or a milestone below `W` that is one of the provider's own.
-/

namespace SwarmKV

open Monitor

namespace Pipeline

/-! ## Sequences of calls -/

/-- The caller's work between two calls: the pool gets a new canonical buffer, and
    `execute_pipeline` starts over with the registration loop, new promises and new futures. The
    logs are those of one call. -/
def nextWorld (cfg : Pipeline) (size : Nat) (w : World) : World where
  state :=
    let s := { w.state with materializedBranchBuffer := some w.nextBuffer }
    match Orchestrator.registerBranches cfg.orchestrator.nodes s with
    | .ok s => s
    | .error _ => s
  contexts := w.contexts
  nextContext := w.nextContext
  batches := w.batches
  nextBatch := w.nextBatch
  buffers := Function.update w.buffers w.nextBuffer (some { size := size })
  nextBuffer := w.nextBuffer + 1
  activeBuffers := w.activeBuffers ++ [w.nextBuffer]

/-- `w` is shared memory at the start of a call, in a sequence of calls with one orchestrator and
    one `PipelineState`. -/
inductive Session (cfg : Pipeline) : World → Prop
  | first : cfg.Session cfg.initialWorld
  | next {w : World} {c : Config cfg.engine} (size : Nat) (h : cfg.Session w)
    (hc : (cfg.startAt w).Reaches c) (hret : Returned c) : cfg.Session (cfg.nextWorld size c.data)

variable {cfg : Pipeline} {p n : String} {W : Int} {w w' : World} {c : Config cfg.engine}
  {tr : Trace (machine cfg.engine)}

/-- The milestones on the blackboard are those of the pipeline. -/
def MilestonesOk (cfg : Pipeline) (w : World) : Prop :=
  ∀ t, t ∈ w.state.snapshotMilestones ↔ cfg.IsMilestone t

/-- What no action breaks holds at the end if it holds at the start. -/
private theorem data_invariant {P : World → Prop} {c₀ : Config cfg.engine}
    (hexec : ∀ i (o : Op) x r w w', exec cfg.engine i o x w = some (r, w') → P w → P w')
    (h : c₀.Reaches c) (h₀ : P c₀.data) : P c.data := by
  refine h.invariant (P := fun c => P c.data) (fun c₁ c₂ h₁ hs => ?_) h₀
  obtain heq | ⟨i, o, x, r, -, hx⟩ := hs.data
  · rw [heq]
    exact h₁
  · exact hexec i o x r _ _ hx h₁

/-- Each call starts with fresh handles, a new canonical buffer, and the milestones registered. -/
theorem Session.start (h : cfg.Session w) :
    cfg.Start w.state.materializedBranchBuffer w ∧ cfg.MilestonesOk w := by
  induction h with
  | first =>
    have hinv := cfg.initial_inv
    refine ⟨⟨⟨⟨hinv.freshContext, hinv.freshBuffer⟩, rfl, ?_, ?_, fun i q bytes hmem => ?_⟩,
      fun _ => rfl, fun _ => rfl⟩, hinv.milestones⟩
    · rw [hinv.staging]
      exact hinv.stagingOld
    · rw [hinv.staging]
      exact hinv.stagingLive
    · cases hmem
  | @next w c size h hc hret ih =>
    obtain ⟨hstart, hmilestones⟩ := ih
    have hfresh := data_invariant (P := FreshHandles) (fun _ _ _ _ _ _ hx hw => hw.exec hx) hc
      hstart.sound.fresh
    have hold := data_invariant (P := cfg.MilestonesOk) (fun _ _ _ _ _ _ hx hw t => by
      rw [exec_snapshotMilestones hx]
      exact hw t) hc hmilestones
    -- the second call registers its branches on what is left
    obtain ⟨s', hs', hreg⟩ := Orchestrator.registerBranches_registered cfg.orchestrator.nodes
      { c.data.state with materializedBranchBuffer := some c.data.nextBuffer }
    have hstate : (cfg.nextWorld size c.data).state = s' := by
      simp only [nextWorld, hs']
    have hbuffer : s'.materializedBranchBuffer = some c.data.nextBuffer := by rw [hreg.rest]
    refine ⟨⟨⟨⟨hfresh.context, fun b hb => ?_⟩, rfl, ?_, .inr ?_, fun i q bytes hmem => ?_⟩,
      fun _ => rfl, fun _ => rfl⟩, fun t => ?_⟩
    · -- the new canonical buffer is a fresh one
      have hb : c.data.nextBuffer + 1 ≤ b := hb
      show Function.update c.data.buffers c.data.nextBuffer _ b = none
      rw [Function.update_of_ne (by omega)]
      exact hfresh.buffer b (by omega)
    · rw [hstate, hbuffer]
      intro b hb
      obtain rfl := Option.some.inj hb
      exact Nat.lt_succ_self _
    · rw [hstate, hbuffer]
      intro b hb
      obtain rfl := Option.some.inj hb
      show (Function.update c.data.buffers c.data.nextBuffer _ c.data.nextBuffer).isSome
      simp
    · cases hmem
    · rw [hstate, hreg.milestones]
      have hiff : t ∈ c.data.state.snapshotMilestones ↔ cfg.IsMilestone t := hold t
      -- registering a milestone once more changes nothing
      constructor
      · intro ht
        obtain ht | ⟨hpos, q, hq, hreq⟩ := ht
        · exact hiff.mp ht
        · refine .inr ⟨hpos, List.ne_nil_of_mem (List.mem_map_of_mem (List.mem_filter.mpr
            ⟨hq, by simpa using hreq⟩))⟩
      · exact fun hm => .inl (hiff.mpr hm)

/-! ## What a provider has filed -/

/-- `t` is neither `W` nor, below `W`, a position that `p` commits. -/
def Apart (cfg : Pipeline) (p : String) (W t : Int) : Prop :=
  t ≠ W ∧ ¬ (t < W ∧ CommitValue (cfg.doc p).length t)

/-- The milestones that other threads have committed are apart from those of `p` up to `W`. -/
def OthersApart (cfg : Pipeline) (p : String) (W : Int) (tr : Trace (machine cfg.engine)) : Prop :=
  ∀ e ∈ tr, ∀ q, q ≠ p → e.thread = .worker q → ∀ ctx t,
    e.action = .op (.note (.commitWatermark ctx t)) → cfg.IsMilestone t → cfg.Apart p W t

/-- What `p` has filed is there, and is what `p` has exported in this call. -/
structure FiledHere (cfg : Pipeline) (p : String) (w : World) (x : Int × List UInt8) : Prop where
  stored : (w.state.prefixSnapshots x.1).map (·.data) = some x.2
  ne_nil : x.2 ≠ []
  value : CommitValue (cfg.doc p).length x.1
  exported : .exported (docSeq (cfg.doc p) x.1.toNat) x.2 ∈ w.log (.worker p)

/-- What worker `n` has committed last. -/
def TopOk (cfg : Pipeline) (p : String) (W : Int) (n : String) (top : Int) : Prop :=
  top = 0 ∨ CommitValue (cfg.doc n).length top ∧ (n ≠ p → cfg.IsMilestone top → cfg.Apart p W top)

/-- The snapshots up to `W`, and the views of their providers. -/
structure Filing (cfg : Pipeline) (p : String) (W : Int) (s : Thread → View) (w : World) :
    Prop where
  milestones : cfg.MilestonesOk w
  top : ∀ n, cfg.TopOk p W n (s (.worker n)).top
  filed : ∀ x ∈ (s (.worker p)).filed, x.1 ≤ W → cfg.FiledHere p w x
  own : ∀ snap, w.state.prefixSnapshots W = some snap → (W, snap.data) ∈ (s (.worker p)).filed

variable {s s' : Thread → View} {staging : Option Nat} {i : Thread}

theorem Filing.start (hmilestones : cfg.MilestonesOk w)
    (hfirst : w.state.prefixSnapshots W = none) : cfg.Filing p W (fun _ => {}) w where
  milestones := hmilestones
  top _ := .inl rfl
  filed x hx := by cases hx
  own snap hsnap := by
    rw [hfirst] at hsnap
    cases hsnap

/-- Snapshots stay as they are. -/
private theorem Filing.keep (h : cfg.Filing p W s w)
    (hsnaps : w'.state.prefixSnapshots = w.state.prefixSnapshots)
    (hmilestones : w'.state.snapshotMilestones = w.state.snapshotMilestones)
    (hlog : w.log (.worker p) <+: w'.log (.worker p))
    (hfiled : (s' (.worker p)).filed = (s (.worker p)).filed)
    (htop : ∀ n, cfg.TopOk p W n (s' (.worker n)).top) : cfg.Filing p W s' w' where
  milestones t := by
    rw [hmilestones]
    exact h.milestones t
  top := htop
  filed x hx hle := by
    rw [hfiled] at hx
    obtain ⟨hstored, hne, hvalue, hexported⟩ := h.filed x hx hle
    exact ⟨by rwa [hsnaps], hne, hvalue, hlog.subset hexported⟩
  own snap hsnap := by
    rw [hsnaps] at hsnap
    rw [hfiled]
    exact h.own snap hsnap

/-- A provider files a snapshot. The provider `p` has not filed it before, and another provider
    leaves the snapshots of `p` alone. -/
private theorem Filing.put (h : cfg.Filing p W s w) {t : Int} {data : List UInt8}
    (hok : cfg.provenanceRule staging p W i (s i) (.op (.putSnapshot t data)))
    (hright : Right staging i (s i) w)
    (hsnaps : w'.state.prefixSnapshots = Function.update w.state.prefixSnapshots t (some ⟨data, t⟩))
    (hmilestones : w'.state.snapshotMilestones = w.state.snapshotMilestones)
    (hlog : w'.log = w.log) (hown : (s' i).filed = (t, data) :: (s i).filed)
    (hother : ∀ j, j ≠ i → (s' j).filed = (s j).filed) (htop : ∀ j, (s' j).top = (s j).top) :
    cfg.Filing p W s' w' ∧ (t = W → w.state.prefixSnapshots W = none) := by
  obtain ⟨n, rfl, ht, hm, hnew, hmine⟩ := hok
  have hvalue : CommitValue (cfg.doc n).length t ∧
      (n ≠ p → cfg.IsMilestone t → cfg.Apart p W t) := by
    obtain hzero | hvalue := h.top n
    · have hpos := hm.pos
      omega
    · rwa [ht]
  have hmilestones' : cfg.MilestonesOk w' := fun t => by
    rw [hmilestones]
    exact h.milestones t
  have htop' : ∀ n, cfg.TopOk p W n (s' (.worker n)).top := fun n => by
    rw [htop]
    exact h.top n
  -- other snapshots of `p` are not touched
  have hold : ∀ x, cfg.FiledHere p w x → x.1 ≠ t → cfg.FiledHere p w' x := fun x hx hne =>
    ⟨by rw [hsnaps, Function.update_of_ne hne]; exact hx.stored, hx.ne_nil, hx.value,
      by rw [hlog]; exact hx.exported⟩
  by_cases hn : n = p
  · subst hn
    refine ⟨⟨hmilestones', htop', fun x hx hle => ?_, fun snap hsnap => ?_⟩, fun hW => ?_⟩
    · rw [hown] at hx
      obtain rfl | hx := List.mem_cons.mp hx
      · obtain ⟨b, k, hb, hlast, hexp, hne⟩ := hmine rfl hle
        obtain ⟨bytes, hmem, -, hat⟩ := hright.exported _ _ hexp
        have hbytes : data = bytes := (hright.last _ _ _ hlast).symm.trans (hat b hb)
        refine ⟨by rw [hsnaps]; simp, hne, hvalue.1, ?_⟩
        rw [hlog, hbytes]
        exact hmem
      · exact hold x (h.filed x hx hle) (Int.ne_of_lt (hnew x hx))
    · rw [hown]
      rw [hsnaps] at hsnap
      by_cases hW : W = t
      · subst hW
        rw [Function.update_self, Option.some.injEq] at hsnap
        subst hsnap
        exact List.mem_cons_self
      · rw [Function.update_of_ne hW] at hsnap
        exact List.mem_cons_of_mem _ (h.own snap hsnap)
    · cases hsnap : w.state.prefixSnapshots W with
      | none => rfl
      | some snap =>
        have hlt := hnew _ (h.own snap hsnap)
        exact absurd hW (Int.ne_of_gt hlt)
  · obtain ⟨hne, hlow⟩ := hvalue.2 hn hm
    have hsame := hother (.worker p) fun heq => hn (Thread.worker.inj heq).symm
    refine ⟨⟨hmilestones', htop', fun x hx hle => ?_, fun snap hsnap => ?_⟩,
      fun hW => absurd hW hne⟩
    · rw [hsame] at hx
      have hx' := h.filed x hx hle
      refine hold x hx' fun hxt => hlow ?_
      rw [← hxt] at hne ⊢
      exact ⟨lt_of_le_of_ne hle hne, hx'.value⟩
    · rw [hsnaps, Function.update_of_ne (Ne.symm hne)] at hsnap
      rw [hsame]
      exact h.own snap hsnap

/-- Nothing else changes the snapshots, or what has been filed; a commit is a new top. -/
private theorem Filing.act (h : cfg.Filing p W s c.data) {c' : Config cfg.engine}
    {e : Entry (machine cfg.engine)} (he : c.Acts e c')
    (hok : cfg.provenanceRule staging p W e.thread (s e.thread) e.action)
    (hapart : cfg.OthersApart p W (e :: tr))
    (hright : (s e.thread).held = true → Right staging e.thread (s e.thread) c.data)
    (hheld : ∀ t data, e.action = .op (.putSnapshot t data) → (s e.thread).held = true)
    (hown : s' e.thread = (s e.thread).next cfg.engine e.action e.answer)
    (hother : ∀ j, j ≠ e.thread → s' j = s j) :
    cfg.Filing p W s' c'.data ∧ ∀ data, e.action = .op (.putSnapshot W data) →
      c.data.state.prefixSnapshots W = none := by
  by_cases hput : ∃ t data, e.action = .op (.putSnapshot t data)
  · -- a snapshot is filed
    obtain ⟨t, data, ha⟩ := hput
    have hheld := hheld t data ha
    cases he with
    | @op i o k x r d ht hx =>
      cases ha
      have hsnaps : d.state.prefixSnapshots =
          Function.update c.data.state.prefixSnapshots t (some ⟨data, t⟩) ∧
          d.state.snapshotMilestones = c.data.state.snapshotMilestones ∧ d.log = c.data.log := by
        simp only [exec, Option.some.injEq, Prod.mk.injEq] at hx
        obtain ⟨-, rfl⟩ := hx
        exact ⟨rfl, rfl, rfl⟩
      have htop : ∀ j, (s' j).top = (s j).top := fun j => by
        by_cases hj : j = i
        · subst hj
          rw [hown]
          rfl
        · rw [hother j hj]
      obtain ⟨hfiling, hnone⟩ := h.put hok (hright hheld) hsnaps.1
        hsnaps.2.1 hsnaps.2.2 (by rw [hown]; rfl) (fun j hj => by rw [hother j hj]) htop
      refine ⟨hfiling, fun data' ha' => hnone ?_⟩
      cases ha'
      rfl
    | _ => cases ha
  · -- or not; then only a top can change
    have hquiet : ∀ t data, e.action ≠ .op (.putSnapshot t data) := fun t data ha =>
      hput ⟨t, data, ha⟩
    refine ⟨?_, fun data ha => absurd ha (hquiet W data)⟩
    have hfiled : (s' (.worker p)).filed = (s (.worker p)).filed := by
      by_cases hj : .worker p = e.thread
      · rw [hj, hown]
        obtain hsame | ⟨t, data, ha, -⟩ := (s e.thread).next_filed (E := cfg.engine) e.action e.answer
        · exact hsame
        · exact absurd ha (hquiet t data)
      · rw [hother _ hj]
    have htop : ∀ n, cfg.TopOk p W n (s' (.worker n)).top := by
      intro n
      by_cases hj : .worker n = e.thread
      · rw [hj, hown]
        obtain hsame | ⟨ctx, t, ha, htop⟩ := (s e.thread).next_top (E := cfg.engine) e.action e.answer
        · rw [hsame, ← hj]
          exact h.top n
        · rw [htop]
          rw [ha] at hok
          obtain ⟨m, hm, -, hvalue, -⟩ := hok
          obtain rfl := Thread.worker.inj (hj.trans hm)
          refine .inr ⟨hvalue, fun hne hmilestone => ?_⟩
          exact hapart e List.mem_cons_self n hne hj.symm ctx t ha hmilestone
      · rw [hother _ hj]
        exact h.top n
    cases he with
    | @op i o k x r d ht hx =>
      refine h.keep ?_ (exec_snapshotMilestones hx) (exec_log_grows hx _) hfiled htop
      obtain heq | ⟨t, data, ho, -⟩ := exec_prefixSnapshots hx
      · exact heq
      · exact absurd (congrArg Action.op ho) (hquiet t data)
    | _ => exact h.keep rfl rfl List.prefix_rfl hfiled htop

/-- The threads get the answers that they expect. -/
private theorem Filing.answer (h : cfg.Filing p W s c.data) (hne : cfg.engine.ExportsNonempty)
    {c' : Config cfg.engine} {e : Entry (machine cfg.engine)} (he : c.Acts e c')
    (hok : (s e.thread).accepts cfg staging e.thread e.action)
    (hfits : Fits cfg staging e.thread (s e.thread) c.data) :
    cfg.provenanceAnswer p W e.thread (s e.thread) e.action e.answer := by
  cases he with
  | @op i o k x r d ht hx =>
    cases o with
    | load =>
      simp only [exec, Option.some.injEq, Prod.mk.injEq] at hx
      obtain ⟨rfl, -⟩ := hx
      refine ⟨h.milestones, fun _ => ⟨fun snap hsnap => ?_, fun hi x hx hle => ?_⟩⟩
      · exact (h.filed _ (h.own snap hsnap) le_rfl).ne_nil
      · rw [hi] at hx
        exact (h.filed x hx hle).stored
    | llamaStateSeqGetData handle b cap seq =>
      intro cells hcells hseq hcap hzero
      obtain ⟨known, hknown, hall⟩ := hfits.ctx handle hok.1
      obtain rfl := hall cells hcells
      obtain ⟨bytes, hbytes, rfl, -⟩ := exec_llamaStateSeqGetData hknown hx
      have hsize := cfg.engine.exports_size _ _ hbytes
      rw [fitting, if_pos (hsize.trans hcap)] at hzero
      exact hne _ _ hseq hbytes (List.length_eq_zero_iff.mp hzero)
    | _ => trivial
  | _ => trivial

/-! ## Forks -/

/-- A commit in the trace is on record. -/
private theorem commits_of_mem (hr : (cfg.startAt w).Run tr c) {e : Entry (machine cfg.engine)}
    (he : e ∈ tr) {ctx : Option Nat} {t : Int}
    (ha : e.action = .op (.note (.commitWatermark ctx t))) : t ∈ c.data.commits e.thread := by
  obtain ⟨later, earlier, rfl⟩ := List.append_of_mem he
  obtain ⟨c₁, c₂, -, hacts, hreach⟩ := hr.earlier rfl
  cases hacts with
  | @op i o k x r d ht hx =>
    cases ha
    simp only [exec, Option.some.injEq, Prod.mk.injEq] at hx
    obtain ⟨-, rfl⟩ := hx
    refine List.mem_filterMap.mpr ⟨.commitWatermark ctx t,
      (reaches_log_grows hreach i).subset ?_, rfl⟩
    simp [World.record]
  | _ => cases ha

/-- What the threads know of where forks come from. -/
abbrev forkViews (cfg : Pipeline) (p : String) (W : Int) (w : World)
    (tr : Trace (machine cfg.engine)) : Thread → View :=
  cfg.views w.state.materializedBranchBuffer
    (cfg.provenanceRule w.state.materializedBranchBuffer p W) (cfg.provenanceAnswer p W) tr

/-- Snapshots and views belong together in every state of a call. -/
private theorem Session.filing (hs : cfg.Session w) (hr : cfg.engine.RoundTrips)
    (hne : cfg.engine.ExportsNonempty) (hW : 0 < W) (hfirst : w.state.prefixSnapshots W = none)
    (hrun : (cfg.startAt w).Run tr c) (hapart : cfg.OthersApart p W tr) :
    (ViewInv cfg w.state.materializedBranchBuffer (cfg.forkViews p W w tr) c.data ∧
      cfg.Filing p W (cfg.forkViews p W w tr) c.data ∧
      ∀ e ∈ tr, ∀ data, e.action = .op (.putSnapshot W data) →
        e.data.state.prefixSnapshots W = none) ∧
    Observer.Follows (cfg.provenanceWatch w.state.materializedBranchBuffer p W)
      (fun _ _ _ => True) tr c := by
  obtain ⟨hstart, hmilestones⟩ := hs.start
  refine hstart.observe (R := fun tr w' => cfg.Filing p W (cfg.forkViews p W w tr) w' ∧
      ∀ e ∈ tr, ∀ data, e.action = .op (.putSnapshot W data) →
        e.data.state.prefixSnapshots W = none)
    (fun h e he => h e (List.mem_cons_of_mem _ he)) (program_provenance hr hW)
    ⟨.start hmilestones hfirst, fun e he => by cases he⟩ ?_ hrun hapart
  intro tr c e c' _ hapart hviews hold he haccepts hrule _
  have hfits := hviews.fits e.thread
  refine ⟨hold.1.answer hne he haccepts hfits, ?_⟩
  obtain ⟨hfiling, hnone⟩ := hold.1.act he hrule hapart hfits.right
    (fun t data ha => by rw [ha] at haccepts; exact haccepts) Observer.state_same
    fun j hj => Observer.state_other hj
  refine ⟨hfiling, fun e' he' data ha => ?_⟩
  obtain rfl | he' := List.mem_cons.mp he'
  · rw [he.data_eq]
    exact hnone data ha
  · exact hold.2 e' he' data ha

/-- `p` is the one prefill provider that `n` depends on. -/
def ProvidedBy (cfg : Pipeline) (n p : String) : Prop :=
  ∀ d, d ∈ cfg.orchestrator.getDependenciesForNode n ∧ cfg.orchestrator.isPrefill d ↔ d = p

/-- Branch `n` has restored bytes, and all of them were exported by `p` in this call, from the
    first `W` tokens of its own document. -/
def RestoredFrom (cfg : Pipeline) (p n : String) (W : Int) (w : World) : Prop :=
  (∃ bytes, .restored bytes ∈ w.log (.worker n)) ∧ ∀ bytes, .restored bytes ∈ w.log (.worker n) →
    .exported (docSeq (cfg.doc p) W.toNat) bytes ∈ w.log (.worker p)

/-- Fork provenance. In each call of a sequence of calls that starts without a snapshot at `W`, and
    as long as no other provider commits `W`, or a milestone below `W` that `p` commits too: a
    branch that forks at `W` behind `p` decodes behind what `p` has exported in this call, and the
    snapshot at `W` is not replaced. -/
theorem forks_from_provider (hr : cfg.engine.RoundTrips) (hne : cfg.engine.ExportsNonempty)
    (hs : cfg.Session w) (hrun : (cfg.startAt w).Run tr c) (hW : 0 < W)
    (hfirst : w.state.prefixSnapshots W = none)
    (hapart : ∀ q, q ≠ p → ∀ t ∈ c.data.commits (.worker q), cfg.IsMilestone t →
      t ≠ W ∧ ¬ (t < W ∧ CommitValue (cfg.doc p).length t)) :
    (∀ n h batch, cfg.ProvidedBy n p → cfg.orchestrator.req n = W →
      c.AtOp (.worker n) (.llamaDecode h batch) → cfg.RestoredFrom p n W c.data) ∧
    ∀ e ∈ tr, ∀ data, e.action = .op (.putSnapshot W data) →
      e.data.state.prefixSnapshots W = none := by
  have htr : cfg.OthersApart p W tr := fun e he q hq hi ctx t ha hm =>
    hapart q hq t (hi ▸ commits_of_mem hrun he ha) hm
  obtain ⟨⟨hviews, hfiling, honce⟩, hfollows⟩ := hs.filing hr hne hW hfirst hrun htr
  refine ⟨fun n h batch _ hreq hat => ?_, honce⟩
  have hfits := hviews.fits (.worker n)
  obtain ⟨hheld, r, snap, hfound, hsnap, hrestored⟩ := (hfollows.ok_of_atOp hat).2 n rfl hreq
  rw [((hfits.right hheld).found r hfound).prefixSnapshots] at hsnap
  have hfiled := hfiling.filed _ (hfiling.own snap hsnap) le_rfl
  refine ⟨⟨snap.data, hfits.logged _ ?_ hfiled.ne_nil⟩, fun bytes hbytes => ?_⟩
  · rw [hrestored]
    exact List.mem_singleton_self _
  · have hmem := hfits.restored bytes hbytes
    rw [hrestored] at hmem
    obtain rfl := List.mem_singleton.mp hmem
    exact hfiled.exported

/-- Shared memory at the start of the second call, behind a first one with the schedule `s`. -/
def secondWorld (cfg : Pipeline) (s : Toy.Schedule) : World := cfg.nextWorld 64 (cfg.after s).data

/-- In the first call the prefiller fails behind the watermark 1, without a snapshot. In the second
    one the branch is about to decode its prompt behind what the prefiller has exported there. -/
theorem forks_from_provider_toy : ∃ w c, (Toy.star 1 false 1).Session w ∧
    w.state.watermark = 1 ∧ ((Toy.star 1 false 1).startAt w).Reaches c ∧
    (Toy.star 1 false 1).RestoredFrom "P" "B" 1 c.data := by
  -- the first call
  have hfirst := Config.run_after (c := (Toy.star 1 false 1).initial) (s := Toy.failFiling)
    (by decide +kernel)
  have hret := (Reachable.main_returns hfirst.reaches (by decide +kernel)).1
  have hs := Session.first.next 64 hfirst.reaches hret
  -- the second call
  have hrun := Config.run_after (c := (Toy.star 1 false 1).startAt
    ((Toy.star 1 false 1).secondWorld Toy.failFiling)) (s := Toy.forkAtOne) (by decide +kernel)
  refine ⟨(Toy.star 1 false 1).secondWorld Toy.failFiling, _, hs, by decide +kernel,
    hrun.reaches, ?_⟩
  -- nobody else commits
  have hquiet : ∀ q, q ≠ "P" → World.commits (Config.after ((Toy.star 1 false 1).startAt
      ((Toy.star 1 false 1).secondWorld Toy.failFiling)) Toy.forkAtOne).data (.worker q) = [] := by
    intro q hq
    by_cases hB : q = "B"
    · subst hB
      decide +kernel
    · have hout : .worker q ∉ insert Thread.main
          ((Toy.star 1 false 1).orchestrator.names.map Thread.worker).toFinset := by
        show .worker q ∉ insert Thread.main ([.worker "P", .worker "B"] : List Thread).toFinset
        simp [hq, hB]
      have hwithin : ((Toy.star 1 false 1).startAt
          ((Toy.star 1 false 1).secondWorld Toy.failFiling)).Within _ := (Toy.star 1 false 1).within
      have hlog := log_outside hwithin hrun.reaches hout
      rw [World.commits, hlog]
      rfl
  have hprovided : (Toy.star 1 false 1).ProvidedBy "B" "P" := by
    intro d
    show d ∈ ["P"] ∧ _ ↔ d = "P"
    rw [List.mem_singleton]
    exact ⟨(·.1), fun hd => ⟨hd, hd ▸ rfl⟩⟩
  exact (forks_from_provider (Toy.engine_roundTrips 1 false) (Toy.engine_exportsNonempty 1)
    hs hrun Int.one_pos (by decide +kernel) fun q hq t ht _ => by
      rw [hquiet q hq] at ht
      cases ht).1 "B" 3 (fillBatch 2 [7] 1 true) hprovided rfl (Config.atOp_iff.mpr rfl)

/-- Two providers over the same document: what the branch of `P` restores comes from `Q`. -/
theorem not_forks_from_provider : Toy.twins.orchestrator.validateAcyclic = some (.ok ()) ∧
    Toy.twins.ProvidedBy "B" "P" ∧ Toy.twins.orchestrator.req "B" = 1 ∧
    ∃ c h batch, Toy.twins.Reachable c ∧ c.AtOp (.worker "B") (.llamaDecode h batch) ∧
      ¬ Toy.twins.RestoredFrom "P" "B" 1 c.data := by
  refine ⟨by decide +kernel, fun d => ?_, rfl, Toy.twins.after Toy.forkOfTwin, 2,
    fillBatch 1 [7] 1 true, reachable_after _ _, Config.atOp_iff.mpr rfl, fun hfrom => ?_⟩
  · show d ∈ ["P"] ∧ _ ↔ d = "P"
    rw [List.mem_singleton]
    exact ⟨(·.1), fun hd => ⟨hd, hd ▸ rfl⟩⟩
  · obtain ⟨bytes, hbytes⟩ := hfrom.1
    have hmem := hfrom.2 bytes hbytes
    have hnone : (Toy.twins.after Toy.forkOfTwin).data.log (.worker "P") = [] := rfl
    rw [hnone] at hmem
    cases hmem

end Pipeline

end SwarmKV
