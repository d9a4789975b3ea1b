import SwarmKV.Spec.VramTrace
import SwarmKV.Spec.GateCorrect

/-!
# Contexts and the guard

What the observers of the contexts know belongs to the world: a context that is alive is that of its
owner, a branch has its contexts under the guard, and whoever takes the guard finds the prefiller
without one, unless it is pausing.
-/

namespace SwarmKV

open Monitor

namespace Pipeline

variable {cfg : Pipeline} {p : String} {tr : Trace (machine cfg.engine)} {i j : Thread}
  {w w' : World}

/-! ## One thread -/

/-- What holds of a prefiller that does what its observer accepts. -/
structure Prefills (cfg : Pipeline) (p : String) (s : VramUse) : Prop where
  bare : s.ended = true → s.live = none
  opened : s.top ≠ 0 → s.opened = true
  waited : s.live ≠ none → s.pausing = true ∨ s.WaitedTo cfg p s.top

private theorem Prefills.next {s : VramUse} (h : Prefills cfg p s) {a : Action sig}
    (ha : s.prefillAccepts cfg p a) (r : a.Res) : Prefills cfg p (s.next cfg a r) := by
  cases a with
  | op o =>
    cases o with
    | note e =>
      cases e with
      | executeEnd q => exact ⟨fun _ => ha.1, h.opened, h.waited⟩
      | commitWatermark ctx t =>
        obtain ⟨hopened, hwaited⟩ := ha
        refine ⟨h.bare, fun _ => hopened, fun _ => ?_⟩
        by_cases hm : cfg.IsMilestone t
        · exact .inl (decide_eq_true hm)
        · -- nothing new to wait for
          refine .inr fun t' hm' hv hle => hwaited t' hm' hv ?_
          have hle : t' ≤ t := hle
          have hne : t' ≠ t := fun heq => hm (heq ▸ hm')
          omega
      | _ => exact ⟨h.bare, h.opened, h.waited⟩
    | llamaInitFromModel =>
      cases r with
      | none => exact h
      | some hd =>
        -- a context is created when all that is committed has been waited for
        obtain ⟨-, hended, -, hwaited⟩ := ha
        refine ⟨fun hend => ?_, fun _ => rfl, fun _ => .inr hwaited⟩
        have hend : s.ended = true := hend
        rw [hended] at hend
        cases hend
    | llamaFree hd => exact ⟨fun _ => rfl, h.opened, fun hne => absurd rfl hne⟩
    | putSnapshot t data => exact ⟨h.bare, h.opened, h.waited⟩
    | consumeMilestone t => exact ⟨h.bare, h.opened, h.waited⟩
    | llamaStateSeqGetSize hd seq => exact ⟨h.bare, h.opened, h.waited⟩
    | _ => exact h
  | lock l => cases l <;> exact ⟨h.bare, h.opened, h.waited⟩
  | unlock l => cases l <;> exact ⟨h.bare, h.opened, h.waited⟩
  | wait w =>
    cases w with
    | milestoneConsumers t =>
      -- one more milestone has been waited for
      refine ⟨h.bare, h.opened, fun hne => (h.waited hne).imp_right fun hwaited => ?_⟩
      exact fun t' hm hv hle => List.mem_cons_of_mem _ (hwaited t' hm hv hle)
    | _ => exact h
  | notify v => exact h

/-- A branch has its contexts under the guard. -/
private theorem branch_next {s : VramUse} (h : s.live ≠ none → s.held = true) {a : Action sig}
    (ha : s.branchAccepts a) (r : a.Res) :
    (s.next cfg a r).live ≠ none → (s.next cfg a r).held = true := by
  cases a with
  | op o =>
    cases o with
    | note e => cases e <;> exact h
    | llamaInitFromModel =>
      cases r with
      | none => exact h
      | some hd => exact fun _ => ha.1
    | llamaFree hd => exact fun hne => absurd rfl hne
    | _ => exact h
  | lock l =>
    cases l with
    | llamaApiMutex => exact fun _ => rfl
    | _ => exact h
  | unlock l =>
    cases l with
    | llamaApiMutex => exact fun hne => absurd ha hne
    | _ => exact h
  | wait w => cases w <;> exact h
  | notify v => exact h

/-- The caller has nothing to do with contexts. -/
private theorem caller_next (s : VramUse) {a : Action sig} (ha : CallerAction a) (r : a.Res) :
    s.next cfg a r = s := by
  cases ha <;> rfl

/-! ## All threads -/

/-- `p` is the only prefiller, and each branch waits for its end or for a value that it commits. -/
structure Gated (cfg : Pipeline) (p : String) : Prop where
  sole : cfg.orchestrator.Sole p
  branches : ∀ n ∈ cfg.orchestrator.names, n ≠ p →
    p ∈ cfg.orchestrator.getDependenciesForNode n ∧
      (cfg.orchestrator.req n < 0 ∨ CommitValue (cfg.doc p).length (cfg.orchestrator.req n))

/-- How the observers' states belong to the world. -/
structure VramInv (cfg : Pipeline) (p : String) (s : Thread → VramUse) (w : World) :
    Prop where
  alive : ∀ h ctx, w.contexts h = some ctx → (s ctx.owner).live = some h
  watermark : w.state.watermark ≤ (s (.worker p)).top
  committed : (s (.worker p)).top = 0 ∨ (s (.worker p)).top ∈ w.commits (.worker p)
  filed : ∀ i, ∀ t ∈ (s i).filed, (w.state.prefixSnapshots t).isSome
  started : ∀ n, (s (.worker n)).started = true → w.Started n
  ended : ∀ r, w.Ended p r → (s (.worker p)).ended = true
  unsignalled : ∀ n t, (s (.worker n)).signalled = false → w.consumed n t = 0
  waited : ∀ i, ∀ t ∈ (s i).waited, 0 < t → ∀ n ∈ cfg.orchestrator.branchesAt t,
    0 < w.consumed n t
  inMemory : ∀ n, ¬ w.OutOfMemory n
  prefills : Prefills cfg p (s (.worker p))
  guarded : ∀ i ≠ .worker p, (s i).live ≠ none → (s i).held = true
  clear : ∀ i ≠ .worker p, (s i).held = true → (s (.worker p)).live = none ∧
    ((s (.worker p)).opened = true ∨ (s (.worker p)).ended = true)

variable {c c' : Config cfg.engine} {e : Entry (machine cfg.engine)} {n : String}

/-- The observer accepts what the thread has done. -/
abbrev Accepted (cfg : Pipeline) (tr : Trace (machine cfg.engine))
    (e : Entry (machine cfg.engine)) : Prop :=
  (vramWatch cfg e.thread).ok (cfg.vram tr e.thread) e.action

/-! ## Contexts -/

/-- Only `llama_init_from_model` and `llama_free` count. -/
private theorem next_live (s : VramUse) {a : Action sig} (hinit : a ≠ .op .llamaInitFromModel)
    (hfree : ∀ h, a ≠ .op (.llamaFree h)) (r : a.Res) : (s.next cfg a r).live = s.live := by
  cases a with
  | op o =>
    cases o with
    | note e => cases e <;> rfl
    | llamaInitFromModel => exact absurd rfl hinit
    | llamaFree h => exact absurd rfl (hfree h)
    | _ => rfl
  | lock l => cases l <;> rfl
  | unlock l => cases l <;> rfl
  | wait w => cases w <;> rfl
  | notify v => rfl

private theorem vram_live (hinit : e.action ≠ .op .llamaInitFromModel)
    (hfree : ∀ h, e.action ≠ .op (.llamaFree h)) (j : Thread) :
    (cfg.vram (e :: tr) j).live = (cfg.vram tr j).live := by
  obtain ⟨i, a, r, d⟩ := e
  by_cases hj : j = i
  · subst hj
    rw [vram_act]
    exact next_live _ hinit hfree r
  · rw [vram_other hj]

/-- Who creates a context has none. -/
private theorem Accepted.init (hok : cfg.Accepted tr e)
    (he : e.action = .op .llamaInitFromModel) : (cfg.vram tr e.thread).live = none := by
  obtain ⟨i, a, r, d⟩ := e
  dsimp only at he
  subst he
  cases i with
  | main => cases (hok : CallerAction _)
  | worker n =>
    have hok : if cfg.orchestrator.isPrefill n then _ else _ := hok
    split at hok
    · exact hok.1
    · exact hok.2

/-- Who frees a context has it. -/
private theorem Accepted.free (hok : cfg.Accepted tr e) {h : Nat}
    (he : e.action = .op (.llamaFree h)) : (cfg.vram tr e.thread).live = some h := by
  obtain ⟨i, a, r, d⟩ := e
  dsimp only at he
  subst he
  cases i with
  | main => cases (hok : CallerAction _)
  | worker n =>
    have hok : if cfg.orchestrator.isPrefill n then _ else _ := hok
    split at hok
    · exact hok
    · exact hok

/-- A context that is not new had its owner before. -/
private theorem owner_kept {E : Engine} {o : Op} {x : Choice} {r : o.Res}
    (hx : exec E i o x w = some (r, w')) {h : Nat} {ctx : LlamaContext}
    (hctx : w'.contexts h = some ctx) :
    o = .llamaInitFromModel ∨ ∃ ctx₀, w.contexts h = some ctx₀ ∧ ctx₀.owner = ctx.owner := by
  obtain ⟨heq, -⟩ | ⟨hinit, -⟩ | ⟨-, h₀, -, heq⟩ | ⟨-, h₀, cells, -, heq⟩ := exec_contexts hx
  · exact .inr ⟨ctx, heq ▸ hctx, rfl⟩
  · exact .inl hinit
  · -- a context is freed
    rw [heq] at hctx
    by_cases hh : h = h₀
    · subst hh
      rw [Function.update_self] at hctx
      cases hctx
    · rw [Function.update_of_ne hh] at hctx
      exact .inr ⟨ctx, hctx, rfl⟩
  · -- a context gets other cells
    rw [heq] at hctx
    by_cases hh : h = h₀
    · subst hh
      simp only [World.setCells, Function.update_self, Option.map_eq_some_iff] at hctx
      obtain ⟨ctx₀, hctx₀, rfl⟩ := hctx
      exact .inr ⟨ctx₀, hctx₀, rfl⟩
    · have hctx : Function.update w.contexts h₀ _ h = some ctx := hctx
      rw [Function.update_of_ne hh] at hctx
      exact .inr ⟨ctx, hctx, rfl⟩

/-- A context that is alive is that of its owner. -/
private theorem VramInv.alive_act (hI : VramInv cfg p (cfg.vram tr) c.data) (he : c.Acts e c')
    (hok : cfg.Accepted tr e) (h : Nat) (ctx : LlamaContext)
    (hctx : c'.data.contexts h = some ctx) :
    (cfg.vram (e :: tr) ctx.owner).live = some h := by
  cases he with
  | @op i o k x r d ht hx =>
    have hctx : d.contexts h = some ctx := hctx
    have hkept := owner_kept hx hctx
    cases o with
    | llamaInitFromModel =>
      have hnone := hok.init rfl
      obtain ⟨rfl, rfl⟩ | ⟨rfl, rfl⟩ := exec_llamaInitFromModel hx
      · -- the call has failed
        have hsame : (cfg.vram (⟨i, .op .llamaInitFromModel, none, c.data⟩ :: tr) ctx.owner).live =
            (cfg.vram tr ctx.owner).live := by
          by_cases hi : ctx.owner = i
          · subst hi
            rw [vram_act]
            rfl
          · rw [vram_other hi]
        rw [hsame]
        exact hI.alive h ctx hctx
      · -- the new context, or an older one
        have hctx : Function.update c.data.contexts c.data.nextContext
          (some { owner := i }) h = some ctx := hctx
        by_cases hh : h = c.data.nextContext
        · subst hh
          rw [Function.update_self] at hctx
          obtain rfl := Option.some.inj hctx
          rw [vram_act]
          rfl
        · have hold : c.data.contexts h = some ctx := by rwa [Function.update_of_ne hh] at hctx
          have hlive := hI.alive h ctx hold
          by_cases hi : ctx.owner = i
          · -- its thread had no context
            rw [hi, hnone] at hlive
            cases hlive
          · rw [vram_other hi]
            exact hlive
    | llamaFree h₀ =>
      have hsome := hok.free rfl
      simp only [exec, Option.some.injEq, Prod.mk.injEq] at hx
      obtain ⟨-, rfl⟩ := hx
      have hctx : Function.update c.data.contexts h₀ none h = some ctx := hctx
      by_cases hh : h = h₀
      · rw [hh, Function.update_self] at hctx
        cases hctx
      · have hold : c.data.contexts h = some ctx := by rwa [Function.update_of_ne hh] at hctx
        have hlive := hI.alive h ctx hold
        by_cases hi : ctx.owner = i
        · -- its thread has no other context
          rw [hi, hsome] at hlive
          exact absurd (Option.some.inj hlive).symm hh
        · rw [vram_other hi]
          exact hlive
    | _ =>
      -- the owners stay the same
      obtain heq | ⟨ctx₀, hctx₀, howner⟩ := hkept
      · cases heq
      rw [vram_live (by simp) (by simp), ← howner]
      exact hI.alive h ctx₀ hctx₀
  | _ =>
    rw [vram_live (by simp) (by simp)]
    exact hI.alive h ctx hctx

/-! ## The shared data -/

private theorem pre_act (hr : cfg.initial.Run tr c) (he : c.Acts e c') {o : Op}
    (ho : e.action = .op o) : ∃ H, cfg.Pre e.thread H o c.data := by
  cases he with
  | op ht hx =>
    cases ho
    exact ⟨_, (reachable_holds hr.reaches).pre ⟨_, ht⟩⟩
  | _ => cases ho

/-- Only the prefiller sets the watermark, to the value that it has committed. -/
private theorem Accepted.setWatermark (hok : cfg.Accepted tr e) (hp : cfg.orchestrator.Sole p)
    {t : Int} (he : e.action = .op (.setWatermark t)) :
    e.thread = .worker p ∧ t = (cfg.vram tr (.worker p)).top := by
  obtain ⟨i, a, r, d⟩ := e
  dsimp only at he
  subst he
  cases i with
  | main => cases (hok : CallerAction _)
  | worker n =>
    have hok : if cfg.orchestrator.isPrefill n then _ else _ := hok
    split at hok
    · obtain rfl := hp.2 n ‹_›
      exact ⟨rfl, hok⟩
    · exact hok.elim

/-- What a prefiller commits is new. -/
private theorem commit_act (hr : cfg.initial.Run tr c) (he : c.Acts e c')
    (hp : Thread.worker p = e.thread) {ctx : Option Nat} {t : Int}
    (ha : e.action = .op (.note (.commitWatermark ctx t))) :
    0 < t ∧ ∀ t' ∈ c.data.commits (.worker p), t' < t := by
  obtain ⟨H, -, m, hm, -, hcommit⟩ := pre_act hr he ha
  obtain rfl := Thread.worker.inj (hp.trans hm)
  exact ⟨hcommit.value.1, hcommit.increasing⟩

private theorem VramInv.watermark_act (hI : VramInv cfg p (cfg.vram tr) c.data)
    (hp : cfg.orchestrator.Sole p) (hr : cfg.initial.Run tr c) (he : c.Acts e c')
    (hok : cfg.Accepted tr e) :
    c'.data.state.watermark ≤ (cfg.vram (e :: tr) (.worker p)).top := by
  -- what the prefiller commits never goes down
  have htop : (cfg.vram (e :: tr) (.worker p)).top = (cfg.vram tr (.worker p)).top ∨
      (cfg.vram tr (.worker p)).top < (cfg.vram (e :: tr) (.worker p)).top := by
    obtain heq | ⟨hj, hmove⟩ := vram_moves e (.worker p)
    · exact .inl (by rw [heq])
    · obtain heq | ⟨ctx, ha⟩ := hmove.top
      · exact .inl heq
      · obtain ⟨hpos, hnew⟩ := commit_act hr he hj ha
        obtain hzero | hmem := hI.committed
        · exact .inr (by omega)
        · exact .inr (hnew _ hmem)
  have hold := hI.watermark
  -- and the watermark follows it
  have hset : c'.data.state.watermark = c.data.state.watermark ∨
      c'.data.state.watermark = (cfg.vram tr (.worker p)).top := by
    obtain hsame | ⟨i, o, r, x, rfl, -, hx⟩ := he.data
    · exact .inl (by rw [hsame])
    · obtain heq | ⟨t, rfl, heq⟩ := exec_watermark hx
      · exact .inl heq
      · exact .inr (heq.trans (hok.setWatermark hp rfl).2)
  omega

private theorem VramInv.committed_act (hI : VramInv cfg p (cfg.vram tr) c.data)
    (he : c.Acts e c') : (cfg.vram (e :: tr) (.worker p)).top = 0 ∨
      (cfg.vram (e :: tr) (.worker p)).top ∈ c'.data.commits (.worker p) := by
  have hgrow : ∀ t ∈ c.data.commits (.worker p), t ∈ c'.data.commits (.worker p) :=
    fun t ht => ((log_grows he _).filterMap _).subset ht
  obtain heq | ⟨hj, hmove⟩ := vram_moves e (.worker p)
  · rw [heq]
    exact hI.committed.imp_right (hgrow _)
  · obtain heq | ⟨ctx, ha⟩ := hmove.top
    · rw [heq]
      exact hI.committed.imp_right (hgrow _)
    · -- the commit goes on record
      generalize (cfg.vram (e :: tr) (.worker p)).top = t at ha ⊢
      refine .inr (List.mem_filterMap.mpr ⟨.commitWatermark ctx _, ?_, rfl⟩)
      cases he with
      | op ht hx =>
        cases ha
        simp only [exec, Option.some.injEq, Prod.mk.injEq] at hx
        obtain ⟨-, rfl⟩ := hx
        subst hj
        simp [World.record]
      | _ => cases ha

private theorem VramInv.started_act (hI : VramInv cfg p (cfg.vram tr) c.data) (he : c.Acts e c')
    (n : String) (hs : (cfg.vram (e :: tr) (.worker n)).started = true) : c'.data.Started n := by
  obtain heq | ⟨hj, hmove⟩ := vram_moves e (.worker n)
  · rw [heq] at hs
    exact (log_grows he _).subset (hI.started n hs)
  · obtain hold | ha := hmove.started hs
    · exact (log_grows he _).subset (hI.started n hold)
    · cases he with
      | op hat hx =>
        cases ha
        simp only [exec, Option.some.injEq, Prod.mk.injEq] at hx
        obtain ⟨-, rfl⟩ := hx
        subst hj
        simp [World.Started, World.record]
      | _ => cases ha

private theorem VramInv.ended_act (hI : VramInv cfg p (cfg.vram tr) c.data) (he : c.Acts e c')
    (r : Outcome) (hend : c'.data.Ended p r) :
    (cfg.vram (e :: tr) (.worker p)).ended = true := by
  obtain hold | ⟨o, hj, ha, hemit⟩ := mem_log_act he hend
  · have hended := hI.ended r hold
    obtain heq | ⟨-, hmove⟩ := vram_moves e (.worker p)
    · rw [heq]
      exact hended
    · exact hmove.ended hended
  · cases hemit with
    | note =>
      obtain ⟨i, a, q, d⟩ := e
      dsimp only at hj ha
      subst hj ha
      rw [vram_act]
      rfl

/-- Only a branch that signals is on record for it. -/
private theorem VramInv.unsignalled_act (hI : VramInv cfg p (cfg.vram tr) c.data)
    (hr : cfg.initial.Run tr c) (he : c.Acts e c') (n : String) (t : Int)
    (hs : (cfg.vram (e :: tr) (.worker n)).signalled = false) : c'.data.consumed n t = 0 := by
  have hold : (cfg.vram tr (.worker n)).signalled = false := by
    obtain heq | ⟨-, hmove⟩ := vram_moves e (.worker n)
    · rwa [heq] at hs
    · exact hmove.signalled hs
  -- so there is no record yet, and this action makes none
  have hzero := hI.unsignalled n t hold
  refine List.count_eq_zero.mpr fun hmem => ?_
  obtain hmem | ⟨o, hj, ha, hemit⟩ := mem_log_act he hmem
  · exact List.count_eq_zero.mp hzero hmem
  · cases hemit with
    | note =>
      obtain ⟨H, -, hpre⟩ := pre_act hr he ha
      exact hpre
    | consumeMilestone =>
      obtain ⟨i, a, r, d⟩ := e
      dsimp only at hj ha
      subst hj ha
      rw [vram_act] at hs
      cases hs

/-- Where somebody has waited for the consumers of a milestone, they have all signalled. -/
private theorem VramInv.waited_act (hI : VramInv cfg p (cfg.vram tr) c.data)
    (hr : cfg.initial.Run tr c) (he : c.Acts e c') (i : Thread) (t : Int)
    (ht : t ∈ (cfg.vram (e :: tr) i).waited) (hpos : 0 < t) (n : String)
    (hn : n ∈ cfg.orchestrator.branchesAt t) : 0 < c'.data.consumed n t := by
  have hgrow : c.data.consumed n t ≤ c'.data.consumed n t :=
    (log_grows he _).sublist.count_le _
  have hnow : 0 < c.data.consumed n t := by
    obtain heq | ⟨-, hmove⟩ := vram_moves e i
    · rw [heq] at ht
      exact hI.waited i t ht hpos n hn
    · obtain hold | ha := hmove.waited ht
      · exact hI.waited i t hold hpos n hn
      · -- the wait is left when the count is at zero
        exact signalled_of_holds hr (fun n _ => hI.inMemory n) hpos (he.holds ha) n hn
  omega

private theorem VramInv.inMemory_act (hI : VramInv cfg p (cfg.vram tr) c.data)
    (hr : cfg.initial.Run tr c) (he : c.Acts e c') (hs : succeeds e.action e.answer = true)
    (n : String) : ¬ c'.data.OutOfMemory n := by
  intro hout
  obtain hold | ⟨o, hj, ha, hemit⟩ := mem_log_act he hout
  · exact hI.inMemory n hold
  · cases hemit with
    | note =>
      obtain ⟨H, -, hpre⟩ := pre_act hr he ha
      exact hpre
    | allocate =>
      -- the allocation would have failed
      cases he with
      | op ht hx =>
        cases ha
        obtain ⟨-, rfl⟩ | ⟨rfl, -⟩ := exec_allocate hx
        · exact hI.inMemory n hout
        · cases hs
      | _ => cases ha

/-! ## The guard -/

private theorem VramInv.prefills_act (hI : VramInv cfg p (cfg.vram tr) c.data)
    (hp : cfg.orchestrator.Sole p) (hok : cfg.Accepted tr e) :
    Prefills cfg p (cfg.vram (e :: tr) (.worker p)) := by
  obtain ⟨i, a, r, d⟩ := e
  by_cases hj : Thread.worker p = i
  · subst hj
    rw [vram_act]
    have hok : if cfg.orchestrator.isPrefill p then _ else _ := hok
    rw [if_pos hp.1] at hok
    exact hI.prefills.next hok r
  · rw [vram_other hj]
    exact hI.prefills

private theorem VramInv.guarded_act (hI : VramInv cfg p (cfg.vram tr) c.data)
    (hp : cfg.orchestrator.Sole p) (hok : cfg.Accepted tr e) (j : Thread) (hj : j ≠ .worker p) :
    (cfg.vram (e :: tr) j).live ≠ none → (cfg.vram (e :: tr) j).held = true := by
  obtain ⟨i, a, r, d⟩ := e
  by_cases hi : j = i
  · subst hi
    rw [vram_act]
    cases j with
    | main =>
      rw [caller_next _ hok]
      exact hI.guarded _ hj
    | worker n =>
      -- it is no prefiller, so it keeps to the rules of a branch
      have hok : if cfg.orchestrator.isPrefill n then _ else _ := hok
      split at hok
      · exact absurd (congrArg Thread.worker (hp.2 n ‹_›)) hj
      · exact branch_next (hI.guarded _ hj) hok r
  · rw [vram_other hi]
    exact hI.guarded j hj

/-- The guard has one holder. -/
theorem held_unique (hr : cfg.initial.Run tr c) (hi : (cfg.vram tr i).held = true)
    (hj : (cfg.vram tr j).held = true) : i = j := by
  rw [vram_held_eq] at hi hj
  exact hr.holding_unique (fun _ => by simp) rfl hi hj

/-- Who takes the guard finds the prefiller without a context. -/
private theorem VramInv.clear_lock (hI : VramInv cfg p (cfg.vram tr) c.data)
    (hgated : cfg.Gated p) (hr : cfg.initial.Run tr c) (hok : cfg.Accepted tr e)
    (ha : e.action = .lock .llamaApiMutex) (hp : e.thread ≠ .worker p)
    (hpausing : cfg.pausing p tr = false) : (cfg.vram tr (.worker p)).live = none ∧
      ((cfg.vram tr (.worker p)).opened = true ∨ (cfg.vram tr (.worker p)).ended = true) := by
  obtain ⟨i, a, r, d⟩ := e
  dsimp only at ha hp
  subst ha
  cases i with
  | main => cases (hok : CallerAction _)
  | worker n =>
    have hnp : n ≠ p := fun heq => hp (congrArg _ heq)
    have hok : if cfg.orchestrator.isPrefill n then _ else _ := hok
    split at hok
    · exact absurd (hgated.sole.2 n ‹_›) hnp
    obtain ⟨hstarted, hsignalled, -⟩ := hok
    have hinv := (reachable_holds hr.reaches).inv
    have hgates := hinv.started n (hI.started n hstarted)
    obtain ⟨hdep, hreq⟩ := hgated.branches n hgates.registered hnp
    obtain hneg | hvalue := hreq
    · -- the prefiller has ended
      have hcompletion := hgates.completion p (Orchestrator.mem_completionDeps.mpr
        ⟨hdep, fun h => absurd h.2 (by omega)⟩)
      obtain ⟨q, hq⟩ := Option.isSome_iff_exists.mp hcompletion
      have hended := hI.ended q (hinv.promise p q hq)
      exact ⟨hI.prefills.bare hended, .inr hended⟩
    · -- the prefiller has committed the watermark of the branch
      have hpos := hvalue.1
      have hreached := hgates.watermark p hgated.sole hdep hpos.le
      have hle : cfg.orchestrator.req n ≤ (cfg.vram tr (.worker p)).top :=
        hreached.trans hI.watermark
      refine ⟨?_, .inl (hI.prefills.opened (by omega))⟩
      by_contra hlive
      obtain hpause | hwaited := hI.prefills.waited hlive
      · rw [pausing_eq, hpausing] at hpause
        cases hpause
      · -- the prefiller has waited for this branch, which has not signalled
        have hbranch : n ∈ cfg.orchestrator.branchesAt (cfg.orchestrator.req n) :=
          Orchestrator.mem_branchesAt.mpr ⟨hgates.registered, rfl⟩
        have hm : cfg.IsMilestone (cfg.orchestrator.req n) :=
          .inr (Orchestrator.hasConsumers_req hgates.registered hpos)
        have hconsumed := hI.waited _ _ (hwaited _ hm hvalue hle) hpos n hbranch
        have hzero := hI.unsignalled n (cfg.orchestrator.req n) hsignalled
        omega

private theorem VramInv.clear_act (hI : VramInv cfg p (cfg.vram tr) c.data)
    (hgated : cfg.Gated p) (hr : cfg.initial.Run tr c) (hok : cfg.Accepted tr e)
    (hcalm : e.action = .lock .llamaApiMutex → e.thread ≠ .worker p → cfg.pausing p tr = false)
    (j : Thread) (hj : j ≠ .worker p) (hheld : (cfg.vram (e :: tr) j).held = true) :
    (cfg.vram (e :: tr) (.worker p)).live = none ∧
      ((cfg.vram (e :: tr) (.worker p)).opened = true ∨
        (cfg.vram (e :: tr) (.worker p)).ended = true) := by
  -- before the action the prefiller had no context, or the guard is taken just now
  have hclear : (cfg.vram tr (.worker p)).live = none ∧
      ((cfg.vram tr (.worker p)).opened = true ∨ (cfg.vram tr (.worker p)).ended = true) := by
    obtain heq | ⟨hje, hmove⟩ := vram_moves e j
    · rw [heq] at hheld
      exact hI.clear j hj hheld
    · obtain hold | ha := hmove.held hheld
      · exact hI.clear j hj hold
      · have hne : e.thread ≠ .worker p := hje ▸ hj
        exact hI.clear_lock hgated hr hok ha hne (hcalm ha hne)
  -- and it does not create one now
  obtain heq | ⟨hpe, hmove⟩ := vram_moves e (.worker p)
  · rw [heq]
    exact hclear
  · refine ⟨?_, hclear.2.imp hmove.opened hmove.ended⟩
    obtain hsame | hnone | ha := hmove.live
    · rw [hsame]
      exact hclear.1
    · exact hnone
    · -- the prefiller would hold the guard as well, or not have started
      exfalso
      have hjheld : (cfg.vram tr j).held = true := by
        obtain heq | ⟨hje, -⟩ := vram_moves e j
        · rwa [heq] at hheld
        · exact absurd (hje.trans hpe.symm) hj
      obtain ⟨i, a, r, d⟩ := e
      dsimp only at hpe ha
      subst hpe ha
      have hok : if cfg.orchestrator.isPrefill p then _ else _ := hok
      rw [if_pos hgated.sole.1] at hok
      obtain ⟨-, hended, hguard, -⟩ := hok
      obtain hopened | hend := hclear.2
      · exact hj (held_unique hr hjheld (hguard hopened))
      · rw [hended] at hend
        cases hend

/-- An action that is accepted keeps the observers' states and the world together. -/
theorem VramInv.act (hI : VramInv cfg p (cfg.vram tr) c.data) (hgated : cfg.Gated p)
    (hr : cfg.initial.Run tr c) (he : c.Acts e c') (hok : cfg.Accepted tr e)
    (hs : succeeds e.action e.answer = true)
    (hcalm : e.action = .lock .llamaApiMutex → e.thread ≠ .worker p → cfg.pausing p tr = false) :
    VramInv cfg p (cfg.vram (e :: tr)) c'.data where
  alive := hI.alive_act he hok
  watermark := hI.watermark_act hgated.sole hr he hok
  committed := hI.committed_act he
  filed := fun i => filed_act (hI.filed i) he
  started := hI.started_act he
  ended := hI.ended_act he
  unsignalled := hI.unsignalled_act hr he
  waited := hI.waited_act hr he
  inMemory := hI.inMemory_act hr he hs
  prefills := hI.prefills_act hgated.sole hok
  guarded := hI.guarded_act hgated.sole hok
  clear := hI.clear_act hgated hr hok hcalm

theorem VramInv.start : VramInv cfg p (cfg.vram []) cfg.initialWorld where
  alive _ _ h := by cases h
  watermark := registeredState_watermark.le
  committed := .inl rfl
  filed _ _ h := by cases h
  started _ h := by cases h
  ended _ h := by cases h
  unsignalled _ _ _ := rfl
  waited _ _ h := by cases h
  inMemory _ h := by cases h
  prefills := ⟨fun _ => rfl, fun h => absurd rfl h, fun h => absurd rfl h⟩
  guarded _ _ h := absurd rfl h
  clear _ _ h := by cases h

end Pipeline

end SwarmKV
