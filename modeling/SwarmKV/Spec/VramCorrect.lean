import SwarmKV.Spec.VramInvariant

/-!
# The VRAM gate

Between the commit of a milestone and the pause the prefiller still has its context, and the
branches that the commit releases can already take the guard. If none of them does so before
the context is freed, there is one context at a time.
-/

namespace SwarmKV

open Monitor

namespace Pipeline

variable {cfg : Pipeline} {p : String} {tr : Trace (machine cfg.engine)} {i j : Thread}
  {c : Config cfg.engine} {e : Entry (machine cfg.engine)}

private theorem pausing_of_undisturbed (hu : cfg.undisturbed p (e :: tr) = true)
    (ha : e.action = .lock .llamaApiMutex) (hne : e.thread ≠ .worker p) :
    cfg.pausing p tr = false := by
  obtain ⟨i, a, r, d⟩ := e
  dsimp only at ha hne
  subst ha
  have hu : ((decide (i = .worker p) || !cfg.pausing p tr) && cfg.undisturbed p tr) = true := hu
  simp only [Bool.and_eq_true, Bool.or_eq_true, decide_eq_true_eq, hne, false_or] at hu
  simpa using hu.1

/-! ## The gate -/

/-- A branch that is about to create a context finds the prefiller without one, the prefiller
    finds none at all, and there is at most one. -/
structure OneContext (cfg : Pipeline) (p : String) (c : Config cfg.engine) : Prop where
  branch : ∀ n ≠ p, c.AtOp (.worker n) .llamaInitFromModel → ∀ h ctx,
    c.data.contexts h = some ctx → ctx.owner ≠ .worker p
  prefill : c.AtOp (.worker p) .llamaInitFromModel → ∀ h, c.data.contexts h = none
  one : ∀ h h', (c.data.contexts h).isSome → (c.data.contexts h').isSome → h = h'

/-- Two contexts have the same owner. -/
private theorem VramInv.same_owner (hI : VramInv cfg p (cfg.vram tr) c.data)
    (hr : cfg.initial.Run tr c) (hi : (cfg.vram tr i).live ≠ none)
    (hj : (cfg.vram tr j).live ≠ none) : i = j := by
  by_cases hip : i = .worker p
  · by_cases hjp : j = .worker p
    · exact hip.trans hjp.symm
    · subst hip
      exact absurd (hI.clear j hjp (hI.guarded j hjp hj)).1 hi
  · by_cases hjp : j = .worker p
    · subst hjp
      exact absurd (hI.clear i hip (hI.guarded i hip hi)).1 hj
    · exact held_unique hr (hI.guarded i hip hi) (hI.guarded j hjp hj)

/-- In a run in which nothing fails, there is one context at a time if no branch takes the
    guard between the commit of a milestone and the pause of the prefiller. -/
theorem one_context (hgated : cfg.Gated p) (hstaging : cfg.staging.isSome)
    (htext : cfg.Tokenizes) (hr : cfg.initial.Run tr c) (hs : smooth tr = true)
    (hu : cfg.undisturbed p tr = true) : cfg.OneContext p c := by
  -- the observers and the world belong together, step by step
  obtain ⟨hI, hfollows⟩ := hr.observe_while (A := vramWatch cfg)
    (P := fun tr => smooth tr = true ∧ cfg.undisturbed p tr = true)
    (R := fun tr c => VramInv cfg p (cfg.vram tr) c.data)
    (fun h => by
      simp only [smooth, undisturbed, Bool.and_eq_true] at h
      exact ⟨h.1.2, h.2.2⟩)
    (program_vram htext) VramInv.start
    (fun {tr c e c'} hrun hP hI he hok => by
      have hsmooth := hP.1
      simp only [smooth, Bool.and_eq_true] at hsmooth
      obtain ⟨⟨hsucceeds, hroom⟩, -⟩ := hsmooth
      exact ⟨expects_act hstaging hrun he (hI.filed _) hsucceeds hroom, hI.act hgated hrun he hok
        hsucceeds fun ha hne => pausing_of_undisturbed hP.2 ha hne⟩)
    (fun _ hI hs => by rwa [hs.data]) ⟨hs, hu⟩
  have hlive : ∀ {h ctx}, c.data.contexts h = some ctx → (cfg.vram tr ctx.owner).live ≠ none := by
    intro h ctx hctx
    rw [hI.alive h ctx hctx]
    simp
  constructor
  · -- a branch creates its context under the guard, and then the prefiller has none
    intro n hn hat h ctx hctx howner
    have hok : if cfg.orchestrator.isPrefill n then _ else _ := hfollows.ok_of_atOp hat
    rw [if_neg fun hprefill => hn (hgated.sole.2 n hprefill)] at hok
    have hne : Thread.worker n ≠ .worker p := fun heq => hn (Thread.worker.inj heq)
    have hnone := (hI.clear _ hne hok.1).1
    rw [← howner, hI.alive h ctx hctx] at hnone
    cases hnone
  · -- a prefiller creates its first one before anybody has the guard, and the next under the guard
    intro hat h
    have hok : if cfg.orchestrator.isPrefill p then _ else _ := hfollows.ok_of_atOp hat
    rw [if_pos hgated.sole.1] at hok
    obtain ⟨hbare, hended, hguard, -⟩ := hok
    by_contra hsome
    obtain ⟨ctx, hctx⟩ := Option.ne_none_iff_exists'.mp hsome
    by_cases howner : ctx.owner = .worker p
    · exact hlive hctx (howner ▸ hbare)
    · have hheld := hI.guarded _ howner (hlive hctx)
      obtain hopened | hend := (hI.clear _ howner hheld).2
      · exact howner (held_unique hr hheld (hguard hopened))
      · rw [hended] at hend
        cases hend
  · -- two contexts would have the same owner
    intro h h' hh hh'
    obtain ⟨ctx, hctx⟩ := Option.isSome_iff_exists.mp hh
    obtain ⟨ctx', hctx'⟩ := Option.isSome_iff_exists.mp hh'
    have hsame := hI.same_owner hr (hlive hctx) (hlive hctx')
    have heq := hI.alive h ctx hctx
    rw [hsame, hI.alive h' ctx' hctx'] at heq
    exact (Option.some.inj heq).symm

private theorem toy_gated : (Toy.star 1 false 1).Gated "P" where
  sole := by decide
  branches := by decide

private theorem toy_tokenizes : (Toy.star 1 false 1).Tokenizes := by
  intro n node hn
  have hmem : (n, node) ∈ [Toy.prefiller, Toy.branch "B" 1] := Orchestrator.node_eq_some.mp hn
  rw [List.mem_cons, List.mem_singleton] at hmem
  obtain h | h := hmem <;> obtain ⟨-, rfl⟩ := Prod.mk.inj h <;> rfl

/-- The toy branch that forks at 1 after the pause is alone with its context. -/
theorem one_context_toy :
    (Toy.star 1 false 1).OneContext "P" ((Toy.star 1 false 1).after Toy.forkAtOne) := by
  have hr := Config.run_after (c := (Toy.star 1 false 1).initial) (s := Toy.forkAtOne) (by decide +kernel)
  exact one_context toy_gated rfl toy_tokenizes hr (by decide +kernel) (by decide +kernel)

/-- A branch that takes the guard before the pause creates its context beside that of the
    prefiller. -/
theorem not_one_context : ¬ ∀ (cfg : Pipeline) (p : String), cfg.Gated p → cfg.staging.isSome →
    cfg.Tokenizes → ∀ tr c, cfg.initial.Run tr c → smooth tr = true → cfg.OneContext p c := by
  intro hall
  have hr := Config.run_after (c := (Toy.star 1 false 1).initial) (s := Toy.overtakeAtOne)
    (by decide +kernel)
  have hone := hall _ "P" toy_gated rfl toy_tokenizes _ _ hr (by decide +kernel)
  have hat : ((Toy.star 1 false 1).after Toy.overtakeAtOne).AtOp (.worker "B") .llamaInitFromModel :=
    Config.atOp_iff.mpr rfl
  have howner : (((Toy.star 1 false 1).after Toy.overtakeAtOne).data.contexts 0).map (·.owner) =
      some (.worker "P") := by decide +kernel
  obtain ⟨ctx, hctx, howner⟩ := Option.map_eq_some_iff.mp howner
  exact hone.branch "B" (by decide) hat 0 ctx hctx howner

end Pipeline

end SwarmKV
