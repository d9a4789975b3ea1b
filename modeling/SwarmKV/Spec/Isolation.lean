import SwarmKV.Spec.Deeds
import Mathlib.Data.List.Forall2

/-!
# Two calls of a branch

From worlds that look the same to it, a branch does the same deeds, one function after another.
-/

namespace SwarmKV.Sides

open Monitor

variable {E : Engine} {S : Sides} {H : Finset Lock} {R R' : Deeds → Prop}
  {C : Option (Nat × Nat)} {D : Deeds} {w w' : World} {xs xs' : List Choice}

theorem Pair.tail {x x' : Choice} (h : S.Pair D w (x :: xs) w' (x' :: xs')) :
    x.Alike x' ∧ S.Pair D w xs w' xs' := by
  have halike := h.alike
  rw [List.forall₂_cons] at halike
  exact ⟨halike.1, h.left, h.right, halike.2, h.sound⟩

theorem Hold.mono (h : S.Hold R C w xs w' xs') (hR : ∀ D, R D → R' D) :
    S.Hold R' C w xs w' xs' := by
  obtain ⟨D, hD, hpair, hctx⟩ := h
  exact ⟨D, hR D hD, hpair, hctx⟩

theorem Hold.forget (h : S.Hold R C w xs w' xs') : S.Hold R none w xs w' xs' := by
  obtain ⟨D, hD, hpair, -⟩ := h
  exact ⟨D, hD, hpair, fun c hc => by cases hc⟩

/-! ## Operations -/

/-- The time does not matter, but to the clock. -/
theorem exec_alike {i : Thread} {o : Op} {x x' : Choice} (hx : x.Alike x')
    (ho : o ≠ .steadyClock) (w : World) : exec E i o x w = exec E i o x' w := by
  cases x with
  | time ms =>
    cases x' with
    | time ms' =>
      cases o with
      | steadyClock => exact absurd rfl ho
      | _ => rfl
    | _ => cases hx
  | _ =>
    cases x' <;> cases hx
    rfl

/-- An operation that asks nobody. -/
theorem twin_calm {o o' : Op} {Q : o.Res → o'.Res → Alone.Pairing (machine E)}
    {X : Error → Alone.Pairing (machine E)} (ho : o.asks = false) (ho' : o'.asks = false)
    (hsee : o.decoded = o'.decoded)
    (h : ∀ D w xs w' xs', R D → S.Pair D w xs w' xs' →
      (∀ c ∈ C, ∃ ctx, w.contexts c.1 = some ctx ∧ w'.contexts c.2 = some ctx) →
      ∀ r w₁, exec E S.thread o .ok w = some (r, w₁) →
        ∃ r' w₁', exec E S.thread o' .ok w' = some (r', w₁') ∧ Q r r' w₁ xs w₁' xs') :
    S.Twin E H (S.Hold R C) (perform o) (perform o') Q X := by
  refine .op hsee fun w xs x ys r w₁ w' xs' hP hx hexec => ?_
  obtain ⟨rfl, rfl⟩ := (choose_calm ho).mp hx
  obtain ⟨D, hD, hpair, hctx⟩ := hP
  obtain ⟨r', w₁', hexec', hQ⟩ := h D w xs w' xs' hD hpair hctx r w₁ hexec
  exact ⟨.ok, xs', r', w₁', (choose_calm ho').mpr ⟨rfl, rfl⟩, hexec', hQ⟩

/-- An operation whose outcome is the first decision. -/
theorem twin_asks {o o' : Op} {Q : o.Res → o'.Res → Alone.Pairing (machine E)}
    {X : Error → Alone.Pairing (machine E)} (ho : o.asks = true) (ho' : o'.asks = true)
    (hclock : o' ≠ .steadyClock) (hsee : o.decoded = o'.decoded)
    (h : ∀ D w xs w' xs' x, R D → S.Pair D w xs w' xs' →
      (∀ c ∈ C, ∃ ctx, w.contexts c.1 = some ctx ∧ w'.contexts c.2 = some ctx) →
      ∀ r w₁, exec E S.thread o x w = some (r, w₁) →
        ∃ r' w₁', exec E S.thread o' x w' = some (r', w₁') ∧ Q r r' w₁ xs w₁' xs') :
    S.Twin E H (S.Hold R C) (perform o) (perform o') Q X := by
  refine .op hsee fun w xs x ys r w₁ w' xs' hP hx hexec => ?_
  obtain rfl := (choose_asks ho).mp hx
  obtain ⟨D, hD, hpair, hctx⟩ := hP
  cases xs' with
  | nil => cases hpair.alike
  | cons x' ys' =>
    obtain ⟨halike, htail⟩ := hpair.tail
    obtain ⟨r', w₁', hexec', hQ⟩ := h D w ys w' ys' x hD htail hctx r w₁ hexec
    rw [exec_alike halike hclock] at hexec'
    exact ⟨x', ys', r', w₁', (choose_asks ho').mpr rfl, hexec', hQ⟩

theorem Sound.add {e : Event} (h : D.Sound S) (he : ∀ len bytes, e ≠ .forked len bytes) :
    (D.add e).Sound S := by
  intro len bytes hmem
  rcases List.mem_append.mp hmem with hold | hnew
  · exact h len bytes hold
  · exact absurd (List.mem_singleton.mp hnew).symm (he len bytes)

/-- Both threads record an event. -/
theorem Pair.record {e : Event} (h : S.Pair D w xs w' xs') (he : ∀ len bytes, e ≠ .forked len bytes) :
    S.Pair (D.add e) (w.record S.thread e) xs (w'.record S.thread e) xs' :=
  ⟨h.left.record e, h.right.record e, h.alike, Sound.add h.sound he⟩

/-- Contexts and batches are nobody else's business. -/
theorem Pair.frame (h : S.Pair D w xs w' xs') {c c' : Nat → Option LlamaContext} {n n' m m' : Nat}
    {b b' : Nat → Bool} :
    S.Pair D { w with contexts := c, nextContext := n, batches := b, nextBatch := m } xs
      { w' with contexts := c', nextContext := n', batches := b', nextBatch := m' } xs' :=
  ⟨h.left.frame, h.right.frame, h.alike, h.sound⟩

theorem twin_alloc (hR : ∀ D, R D → R' (D.add .badAlloc)) :
    S.Twin E H (S.Hold R C) alloc alloc (fun _ _ => S.Hold R C) fun _ => S.Hold R' none := by
  refine .bind (Q := fun b b' w xs w' xs' => (if b then S.Hold R C w xs w' xs'
    else S.Hold R' none w xs w' xs') ∧ b' = b)
    (twin_asks rfl rfl (by simp) rfl fun D w xs w' xs' x hD hpair hctx r w₁ hx => ?_) fun b b' =>
      .assume fun hb => ?_
  · cases x with
    | fail =>
      obtain ⟨rfl, rfl⟩ := Prod.mk.inj (Option.some.inj hx)
      exact ⟨false, _, rfl, ⟨_, hR D hD, hpair.record (by simp), fun c hc => by cases hc⟩, rfl⟩
    | _ =>
      obtain ⟨rfl, rfl⟩ := Prod.mk.inj (Option.some.inj hx)
      exact ⟨true, _, rfl, ⟨D, hD, hpair, hctx⟩, rfl⟩
  · subst hb
    cases b' with
    | true => exact .ret fun _ _ _ _ h => h
    | false => exact .throw fun _ _ _ _ h => h

/-- What the blackboard shows to a branch. -/
structure Shows (S : Sides) (s : PipelineState) : Prop where
  staging : s.materializedBranchBuffer = S.left.state.materializedBranchBuffer
  snapshots : s.prefixSnapshots = S.left.state.prefixSnapshots
  prefixSeqLen : s.prefixSeqLen = S.left.state.prefixSeqLen
  prefixKvSerialBytes : s.prefixKvSerialBytes = S.left.state.prefixKvSerialBytes

theorem twin_load (hS : S.Match) {X : Error → Alone.Pairing (machine E)} :
    S.Twin E H (S.Hold R C) (perform .load) (perform .load) (fun s s' w xs w' xs' =>
      S.Hold R C w xs w' xs' ∧ S.Shows s ∧ S.Shows s') X := by
  refine twin_calm rfl rfl rfl fun D w xs w' xs' hD hpair hctx r w₁ hx => ?_
  obtain ⟨rfl, rfl⟩ := Prod.mk.inj (Option.some.inj hx)
  refine ⟨w'.state, w', rfl, ⟨D, hD, hpair, hctx⟩, ?_, ?_⟩
  · rw [hpair.left.shared]
    exact ⟨rfl, rfl, rfl, rfl⟩
  · rw [hpair.right.shared]
    exact ⟨hS.staging, hS.snapshots, hS.prefixSeqLen, hS.prefixKvSerialBytes⟩

/-- New contexts are alike. -/
def Inits (S : Sides) (R : Deeds → Prop) : Option Nat → Option Nat → World → List Choice →
    World → List Choice → Prop
  | none, none => S.Hold R none
  | some h, some h' => S.Hold R (some (h, h'))
  | _, _ => fun _ _ _ _ => False

theorem twin_llamaInitFromModel {X : Error → Alone.Pairing (machine E)} :
    S.Twin E H (S.Hold R none) (perform .llamaInitFromModel) (perform .llamaInitFromModel)
      (fun r r' => S.Inits R r r') X := by
  refine twin_asks rfl rfl (by simp) rfl fun D w xs w' xs' x hD hpair _ r w₁ hx => ?_
  cases x with
  | fail =>
    obtain ⟨rfl, rfl⟩ := Prod.mk.inj (Option.some.inj hx)
    exact ⟨none, _, rfl, D, hD, hpair, fun c hc => by cases hc⟩
  | _ =>
    obtain ⟨rfl, rfl⟩ := Prod.mk.inj (Option.some.inj hx)
    refine ⟨some w'.nextContext, _, rfl, D, hD, hpair.frame, fun c hc => ?_⟩
    obtain rfl := Option.some.inj hc
    exact ⟨{ owner := S.thread }, Function.update_self _ _ _, Function.update_self _ _ _⟩

theorem twin_llamaFree {h h' : Nat} {X : Error → Alone.Pairing (machine E)} :
    S.Twin E H (S.Hold R C) (perform (.llamaFree h)) (perform (.llamaFree h'))
      (fun _ _ => S.Hold R none) X := by
  refine twin_calm rfl rfl rfl fun D w xs w' xs' hD hpair _ r w₁ hx => ?_
  obtain ⟨rfl, rfl⟩ := Prod.mk.inj (Option.some.inj hx)
  exact ⟨(), _, rfl, D, hD, hpair.frame, fun c hc => by cases hc⟩

/-- The clock may show another time on the other side. -/
theorem twin_clock {X : Error → Alone.Pairing (machine E)} :
    S.Twin E H (S.Hold R C) (perform .steadyClock) (perform .steadyClock) (fun _ _ => S.Hold R C)
      X := by
  have hclock : ∀ {x : Choice} {w w₁ : World} {r : Int},
      exec E S.thread .steadyClock x w = some (r, w₁) → w₁ = w := by
    intro x w w₁ r hx
    cases x <;> exact (Prod.mk.inj (Option.some.inj hx)).2.symm
  refine .op rfl fun w xs x ys r w₁ w' xs' hP hx hexec => ?_
  obtain rfl := (choose_asks rfl).mp hx
  obtain rfl := hclock hexec
  obtain ⟨D, hD, hpair, hctx⟩ := hP
  cases xs' with
  | nil => cases hpair.alike
  | cons x' ys' =>
    obtain ⟨r', hexec'⟩ : ∃ r' : Int, exec E S.thread .steadyClock x' w' = some (r', w') := by
      cases x' <;> exact ⟨_, rfl⟩
    exact ⟨x', ys', r', w', (choose_asks rfl).mpr rfl, hexec', D, hD, hpair.tail.2, hctx⟩

/-! ## The fork buffer -/

theorem twin_getRequiredKvSize (nCtx : Nat) :
    S.Twin E H (S.Hold R none) (MemoryPool.getRequiredKvSize nCtx)
      (MemoryPool.getRequiredKvSize nCtx) (fun n n' w xs w' xs' => S.Hold R none w xs w' xs' ∧ n' = n)
      fun _ => S.Hold R none := by
  unfold MemoryPool.getRequiredKvSize
  refine .bind twin_llamaInitFromModel fun r r' => ?_
  cases r with
  | none =>
    cases r' with
    | none => exact .throw fun _ _ _ _ h => h
    | some h' => exact .never fun _ _ _ _ h => h
  | some h =>
    cases r' with
    | none => exact .never fun _ _ _ _ h => h
    | some h' =>
      refine .bind (Q := fun n n' w xs w' xs' => S.Hold R (some (h, h')) w xs w' xs' ∧ n' = n)
        (twin_calm rfl rfl rfl fun D w xs w' xs' hD hpair hctx n w₁ hx => ?_) fun n n' =>
          .assume fun hn => ?_
      · obtain ⟨rfl, rfl⟩ := Prod.mk.inj (Option.some.inj hx)
        exact ⟨_, _, rfl, ⟨D, hD, hpair, hctx⟩, rfl⟩
      · subst hn
        exact .bind twin_llamaFree fun _ _ => .ret fun _ _ _ _ h => ⟨h, rfl⟩

/-- The handles of the fork buffers, if there are any. -/
def Handles (S : Sides) (D : Deeds) (b b' : Option Nat) : Prop :=
  b = none ∧ b' = none ∧ D.buffer = none ∨
    b = some S.left.nextBuffer ∧ b' = some S.right.nextBuffer ∧ D.buffer.isSome

/-- A branch that has a new buffer. -/
def Allocated (D : Deeds) : Prop := ∃ size, D = { buffer := some ⟨size, []⟩, pooled := true }

/-- New buffers are alike. -/
def Grants (S : Sides) : Option Nat → Option Nat → World → List Choice → World → List Choice → Prop
  | none, none => S.Hold (· = {}) none
  | some b, some b' => fun w xs w' xs' =>
    S.Hold (fun D => ∃ size, D = { buffer := some ⟨size, []⟩ }) none w xs w' xs' ∧
      b = S.left.nextBuffer ∧ b' = S.right.nextBuffer
  | _, _ => fun _ _ _ _ => False

theorem twin_allocateBranchCache (nCtx : Nat) :
    S.Twin E H (S.Hold (· = {}) none) (MemoryPool.allocateBranchCache nCtx)
      (MemoryPool.allocateBranchCache nCtx) (fun b b' w xs w' xs' =>
        S.Hold Allocated none w xs w' xs' ∧ b = S.left.nextBuffer ∧ b' = S.right.nextBuffer)
      fun _ => S.Hold Deeds.Quiet none := by
  have hquiet : ∀ {w xs w' xs'}, S.Hold (· = {}) none w xs w' xs' →
      S.Hold Deeds.Quiet none w xs w' xs' :=
    fun h => h.mono fun D hD => by rw [hD]; exact ⟨rfl, rfl, rfl⟩
  unfold MemoryPool.allocateBranchCache
  refine .withLock (.bind (.conseq (twin_getRequiredKvSize nCtx) (fun _ _ _ _ h => h)
    (fun _ _ _ _ _ _ h => h) fun _ _ _ _ _ h => hquiet h) fun size size' => .assume fun hsize => ?_)
  subst hsize
  -- both sides get a buffer, or neither
  refine .bind (Q := fun b b' => S.Grants b b') (twin_asks rfl rfl (by simp) rfl
    fun D w xs w' xs' x hD hpair _ r w₁ hx => ?_) fun b b' => ?_
  · subst hD
    cases x with
    | fail =>
      obtain ⟨rfl, rfl⟩ := Prod.mk.inj (Option.some.inj hx)
      exact ⟨none, _, rfl, _, rfl, hpair, fun c hc => by cases hc⟩
    | _ =>
      obtain ⟨rfl, rfl⟩ := Prod.mk.inj (Option.some.inj hx)
      refine ⟨some w'.nextBuffer, _, rfl, ⟨_, ⟨size', rfl⟩, ⟨hpair.left.alloc rfl _,
        hpair.right.alloc rfl _, hpair.alike, fun len bytes hmem => by cases hmem⟩,
        fun c hc => by cases hc⟩, ?_, ?_⟩
      · rw [hpair.left.nextBuffer]
        rfl
      · rw [hpair.right.nextBuffer]
        rfl
  · cases b with
    | none =>
      cases b' with
      | none => exact .throw fun _ _ _ _ h => hquiet h
      | some b' => exact .never fun _ _ _ _ h => h
    | some b =>
      cases b' with
      | none => exact .never fun _ _ _ _ h => h
      | some b' =>
        refine .assume fun hb => ?_
        obtain ⟨rfl, rfl⟩ := hb
        -- registered
        refine .bind (twin_alloc fun D hD => ?_) fun _ _ => .bind (Q := fun _ _ =>
          S.Hold Allocated none) (twin_calm rfl rfl rfl fun D w xs w' xs' hD hpair _ r w₁ hx => ?_)
          fun _ _ => .ret fun _ _ _ _ h => ⟨h, rfl, rfl⟩
        · obtain ⟨size, rfl⟩ := hD
          exact ⟨rfl, rfl, rfl⟩
        · obtain ⟨size, rfl⟩ := hD
          obtain ⟨rfl, rfl⟩ := Prod.mk.inj (Option.some.inj hx)
          exact ⟨(), _, rfl, _, ⟨size, rfl⟩, ⟨hpair.left.push rfl rfl, hpair.right.push rfl rfl,
            hpair.alike, fun len bytes hmem => by cases hmem⟩, fun c hc => by cases hc⟩

/-- What a branch forks is what it has chosen. -/
structure Chosen (S : Sides) (fork : AnalyticalNode.Fork) : Prop where
  prefixLen : fork.prefixLen = S.node.chosenLen S.left
  kvBytes : fork.kvBytes = S.node.chosenSize S.left
  data : ∀ p, fork.data = some p → S.node.chosenSource S.left = some p

theorem twin_tryGetPrefixSnapshot (hS : S.Match) (t : Int) {X : Error → Alone.Pairing (machine E)} :
    S.Twin E H (S.Hold R C) (PipelineState.tryGetPrefixSnapshot t)
      (PipelineState.tryGetPrefixSnapshot t) (fun r r' w xs w' xs' => S.Hold R C w xs w' xs' ∧
        r' = r ∧ r = (S.left.state.prefixSnapshots t).map fun snap =>
          (if snap.data.isEmpty then none else some (.snapshot t), snap.data.length, snap.seqLen)) X := by
  refine .withLock (.bind (twin_load hS) fun s s' => .assume fun hs => ?_)
  rw [hs.1.snapshots, hs.2.snapshots]
  cases S.left.state.prefixSnapshots t with
  | none => exact .ret fun _ _ _ _ h => ⟨h, rfl, rfl⟩
  | some snap => exact .ret fun _ _ _ _ h => ⟨h, rfl, rfl⟩

theorem twin_chooseFork (hS : S.Match) :
    S.Twin E H (S.Hold R C) S.node.chooseFork S.node.chooseFork (fun fork fork' w xs w' xs' =>
      S.Hold R C w xs w' xs' ∧ fork' = fork ∧ S.Chosen fork) fun _ => S.Hold R C := by
  unfold AnalyticalNode.chooseFork
  refine .ite (fun hreq => ?_) fun hreq => ?_
  · refine .bind (twin_tryGetPrefixSnapshot hS _) fun r r' => .assume fun hr => ?_
    obtain ⟨rfl, rfl⟩ := hr
    cases hsnap : S.left.state.prefixSnapshots S.node.requiredPrefixTokens with
    | none => exact .throw fun _ _ _ _ h => h
    | some snap =>
      refine .ret fun _ _ _ _ h => ⟨h, rfl, ?_, ?_, fun p hp => ?_⟩
      · simp [AnalyticalNode.chosenLen, if_pos hreq, hsnap]
      · simp [AnalyticalNode.chosenSize, if_pos hreq, hsnap]
      · dsimp only at hp
        split at hp
        · cases hp
        · rw [← hp, AnalyticalNode.chosenSource, if_pos hreq]
  · refine .bind (twin_load hS) fun s₁ s₁' => .assume fun hs₁ => ?_
    refine .bind (twin_load hS) fun s₂ s₂' => .assume fun hs₂ => ?_
    rw [hs₁.1.prefixSeqLen, hs₁.2.prefixSeqLen, hs₂.1.prefixKvSerialBytes,
      hs₂.2.prefixKvSerialBytes]
    have hchosen : ∀ data : Option DataPtr, (∀ p, data = some p →
        S.left.state.materializedBranchBuffer.map .buffer = some p) →
        S.Chosen ⟨S.left.state.prefixSeqLen, S.left.state.prefixKvSerialBytes, data⟩ := by
      intro data hdata
      refine ⟨?_, ?_, fun p hp => ?_⟩
      · rw [AnalyticalNode.chosenLen, if_neg hreq]
      · rw [AnalyticalNode.chosenSize, if_neg hreq]
      · rw [AnalyticalNode.chosenSource, if_neg hreq]
        exact hdata p hp
    refine .ite (fun _ => .bind (twin_load hS) fun s₃ s₃' => .assume fun hs₃ => ?_) fun _ =>
      .ret fun _ _ _ _ h => ⟨h, rfl, hchosen none fun p hp => by cases hp⟩
    rw [hs₃.1.staging, hs₃.2.staging]
    cases hb : S.left.state.materializedBranchBuffer with
    | none => exact .throw fun _ _ _ _ h => h
    | some b =>
      exact .ret fun _ _ _ _ h => ⟨h, rfl, hchosen _ fun p hp => by rw [hb, ← hp]; rfl⟩

/-! ### Reading the source -/

/-- The source is what it was, on both sides. -/
theorem Pair.bytesAt (hS : S.Match) (h : S.Pair D w xs w' xs') {p : DataPtr}
    (hp : S.node.chosenSource S.left = some p) (n : Nat) :
    w.bytesAt p n = S.left.bytesAt p n ∧ w'.bytesAt p n = S.left.bytesAt p n := by
  unfold AnalyticalNode.chosenSource at hp
  split at hp
  · obtain rfl := Option.some.inj hp
    exact ⟨by simp only [World.bytesAt, h.left.snapshots],
      by simp only [World.bytesAt, h.right.snapshots, hS.snapshots]⟩
  · obtain ⟨b, hb, rfl⟩ := Option.map_eq_some_iff.mp hp
    have hleft := h.left.buffer_old (hS.issued.1.staging b hb)
    have hright := h.right.buffer_old (hS.issued.2.staging b (hS.staging.trans hb))
    exact ⟨by simp only [World.bytesAt, hleft],
      by simp only [World.bytesAt, hright, hS.bytes b hb]⟩

theorem twin_readBytes (hS : S.Match) {p : DataPtr} (hp : S.node.chosenSource S.left = some p)
    {X : Error → Alone.Pairing (machine E)} :
    S.Twin E H (S.Hold R C) (perform (.readBytes p (S.node.chosenSize S.left)))
      (perform (.readBytes p (S.node.chosenSize S.left))) (fun r r' w xs w' xs' =>
        S.Hold R C w xs w' xs' ∧ r = S.node.chosenBytes S.left ∧ r' = S.node.chosenBytes S.left)
      X := by
  refine twin_calm rfl rfl rfl fun D w xs w' xs' hD hpair hctx r w₁ hx => ?_
  obtain ⟨rfl, rfl⟩ := Prod.mk.inj (Option.some.inj hx)
  have hbytes := hpair.bytesAt hS hp (S.node.chosenSize S.left)
  have hchosen : S.node.chosenBytes S.left = S.left.bytesAt p (S.node.chosenSize S.left) := by
    rw [AnalyticalNode.chosenBytes, hp, Option.elim_some]
  exact ⟨_, _, rfl, ⟨D, hD, hpair, hctx⟩, hbytes.1.trans hchosen.symm, hbytes.2.trans hchosen.symm⟩

/-- The size of the staging buffer. -/
theorem twin_stagingSize (hS : S.Match) {b : Nat}
    (hb : S.left.state.materializedBranchBuffer = some b)
    {X : Error → Alone.Pairing (machine E)} :
    S.Twin E H (S.Hold R C) (perform (.bufferSize b)) (perform (.bufferSize b))
      (fun r r' w xs w' xs' => S.Hold R C w xs w' xs' ∧ r' = r) X := by
  refine twin_calm rfl rfl rfl fun D w xs w' xs' hD hpair hctx r w₁ hx => ?_
  obtain ⟨rfl, rfl⟩ := Prod.mk.inj (Option.some.inj hx)
  refine ⟨_, _, rfl, ⟨D, hD, hpair, hctx⟩, ?_⟩
  rw [hpair.left.buffer_old (hS.issued.1.staging b hb),
    hpair.right.buffer_old (hS.issued.2.staging b (hS.staging.trans hb)), hS.bytes b hb]

/-- The size of the fork buffers. -/
theorem twin_forkSize {X : Error → Alone.Pairing (machine E)} :
    S.Twin E H (S.Hold Allocated C) (perform (.bufferSize S.left.nextBuffer))
      (perform (.bufferSize S.right.nextBuffer))
      (fun r r' w xs w' xs' => S.Hold Allocated C w xs w' xs' ∧ r' = r) X := by
  refine twin_calm rfl rfl rfl fun D w xs w' xs' hD hpair hctx r w₁ hx => ?_
  obtain ⟨rfl, rfl⟩ := Prod.mk.inj (Option.some.inj hx)
  refine ⟨_, _, rfl, ⟨D, hD, hpair, hctx⟩, ?_⟩
  obtain ⟨size, rfl⟩ := hD
  rw [hpair.left.buffer_new rfl, hpair.right.buffer_new rfl]

/-- The fork buffer holds the bytes of the source. -/
def Copied (S : Sides) (D : Deeds) : Prop :=
  ∃ size, D = { buffer := some ⟨size, S.node.chosenBytes S.left⟩, pooled := true }

theorem twin_writeBytes {X : Error → Alone.Pairing (machine E)} :
    S.Twin E H (S.Hold Allocated none)
      (perform (.writeBytes S.left.nextBuffer (S.node.chosenBytes S.left)))
      (perform (.writeBytes S.right.nextBuffer (S.node.chosenBytes S.left)))
      (fun _ _ => S.Hold S.Copied none) X := by
  refine twin_calm rfl rfl rfl fun D w xs w' xs' hD hpair hctx r w₁ hx => ?_
  obtain ⟨rfl, rfl⟩ := Prod.mk.inj (Option.some.inj hx)
  obtain ⟨size, rfl⟩ := hD
  refine ⟨_, _, rfl, _, ⟨size, ?_⟩, ⟨hpair.left.overwrite rfl _, hpair.right.overwrite rfl _,
    hpair.alike, fun len bytes hmem => by cases hmem⟩, hctx⟩
  simp

/-! ### The copy -/

theorem Hold.quiet_allocated (h : S.Hold Allocated none w xs w' xs') :
    S.Hold Deeds.Quiet none w xs w' xs' := by
  refine h.mono fun D hD => ?_
  obtain ⟨size, rfl⟩ := hD
  exact ⟨rfl, rfl, rfl⟩

/-- The copy out of the staging buffer. -/
theorem twin_materializeBranchCache (hS : S.Match) {b : Nat}
    (hb : S.left.state.materializedBranchBuffer = some b)
    (hp : S.node.chosenSource S.left = some (.buffer b)) (hpos : S.node.chosenSize S.left ≠ 0) :
    S.Twin E H (S.Hold Allocated none)
      (KVHandoff.materializeBranchCache (some b) (some S.left.nextBuffer)
        (S.node.chosenSize S.left))
      (KVHandoff.materializeBranchCache (some b) (some S.right.nextBuffer)
        (S.node.chosenSize S.left))
      (fun _ _ => S.Hold S.Copied none) fun _ => S.Hold Deeds.Quiet none := by
  unfold KVHandoff.materializeBranchCache
  refine .bind (twin_stagingSize hS hb) fun cap cap' => .assume fun hcap => ?_
  subst hcap
  refine .bind twin_forkSize fun size size' => .assume fun hsize => ?_
  subst hsize
  refine .ite (fun _ => .throw fun _ _ _ _ h => h.quiet_allocated) fun _ => ?_
  rw [if_neg hpos]
  refine .bind (twin_readBytes hS hp) fun bytes bytes' => .assume fun hbytes => ?_
  obtain ⟨rfl, rfl⟩ := hbytes
  exact twin_writeBytes

/-- The fork of a branch, with its handles. -/
def Forked (S : Sides) (b b' : Option Nat) (D : Deeds) : Prop :=
  b = none ∧ b' = none ∧ D = {} ∧ S.node.chosenSize S.left = 0 ∨
    b = some S.left.nextBuffer ∧ b' = some S.right.nextBuffer ∧ S.Copied D

theorem twin_materializeFork (hS : S.Match) (ctx : OrchestratorContext)
    {fork : AnalyticalNode.Fork} (hfork : S.Chosen fork) :
    S.Twin E H (S.Hold (· = {}) none) (S.node.materializeFork ctx fork)
      (S.node.materializeFork ctx fork) (fun b b' => S.Hold (S.Forked b b') none)
      fun _ => S.Hold Deeds.Quiet none := by
  have hcopied : ∀ {w xs w' xs'}, S.Hold S.Copied none w xs w' xs' →
      S.Hold (S.Forked (some S.left.nextBuffer) (some S.right.nextBuffer)) none w xs w' xs' :=
    fun h => h.mono fun D hD => .inr ⟨rfl, rfl, hD⟩
  unfold AnalyticalNode.materializeFork
  rw [hfork.kvBytes]
  refine .ite (fun hpos => ?_) fun hzero => .ret fun _ _ _ _ h => h.mono fun D hD =>
    .inl ⟨rfl, rfl, hD, by omega⟩
  cases hdata : fork.data with
  | none => exact .throw fun _ _ _ _ h => h.mono fun D hD => by rw [hD]; exact ⟨rfl, rfl, rfl⟩
  | some p =>
    have hp := hfork.data p hdata
    refine .bind (twin_allocateBranchCache ctx.nCtx) fun b b' => .assume fun hb => ?_
    obtain ⟨rfl, rfl⟩ := hb
    refine .bind (twin_load hS) fun s s' => .assume fun hs => ?_
    rw [hs.1.staging, hs.2.staging]
    refine .ite (fun hfull => ?_) fun _ => ?_
    · obtain ⟨staging, hstaging⟩ := Option.isSome_iff_exists.mp hfull.1
      have hsource : S.node.chosenSource S.left = some (.buffer staging) := by
        rw [AnalyticalNode.chosenSource, if_neg (not_le.mpr hfull.2), hstaging]
        rfl
      rw [hstaging]
      exact .bind (twin_materializeBranchCache hS hstaging hsource (Nat.pos_iff_ne_zero.mp hpos))
        fun _ _ => .ret fun _ _ _ _ h => hcopied h
    · refine .bind twin_forkSize fun size size' => .assume fun hsize => ?_
      subst hsize
      refine .ite (fun _ => .throw fun _ _ _ _ h => h.quiet_allocated) fun _ => ?_
      refine .bind (twin_readBytes hS hp) fun bytes bytes' => .assume fun hbytes => ?_
      obtain ⟨rfl, rfl⟩ := hbytes
      exact .bind twin_writeBytes fun _ _ => .ret fun _ _ _ _ h => hcopied h

theorem take_chosenBytes (node : AnalyticalNode) (w : World) :
    (node.chosenBytes w).take (node.chosenSize w) = node.chosenBytes w := by
  unfold AnalyticalNode.chosenBytes
  cases node.chosenSource w with
  | none => exact List.take_nil
  | some p => cases p <;> simp [World.bytesAt, List.take_take]

theorem chosenBytes_eq_nil {node : AnalyticalNode} {w : World} (h : node.chosenSize w = 0) :
    node.chosenBytes w = [] := by
  rw [← take_chosenBytes, h, List.take_zero]

/-- The record of a fork is true. -/
theorem Forked.sound {b b' : Option Nat} (h : S.Forked b b' D) :
    (D.add (.forked (S.node.chosenLen S.left) (S.node.chosenBytes S.left))).Sound S := by
  intro len bytes hmem
  have hevents : D.events = [] := by
    rcases h with ⟨-, -, rfl, -⟩ | ⟨-, -, size, rfl⟩ <;> rfl
  rw [Deeds.add, hevents, List.nil_append, List.mem_singleton, Event.forked.injEq] at hmem
  obtain ⟨rfl, rfl⟩ := hmem
  refine ⟨rfl, rfl, ?_⟩
  rcases h with ⟨-, -, rfl, hzero⟩ | ⟨-, -, size, rfl⟩
  · exact (chosenBytes_eq_nil hzero).symm
  · exact take_chosenBytes _ _

/-- The fork is on record, the same on both sides. -/
theorem twin_noteFork {b b' : Option Nat} {X : Error → Alone.Pairing (machine E)} :
    S.Twin E H (S.Hold (S.Forked b b') none)
      (perform (.noteFork (S.node.chosenLen S.left) b (S.node.chosenSize S.left)))
      (perform (.noteFork (S.node.chosenLen S.left) b' (S.node.chosenSize S.left)))
      (fun _ _ => S.Hold (fun D => D.Quiet ∧ S.Handles D b b') none) X := by
  refine twin_calm rfl rfl rfl fun D w xs w' xs' hD hpair hctx r w₁ hx => ?_
  obtain ⟨rfl, rfl⟩ := Prod.mk.inj (Option.some.inj hx)
  have hbytes : w.branchBytes b (S.node.chosenSize S.left) = S.node.chosenBytes S.left ∧
      w'.branchBytes b' (S.node.chosenSize S.left) = S.node.chosenBytes S.left := by
    rcases hD with ⟨rfl, rfl, rfl, hzero⟩ | ⟨rfl, rfl, size, rfl⟩
    · exact ⟨(chosenBytes_eq_nil hzero).symm, (chosenBytes_eq_nil hzero).symm⟩
    · simp only [World.branchBytes, Option.elim_some, World.bytesAt, hpair.left.buffer_new rfl,
        hpair.right.buffer_new rfl, Option.map_some, Option.getD_some, take_chosenBytes, and_self]
  refine ⟨(), _, rfl, _, ⟨?_, ?_⟩, ⟨hbytes.1 ▸ hpair.left.record _, hbytes.2 ▸ hpair.right.record _,
    hpair.alike, hD.sound⟩, hctx⟩
  · rcases hD with ⟨-, -, rfl, -⟩ | ⟨-, -, size, rfl⟩ <;> exact ⟨rfl, rfl, rfl⟩
  · rcases hD with ⟨rfl, rfl, rfl, -⟩ | ⟨rfl, rfl, size, rfl⟩
    · exact .inl ⟨rfl, rfl, rfl⟩
    · exact .inr ⟨rfl, rfl, rfl⟩

/-! ## The context -/

section Context

variable {h h' : Nat} {b b' : Option Nat} {key : String}

/-- A quiet branch with its fork buffer. -/
def Waiting (S : Sides) (b b' : Option Nat) (D : Deeds) : Prop := D.Quiet ∧ S.Handles D b b'

theorem Waiting.add (hD : S.Waiting b b' D) (e : Event) : S.Waiting b b' (D.add e) :=
  ⟨hD.1.add e, hD.2⟩

/-- The restore of the fork, of the same bytes on both sides. -/
theorem twin_setData {n : Nat} {seq : Int} {b b' : Nat} {X : Error → Alone.Pairing (machine E)} :
    S.Twin E H (S.Hold (S.Waiting (some b) (some b')) (some (h, h')))
      (perform (.llamaStateSeqSetData h (.buffer b) n seq))
      (perform (.llamaStateSeqSetData h' (.buffer b') n seq))
      (fun r r' w xs w' xs' => S.Hold (S.Waiting (some b) (some b')) (some (h, h')) w xs w' xs' ∧
        r' = r) X := by
  refine twin_asks rfl rfl (by simp) rfl fun D w xs w' xs' x hD hpair hctx r w₁ hx => ?_
  obtain ⟨ctx, hl, hr⟩ := hctx (h, h') rfl
  have hbytes : w'.bytesAt (.buffer b') n = w.bytesAt (.buffer b) n := by
    rcases hD.2 with ⟨hb, -⟩ | ⟨hb, hb', hsome⟩
    · cases hb
    · obtain ⟨buf, hbuf⟩ := Option.isSome_iff_exists.mp hsome
      obtain rfl := Option.some.inj hb
      obtain rfl := Option.some.inj hb'
      simp only [World.bytesAt, hpair.left.buffer_new hbuf, hpair.right.buffer_new hbuf]
  cases x with
  | fail =>
    obtain ⟨rfl, rfl⟩ := Prod.mk.inj (Option.some.inj hx)
    exact ⟨0, w', rfl, ⟨D, hD, hpair, hctx⟩, rfl⟩
  | _ =>
    simp only [exec, hl] at hx
    simp only [exec, hr, hbytes]
    cases hs : E.restore (w.bytesAt (.buffer b) n) with
    | none =>
      rw [hs] at hx
      obtain ⟨rfl, rfl⟩ := Prod.mk.inj (Option.some.inj hx)
      exact ⟨0, w', rfl, ⟨D, hD, hpair, hctx⟩, rfl⟩
    | some s =>
      rw [hs] at hx
      obtain ⟨rfl, rfl⟩ := Prod.mk.inj (Option.some.inj hx)
      refine ⟨_, _, rfl, ⟨_, Waiting.add hD _, Pair.record (Pair.frame hpair) (by simp),
        fun c hc => ?_⟩, rfl⟩
      obtain rfl := Option.some.inj hc
      refine ⟨{ ctx with cells := restoreSeq seq s ctx.cells }, ?_, ?_⟩
      · simp [World.setCells, World.record, hl]
      · simp [World.setCells, World.record, hr]

/-- Both sides have a fork buffer, or neither has. -/
theorem Waiting.cases (hD : S.Waiting b b' D) :
    b = none ∧ b' = none ∨ ∃ n n', b = some n ∧ b' = some n' := by
  rcases hD.2 with ⟨hb, hb', -⟩ | ⟨hb, hb', -⟩
  · exact .inl ⟨hb, hb'⟩
  · exact .inr ⟨_, _, hb, hb'⟩

theorem Hold.quiet (hw : S.Hold (S.Waiting b b') C w xs w' xs') :
    S.Hold Deeds.Quiet none w xs w' xs' := (hw.mono fun _ hD => hD.1).forget

theorem twin_restoreFork (fork : AnalyticalNode.Fork) :
    S.Twin E H (S.Hold (S.Waiting b b') (some (h, h'))) (AnalyticalNode.restoreFork h fork b)
      (AnalyticalNode.restoreFork h' fork b')
      (fun _ _ => S.Hold (S.Waiting b b') (some (h, h'))) fun _ => S.Hold Deeds.Quiet none := by
  cases b with
  | none =>
    cases b' with
    | none => exact .ret fun _ _ _ _ hw => hw
    | some b' =>
      refine .never fun _ _ _ _ hw => ?_
      obtain ⟨D, hD, -⟩ := hw
      simpa using hD.cases
  | some b =>
    cases b' with
    | none =>
      refine .never fun _ _ _ _ hw => ?_
      obtain ⟨D, hD, -⟩ := hw
      simpa using hD.cases
    | some b' =>
      refine .bind twin_setData fun n n' => .assume fun hn => ?_
      subst hn
      refine .ite (fun _ => ?_) fun _ => .ret fun _ _ _ _ hw => hw
      exact .bind twin_llamaFree fun _ _ => .throw fun _ _ _ _ hw => hw.quiet

/-! ## The prompt -/

theorem twin_bindTargetOf (hS : S.Match) {X : Error → Alone.Pairing (machine E)} :
    S.Twin E H (S.Hold (S.Waiting b b') C) (AnalyticalNode.bindTargetOf b)
      (AnalyticalNode.bindTargetOf b') (fun r r' w xs w' xs' =>
        S.Hold (S.Waiting b b') C w xs w' xs' ∧ r'.isNone = r.isNone) X := by
  cases b with
  | none =>
    cases b' with
    | none =>
      refine .bind (twin_load hS) fun s s' => .assume fun hs => .ret fun _ _ _ _ hw => ⟨hw, ?_⟩
      rw [hs.1.staging, hs.2.staging]
    | some b' =>
      refine .never fun _ _ _ _ hw => ?_
      obtain ⟨D, hD, -⟩ := hw
      simpa using hD.cases
  | some b =>
    cases b' with
    | none =>
      refine .never fun _ _ _ _ hw => ?_
      obtain ⟨D, hD, -⟩ := hw
      simpa using hD.cases
    | some b' => exact .ret fun _ _ _ _ hw => ⟨hw, rfl⟩

theorem twin_tokenizeWith (failure : Error) (text : String)
    (hR : ∀ D, R D → R' (D.add .badAlloc)) (hR' : ∀ D, R D → R' D) :
    S.Twin E H (S.Hold R C) (tokenizeWith failure E text) (tokenizeWith failure E text)
      (fun t t' w xs w' xs' => S.Hold R C w xs w' xs' ∧ t' = t ∧ tokensOf E text = some t)
      fun _ => S.Hold R' none := by
  unfold tokenizeWith
  refine .bind (twin_alloc hR) fun _ _ => .ite (fun hneg => .bind (twin_alloc hR) fun _ _ =>
    .ite (fun hneg' => ?_) fun hpos => ?_) fun hpos => ?_
  · exact .throw fun _ _ _ _ hw => (hw.mono hR').forget
  · exact .ret fun _ _ _ _ hw => ⟨hw, rfl, by simp only [tokensOf, hneg, if_true, hpos, if_false]⟩
  · exact .ret fun _ _ _ _ hw => ⟨hw, rfl, by simp only [tokensOf, hpos, if_false]⟩

theorem twin_maxBranchTokens (hR : ∀ D, R D → R' (D.add .badAlloc)) (hR' : ∀ D, R D → R' D)
    (prompts : List String) (most : Int) :
    S.Twin E H (S.Hold R C) (maxBranchTokens E prompts most) (maxBranchTokens E prompts most)
      (fun n n' w xs w' xs' => S.Hold R C w xs w' xs' ∧ n' = n) fun _ => S.Hold R' none := by
  induction prompts generalizing most with
  | nil => exact .ret fun _ _ _ _ hw => ⟨hw, rfl⟩
  | cons prompt rest ih =>
    refine .bind (twin_tokenizeWith _ prompt hR hR') fun t t' => .assume fun ht => ?_
    obtain ⟨rfl, -⟩ := ht
    exact ih _

theorem twin_validateContextBudget (hR : ∀ D, R D → R' (D.add .badAlloc))
    (hR' : ∀ D, R D → R' D) (len : Int) (prompts : List String) (nCtx : Nat) :
    S.Twin E H (S.Hold R C) (swarmkvValidateContextBudget E len prompts nCtx)
      (swarmkvValidateContextBudget E len prompts nCtx) (fun _ _ => S.Hold R C)
      fun _ => S.Hold R' none := by
  have hthrow : ∀ {w xs w' xs'}, S.Hold R C w xs w' xs' → S.Hold R' none w xs w' xs' :=
    fun hw => (hw.mono hR').forget
  unfold swarmkvValidateContextBudget
  refine .ite (fun _ => .throw fun _ _ _ _ hw => hthrow hw) fun _ => ?_
  refine .bind (twin_maxBranchTokens hR hR' prompts 0) fun n n' => .assume fun hn => ?_
  subst hn
  exact .ite (fun _ => .throw fun _ _ _ _ hw => hthrow hw) fun _ => .ret fun _ _ _ _ hw => hw

theorem twin_preparePrompt (hS : S.Match) (ctx : OrchestratorContext) (hE : ctx.engine = E)
    (fork : AnalyticalNode.Fork) :
    S.Twin E H (S.Hold (S.Waiting b b') (some (h, h'))) (S.node.preparePrompt ctx h b fork)
      (S.node.preparePrompt ctx h' b' fork) (fun t t' w xs w' xs' =>
        S.Hold Deeds.Quiet (some (h, h')) w xs w' xs' ∧ t' = t ∧
          tokensOf E S.node.branchPrompt = some t) fun _ => S.Hold Deeds.Quiet none := by
  subst hE
  unfold AnalyticalNode.preparePrompt
  refine .bind (twin_bindTargetOf hS) fun r r' => .assume fun hr => ?_
  refine .bind (Q := fun _ _ => S.Hold Deeds.Quiet (some (h, h'))) ?_ fun _ _ => ?_
  · unfold KVHandoff.bindContiguousCache
    rw [hr]
    exact .ite (fun _ => .throw fun _ _ _ _ hw => hw.quiet) fun _ =>
      .ret fun _ _ _ _ hw => hw.mono fun _ hD => hD.1
  · have hadd : ∀ D : Deeds, D.Quiet → (D.add .badAlloc).Quiet := fun _ hD => hD.add _
    refine .bind (twin_tokenizeWith _ _ hadd fun _ hD => hD) fun t t' => .assume fun ht => ?_
    obtain ⟨rfl, ht⟩ := ht
    refine .ite (fun _ => ?_) fun _ => ?_
    · exact .bind twin_llamaFree fun _ _ => .throw fun _ _ _ _ hw => hw
    · refine .bind (.catch' (twin_validateContextBudget hadd (fun _ hD => hD) _ _ _) fun e => ?_)
        fun _ _ => .ret fun _ _ _ _ hw => ⟨hw, rfl, ht⟩
      exact .bind twin_llamaFree fun _ _ => .throw fun _ _ _ _ hw => hw

/-! ## The decode -/

/-- A branch that has published its output. -/
structure Published (line : String) (D : Deeds) : Prop where
  output : D.output = some line
  consumed : D.consumed = false
  timed : D.timed = false

theorem twin_decode {batch batch' : LlamaBatch} (hslots : batch.slots = batch'.slots)
    (htokens : batch.nTokens = batch'.nTokens) {X : Error → Alone.Pairing (machine E)} :
    S.Twin E H (S.Hold R (some (h, h'))) (perform (.llamaDecode h batch))
      (perform (.llamaDecode h' batch'))
      (fun r r' w xs w' xs' => S.Hold R none w xs w' xs' ∧ r' = r) X := by
  refine twin_asks rfl rfl (by simp) (congrArg some hslots)
    fun D w xs w' xs' x hD hpair hctx r w₁ hx => ?_
  obtain ⟨ctx, hl, hr⟩ := hctx (h, h') rfl
  cases x with
  | fail =>
    obtain ⟨rfl, rfl⟩ := Prod.mk.inj (Option.some.inj hx)
    exact ⟨false, w', rfl, ⟨D, hD, hpair, fun c hc => by cases hc⟩, rfl⟩
  | _ =>
    simp only [exec, hl] at hx
    simp only [exec, hr, ← htokens]
    by_cases hpos : 0 < batch.nTokens
    · rw [if_pos hpos] at hx
      obtain ⟨rfl, rfl⟩ := Prod.mk.inj (Option.some.inj hx)
      exact ⟨true, _, if_pos hpos, ⟨D, hD, hpair.frame, fun c hc => by cases hc⟩, rfl⟩
    · rw [if_neg hpos] at hx
      obtain ⟨rfl, rfl⟩ := Prod.mk.inj (Option.some.inj hx)
      exact ⟨false, w', if_neg hpos, ⟨D, hD, hpair, fun c hc => by cases hc⟩, rfl⟩

theorem twin_publishOutput (hname : S.name = key) (nTok : Nat) (fork : AnalyticalNode.Fork) :
    S.Twin E H (S.Hold Deeds.Quiet C) (S.node.publishOutput key nTok fork)
      (S.node.publishOutput key nTok fork)
      (fun _ _ => S.Hold (Published (S.node.statusLine nTok fork.prefixLen)) none)
      fun _ => S.Hold Deeds.Quiet none := by
  subst hname
  refine .withLock (.bind (twin_alloc fun _ hD => hD.add _) fun _ _ =>
    twin_calm rfl rfl rfl fun D w xs w' xs' hD hpair hctx r w₁ hx => ?_)
  obtain ⟨rfl, rfl⟩ := Prod.mk.inj (Option.some.inj hx)
  exact ⟨(), _, rfl, { D with output := some (S.node.statusLine nTok fork.prefixLen) },
    ⟨rfl, hD.consumed, hD.timed⟩, ⟨hpair.left.putOutput hD.output _,
    hpair.right.putOutput hD.output _, hpair.alike, hpair.sound⟩, fun c hc => by cases hc⟩

theorem twin_decodePrompt (ctx : OrchestratorContext) (hname : S.name = ctx.nodeName)
    (tokens : List LlamaToken) (fork : AnalyticalNode.Fork) :
    S.Twin E H (S.Hold Deeds.Quiet (some (h, h'))) (S.node.decodePrompt ctx h tokens fork)
      (S.node.decodePrompt ctx h' tokens fork)
      (fun _ _ => S.Hold (Published (S.node.statusLine tokens.length fork.prefixLen)) none)
      fun _ => S.Hold Deeds.Quiet none := by
  unfold AnalyticalNode.decodePrompt
  refine .bind (Q := fun _ _ => S.Hold Deeds.Quiet (some (h, h')))
    (twin_calm rfl rfl rfl fun D w xs w' xs' hD hpair hctx r w₁ hx => ?_) fun id id' => ?_
  · obtain ⟨rfl, rfl⟩ := Prod.mk.inj (Option.some.inj hx)
    exact ⟨_, _, rfl, D, hD, hpair.frame, hctx⟩
  have hfree : ∀ {R : Deeds → Prop}, S.Twin E H (S.Hold R none) (perform (.llamaBatchFree id))
      (perform (.llamaBatchFree id')) (fun _ _ => S.Hold R none)
      fun _ => S.Hold Deeds.Quiet none := by
    intro R
    refine twin_calm rfl rfl rfl fun D w xs w' xs' hD hpair hctx r w₁ hx => ?_
    obtain ⟨rfl, rfl⟩ := Prod.mk.inj (Option.some.inj hx)
    exact ⟨(), _, rfl, D, hD, hpair.frame, hctx⟩
  have hslots : (fillBatch id tokens fork.prefixLen true).slots =
      (fillBatch id' tokens fork.prefixLen true).slots := rfl
  refine .bind (twin_decode hslots rfl) fun ok ok' => .assume fun hok => ?_
  subst hok
  refine .ite (fun _ => ?_) fun _ => ?_
  · refine .bind (twin_publishOutput hname _ _) fun _ _ => ?_
    exact .bind hfree fun _ _ => twin_llamaFree
  · exact .bind hfree fun _ _ => .bind twin_llamaFree fun _ _ => .throw fun _ _ _ _ hw => hw

/-! ## The end -/

/-- A branch that has done everything but its timing. -/
structure Served (req : Int) (line : String) (D : Deeds) : Prop where
  output : D.output = some line
  consumed : D.consumed = decide (0 < req)
  timed : D.timed = false

theorem twin_signal (hS : S.Match) {line : String} (hreq : 0 < S.node.requiredPrefixTokens) :
    S.Twin E H (S.Hold (Published line) none)
      (PipelineState.signalMilestoneConsumed S.node.requiredPrefixTokens)
      (PipelineState.signalMilestoneConsumed S.node.requiredPrefixTokens)
      (fun _ _ => S.Hold (Served S.node.requiredPrefixTokens line) none)
      fun _ => S.Hold Deeds.Quiet none := by
  unfold PipelineState.signalMilestoneConsumed
  rw [if_neg (not_le.mpr hreq)]
  refine .withLock (.bind (Q := fun _ _ => S.Hold (Served S.node.requiredPrefixTokens line) none)
    (twin_calm rfl rfl rfl fun D w xs w' xs' hD hpair hctx r w₁ hx => ?_)
    fun r r' => ?_)
  · obtain ⟨r', w₁', hx'⟩ : ∃ r' w₁', exec E S.thread
        (.consumeMilestone S.node.requiredPrefixTokens) .ok w' = some (r', w₁') := by
      simp only [exec]
      split <;> exact ⟨_, _, rfl⟩
    have hright := hpair.right.consume hD.consumed hx'
    rw [hS.counted] at hright
    refine ⟨r', w₁', hx', D.signalled _ _, ⟨hD.output, (decide_eq_true hreq).symm, hD.timed⟩,
      ⟨hpair.left.consume hD.consumed hx, hright, hpair.alike, fun len bytes hmem => ?_⟩,
      fun c hc => by cases hc⟩
    rcases List.mem_append.mp hmem with hold | hnew
    · exact hpair.sound len bytes hold
    · split at hnew <;> simp at hnew
  · -- one side may wake the prefiller while the other does not
    have hnotify : ∀ (left : Int) H w xs, (solo E S.thread).run
        (if left ≤ 0 then notifyAll .prefillResumeCv else pure () : Prog Unit) H w xs =
        some ⟨.ok (), H, w, xs, []⟩ := by
      intro left H w xs
      split <;> rfl
    cases r with
    | none =>
      cases r' with
      | none => exact .idle (fun _ _ => rfl) (fun _ _ => rfl) fun _ _ _ _ hw => hw
      | some left' => exact .idle (fun _ _ => rfl) (hnotify left' _) fun _ _ _ _ hw => hw
    | some left =>
      cases r' with
      | none => exact .idle (hnotify left _) (fun _ _ => rfl) fun _ _ _ _ hw => hw
      | some left' => exact .idle (hnotify left _) (hnotify left' _) fun _ _ _ _ hw => hw

end Context

/-- The timing of a branch. -/
theorem twin_recordTiming {key : String} (hname : S.name = key) (t₀ t₀' : Int)
    (hR : ∀ D, R D → D.timed = false) :
    S.Twin E H (S.Hold R none) (PipelineState.recordTiming key t₀)
      (PipelineState.recordTiming key t₀')
      (fun _ _ => S.Hold (fun D => ∃ D₀, R D₀ ∧ D = { D₀ with timed := true }) none)
      fun _ => S.Hold (fun D => ∃ D₀, R D₀ ∧ D = D₀.add .badAlloc) none := by
  subst hname
  refine .bind twin_clock fun t₁ t₁' => .withLock (.bind (twin_alloc fun D hD => ⟨D, hD, rfl⟩)
    fun _ _ => twin_calm rfl rfl rfl fun D w xs w' xs' hD hpair hctx r w₁ hx => ?_)
  obtain ⟨rfl, rfl⟩ := Prod.mk.inj (Option.some.inj hx)
  exact ⟨(), _, rfl, _, ⟨D, hD, rfl⟩, ⟨hpair.left.putTiming (hR D hD) _,
    hpair.right.putTiming (hR D hD) _, hpair.alike, hpair.sound⟩, fun c hc => by cases hc⟩

end SwarmKV.Sides

namespace SwarmKV.AnalyticalNode

/-- `execute` under its guard and up to its timing. It returns the time at which it started. -/
def forkAndSignal (node : AnalyticalNode) (ctx : OrchestratorContext) : Prog Int := do
  let t0 ← perform .steadyClock
  if !ctx.memoryPool then throw .nullMemoryPool
  else do
    let fork ← node.chooseFork
    let branchBuf ← node.materializeFork ctx fork
    perform (.noteFork fork.prefixLen branchBuf fork.kvBytes)
    match ← perform .llamaInitFromModel with
    | none => throw .branchInitNull
    | some lctx => do
      restoreFork lctx fork branchBuf
      let tokens ← node.preparePrompt ctx lctx branchBuf fork
      node.decodePrompt ctx lctx tokens fork
      if node.requiredPrefixTokens > 0 then
        PipelineState.signalMilestoneConsumed node.requiredPrefixTokens
      else pure ()
      pure t0

/-- The timing comes last. -/
theorem forkAndDecode_eq (node : AnalyticalNode) (ctx : OrchestratorContext) :
    node.forkAndDecode ctx =
      node.forkAndSignal ctx >>= fun t0 => PipelineState.recordTiming ctx.nodeName t0 := by
  have hbind : ∀ {α β γ : Type} (p : Prog α) (f : α → Prog β) (g : β → Prog γ),
      (p >>= f) >>= g = p >>= fun a => f a >>= g := fun p f g => Monitor.Prog.bind_assoc p f g
  unfold forkAndDecode forkAndSignal
  rw [hbind]
  congr 1
  funext t0
  split
  · rfl
  rw [hbind]
  congr 1
  funext fork
  rw [hbind]
  congr 1
  funext branchBuf
  rw [hbind]
  congr 1
  funext _
  rw [hbind]
  congr 1
  funext r
  cases r with
  | none => rfl
  | some lctx =>
    dsimp only
    rw [hbind]
    congr 1
    funext _
    rw [hbind]
    congr 1
    funext tokens
    rw [hbind]
    congr 1
    funext _
    split
    · rw [hbind]
      rfl
    · rfl

end SwarmKV.AnalyticalNode

namespace SwarmKV.Sides

open Monitor

variable {E : Engine} {S : Sides} {H : Finset Lock}

/-- A branch that has served its purpose: all that is left is its timing. -/
def Finished (S : Sides) (E : Engine) (D : Deeds) : Prop :=
  ∃ tokens, tokensOf E S.node.branchPrompt = some tokens ∧
    Served S.node.requiredPrefixTokens
      (S.node.statusLine tokens.length (S.node.chosenLen S.left)) D

theorem twin_forkAndSignal (hS : S.Match) (ctx : OrchestratorContext) (hE : ctx.engine = E)
    (hname : S.name = ctx.nodeName) :
    S.Twin E H (S.Hold (· = {}) none) (S.node.forkAndSignal ctx) (S.node.forkAndSignal ctx)
      (fun _ _ => S.Hold (S.Finished E) none) fun _ => S.Hold Deeds.Quiet none := by
  have hquiet : ∀ {w xs w' xs'}, S.Hold (· = {}) none w xs w' xs' →
      S.Hold Deeds.Quiet none w xs w' xs' :=
    fun h => h.mono fun D hD => by rw [hD]; exact ⟨rfl, rfl, rfl⟩
  unfold AnalyticalNode.forkAndSignal
  refine .bind twin_clock fun t₀ t₀' => .ite (fun _ => .throw fun _ _ _ _ h => hquiet h) fun _ => ?_
  refine .bind (.conseq (twin_chooseFork hS) (fun _ _ _ _ h => h) (fun _ _ _ _ _ _ h => h)
    fun _ _ _ _ _ h => hquiet h) fun fork fork' => .assume fun hfork => ?_
  obtain ⟨rfl, hfork⟩ := hfork
  refine .bind (twin_materializeFork hS ctx hfork) fun b b' => ?_
  rw [hfork.prefixLen, hfork.kvBytes]
  refine .bind twin_noteFork fun _ _ => .bind twin_llamaInitFromModel fun r r' => ?_
  cases r with
  | none =>
    cases r' with
    | none => exact .throw fun _ _ _ _ h => h.mono fun _ hD => hD.1
    | some h' => exact .never fun _ _ _ _ h => h
  | some h =>
    cases r' with
    | none => exact .never fun _ _ _ _ h => h
    | some h' =>
      refine .bind (twin_restoreFork fork') fun _ _ => ?_
      refine .bind (twin_preparePrompt hS ctx hE fork') fun tokens tokens' => .assume fun ht => ?_
      obtain ⟨rfl, ht⟩ := ht
      refine .bind (twin_decodePrompt ctx hname tokens' fork') fun _ _ => ?_
      rw [hfork.prefixLen]
      refine .ite (fun hreq => .bind (twin_signal hS hreq) fun _ _ =>
        .ret fun _ _ _ _ h => h.mono fun D hD => ⟨_, ht, hD⟩) fun hreq => ?_
      exact .ret fun _ _ _ _ h => h.mono fun D hD => ⟨_, ht, hD.output,
        hD.consumed.trans (decide_eq_false hreq).symm, hD.timed⟩

end SwarmKV.Sides
