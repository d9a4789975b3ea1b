import SwarmKV.Spec.ViewFits

/-!
# Threads are right about what they know

In every run, from whatever world it starts, the threads that keep to the rules of
`View.accepts` are right about what they know, and get the answers that they expect.
-/

namespace SwarmKV.Pipeline

open Monitor

variable {cfg : Pipeline} {staging : Option Nat} {i j : Thread} {n : String} {w w' : World}
  {s : View}

namespace Fits

/-! ## The steps of the thread itself -/

/-- The operation leaves contexts, buffers, snapshots and tasks alone. -/
private def calm : Op → Bool
  | .llamaInitFromModel => false
  | .llamaFree _ => false
  | .llamaDecode _ _ => false
  | .llamaStateSeqSetData _ _ _ _ => false
  | .setTask _ _ => false
  | o => !writes o

private theorem restored_exec {E : Engine} {o : Op} {x : Choice} {r : o.Res}
    (hx : exec E i o x w = some (r, w')) (ho : ∀ h p k seq, o ≠ .llamaStateSeqSetData h p k seq)
    (hnote : ∀ bytes, o ≠ .note (.restored bytes)) (bytes : List UInt8)
    (hmem : .restored bytes ∈ w'.log i) : .restored bytes ∈ w.log i := by
  obtain hold | ⟨-, hemit⟩ := exec_mem_log hx hmem
  · exact hold
  · cases hemit with
    | note => exact absurd rfl (hnote bytes)
    | setData h p k seq => exact absurd rfl (ho h p k seq)

private theorem calm_step (h : Fits cfg staging i s w) {o : Op} {x : Choice} {r : o.Res}
    (ho : calm o = true) (hok : s.accepts cfg staging i (.op o))
    (hx : exec cfg.engine i o x w = some (r, w')) : Fits cfg staging i s w' := by
  have hwrites : writes o = false := by
    cases o with
    | llamaInitFromModel => cases ho
    | llamaFree => cases ho
    | llamaDecode => cases ho
    | llamaStateSeqSetData => cases ho
    | setTask => cases ho
    | _ => exact (Bool.not_eq_true' _).mp ho
  refine h.frame ?_ (nextBuffer_exec hx) (fun b size hb => h.size_exec hok hx (h.own b size hb).1)
    (fun _ => exec_memory hx hwrites) (exec_log_grows hx i) ?_ ?_ fun n => tasks_exec hx
  · intro k _
    obtain ⟨hctx, -⟩ | ⟨rfl, -⟩ | ⟨-, k', rfl, -⟩ | ⟨-, k', cells', hor, -⟩ := exec_contexts hx
    · rw [hctx]
    · cases ho
    · cases ho
    · obtain ⟨batch, rfl⟩ | ⟨p, m, seq, rfl⟩ := hor <;> cases ho
  · refine restored_exec hx (fun hd p k seq heq => ?_) fun bytes heq => ?_
    · subst heq
      cases ho
    · subst heq
      exact hok.elim
  · intro n _
    obtain heq | ⟨m, q, rfl, -⟩ := exec_tasks hx
    · rw [heq]
    · cases ho

/-- A step that leaves the view as it is. -/
private theorem same_view {s' : View} (h : Fits cfg staging i s w) (hctx : s'.ctx = s.ctx)
    (hcells : s'.cells = s.cells) (hown : s'.own = s.own) (hheld : s'.held = s.held) (hfound : s'.found = s.found)
    (hlast : s'.last = s.last) (hcopied : s'.copied = s.copied)
    (hexported : s'.exported = s.exported) (hdone : s'.done = s.done)
    (hjoined : s'.joined = s.joined) (hrestored : s'.restored = s.restored) :
    Fits cfg staging i s' w where
  ctx := by rw [hctx, hcells]; exact h.ctx
  own := by rw [hown]; exact h.own
  right hs := by
    have hr := h.right (hheld ▸ hs)
    exact ⟨by rw [hfound]; exact hr.found, by rw [hlast]; exact hr.last,
      by rw [hown, hcopied]; exact hr.copied, by rw [hexported]; exact hr.exported⟩
  held := by rw [hheld, hdone]; exact h.held
  task := by rw [hdone]; exact h.task
  joined := by rw [hjoined]; exact h.joined
  restored := by rw [hrestored]; exact h.restored
  logged := by rw [hrestored]; exact h.logged

private theorem bytesAt_overwrite_of_ne {b b' : Nat} (hb : b ≠ b') (bytes : List UInt8) (k : Nat) :
    (w.overwrite b' bytes).bytesAt (.buffer b) k = w.bytesAt (.buffer b) k := by
  simp [World.bytesAt, World.overwrite, Function.update_of_ne hb]

private theorem bytesAt_overwrite_self {b : Nat} (hb : (w.buffers b).isSome) (bytes : List UInt8) :
    (w.overwrite b bytes).bytesAt (.buffer b) bytes.length = bytes := by
  obtain ⟨buf, hbuf⟩ := Option.isSome_iff_exists.mp hb
  simp [World.bytesAt, World.overwrite, hbuf]

/-- A view that differs in the context only. -/
private theorem new_context {k : Option Nat} {known : Option (List KvCell)}
    (h : Fits cfg staging i s w)
    (hctx : ∀ h, k = some h → ∃ cells, w.contexts h = some ⟨i, cells⟩ ∧
      ∀ known', known = some known' → cells = known') :
    Fits cfg staging i { s with ctx := k, cells := known } w where
  ctx := hctx
  own := h.own
  right hs := ⟨(h.right hs).found, (h.right hs).last, (h.right hs).copied, (h.right hs).exported⟩
  held := h.held
  task := h.task
  joined := h.joined
  restored := h.restored
  logged := h.logged

/-- The rest of the view does not depend on the contexts. -/
private theorem elsewhere {contexts : Nat → Option LlamaContext} {nextContext : Nat}
    (h : Fits cfg staging i s w) : Fits cfg staging i { s with ctx := none }
      { w with contexts := contexts, nextContext := nextContext } := by
  have hbare : Fits cfg staging i { s with ctx := none } w :=
    h.new_context fun _ hk => by cases hk
  refine hbare.frame (fun k hk => ?_) le_rfl (fun _ _ _ hsize => .inr hsize)
    (fun _ => ⟨⟨rfl, rfl, rfl⟩, rfl⟩) (List.prefix_refl _) (fun _ hb => hb) (fun _ _ => rfl)
    fun _ hn => hn
  cases hk

private theorem own_llamaInitFromModel (h : Fits cfg staging i s w) {x : Choice} {r : Option Nat}
    (hx : exec cfg.engine i .llamaInitFromModel x w = some (r, w')) :
    Fits cfg staging i (s.next cfg.engine (.op .llamaInitFromModel) r) w' := by
  obtain ⟨rfl, rfl⟩ | ⟨rfl, rfl⟩ := exec_llamaInitFromModel hx
  · exact h
  · refine h.elsewhere.new_context fun k hk => ⟨[], ?_, fun known hknown => Option.some.inj hknown⟩
    obtain rfl := Option.some.inj hk
    exact Function.update_self _ _ _

private theorem own_llamaFree (h : Fits cfg staging i s w) {k : Nat} {x : Choice} {r : Unit}
    (hx : exec cfg.engine i (.llamaFree k) x w = some (r, w')) :
    Fits cfg staging i (s.next cfg.engine (.op (.llamaFree k)) r) w' := by
  simp only [exec, Option.some.injEq, Prod.mk.injEq] at hx
  obtain ⟨-, rfl⟩ := hx
  refine h.elsewhere.new_context fun _ hk => ?_
  cases hk

/-- The thread replaces what is in its context. -/
private theorem own_setCells (h : Fits cfg staging i s w) {k : Nat} (hk : s.ctx = some k)
    {cells : List KvCell} {known : Option (List KvCell)}
    (hknown : ∀ known', known = some known' → cells = known') :
    Fits cfg staging i { s with ctx := some k, cells := known } (w.setCells k cells) := by
  obtain ⟨cells₀, hcells₀, -⟩ := h.ctx k hk
  refine h.elsewhere.new_context fun k' hk' => ⟨cells, ?_, hknown⟩
  obtain rfl := Option.some.inj hk'
  simp [hcells₀]

private theorem own_llamaDecode (h : Fits cfg staging i s w) {k : Nat} {batch : LlamaBatch}
    {x : Choice} {r : Bool} (hk : s.ctx = some k)
    (hx : exec cfg.engine i (.llamaDecode k batch) x w = some (r, w')) :
    Fits cfg staging i (s.next cfg.engine (.op (.llamaDecode k batch)) r) w' := by
  obtain ⟨rfl, rfl⟩ | ⟨ctx, hctx, -, rfl, rfl⟩ := exec_llamaDecode hx
  · exact h
  · obtain ⟨cells₀, hcells₀, hall⟩ := h.ctx k hk
    obtain rfl := Option.some.inj (hctx.symm.trans hcells₀)
    have hfits := @own_setCells _ _ _ _ _ h _ hk (cells₀ ++ batch.cells)
      (s.cells.map (· ++ batch.cells)) fun known' hknown' => ?_
    · rwa [← hk] at hfits
    · obtain ⟨known, hknown, rfl⟩ := Option.map_eq_some_iff.mp hknown'
      rw [hall known hknown]

/-- A restore goes on record. -/
private theorem own_restored (h : Fits cfg staging i s w) (bytes : List UInt8) :
    Fits cfg staging i { s with restored := bytes :: s.restored } (w.record i (.restored bytes)) := by
  have hlog : (w.record i (.restored bytes)).log i = w.log i ++ [.restored bytes] :=
    Function.update_self _ _ _
  refine ⟨h.ctx, h.own, fun hs => ⟨(h.right hs).found, (h.right hs).last, (h.right hs).copied,
    fun q m he => ?_⟩, h.held, h.task, h.joined, fun bytes' hb => ?_, fun bytes' hb hne => ?_⟩
  · obtain ⟨bytes', hmem, hrest⟩ := (h.right hs).exported q m he
    exact ⟨bytes', by rw [hlog]; exact List.mem_append_left _ hmem, hrest⟩
  · rw [hlog, List.mem_append, List.mem_singleton] at hb
    obtain hb | hb := hb
    · exact List.mem_cons_of_mem _ (h.restored bytes' hb)
    · obtain rfl := Event.restored.inj hb
      exact List.mem_cons_self
  · rw [hlog, List.mem_append, List.mem_singleton]
    obtain rfl | hb := List.mem_cons.mp hb
    · exact .inr rfl
    · exact .inl (h.logged bytes' hb hne)

/-- What a restore gives, and what the thread knows then. -/
private theorem own_llamaStateSeqSetData (h : Fits cfg staging i s w) {k n : Nat} {p : DataPtr}
    {seq : Int} {x : Choice} {r : Nat} (hk : s.ctx = some k) (hheld : s.held = true)
    (hp : s.Knows p) (hx : exec cfg.engine i (.llamaStateSeqSetData k p n seq) x w = some (r, w')) :
    Fits cfg staging i (s.next cfg.engine (.op (.llamaStateSeqSetData k p n seq)) r) w' ∧
      (r = 0 ∨ r = (s.bytesAt p n).length ∧ (cfg.engine.restore (s.bytesAt p n)).isSome) := by
  have hbytes := (h.right hheld).bytesAt hp n
  obtain ⟨cells₀, hcells₀, hall⟩ := h.ctx k hk
  obtain ⟨rfl, rfl⟩ | ⟨ctx, q, hctx, hq, hr, rfl⟩ := exec_llamaStateSeqSetData hx
  · -- refused
    refine ⟨?_, .inl rfl⟩
    show Fits cfg staging i (if 0 = 0 ∧ s.bytesAt p n ≠ [] then s
      else s.restore cfg.engine p n seq) _
    split
    · exact h
    · -- nothing to restore
      have hempty : s.bytesAt p n = [] := by simp_all
      refine ⟨fun k' hk' => ?_, h.own, fun hs => ⟨(h.right hs).found, (h.right hs).last,
        (h.right hs).copied, (h.right hs).exported⟩, h.held, h.task, h.joined, fun bytes hb => ?_,
        fun bytes hb hne => ?_⟩
      · obtain ⟨cells, hcells, -⟩ := h.ctx k' hk'
        refine ⟨cells, hcells, fun known hknown => ?_⟩
        have hnone : (s.restore cfg.engine p n seq).cells = none := if_pos hempty
        rw [hnone] at hknown
        cases hknown
      · exact List.mem_cons_of_mem _ (h.restored bytes hb)
      · obtain rfl | hb := List.mem_cons.mp hb
        · exact absurd hempty hne
        · exact h.logged bytes hb hne
  · -- restored: the context holds what the bytes stand for
    obtain rfl := Option.some.inj (hctx.symm.trans hcells₀)
    rw [hbytes] at hq hr ⊢
    refine ⟨?_, .inr ⟨hr, hq ▸ rfl⟩⟩
    have hnext : s.next cfg.engine (.op (.llamaStateSeqSetData k p n seq)) r =
        s.restore cfg.engine p n seq := by
      refine if_neg fun hno => hno.2 ?_
      rw [hno.1] at hr
      exact List.length_eq_zero_iff.mp hr.symm
    rw [hnext]
    have hfits := (@own_setCells _ _ _ _ _ h _ hk (restoreSeq seq q cells₀)
      (s.restore cfg.engine p n seq).cells fun known' hknown' => ?_).own_restored
        (s.bytesAt p n)
    · rw [← hk] at hfits
      exact hfits
    · -- and the thread knows it, if it knew the cells before
      by_cases hempty : s.bytesAt p n = []
      · have hnone : (s.restore cfg.engine p n seq).cells = none := if_pos hempty
        rw [hnone] at hknown'
        cases hknown'
      · have hsome : (s.restore cfg.engine p n seq).cells = s.cells.map fun cells =>
            (cfg.engine.restore (s.bytesAt p n)).elim cells (restoreSeq seq · cells) :=
          if_neg hempty
        rw [hsome] at hknown'
        obtain ⟨known, hknown, rfl⟩ := Option.map_eq_some_iff.mp hknown'
        rw [hall known hknown, hq]
        rfl

private theorem own_allocBuffer (h : Fits cfg staging i s w) (hsound : Sound cfg staging w)
    {size : Nat} {x : Choice} {r : Option Nat}
    (hx : exec cfg.engine i (.allocBuffer size) x w = some (r, w')) :
    Fits cfg staging i (s.next cfg.engine (.op (.allocBuffer size)) r) w' := by
  obtain ⟨rfl, rfl⟩ | ⟨rfl, rfl⟩ := exec_allocBuffer hx
  · refine ⟨h.ctx, fun b k hb => ?_, fun hs => ⟨(h.right hs).found, fun p k bytes hl => ?_,
      fun b k bytes hb => ?_, (h.right hs).exported⟩, h.held, h.task, h.joined, h.restored,
      h.logged⟩
    · cases hb
    · cases hl
    · cases hb
  · have hold : ∀ b, staging = some b → b ≠ w.nextBuffer :=
      fun b hb => Nat.ne_of_lt (hsound.stagingOld b hb)
    refine ⟨h.ctx, fun b k hb => ?_, fun hs => ⟨(h.right hs).found, fun p k bytes hl => ?_,
      fun b k bytes hb hc => ?_, fun q k he => ?_⟩, h.held, h.task, h.joined, h.restored,
      h.logged⟩
    · obtain ⟨rfl, rfl⟩ : w.nextBuffer = b ∧ size = k := by simpa [View.next] using hb
      refine ⟨Nat.lt_succ_self _, fun hb => hold _ hb rfl, .inr ?_⟩
      simp
    · cases hl
    · obtain ⟨rfl, rfl⟩ : w.nextBuffer = b ∧ size = k := by simpa [View.next] using hb
      obtain rfl := Option.some.inj hc
      simp
    · obtain ⟨bytes, hmem, hlen, hat⟩ := (h.right hs).exported q k he
      refine ⟨bytes, hmem, hlen, fun b hb => ?_⟩
      have hat := hat b hb
      simp only [World.bytesAt, Function.update_of_ne (hold b hb)] at hat ⊢
      exact hat

private theorem own_writeBytes (h : Fits cfg staging i s w) {b : Nat} {bytes : List UInt8}
    {x : Choice} {r : Unit} (hb : ∃ size, s.own = some (b, size)) (hheld : s.held = true)
    (hx : exec cfg.engine i (.writeBytes b bytes) x w = some (r, w')) :
    Fits cfg staging i (s.next cfg.engine (.op (.writeBytes b bytes)) r) w' := by
  have hown' := h.own_exec h (show s.accepts cfg staging i (.op (.writeBytes b bytes)) from
    ⟨hheld, hb⟩) hx
  simp only [exec, Option.some.injEq, Prod.mk.injEq] at hx
  obtain ⟨-, rfl⟩ := hx
  obtain ⟨size, hown⟩ := hb
  obtain ⟨hlt, hne, -⟩ := h.own b size hown
  refine ⟨h.ctx, hown', fun hs => ⟨(h.right hs).found, fun p k bytes hl => ?_,
    fun b' k bytes' hb' hc => ?_, fun q k he => ?_⟩, h.held, h.task, h.joined, h.restored,
      h.logged⟩
  · cases hl
  · have hb' : s.own = some (b', k) := hb'
    obtain ⟨old, hold, rfl⟩ := Option.map_eq_some_iff.mp hc
    obtain ⟨rfl, rfl⟩ := Prod.mk.inj (Option.some.inj (hown.symm.trans hb'))
    obtain ⟨buf, hbuf, rfl⟩ := Option.map_eq_some_iff.mp ((h.right hs).copied b size old hown hold)
    simp [World.overwrite, hbuf]
  · obtain ⟨bytes', hmem, hlen, hat⟩ := (h.right hs).exported q k he
    refine ⟨bytes', hmem, hlen, fun b' hb' => ?_⟩
    have hbb : b' ≠ b := fun heq => hne (heq ▸ hb')
    exact (bytesAt_overwrite_of_ne hbb _ _).trans (hat b' hb')

private theorem own_llamaStateSeqGetData (h : Fits cfg staging i s w) (hsound : Sound cfg staging w)
    {k b cap : Nat} {seq : Int} {x : Choice} {r : Nat} (hk : s.ctx = some k)
    (hheld : s.held = true) (hb : staging = some b)
    (hx : exec cfg.engine i (.llamaStateSeqGetData k b cap seq) x w = some (r, w')) :
    Fits cfg staging i (s.next cfg.engine (.op (.llamaStateSeqGetData k b cap seq)) r) w' := by
  have hok : s.accepts cfg staging i (.op (.llamaStateSeqGetData k b cap seq)) := ⟨hk, hheld, hb⟩
  have hown' := h.own_exec h hok hx
  have hrestored := restored_exec hx (fun _ _ _ _ => Op.noConfusion) fun _ => Op.noConfusion
  obtain ⟨cells, hcells, hall⟩ := h.ctx k hk
  obtain ⟨bytes, hbytes, rfl, rfl⟩ := exec_llamaStateSeqGetData hcells hx
  have hlive := (hsound.stagingLive.resolve_left (h.not_allDone hheld)) b hb
  have hmem : ∀ e, e ∈ w.log i → e ∈ ((w.overwrite b (fitting cap bytes)).record i
      (.exported (seqState seq cells) (fitting cap bytes))).log i := by
    intro e he
    refine ((World.log_grows_record _ i _ i).subset ?_)
    exact he
  refine ⟨h.ctx, hown', fun hs => ⟨(h.right hs).found, fun p m bytes hl => ?_,
    fun b' m bytes' hb' hc => ?_, fun q m he => ?_⟩, h.held, h.task, h.joined,
    fun bytes' hb' => h.restored bytes' (hrestored bytes' hb'),
    fun bytes' hb' hne => hmem _ (h.logged bytes' hb' hne)⟩
  · cases hl
  · have hbb : b' ≠ b := fun heq => (h.own b' m hb').2.1 (heq ▸ hb)
    have hold := (h.right hs).copied b' m bytes' hb' hc
    simpa [World.record, World.overwrite, Function.update_of_ne hbb] using hold
  · obtain ⟨known, hknown, hq⟩ := Option.map_eq_some_iff.mp he
    obtain rfl := hall known hknown
    obtain ⟨rfl, rfl⟩ := Prod.mk.inj hq
    refine ⟨fitting cap bytes, ?_, rfl, fun b' hb' => ?_⟩
    · simp [World.record]
    · obtain rfl := Option.some.inj (hb.symm.trans hb')
      exact bytesAt_overwrite_self hlive _

private theorem own_putSnapshot (h : Fits cfg staging i s w) {t : Int} {data : List UInt8}
    {x : Choice} {r : Unit} (hx : exec cfg.engine i (.putSnapshot t data) x w = some (r, w')) :
    Fits cfg staging i (s.next cfg.engine (.op (.putSnapshot t data)) r) w' := by
  simp only [exec, Option.some.injEq, Prod.mk.injEq] at hx
  obtain ⟨-, rfl⟩ := hx
  refine ⟨h.ctx, h.own, fun hs => ⟨fun q hq => ?_, fun p k bytes hl => ?_, (h.right hs).copied,
    fun q k he => ?_⟩, h.held, h.task, h.joined, h.restored,
      h.logged⟩
  · cases hq
  · cases hl
  · cases he

/-- The canonical length or size changes. -/
private theorem own_canonical (h : Fits cfg staging i s w) (f : PipelineState → PipelineState)
    (hf : w.state.prefixSnapshots = (f w.state).prefixSnapshots) {s' : View}
    (hs' : s' = { s with found := none, seqLen := s'.seqLen, serialBytes := s'.serialBytes }) :
    Fits cfg staging i s' (w.update f) := by
  rw [hs']
  refine ⟨h.ctx, h.own, fun hs => ⟨fun q hq => ?_, fun p k bytes hl => ?_, (h.right hs).copied,
    (h.right hs).exported⟩, h.held, h.task, h.joined, h.restored,
      h.logged⟩
  · cases hq
  · have hat := @bytesAt_congr w (w.update f) hf rfl p k
    exact hat.trans ((h.right hs).last p k bytes hl)

private theorem own_freeBuffer (h : Fits cfg staging i s w) {b : Nat} {x : Choice} {r : Unit}
    (hok : s.accepts cfg staging i (.op (.freeBuffer b)))
    (hx : exec cfg.engine i (.freeBuffer b) x w = some (r, w')) :
    Fits cfg staging i (s.next cfg.engine (.op (.freeBuffer b)) r) w' := by
  have hdone := h.allDone_of_free hok
  have hown' := h.own_exec h hok hx
  simp only [exec, Option.some.injEq, Prod.mk.injEq] at hx
  obtain ⟨-, rfl⟩ := hx
  exact ⟨h.ctx, hown', fun hs => absurd hdone (h.not_allDone hs), h.held, h.task, h.joined,
    h.restored, h.logged⟩

private theorem own_setTask (h : Fits cfg staging i s w) {q : Outcome} {x : Choice} {r : Unit}
    (hheld : s.held = false) (hx : exec cfg.engine i (.setTask n q) x w = some (r, w')) :
    Fits cfg staging i (s.next cfg.engine (.op (.setTask n q)) r) w' := by
  have hjoined := fun m (hm : m ∈ s.joined) => tasks_exec hx (h.joined m hm)
  have hown' := fun b size (hb : s.own = some (b, size)) => (h.own b size hb).2.2.imp_left
    fun hdone => allDone_exec hx hdone
  simp only [exec, Option.some.injEq, Prod.mk.injEq] at hx
  obtain ⟨-, rfl⟩ := hx
  have hno : s.held ≠ true := by simp [hheld]
  exact ⟨h.ctx, fun b size hb => ⟨(h.own b size hb).1, (h.own b size hb).2.1, hown' b size hb⟩,
    fun hs => absurd hs hno, fun hs => absurd hs hno, fun _ _ _ => rfl, hjoined, h.restored,
    h.logged⟩

private theorem own_load (h : Fits cfg staging i s w) {x : Choice} {r : PipelineState}
    (hx : exec cfg.engine i .load x w = some (r, w')) :
    Fits cfg staging i (s.next cfg.engine (.op .load) r) w' := by
  simp only [exec, Option.some.injEq, Prod.mk.injEq] at hx
  obtain ⟨rfl, rfl⟩ := hx
  show Fits cfg staging i (if s.held then { s with found := some w.state } else s) w
  split
  · refine ⟨h.ctx, h.own, fun hs => ⟨fun q hq => ?_, (h.right hs).last, (h.right hs).copied,
      (h.right hs).exported⟩, h.held, h.task, h.joined, h.restored,
      h.logged⟩
    obtain rfl := Option.some.inj hq
    exact ⟨rfl, rfl, rfl⟩
  · exact h

private theorem own_readBytes (h : Fits cfg staging i s w) {p : DataPtr} {k : Nat} {x : Choice}
    {r : List UInt8} (hx : exec cfg.engine i (.readBytes p k) x w = some (r, w')) :
    Fits cfg staging i (s.next cfg.engine (.op (.readBytes p k)) r) w' := by
  simp only [exec, Option.some.injEq, Prod.mk.injEq] at hx
  obtain ⟨rfl, rfl⟩ := hx
  refine ⟨h.ctx, h.own, fun hs => ⟨(h.right hs).found, fun p' k' bytes hl => ?_, (h.right hs).copied,
    (h.right hs).exported⟩, h.held, h.task, h.joined, h.restored,
      h.logged⟩
  obtain ⟨rfl, rfl, rfl⟩ : p = p' ∧ k = k' ∧ w.bytesAt p k = bytes := by simpa [View.next] using hl
  rfl

private theorem own_awaitTask (h : Fits cfg staging i s w) {x : Choice} {r : Outcome}
    (hx : exec cfg.engine i (.awaitTask n) x w = some (r, w')) :
    Fits cfg staging i (s.next cfg.engine (.op (.awaitTask n)) r) w' := by
  simp only [exec] at hx
  split at hx
  · rename_i hsome
    simp only [Option.some.injEq, Prod.mk.injEq] at hx
    obtain ⟨-, rfl⟩ := hx
    refine ⟨h.ctx, h.own, fun hs => ⟨(h.right hs).found, (h.right hs).last, (h.right hs).copied,
      (h.right hs).exported⟩, h.held, h.task, fun m hm => ?_, h.restored,
      h.logged⟩
    obtain rfl | hm := List.mem_cons.mp hm
    · exact Option.isSome_of_eq_some hsome
    · exact h.joined m hm
  · cases hx

/-- The step of the thread itself. -/
theorem own_step (h : Fits cfg staging i s w) (hsound : Sound cfg staging w) {o : Op} {x : Choice}
    {r : o.Res} (hok : s.accepts cfg staging i (.op o))
    (hx : exec cfg.engine i o x w = some (r, w')) :
    Fits cfg staging i (s.next cfg.engine (.op o) r) w' := by
  have hcalm : calm o = true → Fits cfg staging i s w' := fun ho => h.calm_step ho hok hx
  cases o with
  | load => exact h.own_load hx
  | readBytes p k => exact h.own_readBytes hx
  | awaitTask m => exact h.own_awaitTask hx
  | llamaInitFromModel => exact h.own_llamaInitFromModel hx
  | llamaFree k => exact h.own_llamaFree hx
  | llamaDecode k batch => exact h.own_llamaDecode hok hx
  | llamaStateSeqSetData k p n seq =>
    exact (h.own_llamaStateSeqSetData hok.1 hok.2.1 hok.2.2 hx).1
  | llamaStateSeqGetData k b cap seq =>
    exact h.own_llamaStateSeqGetData hsound hok.1 hok.2.1 hok.2.2 hx
  | allocBuffer size => exact h.own_allocBuffer hsound hx
  | writeBytes b bytes => exact h.own_writeBytes hok.2 hok.1 hx
  | freeBuffer b => exact h.own_freeBuffer hok hx
  | putSnapshot t data => exact h.own_putSnapshot hx
  | setPrefixSeqLen t =>
    simp only [exec, Option.some.injEq, Prod.mk.injEq] at hx
    obtain ⟨-, rfl⟩ := hx
    exact h.own_canonical _ rfl rfl
  | setPrefixKvSerialBytes m =>
    simp only [exec, Option.some.injEq, Prod.mk.injEq] at hx
    obtain ⟨-, rfl⟩ := hx
    exact h.own_canonical _ rfl rfl
  | setTask m q =>
    exact h.own_setTask hok.2 hx
  | note e =>
    cases e with
    | commitWatermark ctx t => exact (hcalm rfl).same_view rfl rfl rfl rfl rfl rfl rfl rfl rfl rfl rfl
    | _ => exact hcalm rfl
  | setWatermark t => exact (hcalm rfl).same_view rfl rfl rfl rfl rfl rfl rfl rfl rfl rfl rfl
  | putOutput key value => exact (hcalm rfl).same_view rfl rfl rfl rfl rfl rfl rfl rfl rfl rfl rfl
  | setPromise m q => exact (hcalm rfl).same_view rfl rfl rfl rfl rfl rfl rfl rfl rfl rfl rfl
  | _ => exact hcalm rfl

/-- The thread gets the answers that it expects. -/
theorem expected (h : Fits cfg staging i s w) (hsound : Sound cfg staging w) {o : Op} {x : Choice}
    {r : o.Res} (hok : s.accepts cfg staging i (.op o))
    (hx : exec cfg.engine i o x w = some (r, w')) : s.expects cfg staging (.op o) r := by
  cases o with
  | load =>
    simp only [exec, Option.some.injEq, Prod.mk.injEq] at hx
    obtain ⟨rfl, -⟩ := hx
    refine ⟨hsound.stagingBuffer, fun hs q hq => ?_⟩
    obtain ⟨h₁, h₂, h₃⟩ := (h.right hs).found q hq
    exact ⟨h₁.symm, h₂.symm, h₃.symm⟩
  | readBytes p k =>
    have hs : s.held = true := hok
    simp only [exec, Option.some.injEq, Prod.mk.injEq] at hx
    obtain ⟨rfl, -⟩ := hx
    cases p with
    | snapshot t =>
      intro q snap hq hsnap
      rw [((h.right hs).found q hq).prefixSnapshots] at hsnap
      simp [World.bytesAt, hsnap]
    | buffer b =>
      intro hb q he
      obtain ⟨bytes, hmem, rfl, hat⟩ := (h.right hs).exported q k he
      rw [hat b hb]
      exact ⟨rfl, hsound.exported i q bytes hmem⟩
  | llamaStateSeqGetSize k seq =>
    intro known hknown
    obtain ⟨cells, hctx, hall⟩ := h.ctx k hok
    obtain rfl := hall known hknown
    simp only [exec, hctx, Option.some.injEq, Prod.mk.injEq] at hx
    exact hx.1.symm
  | llamaStateSeqSetData k p n seq =>
    exact (h.own_llamaStateSeqSetData hok.1 hok.2.1 hok.2.2 hx).2
  | bufferSize b =>
    intro hs size hb
    have hsize := (h.own b size hb).2.2.resolve_left (h.not_allDone hs)
    simp only [exec, hsize, Option.some.injEq, Prod.mk.injEq] at hx
    exact hx.1.symm
  | llamaDecode k batch => exact exec_answered hx
  | _ => trivial

end Fits

/-! ## All threads -/

/-- The views of the threads belong to the world. -/
structure ViewInv (cfg : Pipeline) (staging : Option Nat) (s : Thread → View) (w : World) :
    Prop where
  sound : Sound cfg staging w
  fits : ∀ i, Fits cfg staging i (s i) w

/-- An accepted action is answered as expected, and the views still belong to the world. -/
theorem ViewInv.act {s s' : Thread → View} {c c' : Config cfg.engine}
    (h : ViewInv cfg staging s c.data) {e : Entry (machine cfg.engine)} (he : c.Acts e c')
    (hok : (s e.thread).accepts cfg staging e.thread e.action)
    (halone : ∀ i j, (s i).held = true → (s j).held = true → i = j)
    (hown : s' e.thread = (s e.thread).next cfg.engine e.action e.answer)
    (hother : ∀ j, j ≠ e.thread → s' j = s j) :
    (s e.thread).expects cfg staging e.action e.answer ∧ ViewInv cfg staging s' c'.data := by
  -- what leaves the world alone
  have hstay : c'.data = c.data → Fits cfg staging e.thread
      ((s e.thread).next cfg.engine e.action e.answer) c.data → ViewInv cfg staging s' c'.data := by
    intro hdata hfits
    rw [hdata]
    refine ⟨h.sound, fun j => ?_⟩
    by_cases hj : j = e.thread
    · subst hj
      rwa [hown]
    · rw [hother j hj]
      exact h.fits j
  cases he with
  | @op i o k x r d ht hx =>
    have hi := h.fits i
    refine ⟨hi.expected h.sound hok hx, h.sound.exec hx ?_ ?_, fun j => ?_⟩
    · rintro b rfl
      exact hi.allDone_of_free hok
    · rintro q bytes rfl
      exact hok
    · by_cases hj : j = i
      · subst hj
        rw [hown]
        exact hi.own_step h.sound hok hx
      · rw [hother j hj]
        refine (h.fits j).other h.sound hi hj hok hx fun hs => ?_
        by_contra hne
        exact hj (halone j i hs (by simpa using hne))
  | @lock i l k ht hl =>
    refine ⟨trivial, hstay rfl ?_⟩
    have hi := h.fits i
    cases l with
    | llamaApiMutex =>
      refine ⟨hi.ctx, hi.own, fun _ => ⟨fun q hq => ?_, fun p k bytes hl => ?_, fun b k bytes _ hc => ?_,
        fun q k he => ?_⟩, fun _ => hok, hi.task, hi.joined, hi.restored,
        hi.logged⟩
      · cases hq
      · cases hl
      · cases hc
      · cases he
    | _ => exact hi
  | @unlock i l k ht hl =>
    refine ⟨trivial, hstay rfl ?_⟩
    have hi := h.fits i
    cases l with
    | llamaApiMutex =>
      exact ⟨hi.ctx, hi.own, fun hs => Bool.noConfusion hs, fun hs => Bool.noConfusion hs, hi.task,
        hi.joined, hi.restored, hi.logged⟩
    | _ => exact hi
  | wait ht hl hw => exact ⟨trivial, hstay rfl (h.fits _)⟩
  | resume ht hl hw => exact ⟨trivial, hstay rfl (h.fits _)⟩
  | notify ht => exact ⟨trivial, hstay rfl (h.fits _)⟩

/-! ## Runs -/

section Runs

variable {U : Thread → View → Action sig → Prop} {V : Thread → View → (a : Action sig) → a.Res → Prop}
  {tr : Trace (machine cfg.engine)} {c : Config cfg.engine}

/-- What the threads know after a trace. -/
abbrev views (cfg : Pipeline) (staging : Option Nat) (U : Thread → View → Action sig → Prop)
    (V : Thread → View → (a : Action sig) → a.Res → Prop) (tr : Trace (machine cfg.engine)) :
    Thread → View :=
  Observer.state (viewWatch cfg staging U V) tr

private theorem next_held {E : Engine} (s : View) (a : Action sig) (r : a.Res) :
    (s.next E a r).held = a.holding Lock.llamaApiMutex s.held := by
  cases a with
  | op o =>
    cases o with
    | note e => cases e <;> rfl
    | load =>
      show (if s.held then { s with found := some r } else s).held = s.held
      split <;> rfl
    | llamaInitFromModel => cases r <;> rfl
    | llamaDecode h batch => cases r <;> rfl
    | llamaStateSeqSetData h p n seq =>
      show (if r = (0 : Nat) ∧ s.bytesAt p n ≠ [] then s else s.restore E p n seq).held = s.held
      split <;> rfl
    | _ => rfl
  | lock l => cases l <;> rfl
  | unlock l => cases l <;> rfl
  | wait w => rfl
  | notify v => rfl

/-- A view shows who has taken the guard. -/
theorem views_held (tr : Trace (machine cfg.engine)) (i : Thread) :
    (cfg.views staging U V tr i).held = tr.holding i .llamaApiMutex :=
  Observer.state_holding (fun _ => rfl) (fun _ s a r => next_held s a r) tr i

/-- One thread at a time holds the guard. -/
theorem views_alone {w₀ : World} (hr : (cfg.startAt w₀).Run tr c)
    (hi : (cfg.views staging U V tr i).held = true)
    (hj : (cfg.views staging U V tr j).held = true) : i = j := by
  rw [views_held] at hi hj
  exact hr.holding_unique (fun _ => by simp) rfl hi hj

/-- What a world has to be like in which `execute_pipeline` starts. -/
structure Start (cfg : Pipeline) (staging : Option Nat) (w : World) : Prop where
  sound : Sound cfg staging w
  tasks : ∀ n, w.tasks n = none
  log : ∀ i, w.log i = []

theorem Start.viewInv (h : Start cfg staging w) : ViewInv cfg staging (fun _ => {}) w := by
  refine ⟨h.sound, fun i => ⟨fun k hk => ?_, fun b size hb => ?_, fun hs => ?_, fun hs => ?_,
    fun n _ hn => ?_, fun n hn => ?_, fun bytes hb => ?_, fun bytes hb => ?_⟩⟩
  · cases hk
  · cases hb
  · cases hs
  · cases hs
  · rw [h.tasks n] at hn
    cases hn
  · cases hn
  · rw [h.log i] at hb
    cases hb
  · cases hb

/-- Watching a run with views, as long as `P` holds of its trace. The rules `U` and the
    expectations `V` come on top of those of every view, and `R` is what ties them to the world. -/
theorem Start.observe {P : Trace (machine cfg.engine) → Prop}
    {R : Trace (machine cfg.engine) → World → Prop} {Q : Thread → Outcome → View → Prop}
    (h : Start cfg staging w) (hP : ∀ {e tr}, P (e :: tr) → P tr)
    (hprogram : ∀ i, (viewWatch cfg staging U V i).Meets (cfg.program i) (Q i) {}) (hR : R [] w)
    (hact : ∀ {tr c e c'}, (cfg.startAt w).Run tr c → P (e :: tr) →
      ViewInv cfg staging (cfg.views staging U V tr) c.data → R tr c.data → c.Acts e c' →
      (cfg.views staging U V tr e.thread).accepts cfg staging e.thread e.action →
      U e.thread (cfg.views staging U V tr e.thread) e.action →
      (cfg.views staging U V tr e.thread).expects cfg staging e.action e.answer →
      V e.thread (cfg.views staging U V tr e.thread) e.action e.answer ∧ R (e :: tr) c'.data)
    (hr : (cfg.startAt w).Run tr c) (htr : P tr) :
    (ViewInv cfg staging (cfg.views staging U V tr) c.data ∧ R tr c.data) ∧
      Observer.Follows (viewWatch cfg staging U V) Q tr c := by
  refine hr.observe_while (A := viewWatch cfg staging U V)
    (R := fun tr c => ViewInv cfg staging (cfg.views staging U V tr) c.data ∧ R tr c.data) hP
    hprogram ?_ ?_ ?_ htr
  · exact ⟨h.viewInv, hR⟩
  · intro tr c e c' hrun hPe hold he hok
    obtain ⟨hexpects, hviews⟩ := hold.1.act he hok.1 (fun i j => views_alone hrun)
      (show cfg.views staging U V (e :: tr) e.thread = _ from Observer.state_same)
      fun j hj => Observer.state_other hj
    obtain ⟨hV, hR'⟩ := hact hrun hPe hold.1 hold.2 he hok.1 hok.2 hexpects
    exact ⟨⟨hexpects, hV⟩, hviews, hR'⟩
  · intro tr c c' _ hold hs
    rw [hs.data]
    exact hold

end Runs

end SwarmKV.Pipeline
