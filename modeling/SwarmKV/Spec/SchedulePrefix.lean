import SwarmKV.Spec.ScheduleWorker
import SwarmKV.Spec.ViewCorrect

/-!
# What the provider has published

The snapshots, the canonical export and the watermark belong to the view of the only provider,
and behind the guard they are those of the sequential program.
-/

namespace SwarmKV

open Monitor

namespace Pipeline

variable {cfg : Pipeline} {D : Calls} {p : String} {i : Thread} {w w' : World}

/-- What a view says of the prefix. -/
def marks (s : View) : View :=
  { s with
    ctx := none, cells := none, found := none, last := none, own := none, copied := none,
    restored := [], watermark := 0, output := none, settled := false, joined := [], done := false }

/-- What the provider `p`, with view `s`, has published. -/
structure PrefixInStep (cfg : Pipeline) (D : Calls) (p : String) (s : View) (w : World) : Prop where
  snapshots : ∀ t, w.state.prefixSnapshots t = (s.filed.lookup t).map (⟨·, t⟩)
  seqLen : w.state.prefixSeqLen = s.seqLen
  serialBytes : w.state.prefixKvSerialBytes = s.serialBytes
  watermark : w.state.watermark ≤ s.top
  published : s.held = false → cfg.AllPublished D p s
  size : cfg.AllDone w ∨ ∀ b, cfg.stagingBuffer = some b → (w.buffers b).map (·.size) = cfg.staging
  bytes : cfg.AllDone w ∨ (s.exported = none → ∀ b, cfg.stagingBuffer = some b →
    w.bytesAt (.buffer b) (Calls.lastFiled s.filed).2.length = (Calls.lastFiled s.filed).2)
  provided : (w.promises p).isSome → s.filed = (D.provided cfg p).filed
  outside : p ∉ cfg.orchestrator.names → s.filed = []

/-- Two worlds have published the same of the prefix. -/
structure SamePrefix (cfg : Pipeline) (p : String) (w w' : World) : Prop where
  snapshots : w'.state.prefixSnapshots = w.state.prefixSnapshots
  seqLen : w'.state.prefixSeqLen = w.state.prefixSeqLen
  serialBytes : w'.state.prefixKvSerialBytes = w.state.prefixKvSerialBytes
  watermark : w'.state.watermark = w.state.watermark
  promise : w'.promises p = w.promises p
  done : cfg.AllDone w → cfg.AllDone w'

/-- Two worlds have the same canonical buffer, as long as a task is open. -/
def SameStaging (cfg : Pipeline) (w w' : World) : Prop :=
  cfg.AllDone w' ∨ ∀ b, cfg.stagingBuffer = some b → w'.buffers b = w.buffers b

variable {v v' : View}

private theorem AllPublished.congr (h : cfg.AllPublished D p v) (hv : marks v' = marks v) :
    cfg.AllPublished D p v' := by
  have hexported : v'.exported = v.exported := (congrArg View.exported hv :)
  have hseqLen : v'.seqLen = v.seqLen := (congrArg View.seqLen hv :)
  have hserialBytes : v'.serialBytes = v.serialBytes := (congrArg View.serialBytes hv :)
  have hfiled : v'.filed = v.filed := (congrArg View.filed hv :)
  have htop : v'.top = v.top := (congrArg View.top hv :)
  exact ⟨hexported.trans h.exported, by rw [hseqLen, hfiled, h.seqLen],
    by rw [hserialBytes, hfiled, h.serialBytes], by rw [htop, hfiled]; exact h.filed⟩

theorem PrefixInStep.frame (h : cfg.PrefixInStep D p v w) (hv : marks v' = marks v)
    (hw : SamePrefix cfg p w w') (hb : cfg.SameStaging w w') : cfg.PrefixInStep D p v' w' := by
  have hfiled : v'.filed = v.filed := (congrArg View.filed hv :)
  have hexported : v'.exported = v.exported := (congrArg View.exported hv :)
  refine ⟨fun t => ?_, ?_, ?_, ?_, fun hheld => ?_, ?_, ?_, fun hp => ?_, fun hp => ?_⟩
  -- what is published
  · rw [hw.snapshots, hfiled, h.snapshots]
  · rw [hw.seqLen, h.seqLen]
    exact (congrArg View.seqLen hv :).symm
  · rw [hw.serialBytes, h.serialBytes]
    exact (congrArg View.serialBytes hv :).symm
  · have htop : v'.top = v.top := (congrArg View.top hv :)
    rw [hw.watermark, htop]
    exact h.watermark
  · have hheld' : v'.held = v.held := (congrArg View.held hv :)
    exact (h.published (hheld'.symm.trans hheld)).congr hv
  -- the canonical buffer, unless all tasks have ended
  · obtain hdone | hb := hb
    · exact .inl hdone
    · refine h.size.imp hw.done fun hsize b hst => ?_
      rw [hb b hst]
      exact hsize b hst
  · obtain hdone | hb := hb
    · exact .inl hdone
    · refine h.bytes.imp hw.done fun hbytes hnone b hst => ?_
      rw [hfiled, World.bytesAt, hb b hst]
      exact hbytes (hexported.symm.trans hnone) b hst
  -- what has been filed
  · rw [hfiled]
    exact h.provided (hw.promise ▸ hp)
  · rw [hfiled]
    exact h.outside hp

/-- The operation can change what is published of the prefix. -/
private def onPrefix : Op → Bool
  | .putSnapshot _ _ => true
  | .setPrefixSeqLen _ => true
  | .setPrefixKvSerialBytes _ => true
  | .setWatermark _ => true
  | .setPromise _ _ => true
  | _ => false

private theorem allDone_of_exec {E : Engine} {o : Op} {x : Choice} {r : o.Res}
    (hx : exec E i o x w = some (r, w')) (h : cfg.AllDone w) : cfg.AllDone w' := by
  intro n hn
  obtain heq | ⟨m, q, -, heq⟩ := exec_tasks hx
  · rw [heq]
    exact h n hn
  · rw [heq]
    by_cases hm : n = m
    · simp [hm]
    · rw [Function.update_of_ne hm]
      exact h n hn

private theorem samePrefix_exec {E : Engine} {o : Op} {x : Choice} {r : o.Res}
    (hx : exec E i o x w = some (r, w')) (ho : onPrefix o = false) : SamePrefix cfg p w w' := by
  refine ⟨?_, ?_, ?_, ?_, ?_, allDone_of_exec hx⟩
  · obtain heq | ⟨t, data, rfl, -⟩ := exec_prefixSnapshots hx
    · exact heq
    · cases ho
  · obtain heq | ⟨t, rfl, -⟩ := exec_prefixSeqLen hx
    · exact heq
    · cases ho
  · obtain heq | ⟨k, rfl, -⟩ := exec_prefixKvSerialBytes hx
    · exact heq
    · cases ho
  · obtain heq | ⟨t, rfl, -⟩ := exec_watermark hx
    · exact heq
    · cases ho
  · obtain heq | ⟨m, q, rfl, -⟩ := exec_promises hx
    · rw [heq]
    · cases ho

/-- Only an export changes the canonical buffer while a task is open. -/
private theorem sameStaging_exec (hsound : Sound cfg cfg.stagingBuffer w)
    (hfits : Fits cfg cfg.stagingBuffer i v w) {o : Op} {x : Choice} {r : o.Res}
    (hok : v.accepts cfg cfg.stagingBuffer i (.op o))
    (hx : exec cfg.engine i o x w = some (r, w'))
    (ho : ∀ h b cap seq, o ≠ .llamaStateSeqGetData h b cap seq) : cfg.SameStaging w w' := by
  obtain ⟨hbuf, -⟩ | ⟨size, -, -, hbuf⟩ | ⟨-, b', rfl, -⟩ | ⟨-, b', bytes, hor, hbuf⟩ :=
    exec_buffers hx
  · exact .inr fun b _ => by rw [hbuf]
  · -- a new buffer has a number of its own
    refine .inr fun b hst => ?_
    have hold := hsound.stagingOld b hst
    rw [hbuf, Function.update_of_ne (by omega)]
  · -- the caller frees buffers behind the last worker
    exact .inl (allDone_of_exec hx fun n hn => hfits.joined n (hok n hn))
  · -- a branch writes into its own buffer only
    refine .inr fun b hst => ?_
    obtain rfl | ⟨h, cap, seq, rfl⟩ := hor
    · obtain ⟨-, size, hown⟩ := hok
      have hne : b ≠ b' := fun heq => (hfits.own b' size hown).2.1 (heq ▸ hst)
      rw [hbuf]
      exact Function.update_of_ne hne _ _
    · exact absurd rfl (ho h b' cap seq)

/-- The view changes by nothing that matters here. -/
def unmarked : Action sig → Bool
  | .lock .llamaApiMutex => false
  | .unlock .llamaApiMutex => false
  | .op (.putSnapshot _ _) => false
  | .op (.setPrefixSeqLen _) => false
  | .op (.setPrefixKvSerialBytes _) => false
  | .op (.llamaStateSeqGetData _ _ _ _) => false
  | .op (.note (.commitWatermark _ _)) => false
  | _ => true

theorem marks_next {E : Engine} {a : Action sig} (ha : unmarked a = true) (v : View)
    (r : a.Res) : marks (v.next E a r) = marks v := by
  cases a with
  | op o =>
    cases o with
    | note e => cases e <;> first | rfl | exact absurd ha Bool.false_ne_true
    | load =>
      show marks (if v.held then { v with found := some r } else v) = marks v
      split <;> rfl
    | llamaInitFromModel => cases r <;> rfl
    | llamaDecode h batch => cases r <;> rfl
    | llamaStateSeqSetData h q k seq =>
      show marks (if r = (0 : Nat) ∧ v.bytesAt q k ≠ [] then v else v.restore E q k seq) = marks v
      split <;> rfl
    | _ => first | rfl | exact absurd ha Bool.false_ne_true
  | lock l => cases l <;> first | rfl | exact absurd ha Bool.false_ne_true
  | unlock l => cases l <;> first | rfl | exact absurd ha Bool.false_ne_true
  | _ => rfl

/-- Another thread leaves the prefix alone. -/
theorem PrefixInStep.other (h : cfg.PrefixInStep D p v w) {u : View}
    (hsound : Sound cfg cfg.stagingBuffer w) (hfits : Fits cfg cfg.stagingBuffer i u w)
    (hi : i ≠ .worker p) {o : Op} {x : Choice} {r : o.Res}
    (hok : u.accepts cfg cfg.stagingBuffer i (.op o)) (hrule : cfg.scheduleRule D p i u (.op o))
    (hx : exec cfg.engine i o x w = some (r, w')) : cfg.PrefixInStep D p v w' := by
  have hsame : SamePrefix cfg p w w' := by
    -- the rules leave the operations on the prefix to `p`, but for the promise of another node
    by_cases ho : onPrefix o = true
    · cases o with
      | putSnapshot t data => exact absurd hrule.1 hi
      | setPrefixSeqLen t => exact absurd hrule hi
      | setPrefixKvSerialBytes k => exact absurd hrule hi
      | setWatermark t => exact absurd hrule.1 hi
      | setPromise m q =>
        have hne : p ≠ m := fun heq => hi (heq ▸ hrule.1)
        have hdone : cfg.AllDone w → cfg.AllDone w' := allDone_of_exec hx
        simp only [exec] at hx
        split at hx
        · simp only [Option.some.injEq, Prod.mk.injEq] at hx
          obtain ⟨-, rfl⟩ := hx
          exact ⟨rfl, rfl, rfl, rfl, Function.update_of_ne hne _ _, hdone⟩
        · simp only [Option.some.injEq, Prod.mk.injEq] at hx
          obtain ⟨-, rfl⟩ := hx
          exact ⟨rfl, rfl, rfl, rfl, rfl, hdone⟩
      | _ => cases ho
    · exact samePrefix_exec hx (Bool.eq_false_iff.mpr ho)
  refine h.frame rfl hsame (sameStaging_exec hsound hfits hok hx ?_)
  rintro k b cap seq rfl
  exact hi hrule.1

private theorem lookup_cons (t : Int) (data : List UInt8) (filed : List (Int × List UInt8)) (u : Int) :
    (((t, data) :: filed : List (Int × List UInt8)).lookup u).map (fun d => (⟨d, u⟩ : PrefixKvSnapshot)) =
      Function.update (fun u => (filed.lookup u).map fun d => (⟨d, u⟩ : PrefixKvSnapshot)) t
        (some ⟨data, t⟩) u := by
  by_cases hu : u = t
  · subst hu
    simp
  · simp [Function.update_of_ne hu, List.lookup_cons, beq_eq_false_iff_ne.mpr hu]

/-- The provider files a snapshot. -/
private theorem PrefixInStep.put (h : cfg.PrefixInStep D p v w)
    (hfits : Fits cfg cfg.stagingBuffer (.worker p) v w) {t : Int} {data : List UInt8} {x : Choice}
    {r : Unit} (hheld : v.held = true)
    (hrule : cfg.scheduleRule D p (.worker p) v (.op (.putSnapshot t data)))
    (hsettled : (w.promises p).isSome = v.settled)
    (hx : exec cfg.engine (.worker p) (.putSnapshot t data) x w = some (r, w')) :
    cfg.PrefixInStep D p (v.next cfg.engine (.op (.putSnapshot t data)) r) w' := by
  obtain ⟨-, hopen, hlast⟩ := hrule
  simp only [exec, Option.some.injEq, Prod.mk.injEq] at hx
  obtain ⟨-, rfl⟩ := hx
  refine ⟨fun u => ?_, h.seqLen, h.serialBytes, h.watermark, fun hfree => ?_, h.size,
    .inr fun _ b hb => ?_, fun hp => ?_, fun hp => ?_⟩
  -- the new snapshot is found first
  · show Function.update w.state.prefixSnapshots t (some ⟨data, t⟩) u =
      (((t, data) :: v.filed : List (Int × List UInt8)).lookup u).map (⟨·, u⟩)
    rw [lookup_cons, funext h.snapshots]
  · have hfree : v.held = false := hfree
    rw [hheld] at hfree
    cases hfree
  -- it is what the provider has read of the canonical buffer
  · show w.bytesAt (.buffer b) data.length = data
    by_cases hne : data = []
    · subst hne
      simp [World.bytesAt]
    · exact (hfits.right hheld).last _ _ _ (hlast hne b hb)
  -- the promise of `p` is still open
  · have hp : (w.promises p).isSome := hp
    rw [hsettled, hopen] at hp
    cases hp
  · obtain ⟨-, m, hm, heq⟩ := hfits.held hheld
    exact absurd (Thread.worker.inj heq ▸ hm) hp

/-- The provider exports its sequence into the canonical buffer. -/
private theorem PrefixInStep.export (h : cfg.PrefixInStep D p v w)
    (hfits : Fits cfg cfg.stagingBuffer (.worker p) v w) {k b cap : Nat} {seq : Int} {x : Choice}
    {r : Nat} (hok : v.accepts cfg cfg.stagingBuffer (.worker p) (.op (.llamaStateSeqGetData k b cap seq)))
    (hrule : cfg.scheduleRule D p (.worker p) v (.op (.llamaStateSeqGetData k b cap seq)))
    (hx : exec cfg.engine (.worker p) (.llamaStateSeqGetData k b cap seq) x w = some (r, w')) :
    cfg.PrefixInStep D p (v.next cfg.engine (.op (.llamaStateSeqGetData k b cap seq)) r) w' := by
  obtain ⟨hctx, hheld, hb⟩ := hok
  obtain ⟨cells, hcells⟩ := Option.isSome_iff_exists.mp hrule.2
  obtain ⟨known, hknown, -⟩ := hfits.ctx k hctx
  obtain ⟨bytes, -, -, rfl⟩ := exec_llamaStateSeqGetData hknown hx
  refine ⟨h.snapshots, h.seqLen, h.serialBytes, h.watermark, fun hfree => ?_, h.size.imp id
    fun hsize b' hb' => ?_, .inr fun hnone => ?_, h.provided, h.outside⟩
  · have hfree : v.held = false := hfree
    rw [hheld] at hfree
    cases hfree
  · obtain rfl := Option.some.inj (hb.symm.trans hb')
    show (Function.update w.buffers b _ b).map _ = _
    rw [Function.update_self, Option.map_map]
    exact hsize b hb
  -- until it is filed, nothing is known of the bytes
  · have hnone : v.cells.map (fun cells => (seqState seq cells, r)) = none := hnone
    rw [hcells] at hnone
    cases hnone

/-- A step of the provider. -/
theorem PrefixInStep.own (h : cfg.PrefixInStep D p v w)
    (hsound : Sound cfg cfg.stagingBuffer w) (hfits : Fits cfg cfg.stagingBuffer (.worker p) v w)
    (hsettled : (w.promises p).isSome = v.settled) {o : Op} {x : Choice} {r : o.Res}
    (hok : v.accepts cfg cfg.stagingBuffer (.worker p) (.op o))
    (hrule : cfg.scheduleRule D p (.worker p) v (.op o))
    (hx : exec cfg.engine (.worker p) o x w = some (r, w')) :
    cfg.PrefixInStep D p (v.next cfg.engine (.op o) r) w' := by
  have hframe : onPrefix o = false → unmarked (.op o) = true →
      (∀ k b cap seq, o ≠ .llamaStateSeqGetData k b cap seq) →
      cfg.PrefixInStep D p (v.next cfg.engine (.op o) r) w' := fun ho hv hget =>
    h.frame (marks_next hv v r) (samePrefix_exec hx ho) (sameStaging_exec hsound hfits hok hx hget)
  have hguard : v.held = true → v.held ≠ false := fun hheld => by simp [hheld]
  -- under the guard the fields of the export may be out of step with each other
  cases o with
  | putSnapshot t data => exact h.put hfits hok hrule hsettled hx
  | llamaStateSeqGetData k b cap seq => exact h.export hfits hok hrule hx
  | setPrefixSeqLen t =>
    simp only [exec, Option.some.injEq, Prod.mk.injEq] at hx
    obtain ⟨-, rfl⟩ := hx
    exact ⟨h.snapshots, rfl, h.serialBytes, h.watermark, fun hfree => absurd hfree (hguard hok), h.size,
      h.bytes, h.provided, h.outside⟩
  | setPrefixKvSerialBytes k =>
    simp only [exec, Option.some.injEq, Prod.mk.injEq] at hx
    obtain ⟨-, rfl⟩ := hx
    exact ⟨h.snapshots, h.seqLen, rfl, h.watermark, fun hfree => absurd hfree (hguard hok), h.size,
      h.bytes, h.provided, h.outside⟩
  | setWatermark t =>
    obtain ⟨-, hheld, rfl⟩ := hrule
    simp only [exec, Option.some.injEq, Prod.mk.injEq] at hx
    obtain ⟨-, rfl⟩ := hx
    exact ⟨h.snapshots, h.seqLen, h.serialBytes, le_rfl, fun hfree => absurd hfree (hguard hheld),
      h.size, h.bytes, h.provided, h.outside⟩
  | setPromise m q =>
    obtain ⟨hm, -, -, hfiled, -⟩ := hrule
    obtain rfl := Thread.worker.inj hm
    have hpublished : v.held = false → cfg.AllPublished D p { v with settled := true } :=
      fun hfree => (h.published hfree).congr rfl
    simp only [exec] at hx
    split at hx
    · simp only [Option.some.injEq, Prod.mk.injEq] at hx
      obtain ⟨-, rfl⟩ := hx
      exact ⟨h.snapshots, h.seqLen, h.serialBytes, h.watermark, hpublished, h.size, h.bytes,
        fun _ => hfiled rfl, h.outside⟩
    · simp only [Option.some.injEq, Prod.mk.injEq] at hx
      obtain ⟨-, rfl⟩ := hx
      exact ⟨h.snapshots, h.seqLen, h.serialBytes, h.watermark, hpublished, h.size, h.bytes,
        h.provided, h.outside⟩
  | note e =>
    cases e with
    | commitWatermark ctx t =>
      obtain ⟨-, hheld, hlt⟩ := hrule
      simp only [exec, Option.some.injEq, Prod.mk.injEq] at hx
      obtain ⟨-, rfl⟩ := hx
      exact ⟨h.snapshots, h.seqLen, h.serialBytes, h.watermark.trans (Int.le_of_lt hlt),
        fun hfree => absurd hfree (hguard hheld), h.size, h.bytes, h.provided, h.outside⟩
    | _ => exact hframe rfl rfl fun _ _ _ _ => Op.noConfusion
  | _ => exact hframe rfl rfl fun _ _ _ _ => Op.noConfusion

/-- The provider takes the guard, or gives it away. -/
theorem PrefixInStep.guard (h : cfg.PrefixInStep D p v w) {a : Action sig} {r : a.Res}
    (ha : a = .lock .llamaApiMutex ∧ v.held = false ∨
      a = .unlock .llamaApiMutex ∧ cfg.AllPublished D p v) :
    cfg.PrefixInStep D p (v.next cfg.engine a r) w := by
  obtain ⟨rfl, hfree⟩ | ⟨rfl, hpub⟩ := ha
  · refine ⟨h.snapshots, h.seqLen, h.serialBytes, h.watermark, fun hheld => ?_, h.size,
      h.bytes.imp id fun hbytes _ => hbytes (h.published hfree).exported, h.provided, h.outside⟩
    have hheld : true = false := hheld
    cases hheld
  · exact ⟨h.snapshots, h.seqLen, h.serialBytes, h.watermark,
      fun _ => ⟨hpub.exported, hpub.seqLen, hpub.serialBytes, hpub.filed⟩, h.size, h.bytes, h.provided,
      h.outside⟩

theorem samePrefix_refl : SamePrefix cfg p w w := ⟨rfl, rfl, rfl, rfl, rfl, id⟩

end Pipeline

end SwarmKV
