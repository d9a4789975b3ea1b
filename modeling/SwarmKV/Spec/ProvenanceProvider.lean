import SwarmKV.Spec.Provenance

/-!
# What a provider files

`execute()` of a provider, by the rules about where forks come from: slice by slice it decodes its
document, commits the position, files the milestone, and takes it up again behind the pause.
-/

namespace SwarmKV.Pipeline

open Monitor

variable {cfg : Pipeline} {staging : Option Nat} {p n : String} {W : Int} {b h t : Nat}
  {s : View} {I : View → Prop} {X : Error → View → Prop}

/-- Provider `n`, with context `h` at position `t` of its document. -/
private structure Provider (cfg : Pipeline) (p : String) (W : Int) (n : String) (held : Bool)
    (h t : Nat) (s : View) : Prop where
  held : s.held = held
  live : s.done = false
  ctx : s.ctx = some h
  cells : n = p → (t : Int) ≤ W → s.cells = some (toCells (docSeq (cfg.doc p) t))
  filed : n = p → ∀ x ∈ s.filed, x.1 ≤ W → cfg.OwnExport p x

/-- Between two slices. -/
private def SliceReady (cfg : Pipeline) (p : String) (W : Int) (n : String) (h t : Nat) (s : View) :
    Prop :=
  cfg.Provider p W n false h t s ∧ s.top = t ∧ ∀ x ∈ s.filed, x.1 ≤ t

/-- Under the guard, with the slice up to `t` decoded. -/
private def SliceDecoded (cfg : Pipeline) (p : String) (W : Int) (n : String) (h t : Nat) (s : View) :
    Prop :=
  cfg.Provider p W n true h t s ∧ s.top < t ∧ ∀ x ∈ s.filed, x.1 < t

/-- Under the guard, while `t` is committed. -/
private def SliceCommitting (cfg : Pipeline) (p : String) (W : Int) (n : String) (h t : Nat)
    (s : View) : Prop :=
  cfg.Provider p W n true h t s ∧ s.top = t ∧ ∀ x ∈ s.filed, x.1 < t

/-- Behind the commit of `t`: a milestone is filed. -/
private def SliceFiled (cfg : Pipeline) (p : String) (W : Int) (n : String) (held : Bool) (h t : Nat)
    (s : View) : Prop :=
  cfg.Provider p W n held h t s ∧ s.top = t ∧ (∀ x ∈ s.filed, x.1 ≤ t) ∧
    (cfg.IsMilestone t → ∃ data, ((t : Int), data) ∈ s.filed)

/-- What the provider has exported: `nw` bytes of its own document. -/
private def ExportTaken (cfg : Pipeline) (p : String) (W : Int) (n : String) (t nw : Nat) (s : View) :
    Prop :=
  n = p → (t : Int) ≤ W → 0 < nw ∧ s.exported = some (docSeq (cfg.doc p) t, nw)

/-- What the provider has exported and read back. -/
private def ReadBack (cfg : Pipeline) (p : String) (W : Int) (n : String) (b t : Nat) (nw : Nat)
    (bytes : List UInt8) (s : View) : Prop :=
  n = p → (t : Int) ≤ W → s.last = some (.buffer b, nw, bytes) ∧
    s.exported = some (docSeq (cfg.doc p) t, nw) ∧ 0 < nw ∧ cfg.OwnExport p (t, bytes)

/-- The last critical section of the commit, as long as the snapshot is not filed. -/
private def SliceExported (cfg : Pipeline) (p : String) (W : Int) (n : String) (b h t : Nat)
    (nw : Nat) (bytes : List UInt8) (s : View) : Prop :=
  cfg.SliceCommitting p W n h t s ∧ cfg.ReadBack p W n b t nw bytes s

section Same

variable {s' : View} {held : Bool} {nw : Nat} {bytes : List UInt8}

private theorem Provider.same (hs : cfg.Provider p W n held h t s) (h' : SamePlace s s') :
    cfg.Provider p W n held h t s' where
  held := h'.held.trans hs.held
  live := h'.live.trans hs.live
  ctx := h'.ctx.trans hs.ctx
  cells hp hle := h'.cells.trans (hs.cells hp hle)
  filed hp x hx := hs.filed hp x (h'.filed ▸ hx)

private theorem SliceReady.same (hs : cfg.SliceReady p W n h t s) (h' : SamePlace s s') :
    cfg.SliceReady p W n h t s' :=
  ⟨hs.1.same h', h'.top.trans hs.2.1, fun x hx => hs.2.2 x (h'.filed ▸ hx)⟩

private theorem SliceCommitting.same (hs : cfg.SliceCommitting p W n h t s) (h' : SamePlace s s') :
    cfg.SliceCommitting p W n h t s' :=
  ⟨hs.1.same h', h'.top.trans hs.2.1, fun x hx => hs.2.2 x (h'.filed ▸ hx)⟩

private theorem SliceFiled.same (hs : cfg.SliceFiled p W n held h t s) (h' : SamePlace s s') :
    cfg.SliceFiled p W n held h t s' := by
  obtain ⟨hprov, htop, hbelow, hfiled⟩ := hs
  refine ⟨hprov.same h', h'.top.trans htop, ?_, ?_⟩
  · rw [h'.filed]
    exact hbelow
  · rw [h'.filed]
    exact hfiled

/-- What has been read back is lost when more bytes are read or exported, or a snapshot is filed. -/
private theorem SliceExported.same (hs : cfg.SliceExported p W n b h t nw bytes s)
    (h' : SamePlace s s') (hlast : s'.last = s.last) (hexported : s'.exported = s.exported) :
    cfg.SliceExported p W n b h t nw bytes s' := by
  refine ⟨hs.1.same h', fun hp hle => ?_⟩
  rw [hlast, hexported]
  exact hs.2 hp hle

end Same

/-- The first critical section of the commit. -/
private theorem publishUnexported_provenance :
    (cfg.provenanceWatch staging p W (.worker n)).Spec (cfg.SliceCommitting p W n h t)
      (withLock .watermarkMutex (PipelineState.publishUnexported t))
      (fun b s => cfg.SliceCommitting p W n h t s ∧ (b = true ↔ cfg.IsMilestone t))
      fun _ _ => False := by
  have hset : (cfg.provenanceWatch staging p W (.worker n)).Spec (cfg.SliceCommitting p W n h t)
      (perform (.setWatermark t)) (fun _ => cfg.SliceCommitting p W n h t) fun _ _ => False := by
    refine .op fun s hs => ⟨⟨trivial, trivial⟩, fun r _ => ?_⟩
    exact hs.same (samePlace_next rfl)
  have hnotify : (cfg.provenanceWatch staging p W (.worker n)).Spec (cfg.SliceCommitting p W n h t)
      (notifyAll .watermarkCv) (fun _ => cfg.SliceCommitting p W n h t) fun _ _ => False :=
    .notifyAll fun s hs => ⟨⟨trivial, trivial⟩, fun _ => hs⟩
  apply provenanceRule_lenient.withLock rfl rfl
  unfold PipelineState.publishUnexported
  refine .bind (load_provenance fun s r hs => hs.same (samePlace_found s r)) fun r => ?_
  refine .assume fun hr => ?_
  have hmilestone := hr.2 t
  refine .ite (fun hyes => ?_) fun hno => ?_
  · have hm := hmilestone.mp hyes
    exact .ret fun s hs => ⟨hs, iff_of_true rfl hm⟩
  · have hm : ¬ cfg.IsMilestone t := fun hm => hno (hmilestone.mpr hm)
    refine .bind hset fun _ => .bind hnotify fun _ => ?_
    exact .ret fun s hs => ⟨hs, iff_of_false Bool.false_ne_true hm⟩

/-- The provider exports its sequence into the canonical buffer and reads it back. -/
private theorem exportPrefix_provenance (hb : staging = some b)
    (hv : CommitValue (cfg.doc n).length t) :
    (cfg.provenanceWatch staging p W (.worker n)).Spec (cfg.SliceCommitting p W n h t)
      (PipelineState.exportPrefix h)
      (fun e => cfg.SliceExported p W n b h t e.1 e.2) fun _ => Alive true := by
  have hidle : ∀ s, cfg.SliceCommitting p W n h t s → Alive true s := fun s hs => ⟨hs.1.held, hs.1.live⟩
  have hne : n = p → docSeq (cfg.doc p) t ≠ [] := by
    rintro rfl hnil
    have hpos := hv.1
    have hlen := hv.2.1
    have hcovers := (covers_docSeq (cfg.doc n) (n := t) (by omega)).length
    rw [hnil, List.length_nil] at hcovers
    omega
  -- the size that the engine reports
  have hsize : (cfg.provenanceWatch staging p W (.worker n)).Spec (cfg.SliceCommitting p W n h t)
      (perform (.llamaStateSeqGetSize h kSwarmkvPrefixSeqId))
      (fun need s => cfg.SliceCommitting p W n h t s ∧ (n = p → (t : Int) ≤ W →
        need = cfg.engine.llamaStateSeqGetSize (docSeq (cfg.doc p) t))) fun _ => Alive true := by
    refine .op fun s hs => ⟨⟨hs.1.ctx, trivial⟩, fun need hneed => ⟨hs, fun hp hle => ?_⟩⟩
    rw [hneed.1 _ (hs.1.cells hp hle), seqState_toCells]
  -- an export that fits is not empty
  have hexport : ∀ {need cap : Nat}, need ≤ cap → (n = p → (t : Int) ≤ W →
      need = cfg.engine.llamaStateSeqGetSize (docSeq (cfg.doc p) t)) →
      (cfg.provenanceWatch staging p W (.worker n)).Spec (cfg.SliceCommitting p W n h t)
        (perform (.llamaStateSeqGetData h b cap kSwarmkvPrefixSeqId))
        (fun nw s => cfg.SliceCommitting p W n h t s ∧ cfg.ExportTaken p W n t nw s)
        fun _ => Alive true := by
    intro need cap hcap hneed
    refine .op fun s hs => ⟨⟨⟨hs.1.ctx, hs.1.held, hb⟩, trivial⟩, fun nw hnw => ?_⟩
    refine ⟨hs.same (samePlace_next rfl), fun hp hle => ?_⟩
    have hcells := hs.1.cells hp hle
    have hseq := seqState_toCells (docSeq (cfg.doc p) t)
    have hfits : cfg.engine.llamaStateSeqGetSize (docSeq (cfg.doc p) t) ≤ cap := hneed hp hle ▸ hcap
    have hnz : nw ≠ 0 := by
      apply hnw.2 _ hcells
      · rw [hseq]
        exact hne hp
      · rw [hseq]
        exact hfits
    refine ⟨Nat.pos_of_ne_zero hnz, ?_⟩
    show (s.cells.map fun cells => (seqState kSwarmkvPrefixSeqId cells, nw)) = _
    rw [hcells, Option.map_some, hseq]
  -- the bytes that are read back are the export
  have hread : ∀ {nw : Nat}, (cfg.provenanceWatch staging p W (.worker n)).Spec
      (fun s => cfg.SliceCommitting p W n h t s ∧ cfg.ExportTaken p W n t nw s)
      (perform (.readBytes (.buffer b) nw))
      (fun bytes => cfg.SliceExported p W n b h t nw bytes) fun _ => Alive true := by
    intro nw
    refine .op fun s hs => ⟨⟨hs.1.1.held, trivial⟩, fun bytes hbytes => ?_⟩
    refine ⟨hs.1.same (samePlace_next rfl), fun hp hle => ?_⟩
    obtain ⟨hpos, hexported⟩ := hs.2 hp hle
    obtain ⟨hlen, hexports⟩ := hbytes.1 hb _ hexported
    have hbytes : bytes ≠ [] := List.ne_nil_of_length_pos (hlen ▸ hpos)
    exact ⟨rfl, hexported, hpos, hexports hbytes, hbytes⟩
  unfold PipelineState.exportPrefix
  refine .bind (load_provenance fun s r hs => hs.same (samePlace_found s r)) fun r => ?_
  refine .assume fun hr => ?_
  rw [hr.1.trans hb]
  refine .bind hsize fun need => .assume fun hneed => ?_
  refine .bind (provenanceRule_lenient.op' rfl) fun cap => .ite (fun _ => ?_) fun hcap => ?_
  · exact .throw hidle
  refine .bind (hexport (Nat.not_lt.mp hcap) hneed) fun nw => .ite (fun _ => ?_) fun hzero => ?_
  · refine .bind (alloc_provenance fun _ s hs => hidle s hs.1) fun _ => ?_
    exact .bind hread fun bytes => .ret fun _ hs => hs
  · refine .ret fun s hs => ⟨hs.1, fun hp hle => ?_⟩
    exact absurd (hs.2 hp hle).1 hzero

/-- The provider files what it has read back. -/
private theorem putSnapshot_provenance (hb : staging = some b) (hm : cfg.IsMilestone t) {nw : Nat}
    {bytes data : List UInt8} (hdata : n = p → (t : Int) ≤ W → data = bytes) :
    (cfg.provenanceWatch staging p W (.worker n)).Spec (cfg.SliceExported p W n b h t nw bytes)
      (perform (.putSnapshot t data)) (fun _ => cfg.SliceFiled p W n true h t)
      fun _ => Alive true := by
  refine .op fun s hs => ?_
  obtain ⟨⟨hprov, htop, hbelow⟩, hread⟩ := hs
  constructor
  · refine ⟨hprov.held, n, rfl, htop.symm, hm, hbelow, fun hp hle => ?_⟩
    obtain ⟨hlast, hexported, -, hown⟩ := hread hp hle
    rw [hdata hp hle]
    exact ⟨b, nw, hb, hlast, hexported, hown.ne_nil⟩
  · intro _ _
    refine ⟨⟨hprov.held, hprov.live, hprov.ctx, hprov.cells, ?_⟩, htop, ?_, ?_⟩
    · intro hp x hx hle
      obtain rfl | hx := List.mem_cons.mp hx
      · obtain ⟨-, -, -, hown⟩ := hread hp hle
        rwa [hdata hp hle]
      · exact hprov.filed hp x hx hle
    · intro x hx
      obtain rfl | hx := List.mem_cons.mp hx
      · exact le_rfl
      · exact (hbelow x hx).le
    · exact fun _ => ⟨data, List.mem_cons_self⟩

/-- The last critical section of the commit. -/
private theorem publishExported_provenance (hb : staging = some b) (hm : cfg.IsMilestone t)
    (nw : Nat) (bytes : List UInt8) :
    (cfg.provenanceWatch staging p W (.worker n)).Spec
      (cfg.SliceExported p W n b h t nw bytes)
      (withLock .watermarkMutex (PipelineState.publishExported t nw bytes))
      (fun _ => cfg.SliceFiled p W n true h t) fun _ => Alive true := by
  -- nothing of what the provider has read back is lost on the way
  have hset : (cfg.provenanceWatch staging p W (.worker n)).Spec
      (cfg.SliceExported p W n b h t nw bytes) (perform (.setWatermark t))
      (fun _ => cfg.SliceExported p W n b h t nw bytes) fun _ => Alive true := by
    refine .op fun s hs => ⟨⟨trivial, trivial⟩, fun r _ => ?_⟩
    exact hs.same (samePlace_next rfl) rfl rfl
  have hlen : (cfg.provenanceWatch staging p W (.worker n)).Spec
      (cfg.SliceExported p W n b h t nw bytes) (perform (.setPrefixSeqLen t))
      (fun _ => cfg.SliceExported p W n b h t nw bytes) fun _ => Alive true := by
    refine .op fun s hs => ⟨⟨hs.1.1.held, trivial⟩, fun r _ => ?_⟩
    exact hs.same (samePlace_next rfl) rfl rfl
  have hsize : (cfg.provenanceWatch staging p W (.worker n)).Spec
      (cfg.SliceExported p W n b h t nw bytes) (perform (.setPrefixKvSerialBytes nw))
      (fun _ => cfg.SliceExported p W n b h t nw bytes) fun _ => Alive true := by
    refine .op fun s hs => ⟨⟨hs.1.1.held, trivial⟩, fun r _ => ?_⟩
    exact hs.same (samePlace_next rfl) rfl rfl
  have hnotify : (cfg.provenanceWatch staging p W (.worker n)).Spec (cfg.SliceFiled p W n true h t)
      (notifyAll .watermarkCv) (fun _ => cfg.SliceFiled p W n true h t) fun _ => Alive true :=
    .notifyAll fun s hs => ⟨⟨trivial, trivial⟩, fun _ => hs⟩
  -- what `p` files up to `W` is not empty
  have hend : (cfg.provenanceWatch staging p W (.worker n)).Spec
      (cfg.SliceExported p W n b h t nw bytes)
      (if nw > 0 then perform (.putSnapshot t bytes) >>= fun _ => notifyAll .watermarkCv
        else perform (.putSnapshot t []) >>= fun _ => notifyAll .watermarkCv)
      (fun _ => cfg.SliceFiled p W n true h t) fun _ => Alive true := by
    refine .ite (fun _ => ?_) fun hzero => .fix fun s₀ hs₀ => ?_
    · exact .bind (putSnapshot_provenance hb hm fun _ _ => rfl) fun _ => hnotify
    · have hempty : n = p → (t : Int) ≤ W → [] = bytes := fun hp hle =>
        absurd (hs₀.2 hp hle).2.2.1 hzero
      refine .pre (I := cfg.SliceExported p W n b h t nw bytes) ?_ fun s hs => hs ▸ hs₀
      exact .bind (putSnapshot_provenance hb hm hempty) fun _ => hnotify
  apply provenanceRule_lenient.withLock rfl rfl
  unfold PipelineState.publishExported
  refine .bind hset fun _ => .bind hlen fun _ => .bind hsize fun _ => ?_
  refine .bind (load_provenance fun s r hs => hs.same (samePlace_found s r) rfl rfl) fun r => ?_
  refine .assume fun _ => .ite (fun _ => ?_) fun _ => hend
  exact .bind (alloc_provenance fun _ s hs => ⟨hs.1.1.held, hs.1.1.live⟩) fun _ => hend

/-- The commit of a position that has been decoded. -/
private theorem commitWatermark_provenance (hn : cfg.orchestrator.isPrefill n = true)
    (hb : staging = some b) (hv : CommitValue (cfg.doc n).length t) :
    (cfg.provenanceWatch staging p W (.worker n)).Spec (cfg.SliceDecoded p W n h t)
      (PipelineState.commitWatermark (some h) t) (fun _ => cfg.SliceFiled p W n true h t)
      fun _ => Alive true := by
  have hnote : (cfg.provenanceWatch staging p W (.worker n)).Spec (cfg.SliceDecoded p W n h t)
      (perform (.note (.commitWatermark (some h) t))) (fun _ => cfg.SliceCommitting p W n h t)
      fun _ => Alive true := by
    refine .op fun s hs => ?_
    obtain ⟨hprov, htop, hbelow⟩ := hs
    refine ⟨⟨trivial, n, rfl, hn, hv, htop⟩, fun _ _ => ?_⟩
    exact ⟨⟨hprov.held, hprov.live, hprov.ctx, hprov.cells, hprov.filed⟩, rfl, hbelow⟩
  unfold PipelineState.commitWatermark
  refine .bind hnote fun _ => .ite (fun hneg => absurd hneg (by omega)) fun _ => ?_
  refine .bind (.noThrow publishUnexported_provenance) fun yes => ?_
  refine .assume fun hiff => .ite (fun hyes => ?_) fun hno => ?_
  · refine .bind (exportPrefix_provenance hb hv) fun e => ?_
    exact publishExported_provenance hb (hiff.mp hyes) e.1 e.2
  · refine .ret fun s hs => ?_
    obtain ⟨hprov, htop, hbelow⟩ := hs
    exact ⟨hprov, htop, fun x hx => (hbelow x hx).le, fun hm => absurd (hiff.mpr hm) hno⟩

private theorem Provider.lock (hs : cfg.Provider p W n false h t s) :
    cfg.Provider p W n true h t (s.next cfg.engine (.lock .llamaApiMutex) ()) :=
  ⟨rfl, hs.live, hs.ctx, hs.cells, hs.filed⟩

private theorem Provider.unlock (hs : cfg.Provider p W n true h t s) :
    cfg.Provider p W n false h t (s.next cfg.engine (.unlock .llamaApiMutex) ()) :=
  ⟨rfl, hs.live, hs.ctx, hs.cells, hs.filed⟩

/-- Provider `n` decodes at a position of the slice from `t` on. -/
private def SliceDecoding (cfg : Pipeline) (p : String) (W : Int) (n : String) (h t cur : Nat)
    (s : View) : Prop :=
  cfg.Provider p W n true h cur s ∧ s.top = t ∧ ∀ x ∈ s.filed, x.1 ≤ t

/-- The provider decodes a slice. -/
private theorem decodeTokenRange_provenance {t' : Nat} (hn : cfg.orchestrator.isPrefill n = true)
    (hW : 0 < W) (hnext : t < t') (hstop : t' ≤ (cfg.doc n).length) {count : Nat}
    (hcount : t + count = t') :
    (cfg.provenanceWatch staging p W (.worker n)).Spec (cfg.SliceDecoding p W n h t t)
      (PrefillNode.decodeTokenRange cfg.engine h (cfg.doc n) t count)
      (fun _ => cfg.SliceDecoded p W n h t') fun _ => Alive true := by
  -- the rule about branches that fork at `W` does not apply
  have hreq : ∀ m, Thread.worker n = .worker m → cfg.orchestrator.req m ≠ W := by
    intro m hm
    obtain rfl := Thread.worker.inj hm
    rw [Orchestrator.req_of_isPrefill hn]
    omega
  unfold PrefillNode.decodeTokenRange
  refine .post (J := fun _ => cfg.SliceDecoding p W n h t t') ?_ fun _ s hs => ?_
  · refine PrefillNode.decodeLoop_spec (A := cfg.provenanceWatch staging p W (.worker n)) hstop
      (fun _ _ _ hr => hr.1) (fun _ => provenanceRule_lenient.keeps rfl)
      (fun _ _ => provenanceRule_lenient.keeps rfl) (fun _ => provenanceRule_lenient.keeps rfl) ?_ ?_
      count t count hcount le_rfl
    · intro cur k id s _ hcur hs
      obtain ⟨hprov, hrest⟩ := hs
      refine ⟨⟨hprov.ctx, fun m hm hreq' => absurd hreq' (hreq m hm)⟩, fun r _ => ⟨?_, ?_⟩⟩
      · rintro rfl
        refine ⟨⟨hprov.held, hprov.live, hprov.ctx, fun hp hle => ?_, hprov.filed⟩, hrest⟩
        have hcells := hprov.cells hp (by omega)
        subst hp
        show s.cells.map (· ++ LlamaBatch.cells _) = _
        rw [hcells, cells_fillBatch, docSeq_add _ (by omega), toCells_append]
        rfl
      · rintro rfl
        exact ⟨hprov.held, hprov.live⟩
    · -- a batch without tokens is refused
      intro _ m cur id s _ hcur hs
      obtain ⟨hprov, hrest⟩ := hs
      refine ⟨⟨hprov.ctx, fun m' hm' hreq' => absurd hreq' (hreq m' hm')⟩, fun _ => ?_⟩
      exact ⟨hprov.held, hprov.live⟩
  · obtain ⟨hprov, htop, hbelow⟩ := hs
    refine ⟨hprov, ?_, fun x hx => ?_⟩
    · rw [htop]
      exact Int.ofNat_lt.mpr hnext
    · have hle := hbelow x hx
      omega

private theorem prefillSlice_provenance (hn : cfg.orchestrator.isPrefill n = true) (hW : 0 < W)
    (hb : staging = some b) (hdvd : 128 ∣ t) (hlt : t < (cfg.doc n).length) :
    (cfg.provenanceWatch staging p W (.worker n)).Spec (cfg.SliceReady p W n h t)
      (PrefillNode.prefillSlice cfg.engine h (cfg.doc n) t (min 128 ((cfg.doc n).length - t)))
      (fun _ => cfg.SliceFiled p W n false h (t + min 128 ((cfg.doc n).length - t)))
      fun _ => Alive false := by
  have hvalue := commitValue_slice hdvd hlt
  have hmem := Orchestrator.mem_names_of_isPrefill hn
  have hstop : t + min 128 ((cfg.doc n).length - t) ≤ (cfg.doc n).length := by omega
  have hnext : t < t + min 128 ((cfg.doc n).length - t) := by omega
  unfold PrefillNode.prefillSlice
  refine .withLock (I := cfg.SliceDecoding p W n h t t) (J := fun _ => cfg.SliceFiled p W n true h
    (t + min 128 ((cfg.doc n).length - t))) (K := fun _ => Alive true) (fun s hs => ?_) ?_
    (fun _ s hs => ?_) fun _ s hs => ?_
  · exact ⟨lock_provenance hmem hs.1.live, fun _ => ⟨hs.1.lock, hs.2⟩⟩
  · refine .bind (decodeTokenRange_provenance hn hW hnext hstop rfl) fun _ => ?_
    exact commitWatermark_provenance hn hb hvalue
  · exact ⟨⟨trivial, trivial⟩, fun _ => ⟨hs.1.unlock, hs.2⟩⟩
  · exact ⟨⟨trivial, trivial⟩, fun _ => ⟨rfl, hs.2⟩⟩

private theorem isSnapshotMilestone_provenance :
    (cfg.provenanceWatch staging p W (.worker n)).Spec (cfg.SliceFiled p W n false h t)
      (PipelineState.isSnapshotMilestone t)
      (fun m => if m = true then fun s => cfg.SliceFiled p W n false h t s ∧ cfg.IsMilestone t
        else cfg.SliceReady p W n h t) fun _ => Alive false := by
  apply provenanceRule_lenient.withLock rfl rfl
  refine .bind (load_provenance fun s r hs => hs.same (samePlace_found s r)) fun r => ?_
  refine .ret fun s hs => ?_
  obtain ⟨⟨hprov, htop, hbelow, hfiled⟩, -, hiff⟩ := hs
  split
  · exact ⟨⟨hprov, htop, hbelow, hfiled⟩, (hiff t).mp ‹_›⟩
  · exact ⟨hprov, htop, hbelow⟩

/-- The provider has given up its context, or has a new one with nothing in it. -/
private structure SliceResuming (cfg : Pipeline) (p : String) (W : Int) (n : String) (held : Bool)
    (k : Option Nat) (t : Nat) (s : View) : Prop where
  held : s.held = held
  live : s.done = false
  ctx : s.ctx = k
  cells : k.isSome → s.cells = some []
  filed : n = p → ∀ x ∈ s.filed, x.1 ≤ W → cfg.OwnExport p x
  top : s.top = t
  below : ∀ x ∈ s.filed, x.1 ≤ t
  snapshot : ∃ data, ((t : Int), data) ∈ s.filed

private theorem SliceResuming.same {s' : View} {held : Bool} {k : Option Nat}
    (hs : cfg.SliceResuming p W n held k t s) (h' : SamePlace s s') :
    cfg.SliceResuming p W n held k t s' where
  held := h'.held.trans hs.held
  live := h'.live.trans hs.live
  ctx := h'.ctx.trans hs.ctx
  cells hk := h'.cells.trans (hs.cells hk)
  filed hp x hx := hs.filed hp x (h'.filed ▸ hx)
  top := h'.top.trans hs.top
  below x hx := hs.below x (h'.filed ▸ hx)
  snapshot := by
    obtain ⟨data, hdata⟩ := hs.snapshot
    exact ⟨data, h'.filed ▸ hdata⟩

private theorem SliceResuming.lock {k : Option Nat} (hs : cfg.SliceResuming p W n false k t s) :
    cfg.SliceResuming p W n true k t (s.next cfg.engine (.lock .llamaApiMutex) ()) where
  held := rfl
  __ := hs

private theorem SliceResuming.unlock {k : Option Nat} (hs : cfg.SliceResuming p W n true k t s) :
    cfg.SliceResuming p W n false k t (s.next cfg.engine (.unlock .llamaApiMutex) ()) where
  held := rfl
  __ := hs

/-- Up to `W`, the snapshot that provider `p` finds is the one it has filed. -/
private theorem SliceResuming.own_snapshot {k : Option Nat} {held : Bool} {q : PipelineState}
    (hs : cfg.SliceResuming p W n held k t s) (hfound : FoundBy p W n q s) (hp : n = p)
    (hle : (t : Int) ≤ W) :
    ∃ snap, q.prefixSnapshots t = some snap ∧ cfg.OwnExport p (t, snap.data) := by
  obtain ⟨data, hdata⟩ := hs.snapshot
  have hmap := hfound.2.2 hp _ hdata hle
  obtain ⟨snap, hsnap, rfl⟩ := Option.map_eq_some_iff.mp hmap
  exact ⟨snap, hsnap, hs.filed hp _ hdata hle⟩

/-- The provider restores the snapshot that it has found. -/
private theorem restoreSnapshot_provenance (hr : cfg.engine.RoundTrips) {snap : PrefixKvSnapshot}
    {s₀ : View} (hres : cfg.SliceResuming p W n true (some h) t s₀) (hne : snap.data ≠ [])
    (hknows : s₀.Knows (.snapshot t)) (hbytes : s₀.bytesAt (.snapshot t) snap.data.length = snap.data)
    (hown : n = p → (t : Int) ≤ W → cfg.OwnExport p (t, snap.data)) :
    (cfg.provenanceWatch staging p W (.worker n)).Spec (· = s₀)
      (perform (.llamaStateSeqSetData h (.snapshot t) snap.data.length kSwarmkvPrefixSeqId))
      (fun nr s => Alive true s ∧ (nr = snap.data.length → cfg.SliceDecoding p W n h t t s))
      fun _ => Alive true := by
  refine .op fun s hs => ?_
  subst hs
  refine ⟨⟨⟨hres.ctx, hres.held, hknows⟩, trivial⟩, fun nr _ => ?_⟩
  have hnext := View.next_restore (E := cfg.engine) (by rwa [hbytes]) h kSwarmkvPrefixSeqId nr
  show Alive true (s.next cfg.engine _ nr) ∧
    (_ → cfg.SliceDecoding p W n h t t (s.next cfg.engine _ nr))
  rw [hnext]
  by_cases hzero : nr = 0
  · rw [if_pos hzero]
    refine ⟨⟨hres.held, hres.live⟩, fun hlen => absurd ?_ hne⟩
    exact List.length_eq_zero_iff.mp (hlen.symm.trans hzero)
  · rw [if_neg hzero]
    refine ⟨⟨hres.held, hres.live⟩, fun _ => ⟨?_, hres.top, hres.below⟩⟩
    refine ⟨hres.held, hres.live, hres.ctx, fun hp hle => ?_, hres.filed⟩
    have hexp := hown hp hle
    have hseq := hr _ _ hexp.exports hexp.ne_nil
    rw [Int.toNat_natCast] at hseq
    simp [View.restore, hbytes, hne, hres.cells rfl, hseq, restoreSeq_nil]

/-- The provider restores what it has filed. -/
private theorem restorePrefixSnapshot_provenance (hr : cfg.engine.RoundTrips) :
    (cfg.provenanceWatch staging p W (.worker n)).Spec (cfg.SliceResuming p W n true (some h) t)
      (PrefillNode.restorePrefixSnapshot h t) (fun _ => cfg.SliceDecoding p W n h t t)
      fun _ => Alive true := by
  have hidle : ∀ s, cfg.SliceResuming p W n true (some h) t s → Alive true s :=
    fun s hs => ⟨hs.held, hs.live⟩
  have hlookup : (cfg.provenanceWatch staging p W (.worker n)).Spec
      (cfg.SliceResuming p W n true (some h) t) (PipelineState.tryGetPrefixSnapshot t)
      (fun r s => cfg.SliceResuming p W n true (some h) t s ∧
        ∃ q, FoundBy p W n q s ∧ r = lookupOf t q) fun _ => Alive true :=
    (tryGetPrefixSnapshot_provenance (fun s hs => hs.held)
      fun s r hs => hs.same (samePlace_found s r)).err fun _ => hidle
  unfold PrefillNode.restorePrefixSnapshot
  refine .bind hlookup fun r => .fix fun s₀ hs₀ => ?_
  obtain ⟨hres, q, hfound, rfl⟩ := hs₀
  cases hq : q.prefixSnapshots t with
  | none =>
    simp only [lookupOf, hq, Option.map_none]
    exact .throw fun s hs => hs ▸ hidle _ hres
  | some snap =>
    have hown : n = p → (t : Int) ≤ W → cfg.OwnExport p (t, snap.data) := by
      intro hp hle
      obtain ⟨snap', hsnap', hexp⟩ := hres.own_snapshot hfound hp hle
      obtain rfl := Option.some.inj (hq.symm.trans hsnap')
      exact hexp
    simp only [lookupOf, hq, Option.map_some]
    by_cases hempty : snap.data = []
    · -- nothing to restore: no snapshot of `p` up to `W` is like that
      simp only [hempty, List.isEmpty_nil, if_true]
      refine .ret fun s hs => ?_
      subst hs
      refine ⟨⟨hres.held, hres.live, hres.ctx, fun hp hle => ?_, hres.filed⟩, hres.top, hres.below⟩
      exact absurd hempty (hown hp hle).ne_nil
    · have hisEmpty : snap.data.isEmpty = false := by simpa using hempty
      simp only [hisEmpty, Bool.false_eq_true, if_false]
      have hknows : s₀.Knows (.snapshot t) := by simp [View.Knows, hfound.1]
      have hbytes : s₀.bytesAt (.snapshot t) snap.data.length = snap.data := by
        simp [View.bytesAt, hfound.1, hq]
      refine .bind (restoreSnapshot_provenance hr hres hempty hknows hbytes hown) fun nr => ?_
      refine .ite (fun _ => ?_) fun hnr => ?_
      · exact .throw fun s hs => hs.1
      · exact .ret fun s hs => hs.2 (not_not.mp hnr)

/-- The provider waits for the branches of its milestone. -/
private theorem waitForMilestoneConsumers_provenance {t : Int} :
    (cfg.provenanceWatch staging p W (.worker n)).Spec I (PipelineState.waitForMilestoneConsumers t)
      (fun _ => I) fun _ _ => False := by
  unfold PipelineState.waitForMilestoneConsumers
  refine .ite (fun _ => .ret fun _ hs => hs) fun _ => ?_
  apply provenanceRule_lenient.withLock rfl rfl
  exact .await fun s hs => ⟨⟨trivial, trivial⟩, fun _ => hs⟩

/-- A paused provider gets a new context, and restores what it has filed. -/
private theorem resume_provenance (hr : cfg.engine.RoundTrips) :
    (cfg.provenanceWatch staging p W (.worker n)).Spec (cfg.SliceResuming p W n true none t) (do
        match ← perform .llamaInitFromModel with
        | none => throw .resumeInitNull
        | some lctx => do
          let s ← perform .load
          KVHandoff.bindContiguousCache (some lctx) s.materializedBranchBuffer
          PrefillNode.restorePrefixSnapshot lctx t
          pure lctx)
      (fun h' => cfg.SliceDecoding p W n h' t t) fun _ => Alive true := by
  have hinit : (cfg.provenanceWatch staging p W (.worker n)).Spec
      (cfg.SliceResuming p W n true none t) (perform .llamaInitFromModel)
      (fun r => cfg.SliceResuming p W n true r t) fun _ => Alive true := by
    refine .op fun s hs => ⟨⟨hs.ctx, trivial⟩, fun r _ => ?_⟩
    cases r with
    | none => exact hs
    | some h' =>
      exact ⟨hs.held, hs.live, rfl, fun _ => rfl, hs.filed, hs.top, hs.below, hs.snapshot⟩
  refine .bind hinit fun r => ?_
  cases r with
  | none => exact .throw fun s hs => ⟨hs.held, hs.live⟩
  | some h' =>
    refine .bind (load_provenance fun s r hs => hs.same (samePlace_found s r)) fun r => ?_
    refine .assume fun _ => ?_
    refine .bind (bindContiguousCache_provenance fun _ s hs => ⟨hs.held, hs.live⟩) fun _ => ?_
    refine .assume fun _ => ?_
    exact .bind (restorePrefixSnapshot_provenance hr) fun _ => .ret fun _ hs => hs

private theorem pauseAtMilestone_provenance (hn : cfg.orchestrator.isPrefill n = true)
    (hr : cfg.engine.RoundTrips) :
    (cfg.provenanceWatch staging p W (.worker n)).Spec
      (fun s => cfg.SliceFiled p W n false h t s ∧ cfg.IsMilestone t)
      (PrefillNode.pauseAtMilestone h t) (fun h' => cfg.SliceReady p W n h' t) fun _ => Alive false := by
  have hmem := Orchestrator.mem_names_of_isPrefill hn
  have hfree : (cfg.provenanceWatch staging p W (.worker n)).Spec
      (fun s => cfg.SliceFiled p W n true h t s ∧ cfg.IsMilestone t) (perform (.llamaFree h))
      (fun _ => cfg.SliceResuming p W n true none t) fun _ _ => False := by
    refine .op fun s hs => ?_
    obtain ⟨⟨hprov, htop, hbelow, hfiled⟩, hm⟩ := hs
    refine ⟨⟨hprov.ctx, trivial⟩, fun _ _ => ?_⟩
    exact ⟨hprov.held, hprov.live, rfl, fun hsome => Bool.noConfusion hsome, hprov.filed, htop,
      hbelow, hfiled hm⟩
  unfold PrefillNode.pauseAtMilestone
  refine .bind (Q := fun _ => cfg.SliceResuming p W n false none t) ?_ fun _ => ?_
  · refine .withLock (fun s hs => ?_) hfree (fun _ s hs => ?_) fun _ _ hs => hs.elim
    · obtain ⟨⟨hprov, hrest⟩, hm⟩ := hs
      exact ⟨lock_provenance hmem hprov.live, fun _ => ⟨⟨hprov.lock, hrest⟩, hm⟩⟩
    · exact ⟨⟨trivial, trivial⟩, fun _ => hs.unlock⟩
  refine .bind (.noThrow waitForMilestoneConsumers_provenance) fun _ => ?_
  refine .withLock (fun s hs => ?_) (resume_provenance hr) (fun _ s hs => ?_) fun _ s hs => ?_
  · exact ⟨lock_provenance hmem hs.live, fun _ => hs.lock⟩
  · exact ⟨⟨trivial, trivial⟩, fun _ => ⟨hs.1.unlock, hs.2⟩⟩
  · exact ⟨⟨trivial, trivial⟩, fun _ => ⟨rfl, hs.2⟩⟩

/-- The provider gives its context up. -/
private theorem freeContext_provenance :
    (cfg.provenanceWatch staging p W (.worker n)).Spec (cfg.SliceReady p W n h t)
      (perform (.llamaFree h)) (fun _ => Alive false) X :=
  .op fun _ hs => ⟨⟨hs.1.ctx, trivial⟩, fun _ _ => ⟨hs.1.held, hs.1.live⟩⟩

/-- `execute()` of a provider. -/
theorem executePrefill_provenance {node : PrefillNode} {ctx : OrchestratorContext}
    (hnode : cfg.orchestrator.node n = some (.prefill node)) (hE : ctx.engine = cfg.engine)
    (hr : cfg.engine.RoundTrips) (hW : 0 < W) :
    (cfg.provenanceWatch staging p W (.worker n)).Spec (· = {}) (node.execute ctx)
      (fun _ => Alive false) fun _ => Alive false := by
  have hn : cfg.orchestrator.isPrefill n = true := by
    simp [Orchestrator.isPrefill, hnode, Node.isPrefillProvider]
  have hidle : ∀ {h t s}, cfg.SliceReady p W n h t s → Alive false s :=
    fun hs => ⟨hs.1.held, hs.1.live⟩
  -- a new context is at the start of the document
  have hinit : (cfg.provenanceWatch staging p W (.worker n)).Spec (· = {})
      (perform .llamaInitFromModel)
      (fun r => r.elim (Alive false) fun h => cfg.SliceReady p W n h 0) fun _ => Alive false := by
    refine .op fun s hs => ?_
    subst hs
    refine ⟨⟨rfl, trivial⟩, fun r _ => ?_⟩
    cases r with
    | none => exact ⟨rfl, rfl⟩
    | some h =>
      refine ⟨⟨rfl, rfl, rfl, fun _ _ => ?_, fun _ x hx => ?_⟩, rfl, fun x hx => ?_⟩
      · rw [docSeq_zero, toCells_nil]
        rfl
      · cases hx
      · cases hx
  have htext : ∀ {h : Nat} {path : String}, (cfg.provenanceWatch staging p W (.worker n)).Spec
      (cfg.SliceReady p W n h 0) (PrefillNode.loadDocumentText cfg.engine path)
      (fun text s => cfg.SliceReady p W n h 0 s ∧ documentText cfg.engine path = some text)
      fun _ => Alive false := PrefillNode.loadDocumentText_spec.err fun _ _ hs => hidle hs
  have htokens : ∀ {h : Nat} {text : String}, (cfg.provenanceWatch staging p W (.worker n)).Spec
      (cfg.SliceReady p W n h 0) (PrefillNode.tokenizeText cfg.engine text)
      (fun tokens s => cfg.SliceReady p W n h 0 s ∧ tokensOf cfg.engine text = some tokens)
      fun _ => Alive false :=
    (PrefillNode.tokenizeText_spec (provenanceRule_lenient.keeps rfl)).err fun _ _ hs => hidle hs
  have hcomplete : ∀ {I : View → Prop}, (cfg.provenanceWatch staging p W (.worker n)).Spec I
      PipelineState.markPrefillComplete (fun _ => I) fun _ => Alive false := by
    intro I
    apply provenanceRule_lenient.withLock rfl rfl
    refine .bind (provenanceRule_lenient.op' rfl) fun _ => ?_
    exact .notifyAll fun s hs => ⟨⟨trivial, trivial⟩, fun _ => hs⟩
  unfold PrefillNode.execute
  rw [hE]
  refine .bind (provenanceRule_lenient.op' rfl) fun t₀ => .bind hinit fun r => ?_
  cases r with
  | none => exact .throw fun _ hs => hs
  | some h =>
    refine .bind (load_provenance fun s r hs => hs.same (samePlace_found s r)) fun r => ?_
    refine .assume fun hstaging => ?_
    rw [hstaging.1]
    refine .bind (bindContiguousCache_provenance fun _ _ hs => hidle hs) fun _ => .assume fun hb => ?_
    obtain ⟨b, hb⟩ := Option.isSome_iff_exists.mp hb
    refine .bind htext fun text => .assume fun htext => ?_
    refine .bind htokens fun tokens => ?_
    generalize hcount : toInt32 tokens.length = count
    generalize toInt32 ctx.nCtx = limit
    refine .assume fun htokens => ?_
    -- the tokens are those of the document, and there are fewer than 2^31 of them
    have hdoc : tokens = cfg.doc n := by
      simp only [doc, hnode, documentTokens, htext, Option.bind_some, htokens, Option.getD_some]
    have htotal : count.toNat = (cfg.doc n).length := by
      rw [← hcount, toInt32_of_lt (tokensOf_length htokens), Int.toNat_natCast, hdoc]
    refine .ite (fun _ => ?_) fun _ => ?_
    · exact .bind freeContext_provenance fun _ => .throw fun _ hs => hs
    rw [htotal, hdoc]
    have hloop := PrefillNode.prefillLoop_spec (J := cfg.SliceReady p W n)
      (K := cfg.SliceFiled p W n false)
      (L := fun h t s => cfg.SliceFiled p W n false h t s ∧ cfg.IsMilestone t)
      (fun h t hdvd hlt => prefillSlice_provenance hn hW hb hdvd hlt)
      (fun h t _ => isSnapshotMilestone_provenance)
      (fun h t _ => pauseAtMilestone_provenance hn hr)
      (cfg.doc n).length h 0 (Nat.zero_le _) (fun _ => Nat.dvd_zero _) (Nat.sub_le _ _)
    refine .bind hloop fun h' => .bind (provenanceRule_lenient.op' rfl) fun _ => ?_
    refine .bind hcomplete fun _ => .bind freeContext_provenance fun _ => ?_
    exact provenanceRule_lenient.recordTiming _ _

end SwarmKV.Pipeline
