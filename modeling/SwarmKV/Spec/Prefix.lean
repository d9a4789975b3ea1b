import SwarmKV.Native.Baseline
import SwarmKV.Native.PrefillNode

/-!
# Prefixes of a document

What the KV cache of a context looks like when it holds the first tokens of a
document, how decoding a batch extends it, and that the baseline's chunking does
not show in the result.
-/

namespace SwarmKV

/-- `tokens` at consecutive positions from `start`. -/
def seqFrom (start : Int) (tokens : List LlamaToken) : SeqState :=
  tokens.zipIdx.map fun (t, k) => (start + k, t)

/-- The sequence that holds the first `n` tokens of `doc`. -/
def docSeq (doc : List LlamaToken) (n : Nat) : SeqState := seqFrom 0 (doc.take n)

/-- The KV cache with `s` on the prefix sequence and nothing else. -/
def toCells (s : SeqState) : List KvCell := s.map fun p => ⟨kSwarmkvPrefixSeqId, p.1, p.2⟩

/-- The sequence holds exactly the positions below `n`, in order. -/
def Covers (n : Nat) (s : SeqState) : Prop := s.map Prod.fst = (List.range n).map fun k : Nat => (k : Int)

/-- The values `prefillLoop` passes to `commit_watermark` for a document of `n`
    tokens: the multiples of the slice size, and `n` itself. -/
def CommitValue (n : Nat) (t : Int) : Prop := 0 < t ∧ t ≤ n ∧ (128 ∣ t ∨ t = n)

instance (n : Nat) (t : Int) : Decidable (CommitValue n t) :=
  inferInstanceAs (Decidable (_ ∧ _ ∧ _))

/-! ## Sequences -/

@[simp] theorem seqFrom_nil (start : Int) : seqFrom start [] = [] := rfl

@[simp] theorem length_seqFrom (start : Int) (tokens : List LlamaToken) :
    (seqFrom start tokens).length = tokens.length := by
  simp [seqFrom]

theorem seqFrom_append (start : Int) (a b : List LlamaToken) :
    seqFrom start (a ++ b) = seqFrom start a ++ seqFrom (start + a.length) b := by
  simp only [seqFrom, List.zipIdx_append, List.map_append, List.append_cancel_left_eq]
  rw [List.zipIdx_eq_map_add]
  simp only [List.map_map]
  refine List.map_congr_left fun p _ => ?_
  simp only [Function.comp, Prod.mk.injEq, and_true]
  omega

/-- Decoding the next tokens of the document extends the prefix. -/
theorem docSeq_add (doc : List LlamaToken) {n : Nat} (hn : n ≤ doc.length) (k : Nat) :
    docSeq doc (n + k) = docSeq doc n ++ seqFrom n ((doc.drop n).take k) := by
  have hlen : (doc.take n).length = n := by simp [hn]
  simp only [docSeq, List.take_add, seqFrom_append, hlen, Int.zero_add]

@[simp] theorem docSeq_zero (doc : List LlamaToken) : docSeq doc 0 = [] := by
  simp [docSeq]

theorem covers_zero : Covers 0 [] := rfl

theorem Covers.append {n : Nat} {s : SeqState} (h : Covers n s) (tokens : List LlamaToken) :
    Covers (n + tokens.length) (s ++ seqFrom n tokens) := by
  have hnew : (seqFrom n tokens).map Prod.fst =
      (List.range tokens.length).map fun k : Nat => ((n + k : Nat) : Int) := by
    apply List.ext_getElem
    · simp
    · intro k h₁ h₂
      simp [seqFrom]
  rw [Covers] at h ⊢
  rw [List.map_append, h, hnew, List.range_add, List.map_append, List.map_map]
  rfl

/-- A sequence that covers the positions below `n` has an entry at each of them. -/
theorem Covers.mem {n : Nat} {s : SeqState} (h : Covers n s) {p : Int} (h₀ : 0 ≤ p) (hp : p < n) :
    ∃ t, (p, t) ∈ s := by
  have hmem : p ∈ s.map Prod.fst := by
    rw [h, List.mem_map]
    exact ⟨p.toNat, by simp; omega, by omega⟩
  obtain ⟨q, hq, rfl⟩ := List.mem_map.mp hmem
  exact ⟨q.2, hq⟩

theorem Covers.length {n : Nat} {s : SeqState} (h : Covers n s) : s.length = n := by
  have := congrArg List.length h
  simpa using this

theorem covers_docSeq (doc : List LlamaToken) {n : Nat} (hn : n ≤ doc.length) :
    Covers n (docSeq doc n) := by
  have h := covers_zero.append (doc.take n)
  simpa [docSeq, hn] using h

/-! ## KV caches -/

@[simp] theorem seqState_toCells (s : SeqState) : seqState kSwarmkvPrefixSeqId (toCells s) = s := by
  simp [seqState, toCells, List.filter_map, Function.comp_def]

@[simp] theorem toCells_append (s s' : SeqState) : toCells (s ++ s') = toCells s ++ toCells s' := by
  simp [toCells]

@[simp] theorem toCells_nil : toCells [] = [] := rfl

/-- Restoring into a fresh context gives exactly the restored sequence. -/
theorem restoreSeq_nil (s : SeqState) : restoreSeq kSwarmkvPrefixSeqId s [] = toCells s := by
  simp [restoreSeq, toCells]

/-- What a filled batch adds to the KV cache. -/
theorem cells_fillBatch (id : Nat) (tokens : List LlamaToken) (start : Int) (lastLogits : Bool) :
    (fillBatch id tokens start lastLogits).cells = toCells (seqFrom start tokens) := by
  simp [LlamaBatch.cells, fillBatch, toCells, seqFrom, List.map_map, Function.comp_def]

/-- Decoding at least one token leaves the prefix sequence non-empty. -/
theorem seqState_append_ne_nil {cells : List KvCell} {tokens : List LlamaToken} (h : tokens ≠ [])
    (start : Int) :
    seqState kSwarmkvPrefixSeqId (cells ++ toCells (seqFrom start tokens)) ≠ [] := by
  intro hnil
  rw [seqState, List.filter_append, List.map_append] at hnil
  have hlen := congrArg List.length (List.append_eq_nil_iff.mp hnil).2
  have hs := congrArg List.length (seqState_toCells (seqFrom start tokens))
  rw [seqState] at hs
  rw [hs, length_seqFrom, List.length_nil, List.length_eq_zero_iff] at hlen
  exact h hlen

/-! ## Tokenization -/

/-- What the tokenize helpers return when nothing else fails. -/
def tokensOf (E : Engine) (text : String) : Option (List LlamaToken) :=
  let textLen := toInt32 text.utf8ByteSize
  let first := E.llamaTokenize text textLen (toInt32 (text.utf8ByteSize + 8 : Nat))
  if first.1 < 0 then
    let second := E.llamaTokenize text textLen (toInt32 (-first.1).toNat)
    if second.1 < 0 then none else some (resizeTokens second.2 second.1.toNat)
  else some (resizeTokens first.2 first.1.toNat)

/-- What `load_document_text` returns, if it returns. -/
def documentText (E : Engine) (path : String) : Option String :=
  match E.readFile path with
  | .contents text => some text
  | .unreadable => none
  | .missing => some ("SwarmKV demo document body for path: " ++ path)

/-- The tokens of a document, if it can be read and tokenized. -/
def documentTokens (E : Engine) (path : String) : Option (List LlamaToken) :=
  (documentText E path).bind (tokensOf E)

@[simp] theorem length_resizeTokens (tokens : List LlamaToken) (n : Nat) :
    (resizeTokens tokens n).length = n := by
  simp only [resizeTokens, List.length_append, List.length_take, List.length_replicate]
  omega

/-- A token vector has fewer than 2^31 entries. -/
theorem tokensOf_length {E : Engine} {text : String} {tokens : List LlamaToken}
    (h : tokensOf E text = some tokens) : tokens.length < 2 ^ 31 := by
  have hcount := E.llamaTokenize_lt text (toInt32 text.utf8ByteSize)
  unfold tokensOf at h
  dsimp only at h
  split at h
  · split at h
    · cases h
    · obtain rfl := Option.some.inj h
      rw [length_resizeTokens]
      have hsecond := hcount (toInt32 (-(E.llamaTokenize text (toInt32 text.utf8ByteSize)
        (toInt32 (text.utf8ByteSize + 8 : Nat))).1).toNat)
      omega
  · obtain rfl := Option.some.inj h
    rw [length_resizeTokens]
    have hfirst := hcount (toInt32 (text.utf8ByteSize + 8 : Nat))
    omega

theorem documentTokens_length {E : Engine} {path : String} {tokens : List LlamaToken}
    (h : documentTokens E path = some tokens) : tokens.length < 2 ^ 31 := by
  obtain ⟨text, -, htokens⟩ := Option.bind_eq_some_iff.mp h
  exact tokensOf_length htokens

/-- The cast of a token count to `int32_t` keeps it. -/
theorem toInt32_of_lt {n : Nat} (h : n < 2 ^ 31) : toInt32 n = n := by
  unfold toInt32
  rw [Int.bmod_def]
  omega

/-- The bytes of a text. -/
def textBytes (text : String) : List UInt8 := text.toUTF8.data.toList

@[simp] theorem length_textBytes (text : String) : (textBytes text).length = text.utf8ByteSize :=
  rfl

/-- `llama_tokenize` yields the complete token list of the bytes that it is given: it writes the
    list if it fits, and returns the number of tokens; otherwise it returns the capacity it needs,
    negated. -/
def Engine.Tokenizes (E : Engine) (complete : List UInt8 → List LlamaToken) : Prop :=
  ∀ (text : String) (len : Nat) (cap : Int), len ≤ text.utf8ByteSize →
    if (complete ((textBytes text).take len)).length ≤ cap then
      E.llamaTokenize text len cap = (((complete ((textBytes text).take len)).length : Int),
        complete ((textBytes text).take len))
    else
      (E.llamaTokenize text len cap).1 = -((complete ((textBytes text).take len)).length : Int)

theorem resizeTokens_length (tokens : List LlamaToken) :
    resizeTokens tokens tokens.length = tokens := by
  simp [resizeTokens]

/-- The two calls of a tokenize helper yield the complete token list of what the cast of the
    text's length leaves of the text. -/
theorem Engine.Tokenizes.tokensOf_cut {E : Engine} {complete : List UInt8 → List LlamaToken}
    (h : E.Tokenizes complete) {text : String} {len : Nat}
    (hlen : toInt32 text.utf8ByteSize = len) :
    tokensOf E text = some (complete ((textBytes text).take len)) := by
  have hle : len ≤ text.utf8ByteSize := by
    unfold toInt32 at hlen
    rw [Int.bmod_def] at hlen
    omega
  have hcall := fun cap => h text len cap hle
  unfold tokensOf
  simp only [hlen]
  generalize complete ((textBytes text).take len) = tokens at hcall
  generalize toInt32 (text.utf8ByteSize + 8 : Nat) = cap
  have hfull : ∀ cap, (tokens.length : Int) ≤ cap →
      E.llamaTokenize text len cap = ((tokens.length : Int), tokens) := by
    intro cap hcap
    have hfits := hcall cap
    rwa [if_pos hcap] at hfits
  have hlt : tokens.length < 2 ^ 31 := by
    have hcount := E.llamaTokenize_lt text len tokens.length
    rw [hfull _ le_rfl] at hcount
    omega
  by_cases hcap : (tokens.length : Int) ≤ cap
  · rw [hfull _ hcap, if_neg (by omega), Int.toNat_natCast, resizeTokens_length]
  · -- the second call has the capacity that the first one asks for
    have hneg := hcall cap
    rw [if_neg hcap] at hneg
    rw [hneg, Int.neg_neg, Int.toNat_natCast, toInt32_of_lt hlt, hfull _ le_rfl]
    cases tokens with
    | nil => simp [resizeTokens]
    | cons token rest =>
      rw [if_pos (by simp; omega), if_neg (by omega), Int.toNat_natCast, resizeTokens_length]

/-- A text of fewer than 2^31 bytes is tokenized as a whole. -/
theorem Engine.Tokenizes.tokensOf_eq {E : Engine} {complete : List UInt8 → List LlamaToken}
    (h : E.Tokenizes complete) {text : String} (hlen : text.utf8ByteSize < 2 ^ 31) :
    tokensOf E text = some (complete (textBytes text)) := by
  rw [h.tokensOf_cut (toInt32_of_lt hlen), List.take_of_length_le (by simp)]

/-! ## Commit values -/

/-- The commit values up to the end of a slice are those before it and its end. -/
theorem CommitValue.slice {n p : Nat} (hp : 128 ∣ p) (hlt : p < n) {t : Int}
    (h : CommitValue n t) (ht : t ≤ (p + min 128 (n - p) : Nat)) :
    t ≤ p ∨ t = (p + min 128 (n - p) : Nat) := by
  obtain ⟨-, hn, hdvd⟩ := h
  rcases hdvd with hdvd | hdvd <;> omega

/-- The end of a slice is a commit value. -/
theorem commitValue_slice {n p : Nat} (hp : 128 ∣ p) (hlt : p < n) :
    CommitValue n (p + min 128 (n - p) : Nat) := by
  refine ⟨by omega, by omega, ?_⟩
  by_cases h : 128 ≤ n - p
  · left; omega
  · right; omega

/-! ## Chunks -/

/-- From 2^31 on, an unsigned value turns negative. -/
theorem toInt32_neg {n : Nat} (h : 2 ^ 31 ≤ n) (h' : n < 2 ^ 32) : toInt32 n < 0 := by
  unfold toInt32
  rw [Int.bmod_def]
  omega

/-- The chunk of a rest that is not empty has a token exactly if `llama_n_batch` fits into an
    `int32_t`. -/
theorem chunk_pos_iff {nBatch rest : Nat} (hb : 0 < nBatch) (hb' : nBatch < 2 ^ 32)
    (hrest : 0 < rest) : 0 < min (toInt32 nBatch) rest ↔ nBatch < 2 ^ 31 := by
  constructor
  · intro hpos
    by_contra hlarge
    have hneg := toInt32_neg (not_lt.mp hlarge) hb'
    omega
  · intro hlt
    rw [toInt32_of_lt hlt]
    omega

/-- A chunk that has a token is not longer than `llama_n_batch` or the rest. -/
theorem chunk_eq {nBatch rest : Nat} (hlt : nBatch < 2 ^ 31) :
    min (toInt32 nBatch) (rest : Int) = (min nBatch rest : Nat) := by
  rw [toInt32_of_lt hlt]
  omega

namespace PrefillNode

variable {E : Engine} (tokens : List LlamaToken)

/-- A chunk within the document is a filled batch. -/
theorem chunk_batch {cur k : Nat} (hle : cur + k ≤ tokens.length) (id : Nat) :
    LlamaBatch.mk (fillBatch id ((tokens.drop cur).take k) cur false).id k
        (fillBatch id ((tokens.drop cur).take k) cur false).slots =
      fillBatch id ((tokens.drop cur).take k) cur false := by
  have hlen : ((tokens.drop cur).take k).length = k := by
    rw [List.length_take, List.length_drop]
    omega
  simp only [fillBatch, hlen]

/-- One round of `decode_token_range`: the chunk is a part of the document, or its `n_tokens` is
    negative. -/
theorem decodeLoop_succ (h fuel : Nat) {cur remaining : Nat} (hpos : 0 < remaining)
    (hle : cur + remaining ≤ tokens.length) :
    (E.llamaNBatch < 2 ^ 31 ∧ ∃ k, 0 < k ∧ k ≤ remaining ∧ k = min E.llamaNBatch remaining ∧
      decodeLoop E h tokens (fuel + 1) cur remaining = (do
        let batch ← perform .llamaBatchInit
        if ← perform (.llamaDecode h (fillBatch batch ((tokens.drop cur).take k) cur false)) then do
          perform (.llamaBatchFree batch)
          decodeLoop E h tokens fuel (cur + k) (remaining - k)
        else do
          perform (.llamaBatchFree batch)
          throw .prefillDecodeFailed)) ∨
    2 ^ 31 ≤ E.llamaNBatch ∧ ∃ n < 0, decodeLoop E h tokens (fuel + 1) cur remaining = (do
        let batch ← perform .llamaBatchInit
        if ← perform (.llamaDecode h ⟨batch, n, []⟩) then do
          perform (.llamaBatchFree batch)
          decodeLoop E h tokens fuel cur remaining
        else do
          perform (.llamaBatchFree batch)
          throw .prefillDecodeFailed) := by
  have hb := E.llamaNBatch_pos
  by_cases hlt : E.llamaNBatch < 2 ^ 31
  · refine .inl ⟨hlt, min E.llamaNBatch remaining, by omega, by omega, rfl, ?_⟩
    have hbatch := chunk_batch tokens
      (show cur + min E.llamaNBatch remaining ≤ tokens.length by omega)
    rw [decodeLoop, if_pos hpos]
    dsimp only
    rw [chunk_eq hlt, Int.toNat_natCast]
    refine congrArg (perform .llamaBatchInit >>= ·) (funext fun batch => ?_)
    rw [hbatch]
  · have hneg := toInt32_neg (not_lt.mp hlt) E.llamaNBatch_lt
    refine .inr ⟨not_lt.mp hlt, min (toInt32 E.llamaNBatch) remaining, by omega, ?_⟩
    have hnone : (min (toInt32 E.llamaNBatch) (remaining : Int)).toNat = 0 := by omega
    rw [decodeLoop, if_pos hpos]
    dsimp only
    rw [hnone]
    rfl

end PrefillNode

/-! ## The baseline -/

namespace Baseline

theorem decodeTokensChunkedLoop_eq {nBatch : Nat} (hb : 0 < nBatch) (hb' : nBatch < 2 ^ 31)
    (tokens : List LlamaToken) {fuel offset : Nat} (ho : offset ≤ tokens.length)
    (hf : tokens.length - offset ≤ fuel) :
    decodeTokensChunkedLoop nBatch tokens fuel offset (toCells (docSeq tokens offset)) =
      some (toCells (docSeq tokens tokens.length)) := by
  induction fuel generalizing offset with
  | zero =>
    obtain rfl : offset = tokens.length := by omega
    rfl
  | succ fuel ih =>
    unfold decodeTokensChunkedLoop
    split
    · -- the chunk has a token
      dsimp only
      rw [chunk_eq hb', Int.toNat_natCast, if_pos (by omega), cells_fillBatch, ← toCells_append,
        ← docSeq_add tokens ho]
      exact ih (by omega) (by omega)
    · obtain rfl : offset = tokens.length := by omega
      rfl

/-- The chunking of the baseline does not show. -/
theorem decodeTokensChunked_eq {nBatch : Nat} (hb : 0 < nBatch) (hb' : nBatch < 2 ^ 31)
    (tokens : List LlamaToken) :
    decodeTokensChunked nBatch tokens = some (toCells (docSeq tokens tokens.length)) := by
  have h := decodeTokensChunkedLoop_eq hb hb' tokens (Nat.zero_le _)
    (Nat.le_of_eq (Nat.sub_zero tokens.length))
  simpa [decodeTokensChunked] using h

/-- There is nothing to decode in an empty document. -/
theorem decodeTokensChunked_nil (nBatch : Nat) : decodeTokensChunked nBatch [] = some [] := rfl

end Baseline

end SwarmKV
