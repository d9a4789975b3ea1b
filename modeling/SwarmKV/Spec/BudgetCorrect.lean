import SwarmKV.Spec.Solo
import SwarmKV.Spec.Toy

/-!
# The context budget

`swarmkv_validate_context_budget` adds and compares in `int32_t`, after a cast of the unsigned
`n_ctx`, and it counts the tokens of what the cast of its length leaves of a prompt. If the prompts
are counted as a whole, its verdict is right exactly as long as both sides of the comparison are on
the same side of the wrap.
-/

namespace SwarmKV

open Monitor

variable {E : Engine} {i : Thread} {prompts : List String} {prefixTokens headroom : Int} {nCtx : Nat}
  {complete : List UInt8 → List LlamaToken}

/-- The largest token count of the prompts, if all of them can be tokenized, as the tokenize
    helper counts. -/
def longestPrompt (E : Engine) : List String → Option Nat
  | [] => some 0
  | prompt :: rest => do
    let tokens ← tokensOf E prompt
    let longest ← longestPrompt E rest
    pure (max tokens.length longest)

/-- It does not matter that each of the two additions wraps. -/
theorem toInt32_add (a b : Int) : toInt32 (toInt32 a + b) = toInt32 (a + b) :=
  Int.bmod_add_bmod

section Check

variable {H : Finset Lock}

/-- A tokenize helper returns the tokens of its text. -/
theorem tokenizeWith_ends {failure : Error} {text : String} :
    (solo E i).Ends H (fun _ _ => True) (tokenizeWith failure E text)
      (fun tokens _ _ => tokensOf E text = some tokens)
      fun e _ _ => e ≠ .badAlloc → tokensOf E text = none := by
  have hbad : (solo E i).Ends H (fun _ _ => True) alloc (fun _ _ _ => True)
      fun e _ _ => e ≠ .badAlloc → tokensOf E text = none :=
    ends_alloc (fun _ _ _ _ _ => trivial) fun _ _ _ h => absurd rfl h
  unfold tokenizeWith
  refine .bind hbad fun _ => .ite (fun hneg => .bind hbad fun _ => .ite (fun hneg' => ?_)
    fun hpos => ?_) fun hpos => ?_
  · exact .throw fun _ _ _ _ => by simp only [tokensOf, hneg, if_true, hneg']
  · exact .ret fun _ _ _ => by simp only [tokensOf, hneg, if_true, hpos, if_false]
  · exact .ret fun _ _ _ => by simp only [tokensOf, hpos, if_false]

/-- The loop over the prompts. -/
theorem maxBranchTokens_ends {most : Int} (hmost : 0 ≤ most) :
    (solo E i).Ends H (fun _ _ => True) (maxBranchTokens E prompts most)
      (fun r _ _ => ∃ longest : Nat, longestPrompt E prompts = some longest ∧ r = max most longest)
      fun e _ _ => e ≠ .badAlloc → longestPrompt E prompts = none := by
  induction prompts generalizing most with
  | nil =>
    refine .ret fun _ _ _ => ⟨0, rfl, ?_⟩
    rw [Nat.cast_zero, max_eq_left hmost]
  | cons prompt rest ih =>
    refine .bind (.conseq tokenizeWith_ends (fun _ _ h => h) (fun _ _ _ h => h)
      fun e w xs h hne => ?_) fun tokens => .fix fun w xs htokens => ?_
    · simp only [longestPrompt, h hne, Option.bind_eq_bind, Option.bind_none]
    · rw [toInt32_of_lt (tokensOf_length htokens)]
      refine .conseq (ih (le_max_of_le_left hmost)) (fun _ _ _ => trivial) (fun r _ _ h => ?_)
        fun e _ _ h hne => ?_
      · obtain ⟨longest, hrest, rfl⟩ := h
        refine ⟨max tokens.length longest, ?_, ?_⟩
        · simp only [longestPrompt, htokens, hrest, Option.bind_eq_bind, Option.bind_some]
          rfl
        · rw [max_assoc]
          omega
      · simp only [longestPrompt, htokens, h hne, Option.bind_eq_bind, Option.bind_some,
          Option.bind_none]

/-- The verdict, apart from memory: whether the wrapped sum is within the wrapped limit. -/
theorem validateContextBudget_ends (hnonneg : 0 ≤ prefixTokens) :
    (solo E i).Ends H (fun _ _ => True)
      (swarmkvValidateContextBudget E prefixTokens prompts nCtx headroom)
      (fun _ _ _ => ∃ longest : Nat, longestPrompt E prompts = some longest ∧
        toInt32 (prefixTokens + longest + headroom) ≤ toInt32 nCtx)
      fun e _ _ => e ≠ .badAlloc → ∀ longest : Nat, longestPrompt E prompts = some longest →
        ¬ toInt32 (prefixTokens + longest + headroom) ≤ toInt32 nCtx := by
  unfold swarmkvValidateContextBudget
  refine .ite (fun hneg => absurd hneg (not_lt.mpr hnonneg)) fun _ => .bind (.conseq
    (maxBranchTokens_ends le_rfl) (fun _ _ h => h) (fun _ _ _ h => h) fun e _ _ h hne longest hl => ?_)
    fun most => .fix fun w xs hmost => ?_
  · rw [h hne] at hl
    cases hl
  · obtain ⟨longest, hl, rfl⟩ := hmost
    rw [max_eq_right (Int.natCast_nonneg longest)]
    refine .ite (fun hover => .throw fun _ _ _ _ longest' hl' => ?_) fun hfits => .ret fun _ _ _ => ?_
    · obtain rfl := Option.some.inj (hl.symm.trans hl')
      exact not_le.mpr hover
    · exact ⟨longest, hl, not_lt.mp hfits⟩

end Check

/-! ## Runs in which there is memory -/

section Memory

/-- The program can end without running out of memory. -/
private def Ample {α : Type} (E : Engine) (i : Thread) (p : Prog α) : Prop :=
  ∀ H w, ∃ xs r H' w' os, r ≠ .error .badAlloc ∧
    ∀ ys, (solo E i).run p H w (xs ++ ys) = some ⟨r, H', w', ys, os⟩

private theorem Ample.ret {α : Type} (a : α) : Ample E i (pure a) :=
  fun H w => ⟨[], .ok a, H, w, [], by simp, fun _ => rfl⟩

private theorem Ample.throw {α : Type} {e : Error} (he : e ≠ .badAlloc) :
    Ample E i (throw e : Prog α) :=
  fun H w => ⟨[], .error e, H, w, [], by simpa using he, fun _ => rfl⟩

private theorem Ample.alloc : Ample E i alloc :=
  fun H w => ⟨[.ok], .ok (), H, w, [.allocate], by simp, fun _ => rfl⟩

private theorem Ample.bind {α β : Type} {p : Prog α} {f : α → Prog β} (hp : Ample E i p)
    (hf : ∀ a, Ample E i (f a)) : Ample E i (p >>= f) := by
  intro H w
  obtain ⟨xs, r, H', w', os, hr, hrun⟩ := hp H w
  cases r with
  | error e =>
    refine ⟨xs, .error e, H', w', os, by simpa using hr, fun ys => ?_⟩
    show (solo E i).run (Prog.bind p f) H w (xs ++ ys) = _
    rw [Alone.run_bind, hrun]
    rfl
  | ok a =>
    obtain ⟨xs', r', H'', w'', os', hr', hrun'⟩ := hf a H' w'
    refine ⟨xs ++ xs', r', H'', w'', os ++ os', hr', fun ys => ?_⟩
    show (solo E i).run (Prog.bind p f) H w (xs ++ xs' ++ ys) = _
    rw [Alone.run_bind, List.append_assoc, hrun, Option.bind_some]
    simp only [Alone.End.andThen, hrun', Option.map_some]

private theorem Ample.ite {α : Type} {c : Prop} [Decidable c] {p q : Prog α} (hp : Ample E i p)
    (hq : Ample E i q) : Ample E i (if c then p else q) := by
  split
  · exact hp
  · exact hq

private theorem Ample.tokenizeWith {failure : Error} (hne : failure ≠ .badAlloc) (text : String) :
    Ample E i (tokenizeWith failure E text) :=
  .bind .alloc fun _ => .ite (.bind .alloc fun _ => .ite (.throw hne) (.ret _)) (.ret _)

private theorem Ample.maxBranchTokens (most : Int) : Ample E i (maxBranchTokens E prompts most) := by
  induction prompts generalizing most with
  | nil => exact .ret most
  | cons prompt rest ih => exact .bind (.tokenizeWith (by simp) prompt) fun _ => ih _

private theorem Ample.validateContextBudget :
    Ample E i (swarmkvValidateContextBudget E prefixTokens prompts nCtx headroom) :=
  .ite (.throw (by simp)) (.bind (.maxBranchTokens 0) fun _ => .ite (.throw (by simp)) (.ret ()))

/-- Where there is memory, a tokenize helper returns the tokens of its text. -/
theorem tokenizeWith_returns {failure : Error} (hne : failure ≠ .badAlloc) {text : String}
    {tokens : List LlamaToken} (htokens : tokensOf E text = some tokens) (w : World) :
    ∃ xs t, (solo E i).run (tokenizeWith failure E text) ∅ w xs = some t ∧
      t.outcome = .ok tokens := by
  obtain ⟨xs, r, H, w', os, hmem, hrun⟩ := Ample.tokenizeWith (E := E) (i := i) hne text ∅ w
  have hend := (tokenizeWith_ends w (xs ++ []) _ trivial (hrun [])).2
  refine ⟨xs ++ [], _, hrun [], ?_⟩
  cases r with
  | ok tokens' =>
    obtain rfl := Option.some.inj (htokens.symm.trans hend)
    rfl
  | error e =>
    have hnone : tokensOf E text = none := hend (by simpa using hmem)
    rw [htokens] at hnone
    cases hnone

end Memory

end SwarmKV
