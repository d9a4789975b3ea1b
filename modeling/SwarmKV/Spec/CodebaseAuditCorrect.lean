import SwarmKV.Native.CodebaseAudit
import SwarmKV.Spec.BudgetCorrect
import SwarmKV.Spec.OutputsCorrect
import SwarmKV.Spec.ReturnCorrect

/-!
# What the codebase audit prints

The auditors of the example both continue behind the first 512 tokens of the document, also the
one that waits for the whole prefill. A document of fewer tokens is never audited.
-/

namespace SwarmKV.CodebaseAudit

open Monitor Pipeline

variable {E : Engine} {D : Calls} {o : Orchestrator} {n : String}

/-- What `main` has built. -/
private structure Built (o : Orchestrator) : Prop where
  names : o.names = ["Prefiller", "SecurityAuditor", "LicenseChecker"]
  prefiller : o.node "Prefiller" = some (.prefill ⟨kBaseDocPath⟩)
  security : o.node "SecurityAuditor" = some (.analytical ⟨kBranchPromptSecurity, 512⟩)
  license : o.node "LicenseChecker" = some (.analytical ⟨kBranchPromptLicense, -1⟩)
  root : o.getDependenciesForNode "Prefiller" = []
  auditors : o.getDependenciesForNode "SecurityAuditor" = ["Prefiller"] ∧
    o.getDependenciesForNode "LicenseChecker" = ["Prefiller"]
  accepted : o.validateAcyclic = some (.ok ())

private theorem built (h : buildGraph = some (.ok o)) : Built o := by
  have heq : buildGraph = some (.ok _) := rfl
  obtain rfl := Except.ok.inj (Option.some.inj (heq.symm.trans h))
  exact ⟨rfl, rfl, rfl, rfl, rfl, ⟨rfl, rfl⟩, rfl⟩

private theorem Built.cases (h : Built o) (hn : n ∈ o.names) :
    n = "Prefiller" ∨ n = "SecurityAuditor" ∨ n = "LicenseChecker" := by
  rw [h.names] at hn
  simpa using hn

private theorem Built.fedBy (h : Built o) : o.FedBy "Prefiller" where
  provider _ := by simp [Orchestrator.isPrefill, h.prefiller, Node.isPrefillProvider]
  sole n hn := by
    obtain rfl | rfl | rfl := h.cases (Orchestrator.mem_names_of_isPrefill hn)
    · rfl
    · simp [Orchestrator.isPrefill, h.security, Node.isPrefillProvider] at hn
    · simp [Orchestrator.isPrefill, h.license, Node.isPrefillProvider] at hn
  direct _ n hn hne := by
    obtain rfl | rfl | rfl := h.cases hn
    · exact absurd rfl hne
    · simp [h.auditors.1]
    · simp [h.auditors.2]
  registered n hn d hd := by
    rw [h.names]
    obtain rfl | rfl | rfl := h.cases hn
    · simp [h.root] at hd
    · simp_all [h.auditors.1]
    · simp_all [h.auditors.2]

private theorem Built.sole (h : Built o) : o.Sole "Prefiller" :=
  ⟨h.fedBy.provider (by simp [h.names]), h.fedBy.sole⟩

private theorem Built.req_security (h : Built o) : o.req "SecurityAuditor" = 512 := by
  simp [Orchestrator.req, h.security, Node.requiredPrefixTokens]

private theorem Built.req_pos (h : Built o) (hn : n ∈ o.names) (hpos : 0 < o.req n) :
    n = "SecurityAuditor" ∧ o.req n = 512 := by
  obtain rfl | rfl | rfl := h.cases hn
  · simp [Orchestrator.req, h.prefiller, Node.requiredPrefixTokens, kSwarmkvWaitForPrefillComplete] at hpos
  · exact ⟨rfl, h.req_security⟩
  · simp [Orchestrator.req, h.license, Node.requiredPrefixTokens] at hpos

/-- The only milestone is that of the security auditor. -/
private theorem Built.isMilestone (h : Built o) {t : Int} :
    (pipeline E o).IsMilestone t ↔ t = 512 := by
  constructor
  · intro hm
    obtain hmem | ⟨hpos, hne⟩ := hm
    · cases hmem
    · obtain ⟨n, hn⟩ := List.exists_mem_of_ne_nil _ hne
      obtain ⟨hname, rfl⟩ := Orchestrator.mem_branchesAt.mp hn
      exact (h.req_pos hname hpos).2
  · rintro rfl
    refine .inr ⟨by decide, List.ne_nil_of_mem (a := "SecurityAuditor") ?_⟩
    refine Orchestrator.mem_branchesAt.mpr ⟨?_, ?_⟩
    · show "SecurityAuditor" ∈ o.names
      simp [h.names]
    · exact h.req_security

/-! ## The budget check -/

/-- What the check has found when `main` goes on. -/
private theorem checkBudget_ends {H : Finset Lock} :
    (solo E .main).Ends H (fun _ _ => True) (checkBudget E)
      (fun b _ _ => b = true → ∃ document tokens longest, E.readFile kBaseDocPath = .contents document ∧
        tokensOf E document = some tokens ∧
        longestPrompt E [kBranchPromptSecurity, kBranchPromptLicense] = some longest ∧
        toInt32 (tokens.length + longest + 128) ≤ 4096)
      fun _ _ _ => False := by
  unfold checkBudget
  refine .catch' (K := fun _ _ _ => True) ?_ fun _ => .ret fun _ _ _ h => by cases h
  cases hdoc : E.readFile kBaseDocPath with
  | missing => exact .ret fun _ _ _ h => by cases h
  | unreadable => exact .ret fun _ _ _ h => by cases h
  | contents document =>
    refine .bind (.conseq tokenizeWith_ends (fun _ _ h => h) (fun _ _ _ h => h)
      fun _ _ _ _ => trivial) fun tokens => .fix fun w xs htokens => ?_
    rw [toInt32_of_lt (tokensOf_length htokens)]
    refine .bind (.conseq (validateContextBudget_ends (by omega)) (fun _ _ _ => trivial)
      (fun _ _ _ h => h) fun _ _ _ _ => trivial) fun _ => .ret fun _ _ hfits _ => ?_
    obtain ⟨longest, hlongest, hle⟩ := hfits
    exact ⟨document, tokens, longest, rfl, htokens, hlongest, hle⟩

private theorem Built.doc (h : Built o) : (pipeline E o).doc "Prefiller" =
    (documentTokens E kBaseDocPath).getD [] := by
  have hnode : (pipeline E o).orchestrator.node "Prefiller" = some (.prefill ⟨kBaseDocPath⟩) :=
    h.prefiller
  simp only [Pipeline.doc, hnode]
  rfl

private theorem prompt_eq {text : String} {W : Int}
    (hn : o.node n = some (.analytical ⟨text, W⟩)) :
    (pipeline E o).prompt n = (tokensOf E text).getD [] := by
  have hn : (pipeline E o).orchestrator.node n = some (.analytical ⟨text, W⟩) := hn
  simp only [Pipeline.prompt, hn]
  rfl

/-- The longest prompt is at least as long as each. -/
private theorem length_le_longestPrompt {prompts : List String} {longest : Nat} {prompt : String}
    (h : longestPrompt E prompts = some longest) (hmem : prompt ∈ prompts) :
    ∃ tokens, tokensOf E prompt = some tokens ∧ tokens.length ≤ longest := by
  induction prompts generalizing longest with
  | nil => cases hmem
  | cons first rest ih =>
    simp only [longestPrompt, Option.bind_eq_bind, Option.bind_eq_some_iff] at h
    obtain ⟨tokens, htokens, most, hmost, heq⟩ := h
    obtain rfl := Option.some.inj heq
    obtain rfl | hmem := List.mem_cons.mp hmem
    · exact ⟨tokens, htokens, Nat.le_max_left _ _⟩
    · obtain ⟨tokens', htokens', hle⟩ := ih hmost hmem
      exact ⟨tokens', htokens', Nat.le_trans hle (Nat.le_max_right _ _)⟩

/-- What has passed the check fits, as long as the sum of the token counts does not wrap. -/
private theorem Built.fitting (h : Built o) {w : World} {xs : List Choice}
    {t : Alone.End (machine E) Error Bool}
    (hrun : (solo E .main).run (checkBudget E) ∅ w xs = some t) (hpass : t.outcome = .ok true)
    (hwrap : ∀ longest : Nat, longestPrompt E [kBranchPromptSecurity, kBranchPromptLicense] =
      some longest → ((pipeline E o).doc "Prefiller").length + longest + 128 < 2 ^ 31)
    (hprompts : ∀ n ∈ ["SecurityAuditor", "LicenseChecker"], (pipeline E o).prompt n ≠ [] ∧
      ((pipeline E o).prompt n).length ≤ E.llamaNBatch)
    (hbatch : E.llamaNBatch < 2 ^ 31)
    (hroom : E.llamaStateSeqGetSize (docSeq ((pipeline E o).doc "Prefiller") 512) ≤
      Calls.branchSize (pipeline E o) kSwarmkvDefaultPipelineCtx) :
    (pipeline E o).Fitting "Prefiller"
      (Calls.branchSize (pipeline E o) kSwarmkvDefaultPipelineCtx) := by
  -- what `main` has counted
  obtain ⟨document, tokens, longest, hread, htokens, hlongest, hle⟩ :
      ∃ document tokens longest, E.readFile kBaseDocPath = .contents document ∧
        tokensOf E document = some tokens ∧
        longestPrompt E [kBranchPromptSecurity, kBranchPromptLicense] = some longest ∧
        toInt32 (tokens.length + longest + 128) ≤ 4096 := by
    have hend := (checkBudget_ends w xs t trivial hrun).2
    rw [hpass] at hend
    exact hend rfl
  have hload : documentTokens E kBaseDocPath = some tokens := by
    simp only [documentTokens, documentText, hread, Option.bind_some, htokens]
  have hdoc : (pipeline E o).doc "Prefiller" = tokens := by
    rw [h.doc, hload, Option.getD_some]
  -- without the wrap
  have hbudget : tokens.length + longest + 128 ≤ 4096 := by
    have hsmall := hwrap longest hlongest
    rw [hdoc] at hsmall
    have hcast := toInt32_of_lt hsmall
    push_cast at hcast
    omega
  have hprompt : ∀ n text W, o.node n = some (.analytical ⟨text, W⟩) →
      text ∈ [kBranchPromptSecurity, kBranchPromptLicense] →
      tokensOf E text = some ((pipeline E o).prompt n) ∧
        ((pipeline E o).prompt n).length ≤ longest := by
    intro n text W hn htext
    obtain ⟨tokens', htokens', hle'⟩ := length_le_longestPrompt hlongest htext
    have heq : (pipeline E o).prompt n = tokens' := by
      rw [prompt_eq hn, htokens', Option.getD_some]
    rw [heq]
    exact ⟨htokens', hle'⟩
  -- each part of the budget
  constructor
  · rfl
  · intro node hn
    have hn : o.node "Prefiller" = some (.prefill node) := hn
    obtain rfl := Node.prefill.inj (Option.some.inj (h.prefiller.symm.trans hn))
    rw [hdoc]
    exact hload
  · exact fun _ => hbatch
  · rw [hdoc]
    show tokens.length < 4096
    omega
  · intro t _ hm
    have ht : (t : Int) = 512 := h.isMilestone.mp hm
    obtain rfl : t = 512 := by omega
    exact ⟨hroom, hroom⟩
  · intro n node hn
    have hn : o.node n = some (.analytical node) := hn
    rw [hdoc]
    -- document, longest prompt and headroom fit, so each prompt does
    show tokensOf E node.branchPrompt = _ ∧ _ ∧ _ ∧ _ ≤ 4096
    obtain rfl | rfl | rfl := h.cases (Orchestrator.mem_names.mpr ⟨_, hn⟩)
    · rw [h.prefiller] at hn
      cases hn
    · obtain ⟨htext, hlen⟩ := hprompt _ _ _ h.security (by simp)
      obtain ⟨hne, hlen'⟩ := hprompts "SecurityAuditor" (by simp)
      obtain rfl := Node.analytical.inj (Option.some.inj (h.security.symm.trans hn))
      exact ⟨htext, hne, hlen', by omega⟩
    · obtain ⟨htext, hlen⟩ := hprompt _ _ _ h.license (by simp)
      obtain ⟨hne, hlen'⟩ := hprompts "LicenseChecker" (by simp)
      obtain rfl := Node.analytical.inj (Option.some.inj (h.license.symm.trans hn))
      exact ⟨htext, hne, hlen', by omega⟩

/-! ## The audit -/

private theorem answer_security
    (hlong : 512 ≤ ((pipeline E o).doc "Prefiller").length) :
    (pipeline E o).answer "Prefiller" 512 "SecurityAuditor" ⟨kBranchPromptSecurity, 512⟩ =
      (.ok (), some ((pipeline E o).branchOk "SecurityAuditor" ⟨kBranchPromptSecurity, 512⟩ 512)) := by
  have hcommit : CommitValue ((pipeline E o).doc "Prefiller").length 512 :=
    ⟨by omega, by omega, .inl ⟨4, rfl⟩⟩
  unfold answer
  rw [if_neg (show ¬ (512 : Int) < 0 by omega), if_pos hcommit]

private theorem answer_license :
    (pipeline E o).answer "Prefiller" 512 "LicenseChecker" ⟨kBranchPromptLicense, -1⟩ =
      (.ok (), some ((pipeline E o).branchOk "LicenseChecker" ⟨kBranchPromptLicense, -1⟩ 512)) := by
  unfold answer
  rw [if_pos (show (-1 : Int) < 0 by omega)]
  rfl

/-- The prefill of a document of 512 tokens ends well, and no auditor's fork comes too late. -/
private theorem Built.served (h : Built o) (hD : D.Faithful E) {cap : Nat}
    (hfit : (pipeline E o).Fitting "Prefiller" cap)
    (hlong : 512 ≤ ((pipeline E o).doc "Prefiller").length) :
    (pipeline E o).Served D "Prefiller" := by
  have hsole : (pipeline E o).orchestrator.Sole "Prefiller" := h.sole
  constructor
  · rw [Calls.provided_eq hD hsole.1 hfit]
  · apply forksInTime_of_star hsole
    intro b hb hpos d hd
    obtain ⟨rfl, -⟩ := h.req_pos hb hpos
    have hd : d ∈ o.getDependenciesForNode "SecurityAuditor" := hd
    rw [h.auditors.1] at hd
    exact List.mem_singleton.mp hd
  · intro n hn hpos
    have hreq : (pipeline E o).orchestrator.req n = 512 := (h.req_pos hn hpos).2
    omega

/-- The last milestone of such a prefill is that of the security auditor. -/
private theorem Built.lastMilestone (h : Built o)
    (hlong : 512 ≤ ((pipeline E o).doc "Prefiller").length) :
    (pipeline E o).LastMilestone "Prefiller" 512 := by
  have hcommit : CommitValue ((pipeline E o).doc "Prefiller").length (512 : Nat) :=
    ⟨by omega, by omega, .inl ⟨4, rfl⟩⟩
  constructor
  · exact .inr ⟨hcommit, h.isMilestone.mpr rfl⟩
  · intro t _ ht
    have ht : (t : Int) = 512 := h.isMilestone.mp ht
    omega

/-- Whatever the schedule: once the budget check of `main` has passed, the audit of a document of
    512 tokens or more ends with both auditors behind the first 512 tokens, also the one that waits
    for the whole prefill, and the audit of a shorter document never returns. -/
theorem audit_reports (hgraph : buildGraph = some (.ok o)) (hD : D.Faithful E) {w : World}
    {xs : List Choice} {t : Alone.End (machine E) Error Bool}
    (hrun : (solo E .main).run (checkBudget E) ∅ w xs = some t) (hpass : t.outcome = .ok true)
    (hwrap : ∀ longest : Nat, longestPrompt E [kBranchPromptSecurity, kBranchPromptLicense] =
      some longest → ((pipeline E o).doc "Prefiller").length + longest + 128 < 2 ^ 31)
    (hprompts : ∀ n ∈ ["SecurityAuditor", "LicenseChecker"], (pipeline E o).prompt n ≠ [] ∧
      ((pipeline E o).prompt n).length ≤ E.llamaNBatch)
    (hbatch : E.llamaNBatch < 2 ^ 31)
    (hroom : E.llamaStateSeqGetSize (docSeq ((pipeline E o).doc "Prefiller") 512) ≤
      Calls.branchSize (pipeline E o) kSwarmkvDefaultPipelineCtx)
    {c : Config E} {tr : Trace (machine E)} (hr : (pipeline E o).initial.Run tr c)
    (htr : D.Obeyed tr) :
    (512 ≤ ((pipeline E o).doc "Prefiller").length → c.Terminal →
      @Returned (pipeline E o) c ∧ report c.data.state =
        ["Security Audit: " ++
            (pipeline E o).branchOk "SecurityAuditor" ⟨kBranchPromptSecurity, 512⟩ 512,
          "License Check: " ++
            (pipeline E o).branchOk "LicenseChecker" ⟨kBranchPromptLicense, -1⟩ 512]) ∧
    (((pipeline E o).doc "Prefiller").length < 512 → ¬ @Returned (pipeline E o) c) ∧
    ¬ ∃ f : Nat → Config E, f 0 = (pipeline E o).initial ∧ ∀ k, (f k).Step (f (k + 1)) := by
  have h := built hgraph
  have hfed : (pipeline E o).orchestrator.FedBy "Prefiller" := h.fedBy
  have hsole : (pipeline E o).orchestrator.Sole "Prefiller" := h.sole
  have hc : (pipeline E o).Reachable c := hr.reaches
  refine ⟨?_, ?_, (pipeline E o).no_infinite_run⟩
  · intro hlong ht
    have hfit := h.fitting hrun hpass hwrap hprompts hbatch hroom
    obtain ⟨hviews, hstep⟩ := inStep_of_run hfed hD.exports hr htr
    have hret : @Returned (pipeline E o) c := by
      apply hc.returned ht
      intro n hn
      exact hstep.finished hc (Orchestrator.acyclic_of_validateAcyclic h.accepted) hfed
        (fun _ => h.served hD hfit hlong) ht hn
    have hcomputed := hstep.computed hc hviews hfed hret
    have hlast := h.lastMilestone (E := E) hlong
    refine ⟨hret, ?_⟩
    have hsec := Calls.result_branch hD hsole.1 hfit hlast h.security
    have hlic := Calls.result_branch hD hsole.1 hfit hlast h.license
    rw [answer_security hlong] at hsec
    rw [answer_license] at hlic
    unfold report
    rw [hcomputed.outputs "SecurityAuditor", hcomputed.outputs "LicenseChecker", hsec, hlic]
    rfl
  · intro hshort hret
    -- the security auditor never starts
    have hname : "SecurityAuditor" ∈ o.names := by simp [h.names]
    have hdep : "Prefiller" ∈ o.getDependenciesForNode "SecurityAuditor" := by simp [h.auditors.1]
    have hstart := hc.started_of_returned hfed.registered hret hname
    have hle := hc.req_le_of_started hsole hstart hdep
    have hreq : (pipeline E o).orchestrator.req "SecurityAuditor" = 512 := h.req_security
    omega

/-- The audit of a toy document of 600 tokens. -/
theorem audit_reports_toy : ∃ o, buildGraph = some (.ok o) ∧ ∃ c,
    (pipeline (Toy.longEngine 600) o).Reachable c ∧ report c.data.state =
      ["Security Audit: branch_ok n_tok=1 prefix=512 watermark=512",
        "License Check: branch_ok n_tok=1 prefix=512 watermark=-1"] := by
  obtain ⟨o, hgraph⟩ : ∃ o, buildGraph = some (.ok o) := ⟨_, rfl⟩
  refine ⟨o, hgraph, ?_⟩
  have hstart : (pipeline (Toy.longEngine 600) o).initial.Run [] (pipeline (Toy.longEngine 600) o).initial :=
    .start
  obtain ⟨tr, c, hr, htr, ht⟩ := Run.exists_terminal (D := Toy.calls) (fun _ _ _ => rfl) hstart
    fun e he => by cases he
  obtain ⟨t, hrun, hpass⟩ := Option.map_eq_some_iff.mp (show ((solo (Toy.longEngine 600) .main).run
    (checkBudget (Toy.longEngine 600)) ∅ { state := {} } (List.replicate 3 .ok)).map (·.outcome) =
      some (.ok true) by decide +kernel)
  have h := built hgraph
  -- the document has 600 tokens, the prompts one
  have hlen : ((pipeline (Toy.longEngine 600) o).doc "Prefiller").length = 600 := by
    rw [h.doc]
    decide +kernel
  have hsec : (pipeline (Toy.longEngine 600) o).prompt "SecurityAuditor" = [7] := by
    rw [prompt_eq h.security]
    decide +kernel
  have hlic : (pipeline (Toy.longEngine 600) o).prompt "LicenseChecker" = [7] := by
    rw [prompt_eq h.license]
    decide +kernel
  have hreport := (audit_reports hgraph (Toy.longEngine_faithful 600) hrun hpass
    (fun longest h => ?_) (fun n hn => ?_) (by decide) ?_ hr htr).1 (by omega) ht
  · refine ⟨c, hr.reaches, ?_⟩
    rw [hreport.2]
    unfold branchOk
    rw [hsec, hlic]
    dsimp only
    decide +kernel
  · obtain rfl : longest = 1 := by
      have hone : longestPrompt (Toy.longEngine 600) [kBranchPromptSecurity, kBranchPromptLicense] =
        some 1 := by decide +kernel
      exact Option.some.inj (h.symm.trans hone)
    omega
  · obtain rfl | rfl : n = "SecurityAuditor" ∨ n = "LicenseChecker" := by simpa using hn
    · rw [hsec]
      decide
    · rw [hlic]
      decide
  · rw [h.doc]
    show (Toy.write _).length ≤ 2 ^ 20
    rw [Toy.length_write]
    decide +kernel

end SwarmKV.CodebaseAudit
