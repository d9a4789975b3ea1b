import SwarmKV.Monitor.Spurious
import SwarmKV.Spec.Run
import SwarmKV.Spec.Toy

/-!
# Spurious wake-ups of the pipeline

The condition variables of `PipelineState` may wake their waiters at any time. The waits of the
pipeline look at their conditions again, so this changes nothing.
-/

namespace SwarmKV.Pipeline

open Monitor

variable {cfg : Pipeline} {c : Config cfg.engine} {tr : Trace (machine cfg.engine)}

/-- Unless a prefiller has run out of memory, whatever happens in a run with spurious wake-ups
    happens in one without: with the same actions and answers, the same shared memory, the same
    mutexes, and each thread at the same place but for waiters that sleep. -/
theorem spurious_harmless (hr : cfg.initial.LooseRun tr c)
    (hmem : ∀ n, cfg.orchestrator.isPrefill n → ¬ c.data.OutOfMemory n) :
    ∃ d, cfg.initial.Run tr d ∧ c.Drowses d := by
  refine (reachable_holds .refl).exists_run hr fun hlossy => ?_
  obtain ⟨n, hn, hout⟩ := hlossy
  exact hmem n hn hout

/-- The toy branch goes to sleep, and wakes up at once. -/
theorem spurious_harmless_toy : ∃ tr c,
    (c.threads (.worker "B")).sleepsOn = none ∧ (Toy.star 1 false 1).initial.LooseRun tr c ∧
      ∃ d, (Toy.star 1 false 1).initial.Run tr d ∧ c.Drowses d := by
  have hrun : (Toy.star 1 false 1).initial.Run _ ((Toy.star 1 false 1).after (Toy.steps "B" 2)) :=
    Config.run_after (by decide +kernel)
  have hloose := hrun.loose.spurious ⟨.worker "B", _, _, rfl, rfl⟩
  refine ⟨_, _, ?_, hloose, spurious_harmless hloose fun n _ => ?_⟩
  · rw [Config.setThread_same]
    rfl
  · have hlog : ((Toy.star 1 false 1).after (Toy.steps "B" 2)).data.log = fun _ => [] := rfl
    show .badAlloc ∉ ((Toy.star 1 false 1).after (Toy.steps "B" 2)).data.log (.worker n)
    rw [hlog]
    exact List.not_mem_nil

end SwarmKV.Pipeline
