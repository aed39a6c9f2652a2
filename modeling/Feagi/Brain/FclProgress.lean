import Feagi.Brain.FclQueue

/-!
# Every interleaving of `inject_to_fcl` can run to the end

A process waiting on an empty queue cannot move, so a schedule can stall. It never has to: the
FCL is always in the queue or held by one process, and that process can finish, after which
each waiting process in turn can take it.
-/

namespace Feagi.Brain
namespace FclState

variable {n : Nat} {α : Type} (fireList : Fin n → List α)

theorem run_append (s : FclState n α) (first second : List (Fin n)) :
    s.run fireList (first ++ second) = (s.run fireList first).run fireList second :=
  List.foldl_append _ _ _ _

theorem run_holding (p : Fin n) : ∀ (pending flc : List α) (s : FclState n α),
    s.injection p = .holding flc pending →
    s.run fireList (List.replicate (pending.length + 1) p) =
      ⟨s.queue ++ [flc ++ pending], Function.update s.injection p .done, s.takes⟩
  | [], flc, s, held => by
    simp [run, injectToFcl, held]
  | item :: pending, flc, s, held => by
    rw [List.length_cons, List.replicate_succ, run, List.foldl_cons, ← run]
    have step : s.injectToFcl fireList p =
        { s with injection := Function.update s.injection p (.holding (flc ++ [item]) pending) } := by
      simp [injectToFcl, held]
    rw [step, run_holding p pending (flc ++ [item]) _ (by simp)]
    simp

theorem run_waiting (p : Fin n) (s : FclState n α) (waiting : s.injection p = .waiting)
    (flc : List α) (rest : List (List α)) (queue : s.queue = flc :: rest) :
    s.run fireList (List.replicate ((fireList p).length + 2) p) =
      ⟨rest ++ [flc ++ fireList p], Function.update s.injection p .done, s.takes ++ [p]⟩ := by
  rw [List.replicate_succ, run, List.foldl_cons, ← run]
  have step : s.injectToFcl fireList p =
      ⟨rest, Function.update s.injection p (.holding flc (fireList p)), s.takes ++ [p]⟩ := by
    simp [injectToFcl, waiting, queue]
  rw [step, run_holding fireList p _ flc _ (by simp)]
  simp

variable {fireList} {fcl : List α}

theorem completes_of_free : ∀ (ps : List (Fin n)) (s : FclState n α), Handoff fireList fcl s →
    (∀ q, (s.injection q).isHolding = false) → (∀ q, q ∉ ps → s.injection q = .done) →
    ∃ rest, ∀ q, (s.run fireList rest).injection q = .done
  | [], s, _, _, visited => ⟨[], fun q => visited q (List.not_mem_nil q)⟩
  | p :: ps, s, h, free, visited => by
    cases state : s.injection p with
    | done =>
      exact completes_of_free ps s h free fun q fresh => by
        by_cases same : q = p
        · exact same ▸ state
        · exact visited q (by simp [same, fresh])
    | holding flc pending => simpa [state, Injection.isHolding] using free p
    | waiting =>
      obtain ⟨queue, -⟩ : s.queue = [contents fireList fcl s] ∧ _ := by
        rcases h.token with token | ⟨-, holder, flc, pending, held, -⟩
        · exact token
        · simpa [held, Injection.isHolding] using free holder
      have after := run_waiting fireList p s state _ [] queue
      obtain ⟨rest, done⟩ := completes_of_free ps _
          (h.run (List.replicate ((fireList p).length + 2) p)) (fun q => by
          by_cases same : q = p
          · subst same; simp [after, Injection.isHolding]
          · simp [after, Function.update_noteq same, free q])
        fun q fresh => by
          by_cases same : q = p
          · subst same; simp [after]
          · simp only [after, Function.update_noteq same]
            exact visited q (by simp [same, fresh])
      exact ⟨_ ++ rest, by rw [run_append]; exact done⟩

theorem completes_of_handoff (s : FclState n α) (h : Handoff fireList fcl s) :
    ∃ rest, ∀ q, (s.run fireList rest).injection q = .done := by
  rcases h.token with ⟨-, free⟩ | ⟨-, p, flc, pending, held, -, others⟩
  · exact completes_of_free _ s h free fun q fresh => absurd (List.mem_finRange q) fresh
  · have after := run_holding fireList p pending flc s held
    obtain ⟨rest, done⟩ := completes_of_free (List.finRange n) _
        (h.run (List.replicate (pending.length + 1) p)) (fun q => by
        by_cases same : q = p
        · subst same; simp [after, Injection.isHolding]
        · simp [after, Function.update_noteq same, others q same])
      fun q fresh => absurd (List.mem_finRange q) fresh
    exact ⟨_ ++ rest, by rw [run_append]; exact done⟩

theorem injectToFcl_completes (fireList : Fin n → List α) (fcl : List α) (schedule : List (Fin n)) :
    ∃ rest, ∀ p, ((initial fcl).run fireList (schedule ++ rest)).injection p = .done := by
  have reachable : Handoff fireList fcl ((initial fcl : FclState n α).run fireList schedule) :=
    (handoff_initial fcl).run schedule
  obtain ⟨rest, done⟩ := completes_of_handoff _ reachable
  exact ⟨rest, by rw [run_append]; exact done⟩

end FclState
end Feagi.Brain
