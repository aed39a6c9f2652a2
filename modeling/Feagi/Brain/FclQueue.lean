import Mathlib.Data.Finset.Card
import Mathlib.Data.Fintype.Basic
import Mathlib.Data.List.FinRange

/-!
# The FCL hand-off of `Brain.inject_to_fcl`

`inject_to_fcl(fire_list, fcl_queue)` takes the fire candidate list (FCL) out of the queue,
appends the fire list to it item by item and puts it back. Processes run it in any
interleaving: process `p` of `n` injects `fireList p`, and a schedule is the list of processes
that take a step. `get` on an empty queue blocks. `takes` records, for the proofs only, the
order in which processes took the FCL.
-/

namespace Feagi.Brain

inductive Injection (α : Type) where
  | waiting
  | holding (flc pending : List α)
  | done
  deriving DecidableEq, Repr

def Injection.isHolding {α : Type} : Injection α → Bool
  | .holding .. => true
  | _ => false

structure FclState (n : Nat) (α : Type) where
  queue : List (List α)
  injection : Fin n → Injection α
  takes : List (Fin n)

namespace FclState

variable {n : Nat} {α : Type} (fireList : Fin n → List α)

def initial (fcl : List α) : FclState n α :=
  ⟨[fcl], fun _ => .waiting, []⟩

/-- One step of process `p` in `inject_to_fcl(fireList p, fcl_queue)`. -/
def injectToFcl (s : FclState n α) (p : Fin n) : FclState n α :=
  match s.injection p with
  | .waiting =>
    match s.queue with
    | flc :: rest =>
      ⟨rest, Function.update s.injection p (.holding flc (fireList p)), s.takes ++ [p]⟩
    | [] => s
  | .holding flc (item :: pending) =>
    { s with injection := Function.update s.injection p (.holding (flc ++ [item]) pending) }
  | .holding flc [] => { s with queue := s.queue ++ [flc], injection := Function.update s.injection p .done }
  | .done => s

def run (s : FclState n α) (schedule : List (Fin n)) : FclState n α :=
  schedule.foldl (injectToFcl fireList) s

def holders (s : FclState n α) : Finset (Fin n) :=
  Finset.univ.filter fun p => (s.injection p).isHolding

/-- The initial FCL followed by the fire lists of the processes that took it, in order. -/
def contents (fcl : List α) (s : FclState n α) : List α :=
  fcl ++ (s.takes.map fireList).flatten

/-- Where the FCL is: alone in the queue, or held by one process that still has `pending`
to append. -/
def Token (fcl : List α) (s : FclState n α) : Prop :=
  (s.queue = [contents fireList fcl s] ∧ ∀ p, (s.injection p).isHolding = false) ∨
  (s.queue = [] ∧ ∃ p flc pending, s.injection p = .holding flc pending ∧
    flc ++ pending = contents fireList fcl s ∧ ∀ q, q ≠ p → (s.injection q).isHolding = false)

structure Handoff (fcl : List α) (s : FclState n α) : Prop where
  nodup : s.takes.Nodup
  taken : ∀ p, p ∈ s.takes ↔ s.injection p ≠ .waiting
  token : Token fireList fcl s

variable {fireList} {fcl : List α} {s : FclState n α} {p : Fin n}

theorem injectToFcl_cases (s : FclState n α) (p : Fin n) :
    (s.injection p = .waiting ∧ ∃ flc rest, s.queue = flc :: rest ∧
      s.injectToFcl fireList p = ⟨rest, Function.update s.injection p (.holding flc (fireList p)),
        s.takes ++ [p]⟩) ∨
    (∃ flc item pending, s.injection p = .holding flc (item :: pending) ∧
      s.injectToFcl fireList p =
        { s with injection := Function.update s.injection p (.holding (flc ++ [item]) pending) }) ∨
    (∃ flc, s.injection p = .holding flc [] ∧ s.injectToFcl fireList p =
      { s with queue := s.queue ++ [flc], injection := Function.update s.injection p .done }) ∨
    s.injectToFcl fireList p = s := by
  unfold injectToFcl
  rcases h : s.injection p with _ | ⟨flc, _ | ⟨item, pending⟩⟩ | _
  · rcases q : s.queue with _ | ⟨flc, rest⟩
    · exact .inr (.inr (.inr rfl))
    · exact .inl ⟨rfl, flc, rest, rfl, rfl⟩
  · exact .inr (.inr (.inl ⟨flc, rfl, rfl⟩))
  · exact .inr (.inl ⟨flc, item, pending, rfl, rfl⟩)
  · exact .inr (.inr (.inr rfl))

theorem Token.of_holding {flc pending : List α} (token : Token fireList fcl s)
    (held : s.injection p = .holding flc pending) :
    s.queue = [] ∧ flc ++ pending = contents fireList fcl s ∧
      ∀ q, q ≠ p → (s.injection q).isHolding = false := by
  rcases token with ⟨-, none⟩ | ⟨empty, holder, flc', pending', held', same, others⟩
  · simpa [held, Injection.isHolding] using none p
  · by_cases e : p = holder
    · subst e
      obtain ⟨rfl, rfl⟩ : flc = flc' ∧ pending = pending' := by simpa [held] using held'
      exact ⟨empty, same, others⟩
    · simpa [held, Injection.isHolding] using others p e

theorem taken_update {i : Injection α} (taken : ∀ q, q ∈ s.takes ↔ s.injection q ≠ .waiting)
    (before : s.injection p ≠ .waiting) (after : i ≠ .waiting) :
    ∀ q, q ∈ s.takes ↔ Function.update s.injection p i q ≠ .waiting := by
  intro q
  by_cases e : q = p
  · subst e
    simp [(taken q).mpr before, after]
  · simp [Function.update_noteq e, taken q]

theorem Handoff.injectToFcl (h : Handoff fireList fcl s) (p : Fin n) :
    Handoff fireList fcl (s.injectToFcl fireList p) := by
  rcases injectToFcl_cases s p with
    ⟨waiting, flc, rest, queue, e⟩ | ⟨flc, item, pending, held, e⟩ | ⟨flc, held, e⟩ | e
  all_goals rw [e]
  · rcases h.token with ⟨single, none⟩ | ⟨empty, -⟩
    · obtain ⟨rfl, rfl⟩ := List.cons_eq_cons.mp (queue.symm.trans single)
      have fresh : p ∉ s.takes := fun m => (h.taken p).mp m waiting
      refine ⟨h.nodup.append (List.nodup_singleton p) (List.disjoint_singleton.mpr fresh),
        fun q => ?_, .inr ⟨rfl, p, contents fireList fcl s, fireList p, by simp, by simp [contents],
          fun q ne => ?_⟩⟩
      · by_cases same : q = p
        · subst same
          simp
        · simp [Function.update_noteq same, h.taken q, same]
      · simp [Function.update_noteq ne, none q]
    · exact absurd (queue.symm.trans empty) (List.cons_ne_nil _ _)
  · obtain ⟨empty, same, others⟩ := h.token.of_holding held
    refine ⟨h.nodup, taken_update h.taken (by simp [held]) nofun,
      .inr ⟨empty, p, flc ++ [item], pending, by simp, by simpa using same,
        fun q ne => by simp [Function.update_noteq ne, others q ne]⟩⟩
  · obtain ⟨empty, same, others⟩ := h.token.of_holding held
    refine ⟨h.nodup, taken_update h.taken (by simp [held]) nofun,
      .inl ⟨by simpa [empty] using same, fun q => ?_⟩⟩
    by_cases e : q = p
    · subst e
      simp [Injection.isHolding]
    · simp [Function.update_noteq e, others q e]
  · exact h

theorem handoff_initial (fcl : List α) : Handoff fireList fcl (initial fcl : FclState n α) :=
  ⟨List.nodup_nil, fun p => by simp [initial], .inl ⟨by simp [initial, contents], fun _ => rfl⟩⟩

theorem Handoff.run (h : Handoff fireList fcl s) (schedule : List (Fin n)) :
    Handoff fireList fcl (s.run fireList schedule) := by
  induction schedule generalizing s with
  | nil => exact h
  | cons p schedule ih => exact ih (h.injectToFcl p)

theorem Token.count (token : Token fireList fcl s) : s.queue.length + (holders s).card = 1 := by
  rcases token with ⟨single, none⟩ | ⟨empty, p, flc, pending, held, -, others⟩
  · simp [single, holders, Finset.filter_eq_empty_iff, none]
  · have alone : holders s = {p} := by
      ext q
      by_cases e : q = p
      · subst e
        simp [holders, held, Injection.isHolding]
      · simp [holders, others q e, e]
    simp [empty, alone]

theorem Handoff.of_done (h : Handoff fireList fcl s) (finished : ∀ p, s.injection p = .done) :
    s.queue = [contents fireList fcl s] ∧ s.takes.Perm (List.finRange n) := by
  rcases h.token with ⟨single, -⟩ | ⟨-, p, flc, pending, held, -⟩
  · refine ⟨single, (List.perm_ext_iff_of_nodup h.nodup (List.nodup_finRange n)).mpr fun p => ?_⟩
    simp [h.taken p, finished p]
  · simp [finished p] at held

theorem injectToFcl_handoff (fireList : Fin n → List α) (fcl : List α) (schedule : List (Fin n)) :
    ((initial fcl).run fireList schedule).queue.length +
        (holders ((initial fcl).run fireList schedule : FclState n α)).card = 1 ∧
      ((∀ p, ((initial fcl).run fireList schedule).injection p = .done) →
        ((initial fcl).run fireList schedule).queue =
          [fcl ++ (((initial fcl).run fireList schedule).takes.map fireList).flatten] ∧
        ((initial fcl).run fireList schedule).takes.Perm (List.finRange n)) :=
  have h := (handoff_initial fcl).run schedule
  ⟨h.token.count, h.of_done⟩

def twoInjections : Fin 2 → List Nat := fun p => [p.val + 1]

theorem injectToFcl_handoff_of_two :
    let s := (initial [0] : FclState 2 Nat).run twoInjections [0, 1, 0, 0, 1, 1, 1]
    (∀ p, s.injection p = .done) ∧
      s.queue = [[0] ++ (s.takes.map twoInjections).flatten] ∧ s.takes.Perm (List.finRange 2) :=
  ⟨by decide, (injectToFcl_handoff twoInjections [0] [0, 1, 0, 0, 1, 1, 1]).2 (by decide)⟩

end FclState
end Feagi.Brain
