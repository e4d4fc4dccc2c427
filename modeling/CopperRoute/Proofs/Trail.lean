import CopperRoute.Proofs.Lifecycle
import CopperRoute.Proofs.Past
import Mathlib.Data.List.Chain

/-!
# The trail of a run

A run makes a sequence of **transitions**, turn after turn (`Tool.transitions`).  It
is a legal path from the idle state to the state that the session has at the end,
and the trail shows the end of it.  Between two turns the session is idle, routes or
drags, and its state says which operation runs.
-/

namespace CopperRoute

namespace LegalPath

variable {a b : SessionState} {ms : List Transition}

theorem legal (h : LegalPath a ms b) : ∀ m ∈ ms, m ∈ SessionState.transitions := by
  induction ms generalizing a with
  | nil => simp
  | cons m ms ih =>
      intro n hn
      rcases List.mem_cons.mp hn with rfl | hn
      · exact h.2.1
      · exact ih h.2.2 n hn

/-- Each transition goes on where the one before it ended. -/
theorem isChain (h : LegalPath a ms b) : ms.IsChain fun m n => m.2 = n.1 := by
  induction ms generalizing a with
  | nil => exact .nil
  | cons m ms ih =>
      refine List.isChain_cons.mpr ⟨fun n hn => ?_, ih h.2.2⟩
      cases ms with
      | nil => cases hn
      | cons n' rest =>
          cases hn
          exact h.2.2.1.symm

theorem last (h : LegalPath a ms b) {m : Transition} (hm : ms.getLast? = some m) : m.2 = b := by
  induction ms generalizing a with
  | nil => cases hm
  | cons n ms ih =>
      cases ms with
      | nil =>
          cases hm
          exact h.2.2
      | cons n' rest => exact ih h.2.2 (by simpa using hm)

end LegalPath

/-- **The chronicle of a session.**  All transitions that were ever made lead from
the idle state to the session's state, which fits the operation; the trail shows the
newest of them. -/
structure Session.Chronicled (s : Session) (full : List Transition) : Prop where
  resting : s.state = .idle ∨ s.state = .routing ∨ s.state = .dragging
  idle : s.state = .idle ↔ s.operation = .none
  routing : s.state = .routing ↔ ∃ op, s.operation = .routing op
  dragging : s.state = .dragging ↔ ∃ op, s.operation = .dragging op
  path : LegalPath .idle full s.state
  window : s.trail = full.drop (full.length - trailCapacity)
  length : s.trail.length ≤ trailCapacity
  legal : ∀ m ∈ s.trail, m ∈ SessionState.transitions
  chained : s.trail.IsChain fun m n => m.2 = n.1
  last : ∀ m, s.trail.getLast? = some m → m.2 = s.state

/-- A session at rest is chronicled by the transitions that its trail is the end of. -/
theorem Session.chronicled {s : Session} {full : List Transition}
    (hrest : s.state = s.operation.restState) (hpath : LegalPath .idle full s.state)
    (hwindow : s.trail = recent full) : s.Chronicled full := by
  have hdrop : s.trail = full.drop (full.length - trailCapacity) := by
    rw [hwindow, recent]
  refine ⟨?_, ?_, ?_, ?_, hpath, hdrop, ?_, ?_, ?_, ?_⟩
  · rw [hrest]
    cases s.operation <;> simp [Operation.restState]
  · rw [hrest]
    cases s.operation <;> simp [Operation.restState]
  · rw [hrest]
    cases s.operation <;> simp [Operation.restState]
  · rw [hrest]
    cases s.operation <;> simp [Operation.restState]
  · rw [hwindow, length_recent]
    exact Nat.min_le_right _ _
  · intro m hm
    rw [hdrop] at hm
    exact hpath.legal m (List.mem_of_mem_drop hm)
  · rw [hdrop]
    exact hpath.isChain.drop _
  · intro m hm
    rw [hdrop, List.getLast?_drop] at hm
    split at hm
    · cases hm
    · exact hpath.last hm

namespace Tool

/-- The tool with an empty trail. -/
def withoutTrail (t : Tool) : Tool := t.mapSession fun s => { s with trail := [] }

/-- The transitions that a turn makes: those that it notes in an empty trail.  There are
at most four of them, so none falls out at the other end. -/
def turnTransitions (t : Tool) (k : Turn) : Checked (List Transition) := do
  return (← t.withoutTrail.turn k).session.trail

/-- All transitions of a run, oldest first. -/
def transitions (t : Tool) : List Turn → Checked (List Transition)
  | [] => .ok []
  | k :: ks => do
    let ms ← t.turnTransitions k
    let ns ← (← t.turn k).transitions ks
    return ms ++ ns

/-- Every tool comes from the one without a trail by the past that its trail shows. -/
theorem after_withoutTrail {t : Tool} (h : t.session.trail.length ≤ trailCapacity) :
    t.withoutTrail.after t.session.trail = t := by
  have htrail : Session.recent (t.session.trail ++ []) = t.session.trail := by
    rw [List.append_nil, Session.recent_of_length_le h]
  simp only [after, withoutTrail, mapSession, Session.after, htrail]

/-- **A turn adds its transitions to the trail**, and leads by them from state to
state. -/
theorem turn_trail {t t' : Tool} {k : Turn} (ht : t.Orderly)
    (hlength : t.session.trail.length ≤ trailCapacity) (h : t.turn k = .ok t') :
    ∃ ms, t.turnTransitions k = .ok ms ∧ LegalPath t.session.state ms t'.session.state ∧
      t'.session.trail = Session.recent (t.session.trail ++ ms) := by
  rw [← after_withoutTrail hlength, turn_after] at h
  obtain ⟨u, hu, h⟩ : ∃ u, t.withoutTrail.turn k = .ok u ∧ u.after t.session.trail = t' := by
    cases hturn : t.withoutTrail.turn k with
    | error fault =>
        rw [hturn] at h
        cases h
    | ok u =>
        rw [hturn] at h
        cases h
        exact ⟨u, rfl, rfl⟩
  have hdone := turn_advances (t := t.withoutTrail) ⟨ht.rest, ht.hold⟩ hu
  obtain ⟨ms, hfew, hwalk⟩ := hdone.walk
  have hnoted : u.session.trail = ms := by
    have hroom : ([] : List Transition).length + ms.length ≤ trailCapacity := by
      have hcap : 4 ≤ trailCapacity := by decide
      simpa using Nat.le_trans hfew hcap
    rw [hwalk.trail]
    exact Session.foldl_extendTrail [] hroom
  refine ⟨ms, ?_, ?_, ?_⟩
  · rw [turnTransitions, hu, ← hnoted]
    rfl
  · rw [← h]
    exact hwalk.path
  · rw [← h, ← hnoted]
    rfl

/-- What a run adds to the transitions before it. -/
theorem run_trail {t t' : Tool} {ks : List Turn} {old : List Transition} (ht : t.Orderly)
    (hold : t.session.trail = Session.recent old) (h : t.run ks = .ok t') :
    ∃ ms, t.transitions ks = .ok ms ∧ LegalPath t.session.state ms t'.session.state ∧
      t'.session.trail = Session.recent (old ++ ms) := by
  induction ks generalizing t old with
  | nil =>
      cases h
      exact ⟨[], rfl, rfl, by rw [List.append_nil, hold]⟩
  | cons k ks ih =>
      obtain ⟨u, hturn, hrest⟩ := run_cons_eq_ok.mp h
      have hlength : t.session.trail.length ≤ trailCapacity := by
        rw [hold, Session.length_recent]
        exact Nat.min_le_right _ _
      obtain ⟨ms, hms, hpath, htrail⟩ := turn_trail ht hlength hturn
      rw [hold, Session.recent_recent_append] at htrail
      obtain ⟨ns, hns, hpath', htrail'⟩ := ih (turn_advances ht hturn).orderly htrail hrest
      refine ⟨ms ++ ns, ?_, hpath.append hpath', by rw [htrail', List.append_assoc]⟩
      simp only [transitions, hms, hturn, hns, bind, Except.bind, pure, Except.pure]

/-- **Between two commands** the session is idle, routes or drags, as its operation
says, and its trail is the end of a legal history. -/
theorem run_chronicled {board : Board} {world : World} {options : Options} {rules : RuleSet}
    {search : TreeSearch} {confirms : Bool} {ks : List Turn} {t : Tool}
    (h : (new board world options rules search confirms).run ks = .ok t) :
    ∃ full, (new board world options rules search confirms).transitions ks = .ok full ∧
      t.session.Chronicled full := by
  have hnew := orderly_new board world options rules search confirms
  have hempty : (new board world options rules search confirms).session.trail = Session.recent [] :=
    (Session.recent_of_length_le (Nat.zero_le _)).symm
  obtain ⟨full, hfull, hpath, htrail⟩ := run_trail hnew hempty h
  exact ⟨full, hfull, Session.chronicled (run_orderly hnew h).rest hpath htrail⟩

/-- A route is begun in the open and broken off. -/
theorem run_chronicled_cancelled_route :
    ∃ t, (launch Board.standard Options.standard [] true).run
        [⟨.startRouting Point.zero none, true⟩, ⟨.cancelOperation, true⟩] = .ok t ∧
      ∃ full, (launch Board.standard Options.standard [] true).transitions
          [⟨.startRouting Point.zero none, true⟩, ⟨.cancelOperation, true⟩] = .ok full ∧
        t.session.Chronicled full :=
  ⟨_, rfl, run_chronicled rfl⟩

end Tool

end CopperRoute
