import CopperRoute.History
import CopperRoute.Proofs.Runs

/-!
# Histories that lose nothing

Each of the two stacks of a history forgets its oldest state when it grows beyond the capacity.
For undo and redo this never comes to pass: the stacks do not even grow beyond the capacity
**together** (`History.Fits`).  Recording empties the one stack and cuts the other, and going back
or forth only takes a state off one stack and puts one on the other.

So a step back or forth is exact (`History.Fits.undo_eq_some_iff`, `History.Fits.redo_eq_some_iff`),
and steps back are undone by as many steps forth (`History.Fits.walk_back_forth`).  Only recording
forgets, and then the oldest states: of those that are recorded in a row, as many come back as
there is room for (`History.Fits.run_record_undo`).
-/

namespace CopperRoute

/-- What a history can be asked to do. -/
inductive HistoryStep (α : Type)
  | record (a : α)
  | undo (current : α)
  | redo (current : α)
  deriving DecidableEq, Repr

namespace History

variable {α : Type}

/-- The state that a step back or forth leads to, if there is one; otherwise the history stays. -/
def answer (h : History α) : Option (α × History α) → Option α × History α
  | some (a, h') => (some a, h')
  | none => (none, h)

/-- One step: the state that it gives, if any, and the history afterwards. -/
def step (h : History α) : HistoryStep α → Checked (Option α × History α)
  | .record a => do return (none, ← h.record a)
  | .undo current => .ok (h.answer (h.undo current))
  | .redo current => .ok (h.answer (h.redo current))

/-- Steps in order, and what they give one after the other. -/
def run (h : History α) : List (HistoryStep α) → Checked (List (Option α) × History α)
  | [] => .ok ([], h)
  | s :: ss => do
    let (a, h) ← h.step s
    let (as, h) ← h.run ss
    return (a :: as, h)

/-- So many steps in one direction.  Each starts from the state that the one before has led
to. -/
def walk (move : History α → α → Option (α × History α)) : Nat → α × History α →
    Option (α × History α)
  | 0, place => some place
  | k + 1, place => (move place.2 place.1).bind (walk move k)

theorem run_cons_of {h h₁ h₂ : History α} {s : HistoryStep α} {ss : List (HistoryStep α)}
    {a : Option α} {as : List (Option α)} (hstep : h.step s = .ok (a, h₁))
    (hrest : h₁.run ss = .ok (as, h₂)) : h.run (s :: ss) = .ok (a :: as, h₂) := by
  simp only [run, hstep, hrest, bind, Except.bind, pure, Except.pure]

theorem run_append_of {h h₁ h₂ : History α} {ss ts : List (HistoryStep α)}
    {as bs : List (Option α)} (hfirst : h.run ss = .ok (as, h₁))
    (hthen : h₁.run ts = .ok (bs, h₂)) : h.run (ss ++ ts) = .ok (as ++ bs, h₂) := by
  induction ss generalizing h as with
  | nil =>
      cases hfirst
      exact hthen
  | cons s ss ih =>
      obtain ⟨⟨a, h'⟩, hstep, hfirst⟩ := Checked.bind_eq_ok.mp hfirst
      obtain ⟨⟨as', h''⟩, hrest, hfirst⟩ := Checked.bind_eq_ok.mp hfirst
      cases hfirst
      exact run_cons_of hstep (ih hrest)

/-- The last of several steps in one direction. -/
theorem walk_succ (move : History α → α → Option (α × History α)) (k : Nat)
    (place : α × History α) :
    walk move (k + 1) place = (walk move k place).bind fun p => move p.2 p.1 := by
  induction k generalizing place with
  | zero =>
      cases h : move place.2 place.1 <;> simp [walk, h]
  | succ k ih =>
      rw [walk]
      cases h : move place.2 place.1 with
      | none => simp [walk, h]
      | some next => rw [Option.bind_some, ih next, walk, h, Option.bind_some]

/-- **The stacks fit** into the capacity, both together. -/
def Fits (h : History α) : Prop := h.undoStack.length + h.redoStack.length ≤ h.capacity

instance (h : History α) : Decidable h.Fits := inferInstanceAs (Decidable (_ ≤ _))

variable {h h' : History α} {a current : α}

/-- Where there is room nothing is forgotten. -/
theorem push_eq_cons {stack : List α} (hroom : stack.length < h.capacity) :
    h.push a stack = a :: stack :=
  List.take_of_length_le hroom

/-- A history with some capacity takes every state down. -/
theorem record_eq (hcapacity : 1 ≤ h.capacity) :
    h.record a = .ok { h with undoStack := h.push a h.undoStack, redoStack := [] } :=
  if_neg (Nat.ne_of_gt hcapacity)

/-- Recording cuts the one stack and empties the other. -/
theorem fits_of_record (hrecord : h.record a = .ok h') : h'.Fits := by
  unfold record at hrecord
  split at hrecord
  · cases hrecord
  · cases hrecord
    exact List.length_take_le _ _

/-- Recording a state forgets what could be redone. -/
theorem step_record (hcapacity : 1 ≤ h.capacity) :
    h.step (.record a) =
      .ok (none, { h with undoStack := h.push a h.undoStack, redoStack := [] }) := by
  rw [step, record_eq hcapacity]
  rfl

theorem fits_ofCapacity (capacity : Nat) : (ofCapacity capacity : History α).Fits :=
  Nat.zero_le _

/-- The history with its stacks exchanged. -/
def turned (h : History α) : History α := ⟨h.capacity, h.redoStack, h.undoStack⟩

/-- Going forth is going back in the turned history. -/
theorem redo_eq_some : h.redo current = some (a, h') ↔
    h.turned.undo current = some (a, h'.turned) := by
  unfold redo undo turned
  cases h.redoStack with
  | nil => simp
  | cons newest rest =>
      cases h'
      simp [push, and_comm]

/-- A history fits when the one that goes the other way does. -/
theorem fits_turned : h.turned.Fits ↔ h.Fits := by
  rw [Fits, Fits, turned, Nat.add_comm]

namespace Fits

/-- **A step back** takes a state from the one stack and puts the current one on the other. -/
theorem undo_eq_some_iff (hfits : h.Fits) :
    h.undo current = some (a, h') ↔
      h.undoStack = a :: h'.undoStack ∧ h'.redoStack = current :: h.redoStack ∧
        h'.capacity = h.capacity := by
  unfold History.undo
  cases hstack : h.undoStack with
  | nil => simp
  | cons newest rest =>
      have hroom : h.redoStack.length < h.capacity := by
        rw [Fits, hstack, List.length_cons] at hfits
        omega
      obtain ⟨capacity', undoStack', redoStack'⟩ := h'
      simp only [push_eq_cons hroom, Option.some.injEq, Prod.mk.injEq, History.mk.injEq,
        List.cons.injEq]
      constructor
      · rintro ⟨rfl, rfl, rfl, rfl⟩
        exact ⟨⟨rfl, rfl⟩, rfl, rfl⟩
      · rintro ⟨⟨rfl, rfl⟩, rfl, rfl⟩
        exact ⟨rfl, rfl, rfl, rfl⟩

/-- **A step forth** does the same the other way round. -/
theorem redo_eq_some_iff (hfits : h.Fits) :
    h.redo current = some (a, h') ↔
      h.redoStack = a :: h'.redoStack ∧ h'.undoStack = current :: h.undoStack ∧
        h'.capacity = h.capacity :=
  redo_eq_some.trans (fits_turned.mpr hfits).undo_eq_some_iff

theorem undo (hfits : h.Fits) (hundo : h.undo current = some (a, h')) : h'.Fits := by
  obtain ⟨hundone, hredone, hcapacity⟩ := hfits.undo_eq_some_iff.mp hundo
  rw [Fits, hundone, List.length_cons] at hfits
  rw [Fits, hredone, hcapacity, List.length_cons]
  omega

theorem redo (hfits : h.Fits) (hredo : h.redo current = some (a, h')) : h'.Fits :=
  fits_turned.mp ((fits_turned.mpr hfits).undo (redo_eq_some.mp hredo))

/-- **What one step preserves**: a history with some capacity does every step, keeps its
capacity, and fits afterwards. -/
theorem step (hfits : h.Fits) (hcapacity : 1 ≤ h.capacity) (s : HistoryStep α) :
    ∃ given h', h.step s = .ok (given, h') ∧ h'.capacity = h.capacity ∧ h'.Fits := by
  cases s with
  | record a =>
      exact ⟨none, _, step_record hcapacity, rfl, fits_of_record (record_eq hcapacity)⟩
  | undo current =>
      refine ⟨_, _, rfl, ?_⟩
      cases hundo : h.undo current with
      | none => exact ⟨rfl, hfits⟩
      | some next => exact ⟨(hfits.undo_eq_some_iff.mp hundo).2.2, hfits.undo hundo⟩
  | redo current =>
      refine ⟨_, _, rfl, ?_⟩
      cases hredo : h.redo current with
      | none => exact ⟨rfl, hfits⟩
      | some next => exact ⟨(hfits.redo_eq_some_iff.mp hredo).2.2, hfits.redo hredo⟩

/-- **What a run preserves.** -/
theorem run (hfits : h.Fits) (hcapacity : 1 ≤ h.capacity) (ss : List (HistoryStep α)) :
    ∃ given h', h.run ss = .ok (given, h') ∧ h'.capacity = h.capacity ∧ h'.Fits := by
  induction ss generalizing h with
  | nil => exact ⟨[], h, rfl, rfl, hfits⟩
  | cons s ss ih =>
      obtain ⟨a, h₁, hstep, hsame, hfits₁⟩ := hfits.step hcapacity s
      obtain ⟨as, h₂, hrest, hsame', hfits₂⟩ := ih hfits₁ (hsame ▸ hcapacity)
      exact ⟨a :: as, h₂, run_cons_of hstep hrest, hsame'.trans hsame, hfits₂⟩

/-- A step back is undone by a step forth. -/
theorem redo_of_undo (hfits : h.Fits) (hundo : h.undo current = some (a, h')) :
    h'.redo a = some (current, h) := by
  obtain ⟨hundone, hredone, hcapacity⟩ := hfits.undo_eq_some_iff.mp hundo
  exact (hfits.undo hundo).redo_eq_some_iff.mpr ⟨hredone, hundone, hcapacity.symm⟩

/-- **Steps back are undone** by as many steps forth. -/
theorem walk_back_forth (hfits : h.Fits) {k : Nat} (hdepth : k ≤ h.undoStack.length)
    (current : α) : ∃ back, walk History.undo k (current, h) = some back ∧
      walk History.redo k back = some (current, h) := by
  induction k generalizing h current with
  | zero => exact ⟨(current, h), rfl, rfl⟩
  | succ k ih =>
      -- the first step back is taken back by the last step forth
      obtain ⟨newest, rest, hstack⟩ := List.exists_cons_of_length_pos (Nat.zero_lt_of_lt hdepth)
      obtain ⟨h₁, hundo⟩ : ∃ h₁, h.undo current = some (newest, h₁) :=
        ⟨⟨h.capacity, rest, current :: h.redoStack⟩,
          hfits.undo_eq_some_iff.mpr ⟨hstack, rfl, rfl⟩⟩
      have hrest := (hfits.undo_eq_some_iff.mp hundo).1
      have hdepth₁ : k ≤ h₁.undoStack.length := by
        rw [hrest, List.length_cons] at hdepth
        omega
      obtain ⟨back, hback, hforth⟩ := ih (hfits.undo hundo) hdepth₁ newest
      refine ⟨back, ?_, ?_⟩
      · rw [walk, hundo, Option.bind_some, hback]
      · rw [walk_succ, hforth, Option.bind_some]
        exact hfits.redo_of_undo hundo

/-- States recorded in a row come to lie on those from before, as far as there is room. -/
theorem run_record (hfits : h.Fits) (hcapacity : 1 ≤ h.capacity) (states : List α) :
    ∃ h', h.run (states.map .record) = .ok (states.map fun _ => none, h') ∧ h'.Fits ∧
      h'.undoStack = (states.reverse ++ h.undoStack).take h.capacity := by
  induction states generalizing h with
  | nil =>
      refine ⟨h, rfl, hfits, (List.take_of_length_le ?_).symm⟩
      exact Nat.le_trans (Nat.le_add_right _ _) hfits
  | cons a states ih =>
      obtain ⟨h', hrest, hfits', hstack⟩ := ih (fits_of_record (record_eq hcapacity)) hcapacity
      refine ⟨h', run_cons_of (step_record hcapacity) hrest, hfits', hstack.trans ?_⟩
      -- what the first record has cut off would have been cut off later
      rw [List.reverse_cons, List.append_assoc, List.singleton_append, push, List.take_append,
        List.take_append, List.take_take, Nat.min_eq_left (Nat.sub_le _ _)]

/-- Steps back give the kept states in their order. -/
theorem run_undo (hfits : h.Fits) {currents : List α}
    (hdepth : currents.length ≤ h.undoStack.length) :
    ∃ h', h.run (currents.map .undo) =
      .ok ((h.undoStack.take currents.length).map some, h') := by
  induction currents generalizing h with
  | nil => exact ⟨h, rfl⟩
  | cons current currents ih =>
      obtain ⟨newest, rest, hstack⟩ := List.exists_cons_of_length_pos (Nat.zero_lt_of_lt hdepth)
      have hundo : h.undo current = some (newest, ⟨h.capacity, rest, current :: h.redoStack⟩) :=
        hfits.undo_eq_some_iff.mpr ⟨hstack, rfl, rfl⟩
      rw [hstack, List.length_cons, List.length_cons] at hdepth
      obtain ⟨h', hrest⟩ := ih (hfits.undo hundo) (Nat.le_of_succ_le_succ hdepth)
      refine ⟨h', ?_⟩
      rw [hstack, List.length_cons, List.take_succ_cons]
      refine run_cons_of ?_ hrest
      rw [History.step, hundo]
      rfl

/-- **As many recorded states come back**, newest first, as there is room for. -/
theorem run_record_undo (hfits : h.Fits) (hcapacity : 1 ≤ h.capacity) {states currents : List α}
    (hroom : currents.length ≤ min states.length h.capacity) :
    ∃ h', h.run (states.map .record ++ currents.map .undo) =
      .ok ((states.map fun _ => none) ++ (states.reverse.take currents.length).map some, h') := by
  obtain ⟨h₁, hrecorded, hfits₁, hstack⟩ := hfits.run_record hcapacity states
  obtain ⟨hfew, hcut⟩ := Nat.le_min.mp hroom
  have hdepth : currents.length ≤ h₁.undoStack.length := by
    rw [hstack, List.length_take, List.length_append, List.length_reverse]
    omega
  obtain ⟨h₂, hundone⟩ := hfits₁.run_undo hdepth
  rw [hstack, List.take_take, Nat.min_eq_left hcut,
    List.take_append_of_le_length (by rwa [List.length_reverse])] at hundone
  exact ⟨h₂, run_append_of hrecorded hundone⟩

end Fits

/-- **A lossless history.**  Its stacks fit; steps back and forth are exact; steps back are undone
by steps forth; and what is recorded comes back as far as there is room. -/
structure Lossless (h : History α) : Prop where
  fits : h.undoStack.length + h.redoStack.length ≤ h.capacity
  back : ∀ current a h', h.undo current = some (a, h') ↔
    h.undoStack = a :: h'.undoStack ∧ h'.redoStack = current :: h.redoStack ∧
      h'.capacity = h.capacity
  forth : ∀ current a h', h.redo current = some (a, h') ↔
    h.redoStack = a :: h'.redoStack ∧ h'.undoStack = current :: h.undoStack ∧
      h'.capacity = h.capacity
  backForth : ∀ k ≤ h.undoStack.length, ∀ current, ∃ back,
    walk undo k (current, h) = some back ∧ walk redo k back = some (current, h)
  recorded : ∀ states currents : List α, currents.length = min states.length h.capacity →
    ∃ h', h.run (states.map .record ++ currents.map .undo) =
      .ok ((states.map fun _ => none) ++ (states.reverse.take currents.length).map some, h')

/-- **A history that fits** loses nothing on the way back and forth. -/
theorem Fits.lossless (hfits : h.Fits) (hcapacity : 1 ≤ h.capacity) : h.Lossless where
  fits := hfits
  back _ _ _ := hfits.undo_eq_some_iff
  forth _ _ _ := hfits.redo_eq_some_iff
  backForth _ hdepth current := hfits.walk_back_forth hdepth current
  recorded _ _ hroom := hfits.run_record_undo hcapacity (Nat.le_of_eq hroom)

/-- **Nothing is lost to undo and redo.**  A new history with some capacity does every sequence of
steps, and is lossless after each. -/
theorem run_lossless {capacity : Nat} (hcapacity : 1 ≤ capacity) (steps : List (HistoryStep α)) :
    ∃ given h, (ofCapacity capacity).run steps = .ok (given, h) ∧ h.capacity = capacity ∧
      h.Lossless := by
  obtain ⟨given, h, hrun, hsame, hfits⟩ := (fits_ofCapacity capacity).run hcapacity steps
  exact ⟨given, h, hrun, hsame, hfits.lossless (hsame ▸ hcapacity)⟩

/-- Three states are recorded where there is room for two, and one of these comes back. -/
theorem run_lossless_full : 1 ≤ 2 ∧ (ofCapacity 2).run [.record 1, .record 2, .record 3, .undo 4] =
    .ok ([none, none, none, some 3], ⟨2, [2], [4]⟩) ∧ (⟨2, [2], [4]⟩ : History Nat).Lossless := by
  have hcapacity : 1 ≤ 2 := by decide
  obtain ⟨given, h, hrun, _, hlossless⟩ :=
    run_lossless hcapacity [.record 1, .record 2, .record 3, .undo 4]
  cases hrun
  exact ⟨hcapacity, rfl, hlossless⟩

end History

end CopperRoute
