import CopperRoute.Tool.Execution

/-!
# Runs of commands

A **turn** hands one command to the tool, together with the answer that the host
gives if it is asked meanwhile; no command asks twice.  A **run** handles its turns
in order.  A refused command does not stop a run, a fault does: a run that faults
has no result.

What one turn preserves, every run preserves (`run_invariant`), and it holds between
all turns of it (`Tool.Always`).  Some facts hold only as long as no turn does a
certain thing (`Tool.Avoids`); `always_iff_avoids` is for those that hold exactly that
long.
-/

namespace CopperRoute

namespace Checked

variable {α β : Type}

/-- A computation in two parts has a result when both parts have one. -/
theorem bind_eq_ok {x : Checked α} {f : α → Checked β} {b : β} :
    x >>= f = .ok b ↔ ∃ a, x = .ok a ∧ f a = .ok b := by
  cases x with
  | error fault => simp [bind, Except.bind]
  | ok a => simp [bind, Except.bind]

theorem pure_eq_ok {a b : α} : (pure a : Checked α) = .ok b ↔ a = b := by
  simp [pure, Except.pure]

theorem map_eq_ok {x : Checked α} {f : α → β} {b : β} :
    x.map f = .ok b ↔ ∃ a, x = .ok a ∧ f a = b := by
  cases x with
  | error fault => simp [Except.map]
  | ok a => simp [Except.map]

/-- What is only tagged on its way out was there before. -/
theorem of_tagged {x : Checked α} {a : α} {b c : β}
    (h : (do return (← x, b)) = Except.ok (a, c)) : x = .ok a := by
  obtain ⟨a', hx, h⟩ := bind_eq_ok.mp h
  cases h
  exact hx

end Checked

/-- What is seen of a result shows that there is one. -/
theorem exists_of_toOption_map {ε α β : Type} {x : Except ε α} {f : α → β} {b : β}
    (h : x.toOption.map f = some b) : ∃ a, x = .ok a ∧ f a = b := by
  cases x with
  | error e => cases h
  | ok a => exact ⟨a, rfl, Option.some.inj h⟩

/-- A command, and the host's answer to a question that it leads to. -/
structure Turn where
  command : Command
  confirms : Bool
  deriving DecidableEq, Repr, Inhabited

namespace Tool

/-- The tool in a host that will give this answer. -/
def answering (t : Tool) (confirms : Bool) : Tool :=
  t.mapHost fun h => { h with confirms := confirms }

/-- The tool as the command of a turn meets it: the log has it already. -/
def ready (t : Tool) (k : Turn) : Tool :=
  { t.answering k.confirms with log := t.log.record k.command }

/-- Handle the command of a turn.  Whether it is refused does not matter. -/
def turn (t : Tool) (k : Turn) : Checked Tool := do
  return (← (t.answering k.confirms).handle k.command).1

/-- Handle turns in order. -/
def run (t : Tool) : List Turn → Checked Tool
  | [] => .ok t
  | k :: ks => do (← t.turn k).run ks

/-- A turn is the execution of its command, when the host's answer is set. -/
theorem turn_eq_ok {t t' : Tool} {k : Turn} :
    t.turn k = .ok t' ↔ ∃ refusal, (t.ready k).execute k.command = .ok (t', refusal) := by
  simp only [turn, handle, Checked.bind_eq_ok, Checked.pure_eq_ok, Prod.exists, exists_and_right,
    exists_eq_right]
  rfl

/-- A run is its first turn and the run of the others. -/
theorem run_cons_eq_ok {t t' : Tool} {k : Turn} {ks : List Turn} :
    t.run (k :: ks) = .ok t' ↔ ∃ u, t.turn k = .ok u ∧ u.run ks = .ok t' := by
  rw [run, Checked.bind_eq_ok]

/-- **Induction over runs.**  What every turn preserves, every run preserves. -/
theorem run_invariant {P : Tool → Prop}
    (hturn : ∀ t k t', P t → t.turn k = .ok t' → P t')
    {t t' : Tool} {ks : List Turn} (ht : P t) (hrun : t.run ks = .ok t') : P t' := by
  induction ks generalizing t with
  | nil =>
      cases hrun
      exact ht
  | cons k ks ih =>
      obtain ⟨u, hu, hrest⟩ := run_cons_eq_ok.mp hrun
      exact ih (hturn t k u ht hu) hrest

/-- No turn of the run that has a result hands over a command that is `bad` in the
state that it meets. -/
def Avoids (bad : Tool → Command → Prop) (t : Tool) : List Turn → Prop
  | [] => True
  | k :: ks => ∀ u, t.turn k = .ok u → ¬ bad (t.ready k) k.command ∧ Avoids bad u ks

/-- The property holds now and after every turn of the run. -/
def Always (P : Tool → Prop) (t : Tool) : List Turn → Prop
  | [] => P t
  | k :: ks => P t ∧ ∀ u, t.turn k = .ok u → Always P u ks

/-- `R` relates the tool as every turn of the run finds it to what that turn makes of it. -/
def Throughout (R : Tool → Command → Tool → Prop) (t : Tool) : List Turn → Prop
  | [] => True
  | k :: ks => ∀ u, t.turn k = .ok u → R (t.ready k) k.command u ∧ Throughout R u ks

/-- What always holds, holds now. -/
theorem Always.now {P : Tool → Prop} {t : Tool} {ks : List Turn} (h : t.Always P ks) : P t := by
  cases ks with
  | nil => exact h
  | cons k ks => exact h.1

/-- What always holds, holds at the end of the run. -/
theorem Always.last {P : Tool → Prop} {t t' : Tool} {ks : List Turn} (h : t.Always P ks)
    (hrun : t.run ks = .ok t') : P t' := by
  induction ks generalizing t with
  | nil =>
      cases hrun
      exact h
  | cons k ks ih =>
      obtain ⟨u, hu, hrest⟩ := run_cons_eq_ok.mp hrun
      exact ih (h.2 u hu) hrest

/-- What always holds may be weakened. -/
theorem Always.imp {P Q : Tool → Prop} (hpq : ∀ t, P t → Q t) {t : Tool} {ks : List Turn}
    (h : t.Always P ks) : t.Always Q ks := by
  induction ks generalizing t with
  | nil => exact hpq t h
  | cons k ks ih => exact ⟨hpq t h.1, fun u hu => ih (h.2 u hu)⟩

/-- A run without bad turns has no worse ones. -/
theorem Avoids.mono {bad worse : Tool → Command → Prop} (hworse : ∀ t c, worse t c → bad t c)
    {t : Tool} {ks : List Turn} (h : t.Avoids bad ks) : t.Avoids worse ks := by
  induction ks generalizing t with
  | nil => trivial
  | cons k ks ih =>
      intro u hu
      obtain ⟨hgood, hrest⟩ := h u hu
      exact ⟨fun hbad => hgood (hworse _ _ hbad), ih hrest⟩

/-- A run without turns that are bad in one way or in the other. -/
theorem Avoids.or {bad bad' : Tool → Command → Prop} {t : Tool} {ks : List Turn}
    (h : t.Avoids bad ks) (h' : t.Avoids bad' ks) :
    t.Avoids (fun t c => bad t c ∨ bad' t c) ks := by
  induction ks generalizing t with
  | nil => trivial
  | cons k ks ih =>
      intro u hu
      obtain ⟨hgood, hrest⟩ := h u hu
      obtain ⟨hgood', hrest'⟩ := h' u hu
      exact ⟨not_or.mpr ⟨hgood, hgood'⟩, ih hrest hrest'⟩

/-- What follows from an invariant of the turns that are not bad holds throughout a run
without bad turns. -/
theorem always_of_avoids {bad : Tool → Command → Prop} {I P : Tool → Prop}
    (hturn : ∀ t k t', I t → ¬ bad (t.ready k) k.command → t.turn k = .ok t' → I t')
    (hsuffices : ∀ t, I t → P t) {t : Tool} {ks : List Turn} (ht : I t) (havoid : t.Avoids bad ks) :
    t.Always P ks := by
  induction ks generalizing t with
  | nil => exact hsuffices t ht
  | cons k ks ih =>
      refine ⟨hsuffices t ht, fun u hu => ?_⟩
      obtain ⟨hgood, hrest⟩ := havoid u hu
      exact ih (hturn t k u ht hgood hu) hrest

/-- What follows from an invariant of all turns holds throughout every run. -/
theorem always_of_invariant {I P : Tool → Prop}
    (hturn : ∀ t k t', I t → t.turn k = .ok t' → I t') (hsuffices : ∀ t, I t → P t) {t : Tool}
    (ht : I t) (ks : List Turn) : t.Always P ks := by
  induction ks generalizing t with
  | nil => exact hsuffices t ht
  | cons k ks ih => exact ⟨hsuffices t ht, fun u hu => ih (hturn t k u ht hu)⟩

/-- **Exactly the bad turns break a property** when it follows from what turns keep that
are not bad, and does not hold behind a bad one. -/
theorem always_iff_avoids_of_kept {bad : Tool → Command → Prop} {J P : Tool → Prop}
    (hgood : ∀ t k t', J t → ¬ bad (t.ready k) k.command → t.turn k = .ok t' → J t')
    (hsuffices : ∀ t, J t → P t)
    (hbad : ∀ t k t', J t → t.turn k = .ok t' → P t' → ¬ bad (t.ready k) k.command)
    {t : Tool} {ks : List Turn} (hJ : J t) : t.Always P ks ↔ t.Avoids bad ks := by
  refine ⟨fun halways => ?_, always_of_avoids hgood hsuffices hJ⟩
  induction ks generalizing t with
  | nil => trivial
  | cons k ks ih =>
      intro u hu
      have hrest := halways.2 u hu
      have hclean := hbad t k u hJ hu hrest.now
      exact ⟨hclean, ih (hgood t k u hJ hclean hu) hrest⟩

/-- It suffices that under an invariant, which turns keep as long as the property holds, a
turn that is not bad keeps the property and a bad one does not. -/
theorem always_iff_avoids {bad : Tool → Command → Prop} {I P : Tool → Prop}
    (hinv : ∀ t k t', I t → P t → t.turn k = .ok t' → I t')
    (hturn : ∀ t k t', I t → P t → t.turn k = .ok t' → (P t' ↔ ¬ bad (t.ready k) k.command))
    {t : Tool} {ks : List Turn} (hI : I t) (hP : P t) :
    t.Always P ks ↔ t.Avoids bad ks := by
  refine always_iff_avoids_of_kept (J := fun t => I t ∧ P t) (fun t k t' h hgood hrun => ?_)
    (fun _ h => h.2) (fun t k t' h hrun hP' => ?_) ⟨hI, hP⟩
  · exact ⟨hinv t k t' h.1 h.2 hrun, (hturn t k t' h.1 h.2 hrun).mpr hgood⟩
  · exact (hturn t k t' h.1 h.2 hrun).mp hP'

/-- What an invariant of all turns yields for every turn. -/
theorem throughout_of_invariant {I : Tool → Prop} {R : Tool → Command → Tool → Prop}
    (hturn : ∀ t k t', I t → t.turn k = .ok t' → I t')
    (hstep : ∀ t k t', I t → t.turn k = .ok t' → R (t.ready k) k.command t') {t : Tool} (ht : I t)
    (ks : List Turn) : t.Throughout R ks := by
  induction ks generalizing t with
  | nil => trivial
  | cons k ks ih => exact fun u hu => ⟨hstep t k u ht hu, ih (hturn t k u ht hu)⟩

/-- **Exactly the bad turns break a relation** that, under an invariant, holds of a turn
when it is not bad. -/
theorem throughout_iff_avoids {I : Tool → Prop} {R : Tool → Command → Tool → Prop}
    {bad : Tool → Command → Prop} (hturn : ∀ t k t', I t → t.turn k = .ok t' → I t')
    (hstep : ∀ t k t', I t → t.turn k = .ok t' →
      (R (t.ready k) k.command t' ↔ ¬ bad (t.ready k) k.command)) {t : Tool} (ht : I t)
    (ks : List Turn) : t.Throughout R ks ↔ t.Avoids bad ks := by
  induction ks generalizing t with
  | nil => exact Iff.rfl
  | cons k ks ih =>
      refine forall_congr' fun u => imp_congr_right fun hu => ?_
      exact and_congr (hstep t k u ht hu) (ih (hturn t k u ht hu))

end Tool

end CopperRoute
