import CopperRoute.Proofs.Attending

/-!
# In step with the engine

The engine works on its own copy of the board, the world.  The tool is **in step** when the
world is the board (`Tool.InStep`).  A commit loads the new board at once, and so does a
change of the design settings; only clearing the world and stepping through the history take
the two apart.  These commands come in courses only, and a course ends with loading the
board.

So the tool is in step after every intent, and no command that asks the engine does so while
it knows another board (`Tool.AsksBlind`).
-/

namespace CopperRoute

/-- The commands that never ask the engine, because they are the ones of a course. -/
inductive Command.AsksNothing : Command → Prop
  | clearWorld : AsksNothing .clearWorld
  | undo : AsksNothing .undo
  | redo : AsksNothing .redo
  | syncWorld : AsksNothing .syncWorld

theorem Command.Steps.asksNothing {c : Command}
    {step : History Board → Board → Option (Board × History Board)} (hc : c.Steps step) :
    ∀ c₁ ∈ [.clearWorld, c, .syncWorld], c₁.AsksNothing := by
  intro c₁ hc₁
  rcases List.mem_cons.mp hc₁ with rfl | hc₁
  · exact .clearWorld
  · rcases List.mem_pair.mp hc₁ with rfl | rfl
    · cases hc
      · exact .undo
      · exact .redo
    · exact .syncWorld

namespace Tool

/-- **What no intent does.**  No bad command is handled when steady commands are not bad in the
states that outlive an intent, and those of a course are not bad when nothing runs. -/
theorem attend_avoids {J I : Tool → Prop} {bad : Tool → Command → Prop}
    (horderly : ∀ t, J t → t.Orderly)
    (hprompt : ∀ t o, J t → I t → J (t.prompted o) ∧ I (t.prompted o))
    (hturn : ∀ t k t', J t → t.turn k = .ok t' → J t')
    (hsteady : ∀ t c u refusal, ¬ c.PullsApart → J t → I t → t.handle c = .ok (u, refusal) → I u)
    (hgood : ∀ t c, ¬ c.PullsApart → J t → I t → ¬ bad (t.ready ⟨c, t.host.confirms⟩) c)
    (hcalm : ∀ t c, c.AsksNothing → J t → t.session.isIdle = true →
      ¬ bad (t.ready ⟨c, t.host.confirms⟩) c)
    {t : Tool} {o : Occasion} {out : IntentOutcome} (hJ : J t) (hI : I t)
    (h : t.attend o = .ok out) :
    (t.prompted o).Avoids bad ((t.prompted o).turnsFor out.commands) := by
  have howned (t : Tool) (c : Command) (u : Tool) (refusal : Option CommandRefusal) (ht : J t)
      (hhandle : t.handle c = .ok (u, refusal)) : J u := by
    have hown : t.turn ⟨c, t.host.confirms⟩ = .ok u := by
      rw [turn_own, hhandle]
      rfl
    exact hturn t _ u ht hown
  have hkept (t : Tool) (c : Command) (u : Tool) (refusal : Option CommandRefusal)
      (hc : ¬ c.PullsApart) (ht : J t ∧ I t) (hhandle : t.handle c = .ok (u, refusal)) :
      J u ∧ I u :=
    ⟨howned t c u refusal ht.1 hhandle, hsteady t c u refusal hc ht.1 ht.2 hhandle⟩
  have hhandled {t : Tool} {cs : List Command} {out : IntentOutcome}
      (hcs : ∀ c ∈ cs, ¬ c.PullsApart) (ht : J t ∧ I t) (h : t.handleAll cs = .ok out) :
      out = ⟨out.tool, cs, none⟩ ∧ (J out.tool ∧ I out.tool) ∧ t.Avoids bad (t.turnsFor cs) := by
    obtain ⟨hout, hlast⟩ := handleAll_invariant (fun t c u refusal hc ht hhandle =>
      ⟨execute_refusal (.inl (hcs c hc)) hhandle, hkept t c u refusal (hcs c hc) ht hhandle⟩) ht h
    exact ⟨hout, hlast, avoids_turnsFor
      (fun t c u refusal hc => hkept t c u refusal (hcs c hc))
      (fun t c hc ht => hgood t c (hcs c hc) ht.1 ht.2) ht⟩
  obtain ⟨first, hfirst, hmore⟩ := attend_eq_ok h
  obtain ⟨hdone, hstart, havoids⟩ :=
    hhandled (t.requested_steady o) (hprompt t o hJ hI) hfirst
  have hcommands : first.commands = t.requested o := congrArg IntentOutcome.commands hdone
  have hcalled : first.refusal = none := congrArg IntentOutcome.refusal hdone
  obtain ⟨cs, second, hcs, hsecond, rfl⟩ := hmore hcalled
  rw [turnsFor_append hfirst hcalled, hcommands]
  refine havoids.append (hcommands ▸ handleAll_run hfirst) ?_
  cases hcourse : o.intent.course? with
  | none =>
      obtain ⟨hall, _, havoids'⟩ :=
        hhandled (steady_commandsFor hcourse hcs).not_pullsApart hstart hsecond
      rw [show second.commands = cs from congrArg IntentOutcome.commands hall]
      exact havoids'
  | some c =>
      obtain ⟨step, hc⟩ := Intent.steps_of_course hcourse
      cases (first.tool.commandsFor_course hcourse).symm.trans hcs
      obtain ⟨ended, hended, hrest⟩ := handleAll_append hsecond
      obtain ⟨hall, ⟨hended', _⟩, havoids'⟩ :=
        hhandled first.tool.endRunning_steady hstart hended
      have hquiet : ended.refusal = none := congrArg IntentOutcome.refusal hall
      obtain ⟨third, hthird, rfl⟩ := hrest hquiet
      have hnothing := isIdle_of_endRunning (horderly _ hstart.1) hended
      obtain ⟨u, hwalked, _⟩ := handleAll_course hc hnothing
      cases hwalked.symm.trans hthird
      rw [turnsFor_append hended hquiet,
        show ended.commands = first.tool.endRunning from congrArg IntentOutcome.commands hall]
      refine havoids'.append (congrArg IntentOutcome.commands hall ▸ handleAll_run hended) ?_
      -- nothing runs any more, and no command of the course begins anything
      refine avoids_turnsFor (I := fun t => J t ∧ t.session.isIdle = true)
        (fun t c₁ u refusal hc₁ ht hhandle => ⟨howned t c₁ u refusal ht.1 hhandle, ?_⟩)
        (fun t c₁ hc₁ ht => hcalm t c₁ (hc.asksNothing c₁ hc₁) ht.1 ht.2) ⟨hended', hnothing⟩
      rcases List.mem_cons.mp hc₁ with rfl | hc₁
      · cases hhandle
        exact ht.2
      · rcases List.mem_pair.mp hc₁ with rfl | rfl
        · obtain ⟨v, hstepped, hsession, _⟩ := handle_step hc ht.2
          cases hstepped.symm.trans hhandle
          rw [hsession]
          exact ht.2
        · cases hhandle
          exact ht.2

/-- **What no service does**, when no intent does it. -/
theorem serving_avoids_of_kept {J I : Tool → Prop} {bad : Tool → Command → Prop}
    (horderly : ∀ t, J t → t.Orderly)
    (hprompt : ∀ t o, J t → I t → J (t.prompted o) ∧ I (t.prompted o))
    (hturn : ∀ t k t', J t → t.turn k = .ok t' → J t')
    (hsteady : ∀ t c u refusal, ¬ c.PullsApart → J t → I t → t.handle c = .ok (u, refusal) → I u)
    (hidle : ∀ t, J t → t.session.isIdle = true → t.world = some t.board → I t)
    (hgood : ∀ t c, ¬ c.PullsApart → J t → I t → ¬ bad (t.ready ⟨c, t.host.confirms⟩) c)
    (hcalm : ∀ t c, c.AsksNothing → J t → t.session.isIdle = true →
      ¬ bad (t.ready ⟨c, t.host.confirms⟩) c)
    {t : Tool} (hJ : J t) (hI : I t) (os : List Occasion) : t.Serving (Avoids bad) os := by
  induction os generalizing t with
  | nil => trivial
  | cons o os ih =>
      intro out hattend
      obtain ⟨_, hJ', hI'⟩ := attend_invariant horderly hprompt hturn hsteady hidle hJ hI hattend
      exact ⟨attend_avoids horderly hprompt hturn hsteady hgood hcalm hJ hI hattend, ih hJ' hI'⟩

/-- **In step**: the engine's world is the board. -/
def InStep (t : Tool) : Prop := t.world = some t.board

/-- **A command that may ask the engine asks it about another board.**  Most commands ask
about the board that they meet.  A route asks for its start after what ran before has been
ended, which may bring a new board; and a size command asks for the head when it has changed
the board's settings, about the board that it leaves. -/
inductive AsksBlind (t : Tool) : Command → Prop
  | meets {c : Command} (hasks : ¬ c.AsksNothing) (hapart : ¬ t.InStep) : AsksBlind t c
  | starts {p : Point} {id : Option ItemId} {u : Tool} (hidle : t.makeIdle = .ok u)
      (hapart : ¬ u.InStep) : AsksBlind t (.startRouting p id)
  | leaves {c : Command} {t' : Tool} {refusal : Option CommandRefusal} (hasks : ¬ c.AsksNothing)
      (h : t.execute c = .ok (t', refusal)) (hapart : ¬ t'.InStep) : AsksBlind t c

/-- After every occasion of a service, its outcome satisfies `P`. -/
def Attending (P : IntentOutcome → Prop) (t : Tool) : List Occasion → Prop
  | [] => True
  | o :: os => ∀ out, t.attend o = .ok out → P out ∧ out.tool.Attending P os

/-- **Steady commands keep step.** -/
theorem Reboards.inStep {t t' : Tool} {c : Command} (h : t.Reboards c t') (hc : ¬ c.PullsApart)
    (ht : t.InStep) : t'.InStep := by
  cases h.way with
  | kept hboard _ hworld => rw [InStep, hworld, hboard, ht]
  | loaded _ _ _ hworld => exact hworld
  | committed _ _ _ hworld => exact hworld
  | unloaded _ _ _ hcommand => exact absurd (hcommand ▸ .clearWorld) hc
  | undone _ _ hcommand _ => exact absurd (hcommand ▸ .undo) hc
  | redone _ _ hcommand _ => exact absurd (hcommand ▸ .redo) hc

/-- At rest and in step. -/
structure Settled (t : Tool) : Prop where
  orderly : t.Orderly
  inStep : t.InStep

variable {t : Tool} {o : Occasion} {out : IntentOutcome}

/-- A settled tool does not ask blindly: before the command, after it, and when it has ended
what ran, it is in step. -/
theorem Settled.not_asksBlind (ht : t.Settled) {c : Command} (hc : ¬ c.PullsApart) :
    ¬ (t.ready ⟨c, t.host.confirms⟩).AsksBlind c := by
  intro hblind
  cases hblind with
  | meets _ hapart => exact hapart ht.inStep
  | starts hidle hapart =>
      exact hapart ((makeIdle_reboards .cancelOperation hidle).inStep nofun ht.inStep)
  | leaves _ h hapart =>
      exact hapart ((execute_changes (ht.orderly.ready _) h).boards.inStep hc ht.inStep)

theorem not_asksBlind_of_asksNothing {c : Command} (h : c.AsksNothing) : ¬ t.AsksBlind c := by
  intro hblind
  cases hblind with
  | meets hasks | leaves hasks => exact hasks h
  | starts => cases h

/-- **Attending to an intent** settles the tool again, and is never refused. -/
theorem Settled.attend (ht : t.Settled) (h : t.attend o = .ok out) :
    out.refusal = none ∧ out.tool.Settled ∧
      (t.prompted o).Avoids AsksBlind ((t.prompted o).turnsFor out.commands) := by
  have hprompt (t : Tool) (o : Occasion) (ht : t.Orderly) (hinStep : t.InStep) :
      (t.prompted o).Orderly ∧ (t.prompted o).InStep := ⟨ht.prompted o, hinStep⟩
  have hturn (t : Tool) (k : Turn) (t' : Tool) (ht : t.Orderly) (h : t.turn k = .ok t') :
      t'.Orderly := (turn_advances ht h).orderly
  have hsteady (t : Tool) (c : Command) (u : Tool) (refusal : Option CommandRefusal)
      (hc : ¬ c.PullsApart) (ht : t.Orderly) (hinStep : t.InStep)
      (hhandle : t.handle c = .ok (u, refusal)) : u.InStep :=
    (execute_changes (ht.logged c) hhandle).boards.inStep hc hinStep
  obtain ⟨hdone, horderly, hinStep⟩ := attend_invariant (fun _ ht => ht) hprompt hturn hsteady
    (fun _ _ _ hworld => hworld) ht.orderly ht.inStep h
  refine ⟨hdone, ⟨horderly, hinStep⟩, ?_⟩
  exact attend_avoids (fun _ ht => ht) hprompt hturn hsteady
    (fun t c hc ht hinStep => Settled.not_asksBlind ⟨ht, hinStep⟩ hc)
    (fun t c hc _ _ => not_asksBlind_of_asksNothing hc) ht.orderly ht.inStep h

/-- **The engine knows the board.**  In a tool whose engine was given the board, no intent is
ever refused, the engine's world is the board after each of them, and no command asks the
engine about another board. -/
theorem serve_inStep (board : Board) (options : Options) (rules : RuleSet) (search : TreeSearch)
    (confirms : Bool) (os : List Occasion) :
    (new board (some board) options rules search confirms).Attending
        (fun out => out.refusal = none ∧ out.tool.world = some out.tool.board) os ∧
      (new board (some board) options rules search confirms).Serving (Avoids AsksBlind) os := by
  have hnew : (new board (some board) options rules search confirms).Settled :=
    ⟨orderly_new board (some board) options rules search confirms, rfl⟩
  generalize new board (some board) options rules search confirms = t at hnew
  induction os generalizing t with
  | nil => exact ⟨trivial, trivial⟩
  | cons o os ih =>
      constructor
      · intro out hattend
        obtain ⟨hdone, hsettled, _⟩ := hnew.attend hattend
        exact ⟨⟨hdone, hsettled.inStep⟩, (ih _ hsettled).1⟩
      · intro out hattend
        obtain ⟨_, hsettled, havoids⟩ := hnew.attend hattend
        exact ⟨havoids, (ih _ hsettled).2⟩

end Tool

end CopperRoute
