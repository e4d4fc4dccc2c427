import CopperRoute.Proofs.Attending

/-!
# Undoing an intent

An intent that is no course commits at most once, and a commit keeps the board that was
there before.  So one intent records at most one board, and exactly one when the items of
the board change: design settings, which change without a record, leave the items alone.

Undoing first ends what the intent has left running.  That would commit fixed steps, but when
the items have changed there are none: a route that runs then was begun after the commit, by
the same command.  So the course back finds the recorded board on top of the history and
brings it back exactly, and the course forth does the same for the board that it left
(`reached_undoable`).
-/

namespace CopperRoute

namespace History

variable {α : Type} {h h' : History α} {a b : α}

/-- **A recorded state comes back**, and the one that was left for it, too. -/
theorem undo_redo_of_record (hrecord : h.record a = .ok h') :
    ∃ back, h'.undo b = some (a, back) ∧ ∃ forth, back.redo a = some (b, forth) := by
  unfold record at hrecord
  split at hrecord
  · cases hrecord
  · next hcapacity =>
      cases hrecord
      obtain ⟨n, hn⟩ := Nat.exists_eq_succ_of_ne_zero hcapacity
      simp [undo, redo, push, hn]

end History

namespace Tool

variable {t u t' : Tool} {o : Occasion} {out : IntentOutcome}

/-- The boards and what is staged stay. -/
structure KeepsStaged (t t' : Tool) : Prop where
  board : t'.board = t.board
  history : t'.history = t.history
  staged : t'.stagedChanges? = t.stagedChanges?

theorem KeepsStaged.trans (htu : t.KeepsStaged u) (huv : u.KeepsStaged t') : t.KeepsStaged t' :=
  ⟨huv.board.trans htu.board, huv.history.trans htu.history, huv.staged.trans htu.staged⟩

/-- **Tidying up** changes neither. -/
theorem handleAll_tidies {cs : List Command} (hcs : ∀ c ∈ cs, c.Tidies)
    (h : t.handleAll cs = .ok out) : t.KeepsStaged out.tool := by
  have hstep (v : Tool) (c : Command) (u : Tool) (refusal : Option CommandRefusal) (hc : c ∈ cs)
      (hv : t.KeepsStaged v) (hhandle : v.handle c = .ok (u, refusal)) :
      refusal = none ∧ t.KeepsStaged u := by
    cases hcs c hc with
    | resetSession | syncWorld =>
        cases hhandle
        exact ⟨rfl, hv.trans ⟨rfl, rfl, rfl⟩⟩
  exact (handleAll_invariant hstep ⟨rfl, rfl, rfl⟩ h).2

/-- **A steady command** records the board at most once; it records it, and leaves nothing
staged, when the items change. -/
structure Records (t t' : Tool) : Prop where
  once : t'.history = t.history ∨ t.history.record t.board = .ok t'.history
  changed : t'.board.items ≠ t.board.items →
    t.history.record t.board = .ok t'.history ∧ t'.stagedChanges? = none

theorem Records.trans_keepsStaged (h : t.Records u) (hkeeps : u.KeepsStaged t') : t.Records t' := by
  refine ⟨?_, ?_⟩
  · rw [hkeeps.history]
    exact h.once
  · rw [hkeeps.board, hkeeps.history, hkeeps.staged]
    exact h.changed

/-- What keeps items and history records nothing. -/
theorem records_of_kept (hitems : t'.board.items = t.board.items)
    (hhistory : t'.history = t.history) : t.Records t' :=
  ⟨.inl hhistory, fun hchanged => absurd hitems hchanged⟩

/-- A route that runs when the items have changed was begun after that. -/
theorem staged_of_changed {c : Command} {refusal : Option CommandRefusal} (ht : t.Orderly)
    (h : t.execute c = .ok (t', refusal)) (hchanged : t'.board.items ≠ t.board.items) :
    t'.stagedChanges? = none := by
  cases hroute : t'.session.route? with
  | none =>
      rw [stagedChanges?, hroute]
      rfl
  | some op =>
      cases execute_reroutes ht hroute h with
      | began _ _ hopens _ =>
          rw [stagedChanges?, hroute, hopens.fresh]
          rfl
      | changed _ _ _ hitems => exact absurd hitems hchanged

theorem execute_records {c : Command} {refusal : Option CommandRefusal} (hc : ¬ c.PullsApart)
    (ht : t.Orderly) (h : t.execute c = .ok (t', refusal)) : t.Records t' := by
  cases (execute_changes ht h).boards.way with
  | kept hboard hhistory | loaded hboard _ hhistory =>
      exact records_of_kept (by rw [hboard]) hhistory
  | committed _ _ hrecord =>
      exact ⟨.inr hrecord, fun hchanged => ⟨hrecord, staged_of_changed ht h hchanged⟩⟩
  | unloaded _ _ _ hcommand => exact absurd (hcommand ▸ .clearWorld) hc
  | undone _ _ hcommand _ => exact absurd (hcommand ▸ .undo) hc
  | redone _ _ hcommand _ => exact absurd (hcommand ▸ .redo) hc

/-- **So do steady commands** together: only the first of them can record. -/
theorem handleAll_records {cs : List Command} (hcs : Steady cs) (ht : t.Orderly)
    (h : t.handleAll cs = .ok out) : t.Records out.tool := by
  cases hcs with
  | tidy hrest =>
      have hkeeps := handleAll_tidies hrest h
      exact records_of_kept (by rw [hkeeps.board]) hkeeps.history
  | lead hlead hrest =>
      obtain ⟨⟨u, refusal⟩, hhandle, h⟩ := Checked.bind_eq_ok.mp h
      have hrecords := execute_records hlead (ht.logged _) hhandle
      cases execute_refusal (.inl hlead) hhandle
      obtain ⟨rest, hrests, h⟩ := Checked.bind_eq_ok.mp h
      cases h
      have hkeeps := handleAll_tidies hrest hrests
      exact Records.trans_keepsStaged ⟨hrecords.once, hrecords.changed⟩ hkeeps

/-- An idle tool has nothing staged. -/
theorem Orderly.staged_of_idle (ht : t.Orderly) (hidle : t.session.isIdle = true) :
    t.stagedChanges? = none := by
  have hnone := ht.operation_of_idle hidle
  rw [stagedChanges?, Session.route?_of_none hnone]
  rfl

/-- A tool with nothing staged can be interrupted on request. -/
theorem handleAll_requested (ht : t.Orderly) (hnone : t.stagedChanges? = none) (o : Occasion) :
    ∃ u, (t.prompted o).handleAll (t.requested o) = .ok ⟨u, t.requested o, none⟩ ∧
      u.board = t.board ∧ u.history = t.history ∧ u.Orderly ∧ u.stagedChanges? = none := by
  unfold requested
  split
  · obtain ⟨u, hended, hsame, hidle⟩ := handleAll_endRunning (ht.prompted o) hnone
    have hu := run_orderly (ht.prompted o) (handleAll_run hended)
    exact ⟨u, hended, hsame.board, hsame.history, hu, hu.staged_of_idle hidle⟩
  · exact ⟨t.prompted o, rfl, rfl, rfl, ht.prompted o, hnone⟩

/-- **A course can always be attended to** when nothing is staged, and takes its step from
the board and the history that it finds. -/
theorem attend_course {c : Command} {step : History Board → Board → Option (Board × History Board)}
    (ht : t.Orderly) (hnone : t.stagedChanges? = none) (hcourse : o.intent.course? = some c)
    (hc : c.Steps step) :
    ∃ out, t.attend o = .ok out ∧ out.refusal = none ∧ out.tool.Orderly ∧
      out.tool.stagedChanges? = none ∧
      (out.tool.board, out.tool.history) = (step t.history t.board).getD (t.board, t.history) := by
  obtain ⟨u, hrequested, hboard, hhistory, hu, hnone'⟩ := handleAll_requested ht hnone o
  obtain ⟨v, hended, hsame, hidle⟩ := handleAll_endRunning hu hnone'
  obtain ⟨w, hstepped, _, hsession, hboards⟩ := handleAll_course hc hidle
  have hcommands := handleAll_append_of hended hstepped
  have hattend := attend_of hrequested (u.commandsFor_course hcourse) hcommands
  have hw : w.Orderly := run_orderly hu (handleAll_run hcommands)
  -- the step itself leaves the session alone
  refine ⟨_, hattend, rfl, hw, hw.staged_of_idle ?_, ?_⟩
  · rw [hsession]
    exact hidle
  · rw [hboards, hsame.board, hsame.history, hboard, hhistory]

/-- What commands and intents lead to, in any order. -/
inductive Reaches (first : Tool) : Tool → Prop
  | start : Reaches first first
  | turn {t t' : Tool} {k : Turn} (h : Reaches first t) (hturn : t.turn k = .ok t') :
      Reaches first t'
  | attend {t : Tool} {o : Occasion} {out : IntentOutcome} (h : Reaches first t)
      (hattend : t.attend o = .ok out) : Reaches first out.tool

/-- **What every turn keeps**, and the beginning of an occasion, holds in every reachable
state. -/
theorem Reaches.invariant {I : Tool → Prop} {first : Tool} (h : first.Reaches t)
    (hprompt : ∀ t o, I t → I (t.prompted o))
    (hturn : ∀ t k t', I t → t.turn k = .ok t' → I t') (hfirst : I first) : I t := by
  induction h with
  | start => exact hfirst
  | turn _ hstep ih => exact hturn _ _ _ ih hstep
  | attend _ hattend ih => exact run_invariant hturn (hprompt _ _ ih) (attend_run hattend)

theorem Reaches.orderly {first : Tool} (h : first.Reaches t) (hfirst : first.Orderly) :
    t.Orderly :=
  h.invariant (fun _ o ht => ht.prompted o) (fun _ _ _ ht hturn => (turn_advances ht hturn).orderly)
    hfirst

/-- A run leads to reachable states. -/
theorem Reaches.run {first : Tool} (h : first.Reaches t) {ks : List Turn}
    (hrun : t.run ks = .ok u) : first.Reaches u :=
  run_invariant (fun _ _ _ ht hturn => ht.turn hturn) h hrun

/-- So does a command by itself. -/
theorem Reaches.handle {first : Tool} (h : first.Reaches t) {c : Command}
    {refusal : Option CommandRefusal} (hhandle : t.handle c = .ok (u, refusal)) :
    first.Reaches u := by
  have hturn : t.turn ⟨c, t.host.confirms⟩ = .ok u := by
    rw [turn_own, hhandle]
    rfl
  exact h.turn hturn

/-- So do commands in a row. -/
theorem Reaches.handleAll {first : Tool} (h : first.Reaches t) {cs : List Command}
    (hall : t.handleAll cs = .ok out) : first.Reaches out.tool :=
  h.run (handleAll_run hall)

/-- So does a service. -/
theorem Reaches.serve {first : Tool} (h : first.Reaches t) {os : List Occasion}
    (hserve : t.serve os = .ok u) : first.Reaches u := by
  induction os generalizing t with
  | nil =>
      cases hserve
      exact h
  | cons o os ih =>
      obtain ⟨out, hattend, hrest⟩ := serve_cons_eq_ok.mp hserve
      exact ih (h.attend hattend) hrest

/-- **Undoing an intent.**  In every reachable state, without a request to break off, an
intent that is no course records at most one board.  When it changes the items of the board,
it records exactly one; then undoing it restores the board from before, and redoing it the
board from after. -/
theorem reached_undoable {board : Board} {world : World} {options : Options} {rules : RuleSet}
    {search : TreeSearch} {confirms : Bool}
    (hreached : (new board world options rules search confirms).Reaches t)
    (hnothing : t.cancelRequested = false) (hrequest : o.cancels = false)
    (hback : o.intent ≠ .undo) (hforth : o.intent ≠ .redo) (hattend : t.attend o = .ok out) :
    (out.tool.history = t.history ∨ t.history.record t.board = .ok out.tool.history) ∧
      (out.tool.board.items ≠ t.board.items →
        t.history.record t.board = .ok out.tool.history ∧
          ∀ o₁ o₂, o₁.intent = .undo → o₂.intent = .redo →
            ∃ undone, out.tool.attend o₁ = .ok undone ∧ undone.refusal = none ∧
              undone.tool.board = t.board ∧
              ∃ redone, undone.tool.attend o₂ = .ok redone ∧ redone.refusal = none ∧
                redone.tool.board = out.tool.board) := by
  have ht := hreached.orderly (orderly_new board world options rules search confirms)
  have hcourse := Intent.course?_eq_none hback hforth
  obtain ⟨first, hfirst, hmore⟩ := attend_eq_ok hattend
  have hnone : t.requested o = [] := by rw [requested, hnothing, hrequest]; rfl
  rw [hnone] at hfirst
  cases hfirst
  obtain ⟨cs, second, hcs, hsecond, rfl⟩ := hmore rfl
  have hrecords := handleAll_records (steady_commandsFor hcourse hcs) (ht.prompted o) hsecond
  have horderly := run_orderly (ht.prompted o) (handleAll_run hsecond)
  refine ⟨hrecords.once, ?_⟩
  intro hchanged
  -- nothing is staged now, so what runs can be ended without another commit
  obtain ⟨hrecord, hstaged⟩ := hrecords.changed hchanged
  refine ⟨hrecord, ?_⟩
  intro o₁ o₂ hundo hredo
  obtain ⟨back, hstepped, forth, hreturned⟩ := History.undo_redo_of_record hrecord
  obtain ⟨undone, hattend₁, hdone₁, horderly₁, hstaged₁, hboards₁⟩ :=
    attend_course horderly hstaged (o := o₁) (by rw [hundo]; rfl) .undo
  rw [hstepped] at hboards₁
  obtain ⟨hboard₁, hhistory₁⟩ := Prod.mk.inj hboards₁
  obtain ⟨redone, hattend₂, hdone₂, _, _, hboards₂⟩ :=
    attend_course horderly₁ hstaged₁ (o := o₂) (by rw [hredo]; rfl) .redo
  rw [hboard₁, hhistory₁, hreturned] at hboards₂
  exact ⟨undone, hattend₁, hdone₁, hboard₁, redone, hattend₂, hdone₂,
    (Prod.mk.inj hboards₂).1⟩

/-- A route is begun, and one head of it is fixed. -/
def fixOneHead : List Occasion :=
  [⟨.click ⟨0, 0⟩ false false, true, false⟩, ⟨.click ⟨1000000, 0⟩ false false, true, false⟩]

/-- A new activation breaks the route off.  Undoing that takes its copper from the board, and
redoing it puts it back. -/
theorem reached_undoable_activation :
    ∃ t out undone redone,
      (launch Board.standard Options.standard [] true).serve fixOneHead = .ok t ∧
        t.cancelRequested = false ∧
        t.attend ⟨.activate, true, false⟩ = .ok out ∧ out.tool.board.items.length = 1 ∧
        out.tool.attend ⟨.undo, true, false⟩ = .ok undone ∧
        undone.tool.board = Board.standard ∧
        undone.tool.attend ⟨.redo, true, false⟩ = .ok redone ∧
        redone.tool.board = out.tool.board := by
  obtain ⟨t, out, hserve, hnothing, hattend, hbefore, hafter⟩ : ∃ t out,
      (launch Board.standard Options.standard [] true).serve fixOneHead = .ok t ∧
        t.cancelRequested = false ∧ t.attend ⟨.activate, true, false⟩ = .ok out ∧
        t.board = Board.standard ∧ out.tool.board.items.length = 1 :=
    ⟨_, _, by rfl, by rfl, by rfl, by rfl, by rfl⟩
  have hchanged : out.tool.board.items ≠ t.board.items := by
    intro hsame
    rw [hsame, hbefore] at hafter
    cases hafter
  obtain ⟨_, hrestores⟩ :=
    (reached_undoable (Reaches.start.serve hserve) hnothing rfl (by decide) (by decide)
      hattend).2 hchanged
  obtain ⟨undone, hundo, _, hboard, redone, hredo, _, hback⟩ :=
    hrestores ⟨.undo, true, false⟩ ⟨.redo, true, false⟩ rfl rfl
  exact ⟨t, out, undone, redone, hserve, hnothing, hattend, hafter, hundo, hboard.trans hbefore,
    hredo, hback⟩

end Tool

end CopperRoute
