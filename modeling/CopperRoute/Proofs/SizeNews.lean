import CopperRoute.Proofs.Announcements
import CopperRoute.Proofs.InStep

/-!
# News of sizes

The host is told once of every accepted size command, and of no other command
(`Tool.attend_resizings`).  An intent leads to one such command at most, so that it is told
once of every intent that changes the sizes set by hand, as long as these sizes change by
commands.

They are settings of the board, though, and the history keeps whole boards.  A size command
records none, and so a step through the history that leads over it brings other sizes back,
which the host is not told (`Tool.Reverts`).  These are the only exceptions
(`Tool.serve_tellsSizes_iff`).
-/

namespace CopperRoute

/-- How often the host was told that the sizes in force have changed. -/
def Host.resizings (h : Host) : Nat := h.notifications.count .sizesChanged

theorem Host.resizings_eq (h : Host) : h.resizings = h.news.count .sizesChanged := by
  rw [news, List.count_filter rfl, resizings]

theorem Command.Tidies.resizes {c : Command} (h : c.Tidies) : c.resizes = false := by
  cases h <;> rfl

/-- **At most one** of steady commands is an accepted size command. -/
theorem Steady.countP_resizes {cs : List Command} (h : Steady cs) :
    cs.countP Command.resizes ≤ 1 := by
  have htidy {ds : List Command} (hds : ∀ c ∈ ds, c.Tidies) : ds.countP Command.resizes = 0 := by
    rw [List.countP_eq_zero]
    intro c hc
    simp [(hds c hc).resizes]
  cases h with
  | tidy hrest =>
      rw [htidy hrest]
      exact Nat.zero_le 1
  | lead _ hrest =>
      rw [List.countP_cons, htidy hrest]
      split
      · exact Nat.le_refl 1
      · exact Nat.zero_le 1

namespace Tool

variable {t u t' : Tool} {c : Command} {o : Occasion} {out : IntentOutcome}

/-- **A command** tells of new sizes when it is an accepted size command. -/
theorem execute_resizings {refusal : Option CommandRefusal} (h : t.execute c = .ok (t', refusal)) :
    t'.host.resizings = t.host.resizings + c.resizes.toNat := by
  rw [Host.resizings_eq, Host.resizings_eq]
  cases execute_announces h with
  | nothing hresizes _ _ _ _ hnews => rw [hnews, hresizes]; rfl
  | reset hcommand _ _ _ hnews | undone _ hcommand _ hnews | redone _ hcommand _ hnews =>
      rw [hnews, hcommand]
      rfl
  | resized hresizes _ _ _ hnews =>
      rw [hnews, hresizes, List.count_append]
      rfl
  | landed hcommits _ _ _ hnews | void _ hcommits _ _ _ _ hnews =>
      rw [hnews, hcommits.resizes, List.count_append]
      rfl

/-- **The sizes set by hand** stay when no size command is accepted and the history is left
alone. -/
theorem execute_handSizes {refusal : Option CommandRefusal} (hc : c.resizes = false)
    (hsteady : ¬ c.PullsApart) (h : t.execute c = .ok (t', refusal)) :
    t'.board.design.handSizes = t.board.design.handSizes := by
  cases execute_announces h with
  | nothing _ _ hsizes => exact hsizes
  | reset _ hboard | void _ _ _ hboard => rw [hboard]
  | landed _ hcommit => rw [Board.commit_design hcommit]
  | resized hresizes => cases hc.symm.trans hresizes
  | undone _ hcommand => exact absurd (hcommand ▸ .undo) hsteady
  | redone _ hcommand => exact absurd (hcommand ▸ .redo) hsteady

theorem handleAll_resizings {cs : List Command} (h : t.handleAll cs = .ok out) :
    out.tool.host.resizings = t.host.resizings + out.commands.countP Command.resizes := by
  induction cs generalizing t out with
  | nil =>
      cases h
      rfl
  | cons c cs ih =>
      obtain ⟨⟨u, refusal⟩, hhandle, h⟩ := Checked.bind_eq_ok.mp h
      have hfirst : u.host.resizings = t.host.resizings + c.resizes.toNat :=
        execute_resizings (t := { t with log := t.log.record c }) hhandle
      cases refusal with
      | none =>
          obtain ⟨rest, hrest, h⟩ := Checked.bind_eq_ok.mp h
          cases h
          show rest.tool.host.resizings = _
          rw [ih hrest, hfirst, List.countP_cons]
          cases c.resizes
          · simp
          · simp
            omega
      | some refusal =>
          cases h
          show u.host.resizings = _
          rw [hfirst, List.countP_singleton]
          cases c.resizes <;> rfl

/-- Only the first of the commands are handled when one is refused. -/
theorem prefix_of_handleAll {cs : List Command} (h : t.handleAll cs = .ok out) :
    out.commands <+: cs := by
  induction cs generalizing t out with
  | nil =>
      cases h
      exact List.prefix_rfl
  | cons c cs ih =>
      obtain ⟨⟨u, refusal⟩, _, h⟩ := Checked.bind_eq_ok.mp h
      cases refusal with
      | none =>
          obtain ⟨rest, hrest, h⟩ := Checked.bind_eq_ok.mp h
          cases h
          exact List.prefix_cons_inj c |>.mpr (ih hrest)
      | some refusal =>
          cases h
          exact ⟨cs, rfl⟩

/-- Without a size command and a step through the history, the sizes stay. -/
theorem handleAll_handSizes {cs : List Command} (hsteady : ∀ c ∈ cs, ¬ c.PullsApart)
    (hcs : cs.countP Command.resizes = 0) (h : t.handleAll cs = .ok out) :
    out.tool.board.design.handSizes = t.board.design.handSizes := by
  have hstep (v : Tool) (c : Command) (u : Tool) (refusal : Option CommandRefusal) (hc : c ∈ cs)
      (hv : v.board.design.handSizes = t.board.design.handSizes)
      (hhandle : v.handle c = .ok (u, refusal)) :
      refusal = none ∧ u.board.design.handSizes = t.board.design.handSizes := by
    have hresizes : c.resizes = false := by simpa using List.countP_eq_zero.mp hcs c hc
    have hkept := execute_handSizes hresizes (hsteady c hc) hhandle
    exact ⟨execute_refusal (.inl (hsteady c hc)) hhandle, hkept.trans hv⟩
  exact (handleAll_invariant hstep rfl h).2

/-- What is ended on request is ended by no size command. -/
theorem countP_requested (t : Tool) (o : Occasion) :
    (t.requested o).countP Command.resizes = 0 := by
  unfold requested endRunning
  split
  · split <;> rfl
  · rfl

/-- **Exactly once.**  When the intent changes the sizes set by hand, the host is told once of
new sizes meanwhile. -/
def TellsSizes (t : Tool) (_ : Occasion) (out : IntentOutcome) : Prop :=
  out.tool.board.design.handSizes ≠ t.board.design.handSizes →
    out.tool.host.resizings = t.host.resizings + 1

/-- **Other sizes come back** with a board of the history. -/
def Reverts (t : Tool) (o : Occasion) (out : IntentOutcome) : Prop :=
  (o.intent = .undo ∨ o.intent = .redo) ∧
    out.tool.board.design.handSizes ≠ t.board.design.handSizes

/-- The host is told once for every accepted size command, of which there is one at most. -/
def TellsResizing (t : Tool) (_ : Occasion) (out : IntentOutcome) : Prop :=
  out.tool.host.resizings = t.host.resizings + out.commands.countP Command.resizes ∧
    out.commands.countP Command.resizes ≤ 1

/-- The commands of a course are no size commands. -/
theorem countP_course {c : Command}
    {step : History Board → Board → Option (Board × History Board)} (hc : c.Steps step)
    (t : Tool) : (t.endRunning ++ [.clearWorld, c, .syncWorld]).countP Command.resizes = 0 := by
  unfold endRunning
  cases hc <;> split <;> rfl

/-- **An intent** leads to one accepted size command at most.  When it changes the sizes set by
hand, it leads to one, or it is a course. -/
theorem attend_resizings (h : t.attend o = .ok out) :
    t.TellsResizing o out ∧ (o.intent.course? = none →
        out.tool.board.design.handSizes ≠ t.board.design.handSizes →
          out.commands.countP Command.resizes = 1) ∧
      (o.intent.course? ≠ none → out.commands.countP Command.resizes = 0) := by
  obtain ⟨first, hfirst, hmore⟩ := attend_eq_ok h
  have hnone := t.countP_requested o
  have hsteady := t.requested_steady o
  obtain ⟨hdone, _⟩ := handleAll_invariant (I := fun _ => True)
    (fun _ c _ _ hc _ hhandle => ⟨execute_refusal (.inl (hsteady c hc)) hhandle, trivial⟩)
    trivial hfirst
  have hcommands : first.commands = t.requested o := congrArg IntentOutcome.commands hdone
  have hbefore := handleAll_handSizes hsteady hnone hfirst
  have htold := handleAll_resizings hfirst
  obtain ⟨cs, second, hcs, hsecond, rfl⟩ := hmore (congrArg IntentOutcome.refusal hdone)
  have hlast := handleAll_resizings hsecond
  simp only [TellsResizing, List.countP_append, hcommands, hnone, Nat.zero_add]
  rw [hcommands, hnone] at htold
  rw [htold] at hlast
  cases hcourse : o.intent.course? with
  | none =>
      have hlist := steady_commandsFor hcourse hcs
      obtain ⟨hall, _⟩ := handleAll_invariant (I := fun _ => True)
        (fun _ c _ _ hc _ hhandle =>
          ⟨execute_refusal (.inl (hlist.not_pullsApart c hc)) hhandle, trivial⟩) trivial hsecond
      have hsame : second.commands = cs := congrArg IntentOutcome.commands hall
      have honce := hlist.countP_resizes
      rw [hsame] at hlast ⊢
      refine ⟨⟨hlast, honce⟩, fun _ hchanged => ?_, fun hsome => absurd rfl hsome⟩
      -- without any size command the sizes would have stayed
      have hsome : cs.countP Command.resizes ≠ 0 := fun hzero =>
        hchanged ((handleAll_handSizes hlist.not_pullsApart hzero hsecond).trans hbefore)
      omega
  | some c =>
      obtain ⟨step, hc⟩ := Intent.steps_of_course hcourse
      cases (first.tool.commandsFor_course hcourse).symm.trans hcs
      have hzero : second.commands.countP Command.resizes = 0 := by
        rw [← Nat.le_zero, ← countP_course hc first.tool]
        exact (prefix_of_handleAll hsecond).sublist.countP_le
      rw [hzero] at hlast ⊢
      exact ⟨⟨hlast, Nat.zero_le 1⟩, nofun, fun _ => rfl⟩

/-- **The host is told of other sizes** exactly when they have not come back with a board. -/
theorem attend_tellsSizes_iff (h : t.attend o = .ok out) :
    t.TellsSizes o out ↔ ¬ t.Reverts o out := by
  obtain ⟨⟨htold, _⟩, hedited, hcourse⟩ := attend_resizings h
  constructor
  · rintro htells ⟨hintent, hchanged⟩
    have hnone : out.commands.countP Command.resizes = 0 := by
      refine hcourse ?_
      rcases hintent with hintent | hintent <;> rw [hintent] <;> exact Option.some_ne_none _
    have honce := htells hchanged
    omega
  · intro hkept hchanged
    have hnone : o.intent.course? = none := by
      refine Intent.course?_eq_none (fun hundo => ?_) (fun hredo => ?_)
      · exact hkept ⟨.inl hundo, hchanged⟩
      · exact hkept ⟨.inr hredo, hchanged⟩
    rw [htold, hedited hnone hchanged]

/-- `R` relates the tool as every occasion of the service finds it to what becomes of it. -/
def Attends (R : Tool → Occasion → IntentOutcome → Prop) (t : Tool) : List Occasion → Prop
  | [] => True
  | o :: os => ∀ out, t.attend o = .ok out → R t o out ∧ out.tool.Attends R os

/-- What every occasion yields, every service yields. -/
theorem attends_of_forall {R : Tool → Occasion → IntentOutcome → Prop}
    (hR : ∀ t o out, t.attend o = .ok out → R t o out) (t : Tool) (os : List Occasion) :
    t.Attends R os := by
  induction os generalizing t with
  | nil => trivial
  | cons o os ih => exact fun out h => ⟨hR t o out h, ih out.tool⟩

theorem attends_congr {R S : Tool → Occasion → IntentOutcome → Prop}
    (hRS : ∀ t o out, t.attend o = .ok out → (R t o out ↔ S t o out)) (t : Tool)
    (os : List Occasion) : t.Attends R os ↔ t.Attends S os := by
  induction os generalizing t with
  | nil => exact Iff.rfl
  | cons o os ih =>
      refine forall_congr' fun out => imp_congr_right fun h => ?_
      exact and_congr (hRS t o out h) (ih out.tool)

/-- **News of sizes.**  Throughout every service the host is told once of each accepted size
command.  It is told exactly once of each intent that changes the sizes set by hand exactly as
long as no undo and no redo brings a board with other sizes back. -/
theorem serve_tellsSizes_iff (t : Tool) (os : List Occasion) :
    t.Attends TellsResizing os ∧
      (t.Attends TellsSizes os ↔ t.Attends (fun t o out => ¬ t.Reverts o out) os) :=
  ⟨attends_of_forall (fun _ _ _ h => (attend_resizings h).1) t os,
    attends_congr (fun _ _ _ h => attend_tellsSizes_iff h) t os⟩

/-- A track is routed, another width is set, and the track is undone. -/
def resizeAndUndo : List Occasion :=
  [⟨.click ⟨0, 0⟩ false false, true, false⟩, ⟨.doubleClick ⟨1000000, 0⟩, true, false⟩,
    ⟨.setCustomTrackWidth 300000, true, false⟩, ⟨.undo, true, false⟩]

/-- The board from before the track has the old width, and nobody tells. -/
theorem serve_not_tellsSizes :
    ¬ (launch Board.standard Options.standard [] true).Attends TellsSizes resizeAndUndo := by
  intro htells
  obtain ⟨_, htells⟩ := htells _ (by rfl)
  obtain ⟨_, htells⟩ := htells _ (by rfl)
  obtain ⟨_, htells⟩ := htells _ (by rfl)
  obtain ⟨hundo, _⟩ := htells _ (by rfl)
  have honce := hundo (by decide)
  exact absurd honce (by decide)

end Tool

end CopperRoute
