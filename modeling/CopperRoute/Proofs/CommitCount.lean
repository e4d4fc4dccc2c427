import CopperRoute.Proofs.CommitReports

/-!
# The count of commits

The session counts the commits since the tool was activated, and an operation that is broken
off is marked as cancelled when there were none.  The count is kept by the callers of a
commit, and one of them does not: breaking a track changes the board, but does not count.

What there was to count is the **tally** (`Tool.tally`), which is read off the boards: every
command that changes the items of the board, other than by going through the history, is an
edit.  The count is that of the edits without those that broke a track
(`Tool.serve_accounts`).
-/

namespace CopperRoute

/-- Does the command break a track? -/
def Command.breaks : Command → Bool
  | breakTrack _ => true
  | _ => false

/-- Only broken tracks do not count. -/
theorem Command.counted_add_breaks (c : Command) : c.counted + c.breaks.toNat = 1 := by
  cases c <;> rfl

/-- **The edits since the last activation.** -/
structure EditTally where
  /-- How often a command changed the items of the board. -/
  edits : Nat
  /-- How often that was breaking a track. -/
  breaks : Nat
  deriving DecidableEq, Repr, Inhabited

namespace EditTally

variable {n : EditTally} {t t' : Tool} {c : Command}

/-- The tally behind a command that found one tool and left the other. -/
def after (n : EditTally) (t : Tool) (c : Command) (t' : Tool) : EditTally :=
  if c = .resetSession then ⟨0, 0⟩
  else if c = .undo ∨ c = .redo ∨ t'.board.items = t.board.items then n
  else ⟨n.edits + 1, n.breaks + c.breaks.toNat⟩

/-- Nothing is an edit that leaves the items, or goes through the history. -/
theorem after_of_kept (hreset : c ≠ .resetSession)
    (h : c = .undo ∨ c = .redo ∨ t'.board.items = t.board.items) : n.after t c t' = n := by
  rw [after, if_neg hreset, if_pos h]

/-- Everything else is. -/
theorem after_of_edited (hreset : c ≠ .resetSession) (hundo : c ≠ .undo) (hredo : c ≠ .redo)
    (hitems : t'.board.items ≠ t.board.items) :
    n.after t c t' = ⟨n.edits + 1, n.breaks + c.breaks.toNat⟩ := by
  rw [after, if_neg hreset, if_neg]
  rintro (hc | hc | hsame)
  · exact hundo hc
  · exact hredo hc
  · exact hitems hsame

/-- The tally stays when there is no edit. -/
theorem after_eq_iff (hreset : c ≠ .resetSession) :
    n.after t c t' = n ↔ (n.after t c t').edits = n.edits := by
  refine ⟨congrArg edits, fun hedits => ?_⟩
  rw [after, if_neg hreset] at hedits ⊢
  split at hedits
  · next hkept => rw [if_pos hkept]
  · simp only at hedits
    omega

/-- Other commands break no track. -/
theorem breaks_after (hreset : c ≠ .resetSession) (hbreaks : c.breaks = false) :
    (n.after t c t').breaks = n.breaks := by
  rw [after, if_neg hreset, hbreaks]
  split <;> rfl

end EditTally

/-- An operation that is broken off is marked when nothing was committed, and stays marked. -/
theorem Session.cancelled_brokenOff (s : Session) :
    s.brokenOff.cancelled = true ↔ s.committed = 0 ∨ s.cancelled = true := by
  by_cases hnone : s.committed = 0 <;> simp [brokenOff, enter, hnone]

namespace Tool

variable {t t' : Tool} {c : Command} {n : EditTally} {refusal : Option CommandRefusal}

/-- The tally behind turns. -/
def tallied (t : Tool) (n : EditTally) : List Turn → EditTally
  | [] => n
  | k :: ks =>
    match t.turn k with
    | .ok u => u.tallied (n.after t k.command u) ks
    | .error _ => n

/-- **The tally** behind a service. -/
def tally (t : Tool) (n : EditTally) : List Occasion → EditTally
  | [] => n
  | o :: os =>
    match t.attend o with
    | .ok out => out.tool.tally ((t.prompted o).tallied n ((t.prompted o).turnsFor out.commands)) os
    | .error _ => n

/-- The session has counted all edits but the broken tracks. -/
def Counts (t : Tool) (n : EditTally) : Prop := t.session.committed + n.breaks = n.edits

/-- Nothing that can be committed steps through the history or activates the tool. -/
theorem Commits.edits {changes : Changeset} (h : t.Commits c changes) :
    c ≠ .resetSession ∧ c ≠ .undo ∧ c ≠ .redo := by
  cases h with
  | staged _ hinterrupts => cases hinterrupts <;> exact ⟨nofun, nofun, nofun⟩
  | finished | dragged | broken => exact ⟨nofun, nofun, nofun⟩

/-- **Every command** keeps count. -/
theorem execute_counts (hb : t.board.Numbered) (hfresh : ¬ t.FixesStale c) (hn : t.Counts n)
    (h : t.execute c = .ok (t', refusal)) : t'.Counts (n.after t c t') := by
  by_cases hreset : c = .resetSession
  · subst hreset
    cases h
    rfl
  have hkept (hleft : c = .undo ∨ c = .redo ∨ t'.board.items = t.board.items)
      (hcommitted : t'.session.committed = t.session.committed) : t'.Counts (n.after t c t') := by
    rw [Counts, EditTally.after_of_kept hreset hleft, hcommitted]
    exact hn
  cases execute_announces h with
  | nothing _ hitems _ _ hcommitted | resized _ hitems _ hcommitted =>
      exact hkept (.inr (.inr hitems)) hcommitted
  | reset hcommand => exact absurd hcommand hreset
  | void _ _ _ hboard _ hcommitted => exact hkept (.inr (.inr (by rw [hboard]))) hcommitted
  | undone _ hcommand hcommitted => exact hkept (.inl hcommand) hcommitted
  | redone _ hcommand hcommitted => exact hkept (.inr (.inl hcommand)) hcommitted
  | landed hcommits hcommit _ hcommitted =>
      have haccepted := (Board.commit_eq_applied hcommit).1
      have hitems : t'.board.items ≠ t.board.items :=
        (hb.commit_extends hcommits.removed hcommit).items_ne hcommits.removed
          (fun i => hcommits.other hb haccepted hfresh) (Board.not_isEmpty_of_applied hcommit)
      obtain ⟨_, hundo, hredo⟩ := hcommits.edits
      rw [Counts, EditTally.after_of_edited hreset hundo hredo hitems, hcommitted]
      have hone := c.counted_add_breaks
      unfold Counts at hn
      simp only
      omega

/-- **The invariant.**  All boards are numbered, and the session keeps count. -/
structure KeepsCount (n : EditTally) (t : Tool) : Prop extends t.WellNumbered where
  counts : t.Counts n

theorem KeepsCount.prompted (ht : t.KeepsCount n) (o : Occasion) : (t.prompted o).KeepsCount n :=
  ⟨ht.toWellNumbered.prompted o, ht.counts⟩

theorem turn_keepsCount {k : Turn} (ht : t.KeepsCount n)
    (hfresh : ¬ (t.ready k).FixesStale k.command) (h : t.turn k = .ok t') :
    t'.KeepsCount (n.after t k.command t') := by
  obtain ⟨refusal, hexecute⟩ := turn_eq_ok.mp h
  have hb : (t.ready k).board.Numbered := ht.board
  exact ⟨turn_wellNumbered ht.toWellNumbered h,
    execute_counts (t := t.ready k) hb hfresh ht.counts hexecute⟩

theorem run_keepsCount {ks : List Turn} (ht : t.KeepsCount n) (hfresh : t.Avoids FixesStale ks)
    (h : t.run ks = .ok t') : t'.KeepsCount (t.tallied n ks) := by
  induction ks generalizing t n with
  | nil =>
      cases h
      exact ht
  | cons k ks ih =>
      obtain ⟨u, hturn, hrest⟩ := run_cons_eq_ok.mp h
      obtain ⟨hgood, hlater⟩ := hfresh u hturn
      rw [tallied, hturn]
      exact ih (turn_keepsCount ht hgood hturn) hlater hrest

theorem serve_keepsCount {os : List Occasion} (ht : t.KeepsCount n)
    (hfresh : t.Serving (Avoids FixesStale) os) (h : t.serve os = .ok t') :
    t'.KeepsCount (t.tally n os) := by
  induction os generalizing t n with
  | nil =>
      cases h
      exact ht
  | cons o os ih =>
      obtain ⟨out, hattend, hrest⟩ := serve_cons_eq_ok.mp h
      obtain ⟨hgood, hlater⟩ := hfresh out hattend
      rw [tally, hattend]
      exact ih (run_keepsCount (ht.prompted o) hgood (attend_run hattend)) hlater hrest

/-- **Ending an operation** marks it when nothing was committed, also not by ending it. -/
theorem stopOperation_cancelled {stopped : Bool} (hruns : t.session.operation.isNone = false)
    (h : t.stopOperation = .ok (t', stopped)) :
    stopped = true ∧ (t'.session.cancelled = true ↔ t'.session.committed = 0 ∨
      (t.session.cancelled = true ∧ t'.session.committed = t.session.committed)) := by
  obtain ⟨u, hstaged, h⟩ := Checked.bind_eq_ok.mp h
  have hsession : u.session = t.session ∨ u.session = t.session.recordCommit := by
    unfold commitStaged at hstaged
    split at hstaged
    · cases hstaged
      exact .inl rfl
    · obtain ⟨⟨r, v⟩, hcommit, hstaged⟩ := Checked.bind_eq_ok.mp hstaged
      have hsame := commit_session hcommit
      cases r with
      | ok report =>
          cases hstaged
          exact .inr (congrArg Session.recordCommit hsame)
      | error reason =>
          cases hstaged
          exact .inl hsame
  have hruns' : u.session.operation.isNone = false := by
    rcases hsession with hsame | hrecorded
    · rw [hsame]
      exact hruns
    · rw [hrecorded]
      exact hruns
  have hbroken : u.toInteraction.cancel = (⟨u.session.brokenOff, u.releasedHost⟩, true) := by
    rw [Interaction.cancel, hruns']
    rfl
  rw [hbroken] at h
  cases h
  refine ⟨rfl, ?_⟩
  show u.session.brokenOff.cancelled = true ↔ u.session.brokenOff.committed = 0 ∨
    (t.session.cancelled = true ∧ u.session.brokenOff.committed = t.session.committed)
  rw [Session.cancelled_brokenOff, Session.committed_brokenOff]
  rcases hsession with hsame | hrecorded
  · rw [hsame]
    simp
  · rw [hrecorded]
    simp [Session.recordCommit]

/-- **Cancelling** what runs. -/
theorem cancelOperation_cancelled (horderly : t.Orderly) (hruns : t.session.isIdle = false)
    (h : t.cancelOperation = .ok t') :
    t'.session.cancelled = true ↔ t'.session.committed = 0 ∨
      (t.session.cancelled = true ∧ t'.session.committed = t.session.committed) := by
  obtain ⟨⟨u, stopped⟩, hstop, h⟩ := Checked.bind_eq_ok.mp h
  have hsome : t.session.operation.isNone = false := by
    cases hop : t.session.operation with
    | none =>
        have hrest := horderly.rest
        rw [hop] at hrest
        rw [Session.isIdle, hrest] at hruns
        cases hruns
    | routing | dragging => rfl
  obtain ⟨hstopped, hmarked⟩ :=
    stopOperation_cancelled (t := t.mapSession fun s => { s with pendingViaTarget := none })
      hsome hstop
  subst hstopped
  cases h
  exact hmarked

/-- **The session accounts for the tally.**  It has counted all edits but broken tracks.  When
what runs is cancelled, and was not marked already, it is marked exactly when all edits, also
that of cancelling, are broken tracks. -/
structure Accounts (t : Tool) (n : EditTally) : Prop where
  counts : t.Counts n
  marks : ∀ confirms t', t.session.isIdle = false →
    t.turn ⟨.cancelOperation, confirms⟩ = .ok t' →
    (t'.session.cancelled = true ↔
      (n.after t .cancelOperation t').edits = (n.after t .cancelOperation t').breaks ∨
        (t.session.cancelled = true ∧ n.after t .cancelOperation t' = n))

theorem KeepsCount.accounts (ht : t.KeepsCount n) : t.Accounts n := by
  refine ⟨ht.counts, fun confirms t' hruns hturn => ?_⟩
  have hbefore := ht.counts
  have hafter : t'.Counts (n.after t .cancelOperation t') :=
    (turn_keepsCount ht (by rintro ⟨⟩) hturn).counts
  obtain ⟨refusal, h⟩ := turn_eq_ok.mp hturn
  have hmarked := cancelOperation_cancelled (ht.orderly.ready ⟨.cancelOperation, confirms⟩) hruns
    (Checked.of_tagged h)
  have hnone : t'.session.committed = 0 ↔
      (n.after t .cancelOperation t').edits = (n.after t .cancelOperation t').breaks := by
    unfold Counts at hafter
    omega
  have hsame : t'.session.committed = t.session.committed ↔ n.after t .cancelOperation t' = n := by
    have hbreaks : (n.after t .cancelOperation t').breaks = n.breaks :=
      EditTally.breaks_after (by decide) rfl
    rw [EditTally.after_eq_iff (by decide)]
    unfold Counts at hbefore hafter
    omega
  rw [hmarked, hnone]
  exact or_congr_right (and_congr_right' hsame)

/-- **The count of commits** is, in every state that a service leads to, that of all edits but
the broken tracks, as long as no stale drag is fixed; so it is that of the edits exactly when no
track was broken since the activation.  No stale drag is fixed when the engine knows no other
board at first. -/
theorem serve_accounts {board : Board} (hboard : board.Numbered) (world : World)
    (options : Options) (rules : RuleSet) (search : TreeSearch) (confirms : Bool)
    (os : List Occasion) :
    ((new board world options rules search confirms).Serving (Avoids FixesStale) os → ∀ t,
        (new board world options rules search confirms).serve os = .ok t →
        t.Accounts ((new board world options rules search confirms).tally ⟨0, 0⟩ os) ∧
          (t.session.committed =
              ((new board world options rules search confirms).tally ⟨0, 0⟩ os).edits ↔
            ((new board world options rules search confirms).tally ⟨0, 0⟩ os).breaks = 0)) ∧
      ((∀ b, world = some b → b = board) →
        (new board world options rules search confirms).Serving (Avoids FixesStale) os) := by
  have hnew : (new board world options rules search confirms).KeepsCount ⟨0, 0⟩ :=
    ⟨wellNumbered_new hboard world options rules search confirms, rfl⟩
  constructor
  · intro hfresh t hserve
    have hkeeps := serve_keepsCount hnew hfresh hserve
    refine ⟨hkeeps.accounts, ?_⟩
    have hcounts := hkeeps.counts
    unfold Counts at hcounts
    omega
  · intro hknown
    exact serving_fixesNothingStale hboard hknown options rules search confirms os

/-- A route is broken off behind its first track, and that track is dragged away. -/
def routeAndDrag : List Occasion :=
  [⟨.click ⟨0, 0⟩ false false, true, false⟩, ⟨.click ⟨1000000, 0⟩ false false, true, false⟩,
    ⟨.cancel, true, false⟩, ⟨.dragSelection [1] ⟨0, 0⟩ true, true, false⟩,
    ⟨.motion ⟨0, 500000⟩ false, true, false⟩, ⟨.click ⟨0, 500000⟩ false false, true, false⟩]

/-- Both are edits, and both are counted. -/
theorem serve_accounts_drag :
    Board.standard.Numbered ∧ (∀ b, (some Board.standard : World) = some b → b = Board.standard) ∧
      ∃ t, (launch Board.standard Options.standard [] true).serve routeAndDrag = .ok t ∧
        t.Accounts ⟨2, 0⟩ ∧ t.session.committed = 2 := by
  have hboard : Board.standard.Numbered := Board.numbered_ofFile (f := BoardFile.standard) rfl
  have hknown : ∀ b, (some Board.standard : World) = some b → b = Board.standard :=
    fun b hb => (Option.some.inj hb).symm
  obtain ⟨t, hserve⟩ : ∃ t,
      (launch Board.standard Options.standard [] true).serve routeAndDrag = .ok t := ⟨_, by rfl⟩
  have htally : (launch Board.standard Options.standard [] true).tally ⟨0, 0⟩
      routeAndDrag = ⟨2, 0⟩ := by rfl
  obtain ⟨haccount, hfresh⟩ :=
    serve_accounts hboard (some Board.standard) Options.standard _ _ true routeAndDrag
  obtain ⟨haccounts, hexact⟩ := haccount (hfresh hknown) t hserve
  rw [← launch, htally] at haccounts hexact
  exact ⟨hboard, hknown, t, hserve, haccounts, hexact.mpr rfl⟩

/-- A route of one track is fixed, and the track is broken in its middle. -/
def routeAndBreak : List Occasion :=
  [⟨.click ⟨0, 0⟩ false false, true, false⟩, ⟨.doubleClick ⟨1000000, 0⟩, true, false⟩,
    ⟨.breakTrack ⟨500000, 0⟩, true, false⟩]

/-- Both are edits, which put the route on the board and break it, but only the route is
counted. -/
theorem serve_not_counted :
    ∃ t, (launch Board.standard Options.standard [] true).serve routeAndBreak = .ok t ∧
      t.board.items.map Item.shape =
        [.segment ⟨⟨0, 0⟩, ⟨500000, 0⟩⟩ 250000, .segment ⟨⟨500000, 0⟩, ⟨1000000, 0⟩⟩ 250000] ∧
      (launch Board.standard Options.standard [] true).tally ⟨0, 0⟩ routeAndBreak = ⟨2, 1⟩ ∧
      t.session.committed = 1 := by
  have hseen : ((launch Board.standard Options.standard [] true).serve routeAndBreak).toOption.map
      (fun t => (t.board.items.map Item.shape, t.session.committed)) =
      some ([.segment ⟨⟨0, 0⟩, ⟨500000, 0⟩⟩ 250000,
        .segment ⟨⟨500000, 0⟩, ⟨1000000, 0⟩⟩ 250000], 1) := by
    decide +kernel
  have htally :
      (launch Board.standard Options.standard [] true).tally ⟨0, 0⟩ routeAndBreak = ⟨2, 1⟩ := by
    decide +kernel
  obtain ⟨t, hserve, ht⟩ := exists_of_toOption_map hseen
  obtain ⟨hshapes, hcount⟩ := Prod.mk.inj ht
  exact ⟨t, hserve, hshapes, htally, hcount⟩

end Tool

end CopperRoute
