import CopperRoute.Proofs.RouteEndings

/-!
# An error is a standstill

An intent that spares what runs comes down to one command that breaks nothing off, or to
several that tell nothing (`Tool.Spares`, `Tool.commandsFor_brief`).  So it tells at most one
error, and that leaves the tool where it was, unless a layer switch is stranded.

It never is.  All boards have the same stackup and enable only layers of it; a route lies in
that stackup, and while it runs, the engine knows a board (`Tool.Attached`).  Then the engine
refuses no enabled layer, and a through via to another layer of the stackup is always legal
(`Tool.not_stranded`).

That the engine knows a board while a route runs is not kept by every command, but by every
intent: the world is cleared only behind the end of what ran.
-/

namespace CopperRoute

/-- A layer command leads to another layer, and to an enabled one. -/
theorem LayerCommand.resolve_eq_some {command : LayerCommand} {current layer : LayerId}
    {enabled : List LayerId} (h : command.resolve current enabled = some layer) :
    layer ≠ current ∧ layer ∈ enabled := by
  have hfilter := (Option.filter_eq_some_iff.mp h).2
  simpa using hfilter

/-- **A through via is legal** between any two layers of the stackup. -/
theorem Via.resolve_through {current layer : LayerId} {e : ViaEnvironment}
    (hcurrent : e.stackup.contains current = true) (hlayer : e.stackup.contains layer = true)
    (hother : layer ≠ current) : ∃ v, resolve ⟨current, some layer, .through⟩ e = .ok v := by
  have hrejection : rejection? ⟨current, some layer, .through⟩ e = none := by
    simp [rejection?]
  have hpair : pair ⟨current, some layer, .through⟩ e = ⟨current, layer⟩ ∨
      pair ⟨current, some layer, .through⟩ e = ⟨layer, current⟩ := by
    show LayerPair.ordered current layer = _ ∨ LayerPair.ordered current layer = _
    unfold LayerPair.ordered
    split
    · exact .inl rfl
    · exact .inr rfl
  rw [resolve, hrejection]
  simp only
  rcases hpair with hpair | hpair
  · rw [hpair]
    simp [LayerPair.isDegenerate, hcurrent, hlayer, hother.symm]
  · rw [hpair]
    simp [LayerPair.isDegenerate, hcurrent, hlayer, hother]

/-- The layers of a stackup are in it. -/
theorem Stackup.contains_of_mem {n : UInt8} {l : LayerId} (hl : l ∈ (ofCount n).copperLayers) :
    (ofCount n).contains l = true := by
  obtain ⟨k, hk, rfl⟩ := List.mem_map.mp hl
  have hcount := copperCount_ofCount n
  have hsmall := List.mem_range.mp hk
  have hordinal : (UInt8.ofNat k).toNat = k := by
    apply UInt8.toNat_ofNat_of_lt'
    show k < 256
    omega
  rw [contains_iff]
  show (UInt8.ofNat k).toNat < 32 ∧ (UInt8.ofNat k).toNat < _
  rw [hordinal]
  omega

namespace Board

/-- **Layered**: the board has this stackup, and enables only layers of it. -/
structure Layered (b : Board) (s : Stackup) : Prop where
  stackup : b.stackup = s
  enabled : ∀ l ∈ b.enabledLayers, s.contains l = true

/-- **A board from a file** is layered, when its stackup is one of 1 to 32 layers. -/
theorem layered_ofFile {f : BoardFile} {b : Board} {n : UInt8}
    (hstackup : f.stackup = Stackup.ofCount n) (h : ofFile f = .ok b) :
    b.Layered (Stackup.ofCount n) := by
  refine ofFile_invariant (P := fun b => b.Layered (Stackup.ofCount n)) ?_
    (fun b layers hb => ?_) (fun b fp hb => ?_) (fun b i b' hb hload => ?_) h
  · refine ⟨hstackup, fun l hl => ?_⟩
    rw [empty, hstackup] at hl
    exact Stackup.contains_of_mem hl
  · refine ⟨hb.stackup, fun l hl => ?_⟩
    have hkept : l ∈ layers.filter b.stackup.contains :=
      List.mem_mergeSort.mp (List.mem_eraseDups.mp hl)
    rw [← hb.stackup]
    exact (List.mem_filter.mp hkept).2
  · exact ⟨hb.stackup, hb.enabled⟩
  · obtain ⟨next, _, hload⟩ := Checked.bind_eq_ok.mp hload
    cases hload
    exact ⟨hb.stackup, hb.enabled⟩

end Board

/-- The intents that end what runs. -/
inductive Intent.EndsRunning (bindings : ActionRegistry) : Intent → Prop
  | cancel : EndsRunning bindings .cancel
  | activate : EndsRunning bindings .activate
  | deactivate : EndsRunning bindings .deactivate
  | undo : EndsRunning bindings .undo
  | redo : EndsRunning bindings .redo
  | modelChanged : EndsRunning bindings .modelChanged
  | dragSelection (ids : List ItemId) (anchor : Point) (freeAngle : Bool) :
      EndsRunning bindings (.dragSelection ids anchor freeAngle)
  | dragFootprint (id : FootprintId) (anchor : Point) :
      EndsRunning bindings (.dragFootprint id anchor)
  | keyPress {chord : String} (hkey : bindings.resolve chord = some .cancel) :
      EndsRunning bindings (.keyPress chord)

namespace Tool

variable {t t' u : Tool} {c : Command} {n : UInt8}

/-- **The invariant of commands.**  All boards enable only layers of their one stackup, and
the running route lies in it. -/
structure KeepsLayers (s : Stackup) (t : Tool) : Prop extends KeepsProper s t where
  enabled : ∀ b ∈ t.boards, ∀ l ∈ b.enabledLayers, s.contains l = true

theorem KeepsLayers.prompted {s : Stackup} (ht : t.KeepsLayers s) (o : Occasion) :
    (t.prompted o).KeepsLayers s :=
  ⟨ht.toKeepsProper.prompted o, ht.enabled⟩

theorem KeepsLayers.logged {s : Stackup} (ht : t.KeepsLayers s) (c : Command) :
    ({ t with log := t.log.record c } : Tool).KeepsLayers s :=
  ⟨⟨ht.orderly.logged c, ht.boards, ht.world, ht.route⟩, ht.enabled⟩

/-- Every turn keeps the layers. -/
theorem turn_keepsLayers {k : Turn} (ht : t.KeepsLayers (Stackup.ofCount n))
    (h : t.turn k = .ok t') : t'.KeepsLayers (Stackup.ofCount n) := by
  refine ⟨turn_keepsProper ht.toKeepsProper h, ?_⟩
  obtain ⟨refusal, h⟩ := turn_eq_ok.mp h
  have hnow := ht.enabled _ t.board_mem_boards
  refine (execute_changes (ht.orderly.ready k) h).boards.all_boards ht.enabled
    (fun design hboard _ => ?_) fun changes report _ hcommit => ?_
  · rw [hboard]
    exact hnow
  · rw [Board.commit_enabledLayers hcommit]
    exact hnow

/-- While a route runs, the engine knows a board. -/
def Attached (t : Tool) : Prop := ∀ op, t.session.route? = some op → t.world ≠ none

/-- No route starts without the engine. -/
theorem Opens.world {p : Point} {id : Option ItemId} {op : RouteOp} (h : t.Opens p id op) :
    t.world ≠ none := by
  intro hnone
  have haccepted := h.accepted
  rw [hnone] at haccepted
  cases haccepted

/-- A steady command never takes the board from the engine. -/
theorem Reboards.keepsWorld (h : t.Reboards c t') (hc : ¬ c.PullsApart) (hworld : t.world ≠ none) :
    t'.world ≠ none := by
  cases h.way with
  | kept _ _ hsame =>
      rw [hsame]
      exact hworld
  | loaded _ _ _ hloaded | committed _ _ _ hloaded =>
      rw [hloaded]
      exact Option.some_ne_none _
  | unloaded _ _ _ hcommand => exact absurd (hcommand ▸ .clearWorld) hc
  | undone _ _ hcommand _ => exact absurd (hcommand ▸ .undo) hc
  | redone _ _ hcommand _ => exact absurd (hcommand ▸ .redo) hc

/-- **Steady commands** leave a running route its engine, and start none without. -/
theorem execute_attached {refusal : Option CommandRefusal} (ht : t.Orderly) (hc : ¬ c.PullsApart)
    (hattached : t.Attached) (h : t.execute c = .ok (t', refusal)) : t'.Attached := by
  intro op' hop'
  cases execute_reroutes ht hop' h with
  | began hcommand hidle hopens _ =>
      subst hcommand
      obtain ⟨u, hbegins⟩ := startRouting_begins ht (Checked.of_tagged h)
      cases hidle.symm.trans hbegins.idle
      rw [hbegins.same.world]
      exact hopens.world
  | changed hop => exact (execute_changes ht h).boards.keepsWorld hc (hattached _ hop)

/-- **Every intent** keeps the layers, and leaves a running route its engine. -/
theorem attend_keepsLayers {o : Occasion} {out : IntentOutcome}
    (ht : t.KeepsLayers (Stackup.ofCount n)) (hattached : t.Attached) (h : t.attend o = .ok out) :
    out.tool.KeepsLayers (Stackup.ofCount n) ∧ out.tool.Attached := by
  refine (attend_invariant (J := fun t => t.KeepsLayers (Stackup.ofCount n)) (I := Attached)
    (fun t ht => ht.orderly) (fun t o ht hattached => ⟨ht.prompted o, hattached⟩)
    (fun _ _ _ => turn_keepsLayers) (fun t c u refusal hc ht hattached hhandle => ?_)
    (fun t ht hidle _ op hop => ?_) ht hattached h).2
  · exact execute_attached (ht.orderly.logged c) hc hattached hhandle
  · cases (ht.orderly.busy hop).symm.trans hidle

/-- **A way to every enabled layer.**  The engine refuses none, and there is a legal via to
each of them. -/
theorem not_stranded (ht : t.KeepsLayers (Stackup.ofCount n)) (hattached : t.Attached)
    (command : LayerCommand) : ¬ t.Stranded command := by
  rintro (@⟨op, layer, hop, hresolve, hno⟩)
  obtain ⟨hother, henabled⟩ := LayerCommand.resolve_eq_some hresolve
  have hinside := ht.enabled _ t.board_mem_boards _ henabled
  have hhead := (ht.route _ hop).withdrawVia.layer
  rcases hno with ⟨reason, hrefused⟩ | ⟨rejection, hrejected⟩
  · cases hworld : t.world with
    | none => exact hattached _ hop hworld
    | some b =>
        rw [hworld] at hrefused
        have hlayer : b.stackup.contains layer = true := by
          rw [ht.world b hworld]
          exact hinside
        simp only [World.switchLayer, hlayer, Bool.not_true, Bool.false_eq_true,
          if_false] at hrefused
        split at hrefused <;> cases hrefused
  · have hstackup : (ViaEnvironment.ofBoard t.board).stackup = Stackup.ofCount n := ht.board
    rw [← hstackup] at hinside hhead
    obtain ⟨v, hlegal⟩ := Via.resolve_through hhead hinside hother
    cases hlegal.symm.trans hrejected

/-- **An occasion that spares what runs**: nothing runs, or it is not ended, neither by the
intent nor by a request that came before. -/
def Spares (t : Tool) (o : Occasion) : Prop :=
  t.session.isIdle = true ∨
    (t.cancelRequested || o.cancels) = false ∧ ¬ o.intent.EndsRunning t.bindings

/-- The commands tell nothing, or there is one only, and that breaks nothing off. -/
inductive Brief (t : Tool) : List Command → Prop
  | silent {cs : List Command} (hsilent : ∀ c ∈ cs, c.Silent) : Brief t cs
  | single {c : Command} (hspares : t.session.isIdle = true ∨ ¬ c.Interrupts) : Brief t [c]

theorem brief_nil (t : Tool) : t.Brief [] := .silent nofun

theorem brief_fixAt {p : Point} {finish : Bool} {cs : List Command}
    (h : t.fixAt p finish = .ok cs) : t.Brief cs := by
  obtain ⟨id, _, h⟩ := Checked.bind_eq_ok.mp h
  cases h
  exact .single (.inr nofun)

theorem brief_dragAtCursor {mode : DragMode} {cs : List Command}
    (h : t.dragAtCursor mode = .ok cs) : t.Brief cs := by
  cases hidle : t.session.isIdle with
  | true =>
      simp only [dragAtCursor, hidle, Bool.not_true, Bool.false_eq_true, if_false] at h
      obtain ⟨ids, _, h⟩ := Checked.bind_eq_ok.mp h
      cases h
      exact .single (.inl hidle)
  | false =>
      simp only [dragAtCursor, hidle, Bool.not_false, if_true] at h
      cases h
      exact t.brief_nil

theorem brief_commandsForAction {action : RouterAction} {cs : List Command}
    (hspares : t.session.isIdle = true ∨ action ≠ .cancel)
    (h : t.commandsForAction action = .ok cs) : t.Brief cs := by
  cases action with
  | dragFortyFive | dragFreeAngle => exact brief_dragAtCursor h
  | undoLastSegment =>
      cases h
      split
      · refine .single (.inr fun hinterrupts => ?_)
        cases hinterrupts
      · exact t.brief_nil
  | endTrack =>
      simp only [commandsForAction] at h
      split at h
      · exact brief_fixAt h
      · cases h
        exact t.brief_nil
  | cancel =>
      cases h
      exact .single (.inl (hspares.resolve_right fun hother => hother rfl))
  | _ =>
      cases h
      refine .single (.inr fun hinterrupts => ?_)
      cases hinterrupts

/-- A click begins something only where nothing runs. -/
theorem brief_commandsForClick {p : Point} {shift ctrl : Bool} {cs : List Command}
    (ht : t.Orderly) (h : t.commandsForClick p shift ctrl = .ok cs) : t.Brief cs := by
  cases hop : t.session.operation with
  | routing op =>
      have hrouting : t.session.isRouting = true := by
        simp [Session.isRouting, Session.route?_eq_some.mpr hop]
      simp only [commandsForClick, hrouting, if_true] at h
      exact brief_fixAt h
  | dragging op =>
      have hdrag := Session.drag?_eq_some.mpr hop
      have hrouting : t.session.isRouting = false := by
        simp [Session.isRouting, Session.route?_of_drag hdrag]
      have hdragging : t.session.isDragging = true := by simp [Session.isDragging, hdrag]
      simp only [commandsForClick, hrouting, hdragging, Bool.false_eq_true, if_false, if_true] at h
      cases h
      exact .single (.inr nofun)
  | none =>
      have hidle := ht.isIdle_of_none hop
      have hrouting : t.session.isRouting = false := by
        simp [Session.isRouting, Session.route?_of_none hop]
      have hdragging : t.session.isDragging = false := by
        simp [Session.isDragging, Session.drag?_of_none hop]
      simp only [commandsForClick, hrouting, hdragging, Bool.false_eq_true, if_false] at h
      split at h
      · obtain ⟨id, _, h⟩ := Checked.bind_eq_ok.mp h
        cases h
        exact .single (.inl hidle)
      · obtain ⟨id, _, h⟩ := Checked.bind_eq_ok.mp h
        cases h
        exact .single (.inl hidle)

theorem brief_commandsForMotion {p : Point} {ctrl : Bool} {cs : List Command}
    (h : t.commandsForMotion p ctrl = .ok cs) : t.Brief cs := by
  unfold commandsForMotion at h
  split at h
  · obtain ⟨id, _, h⟩ := Checked.bind_eq_ok.mp h
    cases h
    exact .single (.inr nofun)
  · split at h
    · cases h
      exact .single (.inr nofun)
    · cases h
      exact .single (.inr nofun)

/-- **An intent that spares what runs is brief.** -/
theorem commandsFor_brief {i : Intent} {cs : List Command} (ht : t.Orderly)
    (hspares : t.session.isIdle = true ∨ ¬ i.EndsRunning t.bindings)
    (h : t.commandsFor i = .ok cs) : t.Brief cs := by
  -- an intent that would end what runs finds nothing to end
  have hidle (hends : i.EndsRunning t.bindings) : t.session.isIdle = true :=
    hspares.resolve_right fun hspared => hspared hends
  have hended (hends : i.EndsRunning t.bindings) : t.endRunning = [] := if_pos (hidle hends)
  cases i with
  | motion => exact brief_commandsForMotion h
  | click => exact brief_commandsForClick ht h
  | doubleClick =>
      simp only [commandsFor] at h
      split at h
      · exact brief_fixAt h
      · cases h
        exact t.brief_nil
  | keyPress chord =>
      simp only [commandsFor] at h
      split at h
      · next action haction =>
          refine brief_commandsForAction ?_ h
          by_cases hcancel : action = .cancel
          · rw [hcancel] at haction
            exact .inl (hidle (.keyPress haction))
          · exact .inr hcancel
      · cases h
        exact t.brief_nil
  | cancel =>
      cases h
      exact .single (.inl (hidle .cancel))
  | activate =>
      cases h
      rw [hended .activate]
      refine .silent fun c hc => ?_
      rcases List.mem_pair.mp hc with rfl | rfl <;> constructor
  | deactivate =>
      cases h
      rw [hended .deactivate]
      exact t.brief_nil
  | undo | redo =>
      cases h
      rw [hended (by constructor)]
      refine .silent fun c hc => ?_
      rcases List.mem_cons.mp hc with rfl | hc
      · constructor
      · rcases List.mem_pair.mp hc with rfl | rfl <;> constructor
  | modelChanged =>
      cases h
      rw [hended .modelChanged]
      refine .silent fun c hc => ?_
      rw [List.mem_singleton.mp hc]
      constructor
  | dragSelection ids anchor freeAngle =>
      cases h
      exact .single (.inl (hidle (.dragSelection ids anchor freeAngle)))
  | dragFootprint id anchor =>
      cases h
      exact .single (.inl (hidle (.dragFootprint id anchor)))
  | viaTargetSelected =>
      simp only [commandsFor] at h
      split at h
      · cases h
        refine .single (.inr fun hinterrupts => ?_)
        cases hinterrupts
      · cases h
        exact t.brief_nil
  | _ =>
      cases h
      refine .single (.inr fun hinterrupts => ?_)
      cases hinterrupts

/-- Commands that tell nothing tell nothing together. -/
theorem handleAll_silent {cs : List Command} {out : IntentOutcome} (hsilent : ∀ c ∈ cs, c.Silent)
    (h : t.handleAll cs = .ok out) : out.tool.host = t.host := by
  induction cs generalizing t out with
  | nil =>
      cases h
      rfl
  | cons c cs ih =>
      obtain ⟨⟨u, refusal⟩, hhandle, h⟩ := Checked.bind_eq_ok.mp h
      have hexecute : ({ t with log := t.log.record c } : Tool).execute c = .ok (u, refusal) :=
        hhandle
      have hsame := execute_silent (hsilent c List.mem_cons_self) hexecute
      cases refusal with
      | some refusal =>
          cases h
          exact hsame
      | none =>
          obtain ⟨rest, hrest, h⟩ := Checked.bind_eq_ok.mp h
          cases h
          exact (ih (fun c hc => hsilent c (List.mem_cons_of_mem _ hc)) hrest).trans hsame

/-- **Brief commands that tell an error** leave the tool where it was. -/
theorem handleAll_unmoved {cs : List Command} {out : IntentOutcome}
    (ht : t.KeepsLayers (Stackup.ofCount n)) (hattached : t.Attached) (hbrief : t.Brief cs)
    (h : t.handleAll cs = .ok out) (herror : out.tool.host.errors ≠ t.host.errors) :
    t.Unmoved out.tool := by
  cases hbrief with
  | silent hsilent => exact absurd (congrArg Host.errors (handleAll_silent hsilent h)) herror
  | @single c hspares =>
      obtain ⟨⟨u, refusal⟩, hhandle, h⟩ := Checked.bind_eq_ok.mp h
      have hout : out.tool = u := by
        cases refusal <;> cases h <;> rfl
      rw [hout] at herror ⊢
      have htells := execute_tells (ht.orderly.logged c) hspares hhandle
      cases htells with
      | nothing hsame => exact absurd hsame herror
      | refused _ hstays =>
          have hlogged : t.Unmoved { t with log := t.log.record c } := .of_eq rfl rfl rfl rfl
          exact hlogged.trans hstays
      | @stranded command _ _ hstranded =>
          exact absurd hstranded (not_stranded (ht.logged c) hattached command)

/-- **An error is a standstill**, on an occasion that spares what runs. -/
theorem attend_unmoved {o : Occasion} {out : IntentOutcome}
    (ht : t.KeepsLayers (Stackup.ofCount n)) (hattached : t.Attached) (hspares : t.Spares o)
    (h : t.attend o = .ok out) (herror : out.tool.host.errors ≠ t.host.errors) :
    t.Unmoved out.tool := by
  have hnothing : t.requested o = [] := by
    unfold requested
    split
    · next hrequested =>
        rcases hspares with hidle | ⟨hnone, _⟩
        · exact if_pos hidle
        · cases hrequested.symm.trans hnone
    · rfl
  obtain ⟨first, hfirst, hmore⟩ := attend_eq_ok h
  rw [hnothing] at hfirst
  cases hfirst
  obtain ⟨cs, second, hcs, hsecond, rfl⟩ := hmore rfl
  have hspared : (t.prompted o).session.isIdle = true ∨
      ¬ o.intent.EndsRunning (t.prompted o).bindings := hspares.imp id And.right
  have hbrief := commandsFor_brief (ht.orderly.prompted o) hspared hcs
  have hprompted : t.Unmoved (t.prompted o) := .of_eq rfl rfl rfl rfl
  exact hprompted.trans (handleAll_unmoved (ht.prompted o) hattached hbrief hsecond herror)

/-- **An error is a standstill.**  In a tool on a board of 1 to 32 layers, whose engine knows
that board or none, an error that is told on an occasion which spares what runs leaves the
boards, the count of commits, the layer and the state of the session as they were, and what
runs but for the head of a route. -/
theorem serve_unmoved {board : Board} {world : World} {n : UInt8}
    (hboard : board.Layered (Stackup.ofCount n))
    (hworld : ∀ b, world = some b → b.stackup = board.stackup) (options : Options)
    (rules : RuleSet) (search : TreeSearch) (confirms : Bool) {os : List Occasion} {t : Tool}
    {o : Occasion} {out : IntentOutcome}
    (hserve : (new board world options rules search confirms).serve os = .ok t)
    (hspares : t.Spares o) (hattend : t.attend o = .ok out)
    (herror : out.tool.host.errors ≠ t.host.errors) : t.Unmoved out.tool := by
  have hproper := keepsProper_new hboard.stackup (fun b hb => (hworld b hb).trans hboard.stackup)
    options rules search confirms
  have hnew : (new board world options rules search confirms).KeepsLayers (Stackup.ofCount n) := by
    refine ⟨hproper, fun b hb => ?_⟩
    rw [eq_of_mem_boards_new hb]
    exact hboard.enabled
  have hfree : (new board world options rules search confirms).Attached := by
    intro op hop
    cases hop
  have ht := serve_invariant
    (I := fun t => t.KeepsLayers (Stackup.ofCount n) ∧ t.Attached)
    (fun t o out ht h => attend_keepsLayers ht.1 ht.2 h) ⟨hnew, hfree⟩ hserve
  exact attend_unmoved ht.1 ht.2 hspares hattend herror

/-- A fix that shall end a route whose via the board refuses: the route goes on. -/
theorem serve_unmoved_refusedFix :
    Board.standard.Layered (Stackup.ofCount 2) ∧ ∃ t out reason,
      (launch Board.standard Options.standard [narrowVias] true).serve viaStep = .ok t ∧
        t.Spares ⟨.doubleClick ⟨2000000, 0⟩, true, false⟩ ∧
        t.attend ⟨.doubleClick ⟨2000000, 0⟩, true, false⟩ = .ok out ∧
        out.tool.host.errors = t.host.errors ++ [.commitFailed reason] ∧
        t.session.isRouting = true ∧ t.Unmoved out.tool := by
  have hboard : Board.standard.Layered (Stackup.ofCount 2) :=
    Board.layered_ofFile (f := BoardFile.standard) rfl rfl
  obtain ⟨t, out, reason, hserve, hcalm, hattend, herrors, hrouting⟩ : ∃ t out reason,
      (launch Board.standard Options.standard [narrowVias] true).serve viaStep = .ok t ∧
        (t.cancelRequested || false) = false ∧
        t.attend ⟨.doubleClick ⟨2000000, 0⟩, true, false⟩ = .ok out ∧
        out.tool.host.errors = t.host.errors ++ [.commitFailed reason] ∧
        t.session.isRouting = true :=
    ⟨_, _, _, by rfl, by rfl, by rfl, by rfl, by rfl⟩
  have hspares : t.Spares ⟨.doubleClick ⟨2000000, 0⟩, true, false⟩ := .inr ⟨hcalm, nofun⟩
  have herror : out.tool.host.errors ≠ t.host.errors := by
    rw [herrors]
    simp
  exact ⟨hboard, t, out, reason, hserve, hspares, hattend, herrors, hrouting,
    serve_unmoved hboard stackup_of_loaded Options.standard _ _ true hserve hspares hattend
      herror⟩

end Tool

end CopperRoute
