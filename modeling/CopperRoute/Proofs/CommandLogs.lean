import CopperRoute.Proofs.RouteWays
import CopperRoute.Replay
import Mathlib.Data.List.DropRight

/-!
# The latest commands

A log holds the latest of all commands that were recorded in it, in their order.  A full one forgets
its older half before it takes the next, so the number of them is a **sawtooth**
(`CommandLog.kept`): all at first, and from then on it climbs from one more than a half to the
capacity, and drops again.  `commands_record` says what one command does to the latest ones, and
`commands_recordAll` follows this through any number of commands.

The log of a tool is written where commands are handled, and nowhere else (`Tool.execute_log`);
refused commands are in it too.  What a replay reports as the number of commands is how many its
log still holds, and not how many there were (`Replay.run_summary`).
-/

namespace CopperRoute

section

variable {α : Type} {m n : Nat}

/-- The end of a list has the length that was asked for, if the list is that long. -/
theorem length_rtake {l : List α} (h : n ≤ l.length) : (l.rtake n).length = n := by
  rw [List.rtake, List.length_drop]
  omega

/-- Of the latest elements, all but the oldest. -/
theorem drop_rtake {l : List α} (hn : n ≤ m) (hm : m ≤ l.length) :
    (l.rtake m).drop n = l.rtake (m - n) := by
  have hstart : l.length - m + n = l.length - (m - n) := by omega
  rw [List.rtake, List.drop_drop, hstart, List.rtake]

/-- A shorter end of a list is the end of a longer one. -/
theorem rtake_suffix_rtake (l : List α) (h : m ≤ n) : l.rtake m <:+ l.rtake n :=
  l.drop_suffix_drop_left (Nat.sub_le_sub_left h _)

end

namespace CommandLog

/-- The log with these commands recorded one after the other. -/
def recordAll (l : CommandLog) (cs : List Command) : CommandLog := cs.foldl record l

/-- **How many of `n` commands a log holds.**  It is full behind the first `capacity` of them, and
again whenever another half has come. -/
def kept (n : Nat) : Nat :=
  if n ≤ capacity then n else capacity / 2 + 1 + (n - (capacity + 1)) % (capacity / 2)

/-- A log keeps all of a thousand commands, and of more between 501 and a thousand. -/
theorem kept_eq (n : Nat) : kept n = if n ≤ 1000 then n else 501 + (n - 1001) % 500 := rfl

/-- A log keeps no more than it was given. -/
theorem kept_le (n : Nat) : kept n ≤ n := by
  rw [kept_eq]
  split <;> omega

/-- A log never exceeds its capacity. -/
theorem kept_le_capacity (n : Nat) : kept n ≤ capacity := by
  rw [kept_eq, capacity]
  split <;> omega

/-- A log keeps more than half of its capacity, if it was given so much. -/
theorem min_le_kept (n : Nat) : min n (capacity / 2 + 1) ≤ kept n := by
  rw [kept_eq, capacity]
  split <;> omega

/-- One command more, when a full log has forgotten its older half. -/
theorem kept_succ (n : Nat) :
    kept (n + 1) = (if capacity ≤ kept n then kept n - capacity / 2 else kept n) + 1 := by
  rw [kept_eq, kept_eq, capacity]
  -- among the first commands only the last one fills the log, behind them every 500th does
  by_cases hyoung : n ≤ 1000
  · rw [if_pos hyoung]
    split <;> split <;> omega
  · rw [if_neg hyoung]
    split <;> split <;> omega

example : [1000, 1001, 1500, 1501].map kept = [1000, 501, 1000, 501] := by decide

/-- Commands are recorded one after the other. -/
theorem recordAll_append (l : CommandLog) (cs ds : List Command) :
    l.recordAll (cs ++ ds) = (l.recordAll cs).recordAll ds :=
  List.foldl_append

/-- **A log that holds the latest commands** holds the latest with the next one too. -/
theorem commands_record {l : CommandLog} {cs : List Command} {m : Nat} (hm : m ≤ cs.length)
    (h : l.commands = cs.rtake m) (c : Command) :
    (l.record c).commands =
      (cs ++ [c]).rtake ((if capacity ≤ m then m - capacity / 2 else m) + 1) := by
  have hsize : l.size = m := by rw [size, h, length_rtake hm]
  rw [List.rtake_concat_succ, record, hsize, h]
  by_cases hfull : capacity ≤ m
  · have hhalf : capacity / 2 ≤ m := Nat.le_trans (Nat.div_le_self _ _) hfull
    rw [if_pos hfull, if_pos hfull, drop_rtake hhalf hm]
  · rw [if_neg hfull, if_neg hfull]

/-- **What a log holds** after any commands. -/
theorem commands_recordAll (cs : List Command) :
    (empty.recordAll cs).commands = cs.rtake (kept cs.length) := by
  induction cs using List.reverseRecOn with
  | nil => rfl
  | append_singleton cs c ih =>
      have hnext : empty.recordAll (cs ++ [c]) = (empty.recordAll cs).record c :=
        recordAll_append empty cs [c]
      rw [hnext, commands_record (kept_le _) ih, List.length_append, List.length_singleton,
        kept_succ]

/-- **The latest of these commands**, in their order. -/
structure Latest (l : CommandLog) (cs : List Command) : Prop where
  commands : l.commands = cs.rtake l.size
  /-- Until the log has been full nothing is forgotten. -/
  young : cs.length ≤ 1000 → l.size = cs.length
  /-- From then on there are 501 to 1000, over and over. -/
  old : 1000 < cs.length → l.size = 501 + (cs.length - 1001) % 500
  bounded : l.size ≤ 1000
  /-- The last 501 commands are there at any time. -/
  recent : cs.rtake (min cs.length 501) <:+ l.commands

/-- An end of the right length is all that has to be known about a log. -/
theorem latest_of_commands {l : CommandLog} {cs : List Command}
    (h : l.commands = cs.rtake (kept cs.length)) : l.Latest cs := by
  have hsize : l.size = kept cs.length := by rw [size, h, length_rtake (kept_le _)]
  refine ⟨by rw [hsize, h], fun hyoung => ?_, fun hold => ?_, ?_, ?_⟩
  · rw [hsize, kept_eq, if_pos hyoung]
  · rw [hsize, kept_eq, if_neg (Nat.not_le.mpr hold)]
  · rw [hsize]
    exact kept_le_capacity _
  · rw [h]
    exact rtake_suffix_rtake cs (min_le_kept _)

/-- **After any number of commands** a log holds the latest of them. -/
theorem recordAll_latest (cs : List Command) : (empty.recordAll cs).Latest cs :=
  latest_of_commands (commands_recordAll cs)

end CommandLog

namespace Tool

variable {t t' : Tool} {c : Command}

/-- A new head records no command. -/
theorem refreshHead_log (h : t.refreshHead = .ok t') : t'.log = t.log := by
  rcases refreshHead_eq_ok h with rfl | ⟨g, rfl⟩ <;> rfl

/-- A commit records no command. -/
theorem commit_log {changes : Changeset} {r : Except CommitRejection CommitReport}
    (h : t.commit changes = .ok (r, t')) : t'.log = t.log := by
  rcases commit_eq_ok h with ⟨_, rfl⟩ | ⟨_, rfl⟩ | ⟨_, _, _, _, _, _, rfl⟩ <;> rfl

/-- Taking over the fixed steps records no command. -/
theorem commitStaged_log (h : t.commitStaged = .ok t') : t'.log = t.log := by
  rcases commitStaged_eq_ok h with rfl | ⟨_, _, u, hcommit, hcounted | ⟨e, hreported⟩⟩
  · rfl
  · rw [hcounted]
    exact (commit_log hcommit).trans rfl
  · rw [hreported]
    exact (commit_log hcommit).trans rfl

/-- Stopping an operation records no command. -/
theorem stopOperation_log {stopped : Bool} (h : t.stopOperation = .ok (t', stopped)) :
    t'.log = t.log := by
  obtain ⟨u, hstaged, h⟩ := Checked.bind_eq_ok.mp h
  cases h
  exact (commitStaged_log hstaged).trans rfl

/-- Making room for another operation records no command. -/
theorem makeIdle_log (h : t.makeIdle = .ok t') : t'.log = t.log := by
  unfold makeIdle at h
  split at h
  · cases h
    rfl
  · obtain ⟨⟨u, stopped⟩, hstop, h⟩ := Checked.bind_eq_ok.mp h
    cases h
    exact stopOperation_log hstop

/-- Starting a route records no command of its own. -/
theorem startRouting_log {p : Point} {id : Option ItemId} (h : t.startRouting p id = .ok t') :
    t'.log = t.log := by
  obtain ⟨u, hidle, h⟩ := Checked.bind_eq_ok.mp h
  refine Eq.trans ?_ (makeIdle_log hidle)
  simp only at h
  split at h
  · simp only [openRoute] at h
    obtain ⟨start, _, h⟩ := Checked.bind_eq_ok.mp h
    obtain ⟨refusal, _, h⟩ := Checked.bind_eq_ok.mp h
    cases refusal <;> cases h <;> rfl
  · cases h
    rfl

/-- Moving the head records no command of its own. -/
theorem moveHead_log {p : Point} {id : Option ItemId} {ortho : Bool}
    (h : t.moveHead p id ortho = .ok t') : t'.log = t.log := by
  unfold moveHead at h
  exact (refreshHead_log h).trans rfl

theorem finishRoute_log {g : RouteGeometry} (h : t.finishRoute g = .ok t') : t'.log = t.log := by
  obtain ⟨⟨r, u⟩, hcommit, h⟩ := Checked.bind_eq_ok.mp h
  have hcommitted := commit_log hcommit
  cases r <;> cases h <;> exact hcommitted

/-- Fixing a head records no command of its own. -/
theorem fixRoute_log {p : Point} {id : Option ItemId} {finish : Bool}
    (h : t.fixRoute p id finish = .ok t') : t'.log = t.log := by
  obtain ⟨u, hmove, houtcome⟩ := fixRoute_eq_ok h
  refine Eq.trans ?_ (moveHead_log hmove)
  cases houtcome with
  | finished _ _ _ hfinish => exact finishRoute_log hfinish
  | idle _ hu | unsolved _ _ hu | bare _ _ _ hu | extended _ _ _ _ _ hu =>
      cases hu
      rfl

/-- Taking back a fixed step records no command of its own. -/
theorem undoLastSegment_log (h : t.undoLastSegment = .ok t') : t'.log = t.log := by
  unfold undoLastSegment at h
  split at h
  · cases h
    rfl
  · exact (refreshHead_log h).trans rfl

/-- Cancelling records no command of its own. -/
theorem cancelOperation_log (h : t.cancelOperation = .ok t') : t'.log = t.log := by
  obtain ⟨⟨u, stopped⟩, hstop, h⟩ := Checked.bind_eq_ok.mp h
  have hstopped := stopOperation_log hstop
  cases stopped <;> cases h <;> exact hstopped

/-- Choosing the router mode records no command of its own. -/
theorem setRouterMode_log {mode : RouterMode} (h : t.setRouterMode mode = .ok t') :
    t'.log = t.log := by
  unfold setRouterMode at h
  split at h
  · cases h
    rfl
  · exact (refreshHead_log h).trans rfl

/-- Hanging a via on records no command of its own. -/
theorem placeVia_log {v : ViaType} {target : Option LayerId} (h : t.placeVia v target = .ok t') :
    t'.log = t.log := by
  unfold placeVia toggleVia at h
  split at h
  · cases h
    rfl
  · split at h
    · exact (refreshHead_log h).trans rfl
    · split at h
      · cases h
        rfl
      · exact (refreshHead_log h).trans rfl

/-- Switching layers records no command of its own. -/
theorem switchLayer_log {command : LayerCommand} (h : t.switchLayer command = .ok t') :
    t'.log = t.log := by
  simp only [switchLayer, goToLayer] at h
  split at h
  · cases h
    rfl
  · cases h
    rfl
  · unfold routeToLayer at h
    split at h
    · exact (refreshHead_log h).trans rfl
    · exact (placeVia_log h).trans rfl
    · cases h
      rfl

/-- Choosing a pair of layers records no command of its own. -/
theorem selectLayerPair_log (t : Tool) (pair : LayerPair) :
    (t.selectLayerPair pair).log = t.log := by
  unfold selectLayerPair
  split <;> rfl

/-- Setting sizes records no command of its own. -/
theorem redesigns_log {change : Design → Design} {refusal : Option CommandRefusal}
    (hc : c.Redesigns change) (h : t.execute c = .ok (t', refusal)) : t'.log = t.log := by
  rcases execute_redesigns hc with ⟨_, e, hrejected⟩ | ⟨_, hchanges⟩
  · cases (hrejected t).symm.trans h
    rfl
  · rw [hchanges t] at h
    have hchanged : t.changeDesign change = .ok t' := Checked.of_tagged h
    unfold changeDesign at hchanged
    exact (refreshHead_log hchanged).trans rfl

/-- The question for locked copper records no command. -/
theorem mayChange_log (t : Tool) (locked : Bool) (q : Question) :
    (t.mayChange locked q).1.log = t.log := by
  unfold mayChange
  split <;> rfl

/-- Beginning a drag records no command. -/
theorem beginDrag_log (t : Tool) (grabbed : List Item) (anchor : Point) (mode : DragMode)
    (locked : Bool) : (t.beginDrag grabbed anchor mode locked).log = t.log := by
  rw [← t.mayChange_log locked .dragLocked, beginDrag]
  generalize t.mayChange locked .dragLocked = asked
  obtain ⟨u, confirmed⟩ := asked
  cases confirmed <;> rfl

/-- Grabbing items records no command of its own. -/
theorem startDrag_log {ids : List ItemId} {anchor : Point} {mode : DragMode}
    (h : t.startDrag ids anchor mode = .ok t') : t'.log = t.log := by
  obtain ⟨u, hidle, h⟩ := Checked.bind_eq_ok.mp h
  refine Eq.trans ?_ (makeIdle_log hidle)
  split at h
  · cases h
    rfl
  · cases h
    exact u.beginDrag_log _ _ _ _

/-- Grabbing a footprint records no command of its own. -/
theorem startFootprintDrag_log {id : FootprintId} {anchor : Point} {mode : DragMode}
    (h : t.startFootprintDrag id anchor mode = .ok t') : t'.log = t.log := by
  obtain ⟨u, hidle, h⟩ := Checked.bind_eq_ok.mp h
  refine Eq.trans ?_ (makeIdle_log hidle)
  split at h
  · cases h
    rfl
  · split at h
    · cases h
      rfl
    · cases h
      exact u.beginDrag_log _ _ _ _

theorem moveDrag_log {p : Point} (h : t.moveDrag p = .ok t') : t'.log = t.log := by
  simp only [moveDrag] at h
  split at h
  · cases h
    rfl
  · obtain ⟨answer, _, h⟩ := Checked.bind_eq_ok.mp h
    split at h
    · cases h
      rfl
    · split at h <;> cases h <;> rfl

/-- Fixing a drag records no command of its own. -/
theorem fixDrag_log (h : t.fixDrag = .ok t') : t'.log = t.log := by
  cases fixDrag_eq_ok h with
  | idle _ hu | void _ _ hu =>
      cases hu
      rfl
  | committed _ _ hcommit hu | refused _ _ hcommit hu =>
      rw [hu]
      exact (commit_log hcommit).trans rfl

/-- Breaking a track records no command of its own. -/
theorem breakTrack_log {p : Point} (h : t.breakTrack p = .ok t') : t'.log = t.log := by
  unfold breakTrack at h
  split at h
  · cases h
    rfl
  · obtain ⟨found, _, h⟩ := Checked.bind_eq_ok.mp h
    split at h
    · cases h
      rfl
    · next i _ =>
        refine Eq.trans ?_ (t.mayChange_log i.locked .breakLocked)
        generalize t.mayChange i.locked .breakLocked = asked at h ⊢
        obtain ⟨u, confirmed⟩ := asked
        cases confirmed with
        | false =>
            cases h
            rfl
        | true =>
            obtain ⟨split?, _, h⟩ := Checked.bind_eq_ok.mp h
            cases split? with
            | none =>
                cases h
                rfl
            | some changes =>
                obtain ⟨⟨r, v⟩, hcommit, h⟩ := Checked.bind_eq_ok.mp h
                have hcommitted := commit_log hcommit
                cases r <;> cases h <;> exact hcommitted

/-- Going back in the history leaves the log of commands as it is. -/
theorem undo_log (t : Tool) : t.undo.1.log = t.log := by
  unfold undo
  split
  · rfl
  · split <;> rfl

theorem redo_log (t : Tool) : t.redo.1.log = t.log := by
  unfold redo
  split
  · rfl
  · split <;> rfl

/-- **No command touches the log.** -/
theorem execute_log {refusal : Option CommandRefusal} (h : t.execute c = .ok (t', refusal)) :
    t'.log = t.log := by
  cases c with
  | startRouting => exact startRouting_log (Checked.of_tagged h)
  | moveHead => exact moveHead_log (Checked.of_tagged h)
  | fixRoute => exact fixRoute_log (Checked.of_tagged h)
  | undoLastSegment => exact undoLastSegment_log (Checked.of_tagged h)
  | cancelOperation => exact cancelOperation_log (Checked.of_tagged h)
  | flipPosture | toggleRounding =>
      have hdrawn := Checked.of_tagged h
      exact (refreshHead_log hdrawn).trans rfl
  | setRouterMode => exact setRouterMode_log (Checked.of_tagged h)
  | placeVia => exact placeVia_log (Checked.of_tagged h)
  | switchLayer => exact switchLayer_log (Checked.of_tagged h)
  | startDrag => exact startDrag_log (Checked.of_tagged h)
  | startFootprintDrag => exact startFootprintDrag_log (Checked.of_tagged h)
  | moveDrag => exact moveDrag_log (Checked.of_tagged h)
  | fixDrag => exact fixDrag_log (Checked.of_tagged h)
  | breakTrack => exact breakTrack_log (Checked.of_tagged h)
  | setCustomTrackWidth width => exact redesigns_log (.trackWidth width) h
  | setCustomViaSize diameter drill => exact redesigns_log (.viaSize diameter drill) h
  | setDiffPair width gap viaGap => exact redesigns_log (.diffPair width gap viaGap) h
  | useNetClassSizes => exact redesigns_log .netClasses h
  | selectLayerPair pair =>
      cases h
      exact t.selectLayerPair_log pair
  | undo =>
      have hundo := t.undo_log
      rw [Checked.pure_eq_ok.mp h] at hundo
      exact hundo
  | redo =>
      have hredo := t.redo_log
      rw [Checked.pure_eq_ok.mp h] at hredo
      exact hredo
  | trackCursor | requestViaTarget | resetSession | clearWorld | syncWorld =>
      cases h
      rfl

/-- **Handling commands is recording them**, a refused one too. -/
theorem handleAll_log {cs : List Command} {out : IntentOutcome} (h : t.handleAll cs = .ok out) :
    out.tool.log = t.log.recordAll out.commands := by
  induction cs generalizing t out with
  | nil =>
      cases h
      rfl
  | cons c cs ih =>
      obtain ⟨⟨u, refusal⟩, hhandle, h⟩ := Checked.bind_eq_ok.mp h
      have hrecorded : u.log = t.log.record c := execute_log hhandle
      cases refusal with
      | none =>
          obtain ⟨rest, hrest, h⟩ := Checked.bind_eq_ok.mp h
          cases h
          show rest.tool.log = (t.log.record c).recordAll rest.commands
          rw [ih hrest, hrecorded]
      | some refusal =>
          cases h
          exact hrecorded

/-- **An intent** records the commands that it handled. -/
theorem handleIntent_log {i : Intent} {out : IntentOutcome} (h : t.handleIntent i = .ok out) :
    out.tool.log = t.log.recordAll out.commands := by
  obtain ⟨first, hfirst, h⟩ := Checked.bind_eq_ok.mp h
  unfold takeCancelRequest at hfirst
  have hstart : first.tool.log = t.log.recordAll first.commands := (handleAll_log hfirst).trans rfl
  split at h
  · cases h
    exact hstart
  · obtain ⟨cs, _, h⟩ := Checked.bind_eq_ok.mp h
    obtain ⟨second, hsecond, h⟩ := Checked.bind_eq_ok.mp h
    cases h
    show second.tool.log = t.log.recordAll (first.commands ++ second.commands)
    rw [handleAll_log hsecond, hstart, CommandLog.recordAll_append]

end Tool

namespace Replay

/-- All commands that handling these intents leads to. -/
def commands (t : Tool) : List Intent → Checked (List Command)
  | [] => .ok []
  | i :: rest => do
    let out ← t.handleIntent i
    return out.commands ++ (← commands out.tool rest)

/-- **A replay** records the commands of all its intents. -/
theorem handleAll_log {t t' : Tool} {intents : List Intent} (h : handleAll t intents = .ok t') :
    ∃ cs, commands t intents = .ok cs ∧ t'.log = t.log.recordAll cs := by
  induction intents generalizing t with
  | nil =>
      cases h
      exact ⟨[], rfl, rfl⟩
  | cons i rest ih =>
      obtain ⟨out, hout, h⟩ := Checked.bind_eq_ok.mp h
      obtain ⟨cs, hcs, hlog⟩ := ih h
      refine ⟨out.commands ++ cs, ?_, ?_⟩
      · exact Checked.bind_eq_ok.mpr ⟨out, hout, Checked.bind_eq_ok.mpr ⟨cs, hcs, rfl⟩⟩
      · rw [hlog, Tool.handleIntent_log hout, CommandLog.recordAll_append]

/-- **The number of commands** in the summary of a replay is how many of the handled ones its log
still holds. -/
theorem run_summary {s : Scenario} {options : Options} {t : Tool} (h : run s options = .ok t) :
    ∃ board cs, Board.ofFile s.board = .ok board ∧
      commands (Tool.launch board options s.rules options.autoConfirmLocked)
        (.activate :: s.intents) = .ok cs ∧
      t.log.Latest cs ∧ (summary t).commands = CommandLog.kept cs.length := by
  obtain ⟨board, hboard, h⟩ := Checked.bind_eq_ok.mp h
  obtain ⟨cs, hcs, hlog⟩ := handleAll_log h
  have hheld : t.log.commands = cs.rtake (CommandLog.kept cs.length) := by
    rw [hlog]
    exact CommandLog.commands_recordAll cs
  refine ⟨board, cs, hboard, hcs, CommandLog.latest_of_commands hheld, ?_⟩
  show t.log.commands.length = CommandLog.kept cs.length
  rw [hheld, length_rtake (CommandLog.kept_le _)]

end Replay

end CopperRoute
