import CopperRoute.Host
import Mathlib.Data.List.Basic

/-!
# What the host was told

The host's record mixes two kinds of events.  The **guard** events take and give
back the edit block, panning and the cursor, always in groups of three; messages
and questions stand in between.  `Host.Holds` says that the groups alternate, that
the depth of the edit block fits them, and that a host which is let go of
highlights nothing.

* `Host.Holds.acquire` and `Host.Holds.release`: taking and giving back switch
  between the two kinds of hold.
* `Host.Told.holds`: messages and questions change nothing about it.
-/

namespace CopperRoute

namespace HostEvent

/-- Taking or giving back the edit block, panning or the cursor. -/
def isGuard : HostEvent → Bool
  | editBlock _ | autoPan _ | cursorCapture _ => true
  | _ => false

/-- The net that an event highlights, or `none` inside for no net at all. -/
def highlight? : HostEvent → Option (Option NetCode)
  | highlight net => some net
  | _ => none

/-- A message or a question. -/
def isMessage : HostEvent → Bool
  | asked _ | notified _ => true
  | _ => false

end HostEvent

namespace Host

/-- The events that take an operation's hold of the host. -/
def acquireGroup : List HostEvent := [.editBlock true, .autoPan true, .cursorCapture true]

/-- The events that give it back. -/
def releaseGroup : List HostEvent := [.cursorCapture false, .autoPan false, .editBlock false]

/-- What the host was told about edit block, panning and cursor. -/
def guardEvents (h : Host) : List HostEvent := h.events.filter HostEvent.isGuard

/-- The net that is highlighted now. -/
def highlighted (h : Host) : Option NetCode :=
  (h.events.reverse.findSome? HostEvent.highlight?).join

/-- **The hold on the host.**  Groups that take and groups that give back alternate;
the last one takes exactly when something holds the host. -/
structure Holds (h : Host) (held : Bool) : Prop where
  depth : h.blockDepth = if held then 1 else 0
  groups : ∃ n, h.guardEvents =
    (List.replicate n (acquireGroup ++ releaseGroup)).flatten ++ if held then acquireGroup else []
  dark : held = false → h.highlighted = none

/-- Nothing holds a new host. -/
theorem holds_new (confirms : Bool) : (new confirms).Holds false :=
  ⟨rfl, ⟨0, rfl⟩, fun _ => rfl⟩

/-- Taking the edit block is one group of events. -/
theorem guardEvents_acquire (h : Host) (net : Option NetCode) :
    (h.acquire net).guardEvents = h.guardEvents ++ acquireGroup := by
  cases net with
  | none => exact List.filter_append ..
  | some net =>
      have hlight : [HostEvent.highlight (some net)].filter HostEvent.isGuard = [] := rfl
      show (_ ++ _ ++ [HostEvent.highlight (some net)]).filter _ = _
      rw [List.filter_append, List.filter_append, hlight, List.append_nil]
      rfl

section OfMessages

variable {α : Type} {f : HostEvent → Option α}

/-- What is read off messages alone, other events do not change. -/
theorem filterMap_tell (hf : ∀ e : HostEvent, e.isMessage = false → f e = none) (h : Host)
    {es : List HostEvent} (hes : ∀ e ∈ es, e.isMessage = false) :
    (h.tell es).events.filterMap f = h.events.filterMap f := by
  have hnone : es.filterMap f = [] := List.filterMap_eq_nil_iff.mpr fun e he => hf e (hes e he)
  rw [tell, List.filterMap_append, hnone, List.append_nil]

/-- Taking the edit block tells no message. -/
theorem filterMap_acquire (hf : ∀ e : HostEvent, e.isMessage = false → f e = none) (h : Host)
    (net : Option NetCode) : (h.acquire net).events.filterMap f = h.events.filterMap f := by
  have htaken : (h.tell acquireGroup).events.filterMap f = h.events.filterMap f :=
    filterMap_tell hf h (by decide)
  cases net with
  | none => exact htaken
  | some net =>
      rw [← htaken]
      exact filterMap_tell hf (h.tell acquireGroup) (by simp [HostEvent.isMessage])

/-- Giving it back tells none either. -/
theorem filterMap_release (hf : ∀ e : HostEvent, e.isMessage = false → f e = none) (h : Host) :
    h.release.events.filterMap f = h.events.filterMap f := by
  have hgroup : ∀ e ∈ .previewCleared :: .highlight none :: releaseGroup, e.isMessage = false := by
    decide
  exact filterMap_tell hf h hgroup

end OfMessages

/-- Taking the edit block makes it one deeper. -/
theorem blockDepth_acquire (h : Host) (net : Option NetCode) :
    (h.acquire net).blockDepth = h.blockDepth + 1 := by
  cases net <;> rfl

/-- Giving the edit block back is one group of events. -/
theorem guardEvents_release (h : Host) : h.release.guardEvents = h.guardEvents ++ releaseGroup :=
  List.filter_append ..

/-- Whoever lets go of the host also takes the highlight away. -/
theorem highlighted_release (h : Host) : h.release.highlighted = none := by
  show ((h.events ++ _).reverse.findSome? _).join = none
  rw [List.reverse_append]
  rfl

/-- Taking hold of a host that nothing holds. -/
theorem Holds.acquire {h : Host} (hold : h.Holds false) (net : Option NetCode) :
    (h.acquire net).Holds true := by
  obtain ⟨n, hn⟩ := hold.groups
  refine ⟨?_, ⟨n, ?_⟩, fun hfalse => by cases hfalse⟩
  · rw [blockDepth_acquire, hold.depth]
    rfl
  · rw [guardEvents_acquire, hn]
    simp

/-- Letting go of a held host. -/
theorem Holds.release {h : Host} (hold : h.Holds true) : h.release.Holds false := by
  obtain ⟨n, hn⟩ := hold.groups
  refine ⟨?_, ⟨n + 1, ?_⟩, fun _ => highlighted_release h⟩
  · show h.blockDepth - 1 = 0
    rw [hold.depth]
    rfl
  · rw [guardEvents_release, hn, List.replicate_succ', List.flatten_append]
    simp

/-- The answer that a host will give has nothing to do with what holds it. -/
theorem Holds.answering {h : Host} {held : Bool} (hold : h.Holds held) (confirms : Bool) :
    Holds { h with confirms := confirms } held :=
  ⟨hold.depth, hold.groups, hold.dark⟩

/-- The second host was told messages and questions more than the first. -/
structure Told (h h' : Host) : Prop where
  messages : ∃ es, h'.events = h.events ++ es ∧ ∀ e ∈ es, e.isMessage
  depth : h'.blockDepth = h.blockDepth

theorem Told.refl (h : Host) : h.Told h := ⟨⟨[], by simp⟩, rfl⟩

/-- Messages may follow messages. -/
theorem Told.trans {h₁ h₂ h₃ : Host} (h₁₂ : h₁.Told h₂) (h₂₃ : h₂.Told h₃) : h₁.Told h₃ := by
  obtain ⟨es, hes, hmes⟩ := h₁₂.messages
  obtain ⟨fs, hfs, hmfs⟩ := h₂₃.messages
  refine ⟨⟨es ++ fs, by rw [hfs, hes, List.append_assoc], ?_⟩, h₂₃.depth.trans h₁₂.depth⟩
  intro e he
  rcases List.mem_append.mp he with h | h
  · exact hmes e h
  · exact hmfs e h

/-- A notification is a message. -/
theorem told_notify (h : Host) (n : Notification) : h.Told (h.notify n) :=
  ⟨⟨[.notified n], rfl, by simp [HostEvent.isMessage]⟩, rfl⟩

/-- A question is a message. -/
theorem told_ask (h : Host) (q : Question) : h.Told (h.ask q).1 :=
  ⟨⟨[.asked q], rfl, by simp [HostEvent.isMessage]⟩, rfl⟩

/-- No message guards anything. -/
private theorem not_isGuard_of_isMessage {e : HostEvent} (he : e.isMessage) :
    e.isGuard = false := by
  cases e <;> simp_all [HostEvent.isMessage, HostEvent.isGuard]

/-- No message highlights a net. -/
private theorem highlight?_of_isMessage {e : HostEvent} (he : e.isMessage) :
    e.highlight? = none := by
  cases e <;> simp_all [HostEvent.isMessage, HostEvent.highlight?]

/-- Messages leave the edit block alone. -/
theorem Told.guardEvents_eq {h h' : Host} (told : h.Told h') : h'.guardEvents = h.guardEvents := by
  obtain ⟨es, hes, hm⟩ := told.messages
  have hnone : es.filter HostEvent.isGuard = [] :=
    List.filter_eq_nil_iff.mpr fun e he => by simp [not_isGuard_of_isMessage (hm e he)]
  rw [guardEvents, hes, List.filter_append, hnone, List.append_nil, guardEvents]

/-- Messages leave the highlighted net alone. -/
theorem Told.highlighted_eq {h h' : Host} (told : h.Told h') : h'.highlighted = h.highlighted := by
  obtain ⟨es, hes, hm⟩ := told.messages
  have hnone : es.reverse.findSome? HostEvent.highlight? = none :=
    List.findSome?_eq_none_iff.mpr fun e he =>
      highlight?_of_isMessage (hm e (List.mem_reverse.mp he))
  rw [highlighted, hes, List.reverse_append, List.findSome?_append, hnone, Option.none_or,
    highlighted]

/-- Messages and questions leave every hold as it is. -/
theorem Told.holds {h h' : Host} {held : Bool} (told : h.Told h') (hold : h.Holds held) :
    h'.Holds held :=
  ⟨told.depth.trans hold.depth, told.guardEvents_eq ▸ hold.groups,
    fun hfalse => told.highlighted_eq.trans (hold.dark hfalse)⟩

end Host

end CopperRoute
