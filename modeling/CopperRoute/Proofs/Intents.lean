import CopperRoute.Proofs.Lifecycle
import CopperRoute.Tool.Intent

/-!
# Runs of intents

The host speaks to the tool in intents.  An **occasion** is one intent together with
the answer that the host gives if it is asked meanwhile, and with the request to break
off that may have come before.  A tool **serves** its occasions in order; a fault ends
the service, a refused command does not.

Serving is running.  The commands that an intent leads to are turns of the tool
(`attend_run`), so that everything about runs of turns carries over: what holds
throughout the turns of every occasion (`Tool.Serving`) holds throughout the service.

* `serving_always_of_invariant`: a property that follows from what every turn preserves.
* `serving_always_of_avoids`, `serving_always_iff_avoids`: a property that holds as
  long as no command does a certain thing, or exactly that long.
* `serving_throughout_of_invariant`, `serving_throughout_iff_avoids`: the same of what every
  single turn does (`Tool.Throughout`).
-/

namespace CopperRoute

/-- An intent, and what the host adds to it. -/
structure Occasion where
  intent : Intent
  /-- The answer to a question that the intent leads to. -/
  confirms : Bool
  /-- Before the intent, breaking off was requested. -/
  cancels : Bool
  deriving DecidableEq, Repr, Inhabited

namespace Tool

/-- The tool as an intent finds it. -/
def approached (t : Tool) (o : Occasion) : Tool :=
  { t.answering o.confirms with cancelRequested := t.cancelRequested || o.cancels }

/-- The tool as the commands of an intent find it: the request to break off is taken
up. -/
def prompted (t : Tool) (o : Occasion) : Tool :=
  { t.answering o.confirms with cancelRequested := false }

/-- Do what is wanted on an occasion. -/
def attend (t : Tool) (o : Occasion) : Checked IntentOutcome :=
  (t.approached o).handleIntent o.intent

/-- Attend to occasions in order. -/
def serve (t : Tool) : List Occasion → Checked Tool
  | [] => .ok t
  | o :: os => do (← t.attend o).tool.serve os

/-- Commands as turns, with the answers that the host gives anyway.  There are none
behind a command that is refused. -/
def turnsFor (t : Tool) : List Command → List Turn
  | [] => []
  | c :: cs =>
    ⟨c, t.host.confirms⟩ ::
      match t.handle c with
      | .ok (u, none) => u.turnsFor cs
      | _ => []

theorem Orderly.prompted {t : Tool} (ht : t.Orderly) (o : Occasion) : (t.prompted o).Orderly :=
  ⟨ht.rest, ht.hold.answering o.confirms⟩

theorem serve_cons_eq_ok {t t' : Tool} {o : Occasion} {os : List Occasion} :
    t.serve (o :: os) = .ok t' ↔ ∃ out, t.attend o = .ok out ∧ out.tool.serve os = .ok t' := by
  rw [serve, Checked.bind_eq_ok]

/-- A turn with the host's own answer handles its command. -/
theorem turn_own (t : Tool) (c : Command) :
    t.turn ⟨c, t.host.confirms⟩ = do return (← t.handle c).1 := rfl

theorem turnsFor_cons {t u : Tool} {c : Command} (h : t.handle c = .ok (u, none))
    (cs : List Command) : t.turnsFor (c :: cs) = ⟨c, t.host.confirms⟩ :: u.turnsFor cs := by
  rw [turnsFor, h]

theorem turnsFor_single (t : Tool) (c : Command) : t.turnsFor [c] = [⟨c, t.host.confirms⟩] := by
  rw [turnsFor]
  split <;> rfl

/-- Handling commands is running their turns. -/
theorem handleAll_run {t : Tool} {cs : List Command} {out : IntentOutcome}
    (h : t.handleAll cs = .ok out) : t.run (t.turnsFor out.commands) = .ok out.tool := by
  induction cs generalizing t out with
  | nil =>
      cases h
      rfl
  | cons c cs ih =>
      obtain ⟨⟨u, refusal⟩, hhandle, h⟩ := Checked.bind_eq_ok.mp h
      have hturn : t.turn ⟨c, t.host.confirms⟩ = .ok u := by
        rw [turn_own, hhandle]
        rfl
      cases refusal with
      | none =>
          obtain ⟨rest, hrest, h⟩ := Checked.bind_eq_ok.mp h
          cases h
          rw [turnsFor_cons hhandle]
          exact run_cons_eq_ok.mpr ⟨u, hturn, ih hrest⟩
      | some refusal =>
          cases h
          rw [turnsFor_single]
          exact run_cons_eq_ok.mpr ⟨u, hturn, rfl⟩

/-- Behind commands that are not refused, the turns go on. -/
theorem turnsFor_append {t : Tool} {cs : List Command} {out : IntentOutcome}
    (h : t.handleAll cs = .ok out) (hdone : out.refusal = none) (more : List Command) :
    t.turnsFor (out.commands ++ more) = t.turnsFor out.commands ++ out.tool.turnsFor more := by
  induction cs generalizing t out with
  | nil =>
      cases h
      rfl
  | cons c cs ih =>
      obtain ⟨⟨u, refusal⟩, hhandle, h⟩ := Checked.bind_eq_ok.mp h
      cases refusal with
      | none =>
          obtain ⟨rest, hrest, h⟩ := Checked.bind_eq_ok.mp h
          cases h
          have htail := ih hrest hdone
          rw [List.cons_append, turnsFor_cons hhandle, turnsFor_cons hhandle, htail,
            List.cons_append]
      | some refusal =>
          cases h
          cases hdone

theorem run_append {t u t' : Tool} {ks ls : List Turn} (h : t.run ks = .ok u)
    (h' : u.run ls = .ok t') : t.run (ks ++ ls) = .ok t' := by
  induction ks generalizing t with
  | nil =>
      cases h
      exact h'
  | cons k ks ih =>
      obtain ⟨v, hturn, hrest⟩ := run_cons_eq_ok.mp h
      exact run_cons_eq_ok.mpr ⟨v, hturn, ih hrest⟩

/-- **An intent is a run.**  What becomes of it is what its commands do as turns. -/
theorem attend_run {t : Tool} {o : Occasion} {out : IntentOutcome} (h : t.attend o = .ok out) :
    (t.prompted o).run ((t.prompted o).turnsFor out.commands) = .ok out.tool := by
  obtain ⟨first, hfirst, h⟩ := Checked.bind_eq_ok.mp h
  have hstart : (t.prompted o).handleAll
      (if t.cancelRequested || o.cancels then (t.approached o).endRunning else []) = .ok first :=
    hfirst
  split at h
  · cases h
    exact handleAll_run hstart
  · next hrefusal =>
      obtain ⟨cs, _, h⟩ := Checked.bind_eq_ok.mp h
      obtain ⟨second, hsecond, h⟩ := Checked.bind_eq_ok.mp h
      cases h
      have hdone : first.refusal = none := by simpa using hrefusal
      rw [turnsFor_append hstart hdone]
      exact run_append (handleAll_run hstart) (handleAll_run hsecond)

/-- The turns of every occasion, from the state in which they find the tool, satisfy
`A`. -/
def Serving (A : Tool → List Turn → Prop) (t : Tool) : List Occasion → Prop
  | [] => A t []
  | o :: os => ∀ out, t.attend o = .ok out →
      A (t.prompted o) ((t.prompted o).turnsFor out.commands) ∧ out.tool.Serving A os

/-- What one run yields under a condition that it keeps, a service yields. -/
theorem Serving.imp {A B : Tool → List Turn → Prop} {J : Tool → Prop}
    (hprompt : ∀ t o, J t → J (t.prompted o))
    (hrun : ∀ t ks, J t → A t ks → B t ks ∧ ∀ t', t.run ks = .ok t' → J t')
    {t : Tool} {os : List Occasion} (hJ : J t) (h : t.Serving A os) : t.Serving B os := by
  induction os generalizing t with
  | nil => exact (hrun t [] hJ h).1
  | cons o os ih =>
      intro out hattend
      obtain ⟨hturns, hrest⟩ := h out hattend
      obtain ⟨hhere, hkept⟩ := hrun _ _ (hprompt t o hJ) hturns
      exact ⟨hhere, ih (hkept _ (attend_run hattend)) hrest⟩

/-- What two properties of runs yield together, they yield together for a service. -/
theorem Serving.and {A B C : Tool → List Turn → Prop} (hand : ∀ t ks, A t ks → B t ks → C t ks)
    {t : Tool} {os : List Occasion} (hA : t.Serving A os) (hB : t.Serving B os) :
    t.Serving C os := by
  induction os generalizing t with
  | nil => exact hand t [] hA hB
  | cons o os ih =>
      intro out hattend
      obtain ⟨hhere, hrest⟩ := hA out hattend
      obtain ⟨hhere', hrest'⟩ := hB out hattend
      exact ⟨hand _ _ hhere hhere', ih hrest hrest'⟩

/-- What a property of runs yields, it yields for a service. -/
theorem Serving.weaken {A B : Tool → List Turn → Prop} (himp : ∀ t ks, A t ks → B t ks)
    {t : Tool} {os : List Occasion} (h : t.Serving A os) : t.Serving B os :=
  h.and (fun t ks hA _ => himp t ks hA) h

/-- An occasion that leads to one command avoids what that command is not. -/
theorem serving_avoids_cons {bad : Tool → Command → Prop} {t u : Tool} {o : Occasion}
    {os : List Occasion} {c : Command} {refusal : Option CommandRefusal}
    (hattend : t.attend o = .ok ⟨u, [c], refusal⟩)
    (hgood : ¬ bad ((t.prompted o).ready ⟨c, o.confirms⟩) c) (hrest : u.Serving (Avoids bad) os) :
    t.Serving (Avoids bad) (o :: os) := by
  intro out hout
  cases hattend.symm.trans hout
  rw [turnsFor_single]
  exact ⟨fun _ _ => ⟨hgood, trivial⟩, hrest⟩

/-- What always holds in a service holds at its end. -/
theorem Serving.last {P : Tool → Prop} {t t' : Tool} {os : List Occasion}
    (h : t.Serving (Always P) os) (hserve : t.serve os = .ok t') : P t' := by
  induction os generalizing t with
  | nil =>
      cases hserve
      exact h
  | cons o os ih =>
      obtain ⟨out, hattend, hrest⟩ := serve_cons_eq_ok.mp hserve
      exact ih (h out hattend).2 hrest

/-- **Induction over services.**  What follows from an invariant of all turns holds
throughout every service. -/
theorem serving_always_of_invariant {I P : Tool → Prop}
    (hprompt : ∀ t o, I t → I (t.prompted o))
    (hturn : ∀ t k t', I t → t.turn k = .ok t' → I t') (hsuffices : ∀ t, I t → P t) {t : Tool}
    (hI : I t) (os : List Occasion) : t.Serving (Always P) os := by
  induction os generalizing t with
  | nil => exact hsuffices t hI
  | cons o os ih =>
      intro out hattend
      have hprompted := hprompt t o hI
      exact ⟨always_of_invariant hturn hsuffices hprompted _,
        ih (run_invariant hturn hprompted (attend_run hattend))⟩

/-- An invariant of the turns that are not bad, at the end of a run without bad turns. -/
theorem Avoids.invariant {bad : Tool → Command → Prop} {I : Tool → Prop}
    (hturn : ∀ t k t', I t → ¬ bad (t.ready k) k.command → t.turn k = .ok t' → I t')
    {t t' : Tool} {ks : List Turn} (hI : I t) (h : t.Avoids bad ks) (hrun : t.run ks = .ok t') :
    I t' := by
  induction ks generalizing t with
  | nil =>
      cases hrun
      exact hI
  | cons k ks ih =>
      obtain ⟨u, hu, hrest⟩ := run_cons_eq_ok.mp hrun
      obtain ⟨hgood, havoids⟩ := h u hu
      exact ih (hturn t k u hI hgood hu) havoids hrest

/-- What follows from an invariant of the turns that are not bad holds throughout a
service without bad commands. -/
theorem serving_always_of_avoids {bad : Tool → Command → Prop} {I P : Tool → Prop}
    (hprompt : ∀ t o, I t → I (t.prompted o))
    (hturn : ∀ t k t', I t → ¬ bad (t.ready k) k.command → t.turn k = .ok t' → I t')
    (hsuffices : ∀ t, I t → P t) {t : Tool} {os : List Occasion} (hI : I t)
    (h : t.Serving (Avoids bad) os) : t.Serving (Always P) os :=
  h.imp hprompt
    (fun _ _ hI havoids => ⟨always_of_avoids hturn hsuffices hI havoids,
      fun _ hrun => havoids.invariant hturn hI hrun⟩) hI

/-- **Exactly the bad commands break a property** throughout a service, as they do
throughout a run. -/
theorem serving_always_iff_avoids {bad : Tool → Command → Prop} {J P : Tool → Prop}
    (hprompt : ∀ t o, J t → J (t.prompted o))
    (hgood : ∀ t k t', J t → ¬ bad (t.ready k) k.command → t.turn k = .ok t' → J t')
    (hsuffices : ∀ t, J t → P t)
    (hbad : ∀ t k t', J t → t.turn k = .ok t' → P t' → ¬ bad (t.ready k) k.command)
    {t : Tool} {os : List Occasion} (hJ : J t) :
    t.Serving (Always P) os ↔ t.Serving (Avoids bad) os := by
  refine ⟨fun halways => ?_, serving_always_of_avoids hprompt hgood hsuffices hJ⟩
  refine halways.imp hprompt (fun t ks hJ h => ?_) hJ
  have havoids := (always_iff_avoids_of_kept hgood hsuffices hbad hJ).mp h
  exact ⟨havoids, fun t' hrun => havoids.invariant hgood hJ hrun⟩

/-- What an invariant of all turns yields for every turn, it yields for every turn of a
service. -/
theorem serving_throughout_of_invariant {I : Tool → Prop} {R : Tool → Command → Tool → Prop}
    (hprompt : ∀ t o, I t → I (t.prompted o))
    (hturn : ∀ t k t', I t → t.turn k = .ok t' → I t')
    (hstep : ∀ t k t', I t → t.turn k = .ok t' → R (t.ready k) k.command t') {t : Tool} (hI : I t)
    (os : List Occasion) : t.Serving (Throughout R) os :=
  (serving_always_of_invariant hprompt hturn (fun _ h => h) hI os).imp hprompt
    (fun _ ks hI _ => ⟨throughout_of_invariant hturn hstep hI ks,
      fun _ hrun => run_invariant hturn hI hrun⟩) hI

/-- **Exactly the bad commands break a relation** throughout a service, as they do
throughout a run. -/
theorem serving_throughout_iff_avoids {I : Tool → Prop} {R : Tool → Command → Tool → Prop}
    {bad : Tool → Command → Prop} (hprompt : ∀ t o, I t → I (t.prompted o))
    (hturn : ∀ t k t', I t → t.turn k = .ok t' → I t')
    (hstep : ∀ t k t', I t → t.turn k = .ok t' →
      (R (t.ready k) k.command t' ↔ ¬ bad (t.ready k) k.command)) {t : Tool} (hI : I t)
    (os : List Occasion) : t.Serving (Throughout R) os ↔ t.Serving (Avoids bad) os := by
  have hkept (t : Tool) (ks : List Turn) (hI : I t) (t' : Tool) (hrun : t.run ks = .ok t') : I t' :=
    run_invariant hturn hI hrun
  constructor
  · intro h
    exact h.imp hprompt (fun t ks hI hks =>
      ⟨(throughout_iff_avoids hturn hstep hI ks).mp hks, hkept t ks hI⟩) hI
  · intro h
    exact h.imp hprompt (fun t ks hI hks =>
      ⟨(throughout_iff_avoids hturn hstep hI ks).mpr hks, hkept t ks hI⟩) hI

/-- The turns of commands preserve what every turn with the host's own answer preserves. -/
theorem always_turnsFor {I : Tool → Prop}
    (hturn : ∀ t c t', I t → t.turn ⟨c, t.host.confirms⟩ = .ok t' → I t') {t : Tool} (hI : I t)
    (cs : List Command) : t.Always I (t.turnsFor cs) := by
  induction cs generalizing t with
  | nil => exact hI
  | cons c cs ih =>
      rw [turnsFor]
      refine ⟨hI, fun u hu => ?_⟩
      have hnext := hturn t c u hI hu
      rw [turn_own] at hu
      obtain ⟨⟨v, refusal⟩, hhandle, hu⟩ := Checked.bind_eq_ok.mp hu
      cases hu
      rw [hhandle]
      cases refusal with
      | none => exact ih hnext
      | some refusal => exact hnext

/-- What follows from an invariant of turns with the host's own answer holds throughout a
service, when the answers on its occasions start each of them with that invariant. -/
theorem serving_always_of_own {I P : Tool → Prop} {os : List Occasion}
    (hprompt : ∀ t, ∀ o ∈ os, I t → I (t.prompted o))
    (hturn : ∀ t c t', I t → t.turn ⟨c, t.host.confirms⟩ = .ok t' → I t')
    (hsuffices : ∀ t, I t → P t) {t : Tool} (hI : I t) : t.Serving (Always P) os := by
  induction os generalizing t with
  | nil => exact hsuffices t hI
  | cons o os ih =>
      intro out hattend
      have hprompted := hprompt t o List.mem_cons_self hI
      have halways := always_turnsFor hturn hprompted out.commands
      refine ⟨halways.imp hsuffices, ?_⟩
      refine ih (fun t o ho => hprompt t o (List.mem_cons_of_mem _ ho)) ?_
      exact halways.last (attend_run hattend)

end Tool

end CopperRoute
