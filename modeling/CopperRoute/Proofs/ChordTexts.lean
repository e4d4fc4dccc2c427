import Mathlib.Data.List.DropRight
import CopperRoute.Keys.Registry
import CopperRoute.Proofs.UpperCase

/-!
# Chords that are written and read again

A chord that is displayed can be read again, and mostly comes back.  The plus sign that is a key of
its own does, because it is looked for at the end of the text; what upper case has made of a key
does, because upper case is settled.

White space is another matter.  It is cut off around a text before the text is taken apart, so what
stands behind the last plus sign keeps its white space in front: `+ a` is the key ` a` without a
modifier.  In the display nothing stands in front of that key, its white space is cut off, and it is
read as another chord.  A binding that is written back in this way no longer answers to its text.

So a chord comes back exactly when it is not **exposed** (`KeyChord.Exposed`,
`KeyChord.parse_display_iff`), and then a table of bindings means the same with its display in the
place of its text.
-/

namespace CopperRoute

namespace Text

variable {cs : List Char}

theorem trim_eq_rdropWhile (cs : List Char) :
    trim cs = (cs.dropWhile isBlank).rdropWhile isBlank := rfl

/-- A trimmed text does not end in white space. -/
theorem isBlank_getLast_trim (h : trim cs ≠ []) : isBlank ((trim cs).getLast h) = false :=
  Bool.eq_false_iff.mpr (List.rdropWhile_last_not isBlank _ h)

/-- Nor does it begin with any. -/
theorem isBlank_head_trim (h : trim cs ≠ []) : isBlank ((trim cs).head h) = false := by
  have hfront : trim cs <+: cs.dropWhile isBlank := List.rdropWhile_prefix isBlank _
  rw [hfront.head h]
  exact List.head_dropWhile_not isBlank _

/-- Trimming adds no character. -/
theorem mem_of_mem_trim {c : Char} (h : c ∈ trim cs) : c ∈ cs :=
  (List.dropWhile_sublist isBlank).subset ((List.rdropWhile_prefix isBlank _).subset h)

/-- A text without white space at its ends is left as it is. -/
theorem trim_eq_self (h : cs ≠ []) (hfirst : isBlank (cs.head h) = false)
    (hlast : isBlank (cs.getLast h) = false) : trim cs = cs := by
  have hfront : cs.dropWhile isBlank = cs := by
    refine List.dropWhile_eq_self_iff.mpr fun hpos => ?_
    rw [← List.head_eq_getElem_zero h, hfirst]
    exact Bool.false_ne_true
  rw [trim_eq_rdropWhile, hfront]
  refine List.rdropWhile_eq_self_iff.mpr fun _ => ?_
  rw [hlast]
  exact Bool.false_ne_true

/-- Where a character counts, something is left. -/
theorem trim_ne_nil {c : Char} (hmem : c ∈ cs) (hc : isBlank c = false) : trim cs ≠ [] := by
  intro hempty
  rw [trim_eq_rdropWhile, List.rdropWhile_eq_nil_iff] at hempty
  have hback : c ∈ cs.dropWhile isBlank := by
    have hsplit := List.takeWhile_append_dropWhile (p := isBlank) (l := cs)
    rw [← hsplit, List.mem_append] at hmem
    refine hmem.resolve_left fun hfront => ?_
    have hblank := List.mem_takeWhile_imp hfront
    rw [hc] at hblank
    exact Bool.false_ne_true hblank
  have hblank := hempty c hback
  rw [hc] at hblank
  exact Bool.false_ne_true hblank

end Text

namespace KeyChord

open Text

variable {s : String} {c c' : KeyChord} {modifiers key : List Char}

/-- **Undivided**: the plus sign, or a text without one.  No plus sign in it is a separator. -/
def Undivided (key : List Char) : Prop := key = ['+'] ∨ '+' ∉ key

/-- A key without a plus sign has none when it is read backwards. -/
theorem ne_plus_of_notMem (h : '+' ∉ key) : ∀ x ∈ key.reverse, (x != '+') = true := by
  intro x hx
  rw [bne_iff_ne]
  rintro rfl
  exact h (List.mem_reverse.mp hx)

/-- A text without a plus sign is a key without modifiers. -/
theorem splitKey_of_notMem (h : '+' ∉ key) : splitKey key = ([], key) := by
  have hall := ne_plus_of_notMem h
  rw [splitKey, List.takeWhile_eq_self_iff.mpr hall, List.dropWhile_eq_nil_iff.mpr hall,
    List.reverse_reverse]
  rfl

/-- The last plus sign parts the modifiers from the key. -/
theorem splitKey_append (h : '+' ∉ key) :
    splitKey (modifiers ++ '+' :: key) = (modifiers, key) := by
  have hall := ne_plus_of_notMem h
  have hreverse : (modifiers ++ '+' :: key).reverse = key.reverse ++ '+' :: modifiers.reverse := by
    simp
  rw [splitKey, hreverse, List.takeWhile_append_of_pos hall, List.dropWhile_append_of_pos hall]
  simp

/-- **A key without modifiers** is the whole text. -/
theorem modifiersAndKey_self (hplus : Undivided key) : modifiersAndKey key = ([], key) := by
  rcases hplus with rfl | hplus
  · rfl
  · have hlone : key ≠ ['+'] := by
      rintro rfl
      exact hplus List.mem_cons_self
    have htwo : ¬ ['+', '+'] <:+ key := fun hsuffix => hplus (hsuffix.mem List.mem_cons_self)
    rw [modifiersAndKey, if_neg hlone, if_neg htwo, splitKey_of_notMem hplus]

/-- **A key behind a plus sign** is found again. -/
theorem modifiersAndKey_append (hkey : key ≠ []) (hplus : Undivided key) :
    modifiersAndKey (modifiers ++ '+' :: key) = (modifiers, key) := by
  have hlone : modifiers ++ '+' :: key ≠ ['+'] := by
    intro hsame
    have hlength := congrArg List.length hsame
    have hpos := List.length_pos_of_ne_nil hkey
    simp only [List.length_append, List.length_cons, List.length_nil] at hlength
    omega
  rw [modifiersAndKey, if_neg hlone]
  rcases hplus with rfl | hplus
  · rw [if_pos (List.suffix_append modifiers ['+', '+'])]
    simp
  · -- a second plus sign at the end would be one in the key
    have htwo : ¬ ['+', '+'] <:+ modifiers ++ '+' :: key := by
      intro hsuffix
      have hlast := hsuffix.getLast (List.cons_ne_nil _ _)
      rw [List.getLast_append_of_ne_nil _ (List.cons_ne_nil _ _), List.getLast_cons hkey] at hlast
      have hplain : '+' = key.getLast hkey := hlast
      exact hplus (hplain ▸ List.getLast_mem hkey)
    rw [if_neg htwo, splitKey_append hplus]

/-- The key of a text is not divided any further. -/
theorem undivided_modifiersAndKey (cs : List Char) : Undivided (modifiersAndKey cs).2 := by
  unfold modifiersAndKey
  split
  · exact .inl rfl
  · split
    · exact .inl rfl
    · refine .inr fun hmem => ?_
      have hother := List.mem_takeWhile_imp (List.mem_reverse.mp hmem)
      simp at hother

/-- The key stands at the end of the text. -/
theorem suffix_modifiersAndKey (cs : List Char) : (modifiersAndKey cs).2 <:+ cs := by
  unfold modifiersAndKey
  split
  · next hlone => exact hlone ▸ List.suffix_refl _
  · split
    · next htwo => exact (List.suffix_append ['+'] ['+']).trans htwo
    · exact List.rtakeWhile_suffix (fun x => x != '+') cs

/-- **A key as a chord keeps it**: an undivided text with no white space at its end, in upper case
where it is a single character. -/
structure IsKey (key : List Char) : Prop where
  nonempty : key ≠ []
  undivided : Undivided key
  last : isBlank (key.getLast nonempty) = false
  settled : keyName key = String.ofList key

/-- Something of a key is left when it is trimmed. -/
theorem IsKey.trim_ne_nil (hkey : IsKey key) : trim key ≠ [] :=
  Text.trim_ne_nil (List.getLast_mem hkey.nonempty) hkey.last

/-- A key's name is its text, unless it is a single character. -/
theorem toList_keyName (key : List Char) :
    (∃ x, key = [x] ∧ (keyName key).toList = uppercase x) ∨
      (keyName key).toList = key ∧ keyName key = String.ofList key := by
  unfold keyName
  split
  · next x => exact .inl ⟨x, rfl, String.toList_ofList⟩
  · exact .inr ⟨String.toList_ofList, rfl⟩

/-- What upper case makes of a character that is no white space is none. -/
theorem isBlank_of_mem_uppercase {x y : Char} (hx : isBlank x = false) (hy : y ∈ uppercase x) :
    isBlank y = false := by
  rcases mem_uppercase hy with rfl | hinert
  · exact hx
  · exact hinert.1

/-- Upper case makes a plus sign of nothing else. -/
theorem undivided_uppercase (x : Char) : Undivided (uppercase x) := by
  by_cases hx : x = '+'
  · subst hx
    exact .inl (by decide +kernel)
  · refine .inr fun hmem => ?_
    rcases mem_uppercase hmem with hsame | hinert
    · exact hx hsame.symm
    · exact hinert.2 rfl

/-- **Naming a key** makes it one that a chord keeps. -/
theorem isKey_keyName (hkey : key ≠ []) (hplus : Undivided key)
    (hlast : isBlank (key.getLast hkey) = false) : IsKey (keyName key).toList := by
  rcases toList_keyName key with ⟨x, rfl, hname⟩ | ⟨hname, hsettled⟩
  · rw [hname]
    refine ⟨uppercase_ne_nil x, undivided_uppercase x, ?_, ?_⟩
    · exact isBlank_of_mem_uppercase hlast (List.getLast_mem _)
    · -- a single capital stays; an expansion is no single character and is not named again
      unfold keyName
      split
      · next y hy => rw [uppercase_settled hy, hy]
      · rfl
  · rw [hname]
    exact ⟨hkey, hplus, hlast, hsettled⟩

/-- A name begins with white space only where the key does. -/
theorem isBlank_head_keyName (hkey : key ≠ []) (hfirst : isBlank (key.head hkey) = false) :
    (keyName key).toList.head?.any isBlank = false := by
  rcases toList_keyName key with ⟨x, rfl, hname⟩ | ⟨hname, -⟩
  · rw [hname, List.head?_eq_some_head (uppercase_ne_nil x), Option.any_some]
    exact isBlank_of_mem_uppercase hfirst (List.head_mem _)
  · rw [hname, List.head?_eq_some_head hkey, Option.any_some]
    exact hfirst

/-- A modifier leaves the key alone. -/
theorem key_addModifier (h : c.addModifier modifiers = .ok c') : c'.key = c.key := by
  unfold addModifier at h
  split at h <;> cases h <;> rfl

/-- Any number of modifiers leave the key alone. -/
theorem key_foldlM_addModifier {names : List (List Char)}
    (h : names.foldlM addModifier c = .ok c') : c'.key = c.key := by
  induction names generalizing c with
  | nil =>
      cases h
      rfl
  | cons name names ih =>
      rw [List.foldlM_cons] at h
      cases hname : c.addModifier name with
      | error e =>
          rw [hname] at h
          cases h
      | ok c₁ =>
          rw [hname] at h
          rw [ih h, key_addModifier hname]

/-- **Every chord that is read** keeps such a key: it stands at the end of a trimmed text. -/
theorem isKey_of_parse (h : parse s = .ok c) : IsKey c.key.toList := by
  unfold parse at h
  simp only at h
  split at h
  · cases h
  · next hsome =>
      simp only [Bool.or_eq_true, List.isEmpty_iff, not_or] at hsome
      obtain ⟨htrim, hkey⟩ := hsome
      have hsuffix := suffix_modifiersAndKey (trim s.toList)
      rw [key_foldlM_addModifier h]
      refine isKey_keyName hkey (undivided_modifiersAndKey _) ?_
      rw [hsuffix.getLast hkey]
      exact isBlank_getLast_trim _

/-- The modifiers of a chord as its display has them, less the plus sign in front of the key. -/
def modifierText (c : KeyChord) : List Char :=
  ['+'].intercalate ((if c.ctrl then ["Ctrl".toList] else []) ++
    (if c.shift then ["Shift".toList] else []) ++ if c.alt then ["Alt".toList] else [])

/-- The modifiers of a display are read as they were. -/
theorem foldlM_modifierText (c : KeyChord) :
    ((pieces c.modifierText).filter fun m => !m.isEmpty).foldlM addModifier
      ⟨false, false, false, c.key⟩ = .ok c := by
  obtain ⟨ctrl, shift, alt, key⟩ := c
  cases ctrl <;> cases shift <;> cases alt <;> rfl

/-- A text is read as a chord when its modifiers and its key are. -/
theorem parse_of_modifiersAndKey (hkey : key ≠ [])
    (h : modifiersAndKey (trim s.toList) = (c.modifierText, key)) (hname : keyName key = c.key) :
    parse s = .ok c := by
  have htrim : trim s.toList ≠ [] := by
    intro hempty
    rw [hempty] at h
    exact hkey (congrArg Prod.snd h).symm
  unfold parse
  simp only [h, hname]
  rw [if_neg (by simp [htrim, hkey])]
  exact foldlM_modifierText c

/-- **The display of a chord** is its key, or its modifiers, a plus sign and its key. -/
theorem toList_display (c : KeyChord) :
    (c.ctrl = false ∧ c.shift = false ∧ c.alt = false ∧ c.modifierText = [] ∧
      c.display.toList = c.key.toList) ∨
    ∃ first rest, isBlank first = false ∧ c.modifierText = first :: rest ∧
      c.display.toList = c.modifierText ++ '+' :: c.key.toList := by
  obtain ⟨ctrl, shift, alt, key⟩ := c
  cases ctrl <;> cases shift <;> cases alt <;>
    simp [display, modifierText, List.intercalate, isBlank, blankBlocks]

/-- **An exposed chord**: its key begins with white space, and no modifier stands in front
of it. -/
structure Exposed (c : KeyChord) : Prop where
  ctrl : c.ctrl = false
  shift : c.shift = false
  alt : c.alt = false
  blank : c.key.toList.head?.any isBlank = true

/-- A chord that is not exposed comes back from its text. -/
theorem parse_display_of_not_exposed (hkey : IsKey c.key.toList) (h : ¬ c.Exposed) :
    parse c.display = .ok c := by
  have hname : keyName c.key.toList = c.key := hkey.settled.trans String.ofList_toList
  rcases toList_display c with ⟨hctrl, hshift, halt, hbare, hdisplay⟩ |
      ⟨first, rest, hfirst, hmodifiers, hdisplay⟩
  · have hhead : isBlank (c.key.toList.head hkey.nonempty) = false := by
      refine Bool.eq_false_iff.mpr fun hblank => h ⟨hctrl, hshift, halt, ?_⟩
      rw [List.head?_eq_some_head hkey.nonempty, Option.any_some]
      exact hblank
    refine parse_of_modifiersAndKey hkey.nonempty ?_ hname
    rw [hdisplay, trim_eq_self hkey.nonempty hhead hkey.last, modifiersAndKey_self hkey.undivided, hbare]
  · have hends : isBlank ((c.modifierText ++ '+' :: c.key.toList).getLast (by simp)) = false := by
      rw [List.getLast_append_of_ne_nil _ (List.cons_ne_nil _ _), List.getLast_cons hkey.nonempty]
      exact hkey.last
    have hbegins : isBlank ((c.modifierText ++ '+' :: c.key.toList).head (by simp)) = false := by
      simpa [hmodifiers] using hfirst
    refine parse_of_modifiersAndKey hkey.nonempty ?_ hname
    rw [hdisplay, trim_eq_self _ hbegins hends, modifiersAndKey_append hkey.nonempty hkey.undivided]

/-- **The display of an exposed chord** is read as the chord of its key without the white space. -/
theorem parse_display_of_exposed (hkey : IsKey c.key.toList) (h : c.Exposed) :
    parse c.display = .ok { c with key := keyName (trim c.key.toList) } := by
  obtain ⟨hctrl, hshift, halt, hblank⟩ := h
  have hplain : '+' ∉ c.key.toList := by
    refine hkey.undivided.resolve_left fun hplus => ?_
    rw [hplus] at hblank
    exact absurd hblank (by decide)
  have hrest := hkey.trim_ne_nil
  have hbare : modifierText { c with key := keyName (trim c.key.toList) } = [] := by
    simp [modifierText, hctrl, hshift, halt]
  have hdisplay : c.display.toList = c.key.toList := by
    simp [display, hctrl, hshift, halt]
  refine parse_of_modifiersAndKey hrest ?_ rfl
  rw [hdisplay, hbare, modifiersAndKey_self (.inr fun hplus => hplain (mem_of_mem_trim hplus))]

/-- And that is another chord. -/
theorem ne_of_exposed (hkey : IsKey c.key.toList) (h : c.Exposed) :
    { c with key := keyName (trim c.key.toList) } ≠ c := by
  have hrest := hkey.trim_ne_nil
  have hfirst := isBlank_head_keyName hrest (isBlank_head_trim hrest)
  intro hsame
  have hname : keyName (trim c.key.toList) = c.key := congrArg KeyChord.key hsame
  rw [hname, h.blank] at hfirst
  exact Bool.false_ne_true hfirst.symm

end KeyChord

namespace ActionRegistry

variable {r : ActionRegistry} {c c' : KeyChord} {s : String}

/-- A binding of another chord does not matter. -/
theorem actionFor_bind_of_ne (hother : c' ≠ c) (action : RouterAction) :
    (r.bind c' action).actionFor c = r.actionFor c := by
  rw [actionFor, bind, Keyed.find?_put, if_neg hother]
  rfl

/-- A binding of another chord does not change what a text does. -/
theorem resolve_bindText_of_ne {text : String} (hs : KeyChord.parse s = .ok c)
    (htext : KeyChord.parse text = .ok c') (hother : c' ≠ c) (name : String) :
    (r.bindText (text, name)).resolve s = r.resolve s := by
  unfold bindText
  split
  · next chord action hchord _ =>
      cases htext.symm.trans hchord
      simp only [resolve, hs]
      exact actionFor_bind_of_ne hother action
  · rfl

/-- **A table means the same** with another text for the same chord in it. -/
theorem ofTable_of_parse_eq {text : String} (h : KeyChord.parse text = KeyChord.parse s)
    (before after : List (String × String)) (name : String) :
    ofTable (before ++ (text, name) :: after) = ofTable (before ++ (s, name) :: after) := by
  simp only [ofTable, List.foldl_append, List.foldl_cons, bindText, h]

end ActionRegistry

namespace KeyChord

variable {s : String} {c : KeyChord}

/-- **A chord that was read comes back** from its display exactly when it is not exposed.  Then its
display can stand for its text in every table of bindings.  An exposed chord is read as the chord of
its key without the white space, and a binding of its display is none of its text. -/
theorem parse_display_iff (h : parse s = .ok c) :
    (parse c.display = .ok c ↔ ¬ c.Exposed) ∧
      (¬ c.Exposed → ∀ before name after,
        ActionRegistry.ofTable (before ++ (c.display, name) :: after) =
          ActionRegistry.ofTable (before ++ (s, name) :: after)) ∧
      (c.Exposed →
        parse c.display = .ok { c with key := keyName (Text.trim c.key.toList) } ∧
        ∀ (r : ActionRegistry) name, (r.bindText (c.display, name)).resolve s = r.resolve s) := by
  have hkey := isKey_of_parse h
  refine ⟨⟨fun hback hexposed => ?_, parse_display_of_not_exposed hkey⟩, ?_, ?_⟩
  · have hother := parse_display_of_exposed hkey hexposed
    exact ne_of_exposed hkey hexposed (Except.ok.inj (hother.symm.trans hback))
  · intro hshown before name after
    have hback := parse_display_of_not_exposed hkey hshown
    exact ActionRegistry.ofTable_of_parse_eq (hback.trans h.symm) before after name
  · intro hexposed
    have hother := parse_display_of_exposed hkey hexposed
    exact ⟨hother, fun r name =>
      ActionRegistry.resolve_bindText_of_ne h hother (ne_of_exposed hkey hexposed) name⟩

/-- Another spelling of a modifier, and a key whose upper case is two characters. -/
theorem parse_display_iff_expanded :
    let c : KeyChord := ⟨true, true, false, "SS"⟩
    parse "shift+strg+ß" = .ok c ∧ ¬ c.Exposed ∧ c.display = "Ctrl+Shift+SS" ∧
      parse c.display = .ok c ∧
      ActionRegistry.ofTable [(c.display, "Cancel"), ("V", "PlaceThroughVia")] =
        ActionRegistry.ofTable [("shift+strg+ß", "Cancel"), ("V", "PlaceThroughVia")] := by
  intro c
  have hread : parse "shift+strg+ß" = .ok c := by decide +kernel
  have hshown : ¬ c.Exposed := fun hexposed => Bool.noConfusion hexposed.ctrl
  obtain ⟨hback, htable, -⟩ := parse_display_iff hread
  exact ⟨hread, hshown, by decide +kernel, hback.mpr hshown,
    htable hshown [] "Cancel" [("V", "PlaceThroughVia")]⟩

/-- **Not every chord comes back.**  The key behind a lone plus sign keeps its white space, and in
the display the white space is all that is in front of it. -/
theorem not_parse_display :
    ¬ ∀ (s : String) (c : KeyChord), parse s = .ok c → parse c.display = .ok c := by
  intro h
  have hread : parse "+ a" = .ok ⟨false, false, false, " a"⟩ := by decide +kernel
  have hother : parse (display ⟨false, false, false, " a"⟩) = .ok ⟨false, false, false, "A"⟩ := by
    decide +kernel
  have hback := (h _ _ hread).symm.trans hother
  exact absurd hback (by decide)

end KeyChord

end CopperRoute
