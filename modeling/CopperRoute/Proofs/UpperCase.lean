import CopperRoute.Text.Blank
import CopperRoute.Text.Uppercase

/-!
# Upper case and the rest of the characters

Upper case is a table, and two things have to be known about its whole.

* It is **settled**: who asks for the upper case of a single capital gets that capital
  (`Text.uppercase_settled`).  No image of a run may be a letter of any run, or have an expansion.
  Two runs are told apart by where they lie, or, where capitals and small letters alternate, by
  whether their letters are even or odd (`Text.CaseRun.apart`).
* It is **inert**: it makes neither white space nor a plus sign of anything else
  (`Text.mem_uppercase`).

Both are checked run by run, not letter by letter: there are two hundred runs, and seven times as
many letters.
-/

namespace CopperRoute.Text

namespace CaseRun

/-- The number of the upper-case form of a letter of the run. -/
def upper (r : CaseRun) (n : Nat) : Nat := (n + r.offset).toNat

/-- No upper-case form lies in the block. -/
def clearOf (r : CaseRun) (block : Nat × Nat) : Bool :=
  (r.upper r.last).blt block.1 || block.2.blt (r.upper r.first)

/-- No upper-case form of `r` is a letter of `q`, as two numbers of each run show. -/
def apart (r q : CaseRun) : Bool :=
  r.clearOf (q.first, q.last) ||
    (q.step == 2 && (r.step == 2 || r.first == r.last) && (r.upper r.first + q.first) % 2 == 1)

variable {r q : CaseRun} {n : Nat}

/-- The upper-case forms lie between those of the first and of the last letter. -/
theorem upper_mem (hn : r.contains n = true) :
    r.upper r.first ≤ r.upper n ∧ r.upper n ≤ r.upper r.last := by
  simp only [contains, Bool.and_eq_true, decide_eq_true_eq] at hn
  unfold upper
  omega

/-- A run that is clear of a block leads out of it. -/
theorem outside_of_clearOf {block : Nat × Nat} (hclear : r.clearOf block = true)
    (hn : r.contains n = true) : r.upper n < block.1 ∨ block.2 < r.upper n := by
  obtain ⟨hfirst, hlast⟩ := upper_mem hn
  simp only [clearOf, Bool.or_eq_true, Nat.blt_eq] at hclear
  omega

/-- Upper case does not lead into a run that is apart. -/
theorem not_contains_upper (hlow : 0 ≤ r.first + r.offset) (hapart : r.apart q = true)
    (hn : r.contains n = true) : q.contains (r.upper n) = false := by
  rw [apart, Bool.or_eq_true] at hapart
  rcases hapart with hclear | hodd
  · have houtside := outside_of_clearOf hclear hn
    simp only [contains, Bool.and_eq_false_iff, decide_eq_false_iff_not]
    omega
  · -- the letters of `q` have the parity of the first, the upper-case forms of `r` the other
    simp only [Bool.and_eq_true, Bool.or_eq_true, beq_iff_eq] at hodd
    obtain ⟨⟨hstep, hkind⟩, hodd⟩ := hodd
    simp only [contains, Bool.and_eq_true, decide_eq_true_eq, beq_iff_eq] at hn
    obtain ⟨⟨hfirst, hlast⟩, hplace⟩ := hn
    have hparity : r.upper n % 2 = r.upper r.first % 2 := by
      unfold upper
      rcases hkind with htwo | hone
      · rw [htwo] at hplace
        omega
      · omega
    refine Bool.eq_false_iff.mpr fun hthere => ?_
    simp only [contains, Bool.and_eq_true, decide_eq_true_eq, beq_iff_eq, hstep] at hthere
    omega

end CaseRun

/-- What no upper-case form is: white space, a character that has an expansion, the plus sign, and
the numbers that stand for no character. -/
def reserved : List (Nat × Nat) :=
  blankBlocks ++ expansions.map (fun e => (e.1, e.1)) ++ [(0x2B, 0x2B), (0xD800, 0xDFFF)]

/-- No upper-case form of a run is a letter of a run. -/
theorem caseRuns_apart : (caseRuns.all fun r => caseRuns.all r.apart) = true := by
  decide +kernel

/-- All runs are clear of what is reserved. -/
theorem caseRuns_clearOf : (caseRuns.all fun r => reserved.all r.clearOf) = true := by
  decide +kernel

/-- The upper-case forms of all runs lie in the range of characters. -/
theorem caseRuns_bounded :
    ∀ r ∈ caseRuns, 0 ≤ r.first + r.offset ∧ r.upper r.last < 0x110000 := by
  decide +kernel

/-- **Expansions are inert**: they are longer than one character, and hold no white space and no
plus sign. -/
theorem expansions_inert : ∀ e ∈ expansions, 2 ≤ e.2.length ∧
    ∀ n ∈ e.2, isBlank (Char.ofNat n) = false ∧ Char.ofNat n ≠ '+' := by
  decide +kernel

variable {r : CaseRun} {c d : Char} {n : Nat}

/-- Upper case leads to nothing that is reserved. -/
theorem upper_not_reserved (hr : r ∈ caseRuns) (hn : r.contains n = true) (block : Nat × Nat)
    (hblock : block ∈ reserved) : r.upper n < block.1 ∨ block.2 < r.upper n := by
  have hclear := List.all_eq_true.mp caseRuns_clearOf r hr
  exact CaseRun.outside_of_clearOf (List.all_eq_true.mp hclear block hblock) hn

/-- The upper-case form of a letter is a character. -/
theorem toNat_upper (hr : r ∈ caseRuns) (hn : r.contains n = true) :
    (Char.ofNat (r.upper n)).toNat = r.upper n := by
  have hbound := (caseRuns_bounded r hr).2
  have hlast := (CaseRun.upper_mem hn).2
  have hsurrogate := upper_not_reserved hr hn (0xD800, 0xDFFF) (by simp [reserved])
  have hvalid : (r.upper n).isValidChar := by
    simp only at hsurrogate
    unfold Nat.isValidChar
    omega
  rw [Char.ofNat, dif_pos hvalid]
  rfl

/-- **Upper case** is an expansion, one other letter, or the character itself. -/
theorem uppercase_cases (c : Char) :
    (∃ e ∈ expansions, uppercase c = e.2.map Char.ofNat) ∨
      (∃ r ∈ caseRuns, r.contains c.toNat = true ∧
        uppercase c = [Char.ofNat (r.upper c.toNat)]) ∨
      uppercase c = [c] := by
  unfold uppercase
  split
  · next e he => exact .inl ⟨e, List.mem_of_find?_eq_some he, rfl⟩
  · split
    · next r hr =>
        have hcontains := List.find?_some hr
        exact .inr (.inl ⟨r, List.mem_of_find?_eq_some hr, hcontains, rfl⟩)
    · exact .inr (.inr rfl)

/-- Every character has an upper case. -/
theorem uppercase_ne_nil (c : Char) : uppercase c ≠ [] := by
  rcases uppercase_cases c with ⟨e, he, hupper⟩ | ⟨r, hr, hc, hupper⟩ | hupper
  · rw [hupper, ne_eq, List.map_eq_nil_iff]
    intro hempty
    have hlength := (expansions_inert e he).1
    simp [hempty] at hlength
  · simp [hupper]
  · simp [hupper]

/-- **Upper case is inert**: what it makes of other characters is no white space and no plus sign. -/
theorem mem_uppercase (hd : d ∈ uppercase c) : d = c ∨ (isBlank d = false ∧ d ≠ '+') := by
  rcases uppercase_cases c with ⟨e, he, hupper⟩ | ⟨r, hr, hc, hupper⟩ | hupper
  · rw [hupper] at hd
    obtain ⟨n, hn, rfl⟩ := List.mem_map.mp hd
    exact .inr ((expansions_inert e he).2 n hn)
  · rw [hupper, List.mem_singleton] at hd
    have hnumber : d.toNat = r.upper c.toNat := by rw [hd, toNat_upper hr hc]
    refine .inr ⟨List.any_eq_false.mpr fun block hblock hinside => ?_, ?_⟩
    · have houtside := upper_not_reserved hr hc block (by simp [reserved, hblock])
      simp only [Bool.and_eq_true, decide_eq_true_eq, hnumber] at hinside
      omega
    · rintro rfl
      have houtside := upper_not_reserved hr hc (0x2B, 0x2B) (by simp [reserved])
      have hplus : '+'.toNat = 0x2B := rfl
      simp only at houtside
      omega
  · rw [hupper] at hd
    exact .inl (List.mem_singleton.mp hd)

/-- **Upper case is settled**: a single capital is its own upper case. -/
theorem uppercase_settled (h : uppercase c = [d]) : uppercase d = [d] := by
  rcases uppercase_cases c with ⟨e, he, hupper⟩ | ⟨r, hr, hc, hupper⟩ | hupper
  · have hlength := congrArg List.length (hupper.symm.trans h)
    have htwo := (expansions_inert e he).1
    rw [List.length_map, List.length_singleton] at hlength
    omega
  · cases hupper.symm.trans h
    have hnumber := toNat_upper hr hc
    have hexpansion : (expansions.find? fun e => e.1 == r.upper c.toNat) = none := by
      refine List.find?_eq_none.mpr fun e he hsame => ?_
      have houtside := upper_not_reserved hr hc (e.1, e.1) (by
        simp only [reserved, List.mem_append, List.mem_map]
        exact .inl (.inr ⟨e, he, rfl⟩))
      simp only [beq_iff_eq] at hsame houtside
      omega
    have hrun : (caseRuns.find? fun q => q.contains (r.upper c.toNat)) = none := by
      refine List.find?_eq_none.mpr fun q hq => ?_
      have hapart := List.all_eq_true.mp (List.all_eq_true.mp caseRuns_apart r hr) q hq
      rw [CaseRun.not_contains_upper (caseRuns_bounded r hr).1 hapart hc]
      exact Bool.false_ne_true
    rw [uppercase, hnumber, hexpansion, hrun]
  · cases hupper.symm.trans h
    exact h

end CopperRoute.Text
