import CopperRoute.Via

/-!
# Layers that copper reaches

A range of layers is meant to be read through `LayerRange.contains`; two ranges with
a common layer intersect.  A legal via joins the layer it is asked on with another
one, and its hole reaches both (`Via.resolve_joins`).
-/

namespace CopperRoute

namespace LayerRange

/-- A range contains the layers from its first to its last one. -/
theorem contains_iff {r : LayerRange} {l : LayerId} :
    r.contains l = true ↔ r.first ≤ l ∧ l ≤ r.last := by
  simp [contains]

/-- Ranges that share a layer intersect. -/
theorem intersects_of_contains {r s : LayerRange} {l : LayerId} (hr : r.contains l = true)
    (hs : s.contains l = true) : r.intersects s = true := by
  obtain ⟨hfirst, hlast⟩ := contains_iff.mp hr
  obtain ⟨hfirst', hlast'⟩ := contains_iff.mp hs
  have hrs : r.first ≤ s.last := UInt8.le_trans hfirst hlast'
  have hsr : s.first ≤ r.last := UInt8.le_trans hfirst' hlast
  simp [intersects, hrs, hsr]

@[simp] theorem contains_single (l : LayerId) : (single l).contains l = true :=
  contains_iff.mpr ⟨UInt8.le_refl _, UInt8.le_refl _⟩

theorem contains_between_left (a b : LayerId) : (between a b).contains a = true := by
  unfold between
  split
  · next h => exact contains_iff.mpr ⟨UInt8.le_refl _, h⟩
  · next h => exact contains_iff.mpr ⟨UInt8.le_of_lt (UInt8.not_le.mp h), UInt8.le_refl _⟩

theorem contains_between_right (a b : LayerId) : (between a b).contains b = true := by
  unfold between
  split
  · next h => exact contains_iff.mpr ⟨h, UInt8.le_refl _⟩
  · next h => exact contains_iff.mpr ⟨UInt8.le_refl _, UInt8.le_of_lt (UInt8.not_le.mp h)⟩

/-- The range of a pair reaches both its layers. -/
theorem contains_ofPair {p : LayerPair} {l : LayerId} (h : l = p.top ∨ l = p.bottom) :
    (ofPair p).contains l = true := by
  rcases h with rfl | rfl
  · exact contains_between_left _ _
  · exact contains_between_right _ _

/-- From one outer layer to the other lie all layers of the stackup. -/
theorem contains_outerPair {s : Stackup} {l : LayerId} (h : s.contains l = true) :
    (ofPair s.outerPair).contains l = true := by
  have hbelow : l.ordinal.toNat < s.copperCount.toNat := by
    simp only [Stackup.contains, Bool.and_eq_true, decide_eq_true_eq] at h
    exact UInt8.lt_iff_toNat_lt.mp h.2
  have hone : (1 : UInt8) ≤ s.copperCount := by
    rw [UInt8.le_iff_toNat_le]
    have hvalue : (1 : UInt8).toNat = 1 := rfl
    omega
  have htop : s.top ≤ s.bottom := UInt8.zero_le
  have hlast : l ≤ s.bottom := by
    show l.ordinal ≤ s.copperCount - 1
    rw [UInt8.le_iff_toNat_le, UInt8.toNat_sub_of_le _ _ hone]
    have hvalue : (1 : UInt8).toNat = 1 := rfl
    omega
  have hrange : ofPair s.outerPair = ⟨s.top, s.bottom⟩ := by
    unfold ofPair between
    exact if_pos htop
  rw [hrange]
  exact contains_iff.mpr ⟨UInt8.zero_le, hlast⟩

end LayerRange

namespace LayerPair

/-- The order of the two layers does not change which they are. -/
theorem ordered_eq (a b : LayerId) : ordered a b = ⟨a, b⟩ ∨ ordered a b = ⟨b, a⟩ := by
  unfold ordered
  split
  · exact .inl rfl
  · exact .inr rfl

/-- One layer of a pair lies across from the other. -/
theorem paired_isSome {p : LayerPair} {l : LayerId} (h : l = p.top ∨ l = p.bottom) :
    ∃ m, p.paired l = some m ∧ (m = p.top ∨ m = p.bottom) := by
  unfold paired
  by_cases htop : l = p.top
  · exact ⟨p.bottom, if_pos htop, .inr rfl⟩
  · have hbottom : l = p.bottom := h.resolve_left htop
    exact ⟨p.top, by rw [if_neg htop, if_pos hbottom], .inl rfl⟩

end LayerPair

/-- Sizes that use a via change between its layers. -/
theorem ResolvedVia.pairedLayer_applyTo (v : ResolvedVia) (s : Sizes) (l : LayerId) :
    (v.applyTo s).pairedLayer l = v.pair.paired l := by
  simp [applyTo, Sizes.clearLayerPairs, Sizes.addLayerPair, Sizes.pairedLayer]

namespace Via

/-- A via joins the layer that it is asked on. -/
theorem current_mem_pair {r : ViaRequest} {e : ViaEnvironment} (h : rejection? r e = none) :
    r.current = (pair r e).top ∨ r.current = (pair r e).bottom := by
  have hordered (m : LayerId) : r.current = (LayerPair.ordered r.current m).top ∨
      r.current = (LayerPair.ordered r.current m).bottom := by
    rcases LayerPair.ordered_eq r.current m with heq | heq <;> rw [heq]
    · exact .inl rfl
    · exact .inr rfl
  cases htype : r.requested with
  | through | blindBuried =>
      simp only [pair, htype]
      exact hordered _
  | microvia =>
      simp only [pair, htype]
      by_cases hupper : r.current = e.stackup.top ∨ r.current = e.stackup.secondFromTop
      · rw [if_pos hupper]
        exact hupper
      · -- a microvia that is not refused starts at an outer layer or next to one
        have hlower : r.current = e.stackup.bottom ∨ r.current = e.stackup.secondFromBottom := by
          obtain ⟨htop, hsecond⟩ := not_or.mp hupper
          refine Decidable.byContradiction fun hinner => ?_
          obtain ⟨hbottom, hsecond'⟩ := not_or.mp hinner
          simp [rejection?, htype, Stackup.isOuter, Stackup.isAdjacentToOuter, htop, hsecond,
            hbottom, hsecond'] at h
          split at h
          · cases h
          · split at h <;> cases h
        rw [if_neg hupper]
        exact hlower.symm

/-- **A legal via** joins the layer it is asked on with another layer, and its hole
reaches both. -/
theorem resolve_joins {r : ViaRequest} {e : ViaEnvironment} {v : ResolvedVia}
    (h : resolve r e = .ok v) :
    (r.current = v.pair.top ∨ r.current = v.pair.bottom) ∧ v.pair.isDegenerate = false ∧
      ∀ l, l = v.pair.top ∨ l = v.pair.bottom →
        (LayerRange.ofPair (v.span e.stackup)).contains l = true := by
  unfold resolve at h
  split at h
  · cases h
  · next haccepted =>
      simp only at h
      split at h
      · cases h
      · next hlegal =>
          cases h
          simp only [Bool.or_eq_true, Bool.not_eq_true', not_or, Bool.not_eq_false,
            Bool.not_eq_true] at hlegal
          obtain ⟨⟨hproper, htop⟩, hbottom⟩ := hlegal
          refine ⟨current_mem_pair haccepted, hproper, fun l hl => ?_⟩
          have hin : e.stackup.contains l = true := by
            rcases hl with rfl | rfl
            · exact htop
            · exact hbottom
          cases typeFor r e with
          | through => exact LayerRange.contains_outerPair hin
          | blindBuried | microvia => exact LayerRange.contains_ofPair hl

end Via

end CopperRoute
