import CopperRoute.Proofs.ViaLegality
import CopperRoute.Proofs.ProperCopper

/-!
# What the via policy decides

A request for a via ends in one of three ways.  Its type is switched off
(`ViaRequest.Disabled`); or the stackup has no room for such a via (`ViaRequest.Unfit`); or there
is exactly one via that serves it (`ResolvedVia.Serves`), and that is the one the policy gives
(`Via.resolve_decides`).

The grounds for refusal that come first keep what comes after them right.  On a board with inner
layers, a microvia from a layer next to the outside joins two different layers of the board, so
that only the layers of other vias can be at fault in the end.
-/

namespace CopperRoute

namespace LayerId

/-- Layers are told apart by their numbers. -/
theorem ext_toNat {a b : LayerId} (h : a.ordinal.toNat = b.ordinal.toNat) : a = b := by
  cases a
  cases b
  exact congrArg LayerId.mk (UInt8.toNat_inj.mp h)

/-- A layer lies above another one when its number is smaller. -/
theorem lt_iff_toNat {a b : LayerId} : a < b ↔ a.ordinal.toNat < b.ordinal.toNat :=
  UInt8.lt_iff_toNat_lt

/-- A layer lies no lower than another one when its number is no larger. -/
theorem le_iff_toNat {a b : LayerId} : a ≤ b ↔ a.ordinal.toNat ≤ b.ordinal.toNat :=
  UInt8.le_iff_toNat_le

end LayerId

namespace LayerPair

variable {p : LayerPair} {a b : LayerId}

/-- A pair joins two layers exactly when they are the two of the pair, in either order. -/
theorem joins_iff : p.joins a b = true ↔ p = ⟨a, b⟩ ∨ p = ⟨b, a⟩ := by
  cases p
  simp [joins]

/-- The ordered pair of two layers joins them. -/
theorem joins_ordered (a b : LayerId) : (ordered a b).joins a b = true := by
  unfold ordered
  split
  · exact joins_iff.mpr (.inl rfl)
  · exact joins_iff.mpr (.inr rfl)

/-- From one of two layers a pair of them leads to the other. -/
theorem paired_of_joins (h : p.joins a b = true) : p.paired a = some b := by
  rcases joins_iff.mp h with rfl | rfl
  · simp [paired]
  · by_cases hsame : a = b
    · simp [paired, hsame]
    · simp [paired, hsame]

/-- The layers of a pair are its top and its bottom. -/
theorem contains_iff {l : LayerId} : p.contains l = true ↔ l = p.top ∨ l = p.bottom := by
  rw [contains, Bool.or_eq_true, beq_iff_eq, beq_iff_eq, eq_comm, @eq_comm _ p.bottom]

/-- A pair contains the layers that it joins. -/
theorem contains_of_joins (h : p.joins a b = true) : p.contains a = true := by
  rw [contains_iff]
  rcases joins_iff.mp h with rfl | rfl
  · exact .inl rfl
  · exact .inr rfl

/-- Two different layers are put in order. -/
theorem ordered_lt (h : a ≠ b) : (ordered a b).top < (ordered a b).bottom := by
  have hne : a.ordinal.toNat ≠ b.ordinal.toNat := fun hsame => h (LayerId.ext_toNat hsame)
  unfold ordered
  split
  · next hle =>
      rw [LayerId.le_iff_toNat] at hle
      exact LayerId.lt_iff_toNat.mpr (Nat.lt_of_le_of_ne hle hne)
  · next hgt =>
      rw [LayerId.le_iff_toNat] at hgt
      exact LayerId.lt_iff_toNat.mpr (Nat.lt_of_not_le hgt)

/-- There is one way to put two layers in order. -/
theorem eq_ordered (hjoins : p.joins a b = true) (hlt : p.top < p.bottom) : p = ordered a b := by
  rw [LayerId.lt_iff_toNat] at hlt
  unfold ordered
  rcases joins_iff.mp hjoins with rfl | rfl
  · exact (if_pos (LayerId.le_iff_toNat.mpr (Nat.le_of_lt hlt))).symm
  · exact (if_neg fun hle => Nat.not_le_of_lt hlt (LayerId.le_iff_toNat.mp hle)).symm

end LayerPair

namespace Stackup

/-- The upper outer layer and the one below it. -/
def upperPair (s : Stackup) : LayerPair := ⟨s.top, s.secondFromTop⟩

/-- The lower outer layer and the one above it. -/
def lowerPair (s : Stackup) : LayerPair := ⟨s.secondFromBottom, s.bottom⟩

variable {s : Stackup}

/-- The layers at the outside of a stackup with inner layers. -/
theorem toNat_outside (hinner : 2 < s.copperCount) :
    s.top.ordinal.toNat = 0 ∧ s.secondFromTop.ordinal.toNat = 1 ∧
      s.secondFromBottom.ordinal.toNat = s.copperCount.toNat - 2 ∧
        s.bottom.ordinal.toNat = s.copperCount.toNat - 1 ∧ 2 < s.copperCount.toNat := by
  have hcount : 2 < s.copperCount.toNat := UInt8.lt_iff_toNat_lt.mp hinner
  have htwo : (2 : UInt8) ≤ s.copperCount := UInt8.le_of_lt hinner
  have hone : (1 : UInt8) ≤ s.copperCount := UInt8.le_trans (by decide) htwo
  have hbottom : s.bottom.ordinal.toNat = s.copperCount.toNat - 1 :=
    UInt8.toNat_sub_of_le _ _ hone
  have hsecond : (1 : UInt8) ≤ s.copperCount - 1 := by
    rw [UInt8.le_iff_toNat_le, UInt8.toNat_sub_of_le _ _ hone]
    show 1 ≤ s.copperCount.toNat - 1
    omega
  refine ⟨rfl, ?_, ?_, hbottom, hcount⟩
  · rw [secondFromTop, show min 1 (s.copperCount - 1) = 1 from if_pos hsecond]
    rfl
  · rw [secondFromBottom, if_neg (UInt8.not_lt.mpr htwo)]
    exact UInt8.toNat_sub_of_le _ _ htwo

/-- A pair in order goes through the whole board when its layers are the outer ones. -/
theorem isFullSpan_iff {p : LayerPair} (hlt : p.top < p.bottom) :
    s.isFullSpan p = true ↔ p = s.outerPair := by
  rw [isFullSpan, LayerPair.joins_iff]
  refine or_iff_left_of_imp ?_
  rintro rfl
  exact absurd (LayerId.lt_iff_toNat.mp hlt) (Nat.not_lt_zero _)

end Stackup

namespace ViaRequest

variable (r : ViaRequest) (e : ViaEnvironment)

/-- **The type is switched off.** -/
def Disabled : Prop :=
  (r.requested = .blindBuried ∧ e.blindBuriedAllowed = false) ∨
    (r.requested = .microvia ∧ e.microviasAllowed = false)

/-- **Where a via other than a microvia leads**: to the layer that was chosen, or across the
default pair, or to the top of that pair from a layer that is not in it. -/
inductive LeadsTo : LayerId → Prop
  | chosen {l : LayerId} (htarget : r.target = some l) : LeadsTo l
  | down (hnone : r.target = none) (htop : r.current = e.defaultPair.top) :
      LeadsTo e.defaultPair.bottom
  | up (hnone : r.target = none) (hbottom : r.current = e.defaultPair.bottom) :
      LeadsTo e.defaultPair.top
  | astray (hnone : r.target = none) (htop : r.current ≠ e.defaultPair.top)
      (hbottom : r.current ≠ e.defaultPair.bottom) : LeadsTo e.defaultPair.top

/-- **The stackup has no room for the via.** -/
inductive Unfit : Prop
  /-- There are no inner layers. -/
  | shallow (htype : r.requested ≠ .through) (hfew : e.stackup.copperCount ≤ 2)
  /-- A microvia is wanted too far inside. -/
  | deep (htype : r.requested = .microvia) (houter : e.stackup.isOuter r.current = false)
      (hnext : e.stackup.isAdjacentToOuter r.current = false)
  /-- The two layers are one, or not both layers of the board. -/
  | nowhere {l : LayerId} (htype : r.requested ≠ .microvia) (hleads : r.LeadsTo e l)
      (hbad : l = r.current ∨ e.stackup.contains l = false ∨
        e.stackup.contains r.current = false)

end ViaRequest

/-- **The via serves the request.**  It joins two layers of the board in order, one of them the
current one: a microvia those at one outside, at the upper one if that is possible; any other via
the current layer and the one that it leads to.  It goes through the whole board when a through
via is asked for, or a blind or buried one between the outer layers. -/
structure ResolvedVia.Serves (v : ResolvedVia) (r : ViaRequest) (e : ViaEnvironment) : Prop where
  ordered : v.pair.top < v.pair.bottom
  top : e.stackup.contains v.pair.top = true
  bottom : e.stackup.contains v.pair.bottom = true
  current : v.pair.contains r.current = true
  micro : r.requested = .microvia → v.pair = e.stackup.upperPair ∨
    (v.pair = e.stackup.lowerPair ∧ e.stackup.upperPair.contains r.current = false)
  joins : r.requested ≠ .microvia → ∀ l, r.LeadsTo e l →
    v.pair.joins r.current l = true ∧ v.pair.paired r.current = some l
  through : v.viaType = .through ↔ r.requested = .through ∨
    (r.requested = .blindBuried ∧ v.pair = e.stackup.outerPair)
  asked : v.viaType = .through ∨ v.viaType = r.requested

namespace Via

variable {r : ViaRequest} {e : ViaEnvironment}

/-- Whether the type is switched off is looked at first. -/
theorem rejection?_eq_disabled {t : ViaType} :
    rejection? r e = some (.disabled t) ↔ r.Disabled e ∧ t = r.requested := by
  constructor
  · intro h
    unfold rejection? at h
    split at h
    · next hoff =>
        cases h
        exact ⟨.inl (by simpa using hoff), rfl⟩
    · split at h
      · next hoff =>
          cases h
          exact ⟨.inr (by simpa using hoff), rfl⟩
      · split at h
        · cases h
        · split at h <;> cases h
  · rintro ⟨⟨htype, hoff⟩ | ⟨htype, hoff⟩, rfl⟩
    · simp [rejection?, htype, hoff]
    · simp [rejection?, htype, hoff]

/-- **What is left** when no ground for refusal holds. -/
theorem rejection?_eq_none : rejection? r e = none ↔ ¬ r.Disabled e ∧
    (r.requested ≠ .through → 2 < e.stackup.copperCount) ∧
      (r.requested = .microvia → e.stackup.isOuter r.current = true ∨
        e.stackup.isAdjacentToOuter r.current = true) := by
  unfold rejection? ViaRequest.Disabled
  cases hrequested : r.requested with
  | through => simp
  | blindBuried =>
      cases hoff : e.blindBuriedAllowed with
      | false => simp
      | true => simp [UInt8.not_le]
  | microvia =>
      cases hoff : e.microviasAllowed with
      | false => simp
      | true =>
          by_cases hfew : e.stackup.copperCount ≤ 2
          · simp [hfew, UInt8.not_lt.mpr hfew]
          · simp [hfew, UInt8.not_le.mp hfew, or_iff_not_imp_left]

/-- A via leads to the target layer that is computed for it. -/
theorem leadsTo_iff {l : LayerId} : r.LeadsTo e l ↔ l = targetLayer r e := by
  constructor
  · intro h
    cases h with
    | chosen htarget => simp [targetLayer, htarget]
    | down hnone htop => simp [targetLayer, hnone, LayerPair.paired, htop]
    | up hnone hbottom =>
        by_cases htop : e.defaultPair.bottom = e.defaultPair.top
        · simp [targetLayer, hnone, LayerPair.paired, hbottom, htop]
        · simp [targetLayer, hnone, LayerPair.paired, hbottom, htop]
    | astray hnone htop hbottom => simp [targetLayer, hnone, LayerPair.paired, htop, hbottom]
  · rintro rfl
    unfold targetLayer LayerPair.paired
    cases htarget : r.target with
    | some l => exact .chosen htarget
    | none =>
        by_cases htop : r.current = e.defaultPair.top
        · rw [if_pos htop]
          exact .down htarget htop
        · rw [if_neg htop]
          by_cases hbottom : r.current = e.defaultPair.bottom
          · rw [if_pos hbottom]
            exact .up htarget hbottom
          · rw [if_neg hbottom]
            exact .astray htarget htop hbottom

/-- **A legal pair** joins two different layers of the board. -/
def Legal (s : Stackup) (p : LayerPair) : Prop :=
  p.top ≠ p.bottom ∧ s.contains p.top = true ∧ s.contains p.bottom = true

/-- A request that is not refused before is granted when its pair is legal. -/
theorem resolve_of_accepted (h : rejection? r e = none) :
    (Legal e.stackup (pair r e) ∧ resolve r e = .ok ⟨typeFor r e, pair r e⟩) ∨
      (¬ Legal e.stackup (pair r e) ∧ resolve r e = .error (.incompatible .illegalPair)) := by
  have hillegal : ((pair r e).isDegenerate || !e.stackup.contains (pair r e).top ||
      !e.stackup.contains (pair r e).bottom) = true ↔ ¬ Legal e.stackup (pair r e) := by
    simp [Legal, LayerPair.isDegenerate, imp_iff_not_or, or_assoc]
  rw [resolve, h]
  simp only
  split
  · next hbad => exact .inr ⟨hillegal.mp hbad, rfl⟩
  · next hgood => exact .inl ⟨not_not.mp fun hbad => hgood (hillegal.mpr hbad), rfl⟩

/-- The two layers of a via other than a microvia. -/
theorem pair_of_ne_microvia (h : r.requested ≠ .microvia) :
    pair r e = LayerPair.ordered r.current (targetLayer r e) := by
  unfold pair
  cases hrequested : r.requested with
  | through => rfl
  | blindBuried => rfl
  | microvia => exact absurd hrequested h

/-- The two layers of a microvia. -/
theorem pair_of_microvia (h : r.requested = .microvia) :
    pair r e =
      if e.stackup.upperPair.contains r.current = true then e.stackup.upperPair
      else e.stackup.lowerPair := by
  simp only [pair, h, LayerPair.contains_iff]
  rfl

/-- Two layers that are put in order make a legal pair when they differ and the board has both. -/
theorem legal_ordered {s : Stackup} {a b : LayerId} : Legal s (LayerPair.ordered a b) ↔
    b ≠ a ∧ s.contains b = true ∧ s.contains a = true := by
  unfold Legal LayerPair.ordered
  split
  · simp only [ne_eq, eq_comm, and_comm]
  · rfl

/-- The pairs at the outside of a board with inner layers are in order, and of the board. -/
theorem outside {s : Stackup} (hinner : 2 < s.copperCount)
    (hcopper : s.copperCount ≤ maxCopperLayers) {p : LayerPair}
    (hp : p = s.upperPair ∨ p = s.lowerPair) :
    p.top < p.bottom ∧ s.contains p.top = true ∧ s.contains p.bottom = true := by
  obtain ⟨htop, hsecond, hlast, hbottom, hcount⟩ := s.toNat_outside hinner
  have hmax : s.copperCount.toNat ≤ 32 := UInt8.le_iff_toNat_le.mp hcopper
  simp only [LayerId.lt_iff_toNat, Stackup.contains_iff]
  rcases hp with rfl | rfl
  · simp only [Stackup.upperPair, htop, hsecond]
    omega
  · simp only [Stackup.lowerPair, hlast, hbottom]
    omega

/-- **A microvia from a layer at the outside** reaches the layer at the other end. -/
theorem contains_lowerPair {s : Stackup} {l : LayerId}
    (hnear : s.isOuter l = true ∨ s.isAdjacentToOuter l = true)
    (hupper : s.upperPair.contains l = false) : s.lowerPair.contains l = true := by
  simp only [Stackup.upperPair, Stackup.lowerPair, LayerPair.contains, Stackup.isOuter,
    Stackup.isAdjacentToOuter, Bool.or_eq_true, Bool.and_eq_true, Bool.or_eq_false_iff, beq_iff_eq,
    beq_eq_false_iff_ne] at *
  grind

/-- The pair that a granted via joins: in order, on the board and with the current layer. -/
theorem pair_of_legal (hcopper : e.stackup.copperCount ≤ maxCopperLayers)
    (h : rejection? r e = none) (hlegal : Legal e.stackup (pair r e)) :
    (pair r e).top < (pair r e).bottom ∧ (pair r e).contains r.current = true := by
  obtain ⟨_, hinner, hnear⟩ := rejection?_eq_none.mp h
  by_cases hmicro : r.requested = .microvia
  · have hroom := hinner (hmicro ▸ nofun)
    rw [pair_of_microvia hmicro]
    split
    · next hupper => exact ⟨(outside hroom hcopper (.inl rfl)).1, hupper⟩
    · next hupper =>
        exact ⟨(outside hroom hcopper (.inr rfl)).1,
          contains_lowerPair (hnear hmicro) (Bool.not_eq_true _ ▸ hupper)⟩
  · rw [pair_of_ne_microvia hmicro] at hlegal ⊢
    exact ⟨LayerPair.ordered_lt (legal_ordered.mp hlegal).1.symm,
      LayerPair.contains_of_joins (LayerPair.joins_ordered _ _)⟩

/-- **What is granted serves the request.** -/
theorem serves (hcopper : e.stackup.copperCount ≤ maxCopperLayers) (h : rejection? r e = none)
    (hlegal : Legal e.stackup (pair r e)) :
    (⟨typeFor r e, pair r e⟩ : ResolvedVia).Serves r e := by
  obtain ⟨hlt, hcurrent⟩ := pair_of_legal hcopper h hlegal
  refine ⟨hlt, hlegal.2.1, hlegal.2.2, hcurrent, fun hmicro => ?_, fun hmicro l hleads => ?_,
    ?_, ?_⟩
  · show pair r e = _ ∨ pair r e = _ ∧ _
    rw [pair_of_microvia hmicro]
    split
    · exact .inl rfl
    · next hupper => exact .inr ⟨rfl, by simpa using hupper⟩
  · have hjoins : (pair r e).joins r.current l = true := by
      rw [pair_of_ne_microvia hmicro, leadsTo_iff.mp hleads]
      exact LayerPair.joins_ordered _ _
    exact ⟨hjoins, LayerPair.paired_of_joins hjoins⟩
  · show typeFor r e = .through ↔ _ ∨ _ ∧ pair r e = _
    rw [typeFor, ← Stackup.isFullSpan_iff hlt]
    split
    · next hfull => exact ⟨fun _ => .inr hfull, fun _ => rfl⟩
    · next hpartial => exact ⟨.inl, fun hthrough => hthrough.resolve_right hpartial⟩
  · show typeFor r e = .through ∨ typeFor r e = r.requested
    rw [typeFor]
    split
    · exact .inl rfl
    · exact .inr rfl

/-- **Only one via serves a request.** -/
theorem eq_of_serves {v w : ResolvedVia} (hv : v.Serves r e) (hw : w.Serves r e) : v = w := by
  have hpair : v.pair = w.pair := by
    by_cases hmicro : r.requested = .microvia
    · rcases hv.micro hmicro with hvpair | ⟨hvpair, hvupper⟩ <;>
        rcases hw.micro hmicro with hwpair | ⟨hwpair, hwupper⟩
      · exact hvpair.trans hwpair.symm
      · exact absurd (hvpair ▸ hv.current) (Bool.eq_false_iff.mp hwupper)
      · exact absurd (hwpair ▸ hw.current) (Bool.eq_false_iff.mp hvupper)
      · exact hvpair.trans hwpair.symm
    · have hleads : r.LeadsTo e (targetLayer r e) := leadsTo_iff.mpr rfl
      rw [LayerPair.eq_ordered (hv.joins hmicro _ hleads).1 hv.ordered,
        LayerPair.eq_ordered (hw.joins hmicro _ hleads).1 hw.ordered]
  have htype : v.viaType = w.viaType := by
    by_cases hthrough : v.viaType = .through
    · rw [hthrough, hw.through.mpr (hpair ▸ hv.through.mp hthrough)]
    · have hother : w.viaType ≠ .through := fun hw' =>
        hthrough (hv.through.mpr (hpair ▸ hw.through.mp hw'))
      rw [hv.asked.resolve_left hthrough, hw.asked.resolve_left hother]
  cases v
  cases w
  cases hpair
  cases htype
  rfl

/-- **A request is granted** when its type is switched on and the stackup has room. -/
theorem accepted_iff (hcopper : e.stackup.copperCount ≤ maxCopperLayers) :
    (rejection? r e = none ∧ Legal e.stackup (pair r e)) ↔ ¬ r.Disabled e ∧ ¬ r.Unfit e := by
  rw [rejection?_eq_none]
  constructor
  · rintro ⟨⟨hon, hinner, hnear⟩, hlegal⟩
    refine ⟨hon, fun hunfit => ?_⟩
    cases hunfit with
    | shallow htype hfew => exact absurd hfew (UInt8.not_le.mpr (hinner htype))
    | deep htype houter hnext => simpa [houter, hnext] using hnear htype
    | nowhere htype hleads hbad =>
        rw [pair_of_ne_microvia htype, legal_ordered, ← leadsTo_iff.mp hleads] at hlegal
        rcases hbad with hsame | hl | hcurrent
        · exact hlegal.1 hsame
        · exact Bool.eq_false_iff.mp hl hlegal.2.1
        · exact Bool.eq_false_iff.mp hcurrent hlegal.2.2
  · rintro ⟨hon, hfit⟩
    have hinner : r.requested ≠ .through → 2 < e.stackup.copperCount := fun htype =>
      UInt8.not_le.mp fun hfew => hfit (.shallow htype hfew)
    refine ⟨⟨hon, hinner, fun htype => ?_⟩, ?_⟩
    · by_contra hfar
      rw [not_or, Bool.not_eq_true, Bool.not_eq_true] at hfar
      exact hfit (.deep htype hfar.1 hfar.2)
    · by_cases hmicro : r.requested = .microvia
      · have hpair : pair r e = e.stackup.upperPair ∨ pair r e = e.stackup.lowerPair := by
          rw [pair_of_microvia hmicro]
          split
          · exact .inl rfl
          · exact .inr rfl
        obtain ⟨hlt, hlayers⟩ := outside (hinner (hmicro ▸ nofun)) hcopper hpair
        refine ⟨fun hsame => ?_, hlayers⟩
        rw [hsame, LayerId.lt_iff_toNat] at hlt
        exact Nat.lt_irrefl _ hlt
      · rw [pair_of_ne_microvia hmicro, legal_ordered]
        by_contra hbad
        refine hfit (.nowhere hmicro (leadsTo_iff.mpr rfl) ?_)
        rw [← Bool.not_eq_true, ← Bool.not_eq_true]
        tauto

/-- **A via is rejected as switched off** exactly when its type is. -/
theorem resolve_eq_disabled {t : ViaType} :
    resolve r e = .error (.disabled t) ↔ r.Disabled e ∧ t = r.requested := by
  rw [← rejection?_eq_disabled]
  cases h : rejection? r e with
  | some rejection => simp [resolve, h]
  | none =>
      rcases resolve_of_accepted h with ⟨_, hresolve⟩ | ⟨_, hresolve⟩
      · simp [hresolve]
      · simp [hresolve]

/-- The stackup has room for what is granted. -/
theorem fit_of_granted (hcopper : e.stackup.copperCount ≤ maxCopperLayers) {v : ResolvedVia}
    (h : resolve r e = .ok v) : ¬ r.Unfit e := by
  cases haccepted : rejection? r e with
  | some rejection =>
      rw [resolve, haccepted] at h
      cases h
  | none =>
      rcases resolve_of_accepted haccepted with ⟨hlegal, _⟩ | ⟨_, hrefused⟩
      · exact ((accepted_iff hcopper).mp ⟨haccepted, hlegal⟩).2
      · cases hrefused.symm.trans h

/-- What is switched on and has room is granted. -/
theorem granted (hcopper : e.stackup.copperCount ≤ maxCopperLayers) (hon : ¬ r.Disabled e)
    (hfit : ¬ r.Unfit e) : ∃ v, resolve r e = .ok v ∧ v.Serves r e := by
  obtain ⟨haccepted, hlegal⟩ := (accepted_iff hcopper).mpr ⟨hon, hfit⟩
  have hresolve := (resolve_of_accepted haccepted).resolve_right fun hbad => hbad.1 hlegal
  exact ⟨_, hresolve.2, serves hcopper haccepted hlegal⟩

/-- **The via policy decides every request.**  On a stackup of copper layers it refuses a type that
is switched off as such, and otherwise what the stackup has no room for; and if neither is the case
it gives the one via that serves the request. -/
theorem resolve_decides (hcopper : e.stackup.copperCount ≤ maxCopperLayers) :
    (∀ t, resolve r e = .error (.disabled t) ↔ r.Disabled e ∧ t = r.requested) ∧
      (¬ r.Disabled e → ((∃ c, resolve r e = .error (.incompatible c)) ↔ r.Unfit e)) ∧
      (¬ r.Disabled e → ¬ r.Unfit e → ∃ v, resolve r e = .ok v ∧
        ∀ w : ResolvedVia, w.Serves r e ↔ w = v) := by
  refine ⟨fun t => resolve_eq_disabled, fun hon => ?_, fun hon hfit => ?_⟩
  · constructor
    · rintro ⟨c, hrefused⟩
      by_contra hfit
      obtain ⟨v, hgranted, _⟩ := granted hcopper hon hfit
      cases hgranted.symm.trans hrefused
    · intro hunfit
      cases hresolve : resolve r e with
      | ok v => exact absurd hunfit (fit_of_granted hcopper hresolve)
      | error rejection =>
          cases rejection with
          | disabled t => exact absurd (resolve_eq_disabled.mp hresolve).1 hon
          | incompatible c => exact ⟨c, rfl⟩
  · obtain ⟨v, hgranted, hv⟩ := granted hcopper hon hfit
    exact ⟨v, hgranted, fun w => ⟨fun hw => eq_of_serves hw hv, fun hw => hw ▸ hv⟩⟩

/-- A microvia from the middle of three layers, which lies next to both outer ones. -/
def fromTheMiddle : ViaRequest := ⟨⟨1⟩, none, .microvia⟩

/-- Three layers, and microvias only. -/
def threeLayers : ViaEnvironment := ⟨⟨3⟩, false, true, ⟨⟨2⟩, ⟨0⟩⟩⟩

/-- From there a microvia goes up. -/
theorem resolve_decides_middle : threeLayers.stackup.copperCount ≤ maxCopperLayers ∧
    ¬ fromTheMiddle.Disabled threeLayers ∧ ¬ fromTheMiddle.Unfit threeLayers ∧
      resolve fromTheMiddle threeLayers = .ok ⟨.microvia, ⟨⟨0⟩, ⟨1⟩⟩⟩ ∧
        (⟨.microvia, ⟨⟨0⟩, ⟨1⟩⟩⟩ : ResolvedVia).Serves fromTheMiddle threeLayers := by
  have hcopper : threeLayers.stackup.copperCount ≤ maxCopperLayers := by decide
  have hon : ¬ fromTheMiddle.Disabled threeLayers := by
    simp [ViaRequest.Disabled, fromTheMiddle, threeLayers]
  have hfit : ¬ fromTheMiddle.Unfit threeLayers := by
    rintro (⟨_, hfew⟩ | ⟨_, _, hnext⟩ | ⟨htype, _, _⟩)
    · exact absurd hfew (by decide)
    · exact absurd hnext (by decide)
    · exact htype rfl
  obtain ⟨v, hgranted, hserves⟩ := (resolve_decides hcopper).2.2 hon hfit
  cases hgranted
  exact ⟨hcopper, hon, hfit, rfl, (hserves _).mpr rfl⟩

end Via

end CopperRoute
