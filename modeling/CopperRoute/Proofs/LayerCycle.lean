import Mathlib.Data.Nat.ModEq
import CopperRoute.Proofs.SavedBoards

/-!
# The cycle of enabled layers

The user walks through the enabled layers in a cycle.  A step looks its place up by the layer, and
finds the first place that has it: a layer that stood twice in the list would lead the walk back
behind its first place, and what comes behind the second would never be reached.

No list of a board has a layer twice.  The layers of a stackup ascend, layers that are enabled are
sorted and repetitions thrown away, and nothing else touches the list; so on every board that can be
made (`Board.Made`) the list ascends (`Board.Made.ascending`).

In a list without repetitions a step is a step of the place, modulo the length
(`LayerCommand.following_getElem`, `LayerCommand.preceding_getElem`), and `k` steps are `k` of the
place (`LayerCommand.walk_getElem`).  So the layers are a **cycle** (`LayerCommand.Cyclic`), and the
layers of every board are one (`Board.Made.layersCycle`).
-/

namespace CopperRoute

namespace LayerCommand

/-- Where `k` steps onwards lead. -/
def walk (enabled : List LayerId) : Nat → LayerId → Option LayerId
  | 0, layer => some layer
  | k + 1, layer => (walk enabled k layer).bind (following · enabled)

/-- **A cycle** through the enabled layers, from one of them: the walk is back after every whole
number of rounds and at no other time, one round comes past all layers, and a step in one direction
undoes one in the other. -/
structure Cyclic (enabled : List LayerId) (layer : LayerId) : Prop where
  rounds : ∀ k, walk enabled k layer = some layer ↔ enabled.length ∣ k
  visits : ∀ other ∈ enabled, ∃ k, 0 < k ∧ k ≤ enabled.length ∧ walk enabled k layer = some other
  back : (following layer enabled).bind (preceding · enabled) = some layer
  forth : (preceding layer enabled).bind (following · enabled) = some layer

variable {enabled : List LayerId} {i : Nat}

/-- Without repetitions, a layer is found where it stands. -/
theorem position_getElem (h : enabled.Nodup) (hi : i < enabled.length) :
    position enabled[i] enabled = i := by
  have hfound : enabled.idxOf? enabled[i] = some i := by
    refine List.idxOf?_eq_some_iff.mpr ⟨hi, rfl, fun j hj hsame => ?_⟩
    exact Nat.ne_of_lt hj ((h.getElem_inj_iff).mp hsame)
  rw [position, hfound, Option.getD_some]

theorem following_getElem (h : enabled.Nodup) (hi : i < enabled.length) :
    following enabled[i] enabled = enabled[(i + 1) % enabled.length]? := by
  rw [following, position_getElem h hi]

theorem preceding_getElem (h : enabled.Nodup) (hi : i < enabled.length) :
    preceding enabled[i] enabled = enabled[(i + (enabled.length - 1)) % enabled.length]? := by
  rw [preceding, position_getElem h hi]
  cases i with
  | zero =>
      simp only
      rw [List.getLast?_eq_getElem?, Nat.zero_add, Nat.mod_eq_of_lt (Nat.sub_one_lt_of_lt hi)]
  | succ i =>
      have hround : i + 1 + (enabled.length - 1) = i + enabled.length := by omega
      simp only
      rw [hround, Nat.add_mod_right, Nat.mod_eq_of_lt (Nat.lt_of_succ_lt hi)]

/-- **A walk** goes on by its length, modulo the number of layers. -/
theorem walk_getElem (h : enabled.Nodup) (hi : i < enabled.length) (k : Nat) :
    walk enabled k enabled[i] = enabled[(i + k) % enabled.length]? := by
  have hplace (n : Nat) : n % enabled.length < enabled.length :=
    Nat.mod_lt _ (Nat.zero_lt_of_lt hi)
  induction k with
  | zero => rw [walk, Nat.add_zero, Nat.mod_eq_of_lt hi, List.getElem?_eq_getElem hi]
  | succ k ih =>
      rw [walk, ih, List.getElem?_eq_getElem (hplace _), Option.bind_some,
        following_getElem h (hplace _), Nat.mod_add_mod, Nat.add_assoc]

/-- Without repetitions, the layers are a cycle from each of them. -/
theorem cyclic_of_nodup (h : enabled.Nodup) {layer : LayerId} (hlayer : layer ∈ enabled) :
    Cyclic enabled layer := by
  obtain ⟨i, hi, rfl⟩ := List.getElem_of_mem hlayer
  have hplace (n : Nat) : n % enabled.length < enabled.length :=
    Nat.mod_lt _ (Nat.zero_lt_of_lt hi)
  constructor
  case rounds =>
    intro k
    calc walk enabled k enabled[i] = some enabled[i]
        ↔ enabled[(i + k) % enabled.length]? = enabled[i]? := by
          rw [walk_getElem h hi, List.getElem?_eq_getElem hi]
      _ ↔ (i + k) % enabled.length = i := List.getElem?_inj (hplace _) h
      _ ↔ i + k ≡ i [MOD enabled.length] := by rw [Nat.ModEq, Nat.mod_eq_of_lt hi]
      _ ↔ enabled.length ∣ k := Nat.add_modEq_left_iff
  case visits =>
    intro other hother
    obtain ⟨j, hj, rfl⟩ := List.getElem_of_mem hother
    rcases Nat.lt_or_ge i j with hlater | hearlier
    · refine ⟨j - i, by omega, by omega, ?_⟩
      rw [walk_getElem h hi, Nat.add_sub_cancel' hlater.le, Nat.mod_eq_of_lt hj,
        List.getElem?_eq_getElem hj]
    · -- around the end: the place itself is reached after a whole round only
      have hround : i + (enabled.length - (i - j)) = j + enabled.length := by omega
      refine ⟨enabled.length - (i - j), by omega, by omega, ?_⟩
      rw [walk_getElem h hi, hround, Nat.add_mod_right, Nat.mod_eq_of_lt hj,
        List.getElem?_eq_getElem hj]
  case back =>
    have hround : i + 1 + (enabled.length - 1) = i + enabled.length := by omega
    rw [following_getElem h hi, List.getElem?_eq_getElem (hplace _), Option.bind_some,
      preceding_getElem h (hplace _), Nat.mod_add_mod, hround, Nat.add_mod_right,
      Nat.mod_eq_of_lt hi, List.getElem?_eq_getElem hi]
  case forth =>
    have hround : i + (enabled.length - 1) + 1 = i + enabled.length := by omega
    rw [preceding_getElem h hi, List.getElem?_eq_getElem (hplace _), Option.bind_some,
      following_getElem h (hplace _), Nat.mod_add_mod, hround, Nat.add_mod_right,
      Nat.mod_eq_of_lt hi, List.getElem?_eq_getElem hi]

end LayerCommand

namespace Board

/-- **The boards that can be made**: a board begins empty or in a file, with any stackup, and any
changes and commits follow. -/
inductive Made : Board → Prop
  | fresh (stackup : Stackup) (design : Design) : Made (empty stackup design)
  | loaded {f : BoardFile} {b : Board} (h : ofFile f = .ok b) : Made b
  | changed {b b' : Board} {e : BoardEdit} (hb : Made b) (h : b.edit e = .ok b') : Made b'
  | committed {b b' : Board} {c : Changeset} {report : CommitReport} (hb : Made b)
      (h : b.commit c = .ok (.applied b' report)) : Made b'

variable {b b' : Board}

/-- A change leaves the enabled layers alone, or sets them. -/
theorem enabledLayers_edit {e : BoardEdit} (h : b.edit e = .ok b') :
    b'.enabledLayers = b.enabledLayers ∨ ∃ layers, b'.enabledLayers = sortLayers layers := by
  cases e with
  | add d =>
      obtain ⟨⟨b₁, id⟩, hadd, h⟩ := Checked.bind_eq_ok.mp h
      obtain ⟨next, _, hadd⟩ := Checked.bind_eq_ok.mp hadd
      cases hadd
      cases h
      exact .inl rfl
  | replace i =>
      cases h
      unfold replace?
      split <;> exact .inl rfl
  | enableLayers layers =>
      cases h
      exact .inr ⟨_, rfl⟩
  | remove | addFootprint | redesign | reindex =>
      cases h
      exact .inl rfl

/-- **The enabled layers ascend**, however they were set. -/
theorem Made.ascending (hb : b.Made) : b.enabledLayers.Pairwise (· < ·) := by
  induction hb with
  | fresh stackup design => exact stackup.pairwise_copperLayers
  | loaded h =>
      refine ofFile_invariant (P := fun b => b.enabledLayers.Pairwise (· < ·))
        (Stackup.pairwise_copperLayers _) (fun _ _ _ => pairwise_sortLayers _)
        (fun _ _ hb => hb) (fun b i b' hb hload => ?_) h
      obtain ⟨_, _, hload⟩ := Checked.bind_eq_ok.mp hload
      cases hload
      exact hb
  | changed hb h ih =>
      rcases enabledLayers_edit h with hsame | ⟨layers, hset⟩
      · rw [hsame]
        exact ih
      · rw [hset]
        exact pairwise_sortLayers layers
  | committed hb h ih =>
      rw [commit_enabledLayers h]
      exact ih

/-- **Every board's layers are a cycle.**  None is enabled twice; from each of them the walk
comes past all in one round and is back after whole rounds only, and the two directions undo each
other.  From any layer at all, enabled or not, a command leads to another layer that is enabled. -/
theorem Made.layersCycle (hb : b.Made) :
    b.enabledLayers.Nodup ∧
      (∀ layer ∈ b.enabledLayers, LayerCommand.Cyclic b.enabledLayers layer) ∧
      ∀ (command : LayerCommand) (current layer : LayerId),
        command.resolve current b.enabledLayers = some layer →
          layer ∈ b.enabledLayers ∧ layer ≠ current := by
  have hnodup : b.enabledLayers.Nodup := by
    refine hb.ascending.imp fun {l m} hlt => ?_
    rintro rfl
    exact UInt8.lt_irrefl _ hlt
  refine ⟨hnodup, fun layer => LayerCommand.cyclic_of_nodup hnodup, fun command current layer h => ?_⟩
  exact (LayerCommand.resolve_eq_some h).symm

/-- Layers that are named out of order, one of them twice, and one beyond the stackup. -/
theorem Made.layersCycle_unsorted :
    let b := (empty (.ofCount 6) .standard).enableLayers [⟨4⟩, ⟨2⟩, ⟨4⟩, ⟨0⟩, ⟨9⟩]
    b.Made ∧ b.enabledLayers = [⟨0⟩, ⟨2⟩, ⟨4⟩] ∧
      b.enabledLayers.Nodup ∧
      (∀ layer ∈ b.enabledLayers, LayerCommand.Cyclic b.enabledLayers layer) ∧
      LayerCommand.prev.resolve ⟨0⟩ b.enabledLayers = some ⟨4⟩ ∧
      (⟨4⟩ : LayerId) ∈ b.enabledLayers ∧ (⟨4⟩ : LayerId) ≠ ⟨0⟩ := by
  intro b
  have hmade : b.Made := .changed (e := .enableLayers _) (.fresh _ _) rfl
  have hkept : ([⟨4⟩, ⟨2⟩, ⟨4⟩, ⟨0⟩, ⟨9⟩] : List LayerId).filter (Stackup.ofCount 6).contains =
      [⟨4⟩, ⟨2⟩, ⟨4⟩, ⟨0⟩] := by decide
  have hlayers : b.enabledLayers = [⟨0⟩, ⟨2⟩, ⟨4⟩] := by
    simp +decide [b, enableLayers, empty, hkept, sortLayers, List.mergeSort,
      List.MergeSort.Internal.splitInTwo, List.eraseDups_cons]
  have hresolve : LayerCommand.prev.resolve ⟨0⟩ b.enabledLayers = some ⟨4⟩ := by
    rw [hlayers]
    decide
  obtain ⟨hnodup, hcyclic, hresolves⟩ := hmade.layersCycle
  exact ⟨hmade, hlayers, hnodup, hcyclic, hresolve, hresolves _ _ _ hresolve⟩

end Board

end CopperRoute
