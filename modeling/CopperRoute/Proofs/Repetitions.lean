/-!
# Lists without repetitions

Repetitions are thrown away from the front: each element is kept where it first comes, and takes
with it what repeats it further on.  What is left begins with the same element
(`head?_eraseDups`), is in the same order (`sublist_eraseDups`), and repeats nothing
(`nodup_eraseDups`).
-/

namespace CopperRoute

variable {α : Type} [BEq α]

/-- **Induction over repetitions**: an element is taken off together with all that repeat it. -/
theorem eraseDups_induction {motive : List α → Prop} (nil : motive [])
    (cons : ∀ a rest, motive (rest.filter fun b => !b == a) → motive (a :: rest)) (as : List α) :
    motive as := by
  induction hlength : as.length using Nat.strongRecOn generalizing as with
  | _ n ih =>
      cases as with
      | nil => exact nil
      | cons a rest =>
          have hshorter : (rest.filter fun b => !b == a).length < n := by
            rw [← hlength]
            exact Nat.lt_succ_of_le (List.length_filter_le _ _)
          exact cons a rest (ih _ hshorter _ rfl)

/-- Erasing repetitions leaves the first element. -/
theorem head?_eraseDups (as : List α) : as.eraseDups.head? = as.head? := by
  cases as with
  | nil => rfl
  | cons a rest => rw [List.eraseDups_cons, List.head?_cons, List.head?_cons]

theorem sublist_eraseDups (as : List α) : as.eraseDups.Sublist as := by
  induction as using eraseDups_induction with
  | nil => exact List.Sublist.refl _
  | cons a rest ih =>
      rw [List.eraseDups_cons]
      exact (ih.trans List.filter_sublist).cons_cons a

/-- Nothing is repeated then. -/
theorem nodup_eraseDups [LawfulBEq α] (as : List α) : as.eraseDups.Nodup := by
  induction as using eraseDups_induction with
  | nil => exact List.nodup_nil
  | cons a rest ih =>
      rw [List.eraseDups_cons, List.nodup_cons]
      refine ⟨fun ha => ?_, ih⟩
      have hother := (List.mem_filter.mp (List.mem_eraseDups.mp ha)).2
      simp at hother

end CopperRoute
