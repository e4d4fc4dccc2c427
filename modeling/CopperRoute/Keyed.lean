/-!
# Lists with one entry per key

Items, footprints, net classes and key bindings are all kept the same way: a
list in which every key has at most one entry, in the order in which the keys
first came.  `put` is the only way to add to such a list.  A new key goes to the
end; a known key keeps its place and gets the new entry.
-/

namespace CopperRoute.Keyed

variable {α κ : Type} [DecidableEq κ]

/-- The list with `x` as the entry of its key. -/
def put (key : α → κ) (x : α) : List α → List α
  | [] => [x]
  | y :: ys => if key y = key x then x :: ys else y :: put key x ys

/-- The entry of the key `k`. -/
def find? (key : α → κ) (k : κ) (xs : List α) : Option α :=
  xs.find? fun x => key x = k

/-- The list with `xs` put one after the other into the empty list. -/
def ofList (key : α → κ) (xs : List α) : List α :=
  xs.foldl (fun acc x => put key x acc) []

/-- Putting an entry adds its key exactly when it was not there. -/
theorem map_key_put (key : α → κ) (x : α) (xs : List α) :
    (put key x xs).map key =
      if key x ∈ xs.map key then xs.map key else xs.map key ++ [key x] := by
  induction xs with
  | nil => simp [put]
  | cons y ys ih => grind [put]

/-- Where every key has one entry, that is the one found. -/
theorem find?_of_mem {key : α → κ} {x : α} {xs : List α} (h : (xs.map key).Nodup) (hx : x ∈ xs) :
    find? key (key x) xs = some x := by
  induction xs with
  | nil => cases hx
  | cons y ys ih =>
      rw [List.map_cons, List.nodup_cons] at h
      rcases List.mem_cons.mp hx with rfl | hx
      · simp [find?]
      · have hother : key y ≠ key x := fun hsame => h.1 (hsame ▸ List.mem_map_of_mem hx)
        simpa [find?, hother] using ih h.2 hx

/-- A function that keeps the keys can be applied before or after. -/
theorem put_map {β : Type} {key : α → κ} {key' : β → κ} {f : α → β}
    (hkey : ∀ y, key' (f y) = key y) (x : α) (xs : List α) :
    put key' (f x) (xs.map f) = (put key x xs).map f := by
  induction xs with
  | nil => rfl
  | cons y ys ih =>
      rw [List.map_cons, put, put, hkey, hkey, ih]
      split <;> rfl

theorem find?_map {β : Type} {key : α → κ} {key' : β → κ} {f : α → β}
    (hkey : ∀ y, key' (f y) = key y) (k : κ) (xs : List α) :
    find? key' k (xs.map f) = (find? key k xs).map f := by
  simp only [find?, List.find?_map, Function.comp_def, hkey]

/-- A new key comes last. -/
theorem put_of_notMem {key : α → κ} {x : α} {xs : List α} (h : key x ∉ xs.map key) :
    put key x xs = xs ++ [x] := by
  induction xs with
  | nil => rfl
  | cons y ys ih =>
      rw [List.map_cons, List.mem_cons, not_or] at h
      rw [put, if_neg (Ne.symm h.1), ih h.2, List.cons_append]

/-- A known key keeps its place. -/
theorem put_of_mem {key : α → κ} {x : α} {xs : List α} (hkeys : (xs.map key).Nodup)
    (h : key x ∈ xs.map key) : put key x xs = xs.map fun y => if key y = key x then x else y := by
  induction xs with
  | nil => cases h
  | cons y ys ih =>
      rw [List.map_cons, List.nodup_cons] at hkeys
      rw [put, List.map_cons]
      split
      · next hsame =>
          have hrest : ∀ z ∈ ys, key z ≠ key x := fun z hz hz' =>
            hkeys.1 (hsame ▸ hz' ▸ List.mem_map_of_mem hz)
          congr 1
          exact (List.map_id ys).symm.trans (List.map_congr_left fun z hz => by simp [hrest z hz])
      · next hother =>
          rw [ih hkeys.2 ((List.mem_cons.mp h).resolve_left (Ne.symm hother))]

/-- Entries with new keys come last, one after the other. -/
theorem foldl_put_of_nodup {key : α → κ} {xs acc : List α} (h : ((acc ++ xs).map key).Nodup) :
    xs.foldl (fun acc x => put key x acc) acc = acc ++ xs := by
  induction xs generalizing acc with
  | nil => exact (List.append_nil acc).symm
  | cons x xs ih =>
      have hnew : key x ∉ acc.map key := by
        rw [List.map_append, List.nodup_append] at h
        exact fun hold => h.2.2 _ hold _ List.mem_cons_self rfl
      rw [List.append_cons] at h ⊢
      rw [List.foldl_cons, put_of_notMem hnew, ih h]

/-- No key gets a second entry. -/
theorem nodup_put {key : α → κ} {x : α} {xs : List α} (h : (xs.map key).Nodup) :
    ((put key x xs).map key).Nodup := by
  rw [map_key_put]
  split
  · exact h
  · grind [List.nodup_append]

/-- Entries with known keys keep the places, and each place gets the last entry of its key. -/
theorem foldl_put_of_mem {key : α → κ} {xs acc : List α} (hkeys : (acc.map key).Nodup)
    (h : ∀ x ∈ xs, key x ∈ acc.map key) :
    xs.foldl (fun acc x => put key x acc) acc =
      acc.map fun y => (find? key (key y) xs.reverse).getD y := by
  induction xs generalizing acc with
  | nil => exact (List.map_id acc).symm
  | cons x xs ih =>
      have hx := h x List.mem_cons_self
      have hsame : (put key x acc).map key = acc.map key := by rw [map_key_put, if_pos hx]
      rw [List.foldl_cons, ih (nodup_put hkeys) fun z hz => hsame ▸ h z (List.mem_cons_of_mem x hz),
        put_of_mem hkeys hx, List.map_map]
      refine List.map_congr_left fun y _ => ?_
      by_cases hkey : key y = key x
      · simp [find?, List.find?_append, hkey]
      · simp [find?, List.find?_append, hkey, Ne.symm hkey]

/-- Only the entry of its own key is another one afterwards. -/
theorem find?_put (key : α → κ) (x : α) (k : κ) (xs : List α) :
    find? key k (put key x xs) = if key x = k then some x else find? key k xs := by
  induction xs with
  | nil => simp only [put, find?, List.find?_cons, List.find?_nil]; grind
  | cons y ys ih => grind [put, find?]

/-- The entry of a key is the last one that was put. -/
theorem find?_ofList (key : α → κ) (k : κ) (xs : List α) :
    find? key k (ofList key xs) = xs.reverse.find? fun x => key x = k := by
  rw [ofList, ← List.foldr_reverse]
  induction xs.reverse with
  | nil => rfl
  | cons x xs ih => rw [List.foldr_cons, find?_put, ih, List.find?_cons]; grind

/-- The keys stand in the order in which they first came. -/
theorem map_key_ofList (key : α → κ) (xs : List α) :
    (ofList key xs).map key = (xs.map key).eraseDups := by
  rw [← List.reverse_reverse xs, ofList, List.foldl_reverse]
  induction xs.reverse with
  | nil => rfl
  | cons x xs ih =>
      rw [List.foldr_cons, map_key_put, ih, List.reverse_cons, List.map_append,
        List.eraseDups_append]
      have hone : [key x].eraseDups = [key x] := rfl
      by_cases hold : key x ∈ xs.reverse.map key <;>
        simp_all [List.removeAll, List.mem_eraseDups]

/-- What is in the list afterwards was put there now or before. -/
theorem mem_put {key : α → κ} {x y : α} {xs : List α} (h : y ∈ put key x xs) :
    y = x ∨ y ∈ xs := by
  induction xs with
  | nil => simpa [put] using h
  | cons z zs ih => grind [put]

theorem mem_put_self (key : α → κ) (x : α) (xs : List α) : x ∈ put key x xs := by
  induction xs with
  | nil => simp [put]
  | cons z zs ih => grind [put]

/-- Entries of other keys stay. -/
theorem mem_put_of_ne {key : α → κ} {x y : α} {xs : List α} (hy : y ∈ xs)
    (hne : key y ≠ key x) : y ∈ put key x xs := by
  induction xs with
  | nil => cases hy
  | cons z zs ih => grind [put]

/-- What is in the list in the end was put there or was there before. -/
theorem mem_of_mem_foldl_put {key : α → κ} {x : α} {xs acc : List α}
    (h : x ∈ xs.foldl (fun acc y => put key y acc) acc) : x ∈ xs ∨ x ∈ acc := by
  induction xs generalizing acc with
  | nil => exact .inr h
  | cons z zs ih =>
      rcases ih h with hlater | hnow
      · exact .inl (List.mem_cons_of_mem z hlater)
      · rcases mem_put hnow with rfl | hold
        · exact .inl List.mem_cons_self
        · exact .inr hold

/-- An entry that no other one of its key follows is there in the end. -/
theorem mem_foldl_put {key : α → κ} {x : α} {xs acc : List α}
    (hx : x ∈ xs ∨ x ∈ acc) (honly : ∀ y ∈ xs, key y = key x → y = x) :
    x ∈ xs.foldl (fun acc y => put key y acc) acc := by
  induction xs generalizing acc with
  | nil => simpa using hx
  | cons z zs ih =>
      refine ih ?_ fun y hy => honly y (List.mem_cons_of_mem z hy)
      by_cases hkey : key z = key x
      · rw [honly z List.mem_cons_self hkey]
        exact .inr (mem_put_self key x acc)
      · rcases hx with hx | hx
        · rcases List.mem_cons.mp hx with rfl | hx
          · exact absurd rfl hkey
          · exact .inl hx
        · exact .inr (mem_put_of_ne hx (Ne.symm hkey))

end CopperRoute.Keyed
