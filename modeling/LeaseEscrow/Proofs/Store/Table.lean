import Mathlib.Algebra.BigOperators.Group.List.Basic
import Mathlib.Data.List.Nodup
import Mathlib.Data.List.Perm.Basic
import Mathlib.Data.Rat.Defs
import Mathlib.Logic.Function.Basic
import Mathlib.Tactic.Ring

/-!
# Tables

A list that holds all that can be found by keys, everything once. A sum over a table changes by
what changes at one key (`IsTable.sum_add`).
-/

namespace LeaseEscrow

/-- A list of what `find` finds, everything once. -/
structure IsTable {κ α : Type} (key : α → κ) (find : κ → Option α) (table : List α) : Prop where
  nodup : (table.map key).Nodup
  mem_iff : ∀ x, x ∈ table ↔ find (key x) = some x

namespace IsTable

variable {κ α : Type} {key : α → κ} {find find' : κ → Option α} {table table' : List α}

theorem nodup_list (h : IsTable key find table) : table.Nodup := List.Nodup.of_map key h.nodup

theorem perm (h : IsTable key find table) (h' : IsTable key find table') : table.Perm table' := by
  rw [List.perm_ext_iff_of_nodup h.nodup_list h'.nodup_list]
  intro x
  rw [h.mem_iff, h'.mem_iff]

theorem mem_map_key (h : IsTable key find table) (hkey : ∀ i x, find i = some x → key x = i)
    (i : κ) : i ∈ table.map key ↔ (find i).isSome = true := by
  rw [List.mem_map, Option.isSome_iff_exists]
  constructor
  · rintro ⟨x, hx, rfl⟩
    exact ⟨x, (h.mem_iff x).1 hx⟩
  · rintro ⟨x, hx⟩
    exact ⟨x, (h.mem_iff x).2 ((hkey i x hx).symm ▸ hx), hkey i x hx⟩

variable [DecidableEq κ]

/-- Searching a table is asking for the key. -/
theorem find?_eq (h : IsTable key find table) (hkey : ∀ i x, find i = some x → key x = i) (i : κ) :
    table.find? (fun x => key x = i) = find i := by
  cases hfind : find i with
  | none =>
    rw [List.find?_eq_none]
    intro x hx hi
    have hsome := (h.mem_iff x).1 hx
    rw [of_decide_eq_true hi, hfind] at hsome
    cases hsome
  | some x =>
    have hx : x ∈ table := (h.mem_iff x).2 ((hkey i x hfind).symm ▸ hfind)
    cases hsearch : table.find? fun x => key x = i with
    | none => exact absurd (decide_eq_true (hkey i x hfind)) (List.find?_eq_none.1 hsearch x hx)
    | some y =>
      have hy := (h.mem_iff y).1 (List.mem_of_find?_eq_some hsearch)
      have hyi : key y = i := by simpa using List.find?_some hsearch
      rw [hyi, hfind] at hy
      exact hy.symm

/-- A list is a table of one function only. -/
theorem find_unique (h : IsTable key find table) (h' : IsTable key find' table)
    (hkey : ∀ i x, find i = some x → key x = i) (hkey' : ∀ i x, find' i = some x → key x = i) :
    find = find' := by
  funext i
  rw [← h.find?_eq hkey, ← h'.find?_eq hkey']

/-- A table without what it holds at one key. -/
theorem filter_ne (h : IsTable key find table) (i : κ) :
    IsTable key (Function.update find i none) (table.filter (key · ≠ i)) where
  nodup := h.nodup.sublist (List.filter_sublist.map _)
  mem_iff x := by
    rw [List.mem_filter, h.mem_iff, Function.update_apply]
    by_cases hx : key x = i <;> simp [hx]

theorem sum_filter_add (h : IsTable key find table) (hkey : ∀ i x, find i = some x → key x = i)
    (f : α → ℚ) (i : κ) :
    ((table.filter (key · ≠ i)).map f).sum + ((find i).map f).getD 0 = (table.map f).sum := by
  -- The table is what stands at `i`, if anything does, and all the rest, in some order.
  have hperm : table.Perm ((find i).toList ++ table.filter (key · ≠ i)) := by
    have hrest := h.filter_ne i
    rw [List.perm_ext_iff_of_nodup h.nodup_list]
    · intro x
      rw [List.mem_append, List.mem_filter, h.mem_iff, Option.mem_toList]
      constructor
      · intro hx
        by_cases hi : key x = i
        · exact .inl (hi ▸ hx)
        · exact .inr ⟨hx, by simpa using hi⟩
      · rintro (hx | hx)
        · rwa [hkey i x hx]
        · exact hx.1
    · rw [List.nodup_append]
      refine ⟨?_, hrest.nodup_list, ?_⟩
      · cases find i <;> simp
      · intro x hx y hy hxy
        rw [Option.mem_toList] at hx
        have hne := (List.mem_filter.1 hy).2
        simp [← hxy, hkey i x hx] at hne
  rw [(hperm.map f).sum_eq, List.map_append, List.sum_append, add_comm]
  cases find i <;> simp

/-- Tables that differ at one key only have sums that differ by what stands there. -/
theorem sum_add (h : IsTable key find table) (h' : IsTable key find' table')
    (hkey : ∀ i x, find i = some x → key x = i) (hkey' : ∀ i x, find' i = some x → key x = i)
    {i : κ} (hsame : ∀ j, j ≠ i → find' j = find j) (f : α → ℚ) :
    (table'.map f).sum + ((find i).map f).getD 0 =
      (table.map f).sum + ((find' i).map f).getD 0 := by
  have hrest := h'.filter_ne i
  -- Without the key where they differ the two are tables of the same function.
  have hupdate : Function.update find' i none = Function.update find i none := by
    funext j
    rw [Function.update_apply, Function.update_apply]
    split
    · rfl
    · next hj => exact hsame j hj
  rw [hupdate] at hrest
  have hsum := ((hrest.perm (h.filter_ne i)).map f).sum_eq
  rw [← h.sum_filter_add hkey f i, ← h'.sum_filter_add hkey' f i, hsum]
  ring

/-- Members of different keys that are put in one after the other can all be found, next to what
was there before. -/
theorem foldl_update_eq_some_iff (hnodup : (table.map key).Nodup)
    (hfree : ∀ x ∈ table, find (key x) = none) (y : α) :
    table.foldl (fun f x => Function.update f (key x) (some x)) find (key y) = some y ↔
      y ∈ table ∨ find (key y) = some y := by
  induction table generalizing find with
  | nil => simp
  | cons x table ih =>
    rw [List.map_cons, List.nodup_cons] at hnodup
    have hrest : ∀ x' ∈ table, Function.update find (key x) (some x) (key x') = none := by
      intro x' hx'
      have hne : key x' ≠ key x := fun h => hnodup.1 (h ▸ List.mem_map_of_mem hx')
      rw [Function.update_of_ne hne]
      exact hfree x' (List.mem_cons_of_mem _ hx')
    rw [List.foldl_cons, ih hnodup.2 hrest, List.mem_cons, Function.update_apply]
    by_cases hkey : key y = key x
    · have hnone := hfree x List.mem_cons_self
      rw [if_pos hkey, hkey, hnone]
      simp [or_comm, eq_comm]
    · have hne : y ≠ x := fun h => hkey (congrArg key h)
      rw [if_neg hkey]
      simp [hne]

/-- A list of different keys is a table of what it puts in. -/
theorem of_foldl_update (hnodup : (table.map key).Nodup) :
    IsTable key (table.foldl (fun f x => Function.update f (key x) (some x)) fun _ => none)
      table where
  nodup := hnodup
  mem_iff y := by
    rw [foldl_update_eq_some_iff hnodup fun _ _ => rfl]
    simp

end IsTable

end LeaseEscrow
