import Mathlib.Data.List.Basic
import Mathlib.Data.List.Induction
import MessagePattern.Keyed

/-!
# What merging keeps

Merging a keyed list leaves each key once, in the order of the first places, with
the last of its values.

* `Keyed.find?_cons`, `Keyed.find?_append` — the value under a key, wherever it stands;
* `Keyed.keys_collapse` — the keys of a merged list;
* `Keyed.find?_collapse` — the values of a merged list;
* `Keyed.collapse_eq` — both together determine the merged list.
-/

namespace MessagePattern.Keyed

variable {α : Type}

/-! ## Looking up a key -/

theorem find?_cons (key : String) (entry : String × α) (rest : List (String × α)) :
    find? key (entry :: rest) = if entry.1 = key then some entry.2 else find? key rest := by
  by_cases h : entry.1 = key <;> simp [find?, h]

/-- The value under a key is the one in the front part, if there is one. -/
theorem find?_append (key : String) (front rest : List (String × α)) :
    find? key (front ++ rest) = (find? key front).or (find? key rest) := by
  rw [find?, List.find?_append, Option.map_or]
  rfl

/-! ## Putting one value -/

/-- Putting a value keeps the keys in place, and adds a new one at the end. -/
theorem keys_put (key : String) (value : α) (entries : List (String × α)) :
    (put key value entries).map (·.1) = if key ∈ entries.map (·.1) then entries.map
      (·.1) else entries.map (·.1) ++ [key] := by
  induction entries with
  | nil => simp [put]
  | cons entry rest ih =>
    rw [put]
    split
    · -- the key has its place already, or it comes after all of the others
      next hSame => simp [hSame]
    · next hOther =>
      rw [List.map_cons, ih, List.map_cons]
      by_cases hMem : key ∈ rest.map (·.1)
      · rw [if_pos hMem, if_pos (List.mem_cons_of_mem _ hMem)]
      · -- the key is not the first one, and not among the others
        have hNew : ¬key ∈ entry.1 :: rest.map (·.1) := by
          rw [List.mem_cons]
          rintro (hHead | hTail)
          · exact hOther hHead.symm
          · exact hMem hTail
        rw [if_neg hMem, if_neg hNew, List.cons_append]

/-- A value under a new key comes last. -/
theorem put_of_not_mem {key : String} {entries : List (String × α)}
    (h : key ∉ entries.map (·.1)) (value : α) :
    put key value entries = entries ++ [(key, value)] := by
  induction entries with
  | nil => rfl
  | cons entry rest ih =>
    rw [List.map_cons, List.mem_cons, not_or] at h
    rw [put, if_neg fun hSame => h.1 hSame.symm, ih h.2, List.cons_append]

/-- Merging one more entry puts its value. -/
theorem collapse_append_one (entries : List (String × α)) (entry : String × α) :
    collapse (entries ++ [entry]) = put entry.1 entry.2 (collapse entries) := by
  rw [collapse, List.foldl_append]
  rfl

/-! ## The merged list -/

/-- The keys of a merged list are those of the list, each at its first place. -/
theorem keys_collapse (entries : List (String × α)) :
    (collapse entries).map (·.1) = (entries.map (·.1)).eraseDups := by
  induction entries using List.reverseRecOn with
  | nil => rfl
  | append_singleton entries entry ih =>
    rw [collapse_append_one, keys_put, ih, List.map_append, List.eraseDups_append]
    by_cases hMem : entry.1 ∈ entries.map (·.1)
    · rw [if_pos (List.mem_eraseDups.mpr hMem)]
      simp [List.removeAll, hMem]
    · rw [if_neg fun hDups => hMem (List.mem_eraseDups.mp hDups)]
      simp [List.removeAll, hMem, List.eraseDups_cons]

/-- The value under a key of a merged list is the last value under that key. -/
theorem find?_collapse (key : String) (entries : List (String × α)) :
    find? key (collapse entries) = find? key entries.reverse := by
  induction entries using List.reverseRecOn with
  | nil => rfl
  | append_singleton entries entry ih =>
    rw [collapse_append_one, find?_put, ih, List.reverse_append, List.reverse_singleton,
      List.singleton_append]
    by_cases hKey : entry.1 = key
    · simp [find?, hKey]
    · simp [find?, hKey]

/-- Erasing what is there already leaves no repetitions. -/
theorem nodup_eraseDups : ∀ l : List String, l.eraseDups.Nodup
  | [] => by simp
  | a :: l => by
    rw [List.eraseDups_cons, List.nodup_cons]
    refine ⟨fun hMem => ?_, nodup_eraseDups _⟩
    have := List.mem_eraseDups.mp hMem
    simp at this
termination_by l => l.length
decreasing_by exact Nat.lt_succ_of_le (List.length_filter_le ..)

/-- A list without repeated keys is merged as it stands. -/
theorem collapse_of_nodup {entries : List (String × α)}
    (h : (entries.map (·.1)).Nodup) : collapse entries = entries := by
  induction entries using List.reverseRecOn with
  | nil => rfl
  | append_singleton entries entry ih =>
    rw [List.map_append, List.nodup_append] at h
    obtain ⟨hFront, -, hApart⟩ := h
    have hNew : entry.1 ∉ entries.map (·.1) := fun hMem =>
      hApart _ hMem entry.1 (by simp) rfl
    rw [collapse_append_one, ih hFront, put_of_not_mem hNew]

/-- A list without repeated keys is determined by its keys and by what stands under
them. -/
theorem eq_filterMap_find? {entries : List (String × α)}
    (h : (entries.map (·.1)).Nodup) :
    entries = (entries.map (·.1)).filterMap fun key =>
      (find? key entries).map (key, ·) := by
  induction entries with
  | nil => rfl
  | cons entry rest ih =>
    rw [List.map_cons, List.nodup_cons] at h
    obtain ⟨hNew, hRest⟩ := h
    -- the first entry is found first, and it is in the way of no other key
    have hHead : find? entry.1 (entry :: rest) = some entry.2 := by simp [find?]
    have hTail : ∀ key ∈ rest.map (·.1), find? key (entry :: rest) = find? key rest := by
      intro key hKey
      have hOther : entry.1 ≠ key := fun hSame => hNew (hSame ▸ hKey)
      simp [find?, hOther]
    rw [List.map_cons, List.filterMap_cons, hHead]
    simp only [Option.map_some]
    congr 1
    rw [List.filterMap_congr fun key hKey => by rw [hTail key hKey]]
    exact ih hRest

/-- Merging leaves each key once, at its first place, with its last value. -/
theorem collapse_eq (entries : List (String × α)) :
    collapse entries =
      (entries.map (·.1)).eraseDups.filterMap fun key =>
        (find? key entries.reverse).map (key, ·) := by
  have hNodup : ((collapse entries).map (·.1)).Nodup := by
    rw [keys_collapse]
    exact nodup_eraseDups _
  rw [eq_filterMap_find? hNodup, keys_collapse]
  simp only [find?_collapse]

end MessagePattern.Keyed
