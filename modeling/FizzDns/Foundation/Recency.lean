import Mathlib.Tactic

/-!
# Keyed lists in order of use

Entries with a key, the most recently used first, and no key twice. The lemmas say
what looking up and removing do to such a list, and which keys stand ahead of a given
one: only a key that was used in the meantime can get ahead.
-/

namespace FizzDns.Recency

variable {ε κ : Type} [DecidableEq κ] (key : ε → κ)

/-- The entry with a key. -/
def lookup (wanted : κ) (entries : List ε) : Option ε :=
  entries.find? fun entry => key entry = wanted

/-- The entries with other keys. -/
def remove (unwanted : κ) (entries : List ε) : List ε :=
  entries.filter fun entry => key entry ≠ unwanted

/-- The keys used more recently than a given one. -/
def ahead (wanted : κ) (entries : List ε) : List κ :=
  (entries.map key).takeWhile fun other => other ≠ wanted

variable {key} {wanted other : κ} {entries front back : List ε} {entry : ε}

/-- A lookup fails just for the keys that are not there. -/
theorem lookup_eq_none_iff : lookup key wanted entries = none ↔ wanted ∉ entries.map key := by
  simp [lookup, List.find?_eq_none]

/-- What is found has the key asked for. -/
theorem key_of_lookup (found : lookup key wanted entries = some entry) : key entry = wanted := by
  simpa using List.find?_some found

/-- What is found is there. -/
theorem mem_of_lookup (found : lookup key wanted entries = some entry) : entry ∈ entries :=
  List.mem_of_find?_eq_some found

/-- With distinct keys, an entry is found under its key. -/
theorem lookup_of_mem (distinct : (entries.map key).Nodup) (member : entry ∈ entries) :
    lookup key (key entry) entries = some entry := by
  cases found : lookup key (key entry) entries with
  | none => exact absurd (List.mem_map_of_mem member) (lookup_eq_none_iff.mp found)
  | some first =>
      rw [List.inj_on_of_nodup_map distinct (mem_of_lookup found) member (key_of_lookup found)]

theorem remove_of_notMem (absent : wanted ∉ entries.map key) :
    remove key wanted entries = entries := by
  refine List.filter_eq_self.mpr fun entry member => ?_
  rw [decide_eq_true_eq]
  rintro rfl
  exact absent (List.mem_map_of_mem member)

/-- With distinct keys, removing an entry's key removes that entry only. -/
theorem remove_split (distinct : ((front ++ entry :: back).map key).Nodup) :
    remove key (key entry) (front ++ entry :: back) = front ++ back := by
  rw [List.map_append, List.map_cons, List.nodup_append] at distinct
  obtain ⟨_, tail, apart⟩ := distinct
  have notFront : key entry ∉ front.map key := fun member =>
    apart _ member _ List.mem_cons_self rfl
  have notBack : key entry ∉ back.map key := (List.nodup_cons.mp tail).1
  calc remove key (key entry) (front ++ entry :: back)
      = remove key (key entry) front ++ remove key (key entry) back := by
        simp [remove, List.filter_append]
    _ = front ++ back := by rw [remove_of_notMem notFront, remove_of_notMem notBack]

/-- A removed key is gone. -/
theorem notMem_remove : wanted ∉ (remove key wanted entries).map key := by
  simp [remove]

/-- Keys stay distinct. -/
theorem distinct_remove (distinct : (entries.map key).Nodup) :
    ((remove key wanted entries).map key).Nodup :=
  distinct.sublist (List.filter_sublist.map key)

theorem length_remove_le : (remove key wanted entries).length ≤ entries.length :=
  List.length_filter_le _ _

/-- Removing an entry makes room. -/
theorem length_remove_lt (found : lookup key wanted entries = some entry) :
    (remove key wanted entries).length < entries.length := by
  rw [remove, List.length_filter_lt_length_iff_exists]
  exact ⟨entry, mem_of_lookup found, by simp [key_of_lookup found]⟩

/-- Other keys are found as before. -/
theorem lookup_remove_of_ne (differ : other ≠ wanted) :
    lookup key wanted (remove key other entries) = lookup key wanted entries := by
  rw [lookup, remove, List.find?_filter]
  congr 1
  funext entry
  by_cases same : key entry = wanted
  · simp [same, Ne.symm differ]
  · simp [same]

/-- A removed key is not found. -/
theorem lookup_remove_self : lookup key wanted (remove key wanted entries) = none :=
  lookup_eq_none_iff.mpr notMem_remove

/-- The entry in front is found. -/
theorem lookup_cons_self (same : key entry = wanted) :
    lookup key wanted (entry :: entries) = some entry := by
  simp [lookup, same]

/-- An entry in front does not hide those of other keys. -/
theorem lookup_cons_of_ne (differ : key entry ≠ wanted) :
    lookup key wanted (entry :: entries) = lookup key wanted entries := by
  simp [lookup, differ]

/-! ## Keys ahead of a key -/

/-- Nothing is ahead of the entry in front. -/
theorem ahead_cons_self (same : key entry = wanted) : ahead key wanted (entry :: entries) = [] := by
  simp [ahead, same]

/-- An entry in front is ahead of every other key. -/
theorem ahead_cons_of_ne (differ : key entry ≠ wanted) :
    ahead key wanted (entry :: entries) = key entry :: ahead key wanted entries := by
  simp [ahead, differ]

/-- Removing another key moves nothing ahead. -/
theorem ahead_remove_subset (differ : other ≠ wanted) :
    ahead key wanted (remove key other entries) ⊆ ahead key wanted entries := by
  induction entries with
  | nil => simp [remove, ahead]
  | cons entry rest ih =>
      by_cases gone : key entry = other
      · rw [show remove key other (entry :: rest) = remove key other rest by simp [remove, gone],
          ahead_cons_of_ne (by rwa [gone])]
        exact List.Subset.trans ih (List.subset_cons_self _ _)
      · rw [show remove key other (entry :: rest) = entry :: remove key other rest by
          simp [remove, gone]]
        by_cases same : key entry = wanted
        · rw [ahead_cons_self same, ahead_cons_self same]
          exact List.Subset.refl _
        · rw [ahead_cons_of_ne same, ahead_cons_of_ne same]
          exact List.cons_subset_cons _ ih

/-- What is ahead of a key is there. -/
theorem ahead_subset_keys : ahead key wanted entries ⊆ entries.map key :=
  (List.takeWhile_sublist _).subset

/-- What is ahead of a key is there once. -/
theorem nodup_ahead (distinct : (entries.map key).Nodup) : (ahead key wanted entries).Nodup :=
  distinct.sublist (List.takeWhile_sublist _)

/-- Every other key is ahead of the key of the last entry. -/
theorem length_ahead_of_last (distinct : ((front ++ [entry]).map key).Nodup) :
    (ahead key (key entry) (front ++ [entry])).length = front.length := by
  have apart : ∀ other ∈ front.map key, other ≠ key entry := by
    rw [List.map_append, List.nodup_append] at distinct
    exact fun other member => distinct.2.2 other member _ List.mem_cons_self
  rw [ahead, List.map_append, List.map_singleton,
    List.takeWhile_append_of_pos (by simpa using apart)]
  simp

end FizzDns.Recency
