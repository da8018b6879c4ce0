/-
A map kept as a list of entries in increasing key order.

Keys are strictly increasing, so a key occurs once and the entries determine
the map. `put` replaces or inserts in place, `erase` drops a key. Replaying the
entries of a map in order rebuilds it. As a finite map it is what its lookups say,
and the operations are those of finite maps.
-/

import Mathlib.Algebra.GroupWithZero.Nat
import Mathlib.Order.Defs.LinearOrder
import Mathlib.Data.Finmap

namespace Etlx

variable {κ υ : Type} [LinearOrder κ]

@[ext]
structure FlatMap (κ υ : Type) [LinearOrder κ] where
  entries : List (κ × υ)
  sorted : entries.Pairwise (fun a b => a.1 < b.1)

namespace FlatMap

def empty : FlatMap κ υ := { entries := [], sorted := List.Pairwise.nil }

def size (m : FlatMap κ υ) : Nat := m.entries.length

def find (m : FlatMap κ υ) (key : κ) : Option υ :=
  (m.entries.find? (fun entry => decide (entry.1 = key))).map Prod.snd

def putEntry (key : κ) (value : υ) : List (κ × υ) → List (κ × υ)
  | [] => [(key, value)]
  | entry :: rest =>
      if key < entry.1 then (key, value) :: entry :: rest
      else if key = entry.1 then (key, value) :: rest
      else entry :: putEntry key value rest

theorem mem_putEntry {key : κ} {value : υ} {entries : List (κ × υ)} {entry : κ × υ}
    (member : entry ∈ putEntry key value entries) :
    entry = (key, value) ∨ entry ∈ entries := by
  induction entries with
  | nil => exact Or.inl (List.mem_singleton.mp member)
  | cons head rest ih =>
      unfold putEntry at member
      split at member
      · exact List.mem_cons.mp member
      · split at member
        · rcases List.mem_cons.mp member with here | later
          · exact Or.inl here
          · exact Or.inr (List.mem_cons_of_mem _ later)
        · rcases List.mem_cons.mp member with here | later
          · exact Or.inr (here ▸ List.mem_cons_self)
          · rcases ih later with same | old
            · exact Or.inl same
            · exact Or.inr (List.mem_cons_of_mem _ old)

theorem putEntry_sorted (key : κ) (value : υ) (entries : List (κ × υ))
    (sorted : entries.Pairwise (fun a b => a.1 < b.1)) :
    (putEntry key value entries).Pairwise (fun a b => a.1 < b.1) := by
  induction entries with
  | nil => exact List.pairwise_singleton _ _
  | cons head rest ih =>
      obtain ⟨above, ordered⟩ := List.pairwise_cons.mp sorted
      unfold putEntry
      split
      · next before =>
          apply List.Pairwise.cons _ sorted
          intro entry member
          rcases List.mem_cons.mp member with here | later
          · rw [here]
            exact before
          · exact lt_trans before (above entry later)
      · next notBefore =>
          split
          · next same =>
              apply List.Pairwise.cons _ ordered
              intro entry member
              change key < entry.1
              rw [same]
              exact above entry member
          · next different =>
              apply List.Pairwise.cons _ (ih ordered)
              intro entry member
              rcases mem_putEntry member with fresh | old
              · rw [fresh]
                exact lt_of_le_of_ne (not_lt.mp notBefore) (Ne.symm different)
              · exact above entry old

def put (m : FlatMap κ υ) (key : κ) (value : υ) : FlatMap κ υ :=
  { entries := putEntry key value m.entries
    sorted := putEntry_sorted key value m.entries m.sorted }

def erase (m : FlatMap κ υ) (key : κ) : FlatMap κ υ :=
  { entries := m.entries.filter (fun entry => decide (entry.1 ≠ key))
    sorted := m.sorted.filter _ }

theorem erase_size_le (m : FlatMap κ υ) (key : κ) : (m.erase key).size ≤ m.size :=
  List.length_filter_le _ _

theorem find_none_iff {m : FlatMap κ υ} {key : κ} :
    m.find key = none ↔ ∀ entry ∈ m.entries, entry.1 ≠ key := by
  simp [find]

theorem putEntry_length (key : κ) (value : υ) (entries : List (κ × υ)) :
    (putEntry key value entries).length ≤ entries.length + 1 := by
  induction entries with
  | nil => exact Nat.le_refl _
  | cons head rest ih =>
      unfold putEntry
      split
      · exact Nat.le_refl _
      · split
        · simp
        · simpa using ih

theorem putEntry_length_found (key : κ) (value : υ) (entries : List (κ × υ))
    (sorted : entries.Pairwise (fun a b => a.1 < b.1))
    (found : ∃ entry ∈ entries, entry.1 = key) :
    (putEntry key value entries).length = entries.length := by
  induction entries with
  | nil =>
      obtain ⟨entry, member, -⟩ := found
      cases member
  | cons head rest ih =>
      obtain ⟨above, ordered⟩ := List.pairwise_cons.mp sorted
      obtain ⟨entry, member, same⟩ := found
      have atLeast : head.1 ≤ key := by
        rcases List.mem_cons.mp member with here | later
        · rw [← same, here]
        · rw [← same]
          exact le_of_lt (above entry later)
      unfold putEntry
      rw [if_neg (not_lt.mpr atLeast)]
      by_cases here : key = head.1
      · rw [if_pos here]
        rfl
      · rw [if_neg here, List.length_cons, List.length_cons]
        congr 1
        apply ih ordered
        rcases List.mem_cons.mp member with first | later
        · exact absurd (first ▸ same).symm here
        · exact ⟨entry, later, same⟩

theorem put_size_le (m : FlatMap κ υ) (key : κ) (value : υ) :
    (m.put key value).size ≤ m.size + 1 :=
  putEntry_length key value m.entries

theorem put_size_found (m : FlatMap κ υ) {key : κ} (value : υ) (found : m.find key ≠ none) :
    (m.put key value).size = m.size := by
  apply putEntry_length_found key value m.entries m.sorted
  by_contra absent
  apply found
  rw [find_none_iff]
  intro entry member same
  exact absent ⟨entry, member, same⟩

theorem putEntry_last (key : κ) (value : υ) (entries : List (κ × υ))
    (below : ∀ entry ∈ entries, entry.1 < key) :
    putEntry key value entries = entries ++ [(key, value)] := by
  induction entries with
  | nil => rfl
  | cons head rest ih =>
      have first := below head List.mem_cons_self
      unfold putEntry
      rw [if_neg (not_lt.mpr (le_of_lt first)), if_neg (ne_of_gt first),
        ih (fun entry member => below entry (List.mem_cons_of_mem _ member))]
      rfl

/-- A weight of entries grows by no more than what is put. -/
theorem putEntry_weight (weight : κ × υ → Nat) (key : κ) (value : υ) (entries : List (κ × υ)) :
    ((putEntry key value entries).map weight).sum ≤
      (entries.map weight).sum + weight (key, value) := by
  induction entries with
  | nil => simp [putEntry]
  | cons head rest ih =>
      unfold putEntry
      split
      · simp only [List.map_cons, List.sum_cons]
        omega
      · split
        · simp only [List.map_cons, List.sum_cons]
          omega
        · simp only [List.map_cons, List.sum_cons]
          omega

/-! ### As a finite map -/

theorem find_putEntry (key other : κ) (value : υ) (entries : List (κ × υ)) :
    (putEntry key value entries).find? (fun entry => decide (entry.1 = other)) =
      if other = key then some (key, value)
      else entries.find? (fun entry => decide (entry.1 = other)) := by
  induction entries with
  | nil =>
      rw [putEntry, List.find?_cons, List.find?_nil]
      by_cases same : other = key
      · rw [if_pos same, decide_eq_true same.symm]
      · rw [if_neg same, decide_eq_false (fun equal => same equal.symm)]
  | cons head rest ih =>
      unfold putEntry
      by_cases same : other = key
      · rw [if_pos same] at ih ⊢
        split
        · rw [List.find?_cons, decide_eq_true same.symm]
        · split
          · rw [List.find?_cons, decide_eq_true same.symm]
          · next different =>
              rw [List.find?_cons, decide_eq_false (fun equal => different (equal.trans same).symm),
                ih]
      · have skipped : decide (key = other) = false :=
          decide_eq_false (fun equal => same equal.symm)
        rw [if_neg same] at ih ⊢
        split
        · rw [List.find?_cons, skipped]
        · split
          · next here =>
              rw [List.find?_cons, skipped, List.find?_cons, ← here, skipped]
          · rw [List.find?_cons, List.find?_cons, ih]

theorem find_put (m : FlatMap κ υ) (key other : κ) (value : υ) :
    (m.put key value).find other = if other = key then some value else m.find other := by
  unfold find put
  dsimp only
  rw [find_putEntry]
  split
  · rfl
  · rfl

theorem find_erase (m : FlatMap κ υ) (key other : κ) :
    (m.erase key).find other = if other = key then none else m.find other := by
  unfold find erase
  dsimp only
  rw [List.find?_filter]
  by_cases same : other = key
  · rw [if_pos same, Option.map_eq_none_iff, List.find?_eq_none]
    intro entry _member
    simp [same]
  · rw [if_neg same]
    congr 2
    funext entry
    by_cases here : entry.1 = other
    · simp [here, same]
    · simp [here]

theorem find_cons {head : κ × υ} {rest : List (κ × υ)} (key : κ) :
    ((head :: rest).find? (fun entry => decide (entry.1 = key))).map Prod.snd =
      if key = head.1 then some head.2
      else (rest.find? (fun entry => decide (entry.1 = key))).map Prod.snd := by
  rw [List.find?_cons]
  by_cases here : key = head.1
  · rw [if_pos here, decide_eq_true here.symm]
    rfl
  · rw [if_neg here, decide_eq_false (fun same => here same.symm)]

theorem find_some_mem {m : FlatMap κ υ} {key : κ} {value : υ} (found : m.find key = some value) :
    (key, value) ∈ m.entries := by
  obtain ⟨entry, hit, same⟩ := Option.map_eq_some_iff.mp found
  have here := List.find?_some hit
  have member := List.mem_of_find?_eq_some hit
  rw [decide_eq_true_eq] at here
  rw [← here, ← same]
  exact member

variable [DecidableEq κ]

def toFinmap (m : FlatMap κ υ) : Finmap (fun _ : κ => υ) :=
  (m.entries.map (fun entry => (⟨entry.1, entry.2⟩ : Sigma (fun _ : κ => υ)))).toFinmap

theorem lookup_toFinmap (m : FlatMap κ υ) (key : κ) : m.toFinmap.lookup key = m.find key := by
  unfold toFinmap find
  rw [Finmap.dlookup_list_toFinmap]
  induction m.entries with
  | nil => rfl
  | cons head rest ih =>
      rw [List.map_cons, find_cons]
      by_cases here : key = head.1
      · subst here
        rw [List.dlookup_cons_eq, if_pos rfl]
      · rw [List.dlookup_cons_ne _ _ here, ih, if_neg here]

theorem toFinmap_put (m : FlatMap κ υ) (key : κ) (value : υ) :
    (m.put key value).toFinmap = m.toFinmap.insert key value := by
  apply Finmap.ext_lookup
  intro other
  rw [lookup_toFinmap, find_put]
  by_cases same : other = key
  · rw [if_pos same, same, Finmap.lookup_insert]
  · rw [if_neg same, Finmap.lookup_insert_of_ne _ same, lookup_toFinmap]

theorem toFinmap_erase (m : FlatMap κ υ) (key : κ) :
    (m.erase key).toFinmap = m.toFinmap.erase key := by
  apply Finmap.ext_lookup
  intro other
  rw [lookup_toFinmap, find_erase]
  by_cases same : other = key
  · rw [if_pos same, same, Finmap.lookup_erase]
  · rw [if_neg same, Finmap.lookup_erase_ne same, lookup_toFinmap]

theorem card_toFinmap (m : FlatMap κ υ) : m.toFinmap.keys.card = m.size := by
  have distinct : (m.entries.map Prod.fst).Nodup := by
    rw [List.nodup_iff_pairwise_ne, List.pairwise_map]
    exact m.sorted.imp (fun less => ne_of_lt less)
  have keys : m.toFinmap.keys = (m.entries.map Prod.fst).toFinset := by
    ext key
    rw [Finmap.mem_keys, Finmap.mem_iff, List.mem_toFinset, List.mem_map]
    constructor
    · rintro ⟨value, found⟩
      rw [lookup_toFinmap] at found
      exact ⟨(key, value), find_some_mem found, rfl⟩
    · rintro ⟨entry, member, here⟩
      rw [lookup_toFinmap, ← Option.isSome_iff_exists, Option.isSome_iff_ne_none, ne_eq,
        find_none_iff]
      intro absent
      exact absent entry member here
  rw [keys, List.toFinset_card_of_nodup distinct, List.length_map]
  rfl

end FlatMap

end Etlx
