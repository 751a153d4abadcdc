import ChipEight.Settings.Load
import Mathlib

/-!
# Data under names

A mapping whose keys are texts is a list of names with their data. Such lists are merged name by name, as the
entries of overrides and as the flags of a draft, and the data of the second list win (`lookup_setAll`).
-/

namespace ChipEight.Settings

abbrev Named := List (String × Datum)

namespace Named

def names (xs : Named) : List String := xs.map Prod.fst

/-- As a mapping that is merged into others. -/
def entries (xs : Named) : Entries := xs.map fun (name, d) => (.text name, d)

/-- As the flags of a draft. -/
def held (xs : Named) : Flags := xs.map fun (name, d) => (name, .value d)

/-- Replaces the datum of a name, or adds the name at the end. -/
def set (name : String) (d : Datum) : Named → Named
  | [] => [(name, d)]
  | (n, e) :: xs => if n = name then (n, d) :: xs else (n, e) :: set name d xs

def setAll (xs ys : Named) : Named := ys.foldl (fun zs e => zs.set e.1 e.2) xs

variable {xs ys : Named} {name other : String} {d : Datum}

/-! ## Names -/

theorem lookup_cons : List.lookup name ((other, d) :: xs) = if name = other then some d else xs.lookup name := by
  rw [List.lookup_cons]
  split
  · rw [if_pos (by simpa using ‹(name == other) = true›)]
  · rw [if_neg (by simpa using ‹(name == other) = false›)]

theorem lookup_isSome : (xs.lookup name).isSome ↔ name ∈ xs.names := by
  induction xs with
  | nil => simp [names]
  | cons e xs ih =>
      rw [lookup_cons, names, List.map_cons, List.mem_cons, ← names, ← ih]
      split <;> simp_all

theorem lookup_eq_none (h : name ∉ xs.names) : xs.lookup name = none := by
  rwa [← Option.not_isSome_iff_eq_none, lookup_isSome]

theorem mem_of_lookup (h : xs.lookup name = some d) : (name, d) ∈ xs := by
  obtain ⟨l₁, l₂, rfl, -⟩ := List.lookup_eq_some_iff.mp h
  exact List.mem_append_right l₁ List.mem_cons_self

theorem names_set : (xs.set name d).names = if name ∈ xs.names then xs.names else xs.names ++ [name] := by
  induction xs with
  | nil => rfl
  | cons e xs ih =>
      simp only [names, set, List.map_cons, List.mem_cons] at ih ⊢
      by_cases h : e.1 = name
      · simp [h]
      · rw [if_neg h, List.map_cons, ih]
        by_cases hmem : name ∈ xs.map Prod.fst <;> simp [hmem, Ne.symm h]

theorem nodup_set (h : xs.names.Nodup) : (xs.set name d).names.Nodup := by
  rw [names_set]
  split
  · exact h
  · rename_i hnot
    exact List.nodup_append.mpr ⟨h, List.nodup_singleton name, fun n hn m hm =>
      List.mem_singleton.mp hm ▸ ne_of_mem_of_not_mem hn hnot⟩

theorem nodup_setAll (h : xs.names.Nodup) : (xs.setAll ys).names.Nodup := by
  induction ys generalizing xs with
  | nil => exact h
  | cons e ys ih => exact ih (nodup_set h)

/-! ## Data -/

theorem lookup_set : (xs.set name d).lookup other = if other = name then some d else xs.lookup other := by
  induction xs with
  | nil => exact lookup_cons
  | cons e xs ih =>
      rw [set]
      split
      · rename_i h
        rw [lookup_cons, lookup_cons, h]
        split <;> rfl
      · rename_i h
        rw [lookup_cons, lookup_cons, ih]
        by_cases ho : other = e.1
        · simp [ho, h]
        · simp [ho]

/-- Each name of the second list occurs only once, so that its first datum is the last one to be set. -/
theorem lookup_setAll (h : ys.names.Nodup) :
    (xs.setAll ys).lookup name = (ys.lookup name).or (xs.lookup name) := by
  induction ys generalizing xs with
  | nil => rfl
  | cons e ys ih =>
      obtain ⟨hnot, hrest⟩ := List.nodup_cons.mp h
      refine (ih hrest).trans ?_
      rw [lookup_set, lookup_cons]
      split
      · rename_i hn
        rw [hn, lookup_eq_none hnot]
        rfl
      · rfl

theorem mem_set {e : String × Datum} (h : e ∈ xs.set name d) : e = (name, d) ∨ e ∈ xs := by
  induction xs with
  | nil => exact Or.inl (List.mem_singleton.mp h)
  | cons f xs ih =>
      rw [set] at h
      split at h
      · rename_i hn
        rcases List.mem_cons.mp h with rfl | h
        · exact Or.inl (by rw [hn])
        · exact Or.inr (List.mem_cons_of_mem f h)
      · rcases List.mem_cons.mp h with rfl | h
        · exact Or.inr List.mem_cons_self
        · exact (ih h).imp_right (List.mem_cons_of_mem f)

theorem mem_setAll {e : String × Datum} (h : e ∈ xs.setAll ys) : e ∈ ys ∨ e ∈ xs := by
  induction ys generalizing xs with
  | nil => exact Or.inr h
  | cons f ys ih =>
      rcases ih h with h | h
      · exact Or.inl (List.mem_cons_of_mem f h)
      · rcases mem_set h with rfl | h
        · exact Or.inl List.mem_cons_self
        · exact Or.inr h

/-! ## Names as keys -/

@[simp] theorem entries_nil : entries [] = [] := rfl

@[simp] theorem entries_cons : entries ((name, d) :: xs) = (.text name, d) :: xs.entries := rfl

theorem valueOf?_entries : valueOf? xs.entries (.text name) = xs.lookup name := by
  induction xs with
  | nil => rfl
  | cons e xs ih =>
      simp only [valueOf?, entries, List.map_cons, List.find?_cons, Yaml.sameKey] at ih ⊢
      rw [lookup_cons, ← ih]
      by_cases h : e.1 = name
      · simp [h]
      · simp [h, Ne.symm h]

theorem setKey_entries : Yaml.setKey (.text name) d xs.entries = (xs.set name d).entries := by
  induction xs with
  | nil => rfl
  | cons e xs ih =>
      obtain ⟨n, e⟩ := e
      simp only [entries, List.map_cons, Yaml.setKey, Yaml.sameKey, decide_eq_true_eq, set] at ih ⊢
      split
      · rfl
      · rw [ih, List.map_cons]

theorem held_cons : held ((name, d) :: xs) = (name, .value d) :: xs.held := rfl

theorem set_held : Flags.set name (.value d) xs.held = (xs.set name d).held := by
  induction xs with
  | nil => rfl
  | cons e xs ih =>
      obtain ⟨n, e⟩ := e
      simp only [held, List.map_cons, Flags.set, set] at ih ⊢
      split
      · rfl
      · rw [ih, List.map_cons]

/-! ## Truth values -/

/-- Truth values, each under a name of its own. -/
structure Truths (xs : Named) : Prop where
  nodup : xs.names.Nodup
  truth : ∀ e ∈ xs, ∃ b, e.2 = .bool b

namespace Truths

theorem nil : Truths [] := ⟨List.nodup_nil, by simp⟩

theorem set (h : xs.Truths) (b : Bool) : (xs.set name (.bool b)).Truths where
  nodup := nodup_set h.nodup
  truth e he := by
    rcases mem_set he with rfl | he
    · exact ⟨b, rfl⟩
    · exact h.truth e he

theorem setAll (hx : xs.Truths) (hy : ys.Truths) : (xs.setAll ys).Truths where
  nodup := nodup_setAll hx.nodup
  truth e he := (mem_setAll he).elim (hy.truth e) (hx.truth e)

theorem lookup (h : xs.Truths) (hlookup : xs.lookup name = some d) : ∃ b, d = .bool b :=
  h.truth _ (mem_of_lookup hlookup)

end Truths

end Named

end ChipEight.Settings
