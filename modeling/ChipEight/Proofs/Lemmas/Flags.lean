import ChipEight.Proofs.Lemmas.Named

/-!
# Presets with flags changed

Flags that are set by name, each of them once, win over those of a preset (`Settings.dialect_cases`).
-/

namespace ChipEight

/-! ## Names -/

namespace Dialect

variable {name : String}

theorem Flag.ofName?_eq_some {f : Flag} : ofName? name = some f ↔ f.name = name := by
  constructor
  · intro h
    simpa using List.find?_some h
  · rintro rfl
    cases f <;> rfl

theorem Flag.name_injective {f g : Flag} (h : f.name = g.name) : f = g :=
  Option.some.inj ((ofName?_eq_some.mpr h).symm.trans (ofName?_eq_some.mpr rfl))

theorem Flag.mem_names : name ∈ all.map (·.name) ↔ ∃ f, ofName? name = some f := by
  simp only [List.mem_map, ofName?_eq_some]
  constructor
  · rintro ⟨f, -, hf⟩
    exact ⟨f, hf⟩
  · rintro ⟨f, hf⟩
    exact ⟨f, by cases f <;> decide, hf⟩

theorem preset?_eq_none : preset? name = none ↔ name ∉ presets.map (·.1) := by
  simp [preset?, List.lookup_eq_none_iff, presets]

end Dialect

/-! ## Values of flags -/

namespace Dialect.Values

open Settings

theorem setAll_eq_ok {v : Values} {xs : Named} (hn : xs.names.Nodup)
    (hknown : ∀ name ∈ xs.names, name ∈ Flag.all.map (·.name)) :
    ∃ w, v.setAll xs = .ok w ∧ ∀ f, w.get f = (xs.lookup f.name).getD (v.get f) := by
  induction xs generalizing v with
  | nil => exact ⟨v, rfl, fun _ => rfl⟩
  | cons e xs ih =>
      obtain ⟨n, d⟩ := e
      obtain ⟨hnot, hrest⟩ := List.nodup_cons.mp hn
      obtain ⟨hfirst, hothers⟩ := List.forall_mem_cons.mp hknown
      obtain ⟨f, hf⟩ := Flag.mem_names.mp hfirst
      obtain ⟨w, hw, hget⟩ := ih (v := v.set f d) hrest hothers
      refine ⟨w, ?_, fun g => ?_⟩
      · rw [setAll, hf]
        exact hw
      · obtain rfl : f.name = n := Flag.ofName?_eq_some.mp hf
        rw [hget, Named.lookup_cons]
        by_cases hg : g = f
        · subst hg
          rw [if_pos rfl, Named.lookup_eq_none hnot]
          simp [set]
        · rw [if_neg fun h => hg (Flag.name_injective h)]
          simp [set, hg]

theorem get_toDialect (v : Values) (f : Flag) : v.toDialect.get f = (v.get f).isTrue := by
  cases f <;> rfl

end Dialect.Values

/-! ## The dialect of settings -/

namespace Settings

variable {s : Settings}

/-- A name of a flag or of a preset that there is not. -/
def NamesUnknown (s : Settings) : Prop :=
  (∃ name ∈ Named.names s.flags, name ∉ Dialect.Flag.all.map (·.name)) ∨ s.preset ∉ Dialect.presets.map (·.1)

theorem unknownFlags_eq_nil :
    s.unknownFlags = [] ↔ ∀ name ∈ Named.names s.flags, name ∈ Dialect.Flag.all.map (·.name) := by
  have hmem (name : String) : name ∈ s.unknownFlags ↔
      name ∈ Named.names s.flags ∧ name ∉ Dialect.Flag.all.map (·.name) := by
    rw [unknownFlags, sortNames, List.mem_mergeSort, List.mem_eraseDups, List.mem_filter, Dialect.Flag.mem_names,
      Option.isNone_iff_eq_none, Option.eq_none_iff_forall_ne_some, not_exists]
    rfl
  simp only [List.eq_nil_iff_forall_not_mem, hmem, not_and, not_not]

theorem dialect_eq_error (h : s.NamesUnknown) : ∃ e, s.dialect = .error e := by
  rw [dialect, dialectValues]
  split
  · rename_i hnil
    obtain ⟨name, hmem, hnot⟩ | hpreset := h
    · exact absurd (unknownFlags_eq_nil.mp hnil name hmem) hnot
    · rw [Dialect.preset, Dialect.preset?_eq_none.mpr hpreset]
      exact ⟨_, rfl⟩
  · exact ⟨_, rfl⟩

variable (h : Named.Truths s.flags)
include h

theorem dialect_eq_ok (hknown : ¬s.NamesUnknown) : ∃ base d, Dialect.preset? s.preset = some base ∧
    s.dialect = .ok d ∧ ∀ f, .bool (d.get f) = (s.flags.lookup f.name).getD (.bool (base.get f)) := by
  have hflags : ∀ name ∈ Named.names s.flags, name ∈ Dialect.Flag.all.map (·.name) :=
    fun name hmem => by_contra fun hnot => hknown (.inl ⟨name, hmem, hnot⟩)
  have hpreset : Dialect.preset? s.preset ≠ none := fun hnone => hknown (.inr (Dialect.preset?_eq_none.mp hnone))
  obtain ⟨base, hbase⟩ := Option.ne_none_iff_exists'.mp hpreset
  obtain ⟨w, hw, hget⟩ := Dialect.Values.setAll_eq_ok (v := .ofDialect base) h.nodup hflags
  refine ⟨base, w.toDialect, hbase, ?_, fun f => ?_⟩
  · rw [dialect, dialectValues, unknownFlags_eq_nil.mpr hflags, Dialect.preset, hbase]
    change (((Dialect.Values.ofDialect base).setAll s.flags).mapError _).map _ = _
    rw [hw]
    rfl
  · rw [Dialect.Values.get_toDialect, hget]
    cases hlookup : s.flags.lookup f.name with
    | none => rfl
    | some d =>
        obtain ⟨b, rfl⟩ := h.lookup hlookup
        rfl

theorem dialect_cases : ((∃ e, s.dialect = .error e) ↔ s.NamesUnknown) ∧
    ∀ d, s.dialect = .ok d → ∃ base, Dialect.preset? s.preset = some base ∧
      ∀ f, .bool (d.get f) = (s.flags.lookup f.name).getD (.bool (base.get f)) := by
  by_cases hknown : s.NamesUnknown
  · obtain ⟨e, he⟩ := dialect_eq_error hknown
    simp [he, hknown]
  · obtain ⟨base, d, hbase, hd, hget⟩ := dialect_eq_ok h hknown
    simp [hd, hknown, hbase, hget]

end Settings

end ChipEight
