import ChipEight.Proofs.Lemmas.Access
import ChipEight.Proofs.Lemmas.Named

/-!
# Overrides of data that fit

An override whose datum fits its place is never refused. It replaces what stands at its own place and leaves
everything else alone, and flags are merged into those that are there (`Override.leads_of_fits`). So the mapping
that overrides make holds at each place what the last of them says (`Override.gather_of_fits`).
-/

namespace ChipEight

/-- A text of one scalar stands for what that scalar stands for. -/
theorem Yaml.read_scalar {text : List Char} {plain : Bool} {value : String}
    (hallowed : (content (.ofList text)).all isAllowed = true)
    (htokens : (TokenList.ofText (content (.ofList text))).tokens = [.scalar plain value])
    (hend : (TokenList.ofText (content (.ofList text))).error = none) :
    read (.ofList text) = (if plain then .ofPlain value else .text : Tag).datum value := by
  have hnode : Node.ofTokens ⟨[.scalar plain value], none⟩ = .ok (some (Build.scalarNode none plain value)) := rfl
  have hlist : TokenList.ofText (content (.ofList text)) = ⟨[.scalar plain value], none⟩ := by
    rw [← htokens, ← hend]
  rw [read, hallowed, hlist, hnode]
  simp only [Build.scalarNode, bind, Except.bind, Node.datum, Build.tagOf]
  cases plain <;> rfl

/-- What keys lead to. -/
def Datum.at? : Datum → List String → Option Datum
  | d, [] => some d
  | .map es, key :: path => (Settings.valueOf? es (.text key)).bind (·.at? path)
  | _, _ :: _ => none

namespace Settings

/-- The places of single values. -/
inductive Place : List String → Prop where
  | setting {key : String} (h : key ≠ "quirks") : Place [key]
  | flag (name : String) : Place ["quirks", name]

theorem Place.eq_cons {path : List String} : Place path → ∃ key rest, path = key :: rest
  | .setting _ => ⟨_, _, rfl⟩
  | .flag _ => ⟨_, _, rfl⟩

variable {xs ys fs : Named} {name key : String} {d : Datum} {path : List String}

/-! ## Data under names -/

namespace Named

def at? (xs : Named) (path : List String) : Option Datum := (Datum.map xs.entries).at? path

theorem at?_nil (hp : Place path) : at? [] path = none := by
  cases hp <;> rfl

theorem at?_cons : xs.at? (key :: path) = (xs.lookup key).bind (·.at? path) := by
  rw [at?, Datum.at?, valueOf?_entries]

theorem at?_key : xs.at? [key] = xs.lookup key := by
  rw [at?_cons]
  cases xs.lookup key <;> rfl

theorem at?_set : (xs.set name d).at? (key :: path) = if key = name then d.at? path else xs.at? (key :: path) := by
  rw [at?_cons, at?_cons, lookup_set]
  split <;> rfl

theorem at?_singleton : at? [(name, d)] (key :: path) = if key = name then d.at? path else none := by
  rw [at?_cons, lookup_cons]
  split <;> rfl

/-- Under a name of its own an entry adds to what the others say. -/
theorem at?_cons_of_not_mem (h : name ∉ xs.names) :
    at? ((name, d) :: xs) (key :: path) = (xs.at? (key :: path)).or (at? [(name, d)] (key :: path)) := by
  rw [at?_singleton, at?_cons, at?_cons, lookup_cons]
  split
  · rename_i hk
    rw [hk, lookup_eq_none h]
    rfl
  · rw [Option.or_none]

theorem checkEntries_entries (h : ∀ e ∈ xs, check e.2 = .ok ()) : checkEntries xs.entries = .ok () := by
  induction xs with
  | nil => simp [checkEntries]
  | cons e xs ih =>
      obtain ⟨he, hrest⟩ := List.forall_mem_cons.mp h
      obtain ⟨name, d⟩ := e
      rw [entries_cons, checkEntries, he]
      · exact ih hrest
      · simp

end Named

/-! ## Truth values -/

theorem Named.Truths.checked (h : fs.Truths) : checkEntries fs.entries = .ok () := by
  refine checkEntries_entries fun e he => ?_
  obtain ⟨b, hb⟩ := h.truth e he
  rw [hb]
  simp [check]

theorem mergeEntries_entries (h : ∀ e ∈ ys, ∃ b, e.2 = .bool b) :
    mergeEntries xs.entries (Named.entries ys) = .ok (xs.setAll ys).entries := by
  induction ys generalizing xs with
  | nil => simp [mergeEntries, Named.setAll]
  | cons e ys ih =>
      obtain ⟨⟨b, hb⟩, hrest⟩ := List.forall_mem_cons.mp h
      obtain ⟨n, e⟩ := e
      subst hb
      simp only [Named.entries_cons, mergeEntries, isPlaceholder, Bool.false_and, Bool.false_eq_true, if_false,
        Named.setKey_entries]
      exact ih hrest

/-! ## Data that fit -/

/-- Data of the kind that is meant for the place to which keys lead. -/
inductive Fits : List String → Datum → Prop where
  | entry (z : Int) : Fits ["entry_point"] (.int z)
  | seed (z : Int) : Fits ["seed"] (.int z)
  | traceLength (z : Int) : Fits ["trace_length"] (.int z)
  | preset {s : String} (hs : s ≠ placeholder) (hr : hasReference s.toList = false) : Fits ["preset"] (.text s)
  | flag (name : String) (b : Bool) : Fits ["quirks", name] (.bool b)
  | flags {fs : Named} (h : fs.Truths) : Fits ["quirks"] (.map fs.entries)

theorem Fits.checked (h : Fits path d) : check d = .ok () := by
  cases h with
  | preset hs hr => simp [check, referenceIn, hr]
  | flags h => rw [check, h.checked]
  | _ => simp [check]

theorem Fits.flags_eq (h : Fits ["quirks"] d) : ∃ fs : Named, fs.Truths ∧ d = .map fs.entries := by
  -- The other constructors differ by a literal, which is why the path is named first.
  generalize hpath : ["quirks"] = path at h
  cases h with
  | flags hfs => exact ⟨_, hfs, rfl⟩
  | _ => simp at hpath

/-- Only flags have others inside them. -/
theorem Fits.single (h : Fits [name] d) (hname : name ≠ "quirks") :
    (∀ entries, d ≠ .map entries) ∧ ∀ items, d ≠ .list items := by
  generalize hpath : [name] = path at h
  cases h with
  | flags => exact absurd (List.cons.inj hpath).1 hname
  | flag => cases hpath
  | _ => simp

/-- Settings under their names, each of them once. -/
structure Named.Fit (xs : Named) : Prop where
  nodup : xs.names.Nodup
  fits : ∀ e ∈ xs, Fits [e.1] e.2

/-- The flags among the data, none if nothing is said about flags. -/
def Named.HoldsFlags (xs fs : Named) : Prop :=
  xs.lookup "quirks" = some (.map fs.entries) ∨ xs.lookup "quirks" = none ∧ fs = []

namespace Named.Fit

theorem nil : Fit [] := ⟨List.nodup_nil, by simp⟩

theorem checked (h : xs.Fit) : checkEntries xs.entries = .ok () :=
  checkEntries_entries fun e he => (h.fits e he).checked

theorem set (h : xs.Fit) (hd : Fits [name] d) : (xs.set name d).Fit where
  nodup := nodup_set h.nodup
  fits e he := by
    rcases mem_set he with rfl | he
    · exact hd
    · exact h.fits e he

theorem holdsFlags (h : xs.Fit) : ∃ fs : Named, fs.Truths ∧ xs.HoldsFlags fs := by
  cases hq : xs.lookup "quirks" with
  | none => exact ⟨[], .nil, .inr ⟨hq, rfl⟩⟩
  | some d =>
      obtain ⟨fs, hfs, rfl⟩ := Fits.flags_eq (h.fits _ (mem_of_lookup hq))
      exact ⟨fs, hfs, .inl hq⟩

end Named.Fit

/-! ## What is put where -/

theorem putLast_of_single {es : Entries} (hm : ∀ entries, d ≠ .map entries) (hl : ∀ items, d ≠ .list items) :
    putLast key d es = .ok (Yaml.setKey (.text key) d es) := by
  unfold putLast
  split <;> simp_all [pure, Except.pure]

namespace Named.HoldsFlags

variable (h : xs.HoldsFlags fs)
include h

theorem at?_flag : xs.at? ["quirks", name] = fs.lookup name := by
  obtain h | ⟨h, rfl⟩ := h
  · rw [at?_cons, h]
    exact at?_key
  · rw [at?_cons, h]
    rfl

theorem put_flag {b : Bool} : put (.bool b) ["quirks", name] xs.entries =
    .ok (xs.set "quirks" (.map (fs.set name (.bool b)).entries)).entries := by
  have hlast : putLast name (.bool b) fs.entries = .ok (fs.set name (.bool b)).entries := by
    rw [putLast_of_single (by simp) (by simp), setKey_entries]
  obtain h | ⟨h, rfl⟩ := h
  · simp only [put, valueOf?_entries, h, hlast, setKey_entries]
    rfl
  · rw [entries_nil] at hlast
    simp only [put, valueOf?_entries, h, hlast, setKey_entries]
    rfl

theorem put_flags {gs : Named} (hfs : fs.Truths) (hgs : gs.Truths) :
    ∃ zs : Named, zs.Truths ∧ (∀ name, zs.lookup name = (gs.lookup name).or (fs.lookup name)) ∧
      put (.map gs.entries) ["quirks"] xs.entries = .ok (xs.set "quirks" (.map zs.entries)).entries := by
  obtain h | ⟨h, rfl⟩ := h
  · refine ⟨fs.setAll gs, hfs.setAll hgs, fun name => lookup_setAll hgs.nodup, ?_⟩
    simp only [put, putLast, valueOf?_entries, h, mergeEntries_entries hgs.truth, setKey_entries]
    rfl
  · refine ⟨gs, hgs, fun name => by simp, ?_⟩
    simp only [put, putLast, valueOf?_entries, h, setKey_entries]
    rfl

end Named.HoldsFlags

/-! ## Single overrides -/

namespace Override

/-- What an override says about a place. -/
def given? (o : Override) (path : List String) : Option Datum := (o.path.isPrefixOf? path).bind o.value.at?

section Given

variable {other : String}

theorem given?_of_ne {o : Override} {rest : List String} (ho : o.path = name :: rest) (h : key ≠ name) :
    o.given? (key :: path) = none := by
  simp [given?, ho, List.isPrefixOf?, Ne.symm h]

theorem given?_setting : (mk [name] d).given? [name] = some d := by
  simp [given?, List.isPrefixOf?, Datum.at?]

theorem given?_flag {b : Bool} :
    (mk ["quirks", name] (.bool b)).given? ["quirks", other] = if other = name then some (.bool b) else none := by
  by_cases h : other = name
  · simp [given?, List.isPrefixOf?, Datum.at?, h]
  · simp [given?, List.isPrefixOf?, h, Ne.symm h]

theorem given?_flags : (mk ["quirks"] (.map fs.entries)).given? ["quirks", other] = fs.lookup other := by
  have hat : (Datum.map fs.entries).at? [other] = fs.lookup other := Named.at?_key
  simpa [given?, List.isPrefixOf?] using hat

end Given

/-- Where an override leads from a mapping. -/
structure Leads (o : Override) (xs ys : Named) : Prop where
  applies : o.applyTo xs.entries = .ok ys.entries
  fit : ys.Fit
  at? : ∀ path, Place path → ys.at? path = (o.given? path).or (xs.at? path)

theorem leads_setting (hx : xs.Fit) (h : Fits [name] d) (hname : name ≠ "quirks") :
    (mk [name] d).Leads xs (xs.set name d) where
  applies := by
    obtain ⟨hm, hl⟩ := h.single hname
    rw [applyTo, h.checked, ← Named.setKey_entries]
    exact putLast_of_single hm hl
  fit := hx.set h
  at? := by
    rintro _ (@⟨key, hkey⟩ | other)
    · rw [Named.at?_set]
      split
      · rename_i hk
        rw [hk, given?_setting]
        rfl
      · rename_i hk
        rw [given?_of_ne rfl hk, Option.none_or]
    · rw [Named.at?_set, if_neg hname.symm, given?_of_ne rfl hname.symm, Option.none_or]

theorem leads_quirks {o : Override} {rest : List String} {zs : Named} (hx : xs.Fit) (hfs : xs.HoldsFlags fs)
    (ho : Fits o.path o.value) (hpath : o.path = "quirks" :: rest) (hzs : zs.Truths)
    (hput : put o.value o.path xs.entries = .ok (xs.set "quirks" (.map zs.entries)).entries)
    (hlookup : ∀ name, zs.lookup name = (o.given? ["quirks", name]).or (fs.lookup name)) :
    o.Leads xs (xs.set "quirks" (.map zs.entries)) where
  applies := by
    rw [applyTo, ho.checked]
    exact hput
  fit := hx.set (.flags hzs)
  at? := by
    rintro _ (@⟨key, hkey⟩ | name)
    · rw [Named.at?_set, if_neg hkey, given?_of_ne hpath hkey, Option.none_or]
    · have hat : (Datum.map zs.entries).at? [name] = zs.lookup name := Named.at?_key
      rw [Named.at?_set, if_pos rfl, hat, hfs.at?_flag, hlookup]

theorem leads_of_fits {o : Override} (hx : xs.Fit) (ho : Fits o.path o.value) : ∃ ys, o.Leads xs ys := by
  obtain ⟨path, d⟩ := o
  obtain ⟨fs, htruths, hfs⟩ := hx.holdsFlags
  cases ho with
  | entry z => exact ⟨_, leads_setting hx (.entry z) (by decide)⟩
  | seed z => exact ⟨_, leads_setting hx (.seed z) (by decide)⟩
  | traceLength z => exact ⟨_, leads_setting hx (.traceLength z) (by decide)⟩
  | preset hs hr => exact ⟨_, leads_setting hx (.preset hs hr) (by decide)⟩
  | flag name b =>
      refine ⟨_, leads_quirks hx hfs (.flag name b) rfl (htruths.set b) hfs.put_flag fun other => ?_⟩
      rw [given?_flag, Named.lookup_set]
      split <;> rfl
  | flags hgs =>
      obtain ⟨zs, hzs, hlookup, hput⟩ := hfs.put_flags htruths hgs
      refine ⟨_, leads_quirks hx hfs (.flags hgs) rfl hzs hput fun other => ?_⟩
      rw [given?_flags, hlookup]

/-! ## All overrides -/

/-- The mapping that overrides make, one after another. -/
def gather (os : List Override) : Except LoadError Entries := os.foldlM (fun es o => o.applyTo es) []

/-- What is said last about a place. -/
def lastGiven? (os : List Override) (path : List String) : Option Datum := os.reverse.findSome? (·.given? path)

variable {os : List Override}

theorem lastGiven?_cons {o : Override} : lastGiven? (o :: os) path = (lastGiven? os path).or (o.given? path) := by
  simp [lastGiven?, List.findSome?_append]

theorem foldlM_applyTo (hx : xs.Fit) (hos : ∀ o ∈ os, Fits o.path o.value) :
    ∃ ys : Named, ys.Fit ∧ os.foldlM (fun es o => o.applyTo es) xs.entries = .ok ys.entries ∧
      ∀ path, Place path → ys.at? path = (lastGiven? os path).or (xs.at? path) := by
  induction os generalizing xs with
  | nil => exact ⟨xs, hx, rfl, fun _ _ => rfl⟩
  | cons o os ih =>
      obtain ⟨ho, hrest⟩ := List.forall_mem_cons.mp hos
      obtain ⟨ys, happlies, hfit, hat⟩ := leads_of_fits hx ho
      obtain ⟨zs, hzs, hfold, hall⟩ := ih hfit hrest
      refine ⟨zs, hzs, ?_, fun path hp => ?_⟩
      · rw [List.foldlM_cons, happlies]
        exact hfold
      · rw [hall path hp, hat path hp, lastGiven?_cons, Option.or_assoc]

theorem gather_of_fits (hos : ∀ o ∈ os, Fits o.path o.value) :
    ∃ ys : Named, ys.Fit ∧ gather os = .ok ys.entries ∧ ∀ path, Place path → ys.at? path = lastGiven? os path := by
  obtain ⟨ys, hfit, hfold, hat⟩ := foldlM_applyTo .nil hos
  refine ⟨ys, hfit, hfold, fun path hp => ?_⟩
  rw [hat path hp, Named.at?_nil hp, Option.or_none]

/-! ## Overrides as texts -/

theorem ofText_scalar (key text : List Char) (plain : Bool) (value : String) (hkey : '=' ∉ key)
    (hallowed : (Yaml.content (.ofList text)).all Yaml.isAllowed = true)
    (htokens : (Yaml.TokenList.ofText (Yaml.content (.ofList text))).tokens = [.scalar plain value])
    (hend : (Yaml.TokenList.ofText (Yaml.content (.ofList text))).error = none)
    (hd : (if plain then .ofPlain value else .text : Yaml.Tag).datum value = .ok d) :
    ofText (.ofList (key ++ '=' :: text)) = .ok ⟨pathOf key, d⟩ := by
  have htake : (key ++ '=' :: text).takeWhile (· ≠ '=') = key := by
    have hne : ∀ c ∈ key, c ≠ '=' := fun c hc h => hkey (h ▸ hc)
    rw [List.takeWhile_append_of_pos fun c hc => decide_eq_true (hne c hc)]
    simp
  rw [ofText, String.toList_ofList, htake, List.drop_left]
  simp only [Yaml.read_scalar hallowed htokens hend, hd]
  rfl

/-- Reading the texts one after another, each before it is applied, comes to reading all of them first. -/
theorem gatherTexts_of_read {texts : List String} (h : texts.mapM ofText = .ok os) :
    gatherTexts (texts.map .text) = gather os := by
  rw [gatherTexts, gather]
  generalize ([] : Entries) = es
  induction texts generalizing os es with
  | nil =>
      cases h
      rfl
  | cons text texts ih =>
      rw [List.mapM_cons] at h
      obtain ⟨o, ho, h⟩ := bind_eq_ok.mp h
      obtain ⟨rest, hrest, h⟩ := bind_eq_ok.mp h
      cases h
      rw [List.map_cons, List.foldlM_cons, List.foldlM_cons]
      dsimp only
      rw [ho]
      exact bind_congr fun es' => ih hrest es'

end Override

end Settings

end ChipEight
