import ChipEight.Proofs.Lemmas.Flags
import ChipEight.Proofs.Lemmas.Overrides

/-!
# Which settings win

Data that fit are merged into settings name by name and flag by flag, and what is merged last wins
(`Settings.Shows.merge`). So overrides win over a source and a source over the defaults, and a flag that is set
anywhere wins over a preset that is named anywhere (`Settings.load_takes_last`).
-/

namespace ChipEight.Settings

variable {xs ys fs : Named} {name : String} {d : Datum} {s : Settings}

/-! ## Flags of a draft -/

theorem changedFlag_bool (old : Held Datum) (b : Bool) : changedFlag old (.bool b) = .ok (.value (.bool b)) := by
  unfold changedFlag
  split <;> simp_all [Held.assign, isPlaceholder]
  rfl

theorem Flags.merge_bool (old : Flags) (name : String) (b : Bool) :
    old.merge [(.text name, .bool b)] = .ok (old.set name (.value (.bool b))) := by
  rw [merge, List.foldlM_cons]
  dsimp only
  split
  · rw [changedFlag_bool]
    rfl
  · rfl

theorem Flags.merge_cons (old : Flags) (e : Datum × Datum) (es : Entries) :
    old.merge (e :: es) = old.merge [e] >>= (merge · es) := by
  simp [merge]

theorem Flags.merge_held (h : ∀ e ∈ ys, ∃ b, e.2 = .bool b) :
    merge xs.held (Named.entries ys) = .ok (xs.setAll ys).held := by
  induction ys generalizing xs with
  | nil => rfl
  | cons e ys ih =>
      obtain ⟨⟨b, hb⟩, hrest⟩ := List.forall_mem_cons.mp h
      obtain ⟨n, e⟩ := e
      subst hb
      rw [Named.entries_cons, merge_cons, merge_bool, Named.set_held]
      exact ih hrest

/-! ## Settings as drafts -/

/-- Nothing is left to be resolved. -/
def Draft.ofSettings (s : Settings) : Draft where
  entry := .value s.entry
  seed := .value s.seed
  traceLength := .value (s.traceLength.getD 0)
  preset := .value s.preset
  flags := .value (Named.held s.flags)

theorem Draft.mapM_resolveFlag (draft : Draft) :
    fs.held.mapM (fun e => draft.resolveFlag e.1 e.2) = .ok fs := by
  induction fs with
  | nil => rfl
  | cons e fs ih =>
      obtain ⟨n, d⟩ := e
      rw [Named.held_cons, List.mapM_cons, ih]
      rfl

theorem Draft.resolve_ofSettings (h : s.traceLength.isSome) : (ofSettings s).resolve = .ok s := by
  obtain ⟨z, hz⟩ := Option.isSome_iff_exists.mp h
  simp only [resolve, ofSettings, Held.resolve, Except.mapError, bind, Except.bind, mapM_resolveFlag, hz]
  rw [Option.getD_some, ← hz]
  rfl

theorem Held.assign_name {old : Held String} {text : String} (hs : text ≠ placeholder)
    (hr : hasReference text.toList = false) : old.assign nameOf? (.text text) = .ok (.value text) := by
  have hplain : isPlaceholder (.text text) = false := decide_eq_false hs
  have hnone : referenceIn text = .ok none := by simp [referenceIn, hr]
  rw [assign, hplain, if_neg Bool.false_ne_true, ofDatum]
  dsimp only
  rw [hnone]
  rfl

/-! ## What settings show -/

/-- Settings that hold what is given, and their defaults for the rest. -/
structure Shows (s : Settings) (given : List String → Option Datum) : Prop where
  entry : .int s.entry = (given ["entry_point"]).getD (.int 0x200)
  seed : .int s.seed = (given ["seed"]).getD (.int 0)
  traceLength : s.traceLength.map .int = some ((given ["trace_length"]).getD (.int 100))
  preset : .text s.preset = (given ["preset"]).getD (.text "modern")
  truths : Named.Truths s.flags
  flags : ∀ name, s.flags.lookup name = given ["quirks", name]

namespace Shows

variable {given given' : List String → Option Datum}

theorem defaults : Shows {} fun _ => none where
  entry := rfl
  seed := rfl
  traceLength := rfl
  preset := rfl
  truths := .nil
  flags _ := rfl

theorem congr (h : s.Shows given) (heq : ∀ path, Place path → given' path = given path) : s.Shows given' where
  entry := heq ["entry_point"] (.setting (by decide)) ▸ h.entry
  seed := heq ["seed"] (.setting (by decide)) ▸ h.seed
  traceLength := heq ["trace_length"] (.setting (by decide)) ▸ h.traceLength
  preset := heq ["preset"] (.setting (by decide)) ▸ h.preset
  truths := h.truths
  flags name := heq _ (.flag name) ▸ h.flags name

theorem traceLength_isSome (h : s.Shows given) : s.traceLength.isSome := by
  rw [← Option.isSome_map (f := Datum.int), h.traceLength]
  rfl

theorem assign (h : s.Shows given) (hd : Fits [name] d) :
    ∃ t : Settings, (Draft.ofSettings s).assign name d = .ok (.ofSettings t) ∧
      t.Shows fun path => (Named.at? [(name, d)] path).or (given path) := by
  generalize hpath : [name] = path at hd
  cases hd with
  | entry z =>
      cases hpath
      refine ⟨{ s with entry := z }, rfl, ?_⟩
      constructor <;> simp [Named.at?_singleton, Datum.at?, h.seed, h.traceLength, h.preset, h.truths, h.flags]
  | seed z =>
      cases hpath
      refine ⟨{ s with seed := z }, rfl, ?_⟩
      constructor <;> simp [Named.at?_singleton, Datum.at?, h.entry, h.traceLength, h.preset, h.truths, h.flags]
  | traceLength z =>
      cases hpath
      refine ⟨{ s with traceLength := some z }, rfl, ?_⟩
      constructor <;> simp [Named.at?_singleton, Datum.at?, h.entry, h.seed, h.preset, h.truths, h.flags]
  | @preset text hs hr =>
      cases hpath
      refine ⟨{ s with preset := text }, ?_, ?_⟩
      · simp only [Draft.assign, Draft.ofSettings, Held.assign_name hs hr]
        rfl
      · constructor <;> simp [Named.at?_singleton, Datum.at?, h.entry, h.seed, h.traceLength, h.truths, h.flags]
  | flag other b => cases hpath
  | @flags fs hfs =>
      cases hpath
      refine ⟨{ s with flags := Named.setAll s.flags fs }, ?_, ?_⟩
      · simp only [Draft.assign, Draft.ofSettings, assignFlags, Flags.merge_held hfs.truth]
        rfl
      · have hat (name : String) : Named.at? [("quirks", .map fs.entries)] ["quirks", name] = fs.lookup name := by
          rw [Named.at?_singleton, if_pos rfl]
          exact Named.at?_key
        constructor
        case truths => exact h.truths.setAll hfs
        case flags =>
          intro name
          rw [Named.lookup_setAll hfs.nodup, hat, h.flags]
        all_goals simp [Named.at?_singleton, h.entry, h.seed, h.traceLength, h.preset]

theorem merge (h : s.Shows given) (hx : xs.Fit) :
    ∃ t : Settings, (Draft.ofSettings s).merge xs.entries = .ok (.ofSettings t) ∧
      t.Shows fun path => (xs.at? path).or (given path) := by
  induction xs generalizing s given with
  | nil =>
      refine ⟨s, rfl, h.congr fun path hp => ?_⟩
      rw [Named.at?_nil hp, Option.none_or]
  | cons e xs ih =>
      obtain ⟨n, d⟩ := e
      obtain ⟨hd, hfits⟩ := List.forall_mem_cons.mp hx.fits
      obtain ⟨hnot, hnodup⟩ := List.nodup_cons.mp hx.nodup
      obtain ⟨t, hassign, ht⟩ := h.assign hd
      obtain ⟨u, hmerge, hu⟩ := ih ht ⟨hnodup, hfits⟩
      refine ⟨u, ?_, hu.congr fun path hp => ?_⟩
      · rw [Draft.merge, Named.entries_cons, List.foldlM_cons]
        dsimp only
        rw [hassign]
        exact hmerge
      · obtain ⟨key, rest, rfl⟩ := hp.eq_cons
        rw [Named.at?_cons_of_not_mem hnot, Option.or_assoc]

end Shows

/-! ## A source and overrides -/

theorem Source.read_entries (h : xs.Fit) : (Source.entries xs.entries).read = .ok xs.entries := by
  rw [read, h.checked]
  rfl

/-- Each setting and each flag is as the last override that speaks of it says, else as the source says, else as it
is by default. The settings make a dialect unless a flag or the preset has an unknown name, and a flag that is
given wins over the preset, wherever the two are given. -/
theorem load_takes_last {ms : Named} (hms : ms.Fit) {texts : List String} {os : List Override}
    (hread : texts.mapM Override.ofText = .ok os) (hos : ∀ o ∈ os, Fits o.path o.value) :
    let given (path : List String) : Option Datum := (Override.lastGiven? os path).or (ms.at? path)
    ∃ s, load (.entries ms.entries) (texts.map .text) = .ok s ∧ s.Shows given ∧
      ((∃ e, s.dialect = .error e) ↔
        (∃ name, (given ["quirks", name]).isSome ∧ name ∉ Dialect.Flag.all.map (·.name)) ∨
          s.preset ∉ Dialect.presets.map (·.1)) ∧
      ∀ d, s.dialect = .ok d → ∃ base, Dialect.preset? s.preset = some base ∧
        ∀ f, .bool (d.get f) = (given ["quirks", f.name]).getD (.bool (base.get f)) := by
  intro given
  obtain ⟨ys, hys, hgather, hat⟩ := Override.gather_of_fits hos
  obtain ⟨s, hsource, hs⟩ := Shows.defaults.merge hms
  obtain ⟨t, hmerge, ht⟩ := hs.merge hys
  have hshows : t.Shows given := ht.congr fun path hp => by
    rw [hat path hp, Option.or_none]
  have hload : load (.entries ms.entries) (texts.map .text) = .ok t := calc
    _ = (Draft.ofSettings {}).merge ms.entries >>= fun draft => draft.merge ys.entries >>= Draft.resolve := by
      rw [load, Draft.ofSource, Source.read_entries hms, Override.gatherTexts_of_read hread, hgather]
      rfl
    _ = (Draft.ofSettings s).merge ys.entries >>= Draft.resolve := by
      rw [hsource]
      rfl
    _ = (Draft.ofSettings t).resolve := by
      rw [hmerge]
      rfl
    _ = .ok t := Draft.resolve_ofSettings hshows.traceLength_isSome
  have hnames (name : String) : name ∈ Named.names t.flags ↔ (given ["quirks", name]).isSome := by
    rw [← hshows.flags, Named.lookup_isSome]
  refine ⟨t, hload, hshows, ?_⟩
  simpa only [NamesUnknown, hnames, hshows.flags] using dialect_cases hshows.truths

/-- A source in which sprites wrap. -/
def wrapping : Named := [("seed", .int 3), ("quirks", .map (Named.entries [("wrap_sprites", .bool true)]))]

/-- Presets in which they do not, and one more flag. -/
def clippingTexts : List String := ["preset='cosmac'", "preset='schip'", "quirks.display_wait=true"]

def clipping : List Override :=
  [⟨["preset"], .text "cosmac"⟩, ⟨["preset"], .text "schip"⟩, ⟨["quirks", "display_wait"], .bool true⟩]

theorem clippingTexts_read : clippingTexts.mapM Override.ofText = .ok clipping := by
  have hcosmac : Override.ofText "preset='cosmac'" = .ok ⟨["preset"], .text "cosmac"⟩ :=
    Override.ofText_scalar "preset".toList "'cosmac'".toList false "cosmac"
      (by decide) (by decide) (by decide +kernel) (by decide +kernel) rfl
  have hschip : Override.ofText "preset='schip'" = .ok ⟨["preset"], .text "schip"⟩ :=
    Override.ofText_scalar "preset".toList "'schip'".toList false "schip"
      (by decide) (by decide) (by decide +kernel) (by decide +kernel) rfl
  have htrue : (Yaml.Tag.ofPlain "true").datum "true" = .ok (.bool true) := by
    have htag : Yaml.Tag.ofPlain "true" = .bool := by decide +kernel
    have htruth : Yaml.truthValue? "true" = some true := by decide +kernel
    rw [htag, Yaml.Tag.datum, htruth]
  have hwait : Override.ofText "quirks.display_wait=true" = .ok ⟨["quirks", "display_wait"], .bool true⟩ :=
    Override.ofText_scalar "quirks.display_wait".toList "true".toList true "true"
      (by decide) (by decide) (by decide +kernel) (by decide +kernel) htrue
  simp only [clippingTexts, List.mapM_cons, List.mapM_nil, hcosmac, hschip, hwait]
  rfl

theorem load_takes_last_clipping :
    (wrapping.Fit ∧ clippingTexts.mapM Override.ofText = .ok clipping ∧ ∀ o ∈ clipping, Fits o.path o.value) ∧
      ∃ s, load (.entries wrapping.entries) (clippingTexts.map .text) = .ok s ∧
        s.entry = 0x200 ∧ s.seed = 3 ∧ s.preset = "schip" ∧
        ∃ d, s.dialect = .ok d ∧ d.spritesWrap = true ∧ d.drawsAwaitTick = true ∧ d.jumpsAddVx = true := by
  have hms : wrapping.Fit := by
    refine ⟨by decide, ?_⟩
    simp only [wrapping, List.forall_mem_cons]
    exact ⟨.seed 3, .flags ⟨by decide, by simp⟩, by simp⟩
  have hos : ∀ o ∈ clipping, Fits o.path o.value := by
    simp only [clipping, List.forall_mem_cons]
    exact ⟨.preset (by decide) (by decide), .preset (by decide) (by decide), .flag _ _, by simp⟩
  obtain ⟨s, hload, hshows, herror, hdialect⟩ := load_takes_last hms clippingTexts_read hos
  have hpreset : s.preset = "schip" := Datum.text.inj hshows.preset
  refine ⟨⟨hms, clippingTexts_read, hos⟩, s, hload, Datum.int.inj hshows.entry, Datum.int.inj hshows.seed, hpreset, ?_⟩
  have hsource (name : String) : wrapping.at? ["quirks", name] =
      if name = "wrap_sprites" then some (.bool true) else none := by
    have hat : wrapping.at? ["quirks", name] = Named.at? [("wrap_sprites", .bool true)] [name] := rfl
    rw [hat, Named.at?_singleton]
    rfl
  have hlast (name : String) : Override.lastGiven? clipping ["quirks", name] =
      if name = "display_wait" then some (.bool true) else none := by
    rw [clipping, Override.lastGiven?_cons, Override.lastGiven?_cons, Override.lastGiven?_cons, Override.given?_flag,
      Override.given?_of_ne rfl (by decide), Override.given?_of_ne rfl (by decide), Option.or_none, Option.or_none]
    rfl
  cases hd : s.dialect with
  | error e =>
      obtain ⟨name, hgiven, hunknown⟩ | hunknown := herror.mp ⟨e, hd⟩
      · simp only [hlast, hsource] at hgiven
        by_cases hwait : name = "display_wait"
        · exact absurd (by decide) (hwait ▸ hunknown)
        · rw [if_neg hwait, Option.none_or, Option.isSome_ite] at hgiven
          exact absurd (by decide) (hgiven ▸ hunknown)
      · rw [hpreset] at hunknown
        exact absurd (by decide) hunknown
  | ok d =>
      obtain ⟨base, hbase, hget⟩ := hdialect d hd
      rw [hpreset] at hbase
      cases hbase
      exact ⟨d, rfl, Datum.bool.inj (hget .spritesWrap), Datum.bool.inj (hget .drawsAwaitTick),
        Datum.bool.inj (hget .jumpsAddVx)⟩

end ChipEight.Settings
