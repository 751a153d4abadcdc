import ChipEight.Proofs.SingleSteps

/-!
# What a bar reports

However the stride divides a scan, the bar of the scan is never ahead of it (`due_le`), lacks one stride when the
last iteration starts (`due_last`) and is full when it is closed (`scan_reports`).
-/

namespace ChipEight.ProgressBar

/-! ## Bars of a scan -/

/-- A bar whose stride is neither nothing nor more than the whole. -/
structure Fits (b : ProgressBar) : Prop where
  stride_pos : 0 < b.stride
  stride_le : b.stride ≤ b.total

theorem stride_ofTotal (n : Nat) (wanted : Option Int) : ((ofTotal n wanted).stride : Int) =
    match wanted with
    | none => max 1 (min (n / 20) 50)
    | some rate => max 1 (min rate n) := by
  cases wanted with
  | none => simp [ofTotal]
  | some rate => simp only [ofTotal]; omega

theorem ofTotal_fits {n : Nat} (hn : 1 ≤ n) (wanted : Option Int) : (ofTotal n wanted).Fits := by
  have htotal : (ofTotal n wanted).total = n := by cases wanted <;> rfl
  have hstride := stride_ofTotal n wanted
  cases wanted with
  | none => simp only at hstride; exact ⟨by omega, by omega⟩
  | some rate => simp only at hstride; exact ⟨by omega, by omega⟩

theorem total_presentation (b : ProgressBar) (description : Datum) (options : List (String × Datum)) :
    (b.presentation description options).filter (·.1 == "total") = [("total", .int b.total)] := by
  have hown : (options.filter fun option => !ownOptions.contains option.1).filter (·.1 == "total") = [] := by
    simp only [List.filter_filter, List.filter_eq_nil_iff]
    rintro ⟨name, _⟩ -
    simp +contextual [ownOptions]
  simp only [presentation, List.filter_append]
  rw [hown]
  cases description <;> rfl

/-! ## Amounts -/

theorem amounts_append (es es' : List ProgressEvent) : amounts (es ++ es') = amounts es + amounts es' := by
  induction es with
  | nil => simp [amounts]
  | cons e es ih => cases e <;> simp [amounts, ih, Nat.add_assoc]

theorem amounts_map_advanced (as : List Nat) : amounts (as.map .advanced) = as.sum := by
  induction as with
  | nil => rfl
  | cons a as ih => simp [amounts, ih]

theorem amounts_cons_opened (es : List ProgressEvent) : amounts (.opened :: es) = amounts es := rfl

theorem amounts_le_of_prefix {es es' : List ProgressEvent} (h : es <+: es') : amounts es ≤ amounts es' := by
  obtain ⟨rest, rfl⟩ := h
  rw [amounts_append]
  exact Nat.le_add_right ..

variable (b : ProgressBar)

theorem before_of_pos {i : Nat} (hi : 0 < i) : b.before i =
    if i = b.total - b.remainder then [.advanced b.remainder]
    else if i % b.stride = 0 then [.advanced b.stride]
    else [] := by
  by_cases hlast : i = b.total - b.remainder
  · simp [before, hlast, Nat.ne_of_gt (hlast ▸ hi)]
  · by_cases hwhole : i % b.stride = 0
    · simp [before, hlast, hwhole, hi, Nat.ne_of_gt hi]
    · simp [before, hlast, hwhole, Nat.ne_of_gt hi]

theorem mul_div_add_remainder : b.stride * (b.total / b.stride) + b.remainder = b.total :=
  Nat.div_add_mod ..

theorem mul_div_add_of_dvd {i : Nat} (h : b.stride ∣ i + 1) : b.stride * (i / b.stride) + b.stride = i + 1 := by
  have hnext : b.stride * ((i + 1) / b.stride) = i + 1 := Nat.mul_div_cancel' h
  rwa [Nat.succ_div_of_dvd h, Nat.mul_add, Nat.mul_one] at hnext

/-- What has been reported when iteration `i` is about to start. -/
def due (i : Nat) : Nat :=
  if i < b.total - b.remainder then b.stride * (i / b.stride) else b.total - b.stride

namespace Fits

variable {b} (hb : b.Fits)
include hb

theorem remainder_lt : b.remainder < b.stride := Nat.mod_lt _ hb.stride_pos

theorem stride_le_mul_div : b.stride ≤ b.stride * (b.total / b.stride) :=
  Nat.le_mul_of_pos_right _ (Nat.div_pos hb.stride_le hb.stride_pos)

theorem before_zero : b.before 0 = [.opened] := by
  have hwhole := b.mul_div_add_remainder
  have hle := hb.stride_le_mul_div
  have hpos := hb.stride_pos
  have hlast : ¬0 = b.total - b.remainder := by omega
  simp [before, hlast]

theorem due_zero : b.due 0 = 0 := by
  have hwhole := b.mul_div_add_remainder
  have hle := hb.stride_le_mul_div
  have hpos := hb.stride_pos
  have hlast : 0 < b.total - b.remainder := by omega
  simp [due, hlast]

/-- No stride ends within the remainder. -/
theorem mod_ne_zero {i : Nat} (hlow : b.total - b.remainder < i) (hi : i < b.total) : i % b.stride ≠ 0 := by
  intro h
  have hwhole := b.mul_div_add_remainder
  have hlt := hb.remainder_lt
  obtain ⟨c, rfl⟩ := Nat.dvd_of_mod_eq_zero h
  have hlow' : b.total / b.stride < c := Nat.lt_of_mul_lt_mul_left (a := b.stride) (by omega)
  have hhigh : c < b.total / b.stride + 1 :=
    Nat.lt_of_mul_lt_mul_left (a := b.stride) (by rw [Nat.mul_add]; omega)
  omega

theorem exists_before_eq {i : Nat} (hi : i + 1 < b.total) :
    ∃ as : List Nat, b.before (i + 1) = as.map .advanced ∧ ∀ a ∈ as, 1 ≤ a := by
  have hpos := hb.stride_pos
  rw [b.before_of_pos i.succ_pos]
  split
  · exact ⟨[b.remainder], rfl, by simp; omega⟩
  · split
    · exact ⟨[b.stride], rfl, by simp; omega⟩
    · exact ⟨[], rfl, by simp⟩

theorem due_succ {i : Nat} (hi : i + 1 < b.total) : b.due (i + 1) = b.due i + amounts (b.before (i + 1)) := by
  have hwhole := b.mul_div_add_remainder
  have hle := hb.stride_le_mul_div
  rw [b.before_of_pos i.succ_pos, due, due]
  rcases Nat.lt_trichotomy (i + 1) (b.total - b.remainder) with hlt | heq | hgt
  · rw [if_pos hlt, if_pos (by omega), if_neg (by omega), Nat.succ_div]
    by_cases hdvd : b.stride ∣ i + 1
    · simp [hdvd, Nat.mod_eq_zero_of_dvd hdvd, amounts, Nat.mul_add]
    · simp [hdvd, (Nat.dvd_iff_mod_eq_zero ..).not.mp hdvd, amounts]
  · -- In place of the last whole stride the remainder is reported, and one stride is left for the end.
    have hstride := b.mul_div_add_of_dvd (i := i) ⟨b.total / b.stride, by omega⟩
    rw [if_neg (by omega), if_pos (by omega), if_pos heq]
    simp only [amounts]
    omega
  · have hmod := hb.mod_ne_zero hgt hi
    rw [if_neg (by omega), if_neg (by omega), if_neg (by omega), if_neg hmod]
    simp [amounts]

theorem due_le (i : Nat) : b.due i ≤ i := by
  have hwhole := b.mul_div_add_remainder
  have hlt := hb.remainder_lt
  rw [due]
  split
  · exact Nat.mul_div_le ..
  · omega

theorem due_last : b.due (b.total - 1) = b.total - b.stride := by
  have hpos := hb.stride_pos
  have hle := hb.stride_le
  rw [due]
  split
  · have hlast : b.total - 1 + 1 = b.total := by omega
    have hrem : b.total % b.stride = 0 := by simp only [remainder] at *; omega
    have hstride := b.mul_div_add_of_dvd (hlast ▸ Nat.dvd_of_mod_eq_zero hrem)
    omega
  · rfl

end Fits

/-! ## Trails -/

section Scan

variable {σ : Type}

def Trail.events (t : Trail σ) : List ProgressEvent := t.reversed.reverse

theorem Trail.events_report (t : Trail σ) (es : List ProgressEvent) : (t.report es).events = t.events ++ es := by
  simp [Trail.events, Trail.report]

variable (step : σ → Nat → σ) (start : σ)

/-- The trail of the first `k` iterations. -/
def trailUpTo (k : Nat) : Trail σ := (List.range k).foldl (b.iterate step) { carry := start }

/-- The trail when iteration `i` is about to start. -/
def trailAt (i : Nat) : Trail σ := (b.trailUpTo step start i).report (b.before i)

theorem events_trailUpTo_succ (k : Nat) : (b.trailUpTo step start (k + 1)).events =
    (b.trailAt step start k).events ++ b.after (b.trailAt step start k).counted k := by
  rw [trailUpTo, List.range_succ, List.foldl_append]
  exact Trail.events_report ..

theorem counted_trailUpTo_succ {k : Nat} (hk : k + 1 ≠ b.total) :
    (b.trailUpTo step start (k + 1)).counted = (b.trailAt step start k).counted := by
  rw [trailUpTo, List.range_succ, List.foldl_append]
  simp only [List.foldl_cons, List.foldl_nil, iterate, after, if_neg hk]
  rfl

theorem events_trailAt_prefix {i k : Nat} (h : i < k) :
    (b.trailAt step start i).events <+: (b.trailUpTo step start k).events := by
  induction k, h using Nat.le_induction with
  | base =>
      rw [events_trailUpTo_succ]
      exact List.prefix_append ..
  | succ k _ ih =>
      refine ih.trans ?_
      rw [events_trailUpTo_succ, trailAt, Trail.events_report, List.append_assoc]
      exact List.prefix_append ..

variable {b}

/-- The bar has been opened and moved on to where it is due before iteration `i`. -/
structure Shows (b : ProgressBar) (i : Nat) (t : Trail σ) : Prop where
  counted : t.counted = b.due i
  events : ∃ as : List Nat, t.events = .opened :: as.map .advanced ∧ (∀ a ∈ as, 1 ≤ a) ∧ as.sum = b.due i

theorem shows_trailAt (hb : b.Fits) {i : Nat} (hi : i < b.total) : b.Shows i (b.trailAt step start i) := by
  induction i with
  | zero =>
      rw [trailAt, hb.before_zero]
      exact ⟨hb.due_zero.symm, [], rfl, by simp, hb.due_zero.symm⟩
  | succ i ih =>
      obtain ⟨hcounted, as, hevents, hpos, hsum⟩ := ih (Nat.lt_of_succ_lt hi)
      obtain ⟨bs, hbefore, hpos'⟩ := hb.exists_before_eq hi
      have hdue := hb.due_succ hi
      constructor
      · rw [trailAt, Trail.report, counted_trailUpTo_succ _ _ _ (Nat.ne_of_lt hi), hcounted, hdue]
      · refine ⟨as ++ bs, ?_, ?_, ?_⟩
        · rw [trailAt, Trail.events_report, events_trailUpTo_succ, after, if_neg (Nat.ne_of_lt hi), hevents, hbefore]
          simp
        · intro a ha
          rcases List.mem_append.mp ha with ha | ha
          · exact hpos a ha
          · exact hpos' a ha
        · rw [hdue, hbefore, amounts_map_advanced, List.sum_append, hsum]

theorem scan_events (hb : b.Fits) : (b.scan step start).2 =
    (b.trailAt step start (b.total - 1)).events ++ [.advanced b.stride, .closed] := by
  have hpos := hb.stride_pos
  have hle := hb.stride_le
  have hlast : b.total - 1 + 1 = b.total := by omega
  have hscan : (b.scan step start).2 = (b.trailUpTo step start (b.total - 1 + 1)).events := by rw [hlast]; rfl
  have hshows := shows_trailAt step start hb (i := b.total - 1) (by omega)
  have hrest : b.total - (b.total - b.stride) = b.stride := by omega
  rw [hscan, events_trailUpTo_succ, after, if_pos hlast, hshows.counted, hb.due_last, hrest]

theorem amounts_le (hb : b.Fits) {i : Nat} (hi : i < b.total) {es : List ProgressEvent} (hes : es <+: b.before i) :
    amounts ((b.trailUpTo step start i).events ++ es) ≤ i := by
  obtain ⟨-, as, hevents, -, hsum⟩ := shows_trailAt step start hb hi
  calc amounts ((b.trailUpTo step start i).events ++ es)
      _ ≤ amounts (b.trailAt step start i).events := by
        rw [trailAt, Trail.events_report]
        exact amounts_le_of_prefix ((List.prefix_append_right_inj _).mpr hes)
      _ = as.sum := by rw [hevents, amounts_cons_opened, amounts_map_advanced]
      _ ≤ i := hsum ▸ hb.due_le i

end Scan

/-- A scan has the result that it has without its bar. The bar is opened once and before all else, and closed once
and behind all else. In between it only moves on: never past what is done, by one stride at the end, and by the
whole altogether. All but this last stride is reported when the last iteration starts. -/
theorem scan_reports {σ : Type} (step : σ → Nat → σ) (start : σ) {n : Nat} (hn : 1 ≤ n) (wanted : Option Int) :
    let b := ofTotal n wanted
    let stride : Int := match wanted with
      | none => max 1 (min (n / 20) 50)
      | some rate => max 1 (min rate n)
    (b.scan step start).1 = (List.range n).foldl step start ∧
    (∃ as : List Nat,
      (b.trailAt step start (n - 1)).events = .opened :: as.map .advanced ∧
      (b.scan step start).2 = .opened :: as.map .advanced ++ [.advanced stride.toNat, .closed] ∧
      (∀ a ∈ as ++ [stride.toNat], 1 ≤ a) ∧ (as ++ [stride.toNat]).sum = n) ∧
    (∀ i < n, (b.trailAt step start i).events <+: (b.scan step start).2 ∧
      ∀ es, es <+: b.before i → amounts ((b.trailUpTo step start i).events ++ es) ≤ i) ∧
    ∀ description options,
      (b.presentation description options).filter (·.1 == "total") = [("total", .int n)] := by
  intro b stride
  have hb : b.Fits := ofTotal_fits hn wanted
  have htotal : n = b.total := by cases wanted <;> rfl
  have hstride : stride.toNat = b.stride := by
    rw [← Int.toNat_natCast b.stride, stride_ofTotal n wanted]
  rw [hstride, htotal]
  refine ⟨b.scan_carry step start, ?_, ?_, b.total_presentation⟩
  · obtain ⟨-, as, hevents, hpos, hsum⟩ := shows_trailAt step start hb (i := b.total - 1) (by omega)
    refine ⟨as, hevents, ?_, ?_, ?_⟩
    · rw [scan_events step start hb, hevents]
    · intro a ha
      rcases List.mem_append.mp ha with ha | ha
      · exact hpos a ha
      · rw [List.mem_singleton.mp ha]
        exact hb.stride_pos
    · rw [List.sum_append, hsum, hb.due_last, List.sum_singleton]
      exact Nat.sub_add_cancel hb.stride_le
  · intro i hi
    exact ⟨b.events_trailAt_prefix step start hi, fun es => amounts_le step start hb hi⟩

/-- Seven iterations, with one left over by two strides of three. -/
theorem scan_reports_seven : 1 ≤ 7 ∧
    ((ofTotal 7 (some 3)).scan (fun total i => total + i) 0).1 = 21 ∧
    ((ofTotal 7 (some 3)).scan (fun total i => total + i) 0).2 =
      [.opened, .advanced 3, .advanced 1, .advanced 3, .closed] := by
  have hn : 1 ≤ 7 := by decide
  obtain ⟨hcarry, ⟨as, hbefore, hevents, -⟩, -⟩ := scan_reports (fun total i => total + i) 0 hn (some 3)
  refine ⟨hn, hcarry, hevents.trans ?_⟩
  rw [← hbefore]
  decide

end ChipEight.ProgressBar
