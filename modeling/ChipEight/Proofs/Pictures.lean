import ChipEight.Picture
import ChipEight.Proofs.Lemmas.Block

/-!
# Pictures by their pixels

A pixel of a picture shows the cell that its row and its column fall on, so that the cells can be seen again in the
corners of their squares (`ofData_shows_cells`).
-/

namespace ChipEight

/-- A colour as a host gives it, channel by channel. -/
def Rgb.toDatum (c : Rgb) : Datum := .list [.int c.red.toNat, .int c.green.toNat, .int c.blue.toNat]

namespace Picture

/-! ## Grids -/

/-- The item in a row and a column. -/
def at? {α : Type} (rows : List (List α)) (i j : Nat) : Option α := rows[i]?.bind (·[j]?)

structure HasShape {α : Type} (rows : List (List α)) (h w : Nat) : Prop where
  height : rows.length = h
  width : ∀ row ∈ rows, row.length = w

section Grids

variable {α β : Type} {rows : List (List α)} {h w i j : Nat}

theorem HasShape.exists_at? (hr : HasShape rows h w) (hi : i < h) (hj : j < w) :
    ∃ a, at? rows i j = some a := by
  obtain ⟨row, hrow⟩ : ∃ row, rows[i]? = some row := ⟨_, List.getElem?_eq_getElem (hr.height ▸ hi)⟩
  have hlength := hr.width row (List.mem_of_getElem? hrow)
  refine ⟨row.get ⟨j, hlength ▸ hj⟩, ?_⟩
  rw [at?, hrow, Option.bind_some]
  exact List.getElem?_eq_getElem ..

theorem HasShape.map (hr : HasShape rows h w) (f : α → β) : HasShape (rows.map (·.map f)) h w where
  height := by rw [List.length_map, hr.height]
  width := by
    simp only [List.forall_mem_map, List.length_map]
    exact hr.width

theorem at?_map (f : α → β) : at? (rows.map (·.map f)) i j = (at? rows i j).map f := by
  simp only [at?, List.getElem?_map]
  cases rows[i]? <;> simp

end Grids

variable {α : Type} {s : Nat}

/-! ## Enlarged pictures -/

theorem length_enlarge (s : Nat) (as : List α) : (enlarge s as).length = as.length * s := by
  rw [enlarge, length_flatMap fun _ => List.length_replicate, Nat.mul_comm]

theorem getElem?_enlarge (hs : 0 < s) (as : List α) (i : Nat) : (enlarge s as)[i]? = as[i / s]? := by
  have hmod := Nat.mod_lt i hs
  conv_lhs => rw [← Nat.div_add_mod i s]
  rw [enlarge, getElem?_flatMap (fun _ => List.length_replicate) _ _ hmod]
  simp [hmod]

theorem at?_magnify (hs : 0 < s) (p : Picture) (i j : Nat) : at? (magnify s p) i j = at? p (i / s) (j / s) := by
  rw [at?, magnify, getElem?_enlarge hs, List.getElem?_map, at?]
  cases p[i / s]? with
  | none => rfl
  | some row => exact getElem?_enlarge hs row j

theorem magnify_hasShape {p : Picture} {h w : Nat} (hp : HasShape p h w) :
    HasShape (magnify s p) (h * s) (w * s) where
  height := by rw [magnify, length_enlarge, List.length_map, hp.height]
  width := by
    intro row hrow
    obtain ⟨big, hbig, hrow⟩ := List.mem_flatMap.mp hrow
    obtain ⟨small, hsmall, rfl⟩ := List.mem_map.mp hbig
    rw [List.eq_of_mem_replicate hrow, length_enlarge, hp.width small hsmall]

/-! ## Pictures of cells -/

variable {cells : Cells} {h w : Nat}

theorem checkCells_of_hasShape (hc : HasShape cells h w) (hh : 1 ≤ h) : checkCells cells = .ok w := by
  have hwidth := hc.width
  rw [← hc.height] at hh
  cases cells with
  | nil => exact absurd hh (by decide)
  | cons row rest =>
      obtain ⟨hrow, hrest⟩ := List.forall_mem_cons.mp hwidth
      have hall : rest.all (·.length = row.length) = true := by
        simpa [hrow] using hrest
      rw [checkCells, width?, if_pos hall, hrow]

theorem ofCells_of_hasShape (hc : HasShape cells h w) (hh : 1 ≤ h) (scale : Int) (on off : Rgb) :
    ofCells cells scale on off = .ok (magnify (max scale 1).toNat (paint on off cells)) := by
  rw [ofCells, checkCells_of_hasShape hc hh]
  rfl

theorem at?_paint (on off : Rgb) (i j : Nat) :
    at? (paint on off cells) i j = (at? cells i j).map fun lit => if lit then on else off := at?_map _

/-! ## Colours as they are given -/

theorem channel_byte (b : Byte) : Rgb.channel (.int b.toNat) = .ok b := by
  have hb := b.isLt
  have hbyte : (0 : Int) ≤ b.toNat ∧ (b.toNat : Int) ≤ 255 := by omega
  simp [Rgb.channel, Datum.toInteger, hbyte]

theorem ofDatum_toDatum (c : Rgb) : Rgb.ofDatum c.toDatum = .ok c := by
  simp only [Rgb.ofDatum, Rgb.toDatum, List.mapM_cons, List.mapM_nil, channel_byte]
  rfl

theorem ofData_toDatum (cells : Cells) (scale : Int) (on off : Rgb) :
    ofData cells (.int scale) on.toDatum off.toDatum = ofCells cells scale on off := by
  have hscale : max ((max scale 1).toNat : Int) 1 = max scale 1 := by omega
  rw [ofData, ofDatum_toDatum, ofDatum_toDatum]
  show (checkCells cells >>= fun _ => ofCells cells (max scale 1).toNat on off) = _
  rw [ofCells, ofCells, hscale]
  cases checkCells cells <;> rfl

/-- Every cell is a square of pixels as wide as the scale, or one pixel where the scale is smaller, and where the
colours differ each cell is known by the first pixel of its square. -/
theorem ofData_shows_cells (cells : Cells) (h w : Nat) (hh : 1 ≤ h) (hc : HasShape cells h w) (scale : Int)
    (on off : Rgb) :
    let s := (max scale 1).toNat
    ∃ p, ofData cells (.int scale) on.toDatum off.toDatum = .ok p ∧ HasShape p (h * s) (w * s) ∧
      (∀ i < h * s, ∀ j < w * s,
        at? p i j = some (if at? cells (i / s) (j / s) = some true then on else off)) ∧
      (on ≠ off → ∀ i < h, ∀ j < w, at? cells i j = some (decide (at? p (i * s) (j * s) = some on))) := by
  intro s
  have hs : 0 < s := by omega
  have hpixel (i j : Nat) : at? (magnify s (paint on off cells)) i j =
      (at? cells (i / s) (j / s)).map fun lit => if lit then on else off := by
    rw [at?_magnify hs, at?_paint]
  refine ⟨magnify s (paint on off cells), ?_, magnify_hasShape (hc.map _), ?_, ?_⟩
  · rw [ofData_toDatum, ofCells_of_hasShape hc hh]
  · intro i hi j hj
    obtain ⟨lit, hlit⟩ := hc.exists_at? ((Nat.div_lt_iff_lt_mul hs).mpr hi) ((Nat.div_lt_iff_lt_mul hs).mpr hj)
    rw [hpixel, hlit]
    cases lit <;> simp
  · intro hcolors i hi j hj
    obtain ⟨lit, hlit⟩ := hc.exists_at? hi hj
    rw [hpixel, Nat.mul_div_cancel _ hs, Nat.mul_div_cancel _ hs, hlit]
    cases lit <;> simp [hcolors.symm]

/-- Three cells in two rows, twice as large, in white on black. -/
theorem ofData_shows_cells_twice :
    let cells : Cells := [[true, false, true], [false, false, true]]
    ∃ p, HasShape cells 2 3 ∧ ofData cells (.int 2) Rgb.white.toDatum Rgb.black.toDatum = .ok p ∧
      HasShape p 4 6 ∧ at? p 2 5 = some Rgb.white ∧ at? p 3 1 = some Rgb.black ∧ Rgb.white ≠ Rgb.black ∧
      at? cells 1 2 = some (decide (at? p 2 4 = some Rgb.white)) := by
  intro cells
  have hc : HasShape cells 2 3 := ⟨rfl, by decide⟩
  have hcolors : Rgb.white ≠ Rgb.black := by decide
  obtain ⟨p, hp, hshape, hpixel, hsample⟩ :=
    ofData_shows_cells cells 2 3 (by decide) hc 2 Rgb.white Rgb.black
  exact ⟨p, hc, hp, hshape, hpixel 2 (by decide) 5 (by decide), hpixel 3 (by decide) 1 (by decide), hcolors,
    hsample hcolors 1 (by decide) 2 (by decide)⟩

end Picture

end ChipEight
