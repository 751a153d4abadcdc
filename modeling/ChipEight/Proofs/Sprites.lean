import ChipEight.Proofs.Lemmas.Effect
import ChipEight.Proofs.Lemmas.Instr
import ChipEight.Proofs.Lemmas.Screen

/-!
# Sprites drawn pixel by pixel

`Canvas.drawSprite` goes through the bits of a sprite one by one and flips the pixel of each set bit. A draw
makes up the whole sprite first and flips all of it at once. The two agree (`execute_draw_by_pixels`), since no
two bits of a sprite fall on one pixel (`hits_nodup`).

The sprite can also be made up by a test at every pixel of the screen, which looks up a byte and a bit for pixels
outside the sprite too and drops what it finds there (`draw_by_mask`).
-/

namespace ChipEight

abbrev Pixel := Fin 64 × Fin 32

namespace Screen

def toggle (s : Screen) (p : Pixel) : Screen := s.set p.2 (s[p.2] ^^^ BitVec.twoPow 64 (63 - p.1))

theorem pixel_toggle (s : Screen) (p q : Pixel) :
    (s.toggle p).pixel q.1 q.2 = (s.pixel q.1 q.2 ^^ decide (q = p)) := by
  obtain ⟨x, y⟩ := p
  obtain ⟨x', y'⟩ := q
  have hcolumn : (decide (63 - x.val < 64) && decide (x'.val = 64 - (63 - x.val) - 1)) = decide (x' = x) := by
    rw [Bool.eq_iff_iff]
    simp only [Bool.and_eq_true, decide_eq_true_eq]
    omega
  by_cases hy : y = y'
  · subst hy
    simp [toggle, pixel, BitVec.getMsbD_twoPow, hcolumn]
  · have hrow : y.val ≠ y'.val := fun h => hy (Fin.ext h)
    simp [toggle, pixel, Vector.getElem_set_ne _ _ hrow, Ne.symm hy]

end Screen

/-! ## The loop -/

/-- A screen that is being drawn on, and whether a lit pixel has been met. -/
structure Canvas where
  screen : Screen
  collision : Bool := false

namespace Canvas

def plot (k : Canvas) (p : Pixel) : Canvas where
  screen := k.screen.toggle p
  collision := k.collision || k.screen.pixel p.1 p.2

/-- The pixel at a column and a row. Behind the edges it is the one that is met by going round, or none. -/
def place? (wrap : Bool) (x y : Nat) : Option Pixel :=
  let column := if wrap then x % 64 else x
  let row := if wrap then y % 32 else y
  if h : column < 64 ∧ row < 32 then some (⟨column, h.1⟩, ⟨row, h.2⟩) else none

/-- The pixel that is flipped for the bit in row `r` and column `c` of a sprite, if there is one. -/
def hit? (wrap : Bool) (x y : Nat) (line : Nat → Byte) (r c : Nat) : Option Pixel :=
  if (line r).getLsbD (7 - c) then place? wrap (x + c) (y + r) else none

/-- Draws the bits of a sprite with its origin in column `x` and row `y`, row by row and from the left. -/
def drawSprite (wrap : Bool) (x y n : Nat) (line : Nat → Byte) (k : Canvas) : Canvas :=
  (List.finRange n ×ˢ List.finRange 8).foldl
    (fun k bit =>
      match hit? wrap x y line bit.1 bit.2 with
      | some p => k.plot p
      | none => k) k

/-! ## Pixels that are hit -/

section Plot

variable {ps : List Pixel} (hps : ps.Nodup) (k : Canvas)
include hps

theorem pixel_foldl_plot (q : Pixel) :
    (ps.foldl plot k).screen.pixel q.1 q.2 = (k.screen.pixel q.1 q.2 ^^ decide (q ∈ ps)) := by
  induction ps generalizing k with
  | nil => simp
  | cons p ps ih =>
      obtain ⟨hp, hrest⟩ := List.nodup_cons.mp hps
      rw [List.foldl_cons, ih hrest, plot, Screen.pixel_toggle, Bool.xor_assoc]
      congr 1
      by_cases hq : q = p
      · simp [hq, hp]
      · simp [hq]

theorem collision_foldl_plot : (ps.foldl plot k).collision = true ↔
    k.collision = true ∨ ∃ p ∈ ps, k.screen.pixel p.1 p.2 = true := by
  induction ps generalizing k with
  | nil => simp
  | cons p ps ih =>
      obtain ⟨hp, hrest⟩ := List.nodup_cons.mp hps
      -- The pixels that come later are not the one that has been flipped.
      have hlater : (∃ q ∈ ps, (k.plot p).screen.pixel q.1 q.2 = true) ↔
          ∃ q ∈ ps, k.screen.pixel q.1 q.2 = true := by
        refine exists_congr fun q => and_congr_right fun hq => ?_
        have hne : q ≠ p := fun h => hp (h ▸ hq)
        rw [plot, Screen.pixel_toggle, decide_eq_false hne, Bool.xor_false]
      rw [List.foldl_cons, ih hrest, hlater, plot, Bool.or_eq_true, or_assoc, List.exists_mem_cons_iff]

end Plot

def hits (wrap : Bool) (x y n : Nat) (line : Nat → Byte) : List Pixel :=
  (List.finRange n ×ˢ List.finRange 8).filterMap fun bit => hit? wrap x y line bit.1 bit.2

theorem drawSprite_eq_foldl (wrap : Bool) (x y n : Nat) (line : Nat → Byte) (k : Canvas) :
    drawSprite wrap x y n line k = (hits wrap x y n line).foldl plot k := by
  rw [hits, List.foldl_filterMap, drawSprite]
  congr 1
  funext k bit
  cases hit? wrap x y line bit.1 bit.2 <;> rfl

variable {wrap : Bool} {left : Fin 64} {top : Fin 32} {n : Nat} {line : Nat → Byte}

open Screen (offset?)

theorem place?_eq_some {c r : Nat} {p : Pixel} (hc : c < 64) (hr : r < 32) :
    place? wrap (left + c) (top + r) = some p ↔
      offset? wrap left p.1 = some c ∧ offset? wrap top p.2 = some r := by
  simp only [place?, Option.dite_none_right_eq_some, Option.some.injEq, Prod.ext_iff, Fin.ext_iff,
    exists_prop]
  cases wrap with
  | true =>
      simp only [offset?, if_true, Option.some.injEq, Fin.val_sub]
      omega
  | false =>
      simp only [offset?, Bool.false_eq_true, if_false, Option.ite_none_right_eq_some, Option.some.injEq]
      omega

theorem hit?_eq_some {c r : Nat} {p : Pixel} (hc : c < 8) (hr : r < 32) :
    hit? wrap left top line r c = some p ↔
      offset? wrap left p.1 = some c ∧ offset? wrap top p.2 = some r ∧ (line r).getMsbD c = true := by
  rw [hit?, BitVec.getMsbD_eq_getLsbD, decide_eq_true hc, Bool.true_and, ← and_assoc,
    ← place?_eq_some (by omega) hr]
  by_cases hlit : (line r).getLsbD (7 - c) = true
  · simp [hlit]
  · simp [hlit]

theorem hits_nodup (hn : n ≤ 32) : (hits wrap left top n line).Nodup := by
  refine ((List.nodup_finRange n).product (List.nodup_finRange 8)).filterMap fun bit bit' p h h' => ?_
  obtain ⟨hc, hr, -⟩ := (hit?_eq_some bit.2.isLt (by omega)).mp h
  obtain ⟨hc', hr', -⟩ := (hit?_eq_some bit'.2.isLt (by omega)).mp h'
  have hrow : bit.1.val = bit'.1.val := Option.some.inj (hr.symm.trans hr')
  have hcolumn : bit.2.val = bit'.2.val := Option.some.inj (hc.symm.trans hc')
  exact Prod.ext (Fin.ext hrow) (Fin.ext hcolumn)

theorem mem_hits (hn : n ≤ 32) {p : Pixel} :
    p ∈ hits wrap left top n line ↔ (Screen.sprite wrap left top n line).pixel p.1 p.2 = true := by
  rw [hits, List.mem_filterMap, Screen.pixel_sprite]
  constructor
  · rintro ⟨bit, -, hbit⟩
    obtain ⟨hc, hr, hlit⟩ := (hit?_eq_some bit.2.isLt (by omega)).mp hbit
    exact ⟨bit.2, bit.1, hc, hr, bit.1.isLt, hlit⟩
  · rintro ⟨c, r, hc, hr, hrn, hlit⟩
    have hc8 : c < 8 := BitVec.lt_of_getMsbD hlit
    exact ⟨(⟨r, hrn⟩, ⟨c, hc8⟩), by simp, (hit?_eq_some hc8 (by omega)).mpr ⟨hc, hr, hlit⟩⟩

/-- Going through the bits of a sprite flips the screen by the sprite and finds out whether they overlap. -/
theorem drawSprite_eq (hn : n ≤ 32) (s : Screen) :
    drawSprite wrap left top n line { screen := s } =
      { screen := s.flip (.sprite wrap left top n line)
        collision := s.overlaps (.sprite wrap left top n line) } := by
  have hnodup : (hits wrap left top n line).Nodup := hits_nodup hn
  rw [drawSprite_eq_foldl, Canvas.mk.injEq]
  constructor
  · refine Screen.ext_pixel fun x y => ?_
    rw [pixel_foldl_plot hnodup _ (x, y), Screen.pixel_flip]
    simp only [mem_hits hn, Bool.decide_eq_true]
  · rw [Bool.eq_iff_iff, collision_foldl_plot hnodup, Screen.overlaps_eq_true]
    simp [mem_hits hn, and_comm]

end Canvas

namespace Screen

/-! ## Distances and bits -/

/-- How far a place on an axis lies behind an origin. On a line that is negative before the origin. -/
def distance (wrap : Bool) (length origin p : Nat) : Int :=
  if wrap then ((p : Int) - origin) % length else p - origin

theorem distance_eq {m : Nat} {wrap : Bool} {origin p : Fin m} {d : Nat} :
    distance wrap m origin p = d ↔ offset? wrap origin p = some d := by
  cases wrap with
  | true =>
      simp only [distance, offset?, if_true, Option.some.injEq]
      by_cases h : origin ≤ p
      · rw [Int.emod_eq_of_lt (by omega) (by omega), Fin.sub_val_of_le h]
        omega
      · -- Once round the ring.
        rw [← Int.add_emod_right, Int.emod_eq_of_lt (by omega) (by omega), Fin.coe_sub_iff_lt.mpr (not_le.mp h)]
        omega
  | false =>
      simp only [distance, offset?, Bool.false_eq_true, if_false, Option.ite_none_right_eq_some,
        Option.some.injEq]
      omega

/-- The next number that is not outside a range. -/
def clip (z low high : Int) : Int := min (max z low) high

theorem clip_eq_self {z low high : Int} (hlow : low ≤ z) (hhigh : z ≤ high) : clip z low high = z := by
  rw [clip, max_eq_left hlow, min_eq_left hhigh]

theorem getMsbD_eq_true_iff {b : Byte} {c : Nat} (hc : c < 8) :
    b.getMsbD c = true ↔ b.toNat >>> (7 - c) &&& 1 = 1 := by
  rw [BitVec.getMsbD_eq_getLsbD, decide_eq_true hc, Bool.true_and, BitVec.getLsbD,
    Nat.testBit_eq_decide_div_mod_eq, decide_eq_true_eq, Nat.and_one_is_mod, Nat.shiftRight_eq_div_pow]

end Screen

namespace State

/-- The origin of a sprite is taken modulo the size of the screen. -/
theorem spriteOf_eq (s : State) (x y : Reg) (n : Fin 16) : ∃ (left : Fin 64) (top : Fin 32),
    left.val = (s.v.get x).toNat % 64 ∧ top.val = (s.v.get y).toNat % 32 ∧
      s.spriteOf x y n = .sprite s.dialect.spritesWrap left top n fun r => s.memory.read (s.index.toNat + r) :=
  ⟨_, _, rfl, rfl, rfl⟩

/-- A draw that neither faults nor waits leaves the screen and the flag as the loop over the bits of its sprite
does, and uses up the tick. The origin is taken from the registers as they were before. -/
theorem execute_draw_by_pixels (s : State) (x y : Reg) (n : Fin 16)
    (hfits : n.val = 0 ∨ s.index.toNat + n.val - 1 ≤ Memory.lastAddress)
    (hready : s.dialect.drawsAwaitTick = false ∨ s.ticked = true) :
    let drawn := Canvas.drawSprite s.dialect.spritesWrap ((s.v.get x).toNat % 64) ((s.v.get y).toNat % 32) n
      (fun r => s.memory.read (s.index.toNat + r)) { screen := s.screen }
    s.execute (Instr.draw x y n).toWord =
      { s.setFlag drawn.collision with screen := drawn.screen, ticked := false } := by
  have hwaits : s.drawWaits = false := by
    rcases hready with h | h <;> simp [drawWaits, h]
  have htrap : s.trap? (.draw x y n) = none := by
    rw [trap?, hwaits, beyond?]
    split
    · rfl
    · rename_i hrows
      exact if_pos (hfits.resolve_left fun hn => hrows (.inr hn))
  obtain ⟨left, top, hleft, htop, hsprite⟩ := s.spriteOf_eq x y n
  intro drawn
  have hdrawn : drawn =
      { screen := s.screen.flip (s.spriteOf x y n), collision := s.screen.overlaps (s.spriteOf x y n) } := by
    rw [hsprite, ← Canvas.drawSprite_eq (by omega), hleft, htop]
  calc s.execute (Instr.draw x y n).toWord
      _ = s.effect (.draw x y n) := execute_of_effect (Instr.ofWord?_toWord _) htrap
      _ = s.draw x y n := if_neg (Bool.eq_false_iff.mp hwaits)
      _ = { s.setFlag drawn.collision with screen := drawn.screen, ticked := false } := by
        rw [hdrawn]
        rfl

/-- About to draw over three corners of the screen, one of them lit, with VF for the column. -/
def atCorner : State where
  rng := ⟨0, 0⟩
  memory := Memory.zeroed.writeBytes 0x200 [0xC0, 0x40]
  v := Vector.ofFn fun x => if x = flagReg then 127 else 31
  index := 0x200
  screen := Vector.ofFn fun y => if y.val = 31 then BitVec.twoPow 64 63 else 0

theorem execute_draw_by_pixels_atCorner :
    (atCorner.dialect.drawsAwaitTick = false ∧ atCorner.index.toNat + 2 - 1 ≤ Memory.lastAddress) ∧
      let t := atCorner.execute (Instr.draw flagReg 1 2).toWord
      t.screen = (Screen.blank.toggle (63, 31)).toggle (0, 0) ∧ t.v.get flagReg = 1 ∧
        t.memory = atCorner.memory := by
  have hready : atCorner.dialect.drawsAwaitTick = false := rfl
  have hfits : atCorner.index.toNat + 2 - 1 ≤ Memory.lastAddress := by decide
  refine ⟨⟨hready, hfits⟩, ?_⟩
  rw [execute_draw_by_pixels atCorner flagReg 1 2 (.inr hfits) (.inl hready)]
  exact ⟨by decide +kernel, by decide +kernel, rfl⟩

/-! ## Masks -/

open Screen (distance clip)

/-- Whether a sprite has a pixel. The byte and the bit that are looked up for a pixel outside the sprite are some
that there are. -/
def maskAt (s : State) (x y : Reg) (n : Fin 16) (p : Pixel) : Bool :=
  let column := distance s.dialect.spritesWrap 64 ((s.v.get x).toNat % 64) p.1
  let row := distance s.dialect.spritesWrap 32 ((s.v.get y).toNat % 32) p.2
  let address := clip (s.index.toNat + row) 0 Memory.lastAddress
  let shift := 7 - clip column 0 7
  (s.memory.read address.toNat).toNat >>> shift.toNat &&& 1 == 1 &&
    decide (0 ≤ column ∧ column < 8 ∧ 0 ≤ row ∧ row < n.val)

section Mask

variable (s : State) (x y : Reg) (n : Fin 16)
variable (hfits : n.val = 0 ∨ s.index.toNat + n.val - 1 ≤ Memory.lastAddress)
include hfits

theorem pixel_spriteOf (p : Pixel) : (s.spriteOf x y n).pixel p.1 p.2 = s.maskAt x y n p := by
  obtain ⟨left, top, hleft, htop, hsprite⟩ := s.spriteOf_eq x y n
  rw [Bool.eq_iff_iff, hsprite, Screen.pixel_sprite, maskAt, ← hleft, ← htop]
  simp only [← Screen.distance_eq, Bool.and_eq_true, beq_iff_eq, decide_eq_true_eq]
  generalize distance _ _ _ p.1.val = column
  generalize distance _ _ _ p.2.val = row
  have hlookup {c r : Nat} (hc : c < 8) (hr : r < n.val) :
      (s.memory.read (clip (s.index.toNat + (r : Int)) 0 Memory.lastAddress).toNat).toNat >>>
          (7 - clip c 0 7).toNat &&& 1 = 1 ↔
        (s.memory.read (s.index.toNat + r)).getMsbD c = true := by
    rw [Screen.getMsbD_eq_true_iff hc, Screen.clip_eq_self (by omega) (by omega),
      Screen.clip_eq_self (by omega) (by omega)]
    have haddress : ((s.index.toNat : Int) + r).toNat = s.index.toNat + r := by omega
    have hshift : (7 - (c : Int)).toNat = 7 - c := by omega
    rw [haddress, hshift]
  constructor
  · rintro ⟨c, r, rfl, rfl, hr, hlit⟩
    have hc : c < 8 := BitVec.lt_of_getMsbD hlit
    exact ⟨(hlookup hc hr).mpr hlit, by omega, by omega, by omega, by omega⟩
  · rintro ⟨hlit, hcolumn, hc, hrow, hr⟩
    obtain ⟨c, rfl⟩ := Int.eq_ofNat_of_zero_le hcolumn
    obtain ⟨r, rfl⟩ := Int.eq_ofNat_of_zero_le hrow
    exact ⟨c, r, rfl, rfl, by omega, (hlookup (by omega) (by omega)).mp hlit⟩

/-- A draw flips the pixels of the mask, and the flag tells if one of them was lit. -/
theorem draw_by_mask :
    (∀ p : Pixel, (s.draw x y n).screen.pixel p.1 p.2 = (s.screen.pixel p.1 p.2 ^^ s.maskAt x y n p)) ∧
      ((s.draw x y n).v.get flagReg = 1 ↔
        ∃ p : Pixel, s.screen.pixel p.1 p.2 = true ∧ s.maskAt x y n p = true) := by
  constructor
  · intro p
    rw [draw, Screen.pixel_flip, s.pixel_spriteOf x y n hfits]
  · have hflag : (s.draw x y n).v.get flagReg = if s.screen.overlaps (s.spriteOf x y n) then 1 else 0 := by
      simp [draw, Vector.get_eq_getElem]
    have hmask : s.screen.overlaps (s.spriteOf x y n) = true ↔
        ∃ p : Pixel, s.screen.pixel p.1 p.2 = true ∧ s.maskAt x y n p = true := by
      simp only [Screen.overlaps_eq_true, ← s.pixel_spriteOf x y n hfits, Prod.exists]
    rw [hflag, ← hmask]
    cases s.screen.overlaps (s.spriteOf x y n) <;> decide

end Mask

end State

end ChipEight
