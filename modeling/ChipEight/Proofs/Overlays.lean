import ChipEight.Proofs.Lemmas.Effect
import ChipEight.Proofs.Lemmas.Instr
import ChipEight.Proofs.Lemmas.Screen

/-!
# Sprites drawn over one another

A draw leaves alone what other draws are made from, unless they take their origin from VF. So a list of draws
flips the screen by the sprites that its words stand for at the beginning (`screen_foldl_execute`), in any order
and with pairs left out (`draws_flip`).
-/

namespace ChipEight

namespace Screen

theorem flip_right_comm (s a b : Screen) : (s.flip a).flip b = (s.flip b).flip a := by
  apply ext_pixel
  intro x y
  simp only [pixel_flip, Bool.xor_assoc, Bool.xor_comm (a.pixel x y)]

instance : RightCommutative flip := ⟨flip_right_comm⟩

theorem flip_flip (s a : Screen) : (s.flip a).flip a = s := by
  apply ext_pixel
  intro x y
  simp [pixel_flip]

theorem overlaps_or_overlaps_flip (s a : Screen) :
    s.overlaps a = true ∨ (s.flip a).overlaps a = true ↔ ∃ x y, a.pixel x y = true := by
  simp only [overlaps_eq_true, pixel_flip]
  constructor
  · rintro (⟨x, y, -, h⟩ | ⟨x, y, -, h⟩)
    · exact ⟨x, y, h⟩
    · exact ⟨x, y, h⟩
  · rintro ⟨x, y, h⟩
    cases hs : s.pixel x y with
    | true => exact .inl ⟨x, y, hs, h⟩
    | false => exact .inr ⟨x, y, by simp [hs, h], h⟩

end Screen

namespace State

def spriteAt (s : State) (w : Word) : Screen := s.spriteOf w.x w.y w.n

/-- A word that draws a sprite that lies in memory, with its origin in other registers than VF. -/
structure CanDraw (s : State) (w : Word) : Prop where
  family : w.family.val = 0xD
  x_ne : w.x ≠ flagReg
  y_ne : w.y ≠ flagReg
  fits : w.n.val = 0 ∨ s.index.toNat + w.n.val - 1 ≤ Memory.lastAddress

theorem spriteOf_draw (s : State) (x y : Reg) (n : Fin 16) {x' y' : Reg} (n' : Fin 16) (hx : x' ≠ flagReg)
    (hy : y' ≠ flagReg) : (s.draw x y n).spriteOf x' y' n' = s.spriteOf x' y' n' := by
  have hreg {r : Reg} (hr : r ≠ flagReg) : (s.draw x y n).v[r] = s.v[r] := s.get_setReg_of_ne _ hr
  rw [spriteOf, hreg hx, hreg hy]
  rfl

section Draws

variable {s : State} (hd : s.dialect.drawsAwaitTick = false)
include hd

theorem CanDraw.execute_eq {w : Word} (h : s.CanDraw w) : s.execute w = s.draw w.x w.y w.n := by
  have hword : Instr.ofWord? w = some (.draw w.x w.y w.n) := by simp [Instr.ofWord?, h.family]
  have hwaits : s.drawWaits = false := by simp [drawWaits, hd]
  have htrap : s.trap? (.draw w.x w.y w.n) = none := by
    rcases h.fits with hn | hn
    · simp [trap?, hn]
    · simp [trap?, beyond?, hn]
  rw [execute_of_effect hword htrap, effect, if_neg (Bool.eq_false_iff.mp hwaits)]

section Pair

variable {w : Word} (h : s.CanDraw w)
include h

theorem CanDraw.screen_execute : (s.execute w).screen = s.screen.flip (s.spriteAt w) := by
  rw [h.execute_eq hd]
  rfl

theorem CanDraw.dialect_execute : (s.execute w).dialect = s.dialect := by
  rw [h.execute_eq hd]
  rfl

theorem CanDraw.flag_execute : (s.execute w).v.get flagReg = 1 ↔ s.screen.overlaps (s.spriteAt w) = true := by
  have hflag : (s.draw w.x w.y w.n).v.get flagReg = if s.screen.overlaps (s.spriteAt w) then 1 else 0 :=
    s.get_setReg_self ..
  rw [h.execute_eq hd, hflag]
  cases s.screen.overlaps (s.spriteAt w) <;> decide

theorem CanDraw.spriteAt_execute {w' : Word} (h' : s.CanDraw w') :
    (s.execute w).spriteAt w' = s.spriteAt w' := by
  rw [h.execute_eq hd]
  exact s.spriteOf_draw _ _ _ _ h'.x_ne h'.y_ne

theorem CanDraw.after_execute {w' : Word} (h' : s.CanDraw w') : (s.execute w).CanDraw w' := by
  have hindex : (s.execute w).index = s.index := by
    rw [h.execute_eq hd]
    rfl
  exact ⟨h'.family, h'.x_ne, h'.y_ne, hindex ▸ h'.fits⟩

theorem CanDraw.screen_twice : ((s.execute w).execute w).screen = s.screen := by
  have hd' : (s.execute w).dialect.drawsAwaitTick = false := h.dialect_execute hd ▸ hd
  have hagain : (s.execute w).CanDraw w := h.after_execute hd h
  rw [hagain.screen_execute hd', h.spriteAt_execute hd h, h.screen_execute hd, Screen.flip_flip]

theorem CanDraw.flag_twice :
    (s.execute w).v.get flagReg = 1 ∨ ((s.execute w).execute w).v.get flagReg = 1 ↔
      ∃ x y, (s.spriteAt w).pixel x y = true := by
  have hd' : (s.execute w).dialect.drawsAwaitTick = false := h.dialect_execute hd ▸ hd
  have hagain : (s.execute w).CanDraw w := h.after_execute hd h
  rw [h.flag_execute hd, hagain.flag_execute hd', h.spriteAt_execute hd h, h.screen_execute hd]
  exact Screen.overlaps_or_overlaps_flip ..

end Pair

theorem screen_foldl_execute {ws : List Word} (h : ∀ w ∈ ws, s.CanDraw w) :
    (ws.foldl execute s).screen = (ws.map s.spriteAt).foldl Screen.flip s.screen := by
  induction ws generalizing s with
  | nil => rfl
  | cons w ws ih =>
      obtain ⟨hw, hrest⟩ := List.forall_mem_cons.mp h
      have hsprites : ws.map (s.execute w).spriteAt = ws.map s.spriteAt :=
        List.map_congr_left fun w' hw' => hw.spriteAt_execute hd (hrest w' hw')
      rw [List.foldl_cons, ih (hw.dialect_execute hd ▸ hd) fun w' hw' => hw.after_execute hd (hrest w' hw'),
        hsprites, hw.screen_execute hd, List.map_cons, List.foldl_cons]

theorem screen_foldl_perm {ws ws' : List Word} (h : ∀ w ∈ ws, s.CanDraw w) (hperm : ws'.Perm ws) :
    (ws'.foldl execute s).screen = (ws.foldl execute s).screen := by
  have h' : ∀ w ∈ ws', s.CanDraw w := fun w hw => h w (hperm.mem_iff.mp hw)
  calc (ws'.foldl execute s).screen
      _ = (ws'.map s.spriteAt).foldl Screen.flip s.screen := screen_foldl_execute hd h'
      _ = (ws.map s.spriteAt).foldl Screen.flip s.screen := (hperm.map _).foldl_eq _
      _ = (ws.foldl execute s).screen := (screen_foldl_execute hd h).symm

theorem screen_foldl_pair {w : Word} {l₁ l₂ l₃ : List Word} (h : ∀ w' ∈ l₁ ++ w :: l₂ ++ w :: l₃, s.CanDraw w') :
    ((l₁ ++ w :: l₂ ++ w :: l₃).foldl execute s).screen = ((l₁ ++ l₂ ++ l₃).foldl execute s).screen := by
  -- Both words are brought to the front, where the second one takes back the first.
  have hperm : (w :: w :: (l₁ ++ l₂ ++ l₃)).Perm (l₁ ++ w :: l₂ ++ w :: l₃) := by
    have hsecond : (l₁ ++ w :: l₂ ++ w :: l₃).Perm (w :: (l₁ ++ w :: l₂ ++ l₃)) := List.perm_middle
    have hfirst : (l₁ ++ w :: (l₂ ++ l₃)).Perm (w :: (l₁ ++ (l₂ ++ l₃))) := List.perm_middle
    simp only [List.append_assoc, List.cons_append] at hsecond ⊢
    exact (hsecond.trans (hfirst.cons w)).symm
  have hall : ∀ w' ∈ w :: w :: (l₁ ++ l₂ ++ l₃), s.CanDraw w' := fun w' hw' => h w' (hperm.mem_iff.mp hw')
  have hrest : ∀ w' ∈ l₁ ++ l₂ ++ l₃, s.CanDraw w' := fun w' hw' => hall w' (.tail _ (.tail _ hw'))
  rw [← screen_foldl_perm hd h hperm, screen_foldl_execute hd hall, screen_foldl_execute hd hrest]
  simp only [List.map_cons, List.foldl_cons, Screen.flip_flip]

end Draws

/-- Where draws do not wait, a list of them flips the screen by one sprite after the other, each of them as it is
at the beginning. So their order does not matter, two equal ones can be left out, and one that is drawn twice
meets a lit pixel at the first or the second time unless it has no pixel on the screen. -/
theorem draws_flip (s : State) (hd : s.dialect.drawsAwaitTick = false) (ws : List Word)
    (h : ∀ w ∈ ws, s.CanDraw w) :
    let shown (ws : List Word) : Screen := (ws.foldl execute s).screen
    shown ws = (ws.map s.spriteAt).foldl Screen.flip s.screen ∧
    (∀ ws', ws'.Perm ws → shown ws' = shown ws) ∧
    (∀ w l₁ l₂ l₃, ws = l₁ ++ w :: l₂ ++ w :: l₃ → shown ws = shown (l₁ ++ l₂ ++ l₃)) ∧
    ∀ w ∈ ws, ((s.execute w).execute w).screen = s.screen ∧
      ((s.execute w).v.get flagReg = 1 ∨ ((s.execute w).execute w).v.get flagReg = 1 ↔
        ∃ x y, (s.spriteAt w).pixel x y = true) := by
  intro shown
  refine ⟨screen_foldl_execute hd h, ?_, ?_, ?_⟩
  · intro ws' hperm
    exact screen_foldl_perm hd h hperm
  · rintro w l₁ l₂ l₃ rfl
    exact screen_foldl_pair hd h
  · intro w hw
    exact ⟨(h w hw).screen_twice hd, (h w hw).flag_twice hd⟩

/-- Two sprites that meet, one of them going around the right edge. -/
def atEdge : State where
  rng := ⟨0, 0⟩
  memory := Memory.zeroed.writeBytes 0x300 [0xC3, 0x81]
  v := Vector.ofFn fun x => if x.val = 0 then 60 else 2
  index := 0x300

theorem draws_flip_atEdge :
    (atEdge.dialect.drawsAwaitTick = false ∧ ∀ w ∈ [0xD012, 0xD231, 0xD012], atEdge.CanDraw w) ∧
      ([0xD012, 0xD231, 0xD012].foldl execute atEdge).screen = (atEdge.execute 0xD231).screen ∧
      ([0xD231, 0xD012, 0xD012].foldl execute atEdge).screen = (atEdge.execute 0xD231).screen ∧
      ((atEdge.execute 0xD012).execute 0xD012).v.get flagReg = 1 := by
  have hd : atEdge.dialect.drawsAwaitTick = false := rfl
  have htwo : atEdge.CanDraw 0xD012 := ⟨by decide, by decide, by decide, .inr (by decide)⟩
  have hone : atEdge.CanDraw 0xD231 := ⟨by decide, by decide, by decide, .inr (by decide)⟩
  have h : ∀ w ∈ [0xD012, 0xD231, 0xD012], atEdge.CanDraw w := by
    simp only [List.forall_mem_cons]
    exact ⟨htwo, hone, htwo, by simp⟩
  obtain ⟨-, hperm, hpair, htwice⟩ := draws_flip atEdge hd _ h
  have hleft := hpair 0xD012 [] [0xD231] [] rfl
  have hflag := (htwice 0xD012 (by simp)).2.mpr ⟨⟨60, by decide⟩, ⟨2, by decide⟩, by decide +kernel⟩
  have hfirst : (atEdge.execute 0xD012).v.get flagReg ≠ 1 := by decide +kernel
  exact ⟨⟨hd, h⟩, hleft, (hperm _ (.swap ..)).trans hleft, hflag.resolve_left hfirst⟩

end State

end ChipEight
