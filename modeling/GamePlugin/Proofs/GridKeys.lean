import GamePlugin.Chunk
import GamePlugin.Grid
import Mathlib.Algebra.Group.Nat.Defs

/-!
# Squares of the grid

Blocks and sub-blocks are squares of 32 by 32 and of 8 by 8 cells. A position lies in the square
whose place is its coordinates divided by the side and rounded down, on both sides of zero. The
label of a square packs its place into one word, half a word for each coordinate, which is what
shifting the coordinates and joining their low halves gives as well (`GridPosition.pack_toInt`).

Half a word is read back with a sign. So a label tells the place of every square that lies less than
`2 ^ 15` squares from the origin. Sub-blocks are the smaller squares, and for them that is every
position less than `2 ^ 18` cells from it. Farther out, labels come round again.

## Main definitions

* `GridPosition.square` — the place of the square that holds a position.
* `GridPosition.Near` — the position is in the range where labels tell squares.
* `GridPosition.join` — the low halves of two words in one.
-/

namespace GamePlugin

namespace GridPosition

variable {a b c d side : Int} {p q : GridPosition}

/-! ## Packing -/

theorem toNat_pack (x y : Int) :
    ((pack x y).toNat : Int) = x % 0x10000 + 0x10000 * (y % 0x10000) := by
  have hlt : (x % 0x10000).toNat + 0x10000 * (y % 0x10000).toNat < UInt32.size := by
    have hsize : UInt32.size = 0x100000000 := rfl
    omega
  rw [pack, UInt32.toNat_ofNat_of_lt' hlt]
  omega

theorem pack_eq_pack_iff :
    pack a b = pack c d ↔ a % 0x10000 = c % 0x10000 ∧ b % 0x10000 = d % 0x10000 := by
  have hab := toNat_pack a b
  have hcd := toNat_pack c d
  rw [← UInt32.toNat_inj]
  omega

/-- The low halves of two words in one, the first in the low half. -/
def join (x y : Int32) : UInt32 :=
  y.toUInt32.toUInt16.toUInt32 <<< 16 ||| x.toUInt32.toUInt16.toUInt32

theorem toNat_lowHalf (x : Int32) : (x.toUInt32.toUInt16.toNat : Int) = x.toInt % 0x10000 := by
  have hsign : x.toInt = if 2 * x.toUInt32.toNat < 0x100000000 then (x.toUInt32.toNat : Int)
      else x.toUInt32.toNat - 0x100000000 :=
    BitVec.toInt_eq_toNat_cond x.toBitVec
  have hlow : x.toUInt32.toUInt16.toNat = x.toUInt32.toNat % 0x10000 := UInt32.toNat_toUInt16 _
  split at hsign <;> omega

theorem toNat_join (x y : Int32) : (join x y).toNat =
    x.toUInt32.toUInt16.toNat + 0x10000 * y.toUInt32.toUInt16.toNat := by
  have hx := x.toUInt32.toUInt16.toNat_lt
  have hy := y.toUInt32.toUInt16.toNat_lt
  have hor : (join x y).toNat = (y.toUInt32.toUInt16.toNat <<< 16) % 0x100000000 |||
      x.toUInt32.toUInt16.toNat := rfl
  have hshift : y.toUInt32.toUInt16.toNat <<< 16 = y.toUInt32.toUInt16.toNat * 0x10000 :=
    Nat.shiftLeft_eq ..
  -- nothing is shifted out, and the halves have no bit in common
  rw [hor, Nat.mod_eq_of_lt (by omega), ← Nat.shiftLeft_add_eq_or_of_lt hx, hshift]
  omega

/-- Packing is joining, once the coordinates are words. -/
theorem pack_toInt (x y : Int32) : pack x.toInt y.toInt = join x y := by
  have hx := toNat_lowHalf x
  have hy := toNat_lowHalf y
  have hpack := toNat_pack x.toInt y.toInt
  have hjoin := toNat_join x y
  rw [← UInt32.toNat_inj]
  omega

/-- A shift to the right keeps the sign, so it divides and rounds down. -/
theorem toInt_shiftRight {k : Int32} {n : Nat} (hk : (k.toBitVec.smod 32).toNat = n) (x : Int32) :
    (x >>> k).toInt = x.toInt / (2 ^ n : Nat) := by
  have hbits : (x >>> k).toInt = (x.toBitVec.sshiftRight (k.toBitVec.smod 32).toNat).toInt := rfl
  rw [hbits, hk, BitVec.toInt_sshiftRight, Int.shiftRight_eq_div_pow]
  rfl

/-! ## Unpacking -/

/-- A label that packs two numbers gives them back modulo `2 ^ 16`, with a sign. -/
theorem labelGrid_of_label_eq_pack {h : GroupHeader} (hlabel : h.label = pack a b) :
    h.labelGrid.1.toInt = a.bmod 0x10000 ∧ h.labelGrid.2.toInt = b.bmod 0x10000 := by
  have hsigned (w : UInt16) : w.toInt16.toInt = (w.toNat : Int).bmod 0x10000 :=
    BitVec.toInt_eq_toNat_bmod w.toBitVec
  have hpack := toNat_pack a b
  have hlow : ((pack a b).toUInt16.toNat : Int) = a % 0x10000 := by
    rw [UInt32.toNat_toUInt16]
    omega
  have hhigh : ((pack a b >>> 16).toUInt16.toNat : Int) = b % 0x10000 := by
    have hshift : (pack a b >>> 16).toNat = (pack a b).toNat / 0x10000 :=
      Nat.shiftRight_eq_div_pow ..
    rw [UInt32.toNat_toUInt16, hshift]
    omega
  rw [GroupHeader.labelGrid, hlabel]
  simp only [hsigned, hlow, hhigh]
  exact ⟨Int.emod_bmod a _, Int.emod_bmod b _⟩

/-! ## Squares -/

/-- The place of the square of a side that holds the position. -/
def square (side : Int) (p : GridPosition) : Int × Int :=
  (p.x.toInt.fdiv side, p.y.toInt.fdiv side)

theorem blockKey_eq_pack (p : GridPosition) :
    p.blockKey = pack (p.square 32).1 (p.square 32).2 := by
  simp only [blockKey, square, Int.fdiv_eq_ediv_of_nonneg _ (show (0 : Int) ≤ 32 by decide)]

theorem subBlockKey_eq_pack (p : GridPosition) :
    p.subBlockKey = pack (p.square 8).1 (p.square 8).2 := by
  simp only [subBlockKey, square, Int.fdiv_eq_ediv_of_nonneg _ (show (0 : Int) ≤ 8 by decide)]

/-- Both coordinates are at least `-2 ^ 18` and less than `2 ^ 18`. -/
structure Near (p : GridPosition) : Prop where
  le_x : -0x40000 ≤ p.x.toInt
  x_lt : p.x.toInt < 0x40000
  le_y : -0x40000 ≤ p.y.toInt
  y_lt : p.y.toInt < 0x40000

theorem fdiv_bounds {n : Int} (hside : 8 ≤ side) (hlo : -0x40000 ≤ n) (hhi : n < 0x40000) :
    -0x8000 ≤ n.fdiv side ∧ n.fdiv side < 0x8000 := by
  rw [Int.fdiv_eq_ediv_of_nonneg _ (by omega)]
  constructor
  · exact (Int.le_ediv_iff_mul_le (by omega)).mpr (by omega)
  · exact (Int.ediv_lt_iff_lt_mul (by omega)).mpr (by omega)

theorem Near.pack_square_eq_iff (hp : p.Near) (hq : q.Near) (hside : 8 ≤ side) :
    pack (p.square side).1 (p.square side).2 = pack (q.square side).1 (q.square side).2 ↔
      p.square side = q.square side := by
  have hpx := fdiv_bounds hside hp.le_x hp.x_lt
  have hpy := fdiv_bounds hside hp.le_y hp.y_lt
  have hqx := fdiv_bounds hside hq.le_x hq.x_lt
  have hqy := fdiv_bounds hside hq.le_y hq.y_lt
  rw [pack_eq_pack_iff, Prod.ext_iff]
  simp only [square]
  omega

-- one step out of the range the labels have come round
example : subBlockKey ⟨0x40000, 0, 60⟩ = subBlockKey ⟨-0x40000, 0, 60⟩ := by decide

theorem Near.labelGrid_eq_square (hp : p.Near) (hside : 8 ≤ side) {h : GroupHeader}
    (hlabel : h.label = pack (p.square side).1 (p.square side).2) :
    (h.labelGrid.1.toInt, h.labelGrid.2.toInt) = p.square side := by
  have hx := fdiv_bounds hside hp.le_x hp.x_lt
  have hy := fdiv_bounds hside hp.le_y hp.y_lt
  obtain ⟨hfst, hsnd⟩ := labelGrid_of_label_eq_pack hlabel
  rw [hfst, hsnd, Int.bmod_eq_of_le hx.1 hx.2, Int.bmod_eq_of_le hy.1 hy.2]

/-- Squares of one size are made up of squares of a smaller one. -/
theorem square_eq_of_square_eq (h : p.square 8 = q.square 8) : p.square 32 = q.square 32 := by
  simp only [square, Prod.mk.injEq, Int.fdiv_eq_ediv_of_nonneg _ (show (0 : Int) ≤ 8 by decide),
    Int.fdiv_eq_ediv_of_nonneg _ (show (0 : Int) ≤ 32 by decide)] at h ⊢
  omega

/-- **Blocks and sub-blocks part the grid.** For all coordinates a key packs the place of the square
that holds the position, each coordinate modulo `2 ^ 16`; it is also what joining the shifted
coordinates gives. Near the origin, whatever the world, two positions have the same key if and only
if they are in the same square, those in one sub-block are in one block, and a group that has the
key for its label gives the place of the square. -/
theorem keys_part_grid (p q : GridPosition) :
    (p.blockKey.toNat : Int) = (p.square 32).1 % 0x10000 + 0x10000 * ((p.square 32).2 % 0x10000) ∧
    (p.subBlockKey.toNat : Int) = (p.square 8).1 % 0x10000 + 0x10000 * ((p.square 8).2 % 0x10000) ∧
    p.blockKey = join (p.x >>> 5) (p.y >>> 5) ∧ p.subBlockKey = join (p.x >>> 3) (p.y >>> 3) ∧
    (p.Near → q.Near →
      (p.subBlockKey = q.subBlockKey ↔ p.square 8 = q.square 8) ∧
      (p.blockKey = q.blockKey ↔ p.square 32 = q.square 32) ∧
      (p.subBlockKey = q.subBlockKey → p.blockKey = q.blockKey) ∧
      ∀ h : GroupHeader,
        (h.label = p.subBlockKey → (h.labelGrid.1.toInt, h.labelGrid.2.toInt) = p.square 8) ∧
        (h.label = p.blockKey → (h.labelGrid.1.toInt, h.labelGrid.2.toInt) = p.square 32)) := by
  refine ⟨?_, ?_, ?_, ?_, fun hp hq => ?_⟩
  · rw [blockKey_eq_pack, toNat_pack]
  · rw [subBlockKey_eq_pack, toNat_pack]
  · rw [← pack_toInt, toInt_shiftRight rfl, toInt_shiftRight rfl]
    rfl
  · rw [← pack_toInt, toInt_shiftRight rfl, toInt_shiftRight rfl]
    rfl
  · -- both keys are packed alike, from squares of different sides
    have hsub := hp.pack_square_eq_iff hq (show (8 : Int) ≤ 8 by decide)
    have hblock := hp.pack_square_eq_iff hq (show (8 : Int) ≤ 32 by decide)
    rw [← subBlockKey_eq_pack, ← subBlockKey_eq_pack] at hsub
    rw [← blockKey_eq_pack, ← blockKey_eq_pack] at hblock
    refine ⟨hsub, hblock, fun h => hblock.mpr (square_eq_of_square_eq (hsub.mp h)), fun h => ?_⟩
    rw [subBlockKey_eq_pack, blockKey_eq_pack]
    exact ⟨hp.labelGrid_eq_square (by decide), hp.labelGrid_eq_square (by decide)⟩

/-- Two positions in a sub-block at a corner of the range, where both halves of the label are
extreme. -/
theorem keys_part_grid_corner :
    let p : GridPosition := ⟨-0x40000, 0x3FFFF, 60⟩
    let q : GridPosition := ⟨-0x3FFF9, 0x3FFF8, 60⟩
    p.Near ∧ q.Near ∧ p.square 8 = (-0x8000, 0x7FFF) ∧ p.subBlockKey = q.subBlockKey ∧
      p.blockKey = q.blockKey := by
  intro p q
  have hp : p.Near := ⟨by decide, by decide, by decide, by decide⟩
  have hq : q.Near := ⟨by decide, by decide, by decide, by decide⟩
  obtain ⟨-, -, -, -, hkeys⟩ := keys_part_grid p q
  obtain ⟨hsub, -, himp, -⟩ := hkeys hp hq
  have hsame : p.subBlockKey = q.subBlockKey := hsub.mpr (by decide)
  exact ⟨hp, hq, by decide, hsame, himp hsame⟩

end GridPosition

end GamePlugin
