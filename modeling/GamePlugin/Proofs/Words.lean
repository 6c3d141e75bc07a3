import GamePlugin.Tag
import Mathlib.Algebra.Group.Nat.Defs

/-!
# Words and their bytes

A number of a fixed width and its bytes determine each other, so a word at the front of a byte
string can be read back exactly if it was written there, and written back exactly if it was read.
A row of words is read back by position (`Bytes.Shows`).
-/

namespace GamePlugin

namespace Bytes

theorem toNat_ofNat (width n : Nat) : toNat (ofNat width n) = n % 256 ^ width := by
  induction width generalizing n with
  | zero => simp [ofNat, toNat, Nat.mod_one]
  | succ width ih =>
    have hlow : (UInt8.ofNat n).toNat = n % 256 := by simp
    simp only [ofNat, toNat, ih, hlow]
    rw [Nat.pow_succ, Nat.mul_comm (256 ^ width), Nat.mod_mul]

theorem ofNat_toNat (bs : Bytes) : ofNat bs.length (toNat bs) = bs := by
  induction bs with
  | nil => rfl
  | cons b bs ih =>
    have hlow : UInt8.ofNat (b.toNat + 256 * toNat bs) = b := by
      apply UInt8.toNat_inj.mp
      rw [UInt8.toNat_ofNat', Nat.add_mul_mod_self_left]
      exact Nat.mod_eq_of_lt b.toNat_lt
    have hhigh : (b.toNat + 256 * toNat bs) / 256 = toNat bs := by
      have := b.toNat_lt
      omega
    simp only [List.length_cons, toNat, ofNat, hlow, hhigh, ih]

theorem toNat_lt (bs : Bytes) : toNat bs < 256 ^ bs.length := by
  have h := toNat_ofNat bs.length (toNat bs)
  rw [ofNat_toNat] at h
  rw [h]
  exact Nat.mod_lt _ (Nat.pow_pos (by decide))

/-! ## Words at the front -/

theorem word32_ofNat_append (n : Nat) (bs : Bytes) :
    word32 (ofNat 4 n ++ bs) = UInt32.ofNat n := by
  have htake : (ofNat 4 n ++ bs).take 4 = ofNat 4 n := List.take_left' (length_ofNat 4 n)
  rw [word32, htake, toNat_ofNat]
  apply UInt32.toNat_inj.mp
  simp

theorem word16_ofNat_append (n : Nat) (bs : Bytes) :
    word16 (ofNat 2 n ++ bs) = UInt16.ofNat n := by
  have htake : (ofNat 2 n ++ bs).take 2 = ofNat 2 n := List.take_left' (length_ofNat 2 n)
  rw [word16, htake, toNat_ofNat]
  apply UInt16.toNat_inj.mp
  simp

@[simp] theorem word32_ofUInt32_append (w : UInt32) (bs : Bytes) :
    word32 (ofUInt32 w ++ bs) = w := by
  rw [ofUInt32, word32_ofNat_append, UInt32.ofNat_toNat]

@[simp] theorem word16_ofUInt16_append (w : UInt16) (bs : Bytes) :
    word16 (ofUInt16 w ++ bs) = w := by
  rw [ofUInt16, word16_ofNat_append, UInt16.ofNat_toNat]

theorem ofUInt32_word32 {bs : Bytes} (h : 4 ≤ bs.length) : ofUInt32 (word32 bs) = bs.take 4 := by
  have hlen : (bs.take 4).length = 4 := List.length_take_of_le h
  have hlt := toNat_lt (bs.take 4)
  rw [hlen] at hlt
  have hword : (word32 bs).toNat = toNat (bs.take 4) := UInt32.toNat_ofNat_of_lt' hlt
  have h4 := ofNat_toNat (bs.take 4)
  rw [hlen] at h4
  rw [ofUInt32, hword, h4]

theorem ofUInt16_word16 {bs : Bytes} (h : 2 ≤ bs.length) : ofUInt16 (word16 bs) = bs.take 2 := by
  have hlen : (bs.take 2).length = 2 := List.length_take_of_le h
  have hlt := toNat_lt (bs.take 2)
  rw [hlen] at hlt
  have hword : (word16 bs).toNat = toNat (bs.take 2) := UInt16.toNat_ofNat_of_lt' hlt
  have h2 := ofNat_toNat (bs.take 2)
  rw [hlen] at h2
  rw [ofUInt16, hword, h2]

theorem ofUInt32_ofNat (n : Nat) : ofUInt32 (UInt32.ofNat n) = ofNat 4 n := by
  have hlen : 4 ≤ (ofNat 4 n).length := by simp
  have h := ofUInt32_word32 hlen
  rw [List.take_of_length_le (by simp)] at h
  have hword : word32 (ofNat 4 n) = UInt32.ofNat n := by
    simpa using word32_ofNat_append n []
  rw [← hword, h]

/-! ## Rows of words -/

/-- Words in a row. -/
def ofWords (ws : List UInt32) : Bytes := ws.flatMap ofUInt32

@[simp] theorem length_ofWords (ws : List UInt32) : (ofWords ws).length = 4 * ws.length := by
  induction ws with
  | nil => rfl
  | cons w ws ih =>
    simp only [ofWords, List.flatMap_cons, List.length_append, length_ofUInt32,
      List.length_cons] at ih ⊢
    omega

theorem ofWords_append (ws vs : List UInt32) : ofWords (ws ++ vs) = ofWords ws ++ ofWords vs :=
  List.flatMap_append

/-- The bytes start with the given words. -/
structure Shows (bs : Bytes) (ws : List UInt32) : Prop where
  length_le : 4 * ws.length ≤ bs.length
  word_eq : ∀ i w, ws[i]? = some w → word32 (bs.drop (4 * i)) = w

theorem Shows.of_append (ws : List UInt32) (bs : Bytes) : Shows (ofWords ws ++ bs) ws := by
  refine ⟨by simp, fun i w hw => ?_⟩
  induction i generalizing ws with
  | zero =>
    cases ws with
    | nil => cases hw
    | cons v ws =>
      cases hw
      simp [ofWords]
  | succ i ih =>
    cases ws with
    | nil => cases hw
    | cons v ws =>
      have hdrop : (ofWords (v :: ws) ++ bs).drop (4 * (i + 1)) =
          (ofWords ws ++ bs).drop (4 * i) := by
        rw [ofWords, List.flatMap_cons, List.append_assoc, Nat.mul_add, Nat.mul_one,
          Nat.add_comm, ← List.drop_drop, List.drop_left' (length_ofUInt32 v)]
        rfl
      rw [hdrop]
      exact ih ws hw

/-- A window on the bytes shows the words that it reaches past. -/
theorem Shows.take {bs : Bytes} {ws : List UInt32} (H : Shows bs ws) {n : Nat}
    (hn : 4 * ws.length ≤ n) : Shows (bs.take n) ws := by
  refine ⟨?_, fun i w hw => ?_⟩
  · rw [List.length_take]
    exact Nat.le_min.mpr ⟨hn, H.length_le⟩
  · have hi : i < ws.length := (List.getElem?_eq_some_iff.mp hw).1
    have htake : ((bs.take n).drop (4 * i)).take 4 = (bs.drop (4 * i)).take 4 := by
      rw [List.drop_take, List.take_take, Nat.min_eq_left (by omega)]
    rw [word32, htake, ← word32]
    exact H.word_eq i w hw

end Bytes

namespace Tag

@[simp] theorem length_bytes (t : Tag) : t.bytes.length = 4 := Bytes.length_ofUInt32 t.code

@[simp] theorem ofBytes_bytes_append (t : Tag) (bs : Bytes) : ofBytes (t.bytes ++ bs) = t := by
  simp [ofBytes, bytes]

theorem ofBytes_of_shows {bs : Bytes} {t : Tag} {ws : List UInt32}
    (H : Bytes.Shows bs (t.code :: ws)) : ofBytes bs = t :=
  congrArg Tag.mk (H.word_eq 0 t.code rfl)

theorem bytes_ofBytes {bs : Bytes} (h : 4 ≤ bs.length) : (ofBytes bs).bytes = bs.take 4 :=
  Bytes.ofUInt32_word32 h

end Tag

end GamePlugin
