/-!
# Numbers with two decimal places

A single-precision number is exactly `± m · 2^q` for whole `m` and `q`. Its text with two decimal
places is that exact value rounded to a whole number of hundredths, a tie going to the even
neighbour.
-/

namespace GamePlugin.Number

/-- A quotient rounded to the nearest whole number; a tie goes to the even one. -/
def roundDiv (num den : Nat) : Nat :=
  let q := num / den
  let r := num % den
  if 2 * r < den then q
  else if den < 2 * r then q + 1
  else q + q % 2

/-- The whole number of hundredths nearest to `m · 2^(e - 150)`. -/
def hundredths (m e : Nat) : Nat :=
  if 150 ≤ e then (100 * m) <<< (e - 150) else roundDiv (100 * m) (1 <<< (150 - e))

/-- A count of hundredths with a decimal point. -/
def pointed (n : Nat) : String :=
  let cents := n % 100
  toString (n / 100) ++ "." ++ (if cents < 10 then "0" else "") ++ toString cents

/-- A number with two decimal places; infinities and the undefined value have names. -/
def twoPlaces (x : Float32) : String :=
  let bits := x.toBits.toNat
  let sign := if bits < 0x80000000 then "" else "-"
  let exponent := bits / 0x800000 % 256
  let fraction := bits % 0x800000
  if exponent = 255 then
    if fraction = 0 then sign ++ "inf" else "NaN"
  else if exponent = 0 then sign ++ pointed (hundredths fraction 1)
  else sign ++ pointed (hundredths (fraction + 0x800000) exponent)

end GamePlugin.Number
