import GroupChat.Record.Integer

/-!
The twisted Edwards curve of Ed25519, in extended coordinates over the field of `2 ^ 255 - 19`
elements. Coordinates are written in thirty-two bytes, least significant first, and a point as its
second coordinate with the parity of the first one in the top bit.
-/

namespace GroupChat

namespace Integer

def littleEndian (width value : Nat) : Bytes := (bigEndian width value).reverse

def ofLittleEndian (data : Bytes) : Nat := ofBigEndian data.reverse

end Integer

namespace Edwards

/-- The place of the bit above those of a coordinate. -/
def topBit : Nat := Nat.pow 2 255

def prime : Nat := topBit - 19

instance : @NeZero Nat Zero.ofOfNat0 prime := @NeZero.mk Nat Zero.ofOfNat0 prime (by decide)

abbrev Field := Fin prime

def Field.ofNat (value : Nat) : Field := Fin.ofNat prime value

def Field.power (base : Field) (exponent : Nat) : Field :=
  if exponent = 0 then 1
  else
    let half := Field.power (base * base) (exponent / 2)
    if exponent % 2 = 1 then base * half else half
termination_by exponent
decreasing_by omega

def Field.inverse (value : Field) : Field := value.power (prime - 2)

def curveConstant : Field := -(Field.ofNat 121665 * (Field.ofNat 121666).inverse)

def rootOfMinusOne : Field := (Field.ofNat 2).power ((prime - 1) / 4)

def groupOrder : Nat := Nat.pow 2 252 + 27742317777372353535851937790883648493

/-- The point with coordinates `x / z` and `y / z`, where `t * z = x * y`. -/
structure Point where
  x : Field
  y : Field
  z : Field
  t : Field
  deriving DecidableEq, Repr

namespace Point

def ofAffine (x y : Field) : Point := ⟨x, y, 1, x * y⟩

def identity : Point := ofAffine 0 1

def negate (point : Point) : Point := { point with x := -point.x, t := -point.t }

def add (doubleConstant : Field) (first second : Point) : Point :=
  let a := (first.y - first.x) * (second.y - second.x)
  let b := (first.y + first.x) * (second.y + second.x)
  let c := first.t * doubleConstant * second.t
  let d := (first.z + first.z) * second.z
  let e := b - a
  let f := d - c
  let g := d + c
  let h := b + a
  ⟨e * f, g * h, f * g, e * h⟩

def multiplyOnto (doubleConstant : Field) (sum point : Point) (scalar : Nat) : Point :=
  if scalar = 0 then sum
  else
    let next := if scalar % 2 = 1 then sum.add doubleConstant point else sum
    multiplyOnto doubleConstant next (point.add doubleConstant point) (scalar / 2)
termination_by scalar
decreasing_by omega

def multiply (scalar : Nat) (point : Point) : Point :=
  multiplyOnto (curveConstant + curveConstant) identity point scalar

def encode (point : Point) : Bytes :=
  let inverse := point.z.inverse
  let x := point.x * inverse
  let y := point.y * inverse
  Integer.littleEndian 32 (y.val + x.val % 2 * topBit)

/-- A square root of `numerator / denominator`, if there is one. -/
def root? (numerator denominator : Field) : Option Field :=
  let candidate := numerator * (numerator * denominator).power ((prime - 5) / 8)
  let square := candidate * candidate * denominator
  if square = numerator then some candidate
  else if square = -numerator then some (candidate * rootOfMinusOne)
  else none

/-- The second coordinate may be any number of 255 bits; it is reduced. A first coordinate of zero is
taken with either parity. -/
def decode? (data : Bytes) : Option Point := do
  let number := Integer.ofLittleEndian data
  let y := Field.ofNat (number % topBit)
  let x ← root? (y * y - 1) (curveConstant * y * y + 1)
  return ofAffine (if x.val % 2 = number / topBit then x else -x) y

theorem length_encode (point : Point) : point.encode.length = 32 := by
  simp [encode, Integer.littleEndian]

end Point

/-- The point with second coordinate `4 / 5` and an even first coordinate. -/
def basePoint : Point :=
  (Point.decode? (Integer.littleEndian 32
    (Field.ofNat 4 * (Field.ofNat 5).inverse).val)).getD Point.identity

end Edwards

end GroupChat
