import AuditableMcp.L2.Jwk

-- The two curves, as the registry asks noble about them.
namespace AuditableMcp.Reference

-- `base ^ exponent` modulo `modulus`, by squaring, for an exponent of at most `bits` bits.
def powMod (modulus : Nat) : Nat → Nat → Nat → Nat
  | 0, _, _ => 1
  | bits + 1, base, exponent =>
      let rest := powMod modulus bits (base * base % modulus) (exponent / 2)
      if exponent % 2 = 1 then rest * base % modulus else rest

def bytesValue (bytes : List UInt8) : Nat := BigEndian.value 256 (bytes.map UInt8.toNat)

namespace P256

def p : Nat := 0xffffffff00000001000000000000000000000000ffffffffffffffffffffffff

def b : Nat := 0x5ac635d8aa3a93e7b3ebbd55769886bc651d06b0cc53b0f63bce3c3e27d2604b

def right (x : Nat) : Nat := (x * x * x + (p - 3) * x + b) % p

-- A point of the curve other than the one at infinity.
structure Point where
  x : Nat
  y : Nat
  x_lt : x < p
  y_lt : y < p
  onCurve : y * y % p = right x

def point (x y : Nat) : Option Point :=
  if h : x < p ∧ y < p ∧ y * y % p = right x then some ⟨x, y, h.1, h.2.1, h.2.2⟩ else none

-- `p` is 3 modulo 4, so a root is a power; its parity is the tag's.
def decompress (tag : UInt8) (x : Nat) : Option Point :=
  let root := powMod p 256 (right x) ((p + 1) / 4)
  point x (if root % 2 = tag.toNat % 2 then root else (p - root) % p)

def fromBytes : List UInt8 → Option Point
  | [] => none
  | tag :: rest =>
      if tag = 0x04 ∧ rest.length = 64 then point (bytesValue (rest.take 32)) (bytesValue (rest.drop 32))
      else if (tag = 0x02 ∨ tag = 0x03) ∧ rest.length = 32 then decompress tag (bytesValue rest)
      else none

end P256

namespace Ed25519

def q : Nat := 2 ^ 255 - 19

def d : Nat := 0x52036cee2b6ffe738cc740797779e89800700a4d4141d8ab75eb4dca135978a3

-- Whether 32 bytes decode to a point: `u / v` is a square, and zero has no sign.
def isValidPublicKey (bytes : List UInt8) : Bool :=
  let encoded := bytesValue bytes.reverse
  let y := encoded % 2 ^ 255
  let u := (y * y + q - 1) % q
  let v := (d * y * y + 1) % q
  y < q && powMod q 255 (u * v % q) ((q - 1) / 2) ≤ 1 && !(u = 0 && encoded / 2 ^ 255 = 1)

end Ed25519

def curves : Noble where
  Point := P256.Point
  fromBytes := P256.fromBytes
  assertValidity := fun _ => true
  toBytes := fun point => sec1 (point.x, point.y)
  toAffine := fun point => (point.x, point.y)
  isValidPublicKey := Ed25519.isValidPublicKey

theorem bytesValue_coordinateBytes {value : Nat} (hlt : value < 2 ^ 256) : bytesValue (coordinateBytes value) = value := by
  have hbytes : (coordinateBytes value).map UInt8.toNat = BigEndian.digits 256 32 value := by
    rw [coordinateBytes, List.map_map, P256_COORD_BYTES]
    refine (List.map_congr_left fun digit hdigit => ?_).trans (List.map_id _)
    have hsmall := BigEndian.digits_lt (by omega) 32 value digit hdigit
    exact Nat.mod_eq_of_lt hsmall
  rw [bytesValue, hbytes]
  exact BigEndian.value_digits hlt

theorem P256.lt_of_lt_p {value : Nat} (h : value < P256.p) : value < 2 ^ 256 := h.trans (by decide)

theorem P256.fromBytes_sec1 (point : P256.Point) : P256.fromBytes (sec1 (point.x, point.y)) = some point := by
  have hx := length_coordinateBytes point.x
  have hy := length_coordinateBytes point.y
  unfold sec1 P256.fromBytes
  dsimp only
  rw [if_pos ⟨rfl, by rw [List.length_append, hx, hy]⟩, List.take_left' hx, List.drop_left' hx,
    bytesValue_coordinateBytes (P256.lt_of_lt_p point.x_lt), bytesValue_coordinateBytes (P256.lt_of_lt_p point.y_lt)]
  exact dif_pos ⟨point.x_lt, point.y_lt, point.onCurve⟩

theorem curves_lawful : curves.Lawful := by
  unfold curves
  refine ⟨fun _ point _ => rfl, fun _ point _ => ?_, fun _ point _ => ?_, fun _ point _ => ?_⟩
  · dsimp only
    exact P256.fromBytes_sec1 point
  · dsimp only
    exact P256.lt_of_lt_p point.x_lt
  · dsimp only
    exact P256.lt_of_lt_p point.y_lt

-- The generator of P-256, compressed.
def generatorBytes : List UInt8 :=
  [0x03, 0x6b, 0x17, 0xd1, 0xf2, 0xe1, 0x2c, 0x42, 0x47, 0xf8, 0xbc, 0xe6, 0xe5, 0x63, 0xa4, 0x40, 0xf2,
    0x77, 0x03, 0x7d, 0x81, 0x2d, 0xeb, 0x33, 0xa0, 0xf4, 0xa1, 0x39, 0x45, 0xd8, 0x98, 0xc2, 0x96]

end AuditableMcp.Reference
