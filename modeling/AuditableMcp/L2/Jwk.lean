import AuditableMcp.Json.Stringify
import AuditableMcp.L2.Verification
import AuditableMcp.Library.BigEndian

-- The interchange form for registry entries (l2/jwk.ts).
namespace AuditableMcp

-- What the registry asks of noble's curves. `fromBytes` is `p256.Point.fromBytes`, none where it
-- throws; `toBytes` writes a point uncompressed; `isValidPublicKey` is Ed25519's.
structure Noble where
  Point : Type
  fromBytes : List UInt8 → Option Point
  assertValidity : Point → Bool
  toBytes : Point → List UInt8
  toAffine : Point → Nat × Nat
  isValidPublicKey : List UInt8 → Bool

def SEC1_UNCOMPRESSED_TAG : UInt8 := 0x04

def P256_COORD_BYTES : Nat := 32

def ED25519_KEY_BYTES : Nat := 32

def coordinateBytes (value : Nat) : List UInt8 := (BigEndian.digits 256 P256_COORD_BYTES value).map UInt8.ofNat

-- The uncompressed SEC1 form of a point, by its coordinates.
def sec1 (affine : Nat × Nat) : List UInt8 :=
  SEC1_UNCOMPRESSED_TAG :: (coordinateBytes affine.1 ++ coordinateBytes affine.2)

-- A point is what its bytes decode to, in either form, and its coordinates fill 32 bytes each.
structure Noble.Lawful (noble : Noble) : Prop where
  toBytes_eq : ∀ bytes point, noble.fromBytes bytes = some point → noble.toBytes point = sec1 (noble.toAffine point)
  fromBytes_sec1 : ∀ bytes point, noble.fromBytes bytes = some point →
    noble.fromBytes (sec1 (noble.toAffine point)) = some point
  x_lt : ∀ bytes point, noble.fromBytes bytes = some point → (noble.toAffine point).1 < 2 ^ 256
  y_lt : ∀ bytes point, noble.fromBytes bytes = some point → (noble.toAffine point).2 < 2 ^ 256

def SignatureAlgorithm.text : SignatureAlgorithm → JsString
  | .ED25519 => "Ed25519"
  | .ES256 => "ES256"

def ALGORITHMS : List SignatureAlgorithm := [.ED25519, .ES256]

def KeyRole.text : KeyRole → JsString
  | .TOOL => "tool"
  | .HOST => "host"

def ROLES : List KeyRole := [.TOOL, .HOST]

def ROLE_MEMBER : JsString := "amcp_role"

def REVOKED_MEMBER : JsString := "amcp_revoked"

structure Parameters where
  kty : JsString
  crv : JsString
  alg : JsString

def PARAMETERS : SignatureAlgorithm → Parameters
  | .ED25519 => ⟨"OKP", "Ed25519", "Ed25519"⟩
  | .ES256 => ⟨"EC", "P-256", "ES256"⟩

structure JwkEntry where
  keyId : JsString
  publicKey : List UInt8
  algorithm : SignatureAlgorithm
  role : KeyRole
  revoked : Bool

-- `value.toString(16)`
def toHex (value : Nat) : List UInt16 :=
  if value = 0 then [hexDigit 0] else (Nat.digits 16 value).reverse.map hexDigit

-- `padStart(length, '0')`
def padStart (length : Nat) (units : List UInt16) : List UInt16 :=
  List.replicate (length - units.length) (hexDigit 0) ++ units

-- The value of one character of `Number.parseInt(pair, 16)`.
def parseHex (c : UInt16) : Nat :=
  if c.toNat < 0x3A then c.toNat - 0x30 else if c.toNat < 0x47 then c.toNat - 0x37 else c.toNat - 0x57

def coordinate (value : Nat) : List UInt8 :=
  (BigEndian.pairs (padStart (P256_COORD_BYTES * 2) (toHex value))).map fun pair =>
    UInt8.ofNat (parseHex pair.1 * 16 + parseHex pair.2)

-- The members around the key material.
def jwkOf (keyId : JsString) (algorithm : SignatureAlgorithm) (material : List (JsString × JsString)) (role : KeyRole)
    (revoked : Bool) : Json :=
  let parameters : List (JsString × JsString) := [("kid", keyId), ("kty", (PARAMETERS algorithm).kty),
    ("crv", (PARAMETERS algorithm).crv), ("alg", (PARAMETERS algorithm).alg)]
  let revocation : List (JsString × Json) := if revoked then [(REVOKED_MEMBER, .bool true)] else []
  .obj ((parameters ++ material ++ [(ROLE_MEMBER, role.text)]).map (fun member => (member.1, .str member.2)) ++ revocation)

def publicJwk (noble : Noble) (keyId : JsString) (publicKey : List UInt8) (algorithm : SignatureAlgorithm)
    (role : KeyRole) (revoked : Bool) : Except JsError Json :=
  match algorithm with
  | .ED25519 =>
      if publicKey.length ≠ ED25519_KEY_BYTES then
        .error (.error "an Ed25519 entry binds a 32-byte key (§5.1)")
      else .ok (jwkOf keyId algorithm [("x", bytesToBase64url publicKey)] role revoked)
  | .ES256 =>
      match noble.fromBytes publicKey with
      | none => .error (.error "a ES256 entry binds a P-256 point (§5.1)")
      | some point =>
          let affine := noble.toAffine point
          let x := bytesToBase64url (coordinate affine.1)
          let y := bytesToBase64url (coordinate affine.2)
          .ok (jwkOf keyId algorithm [("x", x), ("y", y)] role revoked)

section

variable (P : Primitives) (noble : Noble)

def fixedLength (value : Option Json) (member : JsString) (bytes : Nat) (reference : JsString) :
    Except JsError (List UInt8) :=
  match base64urlToBytes value with
  | none => .error (.error (JsString.ofString "a JWK member \"" ++ member ++
      JsString.ofString "\" is not unpadded base64url (RFC 7517)"))
  | some raw =>
      if raw.length ≠ bytes then
        .error (.error (JsString.ofString "a " ++ reference ++ JsString.ofString " \"" ++ member ++
          JsString.ofString "\" is " ++ P.numberToString (.ofNat bytes) ++ JsString.ofString " bytes, not " ++
          P.numberToString (.ofNat raw.length)))
      else .ok raw

variable (jwk : Json)

def readKeyId : Except JsError JsString :=
  match jwk.get "kid" with
  | some (.str keyId) =>
      if keyId.length = 0 then .error (.error "a JWK in this set carries no `kid`, which is the entry’s key_id (§5.1)")
      else .ok keyId
  | _ => .error (.error "a JWK in this set carries no `kid`, which is the entry’s key_id (§5.1)")

-- The algorithm `kty` and `crv` name; `alg`, where the JWK has one, names the same.
def readAlgorithm : Except JsError SignatureAlgorithm :=
  match ALGORITHMS.find? fun candidate =>
      Json.isText (jwk.get "kty") (PARAMETERS candidate).kty && Json.isText (jwk.get "crv") (PARAMETERS candidate).crv with
  | none => do
      let kty ← stringOfOption P (jwk.get "kty")
      let crv ← stringOfOption P (jwk.get "crv")
      throw (.error (JsString.ofString "kty/crv " ++ kty ++ JsString.ofString "/" ++ crv ++
        JsString.ofString " is not an algorithm this version defines (§12.1)"))
  | some algorithm =>
      if (jwk.get "alg").isSome && !Json.isText (jwk.get "alg") (PARAMETERS algorithm).alg then do
        let kty ← stringOfOption P (jwk.get "kty")
        let crv ← stringOfOption P (jwk.get "crv")
        throw (.error (JsString.ofString "a " ++ kty ++ JsString.ofString "/" ++ crv ++
          JsString.ofString " key carries `alg` other than \"" ++ (PARAMETERS algorithm).alg ++ JsString.ofString "\""))
      else return algorithm

def readRole : Except JsError KeyRole :=
  match ROLES.find? fun candidate => Json.isText (jwk.get ROLE_MEMBER) candidate.text with
  | none => .error (.error "a JWK in this set carries no \"amcp_role\"; the set does not say whose keys it holds")
  | some role => .ok role

def readRevoked : Except JsError Bool :=
  match jwk.get REVOKED_MEMBER with
  | none => .ok false
  | some .null => .ok false
  | some (.bool revoked) => .ok revoked
  | _ => .error (.error "a JWK member \"amcp_revoked\" is a boolean")

def readPublicKey : SignatureAlgorithm → Except JsError (List UInt8)
  | .ED25519 => fixedLength P (jwk.get "x") "x" ED25519_KEY_BYTES "Ed25519"
  | .ES256 => do
      let x ← fixedLength P (jwk.get "x") "x" P256_COORD_BYTES "P-256"
      let y ← fixedLength P (jwk.get "y") "y" P256_COORD_BYTES "P-256"
      let point := SEC1_UNCOMPRESSED_TAG :: (x ++ y)
      if (noble.fromBytes point).isSome then return point
      else throw (.error "the P-256 x and y do not name a point on the curve (RFC 7518)")

def publicKeyOf : Except JsError JwkEntry :=
  if (jwk.get "d").isSome then
    .error (.error "this JWK carries a private key (`d`); a registry is provisioned with public keys only")
  else do
    let keyId ← readKeyId jwk
    let algorithm ← readAlgorithm P jwk
    let role ← readRole jwk
    let revoked ← readRevoked jwk
    let publicKey ← readPublicKey P noble jwk algorithm
    return { keyId, publicKey, algorithm, role, revoked }

end

theorem parseHex_hexDigit : ∀ n < 16, parseHex (hexDigit n) = n := by decide

-- A coordinate's 64 hexadecimal digits are its 32 bytes, leading zeros included.
theorem coordinate_eq {value : Nat} (hlt : value < 2 ^ 256) : coordinate value = coordinateBytes value := by
  have hdigits : value < 16 ^ 64 := hlt
  have hpadded : padStart (P256_COORD_BYTES * 2) (toHex value) = (BigEndian.digits 16 64 value).map hexDigit := by
    by_cases hzero : value = 0
    · subst hzero
      rw [BigEndian.digits_zero]
      rfl
    · rw [BigEndian.digits_eq_padded (by omega) hdigits, List.map_append, List.map_replicate, padStart, toHex,
        if_neg hzero, List.length_map, List.length_reverse]
      rfl
  have hpairs := @BigEndian.pairs_digits 16 32 value
  unfold coordinate coordinateBytes
  rw [hpadded, BigEndian.pairs_map, List.map_map, show 256 = 16 * 16 from rfl, P256_COORD_BYTES, ← hpairs, List.map_map]
  refine List.map_congr_left fun pair hpair => ?_
  have hlt16 := @BigEndian.digits_lt 16 (by omega) 64 value
  have hmem := BigEndian.mem_of_mem_pairs hpair
  simp only [Function.comp, parseHex_hexDigit _ (hlt16 _ hmem.1), parseHex_hexDigit _ (hlt16 _ hmem.2)]

theorem length_coordinateBytes (value : Nat) : (coordinateBytes value).length = 32 := by
  simp [coordinateBytes, P256_COORD_BYTES]

end AuditableMcp
