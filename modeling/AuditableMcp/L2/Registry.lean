import AuditableMcp.L2.Jwk
import AuditableMcp.Library.Fold
import AuditableMcp.Library.WriteOnce

-- The operations of `KeyRegistry` (l2/keys.ts).
namespace AuditableMcp

def P256_UNCOMPRESSED_BYTES : Nat := 65

def P256_COMPRESSED_BYTES : Nat := 33

def isKeyOf (noble : Noble) (publicKey : List UInt8) : SignatureAlgorithm → Bool
  | .ED25519 => publicKey.length = ED25519_KEY_BYTES && noble.isValidPublicKey publicKey
  | .ES256 =>
      let tagged := (publicKey.length = P256_UNCOMPRESSED_BYTES && publicKey.head? = some 0x04) ||
        (publicKey.length = P256_COMPRESSED_BYTES && (publicKey.head? = some 0x02 || publicKey.head? = some 0x03))
      tagged && (noble.fromBytes publicKey).any noble.assertValidity

-- Whether two entries hold one key, compared as keys. A point neither form parses is compared as bytes.
def sameKey (noble : Noble) (a b : List UInt8) : SignatureAlgorithm → Bool
  | .ED25519 => a = b
  | .ES256 =>
      match noble.fromBytes a, noble.fromBytes b with
      | some p, some q => noble.toBytes p = noble.toBytes q
      | _, _ => a = b

def SignatureAlgorithm.named (name : JsString) : Option SignatureAlgorithm :=
  ALGORITHMS.find? fun algorithm => algorithm.text = name

theorem SignatureAlgorithm.named_text (algorithm : SignatureAlgorithm) :
    SignatureAlgorithm.named algorithm.text = some algorithm := by
  cases algorithm <;> decide

def JwkEntry.binding (entry : JwkEntry) : JsString × RegisteredKey :=
  (entry.keyId, ⟨entry.algorithm, entry.publicKey⟩)

-- A method of the registry: a throw leaves whatever the method had written by then.
abbrev RegistryM := EStateM JsError KeyRegistry

namespace KeyRegistry

def new (role : KeyRole) : KeyRegistry := ⟨role, .empty, []⟩

section

variable (P : Primitives) (noble : Noble)

def register (keyId : JsString) (publicKey : List UInt8) (algorithm : JsString) : RegistryM Unit := do
  if keyId.length = 0 then throw (.error "a registry entry binds a non-empty key_id (§5.1)")
  match SignatureAlgorithm.named algorithm with
  | none => throw (.error (JsString.ofString "algorithm " ++ ⟨quote algorithm⟩ ++
      JsString.ofString " is not a SignatureAlgorithm; use one of 'Ed25519', 'ES256' (§5.1)"))
  | some algorithm => do
      if isKeyOf noble publicKey algorithm = false then
        throw (.error (JsString.ofString "a " ++ algorithm.text ++ JsString.ofString " entry does not bind a " ++
          algorithm.text ++ JsString.ofString " key (" ++ P.numberToString (.ofNat publicKey.length) ++
          JsString.ofString " bytes) (§5.1)"))
      let existing := (← getThe KeyRegistry).get keyId
      if existing.any fun entry => entry.algorithm ≠ algorithm || !sameKey noble entry.publicKey publicKey algorithm then
        throw (.error (JsString.ofString "key_id '" ++ keyId ++
          JsString.ofString "' is already registered with a different key (§10.9)"))
      modify fun registry => { registry with keys := registry.keys.set keyId ⟨algorithm, publicKey⟩ }

def registerToolKey (keyId : JsString) (publicKey : List UInt8) : RegistryM Unit :=
  register P noble keyId publicKey SignatureAlgorithm.ED25519.text

def registerAll : List (JsString × RegisteredKey) → RegistryM Unit
  | [] => pure ()
  | (keyId, entry) :: rest => do
      register P noble keyId entry.publicKey entry.algorithm.text
      registerAll rest

def isJwk : Json → Bool
  | .obj _ => true
  | _ => false

-- The set's entries, every one of the registry's own role. Nothing is written meanwhile.
def readJwks (role : KeyRole) (document : Option Json) : Except JsError (List JwkEntry) :=
  match document.bind fun set => set.get "keys" with
  | some (.arr keys) =>
      if keys.all isJwk = false then
        .error (.error "every member of a JWK Set's `keys` is a JWK object (RFC 7517)")
      else do
        let entries ← keys.mapM (publicKeyOf P noble)
        match entries.find? fun entry => entry.role ≠ role with
        | some entry => throw (.error (JsString.ofString "key_id \"" ++ entry.keyId ++ JsString.ofString "\" is a " ++
            entry.role.text ++ JsString.ofString " key; this registry holds " ++ role.text ++
            JsString.ofString " keys (§10.9)"))
        | none => return entries
  | _ => .error (.error "a JWK Set carries its keys under `keys` (RFC 7517)")

def addRevoked (revoked : List JsString) (entry : JwkEntry) : List JsString :=
  if entry.revoked then addTo revoked entry.keyId else revoked

-- Rehearsed on a copy: the registry takes the copy's keys once all of them are registered.
def loadJwks (document : Option Json) : RegistryM Unit := do
  let registry ← getThe KeyRegistry
  match readJwks P noble registry.role document with
  | .error e => throw e
  | .ok entries =>
      match registerAll P noble (registry.keys.entries ++ entries.map JwkEntry.binding) (new registry.role) with
      | .error e _ => throw e
      | .ok _ rehearsal => do
          modify fun registry => { registry with keys := rehearsal.keys }
          modify fun registry => { registry with revoked := entries.foldl addRevoked registry.revoked }

def revoke (keyId : JsString) : RegistryM Unit := do
  if (← getThe KeyRegistry).keys.has keyId = false then
    throw (.error (JsString.ofString "key_id '" ++ keyId ++ JsString.ofString "' has no registry entry to revoke (§10.9)"))
  modify fun registry => { registry with revoked := addTo registry.revoked keyId }

-- The order `sort` gives the entries: by key_id, code unit by code unit.
def byKeyId (a b : JsString × RegisteredKey) : Prop := JsString.unitsLe a.1.units b.1.units = true

instance : DecidableRel byKeyId := fun _ _ => inferInstanceAs (Decidable (_ = true))

def toJwks (registry : KeyRegistry) : Except JsError Json := do
  let keys ← (registry.keys.entries.insertionSort byKeyId).mapM fun entry =>
    publicJwk noble entry.1 entry.2.publicKey entry.2.algorithm registry.role (registry.isRevoked entry.1)
  return .obj [("keys", .arr keys)]

-- What `register` asks before it binds an entry.
structure Accepts (registry : KeyRegistry) (keyId : JsString) (entry : RegisteredKey) : Prop where
  named : keyId.length ≠ 0
  isKey : isKeyOf noble entry.publicKey entry.algorithm = true
  sameAsBound : ∀ existing, registry.get keyId = some existing → existing.algorithm = entry.algorithm ∧
    sameKey noble existing.publicKey entry.publicKey entry.algorithm = true

def bound (registry : KeyRegistry) (keyId : JsString) (entry : RegisteredKey) : KeyRegistry :=
  { registry with keys := registry.keys.set keyId entry }

end

variable {P : Primitives} {noble : Noble} {registry : KeyRegistry} {keyId : JsString} {publicKey : List UInt8}

theorem register_accepts {name : JsString} {algorithm : SignatureAlgorithm}
    (hname : SignatureAlgorithm.named name = some algorithm) (h : Accepts noble registry keyId ⟨algorithm, publicKey⟩) :
    register P noble keyId publicKey name registry = .ok () (registry.bound keyId ⟨algorithm, publicKey⟩) := by
  have hsame : (registry.get keyId).any (fun entry =>
      entry.algorithm ≠ algorithm || !sameKey noble entry.publicKey publicKey algorithm) = false := by
    cases hget : registry.get keyId with
    | none => rfl
    | some existing =>
        have := h.sameAsBound existing hget
        simp [this.1, this.2]
  have hkey : isKeyOf noble publicKey algorithm = true := h.isKey
  simp only [register, Method.bind_apply, Method.ite_apply, h.named, hname, hkey, Method.get_apply, hsame,
    if_false, Bool.false_eq_true, Bool.true_eq_false, Method.modify_apply, bound]

-- Whatever is refused is refused before anything is written.
theorem register_refuses {name : JsString}
    (h : ∀ algorithm, SignatureAlgorithm.named name = some algorithm → ¬Accepts noble registry keyId ⟨algorithm, publicKey⟩) :
    ∃ e, register P noble keyId publicKey name registry = .error e registry := by
  unfold register
  by_cases hnamed : keyId.length = 0
  · simp only [Method.bind_apply, Method.ite_apply, hnamed, if_true, Method.throw_apply]
    exact ⟨_, rfl⟩
  simp only [Method.bind_apply, Method.ite_apply, hnamed, if_false]
  cases hname : SignatureAlgorithm.named name with
  | none => exact ⟨_, rfl⟩
  | some algorithm =>
      by_cases hkey : isKeyOf noble publicKey algorithm = false
      · simp only [Method.bind_apply, Method.ite_apply, hkey, if_true, Method.throw_apply]
        exact ⟨_, rfl⟩
      simp only [Method.bind_apply, Method.ite_apply, hkey, Method.get_apply]
      by_cases hany : (registry.get keyId).any (fun entry =>
          entry.algorithm ≠ algorithm || !sameKey noble entry.publicKey publicKey algorithm) = true
      · simp only [hany, if_true, Method.throw_apply]
        exact ⟨_, rfl⟩
      · refine absurd ⟨hnamed, by simpa using hkey, fun existing hget => ?_⟩ (h algorithm hname)
        rw [hget] at hany
        simpa using hany

end KeyRegistry

end AuditableMcp
