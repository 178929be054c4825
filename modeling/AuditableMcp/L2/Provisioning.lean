import AuditableMcp.L2.Lifecycle

-- A registry provisioned from the sets of others.
namespace AuditableMcp

-- The bytes a JWK carries a key in: a P-256 key is uncompressed on the way.
def carried (noble : Noble) (entry : RegisteredKey) : List UInt8 :=
  match entry.algorithm with
  | .ED25519 => entry.publicKey
  | .ES256 => ((noble.fromBytes entry.publicKey).map fun point => sec1 (noble.toAffine point)).getD []

section

variable {P : Primitives} {noble : Noble} {keyId x y : JsString} {role : KeyRole} {revoked : Bool}

theorem fixedLength_written {bytes : List UInt8} {member reference : JsString} {length : Nat}
    (h : bytes.length = length) :
    fixedLength P (some (.str (bytesToBase64url bytes))) member length reference = .ok bytes := by
  unfold fixedLength
  rw [base64urlToBytes_bytesToBase64url]
  simp [h]

theorem readRole_written {jwk : Json} (h : jwk.get ROLE_MEMBER = some (.str role.text)) : readRole jwk = .ok role := by
  unfold readRole
  rw [h]
  cases role <;> rfl

theorem readRevoked_written {jwk : Json} (h : jwk.get REVOKED_MEMBER = if revoked then some (.bool true) else none) :
    readRevoked jwk = .ok revoked := by
  unfold readRevoked
  rw [h]
  cases revoked <;> rfl

-- What stands under each name of a written JWK.
structure Written (jwk : Json) (keyId : JsString) (algorithm : SignatureAlgorithm) (role : KeyRole) (revoked : Bool) :
    Prop where
  d : jwk.get "d" = none
  kid : jwk.get "kid" = some (.str keyId)
  kty : jwk.get "kty" = some (.str (PARAMETERS algorithm).kty)
  crv : jwk.get "crv" = some (.str (PARAMETERS algorithm).crv)
  alg : jwk.get "alg" = some (.str (PARAMETERS algorithm).alg)
  role : jwk.get ROLE_MEMBER = some (.str role.text)
  revoked : jwk.get REVOKED_MEMBER = if revoked then some (.bool true) else none

theorem written_ed25519 : Written (jwkOf keyId .ED25519 [("x", x)] role revoked) keyId .ED25519 role revoked ∧
    (jwkOf keyId .ED25519 [("x", x)] role revoked).get "x" = some (.str x) := by
  cases revoked <;> exact ⟨⟨rfl, rfl, rfl, rfl, rfl, rfl, rfl⟩, rfl⟩

theorem written_es256 : Written (jwkOf keyId .ES256 [("x", x), ("y", y)] role revoked) keyId .ES256 role revoked ∧
    (jwkOf keyId .ES256 [("x", x), ("y", y)] role revoked).get "x" = some (.str x) ∧
    (jwkOf keyId .ES256 [("x", x), ("y", y)] role revoked).get "y" = some (.str y) := by
  cases revoked <;> exact ⟨⟨rfl, rfl, rfl, rfl, rfl, rfl, rfl⟩, rfl, rfl⟩

theorem publicKeyOf_written {jwk : Json} {algorithm : SignatureAlgorithm} {publicKey : List UInt8}
    (h : Written jwk keyId algorithm role revoked) (hnamed : keyId.length ≠ 0)
    (hkey : readPublicKey P noble jwk algorithm = .ok publicKey) :
    publicKeyOf P noble jwk = .ok ⟨keyId, publicKey, algorithm, role, revoked⟩ := by
  have halgorithm : readAlgorithm P jwk = .ok algorithm := by
    unfold readAlgorithm
    rw [h.kty, h.crv, h.alg]
    cases algorithm <;> rfl
  unfold publicKeyOf readKeyId
  rw [h.d, h.kid, halgorithm, readRole_written h.role, readRevoked_written h.revoked]
  simp only [Option.isSome_none, Bool.false_eq_true, if_false, hnamed, bind, Except.bind, hkey]
  rfl

end

namespace KeyRegistry

variable {P : Primitives} {noble : Noble} {registry next : KeyRegistry} {keyId : JsString} {entry : RegisteredKey}
  {role : KeyRole} {revoked : Bool}

theorem carried_isKeyOf (hnoble : noble.Lawful) (h : isKeyOf noble entry.publicKey entry.algorithm = true) :
    isKeyOf noble (carried noble entry) entry.algorithm = true ∧
      keyOf noble ⟨entry.algorithm, carried noble entry⟩ = keyOf noble entry := by
  obtain ⟨algorithm, publicKey⟩ := entry
  cases algorithm with
  | ED25519 => exact ⟨h, rfl⟩
  | ES256 =>
      obtain ⟨point, hpoint, hvalid⟩ := point_of_isKeyOf h
      have hback := hnoble.fromBytes_sec1 publicKey point hpoint
      have hcarried : carried noble ⟨.ES256, publicKey⟩ = sec1 (noble.toAffine point) := by
        simp [carried, hpoint]
      have hlength : (sec1 (noble.toAffine point)).length = P256_UNCOMPRESSED_BYTES := by
        simp [sec1, length_coordinateBytes, P256_UNCOMPRESSED_BYTES]
      rw [hcarried]
      constructor
      · have htag : (sec1 (noble.toAffine point)).head? = some 0x04 := rfl
        simp [isKeyOf, hlength, hback, hvalid, htag]
      · simp only [keyOf, hback, hpoint]

-- A registered key is written and read back as the same key, in the form a JWK carries.
theorem publicJwk_read (hnoble : noble.Lawful) (h : Registrable noble (keyId, entry)) (role : KeyRole) (revoked : Bool) :
    ∃ jwk, publicJwk noble keyId entry.publicKey entry.algorithm role revoked = .ok jwk ∧ isJwk jwk = true ∧
      ∀ P, publicKeyOf P noble jwk = .ok ⟨keyId, carried noble entry, entry.algorithm, role, revoked⟩ := by
  obtain ⟨algorithm, publicKey⟩ := entry
  cases algorithm with
  | ED25519 =>
      have hlength : publicKey.length = ED25519_KEY_BYTES := by
        have hkey : isKeyOf noble publicKey .ED25519 = true := h.isKey
        simpa using (Bool.and_eq_true_iff.mp hkey).1
      obtain ⟨hwritten, hx⟩ := @written_ed25519 keyId (bytesToBase64url publicKey) role revoked
      refine ⟨_, if_neg (not_not.mpr hlength), rfl, fun P => publicKeyOf_written hwritten h.named ?_⟩
      unfold readPublicKey
      rw [hx]
      exact fixedLength_written hlength
  | ES256 =>
      obtain ⟨point, hpoint, -⟩ := point_of_isKeyOf h.isKey
      have hback := hnoble.fromBytes_sec1 publicKey point hpoint
      obtain ⟨hwritten, hx, hy⟩ := @written_es256 keyId (bytesToBase64url (coordinate (noble.toAffine point).1))
        (bytesToBase64url (coordinate (noble.toAffine point).2)) role revoked
      have hcarried : carried noble ⟨.ES256, publicKey⟩ = sec1 (noble.toAffine point) := by
        simp [carried, hpoint]
      refine ⟨_, ?_, rfl, fun P => publicKeyOf_written hwritten h.named ?_⟩
      · unfold publicJwk
        rw [hpoint]
      · unfold readPublicKey
        have hlength (value : Nat) : (coordinateBytes value).length = P256_COORD_BYTES := length_coordinateBytes value
        rw [hx, hy, coordinate_eq (hnoble.x_lt publicKey point hpoint), coordinate_eq (hnoble.y_lt publicKey point hpoint)]
        dsimp only
        rw [fixedLength_written (hlength _), fixedLength_written (hlength _), hcarried]
        have hsome : (noble.fromBytes (SEC1_UNCOMPRESSED_TAG :: (coordinateBytes (noble.toAffine point).1 ++
            coordinateBytes (noble.toAffine point).2))).isSome = true := by
          rw [show _ :: _ = sec1 (noble.toAffine point) from rfl, hback]
          rfl
        simp only [bind, Except.bind, hsome, if_true]
        rfl

-- What is written depends on the key alone, not on the bytes it is registered in.
theorem publicJwk_congr {a b : RegisteredKey} (h : keyOf noble a = keyOf noble b) :
    publicJwk noble keyId a.publicKey a.algorithm role revoked =
      publicJwk noble keyId b.publicKey b.algorithm role revoked := by
  have halgorithm := algorithm_of_keyOf h
  obtain ⟨algorithm, a⟩ := a
  obtain ⟨_, b⟩ := b
  simp only at halgorithm
  subst halgorithm
  cases algorithm with
  | ED25519 =>
      have hbytes : a = b := by simpa [keyOf] using h
      rw [hbytes]
  | ES256 =>
      have hpoint : noble.fromBytes a = noble.fromBytes b := by simpa [keyOf] using h
      simp only [publicJwk, hpoint]

instance : Std.Total byKeyId := ⟨fun a b => JsString.unitsLe_total a.1.units b.1.units⟩

instance : IsTrans (JsString × RegisteredKey) byKeyId := ⟨fun _ _ _ => JsString.unitsLe_trans⟩

def sortedIds (registry : KeyRegistry) : List JsString := (registry.keys.entries.insertionSort byKeyId).map Prod.fst

-- What the set says of one key_id.
def jwkFor (noble : Noble) (registry : KeyRegistry) (keyId : JsString) : Json :=
  match registry.get keyId with
  | none => .null
  | some entry =>
      match publicJwk noble keyId entry.publicKey entry.algorithm registry.role (registry.isRevoked keyId) with
      | .ok jwk => jwk
      | .error _ => .null

def jwksOf (noble : Noble) (registry : KeyRegistry) : Json :=
  .obj [("keys", .arr (registry.sortedIds.map (jwkFor noble registry)))]

-- The entry a set carries for one of its key_ids.
def carriedEntry (noble : Noble) (registry : KeyRegistry) (entry : JsString × RegisteredKey) : JwkEntry :=
  ⟨entry.1, carried noble entry.2, entry.2.algorithm, registry.role, registry.isRevoked entry.1⟩

-- One registry holds the same keys as another, and the same of them revoked.
structure SameEntries (noble : Noble) (first second : KeyRegistry) : Prop where
  role : first.role = second.role
  bindings : first.bindings noble = second.bindings noble
  revoked : ∀ keyId, first.isRevoked keyId = second.isRevoked keyId

theorem mem_sorted_iff (hsound : registry.Sound noble) :
    (keyId, entry) ∈ registry.keys.entries.insertionSort byKeyId ↔ registry.get keyId = some entry := by
  rw [List.mem_insertionSort]
  exact OrderedMap.mem_entries_iff hsound.nodup keyId entry

theorem toJwks_eq (hnoble : noble.Lawful) (hsound : registry.Sound noble) :
    toJwks noble registry = .ok (jwksOf noble registry) := by
  have hkeys : (registry.keys.entries.insertionSort byKeyId).mapM (fun entry => publicJwk noble entry.1
      entry.2.publicKey entry.2.algorithm registry.role (registry.isRevoked entry.1)) =
      .ok ((registry.keys.entries.insertionSort byKeyId).map fun entry => jwkFor noble registry entry.1) := by
    apply mapM_ok_map
    intro entry hentry
    have hget := (mem_sorted_iff hsound).mp hentry
    obtain ⟨jwk, hjwk, -⟩ := publicJwk_read hnoble (hsound.registrable entry.1 entry.2 hget) registry.role
      (registry.isRevoked entry.1)
    simp only [jwkFor, hget, hjwk]
  unfold toJwks jwksOf sortedIds
  rw [hkeys, List.map_map]
  rfl

theorem publicKeyOf_jwkFor (hnoble : noble.Lawful) (hsound : registry.Sound noble) {entry : JsString × RegisteredKey}
    (hentry : entry ∈ registry.keys.entries.insertionSort byKeyId) :
    isJwk (jwkFor noble registry entry.1) = true ∧
      publicKeyOf P noble (jwkFor noble registry entry.1) = .ok (carriedEntry noble registry entry) := by
  have hget := (mem_sorted_iff hsound).mp hentry
  obtain ⟨jwk, hjwk, hobject, hback⟩ := publicJwk_read hnoble (hsound.registrable entry.1 entry.2 hget) registry.role
    (registry.isRevoked entry.1)
  have hfor : jwkFor noble registry entry.1 = jwk := by simp only [jwkFor, hget, hjwk]
  rw [hfor]
  exact ⟨hobject, hback P⟩

-- A set reads back as its registry's entries, under its registry's role.
theorem readJwks_jwksOf (hnoble : noble.Lawful) (hsound : registry.Sound noble) :
    readJwks P noble registry.role (some (jwksOf noble registry)) =
      .ok ((registry.keys.entries.insertionSort byKeyId).map (carriedEntry noble registry)) := by
  have hobjects : (registry.sortedIds.map (jwkFor noble registry)).all isJwk = true := by
    rw [List.all_eq_true, sortedIds, List.map_map]
    intro jwk hjwk
    obtain ⟨entry, hentry, rfl⟩ := List.mem_map.mp hjwk
    exact (publicKeyOf_jwkFor (P := P) hnoble hsound hentry).1
  have hentries : (registry.sortedIds.map (jwkFor noble registry)).mapM (publicKeyOf P noble) =
      .ok ((registry.keys.entries.insertionSort byKeyId).map (carriedEntry noble registry)) := by
    rw [sortedIds, List.map_map, List.mapM_map]
    exact mapM_ok_map _ fun entry hentry => (publicKeyOf_jwkFor hnoble hsound hentry).2
  have hroles : ((registry.keys.entries.insertionSort byKeyId).map (carriedEntry noble registry)).find?
      (fun entry => entry.role ≠ registry.role) = none := by
    rw [List.find?_eq_none]
    intro entry hentry
    obtain ⟨own, -, rfl⟩ := List.mem_map.mp hentry
    simp [carriedEntry]
  unfold readJwks
  show (if (registry.sortedIds.map (jwkFor noble registry)).all isJwk = false then _ else _) = _
  rw [hobjects, hentries]
  simp only [Bool.true_eq_false, if_false, bind, Except.bind, hroles]
  rfl

theorem keyed_carriedEntry (hnoble : noble.Lawful) (hsound : registry.Sound noble) :
    ((registry.keys.entries.insertionSort byKeyId).map (carriedEntry noble registry)).map (JwkEntry.keyed noble) =
      (registry.keys.entries.insertionSort byKeyId).map (keyed noble) := by
  rw [List.map_map]
  refine List.map_congr_left fun entry hentry => ?_
  have hkey := (hsound.registrable entry.1 entry.2 ((mem_sorted_iff hsound).mp hentry)).isKey
  exact Prod.ext rfl (carried_isKeyOf hnoble hkey).2

-- A set loads wherever its keys agree with what is bound.
theorem load_jwksOf (hnoble : noble.Lawful) (hsound : registry.Sound noble) {target : KeyRegistry}
    (htarget : target.Sound noble) (hrole : target.role = registry.role) {after : JsString → Option (Key noble.Point)}
    (hadds : WriteOnce.Adds (target.bindings noble) ((registry.keys.entries.insertionSort byKeyId).map (keyed noble)) after) :
    ∃ next, loadJwks P noble (some (jwksOf noble registry)) target = .ok () next ∧ next.Sound noble ∧
      next.role = target.role ∧ next.bindings noble = after ∧
      ∀ keyId, next.isRevoked keyId = true ↔ target.isRevoked keyId = true ∨ registry.isRevoked keyId = true := by
  have hread := readJwks_jwksOf (P := P) hnoble hsound
  rw [← hrole] at hread
  rw [← keyed_carriedEntry hnoble hsound] at hadds
  have hregistrable : ∀ entry ∈ (registry.keys.entries.insertionSort byKeyId).map (carriedEntry noble registry),
      Registrable noble entry.binding := by
    intro jwk hjwk
    obtain ⟨entry, hentry, rfl⟩ := List.mem_map.mp hjwk
    have hown := hsound.registrable entry.1 entry.2 ((mem_sorted_iff hsound).mp hentry)
    exact ⟨hown.named, (carried_isKeyOf hnoble hown.isKey).1⟩
  obtain ⟨next, hnext⟩ := loadJwks_succeeds hnoble htarget hread hregistrable hadds
  obtain ⟨entries, hloaded⟩ := loadJwks_ok hnoble htarget hnext
  have hsame := hloaded.read
  rw [hread] at hsame
  obtain rfl := Except.ok.inj hsame
  refine ⟨next, hnext, hloaded.sound, hloaded.role, hloaded.adds.unique hadds, fun keyId => ?_⟩
  rw [hloaded.revoked]
  refine or_congr_right ⟨?_, fun hrevoked => ?_⟩
  · rintro ⟨jwk, hjwk, hrevoked, rfl⟩
    obtain ⟨entry, -, rfl⟩ := List.mem_map.mp hjwk
    exact hrevoked
  · obtain ⟨bound, hbound⟩ := Option.isSome_iff_exists.mp (hsound.revokedBound keyId hrevoked)
    exact ⟨carriedEntry noble registry (keyId, bound), List.mem_map_of_mem ((mem_sorted_iff hsound).mpr hbound),
      hrevoked, rfl⟩

theorem isSome_bindings (registry : KeyRegistry) (keyId : JsString) :
    (registry.bindings noble keyId).isSome = (registry.get keyId).isSome := Option.isSome_map

theorem sortedIds_eq (hfirst : registry.Sound noble) (hsecond : next.Sound noble)
    (h : registry.bindings noble = next.bindings noble) : registry.sortedIds = next.sortedIds := by
  have hsorted (registry : KeyRegistry) :
      registry.sortedIds.Pairwise fun a b => JsString.unitsLe a.units b.units = true :=
    List.pairwise_map.mpr (List.pairwise_insertionSort byKeyId registry.keys.entries)
  have hperm (registry : KeyRegistry) : registry.sortedIds.Perm registry.keys.keys :=
    (List.perm_insertionSort byKeyId registry.keys.entries).map Prod.fst
  have hkeys : registry.keys.keys.Perm next.keys.keys := by
    rw [List.perm_ext_iff_of_nodup hfirst.nodup hsecond.nodup]
    intro keyId
    rw [OrderedMap.mem_keys_iff hfirst.nodup, OrderedMap.mem_keys_iff hsecond.nodup]
    show (registry.get keyId).isSome = true ↔ (next.get keyId).isSome = true
    rw [← @isSome_bindings noble registry, ← @isSome_bindings noble next, h]
  have hsame := (hperm registry).trans (hkeys.trans (hperm next).symm)
  refine hsame.eq_of_pairwise (fun a b _ _ hab hba => ?_) (hsorted registry) (hsorted next)
  exact congrArg JsString.mk (JsString.unitsLe_antisymm hab hba)

-- Registries with the same entries write the same set.
theorem jwksOf_congr (hfirst : registry.Sound noble) (hsecond : next.Sound noble) (h : SameEntries noble registry next) :
    jwksOf noble registry = jwksOf noble next := by
  have hfor : jwkFor noble registry = jwkFor noble next := by
    funext keyId
    have hkey := congrFun h.bindings keyId
    unfold bindings at hkey
    unfold jwkFor
    cases ha : registry.get keyId with
    | none =>
        rw [ha] at hkey
        rw [Option.map_eq_none_iff.mp hkey.symm]
    | some a =>
        rw [ha] at hkey
        obtain ⟨b, hb, hab⟩ := Option.map_eq_some_iff.mp hkey.symm
        simp only [hb, h.role, h.revoked keyId, publicJwk_congr hab.symm]
  rw [jwksOf, jwksOf, sortedIds_eq hfirst hsecond h.bindings, hfor]

-- The entries a document carries, where it is a set of the role.
def entriesIn (P : Primitives) (noble : Noble) (role : KeyRole) (document : Option Json) : List JwkEntry :=
  ((readJwks P noble role document).toOption).getD []

def loadAll (P : Primitives) (noble : Noble) : List (Option Json) → RegistryM Unit
  | [] => pure ()
  | document :: rest => do
      loadJwks P noble document
      loadAll P noble rest

-- A document the registry can take, as far as its own members decide.
structure Wellformed (P : Primitives) (noble : Noble) (role : KeyRole) (document : Option Json) : Prop where
  read : readJwks P noble role document = .ok (entriesIn P noble role document)
  registrable : ∀ entry ∈ entriesIn P noble role document, Registrable noble entry.binding

theorem Loaded.wellformed {document : Option Json} {entries : List JwkEntry}
    (h : Loaded P noble registry document entries next) :
    entriesIn P noble registry.role document = entries ∧ Wellformed P noble registry.role document := by
  have hentries : entriesIn P noble registry.role document = entries := by
    rw [entriesIn, h.read]
    rfl
  exact ⟨hentries, by rw [hentries]; exact h.read, by rw [hentries]; exact h.registrable⟩

-- A series of sets loads where all their entries together fit, and leaves what these add up to.
theorem loadAll_succeeds (hnoble : noble.Lawful) {documents : List (Option Json)} (hsound : registry.Sound noble)
    (hdocuments : ∀ document ∈ documents, Wellformed P noble registry.role document)
    {after : JsString → Option (Key noble.Point)}
    (hadds : WriteOnce.Adds (registry.bindings noble)
      ((documents.flatMap (entriesIn P noble registry.role)).map (JwkEntry.keyed noble)) after) :
    ∃ next, loadAll P noble documents registry = .ok () next ∧ next.role = registry.role ∧ next.bindings noble = after ∧
      ∀ keyId, next.isRevoked keyId = true ↔ registry.isRevoked keyId = true ∨
        ∃ entry ∈ documents.flatMap (entriesIn P noble registry.role), entry.revoked = true ∧ entry.keyId = keyId := by
  induction documents generalizing registry with
  | nil => exact ⟨registry, rfl, rfl, (WriteOnce.adds_nil_iff.mp hadds).symm, by simp⟩
  | cons document rest ih =>
      rw [List.flatMap_cons, List.map_append] at hadds
      obtain ⟨middle, hone, hrest⟩ := hadds.split
      have hwellformed := hdocuments document (by simp)
      obtain ⟨first, hfirst⟩ := loadJwks_succeeds hnoble hsound hwellformed.read hwellformed.registrable hone
      obtain ⟨entries, hloaded⟩ := loadJwks_ok hnoble hsound hfirst
      have hentries := hloaded.wellformed.1
      have hmiddle := hloaded.adds
      rw [← hentries] at hmiddle
      rw [hone.unique hmiddle, ← hloaded.role] at hrest
      obtain ⟨next, hnext, hrole, hafter, hrevoked⟩ := ih hloaded.sound
        (fun other ho => by rw [hloaded.role]; exact hdocuments other (by simp [ho])) hrest
      refine ⟨next, ?_, hrole.trans hloaded.role, hafter, fun keyId => ?_⟩
      · unfold loadAll
        rw [Method.bind_of_ok hfirst]
        exact hnext
      · rw [hrevoked, hloaded.revoked, hloaded.role, List.flatMap_cons, hentries]
        simp only [List.mem_append, or_and_right, exists_or, or_assoc]

-- A set is refused whole by a registry of the other role.
theorem jwksOf_foreign (hnoble : noble.Lawful) (hsound : registry.Sound noble) {target : KeyRegistry}
    (htarget : target.Sound noble) (hrole : registry.role ≠ target.role) (hentries : registry.keys.entries ≠ []) :
    ∃ e, loadJwks P noble (some (jwksOf noble registry)) target = .error e target := by
  obtain ⟨entry, hentry⟩ := List.exists_mem_of_ne_nil _ hentries
  rw [← List.mem_insertionSort byKeyId] at hentry
  have hmember : jwkFor noble registry entry.1 ∈ registry.sortedIds.map (jwkFor noble registry) :=
    List.mem_map_of_mem (List.mem_map_of_mem hentry)
  exact loadJwks_refused hnoble htarget rfl hmember
    (.foreign (carriedEntry noble registry entry) (publicKeyOf_jwkFor hnoble hsound hentry).2 hrole)

-- Two sets that load one after the other load in every order and any number of times, and leave
-- the same.
theorem loads_commute (hnoble : noble.Lawful) (hsound : registry.Sound noble) {first second : Option Json}
    {middle both : KeyRegistry} (hfirst : loadJwks P noble first registry = .ok () middle)
    (hsecond : loadJwks P noble second middle = .ok () both) {documents : List (Option Json)}
    (hmem : ∀ document, document ∈ documents ↔ document = first ∨ document = second) :
    ∃ next, loadAll P noble documents registry = .ok () next ∧ SameEntries noble next both := by
  obtain ⟨entries, hloaded⟩ := loadJwks_ok hnoble hsound hfirst
  obtain ⟨others, hothers⟩ := loadJwks_ok hnoble hloaded.sound hsecond
  obtain ⟨hentries, hwellformed⟩ := hloaded.wellformed
  obtain ⟨hsecondEntries, hsecondWellformed⟩ := hothers.wellformed
  rw [hloaded.role] at hsecondEntries hsecondWellformed
  have hall (entry : JwkEntry) :
      entry ∈ documents.flatMap (entriesIn P noble registry.role) ↔ entry ∈ entries ∨ entry ∈ others := by
    rw [List.mem_flatMap]
    simp only [hmem, or_and_right, exists_or, exists_eq_left, hentries, hsecondEntries]
  have hkeyed (pair : JsString × Key noble.Point) :
      pair ∈ entries.map (JwkEntry.keyed noble) ++ others.map (JwkEntry.keyed noble) ↔
        pair ∈ (documents.flatMap (entriesIn P noble registry.role)).map (JwkEntry.keyed noble) := by
    rw [List.mem_append, List.mem_map, List.mem_map, List.mem_map]
    simp only [hall, or_and_right, exists_or]
  have hdocuments : ∀ document ∈ documents, Wellformed P noble registry.role document := by
    intro document hd
    rcases (hmem document).mp hd with rfl | rfl
    · exact hwellformed
    · exact hsecondWellformed
  have hadds := (hloaded.adds.trans hothers.adds).congr hkeyed
  obtain ⟨next, hnext, hrole, hbindings, hrevoked⟩ := loadAll_succeeds hnoble hsound hdocuments hadds
  refine ⟨next, hnext, hrole.trans (hloaded.role.symm.trans hothers.role.symm), hbindings, fun keyId => ?_⟩
  rw [Bool.eq_iff_iff, hrevoked, hothers.revoked, hloaded.revoked]
  simp only [hall, or_and_right, exists_or, or_assoc]

-- What a registry writes provisions an empty one alike, changes nothing in itself, and is refused
-- by the other role; sets that load at all load in any order, any number of times.
theorem jwks_roundTrip (hnoble : noble.Lawful) (role : KeyRole) (operations : List Operation) :
    let registry := (new role).after P noble operations
    ∃ set, toJwks noble registry = .ok set ∧
      (∃ peer, loadJwks P noble (some set) (new role) = .ok () peer ∧ SameEntries noble peer registry ∧
        toJwks noble peer = .ok set) ∧
      (∃ next, loadJwks P noble (some set) registry = .ok () next ∧ SameEntries noble next registry) ∧
      (∀ other others, other ≠ role → registry.keys.entries ≠ [] →
        ∃ e, loadJwks P noble (some set) ((new other).after P noble others) =
          .error e ((new other).after P noble others)) ∧
      ∀ first second middle both, loadJwks P noble first registry = .ok () middle →
        loadJwks P noble second middle = .ok () both →
        ∀ documents : List (Option Json), (∀ document, document ∈ documents ↔ document = first ∨ document = second) →
        ∃ next, loadAll P noble documents registry = .ok () next ∧ SameEntries noble next both := by
  intro registry
  have hnew (role : KeyRole) : (new role).Sound noble := sound_new role
  obtain ⟨hsound, hkeeps⟩ := after_keeps (P := P) hnoble operations (hnew role)
  have hrole : registry.role = role := hkeeps.role
  have hmem (pair : JsString × Key noble.Point) : pair ∈ registry.keys.entries.map (keyed noble) ↔
      pair ∈ (registry.keys.entries.insertionSort byKeyId).map (keyed noble) := by
    rw [List.mem_map, List.mem_map]
    simp only [List.mem_insertionSort]
  have hown := (adds_entries hsound role).congr hmem
  refine ⟨jwksOf noble registry, toJwks_eq hnoble hsound, ?_, ?_, ?_, ?_⟩
  · obtain ⟨peer, hpeer, hpeerSound, hpeerRole, hbindings, hrevoked⟩ :=
      load_jwksOf (P := P) hnoble hsound (hnew role) hrole.symm hown
    have hsame : SameEntries noble peer registry := by
      refine ⟨hpeerRole.trans hrole.symm, hbindings, fun keyId => ?_⟩
      rw [Bool.eq_iff_iff, hrevoked, or_iff_right]
      simp [new, isRevoked]
    refine ⟨peer, hpeer, hsame, ?_⟩
    rw [toJwks_eq hnoble hpeerSound, jwksOf_congr hpeerSound hsound hsame]
  · have hagain : WriteOnce.Adds (registry.bindings noble)
        ((registry.keys.entries.insertionSort byKeyId).map (keyed noble)) (registry.bindings noble) :=
      ⟨fun _ _ hkey => hkey, hown.added, fun _ _ hkey => Or.inl hkey⟩
    obtain ⟨next, hnext, -, hnextRole, hbindings, hrevoked⟩ := load_jwksOf (P := P) hnoble hsound hsound rfl hagain
    refine ⟨next, hnext, hnextRole, hbindings, fun keyId => ?_⟩
    rw [Bool.eq_iff_iff, hrevoked, or_self]
  · intro other others hother hentries
    obtain ⟨htarget, htargetKeeps⟩ := after_keeps (P := P) hnoble others (hnew other)
    refine jwksOf_foreign hnoble hsound htarget ?_ hentries
    rw [hrole, htargetKeeps.role]
    exact hother.symm
  · intro first second middle both hfirst hsecond documents hdocuments
    exact loads_commute hnoble hsound hfirst hsecond hdocuments

-- A compressed generator goes out uncompressed, and comes back the same key.
theorem generator_provisions :
    ∃ set, toJwks Reference.curves ((new .HOST).after Reference.primitives Reference.curves
        [.register GENERATOR_KEY Reference.generatorBytes "ES256", .revoke GENERATOR_KEY]) = .ok set ∧
      ∃ peer, loadJwks Reference.primitives Reference.curves (some set) (new .HOST) = .ok () peer ∧
        toJwks Reference.curves peer = .ok set := by
  obtain ⟨set, hset, ⟨peer, hpeer, -, hback⟩, -⟩ := jwks_roundTrip (P := Reference.primitives) Reference.curves_lawful
    .HOST [.register GENERATOR_KEY Reference.generatorBytes "ES256", .revoke GENERATOR_KEY]
  exact ⟨set, hset, peer, hpeer, hback⟩

end KeyRegistry

end AuditableMcp
