import AuditableMcp.L2.Registry
import AuditableMcp.Reference.Curves
import AuditableMcp.Reference.Primitives

-- What a key registry keeps over every sequence of its operations.
namespace AuditableMcp

-- The key that registered bytes stand for: an Ed25519 key is its bytes, a P-256 key the point
-- its bytes decode to.
inductive Key (Point : Type) where
  | ed25519 (bytes : List UInt8)
  | p256 (point : Option Point)

def keyOf (noble : Noble) (entry : RegisteredKey) : Key noble.Point :=
  match entry.algorithm with
  | .ED25519 => .ed25519 entry.publicKey
  | .ES256 => .p256 (noble.fromBytes entry.publicKey)

def JwkEntry.keyed (noble : Noble) (entry : JwkEntry) : JsString × Key noble.Point :=
  (entry.keyId, keyOf noble entry.binding.2)

section

variable {noble : Noble}

theorem algorithm_of_keyOf {a b : RegisteredKey} (h : keyOf noble a = keyOf noble b) : a.algorithm = b.algorithm := by
  unfold keyOf at h
  cases ha : a.algorithm <;> cases hb : b.algorithm <;> simp_all

theorem Noble.Lawful.toBytes_inj (hnoble : noble.Lawful) {a b : List UInt8} {p q : noble.Point}
    (hp : noble.fromBytes a = some p) (hq : noble.fromBytes b = some q) (h : noble.toBytes p = noble.toBytes q) :
    p = q := by
  have hread : noble.fromBytes (noble.toBytes p) = noble.fromBytes (noble.toBytes q) := by rw [h]
  rw [hnoble.toBytes_eq a p hp, hnoble.toBytes_eq b q hq, hnoble.fromBytes_sec1 a p hp,
    hnoble.fromBytes_sec1 b q hq] at hread
  exact Option.some.inj hread

theorem point_of_isKeyOf {publicKey : List UInt8} (h : isKeyOf noble publicKey .ES256 = true) :
    ∃ point, noble.fromBytes publicKey = some point ∧ noble.assertValidity point = true := by
  unfold isKeyOf at h
  obtain ⟨-, h⟩ := Bool.and_eq_true_iff.mp h
  simpa [Option.any_eq_true] using h

-- The registry's comparison of two keys of one algorithm.
theorem sameKey_iff (hnoble : noble.Lawful) {a b : RegisteredKey} (halgorithm : a.algorithm = b.algorithm)
    (ha : isKeyOf noble a.publicKey a.algorithm = true) (hb : isKeyOf noble b.publicKey b.algorithm = true) :
    sameKey noble a.publicKey b.publicKey b.algorithm = true ↔ keyOf noble a = keyOf noble b := by
  obtain ⟨algorithm, a⟩ := a
  obtain ⟨_, b⟩ := b
  simp only at halgorithm
  subst halgorithm
  cases algorithm with
  | ED25519 => simp [sameKey, keyOf]
  | ES256 =>
      obtain ⟨p, hp, -⟩ := point_of_isKeyOf ha
      obtain ⟨q, hq, -⟩ := point_of_isKeyOf hb
      simp only [sameKey, keyOf, hp, hq, decide_eq_true_eq, Key.p256.injEq, Option.some.injEq]
      constructor
      · exact hnoble.toBytes_inj hp hq
      · intro h
        rw [h]

end

namespace KeyRegistry

section

variable (noble : Noble)

def bindings (registry : KeyRegistry) (keyId : JsString) : Option (Key noble.Point) :=
  (registry.get keyId).map (keyOf noble)

structure Registrable (entry : JsString × RegisteredKey) : Prop where
  named : entry.1.length ≠ 0
  isKey : isKeyOf noble entry.2.publicKey entry.2.algorithm = true

structure Sound (registry : KeyRegistry) : Prop where
  nodup : registry.keys.keys.Nodup
  registrable : ∀ keyId entry, registry.get keyId = some entry → Registrable noble (keyId, entry)
  revokedBound : ∀ keyId, registry.isRevoked keyId = true → (registry.get keyId).isSome = true

-- What no operation undoes.
structure Keeps (registry next : KeyRegistry) : Prop where
  role : next.role = registry.role
  bindings : ∀ keyId key, registry.bindings noble keyId = some key → next.bindings noble keyId = some key
  revoked : ∀ keyId, registry.isRevoked keyId = true → next.isRevoked keyId = true

def keyed (entry : JsString × RegisteredKey) : JsString × Key noble.Point := (entry.1, keyOf noble entry.2)

end

variable {P : Primitives} {noble : Noble} {registry next : KeyRegistry} {keyId : JsString} {entry : RegisteredKey}
  {entries : List (JsString × RegisteredKey)}

theorem Keeps.refl : Keeps noble registry registry := ⟨rfl, fun _ _ h => h, fun _ h => h⟩

theorem Keeps.trans {later : KeyRegistry} (h : Keeps noble registry next) (h' : Keeps noble next later) :
    Keeps noble registry later :=
  ⟨h'.role.trans h.role, fun keyId key hkey => h'.bindings keyId key (h.bindings keyId key hkey),
    fun keyId hkey => h'.revoked keyId (h.revoked keyId hkey)⟩

theorem sound_new (role : KeyRole) : (new role).Sound noble := by
  refine ⟨List.nodup_nil, fun keyId entry hget => ?_, fun keyId hrevoked => ?_⟩
  · cases hget
  · simp [new, isRevoked] at hrevoked

theorem accepts_iff (hnoble : noble.Lawful) (hsound : registry.Sound noble) :
    Accepts noble registry keyId entry ↔ Registrable noble (keyId, entry) ∧
      ∀ key, registry.bindings noble keyId = some key → key = keyOf noble entry := by
  constructor
  · intro h
    refine ⟨⟨h.named, h.isKey⟩, fun key hkey => ?_⟩
    obtain ⟨existing, hget, rfl⟩ := Option.map_eq_some_iff.mp hkey
    obtain ⟨halgorithm, hsame⟩ := h.sameAsBound existing hget
    exact (sameKey_iff hnoble halgorithm (hsound.registrable keyId existing hget).isKey h.isKey).mp hsame
  · rintro ⟨h, hbound⟩
    refine ⟨h.named, h.isKey, fun existing hget => ?_⟩
    have hkey : keyOf noble existing = keyOf noble entry := hbound _ (by rw [bindings, hget]; rfl)
    have halgorithm := algorithm_of_keyOf hkey
    exact ⟨halgorithm, (sameKey_iff hnoble halgorithm (hsound.registrable keyId existing hget).isKey h.isKey).mpr hkey⟩

theorem get_bound (other : JsString) :
    (registry.bound keyId entry).get other = if keyId = other then some entry else registry.get other :=
  OrderedMap.get_set registry.keys keyId other entry

theorem sound_bound (hsound : registry.Sound noble) (h : Registrable noble (keyId, entry)) :
    (registry.bound keyId entry).Sound noble := by
  refine ⟨OrderedMap.nodup_keys_set hsound.nodup keyId entry, fun other found hget => ?_, fun other hrevoked => ?_⟩
  · rw [get_bound] at hget
    by_cases hk : keyId = other
    · rw [if_pos hk] at hget
      rw [← Option.some.inj hget, ← hk]
      exact h
    · rw [if_neg hk] at hget
      exact hsound.registrable other found hget
  · rw [get_bound]
    by_cases hk : keyId = other
    · rw [if_pos hk]
      rfl
    · rw [if_neg hk]
      exact hsound.revokedBound other hrevoked

theorem adds_bound (h : ∀ key, registry.bindings noble keyId = some key → key = keyOf noble entry) :
    WriteOnce.Adds (registry.bindings noble) [keyed noble (keyId, entry)] ((registry.bound keyId entry).bindings noble) := by
  have hsame : (registry.bound keyId entry).bindings noble =
      fun other => if keyId = other then some (keyOf noble entry) else registry.bindings noble other := by
    funext other
    rw [bindings, get_bound]
    by_cases hk : keyId = other
    · rw [if_pos hk, if_pos hk]
      rfl
    · rw [if_neg hk, if_neg hk]
      rfl
  rw [hsame]
  exact WriteOnce.adds_update h

-- Registering a list of entries binds all of them, or stops where one does not fit.
theorem registerAll_ok (hnoble : noble.Lawful) (hsound : registry.Sound noble)
    (h : registerAll P noble entries registry = .ok () next) :
    next.Sound noble ∧ (∀ entry ∈ entries, Registrable noble entry) ∧
      WriteOnce.Adds (registry.bindings noble) (entries.map (keyed noble)) (next.bindings noble) := by
  induction entries generalizing registry with
  | nil =>
      cases h
      exact ⟨hsound, by simp, WriteOnce.Adds.refl _⟩
  | cons entry rest ih =>
      have hname := SignatureAlgorithm.named_text entry.2.algorithm
      unfold registerAll at h
      by_cases haccepts : Accepts noble registry entry.1 entry.2
      · rw [Method.bind_of_ok (register_accepts hname haccepts)] at h
        obtain ⟨hregistrable, hbound⟩ := (accepts_iff hnoble hsound).mp haccepts
        obtain ⟨hnext, hrest, hadds⟩ := ih (sound_bound hsound hregistrable) h
        refine ⟨hnext, fun other ho => ?_, (adds_bound hbound).trans hadds⟩
        rcases List.mem_cons.mp ho with rfl | hm
        · exact hregistrable
        · exact hrest other hm
      · have hrefused : ∀ algorithm, SignatureAlgorithm.named entry.2.algorithm.text = some algorithm →
            ¬Accepts noble registry entry.1 ⟨algorithm, entry.2.publicKey⟩ := by
          intro algorithm halgorithm
          rw [hname] at halgorithm
          rwa [← Option.some.inj halgorithm]
        obtain ⟨e, herror⟩ := register_refuses (P := P) hrefused
        rw [Method.bind_of_error herror] at h
        cases h

theorem registerAll_succeeds (hnoble : noble.Lawful) (hsound : registry.Sound noble)
    (hregistrable : ∀ entry ∈ entries, Registrable noble entry) {after : JsString → Option (Key noble.Point)}
    (hadds : WriteOnce.Adds (registry.bindings noble) (entries.map (keyed noble)) after) :
    ∃ next, registerAll P noble entries registry = .ok () next := by
  induction entries generalizing registry with
  | nil => exact ⟨registry, rfl⟩
  | cons entry rest ih =>
      obtain ⟨middle, hone, hrest⟩ := WriteOnce.adds_cons_iff.mp hadds
      have haccepts := (accepts_iff hnoble hsound).mpr ⟨hregistrable entry (by simp), hone.fits⟩
      have hmiddle := hone.unique (adds_bound hone.fits)
      rw [hmiddle] at hrest
      obtain ⟨next, hnext⟩ := ih (sound_bound hsound (hregistrable entry (by simp)))
        (fun other ho => hregistrable other (by simp [ho])) hrest
      refine ⟨next, ?_⟩
      unfold registerAll
      rw [Method.bind_of_ok (register_accepts (SignatureAlgorithm.named_text entry.2.algorithm) haccepts)]
      exact hnext

-- The registry's own entries register in an empty one, and give the same bindings.
theorem adds_entries (hsound : registry.Sound noble) (role : KeyRole) :
    WriteOnce.Adds ((new role).bindings noble) (registry.keys.entries.map (keyed noble)) (registry.bindings noble) := by
  refine ⟨fun keyId key hkey => ?_, fun pair hpair => ?_, fun keyId key hkey => ?_⟩
  · cases hkey
  · obtain ⟨entry, hentry, rfl⟩ := List.mem_map.mp hpair
    have hget : registry.get entry.1 = some entry.2 := (OrderedMap.mem_entries_iff hsound.nodup entry.1 entry.2).mp hentry
    show (registry.get entry.1).map (keyOf noble) = some (keyOf noble entry.2)
    rw [hget]
    rfl
  · obtain ⟨entry, hget, rfl⟩ := Option.map_eq_some_iff.mp hkey
    exact Or.inr (List.mem_map.mpr ⟨(keyId, entry), (OrderedMap.mem_entries_iff hsound.nodup keyId entry).mpr hget, rfl⟩)

theorem registrable_entries (hsound : registry.Sound noble) :
    ∀ entry ∈ registry.keys.entries, Registrable noble entry := fun entry hentry =>
  hsound.registrable entry.1 entry.2 ((OrderedMap.mem_entries_iff hsound.nodup entry.1 entry.2).mp hentry)

theorem map_keyed_binding (entries : List JwkEntry) :
    (entries.map JwkEntry.binding).map (keyed noble) = entries.map (JwkEntry.keyed noble) := by
  rw [List.map_map]
  rfl

-- A key_id is revoked after a set was loaded where it was before, or the set says so.
theorem mem_foldl_addRevoked (entries : List JwkEntry) (revoked : List JsString) :
    keyId ∈ entries.foldl addRevoked revoked ↔
      keyId ∈ revoked ∨ ∃ entry ∈ entries, entry.revoked = true ∧ entry.keyId = keyId := by
  induction entries generalizing revoked with
  | nil => simp
  | cons entry rest ih =>
      have hone : keyId ∈ addRevoked revoked entry ↔ keyId ∈ revoked ∨ entry.revoked = true ∧ entry.keyId = keyId := by
        unfold addRevoked
        by_cases hrevoked : entry.revoked = true
        · rw [if_pos hrevoked, mem_addTo, and_iff_right hrevoked, eq_comm]
        · rw [if_neg hrevoked, or_iff_left fun h => hrevoked h.1]
      rw [List.foldl_cons, ih, hone, or_assoc, List.exists_mem_cons_iff]

-- What a load that succeeds has read and done.
structure Loaded (P : Primitives) (noble : Noble) (registry : KeyRegistry) (document : Option Json)
    (entries : List JwkEntry) (next : KeyRegistry) : Prop where
  read : readJwks P noble registry.role document = .ok entries
  registrable : ∀ entry ∈ entries, Registrable noble entry.binding
  adds : WriteOnce.Adds (registry.bindings noble) (entries.map (JwkEntry.keyed noble)) (next.bindings noble)
  role : next.role = registry.role
  revoked : ∀ keyId, next.isRevoked keyId = true ↔
    registry.isRevoked keyId = true ∨ ∃ entry ∈ entries, entry.revoked = true ∧ entry.keyId = keyId
  sound : next.Sound noble

section

variable {document : Option Json} {loaded : List JwkEntry}

theorem loadJwks_cases (P : Primitives) (noble : Noble) (registry : KeyRegistry) (document : Option Json) :
    (∃ e, loadJwks P noble document registry = .error e registry) ∨
      ∃ entries rehearsal, readJwks P noble registry.role document = .ok entries ∧
        registerAll P noble (registry.keys.entries ++ entries.map JwkEntry.binding) (new registry.role) = .ok () rehearsal ∧
        loadJwks P noble document registry =
          .ok () { registry with keys := rehearsal.keys, revoked := entries.foldl addRevoked registry.revoked } := by
  unfold loadJwks
  rw [Method.bind_of_ok Method.get_apply]
  cases hread : readJwks P noble registry.role document with
  | error e => exact Or.inl ⟨e, rfl⟩
  | ok entries =>
      cases hrehearsal :
          registerAll P noble (registry.keys.entries ++ entries.map JwkEntry.binding) (new registry.role) with
      | error e rehearsal =>
          simp only [hrehearsal]
          exact Or.inl ⟨e, rfl⟩
      | ok _ rehearsal =>
          simp only [hrehearsal]
          exact Or.inr ⟨entries, rehearsal, rfl, hrehearsal, rfl⟩

theorem loadJwks_ok (hnoble : noble.Lawful) (hsound : registry.Sound noble)
    (h : loadJwks P noble document registry = .ok () next) :
    ∃ entries, Loaded P noble registry document entries next := by
  rcases loadJwks_cases P noble registry document with
    ⟨e, herror⟩ | ⟨entries, rehearsal, hread, hall, hok⟩
  · rw [herror] at h
    cases h
  · rw [hok] at h
    cases h
    obtain ⟨hrehearsal, hregistrable, hadds⟩ := registerAll_ok hnoble (sound_new registry.role) hall
    rw [List.map_append, map_keyed_binding] at hadds
    obtain ⟨middle, hown, hset⟩ := hadds.split
    rw [hown.unique (adds_entries hsound registry.role)] at hset
    have hmem (keyId : JsString) : keyId ∈ entries.foldl addRevoked registry.revoked ↔
        registry.isRevoked keyId = true ∨ ∃ entry ∈ entries, entry.revoked = true ∧ entry.keyId = keyId := by
      rw [mem_foldl_addRevoked, isRevoked, decide_eq_true_eq]
    refine ⟨entries, hread, fun entry he => ?_, hset, rfl, fun keyId => ?_, ?_⟩
    · exact hregistrable entry.binding (List.mem_append_right _ (List.mem_map_of_mem he))
    · rw [isRevoked, decide_eq_true_eq]
      exact hmem keyId
    · refine ⟨hrehearsal.nodup, hrehearsal.registrable, fun keyId hrevoked => ?_⟩
      rw [isRevoked, decide_eq_true_eq] at hrevoked
      have hbound : (rehearsal.bindings noble keyId).isSome = true := by
        rcases (hmem keyId).mp hrevoked with hown | ⟨entry, he, -, rfl⟩
        · obtain ⟨bound, hget⟩ := Option.isSome_iff_exists.mp (hsound.revokedBound keyId hown)
          have hkey : registry.bindings noble keyId = some (keyOf noble bound) := by
            rw [bindings, hget]
            rfl
          exact Option.isSome_iff_exists.mpr ⟨_, hset.kept keyId _ hkey⟩
        · exact Option.isSome_iff_exists.mpr ⟨_, hset.added (entry.keyed noble) (List.mem_map_of_mem he)⟩
      rwa [bindings, Option.isSome_map] at hbound

theorem loadJwks_succeeds (hnoble : noble.Lawful) (hsound : registry.Sound noble)
    (hread : readJwks P noble registry.role document = .ok loaded)
    (hregistrable : ∀ entry ∈ loaded, Registrable noble entry.binding) {after : JsString → Option (Key noble.Point)}
    (hadds : WriteOnce.Adds (registry.bindings noble) (loaded.map (JwkEntry.keyed noble)) after) :
    ∃ next, loadJwks P noble document registry = .ok () next := by
  have hall : ∀ entry ∈ registry.keys.entries ++ loaded.map JwkEntry.binding, Registrable noble entry := by
    intro entry hentry
    rcases List.mem_append.mp hentry with hm | hm
    · exact registrable_entries hsound entry hm
    · obtain ⟨jwk, hjwk, rfl⟩ := List.mem_map.mp hm
      exact hregistrable jwk hjwk
  have htotal := (adds_entries hsound registry.role).trans hadds
  rw [← map_keyed_binding, ← List.map_append] at htotal
  obtain ⟨rehearsal, hrehearsal⟩ := registerAll_succeeds (P := P) hnoble (sound_new registry.role) hall htotal
  unfold loadJwks
  rw [Method.bind_of_ok Method.get_apply]
  simp only [hread, hrehearsal]
  exact ⟨_, rfl⟩

end

-- One call on a registry.
inductive Operation where
  | register (keyId : JsString) (publicKey : List UInt8) (algorithm : JsString)
  | registerToolKey (keyId : JsString) (publicKey : List UInt8)
  | loadJwks (document : Option Json)
  | revoke (keyId : JsString)

def Operation.run (P : Primitives) (noble : Noble) : Operation → RegistryM Unit
  | .register keyId publicKey algorithm => KeyRegistry.register P noble keyId publicKey algorithm
  | .registerToolKey keyId publicKey => KeyRegistry.registerToolKey P noble keyId publicKey
  | .loadJwks document => KeyRegistry.loadJwks P noble document
  | .revoke keyId => KeyRegistry.revoke keyId

-- The registry as a call leaves it, whether it returned or threw.
def left : EStateM.Result JsError KeyRegistry Unit → KeyRegistry
  | .ok _ next => next
  | .error _ next => next

def after (P : Primitives) (noble : Noble) (operations : List Operation) (registry : KeyRegistry) : KeyRegistry :=
  operations.foldl (fun registry operation => left (operation.run P noble registry)) registry

theorem register_step (hnoble : noble.Lawful) (hsound : registry.Sound noble) (publicKey : List UInt8) (name : JsString) :
    (∃ e, register P noble keyId publicKey name registry = .error e registry) ∨
      ∃ next, register P noble keyId publicKey name registry = .ok () next ∧ next.Sound noble ∧
        Keeps noble registry next := by
  by_cases h : ∃ algorithm, SignatureAlgorithm.named name = some algorithm ∧
      Accepts noble registry keyId ⟨algorithm, publicKey⟩
  · obtain ⟨algorithm, hname, haccepts⟩ := h
    obtain ⟨hregistrable, hbound⟩ := (accepts_iff hnoble hsound).mp haccepts
    exact Or.inr ⟨_, register_accepts hname haccepts, sound_bound hsound hregistrable, rfl, (adds_bound hbound).kept,
      fun _ hrevoked => hrevoked⟩
  · exact Or.inl (register_refuses fun algorithm hname haccepts => h ⟨algorithm, hname, haccepts⟩)

theorem revoke_step (hsound : registry.Sound noble) :
    (∃ e, revoke keyId registry = .error e registry) ∨
      ∃ next, revoke keyId registry = .ok () next ∧ next.Sound noble ∧ Keeps noble registry next := by
  unfold revoke
  rw [Method.bind_of_ok Method.get_apply]
  by_cases hhas : registry.keys.has keyId = false
  · rw [if_pos hhas]
    exact Or.inl ⟨_, rfl⟩
  · rw [if_neg hhas]
    refine Or.inr ⟨_, rfl, ⟨hsound.nodup, hsound.registrable, fun other hother => ?_⟩, rfl, fun _ _ h => h,
      fun other hother => ?_⟩
    · rw [isRevoked, decide_eq_true_eq, mem_addTo] at hother
      rcases hother with hm | rfl
      · exact hsound.revokedBound other (by rwa [isRevoked, decide_eq_true_eq])
      · show (registry.keys.get other).isSome = true
        simpa only [OrderedMap.has, Bool.not_eq_false] using hhas
    · rw [isRevoked, decide_eq_true_eq] at hother ⊢
      exact (mem_addTo _ _ _).mpr (Or.inl hother)

-- A call that throws leaves the registry as it was; one that returns undoes nothing.
theorem operation_step (hnoble : noble.Lawful) (hsound : registry.Sound noble) (operation : Operation) :
    (∃ e, operation.run P noble registry = .error e registry) ∨
      ∃ next, operation.run P noble registry = .ok () next ∧ next.Sound noble ∧ Keeps noble registry next := by
  cases operation with
  | register keyId publicKey name => exact register_step hnoble hsound publicKey name
  | registerToolKey keyId publicKey => exact register_step hnoble hsound publicKey SignatureAlgorithm.ED25519.text
  | revoke keyId => exact revoke_step hsound
  | loadJwks document =>
      rcases loadJwks_cases P noble registry document with
        hthrows | ⟨entries, rehearsal, -, -, hok⟩
      · exact Or.inl hthrows
      · obtain ⟨loaded, h⟩ := loadJwks_ok hnoble hsound hok
        exact Or.inr ⟨_, hok, h.sound, h.role, h.adds.kept, fun keyId hrevoked =>
          (h.revoked keyId).mpr (Or.inl hrevoked)⟩

theorem after_keeps (hnoble : noble.Lawful) (operations : List Operation) (hsound : registry.Sound noble) :
    (registry.after P noble operations).Sound noble ∧ Keeps noble registry (registry.after P noble operations) := by
  induction operations generalizing registry with
  | nil => exact ⟨hsound, Keeps.refl⟩
  | cons operation rest ih =>
      unfold after
      rw [List.foldl_cons]
      rcases operation_step (P := P) hnoble hsound operation with ⟨e, herror⟩ | ⟨next, hok, hnext, hkeeps⟩
      · rw [herror]
        exact ih hsound
      · rw [hok]
        exact ⟨(ih hnext).1, hkeeps.trans (ih hnext).2⟩

theorem readJwks_ok {role : KeyRole} {document : Option Json} {entries : List JwkEntry}
    (h : readJwks P noble role document = .ok entries) :
    ∃ keys, document.bind (fun set => set.get "keys") = some (.arr keys) ∧
      (∀ key ∈ keys, ∃ members, key = .obj members) ∧ keys.mapM (publicKeyOf P noble) = .ok entries ∧
      ∀ entry ∈ entries, entry.role = role := by
  unfold readJwks at h
  split at h
  · rename_i keys hkeys
    split at h
    · cases h
    · rename_i hobjects
      obtain ⟨found, hfound, h⟩ := bind_ok h
      split at h
      · cases h
      · rename_i hnone
        obtain rfl := pure_ok h
        refine ⟨keys, hkeys, fun key hkey => ?_, hfound, fun entry he => by simpa using List.find?_eq_none.mp hnone entry he⟩
        rw [Bool.not_eq_false] at hobjects
        have hobject := List.all_eq_true.mp hobjects key hkey
        cases key with
        | obj members => exact ⟨members, rfl⟩
        | null | bool _ | num _ | str _ | arr _ => cases hobject
  · cases h

-- What makes a member of a set one the registry cannot take.
inductive Refused (P : Primitives) (noble : Noble) (registry : KeyRegistry) (keys : List Json) (member : Json) : Prop where
  | notObject (h : ∀ members, member ≠ .obj members)
  | malformed (e : JsError) (h : publicKeyOf P noble member = .error e)
  | foreign (entry : JwkEntry) (h : publicKeyOf P noble member = .ok entry) (hrole : entry.role ≠ registry.role)
  | notKey (entry : JwkEntry) (h : publicKeyOf P noble member = .ok entry)
      (hkey : isKeyOf noble entry.publicKey entry.algorithm = false)
  | conflicting (entry : JwkEntry) (h : publicKeyOf P noble member = .ok entry) (key : Key noble.Point)
      (hbound : registry.bindings noble entry.keyId = some key) (hne : key ≠ keyOf noble entry.binding.2)
  | repeated (entry other : JwkEntry) (h : publicKeyOf P noble member = .ok entry)
      (hother : ∃ second ∈ keys, publicKeyOf P noble second = .ok other) (hid : other.keyId = entry.keyId)
      (hne : keyOf noble other.binding.2 ≠ keyOf noble entry.binding.2)

-- One member that is refused, and the whole set is.
theorem loadJwks_refused (hnoble : noble.Lawful) (hsound : registry.Sound noble) {document : Option Json}
    {keys : List Json} (hkeys : document.bind (fun set => set.get "keys") = some (.arr keys)) {member : Json}
    (hmember : member ∈ keys) (hrefused : Refused P noble registry keys member) :
    ∃ e, loadJwks P noble document registry = .error e registry := by
  rcases loadJwks_cases P noble registry document with
    hthrows | ⟨_, rehearsal, -, -, hok⟩
  · exact hthrows
  obtain ⟨entries, hloaded⟩ := loadJwks_ok hnoble hsound hok
  obtain ⟨read, hread, hobjects, hentries, hroles⟩ := readJwks_ok hloaded.read
  rw [hkeys] at hread
  obtain rfl : keys = read := by simpa using hread
  have hmem {jwk : Json} (hjwk : jwk ∈ keys) {entry : JwkEntry} (h : publicKeyOf P noble jwk = .ok entry) :
      entry ∈ entries := by
    obtain ⟨found, hfound, hfind⟩ := mapM_ok_mem hentries jwk hjwk
    rw [h] at hfind
    rwa [Except.ok.inj hfind]
  cases hrefused with
  | notObject h =>
      obtain ⟨members, rfl⟩ := hobjects member hmember
      exact absurd rfl (h members)
  | malformed e h =>
      obtain ⟨entry, -, hentry⟩ := mapM_ok_mem hentries member hmember
      rw [h] at hentry
      cases hentry
  | foreign entry h hrole => exact absurd (hroles entry (hmem hmember h)) hrole
  | notKey entry h hkey =>
      have hisKey : isKeyOf noble entry.publicKey entry.algorithm = true := (hloaded.registrable entry (hmem hmember h)).isKey
      rw [hkey] at hisKey
      cases hisKey
  | conflicting entry h key hbound hne =>
      have hkept := hloaded.adds.kept entry.keyId key hbound
      have hadded := hloaded.adds.added (entry.keyed noble) (List.mem_map_of_mem (hmem hmember h))
      exact absurd (Option.some.inj (hkept.symm.trans hadded)) hne
  | repeated entry other h hother hid hne =>
      obtain ⟨second, hsecond, hother⟩ := hother
      have hfirst := hloaded.adds.added (entry.keyed noble) (List.mem_map_of_mem (hmem hmember h))
      have hagain := hloaded.adds.added (other.keyed noble) (List.mem_map_of_mem (hmem hsecond hother))
      rw [show (other.keyed noble).1 = (entry.keyed noble).1 from hid] at hagain
      exact absurd (Option.some.inj (hagain.symm.trans hfirst)) hne

-- A binding and a revocation are for ever, every key is one of its algorithm, and what throws
-- changes nothing.
theorem keyRegistry_lifecycle (hnoble : noble.Lawful) (role : KeyRole) (operations further : List Operation) :
    let registry := (new role).after P noble operations
    let later := registry.after P noble further
    (∀ keyId key, registry.bindings noble keyId = some key → later.bindings noble keyId = some key) ∧
    (∀ keyId, registry.isRevoked keyId = true → later.isRevoked keyId = true ∧ (later.get keyId).isSome = true) ∧
    (∀ keyId entry, registry.get keyId = some entry → isKeyOf noble entry.publicKey entry.algorithm = true) ∧
    registry.role = role ∧
    (∀ operation e next, Operation.run P noble operation registry = .error e next → next = registry) ∧
    (∀ document next, loadJwks P noble document registry = .ok () next →
      ∃ keys, document.bind (fun set => set.get "keys") = some (.arr keys) ∧ ∀ member ∈ keys,
        ∃ entry, publicKeyOf P noble member = .ok entry ∧ entry.role = role ∧
          next.bindings noble entry.keyId = some (keyOf noble entry.binding.2)) ∧
    ∀ (document : Option Json) (keys : List Json), document.bind (fun set => set.get "keys") = some (.arr keys) →
      (∃ member ∈ keys, Refused P noble registry keys member) →
      ∃ e, loadJwks P noble document registry = .error e registry := by
  intro registry later
  obtain ⟨hsound, hkeeps⟩ := after_keeps (P := P) hnoble operations (sound_new role)
  obtain ⟨hlater, hkept⟩ := after_keeps (P := P) hnoble further hsound
  refine ⟨hkept.bindings, fun keyId hrevoked => ?_, fun keyId entry hget => (hsound.registrable keyId entry hget).isKey,
    hkeeps.role, fun operation e next herror => ?_, fun document next hok => ?_, fun document keys hkeys => ?_⟩
  · exact ⟨hkept.revoked keyId hrevoked, hlater.revokedBound keyId (hkept.revoked keyId hrevoked)⟩
  · rcases operation_step (P := P) hnoble hsound operation with ⟨_, hthrows⟩ | ⟨_, hok, -⟩
    · rw [hthrows] at herror
      cases herror
      rfl
    · rw [hok] at herror
      cases herror
  · obtain ⟨entries, hloaded⟩ := loadJwks_ok hnoble hsound hok
    obtain ⟨keys, hkeys, -, hentries, hroles⟩ := readJwks_ok hloaded.read
    refine ⟨keys, hkeys, fun member hmember => ?_⟩
    obtain ⟨entry, hentry, hread⟩ := mapM_ok_mem hentries member hmember
    exact ⟨entry, hread, (hroles entry hentry).trans hkeeps.role,
      hloaded.adds.added (entry.keyed noble) (List.mem_map_of_mem hentry)⟩
  · rintro ⟨member, hmember, hrefused⟩
    exact loadJwks_refused hnoble hsound hkeys hmember hrefused

section

open Reference

def GENERATOR_KEY : JsString := "host-key-1"

-- The generator again, by its coordinates and revoked.
def generatorSet : Json :=
  .obj [("keys", .arr [jwkOf GENERATOR_KEY .ES256 [("x", "axfR8uEsQkf4vOblY6RA8ncDfYEt6zOg9KE5RdiYwpY"),
    ("y", "T-NC4v4af5uO5-tKfA-eFivOM1drMV7Oy7ZAaDe_UfU")] .HOST true])]

theorem generator_stays_revoked :
    let registry := (new .HOST).after primitives curves
      [.register GENERATOR_KEY generatorBytes "ES256", .loadJwks (some generatorSet)]
    let later := registry.after primitives curves [.register GENERATOR_KEY [] "Ed25519", .loadJwks none]
    later.isRevoked GENERATOR_KEY = true ∧ (later.get GENERATOR_KEY).isSome = true :=
  (keyRegistry_lifecycle curves_lawful .HOST
    [.register GENERATOR_KEY generatorBytes "ES256", .loadJwks (some generatorSet)]
    [.register GENERATOR_KEY [] "Ed25519", .loadJwks none]).2.1 GENERATOR_KEY (by decide +kernel)

end

end KeyRegistry

end AuditableMcp
