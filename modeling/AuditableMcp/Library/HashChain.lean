import Mathlib.Data.List.Forall2
import Mathlib.Data.List.Induction

-- Chains in which every link stores the hash of its position, its body and the hash
-- stored before it. `hash` answers nothing for a body it refuses.
namespace HashChain

structure Link (B H : Type) where
  body : B
  prev : H
  hash : H

variable {B H : Type}

def tip (start : H) : List (Link B H) → H
  | [] => start
  | link :: rest => tip link.hash rest

def Linked (hash : Nat → H → B → Option H) : Nat → H → List (Link B H) → Prop
  | _, _, [] => True
  | n, start, link :: rest =>
      link.prev = start ∧ hash n start link.body = some link.hash ∧ Linked hash (n + 1) link.hash rest

def build (hash : Nat → H → B → Option H) : Nat → H → List B → Option (List (Link B H))
  | _, _, [] => some []
  | n, start, body :: rest => do
      let value ← hash n start body
      let links ← build hash (n + 1) value rest
      return ⟨body, start, value⟩ :: links

@[simp] theorem tip_nil (start : H) : tip (B := B) start [] = start := rfl

@[simp] theorem tip_append_singleton (start : H) (links : List (Link B H)) (link : Link B H) :
    tip start (links ++ [link]) = link.hash := by
  induction links generalizing start with
  | nil => rfl
  | cons head rest ih => exact ih head.hash

variable {hash : Nat → H → B → Option H}

theorem linked_append_singleton (hash : Nat → H → B → Option H) (n : Nat) (start : H) (links : List (Link B H)) (link : Link B H) :
    Linked hash n start (links ++ [link]) ↔
      Linked hash n start links ∧ link.prev = tip start links ∧
        hash (n + links.length) (tip start links) link.body = some link.hash := by
  induction links generalizing n start with
  | nil => simp [Linked]
  | cons head rest ih =>
      simp only [List.cons_append, Linked, ih, tip, List.length_cons]
      have hn : n + 1 + rest.length = n + (rest.length + 1) := by omega
      rw [hn]
      tauto

-- A list is linked exactly when it is what building over its bodies produces.
theorem linked_iff_build (n : Nat) (start : H) (links : List (Link B H)) :
    Linked hash n start links ↔ build hash n start (links.map Link.body) = some links := by
  induction links generalizing n start with
  | nil => simp [Linked, build]
  | cons link rest ih =>
      obtain ⟨body, prev, value⟩ := link
      simp only [Linked, List.map_cons, build, ih]
      cases hh : hash n start body with
      | none => simp
      | some computed =>
          simp only [Option.bind_eq_bind, Option.bind_some, Option.pure_def]
          constructor
          · rintro ⟨rfl, he, hb⟩
            obtain rfl : computed = value := Option.some.inj he
            simp [hb]
          · intro h
            cases hb : build hash (n + 1) computed (rest.map Link.body) with
            | none => simp [hb] at h
            | some links =>
                simp only [hb, Option.bind_some, Option.some.injEq, List.cons.injEq, Link.mk.injEq,
                  true_and] at h
                obtain ⟨⟨rfl, rfl⟩, rfl⟩ := h
                exact ⟨rfl, rfl, hb⟩

theorem linked_dropLast (n : Nat) (start : H) (links : List (Link B H)) (link : Link B H)
    (h : Linked hash n start (links ++ [link])) : Linked hash n start links :=
  ((linked_append_singleton hash n start links link).mp h).1

-- The commitment of a tip. A hash that never yields `genesis`, and that tells
-- positions, predecessors and bodies (up to `same`) apart, lets two chains share a
-- tip only if they share every link. The induction runs backwards from the tips, so
-- it also settles that the lengths agree.
theorem forall₂_of_tip_eq (same : B → B → Prop) {genesis : H}
    (hgenesis : ∀ n p b, hash n p b ≠ some genesis)
    (hfree : ∀ n p b n' p' b' h, hash n p b = some h → hash n' p' b' = some h →
      n = n' ∧ p = p' ∧ same b b')
    (first second : List (Link B H)) (hf : Linked hash 0 genesis first)
    (hs : Linked hash 0 genesis second) (htip : tip genesis first = tip genesis second) :
    List.Forall₂ (fun a b => same a.body b.body ∧ a.prev = b.prev ∧ a.hash = b.hash) first second := by
  induction first using List.reverseRecOn generalizing second with
  | nil =>
      cases second using List.reverseRecOn with
      | nil => exact .nil
      | append_singleton rest link =>
          obtain ⟨_, _, hh⟩ := (linked_append_singleton hash 0 genesis rest link).mp hs
          rw [tip_nil, tip_append_singleton] at htip
          rw [← htip] at hh
          exact absurd hh (hgenesis _ _ _)
  | append_singleton init link ih =>
      obtain ⟨hinit, hprev, hh⟩ := (linked_append_singleton hash 0 genesis init link).mp hf
      cases second using List.reverseRecOn with
      | nil =>
          rw [tip_nil, tip_append_singleton] at htip
          rw [htip] at hh
          exact absurd hh (hgenesis _ _ _)
      | append_singleton rest other =>
          obtain ⟨hrest, hprev', hh'⟩ := (linked_append_singleton hash 0 genesis rest other).mp hs
          rw [tip_append_singleton, tip_append_singleton] at htip
          obtain ⟨_, hp, hsame⟩ := hfree _ _ _ _ _ _ _ hh (htip ▸ hh')
          have hrec := ih rest hinit hrest hp
          exact List.rel_append hrec (.cons ⟨hsame, by rw [hprev, hprev', hp], htip⟩ .nil)

end HashChain
