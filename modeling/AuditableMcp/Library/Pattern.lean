import Mathlib.Data.List.Basic

-- Regular expressions as their sources write them, matched by derivatives. A
-- character class is a list of ranges, and a derivative is pruned as it is taken,
-- so that matching a text is a computation of its length.
inductive Pattern (α : Type) where
  | never
  | done
  | among (ranges : List (α × α))
  | either (p q : Pattern α)
  | seq (p q : Pattern α)
  | star (p : Pattern α)

namespace Pattern

variable {α : Type} [LE α] [DecidableLE α]

def inRanges (ranges : List (α × α)) (c : α) : Bool := ranges.any fun range => range.1 ≤ c && c ≤ range.2

def alt : Pattern α → Pattern α → Pattern α
  | .never, q => q
  | p, .never => p
  | p, q => .either p q

def cat : Pattern α → Pattern α → Pattern α
  | .never, _ => .never
  | .done, q => q
  | p, q => .seq p q

def nullable : Pattern α → Bool
  | .never => false
  | .done => true
  | .among _ => false
  | .either p q => nullable p || nullable q
  | .seq p q => nullable p && nullable q
  | .star _ => true

def derive (c : α) : Pattern α → Pattern α
  | .never => .never
  | .done => .never
  | .among ranges => if inRanges ranges c then .done else .never
  | .either p q => alt (derive c p) (derive c q)
  | .seq p q =>
      if nullable p then alt (cat (derive c p) q) (derive c q) else cat (derive c p) q
  | .star p => cat (derive c p) (.star p)

def test (p : Pattern α) : List α → Bool
  | [] => nullable p
  | c :: rest => test (derive c p) rest

def many (p : Pattern α) : Pattern α := .seq p (.star p)

def optional (p : Pattern α) : Pattern α := .either .done p

def times (p : Pattern α) : Nat → Pattern α
  | 0 => .done
  | n + 1 => .seq p (times p n)

def all (patterns : List (Pattern α)) : Pattern α := patterns.foldr .seq .done

def any (patterns : List (Pattern α)) : Pattern α := patterns.foldr .either .never

def literal (text : List α) : Pattern α := all (text.map fun c => .among [(c, c)])

-- The characters the classes of a pattern contain.
def allows (c : α) : Pattern α → Bool
  | .never => false
  | .done => false
  | .among ranges => inRanges ranges c
  | .either p q => allows c p || allows c q
  | .seq p q => allows c p || allows c q
  | .star p => allows c p

theorem allows_alt (p q : Pattern α) (d : α) (h : allows d (alt p q) = true) :
    allows d p = true ∨ allows d q = true := by
  cases p <;> cases q <;> simp_all [alt, allows]

theorem allows_cat (p q : Pattern α) (d : α) (h : allows d (cat p q) = true) :
    allows d p = true ∨ allows d q = true := by
  cases p <;> simp_all [cat, allows]

-- A derivative uses no character its pattern does not.
theorem allows_of_derive (p : Pattern α) (c d : α) (h : allows d (derive c p) = true) : allows d p = true := by
  induction p with
  | never => exact h
  | done => simp [derive, allows] at h
  | among ranges =>
      simp only [derive] at h
      split at h <;> simp [allows] at h
  | either p q ihp ihq =>
      rcases allows_alt _ _ d h with h | h
      · simp [allows, ihp h]
      · simp [allows, ihq h]
  | seq p q ihp ihq =>
      have hcat (h : allows d (cat (derive c p) q) = true) : allows d (.seq p q) = true := by
        rcases allows_cat _ _ d h with h | h
        · simp [allows, ihp h]
        · simp [allows, h]
      simp only [derive] at h
      split at h
      · rcases allows_alt _ _ d h with h | h
        · exact hcat h
        · simp [allows, ihq h]
      · exact hcat h
  | star p ih =>
      rcases allows_cat _ _ d h with h | h
      · exact ih h
      · exact h

-- A character outside every class leaves nothing to match.
theorem derive_eq_never (p : Pattern α) (c : α) (h : allows c p = false) : derive c p = .never := by
  induction p with
  | never => rfl
  | done => rfl
  | among ranges => simp [derive, show inRanges ranges c = false from h]
  | either p q ihp ihq =>
      simp only [allows, Bool.or_eq_false_iff] at h
      simp [derive, ihp h.1, ihq h.2, alt]
  | seq p q ihp ihq =>
      simp only [allows, Bool.or_eq_false_iff] at h
      simp [derive, ihp h.1, ihq h.2, alt, cat]
  | star p ih => simp [derive, ih h, cat]

theorem test_never (word : List α) : test (.never : Pattern α) word = false := by
  induction word with
  | nil => rfl
  | cons c rest ih => exact ih

-- A text a pattern matches has no character but the pattern's own.
theorem allows_of_test (word : List α) (p : Pattern α) (h : test p word = true) (d : α) (hd : d ∈ word) :
    allows d p = true := by
  induction word generalizing p with
  | nil => cases hd
  | cons c rest ih =>
      rcases List.mem_cons.mp hd with rfl | hd
      · by_contra hn
        simp [test, derive_eq_never p d (by simpa using hn), test_never] at h
      · exact allows_of_derive p c d (ih (derive c p) h hd)

-- Every class of a pattern ends at a bound, or before it.
def upTo (bound : α) : Pattern α → Bool
  | .never => true
  | .done => true
  | .among ranges => ranges.all fun range => range.2 ≤ bound
  | .either p q => upTo bound p && upTo bound q
  | .seq p q => upTo bound p && upTo bound q
  | .star p => upTo bound p

theorem le_of_allows [Std.IsPreorder α] {p : Pattern α} {bound d : α} (hbound : upTo bound p = true)
    (h : allows d p = true) : d ≤ bound := by
  induction p with
  | never => cases h
  | done => cases h
  | among ranges =>
      obtain ⟨range, hmem, hrange⟩ := List.any_eq_true.mp h
      simp only [Bool.and_eq_true, decide_eq_true_eq] at hrange
      have hend := List.all_eq_true.mp hbound range hmem
      exact Std.le_trans hrange.2 (by simpa using hend)
  | either p q ihp ihq =>
      simp only [upTo, Bool.and_eq_true] at hbound
      simp only [allows, Bool.or_eq_true] at h
      exact h.elim (ihp hbound.1) (ihq hbound.2)
  | seq p q ihp ihq =>
      simp only [upTo, Bool.and_eq_true] at hbound
      simp only [allows, Bool.or_eq_true] at h
      exact h.elim (ihp hbound.1) (ihq hbound.2)
  | star p ih => exact ih hbound h

omit [LE α] [DecidableLE α] in
theorem alt_never (p : Pattern α) : alt p .never = p := by cases p <;> rfl

-- A class repeated takes any of its characters.
theorem test_star_among (ranges : List (α × α)) (word : List α) :
    test (.star (.among ranges)) word = word.all (inRanges ranges) := by
  induction word with
  | nil => rfl
  | cons c rest ih =>
      rw [test, derive, derive, List.all_cons]
      cases h : inRanges ranges c with
      | true => simpa [cat] using ih
      | false => simp [cat, test_never]

-- A class repeated before a pattern that does not share its characters takes all of them.
theorem test_star_seq (ranges : List (α × α)) (q : Pattern α) (word rest : List α)
    (hword : ∀ c ∈ word, inRanges ranges c = true ∧ allows c q = false) :
    test (.seq (.star (.among ranges)) q) (word ++ rest) = test (.seq (.star (.among ranges)) q) rest := by
  induction word with
  | nil => rfl
  | cons c word ih =>
      obtain ⟨hin, hout⟩ := hword c (by simp)
      rw [List.cons_append, test, derive, derive, derive, if_pos hin, derive_eq_never q c hout]
      simpa [nullable, cat, alt_never] using ih fun d hd => hword d (by simp [hd])

end Pattern
