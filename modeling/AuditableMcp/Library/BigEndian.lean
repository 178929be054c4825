import Mathlib.Data.Nat.Digits.Defs
import Mathlib.Tactic.Ring

-- Numbers written with a fixed count of digits, the most significant first.
namespace BigEndian

def digits (base : Nat) : Nat → Nat → List Nat
  | 0, _ => []
  | count + 1, value => digits base count (value / base) ++ [value % base]

def value (base : Nat) (written : List Nat) : Nat := written.foldl (fun read digit => read * base + digit) 0

-- Two digits at a time, from the front. A last digit without its partner is dropped.
def pairs {α : Type} : List α → List (α × α)
  | a :: b :: rest => (a, b) :: pairs rest
  | _ => []

variable {base : Nat}

theorem value_append_singleton (written : List Nat) (digit : Nat) :
    value base (written ++ [digit]) = value base written * base + digit := by
  simp [value, List.foldl_append]

@[simp] theorem length_digits (count value : Nat) : (digits base count value).length = count := by
  induction count generalizing value with
  | zero => rfl
  | succ count ih => simp [digits, ih]

theorem digits_lt (hbase : 0 < base) (count value : Nat) : ∀ digit ∈ digits base count value, digit < base := by
  induction count generalizing value with
  | zero => simp [digits]
  | succ count ih =>
      intro digit hdigit
      rcases List.mem_append.mp hdigit with hm | hm
      · exact ih (value / base) digit hm
      · rw [List.mem_singleton.mp hm]
        exact Nat.mod_lt value hbase

theorem value_digits {count number : Nat} (hlt : number < base ^ count) :
    value base (digits base count number) = number := by
  induction count generalizing number with
  | zero =>
      have hzero : number = 0 := by simpa using hlt
      rw [hzero]
      rfl
  | succ count ih =>
      have hdiv : number / base < base ^ count := Nat.div_lt_of_lt_mul (by rwa [Nat.pow_succ, Nat.mul_comm] at hlt)
      rw [digits, value_append_singleton, ih hdiv]
      exact Nat.div_add_mod' number base

theorem digits_zero (count : Nat) : digits base count 0 = List.replicate count 0 := by
  induction count with
  | zero => rfl
  | succ count ih => rw [digits, Nat.zero_div, Nat.zero_mod, ih, List.replicate_succ']

-- The digits without leading zeros, padded on the left.
theorem digits_eq_padded (hbase : 1 < base) {count number : Nat} (hlt : number < base ^ count) :
    digits base count number =
      List.replicate (count - (Nat.digits base number).length) 0 ++ (Nat.digits base number).reverse := by
  induction count generalizing number with
  | zero =>
      have hzero : number = 0 := by simpa using hlt
      simp [hzero, digits]
  | succ count ih =>
      by_cases hzero : number = 0
      · subst hzero
        simp [digits_zero]
      · have hdiv : number / base < base ^ count := Nat.div_lt_of_lt_mul (by rwa [Nat.pow_succ, Nat.mul_comm] at hlt)
        rw [Nat.digits_def' hbase (Nat.pos_of_ne_zero hzero), digits, ih hdiv, List.length_cons,
          Nat.add_sub_add_right, List.reverse_cons, List.append_assoc]

theorem pairs_append_pair {α : Type} (a b : α) :
    ∀ items : List α, items.length % 2 = 0 → pairs (items ++ [a, b]) = pairs items ++ [(a, b)]
  | [], _ => rfl
  | [_], h => by simp at h
  | first :: second :: rest, h => by
      have hrest : rest.length % 2 = 0 := by
        simp only [List.length_cons] at h
        omega
      simp [pairs, pairs_append_pair a b rest hrest]

theorem mem_of_mem_pairs {α : Type} {pair : α × α} :
    ∀ {items : List α}, pair ∈ pairs items → pair.1 ∈ items ∧ pair.2 ∈ items
  | [], h => by simp [pairs] at h
  | [_], h => by simp [pairs] at h
  | a :: b :: rest, h => by
      rcases List.mem_cons.mp h with rfl | hm
      · simp
      · have hrest := mem_of_mem_pairs hm
        simp [hrest.1, hrest.2]

theorem pairs_map {α β : Type} (f : α → β) :
    ∀ items : List α, pairs (items.map f) = (pairs items).map fun pair => (f pair.1, f pair.2)
  | [] => rfl
  | [_] => rfl
  | _ :: _ :: rest => by simp [pairs, pairs_map f rest]

-- Two digits of a base are one digit of its square.
theorem pairs_digits (count number : Nat) :
    (pairs (digits base (2 * count) number)).map (fun pair => pair.1 * base + pair.2) =
      digits (base * base) count number := by
  induction count generalizing number with
  | zero => rfl
  | succ count ih =>
      have hlast : number / base % base * base + number % base = number % (base * base) := by
        rw [Nat.mod_mul, Nat.mul_comm, Nat.add_comm]
      have hlength : (digits base (2 * count) (number / base / base)).length % 2 = 0 := by
        rw [length_digits]
        omega
      rw [Nat.mul_succ, digits, digits, List.append_assoc, List.singleton_append,
        pairs_append_pair _ _ _ hlength, List.map_append, ih, Nat.div_div_eq_div_mul, digits]
      simp [hlast]

end BigEndian
