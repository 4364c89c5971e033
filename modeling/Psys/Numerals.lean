import Mathlib.Algebra.Order.Ring.Nat
import Mathlib.Data.Nat.Digits.Defs
import Mathlib.Data.Nat.Notation

/-!
Numbers as rows of digits in a base, the first digit first.
-/
namespace Psys.Numerals

/-- The character of a digit. -/
def digitByte (d : Nat) : UInt8 := UInt8.ofNat d.digitChar.toNat

/-- A number in a base. -/
def numeral (base n : Nat) : List UInt8 := (Nat.toDigits base n).map (fun c => UInt8.ofNat c.toNat)

variable {base n : Nat}

theorem numeral_small (less : n < base) : numeral base n = [digitByte n] := by
  rw [numeral,Nat.toDigits_of_lt_base less]
  rfl

/-- The last digit is the remainder, the others are those of the quotient. -/
theorem numeral_step (big : 1 < base) (more : base ≤ n) :
    numeral base n = numeral base (n / base) ++ [digitByte (n % base)] := by
  rw [numeral,Nat.toDigits_of_base_le big more,List.map_append]
  rfl

theorem numeral_ne_nil : numeral base n ≠ [] := by
  rw [numeral,Ne,List.map_eq_nil_iff]
  exact Nat.toDigits_ne_nil

theorem numeral_length {e : Nat} (some : 0 < e) (less : n < base ^ e) : (numeral base n).length ≤ e := by
  rw [numeral,List.length_map]
  exact Nat.toDigits_length base n e some less

/-- Induction on the digits of a number. -/
theorem numeral_induction {P : Nat → Prop} (big : 1 < base) (one : ∀ n < base, P n)
    (more : ∀ n, base ≤ n → P (n / base) → P n) (n : Nat) : P n := by
  induction n using Nat.strong_induction_on with
  | _ n hyp =>
    by_cases less : n < base
    · exact one n less
    · exact more n (by omega) (hyp _ (Nat.div_lt_self (by omega) big))

theorem mem_numeral (big : 1 < base) : ∀ c ∈ numeral base n, ∃ d < base, c = digitByte d := by
  induction n using numeral_induction big with
  | one n less =>
    rw [numeral_small less]
    intro c there
    exact ⟨n,less,List.mem_singleton.mp there⟩
  | more n more hyp =>
    rw [numeral_step big more]
    intro c there
    rcases List.mem_append.mp there with before | last
    · exact hyp c before
    · exact ⟨n % base,Nat.mod_lt _ (by omega),List.mem_singleton.mp last⟩

/-- It begins with a digit. -/
theorem numeral_cons (big : 1 < base) (n : Nat) : ∃ d < base, ∃ rest, numeral base n = digitByte d :: rest := by
  obtain ⟨first,rest,cut⟩ := List.exists_cons_of_ne_nil (numeral_ne_nil : numeral base n ≠ [])
  have there : first ∈ numeral base n := by simp [cut]
  obtain ⟨d,less,rfl⟩ := mem_numeral big first there
  exact ⟨d,less,rest,cut⟩

/-- A number other than zero does not begin with a zero. -/
theorem numeral_head (big : 1 < base) (positive : 0 < n) :
    ∃ d rest, 0 < d ∧ d < base ∧ numeral base n = digitByte d :: rest := by
  induction n using numeral_induction big with
  | one n less => exact ⟨n,[],positive,less,numeral_small less⟩
  | more n more hyp =>
    obtain ⟨d,rest,some,less,same⟩ := hyp (Nat.div_pos more (by omega))
    exact ⟨d,rest ++ [digitByte (n % base)],some,less,by rw [numeral_step big more,same,List.cons_append]⟩

end Psys.Numerals
