import Psys.State

/-!
`strtol.c` and `strtoul.c`: how the number at the start of a text is read, in
every base.
-/
namespace Psys.Strtol
open Psys.State (ulong long)

/-- `isspace` -/
def isspace (c : Nat) : Bool := c ∈ [32,12,10,13,9,11]

/-- The value of a digit of `strtol` and `strtoul`. -/
def digit (base : Nat) (ch : UInt8) : Option Nat :=
  if 48 ≤ ch ∧ ch ≤ 57 ∧ ch.toNat - 48 < base then some (ch.toNat - 48)
  else if 97 ≤ ch ∧ ch ≤ 122 ∧ ch.toNat - 97 + 10 < base then some (ch.toNat - 97 + 10)
  else if 65 ≤ ch ∧ ch ≤ 90 ∧ ch.toNat - 65 + 10 < base then some (ch.toNat - 65 + 10)
  else none

/-- The prefix of base 16, and the base that the number is read in. -/
def chooseBase (base : Nat) (p : List UInt8) : Nat × List UInt8 :=
  let (base,p) :=
    if (base = 16 ∨ base = 0) ∧ p.getD 0 0 = 48 ∧ (p.getD 1 0 = 120 ∨ p.getD 1 0 = 88) then (16,p.drop 2)
    else (base,p)
  (if base = 0 then if p.getD 0 0 = 48 then 8 else 10 else base,p)

/-- The loop of `strtoul`, and where it ends. -/
def digits (base v : Nat) : List UInt8 → Nat × List UInt8
  | [] => (v,[])
  | ch :: p =>
    match digit base ch with
    | some d => digits base (ulong (v * base + d)) p
    | none => (v,ch :: p)

/-- `strtoul(p,&out,base)`: the value, and the text from `out` on. -/
def strtoul (base : Nat) (p : List UInt8) : Nat × List UInt8 :=
  let (base,p) := chooseBase base (p.dropWhile (fun ch => isspace ch.toNat))
  digits base 0 p

/-- The loop of `strtol`. -/
def longDigits (base : Nat) (v : Int) : List UInt8 → Int × List UInt8
  | [] => (v,[])
  | ch :: p =>
    match digit base ch with
    | some d => longDigits base (long (v * base + d)) p
    | none => (v,ch :: p)

/-- `strtol(p,&out,base)`. A plus sign is not skipped. -/
def strtol (base : Nat) (p : List UInt8) : Int × List UInt8 :=
  let p := p.dropWhile (fun ch => isspace ch.toNat)
  let isNeg := p.getD 0 0 = 45
  let (base,p) := chooseBase base (if isNeg then p.drop 1 else p)
  let (v,out) := longDigits base 0 p
  (if isNeg then long (-v) else v,out)

variable {base : Nat} {rest : List UInt8}

/-- Both loops end where there is no digit. -/
theorem digits_stop (stop : digit base (rest.headD 0) = none) (v : Nat) : digits base v rest = (v,rest) := by
  cases rest with
  | nil => rfl
  | cons ch p => rw [digits,show digit base ch = none from stop]

theorem longDigits_stop (stop : digit base (rest.headD 0) = none) (v : Int) : longDigits base v rest = (v,rest) := by
  cases rest with
  | nil => rfl
  | cons ch p => rw [longDigits,show digit base ch = none from stop]

/-- Without a prefix the base is the one that is asked for. -/
theorem chooseBase_plain (some : base ≠ 0) {p : List UInt8} (unlike : p.getD 1 0 ≠ 120 ∧ p.getD 1 0 ≠ 88) :
    chooseBase base p = (base,p) := by
  unfold chooseBase
  rw [if_neg (fun all => all.2.2.elim unlike.1 unlike.2)]
  simp only [some,if_false]

end Psys.Strtol
