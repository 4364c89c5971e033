import Psys.Directives
import Psys.Strtol

/-!
What `strtol` and `strtoul` make of the numbers that `_doprnt` prints, in every
base.
-/
namespace Psys.Readback
open Psys.State (long long_small)
open Psys.Numerals Psys.Formats Psys.Directives
open Psys.Strtol

/-! ### Digits -/

variable {base u : Nat}

theorem digit_digitByte (small : base ≤ 16) {d : Nat} (less : d < base) : digit base (digitByte d) = some d := by
  have all : ∀ b : Fin 17, ∀ i : Fin 16, i.val < b.val → digit b.val (digitByte i.val) = some i.val := by decide
  exact all ⟨base,by omega⟩ ⟨d,by omega⟩ less

theorem digit_blank (base : Nat) : digit base 32 = none := by
  simp [digit]

/-- What is behind a number. -/
theorem digit_blanks (base k : Nat) : digit base ((List.replicate k 32).headD 0) = none := by
  cases k with
  | zero => simp [digit]
  | succ k => exact digit_blank base

/-- `strtoul` reads the digits of a word. -/
theorem digits_numeral (big : 2 ≤ base) (small : base ≤ 16) (word : u < 4294967296) :
    ∀ rest, digits base 0 (numeral base u ++ rest) = digits base u rest := by
  induction u using numeral_induction (show 1 < base by omega) with
  | one u less =>
    intro rest
    rw [numeral_small less,List.singleton_append,digits,digit_digitByte small less]
    simp only [State.ulong,Nat.zero_mul,Nat.zero_add,Nat.mod_eq_of_lt word]
  | more u more hyp =>
    intro rest
    have digit : u % base < base := Nat.mod_lt _ (by omega)
    have fewer : u / base < 4294967296 := lt_of_le_of_lt (Nat.div_le_self u base) word
    rw [numeral_step (by omega) more,List.append_assoc,hyp fewer,List.singleton_append,digits,
      digit_digitByte small digit]
    simp only [State.ulong,Nat.div_add_mod',Nat.mod_eq_of_lt word]

theorem long_nat {v : Nat} (small : v ≤ 2147483647) : long v = v := long_small (by omega) (by omega)

/-- `strtol` reads them as a `long`. -/
theorem longDigits_numeral (big : 2 ≤ base) (small : base ≤ 16) (word : u ≤ 2147483648) :
    ∀ rest, longDigits base 0 (numeral base u ++ rest) = longDigits base (long u) rest := by
  induction u using numeral_induction (show 1 < base by omega) with
  | one u less =>
    intro rest
    rw [numeral_small less,List.singleton_append,longDigits,digit_digitByte small less]
    simp only [Int.zero_mul,Int.zero_add]
  | more u more hyp =>
    intro rest
    have digit : u % base < base := Nat.mod_lt _ (by omega)
    have half : u / base ≤ 1073741824 := by
      have fewer := Nat.div_le_div_left (a := u) big (by decide : 0 < 2)
      omega
    have whole : ((u / base : Nat) : Int) * base + (u % base : Nat) = u := by exact_mod_cast Nat.div_add_mod' u base
    rw [numeral_step (by omega) more,List.append_assoc,hyp (by omega),List.singleton_append,longDigits,
      digit_digitByte small digit,long_nat (by omega)]
    simp only [whole]

theorem digits_zeros (big : 2 ≤ base) (small : base ≤ 16) (m : Nat) (rest : List UInt8) :
    digits base 0 (List.replicate m 48 ++ rest) = digits base 0 rest := by
  have zero : digit base 48 = some 0 := digit_digitByte small (show 0 < base by omega)
  induction m with
  | zero => rfl
  | succ m hyp =>
    rw [List.replicate_succ,List.cons_append,digits,zero]
    simpa [State.ulong] using hyp

theorem longDigits_zeros (big : 2 ≤ base) (small : base ≤ 16) (m : Nat) (rest : List UInt8) :
    longDigits base 0 (List.replicate m 48 ++ rest) = longDigits base 0 rest := by
  have zero : digit base 48 = some 0 := digit_digitByte small (show 0 < base by omega)
  induction m with
  | zero => rfl
  | succ m hyp =>
    rw [List.replicate_succ,List.cons_append,longDigits,zero]
    simpa [long] using hyp

/-! ### Numbers in their fields -/

/-- The digits of a number, with zeros before it and blanks behind it. -/
def core (base u m k : Nat) : List UInt8 := List.replicate m 48 ++ (numeral base u ++ List.replicate k 32)

/-- Wherever the number is in its field, and even if its sizes wrap around, it is in
    one piece with its sign and its prefix, and what is around it does no harm. -/
theorem printNum_core (s : Spec) (sign : UInt8) (big : 2 ≤ base) (small : base ≤ 16) (word : u < 4294967296) :
    ∃ i m k, printNum s sign base u = some (List.replicate i 32 ++ ((if sign ≠ 0 then [sign] else []) ++
      ((if u ≠ 0 ∧ s.altfmt then if base = 8 then [48] else if base = 16 then [48,120] else [] else []) ++
        core base u m k))) := by
  unfold printNum core
  rw [digitsLoop_word big small word,Option.bind_eq_bind,Option.bind_some]
  dsimp only
  generalize (if sign ≠ 0 then [sign] else []) = sign
  generalize (if u ≠ 0 ∧ s.altfmt then
    if base = 8 then ([48] : List UInt8) else if base = 16 then [48,120] else [] else []) = start
  generalize long (s.prec - (numeral base u).length) = prec
  generalize (if prec > 0 then _ else _ : Int) = length
  have blanks : ∃ i, (if s.padc = 32 ∧ ¬ s.ladjust then fill length 32 else ([],length)).1 = List.replicate i 32 := by
    split
    · exact ⟨_,rfl⟩
    · exact ⟨0,rfl⟩
  obtain ⟨i,blanks⟩ := blanks
  generalize (if s.padc = 32 ∧ ¬ s.ladjust then fill length 32 else ([],length)) = before at blanks ⊢
  have zeros : ∃ m, (if s.padc = 48 then fill before.2 48 else ([],before.2)).1 = List.replicate m 48 := by
    split
    · exact ⟨_,rfl⟩
    · exact ⟨0,rfl⟩
  obtain ⟨m,zeros⟩ := zeros
  generalize (if s.padc = 48 then fill before.2 48 else ([],before.2)) = between at zeros ⊢
  have behind : ∃ k, (if s.ladjust then fill between.2 32 else ([],between.2)).1 = List.replicate k 32 := by
    split
    · exact ⟨_,rfl⟩
    · exact ⟨0,rfl⟩
  obtain ⟨k,behind⟩ := behind
  obtain ⟨n,more⟩ : ∃ n, (fill prec 48).1 = List.replicate n 48 := ⟨_,rfl⟩
  refine ⟨i,n + m,k,?_⟩
  rw [List.replicate_add]
  simp only [pure,blanks,zeros,behind,more,List.append_assoc]

theorem digitByte_plain {d : Nat} (less : d < 16) :
    isspace (digitByte d).toNat = false ∧ digitByte d ≠ 45 ∧ digitByte d ≠ 120 ∧ digitByte d ≠ 88 := by
  have all : ∀ i : Fin 16,
      isspace (digitByte i).toNat = false ∧ digitByte i ≠ 45 ∧ digitByte i ≠ 120 ∧ digitByte i ≠ 88 := by decide
  exact all ⟨d,less⟩

/-- It begins with a digit. -/
theorem core_first (big : 2 ≤ base) (small : base ≤ 16) (m k : Nat) :
    ∃ d < base, ∃ rest, core base u m k = digitByte d :: rest := by
  cases m with
  | zero =>
    obtain ⟨d,less,more,cut⟩ := numeral_cons (show 1 < base by omega) u
    exact ⟨d,less,more ++ List.replicate k 32,by simp [core,cut]⟩
  | succ m => exact ⟨0,by omega,_,rfl⟩

/-- There is no `x` in it that could belong to a prefix. -/
theorem core_unlike (big : 2 ≤ base) (small : base ≤ 16) (m k : Nat) :
    ∀ c ∈ core base u m k, c ≠ 120 ∧ c ≠ 88 := by
  intro c there
  simp only [core,List.mem_append,List.mem_replicate] at there
  rcases there with ⟨-,rfl⟩ | there | ⟨-,rfl⟩
  · decide
  · obtain ⟨d,less,rfl⟩ := mem_numeral (by omega) c there
    exact (digitByte_plain (show d < 16 by omega)).2.2
  · decide

theorem chooseBase_core (big : 2 ≤ base) (small : base ≤ 16) (m k : Nat) :
    chooseBase base (core base u m k) = (base,core base u m k) := by
  have second : (core base u m k).getD 1 0 ≠ 120 ∧ (core base u m k).getD 1 0 ≠ 88 := by
    rcases Nat.lt_or_ge 1 (core base u m k).length with inside | outside
    · rw [List.getD_eq_getElem _ _ inside]
      exact core_unlike big small m k _ (List.getElem_mem inside)
    · rw [List.getD_eq_default _ _ outside]
      decide
  exact chooseBase_plain (by omega) second

/-- The prefix is skipped, or is one more zero. -/
theorem digits_start (big : 2 ≤ base) (small : base ≤ 16) {start : List UInt8} (m k : Nat)
    (shape : start = [] ∨ (base = 8 ∧ start = [48]) ∨ (base = 16 ∧ start = [48,120])) :
    ∃ m', chooseBase base (start ++ core base u m k) = (base,core base u m' k) := by
  rcases shape with rfl | ⟨rfl,rfl⟩ | ⟨rfl,rfl⟩
  · exact ⟨m,chooseBase_core big small m k⟩
  · exact ⟨m + 1,chooseBase_core big small (m + 1) k⟩
  · refine ⟨m,?_⟩
    simp [chooseBase]

theorem start_shape {ctx : Context} (d : Directive ctx) (base u : Nat) :
    d.start base u = [] ∨ (base = 8 ∧ d.start base u = [48]) ∨ (base = 16 ∧ d.start base u = [48,120]) := by
  unfold Directive.start
  split
  · by_cases octal : base = 8
    · simp [octal]
    · by_cases hexadecimal : base = 16
      · simp [hexadecimal]
      · simp [octal,hexadecimal]
  · exact .inl rfl

/-- It begins with a digit, as its prefix does. -/
theorem start_first (big : 2 ≤ base) (small : base ≤ 16) {start : List UInt8} (m k : Nat)
    (shape : start = [] ∨ (base = 8 ∧ start = [48]) ∨ (base = 16 ∧ start = [48,120])) :
    ∃ d < 16, ∃ rest, start ++ core base u m k = digitByte d :: rest := by
  rcases shape with rfl | ⟨-,rfl⟩ | ⟨-,rfl⟩
  · obtain ⟨d,less,rest,cut⟩ := core_first (u := u) big small m k
    exact ⟨d,by omega,rest,cut⟩
  · exact ⟨0,by decide,_,rfl⟩
  · exact ⟨0,by decide,_,rfl⟩

/-- Blanks are skipped. -/
theorem dropWhile_blanks (i : Nat) {text : List UInt8} {c : UInt8} {rest : List UInt8} (cut : text = c :: rest)
    (other : isspace c.toNat = false) : (List.replicate i 32 ++ text).dropWhile (fun ch => isspace ch.toNat) = text := by
  induction i with
  | zero => simp [cut,other]
  | succ i hyp => rw [List.replicate_succ,List.cons_append,List.dropWhile_cons_of_pos (by decide),hyp]

theorem digits_core (big : 2 ≤ base) (small : base ≤ 16) (word : u < 4294967296) (m k : Nat) :
    digits base 0 (core base u m k) = (u,List.replicate k 32) := by
  rw [core,digits_zeros big small,digits_numeral big small word,digits_stop (digit_blanks base k)]

theorem longDigits_core (big : 2 ≤ base) (small : base ≤ 16) (word : u ≤ 2147483648) (m k : Nat) :
    longDigits base 0 (core base u m k) = (long u,List.replicate k 32) := by
  rw [core,longDigits_zeros big small,longDigits_numeral big small word,longDigits_stop (digit_blanks base k)]

/-- `strtoul` reads the number out of any field. -/
theorem strtoul_field {ctx : Context} (d : Directive ctx) (big : 2 ≤ base) (small : base ≤ 16)
    (word : u < 4294967296) (i m k : Nat) :
    (strtoul base (List.replicate i 32 ++ (d.start base u ++ core base u m k))).1 = u := by
  obtain ⟨digit,less,rest,cut⟩ := start_first (u := u) big small m k (start_shape d base u)
  obtain ⟨m',chosen⟩ := digits_start (u := u) big small m k (start_shape d base u)
  rw [strtoul,dropWhile_blanks i cut (digitByte_plain less).1,chosen]
  exact congrArg Prod.fst (digits_core big small word m' k)

/-- `strtol` reads a number that is not negative, if it has no plus sign. -/
theorem strtol_plain (big : 2 ≤ base) (small : base ≤ 16) (word : u ≤ 2147483648) {start : List UInt8}
    (i m k : Nat) (shape : start = [] ∨ (base = 8 ∧ start = [48]) ∨ (base = 16 ∧ start = [48,120])) :
    (strtol base (List.replicate i 32 ++ (start ++ core base u m k))).1 = long u := by
  obtain ⟨digit,less,rest,cut⟩ := start_first (u := u) big small m k shape
  obtain ⟨m',chosen⟩ := digits_start (u := u) big small m k shape
  have unsigned : ¬ (start ++ core base u m k).getD 0 0 = 45 := by
    rw [cut]
    exact (digitByte_plain less).2.1
  simp only [strtol]
  rw [dropWhile_blanks i cut (digitByte_plain less).1]
  simp only [if_neg unsigned,chosen,longDigits_core big small word]

theorem strtol_minus (big : 2 ≤ base) (small : base ≤ 16) (word : u ≤ 2147483648) {start : List UInt8}
    (i m k : Nat) (shape : start = [] ∨ (base = 8 ∧ start = [48]) ∨ (base = 16 ∧ start = [48,120])) :
    (strtol base (List.replicate i 32 ++ (45 :: (start ++ core base u m k)))).1 = long (-long u) := by
  obtain ⟨m',chosen⟩ := digits_start (u := u) big small m k shape
  simp only [strtol]
  rw [dropWhile_blanks i rfl (by decide)]
  simp only [List.getD_cons_zero,if_true,List.drop_succ_cons,List.drop_zero,chosen,longDigits_core big small word]

/-- A plus sign is not skipped, nor is it a digit. -/
theorem strtol_plus (big : 2 ≤ base) (i : Nat) (text : List UInt8) :
    (strtol base (List.replicate i 32 ++ (43 :: text))).1 = 0 := by
  have other : digit base 43 = none := by simp [digit]
  simp only [strtol]
  rw [dropWhile_blanks i rfl (by decide)]
  have chosen : chooseBase base (43 :: text) = (base,43 :: text) := by
    simp [chooseBase,show base ≠ 0 by omega]
  simp [chosen,longDigits,other]

/-- `strtol` reads a signed number out of any field, unless it has a plus sign. -/
theorem strtol_field {ctx : Context} (d : Directive ctx) (big : 2 ≤ base) (small : base ≤ 16) {n : Int}
    (low : -2147483648 ≤ n) (high : n < 2147483648) (i m k : Nat) :
    (strtol base (List.replicate i 32 ++ ((if n < 0 then [45] else d.positive) ++
      (d.start base n.natAbs ++ core base n.natAbs m k)))).1 = if 0 ≤ n ∧ .plus ∈ d.flags then 0 else n := by
  have word : n.natAbs ≤ 2147483648 := by omega
  have shape := start_shape d base n.natAbs
  by_cases negative : n < 0
  · rw [if_pos negative,if_neg (by omega),List.singleton_append,strtol_minus big small word i m k shape]
    unfold long
    omega
  have number : long n.natAbs = n := by
    unfold long
    omega
  rw [if_neg negative,Directive.positive]
  by_cases plus : .plus ∈ d.flags
  · rw [if_pos plus,if_pos ⟨by omega,plus⟩]
    exact strtol_plus big i _
  have signless : ¬ (0 ≤ n ∧ .plus ∈ d.flags) := fun both => plus both.2
  rw [if_neg plus,if_neg signless]
  split
  · have blanks : List.replicate i (32 : UInt8) ++ ([32] ++ (d.start base n.natAbs ++ core base n.natAbs m k)) =
        List.replicate (i + 1) 32 ++ (d.start base n.natAbs ++ core base n.natAbs m k) := by
      rw [← List.append_assoc,← List.replicate_succ']
    rw [blanks,strtol_plain big small word (i + 1) m k shape,number]
  · rw [List.nil_append,strtol_plain big small word i m k shape,number]

/-- What a directive prints for a number: its sign and its prefix stand before its
    digits. -/
theorem printNum_field {ctx : Context} (d : Directive ctx) (sign : UInt8) (big : 2 ≤ base) (small : base ≤ 16)
    (word : u < 4294967296) : ∃ i m k, printNum d.spec sign base u =
      some (List.replicate i 32 ++ ((if sign ≠ 0 then [sign] else []) ++ (d.start base u ++ core base u m k))) := by
  obtain ⟨i,m,k,printed⟩ := printNum_core d.spec sign big small word
  refine ⟨i,m,k,printed.trans ?_⟩
  simp [Directive.spec,Directive.start]

theorem long_range (x : Int) : -2147483648 ≤ long x ∧ long x < 2147483648 := by
  unfold long
  omega

/-- Numbers that are printed are read back, whatever their flags, their width and
    their precision: those without a sign by `strtoul`, those with one by
    `strtol` unless they have a plus sign. -/
theorem doprnt_reads_back {ctx : Context} (d : Directive ctx) (args : List UInt32) :
    ∃ out, doprnt ctx (d.args ++ args) (37 :: d.chars) = some (out,args) ∧
      (∀ b word, d.conversion = .unsigned b word → (strtoul (b.value ctx) out).1 = word.toNat) ∧
      (∀ b word, d.conversion = .signed b word → (strtol (b.value ctx) out).1 =
        if 0 ≤ long word.toNat ∧ .plus ∈ d.flags then 0 else long word.toNat) := by
  have read := directive_read d args []
  rw [List.append_nil] at read
  have spelled := d.spelled
  have fits := d.fits
  suffices converted : ∃ out, convert ctx d.spec d.letter (d.conversion.args ++ args) = some (out,args) ∧
      (∀ b word, d.conversion = .unsigned b word → (strtoul (b.value ctx) out).1 = word.toNat) ∧
      (∀ b word, d.conversion = .signed b word → (strtol (b.value ctx) out).1 =
        if 0 ≤ long word.toNat ∧ .plus ∈ d.flags then 0 else long word.toNat) by
    obtain ⟨out,same,reads⟩ := converted
    rw [same,Option.map_some] at read
    exact ⟨out,by rw [doprnt_directive read,doprnt_nil,Option.map_some,List.append_nil],reads⟩
  cases kind : d.conversion with
  | unsigned b word =>
    rw [kind] at spelled fits
    obtain ⟨i,m,k,printed⟩ := printNum_field d 0 fits.1 fits.2 word.toNat_lt
    refine ⟨List.replicate i 32 ++ (d.start (b.value ctx) word.toNat ++ core (b.value ctx) word.toNat m k),?_,
      fun b' word' same => ?_,by rintro _ _ ⟨⟩⟩
    · rw [convert_unsigned d.spec spelled]
      exact (printUnsigned_num _ _ word args).trans (by rw [printed]; rfl)
    · cases same
      exact strtoul_field d fits.1 fits.2 word.toNat_lt i m k
  | signed b word =>
    rw [kind] at spelled fits
    have range := long_range word.toNat
    obtain ⟨i,m,k,printed⟩ :=
      printNum_field d (if long word.toNat < 0 then 45 else d.spec.plusSign) fits.1 fits.2 (long_word word)
    rw [sign_spec] at printed
    refine ⟨List.replicate i 32 ++ ((if long word.toNat < 0 then [45] else d.positive) ++
      (d.start (b.value ctx) (long word.toNat).natAbs ++ core (b.value ctx) (long word.toNat).natAbs m k)),?_,
      by rintro _ _ ⟨⟩,fun b' word' same => ?_⟩
    · rw [convert_signed d.spec spelled]
      exact (printSigned_num _ _ word args).trans (by rw [printed]; rfl)
    · cases same
      exact strtol_field d fits.1 fits.2 range.1 range.2 i m k
  | pointer word =>
    rw [kind] at spelled
    obtain ⟨number,printed⟩ : ∃ number, printNum { d.spec with padc := 48, length := 8 } 0 16 word.toNat = some number := by
      obtain ⟨i,m,k,printed⟩ := @printNum_core 16 word.toNat { d.spec with padc := 48, length := 8 } 0 (by decide)
        (by decide) word.toNat_lt
      exact ⟨_,printed⟩
    refine ⟨48 :: 120 :: number,?_,by rintro _ _ ⟨⟩,by rintro _ _ ⟨⟩⟩
    simp [show d.letter = 112 from spelled,convert,Conversion.args,vaArg,printUnsigned,printed]
  | bits | char | string | itself =>
    have tame : d.Tame := fun number => absurd number (by simp [kind,Conversion.Number])
    have printed := convert_output d tame args
    rw [kind] at printed
    exact ⟨d.output,printed,by rintro _ _ ⟨⟩,by rintro _ _ ⟨⟩⟩

/-- The text of -7 in its field. -/
theorem doprnt_reads_back_decimal : ∃ out,
    doprnt register [4294967290,4294967289] [37,45,42,46,51,100] = some (out,[]) ∧ (strtol 10 out).1 = -7 := by
  obtain ⟨out,printed,-,signed⟩ := doprnt_reads_back decimal []
  exact ⟨out,printed,(signed .decimal 4294967289 rfl).trans (by decide)⟩

end Psys.Readback
