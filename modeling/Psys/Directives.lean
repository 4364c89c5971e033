import Psys.Formats
import Psys.Numerals

/-!
The formats of `_doprnt` as directives with their arguments, and what each of
them is to print: `_doprnt` prints exactly that for the format as it is spelled.
-/
namespace Psys.Directives
open Psys.State (long long_small)
open Psys.Numerals Psys.Formats

/-! ### Directives -/

inductive Flag where
  | alternate
  | left
  | plus
  | blank
  deriving DecidableEq

def Flag.char : Flag → UInt8
  | alternate => 35
  | left => 45
  | plus => 43
  | blank => 32

/-- A width or a precision. -/
inductive Size where
  | absent
  | digits (n : Nat)
  | argument (word : UInt32)
  deriving DecidableEq

def Size.chars : Size → List UInt8
  | absent => []
  | digits n => numeral 10 n
  | argument _ => [42]

def Size.args : Size → List UInt32
  | argument word => [word]
  | _ => []

/-- It is an `int`, and its negation is one too. -/
def Size.Fits : Size → Prop
  | absent => True
  | digits n => n ≤ 2147483647
  | argument word => word.toNat ≠ 2147483648

def Size.value (other : Int) : Size → Int
  | absent => other
  | digits n => n
  | argument word => long word.toNat

/-- A part of a register, as the string of `%b` describes it: one bit or the bits
    `j` to `i`, counted from one. -/
inductive Field where
  | bit (i : Nat) (name : List UInt8)
  | range (i j : Nat) (name : List UInt8)

/-- The bits are those of a register, and the name is one. -/
def Field.Fits : Field → Prop
  | bit i name => 1 ≤ i ∧ i ≤ 32 ∧ name ≠ [] ∧ ∀ c ∈ name, isName c
  | range i j name => 1 ≤ j ∧ j ≤ i ∧ i ≤ 32 ∧ ∀ c ∈ name, isName c

def Field.chars : Field → List UInt8
  | bit i name => UInt8.ofNat i :: name
  | range i j name => UInt8.ofNat i :: UInt8.ofNat j :: name

/-- A bit is listed if it is set, several bits are with their value. -/
def Field.shown (base u : Nat) : Field → Option (List UInt8)
  | bit i name => if u.testBit (i - 1) then some name else none
  | range i j name => some (name ++ numeral base (u >>> (j - 1) % 2 ^ (i - j + 1)))

/-- Parts between `<` and `>`, with commas between them. -/
def listed : List (List UInt8) → List UInt8
  | [] => []
  | part :: parts => 60 :: part ++ parts.flatMap (44 :: ·) ++ [62]

inductive Base where
  | octal
  | decimal
  | hexadecimal
  | default

def Base.value (ctx : Context) : Base → Nat
  | octal => 8
  | decimal => 10
  | hexadecimal => 16
  | default => ctx.radix

/-- A conversion and its arguments. -/
inductive Conversion where
  | bits (u p : UInt32) (base : Nat) (fields : List Field)
  | char (word : UInt32)
  | string (p : UInt32)
  | unsigned (base : Base) (word : UInt32)
  | signed (base : Base) (word : UInt32)
  | pointer (word : UInt32)
  | itself

def Conversion.args : Conversion → List UInt32
  | bits u p _ _ => [u,p]
  | char word | unsigned _ word | signed _ word | pointer word => [word]
  | string p => [p]
  | itself => []

/-- The letters of the conversions that take arguments. -/
def letters : List UInt8 := [98,66,99,115,111,79,100,105,68,117,85,112,120,88,122,90,114,82,110,78]

/-- The characters that belong to a directive before its conversion. -/
def Special (c : UInt8) : Prop := c ∈ [35,45,43,32,42,46,108] ∨ isdigit c

instance (c : UInt8) : Decidable (Special c) := inferInstanceAs (Decidable (_ ∨ _))

/-- How a conversion is spelled. -/
def Conversion.Letter (c : UInt8) : Conversion → Prop
  | bits .. => c = 98 ∨ c = 66
  | char _ => c = 99
  | string _ => c = 115
  | unsigned .octal _ => c = 111 ∨ c = 79
  | unsigned .decimal _ => c = 117 ∨ c = 85
  | unsigned .hexadecimal _ => c = 120 ∨ c = 88
  | unsigned .default _ => c = 110 ∨ c = 78
  | signed .octal _ => False
  | signed .decimal _ => c = 100 ∨ c = 105 ∨ c = 68
  | signed .hexadecimal _ => c = 122 ∨ c = 90
  | signed .default _ => c = 114 ∨ c = 82
  | pointer _ => c = 112
  | itself => c ∉ letters ∧ ¬ Special c

/-- The base has digits, and `%b` gets the description of a register. -/
def Conversion.Fits (ctx : Context) : Conversion → Prop
  | bits _ p base fields => 2 ≤ base ∧ base ≤ 16 ∧ (∀ f ∈ fields, f.Fits) ∧
      ctx.string p = UInt8.ofNat base :: fields.flatMap Field.chars
  | unsigned base _ | signed base _ => 2 ≤ base.value ctx ∧ base.value ctx ≤ 16
  | _ => True

/-- A directive, with the arguments that it takes. -/
structure Directive (ctx : Context) where
  flags : List Flag
  zero : Bool
  width : Size
  precision : Size
  long : Bool
  letter : UInt8
  conversion : Conversion
  spelled : conversion.Letter letter
  fits : conversion.Fits ctx
  wide : width.Fits ∧ width ≠ .digits 0
  precise : precision.Fits

variable {ctx : Context}

/-- A directive in a format, behind its `%`. -/
def Directive.chars (d : Directive ctx) : List UInt8 :=
  d.flags.map Flag.char ++ (if d.zero then [48] else []) ++ d.width.chars ++
    (if d.precision = .absent then [] else 46 :: d.precision.chars) ++ (if d.long then [108] else []) ++ [d.letter]

def Directive.args (d : Directive ctx) : List UInt32 := d.width.args ++ d.precision.args ++ d.conversion.args

/-! ### What they print -/

/-- The size of the field. -/
def Directive.length (d : Directive ctx) : Nat := (d.width.value 0).natAbs

/-- The side of the field: a negative width changes it. -/
def Directive.leftward (d : Directive ctx) : Bool := decide (.left ∈ d.flags) ^^ decide (d.width.value 0 < 0)

def Directive.prec (d : Directive ctx) : Int := d.precision.value (-1)

/-- The conversion prints a number in a field. -/
def Conversion.Number : Conversion → Prop
  | unsigned .. | signed .. | pointer _ => True
  | bits .. | char _ | string _ | itself => False

/-- Nothing wraps around when the precision of a number is counted down, and taken
    off the field. -/
def Directive.Tame (d : Directive ctx) : Prop :=
  d.conversion.Number → -2147483600 ≤ d.prec ∧ d.prec ≤ 2147483600

/-- A number in a field: zeros go behind the sign and the prefix, to whatever
    side it belongs. -/
def padded (zero left : Bool) (length : Nat) (lead body : List UInt8) : List UInt8 :=
  let room := length - (lead ++ body).length
  if zero then lead ++ List.replicate room 48 ++ body
  else if left then lead ++ body ++ List.replicate room 32
  else List.replicate room 32 ++ (lead ++ body)

/-- The sign of a number that is not negative. -/
def Directive.positive (d : Directive ctx) : List UInt8 :=
  if .plus ∈ d.flags then [43] else if .blank ∈ d.flags then [32] else []

/-- The prefix of a number. -/
def Directive.start (d : Directive ctx) (base u : Nat) : List UInt8 :=
  if u ≠ 0 ∧ .alternate ∈ d.flags then if base = 8 then [48] else if base = 16 then [48,120] else [] else []

/-- At least so many digits. -/
def Directive.digits (d : Directive ctx) (base u : Nat) : List UInt8 :=
  List.replicate (d.prec - (numeral base u).length).toNat 48 ++ numeral base u

/-- A string in a field, cut to the precision. If it has been cut it gets a blank
    too few behind it. -/
def Directive.cut (d : Directive ctx) (text : List UInt8) : List UInt8 :=
  let shown := text.take (if d.prec = -1 then 0x7fffffff else d.prec.toNat)
  let missing := if shown.length < text.length then 1 else 0
  if d.leftward then shown ++ List.replicate (d.length - (shown.length + missing)) 32
  else List.replicate (d.length - shown.length) 32 ++ shown

/-- What a directive is to print. -/
def Directive.output (d : Directive ctx) : List UInt8 :=
  match d.conversion with
  | .bits u _ base fields =>
    numeral base u.toNat ++ if u.toNat = 0 then [] else listed (fields.filterMap (Field.shown base u.toNat))
  | .char word => [word.toUInt8]
  | .string p => d.cut (if p = 0 then [] else ctx.string p)
  | .unsigned base word =>
    padded d.zero d.leftward d.length (d.start (base.value ctx) word.toNat) (d.digits (base.value ctx) word.toNat)
  | .signed base word =>
    let n := State.long word.toNat
    padded d.zero d.leftward d.length ((if n < 0 then [45] else d.positive) ++ d.start (base.value ctx) n.natAbs)
      (d.digits (base.value ctx) n.natAbs)
  | .pointer word => [48,120] ++ padded true d.leftward 8 (d.start 16 word.toNat) (d.digits 16 word.toNat)
  | .itself => [d.letter]

/-- A part of a format. -/
inductive Piece (ctx : Context) where
  | char (c : UInt8) (plain : c ≠ 37)
  | directive (d : Directive ctx) (tame : d.Tame)

def Piece.chars : Piece ctx → List UInt8
  | char c _ => [c]
  | directive d _ => 37 :: d.chars

def Piece.args : Piece ctx → List UInt32
  | char _ _ => []
  | directive d _ => d.args

def Piece.output : Piece ctx → List UInt8
  | char c _ => [c]
  | directive d _ => d.output

/-! ### Numbers -/

/-- A loop that counts down without wrapping around. -/
theorem fill_eq {n : Int} (low : -2147483648 < n) (high : n ≤ 2147483647) (c : UInt8) :
    fill n c = (List.replicate n.toNat c,if 0 < n then -1 else n - 1) := by
  have next : long (n - 1) = n - 1 := long_small (by omega) (by omega)
  unfold fill
  simp only [next,Int.sub_add_cancel]
  congr 1
  split <;> split <;> omega

/-- It leaves nothing to do for the next one. -/
theorem fill_done {n : Int} (low : -2147483647 < n) (high : n ≤ 2147483647) (c c' : UInt8) :
    (fill (fill n c).2 c').1 = [] := by
  rw [fill_eq (by omega) high]
  have done : (if 0 < n then -1 else n - 1).toNat = 0 := by split <;> omega
  rw [fill_eq (by split <;> omega) (by split <;> omega)]
  simp only [done,List.replicate_zero]

/-- What is left of the field is what `print_num` counts down, if nothing wraps around. -/
theorem room_eq {length prec : Int} {d sign start : Nat} (size : 0 ≤ length ∧ length ≤ 2147483647)
    (tame : -2147483600 ≤ prec ∧ prec ≤ 2147483600) (digits : d ≤ 32) (lead : sign ≤ 1 ∧ start ≤ 2) :
    ∃ r : Int, (if long (prec - d) > 0 then long (long (length - d - sign - start) - long (prec - d))
        else long (length - d - sign - start)) = r ∧ -2147483647 < r ∧ r ≤ 2147483647 ∧
      r.toNat = length.toNat - (sign + (start + (prec.toNat - d + d))) := by
  rw [long_small (x := prec - d) (by omega) (by omega),
    long_small (x := length - d - sign - start) (by omega) (by omega)]
  refine ⟨_,rfl,?_⟩
  split
  · rw [long_small (by omega) (by omega)]
    omega
  · omega

/-- Zeros of the precision and of the width. -/
theorem zeros_swap (a b : Nat) (p : List UInt8) :
    List.replicate (a + b) 48 ++ p = List.replicate b 48 ++ (List.replicate a 48 ++ p) := by
  rw [← List.append_assoc,List.replicate_append_replicate,Nat.add_comm]

/-- `print_num` puts the number into its field. -/
theorem printNum_padded (s : Spec) (signChar : UInt8) {base u : Nat} (big : 2 ≤ base) (small : base ≤ 16)
    (word : u < 4294967296) (pad : s.padc = 32 ∨ s.padc = 48) (size : 0 ≤ s.length ∧ s.length ≤ 2147483647)
    (tame : -2147483600 ≤ s.prec ∧ s.prec ≤ 2147483600) :
    printNum s signChar base u = some (padded (s.padc = 48) s.ladjust s.length.toNat
      ((if signChar ≠ 0 then [signChar] else []) ++
        (if u ≠ 0 ∧ s.altfmt then if base = 8 then [48] else if base = 16 then [48,120] else [] else []))
      (List.replicate (s.prec - (numeral base u).length).toNat 48 ++ numeral base u)) := by
  have digits : (numeral base u).length ≤ 32 := numeral_room big word
  have signLength : (if signChar ≠ 0 then [signChar] else []).length ≤ 1 := by split <;> simp
  have startLength : (if u ≠ 0 ∧ s.altfmt then
      if base = 8 then ([48] : List UInt8) else if base = 16 then [48,120] else [] else []).length ≤ 2 := by
    split
    · split
      · simp
      split <;> simp
    · simp
  unfold printNum
  rw [digitsLoop_word big small word,Option.bind_eq_bind,Option.bind_some]
  generalize (if signChar ≠ 0 then [signChar] else []) = sign at signLength ⊢
  generalize (if u ≠ 0 ∧ s.altfmt then
    if base = 8 then ([48] : List UInt8) else if base = 16 then [48,120] else [] else []) = start at startLength ⊢
  obtain ⟨r,rest,low,high,room⟩ := room_eq size tame digits ⟨signLength,startLength⟩
  have prec : long (s.prec - (numeral base u).length) = s.prec - (numeral base u).length :=
    long_small (by omega) (by omega)
  have more := fill_eq (n := s.prec - (numeral base u).length) (by omega) (by omega) 48
  have counted := fun c => congrArg Prod.fst (fill_eq (show -2147483648 < r by omega) high c)
  simp only at counted
  rw [prec] at rest
  simp only [prec,rest,more]
  rcases pad with blank | zero
  · cases left : s.ladjust with
    | false => simp [blank,padded,counted,room]
    | true => simp [blank,padded,counted,room]
  · cases s.ladjust with
    | false => simpa [zero,padded,counted,room] using zeros_swap _ _ _
    | true => simpa [zero,padded,counted,fill_done low high,room] using zeros_swap _ _ _

/-! ### Strings -/

theorem countString_eq (prec : Int) (p : List UInt8) :
    ∀ n : Int, countString prec n p = n + (p.take (prec - n).toNat).length := by
  induction p with
  | nil => simp [countString]
  | cons c p hyp =>
    intro n
    rw [countString]
    split
    next less =>
      rw [hyp,show (prec - n).toNat = (prec - (n + 1)).toNat + 1 by omega,List.take_succ_cons,List.length_cons]
      omega
    next stops => simp [show (prec - n).toNat = 0 by omega]

/-- `%s` prints up to the precision, and counts one more if that has cut the string. -/
theorem stringLoop_eq (prec : Int) (p : List UInt8) : ∀ n : Int, stringLoop prec n p =
    (p.take (prec - n).toNat,
      n + (p.take (prec - n).toNat).length + if (p.take (prec - n).toNat).length < p.length then 1 else 0) := by
  induction p with
  | nil => simp [stringLoop]
  | cons c p hyp =>
    intro n
    rw [stringLoop]
    split
    next stops => simp [show (prec - n).toNat = 0 by omega]
    next more =>
      rw [hyp,show (prec - n).toNat = (prec - (n + 1)).toNat + 1 by omega]
      simp only [List.take_succ_cons,List.length_cons,Prod.mk.injEq,true_and,Nat.add_lt_add_iff_right]
      omega

theorem blanks_eq (n m : Nat) :
    (if (n : Int) < m then List.replicate ((m : Int) - n).toNat (32 : UInt8) else []) = List.replicate (m - n) 32 := by
  split
  · rw [show ((m : Int) - n).toNat = m - n by omega]
  · rw [show m - n = 0 by omega,List.replicate_zero]

theorem blanks_before (n m : Nat) :
    (if 0 < m then List.replicate (m - n) (32 : UInt8) else []) = List.replicate (m - n) 32 := by
  split
  · rfl
  · rw [show m - n = 0 by omega,List.replicate_zero]

theorem printString_cut (d : Directive ctx) (s : Spec) (length : s.length = d.length) (prec : s.prec = d.prec)
    (left : s.ladjust = d.leftward) (text : List UInt8) : printString s text = d.cut text := by
  have limit : (if d.prec = -1 then 0x7fffffff else d.prec : Int).toNat =
      if d.prec = -1 then 0x7fffffff else d.prec.toNat := by
    split <;> rfl
  unfold printString Directive.cut
  simp only [stringLoop_eq,countString_eq,prec,length,left,Int.sub_zero,Int.zero_add,limit]
  generalize text.take _ = shown
  have counted : (shown.length : Int) + (if shown.length < text.length then 1 else 0) =
      (shown.length + (if shown.length < text.length then 1 else 0) : Nat) := by split <;> rfl
  cases d.leftward with
  | true => simp only [counted,blanks_eq,not_true,and_false,and_true,if_false,if_true,List.nil_append]
  | false => simp [blanks_before]

/-! ### Registers -/

theorem control {i : Nat} (small : i ≤ 32) : isName (UInt8.ofNat i) = false ∧ char (UInt8.ofNat i) = i := by
  have all : ∀ k : Fin 33, isName (UInt8.ofNat k) = false ∧ char (UInt8.ofNat k) = k.val := by decide
  exact all ⟨i,by omega⟩

/-- What follows the name of a field is not part of the name. -/
theorem name_ends {fields : List Field} (fit : ∀ f ∈ fields, f.Fits) {name : List UInt8}
    (named : ∀ c ∈ name, isName c) :
    (name ++ fields.flatMap Field.chars).takeWhile isName = name ∧
      (name ++ fields.flatMap Field.chars).dropWhile isName = fields.flatMap Field.chars := by
  rw [List.takeWhile_append_of_pos named,List.dropWhile_append_of_pos named]
  cases fields with
  | nil => simp
  | cons f fields =>
    have inside := fit f (by simp)
    cases f with
    | bit i name => simp [Field.chars,(control inside.2.1).1]
    | range i j name => simp [Field.chars,(control inside.2.2.1).1]

theorem bitField_eq {u i j : Nat} (low : 1 ≤ j) (order : j ≤ i) (high : i ≤ 32) :
    bitField u i j = some (u >>> (j - 1) % 2 ^ (i - j + 1)) := by
  rw [bitField,if_pos (by omega),show ((j : Int) - 1).toNat = j - 1 by omega,
    show ((i : Int) - j).toNat = i - j by omega,Nat.shiftLeft_eq,Nat.mul_comm,← Nat.pow_succ,Nat.and_two_pow_sub_one_eq_mod]

/-- The parts behind what has been listed already. -/
def continued (any : Bool) : List (List UInt8) → List UInt8
  | [] => []
  | part :: parts => separator any :: part ++ parts.flatMap (44 :: ·)

theorem continued_cons (any : Bool) (part : List UInt8) (parts : List (List UInt8)) :
    continued any (part :: parts) = separator any :: (part ++ continued true parts) := by
  cases parts <;> rfl

/-- The loop lists the fields that are shown, in their order. -/
theorem bitsLoop_fields {u base : Nat} (word : u < 4294967296) (big : 2 ≤ base) (small : base ≤ 16)
    {fields : List Field} :
    ∀ (any : Bool), (∀ f ∈ fields, f.Fits) → bitsLoop u base any (fields.flatMap Field.chars) =
      some (continued any (fields.filterMap (Field.shown base u)),
        any || !(fields.filterMap (Field.shown base u)).isEmpty) := by
  induction fields with
  | nil =>
    intro any _
    simp [bitsLoop,continued]
  | cons f fields hyp =>
    intro any fit
    have rest : ∀ f ∈ fields, f.Fits := fun g there => fit g (by simp [there])
    have inside := fit f (by simp)
    cases f with
    | bit i name =>
      obtain ⟨low,high,some',named⟩ := inside
      obtain ⟨c,more,rfl⟩ := List.exists_cons_of_ne_nil some'
      have first : isName c = true := named c (by simp)
      have behind : ∀ d ∈ more, isName d := fun d there => named d (by simp [there])
      have ends := name_ends rest behind
      have set : bitSet u i = some (u.testBit (i - 1)) := by
        rw [bitSet,if_pos (by omega),show ((i : Int) - 1).toNat = i - 1 by omega]
      simp only [List.flatMap_cons,Field.chars,List.cons_append,bitsLoop,first,if_true,(control high).2,set,
        List.takeWhile_cons,ends,hyp _ rest]
      cases shown : u.testBit (i - 1) with
      | false => simp [Field.shown,shown]
      | true => simp [Field.shown,shown,continued_cons]
    | range i j name =>
      obtain ⟨low,order,high,named⟩ := inside
      have ends := name_ends rest named
      have value : printnum (u >>> (j - 1) % 2 ^ (i - j + 1)) base =
          some (numeral base (u >>> (j - 1) % 2 ^ (i - j + 1))) := by
        have less : u >>> (j - 1) ≤ u := Nat.shiftRight_le _ _
        have cut := Nat.mod_le (u >>> (j - 1)) (2 ^ (i - j + 1))
        exact digitsLoop_word big small (by omega)
      simp only [List.flatMap_cons,Field.chars,List.cons_append,bitsLoop,(control (show j ≤ 32 by omega)).1,
        Bool.false_eq_true,if_false,(control high).2,(control (show j ≤ 32 by omega)).2,bitField_eq low order high,ends,hyp _ rest]
      simp [Field.shown,value,continued_cons]

/-- `%b` prints the number and the list of the fields. -/
theorem printBits_fields {u base : Nat} (word : u < 4294967296) (big : 2 ≤ base) (small : base ≤ 16)
    {fields : List Field} (fit : ∀ f ∈ fields, f.Fits) : printBits u (UInt8.ofNat base :: fields.flatMap Field.chars) =
      some (numeral base u ++ if u = 0 then [] else listed (fields.filterMap (Field.shown base u))) := by
  have number : printnum u base = some (numeral base u) := digitsLoop_word big small word
  have same : (char (UInt8.ofNat base) % 4294967296).toNat = base := by
    rw [(control (show base ≤ 32 by omega)).2]
    omega
  unfold printBits
  simp only [List.headD_cons,List.tail_cons,same,number,bitsLoop_fields word big small false fit]
  by_cases none' : u = 0
  · simp [none']
  · cases fields.filterMap (Field.shown base u) with
    | nil => simp [none',listed,continued]
    | cons part parts => simp [none',listed,continued,separator]

/-! ### How they are read -/

/-- The characters of the flags. -/
def IsFlag (c : UInt8) : Prop := c = 35 ∨ c = 45 ∨ c = 43 ∨ c = 32

theorem flags_spelled (fs : List Flag) {c : UInt8} (stop : ¬ IsFlag c) (rest : List UInt8) :
    ∀ s : Spec, flags s (fs.map Flag.char ++ c :: rest) =
      ({ s with
          altfmt := s.altfmt || decide (.alternate ∈ fs)
          ladjust := s.ladjust || decide (.left ∈ fs)
          plusSign := if .plus ∈ fs then 43 else if s.plusSign ≠ 0 then s.plusSign else if .blank ∈ fs then 32 else 0 },
        c :: rest) := by
  simp only [IsFlag,not_or] at stop
  induction fs with
  | nil =>
    intro s
    by_cases sign : s.plusSign = 0
    · simp [flags,stop,← sign]
    · simp [flags,stop,sign]
  | cons f fs hyp =>
    intro s
    cases f with
    | alternate => simp [flags,Flag.char,hyp]
    | left => simp [flags,Flag.char,hyp]
    | plus => simp [flags,Flag.char,hyp]
    | blank =>
      by_cases sign : s.plusSign = 0
      · simp [flags,Flag.char,hyp,sign]
      · simp [flags,Flag.char,hyp,sign]

theorem isdigit_digitByte {d : Nat} (less : d < 10) :
    isdigit (digitByte d) = true ∧ ((digitByte d).toNat : Int) - 48 = d := by
  have all : ∀ i : Fin 10, isdigit (digitByte i) = true ∧ ((digitByte i).toNat : Int) - 48 = i.val := by decide
  exact all ⟨d,less⟩

theorem number_digit {d v : Nat} (less : d < 10) (fits : 10 * v + d ≤ 2147483647) (rest : List UInt8) :
    number v (digitByte d :: rest) = number (10 * v + d : Nat) rest := by
  rw [number,if_pos (isdigit_digitByte less).1,(isdigit_digitByte less).2,if_pos (by omega)]
  rfl

/-- The digits of a number give the number. -/
theorem number_numeral {n : Nat} (fits : n ≤ 2147483647) {c : UInt8} (stop : isdigit c = false) (rest : List UInt8) :
    number 0 (numeral 10 n ++ c :: rest) = some ((n : Int),c :: rest) := by
  have whole : ∀ tail, number 0 (numeral 10 n ++ tail) = number n tail := by
    induction n using numeral_induction (show 1 < 10 by decide) with
    | one n less =>
      intro tail
      have first := number_digit (v := 0) less (by omega) tail
      rw [numeral_small less]
      simpa using first
    | more n more hyp =>
      intro tail
      rw [numeral_step (by decide) more,List.append_assoc,hyp (by omega),List.singleton_append,
        number_digit (Nat.mod_lt _ (by decide)) (by omega),Nat.div_add_mod]
  rw [whole,number,if_neg (by simp [stop])]

theorem widthArgument_eq {s : Spec} {length : Int} (least : length ≠ INT_MIN) :
    widthArgument s length = some { s with ladjust := s.ladjust ^^ decide (length < 0), length := length.natAbs } := by
  rw [widthArgument,if_neg least]
  split
  next negative =>
    rw [decide_eq_true negative,Bool.xor_true,show -length = (length.natAbs : Int) by omega]
  next positive =>
    rw [decide_eq_false positive,Bool.xor_false,show (length.natAbs : Int) = length by omega]

/-- What may follow a width: it is neither digit nor asterisk. -/
theorem width_spelled {s : Spec} {w : Size} (fits : w.Fits) (length : s.length = 0) (args : List UInt32) {c : UInt8}
    (stop : isdigit c = false ∧ c ≠ 42) (rest : List UInt8) :
    width s (w.args ++ args) (w.chars ++ c :: rest) =
      some ({ s with ladjust := s.ladjust ^^ decide (w.value 0 < 0), length := (w.value 0).natAbs },
        args,c :: rest) := by
  cases w with
  | absent =>
    cases s
    cases length
    simp [Size.args,Size.chars,Size.value,width,stop]
  | digits n =>
    obtain ⟨d,less,more,cut⟩ := numeral_cons (show 1 < 10 by decide) n
    have read := number_numeral fits stop.1 rest
    have positive : ¬ (n : Int) < 0 := by omega
    simp only [Size.args,Size.chars,Size.value,List.nil_append]
    rw [cut,List.cons_append] at read ⊢
    rw [width,if_pos (isdigit_digitByte less).1,length,read]
    simp [positive]
  | argument word =>
    have least : long word.toNat ≠ INT_MIN := by
      have other : word.toNat ≠ 2147483648 := fits
      have range := word.toNat_lt
      unfold long INT_MIN
      omega
    simp only [Size.args,Size.chars,List.singleton_append]
    rw [width,if_neg (by decide),if_pos rfl,vaArg,Option.bind_eq_bind,Option.bind_some]
    simp only [widthArgument_eq least]
    rfl

theorem precision_spelled {s : Spec} {p : Size} (fits : p.Fits) (prec : s.prec = -1) (args : List UInt32) {c : UInt8}
    (stop : isdigit c = false ∧ c ≠ 46) (rest : List UInt8) :
    precision s (p.args ++ args) ((if p = .absent then [] else 46 :: p.chars) ++ c :: rest) =
      some ({ s with prec := p.value (-1) },args,c :: rest) := by
  cases p with
  | absent =>
    cases s
    cases prec
    simp [Size.args,Size.value,precision,stop.2]
  | digits n =>
    obtain ⟨d,less,more,cut⟩ := numeral_cons (show 1 < 10 by decide) n
    have read := number_numeral fits stop.1 rest
    simp only [Size.args,Size.chars,Size.value,List.nil_append,reduceCtorEq,if_false,List.cons_append]
    rw [cut,List.cons_append] at read ⊢
    rw [precision,if_pos (isdigit_digitByte less).1,read]
    rfl
  | argument word =>
    have asterisk : isdigit 42 = false := by decide
    simp [Size.args,Size.chars,Size.value,precision,asterisk,vaArg]

theorem letter_plain {c : UInt8} {conversion : Conversion} (spelled : conversion.Letter c) : ¬ Special c := by
  cases conversion with
  | bits | char | string | pointer => rcases spelled with rfl | rfl <;> decide
  | unsigned base word => cases base <;> (rcases spelled with rfl | rfl <;> decide)
  | signed base word =>
    cases base with
    | octal => exact spelled.elim
    | decimal => rcases spelled with rfl | rfl | rfl <;> decide
    | hexadecimal | default => rcases spelled with rfl | rfl <;> decide
  | itself => exact spelled.2

/-- A text that begins with such a character. -/
def Begins (P : UInt8 → Prop) (text : List UInt8) : Prop := ∃ c rest, text = c :: rest ∧ P c

variable {s : Spec} {args : List UInt32} {fmt : List UInt8}

theorem long_begins {c : UInt8} (plain : ¬ Special c) (long : Bool) (fmt : List UInt8) :
    Begins (fun c => isdigit c = false ∧ c ≠ 42 ∧ c ≠ 46 ∧ ¬ IsFlag c) ((if long then [108] else []) ++ c :: fmt) := by
  cases long with
  | true => exact ⟨108,c :: fmt,rfl,by decide,by decide,by decide,by unfold IsFlag; decide⟩
  | false =>
    simp only [Special,List.mem_cons,List.not_mem_nil,or_false,not_or] at plain
    refine ⟨c,fmt,rfl,?_,?_,?_,?_⟩
    · simpa using plain.2
    · exact plain.1.2.2.2.2.1
    · exact plain.1.2.2.2.2.2.1
    · rintro (flag | flag | flag | flag) <;> simp [flag] at plain

theorem skipLong_spelled {c : UInt8} (plain : ¬ Special c) (long : Bool) :
    skipLong ((if long then [108] else []) ++ c :: fmt) = c :: fmt := by
  cases long with
  | true => rfl
  | false =>
    unfold skipLong
    split
    next same =>
      cases same
      exact absurd (by decide : Special 108) plain
    · rfl

theorem precision_begins {text : List UInt8} (p : Size)
    (begins : Begins (fun c => isdigit c = false ∧ c ≠ 42 ∧ c ≠ 46 ∧ ¬ IsFlag c) text) :
    Begins (fun c => isdigit c = false ∧ c ≠ 42 ∧ c ≠ 48 ∧ ¬ IsFlag c)
      ((if p = .absent then [] else 46 :: p.chars) ++ text) := by
  split
  · obtain ⟨c,rest,cut,digit,star,-,flag⟩ := begins
    refine ⟨c,rest,cut,digit,star,?_,flag⟩
    rintro rfl
    exact absurd digit (by decide)
  · exact ⟨46,p.chars ++ text,rfl,by decide,by decide,by decide,by unfold IsFlag; decide⟩

theorem digit_begins {d : Nat} (positive : 0 < d) (less : d < 10) : digitByte d ≠ 48 ∧ ¬ IsFlag (digitByte d) := by
  have all : ∀ i : Fin 10, 0 < i.val → digitByte i ≠ 48 ∧
      ¬ (digitByte i = 35 ∨ digitByte i = 45 ∨ digitByte i = 43 ∨ digitByte i = 32) := by decide
  exact all ⟨d,less⟩ positive

theorem width_begins {text : List UInt8} {w : Size} (some' : w ≠ .digits 0)
    (begins : Begins (fun c => isdigit c = false ∧ c ≠ 42 ∧ c ≠ 48 ∧ ¬ IsFlag c) text) :
    Begins (fun c => c ≠ 48 ∧ ¬ IsFlag c) (w.chars ++ text) := by
  cases w with
  | absent =>
    obtain ⟨c,rest,cut,-,-,zero,flag⟩ := begins
    exact ⟨c,rest,cut,zero,flag⟩
  | digits n =>
    have positive : 0 < n := Nat.pos_of_ne_zero (fun none' => some' (by rw [none']))
    obtain ⟨d,rest,more,less,cut⟩ := numeral_head (show 1 < 10 by decide) positive
    have first := digit_begins more less
    exact ⟨digitByte d,rest ++ text,by rw [Size.chars,cut,List.cons_append],first.1,first.2⟩
  | argument word => exact ⟨42,text,rfl,by decide,by unfold IsFlag; decide⟩

/-- The zero, if there is one, is a flag of its own. -/
theorem zero_spelled {text : List UInt8} (begins : Begins (fun c => c ≠ 48 ∧ ¬ IsFlag c) text) (padded : Bool)
    (s : Spec) :
    zero s ((if padded then [48] else []) ++ text) = ({ s with padc := if padded then 48 else s.padc },text) := by
  obtain ⟨c,rest,rfl,other,-⟩ := begins
  cases padded with
  | true => rfl
  | false =>
    unfold zero
    split
    next same =>
      cases same
      exact absurd rfl other
    · rfl

theorem zero_begins {text : List UInt8} (padded : Bool) (begins : Begins (fun c => c ≠ 48 ∧ ¬ IsFlag c) text) :
    Begins (fun c => ¬ IsFlag c) ((if padded then [48] else []) ++ text) := by
  cases padded with
  | true => exact ⟨48,text,rfl,by unfold IsFlag; decide⟩
  | false =>
    obtain ⟨c,rest,cut,-,flag⟩ := begins
    exact ⟨c,rest,cut,flag⟩

/-- What the conversion of a directive gets. -/
def Directive.spec (d : Directive ctx) : Spec where
  length := d.length
  prec := d.prec
  ladjust := d.leftward
  padc := if d.zero then 48 else 32
  plusSign := if .plus ∈ d.flags then 43 else if .blank ∈ d.flags then 32 else 0
  altfmt := decide (.alternate ∈ d.flags)

/-- A directive is read as it is spelled, up to its conversion. -/
theorem directive_read (d : Directive ctx) (args : List UInt32) (fmt : List UInt8) :
    directive ctx (d.args ++ args) (d.chars ++ fmt) =
      (convert ctx d.spec d.letter (d.conversion.args ++ args)).map (fun r => (r.1,r.2,fmt)) := by
  have plain := letter_plain d.spelled
  have lastBegins := long_begins plain d.long fmt
  have preciseBegins := precision_begins d.precision lastBegins
  have wideBegins := width_begins d.wide.2 preciseBegins
  obtain ⟨c1,rest1,cut1,flag⟩ := zero_begins d.zero wideBegins
  have whole : d.chars ++ fmt = d.flags.map Flag.char ++ ((if d.zero then [48] else []) ++ (d.width.chars ++
      ((if d.precision = .absent then [] else 46 :: d.precision.chars) ++
        ((if d.long then [108] else []) ++ d.letter :: fmt)))) := by
    simp only [Directive.chars,List.append_assoc,List.singleton_append]
  have given : d.args ++ args = d.width.args ++ (d.precision.args ++ (d.conversion.args ++ args)) := by
    simp only [Directive.args,List.append_assoc]
  obtain ⟨c2,rest2,cut2,digit2,star2,-,-⟩ := preciseBegins
  obtain ⟨c3,rest3,cut3,digit3,-,dot3,-⟩ := lastBegins
  unfold directive
  rw [whole,given,cut1,flags_spelled d.flags flag,← cut1]
  simp only [zero_spelled wideBegins]
  rw [cut2,width_spelled d.wide.1 rfl _ ⟨digit2,star2⟩,← cut2,Option.bind_eq_bind,Option.bind_some]
  simp only
  rw [cut3,precision_spelled d.precise rfl _ ⟨digit3,dot3⟩,← cut3,Option.bind_eq_bind,Option.bind_some]
  simp only [skipLong_spelled plain]
  simp only [Bool.false_or,ne_eq,not_true,if_false]
  change (convert ctx d.spec d.letter _).bind _ = _
  cases convert ctx d.spec d.letter (d.conversion.args ++ args) <;> rfl

/-! ### What they print -/

theorem length_int (d : Directive ctx) : d.length ≤ 2147483647 := by
  have fits := d.wide.1
  unfold Directive.length
  cases width : d.width with
  | absent => decide
  | digits n =>
    rw [width] at fits
    exact fits
  | argument word =>
    rw [width] at fits
    have less := word.toNat_lt
    have some : word.toNat ≠ 2147483648 := fits
    simp only [Size.value,long]
    omega

theorem printNum_spec (d : Directive ctx) (tame : -2147483600 ≤ d.prec ∧ d.prec ≤ 2147483600) (sign : UInt8)
    {base u : Nat} (big : 2 ≤ base) (small : base ≤ 16) (word : u < 4294967296) : printNum d.spec sign base u =
      some (padded d.zero d.leftward d.length ((if sign ≠ 0 then [sign] else []) ++ d.start base u)
        (d.digits base u)) := by
  have pad : d.spec.padc = 32 ∨ d.spec.padc = 48 := by
    unfold Directive.spec
    cases d.zero <;> simp
  have zero : decide (d.spec.padc = 48) = d.zero := by
    unfold Directive.spec
    cases d.zero <;> simp
  have size := length_int d
  rw [printNum_padded d.spec sign big small word pad (by simp [Directive.spec]; omega) tame,zero]
  simp [Directive.spec,Directive.start,Directive.digits]

/-- A pointer has eight digits, whatever the width. -/
theorem printNum_pointer (d : Directive ctx) (tame : -2147483600 ≤ d.prec ∧ d.prec ≤ 2147483600) {u : Nat}
    (word : u < 4294967296) :
    printNum { d.spec with padc := 48, length := 8 } 0 16 u =
      some (padded true d.leftward 8 (d.start 16 u) (d.digits 16 u)) := by
  rw [printNum_padded _ 0 (by decide) (by decide) word (.inr rfl) ⟨Int.zero_le_ofNat 8,by simp⟩ tame]
  simp [Directive.spec,Directive.start,Directive.digits]

theorem printUnsigned_num (s : Spec) (base : Nat) (word : UInt32) (args : List UInt32) :
    printUnsigned s base (word :: args) = (printNum s 0 base word.toNat).map (·,args) := by
  rw [printUnsigned,vaArg,Option.bind_eq_bind,Option.bind_some]
  simp only
  cases printNum s 0 base word.toNat <;> rfl

/-- A signed number is printed with its sign before its amount. -/
theorem printSigned_num (s : Spec) (base : Nat) (word : UInt32) (args : List UInt32) :
    printSigned s base (word :: args) = (printNum s (if long word.toNat < 0 then 45 else s.plusSign) base
      (long word.toNat).natAbs).map (·,args) := by
  rw [printSigned,vaArg,Option.bind_eq_bind,Option.bind_some]
  simp only [printLong]
  generalize long word.toNat = n
  by_cases positive : 0 ≤ n
  · rw [if_pos positive,if_neg (show ¬ n < 0 by omega),show n.toNat = n.natAbs by omega]
    cases printNum s s.plusSign base n.natAbs <;> rfl
  · rw [if_neg positive,if_pos (show n < 0 by omega),show (-n).toNat = n.natAbs by omega]
    cases printNum s 45 base n.natAbs <;> rfl

theorem long_word (word : UInt32) : (long word.toNat).natAbs < 4294967296 := by
  unfold long
  omega

/-- The character for the sign of a number. -/
theorem sign_spec (d : Directive ctx) (n : Int) :
    (if (if n < 0 then 45 else d.spec.plusSign) ≠ 0 then [if n < 0 then 45 else d.spec.plusSign] else []) =
      if n < 0 then [45] else d.positive := by
  by_cases negative : n < 0
  · simp only [if_pos negative]
    rfl
  · simp only [if_neg negative]
    unfold Directive.spec Directive.positive
    dsimp only
    split
    · rfl
    split <;> rfl

theorem convert_unsigned (s : Spec) {c : UInt8} {base : Base} {word : UInt32}
    (spelled : (Conversion.unsigned base word).Letter c) (args : List UInt32) :
    convert ctx s c args = printUnsigned s (base.value ctx) args := by
  cases base <;> (rcases spelled with rfl | rfl <;> rfl)

theorem convert_signed (s : Spec) {c : UInt8} {base : Base} {word : UInt32}
    (spelled : (Conversion.signed base word).Letter c) (args : List UInt32) :
    convert ctx s c args = printSigned s (base.value ctx) args := by
  cases base with
  | octal => exact spelled.elim
  | decimal => rcases spelled with rfl | rfl | rfl <;> rfl
  | hexadecimal | default => rcases spelled with rfl | rfl <;> rfl

/-- The conversion prints what the directive is to print. -/
theorem convert_output (d : Directive ctx) (tame : d.Tame) (args : List UInt32) :
    convert ctx d.spec d.letter (d.conversion.args ++ args) = some (d.output,args) := by
  have spelled := d.spelled
  have fits := d.fits
  unfold Directive.Tame at tame
  unfold Directive.output
  cases kind : d.conversion with
  | bits u p base fields =>
    rw [kind] at spelled fits
    obtain ⟨big,small,fit,described⟩ := fits
    rcases spelled with letter | letter <;>
      simp [letter,convert,Conversion.args,vaArg,described,printBits_fields u.toNat_lt big small fit]
  | char word =>
    rw [kind] at spelled
    simp [show d.letter = 99 from spelled,convert,Conversion.args,vaArg]
  | string p =>
    rw [kind] at spelled
    simp [show d.letter = 115 from spelled,convert,Conversion.args,vaArg,printString_cut d d.spec rfl rfl rfl]
  | unsigned base word =>
    rw [kind] at spelled fits tame
    rw [convert_unsigned d.spec spelled]
    exact (printUnsigned_num _ _ word args).trans
      (by rw [printNum_spec d (tame trivial) 0 fits.1 fits.2 word.toNat_lt]; rfl)
  | signed base word =>
    rw [kind] at spelled fits tame
    rw [convert_signed d.spec spelled]
    exact (printSigned_num _ _ word args).trans
      (by rw [printNum_spec d (tame trivial) _ fits.1 fits.2 (long_word word),sign_spec]; rfl)
  | pointer word =>
    rw [kind] at spelled tame
    simp [show d.letter = 112 from spelled,convert,Conversion.args,vaArg,printUnsigned,
      printNum_pointer d (tame trivial) word.toNat_lt]
  | itself =>
    rw [kind] at spelled
    have other := spelled.1
    simp only [letters,List.mem_cons,List.not_mem_nil,or_false,not_or] at other
    simp [convert,Conversion.args,other]

/-- A directive is read as it is spelled, and prints what it is to print. -/
theorem directive_output (d : Directive ctx) (tame : d.Tame) (args : List UInt32) (fmt : List UInt8) :
    directive ctx (d.args ++ args) (d.chars ++ fmt) = some (d.output,args,fmt) := by
  rw [directive_read,convert_output d tame]
  rfl

/-- `_doprnt` prints what the parts of a format are to print, one after the
    other, and leaves the arguments behind theirs. -/
theorem doprnt_pieces (pieces : List (Piece ctx)) (args : List UInt32) :
    doprnt ctx (pieces.flatMap Piece.args ++ args) (pieces.flatMap Piece.chars) =
      some (pieces.flatMap Piece.output,args) := by
  induction pieces with
  | nil => exact doprnt_nil ctx args
  | cons piece pieces hyp =>
    cases piece with
    | char c plain =>
      simp only [List.flatMap_cons,Piece.args,Piece.chars,Piece.output,List.nil_append,List.singleton_append]
      rw [doprnt_char plain,hyp]
      rfl
    | directive d tame =>
      simp only [List.flatMap_cons,Piece.args,Piece.chars,Piece.output,List.cons_append,List.append_assoc]
      rw [doprnt_directive (directive_output d tame _ _),hyp]
      rfl

/-- A register with two bits that have names, described in memory at 4096. -/
def register : Context where
  radix := 0
  string _ := [8,2,66,73,84,84,87,79,1,66,73,84,79,78,69]

/-- `%b` of 3, with the names BITTWO and BITONE. -/
def bits : Directive register where
  flags := []
  zero := false
  width := .absent
  precision := .absent
  long := false
  letter := 98
  conversion := .bits 3 4096 8 [.bit 2 [66,73,84,84,87,79],.bit 1 [66,73,84,79,78,69]]
  spelled := .inl rfl
  fits := ⟨by decide,by decide,by simp [Field.Fits]; decide,rfl⟩
  wide := ⟨trivial,nofun⟩
  precise := trivial

/-- `%-*.3d` of -7 in a field of -6, which is on the right. -/
def decimal : Directive register where
  flags := [.left]
  zero := false
  width := .argument 4294967290
  precision := .digits 3
  long := false
  letter := 100
  conversion := .signed .decimal 4294967289
  spelled := .inl rfl
  fits := ⟨by decide,by decide⟩
  wide := ⟨by simp [Size.Fits],nofun⟩
  precise := by simp [Size.Fits]

/-- `"%b=%-*.3d"` prints `3<BITTWO,BITONE>=  -007`. -/
theorem doprnt_pieces_register :
    doprnt register [3,4096,4294967290,4294967289] [37,98,61,37,45,42,46,51,100] =
      some ([51,60,66,73,84,84,87,79,44,66,73,84,79,78,69,62,61,32,32,45,48,48,55],[]) :=
  doprnt_pieces [.directive bits (fun number => number.elim),.char 61 (by decide),
    .directive decimal (fun _ => ⟨by decide,by decide⟩)] []

end Psys.Directives
