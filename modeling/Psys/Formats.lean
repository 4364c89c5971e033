import Psys.Converse
import Psys.Numerals
import Psys.Reading

/-!
`doprnt.c`: what a format puts out for its arguments, character by character.
-/
namespace Psys.Formats
open Psys.State (long)
open Psys.Numerals

/-! ### Translation -/

/-- Local variables of `_doprnt` that a directive starts from. -/
structure Spec where
  length : Int := 0
  prec : Int := -1
  ladjust : Bool := false
  padc : UInt8 := 32
  plusSign : UInt8 := 0
  altfmt : Bool := false
  deriving DecidableEq

/-- What a call of `_doprnt` can see besides its format: the default radix, and
    the strings in memory. A string is the characters before its terminator. -/
structure Context where
  radix : Nat
  string : UInt32 → List UInt8

/-- `va_arg`. To read more than has been passed is undefined. -/
def vaArg : List UInt32 → Option (UInt32 × List UInt32)
  | [] => none
  | word :: args => some (word,args)

/-- `isdigit` -/
def isdigit (c : UInt8) : Bool := 48 ≤ c && c ≤ 57

/-- The flags. -/
def flags (s : Spec) : List UInt8 → Spec × List UInt8
  | [] => (s,[])
  | c :: fmt =>
    if c = 35 then flags { s with altfmt := true } fmt
    else if c = 45 then flags { s with ladjust := true } fmt
    else if c = 43 then flags { s with plusSign := 43 } fmt
    else if c = 32 then flags { s with plusSign := if s.plusSign = 0 then 32 else s.plusSign } fmt
    else (s,c :: fmt)

/-- The zero of zero padding. -/
def zero (s : Spec) : List UInt8 → Spec × List UInt8
  | 48 :: fmt => ({ s with padc := 48 },fmt)
  | fmt => (s,fmt)

/-- The digits of a number. An `int` does not overflow. -/
def number (v : Int) : List UInt8 → Option (Int × List UInt8)
  | [] => some (v,[])
  | c :: fmt =>
    if isdigit c then
      if 10 * v + (c.toNat - 48) ≤ 2147483647 then number (10 * v + (c.toNat - 48)) fmt else none
    else some (v,c :: fmt)

def INT_MIN : Int := -2147483648

/-- A width that is an argument. `INT_MIN` has no negation. -/
def widthArgument (s : Spec) (length : Int) : Option Spec :=
  if length = INT_MIN then none
  else if length < 0 then some { s with ladjust := !s.ladjust, length := -length }
  else some { s with length := length }

/-- The width. -/
def width (s : Spec) (args : List UInt32) : List UInt8 → Option (Spec × List UInt32 × List UInt8)
  | [] => some (s,args,[])
  | c :: fmt =>
    if isdigit c then do
      let (length,fmt) ← number s.length (c :: fmt)
      return ({ s with length := length },args,fmt)
    else if c = 42 then do
      let (word,args) ← vaArg args
      let s ← widthArgument s (long word.toNat)
      return (s,args,fmt)
    else some (s,args,c :: fmt)

/-- The precision. -/
def precision (s : Spec) (args : List UInt32) : List UInt8 → Option (Spec × List UInt32 × List UInt8)
  | 46 :: c :: fmt =>
    if isdigit c then do
      let (prec,fmt) ← number 0 (c :: fmt)
      return ({ s with prec := prec },args,fmt)
    else if c = 42 then do
      let (word,args) ← vaArg args
      return ({ s with prec := long word.toNat },args,fmt)
    else some (s,args,c :: fmt)
  | 46 :: [] => some (s,args,[])
  | fmt => some (s,args,fmt)

/-- The `l` that is ignored. -/
def skipLong : List UInt8 → List UInt8
  | 108 :: fmt => fmt
  | fmt => fmt

/-- `"0123456789abcdef"` -/
def digs : List UInt8 := [48,49,50,51,52,53,54,55,56,57,97,98,99,100,101,102,0]

def MAXBUF : Nat := 32

/-- The digits of a number, the last one first. None if the division faults, or
    if they leave the table or the buffer. -/
def digitsLoop (base : Nat) : Nat → Nat → List UInt8 → Option (List UInt8)
  | 0, _, _ => none
  | room + 1, u, p => do
    let d ← if base = 0 then none else digs[u % base]?
    if u / base = 0 then return d :: p else digitsLoop base room (u / base) (d :: p)

/-- `printnum` -/
def printnum (u base : Nat) : Option (List UInt8) := digitsLoop base MAXBUF u []

/-- `while (--n >= 0) putc(c)`: the characters, and `n` after it. An `int` wraps
    around. -/
def fill (n : Int) (c : UInt8) : List UInt8 × Int :=
  let n := long (n - 1)
  (List.replicate (n + 1).toNat c,if 0 ≤ n then -1 else n)

/-- `print_num`. What is left of the precision and of the field wraps around. -/
def printNum (s : Spec) (signChar : UInt8) (base u : Nat) : Option (List UInt8) := do
  let sign := if signChar ≠ 0 then [signChar] else []
  let start := if u ≠ 0 ∧ s.altfmt then if base = 8 then [48] else if base = 16 then [48,120] else [] else []
  let p ← digitsLoop base MAXBUF u []
  let prec := long (s.prec - p.length)
  let length := long (s.length - p.length - sign.length - start.length)
  let length := if prec > 0 then long (length - prec) else length
  let (blanks,length) := if s.padc = 32 ∧ ¬ s.ladjust then fill length 32 else ([],length)
  let (more,_) := fill prec 48
  let (zeros,length) := if s.padc = 48 then fill length 48 else ([],length)
  let (behind,_) := if s.ladjust then fill length 32 else ([],length)
  return blanks ++ sign ++ start ++ more ++ zeros ++ p ++ behind

/-- A signed number in its field. -/
def printLong (s : Spec) (base : Nat) (n : Int) : Option (List UInt8) :=
  if 0 ≤ n then printNum s s.plusSign base n.toNat else printNum s 45 base (-n).toNat

/-- `print_signed` -/
def printSigned (s : Spec) (base : Nat) (args : List UInt32) : Option (List UInt8 × List UInt32) := do
  let (word,args) ← vaArg args
  let out ← printLong s base (long word.toNat)
  return (out,args)

/-- `print_unsigned`. `sign_char` is still zero. -/
def printUnsigned (s : Spec) (base : Nat) (args : List UInt32) : Option (List UInt8 × List UInt32) := do
  let (word,args) ← vaArg args
  let out ← printNum s 0 base word.toNat
  return (out,args)

/-- The count of the characters that `%s` is going to print. -/
def countString (prec n : Int) : List UInt8 → Int
  | [] => n
  | _ :: p => if n < prec then countString prec (n + 1) p else n

/-- The characters that `%s` prints, and `n` after them. -/
def stringLoop (prec n : Int) : List UInt8 → List UInt8 × Int
  | [] => ([],n)
  | c :: p => if n + 1 > prec then ([],n + 1) else (c :: (stringLoop prec (n + 1) p).1,(stringLoop prec (n + 1) p).2)

/-- `%s` -/
def printString (s : Spec) (p : List UInt8) : List UInt8 :=
  let prec := if s.prec = -1 then 0x7fffffff else s.prec
  let before := if s.length > 0 ∧ ¬ s.ladjust then List.replicate (s.length - countString prec 0 p).toNat 32 else []
  let (shown,n) := stringLoop prec 0 p
  before ++ shown ++ if n < s.length ∧ s.ladjust then List.replicate (s.length - n).toNat 32 else []

/-- A `char` as an `int`. -/
def char (c : UInt8) : Int := if c < 128 then c.toNat else c.toNat - 256

/-- The characters of a name: those over 32. -/
def isName (c : UInt8) : Bool := char c > 32

/-- The comma between the parts, or the bracket before the first. -/
def separator (any : Bool) : UInt8 := if any then 44 else 60

/-- The bits `j` to `i` of a number, counted from one. None if a shift is undefined. -/
def bitField (u : Nat) (i j : Int) : Option Nat :=
  if 1 ≤ j ∧ j ≤ 32 ∧ 0 ≤ i - j ∧ i - j ≤ 31 then
    some ((u >>> (j - 1).toNat) &&& (2 <<< (i - j).toNat - 1))
  else none

/-- `u & (1 << (i - 1))`. None if the shift is undefined. -/
def bitSet (u : Nat) (i : Int) : Option Bool := if 1 ≤ i ∧ i ≤ 32 then some (u.testBit (i - 1).toNat) else none

/-- The loop of `%b` over the names of the bits: the characters, and `any`. It
    takes the terminator for a number if a bit has no name. -/
def bitsLoop (u base : Nat) (any : Bool) : List UInt8 → Option (List UInt8 × Bool)
  | [] => some ([],any)
  | i :: p =>
    match p with
    | [] => none
    | c :: p =>
      if isName c then do
        let set ← bitSet u (char i)
        let name := if set then separator any :: (c :: p).takeWhile isName else []
        let (rest,any) ← bitsLoop u base (any || set) (p.dropWhile isName)
        return (name ++ rest,any)
      else do
        let value ← bitField u (char i) (char c)
        let value ← printnum value base
        let (rest,any') ← bitsLoop u base true (p.dropWhile isName)
        return (separator any :: (p.takeWhile isName ++ value) ++ rest,any')
  termination_by p => p.length
  decreasing_by
    all_goals
      have shorter := (List.dropWhile_suffix (l := p) isName).length_le
      simp only [List.length_cons]
      omega

/-- `%b` -/
def printBits (u : Nat) (p : List UInt8) : Option (List UInt8) := do
  let base := (char (p.headD 0) % 4294967296).toNat
  let number ← printnum u base
  if u = 0 then return number
  else
    let (bits,any) ← bitsLoop u base false p.tail
    return number ++ bits ++ if any then [62] else []

/-- The `switch` on the conversion. -/
def convert (ctx : Context) (s : Spec) (c : UInt8) (args : List UInt32) : Option (List UInt8 × List UInt32) := do
  if c = 98 ∨ c = 66 then
    let (u,args) ← vaArg args
    let (p,args) ← vaArg args
    let out ← printBits u.toNat (ctx.string p)
    return (out,args)
  else if c = 99 then
    let (word,args) ← vaArg args
    return ([word.toUInt8],args)
  else if c = 115 then
    let (p,args) ← vaArg args
    return (printString s (if p = 0 then [] else ctx.string p),args)
  else if c = 111 ∨ c = 79 then printUnsigned s 8 args
  else if c = 100 ∨ c = 105 ∨ c = 68 then printSigned s 10 args
  else if c = 117 ∨ c = 85 then printUnsigned s 10 args
  else if c = 112 then
    let (out,args) ← printUnsigned { s with padc := 48, length := 8 } 16 args
    return (48 :: 120 :: out,args)
  else if c = 120 ∨ c = 88 then printUnsigned s 16 args
  else if c = 122 ∨ c = 90 then printSigned s 16 args
  else if c = 114 ∨ c = 82 then printSigned s ctx.radix args
  else if c = 110 ∨ c = 78 then printUnsigned s ctx.radix args
  else return ([c],args)

/-- A directive, behind its `%`: the characters, and the rest of the arguments
    and of the format. -/
def directive (ctx : Context) (args : List UInt32) (fmt : List UInt8) :
    Option (List UInt8 × List UInt32 × List UInt8) := do
  let (s,fmt) := flags {} fmt
  let (s,fmt) := zero s fmt
  let (s,args,fmt) ← width s args fmt
  let (s,args,fmt) ← precision s args fmt
  match skipLong fmt with
  | [] => return ([],args,[])
  | c :: fmt =>
    let (out,args) ← convert ctx s c args
    return (out,args,fmt)

/-! ### The format -/

theorem flags_suffix (s : Spec) (fmt : List UInt8) : (flags s fmt).2 <:+ fmt := by
  fun_induction flags s fmt with
  | case1 => exact List.suffix_refl _
  | case2 _ _ hyp => exact hyp.trans (List.suffix_cons _ _)
  | case3 _ _ _ hyp => exact hyp.trans (List.suffix_cons _ _)
  | case4 _ _ _ _ hyp => exact hyp.trans (List.suffix_cons _ _)
  | case5 _ _ _ _ _ hyp => exact hyp.trans (List.suffix_cons _ _)
  | case6 => exact List.suffix_refl _

theorem zero_suffix (s : Spec) (fmt : List UInt8) : (zero s fmt).2 <:+ fmt := by
  unfold zero
  split
  · exact List.suffix_cons _ _
  · exact List.suffix_refl _

theorem number_suffix {v v' : Int} {fmt fmt' : List UInt8} (ran : number v fmt = some (v',fmt')) : fmt' <:+ fmt := by
  fun_induction number v fmt with
  | case1 =>
    cases ran
    exact List.suffix_refl _
  | case2 _ _ _ _ _ hyp => exact (hyp ran).trans (List.suffix_cons _ _)
  | case3 => cases ran
  | case4 =>
    cases ran
    exact List.suffix_refl _

theorem width_suffix {s s' : Spec} {args args' : List UInt32} {fmt fmt' : List UInt8}
    (ran : width s args fmt = some (s',args',fmt')) : fmt' <:+ fmt := by
  cases fmt with
  | nil =>
    cases ran
    exact List.suffix_refl _
  | cons c fmt =>
    rw [width] at ran
    split at ran
    · obtain ⟨⟨v,rest⟩,read,same⟩ := Option.bind_eq_some_iff.mp ran
      cases same
      exact number_suffix read
    split at ran
    · obtain ⟨⟨word,rest⟩,-,ran⟩ := Option.bind_eq_some_iff.mp ran
      obtain ⟨s1,-,same⟩ := Option.bind_eq_some_iff.mp ran
      cases same
      exact List.suffix_cons _ _
    · cases ran
      exact List.suffix_refl _

theorem precision_suffix {s s' : Spec} {args args' : List UInt32} {fmt fmt' : List UInt8}
    (ran : precision s args fmt = some (s',args',fmt')) : fmt' <:+ fmt := by
  unfold precision at ran
  split at ran
  next c fmt =>
    have behind : ∀ {rest : List UInt8}, rest <:+ c :: fmt → rest <:+ 46 :: c :: fmt := fun suffix =>
      suffix.trans (List.suffix_cons _ _)
    split at ran
    · obtain ⟨⟨v,rest⟩,read,same⟩ := Option.bind_eq_some_iff.mp ran
      cases same
      exact behind (number_suffix read)
    split at ran
    · obtain ⟨⟨word,rest⟩,-,same⟩ := Option.bind_eq_some_iff.mp ran
      cases same
      exact behind (List.suffix_cons _ _)
    · cases ran
      exact behind (List.suffix_refl _)
  · cases ran
    exact List.nil_suffix
  · cases ran
    exact List.suffix_refl _

theorem skipLong_suffix (fmt : List UInt8) : skipLong fmt <:+ fmt := by
  unfold skipLong
  split
  · exact List.suffix_cons _ _
  · exact List.suffix_refl _

/-- A directive goes on behind its `%`. -/
theorem directive_suffix {ctx : Context} {args args' : List UInt32} {fmt fmt' out : List UInt8}
    (ran : directive ctx args fmt = some (out,args',fmt')) : fmt' <:+ fmt := by
  have start := (zero_suffix (flags {} fmt).1 (flags {} fmt).2).trans (flags_suffix {} fmt)
  obtain ⟨⟨s,args1,fmt1⟩,wide,ran⟩ := Option.bind_eq_some_iff.mp ran
  obtain ⟨⟨s,args2,fmt2⟩,precise,ran⟩ := Option.bind_eq_some_iff.mp ran
  have behind : skipLong fmt2 <:+ fmt :=
    (skipLong_suffix fmt2).trans ((precision_suffix precise).trans ((width_suffix wide).trans start))
  simp only at ran
  generalize skipLong fmt2 = rest at ran behind
  cases rest with
  | nil =>
    cases ran
    exact List.nil_suffix
  | cons c rest =>
    obtain ⟨⟨out,args3⟩,-,same⟩ := Option.bind_eq_some_iff.mp ran
    cases same
    exact (List.suffix_cons _ _).trans behind

/-- `_doprnt`: the characters that it puts out, and the arguments that are left. -/
def doprnt (ctx : Context) (args : List UInt32) : List UInt8 → Option (List UInt8 × List UInt32)
  | [] => some ([],args)
  | c :: fmt =>
    if c ≠ 37 then do
      let (rest,args) ← doprnt ctx args fmt
      return (c :: rest,args)
    else
      match _ran : directive ctx args fmt with
      | none => none
      | some (out,args,fmt') => do
        let (rest,args) ← doprnt ctx args fmt'
        return (out ++ rest,args)
  termination_by fmt => fmt.length
  decreasing_by
    · exact Nat.lt_succ_self _
    · exact Nat.lt_succ_of_le (directive_suffix _ran).length_le

variable {ctx : Context} {args args' : List UInt32} {fmt fmt' out : List UInt8}

@[simp] theorem doprnt_nil (ctx : Context) (args : List UInt32) : doprnt ctx args [] = some ([],args) := by
  rw [doprnt]

/-- A character that is not `%` is put out. -/
theorem doprnt_char {c : UInt8} (plain : c ≠ 37) (fmt : List UInt8) :
    doprnt ctx args (c :: fmt) = (doprnt ctx args fmt).map (fun r => (c :: r.1,r.2)) := by
  rw [doprnt,if_pos plain]
  cases doprnt ctx args fmt <;> rfl

/-- A directive puts out its characters, and the format goes on behind it. -/
theorem doprnt_directive (ran : directive ctx args fmt = some (out,args',fmt')) :
    doprnt ctx args (37 :: fmt) = (doprnt ctx args' fmt').map (fun r => (out ++ r.1,r.2)) := by
  rw [doprnt,if_neg (by decide)]
  split
  next other => cases ran.symm.trans other
  next out' args1 fmt1 same =>
    cases ran.symm.trans same
    cases doprnt ctx args' fmt' <;> rfl

/-! ### Numbers -/

theorem digs_get {d : Nat} (less : d < 16) : digs[d]? = some (digitByte d) := by
  have all : ∀ i : Fin 16, digs[i.val]? = some (digitByte i.val) := by decide
  exact all ⟨d,less⟩

theorem digitsLoop_step {base : Nat} (big : 2 ≤ base) (small : base ≤ 16) (room u : Nat) (p : List UInt8) :
    digitsLoop base (room + 1) u p =
      if u < base then some (digitByte (u % base) :: p)
      else digitsLoop base room (u / base) (digitByte (u % base) :: p) := by
  have digit : u % base < base := Nat.mod_lt _ (by omega)
  rw [digitsLoop,if_neg (by omega),digs_get (by omega)]
  by_cases one : u < base
  · simp [one,Nat.div_eq_of_lt one]
  · simp [one,Nat.div_eq_zero_iff,show base ≠ 0 by omega]

/-- The digits fit into a buffer with room for a power of the base. -/
theorem digitsLoop_numeral {base : Nat} (big : 2 ≤ base) (small : base ≤ 16) (room : Nat) :
    ∀ (u : Nat) (p : List UInt8), u < base ^ (room + 1) →
      digitsLoop base (room + 1) u p = some (numeral base u ++ p) := by
  induction room with
  | zero =>
    intro u p less
    have one : u < base := by simpa using less
    rw [digitsLoop_step big small,if_pos one,numeral_small one,Nat.mod_eq_of_lt one]
    rfl
  | succ room hyp =>
    intro u p less
    rw [digitsLoop_step big small]
    by_cases one : u < base
    · rw [if_pos one,numeral_small one,Nat.mod_eq_of_lt one]
      rfl
    · have fewer : u / base < base ^ (room + 1) := Nat.div_lt_of_lt_mul (by rwa [← Nat.pow_succ'])
      rw [if_neg one,hyp _ _ fewer,numeral_step (n := u) (by omega) (by omega),List.append_assoc]
      rfl

/-- No number has more digits than the buffer has room for. -/
theorem numeral_room {base u : Nat} (big : 2 ≤ base) (word : u < 4294967296) : (numeral base u).length ≤ MAXBUF :=
  numeral_length (by decide) (lt_of_lt_of_le word (Nat.pow_le_pow_left big 32))

/-- The buffer has room for every number, in every base. -/
theorem digitsLoop_word {base u : Nat} (big : 2 ≤ base) (small : base ≤ 16) (word : u < 4294967296) :
    digitsLoop base MAXBUF u [] = some (numeral base u) := by
  have room : u < base ^ (31 + 1) := lt_of_lt_of_le word (Nat.pow_le_pow_left big 32)
  rw [MAXBUF,digitsLoop_numeral big small 31 u [] room,List.append_nil]

end Psys.Formats
