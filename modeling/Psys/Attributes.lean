import Psys.Reading
import Mathlib.Tactic.IntervalCases

/-!
The files of the attribute of a console, `/sys/console/fg`, `bg` and `blink`:
which bits a write changes, and whether what is read can be written back.
-/
namespace Psys.Attributes
open Psys.State Psys.Vfs
open Psys.Reading (Served memreadAll vsnprintf percentD)

/-! ### Translation -/

/-- The files of the attribute. -/
inductive File where
  | fg
  | bg
  | blink
  deriving DecidableEq

/-- `console_fg_r` -/
def consoleFgR (attr offset len : UInt32) : Served := memreadAll (percentD (attr &&& 0x0f).toNat) offset len

/-- `console_bg_r` -/
def consoleBgR (attr offset len : UInt32) : Served := memreadAll (percentD ((attr &&& 0x70) >>> 4).toNat) offset len

/-- `console_blink_r`. It does not look at `len`. -/
def consoleBlinkR (attr offset _len : UInt32) : Served :=
  if offset = 0 then ⟨vsnprintf 1 (percentD (if (attr &&& 0x80) ≠ 0 then 1 else 0)),1⟩ else ⟨[],0⟩

/-- What the writers share: one byte is looked at, and there has to be one. -/
def consoleW (put : UInt8 → UInt32 → UInt32) (attr : UInt32) : List UInt8 → Int × UInt32
  | [] => (-1,attr)
  | c :: _ => (1,put c attr)

def putFg (c : UInt8) (attr : UInt32) : UInt32 := (attr &&& 0xfffffff0) ||| ((c.toUInt32 - 48) &&& 0x0f)
def putBg (c : UInt8) (attr : UInt32) : UInt32 := (attr &&& 0xffffff8f) ||| (((c.toUInt32 - 48) <<< (4 : UInt32)) &&& 0x70)
def putBlink (c : UInt8) (attr : UInt32) : UInt32 := if c = 48 then attr &&& 0xffffff7f else attr ||| 0x80

/-- `console_fg_w` -/
def consoleFgW : UInt32 → List UInt8 → Int × UInt32 := consoleW putFg
/-- `console_bg_w` -/
def consoleBgW : UInt32 → List UInt8 → Int × UInt32 := consoleW putBg
/-- `console_blink_w` -/
def consoleBlinkW : UInt32 → List UInt8 → Int × UInt32 := consoleW putBlink

def File.read : File → UInt32 → UInt32 → UInt32 → Served
  | .fg => consoleFgR
  | .bg => consoleBgR
  | .blink => consoleBlinkR

def File.write : File → UInt32 → List UInt8 → Int × UInt32
  | .fg => consoleFgW
  | .bg => consoleBgW
  | .blink => consoleBlinkW

/-- The bits of a file. -/
def File.mask : File → UInt32
  | .fg => 0x0f
  | .bg => 0x70
  | .blink => 0x80

/-- How many values a file can have. -/
def File.values : File → Nat
  | .fg => 16
  | .bg => 8
  | .blink => 2

/-- A write of some bytes, of which there is at least one. -/
structure Write where
  file : File
  first : UInt8
  rest : List UInt8

def Write.bytes (w : Write) : List UInt8 := w.first :: w.rest

/-- The attribute that a write leaves. -/
def Write.run (w : Write) (attr : UInt32) : UInt32 := (w.file.write attr w.bytes).2

/-- The attribute after some writes. -/
def after (attr : UInt32) (ws : List Write) : UInt32 := ws.foldl (fun attr w => w.run attr) attr

/-- The text that a read from the start gives. -/
def File.text (f : File) (attr len : UInt32) : List UInt8 :=
  (f.read attr 0 len).written.take (f.read attr 0 len).bytesRead.toNat

/-! ### Bits of a word -/

section Bits
variable {a b m : UInt32}

theorem or_and (a b c : UInt32) : (a ||| b) &&& c = (a &&& c) ||| (b &&& c) := by
  apply UInt32.eq_of_toBitVec_eq
  ext i
  simp [Bool.and_or_distrib_right]

/-- Bits that replace those under a mask are found there. -/
theorem replaced_inside (inside : b &&& m = b) : ((a &&& ~~~m) ||| b) &&& m = b := by
  rw [or_and,UInt32.and_assoc,UInt32.not_and_self,inside]
  simp

theorem replaced_outside (inside : b &&& m = b) : ((a &&& ~~~m) ||| b) &&& ~~~m = a &&& ~~~m := by
  rw [← inside,or_and,UInt32.and_assoc,UInt32.and_assoc]
  simp

theorem replaced_same (a m : UInt32) : (a &&& ~~~m) ||| (a &&& m) = a := by
  rw [UInt32.and_comm a,UInt32.and_comm a,← or_and]
  simp

theorem shifted_back (a : UInt32) : (((a &&& 0x70) >>> 4) <<< 4) &&& 0x70 = a &&& 0x70 := by
  apply UInt32.eq_of_toBitVec_eq
  simp only [UInt32.toBitVec_and,UInt32.toBitVec_shiftLeft,UInt32.toBitVec_shiftRight]
  ext i inside
  simp
  interval_cases i <;> simp

end Bits

/-! ### What a write changes -/

variable {f : File} {attr len : UInt32} {w : Write} {ws : List Write}

/-- The bits that a byte stands for. -/
def File.encode : File → UInt8 → UInt32
  | .fg, c => (c.toUInt32 - 48) &&& 0x0f
  | .bg, c => ((c.toUInt32 - 48) <<< (4 : UInt32)) &&& 0x70
  | .blink, c => if c = 48 then 0 else 0x80

theorem encode_inside (f : File) (c : UInt8) : f.encode c &&& f.mask = f.encode c := by
  cases f with
  | fg => exact (UInt32.and_assoc _ _ _).trans rfl
  | bg => exact (UInt32.and_assoc _ _ _).trans rfl
  | blink =>
    show (if c = 48 then 0 else 0x80) &&& (0x80 : UInt32) = if c = 48 then 0 else 0x80
    split <;> rfl

theorem write_cons (f : File) (attr : UInt32) (c : UInt8) (rest : List UInt8) :
    f.write attr (c :: rest) = (1,(attr &&& ~~~f.mask) ||| f.encode c) := by
  cases f with
  | fg => rfl
  | bg => rfl
  | blink =>
    show (1,putBlink c attr) = (1,(attr &&& ~~~(0x80 : UInt32)) ||| if c = 48 then 0 else 0x80)
    unfold putBlink
    by_cases off : c = 48
    · rw [if_pos off,if_pos off,UInt32.or_zero]
      rfl
    · rw [if_neg off,if_neg off]
      apply congrArg
      apply UInt32.eq_of_toBitVec_eq
      ext i inside
      simp
      interval_cases i <;> simp

/-- A write replaces the bits of its file. -/
theorem run_eq (w : Write) (attr : UInt32) : w.run attr = (attr &&& ~~~w.file.mask) ||| w.file.encode w.first :=
  congrArg Prod.snd (write_cons w.file attr w.first w.rest)

/-- The other files keep their bits. -/
theorem run_other (other : w.file ≠ f) (attr : UInt32) : w.run attr &&& f.mask = attr &&& f.mask := by
  have apart : ~~~w.file.mask &&& f.mask = f.mask := by
    cases file : w.file <;> cases f <;> first | rfl | exact absurd file other
  have outside := replaced_outside (a := attr) (encode_inside w.file w.first)
  rw [← run_eq] at outside
  rw [← apart,← UInt32.and_assoc,← UInt32.and_assoc,outside]

theorem run_own (w : Write) (attr : UInt32) : w.run attr &&& w.file.mask = w.file.encode w.first := by
  rw [run_eq]
  exact replaced_inside (encode_inside w.file w.first)

/-! ### What a read shows -/

/-- The number that a read prints. -/
def File.value : File → UInt32 → Nat
  | .fg, attr => (attr &&& 0x0f).toNat
  | .bg, attr => ((attr &&& 0x70) >>> 4).toNat
  | .blink, attr => if (attr &&& 0x80) ≠ 0 then 1 else 0

/-- It depends on the bits of the file only. -/
theorem value_mask (f : File) (attr : UInt32) : f.value (attr &&& f.mask) = f.value attr := by
  cases f <;> simp only [File.value,File.mask,UInt32.and_assoc] <;> rfl

theorem and_toNat_le (a b : UInt32) : (a &&& b).toNat ≤ b.toNat := by
  rw [UInt32.toNat_and]
  exact Nat.and_le_right

theorem value_lt (f : File) (attr : UInt32) : f.value attr < f.values := by
  cases f with
  | fg => exact Nat.lt_succ_of_le (and_toNat_le attr 0x0f)
  | bg =>
    have few := and_toNat_le attr 0x70
    show ((attr &&& 0x70) >>> 4).toNat < 8
    rw [UInt32.toNat_shiftRight,Nat.shiftRight_eq_div_pow]
    have masked : (attr &&& 0x70).toNat ≤ 112 := few
    have shift : (4 : UInt32).toNat % 32 = 4 := rfl
    rw [shift]
    omega
  | blink =>
    show (if _ then 1 else 0) < 2
    split <;> decide

/-- The byte that stands for the value of a file gives its bits. -/
theorem encode_value (f : File) (attr : UInt32) : f.encode (48 + UInt8.ofNat (f.value attr)) = attr &&& f.mask := by
  have back : ∀ v < 16, (48 + UInt8.ofNat v).toUInt32 - 48 = UInt32.ofNat v := by decide
  have inside := value_lt f attr
  cases f with
  | fg =>
    show ((48 + UInt8.ofNat (File.value .fg attr)).toUInt32 - 48) &&& 0x0f = attr &&& 0x0f
    rw [back _ inside,File.value,UInt32.ofNat_toNat,UInt32.and_assoc]
    rfl
  | bg =>
    show (((48 + UInt8.ofNat (File.value .bg attr)).toUInt32 - 48) <<< (4 : UInt32)) &&& 0x70 = attr &&& 0x70
    rw [back _ (Nat.lt_trans inside (by decide)),File.value,UInt32.ofNat_toNat]
    exact shifted_back attr
  | blink =>
    have few : attr &&& 0x80 = 0 ∨ attr &&& 0x80 = 0x80 := by
      by_cases bit : attr.toBitVec.getLsbD 7 = true
      · right
        apply UInt32.eq_of_toBitVec_eq
        ext i low
        interval_cases i <;> simp_all
      · left
        apply UInt32.eq_of_toBitVec_eq
        ext i low
        interval_cases i <;> simp_all
    unfold File.encode File.value File.mask
    rcases few with off | lit
    · simp [off]
    · simp [lit]

/-- A value below ten is encoded by its digit. -/
theorem value_encode (f : File) : ∀ v < f.values, f.value (f.encode (48 + UInt8.ofNat v)) = v := by
  cases f <;> decide

theorem percentD_digit : ∀ v < 10, percentD (v : Nat) = [48 + UInt8.ofNat v] := by decide

/-- Values of two digits all begin with the same one. -/
theorem percentD_two : ∀ v < 16, 10 ≤ v → percentD (v : Nat) = [49,38 + UInt8.ofNat v] := by decide

theorem percentD_length : ∀ v < 16, (percentD (v : Nat)).length ≤ 2 := by decide

theorem values_le (f : File) : f.values ≤ 16 := by cases f <;> decide

/-- A read with room for two characters shows all of the value. -/
theorem text_eq (f : File) (attr : UInt32) (room : 2 ≤ len) : f.text attr len = percentD (f.value attr) := by
  have short := percentD_length (f.value attr) (Nat.lt_of_lt_of_le (value_lt f attr) (values_le f))
  have whole : ∀ text : List UInt8, text.length ≤ 2 →
      (memreadAll text 0 len).written.take (memreadAll text 0 len).bytesRead.toNat = text := by
    intro text few
    have enough : 2 ≤ len.toNat := UInt32.le_iff_toNat_le.mp room
    have size := Reading.whole_of_short (show text.length < 2147483648 by omega)
    have slice : (memreadAll text 0 len).written = _ := Reading.memread_slice size 0 len
    have count : (memreadAll text 0 len).bytesRead.toNat = _ := Reading.memread_count size 0 len
    have all : (memreadAll text 0 len).written = text := by
      rw [slice]
      exact List.take_of_length_le (by simp only [UInt32.toNat_zero,List.drop_zero]; omega)
    rw [count]
    exact (List.take_length).trans all
  cases f with
  | fg => exact whole _ short
  | bg => exact whole _ short
  | blink =>
    show (if _ then (⟨vsnprintf 1 (percentD _),1⟩ : Served) else _).written.take _ = percentD ((if _ then 1 else 0 : Nat) : Int)
    by_cases lit : (attr &&& 0x80) ≠ 0
    · simp only [if_pos lit]
      rfl
    · simp only [if_neg lit]
      rfl

/-! ### Writing back -/

/-- What a write of a value in decimal is supposed to do: it changes the bits of
    its file only, and the file then reads the same. -/
structure WriteKept (attr : UInt32) (w : Write) : Prop where
  own : w.run attr &&& ~~~w.file.mask = attr &&& ~~~w.file.mask
  shown : ∀ v < w.file.values, w.bytes = percentD (v : Nat) → ∀ len, 2 ≤ len → w.file.text (w.run attr) len = w.bytes

/-- What is read from a file can be written back. -/
def WritesBack (attr : UInt32) : Prop := ∀ (f : File) (len : UInt32), 2 ≤ len → (f.write attr (f.text attr len)).2 = attr

/-- The decimal numbers of two digits that `fg` can have. -/
def TwoDigits (bytes : List UInt8) : Prop := ∃ v < 16, 10 ≤ v ∧ bytes = percentD (v : Nat)

theorem value_run (w : Write) (attr : UInt32) : w.file.value (w.run attr) = w.file.value (w.file.encode w.first) := by
  rw [← value_mask,run_own]

theorem value_few (other : f ≠ .fg) (attr : UInt32) : f.value attr < 10 := by
  have inside := value_lt f attr
  cases f with
  | fg => exact absurd rfl other
  | bg => exact inside.trans (by decide)
  | blink => exact inside.trans (by decide)

theorem fg_value_lt (attr : UInt32) : attr &&& 0x0f < 10 ↔ File.value .fg attr < 10 := UInt32.lt_iff_toNat_lt

theorem writesBack_iff (attr : UInt32) : WritesBack attr ↔ attr &&& 0x0f < 10 := by
  rw [fg_value_lt]
  constructor
  · intro back
    by_contra many
    have again := back .fg 2 (UInt32.le_refl _)
    rw [text_eq _ _ (UInt32.le_refl _),percentD_two _ (value_lt .fg attr) (Nat.not_lt.mp many),write_cons] at again
    have one := replaced_inside (a := attr) (encode_inside .fg 49)
    dsimp only at again
    rw [again] at one
    have shown : File.value .fg attr = 1 := by
      rw [← value_mask,one]
      rfl
    omega
  · intro few f len room
    have digit : f.value attr < 10 := by
      by_cases fg : f = .fg
      · rwa [fg]
      · exact value_few fg attr
    rw [text_eq f attr room,percentD_digit _ digit,write_cons,encode_value]
    exact replaced_same attr f.mask

theorem writeKept_iff (attr : UInt32) (w : Write) : WriteKept attr w ↔ (w.file = .fg → ¬ TwoDigits w.bytes) := by
  constructor
  · rintro kept fg ⟨v,inside,two,decimal⟩
    have same := kept.shown v (by rwa [fg]) decimal 2 (UInt32.le_refl _)
    rw [text_eq _ _ (UInt32.le_refl _),value_run,decimal,percentD_two v inside two] at same
    rw [percentD_two v inside two] at decimal
    obtain ⟨first,-⟩ := List.cons_eq_cons.mp decimal
    rw [fg,first] at same
    cases same
  · intro single
    refine ⟨?_,?_⟩
    · rw [run_eq]
      exact replaced_outside (encode_inside w.file w.first)
    · intro v inside decimal len room
      have digit : v < 10 := by
        by_contra two
        have narrow := values_le w.file
        have fg : w.file = .fg := by
          cases file : w.file with
          | fg => rfl
          | bg =>
            rw [file] at inside
            have small : v < 8 := inside
            omega
          | blink =>
            rw [file] at inside
            have small : v < 2 := inside
            omega
        exact single fg ⟨v,by omega,by omega,decimal⟩
      rw [percentD_digit v digit] at decimal
      obtain ⟨first,-⟩ := List.cons_eq_cons.mp decimal
      rw [text_eq _ _ room,value_run,first,value_encode _ v inside,percentD_digit v digit,decimal]

/-! ### Sequences of writes -/

/-- From an attribute on, all writes keep what they are supposed to, and in every
    state between them what is read from a file can be written back. -/
structure Promised (attr : UInt32) (ws : List Write) : Prop where
  kept : ∀ (k : Nat) (w : Write), ws[k]? = some w → WriteKept (after attr (ws.take k)) w
  back : ∀ k : Nat, WritesBack (after attr (ws.take k))

/-- The value of `fg` has one digit at first, and what is written to it starts
    with a digit, or the like, and is no number of two. -/
structure OneDigit (attr : UInt32) (ws : List Write) : Prop where
  start : attr &&& 0x0f < 10
  writes : ∀ w ∈ ws, w.file = .fg → (w.first.toUInt32 - 48) &&& 0x0f < 10 ∧ ¬ TwoDigits w.bytes

theorem promised_cons (attr : UInt32) (w : Write) (ws : List Write) :
    Promised attr (w :: ws) ↔ WriteKept attr w ∧ WritesBack attr ∧ Promised (w.run attr) ws := by
  constructor
  · intro promised
    exact ⟨promised.kept 0 w rfl,promised.back 0,fun k => promised.kept (k + 1),fun k => promised.back (k + 1)⟩
  · rintro ⟨first,start,rest⟩
    refine ⟨fun k => ?_,fun k => ?_⟩
    · cases k with
      | zero =>
        intro w' same
        cases same
        exact first
      | succ k => exact rest.kept k
    · cases k with
      | zero => exact start
      | succ k => exact rest.back k

/-- What a write makes of the value of `fg`. -/
theorem run_fg (w : Write) (attr : UInt32) :
    w.run attr &&& 0x0f = if w.file = .fg then (w.first.toUInt32 - 48) &&& 0x0f else attr &&& 0x0f := by
  by_cases fg : w.file = .fg
  · have own := run_own w attr
    rw [fg] at own
    rw [if_pos fg]
    exact own
  · rw [if_neg fg]
    exact run_other fg attr

/-- The files of the attribute keep their promise exactly as long as `fg` is only
    given values of one digit. -/
theorem promised_iff_oneDigit (attr : UInt32) (ws : List Write) : Promised attr ws ↔ OneDigit attr ws := by
  induction ws generalizing attr with
  | nil =>
    have idle : ∀ k : Nat, after attr ([].take k) = attr := fun k => by rw [List.take_nil]; rfl
    constructor
    · intro promised
      exact ⟨(writesBack_iff attr).mp (promised.back 0),fun _ member => nomatch member⟩
    · intro single
      refine ⟨?_,fun k => ?_⟩
      · intro k w given
        rw [List.getElem?_nil] at given
        cases given
      · rw [idle]
        exact (writesBack_iff attr).mpr single.start
  | cons w ws ih =>
    rw [promised_cons,writeKept_iff,writesBack_iff,ih]
    have written := run_fg w attr
    constructor
    · rintro ⟨single,start,rest⟩
      have next := rest.start
      refine ⟨start,List.forall_mem_cons.mpr ⟨?_,rest.writes⟩⟩
      intro fg
      rw [written,if_pos fg] at next
      exact ⟨next,single fg⟩
    · intro single
      obtain ⟨first,later⟩ := List.forall_mem_cons.mp single.writes
      refine ⟨fun fg => (first fg).2,single.start,?_,later⟩
      rw [written]
      split
      · rename_i fg
        exact (first fg).1
      · exact single.start

/-- After `12` was written to `fg`, it reads `1`. -/
theorem promised_iff_oneDigit_twelve :
    File.text .fg (after 0x07 [⟨.fg,49,[50]⟩]) 80 = [49] ∧ ¬ Promised 0x07 [⟨.fg,49,[50]⟩] := by
  refine ⟨by decide,?_⟩
  intro promised
  have same := (promised.kept 0 _ rfl).shown 12 (by decide) (by decide) 80 (by decide)
  exact absurd same (by decide)

/-! ### In the handlers -/

def File.readOp : File → ReadOp
  | .fg => .fg
  | .bg => .bg
  | .blink => .blink

def File.writeOp : File → WriteOp
  | .fg => .fg
  | .bg => .bg
  | .blink => .blink

/-- The callbacks of `read` are these readers. -/
theorem callback_read (src : Reading.Sources) (f : File) : Reading.callback src f.readOp = f.read src.currentAttr := by
  cases f <;> rfl

/-- The callbacks of `write` are these writers: the first byte is all that they
    look at, and the attribute is all that they change. -/
theorem writeOp_write (f : File) (node : Node) (len : Nat) (buf : Provenance.Pointer) :
    Handlers.writeOp f.writeOp node len buf =
      Handlers.writeFirst len buf (fun c m => { m with currentAttr := (f.write m.currentAttr [c]).2 }) := by
  cases f <;> rfl

end Psys.Attributes
