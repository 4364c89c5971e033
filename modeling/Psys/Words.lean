import Psys.Components
import Psys.Lines

/-!
A line at the prompt of the shell: where it is stored and ended, and how
`shell_execute_cmd` cuts it into words in place.
-/
namespace Psys.Words
open Psys.Vfs (Text)
open Psys.Components (NUL StringAt stringAt_of_bytes)

/-! ### Translation -/

def CMD_BUF_SIZE : Nat := 512
/-- The length of `argv`. -/
def MAX_ARGS : Nat := 16

/-- A typed line, without the newline that ends it. -/
structure Line where
  bytes : List UInt8
  plain : 10 ∉ bytes

/-- A byte as a character. -/
def asChar (c : UInt8) : Char := Char.ofUInt8 c

def Line.text (l : Line) : Text := l.bytes.map asChar

/-- What is typed and not read yet, and memory from `cmd` on. -/
abbrev Input := List UInt8 × (Int → Char)

/-- `buffer_pop`. After the line comes a newline. -/
def pop (s : Input) : UInt8 × Input := (s.1.headD 10,(s.1.tail,s.2))

/-- A byte is stored in `cmd`. -/
def store (i : Nat) (c : UInt8) (s : Input) : Input := (s.1,Function.update s.2 i (asChar c))

/-- A loop that passes characters up to the end of the string: the first two of
    `shell_execute_cmd`. -/
def pass (p : Char → Bool) (memory : Int → Char) : Nat → Int → Int
  | 0, ptr => ptr
  | turns + 1, ptr => if memory ptr ≠ NUL ∧ p (memory ptr) = true then pass p memory turns (ptr + 1) else ptr

/-- `isspace` of a character. -/
def isspace (c : Char) : Bool := Strtol.isspace c.toNat

/-- The pointers stored in `argv`, oldest first, and memory. -/
structure Args where
  memory : Int → Char
  argv : List Int

/-- The loop that cuts the line into words; none when the turns do not suffice. -/
def cut : Nat → (Int → Char) → Int → List Int → Option Args
  | 0, _, _, _ => none
  | turns + 1, memory, ptr, argv =>
    let ptr := pass isspace memory (turns + 1) ptr
    if memory ptr = NUL then some ⟨memory,argv⟩
    else
      let argv := argv ++ [ptr]
      let ptr := pass (fun c => !isspace c) memory (turns + 1) ptr
      if memory ptr = NUL then some ⟨memory,argv⟩
      else cut turns (Function.update memory ptr NUL) (ptr + 1) argv

/-- More turns than a string in `cmd` has characters. -/
def turns : Nat := CMD_BUF_SIZE + 1

/-- What the shell does with a line until it looks for the command: the index of
    the terminator that it stores in `cmd`, the arguments, and whether it goes
    on to read `argv[0]`. -/
structure Turn where
  zero : Nat
  args : Args
  first : Bool

/-- A turn of the loop of `shell_start`, with `shell_execute_cmd` up to its
    search for the command. -/
def shellTurn (l : Line) (memory : Int → Char) : Option Turn :=
  let call := Lines.consRead pop store CMD_BUF_SIZE (l.bytes,memory)
  let memory := Function.update call.rest.2 (call.result : Int) NUL
  if memory 0 = NUL then some ⟨call.result,⟨memory,[]⟩,false⟩
  else (cut turns memory 0 []).map (fun args => ⟨call.result,args,true⟩)

/-- What the words of a line are: the runs of characters that are no blanks. -/
def words (s : Text) : List Text := (s.splitOnP isspace).filter (· ≠ [])

/-! ### Words -/

theorem words_blank {c : Char} (blank : isspace c = true) (s : Text) : words (c :: s) = words s := by
  unfold words
  rw [List.splitOnP_cons_eq_if_modifyHead,if_pos blank]
  rfl

theorem words_last {w : Text} (some' : w ≠ []) (solid : ∀ c ∈ w, isspace c = false) : words w = [w] := by
  unfold words
  rw [List.splitOnP_eq_singleton solid]
  simp [some']

theorem words_word {w : Text} (some' : w ≠ []) (solid : ∀ c ∈ w, isspace c = false) {d : Char} (blank : isspace d = true)
    (s : Text) : words (w ++ d :: s) = w :: words s := by
  unfold words
  rw [List.splitOnP_append_cons_of_forall_mem solid d blank]
  simp [some']

theorem words_blanks {b : Text} (blanks : ∀ c ∈ b, isspace c = true) (s : Text) : words (b ++ s) = words s := by
  induction b with
  | nil => rfl
  | cons c b ih =>
    rw [List.cons_append,words_blank (blanks c List.mem_cons_self)]
    exact ih (fun c member => blanks c (List.mem_cons_of_mem _ member))

/-- The words have all characters that are no blanks. -/
theorem words_flatten (s : Text) : (words s).flatten = s.filter (fun c => !isspace c) := by
  unfold words
  rw [List.flatten_filter_ne_nil]
  induction s with
  | nil => rfl
  | cons c s ih =>
    rw [List.splitOnP_cons_eq_if_modifyHead]
    by_cases blank : isspace c = true
    · rw [if_pos blank]
      simp [blank,ih]
    · rw [if_neg blank]
      obtain ⟨first,rest,shape⟩ := List.exists_cons_of_ne_nil (List.splitOnP_ne_nil isspace s)
      rw [shape] at ih ⊢
      simp_all

/-! ### Strings -/

variable {memory memory' : Int → Char} {ptr : Int} {s w b r : Text} {p : Char → Bool}

/-- What follows the start of a string is a string. -/
theorem stringAt_suffix (stands : StringAt memory ptr (b ++ r)) : StringAt memory (ptr + b.length) r := by
  induction b generalizing ptr with
  | nil => simpa using stands
  | cons c b ih =>
    have later := ih stands.2.2
    have moved : ptr + 1 + (b.length : Int) = ptr + ((c :: b).length : Int) := by
      simp only [List.length_cons]
      omega
    rwa [moved] at later

/-- The start of a string is a string once it has a terminator of its own. -/
theorem stringAt_prefix (stands : StringAt memory ptr (w ++ r))
    (kept : ∀ i, ptr ≤ i → i < ptr + w.length → memory' i = memory i) (ends : memory' (ptr + w.length) = NUL) :
    StringAt memory' ptr w := by
  induction w generalizing ptr with
  | nil => simpa [StringAt] using ends
  | cons c w ih =>
    simp only [List.length_cons,Nat.cast_add,Nat.cast_one] at kept ends
    refine ⟨(kept ptr (by omega) (by omega)).trans stands.1,stands.2.1,ih stands.2.2 ?_ ?_⟩
    · intro i low high
      exact kept i (by omega) (by omega)
    · rwa [show ptr + 1 + (w.length : Int) = ptr + (w.length + 1) by omega]

theorem stringAt_kept (stands : StringAt memory ptr w)
    (kept : ∀ i, ptr ≤ i → i ≤ ptr + w.length → memory' i = memory i) : StringAt memory' ptr w := by
  have whole : StringAt memory ptr (w ++ []) := by rwa [List.append_nil]
  have ends : memory (ptr + w.length) = NUL := stringAt_suffix whole
  exact stringAt_prefix whole (fun i low high => kept i low (by omega)) ((kept _ (by omega) (by omega)).trans ends)

/-- The terminator is no character of a string. -/
theorem stringAt_real (stands : StringAt memory ptr s) : NUL ∉ s := by
  induction s generalizing ptr with
  | nil => exact List.not_mem_nil
  | cons c s ih =>
    rw [List.mem_cons,not_or]
    exact ⟨Ne.symm stands.2.1,ih stands.2.2⟩

/-- A string begins with a run of characters of one kind. -/
theorem exists_run (p : Char → Bool) (s : Text) :
    ∃ b r, s = b ++ r ∧ (∀ c ∈ b, p c = true) ∧ ∀ c ∈ r.head?, p c = false := by
  refine ⟨s.takeWhile p,s.dropWhile p,List.takeWhile_append_dropWhile.symm,fun c member => List.mem_takeWhile_imp member,?_⟩
  intro c first
  have stops := List.head?_dropWhile_not p s
  rw [first] at stops
  exact stops

/-- A loop stops behind the characters that it passes. -/
theorem pass_eq (stands : StringAt memory ptr (b ++ r)) (all : ∀ c ∈ b, p c = true) (stops : ∀ c ∈ r.head?, p c = false)
    {n : Nat} (enough : b.length ≤ n) : pass p memory n ptr = ptr + b.length := by
  induction b generalizing n ptr with
  | nil =>
    simp only [List.length_nil,Nat.cast_zero,add_zero]
    cases n with
    | zero => rfl
    | succ n =>
      unfold pass
      rw [if_neg]
      rintro ⟨real,passed⟩
      cases r with
      | nil => exact real stands
      | cons c r =>
        rw [stands.1,stops c rfl] at passed
        cases passed
  | cons c b ih =>
    cases n with
    | zero => cases enough
    | succ n =>
      unfold pass
      rw [stands.1,if_pos ⟨stands.2.1,all c List.mem_cons_self⟩,
        ih stands.2.2 (fun c member => all c (List.mem_cons_of_mem _ member)) (Nat.le_of_succ_le_succ enough)]
      simp only [List.length_cons]
      omega

/-! ### Cutting -/

/-- The loop stores a pointer to each word of the string, and changes nothing in
    front of it. -/
theorem cut_words {n : Nat} (stands : StringAt memory ptr s) (enough : s.length < n) (argv : List Int) :
    ∃ memory' new, cut n memory ptr argv = some ⟨memory',argv ++ new⟩ ∧ (∀ i < ptr, memory' i = memory i) ∧
      List.Forall₂ (StringAt memory') new (words s) := by
  induction n generalizing memory ptr s argv with
  | zero => cases enough
  | succ n ih =>
    obtain ⟨b,r,rfl,blanks,solid⟩ := exists_run isspace s
    have skipped := pass_eq stands blanks solid (by simp only [List.length_append] at enough; omega : b.length ≤ n + 1)
    rw [cut,skipped,words_blanks blanks]
    have rest := stringAt_suffix stands
    cases r with
    | nil =>
      rw [if_pos (show memory _ = NUL from rest)]
      exact ⟨memory,[],by rw [List.append_nil],fun _ _ => rfl,.nil⟩
    | cons c r =>
      rw [if_neg (by rw [rest.1]; exact rest.2.1)]
      obtain ⟨w,t,cut',word,blank⟩ := exists_run (fun c => !isspace c) (c :: r)
      have some' : w ≠ [] := by
        rintro rfl
        rw [List.nil_append] at cut'
        have first := blank c (by rw [← cut']; rfl)
        rw [solid c rfl] at first
        cases first
      have word' : ∀ c ∈ w, isspace c = false := fun c member => by simpa using word c member
      have lengths := congrArg List.length cut'
      rw [List.length_append] at lengths enough
      rw [cut'] at rest ⊢
      have passed := pass_eq rest word blank (by omega : w.length ≤ n + 1)
      have behind := stringAt_suffix rest
      dsimp only
      rw [passed]
      cases t with
      | nil =>
        rw [if_pos (show memory _ = NUL from behind),List.append_nil,words_last some' word']
        rw [List.append_nil] at rest
        exact ⟨memory,[ptr + b.length],rfl,fun _ _ => rfl,.cons rest .nil⟩
      | cons d t =>
        have blank' : isspace d = true := by simpa using blank d rfl
        rw [if_neg (by rw [behind.1]; exact behind.2.1),words_word some' word' blank']
        have later : StringAt (Function.update memory (ptr + b.length + w.length) NUL) (ptr + b.length + w.length + 1) t := by
          apply stringAt_kept behind.2.2
          intro i low _
          exact Function.update_of_ne (by omega) _ _
        simp only [List.length_cons] at lengths enough
        obtain ⟨memory',new,ran,kept,strings⟩ := ih later (by omega) (argv ++ [ptr + b.length])
        refine ⟨memory',(ptr + b.length) :: new,?_,?_,.cons ?_ strings⟩
        · rw [ran,List.append_assoc]
          rfl
        · intro i before
          rw [kept i (by omega)]
          exact Function.update_of_ne (by omega) _ _
        · apply stringAt_prefix rest
          · intro i low high
            rw [kept i (by omega)]
            exact Function.update_of_ne (by omega) _ _
          · rw [kept _ (by omega)]
            exact Function.update_self ..

/-! ### The line in `cmd` -/

theorem asChar_NUL (c : UInt8) : asChar c = NUL ↔ c = 0 := by
  constructor
  · intro same
    have zero : (asChar c).toNat = 0 := congrArg Char.toNat same
    exact UInt8.toNat_inj.mp zero
  · rintro rfl
    rfl

theorem text_real (l : Line) : NUL ∈ l.text ↔ 0 ∈ l.bytes := by
  unfold Line.text
  rw [List.mem_map]
  constructor
  · rintro ⟨c,member,same⟩
    exact (asChar_NUL c).mp same ▸ member
  · exact fun member => ⟨0,member,rfl⟩

/-- `cons_read` stores the line, as far as it fits. -/
theorem consReadLoop_line {len left : Nat} (inside : left ≤ len) {bytes : List UInt8} (plain : 10 ∉ bytes)
    (memory : Int → Char) :
    let call := Lines.consReadLoop pop store len left (bytes,memory)
    call.result = len - left + min left bytes.length ∧
      (∀ i : Int, i < (len - left : Nat) → call.rest.2 i = memory i) ∧
      ∀ k c, bytes[k]? = some c → k < left → call.rest.2 ((len - left + k : Nat) : Int) = asChar c := by
  induction left generalizing bytes memory with
  | zero => exact ⟨by simp [Lines.consReadLoop],fun _ _ => rfl,fun _ _ _ below => absurd below (Nat.not_lt_zero _)⟩
  | succ left ih =>
    rw [Lines.consReadLoop]
    cases bytes with
    | nil =>
      refine ⟨by simp [pop],fun _ _ => rfl,?_⟩
      intro k c given
      rw [List.getElem?_nil] at given
      cases given
    | cons c rest =>
      rw [List.mem_cons,not_or] at plain
      obtain ⟨result,before,stored⟩ := ih (by omega) plain.2 (Function.update memory (len - (left + 1) : Nat) (asChar c))
      have other : (pop (c :: rest,memory)).1 ≠ 10 := Ne.symm plain.1
      simp only [if_neg other]
      refine ⟨?_,?_,?_⟩
      · refine result.trans ?_
        simp only [List.length_cons]
        omega
      · intro i earlier
        refine (before i (by omega)).trans ?_
        exact Function.update_of_ne (by omega) _ _
      · intro k d given below
        cases k with
        | zero =>
          obtain rfl : c = d := Option.some.inj given
          refine (before _ (by omega)).trans ?_
          exact Function.update_self ..
        | succ k =>
          have next := stored k d given (by omega)
          rwa [show len - left + k = len - (left + 1) + (k + 1) by omega] at next

/-- Characters with a terminator behind them are a string. -/
theorem stringAt_of_cells (real : NUL ∉ s) (cells : ∀ k c, s[k]? = some c → memory (ptr + (k : Nat)) = c)
    (ends : memory (ptr + s.length) = NUL) : StringAt memory ptr s := by
  induction s generalizing ptr with
  | nil => simpa [StringAt] using ends
  | cons c s ih =>
    rw [List.mem_cons,not_or] at real
    refine ⟨by simpa using cells 0 c rfl,Ne.symm real.1,ih real.2 ?_ ?_⟩
    · intro k d given
      have next := cells (k + 1) d given
      rwa [show ptr + ((k + 1 : Nat) : Int) = ptr + 1 + k by omega] at next
    · rwa [show ptr + ((c :: s).length : Int) = ptr + 1 + s.length by simp only [List.length_cons]; omega] at ends

/-- What `cmd` holds when `shell_execute_cmd` is called. -/
def ended (l : Line) (memory : Int → Char) : Int → Char :=
  let call := Lines.consRead pop store CMD_BUF_SIZE (l.bytes,memory)
  Function.update call.rest.2 (call.result : Int) NUL

theorem consRead_result (l : Line) (memory : Int → Char) :
    (Lines.consRead pop store CMD_BUF_SIZE (l.bytes,memory)).result = min CMD_BUF_SIZE l.bytes.length := by
  obtain ⟨result,-,-⟩ := consReadLoop_line (le_refl CMD_BUF_SIZE) l.plain memory
  refine result.trans ?_
  rw [Nat.sub_self,Nat.zero_add]

/-- A line that fits stands in `cmd` as a string. -/
theorem ended_string {l : Line} (fits : l.bytes.length < CMD_BUF_SIZE) (real : 0 ∉ l.bytes) (memory : Int → Char) :
    StringAt (ended l memory) 0 l.text := by
  have result := consRead_result l memory
  obtain ⟨-,-,stored⟩ := consReadLoop_line (le_refl CMD_BUF_SIZE) l.plain memory
  have size : l.text.length = l.bytes.length := List.length_map ..
  rw [Nat.min_eq_right fits.le] at result
  apply stringAt_of_cells (fun member => real ((text_real l).mp member))
  · intro k c given
    unfold Line.text at given
    rw [List.getElem?_map,Option.map_eq_some_iff] at given
    obtain ⟨b,byte,rfl⟩ := given
    have below : k < l.bytes.length := (List.getElem?_eq_some_iff.mp byte).1
    have here := stored k b byte (by omega)
    rw [Nat.sub_self,Nat.zero_add] at here
    unfold ended
    rw [result,zero_add,Function.update_of_ne (by omega)]
    exact here
  · unfold ended
    rw [result,size,zero_add]
    exact Function.update_self ..

/-! ### What the shell promises -/

/-- The terminator is stored in `cmd`, the arguments are the words of the line and
    fit into `argv`, and `argv[0]` is only read when there is one. -/
structure Kept (l : Line) (t : Turn) : Prop where
  zero : t.zero < CMD_BUF_SIZE
  argv : t.args.argv.length ≤ MAX_ARGS
  words : List.Forall₂ (StringAt t.args.memory) t.args.argv (words l.text)
  first : t.first = true → 1 ≤ t.args.argv.length

/-- The lines that the shell can take: short enough, without a terminator inside,
    with words that fit, and with a word unless they are empty. -/
structure Fits (l : Line) : Prop where
  short : l.bytes.length < CMD_BUF_SIZE
  real : 0 ∉ l.bytes
  few : (words l.text).length ≤ MAX_ARGS
  some' : l.bytes = [] ∨ words l.text ≠ []

theorem shellTurn_eq (l : Line) (memory : Int → Char) :
    shellTurn l memory =
      let result := (Lines.consRead pop store CMD_BUF_SIZE (l.bytes,memory)).result
      if ended l memory 0 = NUL then some ⟨result,⟨ended l memory,[]⟩,false⟩
      else (cut turns (ended l memory) 0 []).map (fun args => ⟨result,args,true⟩) := rfl

/-- No argument has a terminator inside. -/
theorem strings_real {ptrs : List Int} {strings : List Text} (stand : List.Forall₂ (StringAt memory) ptrs strings) :
    ∀ w ∈ strings, NUL ∉ w := by
  induction stand with
  | nil => exact fun _ member => nomatch member
  | cons stands _ ih =>
    rw [List.forall_mem_cons]
    exact ⟨stringAt_real stands,ih⟩

/-- The words of a line that fits are cut out of it. -/
theorem shellTurn_words {l : Line} (fits : l.bytes.length < CMD_BUF_SIZE) (real : 0 ∉ l.bytes) (memory : Int → Char) :
    ∃ t, shellTurn l memory = some t ∧ t.zero = l.bytes.length ∧
      List.Forall₂ (StringAt t.args.memory) t.args.argv (words l.text) ∧ (t.first = true ↔ l.bytes ≠ []) := by
  have stands := ended_string fits real memory
  have result := consRead_result l memory
  rw [Nat.min_eq_right fits.le] at result
  have size : l.text.length = l.bytes.length := List.length_map ..
  rw [shellTurn_eq]
  by_cases empty : l.bytes = []
  · have nothing : l.text = [] := by
      unfold Line.text
      rw [empty]
      rfl
    rw [nothing] at stands ⊢
    rw [if_pos (show ended l memory 0 = NUL from stands)]
    exact ⟨_,rfl,result,.nil,by simp [empty]⟩
  · have first : ended l memory 0 ≠ NUL := by
      cases shape : l.text with
      | nil =>
        rw [shape] at size
        exact absurd (List.eq_nil_of_length_eq_zero size.symm) empty
      | cons c rest =>
        rw [shape] at stands
        rw [stands.1]
        exact stands.2.1
    rw [if_neg first]
    obtain ⟨memory',new,ran,-,strings⟩ := cut_words stands (by unfold turns; omega : l.text.length < turns) []
    rw [ran]
    exact ⟨_,rfl,result,strings,by simp [empty]⟩

/-- The shell stores the terminator behind what it has read. -/
theorem shellTurn_zero {l : Line} {memory : Int → Char} {t : Turn} (ran : shellTurn l memory = some t) :
    t.zero = min CMD_BUF_SIZE l.bytes.length := by
  rw [← consRead_result l memory]
  unfold shellTurn at ran
  dsimp only at ran
  split at ran
  · cases ran
    rfl
  · obtain ⟨args,-,rfl⟩ := Option.map_eq_some_iff.mp ran
    rfl

/-- The shell does with a line what it promises exactly when the line is one that it
    can take. -/
theorem shellTurn_kept_iff (l : Line) (memory : Int → Char) :
    (∃ t, shellTurn l memory = some t ∧ Kept l t) ↔ Fits l := by
  constructor
  · rintro ⟨t,ran,kept⟩
    have short : l.bytes.length < CMD_BUF_SIZE := by
      have inside := kept.zero
      rw [shellTurn_zero ran] at inside
      omega
    have real : 0 ∉ l.bytes := by
      intro member
      -- The words have the terminator, which no argument has.
      have among : NUL ∈ (words l.text).flatten := by
        rw [words_flatten,List.mem_filter]
        exact ⟨(text_real l).mpr member,rfl⟩
      obtain ⟨w,word,inside⟩ := List.mem_flatten.mp among
      exact strings_real kept.words w word inside
    obtain ⟨t',ran',-,words',first⟩ := shellTurn_words short real memory
    obtain rfl := Option.some.inj (ran.symm.trans ran')
    have count := kept.words.length_eq
    refine ⟨short,real,count ▸ kept.argv,?_⟩
    by_cases empty : l.bytes = []
    · exact .inl empty
    · have one := kept.first (first.mpr empty)
      rw [count] at one
      exact .inr (List.length_pos_iff.mp one)
  · intro fits
    obtain ⟨t,ran,zero,words',first⟩ := shellTurn_words fits.short fits.real memory
    have count := words'.length_eq
    refine ⟨t,ran,zero.trans_lt fits.short,count.trans_le fits.few,words',?_⟩
    intro reads
    rw [count]
    exact List.length_pos_iff.mpr (fits.some'.resolve_left (first.mp reads))

/-- One blank. -/
theorem shellTurn_kept_blank : ¬ ∀ l memory, ∃ t, shellTurn l memory = some t ∧ Kept l t := by
  intro claim
  let l : Line := ⟨[32],by decide⟩
  obtain ⟨t,ran,kept⟩ := claim l (fun _ => NUL)
  obtain ⟨t',ran',-,-,first⟩ := shellTurn_words (l := l) (by decide) (by decide) (fun _ => NUL)
  obtain rfl := Option.some.inj (ran.symm.trans ran')
  have none' : words l.text = [] := words_blank (by decide) []
  have one := kept.first (first.mpr (by decide))
  rw [kept.words.length_eq,none'] at one
  exact absurd one (by decide)

end Psys.Words
