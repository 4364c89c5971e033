import Mathlib.Data.List.GetD
import Mathlib.Data.List.SplitBy
import Mathlib.Data.List.TakeWhile

/-!
The packets of `gdb_serial.c`: what `putfrags` sends on the serial line for the
fragments of a reply, with its runs, and how `getpacket` reads a command. A
character of the line is a byte.
-/
namespace Psys.Packets

/-! ### `putfrags` -/

/-- `hexchars` -/
def hexchar (n : UInt8) : UInt8 := if n < 10 then 48 + n else 87 + n

/-- `struct outfrag`, with the memory from `data` on. -/
structure Outfrag where
  data : List UInt8
  len : Nat
  hexify : Bool

/-- The bytes that the loop of `putfrags` comes to: without a length the data
    ends at a zero. -/
def Outfrag.bytes (f : Outfrag) : List UInt8 := if f.len = 0 then f.data.takeWhile (· != 0) else f.data.take f.len

/-- What a turn sends: a character, or a run of a character. -/
inductive Token where
  | one (ch : UInt8)
  | run (ch : UInt8) (rl : Nat)

/-- The calls of `SEND`. -/
def Token.chars : Token → List UInt8
  | one ch => [ch]
  | run ch rl => [ch,42,UInt8.ofNat (29 + rl - 1)]

/-- A turn of the loop at `p`, which is the rest of the fragment, and how far `p`
    goes. Behind a fragment without a length stands a zero. -/
def turn (sized hexify : Bool) (p : List UInt8) : List Token × Nat :=
  let ch := p.getD 0 0
  if (sized = false ∨ (if hexify then 1 else 3) < p.length) ∧ p.getD 1 0 = ch ∧
      (if hexify then ch / 16 = ch % 16 else p.getD 2 0 = ch ∧ p.getD 3 0 = ch) then
    let q := if hexify then 2 else 4
    let limit := if hexify then 98 / 2 else 98
    let q := q + (((p.take limit).drop q).takeWhile (· == ch)).length
    if hexify then ([.run (hexchar (ch % 16)) (q * 2)],q) else ([.run ch q],q)
  else if hexify then ([.one (hexchar (ch / 16)),.one (hexchar (ch % 16))],1)
  else ([.one ch],1)

/-- The turns for a fragment. -/
def turns (sized hexify : Bool) : Nat → List UInt8 → List Token
  | 0, _ => []
  | n + 1, p =>
    if p = [] then []
    else (turn sized hexify p).1 ++ turns sized hexify n (p.drop (turn sized hexify p).2)

def Outfrag.tokens (f : Outfrag) : List Token := turns (f.len != 0) f.hexify f.bytes.length f.bytes

/-- What stands between `$` and `#`. -/
def body (frags : List Outfrag) : List UInt8 := (frags.flatMap Outfrag.tokens).flatMap Token.chars

/-- `checksum` -/
def checksum (chars : List UInt8) : UInt8 := chars.foldl (· + ·) 0

/-- A packet, as `putfrags` sends it once. -/
def packet (frags : List Outfrag) : List UInt8 :=
  36 :: body frags ++ [35,hexchar (checksum (body frags) / 16),hexchar (checksum (body frags) % 16)]

/-- `putfrags` with what the line gives it to receive: what it sends and what is
    left to receive, unless it waits for ever. -/
def putfrags (frags : List Outfrag) : List UInt8 → Option (List UInt8 × List UInt8)
  | [] => none
  | ch :: input =>
    if ch &&& 0x7f = 43 then some (packet frags,input)
    else (putfrags frags input).map (fun rest => (packet frags ++ rest.1,rest.2))

/-! ### What a debugger reads -/

/-- Runs in full. -/
def expand : List UInt8 → List UInt8
  | ch :: 42 :: n :: rest => List.replicate (n.toNat - 28) ch ++ expand rest
  | ch :: rest => ch :: expand rest
  | [] => []

/-- What a debugger takes for the body of a packet, from behind a `$` on: what
    stands before `#`, from behind the last `$` on. -/
def between (acc : List UInt8) : List UInt8 → Option (List UInt8 × List UInt8)
  | [] => none
  | ch :: input => if ch = 36 then between [] input else if ch = 35 then some (acc,input) else between (acc ++ [ch]) input

/-- A packet as a debugger reads it, if the checksum is right. -/
def read : List UInt8 → Option (List UInt8)
  | [] => none
  | ch :: input =>
    if ch = 36 then
      match between [] input with
      | some (chars,high :: low :: _) =>
        if high = hexchar (checksum chars / 16) ∧ low = hexchar (checksum chars % 16) then some (expand chars) else none
      | _ => none
    else read input

/-- The text that a fragment stands for. -/
def text (hexify : Bool) (bytes : List UInt8) : List UInt8 :=
  if hexify then bytes.flatMap (fun ch => [hexchar (ch / 16),hexchar (ch % 16)]) else bytes

def Outfrag.text (f : Outfrag) : List UInt8 := Packets.text f.hexify f.bytes

def Token.text : Token → List UInt8
  | one ch => [ch]
  | run ch rl => List.replicate rl ch

/-- Tokens that a debugger reads back. -/
def Token.Fine : Token → Prop
  | one ch => ch ≠ 42
  | run ch rl => ch ≠ 42 ∧ rl ≤ 98

/-- A fragment that is sent as it is has no stars. -/
def Outfrag.Plain (f : Outfrag) : Prop := f.hexify = false → 42 ∉ f.bytes

/-- A fragment that is sent as it is is short, and its characters have no meaning
    of their own. -/
def Outfrag.Short (f : Outfrag) : Prop :=
  f.hexify = false → 42 ∉ f.bytes ∧ 35 ∉ f.bytes ∧ 36 ∉ f.bytes ∧ f.bytes.length < 4

/-- Among the runs of a byte with equal digits is one that ends in a turn over
    four bytes. -/
def Eights (bytes : List UInt8) : Prop :=
  ∃ run ∈ bytes.splitBy (· == ·), run.length % 49 = 4 ∧ run.headD 0 / 16 = run.headD 0 % 16

variable {sized hexify : Bool} {p bytes : List UInt8} {f : Outfrag} {frags : List Outfrag} {ch : UInt8}

/-! ### Turns -/

theorem hexchar_table : ∀ n : UInt8, n < 16 → hexchar n ≠ 42 ∧ hexchar n ≠ 35 ∧ hexchar n ≠ 36 := by
  intro n less
  have small : n.toNat < 16 := UInt8.lt_iff_toNat_lt.mp less
  unfold hexchar
  refine ⟨?_,?_,?_⟩ <;> split <;> intro same <;> have value := congrArg UInt8.toNat same <;> simp at value <;> omega

theorem high_lt (ch : UInt8) : ch / 16 < 16 := by
  rw [UInt8.lt_iff_toNat_lt,UInt8.toNat_div]
  have small := ch.toNat_lt
  simp
  omega

theorem low_lt (ch : UInt8) : ch % 16 < 16 := by
  rw [UInt8.lt_iff_toNat_lt,UInt8.toNat_mod]
  simp
  omega

theorem below_98 (limit m : Nat) {q : Nat} (bound : m ≤ limit)
    (eq : q = m + (((p.take limit).drop m).takeWhile (· == ch)).length) : q ≤ limit := by
  have short := (List.takeWhile_sublist (· == ch) (l := (p.take limit).drop m)).length_le
  rw [List.length_drop,List.length_take] at short
  omega

/-- As far as `q` goes, there is one character only. -/
theorem take_run (limit : Nat) {m q : Nat} (start : p.take m = List.replicate m ch)
    (eq : q = m + (((p.take limit).drop m).takeWhile (· == ch)).length) :
    p.take q = List.replicate q ch ∧ q ≤ p.length := by
  have inside : m ≤ p.length := by
    have length := congrArg List.length start
    rw [List.length_take,List.length_replicate] at length
    omega
  have same : ((p.take limit).drop m).takeWhile (· == ch) = List.replicate (q - m) ch := by
    rw [List.eq_replicate_iff]
    refine ⟨by omega,fun b there => ?_⟩
    simpa using List.mem_takeWhile_imp there
  have pre : ((p.take limit).drop m).takeWhile (· == ch) <+: p.drop m := by
    rw [List.drop_take]
    exact (List.takeWhile_prefix _).trans (List.take_prefix _ _)
  rw [same] at pre
  have more : (p.drop m).take (q - m) = List.replicate (q - m) ch := by
    have taken := List.prefix_iff_eq_take.mp pre
    rw [List.length_replicate] at taken
    exact taken.symm
  constructor
  · rw [show q = m + (q - m) by omega,List.take_add,start,more,← List.replicate_add]
  · have length := pre.length_le
    rw [List.length_replicate,List.length_drop] at length
    omega

theorem text_replicate (equal : ch / 16 = ch % 16) (q : Nat) :
    text true (List.replicate q ch) = List.replicate (q * 2) (hexchar (ch % 16)) := by
  simp only [text,if_true]
  induction q with
  | zero => rfl
  | succ q hyp =>
    rw [List.replicate_succ,List.flatMap_cons,hyp,Nat.succ_mul,equal]
    rfl

/-- A turn sends the text of the bytes that it passes over. -/
theorem turn_text (hexify : Bool) (some : p ≠ []) (ended : sized = false → 0 ∉ p) :
    (turn sized hexify p).1.flatMap Token.text = text hexify (p.take (turn sized hexify p).2) ∧
    0 < (turn sized hexify p).2 ∧ (turn sized hexify p).2 ≤ p.length := by
  obtain ⟨ch,rest,rfl⟩ := List.exists_cons_of_ne_nil some
  cases hexify with
  | true =>
    simp only [turn,List.getD_cons_zero,if_true]
    split
    next run =>
      obtain ⟨inside,second,nibbles⟩ := run
      have two : (ch :: rest).take 2 = List.replicate 2 ch := by
        match rest with
        | [] =>
          rcases inside with unsized | less
          · have zero : (0 : UInt8) = ch := second
            exact absurd (zero ▸ List.mem_cons_self) (ended unsized)
          · simp at less
        | d :: rest =>
          have same : d = ch := second
          rw [same]
          rfl
      obtain ⟨whole,length⟩ := take_run (98 / 2) two rfl
      simp only
      rw [whole,text_replicate nibbles]
      refine ⟨?_,by omega,length⟩
      simp only [List.flatMap_cons,List.flatMap_nil,List.append_nil,Token.text]
    next => simp [Token.text,text]
  | false =>
    simp only [turn,List.getD_cons_zero,Bool.false_eq_true,if_false]
    split
    next run =>
      obtain ⟨inside,second,third,fourth⟩ := run
      have four : (ch :: rest).take 4 = List.replicate 4 ch := by
        have last : 3 < (ch :: rest).length := by
          rcases inside with unsized | less
          · by_contra short
            have zero : (0 : UInt8) = ch := by
              rw [← fourth,List.getD_eq_default _ _ (by omega)]
            exact ended unsized (zero ▸ List.mem_cons_self)
          · exact less
        match rest with
        | b :: c :: d :: rest =>
          have b' : b = ch := second
          have c' : c = ch := third
          have d' : d = ch := fourth
          rw [b',c',d']
          rfl
      obtain ⟨whole,length⟩ := take_run 98 four rfl
      simp only
      rw [whole]
      refine ⟨?_,by omega,length⟩
      simp only [List.flatMap_cons,List.flatMap_nil,List.append_nil,Token.text,text,Bool.false_eq_true,if_false]
    next => simp [Token.text,text]

theorem turns_text (n : Nat) (enough : p.length ≤ n) (ended : sized = false → 0 ∉ p) :
    (turns sized hexify n p).flatMap Token.text = text hexify p := by
  induction n generalizing p with
  | zero =>
    rw [List.length_eq_zero_iff.mp (by omega : p.length = 0)]
    cases hexify <;> rfl
  | succ n hyp =>
    rw [turns]
    split
    next empty =>
      rw [empty]
      cases hexify <;> rfl
    next some =>
      obtain ⟨sent,goes,within⟩ := turn_text hexify some ended
      have left : (p.drop (turn sized hexify p).2).length ≤ n := by
        rw [List.length_drop]
        omega
      rw [List.flatMap_append,sent,hyp left (fun unsized there => ended unsized (List.mem_of_mem_drop there))]
      have cut := List.take_append_drop (turn sized hexify p).2 p
      conv_rhs => rw [← cut]
      cases hexify
      · rfl
      · simp only [text,if_true,List.flatMap_append]

theorem ended_bytes (f : Outfrag) : (f.len != 0) = false → 0 ∉ f.bytes := by
  intro unsized there
  have zero : f.len = 0 := by simpa using unsized
  rw [Outfrag.bytes,if_pos zero] at there
  have not := List.mem_takeWhile_imp there
  simp at not

theorem tokens_text (f : Outfrag) : f.tokens.flatMap Token.text = f.text :=
  turns_text _ (Nat.le_refl _) (ended_bytes f)

/-! ### What the debugger reads of them -/

theorem turn_fine (some : p ≠ []) (plain : hexify = false → 42 ∉ p) :
    ∀ token ∈ (turn sized hexify p).1, token.Fine := by
  obtain ⟨ch,rest,rfl⟩ := List.exists_cons_of_ne_nil some
  intro token there
  cases hexify with
  | true =>
    simp only [turn,List.getD_cons_zero,if_true] at there
    split at there
    · rw [List.mem_singleton] at there
      have bound := @below_98 (ch :: rest) ch (98 / 2) 2 _ (by omega) rfl
      rw [there]
      exact ⟨(hexchar_table _ (low_lt ch)).1,by omega⟩
    · simp only [List.mem_cons,List.not_mem_nil,or_false] at there
      rcases there with rfl | rfl
      · exact (hexchar_table _ (high_lt ch)).1
      · exact (hexchar_table _ (low_lt ch)).1
  | false =>
    have other : ch ≠ 42 := fun same => plain rfl (same ▸ List.mem_cons_self)
    simp only [turn,List.getD_cons_zero,Bool.false_eq_true,if_false] at there
    split at there
    · rw [List.mem_singleton] at there
      rw [there]
      exact ⟨other,below_98 98 4 (by omega) rfl⟩
    · rw [List.mem_singleton] at there
      rw [there]
      exact other

theorem turns_fine (n : Nat) (plain : hexify = false → 42 ∉ p) : ∀ token ∈ turns sized hexify n p, token.Fine := by
  induction n generalizing p with
  | zero => simp [turns]
  | succ n hyp =>
    intro token there
    rw [turns] at there
    split at there
    · simp at there
    next some =>
      rcases List.mem_append.mp there with first | later
      · exact turn_fine some plain token first
      · exact hyp (fun raw star => plain raw (List.mem_of_mem_drop star)) token later

theorem tokens_fine (plain : f.Plain) : ∀ token ∈ f.tokens, token.Fine := turns_fine _ plain

theorem expand_chars {tokens : List Token} (fine : ∀ token ∈ tokens, token.Fine) :
    expand (tokens.flatMap Token.chars) = tokens.flatMap Token.text ∧
      (tokens.flatMap Token.chars).head? ≠ some 42 := by
  induction tokens with
  | nil => simp [expand]
  | cons token tokens hyp =>
    obtain ⟨rest,starts⟩ := hyp (fun other there => fine other (List.mem_cons_of_mem _ there))
    have first := fine token List.mem_cons_self
    rw [List.flatMap_cons,List.flatMap_cons]
    cases token with
    | one ch =>
      have other : ch ≠ 42 := first
      refine ⟨?_,by simpa [Token.chars] using other⟩
      simp only [Token.chars,Token.text,List.singleton_append]
      rw [expand,rest]
      intro n left same
      rw [same] at starts
      simp at starts
    | run ch rl =>
      obtain ⟨other,bound⟩ := first
      refine ⟨?_,by simpa [Token.chars] using other⟩
      have count : (UInt8.ofNat (29 + rl - 1)).toNat - 28 = rl := by
        simp
        omega
      simp only [Token.chars,Token.text,List.cons_append,List.nil_append]
      rw [expand,rest,count]

theorem frags_fine (plain : ∀ f ∈ frags, f.Plain) : ∀ token ∈ frags.flatMap Outfrag.tokens, token.Fine := by
  intro token there
  obtain ⟨f,inside,token'⟩ := List.mem_flatMap.mp there
  exact tokens_fine (plain f inside) token token'

theorem frags_text (frags : List Outfrag) :
    (frags.flatMap Outfrag.tokens).flatMap Token.text = frags.flatMap Outfrag.text := by
  rw [List.flatMap_assoc]
  congr 1
  funext f
  exact tokens_text f

/-- What a debugger that knows runs takes for the text of a reply is the text of
    the fragments. -/
theorem expand_body (plain : ∀ f ∈ frags, f.Plain) : expand (body frags) = frags.flatMap Outfrag.text := by
  rw [body,(expand_chars (frags_fine plain)).1,frags_text]

/-- The reply `O` with ten spaces in hexadecimal. -/
theorem expand_body_spaces : expand (body [⟨[79,0],0,false⟩,⟨List.replicate 10 32,10,true⟩]) =
    [⟨[79,0],0,false⟩,⟨List.replicate 10 32,10,true⟩].flatMap Outfrag.text :=
  expand_body (by simp [Outfrag.Plain,Outfrag.bytes])

/-! ### Runs of eight characters -/

theorem turns_enough {n m : Nat} (enough : p.length ≤ n) (enough' : p.length ≤ m) (ended : sized = false → 0 ∉ p) :
    turns sized hexify n p = turns sized hexify m p := by
  induction n generalizing p m with
  | zero =>
    rw [List.length_eq_zero_iff.mp (by omega : p.length = 0)]
    cases m <;> rfl
  | succ n hyp =>
    by_cases empty : p = []
    · rw [empty]
      cases m <;> rfl
    · obtain ⟨_,goes,within⟩ := turn_text hexify empty ended
      match m with
      | 0 => exact absurd (List.length_eq_zero_iff.mp (by omega)) empty
      | m + 1 =>
        have shorter : ∀ k, p.length ≤ k + 1 → (p.drop (turn sized hexify p).2).length ≤ k := by
          intro k less
          rw [List.length_drop]
          omega
        rw [turns,turns,if_neg empty,if_neg empty,hyp (shorter n enough) (shorter m enough')
          (fun unsized there => ended unsized (List.mem_of_mem_drop there))]

theorem turns_step (hexify : Bool) (some : p ≠ []) (ended : sized = false → 0 ∉ p) :
    turns sized hexify p.length p =
      (turn sized hexify p).1 ++
        turns sized hexify (p.drop (turn sized hexify p).2).length (p.drop (turn sized hexify p).2) := by
  obtain ⟨_,goes,within⟩ := turn_text hexify some ended
  obtain ⟨n,length⟩ : ∃ n, p.length = n + 1 := ⟨p.length - 1,by omega⟩
  have left : (p.drop (turn sized hexify p).2).length ≤ n := by
    rw [List.length_drop]
    omega
  rw [length,turns,if_neg some,
    turns_enough left (Nat.le_refl _) (fun unsized there => ended unsized (List.mem_of_mem_drop there))]

/-- A turn at the start of a run of a byte with equal digits. -/
theorem turn_replicate {m : Nat} {rest : List UInt8} (equal : ch / 16 = ch % 16) (other : rest.head? ≠ some ch) :
    turn sized true (List.replicate (m + 2) ch ++ rest) =
      ([.run (hexchar (ch % 16)) (min (m + 2) 49 * 2)],min (m + 2) 49) := by
  have scanned : ((((List.replicate (m + 2) ch ++ rest).take (98 / 2)).drop 2).takeWhile (· == ch)).length =
      min (m + 2) 49 - 2 := by
    rw [List.take_append,List.take_replicate,List.length_replicate]
    have cut : (List.replicate (min (98 / 2) (m + 2)) ch ++ rest.take (98 / 2 - (m + 2))).drop 2 =
        List.replicate (min (m + 2) 49 - 2) ch ++ rest.take (98 / 2 - (m + 2)) := by
      have none : 2 - min (98 / 2) (m + 2) = 0 := by omega
      rw [List.drop_append,List.drop_replicate,List.length_replicate,none,List.drop_zero]
      congr 2
      omega
    rw [cut,List.takeWhile_append_of_pos (by simp)]
    have stops : (rest.take (98 / 2 - (m + 2))).takeWhile (· == ch) = [] := by
      match rest with
      | [] => simp
      | d :: rest =>
        match 98 / 2 - (m + 2) with
        | 0 => simp
        | k + 1 =>
          rw [List.take_succ_cons,List.takeWhile_cons_of_neg]
          simpa using other
    rw [stops,List.append_nil,List.length_replicate]
  have first : (List.replicate (m + 2) ch ++ rest).getD 0 0 = ch := rfl
  have second : (List.replicate (m + 2) ch ++ rest).getD 1 0 = ch := rfl
  have inside : 1 < (List.replicate (m + 2) ch ++ rest).length := by
    rw [List.length_append,List.length_replicate]
    omega
  rw [turn]
  simp only [if_true,first,second]
  rw [if_pos ⟨Or.inr inside,trivial,equal⟩,scanned,show 2 + (min (m + 2) 49 - 2) = min (m + 2) 49 by omega]

theorem turn_pair {rest : List UInt8} (single : ch / 16 = ch % 16 → rest.head? ≠ some ch)
    (ended : sized = false → ch ≠ 0) :
    turn sized true (ch :: rest) = ([.one (hexchar (ch / 16)),.one (hexchar (ch % 16))],1) := by
  rw [turn]
  simp only [if_true]
  rw [if_neg]
  · rfl
  · rintro ⟨inside,second,equal⟩
    match rest with
    | [] =>
      rcases inside with unsized | less
      · exact ended unsized second.symm
      · simp at less
    | d :: rest =>
      have same : d = ch := second
      exact single equal (by rw [same]; rfl)

/-- The turns over a run at the start: one of them passes over four bytes if the
    run, cut into parts of 49 bytes, leaves four. -/
theorem eight_replicate {m : Nat} {rest : List UInt8} (other : rest.head? ≠ some ch)
    (ended : sized = false → 0 ∉ List.replicate m ch ++ rest) :
    (∃ d, .run d 8 ∈ turns sized true (List.replicate m ch ++ rest).length (List.replicate m ch ++ rest)) ↔
      (m % 49 = 4 ∧ ch / 16 = ch % 16) ∨ ∃ d, .run d 8 ∈ turns sized true rest.length rest := by
  induction m using Nat.strongRecOn with
  | ind m hyp =>
    by_cases equal : ch / 16 = ch % 16
    · match m with
      | 0 => simp
      | 1 =>
        have step := turns_step true (p := List.replicate 1 ch ++ rest) (by simp) ended
        rw [step,List.replicate_one,List.singleton_append,turn_pair (fun _ => other)
          (fun unsized zero => ended unsized (by simp [zero]))]
        simp
      | m + 2 =>
        have step := turns_step true (p := List.replicate (m + 2) ch ++ rest) (by simp) ended
        have left : (List.replicate (m + 2) ch ++ rest).drop (min (m + 2) 49) =
            List.replicate (m + 2 - min (m + 2) 49) ch ++ rest := by
          rw [List.drop_append,List.drop_replicate,List.length_replicate,
            show min (m + 2) 49 - (m + 2) = 0 by omega,List.drop_zero]
        have later := hyp (m + 2 - min (m + 2) 49) (by omega) (fun unsized there => ended unsized (by
          rw [← left] at there
          exact List.mem_of_mem_drop there))
        rw [step,turn_replicate equal other,left]
        simp only [List.singleton_append,List.mem_cons,Token.run.injEq]
        constructor
        · rintro ⟨d,⟨_,eight⟩ | there⟩
          · exact Or.inl ⟨by omega,equal⟩
          · rcases later.mp ⟨d,there⟩ with ⟨four,_⟩ | rest
            · exact Or.inl ⟨by omega,equal⟩
            · exact Or.inr rest
        · rintro (⟨four,_⟩ | rest)
          · by_cases last : m + 2 < 49
            · exact ⟨hexchar (ch % 16),Or.inl ⟨rfl,by omega⟩⟩
            · obtain ⟨d,there⟩ := later.mpr (Or.inl ⟨by omega,equal⟩)
              exact ⟨d,Or.inr there⟩
          · obtain ⟨d,there⟩ := later.mpr (Or.inr rest)
            exact ⟨d,Or.inr there⟩
    · match m with
      | 0 => simp
      | m + 1 =>
        have step := turns_step true (p := List.replicate (m + 1) ch ++ rest) (by simp) ended
        have later := hyp m (by omega) (fun unsized there => ended unsized (by
          simpa [List.replicate_succ] using Or.inr there))
        rw [step,List.replicate_succ,List.cons_append,turn_pair (fun same => absurd same equal)
          (fun unsized zero => ended unsized (by simp [zero]))]
        simp only [List.drop_succ_cons,List.drop_zero,List.cons_append,List.nil_append,List.mem_cons,reduceCtorEq,
          false_or]
        rw [later]
        simp [equal]

theorem splitBy_replicate {m : Nat} {rest : List UInt8} (more : m ≠ 0) (other : rest.head? ≠ some ch) :
    (List.replicate m ch ++ rest).splitBy (· == ·) = List.replicate m ch :: rest.splitBy (· == ·) := by
  rw [List.splitBy_append,List.splitBy_of_isChain,List.singleton_append]
  · simpa using more
  · exact List.isChain_replicate_of_rel m (by simp)
  · intro x last y first
    have same : x = ch := by
      have there := List.mem_of_mem_getLast? last
      exact List.eq_of_mem_replicate there
    rw [beq_eq_false_iff_ne]
    intro equal
    rw [same] at equal
    exact other (by rw [← equal] at first; exact first)

/-- A list that begins with a run. -/
theorem run_first (ch : UInt8) (p : List UInt8) :
    ∃ m rest, ch :: p = List.replicate (m + 1) ch ++ rest ∧ rest.head? ≠ some ch := by
  induction p with
  | nil => exact ⟨0,[],rfl,by simp⟩
  | cons d p hyp =>
    by_cases same : d = ch
    · obtain ⟨m,rest,eq,other⟩ := hyp
      refine ⟨m + 1,rest,?_,other⟩
      rw [same,List.replicate_succ,List.cons_append,eq]
    · exact ⟨0,d :: p,rfl,by simpa using same⟩

/-- A turn over four bytes with equal digits takes place exactly where a run, cut
    into parts of 49 bytes, leaves four. -/
theorem eight_iff (ended : sized = false → 0 ∉ p) :
    (∃ d, .run d 8 ∈ turns sized true p.length p) ↔ Eights p := by
  induction length : p.length using Nat.strongRecOn generalizing p with
  | ind n hyp =>
    match p with
    | [] =>
      rw [← length]
      simp [turns,Eights]
    | ch :: p =>
      obtain ⟨m,rest,cut,other⟩ := run_first ch p
      rw [← length,cut,eight_replicate other (cut ▸ ended),Eights,splitBy_replicate (by omega) other]
      have shorter : rest.length < n := by
        rw [← length,cut,List.length_append,List.length_replicate]
        omega
      have later := hyp rest.length shorter (fun unsized there => ended unsized (by
        rw [cut]
        exact List.mem_append_right _ there)) rfl
      rw [later,Eights,List.exists_mem_cons_iff,List.length_replicate]
      rfl

/-! ### Where a packet ends -/

/-- The marks of a packet among the characters of a token. -/
def Token.Marked (token : Token) : Prop := 35 ∉ token.chars ∧ (36 ∈ token.chars ↔ ∃ d, token = .run d 8)

theorem marked_one (sharp : ch ≠ 35) (dollar : ch ≠ 36) : (Token.one ch).Marked := by
  refine ⟨?_,?_⟩
  · simpa [Token.chars] using sharp.symm
  · simpa [Token.chars] using dollar.symm

theorem marked_run {q : Nat} (sharp : ch ≠ 35) (dollar : ch ≠ 36) (low : 2 ≤ q) (high : q ≤ 49) :
    (Token.run ch (q * 2)).Marked := by
  have value : (UInt8.ofNat (29 + q * 2 - 1)).toNat = 28 + q * 2 := by
    simp
    omega
  have count : ∀ n : UInt8, n = UInt8.ofNat (29 + q * 2 - 1) ↔ n.toNat = 28 + q * 2 := by
    intro n
    rw [← value]
    exact UInt8.toNat_inj.symm
  have sharps := count 35
  have dollars := count 36
  simp only [UInt8.reduceToNat] at sharps dollars
  refine ⟨?_,?_⟩
  · simp only [Token.chars,List.mem_cons,List.not_mem_nil,or_false,not_or]
    exact ⟨sharp.symm,by decide,fun same => by have := sharps.mp same; omega⟩
  · simp only [Token.chars,List.mem_cons,List.not_mem_nil,or_false,Token.run.injEq]
    constructor
    · rintro (same | star | same)
      · exact absurd same.symm dollar
      · simp at star
      · exact ⟨ch,rfl,by have := dollars.mp same; omega⟩
    · rintro ⟨d,_,eight⟩
      exact Or.inr (Or.inr (dollars.mpr (by omega)))

theorem turn_marked (some : p ≠ []) (short : hexify = false → 35 ∉ p ∧ 36 ∉ p ∧ p.length < 4)
    (ended : sized = false → 0 ∉ p) :
    ∀ token ∈ (turn sized hexify p).1, token.Marked ∧ (hexify = false → ∀ d rl, token ≠ .run d rl) := by
  obtain ⟨ch,rest,rfl⟩ := List.exists_cons_of_ne_nil some
  have high := hexchar_table _ (high_lt ch)
  have low := hexchar_table _ (low_lt ch)
  intro token there
  cases hexify with
  | true =>
    refine ⟨?_,by simp⟩
    simp only [turn,List.getD_cons_zero,if_true] at there
    split at there
    · rw [List.mem_singleton] at there
      rw [there]
      exact marked_run low.2.1 low.2.2 (by omega) (below_98 (98 / 2) 2 (by omega) rfl)
    · simp only [List.mem_cons,List.not_mem_nil,or_false] at there
      rcases there with rfl | rfl
      · exact marked_one high.2.1 high.2.2
      · exact marked_one low.2.1 low.2.2
  | false =>
    obtain ⟨sharp,dollar,length⟩ := short rfl
    simp only [turn,List.getD_cons_zero,Bool.false_eq_true,if_false] at there
    split at there
    next run =>
      obtain ⟨inside,_,_,fourth⟩ := run
      rcases inside with unsized | less
      · rw [List.getD_eq_default _ _ (by omega)] at fourth
        exact absurd (fourth ▸ List.mem_cons_self) (ended unsized)
      · omega
    · rw [List.mem_singleton] at there
      rw [there]
      exact ⟨marked_one (fun same => sharp (same ▸ List.mem_cons_self))
        (fun same => dollar (same ▸ List.mem_cons_self)),by simp⟩

theorem turns_marked (n : Nat) (short : hexify = false → 35 ∉ p ∧ 36 ∉ p ∧ p.length < 4)
    (ended : sized = false → 0 ∉ p) :
    ∀ token ∈ turns sized hexify n p, token.Marked ∧ (hexify = false → ∀ d rl, token ≠ .run d rl) := by
  induction n generalizing p with
  | zero => simp [turns]
  | succ n hyp =>
    intro token there
    rw [turns] at there
    split at there
    · simp at there
    next some =>
      rcases List.mem_append.mp there with first | later
      · exact turn_marked some short ended token first
      · refine hyp (fun raw => ?_) (fun unsized zero => ended unsized (List.mem_of_mem_drop zero)) token later
        obtain ⟨sharp,dollar,length⟩ := short raw
        refine ⟨fun there => sharp (List.mem_of_mem_drop there),fun there => dollar (List.mem_of_mem_drop there),?_⟩
        rw [List.length_drop]
        omega

theorem tokens_marked (short : f.Short) :
    ∀ token ∈ f.tokens, token.Marked ∧ (f.hexify = false → ∀ d rl, token ≠ .run d rl) :=
  turns_marked _ (fun raw => ⟨(short raw).2.1,(short raw).2.2.1,(short raw).2.2.2⟩) (ended_bytes f)

theorem between_clean {chars rest : List UInt8} (acc : List UInt8) (sharp : 35 ∉ chars) (dollar : 36 ∉ chars) :
    between acc (chars ++ 35 :: rest) = some (acc ++ chars,rest) := by
  induction chars generalizing acc with
  | nil => simp [between]
  | cons ch chars hyp =>
    rw [List.mem_cons,not_or] at sharp dollar
    rw [List.cons_append,between,if_neg (fun same => dollar.1 same.symm),if_neg (fun same => sharp.1 same.symm),
      hyp _ sharp.2 dollar.2,List.append_assoc,List.singleton_append]

theorem between_dollar {chars rest : List UInt8} (acc : List UInt8) (sharp : 35 ∉ chars) :
    between acc (chars ++ 36 :: rest) = between [] rest := by
  induction chars generalizing acc with
  | nil => simp [between]
  | cons ch chars hyp =>
    rw [List.mem_cons,not_or] at sharp
    rw [List.cons_append,between]
    split
    · exact hyp [] sharp.2
    · rw [if_neg (fun same => sharp.1 same.symm)]
      exact hyp _ sharp.2

/-- The last of the elements with a property. -/
theorem last_such {α : Type} {P : α → Prop} {l : List α} (some : ∃ x ∈ l, P x) :
    ∃ pre x post, l = pre ++ x :: post ∧ P x ∧ ∀ y ∈ post, ¬ P y := by
  induction l with
  | nil => simp at some
  | cons a l hyp =>
    by_cases later : ∃ x ∈ l, P x
    · obtain ⟨pre,x,post,eq,holds,none⟩ := hyp later
      exact ⟨a :: pre,x,post,by rw [eq,List.cons_append],holds,none⟩
    · obtain ⟨x,there,holds⟩ := some
      rcases List.mem_cons.mp there with rfl | there
      · exact ⟨[],x,l,rfl,holds,fun y inside holds => later ⟨y,inside,holds⟩⟩
      · exact absurd ⟨x,there,holds⟩ later

theorem short_plain (short : f.Short) : f.Plain := fun raw => (short raw).1

theorem frags_marked (short : ∀ f ∈ frags, f.Short) :
    ∀ token ∈ frags.flatMap Outfrag.tokens, 35 ∉ token.chars ∧ (36 ∈ token.chars ↔ ∃ d, token = .run d 8) := by
  intro token there
  obtain ⟨f,inside,token'⟩ := List.mem_flatMap.mp there
  exact (tokens_marked (short f inside) token token').1

theorem frags_eight (short : ∀ f ∈ frags, f.Short) :
    (∃ token ∈ frags.flatMap Outfrag.tokens, ∃ d, token = .run d 8) ↔
      ∃ f ∈ frags, f.hexify = true ∧ Eights f.bytes := by
  constructor
  · rintro ⟨_,there,d,rfl⟩
    obtain ⟨f,inside,token⟩ := List.mem_flatMap.mp there
    have hexed : f.hexify = true := by
      by_contra raw
      exact (tokens_marked (short f inside) _ token).2 (by simpa using raw) d 8 rfl
    rw [Outfrag.tokens,hexed] at token
    exact ⟨f,inside,hexed,(eight_iff (ended_bytes f)).mp ⟨d,token⟩⟩
  · rintro ⟨f,inside,hexed,eights⟩
    obtain ⟨d,there⟩ := (eight_iff (ended_bytes f)).mpr eights
    refine ⟨_,List.mem_flatMap.mpr ⟨f,inside,?_⟩,d,rfl⟩
    rw [Outfrag.tokens,hexed]
    exact there

theorem tail_shorter (pre post : List Token) (d : UInt8) :
    (post.flatMap Token.text).length < ((pre ++ .run d 8 :: post).flatMap Token.text).length := by
  rw [List.flatMap_append,List.flatMap_cons,List.length_append,List.length_append]
  simp only [Token.text,List.length_replicate]
  omega

theorem packet_eq (frags : List Outfrag) :
    packet frags = 36 :: (body frags ++
      35 :: [hexchar (checksum (body frags) / 16),hexchar (checksum (body frags) % 16)]) := rfl

/-- The end mark is not among what stands before it. -/
theorem body_sharp (short : ∀ f ∈ frags, f.Short) : 35 ∉ body frags := by
  intro there
  obtain ⟨token,inside,mark⟩ := List.mem_flatMap.mp there
  exact (frags_marked short token inside).1 mark

/-- The text of a reply can be read off its packet exactly if no bytes with equal
    digits stand in a run that, cut into parts of 49, leaves four. -/
theorem read_eights (short : ∀ f ∈ frags, f.Short) :
    read (packet frags) = some (frags.flatMap Outfrag.text) ↔ ¬ ∃ f ∈ frags, f.hexify = true ∧ Eights f.bytes := by
  have marked := frags_marked short
  have fine := frags_fine (fun f inside => short_plain (short f inside))
  rw [← frags_eight short,← frags_text]
  generalize tokens : frags.flatMap Outfrag.tokens = sent at marked fine
  have chars : body frags = sent.flatMap Token.chars := by rw [body,tokens]
  have sharp : ∀ some : List Token, (∀ token ∈ some, token ∈ sent) → 35 ∉ some.flatMap Token.chars := by
    intro some inside there
    obtain ⟨token,inside',there'⟩ := List.mem_flatMap.mp there
    exact (marked token (inside token inside')).1 there'
  constructor
  · rintro right ⟨token,there,eight⟩
    obtain ⟨pre,last,post,cut,⟨d,rfl⟩,clean⟩ := last_such (P := fun token => ∃ d, token = .run d 8) ⟨token,there,eight⟩
    have within : ∀ token ∈ post, token ∈ sent := by
      intro token inside
      rw [cut]
      simp [inside]
    have dollar : 36 ∉ post.flatMap Token.chars := by
      intro there
      obtain ⟨token,inside,there'⟩ := List.mem_flatMap.mp there
      exact clean token inside ((marked token (within token inside)).2.mp there')
    have before : 35 ∉ pre.flatMap Token.chars ++ [d,42] := by
      intro there
      refine sharp sent (fun _ inside => inside) ?_
      rw [cut,List.flatMap_append,List.flatMap_cons]
      simp only [List.mem_append,List.mem_cons,List.not_mem_nil,or_false,Token.chars] at there ⊢
      rcases there with inside | same | same
      · exact Or.inl inside
      · exact Or.inr (Or.inl (Or.inl same))
      · simp at same
    have found : ∀ rest, between [] (body frags ++ 35 :: rest) = some (post.flatMap Token.chars,rest) := by
      intro rest
      have parts : body frags ++ 35 :: rest =
          (pre.flatMap Token.chars ++ [d,42]) ++ 36 :: (post.flatMap Token.chars ++ 35 :: rest) := by
        rw [chars,cut,List.flatMap_append,List.flatMap_cons]
        simp [Token.chars]
      rw [parts,between_dollar [] before,between_clean [] (sharp post within) dollar,List.nil_append]
    rw [packet_eq,read,if_pos rfl,found] at right
    simp only at right
    split at right
    · rw [(expand_chars (fun token inside => fine token (within token inside))).1] at right
      have length := congrArg List.length (Option.some.inj right)
      have less := tail_shorter pre post d
      rw [← cut] at less
      omega
    · simp at right
  · intro none
    have dollar : 36 ∉ sent.flatMap Token.chars := by
      intro there
      obtain ⟨token,inside,there'⟩ := List.mem_flatMap.mp there
      exact none ⟨token,inside,(marked token inside).2.mp there'⟩
    have found := @between_clean _ [hexchar (checksum (body frags) / 16),hexchar (checksum (body frags) % 16)] []
      (sharp sent (fun _ inside => inside)) dollar
    rw [← chars,List.nil_append] at found
    rw [packet_eq,read,if_pos rfl,found]
    simp only [and_self,if_true]
    rw [chars,(expand_chars fine).1]

/-- No reply has the end mark before its end. A debugger reads the text of a
    reply off the packet, unless bytes with equal digits stand in a run that, cut
    into parts of 49, leaves four: these are sent as `*$`, and the debugger takes
    the dollar for the start of a new packet. -/
theorem read_packet (short : ∀ f ∈ frags, f.Short) : 35 ∉ body frags ∧
    (read (packet frags) = some (frags.flatMap Outfrag.text) ↔ ¬ ∃ f ∈ frags, f.hexify = true ∧ Eights f.bytes) :=
  ⟨body_sharp short,read_eights short⟩

/-- Four bytes of zero, as an answer to `m`. -/
theorem read_packet_zeros : read (packet [⟨List.replicate 4 0,4,true⟩]) ≠ some (text true (List.replicate 4 0)) := by
  intro right
  have plain := (@read_packet [⟨List.replicate 4 0,4,true⟩] (by simp [Outfrag.Short])).2.mp
    (by simpa [Outfrag.text,Outfrag.bytes] using right)
  exact plain ⟨_,List.mem_singleton_self _,rfl,List.replicate 4 0,by decide,by decide,by decide⟩

end Psys.Packets
