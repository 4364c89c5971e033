import Psys.Directives
import Psys.Video

/-!
`printf.c` and `sprintf.c`: where the characters of `_doprnt` go.
-/
namespace Psys.Printing
open Psys.Formats
open Psys.Video (Display consolePutbyte)

/-! ### Translation -/

def PRINTF_BUFMAX : Nat := 128

/-- `struct printf_state`, and the calls of `console_putbytes` so far. -/
structure PrintfState where
  buf : Nat → UInt8
  index : Nat
  calls : List (List UInt8)

/-- `flush` -/
def flush (st : PrintfState) : PrintfState :=
  { st with calls := st.calls ++ [(List.range st.index).map st.buf], index := 0 }

/-- `printf_char` -/
def printfChar (st : PrintfState) (c : UInt8) : PrintfState :=
  if c = 0 ∨ c = 10 ∨ st.index ≥ PRINTF_BUFMAX then
    let st := flush st
    { st with buf := Function.update st.buf 0 c, calls := st.calls ++ [[c]] }
  else { st with buf := Function.update st.buf st.index c, index := st.index + 1 }

/-- `vprintf`, whatever is in the buffer before: its calls of `console_putbytes`. -/
def vprintf (ctx : Context) (buf : Nat → UInt8) (args : List UInt32) (fmt : List UInt8) :
    Option (List (List UInt8)) := do
  let (out,_) ← doprnt ctx args fmt
  let st := out.foldl printfChar ⟨buf,0,[]⟩
  return (if st.index ≠ 0 then flush st else st).calls

/-- `console_putbytes` in the kernel, outside of system calls. -/
def consolePutbytes (d : Display) (s : List UInt8) : Display := s.foldl (fun d c => consolePutbyte d d.vcCurrent c) d

/-- `struct sprintf_state`, and memory. -/
structure SprintfState where
  buf : UInt32
  len : UInt32
  max : UInt32
  mem : UInt32 → UInt8

def SPRINTF_UNLIMITED : UInt32 := 0xffffffff

/-- `savechar` -/
def savechar (st : SprintfState) (c : UInt8) : SprintfState :=
  if st.max ≠ SPRINTF_UNLIMITED ∧ st.len = st.max then st
  else { st with len := st.len + 1, mem := Function.update st.mem st.buf c, buf := st.buf + 1 }

/-- `vsnprintf`: memory after it, and what it returns. -/
def vsnprintf (ctx : Context) (mem : UInt32 → UInt8) (s size : UInt32) (args : List UInt32) (fmt : List UInt8) :
    Option ((UInt32 → UInt8) × UInt32) := do
  let (out,_) ← doprnt ctx args fmt
  let st := out.foldl savechar ⟨s,0,size,mem⟩
  return (Function.update st.mem st.buf 0,st.len)

/-- `vsprintf` -/
def vsprintf (ctx : Context) (mem : UInt32 → UInt8) (s : UInt32) (args : List UInt32) (fmt : List UInt8) :
    Option ((UInt32 → UInt8) × UInt32) :=
  vsnprintf ctx mem s SPRINTF_UNLIMITED args fmt

/-! ### `printf` -/

/-- What is in the buffer. -/
def PrintfState.pending (st : PrintfState) : List UInt8 := (List.range st.index).map st.buf

/-- After some characters: all of them are on the console or in the buffer, and
    the buffer has neither overflowed nor a line in it. -/
structure Holds (chars : List UInt8) (st : PrintfState) : Prop where
  order : st.calls.flatten ++ st.pending = chars
  room : st.index ≤ PRINTF_BUFMAX
  line : ∀ c ∈ st.pending, c ≠ 0 ∧ c ≠ 10
  short : ∀ call ∈ st.calls, call.length ≤ PRINTF_BUFMAX

variable {chars : List UInt8} {st : PrintfState} {c : UInt8}

theorem pending_length (st : PrintfState) : st.pending.length = st.index := by
  rw [PrintfState.pending,List.length_map,List.length_range]

/-- A character behind the others in the buffer. -/
theorem pending_push (st : PrintfState) (c : UInt8) :
    PrintfState.pending { st with buf := Function.update st.buf st.index c, index := st.index + 1 } =
      st.pending ++ [c] := by
  have before : (List.range st.index).map (Function.update st.buf st.index c) = (List.range st.index).map st.buf := by
    refine List.map_congr_left (fun i there => ?_)
    rw [Function.update_of_ne (by have := List.mem_range.mp there; omega)]
  simp only [PrintfState.pending,List.range_succ,List.map_append,List.map_singleton,before,Function.update_self]

theorem Holds.flush (holds : Holds chars st) : Holds chars (flush st) where
  order := by simpa [Printing.flush,PrintfState.pending] using holds.order
  room := Nat.zero_le _
  line := by simp [Printing.flush,PrintfState.pending]
  short := by
    intro call there
    rcases List.mem_append.mp there with before | last
    · exact holds.short call before
    · rw [List.mem_singleton.mp last]
      exact (pending_length st).trans_le holds.room

theorem Holds.printfChar (holds : Holds chars st) (c : UInt8) : Holds (chars ++ [c]) (printfChar st c) := by
  unfold Printing.printfChar
  split
  next through =>
    have flushed := holds.flush
    have empty : (Printing.flush st).pending = [] := by simp [Printing.flush,PrintfState.pending]
    refine ⟨?_,Nat.zero_le _,?_,?_⟩
    · have before := flushed.order
      rw [empty,List.append_nil] at before
      change ((Printing.flush st).calls ++ [[c]]).flatten ++ [] = chars ++ [c]
      rw [List.append_nil,List.flatten_append,before]
      rfl
    · simp [PrintfState.pending,Printing.flush]
    · intro call there
      rcases List.mem_append.mp there with before | last
      · exact flushed.short call before
      · rw [List.mem_singleton.mp last]
        exact (by decide : 1 ≤ PRINTF_BUFMAX)
  next kept =>
    simp only [not_or,Nat.not_le] at kept
    refine ⟨?_,kept.2.2,?_,holds.short⟩
    · rw [pending_push,← List.append_assoc]
      exact congrArg (· ++ [c]) holds.order
    · rw [pending_push]
      intro d there
      rcases List.mem_append.mp there with before | last
      · exact holds.line d before
      · rw [List.mem_singleton.mp last]
        exact ⟨kept.1,kept.2.1⟩

/-- At every time of a call of `printf`. -/
theorem holds_run (buf : Nat → UInt8) (chars : List UInt8) :
    Holds chars (chars.foldl Printing.printfChar ⟨buf,0,[]⟩) := by
  induction chars using List.reverseRecOn with
  | nil => exact ⟨rfl,Nat.zero_le _,by simp [PrintfState.pending],by simp⟩
  | append_singleton chars c hyp =>
    rw [List.foldl_append]
    exact hyp.printfChar c

theorem consolePutbytes_flatten (calls : List (List UInt8)) :
    ∀ d : Display, calls.foldl consolePutbytes d = consolePutbytes d calls.flatten := by
  induction calls with
  | nil => exact fun _ => rfl
  | cons call calls hyp =>
    intro d
    rw [List.foldl_cons,hyp,List.flatten_cons]
    exact (List.foldl_append).symm

/-- A line break leaves nothing in the buffer. -/
theorem holds_line {lines : List UInt8} (holds : Holds (lines ++ [10]) st) : st.calls.flatten = lines ++ [10] := by
  have order := holds.order
  rcases List.eq_nil_or_concat' st.pending with empty | ⟨front,last,split⟩
  · rwa [empty,List.append_nil] at order
  · rw [split,← List.append_assoc] at order
    have same : last = 10 := (List.append_singleton_inj.mp order).2
    exact absurd same (holds.line last (by simp [split])).2

/-- What `printf` puts on the console is what `_doprnt` puts out, in order: no
    call has more characters than the buffer, and every line is passed on with
    its line break. -/
theorem vprintf_console {ctx : Context} {args rest : List UInt32} {fmt out : List UInt8}
    (printed : doprnt ctx args fmt = some (out,rest)) (buf : Nat → UInt8) :
    ∃ calls, vprintf ctx buf args fmt = some calls ∧ calls.flatten = out ∧
      (∀ call ∈ calls, call.length ≤ PRINTF_BUFMAX) ∧
      (∀ d : Display, calls.foldl consolePutbytes d = consolePutbytes d out) ∧
      (∀ part, part <+: out → (part.foldl Printing.printfChar ⟨buf,0,[]⟩).index ≤ PRINTF_BUFMAX) ∧
      ∀ lines, lines ++ [10] <+: out →
        ((lines ++ [10]).foldl Printing.printfChar ⟨buf,0,[]⟩).calls.flatten = lines ++ [10] := by
  have whole := holds_run buf out
  generalize last : out.foldl Printing.printfChar ⟨buf,0,[]⟩ = st at whole
  have final : Holds out (if st.index ≠ 0 then Printing.flush st else st) := by
    split
    · exact whole.flush
    · exact whole
  have empty : (if st.index ≠ 0 then Printing.flush st else st).pending = [] := by
    split
    · rfl
    next none' =>
      rw [PrintfState.pending,not_not.mp none']
      rfl
  have order := final.order
  rw [empty,List.append_nil] at order
  refine ⟨_,?_,order,final.short,fun d => ?_,fun part _ => (holds_run buf part).room,
    fun lines _ => holds_line (holds_run buf _)⟩
  · simp only [vprintf,printed,Option.bind_eq_bind,Option.bind_some,last,pure]
  · rw [consolePutbytes_flatten,order]

/-- `"%s;"` of a string over two lines. -/
theorem vprintf_console_lines : ∃ calls, vprintf ⟨0,fun _ => [97,10,98]⟩ (fun _ => 0) [4096] [37,115,59] = some calls ∧
    calls.flatten = [97,10,98,59] ∧ (∀ call ∈ calls, call.length ≤ PRINTF_BUFMAX) ∧
    (∀ d : Display, calls.foldl consolePutbytes d = consolePutbytes d [97,10,98,59]) ∧
    (∀ part, part <+: [97,10,98,59] → (part.foldl Printing.printfChar ⟨fun _ => 0,0,[]⟩).index ≤ PRINTF_BUFMAX) ∧
    ∀ lines, lines ++ [10] <+: [97,10,98,59] →
      ((lines ++ [10]).foldl Printing.printfChar ⟨fun _ => 0,0,[]⟩).calls.flatten = lines ++ [10] :=
  have string : directive ⟨0,fun _ => [97,10,98]⟩ [4096] [115,59] = some ([97,10,98],[],[59]) := by decide
  have printed : doprnt ⟨0,fun _ => [97,10,98]⟩ [4096] [37,115,59] = some ([97,10,98,59],[]) := by
    rw [doprnt_directive string,doprnt_char (by decide),doprnt_nil]
    rfl
  vprintf_console printed _

/-! ### `sprintf` -/

/-- Memory with a text at an address. -/
def stored (mem : UInt32 → UInt8) (s : UInt32) (text : List UInt8) (a : UInt32) : UInt8 :=
  text.getD (a - s).toNat (mem a)

theorem stored_push (mem : UInt32 → UInt8) (s : UInt32) {text : List UInt8} (short : text.length < 4294967296)
    (c : UInt8) :
    Function.update (stored mem s text) (s + UInt32.ofNat text.length) c = stored mem s (text ++ [c]) := by
  funext a
  have index : (UInt32.ofNat text.length).toNat = text.length := by
    rw [UInt32.toNat_ofNat']
    exact Nat.mod_eq_of_lt short
  by_cases here : a = s + UInt32.ofNat text.length
  · have offset : (a - s).toNat = text.length := by rw [here,UInt32.add_comm,UInt32.add_sub_cancel,index]
    rw [here,Function.update_self,← here,stored,offset]
    simp
  · have offset : (a - s).toNat ≠ text.length := by
      intro same
      refine here ?_
      rw [← same,UInt32.ofNat_toNat,UInt32.add_comm,UInt32.sub_add_cancel]
    rw [Function.update_of_ne here,stored,stored]
    rcases Nat.lt_or_gt_of_ne offset with less | more
    · simp [List.getD_eq_getElem?_getD,List.getElem?_append_left less]
    · rw [List.getD_eq_default _ _ (by omega),List.getD_eq_default _ _ (by simp; omega)]

/-- After some characters: as many as the size allows are in the buffer. -/
structure Saved (mem : UInt32 → UInt8) (s size : UInt32) (chars : List UInt8) (st : SprintfState) : Prop where
  max : st.max = size
  len : st.len = UInt32.ofNat (chars.take size.toNat).length
  buf : st.buf = s + UInt32.ofNat (chars.take size.toNat).length
  mem : st.mem = stored mem s (chars.take size.toNat)

theorem Saved.savechar {mem : UInt32 → UInt8} {s size : UInt32} {st : SprintfState}
    (saved : Saved mem s size chars st) (short : chars.length + 1 < 4294967296) (c : UInt8) :
    Saved mem s size (chars ++ [c]) (savechar st c) := by
  have range := size.toNat_lt
  have counted : st.len.toNat = (chars.take size.toNat).length := by
    rw [saved.len,UInt32.toNat_ofNat']
    exact Nat.mod_eq_of_lt (by rw [List.length_take]; omega)
  have full : (st.max ≠ SPRINTF_UNLIMITED ∧ st.len = st.max) ↔ size.toNat ≤ chars.length := by
    rw [saved.max,← UInt32.toNat_inj,counted,List.length_take]
    constructor
    · rintro ⟨-,same⟩
      omega
    · intro reached
      refine ⟨?_,by omega⟩
      rintro rfl
      have all : SPRINTF_UNLIMITED.toNat = 4294967295 := rfl
      omega
  unfold Printing.savechar
  by_cases reached : size.toNat ≤ chars.length
  · have same : (chars ++ [c]).take size.toNat = chars.take size.toNat := List.take_append_of_le_length reached
    rw [if_pos (full.mpr reached)]
    exact ⟨saved.max,by rw [same]; exact saved.len,by rw [same]; exact saved.buf,by rw [same]; exact saved.mem⟩
  · have before : chars.take size.toNat = chars := List.take_of_length_le (by omega)
    have after : (chars ++ [c]).take size.toNat = chars ++ [c] := List.take_of_length_le (by simp; omega)
    have next : UInt32.ofNat (chars ++ [c]).length = UInt32.ofNat chars.length + 1 := by simp [UInt32.ofNat_add]
    rw [if_neg (fun stops => reached (full.mp stops))]
    refine ⟨saved.max,?_,?_,?_⟩
    · rw [after,next,saved.len,before]
    · rw [after,next,saved.buf,before,UInt32.add_assoc]
    · rw [after,saved.mem,saved.buf,before]
      exact stored_push mem s (by omega) c

theorem saved_run (mem : UInt32 → UInt8) (s size : UInt32) (chars : List UInt8) (short : chars.length < 4294967296) :
    Saved mem s size chars (chars.foldl Printing.savechar ⟨s,0,size,mem⟩) := by
  induction chars using List.reverseRecOn with
  | nil => exact ⟨rfl,by simp,by simp,by funext a; simp [stored]⟩
  | append_singleton chars c hyp =>
    rw [List.length_append,List.length_singleton] at short
    rw [List.foldl_append]
    exact (hyp (by omega)).savechar short c

theorem vsnprintf_run {ctx : Context} {args rest : List UInt32} {fmt out : List UInt8}
    (printed : doprnt ctx args fmt = some (out,rest)) (short : out.length < 4294967296) (mem : UInt32 → UInt8)
    (s size : UInt32) : vsnprintf ctx mem s size args fmt =
      some (stored mem s (out.take size.toNat ++ [0]),UInt32.ofNat (out.take size.toNat).length) := by
  have saved := saved_run mem s size out short
  have few : (out.take size.toNat).length < 4294967296 := by
    rw [List.length_take]
    omega
  simp only [vsnprintf,printed,Option.bind_eq_bind,Option.bind_some,pure]
  rw [saved.mem,saved.buf,saved.len,stored_push mem s few]

theorem stored_at (mem : UInt32 → UInt8) (s offset : UInt32) (text : List UInt8) :
    stored mem s text (s + offset) = text.getD offset.toNat (mem (s + offset)) := by
  rw [stored,UInt32.add_comm s,UInt32.add_sub_cancel]

/-- What is behind the buffer is spared by a text that is shorter, or by luck. -/
theorem spared_iff (mem : UInt32 → UInt8) (s size : UInt32) (out : List UInt8) :
    (∀ offset : UInt32, size ≤ offset →
        stored mem s (Reading.vsnprintf size.toNat out) (s + offset) = mem (s + offset)) ↔
      out.length < size.toNat ∨ mem (s + size) = 0 := by
  constructor
  · intro kept
    by_cases fits : out.length < size.toNat
    · exact .inl fits
    · have last := kept size (UInt32.le_refl _)
      have terminator : (out.take size.toNat ++ [0]).getD size.toNat (mem (s + size)) = 0 := by
        have taken : (out.take size.toNat).length = size.toNat := by rw [List.length_take]; omega
        rw [List.getD_eq_getElem?_getD,List.getElem?_append_right taken.le,taken]
        simp
      rw [stored_at,Reading.vsnprintf,terminator] at last
      exact .inr last.symm
  · intro spared offset behind
    have past := UInt32.le_iff_toNat_le.mp behind
    rw [stored_at,Reading.vsnprintf]
    rcases Nat.lt_or_ge offset.toNat (out.take size.toNat ++ [0]).length with inside | outside
    · have taken := List.length_take (i := size.toNat) (l := out)
      rw [List.length_append,List.length_singleton] at inside
      have same : offset = size := UInt32.toNat_inj.mp (by omega)
      rcases spared with fits | zero
      · omega
      · subst same
        rw [zero,List.getD_eq_getElem?_getD,List.getElem?_append_right (by omega)]
        rw [show offset.toNat - (out.take offset.toNat).length = 0 by omega]
        rfl
    · exact List.getD_eq_default _ _ outside

/-- `vsnprintf` stores as much of the text as the size says, and the terminator
    behind it: a text that is as long as the size or longer is terminated one
    byte behind the buffer. `vsprintf` stores all of it. -/
theorem vsnprintf_stores {ctx : Context} {args rest : List UInt32} {fmt out : List UInt8}
    (printed : doprnt ctx args fmt = some (out,rest)) (short : out.length < 4294967296) (mem : UInt32 → UInt8)
    (s size : UInt32) :
    vsnprintf ctx mem s size args fmt =
      some (stored mem s (Reading.vsnprintf size.toNat out),UInt32.ofNat (min size.toNat out.length)) ∧
    vsprintf ctx mem s args fmt = some (stored mem s (out ++ [0]),UInt32.ofNat out.length) ∧
    ((∀ offset : UInt32, size ≤ offset →
        stored mem s (Reading.vsnprintf size.toNat out) (s + offset) = mem (s + offset)) ↔
      out.length < size.toNat ∨ mem (s + size) = 0) := by
  refine ⟨?_,?_,?_⟩
  · rw [vsnprintf_run printed short,List.length_take]
    rfl
  · have all : out.take SPRINTF_UNLIMITED.toNat = out := List.take_of_length_le (Nat.le_of_lt_succ short)
    rw [vsprintf,vsnprintf_run printed short,all]
  · exact spared_iff mem s size out

/-- Three characters in a buffer of two. -/
theorem vsnprintf_stores_past :
    vsnprintf ⟨0,fun _ => []⟩ (fun _ => 1) 4096 2 [] [97,98,99] =
      some (stored (fun _ => 1) 4096 (Reading.vsnprintf 2 [97,98,99]),2) ∧
    vsprintf ⟨0,fun _ => []⟩ (fun _ => 1) 4096 [] [97,98,99] =
      some (stored (fun _ => 1) 4096 ([97,98,99] ++ [0]),3) ∧
    ((∀ offset : UInt32, 2 ≤ offset →
        stored (fun _ => 1) 4096 (Reading.vsnprintf 2 [97,98,99]) (4096 + offset) = 1) ↔
      [97,98,99].length < 2 ∨ (1 : UInt8) = 0) :=
  have printed : doprnt ⟨0,fun _ => []⟩ [] [97,98,99] = some ([97,98,99],[]) := by simp [doprnt_char]
  vsnprintf_stores printed (by decide) (fun _ => 1) 4096 2

end Psys.Printing
