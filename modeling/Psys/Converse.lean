import Mathlib.Logic.Relation
import Psys.Packets
import Psys.Paging
import Psys.Strtol

/-!
The stub of `gdb_serial.c`: how `getpacket` receives a command, what
`gdb_serial_converse` does with it when there are no callbacks, and what it
replies. A debugger that sends its commands until they are acknowledged gets
what it asks for, each command once.
-/
namespace Psys.Converse
open Psys.Packets (hexchar Outfrag checksum putfrags packet text)
open Psys.Paging (Memory Client gdbCopyin gdbCopyout)
open Psys.State (ulong)
open Psys.Strtol

def BUFMAX : Nat := 400
def NSIG : Nat := 32
/-- The size of `trap_stack`, on which the stub runs. -/
def TRAP_STACK_SIZE : Nat := 16384

/-! ### Numbers -/

/-- `hex`; `none` is -1. -/
def hex (ch : UInt8) : Option UInt8 :=
  if 48 ≤ ch ∧ ch ≤ 57 then some (ch - 48)
  else if 97 ≤ ch ∧ ch ≤ 102 then some (ch - 97 + 10)
  else if 65 ≤ ch ∧ ch ≤ 70 then some (ch - 65 + 10)
  else none

/-- `hex2bin`: the bytes that it has written, and whether it succeeds. -/
def hex2bin (input : List UInt8) : Nat → List UInt8 × Bool
  | 0 => ([],true)
  | len + 1 =>
    match hex (input.getD 0 0),hex (input.getD 1 0) with
    | some high,some low =>
      let rest := hex2bin (input.drop 2) len
      ((high <<< 4 ||| low) :: rest.1,rest.2)
    | _,_ => ([],false)

/-! ### `getpacket` -/

/-- Writes at the start of a buffer. -/
def overwrite (bytes buffer : List UInt8) : List UInt8 := bytes ++ buffer.drop bytes.length

/-- The wait for the start character. -/
def skip : List UInt8 → Option (List UInt8)
  | [] => none
  | ch :: input => if ch &&& 0x7f = 36 then some input else skip input

/-- The loop that reads up to `#`, with the room that is left in the buffer and
    the last character: what it reads, and whether it ends with `#`. -/
def gather : Nat → Option UInt8 → List UInt8 → Option (List UInt8 × Bool × List UInt8)
  | 0, last, input => some ([],last == some 35,input)
  | _ + 1, _, [] => none
  | room + 1, last, ch :: input =>
    if ch = 35 ∧ last ≠ some 0x7d then some ([],true,input)
    else (gather room (some ch) input).map (fun rest => (ch :: rest.1,rest.2))

/-- `xmitcsum` -/
def xmitcsum (high low : UInt8) : UInt8 := ((hex high).getD 255 <<< 4) + (hex low).getD 255

/-- What `getpacket` leaves in the buffer, what it sends, and what is left to
    receive. -/
structure Got where
  inbuf : List UInt8
  sent : List UInt8
  input : List UInt8

/-- The buffer without the sequence characters. -/
def unsequenced (inbuf : List UInt8) : List UInt8 :=
  let count := (inbuf.takeWhile (· != 0)).length
  if 3 ≤ count then overwrite ((inbuf.drop 3).take (count - 2)) inbuf else inbuf

/-- `getpacket`; `none` if it waits for ever. Every turn takes a character. -/
def getpacket : Nat → List UInt8 → List UInt8 → Option Got
  | 0, _, _ => none
  | turns + 1, inbuf, input =>
    match skip input with
    | none => none
    | some input =>
      match gather BUFMAX none input with
      | none => none
      | some (chars,sharp,input) =>
        let inbuf := overwrite (chars ++ [0]) inbuf
        if sharp then
          match input with
          | high :: low :: input =>
            if checksum chars ≠ xmitcsum high low then
              (getpacket turns inbuf input).map (fun got => { got with sent := 45 :: got.sent })
            else if inbuf.getD 2 0 = 58 then
              some ⟨unsequenced inbuf,[43,inbuf.getD 0 0,inbuf.getD 1 0],input⟩
            else some ⟨inbuf,[43],input⟩
          | _ => none
        else if checksum chars = 255 then some ⟨inbuf,[],input⟩
        else getpacket turns inbuf input

/-! ### `gdb_serial_converse` -/

/-- `enum gdb_action` -/
inductive Action where
  | more
  | cont
  | run
  | kill
  | detach
deriving DecidableEq

/-- What the stub works on: the memory with the tables of the program, the bytes
    of `struct gdb_state`, and its own variables, which are kept apart from that
    memory: a command that writes to the stub itself is out of scope. `base` is
    where `inbuf` stands. -/
structure Stub where
  mem : Memory
  client : Client
  regs : List UInt8
  signo : UInt8
  connected : Bool
  debug : Bool
  inbuf : List UInt8
  base : Nat

/-- The register that stands at an index. -/
def Stub.reg (s : Stub) (i : Nat) : Nat :=
  (s.regs.getD (4 * i) 0).toNat + 256 * (s.regs.getD (4 * i + 1) 0).toNat +
    65536 * (s.regs.getD (4 * i + 2) 0).toNat + 16777216 * (s.regs.getD (4 * i + 3) 0).toNat

def Stub.setBytes (s : Stub) (i : Nat) (bytes : List UInt8) : Stub :=
  { s with regs := s.regs.take i ++ overwrite bytes (s.regs.drop i) }

def Stub.setReg (s : Stub) (i w : Nat) : Stub :=
  s.setBytes (4 * i) [UInt8.ofNat w,UInt8.ofNat (w / 256),UInt8.ofNat (w / 65536),UInt8.ofNat (w / 16777216)]

/-- The places of `eip` and `eflags` in `struct gdb_state`. -/
def EIP : Nat := 8
def EFLAGS : Nat := 9

/-- `gdb_set_trace_flag` -/
def gdbSetTraceFlag (enable : Bool) (s : Stub) : Stub :=
  if enable then s.setReg EFLAGS (s.reg EFLAGS ||| 0x100) else s.setReg EFLAGS (s.reg EFLAGS &&& 0xFFFFFEFF)

/-- A string of `putpacket`. -/
def literal (chars : List UInt8) : Outfrag := ⟨chars ++ [0],0,false⟩

def ok : List Outfrag := [literal [79,75]]
def error (code : UInt8) : List Outfrag := [literal [69],⟨[code],1,true⟩]
def unknown : List Outfrag := [literal []]
/-- The report without a thread. -/
def report (signo : UInt8) : List Outfrag := [literal [83],⟨[signo],1,true⟩]

/-- What a command leads to: the stub, the reply if there is one, and whether it
    goes on. -/
structure Reply where
  stub : Stub
  frags : Option (List Outfrag)
  action : Action

/-- The quoted bytes of `X`: what they stand for, unless the last is a quote. -/
def unquote : List UInt8 → List UInt8 × Bool
  | [] => ([],true)
  | [ch] => if ch = 0x7d then ([],false) else ([ch],true)
  | ch :: next :: rest =>
    if ch = 0x7d then ((next ^^^ 0x20) :: (unquote rest).1,(unquote rest).2)
    else (ch :: (unquote (next :: rest)).1,(unquote (next :: rest)).2)

/-- The address and the length of `m`, `M` and `X`, and the text behind the
    length. -/
def place (inbuf : List UInt8) : Option (Nat × Nat × List UInt8) :=
  let (addr,ptr) := strtoul 16 (inbuf.drop 1)
  if ptr.length = (inbuf.drop 1).length ∨ ptr.getD 0 0 ≠ 44 then none
  else
    let (len,ptr2) := strtoul 16 (ptr.drop 1)
    if ptr2.length = (ptr.drop 1).length then none else some (addr,len,ptr2)

/-- `m`; `none` if the stub writes behind its buffer. -/
def readMemory (s : Stub) : Option Reply :=
  match place s.inbuf with
  | none => some ⟨s,some (error 2),.more⟩
  | some (addr,len,_) =>
    if ulong (len * 2) > BUFMAX then some ⟨s,some (error 2),.more⟩
    else
      let copy := gdbCopyin s.mem s.client addr len
      if copy.1.length > s.inbuf.length then none
      else
        let s := { s with inbuf := overwrite copy.1 s.inbuf }
        if copy.2 then some ⟨s,some [⟨s.inbuf,len,true⟩],.more⟩ else some ⟨s,some (error 3),.more⟩

/-- `M`; `none` if `outbuf` is larger than the stack. -/
def writeMemory (s : Stub) : Option Reply :=
  match place s.inbuf with
  | none => some ⟨s,some (error 2),.more⟩
  | some (addr,len,ptr2) =>
    if ptr2.getD 0 0 ≠ 58 then some ⟨s,some (error 2),.more⟩
    else if ulong (s.base + (s.inbuf.length - (ptr2.drop 1).length) + ulong (len * 2)) > s.base + BUFMAX then
      some ⟨s,some (error 2),.more⟩
    else if len > TRAP_STACK_SIZE then none
    else
      let outbuf := hex2bin (ptr2.drop 1) len
      if outbuf.2 = false then some ⟨s,some (error 2),.more⟩
      else
        let copy := gdbCopyout s.mem s.client outbuf.1 addr
        if copy.2 then some ⟨{ s with mem := copy.1 },some ok,.more⟩
        else some ⟨{ s with mem := copy.1 },some (error 3),.more⟩

/-- `X` -/
def writeBinary (s : Stub) : Option Reply :=
  match place s.inbuf with
  | none => some ⟨s,some (error 2),.more⟩
  | some (addr,len,ptr2) =>
    let index := s.inbuf.length - (ptr2.drop 1).length
    if ptr2.getD 0 0 ≠ 58 then some ⟨s,some (error 2),.more⟩
    else if ulong (s.base + index + len) > s.base + BUFMAX then some ⟨s,some (error 2),.more⟩
    else
      let out := unquote ((ptr2.drop 1).take (ulong (s.base + index + len) - (s.base + index)))
      let s := { s with inbuf := overwrite out.1 s.inbuf }
      if out.2 = false then some ⟨s,some (error 2),.more⟩
      else
        let copy := gdbCopyout s.mem s.client out.1 addr
        if copy.2 then some ⟨{ s with mem := copy.1 },some ok,.more⟩
        else some ⟨{ s with mem := copy.1 },some (error 3),.more⟩

/-- `G` -/
def writeRegisters (s : Stub) : Reply :=
  let bytes := hex2bin (s.inbuf.drop 1) s.regs.length
  if bytes.2 then ⟨s.setBytes 0 bytes.1,some ok,.more⟩ else ⟨s.setBytes 0 bytes.1,some (error 4),.more⟩

/-- `P`; `none` if the stub writes in front of the registers. -/
def writeRegister (s : Stub) : Option Reply :=
  let (reg,eqp) := strtoul 16 (s.inbuf.drop 1)
  if eqp.length = (s.inbuf.drop 1).length ∨ eqp.getD 0 0 ≠ 61 then some ⟨s,some (error 4),.more⟩
  else if reg = 0x29 then some ⟨s,some ok,.more⟩
  else if ulong ((reg + 1) * 4) > s.regs.length then some ⟨s,some (error 4),.more⟩
  else
    let bytes := hex2bin (eqp.drop 1) 4
    if ulong (4 * reg) ≥ s.regs.length ∧ bytes.1 ≠ [] then none
    else
      let s := s.setBytes (ulong (4 * reg)) bytes.1
      if bytes.2 then some ⟨s,some ok,.more⟩ else some ⟨s,some (error 4),.more⟩

/-- The optional address of `c`, `s`, `C` and `S`. -/
def jump (s : Stub) (p : List UInt8) : Stub :=
  let (eip,ptr) := strtoul 16 p
  if ptr.length < p.length ∧ eip ≠ s.reg EIP then s.setReg EIP eip else s

/-- `c` and `s`, `C` and `S`. -/
def goOn (s : Stub) (step : Bool) : Reply :=
  ⟨{ gdbSetTraceFlag step (jump s (s.inbuf.drop 1)) with signo := 0 },none,.cont⟩

def goOnWith (s : Stub) (step : Bool) : Reply :=
  match hex (s.inbuf.getD 1 0),hex (s.inbuf.getD 2 0) with
  | some high,some low =>
    let nsig := high <<< 4 ||| low
    if nsig = 0 ∨ NSIG ≤ nsig.toNat then ⟨s,some (error 5),.more⟩
    else ⟨{ gdbSetTraceFlag step (jump s (s.inbuf.drop 3)) with signo := nsig },none,.cont⟩
  | _,_ => ⟨s,some (error 5),.more⟩

/-- A command, with no callbacks; `none` if the stub writes behind its buffers. -/
def command (s : Stub) : Option Reply :=
  match (s.inbuf.getD 0 0).toNat with
  | 72 => -- H
    if (strtol 16 (s.inbuf.drop 2)).2.length = (s.inbuf.drop 2).length then some ⟨s,some (error 4),.more⟩
    else some ⟨s,some unknown,.more⟩
  | 84 => -- T
    if (strtol 16 (s.inbuf.drop 1)).2.length = (s.inbuf.drop 1).length then some ⟨s,some (error 1),.more⟩
    else some ⟨s,some unknown,.more⟩
  | 103 => some ⟨s,some [⟨s.regs,s.regs.length,true⟩],.more⟩ -- g
  | 71 => some (writeRegisters s) -- G
  | 80 => writeRegister s -- P
  | 109 => readMemory s -- m
  | 77 => writeMemory s -- M
  | 88 => writeBinary s -- X
  | 99 => some (goOn s false) -- c
  | 115 => some (goOn s true) -- s
  | 67 => some (goOnWith s false) -- C
  | 83 => some (goOnWith s true) -- S
  | 63 => some ⟨s,some (report s.signo),.more⟩ -- ?
  | 68 => some ⟨{ s with connected := false },some ok,.detach⟩ -- D
  | 82 => some ⟨{ s with connected := false },none,.run⟩ -- R
  | 107 => some ⟨{ s with connected := false },none,.kill⟩ -- k
  | 100 => some ⟨{ s with debug := !s.debug },some ok,.more⟩ -- d
  | 33 => some ⟨s,some ok,.more⟩ -- !
  | _ => some ⟨s,some unknown,.more⟩

/-- A turn of the loop of `gdb_serial_converse`: the stub, the action, what it
    sends and what is left to receive; `none` if it waits for ever. -/
def converseTurn (s : Stub) (input : List UInt8) : Option (Stub × Action × List UInt8 × List UInt8) :=
  match getpacket (input.length + 1) s.inbuf input with
  | none => none
  | some got =>
    match command { s with inbuf := got.inbuf, connected := true } with
    | none => none
    | some reply =>
      match reply.frags with
      | none => some (reply.stub,reply.action,got.sent,got.input)
      | some frags =>
        (putfrags frags got.input).map (fun rest => (reply.stub,reply.action,got.sent ++ rest.1,rest.2))

/-! ### A debugger -/

/-- What a debugger asks for. -/
inductive Request where
  | why
  | readRegs
  | writeRegs (bytes : List UInt8)
  | writeReg (n : Nat) (bytes : List UInt8)
  | readMem (addr len : Nat)
  | writeMem (addr : Nat) (bytes : List UInt8)

/-- A number in hexadecimal. -/
def hexNumber (n : Nat) : List UInt8 :=
  if n < 16 then [hexchar (UInt8.ofNat n)] else hexNumber (n / 16) ++ [hexchar (UInt8.ofNat (n % 16))]

/-- The command for a request. -/
def Request.chars : Request → List UInt8
  | why => [63]
  | readRegs => [103]
  | writeRegs bytes => 71 :: text true bytes
  | writeReg n bytes => 80 :: hexNumber n ++ 61 :: text true bytes
  | readMem addr len => 109 :: hexNumber addr ++ 44 :: hexNumber len
  | writeMem addr bytes => 77 :: hexNumber addr ++ 44 :: hexNumber bytes.length ++ 58 :: text true bytes

/-- A request that a debugger may make: its command fits the buffer, as its
    answer does. -/
def Request.Fits (r : Request) : Prop :=
  r.chars.length < BUFMAX ∧
    match r with
    | why | readRegs => True
    | writeRegs bytes => bytes.length = 64
    | writeReg n bytes => n < 16 ∧ bytes.length = 4
    | readMem addr len => addr < 4294967296 ∧ len * 2 ≤ BUFMAX
    | writeMem addr _ => addr < 4294967296

/-- The program as the debugger knows it. -/
structure View where
  mem : Memory
  regs : List UInt8

/-- What a request does, and its answer. A read of no bytes is answered with the
    text of the request itself. -/
def View.serve (client : Client) (signo : UInt8) (v : View) : Request → View × List UInt8
  | .why => (v,83 :: text true [signo])
  | .readRegs => (v,text true v.regs)
  | .writeRegs bytes => ({ v with regs := bytes },[79,75])
  | .writeReg n bytes => ({ v with regs := v.regs.take (4 * n) ++ bytes ++ v.regs.drop (4 * n + 4) },[79,75])
  | .readMem addr len =>
    if len = 0 then (v,text true (Request.chars (.readMem addr len)))
    else
      let copy := gdbCopyin v.mem client addr len
      if copy.2 then (v,text true copy.1) else (v,69 :: text true [3])
  | .writeMem addr bytes =>
    let copy := gdbCopyout v.mem client bytes addr
    if copy.2 then ({ v with mem := copy.1 },[79,75]) else ({ v with mem := copy.1 },69 :: text true [3])

/-- An attempt to send a command that the line has damaged: its start comes in,
    then fewer characters than the buffer takes up to an end mark that is not
    quoted, and a checksum that is not theirs. -/
structure Damaged where
  noise : List UInt8
  chars : List UInt8
  high : UInt8
  low : UInt8
  silent : ∀ ch ∈ noise, ch &&& 0x7f ≠ 36
  short : chars.length < BUFMAX
  inside : 35 ∉ chars
  unquoted : chars.getLast? ≠ some 0x7d
  wrong : checksum chars ≠ xmitcsum high low

def Damaged.sent (d : Damaged) : List UInt8 := d.noise ++ 36 :: d.chars ++ [35,d.high,d.low]

/-- A request with what a debugger sends for it: attempts that fail, the command,
    and what it says to the replies until it likes one. -/
structure Exchange where
  request : Request
  damaged : List Damaged
  noise : List UInt8
  nacks : List UInt8
  ack : UInt8
  fits : request.Fits
  silent : ∀ ch ∈ noise, ch &&& 0x7f ≠ 36
  refused : ∀ ch ∈ nacks, ch &&& 0x7f ≠ 43
  liked : ack &&& 0x7f = 43

/-- A command with its checksum. -/
def framed (chars : List UInt8) : List UInt8 :=
  36 :: chars ++ [35,hexchar (checksum chars / 16),hexchar (checksum chars % 16)]

def Exchange.sent (e : Exchange) : List UInt8 :=
  e.damaged.flatMap Damaged.sent ++ (e.noise ++ framed e.request.chars) ++ (e.nacks ++ [e.ack])

/-- At most so many turns of the loop, and what each of them sends. -/
def converse : Nat → Stub → List UInt8 → Option (Stub × List (List UInt8) × List UInt8)
  | 0, s, input => some (s,[],input)
  | n + 1, s, input =>
    match converseTurn s input with
    | none => none
    | some (s,action,sent,input) =>
      if action = .more then (converse n s input).map (fun rest => (rest.1,sent :: rest.2.1,rest.2.2))
      else some (s,[sent],input)

/-- `gdb_serial_converse` for at most so many turns: the report of the signal,
    then the loop. -/
def gdbSerialConverse (turns : Nat) (s : Stub) (input : List UInt8) :
    Option (Stub × List (List UInt8) × List UInt8) :=
  match putfrags (report s.signo) input with
  | none => none
  | some (sent,input) => (converse turns s input).map (fun rest => (rest.1,sent :: rest.2.1,rest.2.2))

/-- The answers to requests, and the program after them. -/
def View.serveAll (client : Client) (signo : UInt8) : View → List Request → View × List (List UInt8)
  | v, [] => (v,[])
  | v, r :: requests =>
    let rest := View.serveAll client signo (v.serve client signo r).1 requests
    (rest.1,(v.serve client signo r).2 :: rest.2)

/-- The stub tells the answer: a refusal for each attempt that fails, an
    acknowledgement, and the reply until the debugger likes it. -/
def Tells (e : Exchange) (answer sent : List UInt8) : Prop :=
  ∃ sequence frags, 36 ∉ sequence ∧ (∀ f ∈ frags, f.Short) ∧ frags.flatMap Outfrag.text = answer ∧
    sent = List.replicate e.damaged.length 45 ++ 43 :: sequence ++
      (List.replicate (e.nacks.length + 1) (packet frags)).flatten

/-- The buffers have their sizes, and the stub runs on a stack of the kernel. -/
structure Stub.Sound (s : Stub) : Prop where
  inbuf : s.inbuf.length = BUFMAX + 1
  regs : s.regs.length = 64
  base : s.base < 0x10000000

def Stub.view (s : Stub) : View := ⟨s.mem,s.regs⟩

/-- A turn of the loop in which the stub receives a command and carries it out. -/
def Turn (s s' : Stub) : Prop :=
  ∃ turns input got reply, getpacket turns s.inbuf input = some got ∧
    command { s with inbuf := got.inbuf, connected := true } = some reply ∧ reply.stub = s'

/-- A fragment lies in memory that the stub has, with the zero that ends it. -/
def Inside (f : Outfrag) : Prop := f.len ≤ f.data.length ∧ (f.len = 0 → 0 ∈ f.data)

/-- Lengths and numbers of registers that do not fit when they are multiplied. -/
def Excessive (s : Stub) : Prop :=
  (s.inbuf.getD 0 0 = 109 ∨ s.inbuf.getD 0 0 = 77) ∧
      (∃ addr len p, place s.inbuf = some (addr,len,p) ∧ 0x40000000 ≤ len) ∨
    s.inbuf.getD 0 0 = 80 ∧ 0x3FFFFFFF ≤ (strtoul 16 (s.inbuf.drop 1)).1

/-- A stub that has just started. -/
def idle : Stub := ⟨fun _ => 0,⟨0,0,by decide⟩,List.replicate 64 0,5,false,false,List.replicate 401 0,0x100000⟩

variable {s : Stub} {input chars rest inbuf : List UInt8} {ch : UInt8}

/-! ### The text of numbers -/

/-- A digit of a number in hexadecimal. -/
def Digit (ch : UInt8) : Prop := ∃ n : Fin 16, ch = hexchar (UInt8.ofNat n)

theorem nibble {n : UInt8} (less : n < 16) : ∃ i : Fin 16, n = UInt8.ofNat i := by
  have small : n.toNat < 16 := UInt8.lt_iff_toNat_lt.mp less
  exact ⟨⟨n.toNat,small⟩,by simp⟩

theorem digit_hexchar {n : UInt8} (less : n < 16) : Digit (hexchar n) := by
  obtain ⟨i,rfl⟩ := nibble less
  exact ⟨i,rfl⟩

theorem hex_hexchar {n : UInt8} (less : n < 16) : hex (hexchar n) = some n := by
  obtain ⟨i,rfl⟩ := nibble less
  revert i
  decide

theorem digit_value {n : Nat} (less : n < 16) : digit 16 (hexchar (UInt8.ofNat n)) = some n := by
  have all : ∀ i : Fin 16, digit 16 (hexchar (UInt8.ofNat i)) = some i.val := by decide
  exact all ⟨n,less⟩

/-- Digits are none of the characters with a meaning of their own. -/
theorem digit_plain (digit : Digit ch) :
    ch ≠ 0 ∧ ch ≠ 35 ∧ ch ≠ 36 ∧ ch ≠ 44 ∧ ch ≠ 58 ∧ ch ≠ 61 ∧ ch ≠ 0x7d ∧ ch ≠ 88 ∧ ch ≠ 120 ∧
      isspace ch.toNat = false := by
  obtain ⟨i,rfl⟩ := digit
  revert i
  decide

theorem digits_hexNumber (n : Nat) : ∀ ch ∈ hexNumber n, Digit ch := by
  fun_induction hexNumber n with
  | case1 n less => simpa using ⟨⟨n,less⟩,rfl⟩
  | case2 n more hyp =>
    intro ch there
    rcases List.mem_append.mp there with first | last
    · exact hyp ch first
    · exact ⟨⟨n % 16,by omega⟩,by simpa using last⟩

theorem hexNumber_some (n : Nat) : hexNumber n ≠ [] := by
  fun_induction hexNumber n with
  | case1 n less => simp
  | case2 n more hyp => simp

theorem digits_text (bytes : List UInt8) : ∀ ch ∈ text true bytes, Digit ch := by
  intro ch there
  simp only [text,if_true,List.mem_flatMap,List.mem_cons,List.not_mem_nil,or_false] at there
  obtain ⟨b,_,rfl | rfl⟩ := there
  · exact digit_hexchar (Packets.high_lt b)
  · exact digit_hexchar (Packets.low_lt b)

/-- The loop of `strtoul` reads a number of less than 32 bits, and stops behind it. -/
theorem digits_number {n : Nat} (small : n < 4294967296) (stop : digit 16 (rest.headD 0) = none) :
    digits 16 0 (hexNumber n ++ rest) = (n,rest) := by
  have whole : ∀ v, digits 16 0 (hexNumber n ++ v) = digits 16 n v := by
    fun_induction hexNumber n with
    | case1 n less =>
      intro v
      rw [List.singleton_append,digits,digit_value less]
      simp only [Nat.zero_mul,Nat.zero_add,ulong,Nat.mod_eq_of_lt small]
    | case2 n more hyp =>
      intro v
      rw [List.append_assoc,hyp (by omega),List.singleton_append,digits,digit_value (by omega)]
      simp only [ulong]
      rw [show n / 16 * 16 + n % 16 = n by omega,Nat.mod_eq_of_lt small]
  rw [whole,digits_stop stop]

/-- Behind the first digit of a number stands no `x`. -/
theorem number_unlike {n : Nat} (unlike : rest.headD 0 ≠ 120 ∧ rest.headD 0 ≠ 88) :
    (hexNumber n ++ rest).getD 1 0 ≠ 120 ∧ (hexNumber n ++ rest).getD 1 0 ≠ 88 := by
  obtain ⟨first,tail,cut⟩ := List.exists_cons_of_ne_nil (hexNumber_some n)
  match tail with
  | [] =>
    have next : (hexNumber n ++ rest).getD 1 0 = rest.headD 0 := by
      rw [cut]
      cases rest <;> rfl
    rw [next]
    exact unlike
  | ch :: tail =>
    have next : (hexNumber n ++ rest).getD 1 0 = ch := by
      rw [cut]
      rfl
    have other := digit_plain (digits_hexNumber n ch (by simp [cut]))
    rw [next]
    exact ⟨other.2.2.2.2.2.2.2.2.1,other.2.2.2.2.2.2.2.1⟩

theorem strtoul_number {n : Nat} (small : n < 4294967296) (stop : digit 16 (rest.headD 0) = none)
    (unlike : rest.headD 0 ≠ 120 ∧ rest.headD 0 ≠ 88) : strtoul 16 (hexNumber n ++ rest) = (n,rest) := by
  obtain ⟨first,tail,cut⟩ := List.exists_cons_of_ne_nil (hexNumber_some n)
  have plain := digit_plain (digits_hexNumber n first (by simp [cut]))
  have unspaced : (hexNumber n ++ rest).dropWhile (fun ch => isspace ch.toNat) = hexNumber n ++ rest := by
    rw [cut,List.cons_append,List.dropWhile_cons_of_neg (by simp [plain.2.2.2.2.2.2.2.2.2])]
  rw [strtoul,unspaced,chooseBase_plain (by decide) (number_unlike unlike)]
  exact digits_number small stop

theorem text_length (bytes : List UInt8) : (text true bytes).length = 2 * bytes.length := by
  induction bytes with
  | nil => rfl
  | cons b bytes hyp =>
    have cut : (text true (b :: bytes)).length = (text true bytes).length + 2 := rfl
    rw [cut,hyp,List.length_cons]
    omega

theorem byte_split (b : UInt8) : (b / 16) <<< 4 ||| b % 16 = b := by
  have all : ∀ i : Fin 256, (UInt8.ofNat i / 16) <<< 4 ||| UInt8.ofNat i % 16 = UInt8.ofNat i := by decide +kernel
  simpa using all ⟨b.toNat,b.toNat_lt⟩

theorem hex2bin_text (bytes rest : List UInt8) : hex2bin (text true bytes ++ rest) bytes.length = (bytes,true) := by
  induction bytes with
  | nil => rfl
  | cons b bytes hyp =>
    have cut : text true (b :: bytes) = hexchar (b / 16) :: hexchar (b % 16) :: text true bytes := rfl
    rw [cut,List.length_cons,hex2bin]
    simp only [List.cons_append,List.getD_cons_zero,List.getD_cons_succ,List.drop_succ_cons,List.drop_zero]
    rw [hex_hexchar (Packets.high_lt b),hex_hexchar (Packets.low_lt b)]
    simp only [hyp,byte_split]

/-! ### Packets that come in -/

theorem skip_noise {noise : List UInt8} (silent : ∀ ch ∈ noise, ch &&& 0x7f ≠ 36) :
    skip (noise ++ 36 :: rest) = some rest := by
  induction noise with
  | nil => rfl
  | cons ch noise hyp =>
    rw [List.cons_append,skip,if_neg (silent ch List.mem_cons_self),
      hyp (fun other there => silent other (List.mem_cons_of_mem _ there))]

/-- The end mark ends a command unless a quote stands before it. -/
theorem gather_chars {room : Nat} {last : Option UInt8} (less : chars.length < room) (sharp : 35 ∉ chars)
    (unquoted : (last.toList ++ chars).getLast? ≠ some 0x7d) :
    gather room last (chars ++ 35 :: rest) = some (chars,true,rest) := by
  induction chars generalizing room last with
  | nil =>
    match room with
    | 0 => simp at less
    | room + 1 =>
      have before : last ≠ some 0x7d := by
        cases last with
        | none => simp
        | some ch => simpa using unquoted
      rw [List.nil_append,gather,if_pos ⟨rfl,before⟩]
  | cons ch chars hyp =>
    rw [List.mem_cons,not_or] at sharp
    rw [List.length_cons] at less
    match room with
    | 0 => omega
    | room + 1 =>
      have later : ((some ch).toList ++ chars).getLast? ≠ some 0x7d := by
        rw [List.getLast?_append_of_ne_nil _ (List.cons_ne_nil ch chars)] at unquoted
        exact unquoted
      rw [List.cons_append,gather,if_neg (fun both => sharp.1 both.1.symm),hyp (by omega) sharp.2 later]
      rfl

theorem xmitcsum_checksum (sum : UInt8) : xmitcsum (hexchar (sum / 16)) (hexchar (sum % 16)) = sum := by
  rw [xmitcsum,hex_hexchar (Packets.high_lt sum),hex_hexchar (Packets.low_lt sum)]
  have all : ∀ i : Fin 256, (UInt8.ofNat i / 16) <<< 4 + UInt8.ofNat i % 16 = UInt8.ofNat i := by decide +kernel
  simpa using all ⟨sum.toNat,sum.toNat_lt⟩

/-- Damage is refused, and the wait goes on. -/
theorem getpacket_damaged (turns : Nat) (inbuf : List UInt8) (d : Damaged) (rest : List UInt8) :
    getpacket (turns + 1) inbuf (d.sent ++ rest) =
      (getpacket turns (overwrite (d.chars ++ [0]) inbuf) rest).map (fun got => { got with sent := 45 :: got.sent }) := by
  have parts : d.sent ++ rest = d.noise ++ 36 :: (d.chars ++ 35 :: (d.high :: d.low :: rest)) := by
    simp [Damaged.sent]
  have gathered := @gather_chars d.chars (d.high :: d.low :: rest) BUFMAX none d.short d.inside
    (by simpa using d.unquoted)
  rw [getpacket,parts,skip_noise d.silent]
  simp only [gathered,if_true]
  rw [if_pos d.wrong]

theorem overwrite_length {bytes buffer : List UInt8} (fits : bytes.length ≤ buffer.length) :
    (overwrite bytes buffer).length = buffer.length := by
  rw [overwrite,List.length_append,List.length_drop]
  omega

/-- The buffer after a command of at least one character. -/
def Holds (inbuf chars : List UInt8) : Prop := ∃ stale, inbuf = chars ++ 0 :: stale

theorem holds_overwrite (chars inbuf : List UInt8) : Holds (overwrite (chars ++ [0]) inbuf) chars :=
  ⟨inbuf.drop (chars.length + 1),by rw [overwrite]; simp⟩

/-- A command that arrives as it was sent. -/
structure Sendable (chars : List UInt8) : Prop where
  short : chars.length < BUFMAX
  some : chars ≠ []
  plain : ∀ ch ∈ chars, ch ≠ 0 ∧ ch ≠ 35 ∧ ch ≠ 36 ∧ ch ≠ 0x7d
  colon : chars.getD 2 0 ≠ 58

/-- A command is acknowledged; for the colon of an earlier one there may be two
    characters more. -/
theorem getpacket_framed {noise : List UInt8} (turns : Nat) (rest : List UInt8)
    (silent : ∀ ch ∈ noise, ch &&& 0x7f ≠ 36) (sendable : Sendable chars) :
    ∃ sequence, 36 ∉ sequence ∧ getpacket (turns + 1) inbuf (noise ++ framed chars ++ rest) =
      some ⟨overwrite (chars ++ [0]) inbuf,43 :: sequence,rest⟩ := by
  have parts : noise ++ framed chars ++ rest = noise ++ 36 :: (chars ++ 35 ::
      (hexchar (checksum chars / 16) :: hexchar (checksum chars % 16) :: rest)) := by
    simp [framed]
  have gathered := @gather_chars chars (hexchar (checksum chars / 16) :: hexchar (checksum chars % 16) :: rest)
    BUFMAX none sendable.short (fun there => (sendable.plain 35 there).2.1 rfl)
    (fun last => (sendable.plain 0x7d (List.mem_of_getLast? (by simpa using last))).2.2.2 rfl)
  rw [getpacket,parts,skip_noise silent]
  simp only [gathered,if_true]
  rw [if_neg (by rw [xmitcsum_checksum]; simp)]
  split
  next stale =>
    have one : chars.length = 1 := by
      by_contra other
      have length := List.length_pos_iff.mpr sendable.some
      rw [overwrite,List.getD_append _ _ _ _ (by simp; omega)] at stale
      by_cases two : chars.length = 2
      · rw [List.getD_append_right _ _ _ _ (by omega),two] at stale
        simp at stale
      · rw [List.getD_append _ _ _ _ (by omega)] at stale
        exact sendable.colon stale
    obtain ⟨ch,rfl⟩ := List.length_eq_one_iff.mp one
    obtain ⟨other,_,dollar,_⟩ := sendable.plain ch List.mem_cons_self
    refine ⟨[ch,0],by simpa using dollar.symm,?_⟩
    have count : ((overwrite ([ch] ++ [0]) inbuf).takeWhile (· != 0)).length = 1 := by
      simp [overwrite,other]
    rw [unsequenced]
    simp only [count]
    rfl
  next => exact ⟨[],by simp,rfl⟩

/-- A command arrives behind any number of damaged ones. -/
theorem getpacket_arrives {damaged : List Damaged} {turns : Nat} {noise : List UInt8} (rest : List UInt8)
    (enough : damaged.length < turns) (silent : ∀ ch ∈ noise, ch &&& 0x7f ≠ 36) (sendable : Sendable chars)
    (size : inbuf.length = BUFMAX + 1) :
    ∃ sequence inbuf', 36 ∉ sequence ∧ Holds inbuf' chars ∧ inbuf'.length = BUFMAX + 1 ∧
      getpacket turns inbuf (damaged.flatMap Damaged.sent ++ (noise ++ framed chars) ++ rest) =
        some ⟨inbuf',List.replicate damaged.length 45 ++ 43 :: sequence,rest⟩ := by
  induction damaged generalizing turns inbuf with
  | nil =>
    obtain ⟨turns,rfl⟩ : ∃ n, turns = n + 1 := ⟨turns - 1,by omega⟩
    obtain ⟨sequence,plain,got⟩ := @getpacket_framed chars inbuf noise turns rest silent sendable
    have less := sendable.short
    refine ⟨sequence,_,plain,holds_overwrite chars inbuf,?_,got⟩
    rw [overwrite_length (by simp; omega),size]
  | cons d damaged hyp =>
    obtain ⟨turns,rfl⟩ : ∃ n, turns = n + 1 := ⟨turns - 1,by omega⟩
    have length : (overwrite (d.chars ++ [0]) inbuf).length = BUFMAX + 1 := by
      have less := d.short
      rw [overwrite_length (by simp; omega),size]
    obtain ⟨sequence,inbuf',plain,holds,size',got⟩ := @hyp _ turns (by rw [List.length_cons] at enough; omega) length
    refine ⟨sequence,inbuf',plain,holds,size',?_⟩
    rw [List.flatMap_cons,List.append_assoc,List.append_assoc,getpacket_damaged]
    rw [List.append_assoc] at got
    rw [got]
    simp [List.replicate_succ]

/-! ### Commands -/

theorem request_plain {r : Request} : ∀ ch ∈ r.chars, ch ≠ 0 ∧ ch ≠ 35 ∧ ch ≠ 36 ∧ ch ≠ 0x7d := by
  have plain : ∀ ch, Digit ch → ch ≠ 0 ∧ ch ≠ 35 ∧ ch ≠ 36 ∧ ch ≠ 0x7d := fun ch digit =>
    ⟨(digit_plain digit).1,(digit_plain digit).2.1,(digit_plain digit).2.2.1,(digit_plain digit).2.2.2.2.2.2.1⟩
  have numbers := fun n ch there => plain ch (digits_hexNumber n ch there)
  have texts := fun bytes ch there => plain ch (digits_text bytes ch there)
  intro ch there
  cases r <;> simp only [Request.chars,List.mem_append,List.mem_cons,List.not_mem_nil,or_false] at there
  case why => subst there; decide
  case readRegs => subst there; decide
  case writeRegs bytes =>
    rcases there with rfl | text
    · decide
    · exact texts bytes ch text
  case writeReg n bytes =>
    rcases there with (rfl | number) | rfl | text
    · decide
    · exact numbers n ch number
    · decide
    · exact texts bytes ch text
  case readMem addr len =>
    rcases there with (rfl | number) | rfl | number
    · decide
    · exact numbers addr ch number
    · decide
    · exact numbers len ch number
  case writeMem addr bytes =>
    rcases there with ((rfl | number) | rfl | number) | rfl | text
    · decide
    · exact numbers addr ch number
    · decide
    · exact numbers bytes.length ch number
    · decide
    · exact texts bytes ch text

/-- The third character of a command with a number is no colon. -/
theorem third_number (n : Nat) (first next : UInt8) (rest : List UInt8) (other : next ≠ 58) :
    (first :: (hexNumber n ++ next :: rest)).getD 2 0 ≠ 58 := by
  obtain ⟨digit,tail,cut⟩ := List.exists_cons_of_ne_nil (hexNumber_some n)
  rw [cut]
  match tail with
  | [] => exact other
  | ch :: tail => exact (digit_plain (digits_hexNumber n ch (by simp [cut]))).2.2.2.2.1

theorem request_sendable {r : Request} (fits : r.Fits) : Sendable r.chars where
  short := fits.1
  some := by cases r <;> simp [Request.chars]
  plain := request_plain
  colon := by
    obtain ⟨_,fits⟩ := fits
    cases r with
    | why => decide
    | readRegs => decide
    | writeRegs bytes =>
      have some : bytes ≠ [] := List.ne_nil_of_length_pos (by rw [fits]; omega)
      obtain ⟨ch,bytes,rfl⟩ := List.exists_cons_of_ne_nil some
      exact (digit_plain (digit_hexchar (Packets.low_lt ch))).2.2.2.2.1
    | writeReg n bytes => exact third_number n 80 61 _ (by decide)
    | readMem addr len => exact third_number addr 109 44 _ (by decide)
    | writeMem addr bytes =>
      have third := third_number addr 77 44 (hexNumber bytes.length ++ 58 :: text true bytes) (by decide)
      simpa [Request.chars] using third

theorem literal_bytes {chars : List UInt8} (plain : ∀ ch ∈ chars, ch ≠ 0) : (literal chars).bytes = chars := by
  have whole : (chars ++ [0]).takeWhile (· != 0) = chars := by
    rw [List.takeWhile_append_of_pos (by simpa using plain)]
    simp
  exact whole

theorem short_literal {chars : List UInt8} (plain : ∀ ch ∈ chars, ch ≠ 0 ∧ ch ≠ 42 ∧ ch ≠ 35 ∧ ch ≠ 36)
    (less : chars.length < 4) : (literal chars).Short := by
  intro _
  rw [literal_bytes (fun ch there => (plain ch there).1)]
  exact ⟨fun there => (plain 42 there).2.1 rfl,fun there => (plain 35 there).2.2.1 rfl,
    fun there => (plain 36 there).2.2.2 rfl,less⟩

theorem short_hexed {data : List UInt8} {len : Nat} : (Outfrag.mk data len true).Short := by
  intro raw
  simp at raw

theorem text_hexed {data : List UInt8} {len : Nat} (some : len ≠ 0) :
    (Outfrag.mk data len true).text = text true (data.take len) := by
  rw [Outfrag.text,Outfrag.bytes,if_neg some]

theorem text_literal {chars : List UInt8} (plain : ∀ ch ∈ chars, ch ≠ 0) : (literal chars).text = chars := by
  rw [Outfrag.text,literal_bytes plain]
  rfl

/-- Replies that a debugger reads the same from. -/
def Means (frags : List Outfrag) (answer : List UInt8) : Prop :=
  (∀ f ∈ frags, f.Short) ∧ frags.flatMap Outfrag.text = answer

theorem means_ok : Means ok [79,75] := by
  constructor
  · intro f there
    rw [List.mem_singleton.mp there]
    exact short_literal (by simp) (by decide)
  · rw [ok,List.flatMap_cons,text_literal (by simp)]
    rfl

theorem means_byte (letter : UInt8) (plain : letter ≠ 0 ∧ letter ≠ 42 ∧ letter ≠ 35 ∧ letter ≠ 36) (code : UInt8) :
    Means [literal [letter],⟨[code],1,true⟩] (letter :: text true [code]) := by
  constructor
  · intro f there
    simp only [List.mem_cons,List.not_mem_nil,or_false] at there
    rcases there with rfl | rfl
    · exact short_literal (by simpa using plain) (by simp)
    · exact short_hexed
  · rw [List.flatMap_cons,List.flatMap_cons,text_literal (by simpa using plain.1),text_hexed (by decide)]
    rfl

theorem means_hexed {data : List UInt8} {len : Nat} (some : len ≠ 0) :
    Means [⟨data,len,true⟩] (text true (data.take len)) := by
  constructor
  · intro f there
    rw [List.mem_singleton.mp there]
    exact short_hexed
  · rw [List.flatMap_cons,text_hexed some]
    simp

/-- A command does what the request asks for and replies its answer. -/
def Serves (s : Stub) (r : Request) : Prop :=
  ∃ reply frags, command s = some reply ∧ reply.frags = some frags ∧ reply.action = .more ∧
    reply.stub.Sound ∧ reply.stub.client = s.client ∧ reply.stub.signo = s.signo ∧
    reply.stub.view = (s.view.serve s.client s.signo r).1 ∧ Means frags (s.view.serve s.client s.signo r).2

theorem place_number {first second : UInt8} {addr len : Nat} (small : addr < 4294967296) (small' : len < 4294967296)
    (buffer : s.inbuf = first :: (hexNumber addr ++ 44 :: (hexNumber len ++ second :: rest)))
    (stop : digit 16 second = none) (unlike : second ≠ 120 ∧ second ≠ 88) :
    place s.inbuf = some (addr,len,second :: rest) := by
  have comma : digit 16 44 = none ∧ (44 : UInt8) ≠ 120 ∧ (44 : UInt8) ≠ 88 := by decide
  have number := @strtoul_number (44 :: (hexNumber len ++ second :: rest)) addr small comma.1 comma.2
  have number' := @strtoul_number (second :: rest) len small' stop unlike
  have long := List.length_pos_iff.mpr (hexNumber_some addr)
  have long' := List.length_pos_iff.mpr (hexNumber_some len)
  rw [place,buffer]
  simp only [List.drop_succ_cons,List.drop_zero,number,number',List.getD_cons_zero]
  rw [if_neg,if_neg]
  · simp only [List.length_append]
    omega
  · simp only [List.length_append,ne_eq,not_true,or_false]
    omega

theorem serves_readMem {addr len : Nat} (sound : s.Sound) (holds : Holds s.inbuf (Request.chars (.readMem addr len)))
    (fits : (Request.readMem addr len).Fits) : Serves s (.readMem addr len) := by
  obtain ⟨stale,buffer⟩ := holds
  obtain ⟨_,small,less⟩ := fits
  have room := sound.inbuf
  unfold BUFMAX at room less
  have buffer' : s.inbuf = 109 :: (hexNumber addr ++ 44 :: (hexNumber len ++ 0 :: stale)) := by
    rw [buffer]
    simp [Request.chars]
  have found := place_number small (by omega) buffer' (by decide) (by decide)
  obtain ⟨bounded,whole⟩ := Paging.copyinLoop_length s.mem s.client len addr len
  have replies : command s = readMemory s := by
    rw [command,buffer']
    rfl
  have twice : ulong (len * 2) = len * 2 := Nat.mod_eq_of_lt (by omega)
  have length : (overwrite (gdbCopyin s.mem s.client addr len).1 s.inbuf).length = BUFMAX + 1 := by
    rw [overwrite_length (by unfold gdbCopyin; omega),sound.inbuf]
  rw [Serves,replies,readMemory,found]
  simp only
  rw [if_neg (by rw [twice]; unfold BUFMAX; omega),if_neg (by unfold gdbCopyin; omega)]
  by_cases zero : len = 0
  · subst zero
    have none : gdbCopyin s.mem s.client addr 0 = ([],true) := rfl
    simp only [none,if_true]
    refine ⟨_,_,rfl,rfl,rfl,⟨by simpa [overwrite] using sound.inbuf,sound.regs,sound.base⟩,rfl,rfl,?_,?_⟩
    · simp [View.serve,Stub.view]
    · have bytes : (Outfrag.mk s.inbuf 0 true).bytes = Request.chars (.readMem addr 0) := by
        rw [Outfrag.bytes,if_pos rfl,buffer,List.takeWhile_append_of_pos (fun ch there => by
          simpa using (request_plain ch there).1)]
        simp
      refine ⟨?_,?_⟩
      · intro f there
        rw [List.mem_singleton.mp there]
        exact short_hexed
      · simp only [overwrite,List.nil_append,List.length_nil,List.drop_zero,List.flatMap_cons,List.flatMap_nil,
          List.append_nil,Outfrag.text,bytes,View.serve,if_true]
  · by_cases done : (gdbCopyin s.mem s.client addr len).2 = true
    · rw [if_pos done]
      refine ⟨_,_,rfl,rfl,rfl,⟨length,sound.regs,sound.base⟩,rfl,rfl,?_,?_⟩
      · simp only [View.serve,if_neg zero,Stub.view,done,if_true]
      · have taken : (overwrite (gdbCopyin s.mem s.client addr len).1 s.inbuf).take len =
            (gdbCopyin s.mem s.client addr len).1 := by
          rw [overwrite,List.take_append_of_le_length (by rw [gdbCopyin,whole (Nat.le_refl len) done]),
            List.take_of_length_le (by rw [gdbCopyin,whole (Nat.le_refl len) done])]
        have means := @means_hexed (overwrite (gdbCopyin s.mem s.client addr len).1 s.inbuf) len zero
        rw [taken] at means
        simpa only [View.serve,if_neg zero,Stub.view,done,if_true] using means
    · rw [if_neg done]
      have failed : (gdbCopyin s.mem s.client addr len).2 = false := Bool.eq_false_iff.mpr done
      refine ⟨_,_,rfl,rfl,rfl,⟨length,sound.regs,sound.base⟩,rfl,rfl,?_,?_⟩
      · simp only [View.serve,if_neg zero,Stub.view,failed,Bool.false_eq_true,if_false]
      · simp only [View.serve,if_neg zero,Stub.view,failed,Bool.false_eq_true,if_false]
        exact means_byte 69 (by decide) 3

theorem serves_writeMem {addr : Nat} {bytes : List UInt8} (sound : s.Sound)
    (holds : Holds s.inbuf (Request.chars (.writeMem addr bytes))) (fits : (Request.writeMem addr bytes).Fits) :
    Serves s (.writeMem addr bytes) := by
  obtain ⟨stale,buffer⟩ := holds
  obtain ⟨short,small⟩ := fits
  have buffer' : s.inbuf =
      77 :: (hexNumber addr ++ 44 :: (hexNumber bytes.length ++ 58 :: (text true bytes ++ 0 :: stale))) := by
    rw [buffer]
    simp [Request.chars]
  have parts := congrArg List.length buffer'
  have length : (Request.chars (.writeMem addr bytes)).length =
      3 + (hexNumber addr).length + (hexNumber bytes.length).length + 2 * bytes.length := by
    simp only [Request.chars,List.length_append,List.length_cons,text_length]
    omega
  have room := sound.inbuf
  have base := sound.base
  simp only [List.length_cons,List.length_append,text_length] at parts
  unfold BUFMAX at short room
  have found := place_number small (by omega) buffer' (by decide) (by decide)
  have replies : command s = writeMemory s := by
    rw [command,buffer']
    rfl
  have twice : ulong (bytes.length * 2) = bytes.length * 2 := Nat.mod_eq_of_lt (by omega)
  have index : s.inbuf.length - (text true bytes ++ 0 :: stale).length =
      3 + (hexNumber addr).length + (hexNumber bytes.length).length := by
    rw [List.length_append,List.length_cons,text_length]
    omega
  rw [Serves,replies,writeMemory,found]
  simp only [List.drop_succ_cons,List.drop_zero,List.getD_cons_zero,index,twice]
  rw [if_neg (by simp),if_neg (by unfold ulong BUFMAX; omega),if_neg (by unfold TRAP_STACK_SIZE; omega),hex2bin_text]
  simp only [Bool.true_eq_false,if_false]
  by_cases done : (gdbCopyout s.mem s.client bytes addr).2 = true
  · rw [if_pos done]
    refine ⟨_,_,rfl,rfl,rfl,⟨sound.inbuf,sound.regs,sound.base⟩,rfl,rfl,?_,?_⟩
    · simp only [View.serve,Stub.view,done,if_true]
    · simp only [View.serve,Stub.view,done,if_true]
      exact means_ok
  · rw [if_neg done]
    have failed : (gdbCopyout s.mem s.client bytes addr).2 = false := Bool.eq_false_iff.mpr done
    refine ⟨_,_,rfl,rfl,rfl,⟨sound.inbuf,sound.regs,sound.base⟩,rfl,rfl,?_,?_⟩
    · simp only [View.serve,Stub.view,failed,Bool.false_eq_true,if_false]
    · simp only [View.serve,Stub.view,failed,Bool.false_eq_true,if_false]
      exact means_byte 69 (by decide) 3

theorem serves_writeRegs {bytes : List UInt8} (sound : s.Sound) (holds : Holds s.inbuf (Request.chars (.writeRegs bytes)))
    (fits : (Request.writeRegs bytes).Fits) : Serves s (.writeRegs bytes) := by
  obtain ⟨stale,buffer⟩ := holds
  have length : bytes.length = 64 := fits.2
  have buffer' : s.inbuf = 71 :: (text true bytes ++ 0 :: stale) := buffer
  have replies : command s = some (writeRegisters s) := by
    rw [command,buffer']
    rfl
  have read : hex2bin (s.inbuf.drop 1) s.regs.length = (bytes,true) := by
    rw [buffer',sound.regs,← length]
    exact hex2bin_text bytes _
  have whole : s.regs.take 0 ++ overwrite bytes (s.regs.drop 0) = bytes := by
    rw [List.take_zero,List.drop_zero,List.nil_append,overwrite,List.drop_of_length_le (by rw [length,sound.regs]),
      List.append_nil]
  rw [Serves,replies,writeRegisters,read]
  simp only [if_true,Stub.setBytes,whole]
  exact ⟨_,_,rfl,rfl,rfl,⟨sound.inbuf,length,sound.base⟩,rfl,rfl,rfl,means_ok⟩

theorem serves_writeReg {n : Nat} {bytes : List UInt8} (sound : s.Sound)
    (holds : Holds s.inbuf (Request.chars (.writeReg n bytes))) (fits : (Request.writeReg n bytes).Fits) :
    Serves s (.writeReg n bytes) := by
  obtain ⟨stale,buffer⟩ := holds
  obtain ⟨_,less,length⟩ := fits
  have regs := sound.regs
  have buffer' : s.inbuf = 80 :: (hexNumber n ++ 61 :: (text true bytes ++ 0 :: stale)) := by
    rw [buffer]
    simp [Request.chars]
  have replies : command s = writeRegister s := by
    rw [command,buffer']
    rfl
  have equals : digit 16 61 = none ∧ (61 : UInt8) ≠ 120 ∧ (61 : UInt8) ≠ 88 := by decide
  have number : strtoul 16 (s.inbuf.drop 1) = (n,61 :: (text true bytes ++ 0 :: stale)) := by
    rw [buffer']
    exact @strtoul_number (61 :: (text true bytes ++ 0 :: stale)) n (by omega) equals.1 equals.2
  have long := List.length_pos_iff.mpr (hexNumber_some n)
  have read : hex2bin (text true bytes ++ 0 :: stale) 4 = (bytes,true) := by
    rw [← length]
    exact hex2bin_text bytes _
  have whole : ulong (4 * n) = 4 * n := Nat.mod_eq_of_lt (by omega)
  have first : ¬ ((61 :: (text true bytes ++ 0 :: stale)).length = (s.inbuf.drop 1).length ∨
      (61 :: (text true bytes ++ 0 :: stale)).getD 0 0 ≠ 61) := by
    rw [buffer']
    simp only [List.drop_succ_cons,List.drop_zero,List.length_append,List.getD_cons_zero,ne_eq,not_true,or_false]
    omega
  have kept : s.regs.take (4 * n) ++ overwrite bytes (s.regs.drop (4 * n)) =
      s.regs.take (4 * n) ++ bytes ++ s.regs.drop (4 * n + 4) := by
    rw [overwrite,List.drop_drop,length,List.append_assoc]
  rw [Serves,replies,writeRegister,number]
  simp only [List.drop_succ_cons,List.drop_zero,read]
  rw [if_neg first,if_neg (by omega),if_neg (by unfold ulong; omega),if_neg (by rw [whole]; omega)]
  simp only [if_true,Stub.setBytes,whole,kept]
  refine ⟨_,_,rfl,rfl,rfl,⟨sound.inbuf,?_,sound.base⟩,rfl,rfl,rfl,means_ok⟩
  simp only [List.length_append,List.length_take,List.length_drop]
  omega

theorem serves {r : Request} (sound : s.Sound) (holds : Holds s.inbuf r.chars) (fits : r.Fits) : Serves s r := by
  cases r with
  | why =>
    obtain ⟨stale,buffer⟩ := holds
    have replies : command s = some ⟨s,some (report s.signo),.more⟩ := by
      rw [command,buffer]
      rfl
    rw [Serves,replies]
    exact ⟨_,_,rfl,rfl,rfl,sound,rfl,rfl,rfl,means_byte 83 (by decide) s.signo⟩
  | readRegs =>
    obtain ⟨stale,buffer⟩ := holds
    have replies : command s = some ⟨s,some [⟨s.regs,s.regs.length,true⟩],.more⟩ := by
      rw [command,buffer]
      rfl
    have means := @means_hexed s.regs s.regs.length (by rw [sound.regs]; decide)
    rw [List.take_length] at means
    rw [Serves,replies]
    exact ⟨_,_,rfl,rfl,rfl,sound,rfl,rfl,rfl,means⟩
  | writeRegs bytes => exact serves_writeRegs sound holds fits
  | writeReg n bytes => exact serves_writeReg sound holds fits
  | readMem addr len => exact serves_readMem sound holds fits
  | writeMem addr bytes => exact serves_writeMem sound holds fits

/-! ### Sessions -/

theorem putfrags_nacks {nacks : List UInt8} {ack : UInt8} (frags : List Outfrag) (rest : List UInt8)
    (refused : ∀ ch ∈ nacks, ch &&& 0x7f ≠ 43) (liked : ack &&& 0x7f = 43) :
    putfrags frags (nacks ++ ack :: rest) = some ((List.replicate (nacks.length + 1) (packet frags)).flatten,rest) := by
  induction nacks with
  | nil =>
    rw [List.nil_append,putfrags,if_pos liked]
    simp
  | cons ch nacks hyp =>
    rw [List.cons_append,putfrags,if_neg (refused ch List.mem_cons_self),
      hyp (fun other there => refused other (List.mem_cons_of_mem _ there))]
    rw [List.length_cons,List.replicate_succ (n := nacks.length + 1),List.flatten_cons]
    rfl

theorem damaged_length (damaged : List Damaged) : damaged.length ≤ (damaged.flatMap Damaged.sent).length := by
  induction damaged with
  | nil => simp
  | cons d damaged hyp =>
    rw [List.flatMap_cons,List.length_append,List.length_cons]
    simp only [Damaged.sent,List.length_append,List.length_cons]
    omega

/-- A turn of the loop serves a request. -/
theorem converseTurn_serves (sound : s.Sound) (e : Exchange) (rest : List UInt8) :
    ∃ s' sent, converseTurn s (e.sent ++ rest) = some (s',.more,sent,rest) ∧
      s'.Sound ∧ s'.client = s.client ∧ s'.signo = s.signo ∧
      s'.view = (s.view.serve s.client s.signo e.request).1 ∧
      Tells e (s.view.serve s.client s.signo e.request).2 sent := by
  have parts : e.sent ++ rest = e.damaged.flatMap Damaged.sent ++ (e.noise ++ framed e.request.chars) ++
      (e.nacks ++ e.ack :: rest) := by
    simp [Exchange.sent]
  have long := damaged_length e.damaged
  obtain ⟨sequence,inbuf,plain,holds,size,got⟩ := @getpacket_arrives e.request.chars s.inbuf e.damaged
    ((e.sent ++ rest).length + 1) e.noise (e.nacks ++ e.ack :: rest)
    (by rw [parts,List.length_append,List.length_append]; omega) e.silent (request_sendable e.fits) sound.inbuf
  obtain ⟨reply,frags,done,replied,more,sound',client,signo,view,short,answer⟩ :=
    @serves { s with inbuf := inbuf, connected := true } e.request ⟨size,sound.regs,sound.base⟩ holds e.fits
  rw [← parts] at got
  refine ⟨reply.stub,List.replicate e.damaged.length 45 ++ 43 :: sequence ++
    (List.replicate (e.nacks.length + 1) (packet frags)).flatten,?_,sound',client,signo,view,
    ⟨sequence,frags,plain,short,answer,rfl⟩⟩
  rw [converseTurn,got]
  simp only [done,replied,putfrags_nacks frags rest e.refused e.liked,more]
  rfl

/-- The turns of the loop serve the requests. -/
theorem converse_serves (sound : s.Sound) (exchanges : List Exchange) (rest : List UInt8) :
    ∃ s' sent, converse exchanges.length s (exchanges.flatMap Exchange.sent ++ rest) = some (s',sent,rest) ∧
      s'.view = (s.view.serveAll s.client s.signo (exchanges.map Exchange.request)).1 ∧
      List.Forall₂ (fun (told : Exchange × List UInt8) sent => Tells told.1 told.2 sent)
        (exchanges.zip (s.view.serveAll s.client s.signo (exchanges.map Exchange.request)).2) sent := by
  induction exchanges generalizing s with
  | nil => exact ⟨s,[],rfl,rfl,.nil⟩
  | cons e exchanges hyp =>
    obtain ⟨s₁,sent,turned,sound₁,client,signo,view,tells⟩ :=
      converseTurn_serves sound e (exchanges.flatMap Exchange.sent ++ rest)
    obtain ⟨s',later,conversed,view',all⟩ := hyp sound₁
    refine ⟨s',sent :: later,?_,?_,?_⟩
    · rw [List.flatMap_cons,List.append_assoc,List.length_cons,converse,turned]
      simp only [if_true,conversed,Option.map_some]
    · rw [view',view,client,signo]
      rfl
    · rw [client,signo,view] at all
      exact .cons tells all

/-- The stub reports the signal until the debugger likes the report. Then,
    whatever command comes in damaged, and however often the debugger has replies
    repeated, each request is carried out once, in order, and gets the answer that
    the program gives as it then is. -/
theorem session {nacks : List UInt8} {ack : UInt8} (sound : s.Sound) (refused : ∀ ch ∈ nacks, ch &&& 0x7f ≠ 43)
    (liked : ack &&& 0x7f = 43) (exchanges : List Exchange) (rest : List UInt8) :
    ∃ s' sent, gdbSerialConverse exchanges.length s
        (nacks ++ ack :: (exchanges.flatMap Exchange.sent ++ rest)) =
        some (s',(List.replicate (nacks.length + 1) (packet (report s.signo))).flatten :: sent,rest) ∧
      s'.view = (s.view.serveAll s.client s.signo (exchanges.map Exchange.request)).1 ∧
      List.Forall₂ (fun (told : Exchange × List UInt8) sent => Tells told.1 told.2 sent)
        (exchanges.zip (s.view.serveAll s.client s.signo (exchanges.map Exchange.request)).2) sent := by
  obtain ⟨s',sent,conversed,view,all⟩ := converse_serves sound exchanges rest
  refine ⟨s',sent,?_,view,all⟩
  rw [gdbSerialConverse,putfrags_nacks _ _ refused liked]
  simp only [conversed,Option.map_some]

theorem sound_idle : idle.Sound := ⟨List.length_replicate,List.length_replicate,by decide⟩

/-- A question that comes in damaged at first; the first reply gets lost. -/
def asked : Exchange where
  request := .why
  damaged := [⟨[],[63],48,48,by simp,by decide,by decide,by decide,by decide⟩]
  noise := [43]
  nacks := [45]
  ack := 43
  fits := ⟨by decide,trivial⟩
  silent := List.forall_mem_singleton.mpr (by decide)
  refused := List.forall_mem_singleton.mpr (by decide)
  liked := by decide

theorem session_asked :
    ∃ s' sent, gdbSerialConverse 2 idle ([45] ++ 43 :: ((asked.sent ++ (asked.sent ++ [])) ++ [36])) =
        some (s',(List.replicate 2 (packet (report 5))).flatten :: sent,[36]) ∧ s'.view = idle.view := by
  obtain ⟨s',sent,conversed,view,_⟩ := @session idle [45] 43 sound_idle
    (List.forall_mem_singleton.mpr (by decide)) (by decide) [asked,asked] [36]
  exact ⟨s',sent,conversed,view⟩

/-! ### Any characters on the line -/

theorem gather_length {room : Nat} {last : Option UInt8} {chars : List UInt8} {sharp : Bool} {rest : List UInt8}
    (gathered : gather room last input = some (chars,sharp,rest)) : chars.length ≤ room := by
  induction room generalizing last input chars sharp rest with
  | zero =>
    simp only [gather,Option.some.injEq,Prod.mk.injEq] at gathered
    rw [← gathered.1]
    exact Nat.le_refl 0
  | succ room hyp =>
    match input with
    | [] => simp [gather] at gathered
    | ch :: input =>
      rw [gather] at gathered
      split at gathered
      · simp only [Option.some.injEq,Prod.mk.injEq] at gathered
        rw [← gathered.1]
        exact Nat.zero_le _
      · obtain ⟨⟨more,sharp',input'⟩,later,same⟩ := Option.map_eq_some_iff.mp gathered
        simp only [Prod.mk.injEq] at same
        have less := hyp later
        rw [← same.1,List.length_cons]
        omega

theorem unsequenced_length (inbuf : List UInt8) : (unsequenced inbuf).length = inbuf.length := by
  unfold unsequenced
  simp only
  split
  · refine overwrite_length ?_
    rw [List.length_take,List.length_drop]
    omega
  · rfl

theorem zero_unsequenced (zero : 0 ∈ inbuf) : 0 ∈ unsequenced inbuf := by
  obtain ⟨pre,post,rfl,absent⟩ := List.eq_append_cons_of_mem zero
  have first : (pre ++ 0 :: post).takeWhile (· != 0) = pre := by
    rw [List.takeWhile_append_of_pos (fun ch there => by
      simpa using fun same : ch = 0 => absent (same ▸ there))]
    simp
  unfold unsequenced
  simp only [first]
  split
  next long =>
    have kept : 0 ∈ ((pre ++ 0 :: post).drop 3).take (pre.length - 2) := by
      rw [List.drop_append_of_le_length long,List.take_append,List.length_drop,
        show pre.length - 2 - (pre.length - 3) = 1 by omega]
      simp
    exact List.mem_append_left _ kept
  next => exact zero

/-- `getpacket` stays inside of the buffer and leaves a zero in it. -/
theorem getpacket_inside {turns : Nat} {got : Got} (size : inbuf.length = BUFMAX + 1)
    (received : getpacket turns inbuf input = some got) : got.inbuf.length = BUFMAX + 1 ∧ 0 ∈ got.inbuf := by
  induction turns generalizing inbuf input got with
  | zero => simp [getpacket] at received
  | succ turns hyp =>
    rw [getpacket] at received
    split at received
    · simp at received
    next input' _ =>
      split at received
      · simp at received
      next chars sharp input'' gathered =>
        have short := gather_length gathered
        have length : (overwrite (chars ++ [0]) inbuf).length = BUFMAX + 1 := by
          rw [overwrite_length (by simp; omega),size]
        have zero : 0 ∈ overwrite (chars ++ [0]) inbuf := by simp [overwrite]
        simp only at received
        split at received
        · split at received
          · split at received
            · obtain ⟨got',later,same⟩ := Option.map_eq_some_iff.mp received
              have inside := hyp length later
              rw [← same]
              exact inside
            · split at received
              · rw [← Option.some.inj received]
                exact ⟨by rw [unsequenced_length,length],zero_unsequenced zero⟩
              · rw [← Option.some.inj received]
                exact ⟨length,zero⟩
          · simp at received
        · split at received
          · rw [← Option.some.inj received]
            exact ⟨length,zero⟩
          · exact hyp length received

theorem hex2bin_length (input : List UInt8) (len : Nat) : (hex2bin input len).1.length ≤ len := by
  induction len generalizing input with
  | zero => exact Nat.le_refl 0
  | succ len hyp =>
    rw [hex2bin]
    split
    · simp only [List.length_cons]
      have less := hyp (input.drop 2)
      omega
    · exact Nat.zero_le _

theorem unquote_length (chars : List UInt8) : (unquote chars).1.length ≤ chars.length := by
  fun_induction unquote chars with
  | case1 => exact Nat.le_refl 0
  | case2 => exact Nat.zero_le _
  | case3 => exact Nat.le_refl 1
  | case4 next rest hyp =>
    simp only [List.length_cons]
    omega
  | case5 ch next rest other hyp =>
    simp only [List.length_cons] at hyp ⊢
    omega

theorem setBytes_length {i : Nat} {bytes : List UInt8} (fits : i + bytes.length ≤ s.regs.length ∨ bytes = []) :
    (s.setBytes i bytes).regs.length = s.regs.length := by
  unfold Stub.setBytes overwrite
  simp only [List.length_append,List.length_take,List.length_drop]
  rcases fits with fits | rfl
  · omega
  · simp only [List.length_nil]
    omega

theorem setReg_length {i : Nat} (w : Nat) (fits : 4 * i + 4 ≤ s.regs.length) :
    (s.setReg i w).regs.length = s.regs.length :=
  setBytes_length (Or.inl fits)

/-- What a reply keeps of the stub, and where its fragments lie. -/
def Tidy (reply : Reply) : Prop :=
  reply.stub.Sound ∧ ∀ frags, reply.frags = some frags → ∀ f ∈ frags, Inside f

theorem inside_literal (chars : List UInt8) : Inside (literal chars) := by
  constructor
  · exact Nat.zero_le _
  · intro _
    simp [literal]

theorem tidy_literals {chars : List UInt8} {action : Action} (sound : s.Sound) :
    Tidy ⟨s,some [literal chars],action⟩ := by
  refine ⟨sound,fun frags same f there => ?_⟩
  rw [← Option.some.inj same,List.mem_singleton] at there
  rw [there]
  exact inside_literal chars

theorem tidy_byte {letter code : UInt8} {action : Action} (sound : s.Sound) :
    Tidy ⟨s,some [literal [letter],⟨[code],1,true⟩],action⟩ := by
  refine ⟨sound,fun frags same f there => ?_⟩
  rw [← Option.some.inj same] at there
  simp only [List.mem_cons,List.not_mem_nil,or_false] at there
  rcases there with rfl | rfl
  · exact inside_literal _
  · exact ⟨Nat.le_refl 1,by simp⟩

theorem tidy_none {action : Action} (sound : s.Sound) : Tidy ⟨s,none,action⟩ := ⟨sound,by simp⟩

theorem sound_regs {regs : List UInt8} (sound : s.Sound) (same : regs.length = s.regs.length) :
    { s with regs := regs }.Sound := ⟨sound.inbuf,by rw [same]; exact sound.regs,sound.base⟩

theorem sound_setReg {i : Nat} (w : Nat) (sound : s.Sound) (less : i < 16) : (s.setReg i w).Sound :=
  sound_regs sound (setReg_length w (by rw [sound.regs]; omega))

theorem sound_trace (enable : Bool) (sound : s.Sound) : (gdbSetTraceFlag enable s).Sound := by
  unfold gdbSetTraceFlag
  split
  · exact sound_setReg _ sound (by decide)
  · exact sound_setReg _ sound (by decide)

theorem sound_jump {p : List UInt8} (sound : s.Sound) : (jump s p).Sound := by
  unfold jump
  simp only
  split
  · exact sound_setReg _ sound (by decide)
  · exact sound

theorem tidy_goOn {step : Bool} (sound : s.Sound) : Tidy (goOn s step) := by
  have whole := sound_trace step (sound_jump (p := s.inbuf.drop 1) sound)
  exact tidy_none ⟨whole.inbuf,whole.regs,whole.base⟩

theorem tidy_goOnWith {step : Bool} (sound : s.Sound) : Tidy (goOnWith s step) := by
  unfold goOnWith
  split
  next high low _ _ =>
    simp only
    split
    · exact tidy_byte sound
    · have whole := sound_trace step (sound_jump (p := s.inbuf.drop 3) sound)
      exact tidy_none ⟨whole.inbuf,whole.regs,whole.base⟩
  · exact tidy_byte sound

theorem tidy_writeRegisters (sound : s.Sound) : Tidy (writeRegisters s) := by
  have short := hex2bin_length (s.inbuf.drop 1) s.regs.length
  have kept : (s.setBytes 0 (hex2bin (s.inbuf.drop 1) s.regs.length).1).Sound :=
    sound_regs sound (setBytes_length (Or.inl (by omega)))
  unfold writeRegisters
  simp only
  split
  · exact tidy_literals kept
  · exact tidy_byte kept

theorem inside_writeRegister (sound : s.Sound) :
    (∀ reply, writeRegister s = some reply → Tidy reply) ∧
    (writeRegister s = none → 0x3FFFFFFF ≤ (strtoul 16 (s.inbuf.drop 1)).1) := by
  unfold writeRegister
  generalize strtoul 16 (s.inbuf.drop 1) = read
  obtain ⟨reg,eqp⟩ := read
  simp only
  split
  · exact ⟨fun reply same => Option.some.inj same ▸ tidy_byte sound,by simp⟩
  split
  · exact ⟨fun reply same => Option.some.inj same ▸ tidy_literals sound,by simp⟩
  split
  · exact ⟨fun reply same => Option.some.inj same ▸ tidy_byte sound,by simp⟩
  next small =>
    rw [sound.regs] at small
    split
    next outside =>
      rw [sound.regs] at outside
      refine ⟨by simp,fun _ => ?_⟩
      have far := outside.1
      unfold ulong at small far
      omega
    next within =>
      have short := hex2bin_length (eqp.drop 1) 4
      have kept : (s.setBytes (ulong (4 * reg)) (hex2bin (eqp.drop 1) 4).1).Sound := by
        refine sound_regs sound (setBytes_length ?_)
        by_cases none : (hex2bin (eqp.drop 1) 4).1 = []
        · exact Or.inr none
        · have near : ¬ ulong (4 * reg) ≥ s.regs.length := fun far => within ⟨far,none⟩
          rw [sound.regs] at near ⊢
          unfold ulong at near ⊢
          exact Or.inl (by omega)
      split
      · exact ⟨fun reply same => Option.some.inj same ▸ tidy_literals kept,by simp⟩
      · exact ⟨fun reply same => Option.some.inj same ▸ tidy_byte kept,by simp⟩

theorem sound_overwrite {bytes : List UInt8} (sound : s.Sound) (fits : bytes.length ≤ s.inbuf.length) :
    { s with inbuf := overwrite bytes s.inbuf }.Sound :=
  ⟨by rw [overwrite_length fits]; exact sound.inbuf,sound.regs,sound.base⟩

theorem sound_mem {mem : Memory} (sound : s.Sound) : { s with mem := mem }.Sound := ⟨sound.inbuf,sound.regs,sound.base⟩

theorem inside_readMemory (sound : s.Sound) (zero : 0 ∈ s.inbuf) :
    (∀ reply, readMemory s = some reply → Tidy reply) ∧
    (readMemory s = none → ∃ addr len p, place s.inbuf = some (addr,len,p) ∧ 0x40000000 ≤ len) := by
  unfold readMemory
  cases found : place s.inbuf with
  | none => exact ⟨fun reply same => Option.some.inj same ▸ tidy_byte sound,by simp⟩
  | some read =>
    obtain ⟨addr,len,p⟩ := read
    have room := sound.inbuf
    simp only
    split
    · exact ⟨fun reply same => Option.some.inj same ▸ tidy_byte sound,by simp⟩
    next small =>
      have bounded := Paging.copyinLoop_length s.mem s.client len addr len
      split
      next long =>
        refine ⟨by simp,fun _ => ⟨addr,len,p,rfl,?_⟩⟩
        rw [gdbCopyin] at long
        unfold ulong BUFMAX at small
        unfold BUFMAX at room
        omega
      next fits =>
        have kept := sound_overwrite sound (show (gdbCopyin s.mem s.client addr len).1.length ≤ s.inbuf.length by omega)
        split
        next done =>
          refine ⟨fun reply same => Option.some.inj same ▸ ⟨kept,fun frags same f there => ?_⟩,by simp⟩
          rw [← Option.some.inj same,List.mem_singleton] at there
          subst there
          refine ⟨?_,fun none => ?_⟩
          · simp only [overwrite,List.length_append]
            have whole := bounded.2 (Nat.le_refl len) done
            rw [gdbCopyin,whole]
            omega
          · simp only at none
            subst none
            exact zero
        · exact ⟨fun reply same => Option.some.inj same ▸ tidy_byte kept,by simp⟩

theorem inside_writeMemory (sound : s.Sound) :
    (∀ reply, writeMemory s = some reply → Tidy reply) ∧
    (writeMemory s = none → ∃ addr len p, place s.inbuf = some (addr,len,p) ∧ 0x40000000 ≤ len) := by
  unfold writeMemory
  cases found : place s.inbuf with
  | none => exact ⟨fun reply same => Option.some.inj same ▸ tidy_byte sound,by simp⟩
  | some read =>
    obtain ⟨addr,len,ptr2⟩ := read
    have room := sound.inbuf
    have base := sound.base
    simp only
    split
    · exact ⟨fun reply same => Option.some.inj same ▸ tidy_byte sound,by simp⟩
    split
    · exact ⟨fun reply same => Option.some.inj same ▸ tidy_byte sound,by simp⟩
    next small =>
      split
      next long =>
        refine ⟨by simp,fun _ => ⟨addr,len,ptr2,rfl,?_⟩⟩
        unfold ulong BUFMAX at small
        unfold BUFMAX at room
        unfold TRAP_STACK_SIZE at long
        omega
      split
      · exact ⟨fun reply same => Option.some.inj same ▸ tidy_byte sound,by simp⟩
      split
      · exact ⟨fun reply same => Option.some.inj same ▸ tidy_literals (sound_mem sound),by simp⟩
      · exact ⟨fun reply same => Option.some.inj same ▸ tidy_byte (sound_mem sound),by simp⟩

theorem inside_writeBinary (sound : s.Sound) : ∃ reply, writeBinary s = some reply ∧ Tidy reply := by
  unfold writeBinary
  cases place s.inbuf with
  | none => exact ⟨_,rfl,tidy_byte sound⟩
  | some read =>
    obtain ⟨addr,len,ptr2⟩ := read
    have room := sound.inbuf
    have base := sound.base
    simp only
    split
    · exact ⟨_,rfl,tidy_byte sound⟩
    split
    · exact ⟨_,rfl,tidy_byte sound⟩
    next small =>
      have short := unquote_length ((ptr2.drop 1).take (ulong (s.base + (s.inbuf.length - (ptr2.drop 1).length) + len) -
        (s.base + (s.inbuf.length - (ptr2.drop 1).length))))
      rw [List.length_take] at short
      have kept := sound_overwrite sound (Nat.le_trans short (by unfold BUFMAX at small room; omega))
      split
      · exact ⟨_,rfl,tidy_byte kept⟩
      split
      · exact ⟨_,rfl,tidy_literals (sound_mem kept)⟩
      · exact ⟨_,rfl,tidy_byte (sound_mem kept)⟩

/-- A command stays inside of the stub's memory unless it is excessive. -/
theorem inside_command (sound : s.Sound) (zero : 0 ∈ s.inbuf) :
    (∀ reply, command s = some reply → Tidy reply) ∧ (command s = none → Excessive s) := by
  have first : ∀ n, (s.inbuf.getD 0 0).toNat = n → s.inbuf.getD 0 0 = UInt8.ofNat n := by
    rintro n rfl
    simp
  unfold command
  split
  · split
    · exact ⟨fun reply same => Option.some.inj same ▸ tidy_byte sound,by simp⟩
    · exact ⟨fun reply same => Option.some.inj same ▸ tidy_literals sound,by simp⟩
  · split
    · exact ⟨fun reply same => Option.some.inj same ▸ tidy_byte sound,by simp⟩
    · exact ⟨fun reply same => Option.some.inj same ▸ tidy_literals sound,by simp⟩
  · refine ⟨fun reply same => Option.some.inj same ▸ ⟨sound,fun frags same f there => ?_⟩,by simp⟩
    rw [← Option.some.inj same,List.mem_singleton] at there
    subst there
    exact ⟨Nat.le_refl _,fun none => absurd none (by simp only [sound.regs]; decide)⟩
  · exact ⟨fun reply same => Option.some.inj same ▸ tidy_writeRegisters sound,by simp⟩
  next p =>
    obtain ⟨tidy,far⟩ := inside_writeRegister sound
    exact ⟨tidy,fun none => Or.inr ⟨first 80 p,far none⟩⟩
  next m =>
    obtain ⟨tidy,far⟩ := inside_readMemory sound zero
    exact ⟨tidy,fun none => Or.inl ⟨Or.inl (first 109 m),far none⟩⟩
  next m =>
    obtain ⟨tidy,far⟩ := inside_writeMemory sound
    exact ⟨tidy,fun none => Or.inl ⟨Or.inr (first 77 m),far none⟩⟩
  · obtain ⟨reply,done,tidy⟩ := inside_writeBinary sound
    rw [done]
    exact ⟨fun other same => Option.some.inj same ▸ tidy,by simp⟩
  · exact ⟨fun reply same => Option.some.inj same ▸ tidy_goOn sound,by simp⟩
  · exact ⟨fun reply same => Option.some.inj same ▸ tidy_goOn sound,by simp⟩
  · exact ⟨fun reply same => Option.some.inj same ▸ tidy_goOnWith sound,by simp⟩
  · exact ⟨fun reply same => Option.some.inj same ▸ tidy_goOnWith sound,by simp⟩
  · exact ⟨fun reply same => Option.some.inj same ▸ tidy_byte sound,by simp⟩
  · exact ⟨fun reply same => Option.some.inj same ▸ tidy_literals ⟨sound.inbuf,sound.regs,sound.base⟩,by simp⟩
  · exact ⟨fun reply same => Option.some.inj same ▸ tidy_none ⟨sound.inbuf,sound.regs,sound.base⟩,by simp⟩
  · exact ⟨fun reply same => Option.some.inj same ▸ tidy_none ⟨sound.inbuf,sound.regs,sound.base⟩,by simp⟩
  · exact ⟨fun reply same => Option.some.inj same ▸ tidy_literals ⟨sound.inbuf,sound.regs,sound.base⟩,by simp⟩
  · exact ⟨fun reply same => Option.some.inj same ▸ tidy_literals sound,by simp⟩
  · exact ⟨fun reply same => Option.some.inj same ▸ tidy_literals sound,by simp⟩

theorem sound_received {turns : Nat} {got : Got} (sound : s.Sound) (received : getpacket turns s.inbuf input = some got) :
    { s with inbuf := got.inbuf, connected := true }.Sound :=
  ⟨(getpacket_inside sound.inbuf received).1,sound.regs,sound.base⟩

theorem sound_turn {s' : Stub} (sound : s.Sound) (turn : Turn s s') : s'.Sound := by
  obtain ⟨turns,input,got,reply,received,done,rfl⟩ := turn
  exact ((inside_command (sound_received sound received) (getpacket_inside sound.inbuf received).2).1 reply done).1

theorem sound_turns {s' : Stub} (sound : s.Sound) (turns : Relation.ReflTransGen Turn s s') : s'.Sound := by
  induction turns with
  | refl => exact sound
  | tail _ turn hyp => exact sound_turn hyp turn

/-- Whatever comes in on the line, the stub receives inside of its buffer, with a
    zero behind it, and replies from inside of its memory, and a command writes outside of the stub's
    buffers only if a length of 2^30 bytes or more, or the number of a register
    from 2^30 - 1 on, does not fit when it is multiplied. -/
theorem stays_inside {s' : Stub} {turns : Nat} {got : Got} (sound : s.Sound) (ran : Relation.ReflTransGen Turn s s')
    (received : getpacket turns s'.inbuf input = some got) :
    got.inbuf.length = BUFMAX + 1 ∧ 0 ∈ got.inbuf ∧
    (∀ reply, command { s' with inbuf := got.inbuf, connected := true } = some reply →
      reply.stub.Sound ∧ ∀ frags, reply.frags = some frags → ∀ f ∈ frags, Inside f) ∧
    (command { s' with inbuf := got.inbuf, connected := true } = none →
      Excessive { s' with inbuf := got.inbuf, connected := true }) := by
  have sound' := sound_turns sound ran
  obtain ⟨size,zero⟩ := getpacket_inside sound'.inbuf received
  obtain ⟨tidy,excessive⟩ := inside_command (sound_received sound' received) zero
  exact ⟨size,zero,tidy,excessive⟩

/-- A debugger asks for the registers, and then why the program has stopped. -/
theorem stays_inside_question : ∃ s' got reply, Relation.ReflTransGen Turn idle s' ∧
    getpacket 1 s'.inbuf (framed [63]) = some got ∧ got.inbuf.length = BUFMAX + 1 ∧ 0 ∈ got.inbuf ∧
    command { s' with inbuf := got.inbuf, connected := true } = some reply ∧
    reply.frags = some (report 5) ∧ ∀ f ∈ report 5, Inside f := by
  obtain ⟨_,_,received⟩ :=
    @getpacket_framed [103] idle.inbuf [] 0 [] (by simp) ⟨by decide,by decide,by simp,by decide⟩
  have turn : Turn idle { idle with inbuf := overwrite [103,0] idle.inbuf, connected := true } :=
    ⟨1,framed [103],_,_,received,rfl,rfl⟩
  obtain ⟨_,_,received'⟩ := @getpacket_framed [63] (overwrite [103,0] idle.inbuf) [] 0 [] (by simp)
    ⟨by decide,by decide,by simp,by decide⟩
  obtain ⟨size,zero,tidy,_⟩ := stays_inside sound_idle (.single turn) received'
  exact ⟨_,_,_,.single turn,received',size,zero,rfl,rfl,(tidy _ rfl).2 _ rfl⟩

/-- `P3fffffff=00` writes in front of the registers. -/
example :
    (command { idle with inbuf := [80,51,102,102,102,102,102,102,102,61,48,48] ++ List.replicate 389 0 }).isNone := by
  decide +kernel

end Psys.Converse
