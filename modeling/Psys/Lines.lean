import Mathlib.Data.List.Basic
import Psys.Handlers

/-!
`cons_read` on whatever `buffer_pop` delivers. A newline ends a call without
being stored, and only when it arrives before the buffer of the caller is full.
-/
namespace Psys.Lines
open Psys.State Psys.Provenance Psys.Vfs
universe u

/-! ### The code -/

/-- A call of `cons_read` with `len` bytes asked for: what it returns, the bytes
    that it stores from the start of the caller's buffer on, the bytes that
    `buffer_pop` delivers to it, and the state that it leaves. -/
structure Call (σ : Type u) where
  len : Nat
  result : Nat
  chunk : List UInt8
  popped : List UInt8
  rest : σ

section Code
variable {σ : Type u} (pop : σ → UInt8 × σ) (store : Nat → UInt8 → σ → σ)

/-- The loop of `cons_read`, with `left` bytes to read. `pop` is `buffer_pop`
    and `store` writes a byte at an offset of the caller's buffer. -/
def consReadLoop (len : Nat) : Nat → σ → Call σ
  | 0, s => ⟨len,len,[],[],s⟩
  | left + 1, s =>
    let offset := len - (left + 1)
    let c := (pop s).1
    if c = 10 then ⟨len,offset,[],[c],(pop s).2⟩
    else
      let call := consReadLoop len left (store offset c (pop s).2)
      { call with chunk := c :: call.chunk, popped := c :: call.popped }

/-- `cons_read` -/
def consRead (len : Nat) (s : σ) : Call σ := consReadLoop pop store len len s

/-- A request for `len` bytes, and what happens before the call. -/
structure Request (σ : Type u) where
  before : σ → σ
  len : Nat

/-- Calls of `cons_read`, one after the other. -/
def session : List (Request σ) → σ → List (Call σ)
  | [], _ => []
  | request :: rest, s =>
    let call := consRead pop store request.len (request.before s)
    call :: session rest call.rest

end Code

variable {σ : Type u} (pop : σ → UInt8 × σ) (store : Nat → UInt8 → σ → σ)

/-- A chunk, with a newline after it when it is shorter than its request. -/
def framed (call : Call σ) : List UInt8 := if call.chunk.length < call.len then call.chunk ++ [10] else call.chunk

/-! ### One call -/

/-- How a call ends: its buffer is full, or a newline arrives. -/
inductive Ends (call : Call σ) : Prop where
  | full (taken : call.popped = call.chunk) (whole : call.chunk.length = call.len)
  | newline (taken : call.popped = call.chunk ++ [10]) (short : call.chunk.length < call.len)

/-- What a call does with the bytes that it takes. -/
structure Sound (call : Call σ) : Prop where
  clean : 10 ∉ call.chunk
  counted : call.result = call.chunk.length
  ends : Ends call

theorem consReadLoop_len (len left : Nat) (s : σ) : (consReadLoop pop store len left s).len = len := by
  induction left generalizing s with
  | zero => rfl
  | succ left ih =>
    rw [consReadLoop]
    dsimp only
    split
    · rfl
    · exact ih _

/-- From an offset on, the loop stores all bytes that it takes, except for a
    newline that ends it. -/
theorem consReadLoop_bytes {len left : Nat} (inside : left ≤ len) (s : σ) :
    let call := consReadLoop pop store len left s
    10 ∉ call.chunk ∧ call.result = len - left + call.chunk.length ∧
      (call.popped = call.chunk ∧ call.chunk.length = left ∨ call.popped = call.chunk ++ [10] ∧ call.chunk.length < left) := by
  induction left generalizing s with
  | zero => simp [consReadLoop]
  | succ left ih =>
    rw [consReadLoop]
    dsimp only
    split
    · rename_i newline
      simp [newline]
    · rename_i other
      obtain ⟨clean,counted,ends⟩ := ih (by omega) (store (len - (left + 1)) (pop s).1 (pop s).2)
      refine ⟨?_,?_,?_⟩
      · simp only [List.mem_cons,not_or]
        exact ⟨Ne.symm other,clean⟩
      · simp only [counted,List.length_cons]
        omega
      · rcases ends with ⟨taken,whole⟩ | ⟨taken,short⟩
        · exact .inl ⟨by rw [taken],by simp [whole]⟩
        · exact .inr ⟨by rw [taken,List.cons_append],by simp [short]⟩

/-- The state after some bytes have been taken and stored from an offset on. -/
def after (offset : Nat) : Nat → σ → σ
  | 0, s => s
  | n + 1, s => after (offset + 1) n (store offset (pop s).1 (pop s).2)

/-- The bytes that a call takes are those that `buffer_pop` gives one after the
    other; each byte of the chunk is stored at its offset before the next is taken,
    and a newline is taken only. -/
theorem consReadLoop_popped {len left : Nat} (inside : left ≤ len) (s : σ) :
    let call := consReadLoop pop store len left s
    (∀ i (h : i < call.popped.length), call.popped[i] = (pop (after pop store (len - left) i s)).1) ∧
      call.rest = if call.popped.length = call.chunk.length then after pop store (len - left) call.chunk.length s
        else (pop (after pop store (len - left) call.chunk.length s)).2 := by
  induction left generalizing s with
  | zero => exact ⟨fun i h => absurd h (Nat.not_lt_zero i),rfl⟩
  | succ left ih =>
    rw [consReadLoop]
    dsimp only
    split
    · refine ⟨fun i h => ?_,rfl⟩
      obtain rfl : i = 0 := by simpa using h
      rfl
    · obtain ⟨taken,rest⟩ := ih (by omega) (store (len - (left + 1)) (pop s).1 (pop s).2)
      have next : len - (left + 1) + 1 = len - left := by omega
      constructor
      · intro i h
        cases i with
        | zero => rfl
        | succ i =>
          rw [List.getElem_cons_succ,taken i (by simpa using h),after,next]
      · rw [rest]
        simp only [List.length_cons,Nat.add_right_cancel_iff,after,next]

theorem consRead_sound (len : Nat) (s : σ) : Sound (consRead pop store len s) := by
  obtain ⟨clean,counted,ends⟩ := consReadLoop_bytes pop store (le_refl len) s
  have asked := consReadLoop_len pop store len len s
  rw [Nat.sub_self,Nat.zero_add] at counted
  refine ⟨clean,counted,?_⟩
  rcases ends with ⟨taken,whole⟩ | ⟨taken,short⟩
  · exact .full taken (whole.trans asked.symm)
  · exact .newline taken (short.trans_eq asked.symm)

theorem Sound.framed_eq {call : Call σ} (sound : Sound call) : framed call = call.popped := by
  unfold framed
  cases sound.ends with
  | full taken whole => rw [if_neg (by omega),taken]
  | newline taken short => rw [if_pos short,taken]

theorem Sound.chunk_length {call : Call σ} (sound : Sound call) : call.chunk.length ≤ call.len := by
  cases sound.ends with
  | full _ whole => exact whole.le
  | newline _ short => exact short.le

/-- A call that is the first to take a newline returns nothing. -/
theorem Sound.empty {call : Call σ} (sound : Sound call) {later : List UInt8}
    (next : [10] <+: call.popped ++ later) : call.chunk = [] := by
  cases stored : call.chunk with
  | nil => rfl
  | cons c rest =>
    have first : call.popped.head? = some c := by
      cases sound.ends with
      | full taken _ => simp [taken,stored]
      | newline taken _ => simp [taken,stored]
    obtain ⟨_,shape⟩ := List.head?_eq_some_iff.mp first
    rw [shape,List.cons_append,List.cons_prefix_cons] at next
    exact (sound.clean (by simp [stored,next.1])).elim

/-- A call that finds a line of exactly its length returns it and leaves the
    newline. -/
theorem Sound.exact {call : Call σ} (sound : Sound call) {line later : List UInt8} (plain : 10 ∉ line)
    (fits : line.length = call.len) (next : line ++ [10] <+: call.popped ++ later) :
    call.chunk = line ∧ [10] <+: later := by
  have start : line <+: call.popped ++ later := (List.prefix_append line [10]).trans next
  have taken : call.popped <+: call.popped ++ later := List.prefix_append _ _
  cases sound.ends with
  | full all whole =>
    rw [all] at start taken next
    have same : call.chunk = line :=
      (List.prefix_of_prefix_length_le taken start (by omega)).eq_of_length (by omega)
    rw [same,List.prefix_append_right_inj] at next
    exact ⟨same,next⟩
  | newline all short =>
    -- The newline that ends the call would be a byte of the line.
    have within : call.popped <+: line :=
      List.prefix_of_prefix_length_le taken start (by simp only [all,List.length_append,List.length_singleton]; omega)
    exact (plain (within.subset (by simp [all]))).elim

/-! ### Sequences of calls -/

theorem session_sound (requests : List (Request σ)) (s : σ) : ∀ call ∈ session pop store requests s, Sound call := by
  induction requests generalizing s with
  | nil => simp [session]
  | cons request rest ih =>
    intro call made
    rw [session] at made
    rcases List.mem_cons.mp made with rfl | later
    · exact consRead_sound _ _ _ _
    · exact ih _ call later

/-- Calls of `cons_read` lose and invent nothing: the chunks with their newlines
    are the bytes that `buffer_pop` delivered. No chunk contains a newline, and
    a line of exactly the requested length is followed by an empty chunk. -/
theorem consRead_reassembles (requests : List (Request σ)) (s : σ) :
    let calls := session pop store requests s
    calls.map Call.len = requests.map Request.len ∧
      calls.flatMap framed = calls.flatMap Call.popped ∧
      (∀ call ∈ calls, 10 ∉ call.chunk ∧ call.chunk.length = call.result ∧ call.result ≤ call.len) ∧
      ∀ before first second later, calls = before ++ first :: second :: later →
        ∀ line, 10 ∉ line → line.length = first.len →
          line ++ [10] <+: (first :: second :: later).flatMap Call.popped →
          first.chunk = line ∧ second.chunk = [] := by
  have sound := session_sound pop store requests s
  refine ⟨?_,?_,?_,?_⟩
  · clear sound
    induction requests generalizing s with
    | nil => rfl
    | cons request rest ih => simp [session,ih,consRead,consReadLoop_len]
  · exact List.flatMap_congr (fun call made => (sound call made).framed_eq)
  · intro call made
    exact ⟨(sound call made).clean,(sound call made).counted.symm,(sound call made).counted ▸ (sound call made).chunk_length⟩
  · intro before first second later split line plain fits next
    rw [split] at sound
    rw [List.flatMap_cons,List.flatMap_cons] at next
    obtain ⟨whole,newline⟩ := (sound first (by simp)).exact plain fits next
    exact ⟨whole,(sound second (by simp)).empty newline⟩

/-- Two lines that meet their requests, and a request for nothing in between. -/
example : (session (fun bytes : List UInt8 => (bytes.headD 0,bytes.tail)) (fun _ _ bytes => bytes)
    [⟨id,2⟩,⟨id,0⟩,⟨id,2⟩,⟨id,3⟩] [97,98,10,99,10]).map Call.chunk = [[97,98],[],[],[99]] := by decide

/-! ### The handler of the kernel -/

section Kernel
open Psys.Handlers
variable {others : World Machine → World Machine}

/-- What `buffer_pop` delivers on the console that descriptor 1 selects, with
    the wait for it. -/
def delivered (others : World Machine → World Machine) (w : World Machine) : UInt8 × World Machine :=
  match (w.state.fileDesc 1).node with
  | .to node =>
    let outcome := bufferPop others ((fsNode node).inode - 100) w
    (outcome.value.getD 0,outcome.world)
  | _ => (0,w)

/-- A byte is stored in the caller's buffer. -/
def stored (buf : Pointer) (offset : Nat) (c : UInt8) (w : World Machine) : World Machine :=
  { w with mem := Function.update w.mem (buf.plus offset).address c }

/-- Descriptor 1 leads to a node. -/
def Selects (w : World Machine) : Prop := ∃ node, (w.state.fileDesc 1).node = .to node

/-- The world in which `buffer_pop` takes its byte: an empty buffer puts the
    process to sleep once. -/
def awaited (others : World Machine → World Machine) (vc : Int) (w : World Machine) : World Machine :=
  if (w.state.kernel.virtualConsoles vc).buf.inSize = 0 then
    let k := w.state.kernel.setConsole vc (fun c => { c with waitingPid := w.state.kernel.pidCour })
    others { w with state := { w.state with kernel := k.setProc k.pidCour (fun c => { c with state := .waitIo }) } }
  else w

theorem bufferPop_run (others : World Machine → World Machine) (vc : Int) (w : World Machine) :
    let later := awaited others vc w
    bufferPop others vc w = ⟨[],some (InputBuffer.pop (later.state.kernel.virtualConsoles vc).buf).1,
      { later with state := { later.state with
        kernel := later.state.kernel.setConsole vc (fun c => { c with buf := (InputBuffer.pop c.buf).2 }) } }⟩ := by
  unfold bufferPop awaited
  by_cases empty : (w.state.kernel.virtualConsoles vc).buf.inSize = 0
  · simp only [bind,Prog.seq,Provenance.get,Provenance.modify,pause,pure,Prog.done,if_pos empty,List.nil_append]
  · simp only [bind,Prog.seq,Provenance.get,Provenance.modify,pure,Prog.done,if_neg empty,List.nil_append]

theorem store_seq {α : Type} {p : Pointer} (mapped : Mapped p.address) (c : UInt8) (f : Unit → Handler α)
    (w : World Machine) :
    let next := f () { w with mem := Function.update w.mem p.address c }
    (Provenance.store Mapped p c).seq f w = ⟨p :: next.accesses,next.value,next.world⟩ := by
  simp [Prog.seq,Provenance.store,mapped]

/-- The handler returns what the loop above returns and leaves the same world, as
    long as the caller's buffer is mapped and descriptor 1 leads to a node. -/
theorem consReadLoop_run (keeps : ∀ w, Selects w → Selects (others w)) {buf : Pointer} {len : Nat}
    (mapped : ∀ i < len, Mapped (buf.plus i).address) {left : Nat} (inside : left ≤ len) {w : World Machine}
    (selects : Selects w) :
    let call := consReadLoop (delivered others) (stored buf) len left w
    let outcome := Handlers.consReadLoop others buf len left w
    outcome.value = some call.result ∧ outcome.world = call.rest := by
  induction left generalizing w with
  | zero => exact ⟨rfl,rfl⟩
  | succ left ih =>
    obtain ⟨node,opened⟩ := selects
    have popped := bufferPop_run others ((fsNode node).inode - 100) w
    have again : Selects (awaited others ((fsNode node).inode - 100) w) := by
      unfold awaited
      split
      · exact keeps _ ⟨node,opened⟩
      · exact ⟨node,opened⟩
    have bound : left + 1 ≤ len := inside
    simp only [Handlers.consReadLoop,consReadLoop,delivered,bind,Prog.seq,Provenance.get,opened,popped,Option.getD_some]
    split
    · exact ⟨rfl,rfl⟩
    · rw [store_seq (mapped _ (by omega))]
      exact ih (by omega) again

/-- The byte at an offset of the caller's buffer. -/
def cell (buf : Pointer) (w : World Machine) (offset : Nat) : UInt8 := w.mem (buf.plus offset).address

theorem cell_stored {buf : Pointer} {len : Nat} (room : buf.address + len ≤ 4294967296) {i j : Nat} (first : i < len)
    (second : j < len) (c : UInt8) (w : World Machine) :
    cell buf (stored buf i c w) j = if j = i then c else cell buf w j := by
  have apart : (buf.plus j).address = (buf.plus i).address ↔ j = i := by
    unfold Pointer.plus
    constructor
    · dsimp only
      omega
    · rintro rfl
      rfl
  simp only [cell,stored,Function.update_apply,apart]

theorem cell_delivered {buf : Pointer} {i : Nat} (keeps : ∀ w, cell buf (others w) i = cell buf w i) (w : World Machine) :
    cell buf (delivered others w).2 i = cell buf w i := by
  unfold delivered
  split
  · rename_i node _
    rw [bufferPop_run]
    show cell buf (awaited others _ w) i = _
    unfold awaited
    split
    · exact keeps _
    · rfl
  · rfl

/-- The chunk is what stands in the caller's buffer afterwards, where no other
    process writes. -/
theorem consReadLoop_cell {buf : Pointer} {len : Nat} (room : buf.address + len ≤ 4294967296)
    (keeps : ∀ i < len, ∀ w, cell buf (others w) i = cell buf w i) {left : Nat} (inside : left ≤ len) (w : World Machine) :
    let call := consReadLoop (delivered others) (stored buf) len left w
    (∀ i < len - left, cell buf call.rest i = cell buf w i) ∧
      ∀ i (h : i < call.chunk.length), cell buf call.rest (len - left + i) = call.chunk[i] := by
  induction left generalizing w with
  | zero => exact ⟨fun _ _ => rfl,fun i h => absurd h (Nat.not_lt_zero i)⟩
  | succ left ih =>
    rw [consReadLoop]
    dsimp only
    split
    · exact ⟨fun i before => cell_delivered (keeps i (by omega)) w,fun i h => absurd h (Nat.not_lt_zero i)⟩
    · obtain ⟨earlier,chunk⟩ := ih (by omega)
        (stored buf (len - (left + 1)) (delivered others w).1 (delivered others w).2)
      constructor
      · intro i before
        rw [earlier i (by omega),cell_stored room (by omega) (by omega),if_neg (by omega)]
        exact cell_delivered (keeps i (by omega)) w
      · intro i h
        cases i with
        | zero =>
          have here := earlier (len - (left + 1)) (by omega)
          rw [cell_stored room (by omega) (by omega),if_pos rfl] at here
          exact here
        | succ i =>
          have next := chunk i (by simpa using h)
          have moved : len - (left + 1) + (i + 1) = len - left + i := by omega
          simpa only [moved,List.getElem_cons_succ] using next

/-- The handler of the kernel, entered for its system call: it returns what the
    loop above returns, and the chunk stands in the caller's buffer. -/
theorem handler_call (keeps : ∀ w, Selects w → Selects (others w)) {buf : Pointer} {len : Nat}
    (user : isPointerUserspace buf = true) (mapped : ∀ i < len, Mapped (buf.plus i).address)
    (room : buf.address + len ≤ 4294967296) (spares : ∀ i < len, ∀ w, cell buf (others w) i = cell buf w i)
    {w : World Machine} (selects : Selects w) :
    let call := consRead (delivered others) (stored buf) len w
    let outcome := Handlers.consRead others buf len w
    outcome.value = some call.result ∧ outcome.world = call.rest ∧
      ∀ i (h : i < call.chunk.length), cell buf outcome.world i = call.chunk[i] := by
  have checked : Handlers.consRead others buf len w = Handlers.consReadLoop others buf len len w := by
    simp [Handlers.consRead,Handlers.checkPointer,bind,Prog.seq,Provenance.get,pure,Prog.done,user]
  obtain ⟨value,world⟩ := consReadLoop_run keeps mapped (le_refl len) selects
  have chunk := (consReadLoop_cell room spares (le_refl len) w).2
  rw [Nat.sub_self] at chunk
  refine ⟨checked ▸ value,checked ▸ world,?_⟩
  intro i h
  have here := chunk i h
  rw [Nat.zero_add] at here
  rw [checked,world]
  exact here

end Kernel

end Psys.Lines
