import Mathlib.Algebra.Order.Ring.Int
import Mathlib.Data.List.Basic
import Mathlib.Data.List.Induction
import Mathlib.Logic.Function.Basic

/-!
The input buffer of a virtual console (`struct ringbuffer`): an array of 1024
bytes, a pointer to the oldest byte and a byte count. Its operations are
compared with those of a queue of the same capacity.
-/
namespace Psys.InputBuffer

/-- `INPUT_BUFFER_SIZE` -/
def INPUT_BUFFER_SIZE : Nat := 1024

/-- `struct ringbuffer`. Pointers into `in_buf` are offsets from its start, and
    `inBuf` also covers the memory around the array, which a wrong offset reaches. -/
structure RingBuffer where
  inBuf : Int → UInt8
  inStart : Int
  inSize : Nat

/-- The difference of two 32-bit pointers. -/
def ptr (x : Int) : Int := (x + 2147483648) % 4294967296 - 2147483648

/-- `ringbuffer_init` -/
def ringbufferInit (r : RingBuffer) : RingBuffer := { r with inStart := 0, inSize := 0 }

/-- Where `buffer_push` writes, unless the buffer is full. -/
def pushIndex (r : RingBuffer) : Option Int :=
  if r.inSize = INPUT_BUFFER_SIZE then none
  else if ptr (r.inStart + r.inSize) < INPUT_BUFFER_SIZE then some (ptr (r.inStart + r.inSize))
  else some (ptr (r.inStart + r.inSize - INPUT_BUFFER_SIZE))

/-- The part of `buffer_push` that works on the ring buffer. -/
def push (r : RingBuffer) (key : UInt8) : RingBuffer :=
  match pushIndex r with
  | none => r
  | some i => { r with inBuf := Function.update r.inBuf i key, inSize := (r.inSize + 1) % 4294967296 }

/-- The part of `buffer_pop` after the wait: the byte and the buffer left. The
    size is unsigned and wraps below zero. -/
def pop (r : RingBuffer) : UInt8 × RingBuffer :=
  let inStart := r.inStart + 1
  (r.inBuf r.inStart,
    { r with
      inSize := (r.inSize + 4294967295) % 4294967296
      inStart := if inStart > INPUT_BUFFER_SIZE then inStart - INPUT_BUFFER_SIZE else inStart })

/-- `buffer_unpush`: whether the buffer was empty, and the buffer left. -/
def unpush (r : RingBuffer) : Bool × RingBuffer :=
  if r.inSize = 0 then (true,r) else (false,{ r with inSize := r.inSize - 1 })

/-! ### Sequences of operations -/

inductive Op where
  | push (key : UInt8)
  | pop
  | unpush
  deriving DecidableEq

/-- What an operation returns to its caller. -/
inductive Result where
  | void
  | byte (c : UInt8)
  | empty (was : Bool)
  deriving DecidableEq

/-- The index of `in_buf` that an operation reads or writes. -/
def access (r : RingBuffer) : Op → Option Int
  | .push _ => pushIndex r
  | .pop => some r.inStart
  | .unpush => none
def result (r : RingBuffer) : Op → Result
  | .push _ => .void
  | .pop => .byte (pop r).1
  | .unpush => .empty (unpush r).1
def after (r : RingBuffer) : Op → RingBuffer
  | .push key => push r key
  | .pop => (pop r).2
  | .unpush => (unpush r).2

/-- The accesses and results of a sequence of operations. -/
def observe (r : RingBuffer) : List Op → List (Option Int × Result)
  | [] => []
  | op :: rest => (access r op,result r op) :: observe (after r op) rest

/-- The queue of capacity `INPUT_BUFFER_SIZE`, oldest byte first. -/
def queueAfter (q : List UInt8) : Op → List UInt8
  | .push key => if q.length = INPUT_BUFFER_SIZE then q else q ++ [key]
  | .pop => q.tail
  | .unpush => q.dropLast
def queueResult (q : List UInt8) : Op → Result
  | .push _ => .void
  | .pop => .byte (q.headD 0)
  | .unpush => .empty q.isEmpty
def queueObserve (q : List UInt8) : List Op → List Result
  | [] => []
  | op :: rest => queueResult q op :: queueObserve (queueAfter q op) rest

/-- Every pop finds a byte. -/
def Admissible (q : List UInt8) : List Op → Prop
  | [] => True
  | op :: rest => (op = .pop → q ≠ []) ∧ Admissible (queueAfter q op) rest

instance decidableAdmissible : (q : List UInt8) → (ops : List Op) → Decidable (Admissible q ops)
  | _, [] => isTrue trivial
  | q, op :: rest =>
    have := decidableAdmissible (queueAfter q op) rest
    inferInstanceAs (Decidable (_ ∧ _))

/-- Every access is inside `in_buf` and every result is the queue's. -/
def Behaves (r : RingBuffer) (q : List UInt8) (ops : List Op) : Prop :=
  (∀ seen ∈ observe r ops, ∀ i ∈ seen.1, 0 ≤ i ∧ i < INPUT_BUFFER_SIZE) ∧
    (observe r ops).map Prod.snd = queueObserve q ops

/-! ### The buffer as a queue -/

/-- Where the byte number `j` lies when the oldest one is at `start`. -/
def slot (start : Int) (j : Nat) : Int :=
  if start + j < INPUT_BUFFER_SIZE then start + j else start + j - INPUT_BUFFER_SIZE

/-- The buffer holds the bytes `q`. The start may be one past the end. -/
structure Holds (r : RingBuffer) (q : List UInt8) : Prop where
  size : r.inSize = q.length
  room : q.length ≤ INPUT_BUFFER_SIZE
  start : 0 ≤ r.inStart ∧ r.inStart ≤ INPUT_BUFFER_SIZE
  bytes : ∀ j (h : j < q.length), r.inBuf (slot r.inStart j) = q[j]

theorem ringbufferInit_holds (r : RingBuffer) : Holds (ringbufferInit r) [] :=
  ⟨rfl,by simp,by simp [ringbufferInit],by simp⟩

private theorem ptr_small {x : Int} (low : 0 ≤ x) (high : x ≤ 4096) : ptr x = x := by
  unfold ptr; omega

/-- A push into a buffer that is not full writes just after the newest byte. -/
theorem pushIndex_eq {r : RingBuffer} {q : List UInt8} (holds : Holds r q) :
    pushIndex r = if q.length = INPUT_BUFFER_SIZE then none else some (slot r.inStart q.length) := by
  obtain ⟨size,room,start,_⟩ := holds
  unfold pushIndex slot
  rw [size]
  by_cases full : q.length = INPUT_BUFFER_SIZE
  · simp [full]
  · unfold INPUT_BUFFER_SIZE at *
    rw [if_neg full,if_neg full,ptr_small (by omega) (by omega)]
    push_cast
    split_ifs with inside
    · rfl
    · rw [ptr_small (by omega) (by omega)]

theorem push_holds {r : RingBuffer} {q : List UInt8} (holds : Holds r q) (key : UInt8) :
    Holds (push r key) (queueAfter q (.push key)) := by
  have index := pushIndex_eq holds
  obtain ⟨size,room,start,bytes⟩ := holds
  unfold push queueAfter
  by_cases full : q.length = INPUT_BUFFER_SIZE
  · rw [index]
    simp only [full,if_true]
    exact ⟨size,room,start,bytes⟩
  · rw [index]
    simp only [full,if_false]
    have grows : q.length < INPUT_BUFFER_SIZE := by omega
    refine ⟨?_,by simpa using Nat.succ_le_of_lt grows,start,?_⟩
    · simp only [size,List.length_append,List.length_singleton,INPUT_BUFFER_SIZE] at *
      omega
    · intro j inside
      simp only [List.length_append,List.length_singleton] at inside
      by_cases newest : j = q.length
      · subst newest
        simp [Function.update_self]
      · have older : j < q.length := by omega
        have apart : slot r.inStart j ≠ slot r.inStart q.length := by
          unfold slot INPUT_BUFFER_SIZE at *; split_ifs <;> omega
        simp [Function.update_of_ne apart,bytes j older,List.getElem_append_left older]

theorem pop_holds {r : RingBuffer} {q : List UInt8} (holds : Holds r q) (some_byte : q ≠ [])
    (inside : r.inStart < INPUT_BUFFER_SIZE) :
    (pop r).1 = q.headD 0 ∧ (pop r).2.inStart = r.inStart + 1 ∧ Holds (pop r).2 q.tail := by
  obtain ⟨size,room,start,bytes⟩ := holds
  obtain ⟨oldest,rest,rfl⟩ := List.exists_cons_of_ne_nil some_byte
  simp only [List.length_cons] at *
  have next : ¬ (r.inStart + 1 > (INPUT_BUFFER_SIZE : Int)) := by omega
  refine ⟨?_,by simp [pop,next],⟨?_,by simp; omega,?_,?_⟩⟩
  · have first := bytes 0 (by omega)
    simpa [pop,slot,inside] using first
  · simp only [pop,size,List.tail_cons,INPUT_BUFFER_SIZE] at *
    omega
  · simp only [pop,next,if_false]; omega
  · intro j older
    have shifted := bytes (j + 1) (by simpa using older)
    have same : slot (r.inStart + 1) j = slot r.inStart (j + 1) := by
      unfold slot; push_cast; split_ifs <;> omega
    simpa [pop,next,same] using shifted

theorem unpush_holds {r : RingBuffer} {q : List UInt8} (holds : Holds r q) :
    (unpush r).1 = q.isEmpty ∧ (unpush r).2.inStart = r.inStart ∧ Holds (unpush r).2 q.dropLast := by
  obtain ⟨size,room,start,bytes⟩ := holds
  cases q using List.reverseRecOn with
  | nil => simpa [unpush,size] using ⟨size,room,start,bytes⟩
  | append_singleton q newest =>
    have some_byte : r.inSize ≠ 0 := by simp [size]
    simp only [unpush,some_byte,if_false,List.dropLast_concat]
    simp only [List.length_append,List.length_singleton] at *
    refine ⟨by simp,trivial,⟨by simp [size],by omega,start,?_⟩⟩
    intro j older
    have byte := bytes j (by omega)
    rwa [List.getElem_append_left older] at byte

/-- From a buffer that holds `q`, the operations behave as the queue's exactly
    when the pops do not carry the start past the end of the array: the pop at
    the start `INPUT_BUFFER_SIZE` reads one byte too far. -/
theorem behaves_iff (ops : List Op) : ∀ {r : RingBuffer} {q : List UInt8}, Holds r q → Admissible q ops →
    (Behaves r q ops ↔ r.inStart + ops.count .pop ≤ INPUT_BUFFER_SIZE) := by
  induction ops with
  | nil =>
    intro r q holds _
    simpa [Behaves,observe,queueObserve] using holds.start.2
  | cons op rest ih =>
    intro r q holds admissible
    obtain ⟨nonempty,admissible⟩ := admissible
    have split : Behaves r q (op :: rest) ↔
        ((∀ i ∈ access r op, 0 ≤ i ∧ i < INPUT_BUFFER_SIZE) ∧ result r op = queueResult q op) ∧
          Behaves (after r op) (queueAfter q op) rest := by
      simp only [Behaves,observe,queueObserve,List.mem_cons,forall_eq_or_imp,List.map_cons,List.cons.injEq]
      tauto
    rw [split]
    cases op with
    | push key =>
      have inRange : ∀ i ∈ access r (.push key), 0 ≤ i ∧ i < (INPUT_BUFFER_SIZE : Int) := by
        intro i at_i
        rw [access,pushIndex_eq holds] at at_i
        obtain ⟨_,room,start,_⟩ := holds
        split_ifs at at_i with full
        · cases at_i
        obtain rfl := Option.some.inj at_i
        unfold slot INPUT_BUFFER_SIZE at *; push_cast at *; split_ifs <;> omega
      have start : (push r key).inStart = r.inStart := by unfold push; split <;> rfl
      rw [after,ih (push_holds holds key) admissible,start]
      simp only [List.count_cons,result,queueResult]
      simpa using fun _ => inRange
    | pop =>
      by_cases inside : r.inStart < INPUT_BUFFER_SIZE
      · obtain ⟨byte,start,holds'⟩ := pop_holds holds (nonempty rfl) inside
        rw [show Behaves (after r .pop) (queueAfter q .pop) rest ↔ _ from ih holds' admissible,after,start]
        simp only [access,result,queueResult,byte,List.count_cons_self,Option.mem_some_iff,forall_eq']
        have := holds.start.1
        push_cast
        constructor
        · intro h; omega
        · intro h; exact ⟨⟨by omega,trivial⟩,by omega⟩
      · -- One past the end: the access itself is out of range.
        simp only [access,Option.mem_some_iff,forall_eq',List.count_cons_self]
        push_cast
        constructor
        · rintro ⟨⟨⟨_,high⟩,_⟩,_⟩; exact absurd high inside
        · intro h; omega
    | unpush =>
      obtain ⟨empty,start,holds'⟩ := unpush_holds holds
      rw [show Behaves (after r .unpush) (queueAfter q .unpush) rest ↔ _ from ih holds' admissible,after,start]
      simp [access,result,queueResult,empty]

/-! ### From `ringbuffer_init` -/

/-- A sequence of operations on a fresh buffer behaves as on a queue exactly
    when it pops at most `INPUT_BUFFER_SIZE` bytes in all. -/
theorem ringbuffer_queue_iff (r : RingBuffer) (ops : List Op) (admissible : Admissible [] ops) :
    Behaves (ringbufferInit r) [] ops ↔ ops.count .pop ≤ INPUT_BUFFER_SIZE := by
  rw [behaves_iff ops (ringbufferInit_holds r) admissible]
  simp only [ringbufferInit,zero_add,Nat.cast_le]

theorem ringbuffer_queue_iff_two : Admissible [] [.push 97,.pop] ∧
    (Behaves (ringbufferInit ⟨fun _ => 0,0,0⟩) [] [.push 97,.pop] ↔
      [Op.push 97,.pop].count .pop ≤ INPUT_BUFFER_SIZE) :=
  ⟨by decide,ringbuffer_queue_iff ⟨fun _ => 0,0,0⟩ [.push 97,.pop] (by decide)⟩

/-- A byte typed and read, `n` times over. -/
def echoes : Nat → List Op
  | 0 => []
  | n + 1 => .push 97 :: .pop :: echoes n

private theorem echoes_admissible (n : Nat) : Admissible [] (echoes n) := by
  induction n with
  | zero => trivial
  | succ n ih =>
    refine ⟨by simp,by simp [queueAfter,INPUT_BUFFER_SIZE],?_⟩
    simpa [queueAfter,INPUT_BUFFER_SIZE] using ih

private theorem echoes_pops (n : Nat) : (echoes n).count .pop = n := by
  induction n with
  | zero => rfl
  | succ n ih =>
    simp [echoes,ih]

/-- The byte number 1025 is read past the end of `in_buf`. -/
theorem ringbuffer_overrun : ¬ ∀ (r : RingBuffer) (ops : List Op), Admissible [] ops →
    Behaves (ringbufferInit r) [] ops := by
  intro claim
  have behaves := claim ⟨fun _ => 0,0,0⟩ (echoes 1025) (echoes_admissible 1025)
  rw [behaves_iff _ (ringbufferInit_holds _) (echoes_admissible 1025),echoes_pops] at behaves
  simp [ringbufferInit,INPUT_BUFFER_SIZE] at behaves

end Psys.InputBuffer
