import Psys.Descriptors

/-!
What the `read` callbacks store and answer, with the sizes and offsets of the
machine, and what a sequence of calls of `read` makes of the contents of a file.
-/
namespace Psys.Reading
open Psys.State Psys.Vfs Psys.Provenance
open Psys.Handlers (stateName limit)

/-! ### Translation -/

/-- What a callback does: the bytes that it stores at `buf[0]`, `buf[1]`, .., and
    the word that it returns. -/
structure Served where
  written : List UInt8
  bytesRead : UInt32
  deriving DecidableEq

/-- The `int` that is returned. -/
def Served.result (r : Served) : Int := long r.bytesRead.toNat

/-- `memread`. The offset is an `int`, which the comparison takes as unsigned. -/
def memread (bufin : List UInt8) (sin offset len : UInt32) : Served :=
  if len = 0 then ⟨[],0⟩
  else if offset ≥ sin then ⟨[],0⟩
  else
    let len := if len > sin - offset then sin - offset else len
    ⟨(bufin.drop offset.toNat).take len.toNat,len⟩

/-- `memread` of all of a text. -/
def memreadAll (text : List UInt8) (offset len : UInt32) : Served :=
  memread text (UInt32.ofNat text.length) offset len

/-- `vsnprintf` of a text: `savechar` takes no more than so many characters, and
    the terminator comes on top. -/
def vsnprintf (size : Nat) (text : List UInt8) : List UInt8 := text.take size ++ [0]

/-- `"%d"` -/
def percentD (n : Int) : List UInt8 := textBytes (if n < 0 then '-' :: decimal (-n) else decimal n)

/-- What the callbacks read. -/
structure Sources where
  /-- The 26 bytes from `kikoobuf` on. -/
  kikoobuf : Fin 26 → UInt8
  state : ProcState
  pidParent : Int
  /-- The name of the process, in mapped memory. -/
  name : List UInt8
  fits : name.length < limit
  currentAttr : UInt32

/-- The callbacks that `read` can point to. -/
def callback (src : Sources) (op : ReadOp) (offset len : UInt32) : Served :=
  match op with
  | .answer => ⟨List.replicate len.toNat 42,len⟩
  | .zero => ⟨List.replicate len.toNat 0,len⟩
  | .kikoo => memread (List.ofFn src.kikoobuf) 26 offset len
  | .blink =>
    if offset = 0 then ⟨vsnprintf 1 (percentD (if (src.currentAttr &&& 0x80) ≠ 0 then 1 else 0)),1⟩
    else ⟨[],0⟩
  | .fg => memreadAll (percentD (src.currentAttr &&& 0x0f).toNat) offset len
  | .bg => memreadAll (percentD ((src.currentAttr &&& 0x70) >>> 4).toNat) offset len
  | .state => memreadAll (textBytes (stateName src.state).toList) offset len
  | .parent => memreadAll ((percentD src.pidParent).take 32) offset len
  | .name => memreadAll src.name offset len

/-- What `read` makes of the offset of the descriptor. -/
def advance (offset : UInt32) (r : Served) : UInt32 := offset + r.bytesRead

/-- Calls of `read` on one descriptor, one after the other: what each of them
    does and the offset that it leaves. -/
def reads (serve : UInt32 → UInt32 → Served) : UInt32 → List UInt32 → List (Served × UInt32)
  | _, [] => []
  | offset, len :: rest =>
    let r := serve offset len
    (r,advance offset r) :: reads serve (advance offset r) rest

/-- The offset after them. -/
def offsetAfter (serve : UInt32 → UInt32 → Served) : UInt32 → List UInt32 → UInt32
  | offset, [] => offset
  | offset, len :: rest => offsetAfter serve (advance offset (serve offset len)) rest

/-- A count below 2^31 is returned as it is. -/
theorem result_eq {r : Served} (small : r.bytesRead.toNat < 2147483648) : r.result = r.bytesRead.toNat := by
  unfold Served.result long
  omega

/-! ### `memread` -/

variable {text : List UInt8} {sin offset len : UInt32}

/-- The bytes from an offset on, as many as asked for. -/
theorem memread_slice (whole : sin.toNat = text.length) (offset len : UInt32) :
    (memread text sin offset len).written = (text.drop offset.toNat).take len.toNat := by
  unfold memread
  by_cases none' : len = 0
  · simp [none']
  rw [if_neg none']
  by_cases past : offset ≥ sin
  · have beyond : text.length ≤ offset.toNat := whole ▸ UInt32.le_iff_toNat_le.mp past
    rw [if_pos past,List.drop_eq_nil_of_le beyond,List.take_nil]
  rw [if_neg past]
  have inside : offset.toNat < sin.toNat := UInt32.lt_iff_toNat_lt.mp (UInt32.not_le.mp past)
  have left : (sin - offset).toNat = sin.toNat - offset.toNat :=
    UInt32.toNat_sub_of_le _ _ (UInt32.le_iff_toNat_le.mpr inside.le)
  by_cases clipped : len > sin - offset
  · simp only [if_pos clipped]
    have more : sin.toNat - offset.toNat < len.toNat := left ▸ UInt32.lt_iff_toNat_lt.mp clipped
    rw [left,List.take_of_length_le (by rw [List.length_drop]; omega),List.take_of_length_le (by rw [List.length_drop]; omega)]
  · simp only [if_neg clipped]

/-- What `memread` returns is the number of bytes that it has copied. -/
theorem memread_count (whole : sin.toNat = text.length) (offset len : UInt32) :
    (memread text sin offset len).bytesRead.toNat = (memread text sin offset len).written.length := by
  rw [memread_slice whole,List.length_take,List.length_drop]
  unfold memread
  by_cases none' : len = 0
  · simp [none']
  rw [if_neg none']
  by_cases past : offset ≥ sin
  · have beyond : text.length ≤ offset.toNat := whole ▸ UInt32.le_iff_toNat_le.mp past
    rw [if_pos past]
    simp only [UInt32.toNat_zero]
    omega
  rw [if_neg past]
  have inside : offset.toNat < sin.toNat := UInt32.lt_iff_toNat_lt.mp (UInt32.not_le.mp past)
  have left : (sin - offset).toNat = sin.toNat - offset.toNat :=
    UInt32.toNat_sub_of_le _ _ (UInt32.le_iff_toNat_le.mpr inside.le)
  by_cases clipped : len > sin - offset
  · have more : sin.toNat - offset.toNat < len.toNat := left ▸ UInt32.lt_iff_toNat_lt.mp clipped
    simp only [if_pos clipped]
    omega
  · have few := UInt32.le_iff_toNat_le.mp (UInt32.not_lt.mp clipped)
    simp only [if_neg clipped]
    omega

/-! ### Calls of `read`, one after the other -/

variable {content : List UInt8} {serve : UInt32 → UInt32 → Served} {lens : List UInt32} {call : Served × UInt32} {k : Nat}

/-- All that was read. -/
def gathered (calls : List (Served × UInt32)) : List UInt8 := calls.flatMap (fun c => c.1.written)

/-- All that was asked for. -/
def asked (lens : List UInt32) : Nat := (lens.map UInt32.toNat).sum

theorem reads_take (offset : UInt32) (lens : List UInt32) (k : Nat) :
    (reads serve offset lens).take k = reads serve offset (lens.take k) := by
  induction lens generalizing offset k with
  | nil => simp [reads]
  | cons len rest ih =>
    cases k with
    | zero => rfl
    | succ k =>
      show _ :: ((reads serve _ rest).take k) = _ :: reads serve _ (rest.take k)
      rw [ih]

/-- Each call starts at the offset that the calls before it leave. -/
theorem reads_call (made : (reads serve offset lens)[k]? = some call) :
    ∃ len, lens[k]? = some len ∧ call.1 = serve (offsetAfter serve offset (lens.take k)) len ∧
      call.2 = offsetAfter serve offset (lens.take (k + 1)) := by
  induction lens generalizing offset k with
  | nil => cases made
  | cons len rest ih =>
    cases k with
    | zero =>
      cases made
      exact ⟨len,rfl,rfl,rfl⟩
    | succ k => exact ih made

theorem whole_of_short (short : content.length < 2147483648) : (UInt32.ofNat content.length).toNat = content.length :=
  UInt32.toNat_ofNat_of_lt' (short.trans (by decide))

/-- One call reads on from the offset, which it moves by what it has read. -/
theorem memreadAll_step (short : content.length < 2147483648) (inside : offset.toNat ≤ content.length) (len : UInt32) :
    (memreadAll content offset len).written = (content.drop offset.toNat).take len.toNat ∧
      (memreadAll content offset len).result = (memreadAll content offset len).written.length ∧
      (advance offset (memreadAll content offset len)).toNat =
        offset.toNat + (memreadAll content offset len).written.length ∧
      (advance offset (memreadAll content offset len)).toNat ≤ content.length := by
  have slice := memread_slice (whole_of_short short) offset len
  have count := memread_count (whole_of_short short) offset len
  have few : (memreadAll content offset len).written.length ≤ content.length - offset.toNat := by
    rw [show (memreadAll content offset len).written = _ from slice,List.length_take,List.length_drop]
    exact Nat.min_le_right _ _
  have moved : (advance offset (memreadAll content offset len)).toNat =
      offset.toNat + (memreadAll content offset len).written.length := by
    unfold advance
    rw [UInt32.toNat_add,show (memreadAll content offset len).bytesRead.toNat = _ from count]
    exact Nat.mod_eq_of_lt (by show offset.toNat + (memreadAll content offset len).written.length < _; omega)
  refine ⟨slice,?_,moved,?_⟩
  · have same : (memreadAll content offset len).bytesRead.toNat = (memreadAll content offset len).written.length := count
    rw [result_eq (by omega),same]
  · omega

/-- Calls that start inside of the contents gather what follows there. -/
theorem gathered_reads (short : content.length < 2147483648) :
    ∀ (lens : List UInt32) (offset : UInt32), offset.toNat ≤ content.length →
      gathered (reads (memreadAll content) offset lens) = (content.drop offset.toNat).take (asked lens) ∧
        (offsetAfter (memreadAll content) offset lens).toNat =
          offset.toNat + (gathered (reads (memreadAll content) offset lens)).length := by
  intro lens
  induction lens with
  | nil =>
    intro offset _
    exact ⟨List.take_zero.symm,rfl⟩
  | cons len rest ih =>
    intro offset inside
    obtain ⟨slice,-,moved,inside'⟩ := memreadAll_step short inside len
    obtain ⟨gathers,moves⟩ := ih (advance offset (memreadAll content offset len)) inside'
    have both : gathered (reads (memreadAll content) offset (len :: rest)) =
        (memreadAll content offset len).written ++
          gathered (reads (memreadAll content) (advance offset (memreadAll content offset len)) rest) := rfl
    have total : asked (len :: rest) = len.toNat + asked rest := rfl
    refine ⟨?_,?_⟩
    · rw [both,gathers,total,moved,List.take_add,slice,List.length_take,← List.drop_drop]
      by_cases enough : len.toNat ≤ (content.drop offset.toNat).length
      · rw [Nat.min_eq_left enough]
      · have short' := (not_le.mp enough).le
        rw [Nat.min_eq_right short',List.drop_length,List.drop_eq_nil_of_le short']
    · rw [both,List.length_append,← Nat.add_assoc,← moved]
      exact moves

/-- The calls of a run read slices of the contents one after the other. -/
structure Slices (content : List UInt8) (lens : List UInt32) (calls : List (Served × UInt32)) : Prop where
  /-- Each call answers how many bytes it has stored. -/
  result : ∀ c ∈ calls, c.1.result = c.1.written.length
  /-- Each call goes on where those before it have stopped. -/
  slice : ∀ k c len, calls[k]? = some c → lens[k]? = some len →
    c.1.written = (content.drop (gathered (calls.take k)).length).take len.toNat
  start : gathered calls <+: content
  all : content.length ≤ asked lens → gathered calls = content
  /-- After that, all calls answer 0. -/
  later : ∀ k c, calls[k]? = some c → content.length ≤ asked (lens.take k) → c.1.written = [] ∧ c.1.result = 0
  /-- The offset is the number of bytes read so far. -/
  offset : ∀ k c, calls[k]? = some c → c.2.toNat = (gathered (calls.take (k + 1))).length

/-- Calls of `read` on a file whose callback is `memread` read its contents in
    slices, one behind the other, whatever lengths they ask for. -/
theorem reads_slices (short : content.length < 2147483648) (lens : List UInt32) :
    Slices content lens (reads (memreadAll content) 0 lens) := by
  have gathers : ∀ lens, gathered (reads (memreadAll content) 0 lens) = content.take (asked lens) :=
    fun lens => (gathered_reads short lens 0 (Nat.zero_le _)).1
  have moves : ∀ lens, (offsetAfter (memreadAll content) 0 lens).toNat =
      (gathered (reads (memreadAll content) 0 lens)).length := by
    intro lens
    rw [(gathered_reads short lens 0 (Nat.zero_le _)).2]
    exact Nat.zero_add _
  have inside : ∀ lens, (offsetAfter (memreadAll content) 0 lens).toNat ≤ content.length := by
    intro lens
    rw [moves,gathers,List.length_take]
    exact Nat.min_le_right _ _
  have slice : ∀ k c len, (reads (memreadAll content) 0 lens)[k]? = some c → lens[k]? = some len →
      c.1.written = (content.drop (gathered ((reads (memreadAll content) 0 lens).take k)).length).take len.toNat ∧
        c.1.result = c.1.written.length := by
    intro k c len made given
    obtain ⟨len',given',served,-⟩ := reads_call made
    obtain rfl : len = len' := Option.some.inj (given.symm.trans given')
    obtain ⟨cut,result,-,-⟩ := memreadAll_step short (inside (lens.take k)) len
    rw [served,reads_take,← moves]
    exact ⟨cut,result⟩
  refine ⟨?_,fun k c len made given => (slice k c len made given).1,?_,?_,?_,?_⟩
  · intro c member
    obtain ⟨k,made⟩ := List.mem_iff_getElem?.mp member
    obtain ⟨len,given,-,-⟩ := reads_call made
    exact (slice k c len made given).2
  · rw [gathers]
    exact List.take_prefix _ _
  · intro enough
    rw [gathers,List.take_of_length_le enough]
  · intro k c made enough
    obtain ⟨len,given,-,-⟩ := reads_call made
    obtain ⟨cut,result⟩ := slice k c len made given
    have nothing : c.1.written = [] := by
      rw [cut,reads_take,gathers,List.take_of_length_le enough,List.drop_length,List.take_nil]
    exact ⟨nothing,by rw [result,nothing]; rfl⟩
  · intro k c made
    obtain ⟨len,given,-,left⟩ := reads_call made
    rw [left,reads_take,moves]

theorem reads_slices_three : ([1,2,3] : List UInt8).length < 2147483648 ∧
    Slices [1,2,3] [2,2,5] (reads (memreadAll [1,2,3]) 0 [2,2,5]) :=
  ⟨by decide,reads_slices (by decide) [2,2,5]⟩

/-! ### The handlers of the machine -/

/-- What a callback does, through the pointer that it is given. -/
def deliver (buf : Pointer) (r : Served) : Handlers.Handler Int := do
  storeBytes Mapped buf r.written
  return r.bytesRead.toNat

theorem deliver_nothing (buf : Pointer) : deliver buf ⟨[],0⟩ = pure 0 := rfl

theorem memread_handler (whole : sin.toNat = text.length) (offset len : UInt32) (buf : Pointer) :
    Handlers.memread text offset.toNat buf len.toNat = deliver buf (memread text sin offset len) := by
  have slice := memread_slice whole offset len
  have count := memread_count whole offset len
  unfold deliver
  rw [count,slice]
  unfold Handlers.memread
  by_cases none' : len.toNat = 0
  · rw [if_pos none',none']
    rfl
  rw [if_neg none']
  by_cases past : offset.toNat ≥ text.length
  · rw [if_pos past,List.drop_eq_nil_of_le past,List.take_nil]
    rfl
  · rw [if_neg past]

/-- What the machine has of what the callbacks read. -/
structure Shows (m : Handlers.Machine) (node : Node) (src : Sources) : Prop where
  kikoobuf : m.kikoobuf = List.ofFn src.kikoobuf
  state : (m.kernel.tabProc ((fsNode node).inode - 1200)).state = src.state
  pidParent : (m.kernel.tabProc ((fsNode node).inode - 2200)).pidParent = src.pidParent
  isPid : 0 ≤ src.pidParent ∧ src.pidParent ≤ NBPROC
  name : m.names ((fsNode node).inode - 3200) = src.name
  currentAttr : m.currentAttr = src.currentAttr

/-- The texts of small numbers are short. -/
theorem percentD_short {n : Nat} (small : n < 4294967296) : (percentD n).length < 2147483648 := by
  have digits : (Nat.toDigits 10 n).length ≤ 10 := (Nat.length_toDigits_le_iff (by decide) (by decide)).mpr (small.trans (by decide))
  unfold percentD textBytes decimal
  rw [if_neg (by omega),List.length_map,Int.toNat_natCast]
  omega

theorem percentD_decimal {n : Int} (positive : 0 ≤ n) : percentD n = textBytes (decimal n) := by
  unfold percentD
  rw [if_neg (by omega)]

/-- The handler does what the callback does. -/
theorem readOp_served {s : World Handlers.Machine} {node : Node} {src : Sources} (shows : Shows s.state node src)
    (op : ReadOp) (offset len : UInt32) (buf : Pointer) :
    Handlers.readOp op node offset.toNat len.toNat buf s = deliver buf (callback src op offset len) s := by
  unfold Handlers.readOp
  rw [get_bind]
  cases op with
  | answer => rfl
  | zero => rfl
  | kikoo =>
    have whole : (26 : UInt32).toNat = (List.ofFn src.kikoobuf).length := by
      rw [List.length_ofFn]
      rfl
    simp only [shows.kikoobuf]
    rw [memread_handler whole]
    rfl
  | blink =>
    unfold callback
    by_cases start : offset = 0
    · subst start
      have zero : UInt32.toNat 0 = 0 := rfl
      simp only [zero,↓reduceIte,shows.currentAttr]
      by_cases lit : (src.currentAttr &&& 0x80) ≠ 0
      · simp only [if_pos lit]
        rfl
      · simp only [if_neg lit]
        rfl
    · have away : offset.toNat ≠ 0 := fun zero => start (UInt32.toNat_inj.mp zero)
      simp only [if_neg away,if_neg start,deliver_nothing]
  | fg =>
    simp only [shows.currentAttr]
    rw [← percentD_decimal (Int.natCast_nonneg _),memread_handler (whole_of_short (percentD_short (UInt32.toNat_lt _)))]
    rfl
  | bg =>
    simp only [shows.currentAttr]
    rw [← percentD_decimal (Int.natCast_nonneg _),memread_handler (whole_of_short (percentD_short (UInt32.toNat_lt _)))]
    rfl
  | state =>
    simp only [shows.state]
    rw [memread_handler (whole_of_short (by cases src.state <;> decide))]
    rfl
  | parent =>
    obtain ⟨low,high⟩ := shows.isPid
    obtain ⟨pid,same⟩ := Int.eq_ofNat_of_zero_le low
    have small : pid < 10 ^ 2 := by
      unfold NBPROC at high
      omega
    have digits : (percentD pid).length ≤ 2 := by
      rw [percentD_decimal (Int.natCast_nonneg _)]
      unfold textBytes decimal
      rw [List.length_map]
      exact (Nat.length_toDigits_le_iff (by decide) (by decide)).mpr small
    simp only [shows.pidParent]
    rw [← percentD_decimal low,memread_handler (whole_of_short (by rw [same]; exact digits.trans_lt (by decide)))]
    unfold callback
    rw [List.take_of_length_le (by rw [same]; omega)]
    rfl
  | name =>
    simp only [shows.name]
    rw [memread_handler (whole_of_short (src.fits.trans (by decide)))]
    rfl

/-- `read` on a descriptor runs the callback of its node and moves its offset. -/
theorem read_served {s : World Handlers.Machine} {fd : Int} {node : Node} {op : ReadOp} {src : Sources} {offset : UInt32}
    (holds : (s.state.fileDesc fd).node = .to node) (reads' : (fsNode node).read = .to op)
    (at' : (s.state.fileDesc fd).offset = offset.toNat) (shows : Shows s.state node src) (buf : Pointer) (len : UInt32)
    {n : Int} (value : (Handlers.read fd buf len.toNat s).value = some n) :
    n = (callback src op offset len).bytesRead.toNat ∧
      ((Handlers.read fd buf len.toNat s).world.state.fileDesc fd).offset =
        (advance offset (callback src op offset len)).toNat := by
  obtain ⟨q,checked⟩ : ∃ q, Handlers.checkPointer buf Handlers.SYSCALL_READ s = ⟨[],some q,s⟩ := ⟨_,rfl⟩
  have still : (Handlers.readOp op node offset.toNat len.toNat q s).world.state = s.state :=
    (Descriptors.moves_readOp (R := fun m m' => m = m') op node offset.toNat len.toNat q s).symm
  have answers : Yields (fun a => a = ((callback src op offset len).bytesRead.toNat : Int))
      (deliver q (callback src op offset len)) := yields_bind _ (fun _ => yields_pure rfl)
  unfold Handlers.read at value ⊢
  rw [bind_some (by rw [checked]),checked] at value ⊢
  simp only [get_bind,holds,reads',at'] at value ⊢
  cases answer : (Handlers.readOp op node offset.toNat len.toNat q s).value with
  | none =>
    rw [bind_none answer] at value
    cases value
  | some a =>
    rw [bind_some answer] at value ⊢
    have count : a = (callback src op offset len).bytesRead.toNat := by
      rw [readOp_served shows] at answer
      exact answers s a answer
    rw [modify_bind] at value ⊢
    have moved : ((Handlers.Machine.setFile (Handlers.readOp op node offset.toNat len.toNat q s).world.state fd
        (fun f => { f with offset := (f.offset + a.toNat) % 4294967296 })).fileDesc fd).offset =
          (advance offset (callback src op offset len)).toNat := by
      simp only [Handlers.Machine.setFile,Function.update_self]
      rw [still,at',count,advance,UInt32.toNat_add]
      rfl
    exact ⟨(Option.some.inj value).symm.trans count,moved⟩

/-! ### What all callbacks should do -/

/-- A call stores only into the buffer and answers how much, and `read` does not
    move the descriptor back. -/
structure Contract (offset len : UInt32) (r : Served) : Prop where
  inside : r.written.length ≤ len.toNat
  low : 0 ≤ r.result
  high : r.result ≤ len.toNat
  forward : offset ≤ advance offset r

/-- The calls that the callbacks can serve. `/dev/zero` and `/dev/answer` answer
    any length, and `blink` stores a character and a terminator. -/
def Servable (op : ReadOp) (offset len : UInt32) : Prop :=
  match op with
  | .answer | .zero => len.toNat < 2147483648 ∧ offset.toNat + len.toNat < 4294967296
  | .blink => offset = 0 → 2 ≤ len.toNat
  | _ => True

theorem memread_contract (whole : sin.toNat = text.length) (short : text.length < 2147483648) (offset len : UInt32) :
    Contract offset len (memread text sin offset len) := by
  have slice := congrArg List.length (memread_slice whole offset len)
  have count := memread_count whole offset len
  rw [List.length_take,List.length_drop] at slice
  have result : (memread text sin offset len).result = (memread text sin offset len).written.length := by
    rw [result_eq (by omega),count]
  refine ⟨by omega,by omega,by omega,?_⟩
  have below : offset.toNat < 4294967296 := offset.toNat_lt
  rw [UInt32.le_iff_toNat_le,advance,UInt32.toNat_add,count]
  by_cases past : text.length ≤ offset.toNat
  · rw [show (memread text sin offset len).written.length = 0 by omega,Nat.add_zero,Nat.mod_eq_of_lt below]
  · rw [Nat.mod_eq_of_lt (by omega)]
    exact Nat.le_add_right _ _

theorem memreadAll_contract (short : text.length < 2147483648) (offset len : UInt32) :
    Contract offset len (memreadAll text offset len) :=
  memread_contract (whole_of_short short) short offset len

/-- A buffer filled with one byte. -/
theorem filled_contract (b : UInt8) (offset len : UInt32) :
    Contract offset len ⟨List.replicate len.toNat b,len⟩ ↔
      len.toNat < 2147483648 ∧ offset.toNat + len.toNat < 4294967296 := by
  have small : len.toNat < 4294967296 := len.toNat_lt
  have small' : offset.toNat < 4294967296 := offset.toNat_lt
  constructor
  · rintro ⟨-,low,-,forward⟩
    unfold Served.result long at low
    rw [UInt32.le_iff_toNat_le,advance,UInt32.toNat_add] at forward
    dsimp only at low forward
    constructor <;> omega
  · rintro ⟨short,inside⟩
    have result : (⟨List.replicate len.toNat b,len⟩ : Served).result = len.toNat := result_eq short
    refine ⟨by rw [List.length_replicate],by omega,by omega,?_⟩
    rw [UInt32.le_iff_toNat_le,advance,UInt32.toNat_add]
    dsimp only
    omega

theorem percentD_bit (c : Prop) [Decidable c] : (percentD (if c then 1 else 0)).length = 1 := by
  split <;> rfl

theorem blink_contract (src : Sources) (offset len : UInt32) :
    Contract offset len (callback src .blink offset len) ↔ (offset = 0 → 2 ≤ len.toNat) := by
  unfold callback
  by_cases start : offset = 0
  · subst start
    simp only [↓reduceIte,forall_const]
    have two : (vsnprintf 1 (percentD (if (src.currentAttr &&& 0x80) ≠ 0 then 1 else 0))).length = 2 := by
      unfold vsnprintf
      rw [List.length_append,List.length_take,percentD_bit]
      rfl
    constructor
    · rintro ⟨inside,-,-,-⟩
      exact two ▸ inside
    · intro room
      have one : (⟨vsnprintf 1 (percentD (if (src.currentAttr &&& 0x80) ≠ 0 then 1 else 0)),1⟩ : Served).result = 1 :=
        result_eq (show (1 : UInt32).toNat < 2147483648 by decide)
      exact ⟨two ▸ room,by omega,by omega,UInt32.le_iff_toNat_le.mpr (Nat.zero_le _)⟩
  · simp only [if_neg start]
    have zero : (⟨[],0⟩ : Served).result = 0 := result_eq (show (0 : UInt32).toNat < 2147483648 by decide)
    have still : offset ≤ advance offset ⟨[],0⟩ := by simp [advance]
    exact ⟨fun _ here => absurd here start,fun _ => ⟨Nat.zero_le _,by omega,by omega,still⟩⟩

/-- A callback stores and answers what it should exactly at the offsets and lengths
    that it can serve. -/
theorem callback_contract (src : Sources) (op : ReadOp) (offset len : UInt32) :
    Contract offset len (callback src op offset len) ↔ Servable op offset len := by
  cases op with
  | answer => exact filled_contract 42 offset len
  | zero => exact filled_contract 0 offset len
  | blink => exact blink_contract src offset len
  | kikoo => exact iff_of_true (memread_contract (by rw [List.length_ofFn]; rfl) (by rw [List.length_ofFn]; decide) _ _) trivial
  | fg => exact iff_of_true (memreadAll_contract (percentD_short (UInt32.toNat_lt _)) _ _) trivial
  | bg => exact iff_of_true (memreadAll_contract (percentD_short (UInt32.toNat_lt _)) _ _) trivial
  | state =>
    have short : (textBytes (stateName src.state).toList).length < 2147483648 := by
      cases src.state <;> decide
    exact iff_of_true (memreadAll_contract short _ _) trivial
  | parent =>
    have short : ((percentD src.pidParent).take 32).length < 2147483648 :=
      (List.length_take_le _ _).trans_lt (by decide)
    exact iff_of_true (memreadAll_contract short _ _) trivial
  | name =>
    have short : src.name.length < 2147483648 := src.fits.trans (by decide)
    exact iff_of_true (memreadAll_contract short _ _) trivial

/-- One byte of `/sys/console/blink`. -/
theorem callback_contract_blink : ¬ ∀ src op offset len, Contract offset len (callback src op offset len) := by
  intro claim
  have inside := (claim ⟨fun _ => 0,.active,0,[],by decide,7⟩ .blink 0 1).inside
  exact absurd inside (by decide)

end Psys.Reading
