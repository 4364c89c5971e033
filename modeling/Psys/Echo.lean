import Psys.Screen
import Psys.System

/-!
`keyboard_data` with its echo: what is typed goes into the input buffer of the
visible console and to its screen. The two agree as long as no key but a
backspace arrives at a full buffer, which `buffer_push` drops and
`keyboard_data` echoes.
-/
namespace Psys.Echo
open Psys.State Psys.Devices Psys.InputBuffer Psys.System

/-! ### The code -/

/-- The input buffer of the visible console. -/
def buffer (k : Kernel) : RingBuffer := (k.virtualConsoles k.vcCurrent).buf

/-- The key in the string that the driver passes: its first character. -/
def keyOf (str : List UInt8) : UInt8 := str.headD 0

/-- What `keyboard_data` gives to `console_putbyte`. -/
def keyboardEcho (echo : Bool) (k : Kernel) (str : List UInt8) : List UInt8 :=
  let c := Devices.translate (keyOf str)
  if c = 8 then
    if !(unpush (buffer k)).1 && echo then [c] else []
  else if echo then [c] else []

/-- Strings from the keyboard, one after the other: the kernel after them and
    all that is echoed. -/
def typed (echo : Bool) : Kernel → List (List UInt8) → Kernel × List UInt8
  | k, [] => (k,[])
  | k, str :: rest =>
    let later := typed echo (keyboardData k (keyOf str)) rest
    (later.1,keyboardEcho echo k str ++ later.2)

/-! ### The properties -/

/-- A character is shown, or a backspace erases the last one. -/
def shownAfter (shown : List UInt8) (c : UInt8) : List UInt8 := if c = 8 then shown.dropLast else shown ++ [c]

/-- The characters that stand after some more are echoed. -/
def standing (shown out : List UInt8) : List UInt8 := out.foldl shownAfter shown

/-- A key that the buffer does not accept is not echoed. -/
def Silent (echo : Bool) : Kernel → List (List UInt8) → Prop
  | _, [] => True
  | k, str :: rest =>
    (buffer (keyboardData k (keyOf str)) = buffer k → keyboardEcho echo k str = []) ∧
      Silent echo (keyboardData k (keyOf str)) rest

/-- No key but a backspace arrives at a full buffer. -/
def Room : Kernel → List (List UInt8) → Prop
  | _, [] => True
  | k, str :: rest =>
    (Devices.translate (keyOf str) ≠ 8 → (buffer k).inSize ≠ INPUT_BUFFER_SIZE) ∧ Room (keyboardData k (keyOf str)) rest

/-! ### One string -/

/-- The operation of `keyboard_data` on the buffer. -/
def opOf (str : List UInt8) : InputBuffer.Op :=
  if Devices.translate (keyOf str) = 8 then .unpush else .push (Devices.translate (keyOf str))

/-- The visible console is an entry of the table. -/
def Valid (k : Kernel) : Prop := 0 ≤ k.vcCurrent ∧ k.vcCurrent < VIRTUAL_CONSOLES

theorem keyboardData_vcCurrent (k : Kernel) (key : UInt8) : (keyboardData k key).vcCurrent = k.vcCurrent := by
  unfold keyboardData
  split
  · rfl
  · unfold bufferPush
    dsimp only
    split <;> rfl

theorem keyboardData_buffer {k : Kernel} (valid : Valid k) (str : List UInt8) :
    buffer (keyboardData k (keyOf str)) = after (buffer k) (opOf str) := by
  have written : ∀ (l : Kernel) (f : VirtualConsole → VirtualConsole), l.vcCurrent = k.vcCurrent →
      ((l.setConsole k.vcCurrent f).virtualConsoles k.vcCurrent).buf = (f (l.virtualConsoles k.vcCurrent)).buf := by
    intro l f _
    simp [valid.1,valid.2]
  unfold buffer
  rw [keyboardData_vcCurrent]
  unfold keyboardData opOf
  split
  · rw [written k _ rfl]
    rfl
  · unfold bufferPush
    dsimp only
    split
    · exact written (signalNewIo k _) _ rfl
    · exact written k _ rfl

theorem keyboardData_valid {k : Kernel} (valid : Valid k) (key : UInt8) : Valid (keyboardData k key) := by
  simpa only [Valid,keyboardData_vcCurrent] using valid

section Key
variable {k : Kernel} {q : List UInt8} (valid : Valid k) (holds : Holds (buffer k) q) (str : List UInt8)
include valid holds

theorem keyboardData_holds : Holds (buffer (keyboardData k (keyOf str))) (queueAfter q (opOf str)) := by
  rw [keyboardData_buffer valid]
  unfold opOf
  split
  · exact (unpush_holds holds).2.2
  · exact push_holds holds _

omit valid in
/-- What then stands on the screen. -/
theorem keyboardEcho_standing (shown : List UInt8) : standing shown (keyboardEcho true k str) =
    if Devices.translate (keyOf str) = 8 then (if q = [] then shown else shown.dropLast)
    else shown ++ [Devices.translate (keyOf str)] := by
  unfold keyboardEcho
  dsimp only
  split
  · rename_i back
    rw [(unpush_holds holds).1]
    cases q with
    | nil => rfl
    | cons oldest newer => simp [standing,shownAfter,back]
  · rename_i other
    simp [standing,shownAfter,other]

omit valid in
theorem keyboardData_full : (buffer k).inSize = INPUT_BUFFER_SIZE ↔ q.length = INPUT_BUFFER_SIZE := by
  rw [holds.size]

omit valid in
/-- A key for which there is room does to the screen what it does to the
    buffer. -/
theorem key_accepted (room : Devices.translate (keyOf str) ≠ 8 → (buffer k).inSize ≠ INPUT_BUFFER_SIZE) :
    standing q (keyboardEcho true k str) = queueAfter q (opOf str) := by
  rw [keyboardEcho_standing holds]
  unfold opOf
  split
  · cases q with
    | nil => rfl
    | cons oldest newer => rfl
  · rename_i other
    rw [queueAfter,if_neg (mt (keyboardData_full holds).mpr (room other))]

omit valid in
/-- A key for which there is no room stands on the screen only. -/
theorem key_rejected (other : Devices.translate (keyOf str) ≠ 8) (full : (buffer k).inSize = INPUT_BUFFER_SIZE) :
    (queueAfter q (opOf str)).length < (standing q (keyboardEcho true k str)).length := by
  rw [keyboardEcho_standing holds,if_neg other,opOf,if_neg other,queueAfter,if_pos ((keyboardData_full holds).mp full),
    List.length_append,List.length_singleton]
  exact Nat.lt_succ_self _

omit valid in
/-- No key makes up for what stands on the screen only. -/
theorem key_longer {shown : List UInt8} (longer : q.length < shown.length) :
    (queueAfter q (opOf str)).length < (standing shown (keyboardEcho true k str)).length := by
  rw [keyboardEcho_standing holds]
  unfold opOf
  split
  · split
    · rename_i empty
      simpa [queueAfter,empty] using longer
    · rename_i some_byte
      have positive : 0 < q.length := List.length_pos_iff.mpr some_byte
      simp only [queueAfter,List.length_dropLast]
      omega
  · simp only [queueAfter]
    split <;> simp only [List.length_append,List.length_singleton] <;> omega

/-- A key that changes nothing is a backspace at an empty buffer or another at a
    full one. -/
theorem key_silent (room : Devices.translate (keyOf str) ≠ 8 → (buffer k).inSize ≠ INPUT_BUFFER_SIZE)
    (same : buffer (keyboardData k (keyOf str)) = buffer k) : keyboardEcho true k str = [] := by
  have after := keyboardData_holds valid holds str
  rw [same] at after
  have size := after.size
  rw [holds.size] at size
  unfold keyboardEcho
  dsimp only
  split
  · rename_i back
    rw [(unpush_holds holds).1]
    rw [opOf,if_pos back,queueAfter,List.length_dropLast] at size
    have empty : q = [] := List.length_eq_zero_iff.mp (by omega)
    simp [empty]
  · rename_i other
    rw [opOf,if_neg other,queueAfter,if_neg (mt (keyboardData_full holds).mpr (room other)),List.length_append,
      List.length_singleton] at size
    omega

end Key

/-! ### Runs -/

theorem standing_typed (shown : List UInt8) (echo : Bool) (k : Kernel) (str : List UInt8) (rest : List (List UInt8)) :
    standing shown (typed echo k (str :: rest)).2 =
      standing (standing shown (keyboardEcho echo k str)) (typed echo (keyboardData k (keyOf str)) rest).2 := by
  simp only [typed,standing,List.foldl_append]

/-- With room for every key, what stands on the screen is what the buffer
    holds. -/
theorem typed_room {k : Kernel} {q : List UInt8} (valid : Valid k) (holds : Holds (buffer k) q) {strs : List (List UInt8)}
    (room : Room k strs) :
    Holds (buffer (typed true k strs).1) (standing q (typed true k strs).2) ∧ Silent true k strs := by
  induction strs generalizing k q with
  | nil => exact ⟨holds,trivial⟩
  | cons str rest ih =>
    obtain ⟨first,later⟩ := room
    obtain ⟨same,silent⟩ := ih (keyboardData_valid valid _) (keyboardData_holds valid holds str) later
    refine ⟨?_,key_silent valid holds str first,silent⟩
    rw [standing_typed,key_accepted holds str first]
    exact same

/-- A buffer holds one list of bytes only, as far as its length goes. -/
theorem holds_length {r : RingBuffer} {q q' : List UInt8} (holds : Holds r q) (holds' : Holds r q') :
    q.length = q'.length := holds.size.symm.trans holds'.size

/-- Once more stands on the screen than the buffer holds, this remains so. -/
theorem typed_longer {k : Kernel} {q shown : List UInt8} (valid : Valid k) (holds : Holds (buffer k) q)
    (longer : q.length < shown.length) (strs : List (List UInt8)) :
    ∃ q', Holds (buffer (typed true k strs).1) q' ∧ q'.length < (standing shown (typed true k strs).2).length := by
  induction strs generalizing k q shown with
  | nil => exact ⟨q,holds,longer⟩
  | cons str rest ih =>
    rw [standing_typed]
    exact ih (keyboardData_valid valid _) (keyboardData_holds valid holds str) (key_longer holds str longer)

/-- While echo is on and nobody reads, what stands on the screen is what the
    buffer holds, and no key is echoed that the buffer does not accept, exactly
    when no key but a backspace arrives at a full buffer. -/
theorem echo_buffer_iff {k : Kernel} {q : List UInt8} (valid : Valid k) (holds : Holds (buffer k) q)
    (strs : List (List UInt8)) :
    Holds (buffer (typed true k strs).1) (standing q (typed true k strs).2) ∧ Silent true k strs ↔ Room k strs := by
  constructor
  · intro right
    have same := right.1
    clear right
    induction strs generalizing k q with
    | nil => trivial
    | cons str rest ih =>
      have next := keyboardData_holds valid holds str
      rw [standing_typed] at same
      have room : Devices.translate (keyOf str) ≠ 8 → (buffer k).inSize ≠ INPUT_BUFFER_SIZE := by
        intro other full
        obtain ⟨q',holds',less⟩ := typed_longer (keyboardData_valid valid _) next (key_rejected holds str other full) rest
        have := holds_length same holds'
        omega
      rw [key_accepted holds str room] at same
      exact ⟨room,ih (keyboardData_valid valid _) next same⟩
  · exact typed_room valid holds

/-! ### On the screen -/

section Screen
open Psys.Terminal Psys.Screen
open Psys.Video (Console OnScreen NB_COL NB_ROW)

/-- The bytes fill the cells from `start` on up to the cursor. -/
structure Shown (vc : Console) (start : Nat) (shown : List UInt8) : Prop where
  pos : vc.pos = (start + shown.length : Nat)
  cells : ∀ j (h : j < shown.length), (vc.mem (start + j : Nat)).c = shown[j]

/-- A character is drawn at the cursor, before the last cell. -/
theorem put_shown {vc : Console} {start : Nat} {shown : List UInt8} (shows : Shown vc start shown) {c : UInt8}
    (stored : Stored c) (room : start + shown.length < 1999) : Shown (put c vc) start (shown ++ [c]) := by
  have moved := target_stored stored (start + shown.length)
  have fits : target c (start + shown.length) < 2000 := by omega
  constructor
  · rw [put_cursor shows.pos stored.2 (by omega),next,if_pos fits,moved,List.length_append,List.length_singleton]
    omega
  · intro j inside
    simp only [List.length_append,List.length_singleton] at inside
    rw [put_fits shows.pos stored.2 fits]
    by_cases newest : j = shown.length
    · subst newest
      simp [stored]
    · have older : j < shown.length := by omega
      rw [if_neg (fun both => newest (by omega)),shows.cells j older,List.getElem_append_left older]

/-- A backspace takes back the last character, away from the first cell. -/
theorem put_back_shown {vc : Console} {start : Nat} {shown : List UInt8} (shows : Shown vc start shown)
    (some_byte : shown ≠ []) (room : start + shown.length < 2000) : Shown (put 8 vc) start shown.dropLast := by
  have positive := List.length_pos_iff.mpr some_byte
  have pos := shows.pos
  have onScreen : OnScreen vc.pos := by
    simp only [OnScreen,NB_COL,NB_ROW,pos]
    omega
  have back : (put 8 vc).pos = vc.pos - 1 := by rw [put_pos onScreen,if_pos rfl]
  have drawn : (put 8 vc).mem = Function.update vc.mem (vc.pos - 1) ⟨32,vc.currentAttr⟩ := by
    unfold put
    dsimp only
    rw [if_neg]
    · rfl
    · show ¬ vc.pos - 1 ≥ NB_COL * NB_ROW
      simp only [NB_COL,NB_ROW]
      omega
  constructor
  · rw [back,pos,List.length_dropLast]
    omega
  · intro j inside
    rw [List.length_dropLast] at inside
    have apart : ((start + j : Nat) : Int) ≠ vc.pos - 1 := by omega
    rw [drawn,Function.update_of_ne apart,shows.cells j (by omega),List.getElem_dropLast]

/-- One key, away from the edges of the screen. -/
theorem key_shown {k : Kernel} {q : List UInt8} (holds : Holds (buffer k) q) {str : List UInt8}
    (room : Devices.translate (keyOf str) ≠ 8 → (buffer k).inSize ≠ INPUT_BUFFER_SIZE)
    (plain : Devices.translate (keyOf str) = 8 ∨ Stored (Devices.translate (keyOf str))) {vc : Console} {start : Nat}
    (shows : Shown vc start q) (fits : start + q.length < 1999) :
    Shown ((keyboardEcho true k str).foldl (fun vc c => put c vc) vc) start (queueAfter q (opOf str)) := by
  unfold keyboardEcho opOf
  dsimp only
  by_cases back : Devices.translate (keyOf str) = 8
  · rw [if_pos back,if_pos back,(unpush_holds holds).1]
    cases q with
    | nil => exact shows
    | cons oldest newer => exact back ▸ put_back_shown shows (by simp) (by omega)
  · have stored := plain.resolve_left back
    rw [if_neg back,if_neg back,queueAfter,if_neg (mt (keyboardData_full holds).mpr (room back))]
    exact put_shown shows stored fits

/-- Characters and backspaces that are typed away from the edges of the screen:
    the cells up to the cursor are what the buffer holds. -/
theorem typed_shown {k : Kernel} {q : List UInt8} (valid : Valid k) (holds : Holds (buffer k) q) {strs : List (List UInt8)}
    (room : Room k strs) (plain : ∀ str ∈ strs, Devices.translate (keyOf str) = 8 ∨ Stored (Devices.translate (keyOf str)))
    {vc : Console} {start : Nat} (shows : Shown vc start q) (fits : start + q.length + strs.length < 2000) :
    ∃ q', Holds (buffer (typed true k strs).1) q' ∧
      Shown ((typed true k strs).2.foldl (fun vc c => put c vc) vc) start q' := by
  induction strs generalizing k q vc with
  | nil => exact ⟨q,holds,shows⟩
  | cons str rest ih =>
    obtain ⟨first,later⟩ := room
    have kept : ∀ other ∈ rest, Devices.translate (keyOf other) = 8 ∨ Stored (Devices.translate (keyOf other)) :=
      fun other member => plain other (by simp [member])
    have next := keyboardData_holds valid holds str
    have bound : (queueAfter q (opOf str)).length ≤ q.length + 1 := by
      unfold opOf
      split
      · simp [queueAfter]
        omega
      · simp only [queueAfter]
        split <;> simp
    simp only [List.length_cons] at fits
    simp only [typed,List.foldl_append]
    exact ih (keyboardData_valid valid _) next later kept (key_shown holds first (plain str (by simp)) shows (by omega))
      (by omega)

end Screen

theorem zeroed_holds : Valid zeroed ∧ Holds (buffer zeroed) [] :=
  ⟨⟨by decide,by decide⟩,ringbufferInit_holds ⟨fun _ => 0,0,0⟩⟩

/-- A letter, and a key that takes it back. -/
theorem echo_buffer_iff_letter : Valid zeroed ∧ Holds (buffer zeroed) [] ∧
    (Holds (buffer (typed true zeroed [[97],[127]]).1) (standing [] (typed true zeroed [[97],[127]]).2) ∧
      Silent true zeroed [[97],[127]] ↔ Room zeroed [[97],[127]]) :=
  ⟨zeroed_holds.1,zeroed_holds.2,echo_buffer_iff zeroed_holds.1 zeroed_holds.2 [[97],[127]]⟩

/-- Letters are all echoed. -/
theorem typed_letters (k : Kernel) (shown : List UInt8) (n : Nat) :
    (standing shown (typed true k (List.replicate n [97])).2).length = shown.length + n := by
  induction n generalizing k shown with
  | zero => rfl
  | succ n ih =>
    have letter : keyboardEcho true k [97] = [97] := rfl
    simp only [List.replicate_succ,typed,letter,standing,List.foldl_append]
    have later := ih (keyboardData k (keyOf [97])) (shown ++ [97])
    simp only [List.length_append,List.length_singleton] at later
    exact later.trans (by omega)

/-- Of 1025 letters, the buffer holds 1024 and the screen shows all. -/
theorem echo_overflows : ¬ ∀ (k : Kernel) (q : List UInt8), Valid k → Holds (buffer k) q → ∀ strs,
    Holds (buffer (typed true k strs).1) (standing q (typed true k strs).2) ∧ Silent true k strs := by
  intro claim
  obtain ⟨holds,_⟩ := claim zeroed [] zeroed_holds.1 zeroed_holds.2 (List.replicate 1025 [97])
  have room := holds.room
  rw [typed_letters] at room
  simp [INPUT_BUFFER_SIZE] at room

end Psys.Echo
