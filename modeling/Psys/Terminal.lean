import Psys.Video

/-!
Where the output side of `console.c` reads and writes its arrays. A byte given
to `console_putbyte` stays within the screen from any cell of it, but for a
backspace in the first cell.
-/
namespace Psys.Terminal
open Psys.Video

/-! ### One console -/

/-- What `console_drawbyte` does to its console. -/
def drawn (c : UInt8) (vc : Console) : Console :=
  if c = 10 ∨ c = 13 ∨ c = 9 then vc
  else if c = 8 then { vc with pos := vc.pos - 1, mem := Function.update vc.mem (vc.pos - 1) ⟨32,vc.currentAttr⟩ }
  else { vc with mem := Function.update vc.mem vc.pos ⟨c,vc.currentAttr⟩ }

/-- What `console_scroll` does to its console. -/
def scrolled (vc : Console) : Console :=
  { vc with
    pos := vc.pos - NB_COL
    mem := fun i =>
      if 0 ≤ i ∧ i < NB_COL * (NB_ROW - 1) then vc.mem (i + NB_COL)
      else if OnScreen i then { vc.mem i with c := 32 }
      else vc.mem i }

/-- What `console_putbyte` does to its console. -/
def put (c : UInt8) (vc : Console) : Console :=
  let vc := drawn c vc
  let vc := { vc with pos := advance c vc.pos }
  if vc.pos ≥ NB_COL * NB_ROW then drawn c (scrolled vc) else vc

section Self
variable (d : Display) (n : Int) (c : UInt8)

theorem setConsole_other {m : Int} (other : m ≠ n) (f : Console → Console) :
    (d.setConsole n f).consoles m = d.consoles m := by simp [Display.setConsole,other]

theorem drawCell_consoles (m : Int) : (drawCell d n c).consoles m =
    if m = n then { d.consoles n with mem := Function.update (d.consoles n).mem (d.consoles n).pos ⟨c,(d.consoles n).currentAttr⟩ }
    else d.consoles m := by
  have kept : (drawCell d n c).consoles = (d.setConsole n (fun vc => { vc with
      mem := Function.update vc.mem vc.pos ⟨c,(d.consoles n).currentAttr⟩ })).consoles := by
    unfold drawCell
    dsimp only
    split <;> rfl
  rw [kept]
  by_cases same : m = n
  · simp [same]
  · simp [Display.setConsole,same]

theorem consoleDrawbyte_consoles (m : Int) :
    (consoleDrawbyte d n c).consoles m = if m = n then drawn c (d.consoles n) else d.consoles m := by
  unfold consoleDrawbyte drawn
  by_cases same : m = n
  · subst same
    split
    · simp
    · split <;> simp [drawCell_consoles]
  · simp only [same,if_false]
    split
    · rfl
    · split <;> simp [drawCell_consoles,Display.setConsole,same]

theorem consoleScroll_consoles (m : Int) :
    (consoleScroll d n).consoles m = if m = n then scrolled (d.consoles n) else d.consoles m := by
  by_cases same : m = n
  · simp [consoleScroll,same,scrolled]
  · simp [consoleScroll,Display.setConsole,same]

/-- `console_putbyte` changes its console and no other. -/
theorem consolePutbyte_consoles (m : Int) :
    (consolePutbyte d n c).consoles m = if m = n then put c (d.consoles n) else d.consoles m := by
  have moved : ∀ m, ((consoleDrawbyte d n c).setConsole n (fun vc => { vc with pos := advance c vc.pos })).consoles m =
      if m = n then { drawn c (d.consoles n) with pos := advance c (drawn c (d.consoles n)).pos } else d.consoles m := by
    intro m
    by_cases same : m = n
    · simp [same,consoleDrawbyte_consoles]
    · simp [Display.setConsole,consoleDrawbyte_consoles,same]
  unfold consolePutbyte put
  dsimp only
  rw [consoleUpdateCursor_consoles,moved n,if_pos rfl]
  split
  · rw [consoleDrawbyte_consoles,consoleScroll_consoles,consoleScroll_consoles,moved n,moved m]
    by_cases same : m = n <;> simp [same]
  · exact moved m

end Self

/-! ### Where the cursor goes -/

section Cursor
variable {pos : Int}

theorem advance_row (inside : 0 ≤ pos) {c : UInt8} (row : c = 10 ∨ c = 13) : advance c pos = (pos / 80 + 1) * 80 := by
  have rest : pos.tmod 80 = pos % 80 := Int.tmod_eq_emod_of_nonneg inside
  simp only [advance,row,if_true,NB_COL,rest]
  omega

theorem advance_tab (pos : Int) : advance 9 pos = (pos / 8 + 1) * 8 := by
  obtain ⟨multiple,low,high⟩ := tabStop_next pos
  simp only [advance,show ¬ ((9 : UInt8) = 10 ∨ (9 : UInt8) = 13) by decide,if_false,if_true]
  omega

/-- A byte that is stored in a cell. -/
def Stored (c : UInt8) : Prop := ¬ (c = 10 ∨ c = 13 ∨ c = 9) ∧ c ≠ 8
instance (c : UInt8) : Decidable (Stored c) := inferInstanceAs (Decidable (_ ∧ _))

theorem advance_stored {c : UInt8} (stored : Stored c) (pos : Int) : advance c pos = pos + 1 := by
  simp only [Stored,not_or] at stored
  simp [advance,stored.1.1,stored.1.2.1,stored.1.2.2,stored.2]

theorem drawn_stored {c : UInt8} (stored : Stored c) (vc : Console) :
    drawn c vc = { vc with mem := Function.update vc.mem vc.pos ⟨c,vc.currentAttr⟩ } := by
  rw [drawn,if_neg stored.1,if_neg stored.2]

theorem drawn_moves {c : UInt8} (moves : c = 10 ∨ c = 13 ∨ c = 9) (vc : Console) : drawn c vc = vc := by
  rw [drawn,if_pos moves]

/-- A byte that only moves the cursor takes it forward, at most to the first
    cell after the screen. -/
theorem advance_moves (inside : OnScreen pos) {c : UInt8} (moves : c = 10 ∨ c = 13 ∨ c = 9) :
    pos < advance c pos ∧ advance c pos ≤ NB_COL * NB_ROW := by
  simp only [OnScreen,NB_COL,NB_ROW] at inside ⊢
  have either : (c = 10 ∨ c = 13) ∨ c = 9 := by tauto
  rcases either with row | rfl
  · rw [advance_row inside.1 row]
    omega
  · rw [advance_tab]
    omega

theorem drawn_pos (c : UInt8) (vc : Console) : (drawn c vc).pos = if c = 8 then vc.pos - 1 else vc.pos := by
  unfold drawn
  split
  · rename_i moves
    rw [if_neg]
    rintro rfl
    exact absurd moves (by decide)
  · split <;> rfl

/-- The cursor after `console_putbyte`. -/
theorem put_pos {vc : Console} (inside : OnScreen vc.pos) (c : UInt8) : (put c vc).pos =
    if c = 8 then vc.pos - 1
    else if advance c vc.pos ≥ NB_COL * NB_ROW then advance c vc.pos - NB_COL else advance c vc.pos := by
  simp only [OnScreen,NB_COL,NB_ROW] at inside
  unfold put
  dsimp only
  by_cases back : c = 8
  · subst back
    have stays : advance 8 (drawn 8 vc).pos = vc.pos - 1 := by
      rw [drawn_pos,if_pos rfl]
      rfl
    rw [if_neg (by rw [stays]; simp only [NB_COL,NB_ROW]; omega),if_pos rfl]
    exact stays
  · have moved : (drawn c vc).pos = vc.pos := by rw [drawn_pos,if_neg back]
    rw [moved,if_neg back]
    split
    · rw [drawn_pos,if_neg back]
      rfl
    · rfl

/-- The three kinds of bytes. -/
theorem kinds (c : UInt8) : (c = 10 ∨ c = 13 ∨ c = 9) ∨ c = 8 ∨ Stored c := by
  unfold Stored
  tauto

end Cursor

/-! ### The cells that are read and written -/

/-- A cell of `virtual_consoles[n].mem` or of `video_mem`. -/
inductive Cell where
  | mem (n i : Int)
  | video (i : Int)
  deriving DecidableEq

def Cell.index : Cell → Int
  | .mem _ i => i
  | .video i => i

/-- What a cell holds. -/
def read (d : Display) : Cell → Character
  | .mem n i => (d.consoles n).mem i
  | .video i => d.videoMem i

/-- The indices from one bound to another. -/
def between (low high : Nat) : List Int := (List.range' low (high - low)).map Int.ofNat

/-- `vc_draw` -/
def vcDrawCells (n : Int) : List Cell := (between 0 2000).flatMap (fun i => [.mem n i,.video i])

/-- `console_scroll` -/
def consoleScrollCells (n : Int) : List Cell :=
  (between 0 1920).flatMap (fun i => [.mem n (i + NB_COL),.mem n i]) ++ (between 1920 2000).map (.mem n) ++ vcDrawCells n

/-- The default case of `console_drawbyte`, with the cursor at `pos`. -/
def drawCellCells (d : Display) (n pos : Int) : List Cell :=
  .mem n pos :: if n = d.vcCurrent then [.video pos] else []

/-- `console_drawbyte` -/
def consoleDrawbyteCells (d : Display) (n : Int) (c : UInt8) : List Cell :=
  if c = 10 ∨ c = 13 ∨ c = 9 then []
  else if c = 8 then drawCellCells d n ((d.consoles n).pos - 1)
  else drawCellCells d n (d.consoles n).pos

/-- `console_putbyte` -/
def consolePutbyteCells (d : Display) (n : Int) (c : UInt8) : List Cell :=
  let moved := (consoleDrawbyte d n c).setConsole n (fun vc => { vc with pos := advance c vc.pos })
  consoleDrawbyteCells d n c ++
    if (moved.consoles n).pos ≥ NB_COL * NB_ROW
    then consoleScrollCells n ++ consoleDrawbyteCells (consoleScroll moved n) n c else []

/-- `console_clear` -/
def consoleClearCells (n : Int) : List Cell := (between 0 2000).map (.mem n) ++ vcDrawCells n

/-- `vc_flip` -/
def vcFlipCells (n : Int) : List Cell := if IsConsole n then vcDrawCells n ++ [.video lastCell] else []

theorem mem_between {low high : Nat} {i : Int} : i ∈ between low high ↔ (low : Int) ≤ i ∧ i < high := by
  simp only [between,List.mem_map,List.mem_range'_1]
  constructor
  · rintro ⟨k,bounds,rfl⟩
    have : (Int.ofNat k) = (k : Int) := rfl
    omega
  · intro bounds
    exact ⟨i.toNat,by omega,by have : Int.ofNat i.toNat = (i.toNat : Int) := rfl; omega⟩

/-! ### What is not among the cells has not changed -/

section Frame
variable {d : Display} {n : Int} {a : Cell}

/-- A change of a console that leaves its cells alone. -/
theorem setConsole_frame {f : Console → Console} (kept : ∀ vc, (f vc).mem = vc.mem) :
    read (d.setConsole n f) a = read d a := by
  cases a with
  | video i => rfl
  | mem m i =>
    by_cases same : m = n
    · simp [read,same,kept]
    · simp [read,setConsole_other,same]

theorem vcDraw_frame (out : a ∉ vcDrawCells n) : read (vcDraw d n) a = read d a := by
  cases a with
  | mem m i => rfl
  | video i =>
    have off : ¬ OnScreen i := fun inside => out (by
      simp only [vcDrawCells,List.mem_flatMap,mem_between]
      exact ⟨i,by simpa [OnScreen,NB_COL,NB_ROW] using inside,by simp⟩)
    simp [read,vcDraw,off]

theorem consoleScroll_frame (out : a ∉ consoleScrollCells n) : read (consoleScroll d n) a = read d a := by
  simp only [consoleScrollCells,List.mem_append,List.mem_flatMap,List.mem_map,mem_between,not_or] at out
  have moved := vcDraw_frame (d := d.setConsole n scrolled) out.2
  refine (show read (consoleScroll d n) a = read (vcDraw (d.setConsole n scrolled) n) a from rfl).trans (moved.trans ?_)
  cases a with
  | video i => rfl
  | mem m i =>
    by_cases same : m = n
    · subst same
      have first : ¬ (0 ≤ i ∧ i < NB_COL * (NB_ROW - 1)) := fun inside => out.1.1
        ⟨i,by simpa [NB_COL,NB_ROW] using inside,by simp⟩
      have second : ¬ OnScreen i := fun inside => by
        simp only [OnScreen,NB_COL,NB_ROW] at inside first
        exact out.1.2 ⟨i,by omega,rfl⟩
      simp [read,scrolled,first,second]
    · simp [read,setConsole_other,same]

theorem consoleClear_frame (out : a ∉ consoleClearCells n) : read (consoleClear d n) a = read d a := by
  simp only [consoleClearCells,List.mem_append,List.mem_map,mem_between,not_or] at out
  refine (vcDraw_frame out.2).trans ?_
  cases a with
  | video i => rfl
  | mem m i =>
    by_cases same : m = n
    · subst same
      have off : ¬ OnScreen i := fun inside => out.1 ⟨i,by simpa [OnScreen,NB_COL,NB_ROW] using inside,rfl⟩
      simp [read,off]
    · simp [read,setConsole_other,same]

theorem vcFlip_frame (out : a ∉ vcFlipCells n) : read (vcFlip d n) a = read d a := by
  unfold vcFlipCells at out
  unfold vcFlip
  split
  · rename_i console
    rw [if_pos console] at out
    simp only [List.mem_append,List.mem_singleton,not_or] at out
    refine Eq.trans ?_ (vcDraw_frame (d := d) out.1)
    cases a with
    | mem m i => rfl
    | video i =>
      have other : i ≠ lastCell := fun last => out.2 (by rw [last])
      simp [read,other]
  · rfl

theorem drawCell_frame {c : UInt8} (out : a ∉ drawCellCells d n (d.consoles n).pos) :
    read (drawCell d n c) a = read d a := by
  simp only [drawCellCells,List.mem_cons,not_or] at out
  cases a with
  | mem m i =>
    simp only [read,drawCell_consoles]
    by_cases same : m = n
    · subst same
      have other : i ≠ (d.consoles m).pos := fun here => out.1 (by rw [here])
      simp [other]
    · simp [same]
  | video i =>
    unfold drawCell
    dsimp only
    split
    · rename_i shown
      have current : n = d.vcCurrent := shown
      have other : i ≠ (d.consoles n).pos := fun here => out.2 (by
        rw [if_pos current,here]
        exact List.mem_singleton_self _)
      simp [read,other]
    · rfl

theorem consoleDrawbyte_frame {c : UInt8} (out : a ∉ consoleDrawbyteCells d n c) :
    read (consoleDrawbyte d n c) a = read d a := by
  unfold consoleDrawbyteCells at out
  unfold consoleDrawbyte
  split
  · rfl
  · rename_i draws
    rw [if_neg draws] at out
    split
    · rename_i back
      rw [if_pos back] at out
      exact (drawCell_frame (by simpa [drawCellCells] using out)).trans (setConsole_frame (fun _ => rfl))
    · rename_i stored
      rw [if_neg stored] at out
      exact drawCell_frame out

/-- `console_putbyte` writes no other cell. -/
theorem consolePutbyte_frame {c : UInt8} (out : a ∉ consolePutbyteCells d n c) :
    read (consolePutbyte d n c) a = read d a := by
  unfold consolePutbyteCells at out
  dsimp only at out
  simp only [List.mem_append,not_or] at out
  have moved : read ((consoleDrawbyte d n c).setConsole n (fun vc => { vc with pos := advance c vc.pos })) a = read d a :=
    (setConsole_frame (by intro vc; rfl)).trans (consoleDrawbyte_frame out.1)
  have shown : ∀ l : Display, read (consoleUpdateCursor l n) a = read l a := fun l => by cases a <;> rfl
  unfold consolePutbyte
  dsimp only
  rw [shown]
  split
  · rename_i past
    have rest := out.2
    simp only [past,if_true,List.mem_append,not_or] at rest
    exact (consoleDrawbyte_frame rest.2).trans ((consoleScroll_frame rest.1).trans moved)
  · exact moved

end Frame

/-! ### The bound -/

/-- All of them are cells of the screen. -/
def Inside (cells : List Cell) : Prop := ∀ a ∈ cells, OnScreen a.index

theorem Inside.append {l r : List Cell} : Inside (l ++ r) ↔ Inside l ∧ Inside r := by
  simp only [Inside,List.mem_append]
  exact ⟨fun all => ⟨fun a m => all a (.inl m),fun a m => all a (.inr m)⟩,fun both a m => m.elim (both.1 a) (both.2 a)⟩

theorem between_onScreen {low high : Nat} (small : high ≤ 2000) {i : Int} (member : i ∈ between low high) : OnScreen i := by
  rw [mem_between] at member
  simp only [OnScreen,NB_COL,NB_ROW]
  omega

/-- One console's cells, or those of the screen beside them. -/
theorem inside_map {n : Int} {low high : Nat} (small : high ≤ 2000) : Inside ((between low high).map (.mem n)) := by
  intro a member
  obtain ⟨i,bounds,rfl⟩ := List.mem_map.mp member
  exact between_onScreen small bounds

theorem inside_flatMap {low high : Nat} {f : Int → List Cell} (each : ∀ i ∈ between low high, Inside (f i)) :
    Inside ((between low high).flatMap f) := by
  intro a member
  obtain ⟨i,bounds,cell⟩ := List.mem_flatMap.mp member
  exact each i bounds a cell

theorem inside_pair {a b : Cell} (first : OnScreen a.index) (second : OnScreen b.index) : Inside [a,b] := by
  intro cell member
  simp only [List.mem_cons,List.not_mem_nil,or_false] at member
  rcases member with rfl | rfl
  · exact first
  · exact second

theorem vcDrawCells_inside (n : Int) : Inside (vcDrawCells n) :=
  inside_flatMap (fun _ bounds => inside_pair (between_onScreen le_rfl bounds) (between_onScreen le_rfl bounds))

theorem consoleScrollCells_inside (n : Int) : Inside (consoleScrollCells n) := by
  refine Inside.append.mpr ⟨Inside.append.mpr ⟨inside_flatMap ?_,inside_map le_rfl⟩,vcDrawCells_inside n⟩
  intro i bounds
  refine inside_pair ?_ (between_onScreen (by decide) bounds)
  rw [mem_between] at bounds
  simp only [Cell.index,OnScreen,NB_COL,NB_ROW]
  omega

theorem consoleClearCells_inside (n : Int) : Inside (consoleClearCells n) :=
  Inside.append.mpr ⟨inside_map le_rfl,vcDrawCells_inside n⟩

theorem vcFlipCells_inside (n : Int) : Inside (vcFlipCells n) := by
  unfold vcFlipCells
  split
  · refine Inside.append.mpr ⟨vcDrawCells_inside n,?_⟩
    intro a member
    rw [List.mem_singleton.mp member]
    decide
  · intro a member
    cases member

theorem drawCellCells_inside {d : Display} {n pos : Int} : Inside (drawCellCells d n pos) ↔ OnScreen pos := by
  constructor
  · exact fun all => all (.mem n pos) (by simp [drawCellCells])
  · intro inside a member
    unfold drawCellCells at member
    split at member
    · simp only [List.mem_cons,List.not_mem_nil,or_false] at member
      rcases member with rfl | rfl <;> exact inside
    · rw [List.mem_singleton.mp member]
      exact inside

/-- A byte is put without an access outside of the screen, and leaves the
    cursor on it. -/
def Bound (d : Display) (n : Int) (c : UInt8) : Prop :=
  Inside (consolePutbyteCells d n c) ∧ OnScreen ((consolePutbyte d n c).consoles n).pos

/-- A backspace that is put with the cursor in the first cell. -/
def Underruns (d : Display) (n : Int) (c : UInt8) : Prop := c = 8 ∧ (d.consoles n).pos = 0

section Byte
variable {d : Display} {n : Int} (inside : OnScreen (d.consoles n).pos)
include inside

/-- The cells where the byte itself is drawn. -/
theorem consoleDrawbyteCells_inside {c : UInt8} : Inside (consoleDrawbyteCells d n c) ↔ ¬ Underruns d n c := by
  unfold consoleDrawbyteCells Underruns
  split
  · rename_i moves
    refine ⟨fun _ under => ?_,fun _ a member => by cases member⟩
    rw [under.1] at moves
    exact absurd moves (by decide)
  · split
    · rename_i back
      rw [drawCellCells_inside]
      simp only [OnScreen,NB_COL,NB_ROW,back,true_and] at inside ⊢
      omega
    · rename_i other
      rw [drawCellCells_inside]
      exact ⟨fun _ under => other under.1,fun _ => inside⟩

omit inside in
/-- The byte is drawn again after scrolling, within the last row. -/
theorem again_inside {c : UInt8} (other : c ≠ 8) {l : Display} (last : (l.consoles n).pos = 2000) :
    Inside (consoleDrawbyteCells (consoleScroll l n) n c) := by
  have row : ((consoleScroll l n).consoles n).pos = 1920 := by
    rw [consoleScroll_consoles,if_pos rfl]
    show (l.consoles n).pos - NB_COL = 1920
    rw [last]
    rfl
  exact (consoleDrawbyteCells_inside (by rw [row]; decide)).mpr (fun under => other under.1)

/-- The cursor is at most one cell after the screen when it scrolls. -/
theorem advance_le {c : UInt8} (other : c ≠ 8) :
    (d.consoles n).pos < advance c (d.consoles n).pos ∧ advance c (d.consoles n).pos ≤ NB_COL * NB_ROW := by
  rcases kinds c with moves | back | stored
  · exact advance_moves inside moves
  · exact absurd back other
  · rw [advance_stored stored]
    simp only [OnScreen,NB_COL,NB_ROW] at inside ⊢
    omega

omit inside in
/-- The cursor before the check for the end of the screen. -/
theorem moved_pos (c : UInt8) :
    (((consoleDrawbyte d n c).setConsole n (fun vc => { vc with pos := advance c vc.pos })).consoles n).pos =
      if c = 8 then (d.consoles n).pos - 1 else advance c (d.consoles n).pos := by
  rw [setConsole_self,consoleDrawbyte_consoles,if_pos rfl]
  show advance c (drawn c (d.consoles n)).pos = _
  rw [drawn_pos]
  by_cases back : c = 8
  · subst back
    rfl
  · rw [if_neg back,if_neg back]

/-- One byte. -/
theorem bound_iff (c : UInt8) : Bound d n c ↔ ¬ Underruns d n c := by
  have drawing := consoleDrawbyteCells_inside inside (c := c)
  unfold Bound
  rw [consolePutbyte_consoles,if_pos rfl,put_pos inside]
  constructor
  · rintro ⟨cells,_⟩
    exact drawing.mp (Inside.append.mp cells).1
  · intro spared
    by_cases back : c = 8
    · subst back
      have first : (d.consoles n).pos ≠ 0 := fun zero => spared ⟨rfl,zero⟩
      simp only [OnScreen,NB_COL,NB_ROW] at inside
      refine ⟨Inside.append.mpr ⟨drawing.mpr spared,?_⟩,?_⟩
      · rw [if_neg (by rw [moved_pos,if_pos rfl]; simp only [NB_COL,NB_ROW]; omega)]
        intro a member
        cases member
      · simp only [if_true,OnScreen,NB_COL,NB_ROW]
        omega
    · obtain ⟨forward,upto⟩ := advance_le inside back
      have moved := moved_pos (d := d) (n := n) c
      rw [if_neg back] at moved
      refine ⟨Inside.append.mpr ⟨drawing.mpr spared,?_⟩,?_⟩
      · split
        · rename_i past
          refine Inside.append.mpr ⟨consoleScrollCells_inside n,again_inside back ?_⟩
          rw [moved] at past ⊢
          simp only [NB_COL,NB_ROW] at past upto
          omega
        · intro a member
          cases member
      · rw [if_neg back]
        by_cases past : advance c (d.consoles n).pos ≥ NB_COL * NB_ROW
        · rw [if_pos past]
          simp only [OnScreen,NB_COL,NB_ROW] at inside forward upto past ⊢
          omega
        · rw [if_neg past]
          simp only [OnScreen,NB_COL,NB_ROW] at inside forward past ⊢
          omega

end Byte

/-! ### Strings and runs -/

/-- A property of every byte of a string, where it is put. -/
def EachByte (P : Display → UInt8 → Prop) (n : Int) : Display → List UInt8 → Prop
  | _, [] => True
  | d, c :: rest => P d c ∧ EachByte P n (consolePutbyte d n c) rest

instance decEachByte {P : Display → UInt8 → Prop} [∀ d c, Decidable (P d c)] (n : Int) :
    ∀ (d : Display) (s : List UInt8), Decidable (EachByte P n d s)
  | _, [] => instDecidableTrue
  | d, c :: rest =>
    have : Decidable (EachByte P n (consolePutbyte d n c) rest) := decEachByte n _ rest
    inferInstanceAs (Decidable (_ ∧ _))

instance (d : Display) (n : Int) (c : UInt8) : Decidable (Underruns d n c) := inferInstanceAs (Decidable (_ ∧ _))

/-- No byte of the string underruns. -/
abbrev Spares (n : Int) (d : Display) (s : List UInt8) : Prop := EachByte (fun d c => ¬ Underruns d n c) n d s

/-- The operation does not take the cursor out of the screen. -/
def Spared (d : Display) : Op → Prop
  | .putbyte n c => ¬ Underruns d n c
  | .write n s => Spares n d s
  | .clear _ | .flip _ | .setAttr _ => True

instance (d : Display) : DecidablePred (Spared d)
  | .putbyte n c => inferInstanceAs (Decidable (¬ Underruns d n c))
  | .write n s => inferInstanceAs (Decidable (Spares n d s))
  | .clear _ | .flip _ | .setAttr _ => instDecidableTrue

/-- The cursor of every console is on the screen. -/
def Steady (d : Display) : Prop := ∀ n, IsConsole n → OnScreen (d.consoles n).pos

theorem consolePutbyte_steady {d : Display} (steady : Steady d) {n : Int} (console : IsConsole n) {c : UInt8}
    (spared : ¬ Underruns d n c) : Steady (consolePutbyte d n c) := by
  intro m valid
  by_cases same : m = n
  · subst same
    exact ((bound_iff (steady m valid) c).mpr spared).2
  · rw [consolePutbyte_consoles,if_neg same]
    exact steady m valid

/-- A string is put within the screen exactly when none of its backspaces comes
    with the cursor in the first cell. -/
theorem eachByte_bound_iff {d : Display} (steady : Steady d) {n : Int} (console : IsConsole n) (s : List UInt8) :
    EachByte (fun d c => Bound d n c) n d s ↔ Spares n d s := by
  induction s generalizing d with
  | nil => exact Iff.rfl
  | cons c rest ih =>
    have first := bound_iff (steady n console) c
    constructor
    · rintro ⟨bound,later⟩
      have spared := first.mp bound
      exact ⟨spared,(ih (consolePutbyte_steady steady console spared)).mp later⟩
    · rintro ⟨spared,later⟩
      exact ⟨first.mpr spared,(ih (consolePutbyte_steady steady console spared)).mpr later⟩

theorem consoleVcWrite_steady {d : Display} (steady : Steady d) {n : Int} (console : IsConsole n) {s : List UInt8}
    (spares : Spares n d s) : Steady (consoleVcWrite d n s) := by
  induction s generalizing d with
  | nil => exact steady
  | cons c rest ih => exact ih (consolePutbyte_steady steady console spares.1) spares.2

/-- One operation. -/
theorem step_steady {d d' : Display} {op : Op} (steady : Steady d) (spared : Spared d op)
    (stepped : step d op = some d') : Steady d' := by
  cases op with
  | putbyte n c =>
    simp only [step,Option.ite_none_right_eq_some,Option.some.injEq] at stepped
    obtain ⟨console,rfl⟩ := stepped
    exact consolePutbyte_steady steady console spared
  | write n s =>
    simp only [step,Option.ite_none_right_eq_some,Option.some.injEq] at stepped
    obtain ⟨console,rfl⟩ := stepped
    exact consoleVcWrite_steady steady console spared
  | clear n =>
    simp only [step,Option.ite_none_right_eq_some,Option.some.injEq] at stepped
    obtain ⟨console,rfl⟩ := stepped
    intro m valid
    by_cases same : m = n
    · simp [consoleClear,same,OnScreen,NB_COL,NB_ROW]
    · simpa [consoleClear,setConsole_other,same] using steady m valid
  | flip n =>
    obtain rfl := Option.some.inj stepped
    unfold vcFlip
    split <;> exact steady
  | setAttr attr =>
    obtain rfl := Option.some.inj stepped
    intro m valid
    by_cases same : m = d.vcCurrent
    · simpa [same] using steady d.vcCurrent (same ▸ valid)
    · simpa [setConsole_other,same] using steady m valid

theorem initialised_steady {d : Display} (initialised : Initialised d) : Steady d := by
  obtain ⟨before,rfl⟩ := initialised
  intro n console
  have four : n = 0 ∨ n = 1 ∨ n = 2 ∨ n = 3 := by
    simp only [IsConsole,VIRTUAL_CONSOLES] at console
    omega
  rcases four with rfl | rfl | rfl | rfl <;>
    simp [consoleInit,consoleClear,Display.setConsole,OnScreen,NB_COL,NB_ROW]

/-- `console_vc_write` -/
def consoleVcWriteCells (n : Int) : Display → List UInt8 → List Cell
  | _, [] => []
  | d, c :: rest => consolePutbyteCells d n c ++ consoleVcWriteCells n (consolePutbyte d n c) rest

/-- The cells that an operation reads or writes. -/
def cells (d : Display) : Op → List Cell
  | .putbyte n c => consolePutbyteCells d n c
  | .write n s => consoleVcWriteCells n d s
  | .clear n => consoleClearCells n
  | .flip n => vcFlipCells n
  | .setAttr _ => []

/-- An operation writes no other cell. -/
theorem step_frame {d d' : Display} {op : Op} (stepped : step d op = some d') {a : Cell} (out : a ∉ cells d op) :
    read d' a = read d a := by
  cases op with
  | putbyte n c =>
    simp only [step,Option.ite_none_right_eq_some,Option.some.injEq] at stepped
    obtain ⟨_,rfl⟩ := stepped
    exact consolePutbyte_frame out
  | write n s =>
    simp only [step,Option.ite_none_right_eq_some,Option.some.injEq] at stepped
    obtain ⟨_,rfl⟩ := stepped
    simp only [cells] at out
    induction s generalizing d with
    | nil => rfl
    | cons c rest ih =>
      simp only [consoleVcWriteCells,List.mem_append,not_or] at out
      exact (ih out.2).trans (consolePutbyte_frame out.1)
  | clear n =>
    simp only [step,Option.ite_none_right_eq_some,Option.some.injEq] at stepped
    obtain ⟨_,rfl⟩ := stepped
    exact consoleClear_frame out
  | flip n =>
    obtain rfl := Option.some.inj stepped
    exact vcFlip_frame out
  | setAttr attr =>
    obtain rfl := Option.some.inj stepped
    exact setConsole_frame (fun _ => rfl)

theorem cells_inside {d d' : Display} {op : Op} (reached : Reach Spared d) (spared : Spared d op)
    (stepped : step d op = some d') : Inside (cells d op) := by
  have steady : Steady d := reached.invariant (fun _ => initialised_steady) (fun _ _ _ => step_steady)
  cases op with
  | putbyte n c =>
    simp only [step,Option.ite_none_right_eq_some] at stepped
    exact ((bound_iff (steady n stepped.1) c).mpr spared).1
  | write n s =>
    simp only [step,Option.ite_none_right_eq_some] at stepped
    have all := (eachByte_bound_iff steady stepped.1 s).mpr spared
    clear spared stepped steady reached
    induction s generalizing d with
    | nil =>
      intro a member
      cases member
    | cons c rest ih => exact Inside.append.mpr ⟨all.1.1,ih all.2⟩
  | clear n => exact consoleClearCells_inside n
  | flip n => exact vcFlipCells_inside n
  | setAttr attr =>
    intro a member
    cases member

/-- In a run without a backspace in the first cell, no operation leaves the
    screen, and it writes no other cell than its own. -/
theorem step_inside {d d' : Display} {op : Op} (reached : Reach Spared d) (spared : Spared d op)
    (stepped : step d op = some d') : Inside (cells d op) ∧ ∀ a, a ∉ cells d op → read d' a = read d a :=
  ⟨cells_inside reached spared stepped,fun _ out => step_frame stepped out⟩

/-- From every state that is reached without a backspace in the first cell, a
    string is put within the screen exactly when it has none there either. -/
theorem putbyte_inside_iff {d : Display} (reached : Reach Spared d) {n : Int} (console : IsConsole n) (s : List UInt8) :
    EachByte (fun d c => Inside (consolePutbyteCells d n c) ∧ OnScreen ((consolePutbyte d n c).consoles n).pos) n d s ↔
      EachByte (fun d c => ¬ (c = 8 ∧ (d.consoles n).pos = 0)) n d s :=
  eachByte_bound_iff (reached.invariant (fun _ => initialised_steady) (fun _ _ _ => step_steady)) console s

/-- A backspace after a letter. -/
theorem putbyte_inside_iff_letter : ∃ d : Display, Reach Spared d ∧ (d.consoles 0).pos = 1 ∧
    (EachByte (fun d c => Inside (consolePutbyteCells d 0 c) ∧ OnScreen ((consolePutbyte d 0 c).consoles 0).pos) 0 d [8] ↔
      EachByte (fun d c => ¬ (c = 8 ∧ (d.consoles 0).pos = 0)) 0 d [8]) := by
  have seen : (Runs.run (Runs.guarded step Spared) (consoleInit dark) [.putbyte 0 97]).map (fun d => (d.consoles 0).pos) =
      some 1 := by decide
  obtain ⟨d,ran,one⟩ := Option.map_eq_some_iff.mp seen
  have reached : Reach Spared d := Runs.reach_of_guarded (.start ⟨dark,rfl⟩) ran
  exact ⟨d,reached,one,putbyte_inside_iff reached (by decide) [8]⟩

/-- A backspace on a cleared console is drawn in front of its array. -/
theorem backspace_underruns : ¬ ∀ d : Display, Reach (fun _ _ => True) d → ∀ n, IsConsole n → ∀ s,
    EachByte (fun d c => Inside (consolePutbyteCells d n c) ∧ OnScreen ((consolePutbyte d n c).consoles n).pos) n d s := by
  intro claim
  have all := claim (consoleInit dark) (.start ⟨dark,rfl⟩) 0 (by decide) [8]
  have drawn : OnScreen (Cell.mem 0 (-1)).index := all.1.1 _ (by decide)
  exact absurd drawn (by decide)

end Psys.Terminal
