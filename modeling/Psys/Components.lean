import Mathlib.Data.List.Basic
import Psys.Paths

/-!
`vfs_path_resolution` character by character, over any tree of nodes: the
position in the path, the component buffer on the stack, and every index at
which it is written.
-/
namespace Psys.Components
open Psys.State
open Psys.Vfs (Text FS_NAME_MAX Node NodeType Ptr fsNode fsRoot)
universe u

/-! ### Strings in memory -/

/-- The terminator of a string. -/
def NUL : Char := Char.ofNat 0

/-- A string with its terminator stands at an address. -/
def StringAt (memory : Int → Char) : Int → Text → Prop
  | at_, [] => memory at_ = NUL
  | at_, c :: rest => memory at_ = c ∧ c ≠ NUL ∧ StringAt memory (at_ + 1) rest

/-- The string at an address, of which so many characters are looked at. -/
def stringFrom (memory : Int → Char) : Nat → Int → Text
  | 0, _ => []
  | n + 1, at_ => if memory at_ = NUL then [] else memory at_ :: stringFrom memory n (at_ + 1)

/-- A string literal. -/
def literal (s : Text) (i : Int) : Char := if 0 ≤ i then s.getD i.toNat NUL else NUL

/-- `strncmp` of two strings from an index on, with `n` characters to compare. -/
def strncmp (s₁ s₂ : Int → Char) : Nat → Int → Int
  | 0, _ => 0
  | n + 1, i =>
    let d : Int := (s₁ i).toNat - (s₂ i).toNat
    if d ≠ 0 ∨ s₁ i = NUL then d else strncmp s₁ s₂ n (i + 1)

/-! ### The code -/

/-- What `finddir_fs` and `vfs_path_resolution` look at in a node; none stands
    for `NULL`. -/
structure Tree (N : Type u) where
  type : N → NodeType
  finddir : N → Option (Text → Option N)
  parent : N → Option N

/-- `finddir_fs` -/
def finddirFs {N : Type u} (tree : Tree N) (node : N) (name : Text) : Option N :=
  match tree.finddir node with
  | some finddir =>
    if tree.type node = .dir then
      if name = ['.','.'] then tree.parent node else finddir name
    else none
  | none => none

/-- The array `filename` with the memory around it, `offset_name`, and the
    indices at which `filename` was written, newest first. What a write outside
    of the array does to other variables is not modelled. -/
structure Frame where
  filename : Int → Char
  offsetName : Int
  written : List Int

/-- `filename[i] = c` -/
def Frame.put (f : Frame) (i : Int) (c : Char) : Frame :=
  { f with filename := Function.update f.filename i c, written := i :: f.written }

/-- `(*offset_name)++` -/
def Frame.advance (f : Frame) : Frame := { f with offsetName := f.offsetName + 1 }

/-- The loop of `vfs_next_filename`: what it returns and the frame it leaves;
    none when the turns do not suffice. -/
def vfsNextFilename (name : Int → Char) : Nat → Int → Frame → Option (Bool × Frame)
  | 0, _, _ => none
  | turns + 1, i, f =>
    let c := name f.offsetName
    let f := f.put i c
    if c = NUL then some (true,f)
    else if c = '/' then some (false,f.put i NUL)
    else vfsNextFilename name turns (i + 1) f.advance

section Code
variable {N : Type u} (tree : Tree N)

/-- The loop of `vfs_path_resolution`; `limit` bounds the turns of the loops
    inside. -/
def resolveLoop (name : Int → Char) (limit : Nat) : Nat → N → Frame → Option (Option N × Frame)
  | 0, _, _ => none
  | turns + 1, current, f =>
    match vfsNextFilename name limit 0 (f.put 0 NUL).advance with
    | none => none
    | some (final,f) =>
      match finddirFs tree current (stringFrom f.filename limit 0) with
      | none => some (none,f)
      | some next => if final then some (some next,f) else resolveLoop name limit turns next f

/-- `vfs_path_resolution` in a process with a working directory, with so many
    turns for each loop. `stack` is what is in memory before. -/
def vfsPathResolution (root workingDir : N) (name stack : Int → Char) (turns : Nat) : Option (Option N × Frame) :=
  if name 0 ≠ '/' then
    if strncmp name (literal ['.']) FS_NAME_MAX 0 = 0 then some (some workingDir,⟨stack,0,[]⟩)
    else if strncmp name (literal ['.','.']) FS_NAME_MAX 0 = 0 then some (tree.parent workingDir,⟨stack,0,[]⟩)
    else resolveLoop tree name turns turns workingDir ⟨stack,-1,[]⟩
  else if name 1 = NUL then some (some root,⟨stack,0,[]⟩)
  else resolveLoop tree name turns turns root ⟨stack,0,[]⟩

end Code

/-! ### What it is for -/

/-- The parts of a path between slashes, after one leading slash. -/
def components (s : Text) : List Text := if s.head? = some '/' then s.tail.splitOn '/' else s.splitOn '/'

section Spec
variable {N : Type u} (tree : Tree N) (root workingDir : N)

/-- Where a path starts. -/
def start (s : Text) : N := if s.head? = some '/' then root else workingDir

/-- The node that a path names. -/
def resolved (s : Text) : Option N :=
  if s = ['/'] then some root
  else if s = ['.'] then some workingDir
  else if s = ['.','.'] then tree.parent workingDir
  else (components s).foldlM (finddirFs tree) (start root workingDir s)

/-- All names fit into the buffer that are looked up from a node on, the first
    one that is not found included. -/
def Fit : N → List Text → Prop
  | _, [] => True
  | current, c :: rest => c.length < FS_NAME_MAX ∧ ∀ next ∈ finddirFs tree current c, Fit next rest

end Spec

/-- The component buffer was written at its own indices only. -/
def Frame.Intact (f : Frame) : Prop := ∀ i ∈ f.written, 0 ≤ i ∧ i < FS_NAME_MAX

/-! ### Strings -/

variable {name : Int → Char}

theorem stringFrom_eq {memory : Int → Char} {at_ : Int} {s : Text} (stands : StringAt memory at_ s) {n : Nat}
    (enough : s.length < n) : stringFrom memory n at_ = s := by
  induction s generalizing n at_ with
  | nil =>
    cases n with
    | zero => cases enough
    | succ n =>
      have ends : memory at_ = NUL := stands
      rw [stringFrom,if_pos ends]
  | cons c rest ih =>
    cases n with
    | zero => cases enough
    | succ n =>
      obtain ⟨here,real,later⟩ := stands
      rw [stringFrom,here,if_neg real,ih later (Nat.lt_of_succ_lt_succ enough)]

theorem stringAt_of_bytes {memory : Int → Char} {at_ : Int} {s : Text} (real : NUL ∉ s)
    (bytes : ∀ k : Nat, memory (at_ + k) = s.getD k NUL) : StringAt memory at_ s := by
  induction s generalizing at_ with
  | nil => simpa [StringAt] using bytes 0
  | cons c rest ih =>
    simp only [List.mem_cons,not_or] at real
    refine ⟨by simpa using bytes 0,Ne.symm real.1,ih real.2 ?_⟩
    intro k
    have next := bytes (k + 1)
    rw [Nat.cast_add,Nat.cast_one,add_comm (k : Int),← add_assoc] at next
    exact next

theorem literal_stringAt {s : Text} (real : NUL ∉ s) : StringAt (literal s) 0 s :=
  stringAt_of_bytes real (fun k => by simp [literal])

/-- What follows a character is a string of its own. -/
theorem StringAt.drop {at_ : Int} {p r : Text} {c : Char} (stands : StringAt name at_ (p ++ c :: r)) :
    StringAt name (at_ + p.length + 1) r := by
  induction p generalizing at_ with
  | nil => simpa using stands.2.2
  | cons d p ih =>
    have later := ih stands.2.2
    have moved : at_ + (d :: p).length + 1 = at_ + 1 + p.length + 1 := by
      simp only [List.length_cons]
      omega
    rwa [moved]

theorem toNat_injective {c d : Char} (same : ((c.toNat : Int) - d.toNat) = 0) : c = d := by
  have : c.toNat = d.toNat := by omega
  exact Char.toNat_inj.mp this

/-- Compared with a word that fits, `strncmp` finds out whether it is the same. -/
theorem strncmp_eq_zero {word : Int → Char} {at_ : Int} {s w : Text} (left : StringAt name at_ s)
    (right : StringAt word at_ w) {n : Nat} (fits : w.length < n) : strncmp name word n at_ = 0 ↔ s = w := by
  induction w generalizing n at_ s with
  | nil =>
    obtain ⟨n,rfl⟩ := Nat.exists_eq_succ_of_ne_zero (by omega : n ≠ 0)
    have ends : word at_ = NUL := right
    rw [strncmp]
    cases s with
    | nil =>
      have same : name at_ = NUL := left
      simp [same,ends]
    | cons c rest =>
      obtain ⟨here,real,_⟩ := left
      have differ : ((c.toNat : Int) - NUL.toNat) ≠ 0 := fun same => real (toNat_injective same)
      simp only [here,ends,differ,ne_eq,not_false_eq_true,true_or,if_true,List.cons_ne_nil]
  | cons d w ih =>
    obtain ⟨n,rfl⟩ := Nat.exists_eq_succ_of_ne_zero (by omega : n ≠ 0)
    obtain ⟨there,full,onward⟩ := right
    rw [strncmp]
    cases s with
    | nil =>
      have ends : name at_ = NUL := left
      have differ : ((NUL.toNat : Int) - d.toNat) ≠ 0 := fun same => full (toNat_injective same).symm
      simp only [ends,there,differ,ne_eq,not_false_eq_true,true_or,if_true,(List.cons_ne_nil d w).symm]
    | cons c rest =>
      obtain ⟨here,real,later⟩ := left
      rw [here,there]
      by_cases same : c = d
      · subst same
        simp only [sub_self,ne_eq,not_true_eq_false,real,or_self,if_false,List.cons.injEq,true_and]
        exact ih later onward (Nat.lt_of_succ_lt_succ fits)
      · have differ : ((c.toNat : Int) - d.toNat) ≠ 0 := fun zero => same (toNat_injective zero)
        simp only [differ,ne_eq,not_false_eq_true,true_or,if_true,List.cons.injEq,same,false_and]

/-! ### One component -/

/-- What `vfs_next_filename` leaves that copied a component to an index: the
    position stands on what ended it, and the writes are those of the component
    and of its terminator. -/
structure Copied (f : Frame) (i : Int) (part : Text) (f' : Frame) : Prop where
  position : f'.offsetName = f.offsetName + part.length
  stands : StringAt f'.filename i part
  before : ∀ j < i, f'.filename j = f.filename j
  written : ∀ j, j ∈ f'.written ↔ j ∈ f.written ∨ i ≤ j ∧ j ≤ i + part.length

/-- The terminator is written, after at most a slash at the same index. -/
theorem copied_end {f g : Frame} {i : Int} (position : g.offsetName = f.offsetName)
    (before : ∀ j ≠ i, g.filename j = f.filename j) (written : ∀ j ≠ i, (j ∈ g.written ↔ j ∈ f.written)) :
    Copied f i [] (g.put i NUL) := by
  have ends : (g.put i NUL).filename i = NUL := by simp [Frame.put]
  refine ⟨?_,ends,?_,?_⟩
  · show g.offsetName = f.offsetName + ([] : Text).length
    rw [position,List.length_nil]
    omega
  · intro j earlier
    have other : j ≠ i := by omega
    exact (Function.update_of_ne other _ _).trans (before j other)
  · intro j
    have span : (i ≤ j ∧ j ≤ i + ([] : Text).length) ↔ j = i := by
      rw [List.length_nil]
      omega
    rw [span,Frame.put,List.mem_cons]
    by_cases here : j = i
    · simp [here]
    · simp [here,written j here]

/-- A component ends at a slash or at the end of the path. -/
theorem vfsNextFilename_copies {part tail : Text} (plain : '/' ∉ part) (ends : tail = [] ∨ ∃ rest, tail = '/' :: rest)
    {f : Frame} (here : StringAt name f.offsetName (part ++ tail)) {turns : Nat} (enough : part.length < turns) (i : Int) :
    ∃ f', vfsNextFilename name turns i f = some (tail.isEmpty,f') ∧ Copied f i part f' := by
  induction part generalizing turns i f with
  | nil =>
    obtain ⟨turns,rfl⟩ := Nat.exists_eq_succ_of_ne_zero (by omega : turns ≠ 0)
    rw [vfsNextFilename]
    rcases ends with rfl | ⟨rest,rfl⟩
    · have last : name f.offsetName = NUL := here
      refine ⟨f.put i NUL,?_,copied_end rfl (fun _ _ => rfl) (fun _ _ => Iff.rfl)⟩
      simp only [last,if_true,List.isEmpty_nil]
    · have slash : name f.offsetName = '/' := here.1
      have other : '/' ≠ NUL := by decide
      refine ⟨(f.put i '/').put i NUL,?_,copied_end rfl ?_ ?_⟩
      · simp only [slash,other,if_true,if_false,List.isEmpty_cons]
      · exact fun j apart => Function.update_of_ne apart _ _
      · intro j apart
        simp [Frame.put,apart]
  | cons c part ih =>
    obtain ⟨turns,rfl⟩ := Nat.exists_eq_succ_of_ne_zero (by omega : turns ≠ 0)
    simp only [List.mem_cons,not_or] at plain
    obtain ⟨first,real,later⟩ := here
    obtain ⟨f',ran,position,stands,before,written⟩ := ih plain.2 (f := (f.put i c).advance) later
      (Nat.lt_of_succ_lt_succ enough) (i + 1)
    refine ⟨f',?_,?_,?_,?_,?_⟩
    · rw [vfsNextFilename,first]
      simp only [real,Ne.symm plain.1,if_false]
      exact ran
    · simp only [position,Frame.advance,Frame.put,List.length_cons]
      omega
    · refine ⟨?_,real,stands⟩
      rw [before i (by omega)]
      simp [Frame.advance,Frame.put]
    · intro j earlier
      rw [before j (by omega)]
      simp [Frame.advance,Frame.put,show j ≠ i by omega]
    · intro j
      have span : (i ≤ j ∧ j ≤ i + (c :: part).length) ↔ j = i ∨ i + 1 ≤ j ∧ j ≤ i + 1 + part.length := by
        simp only [List.length_cons]
        omega
      rw [written,span]
      simp only [Frame.advance,Frame.put,List.mem_cons]
      tauto

/-- One turn of `vfs_path_resolution` looks up the component at its position. -/
theorem resolveLoop_turn {N : Type u} (tree : Tree N) {part tail : Text} (plain : '/' ∉ part)
    (ends : tail = [] ∨ ∃ rest, tail = '/' :: rest) {f : Frame} (here : StringAt name (f.offsetName + 1) (part ++ tail))
    {limit : Nat} (enough : part.length < limit) (turns : Nat) (current : N) :
    ∃ f', f'.offsetName = f.offsetName + 1 + part.length ∧ (f'.Intact ↔ f.Intact ∧ part.length < FS_NAME_MAX) ∧
      resolveLoop tree name limit (turns + 1) current f =
        match finddirFs tree current part with
        | none => some (none,f')
        | some next => if tail.isEmpty then some (some next,f') else resolveLoop tree name limit turns next f' := by
  obtain ⟨f',ran,copied⟩ := vfsNextFilename_copies plain ends (f := (f.put 0 NUL).advance) here enough 0
  refine ⟨f',copied.position,?_,?_⟩
  · unfold Frame.Intact
    simp only [copied.written,Frame.advance,Frame.put,List.mem_cons,FS_NAME_MAX]
    constructor
    · intro intact
      refine ⟨fun i before => intact i (.inl (.inr before)),?_⟩
      have last := intact part.length (.inr (by omega))
      omega
    · rintro ⟨intact,fits⟩ i ((rfl | before) | span)
      · decide
      · exact intact i before
      · omega
  · rw [resolveLoop,ran]
    dsimp only
    rw [stringFrom_eq copied.stands enough]

/-- The loop folds the lookup over the components from its position on, and
    stays in the buffer as long as they fit. -/
theorem resolveLoop_run {N : Type u} (tree : Tree N) {s : Text} {f : Frame}
    (here : StringAt name (f.offsetName + 1) s) {limit turns : Nat} (enough : s.length < limit) (more : s.length < turns)
    (current : N) :
    ∃ f', resolveLoop tree name limit turns current f = some ((s.splitOn '/').foldlM (finddirFs tree) current,f') ∧
      (f'.Intact ↔ f.Intact ∧ Fit tree current (s.splitOn '/')) := by
  induction turns generalizing s f current with
  | zero => cases more
  | succ turns ih =>
    by_cases slash : '/' ∈ s
    · obtain ⟨part,rest,rfl,plain⟩ := List.eq_append_cons_of_mem slash
      have size : part.length + (rest.length + 1) < turns + 1 := by simpa using more
      have room : part.length + (rest.length + 1) < limit := by simpa using enough
      obtain ⟨f',position,intact,turn⟩ := resolveLoop_turn tree plain (.inr ⟨rest,rfl⟩) here (by omega : part.length < limit)
        turns current
      rw [turn,List.splitOn_append_cons_self_of_not_mem plain,List.foldlM_cons]
      simp only [Fit,Option.mem_def]
      cases found : finddirFs tree current part with
      | none => exact ⟨f',rfl,by simpa using intact⟩
      | some next =>
        have later : StringAt name (f'.offsetName + 1) rest := by
          rw [position]
          exact here.drop
        obtain ⟨f'',ran,kept⟩ := ih later (by omega) (by omega) next
        refine ⟨f'',?_,?_⟩
        · simpa using ran
        · rw [kept,intact,and_assoc]
          simp
    · have whole : s ++ [] = s := List.append_nil s
      obtain ⟨f',_,intact,turn⟩ := resolveLoop_turn tree slash (.inl rfl) (whole.symm ▸ here) enough turns current
      rw [turn,List.splitOn_eq_singleton slash]
      simp only [Fit]
      cases found : finddirFs tree current s with
      | none => exact ⟨f',by simp [found],by simpa using intact⟩
      | some next => exact ⟨f',by simp [found],by simpa using intact⟩

/-! ### Paths -/

theorem components_single {s : Text} (plain : '/' ∉ s) : components s = [s] := by
  have relative : s.head? ≠ some '/' := fun slash => plain (List.mem_of_mem_head? slash)
  rw [components,if_neg relative]
  exact List.splitOn_eq_singleton plain

theorem fit_single {N : Type u} (tree : Tree N) (node : N) {part : Text} (short : part.length < FS_NAME_MAX) :
    Fit tree node [part] := ⟨short,fun _ _ => trivial⟩

theorem intact_start (stack : Int → Char) (offset : Int) : (⟨stack,offset,[]⟩ : Frame).Intact := by
  simp [Frame.Intact]

theorem relative_char {s : Text} (string : StringAt name 0 s) (relative : s.head? ≠ some '/') : name 0 ≠ '/' := by
  cases s with
  | nil =>
    rw [show name 0 = NUL from string]
    decide
  | cons c rest =>
    rw [string.1]
    simpa using relative

/-- An absolute path: the loop starts with the position on its slash. -/
theorem absolute_run {N : Type u} (tree : Tree N) (root workingDir : N) {rest : Text}
    (string : StringAt name 0 ('/' :: rest)) (stack : Int → Char) {turns : Nat} (enough : ('/' :: rest).length < turns) :
    ∃ f, vfsPathResolution tree root workingDir name stack turns = some (resolved tree root workingDir ('/' :: rest),f) ∧
      (f.Intact ↔ Fit tree root (rest.splitOn '/')) := by
  obtain ⟨first,_,later⟩ := string
  rw [vfsPathResolution,if_neg (not_not.mpr first),resolved]
  cases rest with
  | nil =>
    have ends : name 1 = NUL := later
    rw [if_pos ends,if_pos rfl]
    exact ⟨_,rfl,iff_of_true (intact_start stack 0) (fit_single tree root (by decide))⟩
  | cons c rest =>
    obtain ⟨second,real,_⟩ := id later
    have goes : name 1 ≠ NUL := second.trans_ne real
    rw [if_neg goes,if_neg (by simp),if_neg (by simp),if_neg (by simp)]
    obtain ⟨f,ran,kept⟩ := resolveLoop_run tree (f := ⟨stack,0,[]⟩) later (Nat.lt_of_succ_lt enough)
      (Nat.lt_of_succ_lt enough) root
    exact ⟨f,ran,kept.trans (and_iff_right (intact_start stack 0))⟩

/-- A relative path: the loop starts with the position in front of it. -/
theorem relative_run {N : Type u} (tree : Tree N) (root workingDir : N) {s : Text} (string : StringAt name 0 s)
    (relative : s.head? ≠ some '/') (stack : Int → Char) {turns : Nat} (enough : s.length < turns) :
    ∃ f, vfsPathResolution tree root workingDir name stack turns = some (resolved tree root workingDir s,f) ∧
      (f.Intact ↔ Fit tree workingDir (s.splitOn '/')) := by
  have one : strncmp name (literal ['.']) FS_NAME_MAX 0 = 0 ↔ s = ['.'] :=
    strncmp_eq_zero string (literal_stringAt (by decide)) (by decide)
  have two : strncmp name (literal ['.','.']) FS_NAME_MAX 0 = 0 ↔ s = ['.','.'] :=
    strncmp_eq_zero string (literal_stringAt (by decide)) (by decide)
  rw [vfsPathResolution,if_pos (relative_char string relative),resolved]
  by_cases dot : s = ['.']
  · subst dot
    rw [if_pos (one.mpr rfl),if_neg (by decide),if_pos rfl]
    exact ⟨_,rfl,iff_of_true (intact_start stack 0) (fit_single tree workingDir (by decide))⟩
  · by_cases dots : s = ['.','.']
    · subst dots
      rw [if_neg (one.not.mpr dot),if_pos (two.mpr rfl),if_neg (by decide),if_neg (by decide),if_pos rfl]
      exact ⟨_,rfl,iff_of_true (intact_start stack 0) (fit_single tree workingDir (by decide))⟩
    · have notRoot : s ≠ ['/'] := by
        rintro rfl
        exact relative rfl
      rw [if_neg (one.not.mpr dot),if_neg (two.not.mpr dots),if_neg notRoot,if_neg dot,if_neg dots]
      obtain ⟨f,ran,kept⟩ := resolveLoop_run tree (f := ⟨stack,-1,[]⟩) string enough enough workingDir
      simp only [components,start,if_neg relative]
      exact ⟨f,ran,kept.trans (and_iff_right (intact_start stack (-1)))⟩

/-- As many turns as the path has characters, and one more, suffice. -/
theorem vfsPathResolution_run {N : Type u} (tree : Tree N) (root workingDir : N) {s : Text} (string : StringAt name 0 s)
    (stack : Int → Char) {turns : Nat} (enough : s.length < turns) :
    ∃ f, vfsPathResolution tree root workingDir name stack turns = some (resolved tree root workingDir s,f) ∧
      (f.Intact ↔ Fit tree (start root workingDir s) (components s)) := by
  by_cases slash : s.head? = some '/'
  · obtain ⟨rest,rfl⟩ := List.head?_eq_some_iff.mp slash
    exact absolute_run tree root workingDir string stack enough
  · simp only [components,start,if_neg slash]
    exact relative_run tree root workingDir string slash stack enough

theorem fit_of_short {N : Type u} (tree : Tree N) {parts : List Text} (fits : ∀ c ∈ parts, c.length ≤ 127) (node : N) :
    Fit tree node parts := by
  induction parts generalizing node with
  | nil => trivial
  | cons c rest ih =>
    have short := fits c (by simp)
    exact ⟨Nat.lt_succ_of_le short,fun next _ => ih (fun d later => fits d (by simp [later])) next⟩

/-- A path whose components fit is resolved: with enough turns, the code returns
    the node that the path names, and writes its buffer within its bounds. -/
theorem vfsPathResolution_folds {N : Type u} (tree : Tree N) (root workingDir : N) (name stack : Int → Char) {s : Text}
    (string : StringAt name 0 s) (fits : ∀ c ∈ components s, c.length ≤ 127) :
    ∃ enough, ∀ turns ≥ enough, ∃ f,
      vfsPathResolution tree root workingDir name stack turns = some (resolved tree root workingDir s,f) ∧ f.Intact := by
  refine ⟨s.length + 1,?_⟩
  intro turns more
  obtain ⟨f,ran,kept⟩ := vfsPathResolution_run tree root workingDir string stack more
  exact ⟨f,ran,kept.mpr (fit_of_short tree fits _)⟩

/-- A tree of two nodes, the second below the first by the name `a`. -/
def twoNodes : Tree Bool where
  type := fun node => if node then .file else .dir
  finddir := fun _ => some (fun name => if name = ['a'] then some true else if name = [] then some false else none)
  parent := fun _ => some false

/-- An absolute path with an empty component. -/
theorem vfsPathResolution_folds_empty : ∃ enough, ∀ turns ≥ enough, ∃ f,
    vfsPathResolution twoNodes false true (literal ['/','/','a']) (fun _ => 'x') turns = some (some true,f) ∧ f.Intact :=
  vfsPathResolution_folds twoNodes false true (literal ['/','/','a']) (fun _ => 'x')
    (literal_stringAt (by decide)) (by decide)

/-! ### The tree of the kernel -/

/-- A pointer to a node; a stray one is a node of its own. -/
def pointee : Ptr Node → Option (Option Node)
  | .null => none
  | .to node => some (some node)
  | .stray => some none

/-- The pointer to a node. -/
def pointer : Option Node → Ptr Node
  | some node => .to node
  | none => .stray

/-- The nodes of the kernel. What is reached through a stray pointer is stray. -/
def kernelTree (t : Int → Context) : Tree (Option Node) where
  type
    | some node => (fsNode node).type
    | none => .dir
  finddir
    | some node => if (fsNode node).finddir = .null then none else some (fun name => pointee (Vfs.finddir t node name))
    | none => some (fun _ => some none)
  parent
    | some node => pointee (fsNode node).parent
    | none => some none

theorem finddirFs_kernelTree (t : Int → Context) (current : Option Node) (name : Text) :
    finddirFs (kernelTree t) current name = pointee (Vfs.finddirFs t (pointer current) name) := by
  cases current with
  | none =>
    simp only [finddirFs,kernelTree,if_true,pointer,Vfs.finddirFs,pointee,ite_self]
  | some node =>
    simp only [finddirFs,kernelTree,pointer,Vfs.finddirFs]
    by_cases unset : (fsNode node).finddir = .null
    · simp [unset,pointee]
    · by_cases dir : (fsNode node).type = .dir
      · simp only [unset,dir,if_true,if_false,ne_eq,not_false_eq_true,and_self]
        split <;> rfl
      · simp [unset,dir,pointee]

theorem pointee_andThen (found : Ptr Node) (walk : Ptr Node → Ptr Node) :
    pointee (found.andThen walk) = (pointee found).bind (fun next => pointee (walk (pointer next))) := by
  cases found <;> rfl

/-- The walk over the nodes of the kernel is the fold, for components that fit. -/
theorem resolveFrom_fold {t : Int → Context} (n : Nat) {s : Text} (few : s.length < n)
    (fits : ∀ c ∈ s.splitOn '/', c.length ≤ 127) (current : Option Node) :
    pointee (Vfs.resolveFrom t (pointer current) s) = (s.splitOn '/').foldlM (finddirFs (kernelTree t)) current := by
  have short : ∀ part : Text, part.length ≤ 127 → ¬ part.length ≥ FS_NAME_MAX := by
    intro part fit
    simp only [FS_NAME_MAX]
    omega
  induction n generalizing s current with
  | zero => cases few
  | succ n ih =>
    by_cases slash : '/' ∈ s
    · obtain ⟨part,rest,rfl,plain⟩ := List.eq_append_cons_of_mem slash
      have size : part.length + (rest.length + 1) < n + 1 := by simpa using few
      rw [List.splitOn_append_cons_self_of_not_mem plain] at fits ⊢
      rw [Paths.resolveFrom_append rest _ _ part (Nat.lt_succ_self _),Paths.resolveFrom_single plain,
        if_neg (short part (fits part (by simp))),pointee_andThen,List.foldlM_cons,finddirFs_kernelTree]
      exact congrArg (Option.bind _)
        (funext (fun next => ih (by omega) (fun c later => fits c (by simp [later])) next))
    · rw [List.splitOn_eq_singleton slash] at fits ⊢
      rw [Paths.resolveFrom_single slash,if_neg (short s (fits s (by simp)))]
      simp [finddirFs_kernelTree]

/-- The resolution of paths over the nodes of the kernel names the same nodes. -/
theorem vfsPathResolution_kernelTree (t : Int → Context) (workingDir : Node) {s : Text}
    (fits : ∀ c ∈ components s, c.length ≤ 127) :
    pointee (Vfs.vfsPathResolution t workingDir s) = resolved (kernelTree t) (some fsRoot) (some workingDir) s := by
  unfold resolved
  by_cases slash : s.head? = some '/'
  · obtain ⟨rest,rfl⟩ := List.head?_eq_some_iff.mp slash
    cases rest with
    | nil => rfl
    | cons c rest =>
      rw [Paths.vfsPathResolution_absolute workingDir (List.cons_ne_nil c rest),if_neg (by simp),if_neg (by simp),
        if_neg (by simp)]
      exact resolveFrom_fold _ (Nat.lt_succ_self _) fits (some fsRoot)
  · have notRoot : s ≠ ['/'] := by
      rintro rfl
      exact slash rfl
    rw [if_neg notRoot]
    by_cases dot : s = ['.']
    · subst dot
      rfl
    · by_cases dots : s = ['.','.']
      · subst dots
        rfl
      · simp only [components,if_neg slash] at fits
        rw [Paths.vfsPathResolution_relative workingDir slash dot dots,if_neg dot,if_neg dots]
        simp only [components,start,if_neg slash]
        exact resolveFrom_fold _ (Nat.lt_succ_self _) fits (some workingDir)

/-! ### The bounds of the buffer -/

/-- The code writes its buffer within its bounds exactly when all components
    that it looks up fit. -/
theorem vfsPathResolution_intact_iff {N : Type u} (tree : Tree N) (root workingDir : N) (name stack : Int → Char)
    {s : Text} (string : StringAt name 0 s) :
    ∃ enough, ∀ turns ≥ enough, ∃ node f,
      vfsPathResolution tree root workingDir name stack turns = some (node,f) ∧
        (f.Intact ↔ Fit tree (start root workingDir s) (components s)) := by
  refine ⟨s.length + 1,?_⟩
  intro turns more
  obtain ⟨f,ran,kept⟩ := vfsPathResolution_run tree root workingDir string stack more
  exact ⟨_,f,ran,kept⟩

/-- A short name in the directory of the second node. -/
theorem vfsPathResolution_intact_iff_short : ∃ enough, ∀ turns ≥ enough, ∃ node f,
    vfsPathResolution twoNodes false false (literal ['a']) (fun _ => 'x') turns = some (node,f) ∧
      (f.Intact ↔ Fit twoNodes false [['a']]) :=
  vfsPathResolution_intact_iff twoNodes false false (literal ['a']) (fun _ => 'x') (literal_stringAt (by decide))

/-- A name of 128 letters overruns the buffer, also in the tree of the kernel. -/
theorem vfsPathResolution_overruns : ¬ ∀ (t : Int → Context) (workingDir : Node) (name stack : Int → Char) (s : Text),
    StringAt name 0 s → ∀ turns node f,
      vfsPathResolution (kernelTree t) (some fsRoot) (some workingDir) name stack turns = some (node,f) → f.Intact := by
  intro claim
  obtain ⟨long,size,plain,real⟩ : ∃ long : Text, long.length = 128 ∧ '/' ∉ long ∧ NUL ∉ long :=
    ⟨List.replicate 128 'a',List.length_replicate,by simp,by simp [NUL]⟩
  have string := literal_stringAt real
  obtain ⟨f,ran,kept⟩ := vfsPathResolution_run (kernelTree System.zeroed.tabProc) (some fsRoot) (some fsRoot) string
    (fun _ => NUL) (Nat.lt_succ_self _)
  have fits := kept.mp (claim System.zeroed.tabProc fsRoot _ _ long string _ _ f ran)
  rw [components_single plain] at fits
  have short := fits.1
  simp only [size,FS_NAME_MAX,Nat.lt_irrefl] at short

end Psys.Components
