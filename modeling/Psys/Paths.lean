import Psys.Listing

/-!
Paths and their parts: how the resolution of `p/q` relates to that of `q` from
the directory that `p` names, and where `..` leads.
-/
namespace Psys.Paths
open Psys.State Psys.Vfs Psys.Listing

variable {t : Int → Context}

/-! ### The loop of `vfs_path_resolution` -/

/-- What follows a slash is shorter than the name. -/
theorem vfsNextFilename_shorter {name rest : Text} (next : (vfsNextFilename name).2 = some rest) :
    rest.length < name.length := by
  induction name with
  | nil => cases next
  | cons c tail ih =>
    unfold vfsNextFilename at next
    split at next
    · cases next
      exact Nat.lt_succ_self _
    · exact (ih next).trans (Nat.lt_succ_self _)

/-- The first part of a joined path is that of the part in front. -/
theorem vfsNextFilename_append (p q : Text) :
    vfsNextFilename (p ++ '/' :: q) =
      ((vfsNextFilename p).1,some (match (vfsNextFilename p).2 with
        | none => q
        | some rest => rest ++ '/' :: q)) := by
  induction p with
  | nil => rfl
  | cons c tail ih =>
    rw [List.cons_append]
    unfold vfsNextFilename
    by_cases slash : c = '/'
    · rw [if_pos slash,if_pos slash]
    · rw [if_neg slash,if_neg slash,ih]

/-- A name without a slash is one part. -/
theorem vfsNextFilename_single {name : Text} (single : '/' ∉ name) : vfsNextFilename name = (name,none) := by
  induction name with
  | nil => rfl
  | cons c tail ih =>
    rw [List.mem_cons,not_or] at single
    unfold vfsNextFilename
    rw [if_neg (Ne.symm single.1),ih single.2]

/-- Enough turns are as good as any number of them. -/
theorem resolveLoop_turns (n m : Nat) : ∀ (current : Ptr Node) (name : Text), name.length < n → name.length < m →
    resolveLoop t n current name = resolveLoop t m current name := by
  induction n generalizing m with
  | zero =>
    intro current name few
    omega
  | succ n ih =>
    intro current name few enough
    cases m with
    | zero => omega
    | succ m =>
      simp only [resolveLoop]
      cases next : (vfsNextFilename name).2 with
      | none => rfl
      | some rest =>
        have shorter := vfsNextFilename_shorter next
        have same := fun found => ih m found rest (by omega) (by omega)
        simp only [same]

/-- One turn of the loop. -/
theorem resolveFrom_turn (current : Ptr Node) (name : Text) :
    resolveFrom t current name =
      if (vfsNextFilename name).1.length ≥ FS_NAME_MAX then .stray
      else (finddirFs t current (vfsNextFilename name).1).andThen (fun found =>
        match (vfsNextFilename name).2 with
        | none => found
        | some rest => resolveFrom t found rest) := by
  unfold resolveFrom
  rw [resolveLoop]
  cases next : (vfsNextFilename name).2 with
  | none => rfl
  | some rest =>
    have shorter := vfsNextFilename_shorter next
    have same := fun found => resolveLoop_turns (t := t) name.length (rest.length + 1) found rest shorter (by omega)
    simp only [same]

@[simp] theorem andThen_null (walk : Ptr Node → Ptr Node) : Ptr.andThen .null walk = .null := rfl
@[simp] theorem andThen_to (node : Node) (walk : Ptr Node → Ptr Node) : Ptr.andThen (.to node) walk = walk (.to node) := rfl
@[simp] theorem andThen_stray (walk : Ptr Node → Ptr Node) : Ptr.andThen .stray walk = walk .stray := rfl
@[simp] theorem andThen_id (found : Ptr Node) : found.andThen (fun found => found) = found := by cases found <;> rfl

theorem andThen_andThen (found : Ptr Node) (first second : Ptr Node → Ptr Node) :
    (found.andThen first).andThen second = found.andThen (fun found => (first found).andThen second) := by
  cases found <;> rfl

/-- From a stray pointer the loop comes to a stray pointer. -/
theorem resolveFrom_stray (n : Nat) : ∀ name : Text, name.length < n → resolveFrom t .stray name = .stray := by
  induction n with
  | zero =>
    intro name few
    omega
  | succ n ih =>
    intro name few
    rw [resolveFrom_turn]
    split
    · rfl
    have lookup : finddirFs t .stray (vfsNextFilename name).1 = .stray := rfl
    rw [lookup,andThen_stray]
    cases next : (vfsNextFilename name).2 with
    | none => rfl
    | some rest =>
      have shorter := vfsNextFilename_shorter next
      exact ih rest (by omega)

/-- The loop over a joined path is the loop over its first part and, from where
    that leads, over its second. -/
theorem resolveFrom_append (q : Text) (n : Nat) : ∀ (current : Ptr Node) (p : Text), p.length < n →
    resolveFrom t current (p ++ '/' :: q) = (resolveFrom t current p).andThen (fun found => resolveFrom t found q) := by
  induction n with
  | zero =>
    intro current p few
    omega
  | succ n ih =>
    intro current p few
    rw [resolveFrom_turn current (p ++ '/' :: q),resolveFrom_turn current p,vfsNextFilename_append]
    dsimp only
    by_cases long : (vfsNextFilename p).1.length ≥ FS_NAME_MAX
    · rw [if_pos long,if_pos long]
      exact (resolveFrom_stray _ q (Nat.lt_succ_self _)).symm
    rw [if_neg long,if_neg long,andThen_andThen]
    cases next : (vfsNextFilename p).2 with
    | none => cases finddirFs t current (vfsNextFilename p).1 <;> rfl
    | some rest =>
      have shorter := vfsNextFilename_shorter next
      have same := fun found => ih found rest (by omega)
      simp only [same]

/-- A single name is looked up once. -/
theorem resolveFrom_single {name : Text} (single : '/' ∉ name) (current : Ptr Node) :
    resolveFrom t current name = if name.length ≥ FS_NAME_MAX then .stray else finddirFs t current name := by
  rw [resolveFrom_turn,vfsNextFilename_single single]
  simp only [andThen_id]

/-! ### Lookup in directories -/

/-- The directories among the nodes: in `rootfs_entries`, or of a process. -/
theorem dir_cases {d : Node} (dir : (fsNode d).type = .dir) : (∃ i < 18, d = .rootfs i) ∨ ∃ pid, d = .process pid := by
  cases d with
  | rootfs i =>
    refine .inl ⟨i,?_,rfl⟩
    by_contra past
    simp only [fsNode,rootfsEntries_past (by omega : 17 < i)] at dir
    cases dir
  | process pid => exact .inr ⟨pid,rfl⟩
  | console n => cases dir
  | state pid => cases dir
  | parent pid => cases dir
  | name pid => cases dir

/-- Every directory has a callback for lookups. -/
theorem dir_finddir {d : Node} (dir : (fsNode d).type = .dir) : (fsNode d).finddir ≠ .null := by
  rcases dir_cases dir with ⟨i,below,rfl⟩ | ⟨pid,rfl⟩
  · have all : ∀ i < 18, (rootfsEntries i).node.type = .dir → (rootfsEntries i).node.finddir ≠ .null := by decide
    exact all i below dir
  · simp [fsNode,procfsNewNode]

theorem finddirFs_parent {d : Node} (dir : (fsNode d).type = .dir) : finddirFs t (.to d) ['.','.'] = (fsNode d).parent := by
  simp only [finddirFs,dir_finddir dir,dir,ne_eq,not_false_eq_true,and_self,if_true]

theorem finddirFs_other {d : Node} (dir : (fsNode d).type = .dir) {name : Text} (other : name ≠ ['.','.']) :
    finddirFs t (.to d) name = finddir t d name := by
  simp only [finddirFs,dir_finddir dir,dir,other,ne_eq,not_false_eq_true,and_self,if_true,if_false]

/-- Such a name is none of the tree's, but `/dev/vc` reads it as 0. -/
def Unnamed (name : Text) : Prop := name = [] ∨ name = ['.']

theorem Unnamed.strtol {name : Text} (unnamed : Unnamed name) : strtol name = 0 := by
  rcases unnamed with rfl | rfl <;> decide

/-- No directory is found under the empty name or under a dot. -/
theorem unnamed_file {d n : Node} (dir : (fsNode d).type = .dir) {name : Text} (unnamed : Unnamed name)
    (found : finddirFs t (.to d) name = .to n) : (fsNode n).type = .file := by
  have other : name ≠ ['.','.'] := by
    rcases unnamed with rfl | rfl <;> decide
  have zero := unnamed.strtol
  rw [finddirFs_other dir other] at found
  rcases dir_cases dir with ⟨i,below,rfl⟩ | ⟨pid,rfl⟩
  · have kinds : ∀ i < 18, (rootfsEntries i).node.type = .dir → (rootfsEntries i).node.finddir = .to .procfs ∨
        (rootfsEntries i).node.finddir = .to .vc ∨ (rootfsEntries i).node.finddir = .to .rootfs := by decide
    rcases kinds i below dir with procfs | vc | rootfs
    · simp only [finddir,fsNode,procfs,procfsFinddir,zero] at found
      cases found
    · simp only [finddir,fsNode,vc,consoleVcFinddir,zero] at found
      cases found
      rfl
    · simp only [finddir,fsNode,rootfs] at found
      obtain ⟨e,member,named⟩ := (rootfsFinddir_finds _ _ _).mp found
      obtain ⟨j,entry,same⟩ := (mem_rootfsContents _ _).mp member
      have names : ∀ j < 18, (rootfsEntries j).present = true → (rootfsEntries j).node.name ≠ [] ∧
          (rootfsEntries j).node.name ≠ ['.'] := by decide
      have real := names j (present_below entry.1) entry.1
      rw [Prod.mk.injEq] at same
      rw [same.1] at named
      rcases unnamed with rfl | rfl
      · exact absurd named real.1
      · exact absurd named real.2
  · have callback : (fsNode (.process pid)).finddir = .to .procfsSub := rfl
    simp only [finddir,callback,procfsSubFinddir] at found
    rcases unnamed with rfl | rfl <;> cases found

/-! ### Joined paths -/

theorem vfsPathResolution_absolute (wd : Node) {r : Text} (more : r ≠ []) :
    vfsPathResolution t wd ('/' :: r) = resolveFrom t (.to fsRoot) r := by
  simp only [vfsPathResolution,if_true,more,if_false]

theorem vfsPathResolution_dot (wd : Node) : vfsPathResolution t wd ['.'] = .to wd := rfl

theorem vfsPathResolution_parent (wd : Node) : vfsPathResolution t wd ['.','.'] = (fsNode wd).parent := rfl

/-- A relative path other than a dot and two dots is walked from the working
    directory. -/
theorem vfsPathResolution_relative (wd : Node) {p : Text} (relative : p.head? ≠ some '/') (one : p ≠ ['.'])
    (two : p ≠ ['.','.']) : vfsPathResolution t wd p = resolveFrom t (.to wd) p := by
  cases p with
  | nil => rfl
  | cons c r =>
    have start : c ≠ '/' := by simpa using relative
    have notOne : sameName (c :: r) ['.'] ≠ true := by
      rw [sameName_comm]
      exact fun same => one ((sameName_iff (by decide)).mp same).symm
    have notTwo : sameName (c :: r) ['.','.'] ≠ true := by
      rw [sameName_comm]
      exact fun same => two ((sameName_iff (by decide)).mp same).symm
    simp only [vfsPathResolution,start,notOne,notTwo,if_false,Bool.false_eq_true]

theorem joined_ne {p q : Text} {word : Text} (single : '/' ∉ word) : p ++ '/' :: q ≠ word := by
  intro same
  exact single (same ▸ by simp)

/-- Resolving a joined path goes on from the directory that its first part,
    other than a dot, names. -/
theorem vfsPathResolution_join {wd d : Node} {p : Text} (start : p.head? = some '/' ∨ (fsNode wd).type = .dir)
    (ends : p.getLast? ≠ some '/') (first : vfsPathResolution t wd p = .to d) (dir : (fsNode d).type = .dir)
    (one : p ≠ ['.']) (q : Text) : vfsPathResolution t wd (p ++ '/' :: q) = resolveFrom t (.to d) q := by
  have walk : ∀ {from_ : Node} {r : Text}, resolveFrom t (.to from_) r = .to d →
      resolveFrom t (.to from_) (r ++ '/' :: q) = resolveFrom t (.to d) q := by
    intro from_ r reaches
    rw [resolveFrom_append q _ _ r (Nat.lt_succ_self _),reaches,andThen_to]
  cases p with
  | nil =>
    have current := start.resolve_left (by simp)
    have lookup : finddirFs t (.to wd) [] = .to d := by
      have single : resolveFrom t (.to wd) [] = finddirFs t (.to wd) [] := resolveFrom_single (by simp) (.to wd)
      rw [← first]
      exact single.symm
    have file := unnamed_file current (.inl rfl) lookup
    rw [dir] at file
    cases file
  | cons c r =>
    by_cases slash : c = '/'
    · subst slash
      have more : r ≠ [] := by
        rintro rfl
        exact ends rfl
      rw [vfsPathResolution_absolute wd more] at first
      rw [List.cons_append,vfsPathResolution_absolute wd (by simp)]
      exact walk first
    · have current := start.resolve_left (by simpa using slash)
      have relative : ((c :: r) ++ '/' :: q).head? ≠ some '/' := by simpa using slash
      rw [vfsPathResolution_relative wd relative (joined_ne (by decide)) (joined_ne (by decide))]
      apply walk
      by_cases two : c :: r = ['.','.']
      · rw [two] at first ⊢
        rw [resolveFrom_single (by decide),if_neg (by decide),finddirFs_parent current]
        exact first
      · rwa [vfsPathResolution_relative wd (by simpa using slash) one two] at first

/-- A relative path other than a dot is walked from the working directory, two
    dots included. -/
theorem vfsPathResolution_walk {d : Node} {q : Text} (dir : (fsNode d).type = .dir) (relative : q.head? ≠ some '/')
    (one : q ≠ ['.']) : vfsPathResolution t d q = resolveFrom t (.to d) q := by
  by_cases two : q = ['.','.']
  · rw [two,vfsPathResolution_parent,resolveFrom_single (by decide),if_neg (by decide),finddirFs_parent dir]
  · exact vfsPathResolution_relative d relative one two

/-- From a file the loop leads nowhere. -/
theorem resolveFrom_file {f n : Node} (file : (fsNode f).type = .file) (q : Text) :
    resolveFrom t (.to f) q ≠ .to n := by
  rw [resolveFrom_turn]
  split
  · simp
  · have lookup : finddirFs t (.to f) (vfsNextFilename q).1 = .null := by simp [finddirFs,file]
    rw [lookup]
    simp

/-- A dot that begins a longer path leads nowhere. -/
theorem dot_nowhere {d n : Node} (dir : (fsNode d).type = .dir) (q : Text) :
    vfsPathResolution t d ('.' :: '/' :: q) ≠ .to n := by
  have whole : '.' :: '/' :: q = ['.'] ++ '/' :: q := rfl
  rw [vfsPathResolution_relative d (by simp) (by simp) (by simp),whole,
    resolveFrom_append q _ _ _ (Nat.lt_succ_self _),resolveFrom_single (by decide),if_neg (by decide)]
  rcases found : finddirFs t (.to d) ['.'] with _ | f | _
  · simp
  · exact resolveFrom_file (unnamed_file dir (.inr rfl) found) q
  · rw [andThen_stray,resolveFrom_stray _ q (Nat.lt_succ_self _)]
    simp

/-- After a successful `chdir` the working directory is the one resolved. -/
theorem chdir_moved {wd d : Node} {p : Text} (moved : chdir t wd p = (0,d)) :
    vfsPathResolution t wd p = .to d ∧ (fsNode d).type = .dir := by
  unfold chdir at moved
  split at moved
  case h_1 node resolved =>
    split at moved
    case isTrue dir =>
      cases moved
      exact ⟨resolved,dir⟩
    case isFalse => cases moved
  case h_2 => cases moved

/-- A path with slashes goes on from the directory that its front names, unless
    the front or the rest is a dot: a rest that is a dot never resolves to the
    directory, and after a front that is a dot nothing is found. -/
theorem vfsPathResolution_splits {wd d : Node} {p q : Text} (current : (fsNode wd).type = .dir)
    (ends : p.getLast? ≠ some '/') (moved : chdir t wd p = (0,d)) (relative : q.head? ≠ some '/') :
    (p ≠ ['.'] ∧ q ≠ ['.'] → vfsPathResolution t wd (p ++ '/' :: q) = vfsPathResolution t d q) ∧
      (vfsPathResolution t wd (p ++ '/' :: q) = vfsPathResolution t d q →
        q ≠ ['.'] ∧ (p = ['.'] → ∀ n, vfsPathResolution t d q ≠ .to n)) := by
  obtain ⟨first,dir⟩ := chdir_moved moved
  constructor
  · rintro ⟨one,rest⟩
    rw [vfsPathResolution_join (.inr current) ends first dir one q,vfsPathResolution_walk dir relative rest]
  · intro same
    have front : p = ['.'] → ∀ n, vfsPathResolution t d q ≠ .to n := by
      rintro rfl n resolved
      exact dot_nowhere current q (same.trans resolved)
    refine ⟨?_,front⟩
    rintro rfl
    by_cases one : p = ['.']
    · exact front one d (vfsPathResolution_dot d)
    · rw [vfsPathResolution_join (.inr current) ends first dir one,resolveFrom_single (by decide),if_neg (by decide),
        vfsPathResolution_dot] at same
      have file := unnamed_file dir (.inr rfl) same
      rw [dir] at file
      cases file

/-- `/dev` and `vc/2` after the start. -/
theorem vfsPathResolution_splits_dev :
    vfsPathResolution System.zeroed.tabProc fsRoot ['/','d','e','v','/','v','c','/','2'] =
      vfsPathResolution System.zeroed.tabProc (.rootfs 8) ['v','c','/','2'] :=
  (vfsPathResolution_splits (p := ['/','d','e','v']) (by decide) (by decide) (by decide)
    (by decide)).1 ⟨by decide,by decide⟩

/-- `/dev/.` is not found, though `.` is the current directory in `/dev`. -/
theorem vfsPathResolution_splits_dot : ¬ ∀ (t : Int → Context) (wd d : Node) (p q : Text), (fsNode wd).type = .dir →
    p.getLast? ≠ some '/' → chdir t wd p = (0,d) → q ≠ [] → q.head? ≠ some '/' →
    vfsPathResolution t wd (p ++ '/' :: q) = vfsPathResolution t d q := by
  intro claim
  have same := claim System.zeroed.tabProc fsRoot (.rootfs 8) ['/','d','e','v'] ['.'] (by decide) (by decide)
    (by decide) (by decide) (by decide)
  have missing : vfsPathResolution System.zeroed.tabProc fsRoot (['/','d','e','v'] ++ ['/','.']) = .null := by
    decide
  rw [missing,vfsPathResolution_dot] at same
  cases same

/-! ### Two dots -/

/-- A path below a directory: `p/c`, and `/c` below the root. -/
def below (p c : Text) : Text := if p = ['/'] then '/' :: c else p ++ '/' :: c

/-- The name of an entry: not empty, and without a slash. -/
def IsName (c : Text) : Prop := c ≠ [] ∧ '/' ∉ c

/-- A path with a slash at its end leads to a file or nowhere. -/
theorem resolveFrom_slash {d : Node} (current : Ptr Node) (r : Text)
    (resolved : resolveFrom t current (r ++ '/' :: []) = .to d) : (fsNode d).type = .file := by
  rw [resolveFrom_append [] _ _ r (Nat.lt_succ_self _)] at resolved
  rcases front : resolveFrom t current r with _ | n | _ <;> rw [front] at resolved
  · cases resolved
  · rw [andThen_to,resolveFrom_single (by simp),if_neg (by decide)] at resolved
    cases type : (fsNode n).type with
    | dir => exact unnamed_file type (.inl rfl) resolved
    | file =>
      have nothing : finddirFs t (.to n) [] = .null := by simp [finddirFs,type]
      rw [nothing] at resolved
      cases resolved
  · rw [andThen_stray,resolveFrom_stray _ [] (Nat.lt_succ_self _)] at resolved
    cases resolved

/-- An absolute path that resolves to a directory has no slash at its end,
    unless it is the root. -/
theorem absolute_ends {wd d : Node} {p : Text} (absolute : p.head? = some '/')
    (resolved : vfsPathResolution t wd p = .to d) (dir : (fsNode d).type = .dir) (long : p ≠ ['/']) :
    p.getLast? ≠ some '/' := by
  intro ends
  obtain ⟨front,rfl⟩ := List.getLast?_eq_some_iff.mp ends
  cases front with
  | nil => exact long rfl
  | cons c r =>
    have slash : c = '/' := by simpa using absolute
    subst slash
    rw [List.cons_append,vfsPathResolution_absolute wd (by simp)] at resolved
    have file := resolveFrom_slash _ r resolved
    rw [dir] at file
    cases file

theorem below_head {p : Text} (absolute : p.head? = some '/') (c : Text) : (below p c).head? = some '/' := by
  unfold below
  split
  · rfl
  · cases p with
    | nil => cases absolute
    | cons first rest => exact absolute

/-- A path below a directory is resolved from the directory. -/
theorem vfsPathResolution_below {wd d : Node} {p q : Text} (absolute : p.head? = some '/')
    (first : vfsPathResolution t wd p = .to d) (dir : (fsNode d).type = .dir) (some_ : q ≠ []) :
    vfsPathResolution t wd (below p q) = resolveFrom t (.to d) q := by
  unfold below
  split
  case isTrue root =>
    subst root
    cases first
    exact vfsPathResolution_absolute wd some_
  case isFalse long =>
    have dot : p ≠ ['.'] := by
      rintro rfl
      cases absolute
    exact vfsPathResolution_join (.inl absolute) (absolute_ends absolute first dir long) first dir dot q

/-- A directory that lookup finds has the directory searched for its parent,
    but that of a process has an unset one. -/
theorem parent_of_found {d e : Node} (dir : (fsNode d).type = .dir) {c : Text}
    (found : finddir t d c = .to e) (dirE : (fsNode e).type = .dir) :
    (fsNode e).parent = if d = vfsProcfsRoot then .stray else .to d := by
  rcases dir_cases dir with ⟨i,small,rfl⟩ | ⟨pid,rfl⟩
  · have kinds : ∀ i < 18, (rootfsEntries i).node.type = .dir → (i = 1 ∧ (rootfsEntries i).node.finddir = .to .procfs) ∨
        i ≠ 1 ∧ ((rootfsEntries i).node.finddir = .to .vc ∨ (rootfsEntries i).node.finddir = .to .rootfs) := by
      decide
    rcases kinds i small dir with ⟨rfl,procfs⟩ | ⟨other,vc | rootfs⟩
    · rw [if_pos (by rfl)]
      simp only [finddir,fsNode,procfs,procfsFinddir] at found
      split at found
      · cases found
      split at found
      · cases found
      · cases found
        rfl
    · simp only [finddir,fsNode,vc,consoleVcFinddir] at found
      split at found
      · cases found
      · cases found
        cases dirE
    · rw [if_neg (by simpa [vfsProcfsRoot] using other)]
      simp only [finddir,fsNode,rootfs] at found
      obtain ⟨_,member,_⟩ := (rootfsFinddir_finds _ _ _).mp found
      obtain ⟨j,entry,same⟩ := (mem_rootfsContents _ _).mp member
      rw [Prod.mk.injEq] at same
      rw [same.2]
      exact entry.2
  · have callback : (fsNode (.process pid)).finddir = .to .procfsSub := rfl
    simp only [finddir,callback,procfsSubFinddir,ofProcess] at found
    repeat' split at found
    all_goals cases found
    all_goals cases dirE

/-- Two dots after the name of a directory lead back, except out of the
    directories of processes. -/
theorem parent_returns {wd d e : Node} {p c : Text} (absolute : p.head? = some '/')
    (first : vfsPathResolution t wd p = .to d) (dir : (fsNode d).type = .dir) (name : IsName c) (other : c ≠ ['.','.'])
    (second : vfsPathResolution t wd (below p c) = .to e) (dirE : (fsNode e).type = .dir) :
    vfsPathResolution t wd (below (below p c) ['.','.']) = .to d ↔ d ≠ vfsProcfsRoot := by
  have found : finddir t d c = .to e := by
    rw [vfsPathResolution_below absolute first dir name.1,resolveFrom_single name.2] at second
    split at second
    · cases second
    · rwa [finddirFs_other dir other] at second
  rw [vfsPathResolution_below (below_head absolute c) second dirE (by decide),resolveFrom_single (by decide),
    if_neg (by decide),finddirFs_parent dirE,parent_of_found dir found dirE]
  by_cases proc : d = vfsProcfsRoot
  · simp [proc]
  · simp [proc]

/-- From `/dev/vc` back to `/dev`. -/
theorem parent_returns_dev : vfsPathResolution System.zeroed.tabProc fsRoot
    (below (below ['/','d','e','v'] ['v','c']) ['.','.']) = .to (.rootfs 8) :=
  (parent_returns (e := devVc) (by decide) (by decide) (by decide) ⟨by decide,by decide⟩ (by decide)
    (by decide) (by decide)).mpr (by decide)

/-- `/proc/1/..` is not `/proc` after the start. -/
theorem parent_unset : ¬ ∀ (t : Int → Context) (wd d e : Node) (p c : Text), p.head? = some '/' →
    vfsPathResolution t wd p = .to d → (fsNode d).type = .dir → IsName c → c ≠ ['.','.'] →
    vfsPathResolution t wd (below p c) = .to e → (fsNode e).type = .dir →
    vfsPathResolution t wd (below (below p c) ['.','.']) = .to d := by
  intro claim
  have back := claim System.zeroed.tabProc fsRoot vfsProcfsRoot (.process 1) ['/','p','r','o','c'] ['1'] (by decide)
    (by decide) (by decide) ⟨by decide,by decide⟩ (by decide) (by decide) (by decide)
  have unset : vfsPathResolution System.zeroed.tabProc fsRoot (below (below ['/','p','r','o','c'] ['1']) ['.','.']) =
      .stray := by decide
  rw [unset] at back
  cases back

end Psys.Paths
