import RustyClaw.Library.FileTree
import RustyClaw.Tools.Sandbox

/-!
# The path guard and the files behind it

`check_path_access` resolves what is there of a path, and keeps the rest as it is written; then
`write_file` makes the directories that are missing, and the operating system follows the path
itself.  `confined_of_granted` says that both come to the same place, on every disk: a write that a
restricted policy grants ends in a file below a writable path and below no hidden one, and what a
granted read returns is no hidden file.

An unrestricted policy grants everything.  And three kinds of paths are followed to another place
than they are resolved to: a path with `..` behind a directory that is missing, a path that ends in
a link to something that is missing, and a hidden path that is of one of these kinds, or relative
with nothing in front.
-/

namespace RustyClaw.Sandbox

open UnixPath FileTree

/-! ## The tools on a disk -/

/-- The host of a process with a disk.  The path guard consults nothing else. -/
def diskHost (disk : Disk) : Host where
  currentDir := some (toPath disk.cwd)
  homeDir := none
  canonicalize := disk.canonicalize
  toLowercase text := text.map Char.toLower
  isAbsolute_currentDir := by
    rintro dir ⟨⟩
    rfl
  isAbsolute_canonicalize := by
    intro path canonical h
    obtain ⟨place, -, rfl⟩ := Option.map_eq_some_iff.mp h
    rfl
  canonicalize_nil := rfl
  canonicalize_relative path hrelative hne := by
    have hjoin : disk.reaches ((toPath disk.cwd).join path) = disk.reaches path :=
      Option.ext fun _ => Disk.reaches_join hrelative hne
    simp [Disk.canonicalize, hjoin]
  toLowercase_nil := List.map_nil

/-- Why a file tool gives up. -/
inductive FileFailure where
  | denied (violation : SandboxViolation)
  | io (error : OsError)
  deriving DecidableEq

/-- `Path::parent`. -/
def parent (path : UnixPath) : Option UnixPath :=
  match path.getLast? with
  | none | some .rootDir => none
  | some _ => some path.dropLast

def createParent (disk : Disk) (path : UnixPath) : Disk :=
  match parent path with
  | none => disk
  | some above => (disk.createDirAll above).1

/-- What `write_file` leaves, and the place it has written to. -/
def writeFile (disk : Disk) (policy : SandboxPolicy) (path content : List Char) :
    Disk × Except FileFailure Place :=
  match checkPathAccess (diskHost disk) (parse path) true policy with
  | .error violation => (disk, .error (.denied violation))
  | .ok () =>
    match (createParent disk (parse path)).write (parse path) content with
    | .ok (disk', place) => (disk', .ok place)
    | .error e => (createParent disk (parse path), .error (.io e))

/-- What `read_file` has read, and where. -/
def readFile (disk : Disk) (policy : SandboxPolicy) (path : List Char) :
    Except FileFailure (List Char × Place) :=
  match checkPathAccess (diskHost disk) (parse path) false policy with
  | .error violation => .error (.denied violation)
  | .ok () =>
    match disk.read (parse path) with
    | .ok (content, place) => .ok (content, place)
    | .error e => .error (.io e)

/-! ## Paths that are followed as they are resolved -/

/-- The place is what the path leads to, or is below it.  Everything is below the empty path, as
`Path::starts_with` has it. -/
def Below (disk : Disk) (place : Place) (path : UnixPath) : Prop :=
  path = [] ∨ ∃ base ∈ disk.reaches path, base <+: place

instance (disk : Disk) (place : Place) (path : UnixPath) : Decidable (Below disk place path) :=
  inferInstanceAs (Decidable (path = [] ∨ ∃ base ∈ disk.reaches path, base <+: place))

def isNormal : PathComponent → Bool
  | .normal _ => true
  | _ => false

/-- If the path leaves what is there at this name, nothing stands there, not even a link, and only
names stand behind. -/
def SettledAt (disk : Disk) (front : UnixPath) : UnixPath → Prop
  | .normal name :: back => ∀ place ∈ disk.reaches front, disk.tree.node place = some .dir →
      disk.reaches (front ++ [.normal name]) = none →
        disk.tree.node (place ++ [name]) = none ∧ ∀ component ∈ back, isNormal component = true
  | _ => True

instance (disk : Disk) (front back : UnixPath) : Decidable (SettledAt disk front back) :=
  match back with
  | .normal name :: back => inferInstanceAs (Decidable (∀ place ∈ disk.reaches front,
      disk.tree.node place = some .dir → disk.reaches (front ++ [.normal name]) = none →
        disk.tree.node (place ++ [name]) = none ∧ ∀ component ∈ back, isNormal component = true))
  | [] | .rootDir :: _ | .curDir :: _ | .parentDir :: _ => isTrue trivial

/-- What is missing of the path can only be made as it is written. -/
def Settled (disk : Disk) (path : UnixPath) : Prop :=
  ∀ i < path.length, SettledAt disk (path.take i) (path.drop i)

instance (disk : Disk) (path : UnixPath) : Decidable (Settled disk path) :=
  inferInstanceAs (Decidable (∀ i < path.length, SettledAt disk (path.take i) (path.drop i)))

/-- The first component of the path is there, and no other one is the root: an absolute path, or a
relative one that begins with something that exists. -/
def Anchored (disk : Disk) (path : UnixPath) : Prop :=
  ∃ first rest, path = first :: rest ∧ PathComponent.rootDir ∉ rest ∧ disk.reaches [first] ≠ none

/-! ## The loop of `resolve_for_access_check` -/

section Resolve

variable {host : Host} {above tail path canonical : UnixPath}

/-- What the loop finds: the longest part of the path that exists. -/
lemma resolveLoop_eq_some (h : resolveLoop host above tail = some path) :
    ∃ front back canonical, above.reverse = front ++ back ∧
      host.canonicalize front = some canonical ∧ PathComponent.rootDir ∉ back ∧
      path = (if back ++ tail = [] then canonical else canonical.join (back ++ tail)) ∧
      ∀ first rest, back = first :: rest → host.canonicalize (front ++ [first]) = none := by
  induction above generalizing tail with
  | nil => simp [resolveLoop, host.canonicalize_nil] at h
  | cons component above ih =>
    cases hc : host.canonicalize (component :: above).reverse with
    | some canonical =>
      rw [resolveLoop_of_canonicalize (by simp) hc] at h
      exact ⟨_, [], canonical, (List.append_nil _).symm, hc, List.not_mem_nil,
        (Option.some.inj h).symm, fun _ _ heq => (List.cons_ne_nil _ _ heq.symm).elim⟩
    | none =>
      have hroot : component ≠ .rootDir := by
        rintro rfl
        simp only [resolveLoop, hc, if_true, reduceCtorEq] at h
      rw [resolveLoop_of_canonicalize_none hc hroot] at h
      obtain ⟨front, back, canonical, habove, hfront, hback, hpath, hnext⟩ := ih h
      refine ⟨front, back ++ [component], canonical, ?_, hfront, ?_, ?_, ?_⟩
      · rw [List.reverse_cons, habove, List.append_assoc]
      · simp [hback, Ne.symm hroot]
      · simpa using hpath
      · intro first rest heq
        cases back with
        | nil =>
          obtain ⟨rfl, -⟩ := List.cons.inj heq
          rwa [List.reverse_cons, habove, List.append_nil] at hc
        | cons first' back =>
          obtain ⟨rfl, -⟩ := List.cons.inj heq
          exact hnext _ _ rfl

lemma resolveLoop_ne_none {first : PathComponent} {rest : UnixPath}
    (hfirst : host.canonicalize [first] ≠ none) (hrest : PathComponent.rootDir ∉ rest) :
    resolveLoop host (first :: rest).reverse tail ≠ none := by
  induction rest using List.reverseRecOn generalizing tail with
  | nil =>
    obtain ⟨canonical, hc⟩ := Option.ne_none_iff_exists'.mp hfirst
    rw [resolveLoop_of_canonicalize (by simp) hc]
    simp
  | append_singleton rest last ih =>
    simp only [List.mem_append, List.mem_singleton, not_or] at hrest
    have hreverse : (first :: (rest ++ [last])).reverse = last :: (first :: rest).reverse := by
      simp
    rw [hreverse]
    cases hc : host.canonicalize (last :: (first :: rest).reverse).reverse with
    | some canonical =>
      rw [resolveLoop_of_canonicalize (by simp) hc]
      simp
    | none =>
      rw [resolveLoop_of_canonicalize_none hc (Ne.symm hrest.2)]
      exact ih hrest.1

end Resolve

/-! ## Where a resolved path leads -/

section Follow

variable {disk disk' : Disk} {path front back : UnixPath} {place : Place}

lemma canonicalize_eq_some {canonical : UnixPath} :
    (diskHost disk).canonicalize path = some canonical ↔
      ∃ place, disk.reaches path = some place ∧ toPath place = canonical := Option.map_eq_some_iff

lemma canonicalize_eq_none :
    (diskHost disk).canonicalize path = none ↔ disk.reaches path = none := Option.map_eq_none_iff

lemma reaches_root : disk.reaches [.rootDir] = some [] :=
  Disk.reaches_iff.mpr ⟨List.cons_ne_nil _ _, maxLinks, by simp⟩

lemma Settled.at (h : Settled disk (front ++ back)) (hne : back ≠ []) :
    SettledAt disk front back := by
  have hlt : front.length < (front ++ back).length := by
    rw [List.length_append]
    exact Nat.lt_add_of_pos_right (List.length_pos_of_ne_nil hne)
  simpa using h front.length hlt

lemma eq_map_normal (h : ∀ component ∈ path, isNormal component = true) :
    ∃ names : Place, path = names.map .normal := by
  induction path with
  | nil => exact ⟨[], rfl⟩
  | cons component path ih =>
    obtain ⟨names, rfl⟩ := ih fun other hother => h other (List.mem_cons_of_mem _ hother)
    cases component with
    | normal name => exact ⟨name :: names, rfl⟩
    | rootDir | curDir | parentDir => exact absurd (h _ List.mem_cons_self) (by decide)

lemma filter_map_normal (names : Place) :
    (names.map PathComponent.normal).filter (· ≠ .curDir) = names.map .normal := by
  simp [List.filter_eq_self]

/-- A path that leads on from a place by one more component. -/
lemma reaches_append (hback : back ≠ []) : disk.reaches (front ++ back) = some place ↔
    ∃ mid, walk disk.tree false maxLinks disk.cwd front = .ok mid ∧
      ∃ left, walk disk.tree false mid.1 mid.2 back = .ok (left, place) := by
  rw [Disk.reaches_iff]
  simp only [walk_append_eq_ok (.inr rfl)]
  constructor
  · rintro ⟨-, left, mid, hmid, hwalk⟩
    exact ⟨mid, hmid, left, hwalk⟩
  · rintro ⟨mid, hmid, left, hwalk⟩
    exact ⟨by simp [hback], left, mid, hmid, hwalk⟩

/-- What is missing of a settled path is there, once there is more on the disk, where it was written
to be. -/
lemma place_of_settled (hgrows : disk.Grows disk') {component : PathComponent} {base : Place}
    (hsettled : Settled disk (front ++ component :: back)) (hfront : disk.reaches front = some base)
    (hmissing : disk.reaches (front ++ [component]) = none) (hroot : component ≠ .rootDir)
    (h : disk'.reaches (front ++ component :: back) = some place) :
    toPath place = toPath base ++ (component :: back).filter (· ≠ .curDir) := by
  obtain ⟨hne, left, hwalk⟩ := Disk.reaches_iff.mp hfront
  obtain ⟨mid, hmid, last, hlast⟩ := (reaches_append (List.cons_ne_nil _ _)).mp h
  have hmid' : mid = (left, base) := by
    have hgrown := walk_grown hgrows.tree hwalk nofun
    rw [hgrows.cwd, hgrown] at hmid
    exact (Except.ok.inj hmid).symm
  subst hmid'
  -- a component that leads on from the base would have done so before
  have hstuck : ∀ next, walk disk.tree false left base [component] ≠ .ok next := by
    intro next hnext
    have hreaches : disk.reaches (front ++ [component]) = some next.2 :=
      (reaches_append (List.cons_ne_nil _ _)).mpr ⟨_, hwalk, next.1, hnext⟩
    rw [hmissing] at hreaches
    cases hreaches
  have hdir_of : disk'.tree.node base = some .dir → disk.tree.node base = some .dir := by
    intro hdir'
    rcases Disk.solid_of_reaches hfront with hdir | ⟨content, hfile⟩
    · exact hdir
    · obtain ⟨content', hfile'⟩ := hgrows.tree.file base content hfile
      rw [hdir'] at hfile'
      cases hfile'
  cases component with
  | rootDir => exact absurd rfl hroot
  | curDir => exact absurd (by simp) (hstuck (left, base))
  | parentDir =>
    obtain ⟨hdir', -⟩ := walk_parentDir_eq_ok.mp hlast
    refine absurd ?_ (hstuck (left, base.dropLast))
    exact walk_parentDir_eq_ok.mpr ⟨hdir_of hdir', walk_nil⟩
  | normal name =>
    obtain ⟨hdir', -⟩ := walk_normal_eq_ok.mp hlast
    obtain ⟨hnone, hnames⟩ :=
      hsettled.at (List.cons_ne_nil _ _) base hfront (hdir_of hdir') hmissing
    obtain ⟨names, rfl⟩ := eq_map_normal hnames
    have hlinks : ∀ rest target,
        disk'.tree.node (base ++ [name] ++ rest) ≠ some (.link target) := by
      intro rest target
      refine hgrows.tree.fresh _ target ?_
      by_contra hsome
      by_cases hrest : rest = []
      · rw [hrest, List.append_nil] at hsome
        exact hsome hnone
      · have hdir := node_eq_dir hsome hrest
        rw [hnone] at hdir
        cases hdir
    obtain ⟨-, ⟨-, hcreate, -⟩ | ⟨target, n, hlink, -⟩ | ⟨-, hrest⟩⟩ := walk_normal_eq_ok.mp hlast
    · cases hcreate
    · exact absurd hlink (by simpa using hlinks [] target)
    · have hplace := congrArg Prod.snd (eq_of_walk_names hlinks hrest)
      dsimp only at hplace
      rw [hplace, ← List.map_cons, filter_map_normal]
      simp [toPath]

/-- A settled path leads, once there is more on the disk, to the place that it has been resolved
to. -/
lemma resolve_eq_toPath (hgrows : disk.Grows disk') (hsettled : Settled disk path)
    (hanchored : Anchored disk path) (h : disk'.reaches path = some place) :
    resolveForAccessCheck (diskHost disk) path = toPath place := by
  obtain ⟨first, rest, rfl, hrest, hfirst⟩ := hanchored
  have hfirst' : (diskHost disk).canonicalize [first] ≠ none := fun hnone =>
    hfirst (canonicalize_eq_none.mp hnone)
  have hfound : resolveLoop (diskHost disk) (first :: rest).reverse [] ≠ none :=
    resolveLoop_ne_none hfirst' hrest
  obtain ⟨resolved, hresolved⟩ := Option.ne_none_iff_exists'.mp hfound
  rw [resolveForAccessCheck, hresolved, Option.getD_some]
  obtain ⟨front, back, canonical, hpath, hfront, hback, hjoin, hnext⟩ :=
    resolveLoop_eq_some hresolved
  rw [List.reverse_reverse] at hpath
  obtain ⟨base, hbase, rfl⟩ := canonicalize_eq_some.mp hfront
  rw [List.append_nil, join_tail rfl hback] at hjoin
  rw [hjoin]
  rw [hpath] at hsettled h
  cases back with
  | nil =>
    rw [List.append_nil] at h
    rw [Disk.reaches_grows hgrows hbase] at h
    obtain rfl := Option.some.inj h
    simp
  | cons component back =>
    have hmissing := canonicalize_eq_none.mp (hnext component back rfl)
    have hroot : component ≠ .rootDir := by
      rintro rfl
      exact hback List.mem_cons_self
    exact (place_of_settled hgrows hsettled hbase hmissing hroot h).symm

lemma prefix_toPath {base : Place} (h : toPath base ++ path <+: toPath place) :
    ∃ names, path = names.map .normal ∧ base ++ names <+: place := by
  rw [toPath, toPath, List.cons_append, List.cons_prefix_cons] at h
  obtain ⟨rest, hrest⟩ := h.2
  obtain ⟨below, others, rfl, hbelow, -⟩ := List.map_eq_append_iff.mp hrest.symm
  obtain ⟨base', names, rfl, hbase, hnames⟩ := List.map_eq_append_iff.mp hbelow
  have hinj : Function.Injective PathComponent.normal := fun a b heq => PathComponent.normal.inj heq
  obtain rfl := hinj.list_map hbase
  exact ⟨names, hnames.symm, List.prefix_append _ _⟩

/-- What is below the place of a path is below the path, once it is there. -/
lemma below_of_prefix (hgrows : disk.Grows disk') (hplace : disk'.tree.Solid place)
    (h : resolveForAccessCheck (diskHost disk) path <+: toPath place) : Below disk' place path := by
  unfold resolveForAccessCheck at h
  cases hresolved : resolveLoop (diskHost disk) path.reverse [] with
  | none =>
    rw [hresolved, Option.getD_none] at h
    cases path with
    | nil => exact .inl rfl
    | cons first rest =>
      -- an absolute path resolves, for there is a root
      obtain ⟨rfl, hrest⟩ := List.cons_prefix_cons.mp h
      have hroot : PathComponent.rootDir ∉ rest := fun hmem => by
        obtain ⟨name, -, hname⟩ := List.mem_map.mp (hrest.subset hmem)
        cases hname
      have hfirst : (diskHost disk).canonicalize [.rootDir] ≠ none := by
        rw [Ne, canonicalize_eq_none, reaches_root]
        nofun
      exact absurd hresolved (resolveLoop_ne_none hfirst hroot)
  | some resolved =>
    rw [hresolved, Option.getD_some] at h
    obtain ⟨front, back, canonical, hpath, hfront, hback, hjoin, -⟩ := resolveLoop_eq_some hresolved
    rw [List.reverse_reverse] at hpath
    obtain ⟨base, hbase, rfl⟩ := canonicalize_eq_some.mp hfront
    rw [List.append_nil, join_tail rfl hback] at hjoin
    rw [hjoin] at h
    obtain ⟨names, hnames, hprefix⟩ := prefix_toPath h
    obtain ⟨hne, left, hwalk⟩ := Disk.reaches_iff.mp (Disk.reaches_grows hgrows hbase)
    refine .inr ⟨base ++ names, Disk.reaches_iff.mpr ⟨?_, left, ?_⟩, hprefix⟩
    · simp [hpath, hne]
    · obtain ⟨rest, hrest⟩ := hprefix
      have hsolid : disk'.tree.Solid (base ++ names) := by
        rw [← hrest] at hplace
        exact hplace.above
      rw [hpath, walk_append_eq_ok (.inr rfl)]
      refine ⟨_, hwalk, walk_filter_eq_ok.mp ?_⟩
      rw [hnames]
      exact walk_names hsolid


/-! ### Requested paths -/

lemma rootDir_not_mem_filterMap (parts : List (List Char)) :
    PathComponent.rootDir ∉ parts.filterMap parsePart := by
  intro hmem
  obtain ⟨part, -, hpart⟩ := List.mem_filterMap.mp hmem
  unfold parsePart at hpart
  split_ifs at hpart <;> cases hpart

lemma anchored_candidate (text : List Char) :
    Anchored disk (candidate (diskHost disk) (parse text)) := by
  have hroot : disk.reaches [.rootDir] ≠ none := by simp [reaches_root]
  unfold candidate
  split_ifs with habsolute
  · unfold parse at habsolute ⊢
    dsimp only at habsolute ⊢
    have hnot := rootDir_not_mem_filterMap (text.splitOn '/')
    split_ifs at habsolute ⊢
    · exact ⟨_, _, rfl, hnot, hroot⟩
    · have hcur : PathComponent.rootDir ∉ .curDir :: (text.splitOn '/').filterMap parsePart :=
        List.not_mem_cons_of_ne_of_not_mem nofun hnot
      rw [isAbsolute_eq_false.mpr hcur] at habsolute
      cases habsolute
    · rw [isAbsolute_eq_false.mpr hnot] at habsolute
      cases habsolute
  · refine ⟨.rootDir, disk.cwd.map .normal ++ (parse text).filter (· ≠ .curDir), ?_, ?_, hroot⟩
    · simp [diskHost, join, habsolute, toPath]
    · have hrelative : PathComponent.rootDir ∉ parse text := by
        simpa [isAbsolute] using habsolute
      simp [hrelative]

lemma reaches_candidate (hcwd : disk'.cwd = disk.cwd) (h : disk'.reaches path = some place) :
    disk'.reaches (candidate (diskHost disk) path) = some place := by
  unfold candidate
  split_ifs with habsolute
  · exact h
  · have hne : path ≠ [] := (Disk.reaches_iff.mp h).1
    have hjoin : disk'.reaches ((toPath disk'.cwd).join path) = some place :=
      (Disk.reaches_join (by simpa using habsolute) hne).mpr h
    rwa [hcwd] at hjoin

/-- A path that is there is resolved to its place. -/
lemma resolve_of_reaches (h : disk.reaches path = some place) :
    resolveForAccessCheck (diskHost disk) path = toPath place := by
  have hne : path ≠ [] := (Disk.reaches_iff.mp h).1
  have hcanonical : (diskHost disk).canonicalize path.reverse.reverse = some (toPath place) := by
    rw [List.reverse_reverse]
    exact canonicalize_eq_some.mpr ⟨place, h, rfl⟩
  rw [resolveForAccessCheck, resolveLoop_of_canonicalize (by simpa using hne) hcanonical]
  rfl

end Follow

/-! ## Confinement -/

section Confinement

variable {disk : Disk} {policy : SandboxPolicy} {path content : List Char} {place : Place}

lemma createParent_addsDirs (disk : Disk) (path : UnixPath) :
    disk.AddsDirs (createParent disk path) := by
  unfold createParent
  split
  · exact .refl disk
  · exact disk.createDirAll_addsDirs _

/-- A write that succeeds has been granted; it is one to the disk with the directories that were
missing. -/
lemma writeFile_spec (h : (writeFile disk policy path content).2 = .ok place) :
    checkPathAccess (diskHost disk) (parse path) true policy = .ok () ∧
      (createParent disk (parse path)).write (parse path) content =
        .ok ((writeFile disk policy path content).1, place) := by
  unfold writeFile at h ⊢
  split at h
  · cases h
  · next hgranted =>
    split at h
    · next hwrite =>
      cases h
      rw [hgranted]
      exact ⟨rfl, by rw [hwrite]⟩
    · cases h

/-- What has been written is the only file that is not as it was, and what else is new is a
directory. -/
theorem node_writeFile (h : (writeFile disk policy path content).2 = .ok place) (other : Place) :
    if other = place then
      (writeFile disk policy path content).1.tree.node other = some (.file content)
    else
      (writeFile disk policy path content).1.tree.node other = disk.tree.node other ∨
        disk.tree.node other = none ∧
          (writeFile disk policy path content).1.tree.node other = some .dir := by
  have hnode := Disk.write_node (writeFile_spec h).2 other
  rw [hnode]
  split_ifs
  · rfl
  · exact (createParent_addsDirs disk (parse path)).node other

lemma readFile_spec (h : readFile disk policy path = .ok (content, place)) :
    checkPathAccess (diskHost disk) (parse path) false policy = .ok () ∧
      disk.reaches (parse path) = some place := by
  unfold readFile at h
  split at h
  · cases h
  · next hgranted =>
    split at h
    · next hread =>
      cases h
      exact ⟨hgranted, Disk.reaches_of_read hread⟩
    · cases h

/-- A path that can only become what it is resolved to: the empty one, which becomes nothing, or one
that is settled and begins with something that is there. -/
def Foreseen (disk : Disk) (path : UnixPath) : Prop :=
  path = [] ∨ Anchored disk path ∧ Settled disk path

/-- What a hidden path hides is resolved to be below it. -/
lemma resolvesBelow_of_below {disk' : Disk} {requested hidden : UnixPath}
    (hgrows : disk.Grows disk') (hforeseen : Foreseen disk hidden)
    (hrequested : resolveForAccessCheck (diskHost disk) requested = toPath place)
    (hmem : hidden ∈ policy.hiddenPaths) (h : Below disk' place hidden) :
    ResolvesBelow (diskHost disk) requested policy.hiddenPaths := by
  refine ⟨hidden, hmem, ?_⟩
  rw [hrequested]
  rcases h with rfl | ⟨base, hbase, rest, rfl⟩
  · exact List.nil_prefix
  · rcases hforeseen with rfl | ⟨hanchored, hsettled⟩
    · cases hbase
    · rw [resolve_eq_toPath hgrows hsettled hanchored hbase]
      exact ⟨rest.map .normal, by simp [toPath]⟩

/-- On every disk, a write that a restricted policy grants ends in a file below a writable path and
below no hidden one, unless something is in the way of the path or of a hidden path that makes it
lead elsewhere than it is resolved to; and a granted read returns no hidden file. -/
theorem confined_of_granted (disk : Disk) {policy : SandboxPolicy}
    (hlevel : policy.level ≠ .unrestricted) (path content : List Char) :
    (Settled disk (candidate (diskHost disk) (parse path)) →
      (∀ hidden ∈ policy.hiddenPaths, Foreseen disk hidden) →
        ∀ place, (writeFile disk policy path content).2 = .ok place →
          (∃ writable ∈ policy.writablePaths,
            Below (writeFile disk policy path content).1 place writable) ∧
          ∀ hidden ∈ policy.hiddenPaths,
            ¬ Below (writeFile disk policy path content).1 place hidden) ∧
    ∀ content place, readFile disk policy path = .ok (content, place) →
      ∀ hidden ∈ policy.hiddenPaths, ¬ Below disk place hidden := by
  constructor
  · intro hsettled hforeseen place h
    obtain ⟨hgranted, hwrite⟩ := writeFile_spec h
    obtain ⟨hvisible, hwritable⟩ := (checkPathAccess_eq_ok hlevel).mp hgranted
    have hgrows : disk.Grows (writeFile disk policy path content).1 :=
      (createParent_addsDirs disk (parse path)).grows.trans (Disk.write_grows hwrite)
    have hreaches := Disk.reaches_of_write hwrite
    have hresolve := resolve_eq_toPath hgrows hsettled (anchored_candidate path)
      (reaches_candidate hgrows.cwd hreaches)
    constructor
    · obtain ⟨writable, hmem, hbelow⟩ := hwritable rfl
      rw [hresolve] at hbelow
      exact ⟨writable, hmem, below_of_prefix hgrows (Disk.solid_of_reaches hreaches) hbelow⟩
    · intro hidden hmem hbelow
      exact hvisible (resolvesBelow_of_below hgrows (hforeseen hidden hmem) hresolve hmem hbelow)
  · intro content place h hidden hmem hbelow
    obtain ⟨hgranted, hreaches⟩ := readFile_spec h
    obtain ⟨hvisible, -⟩ := (checkPathAccess_eq_ok hlevel).mp hgranted
    have hresolve := resolve_of_reaches (reaches_candidate rfl hreaches)
    refine hvisible ⟨hidden, hmem, ?_⟩
    rw [hresolve]
    rcases hbelow with rfl | ⟨base, hbase, rest, rfl⟩
    · exact List.nil_prefix
    · rw [resolve_of_reaches hbase]
      exact ⟨rest.map .normal, by simp [toPath]⟩

end Confinement

/-! ## A disk -/

def emptyTree : Tree where
  node place := if place = [] then some .dir else none
  root := rfl
  parent place name h := by simp at h

/-- A working directory with a link to another directory. -/
def workTree : Tree :=
  let homes := emptyTree.put [] "home".toList .dir (by decide) (by decide)
  let served := homes.put [] "srv".toList .dir (by decide) (by decide)
  let worked := served.put [] "work".toList .dir (by decide) (by decide)
  worked.put ["work".toList] "pub".toList (.link (parse "../srv".toList)) (by decide)
    (by decide)

def workDisk : Disk := ⟨workTree, ["work".toList], by decide⟩

def forWork (level : SandboxLevel) : SandboxPolicy :=
  { level := level
    writablePaths := [parse "/work".toList, parse "/srv".toList]
    hiddenPaths := [parse "/home/.ssh".toList] }

/-- A page in a directory that is missing behind the link. -/
def page : Place := ["srv".toList, "new".toList, "page".toList]

def pageDisk : Disk :=
  (writeFile workDisk (forWork .restricted) "pub/new/page".toList "hi".toList).1

/-- A page is written behind the link, and read again. -/
theorem confined_of_granted_page :
    (∃ writable ∈ (forWork .restricted).writablePaths, Below pageDisk page writable) ∧
      ¬ Below pageDisk page (parse "/home/.ssh".toList) := by
  have hlevel : (forWork .restricted).level ≠ .unrestricted := by decide
  have hforeseen : ∀ hidden ∈ (forWork .restricted).hiddenPaths, Foreseen workDisk hidden := by
    intro hidden hmem
    obtain rfl := List.mem_singleton.mp hmem
    exact .inr ⟨⟨_, _, rfl, by decide +kernel, by decide +kernel⟩, by decide +kernel⟩
  have hwritten := (confined_of_granted workDisk hlevel "pub/new/page".toList "hi".toList).1
    (by decide +kernel) hforeseen page (by decide +kernel)
  have hread := (confined_of_granted pageDisk hlevel "pub/new/page".toList []).2
    "hi".toList page (by decide +kernel)
  exact ⟨hwritten.1, hread _ List.mem_cons_self⟩

/-- A step back from a directory that is missing leads out of the writable paths, into a hidden
one. -/
example : (writeFile workDisk (forWork .restricted) "/work/new/../../home/.ssh/id".toList []).2 =
      .ok ["home".toList, ".ssh".toList, "id".toList] ∧
    Below (writeFile workDisk (forWork .restricted) "/work/new/../../home/.ssh/id".toList []).1
      ["home".toList, ".ssh".toList, "id".toList] (parse "/home/.ssh".toList) := by
  decide +kernel

/-- An unrestricted policy grants a write to a hidden file that is below no writable path. -/
theorem not_confined_unrestricted :
    (writeFile workDisk (forWork .unrestricted) "/home/.ssh/id".toList []).2 =
        .ok ["home".toList, ".ssh".toList, "id".toList] ∧
      (∀ writable ∈ (forWork .unrestricted).writablePaths,
        ¬ Below (writeFile workDisk (forWork .unrestricted) "/home/.ssh/id".toList []).1
          ["home".toList, ".ssh".toList, "id".toList] writable) ∧
      Below (writeFile workDisk (forWork .unrestricted) "/home/.ssh/id".toList []).1
        ["home".toList, ".ssh".toList, "id".toList] (parse "/home/.ssh".toList) := by
  decide +kernel

end RustyClaw.Sandbox
