import Mathlib.Data.List.Induction
import RustyClaw.Library.Path

/-!
# File trees with symbolic links

Directories, files and symbolic links, and what an operating system does with a path: it follows
the components one after the other, puts the target of a link in the place of the link, and gives
up after a number of links.  `walk` is this; with its flag `create` it also leads to a file that is
not there yet, as a call that creates a file does, through a link that dangles too.

* `Tree` is a tree in which everything stands in a directory; `Disk` is a tree and the working
  directory of a process, with `mkdir`, `createDirAll`, `write` and `read` on it;
* `Grown` relates a tree to one that has more directories and files in it, but no more links;
  `walk_grown` says that what could be reached is still reached, at the same place.

Permissions, hard links and mounts do not occur.  As in `UnixPath`, a separator at the end of a path
makes no difference.
-/

namespace FileTree

/-- Where something stands: the names on the way from the root. -/
abbrev Place := List (List Char)

inductive Node where
  | dir
  | file (content : List Char)
  | link (target : UnixPath)
  deriving DecidableEq, Repr

/-- What stands where.  The root is a directory, and so is whatever something stands in. -/
structure Tree where
  node : Place → Option Node
  root : node [] = some .dir
  parent : ∀ place name, node (place ++ [name]) ≠ none → node place = some .dir

inductive OsError where
  | notFound | notADirectory | isADirectory | alreadyExists | tooManyLinks
  deriving DecidableEq, Repr

namespace Tree

/-- A directory or a file. -/
def Solid (tree : Tree) (place : Place) : Prop :=
  tree.node place = some .dir ∨ ∃ content, tree.node place = some (.file content)

/-- The tree with something new in a directory. -/
def put (tree : Tree) (place : Place) (name : List Char) (new : Node)
    (hdir : tree.node place = some .dir) (hold : tree.node (place ++ [name]) ≠ some .dir) :
    Tree where
  node other := if other = place ++ [name] then some new else tree.node other
  root := by
    rw [if_neg (by simp)]
    exact tree.root
  parent other last hnode := by
    by_cases heq : other ++ [last] = place ++ [name]
    · obtain ⟨rfl, -⟩ := List.append_inj' heq rfl
      rwa [if_neg (by simp)]
    · rw [if_neg heq] at hnode
      have hother := tree.parent other last hnode
      rw [if_neg, hother]
      rintro rfl
      exact hold hother

end Tree

/-! ## Walking -/

/-- The components of a path one after the other, up to a link: the target is put in front of what
is left of the path.  What is returned is the place, and how many more links may be followed. -/
def walkNames (tree : Tree) (create : Bool) (links : Nat)
    (onLink : Place → UnixPath → Except OsError (Nat × Place)) :
    Place → UnixPath → Except OsError (Nat × Place)
  | place, [] => .ok (links, place)
  | place, .curDir :: path => walkNames tree create links onLink place path
  | _, .rootDir :: path => walkNames tree create links onLink [] path
  | place, .parentDir :: path =>
    if tree.node place = some .dir then walkNames tree create links onLink place.dropLast path
    else .error .notADirectory
  | place, .normal name :: path =>
    if tree.node place = some .dir then
      match tree.node (place ++ [name]) with
      | none =>
        if create && path.isEmpty then .ok (links, place ++ [name]) else .error .notFound
      | some (.link target) => onLink place (target ++ path)
      | some _ => walkNames tree create links onLink (place ++ [name]) path
    else .error .notADirectory

/-- Where a path leads from a place, when at most so many links are followed. -/
def walk (tree : Tree) (create : Bool) : Nat → Place → UnixPath → Except OsError (Nat × Place)
  | 0 => walkNames tree create 0 fun _ _ => .error .tooManyLinks
  | links + 1 => walkNames tree create (links + 1) (walk tree create links)

section Walk

variable {tree tree' : Tree} {create : Bool} {links : Nat} {place : Place} {path path' : UnixPath}
  {name : List Char} {r : Nat × Place}

@[simp] lemma walk_nil : walk tree create links place [] = .ok (links, place) := by
  cases links <;> rfl

@[simp] lemma walk_curDir :
    walk tree create links place (.curDir :: path) = walk tree create links place path := by
  cases links <;> rfl

@[simp] lemma walk_rootDir :
    walk tree create links place (.rootDir :: path) = walk tree create links [] path := by
  cases links <;> rfl

lemma walk_parentDir_eq_ok :
    walk tree create links place (.parentDir :: path) = .ok r ↔
      tree.node place = some .dir ∧ walk tree create links place.dropLast path = .ok r := by
  have heq : walk tree create links place (.parentDir :: path) =
      if tree.node place = some .dir then walk tree create links place.dropLast path
      else .error .notADirectory := by
    cases links <;> rfl
  rw [heq]
  split_ifs with hdir <;> simp [hdir]

/-- What can be behind a name on the way: nothing, at the end of a path that is created; a link; or
a directory or a file. -/
lemma walk_normal_eq_ok :
    walk tree create links place (.normal name :: path) = .ok r ↔
      tree.node place = some .dir ∧
        ((tree.node (place ++ [name]) = none ∧ create = true ∧ path = [] ∧
            r = (links, place ++ [name])) ∨
          (∃ target n, tree.node (place ++ [name]) = some (.link target) ∧ links = n + 1 ∧
            walk tree create n place (target ++ path) = .ok r) ∨
          (tree.Solid (place ++ [name]) ∧
            walk tree create links (place ++ [name]) path = .ok r)) := by
  by_cases hdir : tree.node place = some .dir
  · cases hnode : tree.node (place ++ [name]) with
    | none =>
      have heq : walk tree create links place (.normal name :: path) =
          if create && path.isEmpty then .ok (links, place ++ [name]) else .error .notFound := by
        cases links <;> simp [walk, walkNames, hdir, hnode]
      rw [heq]
      cases create <;> cases path <;> simp [hdir, hnode, Tree.Solid, eq_comm]
    | some node =>
      cases node with
      | link target =>
        cases links with
        | zero => simp [walk, walkNames, hdir, hnode, Tree.Solid]
        | succ n => simp [walk, walkNames, hdir, hnode, Tree.Solid]
      | dir =>
        have heq : walk tree create links place (.normal name :: path) =
            walk tree create links (place ++ [name]) path := by
          cases links <;> simp [walk, walkNames, hdir, hnode]
        simp [heq, hdir, hnode, Tree.Solid]
      | file content =>
        have heq : walk tree create links place (.normal name :: path) =
            walk tree create links (place ++ [name]) path := by
          cases links <;> simp [walk, walkNames, hdir, hnode]
        simp [heq, hdir, hnode, Tree.Solid]
  · have heq : walk tree create links place (.normal name :: path) = .error .notADirectory := by
      cases links <;> simp [walk, walkNames, hdir]
    simp [heq, hdir]

/-- A path in two parts: the first one leads to something, and the second one leads on. -/
lemma walk_append_eq_ok (h : path' ≠ [] ∨ create = false) :
    walk tree create links place (path ++ path') = .ok r ↔
      ∃ mid, walk tree false links place path = .ok mid ∧
        walk tree create mid.1 mid.2 path' = .ok r := by
  induction links using Nat.strongRecOn generalizing place path with
  | ind links ihLinks =>
    induction path generalizing place with
    | nil => simp
    | cons component path ih =>
      rw [List.cons_append]
      cases component with
      | curDir => simpa using ih
      | rootDir => simpa using ih
      | parentDir => simp only [walk_parentDir_eq_ok, ih, exists_and_left, and_assoc]
      | normal name =>
        simp only [walk_normal_eq_ok, ih]
        constructor
        · rintro ⟨hdir, ⟨hnone, hcreate, hnil, rfl⟩ | ⟨target, n, hnode, rfl, hwalk⟩ |
            ⟨hsolid, mid, hmid, hwalk⟩⟩
          · obtain ⟨-, hpath'⟩ := List.append_eq_nil_iff.mp hnil
            rw [hcreate] at h
            simp [hpath'] at h
          · rw [← List.append_assoc, ihLinks n (Nat.lt_succ_self n)] at hwalk
            obtain ⟨mid, hmid, hwalk⟩ := hwalk
            exact ⟨mid, ⟨hdir, .inr (.inl ⟨target, n, hnode, rfl, hmid⟩)⟩, hwalk⟩
          · exact ⟨mid, ⟨hdir, .inr (.inr ⟨hsolid, hmid⟩)⟩, hwalk⟩
        · rintro ⟨mid, ⟨hdir, ⟨-, hcreate, -⟩ | ⟨target, n, hnode, rfl, hmid⟩ | ⟨hsolid, hmid⟩⟩,
            hwalk⟩
          · cases hcreate
          · refine ⟨hdir, .inr (.inl ⟨target, n, hnode, rfl, ?_⟩)⟩
            rw [← List.append_assoc, ihLinks n (Nat.lt_succ_self n)]
            exact ⟨mid, hmid, hwalk⟩
          · exact ⟨hdir, .inr (.inr ⟨hsolid, mid, hmid, hwalk⟩)⟩

/-- The step `.` leads nowhere else. -/
lemma walk_filter_eq_ok :
    walk tree false links place (path.filter (· ≠ .curDir)) = .ok r ↔
      walk tree false links place path = .ok r := by
  induction path generalizing links place with
  | nil => rfl
  | cons component path ih =>
    have hkeep : ∀ first : PathComponent, first ≠ .curDir →
        (first :: path).filter (· ≠ .curDir) = [first] ++ path.filter (· ≠ .curDir) :=
      fun first hfirst => List.filter_cons_of_pos (by simpa using hfirst)
    by_cases hcur : component = .curDir
    · subst hcur
      rw [walk_curDir]
      exact ih
    · have hsplit : component :: path = [component] ++ path := rfl
      rw [hkeep component hcur, hsplit, walk_append_eq_ok (.inr rfl), walk_append_eq_ok (.inr rfl)]
      simp only [ih]

/-! ### Places -/

lemma node_eq_dir {rest : Place} (h : tree.node (place ++ rest) ≠ none) (hne : rest ≠ []) :
    tree.node place = some .dir := by
  induction rest using List.reverseRecOn with
  | nil => exact absurd rfl hne
  | append_singleton rest last ih =>
    rw [← List.append_assoc] at h
    have hdir := tree.parent _ _ h
    by_cases hnil : rest = []
    · rwa [hnil, List.append_nil] at hdir
    · exact ih (by simp [hdir]) hnil

lemma Tree.Solid.ne_none (h : tree.Solid place) : tree.node place ≠ none := by
  rcases h with h | ⟨content, h⟩ <;> simp [h]

lemma Tree.Solid.above {rest : Place} (h : tree.Solid (place ++ rest)) : tree.Solid place := by
  by_cases hnil : rest = []
  · rwa [hnil, List.append_nil] at h
  · exact .inl (node_eq_dir h.ne_none hnil)

lemma Tree.Solid.dropLast (h : tree.Solid place) : tree.Solid place.dropLast := by
  obtain ⟨rest, hrest⟩ := List.dropLast_prefix place
  rw [← hrest] at h
  exact h.above

/-- What is reached is a directory or a file, or is still to be created. -/
lemma node_of_walk (hplace : tree.Solid place) (h : walk tree create links place path = .ok r) :
    tree.Solid r.2 ∨ create = true ∧ tree.node r.2 = none := by
  induction links using Nat.strongRecOn generalizing place path with
  | ind links ihLinks =>
    induction path generalizing place with
    | nil =>
      rw [walk_nil] at h
      cases h
      exact .inl hplace
    | cons component path ih =>
      cases component with
      | curDir =>
        rw [walk_curDir] at h
        exact ih hplace h
      | rootDir =>
        rw [walk_rootDir] at h
        exact ih (.inl tree.root) h
      | parentDir =>
        obtain ⟨-, h⟩ := walk_parentDir_eq_ok.mp h
        exact ih hplace.dropLast h
      | normal name =>
        obtain ⟨-, ⟨hnone, hcreate, -, rfl⟩ | ⟨target, n, -, rfl, hrest⟩ | ⟨hsolid, hrest⟩⟩ :=
          walk_normal_eq_ok.mp h
        · exact .inr ⟨hcreate, hnone⟩
        · exact ihLinks n (Nat.lt_succ_self n) hplace hrest
        · exact ih hsolid hrest

lemma solid_of_walk (hplace : tree.Solid place) (h : walk tree false links place path = .ok r) :
    tree.Solid r.2 :=
  (node_of_walk hplace h).resolve_right (by simp)

/-- From a place one gets to what stands below it by its names. -/
lemma walk_names {names : Place} (h : tree.Solid (place ++ names)) :
    walk tree false links place (names.map .normal) = .ok (links, place ++ names) := by
  induction names generalizing place with
  | nil => simp
  | cons name names ih =>
    have happend : place ++ name :: names = place ++ [name] ++ names := by simp
    have hdir : tree.node place = some .dir := node_eq_dir h.ne_none (by simp)
    rw [happend] at h ⊢
    rw [List.map_cons]
    exact walk_normal_eq_ok.mpr ⟨hdir, .inr (.inr ⟨h.above, ih h⟩)⟩

/-- Where there are no links, names lead to what stands below by these names. -/
lemma eq_of_walk_names {names : Place}
    (hlinks : ∀ rest target, tree.node (place ++ rest) ≠ some (.link target))
    (h : walk tree false links place (names.map .normal) = .ok r) :
    r = (links, place ++ names) := by
  induction names generalizing place with
  | nil =>
    rw [List.map_nil, walk_nil] at h
    cases h
    simp
  | cons name names ih =>
    obtain ⟨-, ⟨-, hcreate, -⟩ | ⟨target, n, hnode, -⟩ | ⟨-, h⟩⟩ := walk_normal_eq_ok.mp h
    · cases hcreate
    · exact absurd hnode (hlinks [name] target)
    · have hrest := ih (fun rest target => by simpa using hlinks (name :: rest) target) h
      rw [hrest]
      simp

/-! ### Growing trees -/

/-- Directories and links stay, files stay files, and what is new is no link. -/
structure Grown (tree tree' : Tree) : Prop where
  dir : ∀ place, tree.node place = some .dir → tree'.node place = some .dir
  file : ∀ place content, tree.node place = some (.file content) →
    ∃ content', tree'.node place = some (.file content')
  link : ∀ place target, tree.node place = some (.link target) →
    tree'.node place = some (.link target)
  fresh : ∀ place target, tree.node place = none → tree'.node place ≠ some (.link target)

lemma Grown.refl (tree : Tree) : Grown tree tree where
  dir _ h := h
  file _ content h := ⟨content, h⟩
  link _ _ h := h
  fresh _ _ h := by simp [h]

lemma Grown.trans {tree'' : Tree} (h : Grown tree tree') (h' : Grown tree' tree'') :
    Grown tree tree'' where
  dir place hdir := h'.dir place (h.dir place hdir)
  file place content hfile := by
    obtain ⟨content', hfile'⟩ := h.file place content hfile
    exact h'.file place content' hfile'
  link place target hlink := h'.link place target (h.link place target hlink)
  fresh place target hnone := by
    cases hnode : tree'.node place with
    | none => exact h'.fresh place target hnode
    | some node =>
      cases node with
      | dir => simp [h'.dir place hnode]
      | file content =>
        obtain ⟨content', hfile⟩ := h'.file place content hnode
        simp [hfile]
      | link other => exact absurd hnode (h.fresh place other hnone)

lemma Grown.solid (h : Grown tree tree') (hsolid : tree.Solid place) : tree'.Solid place := by
  rcases hsolid with hdir | ⟨content, hfile⟩
  · exact .inl (h.dir place hdir)
  · exact .inr (h.file place content hfile)

/-- A path leads to the same place in the tree that has grown; also a path that was to create
something, once it is there. -/
lemma walk_grown (hgrown : Grown tree tree') (h : walk tree create links place path = .ok r)
    (hend : create = true → tree'.Solid r.2) : walk tree' false links place path = .ok r := by
  induction links using Nat.strongRecOn generalizing place path with
  | ind links ihLinks =>
    induction path generalizing place with
    | nil => simpa using h
    | cons component path ih =>
      cases component with
      | curDir =>
        rw [walk_curDir] at h ⊢
        exact ih h
      | rootDir =>
        rw [walk_rootDir] at h ⊢
        exact ih h
      | parentDir =>
        obtain ⟨hdir, h⟩ := walk_parentDir_eq_ok.mp h
        exact walk_parentDir_eq_ok.mpr ⟨hgrown.dir _ hdir, ih h⟩
      | normal name =>
        obtain ⟨hdir, hnext⟩ := walk_normal_eq_ok.mp h
        refine walk_normal_eq_ok.mpr ⟨hgrown.dir _ hdir, .inr ?_⟩
        rcases hnext with ⟨-, hcreate, rfl, rfl⟩ | ⟨target, n, hnode, rfl, hrest⟩ |
          ⟨hsolid, hrest⟩
        · exact .inr ⟨hend hcreate, walk_nil⟩
        · exact .inl ⟨target, n, hgrown.link _ _ hnode, rfl,
            ihLinks n (Nat.lt_succ_self n) hrest⟩
        · exact .inr ⟨hgrown.solid hsolid, ih hrest⟩

end Walk

/-! ## The disk of a process -/

/-- The path of a place. -/
def toPath (place : Place) : UnixPath := .rootDir :: place.map .normal

/-- A tree, and the directory that relative paths start from. -/
structure Disk where
  tree : Tree
  cwd : Place
  cwd_dir : tree.node cwd = some .dir

/-- How many links are followed before a path counts as a loop. -/
def maxLinks : Nat := 40

namespace Disk

/-- Where a path leads. -/
def locate (disk : Disk) (create : Bool) (path : UnixPath) : Except OsError Place :=
  if path = [] then .error .notFound
  else (walk disk.tree create maxLinks disk.cwd path).map Prod.snd

/-- Where a path leads, if there is something there. -/
def reaches (disk : Disk) (path : UnixPath) : Option Place := (disk.locate false path).toOption

/-- `realpath`. -/
def canonicalize (disk : Disk) (path : UnixPath) : Option UnixPath :=
  (disk.reaches path).map toPath

/-- The disk with something new in a directory. -/
def put (disk : Disk) (place : Place) (name : List Char) (new : Node)
    (hdir : disk.tree.node place = some .dir)
    (hold : disk.tree.node (place ++ [name]) ≠ some .dir) : Disk where
  tree := disk.tree.put place name new hdir hold
  cwd := disk.cwd
  cwd_dir := by
    have hne : disk.cwd ≠ place ++ [name] := by
      intro heq
      exact hold (heq ▸ disk.cwd_dir)
    simpa [Tree.put, hne] using disk.cwd_dir

/-- A directory is made in one that is there; a link at the end of the path is not followed. -/
def mkdir (disk : Disk) (path : UnixPath) : Except OsError Disk :=
  match path.getLast? with
  | none => .error .notFound
  | some last =>
    match walk disk.tree false maxLinks disk.cwd path.dropLast with
    | .error e => .error e
    | .ok (_, place) =>
      if hdir : disk.tree.node place = some .dir then
        match last with
        | .normal name =>
          if hnone : disk.tree.node (place ++ [name]) = none then
            .ok (disk.put place name .dir hdir (by simp [hnone]))
          else .error .alreadyExists
        | _ => .error .alreadyExists
      else .error .notADirectory

/-- `Path::is_dir`. -/
def isDir (disk : Disk) (path : UnixPath) : Bool :=
  match disk.locate false path with
  | .ok place => disk.tree.node place = some .dir
  | .error _ => false

/-- The loop of `fs::create_dir_all`, on the reverse of the path; whether it has succeeded stands
behind the disk. -/
def createDirLoop (disk : Disk) : UnixPath → Disk × Bool
  | [] => (disk, true)
  | last :: above =>
    match disk.mkdir (last :: above).reverse with
    | .ok disk' => (disk', true)
    | .error .notFound =>
      if last = .rootDir then (disk, false)
      else
        let made := createDirLoop disk above
        if !made.2 then (made.1, false)
        else
          match made.1.mkdir (last :: above).reverse with
          | .ok disk' => (disk', true)
          | .error _ => (made.1, made.1.isDir (last :: above).reverse)
    | .error _ => (disk, disk.isDir (last :: above).reverse)

/-- `fs::create_dir_all`. -/
def createDirAll (disk : Disk) (path : UnixPath) : Disk × Bool := disk.createDirLoop path.reverse

/-- `fs::write`: a file is created or replaced, at the place that is returned. -/
def write (disk : Disk) (path : UnixPath) (content : List Char) : Except OsError (Disk × Place) :=
  match disk.locate true path with
  | .error e => .error e
  | .ok place =>
    match place.getLast? with
    | none => .error .isADirectory
    | some name =>
      if hold : disk.tree.node (place.dropLast ++ [name]) = some .dir then .error .isADirectory
      else if hdir : disk.tree.node place.dropLast = some .dir then
        .ok (disk.put place.dropLast name (.file content) hdir hold, place)
      else .error .notADirectory

/-- `fs::read_to_string`: the content, and the place it stands at. -/
def read (disk : Disk) (path : UnixPath) : Except OsError (List Char × Place) :=
  match disk.locate false path with
  | .error e => .error e
  | .ok place =>
    match disk.tree.node place with
    | some (.file content) => .ok (content, place)
    | _ => .error .isADirectory

/-! ### What becomes of a disk -/

/-- The process stays where it is, and its tree has grown. -/
structure Grows (disk disk' : Disk) : Prop where
  cwd : disk'.cwd = disk.cwd
  tree : Grown disk.tree disk'.tree

/-- What is new is a directory. -/
structure AddsDirs (disk disk' : Disk) : Prop where
  cwd : disk'.cwd = disk.cwd
  node : ∀ place, disk'.tree.node place = disk.tree.node place ∨
    disk.tree.node place = none ∧ disk'.tree.node place = some .dir

section Operations

variable {disk disk' disk'' : Disk} {create : Bool} {path : UnixPath} {place : Place}

lemma Grows.refl (disk : Disk) : disk.Grows disk := ⟨rfl, .refl _⟩

lemma Grows.trans (h : disk.Grows disk') (h' : disk'.Grows disk'') : disk.Grows disk'' :=
  ⟨h'.cwd.trans h.cwd, h.tree.trans h'.tree⟩

lemma AddsDirs.refl (disk : Disk) : disk.AddsDirs disk := ⟨rfl, fun _ => .inl rfl⟩

lemma AddsDirs.trans (h : disk.AddsDirs disk') (h' : disk'.AddsDirs disk'') :
    disk.AddsDirs disk'' where
  cwd := h'.cwd.trans h.cwd
  node place := by
    rcases h'.node place with hsame' | ⟨hnone', hdir'⟩
    · rw [hsame']
      exact h.node place
    · rcases h.node place with hsame | ⟨-, hdir⟩
      · exact .inr ⟨hsame ▸ hnone', hdir'⟩
      · rw [hdir] at hnone'
        cases hnone'

lemma AddsDirs.node_eq {node : Node} (h : disk.AddsDirs disk')
    (hnode : disk.tree.node place = some node) : disk'.tree.node place = some node := by
  rcases h.node place with hsame | ⟨hnone, -⟩
  · rw [hsame, hnode]
  · rw [hnode] at hnone
    cases hnone

lemma AddsDirs.grows (h : disk.AddsDirs disk') : disk.Grows disk' where
  cwd := h.cwd
  tree :=
    { dir := fun _ => h.node_eq
      file := fun _ content hfile => ⟨content, h.node_eq hfile⟩
      link := fun _ _ => h.node_eq
      fresh := fun place target hnone => by
        rcases h.node place with hsame | ⟨-, hdir⟩
        · simp [hsame, hnone]
        · simp [hdir] }

lemma locate_eq_ok : disk.locate create path = .ok place ↔
    path ≠ [] ∧ ∃ left, walk disk.tree create maxLinks disk.cwd path = .ok (left, place) := by
  unfold locate
  split_ifs with hnil
  · simp [hnil]
  · cases hwalk : walk disk.tree create maxLinks disk.cwd path with
    | error e => simp [Except.map]
    | ok r =>
      obtain ⟨left, reached⟩ := r
      simp [Except.map, hnil]

lemma reaches_eq_some : disk.reaches path = some place ↔ disk.locate false path = .ok place := by
  unfold reaches
  cases disk.locate false path <;> simp [Except.toOption]

lemma reaches_iff : disk.reaches path = some place ↔
    path ≠ [] ∧ ∃ left, walk disk.tree false maxLinks disk.cwd path = .ok (left, place) :=
  reaches_eq_some.trans locate_eq_ok

lemma solid_of_reaches (h : disk.reaches path = some place) : disk.tree.Solid place := by
  obtain ⟨-, left, hwalk⟩ := reaches_iff.mp h
  exact solid_of_walk (.inl disk.cwd_dir) hwalk

lemma reaches_of_locate (hgrows : disk.Grows disk') (h : disk.locate create path = .ok place)
    (hend : create = true → disk'.tree.Solid place) : disk'.reaches path = some place := by
  obtain ⟨hne, left, hwalk⟩ := locate_eq_ok.mp h
  refine reaches_iff.mpr ⟨hne, left, ?_⟩
  rw [hgrows.cwd]
  exact walk_grown hgrows.tree hwalk hend

lemma reaches_grows (hgrows : disk.Grows disk') (h : disk.reaches path = some place) :
    disk'.reaches path = some place :=
  reaches_of_locate hgrows (reaches_eq_some.mp h) nofun

/-- A relative path leads where it leads as a path from the working directory. -/
lemma reaches_join (hrelative : path.isAbsolute = false) (hne : path ≠ []) :
    disk.reaches ((toPath disk.cwd).join path) = some place ↔ disk.reaches path = some place := by
  have hjoin : (toPath disk.cwd).join path = toPath disk.cwd ++ path.filter (· ≠ .curDir) := by
    simp [UnixPath.join, hrelative, toPath]
  have hcwd : walk disk.tree false maxLinks disk.cwd (toPath disk.cwd) =
      .ok (maxLinks, disk.cwd) := by
    rw [toPath, walk_rootDir]
    exact walk_names (.inl disk.cwd_dir)
  rw [reaches_iff, reaches_iff, hjoin]
  simp only [walk_append_eq_ok (.inr rfl), hcwd, walk_filter_eq_ok]
  simp [toPath, hne]

lemma mkdir_addsDirs (h : disk.mkdir path = .ok disk') : disk.AddsDirs disk' := by
  unfold mkdir at h
  split at h
  · cases h
  · split at h
    · cases h
    · split at h
      · next parent _ hdir =>
        split at h
        · next name _ =>
          split at h
          · next hnone =>
            cases h
            refine ⟨rfl, fun other => ?_⟩
            by_cases hother : other = parent ++ [name]
            · exact .inr ⟨hother ▸ hnone, by simp [put, Tree.put, hother]⟩
            · exact .inl (by simp [put, Tree.put, hother])
          · cases h
        · cases h
      · cases h

lemma createDirLoop_addsDirs (disk : Disk) (above : UnixPath) :
    disk.AddsDirs (disk.createDirLoop above).1 := by
  induction above with
  | nil => exact .refl disk
  | cons last above ih =>
    unfold createDirLoop
    split
    · next hmade => exact mkdir_addsDirs hmade
    · dsimp only
      split_ifs
      · exact .refl disk
      · exact ih
      · split
        · next hmade => exact ih.trans (mkdir_addsDirs hmade)
        · exact ih
    · exact .refl disk

lemma createDirAll_addsDirs (disk : Disk) (path : UnixPath) :
    disk.AddsDirs (disk.createDirAll path).1 := createDirLoop_addsDirs disk path.reverse

section Write

variable {content : List Char}

/-- What is written stands at one place, and there is nothing new elsewhere. -/
lemma write_node (h : disk.write path content = .ok (disk', place)) (other : Place) :
    disk'.tree.node other =
      if other = place then some (.file content) else disk.tree.node other := by
  unfold write at h
  split at h
  · cases h
  · split at h
    · cases h
    · next reached _ _ name hlast =>
      split at h
      · cases h
      · split at h
        · have hreached : reached.dropLast ++ [name] = reached :=
            List.dropLast_append_getLast? name hlast
          cases h
          simp only [put, Tree.put, hreached]
        · cases h

lemma locate_of_write (h : disk.write path content = .ok (disk', place)) :
    disk.locate true path = .ok place ∧ disk.tree.node place ≠ some .dir ∧
      disk'.cwd = disk.cwd := by
  unfold write at h
  split at h
  · cases h
  · next reached hlocate =>
    split at h
    · cases h
    · next name hlast =>
      split at h
      · cases h
      · next hold =>
        split at h
        · have hreached : reached.dropLast ++ [name] = reached :=
            List.dropLast_append_getLast? name hlast
          rw [hreached] at hold
          cases h
          exact ⟨hlocate, hold, rfl⟩
        · cases h

lemma write_grows (h : disk.write path content = .ok (disk', place)) : disk.Grows disk' := by
  obtain ⟨hlocate, hold, hcwd⟩ := locate_of_write h
  obtain ⟨-, left, hwalk⟩ := locate_eq_ok.mp hlocate
  have hnode := write_node h
  have hlink : ∀ target, disk.tree.node place ≠ some (.link target) := fun target hlink => by
    rcases node_of_walk (.inl disk.cwd_dir) hwalk with (hnode | ⟨_, hnode⟩) | ⟨-, hnode⟩
    all_goals
      rw [hlink] at hnode
      cases hnode
  refine ⟨hcwd, ⟨fun other hdir => ?_, fun other old hfile => ?_, fun other target hother => ?_,
    fun other target hnone => ?_⟩⟩
  · rw [hnode, if_neg, hdir]
    rintro rfl
    exact hold hdir
  · rw [hnode]
    split_ifs
    · exact ⟨content, rfl⟩
    · exact ⟨old, hfile⟩
  · rw [hnode, if_neg, hother]
    rintro rfl
    exact hlink target hother
  · rw [hnode]
    split_ifs
    · simp
    · simp [hnone]

/-- After a write the path leads to the file that has been written. -/
lemma reaches_of_write (h : disk.write path content = .ok (disk', place)) :
    disk'.reaches path = some place := by
  refine reaches_of_locate (write_grows h) (locate_of_write h).1 fun _ => .inr ⟨content, ?_⟩
  rw [write_node h, if_pos rfl]

lemma reaches_of_read (h : disk.read path = .ok (content, place)) :
    disk.reaches path = some place := by
  unfold read at h
  split at h
  · cases h
  · next reached hlocate =>
    split at h
    · cases h
      exact reaches_eq_some.mpr hlocate
    · cases h

end Write

end Operations

end Disk

end FileTree
