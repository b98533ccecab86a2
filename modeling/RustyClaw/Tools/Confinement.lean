import RustyClaw.Library.Overlay
import RustyClaw.Tools.Sandbox

/-!
# The confinement of shell commands

A policy is interpreted three times.  `check_path_access` compares resolved paths;
`build_bwrap_args` turns the policy into mount operations for bubblewrap, which applies them in
order; `build_sbpl_profile` turns it into rules for Seatbelt, of which the last one that matches
decides.

What a running command can reach is `CanReadIn` and `CanWriteIn` for a bubblewrap command and
`profileAllows` for a profile.  `confined_iff` compares the three interpretations path by path.  They
agree except in these cases:

* a hidden path that does not exist when the command starts is not mounted over, and one below
  `.tmp` in the working directory is, but not where it shows under `/tmp`;
* a hidden path that is written through a link is neither mounted over nor denied where it leads;
* a read-only path inside a writable one is read-only for bubblewrap alone;
* what is listed and missing keeps bubblewrap from starting, and what is listed through a link can
  be written to under bubblewrap alone.

`confined_of_straight` is the other side: lists that avoid these cases confine every path.
-/

namespace RustyClaw.Sandbox

open UnixPath Overlay

/-! ## The machine -/

def pathOf (literal : String) : UnixPath := parse literal.toList

/-- What a command is started on. -/
structure Machine extends Host where
  /-- whether there is a directory at a canonical path -/
  isDir : UnixPath → Bool
  /-- `std::env::var` -/
  var : List Char → Option (List Char)
  /-- `/dev/null` is there, and it is no link. -/
  canonicalize_null : canonicalize (pathOf "/dev/null") = some (pathOf "/dev/null")

namespace Machine

def exists? (machine : Machine) (path : UnixPath) : Bool := (machine.canonicalize path).isSome

/-- `fs::metadata(path)?.is_dir()`. -/
def metadata (machine : Machine) (path : UnixPath) : Option Bool :=
  (machine.canonicalize path).map machine.isDir

end Machine

/-! ## Bubblewrap -/

inductive BwrapArg where
  | roBind (source dest : UnixPath)
  | bind (source dest : UnixPath)
  | tmpfs (dest : UnixPath)
  | proc (dest : UnixPath)
  | dev (dest : UnixPath)
  | clearenv
  | setenv (key value : List Char)
  | unshareNet | unsharePid | dieWithParent | newSession
  | chdir (dir : UnixPath)
  | command (words : List (List Char))

def systemDirs : List UnixPath :=
  ["/usr", "/lib", "/lib64", "/bin", "/sbin", "/etc"].map pathOf

def sessionTmp (cwd : UnixPath) : UnixPath := cwd.join (pathOf ".tmp")

/-- How a hidden path is mounted over, if it is there: a directory by an empty one, a file by
`/dev/null`. -/
def hide (machine : Machine) (hidden : UnixPath) : Option BwrapArg :=
  (machine.metadata hidden).map fun isDir =>
    if isDir then .tmpfs hidden else .roBind (pathOf "/dev/null") hidden

/-- `build_bwrap_args`, on a machine on which `.tmp` has been created in the working directory. -/
def buildBwrapArgs (machine : Machine) (cmd : List Char) (policy : SandboxPolicy) (cwd : UnixPath) :
    List BwrapArg :=
  (systemDirs.filter machine.exists?).map (fun dir => .roBind dir dir) ++
    [.proc (pathOf "/proc"), .dev (pathOf "/dev")] ++
    [.bind (sessionTmp cwd) (pathOf "/tmp")] ++
    (if policy.clearEnv then
      .clearenv :: policy.keepEnv.filterMap fun key => (machine.var key).map (.setenv key)
    else []) ++
    [.bind cwd cwd] ++
    policy.writablePaths.map (fun path => .bind path path) ++
    policy.readonlyPaths.map (fun path => .roBind path path) ++
    policy.hiddenPaths.filterMap (hide machine) ++
    (if policy.isolateNetwork then [.unshareNet] else []) ++
    (if policy.isolatePid then [.unsharePid] else []) ++
    [.dieWithParent, .newSession, .chdir cwd,
      .command ["bash".toList, "-c".toList, cmd]]

/-- The place of a destination in the sandbox. -/
def mountPoint (dest : UnixPath) : UnixPath := .rootDir :: (locate [] dest).map .normal

namespace BwrapArg

/-- The operation as a mount; its source is what the path of it leads to. -/
def mount? (machine : Machine) : BwrapArg → Option (Mount PathComponent)
  | .roBind source dest => some ⟨machine.canonicalize source, mountPoint dest, false⟩
  | .bind source dest => some ⟨machine.canonicalize source, mountPoint dest, true⟩
  | .tmpfs dest | .proc dest | .dev dest => some ⟨none, mountPoint dest, true⟩
  | _ => none

/-- Bubblewrap does not start a command when the source of a mount is missing. -/
def isReady (machine : Machine) : BwrapArg → Bool
  | .roBind source _ | .bind source _ => machine.exists? source
  | _ => true

end BwrapArg

section Reach

variable (machine : Machine) (args : List BwrapArg) (path : UnixPath)

/-- A command under bubblewrap can read the content of a path of the host. -/
def CanReadIn : Prop :=
  args.all (·.isReady machine) = true ∧ CanRead (args.filterMap (·.mount? machine)) path

/-- A command under bubblewrap can modify a path of the host. -/
def CanWriteIn : Prop :=
  args.all (·.isReady machine) = true ∧ CanWrite (args.filterMap (·.mount? machine)) path

end Reach

/-! ## Seatbelt -/

inductive SbplOperation where
  | default
  | processExec | processFork | signal | sysctlRead | machLookup | ipcPosixShm | network
  | fileRead | fileReadData | fileReadMetadata | fileWrite | fileIoctl
  deriving DecidableEq, Repr

/-- Whether a rule for the first operation is one for the second. -/
def SbplOperation.covers : SbplOperation → SbplOperation → Bool
  | .default, _ => true
  | .fileRead, .fileReadData | .fileRead, .fileReadMetadata => true
  | operation, operation' => operation = operation'

inductive SbplFilter where
  | any
  | self
  | globalNames (names : List String)
  | literal (path : UnixPath)
  | subpath (path : UnixPath)

def SbplFilter.matchesPath (path : UnixPath) : SbplFilter → Bool
  | .any => true
  | .self | .globalNames _ => false
  | .literal path' => path = path'
  | .subpath base => path.startsWith base

structure SbplRule where
  allow : Bool
  operations : List SbplOperation
  filter : SbplFilter

def SbplRule.applies (operation : SbplOperation) (path : UnixPath) (rule : SbplRule) : Bool :=
  rule.operations.any (·.covers operation) && rule.filter.matchesPath path

def profileDirs : List UnixPath :=
  ["/usr", "/bin", "/sbin", "/System", "/Library/Apple", "/private/etc", "/opt", "/usr/local"].map
    pathOf

/-- `build_sbpl_profile`. -/
def buildSbplProfile (policy : SandboxPolicy) (cwd sessionTmp : UnixPath) : List SbplRule :=
  [⟨false, [.default], .any⟩,
    ⟨true, [.processExec], .any⟩, ⟨true, [.processFork], .any⟩, ⟨true, [.signal], .self⟩,
    ⟨true, [.sysctlRead], .any⟩,
    ⟨true, [.fileReadData], .literal (pathOf "/")⟩,
    ⟨true, [.machLookup], .globalNames ["com.apple.system.logger",
      "com.apple.system.opendirectoryd.api", "com.apple.system.opendirectoryd.membership",
      "com.apple.system.DirectoryService.libinfo_v1", "com.apple.bsd.dirhelper"]⟩,
    ⟨true, [.ipcPosixShm], .any⟩] ++
    profileDirs.map (fun dir => ⟨true, [.fileRead], .subpath dir⟩) ++
    [⟨true, [.fileReadMetadata], .subpath (pathOf "/")⟩,
      ⟨true, [.fileRead, .fileWrite], .literal (pathOf "/dev/null")⟩,
      ⟨true, [.fileRead], .literal (pathOf "/dev/zero")⟩,
      ⟨true, [.fileRead], .literal (pathOf "/dev/random")⟩,
      ⟨true, [.fileRead], .literal (pathOf "/dev/urandom")⟩,
      ⟨true, [.fileRead, .fileWrite], .literal (pathOf "/dev/tty")⟩,
      ⟨true, [.fileIoctl], .literal (pathOf "/dev/tty")⟩] ++
    [⟨true, [.fileRead, .fileWrite], .subpath sessionTmp⟩,
      ⟨true, [.fileRead, .fileWrite], .subpath cwd⟩] ++
    (policy.writablePaths.filter (· ≠ cwd)).map
      (fun path => ⟨true, [.fileRead, .fileWrite], .subpath path⟩) ++
    policy.readonlyPaths.map (fun path => ⟨true, [.fileRead], .subpath path⟩) ++
    policy.hiddenPaths.map (fun path => ⟨false, [.fileRead, .fileWrite], .subpath path⟩) ++
    if policy.isolateNetwork then [] else [⟨true, [.network], .any⟩]

structure SeatbeltCommand where
  profile : List SbplRule
  clearEnv : Bool
  settings : List (List Char × List Char)
  words : List (List Char)

/-- `build_seatbelt_args`; `display` is the text of a path. -/
def buildSeatbeltArgs (machine : Machine) (display : UnixPath → List Char) (cmd : List Char)
    (policy : SandboxPolicy) (cwd : UnixPath) : SeatbeltCommand where
  profile := buildSbplProfile policy cwd (sessionTmp cwd)
  clearEnv := policy.clearEnv
  settings := ("TMPDIR".toList, display (sessionTmp cwd)) ::
    if policy.clearEnv then
      policy.keepEnv.filterMap fun key => (machine.var key).map fun value => (key, value)
    else []
  words := ["bash".toList, "-c".toList, cmd]

/-- The last rule that matches decides. -/
def profileAllows (rules : List SbplRule) (operation : SbplOperation) (path : UnixPath) : Bool :=
  (decisive (·.applies operation path) rules).elim false (·.allow)

/-! ## Paths without links -/

/-- A path from the root, by names alone. -/
def Normalised (path : UnixPath) : Prop := ∃ names : List (List Char), path = .rootDir :: names.map .normal

/-- A normalised path on which there is no link: whatever of it exists is its own canonical form. -/
structure Plain (host : Host) (path : UnixPath) : Prop where
  normalised : Normalised path
  straight : ∀ base canonical, base <+: path → host.canonicalize base = some canonical →
    canonical = base

section Plain

variable {host : Host} {path base tail : UnixPath}

lemma locate_normal (names : List (List Char)) (place : List (List Char)) :
    locate place (names.map .normal) = place ++ names := by
  induction names generalizing place with
  | nil => simp [locate]
  | cons name names ih =>
    change locate (place ++ [name]) (names.map .normal) = _
    rw [ih, List.append_assoc]
    rfl

lemma mountPoint_of_normalised (h : Normalised path) : mountPoint path = path := by
  obtain ⟨names, rfl⟩ := h
  change _ :: (locate [] (names.map .normal)).map _ = _
  rw [locate_normal, List.nil_append]

lemma isAbsolute_of_normalised (h : Normalised path) : path.isAbsolute = true := by
  obtain ⟨names, rfl⟩ := h
  simp [isAbsolute]

/-- Behind its first component a normalised path has only names. -/
lemma normal_of_normalised {component : PathComponent} (h : Normalised (base ++ tail))
    (hbase : base ≠ []) (hmem : component ∈ tail) : ∃ name, component = .normal name := by
  obtain ⟨names, hnames⟩ := h
  obtain ⟨first, base, rfl⟩ := List.exists_cons_of_ne_nil hbase
  obtain ⟨-, htail⟩ := List.cons.inj hnames
  have hin : component ∈ names.map PathComponent.normal := htail ▸ List.mem_append_right base hmem
  obtain ⟨name, -, rfl⟩ := List.mem_map.mp hin
  exact ⟨name, rfl⟩

lemma resolveLoop_of_plain (h : Plain host path) {above : UnixPath}
    (hfront : above.reverse ++ tail <+: path) {place : UnixPath}
    (hloop : resolveLoop host above tail = some place) : place = above.reverse ++ tail := by
  induction above generalizing tail with
  | nil => simp [resolveLoop, host.canonicalize_nil] at hloop
  | cons component above ih =>
    cases hc : host.canonicalize (component :: above).reverse with
    | some canonical =>
      have hne : (component :: above).reverse ≠ [] := by simp
      have hroot : PathComponent.rootDir ∉ tail ∧ PathComponent.curDir ∉ tail := by
        obtain ⟨rest, hrest⟩ := hfront
        have hnormal := h.normalised
        rw [← hrest, List.append_assoc] at hnormal
        constructor <;> intro hmem <;>
          cases (normal_of_normalised hnormal hne (List.mem_append_left rest hmem)).choose_spec
      have hstraight := h.straight _ _ ((List.prefix_append _ tail).trans hfront) hc
      rw [resolveLoop_of_canonicalize (by simp) hc, join_tail
        (host.isAbsolute_canonicalize _ _ hc) hroot.1] at hloop
      have hfilter : tail.filter (· ≠ .curDir) = tail := by
        refine List.filter_eq_self.mpr fun component hmem => ?_
        exact decide_eq_true fun heq => hroot.2 (heq ▸ hmem)
      rw [← Option.some_inj.mp hloop, hstraight, hfilter]
    | none =>
      by_cases hroot : component = .rootDir
      · rw [resolveLoop, hc, if_pos hroot] at hloop
        cases hloop
      · rw [resolveLoop_of_canonicalize_none hc hroot] at hloop
        have hsame : (component :: above).reverse ++ tail = above.reverse ++ component :: tail := by
          simp
        rw [hsame] at hfront ⊢
        exact ih hfront hloop

/-- What a plain path lies below, as it is written, resolves to itself. -/
lemma resolve_of_plain (h : Plain host path) (hbase : base <+: path) :
    resolveForAccessCheck host base = base := by
  unfold resolveForAccessCheck
  cases hloop : resolveLoop host base.reverse [] with
  | none => rfl
  | some place =>
    have hplace := resolveLoop_of_plain h (by simpa using hbase) hloop
    simpa using hplace

/-- The path is one of the others as they are written, or lies below it. -/
def WrittenBelow (path : UnixPath) (others : List UnixPath) : Prop :=
  ∃ other ∈ others, other <+: path

lemma WrittenBelow.resolvesBelow {others : List UnixPath} (h : Plain host path)
    (hbelow : WrittenBelow path others) : ResolvesBelow host path others := by
  obtain ⟨other, hmem, hother⟩ := hbelow
  refine ⟨other, hmem, ?_⟩
  rwa [resolve_of_plain h hother, resolve_of_plain h List.prefix_rfl]

/-- What the path guard asks of a plain path. -/
lemma checkPathAccess_plain {policy : SandboxPolicy} {write : Bool} (h : Plain host path)
    (hlevel : policy.level ≠ .unrestricted) :
    checkPathAccess host path write policy = .ok () ↔
      ¬ ResolvesBelow host path policy.hiddenPaths ∧
        (write = true → ResolvesBelow host path policy.writablePaths) := by
  have hcandidate : candidate host path = path :=
    if_pos (isAbsolute_of_normalised h.normalised)
  rw [checkPathAccess_eq_ok hlevel, hcandidate]

end Plain

/-! ## What a profile allows -/

section Profile

variable {operation : SbplOperation} {path : UnixPath} {rules rules' : List SbplRule}

/-- Rules with one verdict that come last decide wherever one of them applies. -/
lemma profileAllows_append (verdict : Bool) (h : ∀ rule ∈ rules', rule.allow = verdict) :
    profileAllows (rules ++ rules') operation path =
      if rules'.any (·.applies operation path) then verdict
      else profileAllows rules operation path := by
  unfold profileAllows
  rw [decisive_append]
  cases hlast : decisive (·.applies operation path) rules' with
  | some rule =>
    obtain ⟨hmem, happlies⟩ := mem_of_decisive hlast
    have hany : rules'.any (·.applies operation path) = true :=
      List.any_eq_true.mpr ⟨rule, hmem, happlies⟩
    simpa [hany] using h rule hmem
  | none =>
    have hany : rules'.any (·.applies operation path) = false :=
      List.any_eq_false.mpr fun rule hmem => by
        simpa using decisive_eq_none_iff.mp hlast rule hmem
    simp [hany]

/-- The rules of a profile that allow something, in front of the hidden paths. -/
def allowRules (policy : SandboxPolicy) (cwd sessionTmp : UnixPath) : List SbplRule :=
  [⟨true, [.processExec], .any⟩, ⟨true, [.processFork], .any⟩, ⟨true, [.signal], .self⟩,
    ⟨true, [.sysctlRead], .any⟩,
    ⟨true, [.fileReadData], .literal (pathOf "/")⟩,
    ⟨true, [.machLookup], .globalNames ["com.apple.system.logger",
      "com.apple.system.opendirectoryd.api", "com.apple.system.opendirectoryd.membership",
      "com.apple.system.DirectoryService.libinfo_v1", "com.apple.bsd.dirhelper"]⟩,
    ⟨true, [.ipcPosixShm], .any⟩] ++
    (profileDirs.map (fun dir => ⟨true, [.fileRead], .subpath dir⟩) ++
    ([⟨true, [.fileReadMetadata], .subpath (pathOf "/")⟩,
      ⟨true, [.fileRead, .fileWrite], .literal (pathOf "/dev/null")⟩,
      ⟨true, [.fileRead], .literal (pathOf "/dev/zero")⟩,
      ⟨true, [.fileRead], .literal (pathOf "/dev/random")⟩,
      ⟨true, [.fileRead], .literal (pathOf "/dev/urandom")⟩,
      ⟨true, [.fileRead, .fileWrite], .literal (pathOf "/dev/tty")⟩,
      ⟨true, [.fileIoctl], .literal (pathOf "/dev/tty")⟩] ++
    ([⟨true, [.fileRead, .fileWrite], .subpath sessionTmp⟩,
      ⟨true, [.fileRead, .fileWrite], .subpath cwd⟩] ++
    ((policy.writablePaths.filter (· ≠ cwd)).map
      (fun path => ⟨true, [.fileRead, .fileWrite], .subpath path⟩) ++
    policy.readonlyPaths.map (fun path => ⟨true, [.fileRead], .subpath path⟩)))))

def denyRules (policy : SandboxPolicy) : List SbplRule :=
  policy.hiddenPaths.map fun path => ⟨false, [.fileRead, .fileWrite], .subpath path⟩

lemma buildSbplProfile_eq (policy : SandboxPolicy) (cwd sessionTmp : UnixPath) :
    buildSbplProfile policy cwd sessionTmp =
      [⟨false, [.default], .any⟩] ++ allowRules policy cwd sessionTmp ++ denyRules policy ++
        if policy.isolateNetwork then [] else [⟨true, [.network], .any⟩] := by
  simp only [buildSbplProfile, allowRules, denyRules, List.append_assoc, List.cons_append,
    List.nil_append]

lemma allow_allowRules (policy : SandboxPolicy) (cwd sessionTmp : UnixPath) :
    ∀ rule ∈ allowRules policy cwd sessionTmp, rule.allow = true := by
  simp only [allowRules, List.forall_mem_append, List.forall_mem_cons, List.forall_mem_map]
  simp

/-- Reading and writing is allowed where a rule allows it, and no path that is hidden as it is
written lies above. -/
lemma profileAllows_iff (policy : SandboxPolicy) (cwd sessionTmp : UnixPath)
    (hoperation : operation = .fileReadData ∨ operation = .fileWrite) :
    profileAllows (buildSbplProfile policy cwd sessionTmp) operation path = true ↔
      (allowRules policy cwd sessionTmp).any (·.applies operation path) = true ∧
        ¬ WrittenBelow path policy.hiddenPaths := by
  have hnetwork : ((if policy.isolateNetwork then [] else
      [⟨true, [.network], .any⟩] : List SbplRule).any (·.applies operation path)) = false := by
    rcases hoperation with rfl | rfl <;> cases policy.isolateNetwork <;> rfl
  have hdeny : (denyRules policy).any (·.applies operation path) = true ↔
      WrittenBelow path policy.hiddenPaths := by
    rcases hoperation with rfl | rfl <;>
      simp [denyRules, SbplRule.applies, SbplOperation.covers, SbplFilter.matchesPath, WrittenBelow]
  have hdefault : profileAllows [⟨false, [.default], .any⟩] operation path = false := rfl
  rw [buildSbplProfile_eq, profileAllows_append true (by cases policy.isolateNetwork <;> simp),
    hnetwork, if_neg Bool.false_ne_true, profileAllows_append false (by simp [denyRules]),
    profileAllows_append true (allow_allowRules policy cwd sessionTmp), hdefault]
  by_cases hhidden : WrittenBelow path policy.hiddenPaths
  · simp [hdeny.mpr hhidden, hhidden]
  · have hnot : (denyRules policy).any (·.applies operation path) = false :=
      Bool.eq_false_iff.mpr fun h => hhidden (hdeny.mp h)
    simp [hnot, hhidden]

lemma ne_of_not_dev {device : UnixPath} (hdev : ¬ pathOf "/dev" <+: path)
    (hdevice : pathOf "/dev" <+: device) : path ≠ device := fun h => hdev (h ▸ hdevice)

lemma prefix_sessionTmp (cwd : UnixPath) : cwd <+: sessionTmp cwd := by
  unfold sessionTmp join
  split
  · next h =>
    have hrelative : (pathOf ".tmp").isAbsolute = false := by decide
    simp only [hrelative, Bool.false_eq_true, false_or] at h
    simp [h]
  · exact List.prefix_append _ _

/-- What a profile lets a command write to. -/
lemma profileAllows_write_iff {policy : SandboxPolicy} {cwd : UnixPath}
    (hcwd : cwd ∈ policy.writablePaths) (hdev : ¬ pathOf "/dev" <+: path) :
    profileAllows (buildSbplProfile policy cwd (sessionTmp cwd)) .fileWrite path = true ↔
      WrittenBelow path policy.writablePaths ∧ ¬ WrittenBelow path policy.hiddenPaths := by
  have hnull := ne_of_not_dev hdev (by decide : pathOf "/dev" <+: pathOf "/dev/null")
  have htty := ne_of_not_dev hdev (by decide : pathOf "/dev" <+: pathOf "/dev/tty")
  have hnone : ∀ dirs : List UnixPath, (dirs.any fun _ => false) = false := by simp
  rw [profileAllows_iff _ _ _ (.inr rfl)]
  refine and_congr_left fun _ => ?_
  simp only [allowRules, List.any_append, List.any_cons, List.any_nil, List.any_map,
    SbplRule.applies, SbplOperation.covers, SbplFilter.matchesPath, Function.comp_def, hnull, htty]
  simp only [decide_false, decide_true, reduceCtorEq, Bool.or_false, Bool.false_or, Bool.false_and,
    Bool.true_and, Bool.and_false, List.any_filter, Bool.or_true, hnone, Bool.or_eq_true,
    startsWith_iff, List.any_eq_true, Bool.and_eq_true, decide_eq_true_eq]
  constructor
  · rintro ((htmp | hbelow) | ⟨writable, hmem, -, hbelow⟩)
    · exact ⟨cwd, hcwd, (prefix_sessionTmp cwd).trans htmp⟩
    · exact ⟨cwd, hcwd, hbelow⟩
    · exact ⟨writable, hmem, hbelow⟩
  · rintro ⟨writable, hmem, hbelow⟩
    by_cases heq : writable = cwd
    · exact .inl (.inr (heq ▸ hbelow))
    · exact .inr ⟨writable, hmem, heq, hbelow⟩

/-- The path is the root, or lies below a directory that every profile opens or below one that is
listed as readable or writable. -/
def InProfile (policy : SandboxPolicy) (path : UnixPath) : Prop :=
  path = pathOf "/" ∨
    WrittenBelow path (profileDirs ++ (policy.writablePaths ++ policy.readonlyPaths))

/-- What a profile lets a command read. -/
lemma profileAllows_read_iff {policy : SandboxPolicy} {cwd : UnixPath}
    (hcwd : cwd ∈ policy.writablePaths) (hdev : ¬ pathOf "/dev" <+: path) :
    profileAllows (buildSbplProfile policy cwd (sessionTmp cwd)) .fileReadData path = true ↔
      InProfile policy path ∧ ¬ WrittenBelow path policy.hiddenPaths := by
  have hnull := ne_of_not_dev hdev (by decide : pathOf "/dev" <+: pathOf "/dev/null")
  have htty := ne_of_not_dev hdev (by decide : pathOf "/dev" <+: pathOf "/dev/tty")
  have hzero := ne_of_not_dev hdev (by decide : pathOf "/dev" <+: pathOf "/dev/zero")
  have hrandom := ne_of_not_dev hdev (by decide : pathOf "/dev" <+: pathOf "/dev/random")
  have hurandom :=
    ne_of_not_dev hdev (by decide : pathOf "/dev" <+: pathOf "/dev/urandom")
  rw [profileAllows_iff _ _ _ (.inl rfl)]
  refine and_congr_left fun _ => ?_
  simp only [allowRules, List.any_append, List.any_cons, List.any_nil, List.any_map,
    SbplRule.applies, SbplOperation.covers, SbplFilter.matchesPath, Function.comp_def, hnull, htty,
    hzero, hrandom, hurandom]
  simp only [decide_false, decide_true, reduceCtorEq, Bool.or_false, Bool.false_or, Bool.false_and,
    Bool.true_and, Bool.and_false, List.any_filter, Bool.or_eq_true,
    startsWith_iff, List.any_eq_true, Bool.and_eq_true, decide_eq_true_eq]
  unfold InProfile WrittenBelow
  simp only [List.mem_append]
  constructor
  · rintro (hroot | ⟨dir, hmem, hbelow⟩ | (htmp | hbelow) | ⟨writable, hmem, -, hbelow⟩ |
      ⟨readonly, hmem, hbelow⟩)
    · exact .inl hroot
    · exact .inr ⟨dir, .inl hmem, hbelow⟩
    · exact .inr ⟨cwd, .inr (.inl hcwd), (prefix_sessionTmp cwd).trans htmp⟩
    · exact .inr ⟨cwd, .inr (.inl hcwd), hbelow⟩
    · exact .inr ⟨writable, .inr (.inl hmem), hbelow⟩
    · exact .inr ⟨readonly, .inr (.inr hmem), hbelow⟩
  · rintro (hroot | ⟨dir, hmem | hmem | hmem, hbelow⟩)
    · exact .inl hroot
    · exact .inr (.inl ⟨dir, hmem, hbelow⟩)
    · by_cases heq : dir = cwd
      · exact .inr (.inr (.inl (.inr (heq ▸ hbelow))))
      · exact .inr (.inr (.inr (.inl ⟨dir, hmem, heq, hbelow⟩)))
    · exact .inr (.inr (.inr (.inr ⟨dir, hmem, hbelow⟩)))

end Profile

/-! ## What bubblewrap shows -/

section Bubblewrap

variable (machine : Machine) (policy : SandboxPolicy) (cwd : UnixPath)

/-- The last of the paths below which a path of the sandbox lies. -/
def lastAbove (dirs : List UnixPath) (path : UnixPath) : Option UnixPath :=
  decisive (fun dir => (mountPoint dir).isPrefixOf path) dirs

/-- The host path to which a path below the place of `dest` leads. -/
def leadsTo (source dest path : UnixPath) (write : Bool) : Option (UnixPath × Bool) :=
  (machine.canonicalize source).map fun canonical =>
    (canonical ++ path.drop (mountPoint dest).length, write)

/-- The host path that a command finds under a path of the sandbox, and whether it can write to it
there: nothing below a hidden path that exists; below a read-only path, a writable one and `/tmp`,
in this order, what these lead to; and otherwise the directories of the system. -/
def found (path : UnixPath) : Option (UnixPath × Bool) :=
  if (policy.hiddenPaths.filter machine.exists?).any fun hidden =>
      (mountPoint hidden).isPrefixOf path then none
  else
    match lastAbove policy.readonlyPaths path, lastAbove policy.writablePaths path with
    | some readonly, _ => leadsTo machine readonly readonly path false
    | none, some writable => leadsTo machine writable writable path true
    | none, none =>
      if (pathOf "/tmp").isPrefixOf path then
        leadsTo machine (sessionTmp cwd) (pathOf "/tmp") path true
      else if (pathOf "/dev").isPrefixOf path || (pathOf "/proc").isPrefixOf path then none
      else (lastAbove (systemDirs.filter machine.exists?) path).bind fun dir =>
        leadsTo machine dir dir path false

/-- What is listed as readable or writable exists, and so does the temporary directory. -/
def Startable : Prop :=
  (∀ path ∈ policy.writablePaths ++ policy.readonlyPaths, machine.exists? path = true) ∧
    machine.exists? (sessionTmp cwd) = true

/-- The mount of a listed path on itself. -/
def mountOf (write : Bool) (dir : UnixPath) : Mount PathComponent :=
  ⟨machine.canonicalize dir, mountPoint dir, write⟩

variable {machine policy cwd} {path place : UnixPath} {write : Bool}

/-- The mounts of a command, in order. -/
lemma mounts_buildBwrapArgs (cmd : List Char) :
    (buildBwrapArgs machine cmd policy cwd).filterMap (·.mount? machine) =
      (systemDirs.filter machine.exists?).map (mountOf machine false) ++
        ([⟨none, mountPoint (pathOf "/proc"), true⟩, ⟨none, mountPoint (pathOf "/dev"), true⟩] ++
        ([⟨machine.canonicalize (sessionTmp cwd), mountPoint (pathOf "/tmp"), true⟩] ++
        ([mountOf machine true cwd] ++
        (policy.writablePaths.map (mountOf machine true) ++
        (policy.readonlyPaths.map (mountOf machine false) ++
        (policy.hiddenPaths.filterMap (hide machine)).filterMap (·.mount? machine)))))) := by
  have henv : (if policy.clearEnv then
      .clearenv :: policy.keepEnv.filterMap fun key => (machine.var key).map (.setenv key)
    else [] : List BwrapArg).filterMap (·.mount? machine) = [] := by
    split
    · refine List.filterMap_eq_nil_iff.mpr fun arg hmem => ?_
      rcases List.mem_cons.mp hmem with rfl | hmem
      · rfl
      · obtain ⟨key, -, hkey⟩ := List.mem_filterMap.mp hmem
        obtain ⟨value, -, rfl⟩ := Option.map_eq_some_iff.mp hkey
        rfl
    · rfl
  have hnet : (if policy.isolateNetwork then [.unshareNet] else [] : List BwrapArg).filterMap
      (·.mount? machine) = [] := by cases policy.isolateNetwork <;> rfl
  have hpid : (if policy.isolatePid then [.unsharePid] else [] : List BwrapArg).filterMap
      (·.mount? machine) = [] := by cases policy.isolatePid <;> rfl
  have hbind : ∀ dirs : List UnixPath, (dirs.map fun dir => BwrapArg.bind dir dir).filterMap
      (·.mount? machine) = dirs.map (mountOf machine true) := fun dirs =>
    List.filterMap_map.trans (congrFun List.filterMap_eq_map dirs)
  have hroBind : ∀ dirs : List UnixPath, (dirs.map fun dir => BwrapArg.roBind dir dir).filterMap
      (·.mount? machine) = dirs.map (mountOf machine false) := fun dirs =>
    List.filterMap_map.trans (congrFun List.filterMap_eq_map dirs)
  simp only [buildBwrapArgs, List.filterMap_append, henv, hnet, hpid, hbind, hroBind,
    List.append_assoc, List.nil_append]
  simp [BwrapArg.mount?, mountOf]

/-- A command is started exactly when what it mounts exists. -/
lemma isReady_buildBwrapArgs (cmd : List Char) (hcwd : cwd ∈ policy.writablePaths) :
    (buildBwrapArgs machine cmd policy cwd).all (·.isReady machine) = true ↔
      Startable machine policy cwd := by
  have hsystem : ((systemDirs.filter machine.exists?).map fun dir => BwrapArg.roBind dir dir).all
      (·.isReady machine) = true := by
    rw [List.all_map, List.all_eq_true]
    exact fun dir hmem => (List.mem_filter.mp hmem).2
  have henv : (if policy.clearEnv then
      .clearenv :: policy.keepEnv.filterMap fun key => (machine.var key).map (.setenv key)
    else [] : List BwrapArg).all (·.isReady machine) = true := by
    split
    · refine List.all_eq_true.mpr fun arg hmem => ?_
      rcases List.mem_cons.mp hmem with rfl | hmem
      · rfl
      · obtain ⟨key, -, hkey⟩ := List.mem_filterMap.mp hmem
        obtain ⟨value, -, rfl⟩ := Option.map_eq_some_iff.mp hkey
        rfl
    · rfl
  have hhidden : (policy.hiddenPaths.filterMap (hide machine)).all (·.isReady machine) = true := by
    refine List.all_eq_true.mpr fun arg hmem => ?_
    obtain ⟨hidden, -, hhide⟩ := List.mem_filterMap.mp hmem
    obtain ⟨isDir, -, rfl⟩ := Option.map_eq_some_iff.mp hhide
    cases isDir with
    | true => rfl
    | false =>
      change (machine.canonicalize (pathOf "/dev/null")).isSome = true
      rw [machine.canonicalize_null]
      rfl
  have hnet : (if policy.isolateNetwork then [.unshareNet] else [] : List BwrapArg).all
      (·.isReady machine) = true := by cases policy.isolateNetwork <;> rfl
  have hpid : (if policy.isolatePid then [.unsharePid] else [] : List BwrapArg).all
      (·.isReady machine) = true := by cases policy.isolatePid <;> rfl
  simp only [buildBwrapArgs, List.all_append, hsystem, henv, hhidden, hnet, hpid, List.all_map,
    Bool.and_true, Bool.true_and, Startable]
  simp only [List.all_cons, List.all_nil, BwrapArg.isReady, Function.comp_def, Bool.and_true,
    Bool.true_and, Bool.and_eq_true, List.all_eq_true, List.forall_mem_append]
  constructor
  · rintro ⟨⟨⟨htmp, -⟩, hwritable⟩, hreadonly⟩
    exact ⟨⟨hwritable, hreadonly⟩, htmp⟩
  · rintro ⟨⟨hwritable, hreadonly⟩, htmp⟩
    exact ⟨⟨⟨htmp, hwritable cwd hcwd⟩, hwritable⟩, hreadonly⟩

/-- The mount on which a path of the sandbox lies, among those of listed paths. -/
lemma decisive_mountOf (dirs : List UnixPath) :
    decisive (fun mount => mount.dest.isPrefixOf path) (dirs.map (mountOf machine write)) =
      (lastAbove dirs path).map (mountOf machine write) :=
  decisive_map fun _ => rfl

/-- What covers a hidden path shows nothing of the host but `/dev/null`. -/
lemma decisive_hidden {mount : Mount PathComponent}
    (h : decisive (fun mount => mount.dest.isPrefixOf path)
      ((policy.hiddenPaths.filterMap (hide machine)).filterMap (·.mount? machine)) = some mount) :
    mount.source = none ∨ mount.source = some (pathOf "/dev/null") := by
  obtain ⟨arg, harg, hmount⟩ := List.mem_filterMap.mp (mem_of_decisive h).1
  obtain ⟨hidden, -, hhide⟩ := List.mem_filterMap.mp harg
  obtain ⟨isDir, -, rfl⟩ := Option.map_eq_some_iff.mp hhide
  cases isDir with
  | true =>
    cases hmount
    exact .inl rfl
  | false =>
    cases hmount
    exact .inr machine.canonicalize_null

/-- A path of the sandbox is covered when it lies below a hidden path that exists. -/
lemma decisive_hidden_eq_none :
    decisive (fun mount => mount.dest.isPrefixOf path)
        ((policy.hiddenPaths.filterMap (hide machine)).filterMap (·.mount? machine)) = none ↔
      ((policy.hiddenPaths.filter machine.exists?).any fun hidden =>
        (mountPoint hidden).isPrefixOf path) = false := by
  have hdest : ∀ (hidden : UnixPath) (isDir : Bool), ∃ mount : Mount PathComponent,
      (if isDir then BwrapArg.tmpfs hidden else .roBind (pathOf "/dev/null") hidden).mount?
        machine = some mount ∧ mount.dest = mountPoint hidden := by
    intro hidden isDir
    cases isDir with
    | true => exact ⟨_, rfl, rfl⟩
    | false => exact ⟨_, rfl, rfl⟩
  rw [decisive_eq_none_iff, List.any_eq_false]
  constructor
  · intro h hidden hmem
    obtain ⟨hlisted, hexists⟩ := List.mem_filter.mp hmem
    obtain ⟨canonical, hcanonical⟩ := Option.isSome_iff_exists.mp hexists
    obtain ⟨mount, hmount, hplace⟩ := hdest hidden (machine.isDir canonical)
    have hhide : hide machine hidden = some (if machine.isDir canonical then .tmpfs hidden
        else .roBind (pathOf "/dev/null") hidden) := by
      simp [hide, Machine.metadata, hcanonical]
    have hcovered := h mount (List.mem_filterMap.mpr
      ⟨_, List.mem_filterMap.mpr ⟨hidden, hlisted, hhide⟩, hmount⟩)
    rw [← hplace, hcovered]
    exact Bool.false_ne_true
  · intro h mount hmem
    obtain ⟨arg, harg, hmount⟩ := List.mem_filterMap.mp hmem
    obtain ⟨hidden, hlisted, hhide⟩ := List.mem_filterMap.mp harg
    obtain ⟨isDir, hdir, rfl⟩ := Option.map_eq_some_iff.mp hhide
    obtain ⟨canonical, hcanonical, -⟩ := Option.map_eq_some_iff.mp hdir
    obtain ⟨mount', hmount', hplace⟩ := hdest hidden isDir
    obtain rfl : mount' = mount := Option.some_inj.mp (hmount'.symm.trans hmount)
    have hexists : machine.exists? hidden = true := by simp [Machine.exists?, hcanonical]
    have hnot := h hidden (List.mem_filter.mpr ⟨hlisted, hexists⟩)
    rw [hplace]
    exact Bool.eq_false_iff.mpr hnot

/-- The mounts of a command show the host as `found` does. -/
lemma shows_buildBwrapArgs (cmd : List Char) (hcwd : cwd ∈ policy.writablePaths)
    (hdev : ¬ pathOf "/dev" <+: place) :
    shows ((buildBwrapArgs machine cmd policy cwd).filterMap (·.mount? machine)) path =
        some (place, write) ↔ found machine policy cwd path = some (place, write) := by
  have htmp : mountPoint (pathOf "/tmp") = pathOf "/tmp" := by decide
  have hproc : mountPoint (pathOf "/proc") = pathOf "/proc" := by decide
  have hdevice : mountPoint (pathOf "/dev") = pathOf "/dev" := by decide
  rw [mounts_buildBwrapArgs, shows, covering]
  simp only [decisive_append, decisive_mountOf]
  unfold found
  cases hhidden : decisive (fun mount : Mount PathComponent => mount.dest.isPrefixOf path)
      ((policy.hiddenPaths.filterMap (hide machine)).filterMap (·.mount? machine)) with
  | some mount =>
    have hcovered : ((policy.hiddenPaths.filter machine.exists?).any fun hidden =>
        (mountPoint hidden).isPrefixOf path) = true := by
      by_contra hnot
      rw [decisive_hidden_eq_none.mpr (Bool.eq_false_iff.mpr hnot)] at hhidden
      cases hhidden
    rw [if_pos hcovered]
    refine iff_of_false (fun h => ?_) (by simp)
    simp only [Option.some_or, Option.bind_some] at h
    rcases decisive_hidden hhidden with hsource | hsource
    · simp [hsource] at h
    · rw [hsource] at h
      obtain ⟨rfl, -⟩ := Prod.mk.inj (Option.some_inj.mp h)
      have hnull : pathOf "/dev" <+: pathOf "/dev/null" := by decide
      exact hdev (hnull.trans (List.prefix_append _ _))
  | none =>
    rw [if_neg (by simp [decisive_hidden_eq_none.mp hhidden])]
    cases hreadonly : lastAbove policy.readonlyPaths path with
    | some readonly => simp [mountOf, leadsTo]
    | none =>
      cases hwritable : lastAbove policy.writablePaths path with
      | some writable => simp [mountOf, leadsTo]
      | none =>
        -- the working directory is among the writable paths, so nothing lies below it here
        have hnot : (mountPoint cwd).isPrefixOf path = false :=
          decisive_eq_none_iff.mp hwritable cwd hcwd
        simp only [Option.map_none, Option.none_or, decisive_cons, mountOf,
          hnot, htmp, hproc, hdevice, decisive_nil]
        by_cases hunder : (pathOf "/tmp").isPrefixOf path = true
        · simp [hunder, leadsTo, htmp]
        · by_cases hdevices : (pathOf "/dev").isPrefixOf path = true
          · simp [hunder, hdevices]
          · by_cases hprocess : (pathOf "/proc").isPrefixOf path = true
            · simp [hunder, hdevices, hprocess]
            · cases hsystem : lastAbove (systemDirs.filter machine.exists?) path with
              | none => simp [hunder, hdevices, hprocess]
              | some dir => simp [hunder, hdevices, hprocess, leadsTo, mountOf]

/-- What a command under bubblewrap can modify and read. -/
lemma canWriteIn_buildBwrapArgs (cmd : List Char) (hcwd : cwd ∈ policy.writablePaths)
    (hdev : ¬ pathOf "/dev" <+: place) :
    CanWriteIn machine (buildBwrapArgs machine cmd policy cwd) place ↔
      Startable machine policy cwd ∧ ∃ path, found machine policy cwd path = some (place, true) := by
  rw [CanWriteIn, isReady_buildBwrapArgs cmd hcwd, CanWrite]
  simp only [shows_buildBwrapArgs cmd hcwd hdev]

lemma canReadIn_buildBwrapArgs (cmd : List Char) (hcwd : cwd ∈ policy.writablePaths)
    (hdev : ¬ pathOf "/dev" <+: place) :
    CanReadIn machine (buildBwrapArgs machine cmd policy cwd) place ↔
      Startable machine policy cwd ∧
        ∃ path write, found machine policy cwd path = some (place, write) := by
  rw [CanReadIn, isReady_buildBwrapArgs cmd hcwd, CanRead]
  simp only [shows_buildBwrapArgs cmd hcwd hdev]

end Bubblewrap

/-! ## Three interpretations of one policy -/

section Confined

variable (start : Machine) (now : Host) (display : UnixPath → List Char) (cmd : List Char)
  (policy : SandboxPolicy) (cwd path : UnixPath)

/-- A command that was built on the machine `start` reaches a path no further than the path guard
grants access to it, on the file system as it is now, and the two backends let it modify the path
alike. -/
structure Confined : Prop where
  bwrap_write : CanWriteIn start (buildBwrapArgs start cmd policy cwd) path →
    checkPathAccess now path true policy = .ok ()
  bwrap_read : CanReadIn start (buildBwrapArgs start cmd policy cwd) path →
    checkPathAccess now path false policy = .ok ()
  seatbelt_write : profileAllows (buildSeatbeltArgs start display cmd policy cwd).profile .fileWrite
    path = true → checkPathAccess now path true policy = .ok ()
  seatbelt_read : profileAllows (buildSeatbeltArgs start display cmd policy cwd).profile
    .fileReadData path = true → checkPathAccess now path false policy = .ok ()
  agree : CanWriteIn start (buildBwrapArgs start cmd policy cwd) path ↔
    profileAllows (buildSeatbeltArgs start display cmd policy cwd).profile .fileWrite path = true

/-- When the lists of a policy mean the same for a path in all three interpretations. -/
structure MeansTheSame : Prop where
  /-- what lies below the place a hidden path resolves to is found under no path of the sandbox -/
  nowhere : ResolvesBelow now path policy.hiddenPaths → Startable start policy cwd →
    ∀ place write, found start policy cwd place ≠ some (path, write)
  /-- and it is hidden as it is written, if it lies below anything the profile opens -/
  written : ResolvesBelow now path policy.hiddenPaths → InProfile policy path →
    WrittenBelow path policy.hiddenPaths
  /-- what is found and can be written to lies below a writable path as it is written -/
  listed : Startable start policy cwd →
    ∀ place, found start policy cwd place = some (path, true) →
      WrittenBelow path policy.writablePaths
  /-- what lies below a writable path as it is written, and below no hidden one, is found and can
  be written to -/
  kept : WrittenBelow path policy.writablePaths → ¬ WrittenBelow path policy.hiddenPaths →
    Startable start policy cwd ∧ ∃ place, found start policy cwd place = some (path, true)

variable {start now policy cwd path}

/-- A policy confines a command with respect to a path if and only if its lists mean the same for
the path in all three interpretations. -/
theorem confined_iff (hlevel : policy.level ≠ .unrestricted) (hcwd : cwd ∈ policy.writablePaths)
    (hpath : Plain now path) (hdev : ¬ pathOf "/dev" <+: path) :
    Confined start now display cmd policy cwd path ↔ MeansTheSame start now policy cwd path := by
  have hread : checkPathAccess now path false policy = .ok () ↔
      ¬ ResolvesBelow now path policy.hiddenPaths := by
    simp [checkPathAccess_plain hpath hlevel]
  have hwrite : checkPathAccess now path true policy = .ok () ↔
      ¬ ResolvesBelow now path policy.hiddenPaths ∧
        ResolvesBelow now path policy.writablePaths := by
    simp [checkPathAccess_plain hpath hlevel]
  have hprofile : (buildSeatbeltArgs start display cmd policy cwd).profile =
      buildSbplProfile policy cwd (sessionTmp cwd) := rfl
  constructor
  · rintro ⟨hbwrapWrite, hbwrapRead, hseatbeltWrite, hseatbeltRead, hagree⟩
    rw [hprofile] at hseatbeltWrite hseatbeltRead hagree
    rw [canReadIn_buildBwrapArgs cmd hcwd hdev, hread] at hbwrapRead
    rw [profileAllows_read_iff hcwd hdev, hread] at hseatbeltRead
    rw [canWriteIn_buildBwrapArgs cmd hcwd hdev, profileAllows_write_iff hcwd hdev] at hagree
    refine ⟨fun hhidden hstart place write hfound => ?_, fun hhidden hopen => ?_,
      fun hstart place hfound => ?_, fun hbelow hvisible => ?_⟩
    · exact hbwrapRead ⟨hstart, place, write, hfound⟩ hhidden
    · by_contra hnot
      exact hseatbeltRead ⟨hopen, hnot⟩ hhidden
    · exact (hagree.mp ⟨hstart, place, hfound⟩).1
    · exact hagree.mpr ⟨hbelow, hvisible⟩
  · rintro ⟨hnowhere, hwritten, hlisted, hkept⟩
    have hopen : WrittenBelow path policy.writablePaths → InProfile policy path := by
      rintro ⟨dir, hmem, hbelow⟩
      exact .inr ⟨dir, by simp [hmem], hbelow⟩
    have hvisible : Startable start policy cwd → ∀ place write,
        found start policy cwd place = some (path, write) →
          ¬ ResolvesBelow now path policy.hiddenPaths :=
      fun hstart place write hfound hhidden => hnowhere hhidden hstart place write hfound
    constructor
    · rw [canWriteIn_buildBwrapArgs cmd hcwd hdev, hwrite]
      rintro ⟨hstart, place, hfound⟩
      exact ⟨hvisible hstart place true hfound,
        (hlisted hstart place hfound).resolvesBelow hpath⟩
    · rw [canReadIn_buildBwrapArgs cmd hcwd hdev, hread]
      rintro ⟨hstart, place, write, hfound⟩
      exact hvisible hstart place write hfound
    · rw [hprofile, profileAllows_write_iff hcwd hdev, hwrite]
      rintro ⟨hbelow, hnot⟩
      exact ⟨fun hhidden => hnot (hwritten hhidden (hopen hbelow)),
        hbelow.resolvesBelow hpath⟩
    · rw [hprofile, profileAllows_read_iff hcwd hdev, hread]
      rintro ⟨hin, hnot⟩
      exact fun hhidden => hnot (hwritten hhidden hin)
    · rw [hprofile, canWriteIn_buildBwrapArgs cmd hcwd hdev, profileAllows_write_iff hcwd hdev]
      constructor
      · rintro ⟨hstart, place, hfound⟩
        exact ⟨hlisted hstart place hfound,
          fun hbelow => hvisible hstart place true hfound (hbelow.resolvesBelow hpath)⟩
      · rintro ⟨hbelow, hnot⟩
        exact hkept hbelow hnot

/-- What is listed is there as it is written, no read-only path lies in a writable one or around it,
and no hidden path in the temporary directory or around it, nor where a directory of the system is
a link to. -/
structure Straight (start : Machine) (now : Host) (policy : SandboxPolicy) (cwd : UnixPath) : Prop
    where
  listed : ∀ dir ∈ policy.writablePaths ++ (policy.readonlyPaths ++ policy.hiddenPaths),
    Normalised dir ∧ start.canonicalize dir = some dir
  tmp : start.canonicalize (sessionTmp cwd) = some (sessionTmp cwd)
  hidden : ∀ hidden ∈ policy.hiddenPaths, resolveForAccessCheck now hidden = hidden
  readonly : ∀ readonly ∈ policy.readonlyPaths, ∀ writable ∈ policy.writablePaths,
    ¬ readonly <+: writable ∧ ¬ writable <+: readonly
  apart : ∀ hidden ∈ policy.hiddenPaths,
    ¬ hidden <+: sessionTmp cwd ∧ ¬ sessionTmp cwd <+: hidden
  system : ∀ dir ∈ systemDirs, ∀ canonical, start.canonicalize dir = some canonical →
    canonical = dir ∨ ∀ hidden ∈ policy.hiddenPaths, ¬ hidden <+: canonical ∧ ¬ canonical <+: hidden

lemma prefix_or_prefix {dir dir' : UnixPath} (h : dir <+: path) (h' : dir' <+: path) :
    dir <+: dir' ∨ dir' <+: dir := by
  rcases Nat.le_total dir.length dir'.length with hle | hle
  · exact .inl (List.prefix_of_prefix_length_le h h' hle)
  · exact .inr (List.prefix_of_prefix_length_le h' h hle)

/-- A path listed as it is shows itself. -/
lemma leadsTo_self {dir place : UnixPath} {write : Bool} (hnormal : Normalised dir)
    (hcanonical : start.canonicalize dir = some dir) (hbelow : dir <+: place) :
    leadsTo start dir dir place write = some (place, write) := by
  obtain ⟨rest, rfl⟩ := hbelow
  rw [leadsTo, hcanonical, mountPoint_of_normalised hnormal, List.drop_left]
  rfl

lemma prefix_of_lastAbove {dirs : List UnixPath} {dir place : UnixPath}
    (h : lastAbove dirs place = some dir) : dir ∈ dirs ∧ mountPoint dir <+: place :=
  (mem_of_decisive h).imp_right List.isPrefixOf_iff_prefix.mp

/-- A path listed as it is, and found, is found under its own name. -/
lemma found_self {dirs : List UnixPath} {dir place : UnixPath} {write write' : Bool}
    (hdirs : ∀ dir ∈ dirs, Normalised dir ∧ start.canonicalize dir = some dir)
    (hover : lastAbove dirs place = some dir)
    (hleads : leadsTo start dir dir place write = some (path, write')) :
    dir ∈ dirs ∧ dir <+: place ∧ place = path := by
  obtain ⟨hmem, hbelow⟩ := prefix_of_lastAbove hover
  obtain ⟨hnormal, hcanonical⟩ := hdirs dir hmem
  rw [mountPoint_of_normalised hnormal] at hbelow
  rw [leadsTo_self hnormal hcanonical hbelow] at hleads
  exact ⟨hmem, hbelow, (Prod.mk.inj (Option.some_inj.mp hleads)).1⟩

lemma mountPoint_systemDirs {dir : UnixPath} (h : dir ∈ systemDirs) : mountPoint dir = dir := by
  have hall : ∀ dir ∈ systemDirs, mountPoint dir = dir := by decide
  exact hall dir h

/-- Under lists that are straight, what is found below a hidden path is not found at all. -/
lemma Straight.found_ne (h : Straight start now policy cwd) {hidden place : UnixPath} {write : Bool}
    (hmem : hidden ∈ policy.hiddenPaths) (hbelow : hidden <+: path) :
    found start policy cwd place ≠ some (path, write) := by
  obtain ⟨hwritable, hrest⟩ := List.forall_mem_append.mp h.listed
  obtain ⟨hreadonly, hhidden⟩ := List.forall_mem_append.mp hrest
  obtain ⟨hnormal, hcanonical⟩ := hhidden hidden hmem
  intro hfound
  unfold found at hfound
  split at hfound
  · cases hfound
  · next hvisible =>
    -- Under its own name the path is covered.
    have hplace : place ≠ path := by
      rintro rfl
      refine hvisible (List.any_eq_true.mpr ⟨hidden, List.mem_filter.mpr ⟨hmem, ?_⟩, ?_⟩)
      · rw [Machine.exists?, hcanonical]
        rfl
      · rw [mountPoint_of_normalised hnormal]
        exact List.isPrefixOf_iff_prefix.mpr hbelow
    split at hfound
    · next hover => exact hplace (found_self hreadonly hover hfound).2.2
    · next hover => exact hplace (found_self hwritable hover hfound).2.2
    · split at hfound
      · rw [leadsTo, h.tmp] at hfound
        have htmp := (Prod.mk.inj (Option.some_inj.mp hfound)).1
        rcases prefix_or_prefix hbelow (htmp ▸ List.prefix_append _ _) with hin | hin
        · exact (h.apart hidden hmem).1 hin
        · exact (h.apart hidden hmem).2 hin
      · split at hfound
        · cases hfound
        · obtain ⟨dir, hover, hleads⟩ := Option.bind_eq_some_iff.mp hfound
          obtain ⟨hdir, hunder⟩ := prefix_of_lastAbove hover
          obtain ⟨canonical, hlink, hshown⟩ := Option.map_eq_some_iff.mp hleads
          obtain ⟨rfl, -⟩ := Prod.mk.inj hshown
          rcases h.system dir (List.mem_filter.mp hdir).1 canonical hlink with rfl | hfar
          · refine hplace ?_
            have hpoint : mountPoint canonical = canonical :=
              mountPoint_systemDirs (List.mem_filter.mp hdir).1
            rw [hpoint] at hunder ⊢
            obtain ⟨rest, rfl⟩ := hunder
            rw [List.drop_left]
          · rcases prefix_or_prefix hbelow (List.prefix_append _ _) with hin | hin
            · exact (hfar hidden hmem).1 hin
            · exact (hfar hidden hmem).2 hin

/-- What is found and can be written to lies below a writable path. -/
lemma Straight.writtenBelow (h : Straight start now policy cwd) (hcwd : cwd ∈ policy.writablePaths)
    {place : UnixPath} (hfound : found start policy cwd place = some (path, true)) :
    WrittenBelow path policy.writablePaths := by
  obtain ⟨hwritable, -⟩ := List.forall_mem_append.mp h.listed
  unfold found at hfound
  split at hfound
  · cases hfound
  · split at hfound
    · obtain ⟨canonical, -, hshown⟩ := Option.map_eq_some_iff.mp hfound
      cases hshown
    · next hover =>
      obtain ⟨hmem, hbelow, rfl⟩ := found_self hwritable hover hfound
      exact ⟨_, hmem, hbelow⟩
    · split at hfound
      · rw [leadsTo, h.tmp] at hfound
        obtain ⟨rfl, -⟩ := Prod.mk.inj (Option.some_inj.mp hfound)
        exact ⟨cwd, hcwd, (prefix_sessionTmp cwd).trans (List.prefix_append _ _)⟩
      · split at hfound
        · cases hfound
        · obtain ⟨dir, -, hleads⟩ := Option.bind_eq_some_iff.mp hfound
          obtain ⟨canonical, -, hshown⟩ := Option.map_eq_some_iff.mp hleads
          cases hshown

/-- What lies below a writable path, and below no hidden one, is found under its own name. -/
lemma Straight.found_eq (h : Straight start now policy cwd)
    (hbelow : WrittenBelow path policy.writablePaths)
    (hvisible : ¬ WrittenBelow path policy.hiddenPaths) :
    found start policy cwd path = some (path, true) := by
  obtain ⟨hwritable, hrest⟩ := List.forall_mem_append.mp h.listed
  obtain ⟨hreadonly, hhidden⟩ := List.forall_mem_append.mp hrest
  obtain ⟨dir, hmem, hdir⟩ := hbelow
  have huncovered : ¬ ((policy.hiddenPaths.filter start.exists?).any fun hidden =>
      (mountPoint hidden).isPrefixOf path) = true := by
    intro hany
    obtain ⟨hidden, hlisted, hover⟩ := List.any_eq_true.mp hany
    have hin := (List.mem_filter.mp hlisted).1
    rw [mountPoint_of_normalised (hhidden hidden hin).1] at hover
    exact hvisible ⟨hidden, hin, List.isPrefixOf_iff_prefix.mp hover⟩
  have hnone : lastAbove policy.readonlyPaths path = none := by
    refine decisive_eq_none_iff.mpr fun readonly hin => Bool.eq_false_iff.mpr fun hover => ?_
    rw [mountPoint_of_normalised (hreadonly readonly hin).1, List.isPrefixOf_iff_prefix] at hover
    rcases prefix_or_prefix hover hdir with hle | hle
    · exact (h.readonly readonly hin dir hmem).1 hle
    · exact (h.readonly readonly hin dir hmem).2 hle
  unfold found
  rw [if_neg huncovered, hnone]
  cases hover : lastAbove policy.writablePaths path with
  | none =>
    have hnot := decisive_eq_none_iff.mp hover dir hmem
    rw [mountPoint_of_normalised (hwritable dir hmem).1, Bool.eq_false_iff] at hnot
    exact absurd (List.isPrefixOf_iff_prefix.mpr hdir) hnot
  | some writable =>
    obtain ⟨hin, hunder⟩ := prefix_of_lastAbove hover
    obtain ⟨hnormal, hcanonical⟩ := hwritable writable hin
    rw [mountPoint_of_normalised hnormal] at hunder
    exact leadsTo_self hnormal hcanonical hunder

lemma Straight.meansTheSame (h : Straight start now policy cwd)
    (hcwd : cwd ∈ policy.writablePaths) (hpath : Plain now path) :
    MeansTheSame start now policy cwd path := by
  obtain ⟨hwritable, hrest⟩ := List.forall_mem_append.mp h.listed
  obtain ⟨hreadonly, -⟩ := List.forall_mem_append.mp hrest
  have hwritten : ResolvesBelow now path policy.hiddenPaths →
      WrittenBelow path policy.hiddenPaths := by
    rintro ⟨hidden, hmem, hbelow⟩
    rw [h.hidden hidden hmem, resolve_of_plain hpath List.prefix_rfl] at hbelow
    exact ⟨hidden, hmem, hbelow⟩
  have hexists : ∀ {dir canonical : UnixPath}, start.canonicalize dir = some canonical →
      start.exists? dir = true := fun hcanonical => by
    rw [Machine.exists?, hcanonical]
    rfl
  have hstart : Startable start policy cwd := by
    refine ⟨List.forall_mem_append.mpr ⟨fun dir hmem => ?_, fun dir hmem => ?_⟩, hexists h.tmp⟩
    · exact hexists (hwritable dir hmem).2
    · exact hexists (hreadonly dir hmem).2
  refine ⟨fun hhidden _ place write => ?_, fun hhidden _ => hwritten hhidden,
    fun _ place hfound => h.writtenBelow hcwd hfound,
    fun hbelow hvisible => ⟨hstart, path, h.found_eq hbelow hvisible⟩⟩
  obtain ⟨hidden, hmem, hbelow⟩ := hwritten hhidden
  exact h.found_ne hmem hbelow

/-- Lists that are straight confine a command everywhere. -/
theorem confined_of_straight (h : Straight start now policy cwd)
    (hlevel : policy.level ≠ .unrestricted) (hcwd : cwd ∈ policy.writablePaths)
    (hpath : Plain now path) (hdev : ¬ pathOf "/dev" <+: path) :
    Confined start now display cmd policy cwd path :=
  (confined_iff display cmd hlevel hcwd hpath hdev).mpr (h.meansTheSame hcwd hpath)

end Confined

/-! ## A machine without links -/

/-- The path from the root that a path means in the directory `/work`. -/
def fromWork (path : UnixPath) : UnixPath :=
  if path.isAbsolute then path else (pathOf "/work").join path

lemma isAbsolute_fromWork (path : UnixPath) : (fromWork path).isAbsolute = true := by
  unfold fromWork
  split
  · next h => exact h
  · next h =>
    have hwork : pathOf "/work" = [.rootDir, .normal "work".toList] := by decide
    have hrelative : path.isAbsolute = false := Bool.eq_false_iff.mpr h
    have hjoin : (pathOf "/work").join path = pathOf "/work" ++ path.filter (· ≠ .curDir) :=
      if_neg (by simp [hrelative, hwork])
    rw [hjoin, hwork]
    simp [isAbsolute]

/-- `path` from the root, if it is one of the given files or directories. -/
def existing (files dirs : List UnixPath) (path : UnixPath) : Option UnixPath :=
  if !path.isEmpty && (pathOf "/dev/null" :: (files ++ dirs)).contains (fromWork path) then
    some (fromWork path)
  else none

lemma existing_eq_some_iff {files dirs : List UnixPath} {path canonical : UnixPath} :
    existing files dirs path = some canonical ↔
      path ≠ [] ∧ fromWork path ∈ pathOf "/dev/null" :: (files ++ dirs) ∧
        fromWork path = canonical := by
  unfold existing
  split
  · next h => simp_all
  · next h => grind

lemma isAbsolute_of_eq_some_work {dir : UnixPath} (h : some (pathOf "/work") = some dir) :
    dir.isAbsolute = true := by
  obtain rfl := Option.some_inj.mp h
  decide

lemma isAbsolute_of_existing {files dirs : List UnixPath} {path canonical : UnixPath}
    (h : existing files dirs path = some canonical) : canonical.isAbsolute = true := by
  obtain ⟨-, -, rfl⟩ := existing_eq_some_iff.mp h
  exact isAbsolute_fromWork path

lemma existing_nil (files dirs : List UnixPath) : existing files dirs [] = none := rfl

lemma existing_relative (files dirs : List UnixPath) {path : UnixPath}
    (hrelative : path.isAbsolute = false) (hne : path ≠ []) :
    existing files dirs path =
      (some (pathOf "/work")).bind fun dir => existing files dirs (dir.join path) := by
  have hjoin : (pathOf "/work").join path = fromWork path := by simp [fromWork, hrelative]
  have hself : fromWork (fromWork path) = fromWork path := if_pos (isAbsolute_fromWork path)
  have hnil : fromWork path ≠ [] := by
    intro h
    have habsolute := isAbsolute_fromWork path
    rw [h] at habsolute
    cases habsolute
  simp [existing, hne, hjoin, hself, hnil]

lemma existing_null (files dirs : List UnixPath) :
    existing files dirs (pathOf "/dev/null") = some (pathOf "/dev/null") := by
  have hnull : fromWork (pathOf "/dev/null") = pathOf "/dev/null" := by decide
  exact existing_eq_some_iff.mpr ⟨by decide, hnull ▸ List.mem_cons_self, hnull⟩

/-- A machine with the given files and directories and no links. -/
def linkless (files dirs : List UnixPath) : Machine where
  currentDir := some (pathOf "/work")
  homeDir := none
  canonicalize := existing files dirs
  toLowercase text := text.map Char.toLower
  isAbsolute_currentDir _ := isAbsolute_of_eq_some_work
  isAbsolute_canonicalize _ _ := isAbsolute_of_existing
  canonicalize_nil := existing_nil files dirs
  canonicalize_relative _ := existing_relative files dirs
  toLowercase_nil := List.map_nil
  isDir path := dirs.contains path
  var _ := none
  canonicalize_null := existing_null files dirs

lemma plain_linkless (files dirs : List UnixPath) {path : UnixPath} (h : Normalised path) :
    Plain (linkless files dirs).toHost path := by
  refine ⟨h, fun base canonical hbase hcanonical => ?_⟩
  obtain ⟨hne, -, rfl⟩ := existing_eq_some_iff.mp hcanonical
  obtain ⟨first, rest, rfl⟩ := List.exists_cons_of_ne_nil hne
  obtain ⟨names, rfl⟩ := h
  obtain ⟨rfl, -⟩ := List.cons_prefix_cons.mp hbase
  exact if_pos rfl

/-- A policy for `/work` that hides `/work/.ssh`. -/
def workPolicy : SandboxPolicy where
  level := .restricted
  writablePaths := [pathOf "/work"]
  hiddenPaths := [pathOf "/work/.ssh"]

/-- The hidden directory does not exist when the command starts: the command can create a key in
it. -/
theorem not_confined_absent :
    ¬ ∀ (start : Machine) (now : Host) (display : UnixPath → List Char) (cmd : List Char)
      (policy : SandboxPolicy) (cwd path : UnixPath), policy.level ≠ .unrestricted →
      cwd ∈ policy.writablePaths → Plain now path → ¬ pathOf "/dev" <+: path →
      ¬ pathOf "/proc" <+: path → Confined start now display cmd policy cwd path := by
  intro hall
  have hdev : ¬ pathOf "/dev" <+: pathOf "/work/.ssh/id_rsa" := by decide
  have hconfined := hall (linkless [] [pathOf "/", pathOf "/work", pathOf "/work/.tmp"])
    (linkless [] [pathOf "/", pathOf "/work", pathOf "/work/.tmp"]).toHost (fun _ => []) []
    workPolicy (pathOf "/work") (pathOf "/work/.ssh/id_rsa") (by decide) (by decide)
    (plain_linkless _ _ ⟨["work".toList, ".ssh".toList, "id_rsa".toList], by decide⟩)
    hdev (by decide)
  have hdenied : checkPathAccess (linkless [] [pathOf "/", pathOf "/work", pathOf "/work/.tmp"]).toHost
      (pathOf "/work/.ssh/id_rsa") true workPolicy ≠ .ok () := by decide
  refine hdenied (hconfined.bwrap_write ?_)
  refine (canWriteIn_buildBwrapArgs [] (by decide) hdev).mpr ⟨?_, ?_⟩
  · exact ⟨by decide, by decide⟩
  · exact ⟨pathOf "/work/.ssh/id_rsa", by decide⟩

/-- With the hidden directory in its place the lists mean the same for the key, and it is
confined. -/
theorem confined_iff_present :
    Confined (linkless [] [pathOf "/", pathOf "/work", pathOf "/work/.tmp", pathOf "/work/.ssh"])
        (linkless [] [pathOf "/", pathOf "/work", pathOf "/work/.tmp", pathOf "/work/.ssh"]).toHost
        (fun _ => []) [] workPolicy (pathOf "/work") (pathOf "/work/.ssh/id_rsa") ↔
      MeansTheSame
        (linkless [] [pathOf "/", pathOf "/work", pathOf "/work/.tmp", pathOf "/work/.ssh"])
        (linkless [] [pathOf "/", pathOf "/work", pathOf "/work/.tmp", pathOf "/work/.ssh"]).toHost
        workPolicy (pathOf "/work") (pathOf "/work/.ssh/id_rsa") :=
  confined_iff (fun _ => []) [] (by decide) (by decide)
    (plain_linkless _ _ ⟨["work".toList, ".ssh".toList, "id_rsa".toList], by decide⟩)
    (by decide)

end RustyClaw.Sandbox
