import Mathlib.Data.List.Forall2
import RustyClaw.Library.Argv
import RustyClaw.Library.Sexp
import RustyClaw.Tools.Confinement

/-!
# The command lines of the sandbox

`build_bwrap_args` and `build_seatbelt_args` write words, and `build_sbpl_profile` writes one text.
`buildBwrapArgs` and `buildSbplProfile` are what these are meant to say: mount operations and rules.
Here are the words themselves, made of the texts of paths and of the values of variables.

Bubblewrap reads its words by what each option takes (`bwrapArgument`), Seatbelt reads a profile as
symbolic expressions (`readProfile`), and `env` takes what has an equals sign for a setting
(`readEnv`).  `read_bwrapWords` and `readSeatbelt_seatbeltWords` say that what is read is what was
meant, for every policy: no path, value or command can add an option or a rule, or end one.
-/

namespace RustyClaw.Sandbox

open UnixPath

/-! ## The policy as it is written -/

/-- The text of a path, as `display` gives it. -/
abbrev PathText := List Char

/-- A policy with its paths as texts. -/
structure WrittenPolicy where
  level : SandboxLevel := .unrestricted
  writablePaths : List PathText := []
  readonlyPaths : List PathText := []
  isolateNetwork : Bool := false
  isolatePid : Bool := false
  clearEnv : Bool := false
  keepEnv : List (List Char) := []
  allowedDomains : List (List Char) := []
  hiddenPaths : List PathText := []

/-- The policy that the texts stand for. -/
def WrittenPolicy.policy (written : WrittenPolicy) : SandboxPolicy where
  level := written.level
  writablePaths := written.writablePaths.map parse
  readonlyPaths := written.readonlyPaths.map parse
  isolateNetwork := written.isolateNetwork
  isolatePid := written.isolatePid
  clearEnv := written.clearEnv
  keepEnv := written.keepEnv
  allowedDomains := written.allowedDomains
  hiddenPaths := written.hiddenPaths.map parse

/-- `Path::join` of a relative path: a separator is put in between where there is none yet. -/
def joinText (base : PathText) (rest : List Char) : PathText :=
  if base = [] ∨ base.getLast? = some '/' then base ++ rest else base ++ '/' :: rest

/-- `cwd.join(".tmp")`. -/
def sessionTmpText (cwd : PathText) : PathText := joinText cwd ".tmp".toList

/-! ## The words for bubblewrap -/

def systemDirTexts : List String := ["/usr", "/lib", "/lib64", "/bin", "/sbin", "/etc"]

/-- The operands of a hidden path that is there. -/
def hideWords (machine : Machine) (hidden : PathText) : List (List Char) :=
  match machine.metadata (parse hidden) with
  | none => []
  | some true => ["--tmpfs".toList, hidden]
  | some false => ["--ro-bind".toList, "/dev/null".toList, hidden]

/-- The variables that are kept and set. -/
def keptVars (machine : Machine) (keys : List (List Char)) : List (List Char × List Char) :=
  keys.filterMap fun key => (machine.var key).map fun value => (key, value)

/-- The words of `build_bwrap_args` behind the program. -/
def bwrapWords (machine : Machine) (cmd : List Char) (written : WrittenPolicy) (cwd : PathText) :
    List (List Char) :=
  (systemDirTexts.filter fun dir => machine.exists? (pathOf dir)).flatMap
      (fun dir => ["--ro-bind".toList, dir.toList, dir.toList]) ++
    (["--proc".toList, "/proc".toList] ++ ["--dev".toList, "/dev".toList]) ++
    ["--bind".toList, sessionTmpText cwd, "/tmp".toList] ++
    (if written.clearEnv then
      ["--clearenv".toList] ++ (keptVars machine written.keepEnv).flatMap
        fun (key, value) => ["--setenv".toList, key, value]
    else []) ++
    ["--bind".toList, cwd, cwd] ++
    written.writablePaths.flatMap (fun path => ["--bind".toList, path, path]) ++
    written.readonlyPaths.flatMap (fun path => ["--ro-bind".toList, path, path]) ++
    written.hiddenPaths.flatMap (hideWords machine) ++
    (if written.isolateNetwork then ["--unshare-net".toList] else []) ++
    (if written.isolatePid then ["--unshare-pid".toList] else []) ++
    (["--die-with-parent".toList] ++ ["--new-session".toList] ++ ["--chdir".toList, cwd]) ++
    "--".toList :: ["bash".toList, "-c".toList, cmd]

/-! ## The profile for Seatbelt -/

/-- `str::replace` of a character. -/
def replaceChar (c : Char) (replacement s : List Char) : List Char :=
  s.flatMap fun c' => if c' = c then replacement else [c']

def sbplEscape (s : List Char) : List Char :=
  replaceChar '"' ['\\', '"'] (replaceChar '\\' ['\\', '\\'] s)

def machServices : List String :=
  ["com.apple.system.logger", "com.apple.system.opendirectoryd.api",
    "com.apple.system.opendirectoryd.membership",
    "com.apple.system.DirectoryService.libinfo_v1", "com.apple.bsd.dirhelper"]

def machBlock : List Char :=
  "(allow mach-lookup\n".toList ++
    ['\n'].intercalate (machServices.map fun service =>
      "    (global-name \"".toList ++ service.toList ++ "\")".toList) ++
    ")".toList

/-- The lines in front of those for the paths of the policy. -/
def fixedLines : List (List Char) :=
  ["(version 1)", "(deny default)", "(allow process-exec)", "(allow process-fork)",
      "(allow signal (target self))", "(allow sysctl-read)",
      "(allow file-read-data (literal \"/\"))"].map String.toList ++
    [machBlock] ++
    ["(allow ipc-posix-shm)",
      "(allow file-read* (subpath \"/usr\"))", "(allow file-read* (subpath \"/bin\"))",
      "(allow file-read* (subpath \"/sbin\"))", "(allow file-read* (subpath \"/System\"))",
      "(allow file-read* (subpath \"/Library/Apple\"))",
      "(allow file-read* (subpath \"/private/etc\"))",
      "(allow file-read* (subpath \"/opt\"))", "(allow file-read* (subpath \"/usr/local\"))",
      "(allow file-read-metadata (subpath \"/\"))",
      "(allow file-read* file-write* (literal \"/dev/null\"))",
      "(allow file-read* (literal \"/dev/zero\"))",
      "(allow file-read* (literal \"/dev/random\"))",
      "(allow file-read* (literal \"/dev/urandom\"))",
      "(allow file-read* file-write* (literal \"/dev/tty\"))",
      "(allow file-ioctl (literal \"/dev/tty\"))"].map String.toList

/-- The line of a path: what stands in front of the path in the format string, and the path. -/
def subpathLine (front : String) (path : PathText) : List Char :=
  front.toList ++ sbplEscape path ++ "\"))".toList

def readWriteLine : PathText → List Char :=
  subpathLine "(allow file-read* file-write* (subpath \""

def readLine : PathText → List Char := subpathLine "(allow file-read* (subpath \""

def denyLine : PathText → List Char :=
  subpathLine "(deny file-read* file-write* (subpath \""

def profileLines (written : WrittenPolicy) (cwd sessionTmp : PathText) : List (List Char) :=
  fixedLines ++ [readWriteLine sessionTmp, readWriteLine cwd] ++
    (written.writablePaths.filter (· ≠ cwd)).map readWriteLine ++
    written.readonlyPaths.map readLine ++
    written.hiddenPaths.map denyLine ++
    if written.isolateNetwork then [] else ["(allow network*)".toList]

/-- The text of `build_sbpl_profile`. -/
def profileText (written : WrittenPolicy) (cwd sessionTmp : PathText) : List Char :=
  ['\n'].intercalate (profileLines written cwd sessionTmp)

/-- The words of `build_seatbelt_args` behind the program. -/
def seatbeltWords (machine : Machine) (cmd : List Char) (written : WrittenPolicy)
    (cwd : PathText) : List (List Char) :=
  ["-p".toList, profileText written cwd (sessionTmpText cwd), "/usr/bin/env".toList] ++
    (if written.clearEnv then ["-i".toList] else []) ++
    ["TMPDIR=".toList ++ sessionTmpText cwd] ++
    (if written.clearEnv then
      (keptVars machine written.keepEnv).map fun (key, value) => key ++ '=' :: value
    else []) ++
    ["bash".toList, "-c".toList, cmd]

/-! ## How bubblewrap reads its words -/

/-- What an option of bubblewrap takes; behind `--` stands the command. -/
def bwrapOption (option : String) : Option (Argv.Argument (List Char) BwrapArg) :=
  match option with
  | "--ro-bind" => some (.binary fun source dest => .roBind (parse source) (parse dest))
  | "--bind" => some (.binary fun source dest => .bind (parse source) (parse dest))
  | "--tmpfs" => some (.unary fun dest => .tmpfs (parse dest))
  | "--proc" => some (.unary fun dest => .proc (parse dest))
  | "--dev" => some (.unary fun dest => .dev (parse dest))
  | "--clearenv" => some (.flag .clearenv)
  | "--setenv" => some (.binary .setenv)
  | "--unshare-net" => some (.flag .unshareNet)
  | "--unshare-pid" => some (.flag .unsharePid)
  | "--die-with-parent" => some (.flag .dieWithParent)
  | "--new-session" => some (.flag .newSession)
  | "--chdir" => some (.unary fun dir => .chdir (parse dir))
  | "--" => some (.rest .command)
  | _ => none

def bwrapArgument (word : List Char) : Option (Argv.Argument (List Char) BwrapArg) :=
  bwrapOption (String.ofList word)

/-! ## How Seatbelt reads a profile -/

def readOperation : String → Option SbplOperation
  | "default" => some .default
  | "process-exec" => some .processExec
  | "process-fork" => some .processFork
  | "signal" => some .signal
  | "sysctl-read" => some .sysctlRead
  | "mach-lookup" => some .machLookup
  | "ipc-posix-shm" => some .ipcPosixShm
  | "network*" => some .network
  | "file-read*" => some .fileRead
  | "file-read-data" => some .fileReadData
  | "file-read-metadata" => some .fileReadMetadata
  | "file-write*" => some .fileWrite
  | "file-ioctl" => some .fileIoctl
  | _ => none

/-- A name that a rule about services lists. -/
def readGlobalName : Sexp → Option String
  | .list [.atom kind, .text name] =>
    if String.ofList kind = "global-name" then some (String.ofList name) else none
  | _ => none

/-- A filter that consists of a kind and a text. -/
def readTextFilter (text : List Char) : String → Option SbplFilter
  | "literal" => some (.literal (parse text))
  | "subpath" => some (.subpath (parse text))
  | "global-name" => some (.globalNames [String.ofList text])
  | _ => none

def readFilter : List Sexp → Option SbplFilter
  | [] => some .any
  | [.list [.atom kind, .atom target]] =>
    if String.ofList kind = "target" ∧ String.ofList target = "self" then some .self else none
  | [.list [.atom kind, .text text]] => readTextFilter text (String.ofList kind)
  | items => (items.mapM readGlobalName).map .globalNames

/-- The atoms in front, and what is behind them. -/
def splitAtoms : List Sexp → List (List Char) × List Sexp
  | .atom name :: items => (name :: (splitAtoms items).1, (splitAtoms items).2)
  | items => ([], items)

def readVerdict : String → Option Bool
  | "allow" => some true
  | "deny" => some false
  | _ => none

def readRule : Sexp → Option SbplRule
  | .list (.atom verb :: items) => do
    let allow ← readVerdict (String.ofList verb)
    let operations ← (splitAtoms items).1.mapM fun name => readOperation (String.ofList name)
    let filter ← readFilter (splitAtoms items).2
    some ⟨allow, operations, filter⟩
  | _ => none

/-- The rules of a profile of the first version. -/
def readProfile (text : List Char) : Option (List SbplRule) :=
  match Sexp.readAll text with
  | some (.list [.atom keyword, .atom number] :: rules) =>
    if String.ofList keyword = "version" ∧ String.ofList number = "1" then rules.mapM readRule
    else none
  | _ => none

/-- The setting that a word of `env` is, up to its first equals sign and behind it. -/
def readSetting (word : List Char) : Option (List Char × List Char) :=
  if '=' ∈ word then some (word.takeWhile (· ≠ '='), (word.dropWhile (· ≠ '=')).tail) else none

/-- The settings of `env` and the command behind them. -/
def readEnv : List (List Char) → List (List Char × List Char) × List (List Char)
  | [] => ([], [])
  | word :: words =>
    match readSetting word with
    | some setting => (setting :: (readEnv words).1, (readEnv words).2)
    | none => ([], word :: words)

/-- The command line of `sandbox-exec`. -/
def readSeatbelt : List (List Char) → Option SeatbeltCommand
  | option :: text :: program :: words =>
    if String.ofList option = "-p" ∧ String.ofList program = "/usr/bin/env" then
      (readProfile text).map fun rules =>
        let clear := words.head?.any fun word => String.ofList word = "-i"
        let (settings, command) := readEnv (if clear then words.tail else words)
        ⟨rules, clear, settings, command⟩
    else none
  | _ => none

/-! ## The texts of paths -/

/-- The names behind a separator come last. -/
lemma filterMap_splitOn_append (front rest : List Char) :
    ((front ++ '/' :: rest).splitOn '/').filterMap parsePart =
      (front.splitOn '/').filterMap parsePart ++ (rest.splitOn '/').filterMap parsePart := by
  rw [List.splitOn_append_cons_self, List.filterMap_append]

lemma head?_splitOn_append (front rest : List Char) :
    ((front ++ '/' :: rest).splitOn '/').head? = (front.splitOn '/').head? := by
  obtain ⟨part, parts, hparts⟩ := List.exists_cons_of_ne_nil (List.splitOn_ne_nil '/' front)
  rw [List.splitOn_append_cons_self, hparts]
  rfl

/-- What stands behind a separator is read on its own. -/
lemma parse_append_slash (front : PathText) {name : List Char} (hname : IsName name) :
    parse (front ++ '/' :: name) = parse (front ++ ['/']) ++ [.normal name] := by
  have hlast : (name.splitOn '/').filterMap parsePart = [.normal name] := by
    obtain ⟨hnil, hdot, hdots, hslash⟩ := hname
    simp [List.splitOn_eq_singleton hslash, parsePart, hnil, hdot, hdots]
  have hnone : (([] : List Char).splitOn '/').filterMap parsePart = [] := rfl
  have hhead : (front ++ '/' :: name).head? = (front ++ ['/']).head? := by
    cases front <;> rfl
  unfold parse
  simp only [hhead, filterMap_splitOn_append, head?_splitOn_append, hlast, hnone, List.append_nil]
  split_ifs <;> rfl

/-- A separator at the end makes no difference. -/
lemma parse_append_single {base : PathText} (hbase : base ≠ []) :
    parse (base ++ ['/']) = parse base := by
  have hnone : (([] : List Char).splitOn '/').filterMap parsePart = [] := rfl
  have hhead : (base ++ ['/']).head? = base.head? := by
    obtain ⟨c, base, rfl⟩ := List.exists_cons_of_ne_nil hbase
    rfl
  unfold parse
  simp only [hhead, filterMap_splitOn_append, head?_splitOn_append, hnone, List.append_nil]

/-- Only the empty text has no component. -/
lemma parse_ne_nil {base : PathText} (hbase : base ≠ []) : parse base ≠ [] := by
  obtain ⟨c, rest, rfl⟩ := List.exists_cons_of_ne_nil hbase
  obtain ⟨part, parts, hparts⟩ := List.exists_cons_of_ne_nil (List.splitOn_ne_nil '/' rest)
  by_cases hroot : c = '/'
  · simp [parse, hroot]
  · have hsplit : (c :: rest).splitOn '/' = (c :: part) :: parts := by
      rw [List.splitOn_cons_eq_if_modifyHead, if_neg (by simpa using hroot), hparts,
        List.modifyHead_cons]
    by_cases hdot : c :: part = ['.']
    · simp [parse, hsplit, hdot, hroot]
    · have hpart : parsePart (c :: part) ≠ none := by
        unfold parsePart
        rw [if_neg (by simp [hdot])]
        split_ifs <;> simp
      obtain ⟨component, hcomponent⟩ := Option.ne_none_iff_exists'.mp hpart
      simp [parse, hsplit, hdot, hroot, hcomponent]

/-- The text of the temporary directory stands for it. -/
lemma parse_sessionTmpText (cwd : PathText) : parse (sessionTmpText cwd) = sessionTmp (parse cwd) := by
  have hname : IsName ".tmp".toList := by unfold IsName; decide
  by_cases hcwd : cwd = []
  · rw [hcwd]
    rfl
  · have hne : parse cwd ≠ [] := parse_ne_nil hcwd
    have hjoin : sessionTmp (parse cwd) = parse cwd ++ [.normal ".tmp".toList] :=
      join_of_isName hne hname
    rw [hjoin, sessionTmpText, joinText]
    by_cases hlast : cwd.getLast? = some '/'
    · obtain ⟨front, rfl⟩ := List.getLast?_eq_some_iff.mp hlast
      rw [if_pos (Or.inr hlast), List.append_assoc, List.singleton_append,
        parse_append_slash front hname]
    · rw [if_neg (by simp [hcwd, hlast]), parse_append_slash cwd hname, parse_append_single hcwd]

/-! ## What bubblewrap is told -/

section Bwrap

open Argv

lemma bwrapArgument_toList (option : String) :
    bwrapArgument option.toList = bwrapOption option := by
  rw [bwrapArgument, String.ofList_toList]

variable (machine : Machine)

lemma reads_roBind (source dest : List Char) :
    Reads bwrapArgument ["--ro-bind".toList, source, dest] [.roBind (parse source) (parse dest)] :=
  Reads.binary (bwrapArgument_toList "--ro-bind")

lemma reads_bind (source dest : List Char) :
    Reads bwrapArgument ["--bind".toList, source, dest] [.bind (parse source) (parse dest)] :=
  Reads.binary (bwrapArgument_toList "--bind")

lemma reads_hideWords (hidden : PathText) :
    Reads bwrapArgument (hideWords machine hidden) (hide machine (parse hidden)).toList := by
  unfold hideWords hide
  rcases machine.metadata (parse hidden) with _ | _ | _
  · exact Reads.nil
  · exact reads_roBind _ _
  · exact Reads.unary (bwrapArgument_toList "--tmpfs")

lemma reads_setenv (keys : List (List Char)) :
    Reads bwrapArgument
      ((keptVars machine keys).flatMap fun (key, value) => ["--setenv".toList, key, value])
      (keys.filterMap fun key => (machine.var key).map (.setenv key)) := by
  have hmap : keys.filterMap (fun key => (machine.var key).map (BwrapArg.setenv key)) =
      (keptVars machine keys).map fun (key, value) => .setenv key value := by
    rw [keptVars, List.map_filterMap]
    congr 1
    funext key
    rw [Option.map_map]
    rfl
  rw [hmap]
  exact Reads.map _ fun item _ =>
    Reads.binary (bwrapArgument_toList "--setenv")

lemma reads_systemDirs :
    Reads bwrapArgument
      ((systemDirTexts.filter fun dir => machine.exists? (pathOf dir)).flatMap
        fun dir => ["--ro-bind".toList, dir.toList, dir.toList])
      ((systemDirs.filter machine.exists?).map fun dir => .roBind dir dir) := by
  have hmap : (systemDirs.filter machine.exists?).map (fun dir => BwrapArg.roBind dir dir) =
      (systemDirTexts.filter fun dir => machine.exists? (pathOf dir)).map
        fun dir => .roBind (pathOf dir) (pathOf dir) := by
    change ((systemDirTexts.map pathOf).filter machine.exists?).map _ = _
    rw [List.filter_map, List.map_map]
    rfl
  rw [hmap]
  exact Reads.map _ fun dir _ => reads_roBind _ _

/-- Bubblewrap reads its words as the operations and settings that are meant, whatever characters
the paths, the variables and the command have. -/
theorem read_bwrapWords (cmd : List Char) (written : WrittenPolicy) (cwd : PathText) :
    Argv.read bwrapArgument (bwrapWords machine cmd written cwd) =
      some (buildBwrapArgs machine cmd written.policy (parse cwd)) := by
  have hflag : ∀ (cond : Bool) (word : String) (arg : BwrapArg),
      bwrapArgument word.toList = some (.flag arg) →
      Reads bwrapArgument (if cond then [word.toList] else []) (if cond then [arg] else []) := by
    intro cond word arg h
    cases cond
    · exact Reads.nil
    · exact Reads.flag h
  have hsystem : Reads bwrapArgument
      (["--proc".toList, "/proc".toList] ++ ["--dev".toList, "/dev".toList])
      ([.proc (pathOf "/proc")] ++ [.dev (pathOf "/dev")]) :=
    (Reads.unary (bwrapArgument_toList "--proc")).append
      (Reads.unary (bwrapArgument_toList "--dev"))
  have htmp := reads_bind (sessionTmpText cwd) "/tmp".toList
  rw [parse_sessionTmpText] at htmp
  have henv : Reads bwrapArgument
      (if written.clearEnv then
        ["--clearenv".toList] ++ (keptVars machine written.keepEnv).flatMap
          fun (key, value) => ["--setenv".toList, key, value]
      else [])
      (if written.clearEnv then
        [.clearenv] ++ written.keepEnv.filterMap fun key => (machine.var key).map (.setenv key)
      else []) := by
    cases written.clearEnv
    · exact Reads.nil
    · exact (Reads.flag (bwrapArgument_toList "--clearenv")).append
        (reads_setenv machine written.keepEnv)
  have hwritable : Reads bwrapArgument
      (written.writablePaths.flatMap fun path => ["--bind".toList, path, path])
      (written.writablePaths.map fun path => .bind (parse path) (parse path)) :=
    Reads.map _ fun path _ => reads_bind path path
  have hreadonly : Reads bwrapArgument
      (written.readonlyPaths.flatMap fun path => ["--ro-bind".toList, path, path])
      (written.readonlyPaths.map fun path => .roBind (parse path) (parse path)) :=
    Reads.map _ fun path _ => reads_roBind path path
  have hhidden := Reads.flatMap written.hiddenPaths fun path _ => reads_hideWords machine path
  have hlast : Reads bwrapArgument
      (["--die-with-parent".toList] ++ ["--new-session".toList] ++ ["--chdir".toList, cwd])
      ([.dieWithParent] ++ [.newSession] ++ [.chdir (parse cwd)]) :=
    ((Reads.flag (bwrapArgument_toList "--die-with-parent")).append
      (Reads.flag (bwrapArgument_toList "--new-session"))).append
      (Reads.unary (bwrapArgument_toList "--chdir"))
  have hall := ((((((((((reads_systemDirs machine).append hsystem).append htmp).append
    henv).append (reads_bind cwd cwd)).append hwritable).append hreadonly).append
    hhidden).append (hflag written.isolateNetwork "--unshare-net" .unshareNet
      (bwrapArgument_toList "--unshare-net"))).append
    (hflag written.isolatePid "--unshare-pid" .unsharePid
      (bwrapArgument_toList "--unshare-pid"))).append hlast
  rw [bwrapWords, hall.read_rest (bwrapArgument_toList "--")]
  have hmounted : written.hiddenPaths.flatMap (fun path => (hide machine (parse path)).toList) =
      (written.hiddenPaths.map parse).filterMap (hide machine) := by
    rw [List.filterMap_map, List.filterMap_eq_flatMap_toList]
    rfl
  rw [hmounted]
  simp only [buildBwrapArgs, WrittenPolicy.policy, List.map_map, List.append_assoc,
    List.cons_append, List.nil_append]
  rfl

end Bwrap

/-! ## What a profile says -/

section Profile

open Sexp

lemma sbplEscape_eq (s : List Char) : sbplEscape s = s.flatMap escape := by
  unfold sbplEscape replaceChar
  rw [List.flatMap_assoc]
  congr 1
  funext c
  by_cases hslash : c = '\\'
  · rw [if_pos hslash, hslash]
    rfl
  · by_cases hquote : c = '"'
    · simp [hquote, escape]
    · simp [hslash, hquote, escape]

/-- The expression of a rule. -/
def ruleExp (verb : String) (operations : List String) (filter : List Sexp) : Sexp :=
  .list (.atom verb.toList :: ((operations.map fun operation => .atom operation.toList) ++ filter))

def pathExp (kind : String) (path : List Char) : Sexp := .list [.atom kind.toList, .text path]

def versionExp : Sexp := .list [.atom "version".toList, .atom "1".toList]

/-- The expressions of `fixedLines` behind the version. -/
def fixedExps : List Sexp :=
  [ruleExp "deny" ["default"] [], ruleExp "allow" ["process-exec"] [],
    ruleExp "allow" ["process-fork"] [],
    ruleExp "allow" ["signal"] [.list [.atom "target".toList, .atom "self".toList]],
    ruleExp "allow" ["sysctl-read"] [],
    ruleExp "allow" ["file-read-data"] [pathExp "literal" "/".toList],
    ruleExp "allow" ["mach-lookup"]
      (machServices.map fun service => pathExp "global-name" service.toList),
    ruleExp "allow" ["ipc-posix-shm"] []] ++
  (["/usr", "/bin", "/sbin", "/System", "/Library/Apple", "/private/etc", "/opt",
      "/usr/local"].map fun dir =>
    ruleExp "allow" ["file-read*"] [pathExp "subpath" dir.toList]) ++
  [ruleExp "allow" ["file-read-metadata"] [pathExp "subpath" "/".toList],
    ruleExp "allow" ["file-read*", "file-write*"] [pathExp "literal" "/dev/null".toList],
    ruleExp "allow" ["file-read*"] [pathExp "literal" "/dev/zero".toList],
    ruleExp "allow" ["file-read*"] [pathExp "literal" "/dev/random".toList],
    ruleExp "allow" ["file-read*"] [pathExp "literal" "/dev/urandom".toList],
    ruleExp "allow" ["file-read*", "file-write*"] [pathExp "literal" "/dev/tty".toList],
    ruleExp "allow" ["file-ioctl"] [pathExp "literal" "/dev/tty".toList]]

/-- The rules of `fixedExps`. -/
def fixedRules : List SbplRule :=
  [⟨false, [.default], .any⟩,
    ⟨true, [.processExec], .any⟩, ⟨true, [.processFork], .any⟩, ⟨true, [.signal], .self⟩,
    ⟨true, [.sysctlRead], .any⟩,
    ⟨true, [.fileReadData], .literal (pathOf "/")⟩,
    ⟨true, [.machLookup], .globalNames ["com.apple.system.logger",
      "com.apple.system.opendirectoryd.api", "com.apple.system.opendirectoryd.membership",
      "com.apple.system.DirectoryService.libinfo_v1", "com.apple.bsd.dirhelper"]⟩,
    ⟨true, [.ipcPosixShm], .any⟩] ++
    profileDirs.map (fun dir => ⟨true, [.fileRead], .subpath dir⟩) ++
    [⟨true, [.fileReadMetadata], .subpath (pathOf "/")⟩,
      ⟨true, [.fileRead, .fileWrite], .literal (pathOf "/dev/null")⟩,
      ⟨true, [.fileRead], .literal (pathOf "/dev/zero")⟩,
      ⟨true, [.fileRead], .literal (pathOf "/dev/random")⟩,
      ⟨true, [.fileRead], .literal (pathOf "/dev/urandom")⟩,
      ⟨true, [.fileRead, .fileWrite], .literal (pathOf "/dev/tty")⟩,
      ⟨true, [.fileIoctl], .literal (pathOf "/dev/tty")⟩]

lemma readRules_fixedExps : fixedExps.mapM readRule = some fixedRules := by
  rfl

lemma spells_fixedLines : List.Forall₂ Spells fixedLines (versionExp :: fixedExps) := by
  have hscan : fixedLines.map (scan .between) =
      (versionExp :: fixedExps).map fun e => some (Mode.between, e.tokens) := by decide +kernel
  rw [← List.forall₂_eq_eq_eq, List.forall₂_map_left_iff, List.forall₂_map_right_iff] at hscan
  exact hscan

/-- A line ends the quotation marks around its path itself. -/
lemma spells_subpathLine {front verb : String} {operations : List String} {tokens : List Token}
    (hfront : scan .between front.toList = some (.inText [], tokens)) (path : PathText)
    (htokens : (ruleExp verb operations [pathExp "subpath" path]).tokens =
      tokens ++ [.text path, .closing, .closing]) :
    Spells (subpathLine front path) (ruleExp verb operations [pathExp "subpath" path]) := by
  have hpath : scan (.inText []) (sbplEscape path) = some (.inText path, []) := by
    rw [sbplEscape_eq]
    exact scan_escape [] path
  have hback : scan (.inText path) "\"))".toList =
      some (.between, [.text path, .closing, .closing]) := rfl
  rw [Spells, htokens]
  have hline := scan_append (scan_append hfront hpath) hback
  rwa [List.append_nil] at hline

/-- The line is one rule. -/
def Says (line : List Char) (rule : SbplRule) : Prop := ∃ e, Spells line e ∧ readRule e = some rule

lemma says_readWriteLine (path : PathText) :
    Says (readWriteLine path) ⟨true, [.fileRead, .fileWrite], .subpath (parse path)⟩ :=
  ⟨ruleExp "allow" ["file-read*", "file-write*"] [pathExp "subpath" path],
    spells_subpathLine rfl path rfl, rfl⟩

lemma says_readLine (path : PathText) :
    Says (readLine path) ⟨true, [.fileRead], .subpath (parse path)⟩ :=
  ⟨ruleExp "allow" ["file-read*"] [pathExp "subpath" path], spells_subpathLine rfl path rfl, rfl⟩

lemma says_denyLine (path : PathText) :
    Says (denyLine path) ⟨false, [.fileRead, .fileWrite], .subpath (parse path)⟩ :=
  ⟨ruleExp "deny" ["file-read*", "file-write*"] [pathExp "subpath" path],
    spells_subpathLine rfl path rfl, rfl⟩

lemma says_networkLine : Says "(allow network*)".toList ⟨true, [.network], .any⟩ :=
  ⟨ruleExp "allow" ["network*"] [], by unfold Spells; decide +kernel, rfl⟩

lemma exists_of_says {lines : List (List Char)} {rules : List SbplRule}
    (h : List.Forall₂ Says lines rules) :
    ∃ es, List.Forall₂ Spells lines es ∧ es.mapM readRule = some rules := by
  induction h with
  | nil => exact ⟨[], List.Forall₂.nil, rfl⟩
  | @cons line rule lines rules hline hlines ih =>
    obtain ⟨e, hspells, hrule⟩ := hline
    obtain ⟨es, hspells', hrules⟩ := ih
    refine ⟨e :: es, List.Forall₂.cons hspells hspells', ?_⟩
    rw [List.mapM_cons, hrule, hrules]
    rfl

/-- Lines that are made of paths, one by one. -/
lemma forall₂_says_map {line : PathText → List Char} {rule : PathText → SbplRule}
    (h : ∀ path, Says (line path) (rule path)) (paths : List PathText) :
    List.Forall₂ Says (paths.map line) (paths.map rule) := by
  rw [List.forall₂_map_left_iff, List.forall₂_map_right_iff]
  exact List.forall₂_same.mpr fun path _ => h path

/-- The rules of a profile for the paths of a policy, as the texts of these differ. -/
def writtenRules (written : WrittenPolicy) (cwd sessionTmp : PathText) : List SbplRule :=
  [⟨true, [.fileRead, .fileWrite], .subpath (parse sessionTmp)⟩,
      ⟨true, [.fileRead, .fileWrite], .subpath (parse cwd)⟩] ++
    (written.writablePaths.filter (· ≠ cwd)).map
      (fun path => ⟨true, [.fileRead, .fileWrite], .subpath (parse path)⟩) ++
    written.readonlyPaths.map (fun path => ⟨true, [.fileRead], .subpath (parse path)⟩) ++
    written.hiddenPaths.map (fun path => ⟨false, [.fileRead, .fileWrite], .subpath (parse path)⟩) ++
    if written.isolateNetwork then [] else [⟨true, [.network], .any⟩]

lemma readProfile_profileText (written : WrittenPolicy) (cwd sessionTmp : PathText) :
    readProfile (profileText written cwd sessionTmp) =
      some (fixedRules ++ writtenRules written cwd sessionTmp) := by
  have hnetwork : List.Forall₂ Says
      (if written.isolateNetwork then [] else ["(allow network*)".toList])
      (if written.isolateNetwork then [] else [⟨true, [.network], .any⟩]) := by
    cases written.isolateNetwork
    · exact List.Forall₂.cons says_networkLine List.Forall₂.nil
    · exact List.Forall₂.nil
  have hcwd : List.Forall₂ Says [readWriteLine sessionTmp, readWriteLine cwd]
      [⟨true, [.fileRead, .fileWrite], .subpath (parse sessionTmp)⟩,
        ⟨true, [.fileRead, .fileWrite], .subpath (parse cwd)⟩] :=
    forall₂_says_map says_readWriteLine [sessionTmp, cwd]
  have hlines := List.rel_append (List.rel_append (List.rel_append (List.rel_append hcwd
    (forall₂_says_map says_readWriteLine (written.writablePaths.filter (· ≠ cwd))))
    (forall₂_says_map says_readLine written.readonlyPaths))
    (forall₂_says_map says_denyLine written.hiddenPaths)) hnetwork
  obtain ⟨es, hspells, hrules⟩ := exists_of_says hlines
  have htext : profileText written cwd sessionTmp = ['\n'].intercalate (fixedLines ++
      ([readWriteLine sessionTmp, readWriteLine cwd] ++
        (written.writablePaths.filter (· ≠ cwd)).map readWriteLine ++
        written.readonlyPaths.map readLine ++ written.hiddenPaths.map denyLine ++
        if written.isolateNetwork then [] else ["(allow network*)".toList])) := by
    simp only [profileText, profileLines, List.append_assoc]
  have hread : readAll (profileText written cwd sessionTmp) =
      some (versionExp :: (fixedExps ++ es)) := by
    rw [htext]
    exact readAll_of_scan (scan_lines (List.rel_append spells_fixedLines hspells))
  rw [readProfile, hread]
  simp only [versionExp, String.ofList_toList, and_self, if_true, List.mapM_append,
    readRules_fixedExps, hrules, Option.bind_eq_bind, Option.bind_some, Option.pure_def]
  rfl

lemma profileAllows_append_right {front front' back : List SbplRule} {operation : SbplOperation}
    {path : UnixPath}
    (h : profileAllows front operation path = profileAllows front' operation path) :
    profileAllows (front ++ back) operation path =
      profileAllows (front' ++ back) operation path := by
  unfold profileAllows at h ⊢
  rw [Overlay.decisive_append, Overlay.decisive_append]
  cases Overlay.decisive (·.applies operation path) back with
  | none => simpa using h
  | some rule => simp

/-- What is written is what is meant: a writable path whose text is not the one of the working
directory, but which is that directory, adds a rule that is there already. -/
lemma profileAllows_writtenRules (written : WrittenPolicy) (cwd sessionTmp : PathText)
    (operation : SbplOperation) (path : UnixPath) :
    profileAllows (fixedRules ++ writtenRules written cwd sessionTmp) operation path =
      profileAllows (buildSbplProfile written.policy (parse cwd) (parse sessionTmp)) operation
        path := by
  let rule : UnixPath → SbplRule := fun dir => ⟨true, [.fileRead, .fileWrite], .subpath dir⟩
  let texts := (cwd :: written.writablePaths.filter (· ≠ cwd)).map (rule ∘ parse)
  let dirs := (parse cwd :: (written.writablePaths.map parse).filter (· ≠ parse cwd)).map rule
  let back := written.readonlyPaths.map
      (fun path => (⟨true, [.fileRead], .subpath (parse path)⟩ : SbplRule)) ++
    written.hiddenPaths.map (fun path => ⟨false, [.fileRead, .fileWrite], .subpath (parse path)⟩) ++
    if written.isolateNetwork then [] else [⟨true, [.network], .any⟩]
  have hwritten : fixedRules ++ writtenRules written cwd sessionTmp =
      fixedRules ++ [rule (parse sessionTmp)] ++ texts ++ back := by
    simp only [writtenRules, texts, back, List.map_cons, List.append_assoc, List.cons_append,
      List.nil_append]
    rfl
  have hmeant : buildSbplProfile written.policy (parse cwd) (parse sessionTmp) =
      fixedRules ++ [rule (parse sessionTmp)] ++ dirs ++ back := by
    simp only [buildSbplProfile, fixedRules, WrittenPolicy.policy, dirs, back, List.map_cons,
      List.map_map, List.append_assoc, List.cons_append, List.nil_append]
    rfl
  have hsame : ∀ rule', rule' ∈ texts ↔ rule' ∈ dirs := by
    intro rule'
    simp only [texts, dirs, List.map_cons, List.mem_cons, List.mem_map, List.mem_filter,
      decide_eq_true_eq, Function.comp_apply]
    constructor
    · rintro (rfl | ⟨text, ⟨hmem, -⟩, rfl⟩)
      · exact Or.inl rfl
      · by_cases hsame : parse text = parse cwd
        · exact Or.inl (congrArg rule hsame)
        · exact Or.inr ⟨parse text, ⟨⟨text, hmem, rfl⟩, hsame⟩, rfl⟩
    · rintro (rfl | ⟨_, ⟨⟨text, hmem, rfl⟩, hne⟩, rfl⟩)
      · exact Or.inl rfl
      · exact Or.inr ⟨text, ⟨hmem, fun h => hne (congrArg parse h)⟩, rfl⟩
  have hany : texts.any (·.applies operation path) = dirs.any (·.applies operation path) := by
    rw [Bool.eq_iff_iff, List.any_eq_true, List.any_eq_true]
    exact exists_congr fun rule' => and_congr_left' (hsame rule')
  have hallow : ∀ rule' ∈ dirs, rule'.allow = true := by
    intro rule' hmem
    obtain ⟨dir, -, rfl⟩ := List.mem_map.mp hmem
    rfl
  have hallow' : ∀ rule' ∈ texts, rule'.allow = true := fun rule' hmem =>
    hallow rule' ((hsame rule').mp hmem)
  rw [hwritten, hmeant]
  apply profileAllows_append_right
  rw [profileAllows_append true hallow', profileAllows_append true hallow, hany]

end Profile

/-! ## What Seatbelt and `env` are told -/

section Seatbelt

lemma readSetting_append {key : List Char} (hkey : '=' ∉ key) (value : List Char) :
    readSetting (key ++ '=' :: value) = some (key, value) := by
  have hnot : ∀ c ∈ key, decide (c ≠ '=') = true := by
    intro c hc
    exact decide_eq_true fun h => hkey (h ▸ hc)
  have hmem : '=' ∈ key ++ '=' :: value := by simp
  rw [readSetting, if_pos hmem, List.takeWhile_append_of_pos hnot,
    List.dropWhile_append_of_pos hnot]
  simp

/-- Settings are read up to the first word that has no equals sign. -/
lemma readEnv_settings {settings : List (List Char × List Char)}
    (hkeys : ∀ setting ∈ settings, '=' ∉ setting.1) {word : List Char} (hword : '=' ∉ word)
    (words : List (List Char)) :
    readEnv ((settings.map fun (key, value) => key ++ '=' :: value) ++ word :: words) =
      (settings, word :: words) := by
  induction settings with
  | nil => simp [readEnv, readSetting, hword]
  | cons setting settings ih =>
    have hfirst := readSetting_append (hkeys setting List.mem_cons_self) setting.2
    have hrest := ih fun setting' hmem => hkeys setting' (List.mem_cons_of_mem setting hmem)
    rw [List.map_cons, List.cons_append, readEnv, hfirst]
    simp only [hrest]

variable {machine : Machine}

/-- Seatbelt and `env` read their words as they are meant, whatever characters the paths, the
variables and the command have: the profile decides every operation on every path as the rules
do. -/
theorem readSeatbelt_seatbeltWords
    (hvar : ∀ key value, machine.var key = some value → '=' ∉ key) (cmd : List Char)
    (written : WrittenPolicy) (cwd : PathText) :
    ∃ command, readSeatbelt (seatbeltWords machine cmd written cwd) = some command ∧
      command.clearEnv = written.clearEnv ∧
      command.settings = (buildSeatbeltArgs machine (fun _ => sessionTmpText cwd) cmd
        written.policy (parse cwd)).settings ∧
      command.words = ["bash".toList, "-c".toList, cmd] ∧
      ∀ operation path, profileAllows command.profile operation path =
        profileAllows (buildSbplProfile written.policy (parse cwd) (sessionTmp (parse cwd)))
          operation path := by
  let rules := fixedRules ++ writtenRules written cwd (sessionTmpText cwd)
  let settings := ("TMPDIR".toList, sessionTmpText cwd) ::
    if written.clearEnv then keptVars machine written.keepEnv else []
  have hkeys : ∀ setting ∈ settings, '=' ∉ setting.1 := by
    intro setting hmem
    rcases List.mem_cons.mp hmem with rfl | hmem
    · change '=' ∉ "TMPDIR".toList
      decide
    · cases hclear : written.clearEnv
      · simp [hclear] at hmem
      · rw [hclear, if_pos rfl, keptVars, List.mem_filterMap] at hmem
        obtain ⟨key, -, hmem⟩ := hmem
        obtain ⟨value, hvalue, rfl⟩ := Option.map_eq_some_iff.mp hmem
        exact hvar key value hvalue
  have hbash : '=' ∉ "bash".toList := by decide
  have henv := readEnv_settings hkeys hbash ["-c".toList, cmd]
  have htmp : "TMPDIR=".toList ++ sessionTmpText cwd =
      "TMPDIR".toList ++ '=' :: sessionTmpText cwd := rfl
  have hprofile := readProfile_profileText written cwd (sessionTmpText cwd)
  refine ⟨⟨rules, written.clearEnv, settings, ["bash".toList, "-c".toList, cmd]⟩, ?_, rfl, ?_,
    rfl, fun operation path => ?_⟩
  · unfold seatbeltWords
    rw [htmp]
    cases hclear : written.clearEnv with
    | false =>
      have hfirst : String.ofList ("TMPDIR".toList ++ '=' :: sessionTmpText cwd) ≠ "-i" := by
        intro h
        have hhead := congrArg (fun s => s.toList.head?) h
        rw [String.toList_ofList] at hhead
        cases hhead
      simp only [settings, hclear, Bool.false_eq_true, if_false, List.map_cons, List.map_nil,
        List.cons_append, List.nil_append] at henv
      have hword : (some ("TMPDIR".toList ++ '=' :: sessionTmpText cwd)).any
          (fun word => decide (String.ofList word = "-i")) = false := decide_eq_false hfirst
      simp only [hclear, Bool.false_eq_true, if_false, List.cons_append, List.nil_append,
        List.append_nil, readSeatbelt, String.ofList_toList, and_self, if_true, hprofile,
        Option.map_some, List.head?_cons, hword, henv, settings, rules]
    | true =>
      simp only [settings, hclear, if_true, List.map_cons, List.cons_append] at henv
      have hword : (some "-i".toList).any
          (fun word => decide (String.ofList word = "-i")) = true := by
        rw [Option.any_some, String.ofList_toList]
        rfl
      simp only [hclear, if_true, List.cons_append, List.nil_append, readSeatbelt,
        String.ofList_toList, and_self, hprofile, Option.map_some, List.head?_cons, hword,
        List.tail_cons, henv, settings, rules]
  · rfl
  · rw [profileAllows_writtenRules, parse_sessionTmpText]

/-- A directory whose name ends the quotation marks and a rule, and a kept variable. -/
theorem readSeatbelt_seatbeltWords_quoted :
    ∃ command, readSeatbelt (seatbeltWords
        { linkless [] [] with var := fun key => if key = "LANG".toList then some "a=b".toList else none }
        "id".toList { clearEnv := true, keepEnv := ["LANG".toList] }
        "/w\")) (allow default) ;".toList) = some command ∧
      command.clearEnv = true ∧
      command.settings = [("TMPDIR".toList, "/w\")) (allow default) ;/.tmp".toList),
        ("LANG".toList, "a=b".toList)] ∧
      command.words = ["bash".toList, "-c".toList, "id".toList] ∧
      ∀ operation path, profileAllows command.profile operation path =
        profileAllows (buildSbplProfile { clearEnv := true, keepEnv := ["LANG".toList] }
          (parse "/w\")) (allow default) ;".toList)
          (sessionTmp (parse "/w\")) (allow default) ;".toList))) operation path := by
  refine readSeatbelt_seatbeltWords (fun key value h => ?_) _ _ _
  have hkey : key = "LANG".toList := by
    by_contra hkey
    change (if key = "LANG".toList then some "a=b".toList else none) = some value at h
    rw [if_neg hkey] at h
    cases h
  rw [hkey]
  decide

end Seatbelt

end RustyClaw.Sandbox
