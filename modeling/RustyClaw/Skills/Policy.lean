import RustyClaw.Tools.Invocation

/-!
# The tool policy of skills

A skill declares the tools it may use under the names its author knows them by.
`SkillToolPolicy` maps these to the names the tools are registered under and filters a tool list
by the result; `task_plan` is always kept, and `wait` goes with `exec`.

`InClosure` is the closure of a declared whitelist.  `inClosure_canonicalName` is what the filter
gives: a tool it keeps has its canonical name in the closure.  This rests on the map being
idempotent: every name it maps to is mapped to itself.
-/

namespace RustyClaw.Skills

/-! ## Canonical names -/

/-- `SkillToolPolicy::name_map`. -/
def nameMap : List (String × String) :=
  [("Bash", "execute_bash"),
    ("Read", "read_file"),
    ("Write", "write_file"),
    ("Edit", "patch_file"),
    ("WebSearch", "web_search"),
    ("AskUser", "ask_user_question"),
    ("ask_user", "ask_user_question"),
    ("AskUserQuestion", "ask_user_question"),
    ("subagent", "subagent"),
    ("call_skill", "subagent"),
    ("spawn_subagent", "subagent"),
    ("get_subagent_result", "subagent"),
    ("cancel_subagent", "subagent"),
    ("list_subagent_jobs", "subagent")]

/-- Tools that are available to every skill. -/
def runtimeTools : List String := ["task_plan"]

def canonicalName (name : String) : String := (nameMap.lookup name).getD name

def pushNew (canonical : List String) (mapped : String) : List String :=
  if canonical.contains mapped then canonical else canonical ++ [mapped]

def canonicalizeTools (tools : List String) : List String :=
  tools.foldl (fun canonical tool => pushNew canonical (canonicalName tool)) []

lemma mem_of_lookup_eq_some {name mapped : String} {table : List (String × String)}
    (h : table.lookup name = some mapped) : mapped ∈ table.map Prod.snd := by
  induction table with
  | nil => cases h
  | cons entry table ih =>
    rw [List.lookup_cons] at h
    split at h
    · rw [← Option.some_inj.mp h]
      exact List.mem_cons_self
    · exact List.mem_cons_of_mem _ (ih h)

/-- Every name the map gives is canonical. -/
lemma canonicalName_of_mem_nameMap :
    ∀ mapped ∈ nameMap.map Prod.snd, canonicalName mapped = mapped := by
  decide +kernel

lemma canonicalName_canonicalName (name : String) :
    canonicalName (canonicalName name) = canonicalName name := by
  cases hlookup : nameMap.lookup name with
  | none =>
    have hself : canonicalName name = name := by simp [canonicalName, hlookup]
    rw [hself, hself]
  | some mapped =>
    have hmapped : canonicalName name = mapped := by simp [canonicalName, hlookup]
    rw [hmapped]
    exact canonicalName_of_mem_nameMap mapped (mem_of_lookup_eq_some hlookup)

lemma mem_pushNew {canonical : List String} {mapped name : String} :
    name ∈ pushNew canonical mapped ↔ name ∈ canonical ∨ name = mapped := by
  unfold pushNew
  split
  · next h =>
    refine ⟨.inl, ?_⟩
    rintro (hmem | rfl)
    · exact hmem
    · simpa using h
  · simp

lemma mem_canonicalizeTools {tools : List String} {name : String} :
    name ∈ canonicalizeTools tools ↔ ∃ tool ∈ tools, canonicalName tool = name := by
  have hfold : ∀ (tools canonical : List String),
      name ∈ tools.foldl (fun canonical tool => pushNew canonical (canonicalName tool)) canonical ↔
        name ∈ canonical ∨ ∃ tool ∈ tools, canonicalName tool = name := by
    intro tools
    induction tools with
    | nil => simp
    | cons tool tools ih =>
      intro canonical
      rw [List.foldl_cons, ih, mem_pushNew]
      simp [or_assoc, eq_comm]
  simpa [canonicalizeTools] using hfold tools []

/-- A whitelist is empty exactly when its canonical form is. -/
lemma canonicalizeTools_eq_nil_iff {tools : List String} :
    canonicalizeTools tools = [] ↔ tools = [] := by
  constructor
  · intro h
    cases tools with
    | nil => rfl
    | cons tool tools =>
      have hmem : canonicalName tool ∈ canonicalizeTools (tool :: tools) :=
        mem_canonicalizeTools.mpr ⟨tool, List.mem_cons_self, rfl⟩
      rw [h] at hmem
      cases hmem
  · rintro rfl
    rfl

/-- A name in a canonical list is canonical. -/
lemma canonicalName_of_mem {tools : List String} {name : String}
    (h : name ∈ canonicalizeTools tools) : canonicalName name = name := by
  obtain ⟨tool, -, rfl⟩ := mem_canonicalizeTools.mp h
  exact canonicalName_canonicalName tool

/-! ## The filter -/

def isRuntimeTool (toolName : String) : Bool := runtimeTools.contains toolName

def canCallWithAllowedNames (allowed : List String) (toolName : String) : Bool :=
  isRuntimeTool toolName || allowed.contains toolName ||
    (toolName == "wait" && allowed.contains "exec")

def filterToolsByAllowedNames (baseTools : List Tool) (allowed : List String) : List Tool :=
  if allowed.isEmpty then baseTools
  else baseTools.filter fun tool => canCallWithAllowedNames allowed tool.name

/-- The closure of a declared whitelist: its tools by their canonical names, the runtime tools, and
`wait` with `exec`. -/
def InClosure (declared : List String) (name : String) : Prop :=
  name ∈ canonicalizeTools declared ∨ name ∈ runtimeTools ∨
    name = "wait" ∧ "exec" ∈ canonicalizeTools declared

lemma canCallWithAllowedNames_iff {declared : List String} {name : String} :
    canCallWithAllowedNames (canonicalizeTools declared) name = true ↔ InClosure declared name := by
  simp only [canCallWithAllowedNames, isRuntimeTool, InClosure, Bool.or_eq_true, Bool.and_eq_true,
    List.contains_iff_mem, beq_iff_eq]
  tauto

instance (declared : List String) (name : String) : Decidable (InClosure declared name) :=
  decidable_of_iff _ canCallWithAllowedNames_iff

/-- A tool that may be called under the name it is registered with has its canonical name in the
closure. -/
theorem inClosure_canonicalName {declared : List String} {name : String}
    (h : canCallWithAllowedNames (canonicalizeTools declared) name = true) :
    InClosure declared (canonicalName name) := by
  have hself : canonicalName name = name := by
    rcases canCallWithAllowedNames_iff.mp h with hmem | hruntime | ⟨rfl, -⟩
    · exact canonicalName_of_mem hmem
    · obtain rfl := List.mem_singleton.mp hruntime
      decide +kernel
    · decide +kernel
  rw [hself]
  exact canCallWithAllowedNames_iff.mp h

lemma mem_filterToolsByAllowedNames {baseTools : List Tool} {allowed : List String} {tool : Tool}
    (h : tool ∈ filterToolsByAllowedNames baseTools allowed) (hne : allowed ≠ []) :
    canCallWithAllowedNames allowed tool.name = true := by
  have hempty : allowed.isEmpty = false := by simpa using hne
  simp only [filterToolsByAllowedNames, hempty] at h
  exact (List.mem_filter.mp h).2

end RustyClaw.Skills
