import RustyClaw.Library.Text
import RustyClaw.Library.Transition
import RustyClaw.Shell.Reading
import RustyClaw.Shell.Stream
import RustyClaw.Shell.Tail

/-!
# A shell command that is run

`run_shell_escape` starts a command and four tasks take part: two read its pipes and send chunks,
one waits for the process or for the order to kill it, and the run itself receives the chunks and
the end of the process, and gives the order when it is cancelled or takes too long.  `step` is what
one of them does; when several can go on, any of them may.

`reports` says of every run that returns, in whatever order the tasks took their steps, that nothing
of the output is lost and that what is reported is so: the tail is the end of all output, the exit
code is the one of the process, and it is called cancelled or timed out only if it was.
`work_bounded_and_waits` says that a run does not get stuck: the tasks by themselves take only so many
steps, and when none of them can go on the run has returned, or a pipe is still open, or the process
still runs, and if the run was cancelled or took too long the process has been told to end.
-/

namespace RustyClaw.Shell

open Utf8

/-! ## What is shown -/

inductive ShellOutputMode where
  | stream (visibleLimitBytes tailChars : ℕ)
  | window (tailChars updateInterval : ℕ)
  deriving DecidableEq, Repr

namespace ShellOutputMode

def cliStream : ShellOutputMode := .stream (64 * 1024) (16 * 1024)

def liveWindow : ShellOutputMode := .window 3000 2000

def discordWindow : ShellOutputMode := .window 1600 2000

def tailChars : ShellOutputMode → ℕ
  | .stream _ tailChars | .window tailChars _ => tailChars

end ShellOutputMode

/-- What an `AgentOutput` is told. -/
inductive OutputEvent where
  | onText (text : List Char)
  | onTextReplace (text : List Char)
  | flush
  deriving DecidableEq, Repr

/-- A command that is run, with the text of a duration. -/
structure Invocation where
  command : List Char
  mode : ShellOutputMode
  seconds : ℕ → List Char

structure ShellRunSummary where
  exitCode : Option Int
  duration : ℕ
  truncated : Bool
  timedOut : Bool
  cancelled : Bool
  tail : List Char
  deriving DecidableEq, Repr

def ShellRunSummary.isSuccess (summary : ShellRunSummary) : Bool :=
  summary.exitCode = some 0 && !summary.timedOut && !summary.cancelled

def ShellRunSummary.processExitCode (summary : ShellRunSummary) : Int :=
  if summary.cancelled then 130
  else if summary.timedOut then 124
  else summary.exitCode.getD 1

def displayCommand (command : List Char) : List Char :=
  let trimmed := Text.trim Glyph.isWhitespace command
  trimmed.take 120 ++ if 120 < trimmed.length then "...".toList else []

/-- A text with a line break at its end. -/
def endLine (text : List Char) : List Char :=
  if text.getLast? = some '\n' then text else text ++ ['\n']

namespace Invocation

variable (invocation : Invocation)

def renderWindow (tail : List Char) (truncated : Bool) (duration : ℕ) (running : Bool) :
    List Char :=
  "[! ".toList ++ displayCommand invocation.command ++ "] ".toList ++
    (if running then "running" else "latest output").toList ++ " (".toList ++
    invocation.seconds duration ++ "s)\n".toList ++
    (if truncated then "[showing latest output]\n".toList else []) ++
    if tail = [] then "[waiting for output]\n".toList else endLine tail

def renderSummary (summary : ShellRunSummary) : List Char :=
  "[shell ".toList ++
    (if summary.cancelled then "cancelled" else if summary.timedOut then "timed out" else
      "done").toList ++
    "] exit=".toList ++
    (summary.exitCode.elim "signal" toString).toList ++ " duration=".toList ++
    invocation.seconds summary.duration ++ "s truncated=".toList ++
    (if summary.truncated then "yes" else "no").toList ++ "\n".toList

end Invocation

/-- `VisibleOutput`, in either mode. -/
inductive Display where
  | stream (out : VisibleOutput)
  | window (updateInterval lastWindowUpdate : ℕ)

namespace Display

def new : ShellOutputMode → Display
  | .stream visibleLimitBytes _ => .stream { visibleLimitBytes }
  | .window _ updateInterval => .window updateInterval 0

def truncated : Display → Bool
  | .stream out => out.truncated
  | .window .. => false

def streamEvent : StreamEvent → List OutputEvent
  | .visible text => [.onText text]
  | .notice =>
    [.onText "\n[shell output truncated; keeping latest output for summary]\n".toList, .flush]

/-- `handle_chunk`, `none` being a panic. -/
def handleChunk (invocation : Invocation) (now : ℕ) (chunk : List Char) (tail : TailBuffer) :
    Display → Option (Display × List OutputEvent)
  | .stream out =>
    (out.handleChunk chunk).map fun (out, events) => (.stream out, events.flatMap streamEvent)
  | .window updateInterval lastWindowUpdate =>
    if updateInterval ≤ now - lastWindowUpdate then
      some (.window updateInterval now,
        [.onTextReplace (invocation.renderWindow tail.asStr tail.truncated now true)])
    else some (.window updateInterval lastWindowUpdate, [])

def finish (invocation : Invocation) (summary : ShellRunSummary) : Display → List OutputEvent
  | .stream out =>
    (if out.truncated then
      [.onText "\n[shell tail]\n".toList, .onText summary.tail] ++
        if summary.tail.getLast? = some '\n' then [] else [.onText "\n".toList]
    else []) ++ [.onText (invocation.renderSummary summary), .flush]
  | .window .. =>
    [.onTextReplace (invocation.renderWindow summary.tail summary.truncated summary.duration false),
      .flush, .onText (invocation.renderSummary summary), .flush]

end Display

/-! ## The tasks -/

inductive Pipe where
  | stdout | stderr
  deriving DecidableEq, Repr

inductive KillReason where
  | cancelled | timedOut
  deriving DecidableEq, Repr

structure ProcessEnd where
  exitCode : Option Int
  killReason : Option KillReason
  deriving DecidableEq, Repr

/-- The process; when it has ended there is the code of its status, unless a signal ended it. -/
inductive Child where
  | running
  | exited (code : Option Int)
  deriving DecidableEq, Repr

/-- The channel for the order to kill: empty, with the order, or with its sender dropped. -/
inductive KillChannel where
  | empty
  | sent (reason : KillReason)
  | closed
  deriving DecidableEq, Repr

/-- `wait_for_process`: it waits for the process or an order, has told the process to end and waits
for it, or has sent the end. -/
inductive Monitor where
  | waiting
  | terminating (reason : KillReason)
  | ended (processEnd : ProcessEnd)
  deriving DecidableEq, Repr

/-- The variables of the loop; `handled` is what it has received. -/
structure Loop where
  handled : List (Pipe × List Char)
  tail : TailBuffer
  visible : Display
  processEnd : Option ProcessEnd
  chunksDone : Bool
  killTx : Bool
  events : List OutputEvent

/-- `run_shell_escape`: its caller may drop it. -/
inductive Main where
  | looping (loop : Loop)
  | returned (loop : Loop) (summary : ShellRunSummary)
  | dropped

structure ShellRun where
  clock : ℕ
  cancelled : Bool
  child : Child
  /-- what each task has read -/
  reads : Pipe → List ReadResult
  /-- the tasks that read -/
  reading : Pipe → Bool
  chunks : List (Pipe × List Char)
  kill : KillChannel
  monitor : Monitor
  main : Main

/-- `HARD_TIMEOUT`, in milliseconds. -/
def hardTimeout : ℕ := 30 * 60 * 1000

/-! ## The loop -/

namespace Loop

/-- The command has been started. -/
def start (invocation : Invocation) : Loop where
  handled := []
  tail := .new invocation.mode.tailChars
  visible := .new invocation.mode
  processEnd := none
  chunksDone := false
  killTx := true
  events :=
    match invocation.mode with
    | .stream .. => []
    | .window .. => [.onTextReplace (invocation.renderWindow [] false 0 true)]

def handleChunk (invocation : Invocation) (now : ℕ) (loop : Loop) (pipe : Pipe)
    (chunk : List Char) : Option Loop := do
  let normal := normalizeChunk chunk
  let tail ← loop.tail.push normal
  let (visible, events) ← loop.visible.handleChunk invocation now normal tail
  some { loop with
    handled := loop.handled ++ [(pipe, chunk)], tail, visible, events := loop.events ++ events }

def summary (now : ℕ) (loop : Loop) (processEnd : ProcessEnd) : ShellRunSummary where
  exitCode := processEnd.exitCode
  duration := now
  truncated := loop.tail.truncated || loop.visible.truncated
  timedOut := processEnd.killReason = some .timedOut
  cancelled := processEnd.killReason = some .cancelled
  tail := loop.tail.asStr

/-- The end of an iteration: the loop is left when there is nothing more to come. -/
def settle (now : ℕ) (loop : Loop) : Main :=
  match loop.chunksDone, loop.processEnd with
  | true, some processEnd => .returned loop (loop.summary now processEnd)
  | _, _ => .looping loop

end Loop

namespace Main

/-- The loop, also when it has been left. -/
def loop? : Main → Option Loop
  | .looping loop | .returned loop _ => some loop
  | .dropped => none

/-- What has been shown; `finish` comes last. -/
def shown (invocation : Invocation) : Main → List OutputEvent
  | .looping loop => loop.events
  | .returned loop summary => loop.events ++ loop.visible.finish invocation summary
  | .dropped => []

end Main

/-! ## Steps -/

/-- A read that is the last one. -/
def ReadResult.isLast : ReadResult → Bool
  | .ok bytes => bytes.isEmpty
  | .err _ => true

/-- The chunk that is sent for a read. -/
def ReadResult.chunk : ReadResult → List (List Char)
  | .ok [] => []
  | .ok bytes => [lossy bytes]
  | .err message => ["\n[shell stream read error: ".toList ++ message ++ "]\n".toList]

/-- What the tasks do, and what happens around them. -/
inductive ShellAction where
  | tick (time : ℕ)
  | cancel
  | exit (code : Option Int)
  | read (pipe : Pipe) (result : ReadResult)
  | drop
  | monitorExit | monitorKill | monitorReap
  | receive | receiveEnd | sendCancelled | sendTimedOut

/-- A step of the four tasks, and none of what happens around them. -/
def ShellAction.isInternal : ShellAction → Bool
  | .monitorExit | .monitorKill | .monitorReap => true
  | .receive | .receiveEnd | .sendCancelled | .sendTimedOut => true
  | _ => false

namespace ShellRun

def start (invocation : Invocation) : ShellRun where
  clock := 0
  cancelled := false
  child := .running
  reads _ := []
  reading _ := true
  chunks := []
  kill := .empty
  monitor := .waiting
  main := .looping (.start invocation)

/-- The receiver of the chunks is there. -/
def receives (s : ShellRun) : Bool :=
  match s.main with
  | .looping _ => true
  | .returned .. | .dropped => false

/-- The task of a pipe ends with its last read, or when its chunk cannot be sent. -/
def afterRead (s : ShellRun) (pipe : Pipe) (result : ReadResult) : ShellRun where
  clock := s.clock
  cancelled := s.cancelled
  child := s.child
  reads := Function.update s.reads pipe (s.reads pipe ++ [result])
  reading := Function.update s.reading pipe (s.receives && !result.isLast)
  chunks := s.chunks ++ if s.receives then result.chunk.map fun chunk => (pipe, chunk) else []
  kill := s.kill
  monitor := s.monitor
  main := s.main

/-- The branches of `wait_for_process`. -/
def monitorStep (s : ShellRun) : ShellAction → Option Monitor
  | .monitorExit =>
    match s.monitor, s.child with
    | .waiting, .exited code => some (.ended ⟨code, none⟩)
    | _, _ => none
  | .monitorKill =>
    match s.monitor, s.kill with
    | .waiting, .sent reason => some (.terminating reason)
    | .waiting, .closed => some (.terminating .cancelled)
    | _, _ => none
  | .monitorReap =>
    match s.monitor, s.child with
    | .terminating reason, .exited code => some (.ended ⟨code, some reason⟩)
    | _, _ => none
  | _ => none

/-- The order is given while its sender is there and the process has not been seen to end. -/
def sendKill (s : ShellRun) (loop : Loop) (reason : KillReason) : Option ShellRun :=
  if loop.killTx && loop.processEnd.isNone then
    some { s with kill := .sent reason, main := .looping { loop with killTx := false } }
  else none

/-- The branches of the loop. -/
def loopStep (invocation : Invocation) (s : ShellRun) (loop : Loop) :
    ShellAction → Option ShellRun
  | .receive =>
    if loop.chunksDone then none
    else
      match s.chunks with
      | (pipe, chunk) :: chunks =>
        (loop.handleChunk invocation s.clock pipe chunk).map fun loop =>
          { s with chunks, main := loop.settle s.clock }
      | [] =>
        if s.reading .stdout || s.reading .stderr then none
        else some { s with main := { loop with chunksDone := true }.settle s.clock }
  | .receiveEnd =>
    match loop.processEnd, s.monitor with
    | none, .ended processEnd =>
      some { s with
        kill := if loop.killTx then .closed else s.kill
        main := { loop with processEnd := some processEnd, killTx := false }.settle s.clock }
    | _, _ => none
  | .sendCancelled => if s.cancelled then s.sendKill loop .cancelled else none
  | .sendTimedOut => if hardTimeout ≤ s.clock then s.sendKill loop .timedOut else none
  | _ => none

def step (invocation : Invocation) (s : ShellRun) : ShellAction → Option ShellRun
  | .tick time => some { s with clock := s.clock + time }
  | .cancel => some { s with cancelled := true }
  | .exit code => if s.child = .running then some { s with child := .exited code } else none
  | .read pipe result => if s.reading pipe then some (s.afterRead pipe result) else none
  | .drop =>
    match s.main with
    | .looping loop =>
      some { s with kill := if loop.killTx then .closed else s.kill, main := .dropped }
    | .returned .. | .dropped => none
  | .monitorExit => (s.monitorStep .monitorExit).map fun monitor => { s with monitor }
  | .monitorKill => (s.monitorStep .monitorKill).map fun monitor => { s with monitor }
  | .monitorReap => (s.monitorStep .monitorReap).map fun monitor => { s with monitor }
  | action =>
    match s.main with
    | .looping loop => s.loopStep invocation loop action
    | .returned .. | .dropped => none

/-! ## What a step can do -/

/-- The order for a reason is given. -/
def sendAction : KillReason → ShellAction
  | .cancelled => .sendCancelled
  | .timedOut => .sendTimedOut

/-- There is the reason. -/
def HasReason (s : ShellRun) : KillReason → Prop
  | .cancelled => s.cancelled = true
  | .timedOut => hardTimeout ≤ s.clock

inductive Moves (invocation : Invocation) (s : ShellRun) : ShellAction → ShellRun → Prop
  | tick (time : ℕ) : Moves invocation s (.tick time) { s with clock := s.clock + time }
  | cancel : Moves invocation s .cancel { s with cancelled := true }
  | exit (code : Option Int) (hchild : s.child = .running) :
    Moves invocation s (.exit code) { s with child := .exited code }
  | read (pipe : Pipe) (result : ReadResult) (hreading : s.reading pipe = true) :
    Moves invocation s (.read pipe result) (s.afterRead pipe result)
  | drop (loop : Loop) (hmain : s.main = .looping loop) :
    Moves invocation s .drop
      { s with kill := if loop.killTx then .closed else s.kill, main := .dropped }
  | monitor (action : ShellAction) (monitor : Monitor)
    (hmonitor : s.monitorStep action = some monitor) :
    Moves invocation s action { s with monitor }
  | chunk (loop next : Loop) (pipe : Pipe) (chunk : List Char) (chunks : List (Pipe × List Char))
    (hmain : s.main = .looping loop) (hopen : loop.chunksDone = false)
    (hchunks : s.chunks = (pipe, chunk) :: chunks)
    (hnext : loop.handleChunk invocation s.clock pipe chunk = some next) :
    Moves invocation s .receive { s with chunks, main := next.settle s.clock }
  | chunksDone (loop : Loop) (hmain : s.main = .looping loop) (hopen : loop.chunksDone = false)
    (hchunks : s.chunks = []) (hreading : ∀ pipe, s.reading pipe = false) :
    Moves invocation s .receive
      { s with main := { loop with chunksDone := true }.settle s.clock }
  | processEnd (loop : Loop) (processEnd : ProcessEnd) (hmain : s.main = .looping loop)
    (hnone : loop.processEnd = none) (hmonitor : s.monitor = .ended processEnd) :
    Moves invocation s .receiveEnd
      { s with
        kill := if loop.killTx then .closed else s.kill
        main := { loop with processEnd := some processEnd, killTx := false }.settle s.clock }
  | kill (loop : Loop) (reason : KillReason) (hmain : s.main = .looping loop)
    (htx : loop.killTx = true) (hnone : loop.processEnd = none) (hreason : s.HasReason reason) :
    Moves invocation s (sendAction reason)
      { s with kill := .sent reason, main := .looping { loop with killTx := false } }

variable {invocation : Invocation} {s t : ShellRun} {action : ShellAction}

lemma moves_kill {loop : Loop} (reason : KillReason) (hmain : s.main = .looping loop)
    (hreason : s.HasReason reason) (h : s.sendKill loop reason = some t) :
    Moves invocation s (sendAction reason) t := by
  unfold sendKill at h
  split_ifs at h with hready
  rw [Bool.and_eq_true, Option.isNone_iff_eq_none] at hready
  obtain rfl := Option.some.inj h
  exact .kill loop reason hmain hready.1 hready.2 hreason

lemma moves_loopStep {loop : Loop} (hmain : s.main = .looping loop)
    (h : s.loopStep invocation loop action = some t) : Moves invocation s action t := by
  unfold loopStep at h
  split at h
  · by_cases hopen : loop.chunksDone = true
    · rw [if_pos hopen] at h
      cases h
    · rw [if_neg hopen] at h
      rw [Bool.not_eq_true] at hopen
      split at h
      · next pipe chunk chunks hchunks =>
        obtain ⟨next, hnext, rfl⟩ := Option.map_eq_some_iff.mp h
        exact .chunk loop next pipe chunk chunks hmain hopen hchunks hnext
      · next hchunks =>
        split_ifs at h with hreading
        obtain rfl := Option.some.inj h
        rw [Bool.or_eq_true, not_or, Bool.not_eq_true, Bool.not_eq_true] at hreading
        refine .chunksDone loop hmain hopen hchunks fun pipe => ?_
        cases pipe
        · exact hreading.1
        · exact hreading.2
  · split at h
    · next processEnd hnone hmonitor =>
      obtain rfl := Option.some.inj h
      exact .processEnd loop processEnd hmain hnone hmonitor
    · cases h
  · split_ifs at h with hcancelled
    exact moves_kill .cancelled hmain hcancelled h
  · split_ifs at h with htime
    exact moves_kill .timedOut hmain htime h
  · cases h

lemma moves_of_step (h : step invocation s action = some t) : Moves invocation s action t := by
  unfold step at h
  split at h
  · obtain rfl := Option.some.inj h
    exact .tick _
  · obtain rfl := Option.some.inj h
    exact .cancel
  · split_ifs at h with hchild
    obtain rfl := Option.some.inj h
    exact .exit _ hchild
  · split_ifs at h with hreading
    obtain rfl := Option.some.inj h
    exact .read _ _ hreading
  · split at h
    · next loop hmain =>
      obtain rfl := Option.some.inj h
      exact .drop loop hmain
    · cases h
    · cases h
  · obtain ⟨monitor, hmonitor, rfl⟩ := Option.map_eq_some_iff.mp h
    exact .monitor _ monitor hmonitor
  · obtain ⟨monitor, hmonitor, rfl⟩ := Option.map_eq_some_iff.mp h
    exact .monitor _ monitor hmonitor
  · obtain ⟨monitor, hmonitor, rfl⟩ := Option.map_eq_some_iff.mp h
    exact .monitor _ monitor hmonitor
  · split at h
    · next loop hmain => exact moves_loopStep hmain h
    · cases h
    · cases h

end ShellRun

/-! ## The pipes -/

lemma Loop.loop?_settle (now : ℕ) (loop : Loop) : (loop.settle now).loop? = some loop := by
  unfold Loop.settle
  split <;> rfl

lemma Loop.settle_ne_dropped (now : ℕ) (loop : Loop) : loop.settle now ≠ .dropped := by
  unfold Loop.settle
  split <;> simp

lemma Loop.eq_returned_of_settle {now : ℕ} {loop loop' : Loop} {summary : ShellRunSummary}
    (h : loop.settle now = .returned loop' summary) :
    loop' = loop ∧ loop.chunksDone = true ∧
      ∃ processEnd, loop.processEnd = some processEnd ∧ summary = loop.summary now processEnd := by
  unfold Loop.settle at h
  split at h
  · next processEnd hdone hend =>
    cases h
    exact ⟨rfl, hdone, processEnd, hend, rfl⟩
  · cases h

/-- What a chunk changes. -/
structure Loop.Handled (invocation : Invocation) (now : ℕ) (loop : Loop) (pipe : Pipe)
    (chunk : List Char) (next : Loop) : Prop where
  handled : next.handled = loop.handled ++ [(pipe, chunk)]
  chunksDone : next.chunksDone = loop.chunksDone
  processEnd : next.processEnd = loop.processEnd
  killTx : next.killTx = loop.killTx
  tail : loop.tail.push (normalizeChunk chunk) = some next.tail
  shown : ∃ events, loop.visible.handleChunk invocation now (normalizeChunk chunk) next.tail =
    some (next.visible, events) ∧ next.events = loop.events ++ events

lemma Loop.handled_of_handleChunk {invocation : Invocation} {now : ℕ} {loop next : Loop}
    {pipe : Pipe} {chunk : List Char} (h : loop.handleChunk invocation now pipe chunk = some next) :
    loop.Handled invocation now pipe chunk next := by
  unfold Loop.handleChunk at h
  simp only [Option.bind_eq_bind, Option.bind_eq_some_iff] at h
  obtain ⟨tail, htail, ⟨visible, events⟩, hvisible, hnext⟩ := h
  obtain rfl := Option.some.inj hnext
  exact ⟨rfl, rfl, rfl, rfl, htail, events, hvisible, rfl⟩

/-- What was read before does not matter for what is sent for a read, unless it was the last. -/
lemma readPipe_concat {results : List ReadResult} (h : ∀ result ∈ results, result.isLast = false)
    (result : ReadResult) : readPipe (results ++ [result]) = readPipe results ++ result.chunk := by
  induction results with
  | nil =>
    rcases result with (_ | ⟨byte, bytes⟩) | message
    · rfl
    · rfl
    · rfl
  | cons first results ih =>
    have hrest := ih fun result hmem => h result (List.mem_cons_of_mem first hmem)
    have hfirst := h first List.mem_cons_self
    rcases first with (_ | ⟨byte, bytes⟩) | message
    · cases hfirst
    · rw [List.cons_append, readPipe, readPipe, hrest, List.cons_append]
      · simp
      · simp
    · cases hfirst

/-- The chunks of a pipe among those of both. -/
def chunksOf (pipe : Pipe) (chunks : List (Pipe × List Char)) : List (List Char) :=
  (chunks.filter (·.1 = pipe)).map Prod.snd

lemma chunksOf_append (pipe : Pipe) (chunks chunks' : List (Pipe × List Char)) :
    chunksOf pipe (chunks ++ chunks') = chunksOf pipe chunks ++ chunksOf pipe chunks' := by
  rw [chunksOf, List.filter_append, List.map_append]
  rfl

lemma chunksOf_map (pipe pipe' : Pipe) (chunks : List (List Char)) :
    chunksOf pipe' (chunks.map fun chunk => (pipe, chunk)) = if pipe = pipe' then chunks else [] := by
  by_cases h : pipe = pipe'
  · simp [chunksOf, List.filter_map, Function.comp_def, h]
  · simp [chunksOf, List.filter_map, Function.comp_def, h]

namespace ShellRun

/-- Every chunk that was read is on its way or has been received, in its order. -/
structure Delivers (s : ShellRun) : Prop where
  reading : ∀ pipe, s.reading pipe = true → ∀ result ∈ s.reads pipe, result.isLast = false
  ended : s.main ≠ .dropped → ∀ pipe, s.reading pipe = false →
    ∃ earlier last, s.reads pipe = earlier ++ [last] ∧ last.isLast = true
  delivered : ∀ loop ∈ s.main.loop?, ∀ pipe,
    chunksOf pipe (loop.handled ++ s.chunks) = Shell.readPipe (s.reads pipe)
  done : ∀ loop ∈ s.main.loop?, loop.chunksDone = true →
    s.chunks = [] ∧ ∀ pipe, s.reading pipe = false
  returned : ∀ loop summary, s.main = .returned loop summary → loop.chunksDone = true

variable {invocation : Invocation} {s t : ShellRun} {action : ShellAction}

lemma delivers_start (invocation : Invocation) : Delivers (start invocation) where
  reading _ _ result hmem := absurd hmem List.not_mem_nil
  ended _ pipe hreading := by cases hreading
  delivered := by
    rintro loop hloop pipe
    obtain rfl := Option.some.inj hloop
    rfl
  done := by
    rintro loop hloop hdone
    obtain rfl := Option.some.inj hloop
    cases hdone
  returned loop summary hmain := by cases hmain

/-- A step that leaves the pipes alone, and of the loop what it has received. -/
lemma Delivers.frame (h : Delivers s) (hreads : t.reads = s.reads) (hreading : t.reading = s.reading)
    (hchunks : t.chunks = s.chunks)
    (hloop : ∀ loop ∈ t.main.loop?, ∃ loop' ∈ s.main.loop?,
      loop.handled = loop'.handled ∧ loop.chunksDone = loop'.chunksDone)
    (hdropped : s.main = .dropped → t.main = .dropped)
    (hreturned : ∀ loop summary, t.main = .returned loop summary → loop.chunksDone = true) :
    Delivers t where
  reading := by
    rw [hreads, hreading]
    exact h.reading
  ended hmain := by
    rw [hreads, hreading]
    exact h.ended fun hs => hmain (hdropped hs)
  delivered loop hmem := by
    obtain ⟨loop', hmem', hhandled, -⟩ := hloop loop hmem
    rw [hreads, hchunks, hhandled]
    exact h.delivered loop' hmem'
  done loop hmem := by
    obtain ⟨loop', hmem', -, hdone⟩ := hloop loop hmem
    rw [hchunks, hreading, hdone]
    exact h.done loop' hmem'
  returned := hreturned

lemma Delivers.read (h : Delivers s) (pipe : Pipe) (result : ReadResult)
    (hreading : s.reading pipe = true) : Delivers (s.afterRead pipe result) := by
  have hearlier := h.reading pipe hreading
  have hreceives : s.main ≠ .dropped → s.receives = true := by
    intro hmain
    unfold receives
    cases hcase : s.main with
    | looping loop => rfl
    | returned loop summary =>
      have hdone := h.done loop (by rw [hcase]; rfl) (h.returned loop summary hcase)
      rw [hdone.2 pipe] at hreading
      cases hreading
    | dropped => exact absurd hcase hmain
  have hnotdropped : ∀ loop ∈ s.main.loop?, s.main ≠ .dropped := by
    intro loop hloop hmain
    rw [hmain] at hloop
    cases hloop
  refine ⟨fun pipe' hpipe' => ?_, fun hmain pipe' hpipe' => ?_, fun loop hloop pipe' => ?_,
    fun loop hloop hdone => ?_, h.returned⟩
  · change Function.update s.reading pipe (s.receives && !result.isLast) pipe' = true at hpipe'
    change ∀ result' ∈ Function.update s.reads pipe (s.reads pipe ++ [result]) pipe', _
    by_cases hsame : pipe' = pipe
    · rw [hsame, Function.update_self, Bool.and_eq_true, Bool.not_eq_true'] at hpipe'
      rw [hsame, Function.update_self, List.forall_mem_append]
      exact ⟨hearlier, List.forall_mem_singleton.mpr hpipe'.2⟩
    · rw [Function.update_of_ne hsame] at hpipe'
      rw [Function.update_of_ne hsame]
      exact h.reading pipe' hpipe'
  · change Function.update s.reading pipe (s.receives && !result.isLast) pipe' = false at hpipe'
    change ∃ earlier last, Function.update s.reads pipe (s.reads pipe ++ [result]) pipe' = _ ∧ _
    by_cases hsame : pipe' = pipe
    · rw [hsame, Function.update_self, hreceives hmain, Bool.true_and, Bool.not_eq_false'] at hpipe'
      rw [hsame, Function.update_self]
      exact ⟨s.reads pipe, result, rfl, hpipe'⟩
    · rw [Function.update_of_ne hsame] at hpipe'
      rw [Function.update_of_ne hsame]
      exact h.ended hmain pipe' hpipe'
  · change chunksOf pipe' (loop.handled ++ (s.chunks ++
      if s.receives then result.chunk.map fun chunk => (pipe, chunk) else [])) =
        Shell.readPipe (Function.update s.reads pipe (s.reads pipe ++ [result]) pipe')
    rw [hreceives (hnotdropped loop hloop), if_pos rfl, ← List.append_assoc, chunksOf_append,
      chunksOf_map, h.delivered loop hloop pipe']
    by_cases hsame : pipe' = pipe
    · rw [hsame, if_pos rfl, Function.update_self, readPipe_concat hearlier]
    · rw [if_neg (Ne.symm hsame), List.append_nil, Function.update_of_ne hsame]
  · rw [(h.done loop hloop hdone).2 pipe] at hreading
    cases hreading

lemma Delivers.step (h : Delivers s) (hmoves : Moves invocation s action t) : Delivers t := by
  have hself : ∀ loop ∈ s.main.loop?, ∃ loop' ∈ s.main.loop?,
      loop.handled = loop'.handled ∧ loop.chunksDone = loop'.chunksDone :=
    fun loop hloop => ⟨loop, hloop, rfl, rfl⟩
  cases hmoves with
  | tick | cancel | exit | monitor => exact h.frame rfl rfl rfl hself id h.returned
  | read pipe result hreading => exact h.read pipe result hreading
  | drop loop hmain =>
    refine h.frame rfl rfl rfl (fun loop hloop => ?_) (fun _ => rfl) fun loop summary hmain => ?_
    · cases hloop
    · cases hmain
  | chunk loop next pipe chunk chunks hmain hopen hchunks hnext =>
    have hhandled := Loop.handled_of_handleChunk hnext
    have hloop : loop ∈ s.main.loop? := by
      rw [hmain]
      rfl
    have hnext' : ∀ loop' ∈ (next.settle s.clock).loop?, loop' = next := by
      intro loop' hloop'
      rw [Loop.loop?_settle] at hloop'
      exact (Option.some.inj hloop').symm
    have hended := h.ended (by rw [hmain]; simp)
    refine ⟨h.reading, fun _ => hended, fun loop' hloop' pipe' => ?_, fun loop' hloop' hdone => ?_,
      fun loop' summary hmain' => ?_⟩
    · change chunksOf pipe' (loop'.handled ++ chunks) = Shell.readPipe (s.reads pipe')
      rw [hnext' loop' hloop', hhandled.handled, List.append_assoc, List.singleton_append, ← hchunks]
      exact h.delivered loop hloop pipe'
    · rw [hnext' loop' hloop', hhandled.chunksDone, hopen] at hdone
      cases hdone
    · obtain ⟨rfl, hdone, -⟩ := Loop.eq_returned_of_settle hmain'
      exact hdone
  | chunksDone loop hmain hopen hchunks hreading =>
    have hloop : loop ∈ s.main.loop? := by
      rw [hmain]
      rfl
    have hended := h.ended (by rw [hmain]; simp)
    refine ⟨h.reading, fun _ => hended, fun loop' hloop' pipe' => ?_,
      fun _ _ _ => ⟨hchunks, hreading⟩, fun loop' summary hmain' => ?_⟩
    · rw [Loop.loop?_settle] at hloop'
      obtain rfl := Option.some.inj hloop'
      exact h.delivered loop hloop pipe'
    · obtain ⟨rfl, hdone, -⟩ := Loop.eq_returned_of_settle hmain'
      exact hdone
  | processEnd loop processEnd hmain hnone hmonitor =>
    refine h.frame rfl rfl rfl (fun loop' hloop' => ?_) (fun hdropped => ?_)
      fun loop' summary hmain' => ?_
    · rw [Loop.loop?_settle] at hloop'
      obtain rfl := Option.some.inj hloop'
      exact ⟨loop, by rw [hmain]; rfl, rfl, rfl⟩
    · rw [hmain] at hdropped
      cases hdropped
    · obtain ⟨rfl, hdone, -⟩ := Loop.eq_returned_of_settle hmain'
      exact hdone
  | kill loop reason hmain htx hnone hreason =>
    refine h.frame rfl rfl rfl (fun loop' hloop' => ?_) (fun hdropped => ?_)
      fun loop' summary hmain' => ?_
    · obtain rfl := Option.some.inj hloop'
      exact ⟨loop, by rw [hmain]; rfl, rfl, rfl⟩
    · rw [hmain] at hdropped
      cases hdropped
    · cases hmain'

/-! ## The order to kill -/

/-- There was the reason for an order, or the run has been dropped, which cancels it. -/
def Justified (s : ShellRun) (reason : KillReason) : Prop :=
  s.HasReason reason ∨ (reason = .cancelled ∧ s.main = .dropped)

/-- What the run, its channel and the task that waits for the process know of each other. -/
structure Kills (s : ShellRun) : Prop where
  sent : ∀ reason, s.kill = .sent reason → s.Justified reason
  closed : s.kill = .closed → s.main = .dropped ∨ ∃ processEnd, s.monitor = .ended processEnd
  terminating : ∀ reason, s.monitor = .terminating reason → s.Justified reason
  ended : ∀ processEnd, s.monitor = .ended processEnd → s.child = .exited processEnd.exitCode ∧
    ∀ reason, processEnd.killReason = some reason → s.Justified reason
  seen : ∀ loop ∈ s.main.loop?, ∀ processEnd, loop.processEnd = some processEnd →
    s.monitor = .ended processEnd
  ready : ∀ loop ∈ s.main.loop?, loop.killTx = true → s.kill = .empty
  given : ∀ loop ∈ s.main.loop?, loop.killTx = false →
    loop.processEnd ≠ none ∨ ∃ reason, s.kill = .sent reason
  dropped : s.main = .dropped → s.kill ≠ .empty ∨ ∃ processEnd, s.monitor = .ended processEnd

lemma kills_start (invocation : Invocation) : Kills (start invocation) where
  sent reason h := by cases h
  closed h := by cases h
  terminating reason h := by cases h
  ended processEnd h := by cases h
  seen := by
    rintro loop hloop processEnd h
    obtain rfl := Option.some.inj hloop
    cases h
  ready _ _ _ := rfl
  given := by
    rintro loop hloop h
    obtain rfl := Option.some.inj hloop
    cases h
  dropped h := by cases h

/-- A reason stays one. -/
lemma Justified.mono {reason : KillReason} (h : s.Justified reason)
    (hcancelled : s.cancelled = true → t.cancelled = true) (hclock : s.clock ≤ t.clock)
    (hmain : s.main = .dropped → t.main = .dropped) : t.Justified reason := by
  rcases h with h | ⟨hreason, h⟩
  · left
    cases reason with
    | cancelled => exact hcancelled h
    | timedOut => exact Nat.le_trans h hclock
  · exact Or.inr ⟨hreason, hmain h⟩

/-- A step that concerns neither the channel nor the end of the process. -/
lemma Kills.frame (h : Kills s) (hkill : t.kill = s.kill) (hmonitor : t.monitor = s.monitor)
    (hchild : ∀ code, s.child = .exited code → t.child = .exited code)
    (hcancelled : s.cancelled = true → t.cancelled = true) (hclock : s.clock ≤ t.clock)
    (hloop : ∀ loop ∈ t.main.loop?, ∃ loop' ∈ s.main.loop?,
      loop.processEnd = loop'.processEnd ∧ loop.killTx = loop'.killTx)
    (hdropped : t.main = .dropped ↔ s.main = .dropped) : Kills t := by
  have hjust : ∀ reason, s.Justified reason → t.Justified reason :=
    fun reason hreason => hreason.mono hcancelled hclock hdropped.mpr
  refine ⟨?_, ?_, ?_, ?_, ?_, ?_, ?_, ?_⟩
  · intro reason hsent
    exact hjust reason (h.sent reason (hkill ▸ hsent))
  · rw [hkill, hmonitor, hdropped]
    exact h.closed
  · intro reason hterm
    exact hjust reason (h.terminating reason (hmonitor ▸ hterm))
  · intro processEnd hended
    obtain ⟨hexit, hreason⟩ := h.ended processEnd (hmonitor ▸ hended)
    exact ⟨hchild _ hexit, fun reason hsome => hjust reason (hreason reason hsome)⟩
  · intro loop hmem processEnd hsome
    obtain ⟨loop', hmem', hend, -⟩ := hloop loop hmem
    rw [hmonitor]
    exact h.seen loop' hmem' processEnd (hend ▸ hsome)
  · intro loop hmem htx
    obtain ⟨loop', hmem', -, htx'⟩ := hloop loop hmem
    rw [hkill]
    exact h.ready loop' hmem' (htx' ▸ htx)
  · intro loop hmem htx
    obtain ⟨loop', hmem', hend, htx'⟩ := hloop loop hmem
    rw [hend, hkill]
    exact h.given loop' hmem' (htx' ▸ htx)
  · intro hmain
    rw [hkill, hmonitor]
    exact h.dropped (hdropped.mp hmain)

/-- What `wait_for_process` can do. -/
lemma monitorStep_cases {monitor : Monitor} (h : s.monitorStep action = some monitor) :
    (s.monitor = .waiting ∧ ∃ code, s.child = .exited code ∧ monitor = .ended ⟨code, none⟩) ∨
      (s.monitor = .waiting ∧ ∃ reason, monitor = .terminating reason ∧
        (s.kill = .sent reason ∨ s.kill = .closed ∧ reason = .cancelled)) ∨
      ∃ reason code, s.monitor = .terminating reason ∧ s.child = .exited code ∧
        monitor = .ended ⟨code, some reason⟩ := by
  unfold monitorStep at h
  split at h
  · split at h
    · next code hmonitor hchild =>
      obtain rfl := Option.some.inj h
      exact Or.inl ⟨hmonitor, code, hchild, rfl⟩
    · cases h
  · split at h
    · next reason hmonitor hkill =>
      obtain rfl := Option.some.inj h
      exact Or.inr (Or.inl ⟨hmonitor, reason, rfl, Or.inl hkill⟩)
    · next hmonitor hkill =>
      obtain rfl := Option.some.inj h
      exact Or.inr (Or.inl ⟨hmonitor, .cancelled, rfl, Or.inr ⟨hkill, rfl⟩⟩)
    · cases h
  · split at h
    · next reason code hmonitor hchild =>
      obtain rfl := Option.some.inj h
      exact Or.inr (Or.inr ⟨reason, code, hmonitor, hchild, rfl⟩)
    · cases h
  · cases h

/-- The end is sent once, and while the process has not been seen to end. -/
lemma Kills.monitor (h : Kills s) {monitor : Monitor}
    (hmonitor : s.monitorStep action = some monitor) : Kills { s with monitor } := by
  have hcases := monitorStep_cases hmonitor
  have hbefore : ∀ processEnd, s.monitor ≠ .ended processEnd := by
    intro processEnd hended
    rcases hcases with ⟨hwaiting, -⟩ | ⟨hwaiting, -⟩ | ⟨reason, code, hterm, -⟩
    · rw [hwaiting] at hended
      cases hended
    · rw [hwaiting] at hended
      cases hended
    · rw [hterm] at hended
      cases hended
  have hclosed : s.kill = .closed → s.main = .dropped := fun hkill =>
    (h.closed hkill).resolve_right fun ⟨processEnd, hended⟩ => hbefore processEnd hended
  refine ⟨h.sent, fun hkill => Or.inl (hclosed hkill), fun reason hterm => ?_,
    fun processEnd hended => ?_, fun loop hloop processEnd hsome => ?_, h.ready, h.given,
    fun hmain => ?_⟩
  · change monitor = .terminating reason at hterm
    rcases hcases with ⟨-, code, -, hend⟩ | ⟨-, reason', hterm', hkill⟩ | ⟨_, code, -, -, hend⟩
    · rw [hend] at hterm
      cases hterm
    · rw [hterm'] at hterm
      cases hterm
      rcases hkill with hkill | ⟨hkill, hreason⟩
      · exact h.sent _ hkill
      · exact Or.inr ⟨hreason, hclosed hkill⟩
    · rw [hend] at hterm
      cases hterm
  · change monitor = .ended processEnd at hended
    rcases hcases with ⟨-, code, hchild, hend⟩ | ⟨-, reason, hterm, -⟩ |
      ⟨reason, code, hterm, hchild, hend⟩
    · rw [hend] at hended
      cases hended
      exact ⟨hchild, fun reason hreason => by cases hreason⟩
    · rw [hterm] at hended
      cases hended
    · rw [hend] at hended
      cases hended
      refine ⟨hchild, fun reason' hreason => ?_⟩
      cases hreason
      exact h.terminating reason hterm
  · exact absurd (h.seen loop hloop processEnd hsome) (hbefore processEnd)
  · exact Or.inl ((h.dropped hmain).resolve_right fun ⟨processEnd, hended⟩ =>
      hbefore processEnd hended)

lemma Kills.step (h : Kills s) (hmoves : Moves invocation s action t) : Kills t := by
  have hself : ∀ loop ∈ s.main.loop?, ∃ loop' ∈ s.main.loop?,
      loop.processEnd = loop'.processEnd ∧ loop.killTx = loop'.killTx :=
    fun loop hloop => ⟨loop, hloop, rfl, rfl⟩
  cases hmoves with
  | tick time => exact h.frame rfl rfl (fun _ => id) id (Nat.le_add_right _ _) hself Iff.rfl
  | cancel => exact h.frame rfl rfl (fun _ => id) (fun _ => rfl) le_rfl hself Iff.rfl
  | exit code hchild =>
    refine h.frame rfl rfl (fun code' hcode => ?_) id le_rfl hself Iff.rfl
    rw [hchild] at hcode
    cases hcode
  | read pipe result hreading => exact h.frame rfl rfl (fun _ => id) id le_rfl hself Iff.rfl
  | monitor action monitor hmonitor => exact h.monitor hmonitor
  | drop loop hmain =>
    have hloop : loop ∈ s.main.loop? := by
      rw [hmain]
      rfl
    have hjust : ∀ reason, s.Justified reason →
        Justified { s with kill := if loop.killTx then .closed else s.kill, main := .dropped }
          reason := fun reason hreason => hreason.mono id le_rfl fun _ => rfl
    refine ⟨fun reason hsent => ?_, fun _ => Or.inl rfl,
      fun reason hterm => hjust reason (h.terminating reason hterm), fun processEnd hended => ?_,
      fun loop' hloop' => (by cases hloop'), fun loop' hloop' => (by cases hloop'),
      fun loop' hloop' => (by cases hloop'), fun _ => ?_⟩
    · change (if loop.killTx then KillChannel.closed else s.kill) = .sent reason at hsent
      cases htx : loop.killTx with
      | true =>
        rw [htx, if_pos rfl] at hsent
        cases hsent
      | false =>
        rw [htx, if_neg Bool.false_ne_true] at hsent
        exact hjust reason (h.sent reason hsent)
    · obtain ⟨hexit, hreason⟩ := h.ended processEnd hended
      exact ⟨hexit, fun reason hsome => hjust reason (hreason reason hsome)⟩
    · change (if loop.killTx then KillChannel.closed else s.kill) ≠ .empty ∨ _
      cases htx : loop.killTx with
      | true =>
        left
        rw [if_pos rfl]
        simp
      | false =>
        rw [if_neg Bool.false_ne_true]
        rcases h.given loop hloop htx with hsome | ⟨reason, hsent⟩
        · obtain ⟨processEnd, hprocessEnd⟩ := Option.ne_none_iff_exists'.mp hsome
          exact Or.inr ⟨processEnd, h.seen loop hloop processEnd hprocessEnd⟩
        · left
          rw [hsent]
          simp
  | chunk loop next pipe chunk chunks hmain hopen hchunks hnext =>
    have hhandled := Loop.handled_of_handleChunk hnext
    refine h.frame rfl rfl (fun _ => id) id le_rfl (fun loop' hloop' => ?_) ?_
    · rw [Loop.loop?_settle] at hloop'
      obtain rfl := Option.some.inj hloop'
      exact ⟨loop, by rw [hmain]; rfl, hhandled.processEnd, hhandled.killTx⟩
    · rw [hmain]
      exact iff_of_false (Loop.settle_ne_dropped _ _) (by simp)
  | chunksDone loop hmain hopen hchunks hreading =>
    refine h.frame rfl rfl (fun _ => id) id le_rfl (fun loop' hloop' => ?_) ?_
    · rw [Loop.loop?_settle] at hloop'
      obtain rfl := Option.some.inj hloop'
      exact ⟨loop, by rw [hmain]; rfl, rfl, rfl⟩
    · rw [hmain]
      exact iff_of_false (Loop.settle_ne_dropped _ _) (by simp)
  | processEnd loop processEnd hmain hnone hmonitor =>
    have hjust : ∀ reason, s.Justified reason → Justified { s with
        kill := if loop.killTx then .closed else s.kill
        main := { loop with processEnd := some processEnd, killTx := false }.settle s.clock }
        reason := by
      refine fun reason hreason => hreason.mono id le_rfl fun hdropped => ?_
      rw [hmain] at hdropped
      cases hdropped
    refine ⟨fun reason hsent => ?_, fun _ => Or.inr ⟨processEnd, hmonitor⟩,
      fun reason hterm => hjust reason (h.terminating reason hterm),
      fun processEnd' hended => ?_, fun loop' hloop' processEnd' hsome => ?_,
      fun loop' hloop' htx => ?_, fun loop' hloop' _ => Or.inl ?_,
      fun hdropped => absurd hdropped (Loop.settle_ne_dropped _ _)⟩
    · change (if loop.killTx then KillChannel.closed else s.kill) = .sent reason at hsent
      cases htx : loop.killTx with
      | true =>
        rw [htx, if_pos rfl] at hsent
        cases hsent
      | false =>
        rw [htx, if_neg Bool.false_ne_true] at hsent
        exact hjust reason (h.sent reason hsent)
    · obtain ⟨hexit, hreason⟩ := h.ended processEnd' hended
      exact ⟨hexit, fun reason hsome => hjust reason (hreason reason hsome)⟩
    · rw [Loop.loop?_settle] at hloop'
      obtain rfl := Option.some.inj hloop'
      cases hsome
      exact hmonitor
    · rw [Loop.loop?_settle] at hloop'
      obtain rfl := Option.some.inj hloop'
      cases htx
    · rw [Loop.loop?_settle] at hloop'
      obtain rfl := Option.some.inj hloop'
      simp
  | kill loop reason hmain htx hnone hreason =>
    have hloop : loop ∈ s.main.loop? := by
      rw [hmain]
      rfl
    have hjust : ∀ reason', s.Justified reason' → Justified
        { s with kill := .sent reason, main := .looping { loop with killTx := false } } reason' := by
      refine fun reason' hreason' => hreason'.mono id le_rfl fun hdropped => ?_
      rw [hmain] at hdropped
      cases hdropped
    refine ⟨fun reason' hsent => ?_, fun hclosed => (by cases hclosed),
      fun reason' hterm => hjust reason' (h.terminating reason' hterm),
      fun processEnd hended => ?_, fun loop' hloop' processEnd hsome => ?_,
      fun loop' hloop' htx' => ?_, fun _ _ _ => Or.inr ⟨reason, rfl⟩,
      fun hdropped => (by cases hdropped)⟩
    · cases hsent
      exact hjust reason (Or.inl hreason)
    · obtain ⟨hexit, hreason'⟩ := h.ended processEnd hended
      exact ⟨hexit, fun reason' hsome => hjust reason' (hreason' reason' hsome)⟩
    · obtain rfl := Option.some.inj hloop'
      exact h.seen loop hloop processEnd hsome
    · obtain rfl := Option.some.inj hloop'
      cases htx'

end ShellRun

/-! ## What is shown of the output -/

/-- All output that has been received. -/
def output (handled : List (Pipe × List Char)) : List Char :=
  (handled.map fun chunk => normalizeChunk chunk.2).flatten

/-- A window that shows the end of what had come at some time. -/
def Invocation.IsUpdate (invocation : Invocation) (handled : List (Pipe × List Char))
    (text : List Char) : Prop :=
  ∃ pushed duration, pushed <+: output handled ∧
    text = invocation.renderWindow (pushed.rtake invocation.mode.tailChars)
      (decide (invocation.mode.tailChars < pushed.length)) duration true

/-- In stream mode the display has got to where `VisibleOutput.run` is; in window mode there was
an update interval between two windows. -/
def Loop.Displays (invocation : Invocation) (now : ℕ) (loop : Loop) : Prop :=
  match invocation.mode with
  | .stream visibleLimitBytes _ =>
    ∃ out events, loop.visible = .stream out ∧ loop.events = events.flatMap Display.streamEvent ∧
      (out.truncated = true ↔ .notice ∈ events) ∧
      ∀ later, ({ visibleLimitBytes } : VisibleOutput).run (loop.handled.map Prod.snd ++ later) =
        (out.run later).map (events ++ ·)
  | .window _ updateInterval =>
    ∃ (last : ℕ) (updates : List (List Char)), loop.visible = .window updateInterval last ∧
      loop.events = updates.map .onTextReplace ∧
      updateInterval * updates.length ≤ last + updateInterval ∧ last ≤ now ∧
      ∀ text ∈ updates, invocation.IsUpdate loop.handled text

structure Loop.Shows (invocation : Invocation) (now : ℕ) (loop : Loop) : Prop where
  maxChars : loop.tail.maxChars = invocation.mode.tailChars
  tail : loop.tail.Shows (output loop.handled)
  displays : loop.Displays invocation now

section Shows

variable {invocation : Invocation} {now : ℕ} {loop next : Loop} {pipe : Pipe}

lemma output_concat (handled : List (Pipe × List Char)) (pipe : Pipe) (chunk : List Char) :
    output (handled ++ [(pipe, chunk)]) = output handled ++ normalizeChunk chunk := by
  simp [output]

lemma Invocation.IsUpdate.append {handled : List (Pipe × List Char)} {text : List Char}
    (h : invocation.IsUpdate handled text) (chunk : Pipe × List Char) :
    invocation.IsUpdate (handled ++ [chunk]) text := by
  obtain ⟨pushed, duration, hpushed, rfl⟩ := h
  refine ⟨pushed, duration, ?_, rfl⟩
  rw [output_concat]
  exact hpushed.trans (List.prefix_append _ _)

lemma shows_start (invocation : Invocation) : (Loop.start invocation).Shows invocation 0 := by
  refine ⟨rfl, TailBuffer.shows_new _, ?_⟩
  unfold Loop.Displays
  split
  · next visibleLimitBytes tailChars hmode =>
    refine ⟨{ visibleLimitBytes }, [], ?_, ?_, ?_, fun later => ?_⟩
    · simp [Loop.start, Display.new, hmode]
    · simp [Loop.start, hmode]
    · simp
    · simp [Loop.start]
  · next tailChars updateInterval hmode =>
    refine ⟨0, [invocation.renderWindow [] false 0 true], ?_, ?_, ?_, le_rfl, fun text htext => ?_⟩
    · simp [Loop.start, Display.new, hmode]
    · simp [Loop.start, hmode]
    · simp
    · rw [List.mem_singleton] at htext
      refine ⟨[], 0, List.nil_prefix, ?_⟩
      rw [htext, List.rtake_nil]
      rfl

lemma Loop.Shows.later {now' : ℕ} (h : loop.Shows invocation now) (hnow : now ≤ now') :
    loop.Shows invocation now' := by
  refine ⟨h.maxChars, h.tail, ?_⟩
  have hdisplays := h.displays
  unfold Loop.Displays at hdisplays ⊢
  split
  · next hmode =>
    rw [hmode] at hdisplays
    exact hdisplays
  · next hmode =>
    rw [hmode] at hdisplays
    obtain ⟨last, updates, hvisible, hevents, hinterval, hlast, hupdates⟩ := hdisplays
    exact ⟨last, updates, hvisible, hevents, hinterval, hlast.trans hnow, hupdates⟩

/-- Nothing but a chunk is shown. -/
lemma Loop.Shows.congr (h : loop.Shows invocation now) (hhandled : next.handled = loop.handled)
    (htail : next.tail = loop.tail) (hvisible : next.visible = loop.visible)
    (hevents : next.events = loop.events) : next.Shows invocation now := by
  refine ⟨htail ▸ h.maxChars, by rw [htail, hhandled]; exact h.tail, ?_⟩
  have hdisplays := h.displays
  unfold Loop.Displays at hdisplays ⊢
  rw [hvisible, hevents, hhandled]
  exact hdisplays

/-- The truncation is told when it happens. -/
lemma truncated_iff_of_handleChunk {out out' : VisibleOutput} {chunk : List Char}
    {events : List StreamEvent}
    (h : out.handleChunk chunk = some (out', events)) :
    out'.truncated = true ↔ out.truncated = true ∨ .notice ∈ events := by
  unfold VisibleOutput.handleChunk at h
  split_ifs at h with hopen htruncated
  · simp only [prefixByBytes_eq, Option.bind_eq_bind, Option.bind_some, Option.pure_def,
      Option.some.injEq, Prod.mk.injEq] at h
    obtain ⟨rfl, rfl⟩ := h
    split_ifs <;> simp_all
  · obtain ⟨rfl, rfl⟩ := Prod.mk.inj (Option.some.inj h)
    simp
  · obtain ⟨rfl, rfl⟩ := Prod.mk.inj (Option.some.inj h)
    simp

lemma Loop.Shows.chunk {chunk : List Char} (h : loop.Shows invocation now)
    (hhandled : loop.Handled invocation now pipe chunk next) : next.Shows invocation now := by
  obtain ⟨tail, hpush, hmax, hshows⟩ := h.tail.push (normalizeChunk chunk)
  obtain rfl : tail = next.tail := Option.some.inj (hpush.symm.trans hhandled.tail)
  have houtput : output next.handled = output loop.handled ++ normalizeChunk chunk := by
    rw [hhandled.handled, output_concat]
  refine ⟨hmax.trans h.maxChars, houtput ▸ hshows, ?_⟩
  obtain ⟨events, hevents, hnext⟩ := hhandled.shown
  have hdisplays := h.displays
  unfold Loop.Displays at hdisplays ⊢
  split
  · next visibleLimitBytes tailChars hmode =>
    rw [hmode] at hdisplays
    obtain ⟨out, before, hvisible, hbefore, htruncated, hrun⟩ := hdisplays
    rw [hvisible, Display.handleChunk, Option.map_eq_some_iff] at hevents
    obtain ⟨⟨out', new⟩, hout, heq⟩ := hevents
    obtain ⟨hvisible', rfl⟩ := Prod.mk.inj heq
    refine ⟨out', before ++ new, hvisible'.symm, ?_, ?_, fun later => ?_⟩
    · rw [hnext, hbefore, List.flatMap_append]
    · rw [truncated_iff_of_handleChunk hout, htruncated, List.mem_append]
    · rw [hhandled.handled, List.map_append, List.append_assoc, hrun]
      simp only [List.map_cons, List.map_nil, List.cons_append, List.nil_append,
        VisibleOutput.run, hout, Option.bind_eq_bind, Option.bind_some, Option.pure_def]
      cases out'.run later with
      | none => rfl
      | some events => simp
  · next tailChars updateInterval hmode =>
    rw [hmode] at hdisplays
    obtain ⟨last, updates, hvisible, hupdates, hinterval, hlast, hall⟩ := hdisplays
    have hkept : ∀ text ∈ updates, invocation.IsUpdate next.handled text := by
      intro text htext
      rw [hhandled.handled]
      exact (hall text htext).append _
    rw [hvisible, Display.handleChunk] at hevents
    split_ifs at hevents with hdue
    · obtain ⟨hvisible', rfl⟩ := Prod.mk.inj (Option.some.inj hevents)
      refine ⟨now, updates ++ [invocation.renderWindow next.tail.asStr next.tail.truncated now true],
        hvisible'.symm, ?_, ?_, le_rfl, List.forall_mem_append.mpr ⟨hkept, ?_⟩⟩
      · rw [hnext, hupdates, List.map_append]
        rfl
      · rw [List.length_append, List.length_singleton, Nat.mul_succ]
        omega
      · refine List.forall_mem_singleton.mpr ⟨output next.handled, now, List.prefix_rfl, ?_⟩
        have htruncated : next.tail.truncated =
            decide (invocation.mode.tailChars < (output next.handled).length) := by
          rw [Bool.eq_iff_iff, decide_eq_true_eq, houtput, hshows.truncated_iff, hmax, h.maxChars]
        rw [htruncated, houtput, hshows.asStr_eq, hmax, h.maxChars]
    · obtain ⟨hvisible', rfl⟩ := Prod.mk.inj (Option.some.inj hevents)
      refine ⟨last, updates, hvisible'.symm, ?_, hinterval, hlast, hkept⟩
      rw [hnext, hupdates, List.append_nil]

end Shows

/-! ## The report -/

namespace ShellRun

/-- What is shown is the output that has come, and the summary is the one of the loop when it was
left. -/
structure Tells (invocation : Invocation) (s : ShellRun) : Prop where
  shows : ∀ loop ∈ s.main.loop?, loop.Shows invocation s.clock
  summary : ∀ loop summary, s.main = .returned loop summary →
    ∃ now processEnd, now ≤ s.clock ∧ loop.Shows invocation now ∧
      loop.processEnd = some processEnd ∧ summary = loop.summary now processEnd ∧
        (processEnd.killReason = some .timedOut → hardTimeout ≤ now)

/-- The loop goes on only while something is to come. -/
def Unsettled (s : ShellRun) : Prop :=
  ∀ loop, s.main = .looping loop → loop.chunksDone = true → loop.processEnd = none

/-- The invariant of all runs. -/
structure Sound (invocation : Invocation) (s : ShellRun) : Prop where
  delivers : s.Delivers
  kills : s.Kills
  tells : s.Tells invocation
  unsettled : s.Unsettled

variable {invocation : Invocation} {s t : ShellRun} {action : ShellAction}

lemma Tells.frame (h : s.Tells invocation) (hmain : t.main = s.main) (hclock : s.clock ≤ t.clock) :
    t.Tells invocation where
  shows loop hloop := (h.shows loop (hmain ▸ hloop)).later hclock
  summary loop summary hreturned := by
    obtain ⟨now, processEnd, hnow, hrest⟩ := h.summary loop summary (hmain ▸ hreturned)
    exact ⟨now, processEnd, hnow.trans hclock, hrest⟩

/-- The end of an iteration reports what the loop has shown. -/
lemma tells_settle {loop : Loop} (hmain : t.main = loop.settle t.clock) (hkills : t.Kills)
    (hshows : loop.Shows invocation t.clock) : t.Tells invocation where
  shows loop' hloop' := by
    rw [hmain, Loop.loop?_settle] at hloop'
    obtain rfl := Option.some.inj hloop'
    exact hshows
  summary loop' summary hreturned := by
    rw [hmain] at hreturned
    obtain ⟨rfl, -, processEnd, hend, hsummary⟩ := Loop.eq_returned_of_settle hreturned
    have hloop : loop' ∈ t.main.loop? := by rw [hmain, Loop.loop?_settle]; rfl
    have hended := hkills.ended processEnd (hkills.seen loop' hloop processEnd hend)
    refine ⟨t.clock, processEnd, le_rfl, hshows, hend, hsummary, fun htimedOut => ?_⟩
    rcases hended.2 .timedOut htimedOut with htime | ⟨hreason, -⟩
    · exact htime
    · cases hreason

lemma Tells.step (h : s.Tells invocation) (hkills : t.Kills)
    (hmoves : Moves invocation s action t) : t.Tells invocation := by
  have hlooping : ∀ loop, s.main = .looping loop → loop.Shows invocation s.clock := by
    intro loop hmain
    exact h.shows loop (by rw [hmain]; rfl)
  cases hmoves with
  | tick => exact h.frame rfl (Nat.le_add_right _ _)
  | cancel | exit | read | monitor => exact h.frame rfl le_rfl
  | drop loop hmain => exact ⟨fun loop hloop => (by cases hloop), fun _ _ hmain => (by cases hmain)⟩
  | chunk loop next pipe chunk chunks hmain hopen hchunks hnext =>
    exact tells_settle rfl hkills ((hlooping loop hmain).chunk (Loop.handled_of_handleChunk hnext))
  | chunksDone loop hmain =>
    exact tells_settle rfl hkills ((hlooping loop hmain).congr rfl rfl rfl rfl)
  | processEnd loop processEnd hmain =>
    exact tells_settle rfl hkills ((hlooping loop hmain).congr rfl rfl rfl rfl)
  | kill loop reason hmain =>
    refine ⟨fun loop' hloop' => ?_, fun _ _ hmain => (by cases hmain)⟩
    obtain rfl := Option.some.inj hloop'
    exact (hlooping loop hmain).congr rfl rfl rfl rfl

lemma unsettled_settle {loop : Loop} (hmain : t.main = loop.settle t.clock) : t.Unsettled := by
  intro loop' hlooping hdone
  rw [hmain] at hlooping
  unfold Loop.settle at hlooping
  split at hlooping
  · cases hlooping
  · next hopen =>
    cases hlooping
    cases hend : loop.processEnd with
    | none => rfl
    | some processEnd => exact (hopen processEnd hdone hend).elim

lemma Unsettled.step (h : s.Unsettled) (hmoves : Moves invocation s action t) : t.Unsettled := by
  cases hmoves with
  | tick | cancel | exit | read | monitor => exact h
  | drop loop hmain => exact fun loop hmain => (by cases hmain)
  | chunk | chunksDone | processEnd => exact unsettled_settle rfl
  | kill loop reason hmain =>
    intro loop' hloop' hdone
    cases hloop'
    exact h loop hmain hdone

lemma sound_start (invocation : Invocation) : (start invocation).Sound invocation where
  delivers := delivers_start invocation
  kills := kills_start invocation
  tells := by
    refine ⟨fun loop hloop => ?_, fun _ _ hmain => (by cases hmain)⟩
    obtain rfl := Option.some.inj hloop
    exact shows_start invocation
  unsettled := by
    intro loop hmain hdone
    cases hmain
    cases hdone

lemma Sound.step (h : s.Sound invocation) (hstep : s.step invocation action = some t) :
    t.Sound invocation := by
  have hmoves := moves_of_step hstep
  have hkills := h.kills.step hmoves
  exact ⟨h.delivers.step hmoves, hkills, h.tells.step hkills hmoves, h.unsettled.step hmoves⟩

lemma sound_of_run {actions : List ShellAction}
    (hrun : Transition.run (step invocation) (start invocation) actions = some s) :
    s.Sound invocation :=
  Transition.run_invariant (Sound invocation) (fun _ _ _ h hstep => h.step hstep)
    (sound_start invocation) hrun

/-- A command that is shown in a window and ended after half an hour. -/
def slowCommand : Invocation where
  command := "tail -f log".toList
  mode := .window 1 2000
  seconds _ := "1800.0".toList

/-- The steps that the task that waits for the process has before it. -/
def monitorWork : Monitor → ℕ
  | .waiting => 2
  | .terminating _ => 1
  | .ended _ => 0

def loopWork (loop : Loop) : ℕ :=
  (if loop.chunksDone then 0 else 1) + (if loop.processEnd.isNone then 1 else 0) +
    if loop.killTx then 1 else 0

def mainWork : Main → ℕ
  | .looping loop => loopWork loop
  | .returned .. | .dropped => 0

/-- What the tasks have before them, if nothing happens around them. -/
def work (s : ShellRun) : ℕ := s.chunks.length + mainWork s.main + monitorWork s.monitor

lemma mainWork_looping (loop : Loop) : mainWork (.looping loop) = loopWork loop := rfl

lemma mainWork_settle_le (now : ℕ) (loop : Loop) : mainWork (loop.settle now) ≤ loopWork loop := by
  unfold Loop.settle
  split
  · exact Nat.zero_le _
  · exact le_rfl

/-- Every step of a task is one less. -/
lemma work_lt (hmoves : Moves invocation s action t) (hinternal : action.isInternal = true) :
    t.work < s.work := by
  unfold work
  cases hmoves with
  | tick | cancel | exit | read | drop => cases hinternal
  | monitor action monitor hmonitor =>
    have hless : monitorWork monitor < monitorWork s.monitor := by
      rcases monitorStep_cases hmonitor with ⟨hwaiting, code, -, rfl⟩ |
        ⟨hwaiting, reason, rfl, -⟩ | ⟨reason, code, hterm, -, rfl⟩
      · simp [hwaiting, monitorWork]
      · simp [hwaiting, monitorWork]
      · simp [hterm, monitorWork]
    show s.chunks.length + mainWork s.main + monitorWork monitor < _
    omega
  | chunk loop next pipe chunk chunks hmain hopen hchunks hnext =>
    have hhandled := Loop.handled_of_handleChunk hnext
    have hsame : loopWork next = loopWork loop := by
      simp only [loopWork, hhandled.chunksDone, hhandled.processEnd, hhandled.killTx]
    have hsettle := mainWork_settle_le s.clock next
    rw [hmain, hchunks, mainWork_looping, List.length_cons]
    show chunks.length + mainWork (next.settle s.clock) + monitorWork s.monitor < _
    omega
  | chunksDone loop hmain hopen hchunks hreading =>
    have hless : loopWork { loop with chunksDone := true } < loopWork loop := by
      simp [loopWork, hopen]
    have hsettle := mainWork_settle_le s.clock { loop with chunksDone := true }
    rw [hmain, mainWork_looping]
    show s.chunks.length + mainWork (Loop.settle s.clock { loop with chunksDone := true }) +
      monitorWork s.monitor < _
    omega
  | processEnd loop processEnd hmain hnone hmonitor =>
    have hless : loopWork { loop with processEnd := some processEnd, killTx := false } <
        loopWork loop := by
      simp only [loopWork, hnone, Option.isNone_some, Option.isNone_none, if_true,
        Bool.false_eq_true, if_false]
      omega
    have hsettle := mainWork_settle_le s.clock
      { loop with processEnd := some processEnd, killTx := false }
    rw [hmain, mainWork_looping]
    show s.chunks.length + mainWork (Loop.settle s.clock
      { loop with processEnd := some processEnd, killTx := false }) + monitorWork s.monitor < _
    omega
  | kill loop reason hmain htx hnone hreason =>
    rw [hmain]
    simp [mainWork, loopWork, htx]

/-- The tasks by themselves take no more steps than they have before them. -/
lemma length_le_work {actions : List ShellAction}
    (hrun : Transition.run (step invocation) s actions = some t)
    (hinternal : ∀ action ∈ actions, action.isInternal = true) : actions.length ≤ s.work := by
  refine Transition.length_le_of_measure work ?_ hinternal hrun
  intro before action next hinternal hstep
  exact work_lt (moves_of_step hstep) hinternal

/-- None of the tasks can go on. -/
def Stuck (invocation : Invocation) (s : ShellRun) : Prop :=
  ∀ action : ShellAction, action.isInternal = true → s.step invocation action = none

/-- A chunk is always handled: neither the tail nor the display is cut inside a character. -/
lemma exists_handleChunk {loop : Loop} {now : ℕ} (h : loop.Shows invocation now) (pipe : Pipe)
    (chunk : List Char) : ∃ next, loop.handleChunk invocation now pipe chunk = some next := by
  obtain ⟨tail, hpush, -, -⟩ := h.tail.push (normalizeChunk chunk)
  have hvisible : ∃ visible events,
      loop.visible.handleChunk invocation now (normalizeChunk chunk) tail =
        some (visible, events) := by
    cases loop.visible with
    | stream out =>
      have hsome : ∃ out' events,
          out.handleChunk (normalizeChunk chunk) = some (out', events) := by
        simp only [VisibleOutput.handleChunk, prefixByBytes_eq, Option.bind_eq_bind,
          Option.bind_some, Option.pure_def]
        split_ifs <;> exact ⟨_, _, rfl⟩
      obtain ⟨out', events, hout⟩ := hsome
      exact ⟨_, _, by rw [Display.handleChunk, hout]; rfl⟩
    | window updateInterval last =>
      rw [Display.handleChunk]
      split_ifs
      · exact ⟨_, _, rfl⟩
      · exact ⟨_, _, rfl⟩
  obtain ⟨visible, events, hvisible⟩ := hvisible
  simp only [Loop.handleChunk, hpush, hvisible, Option.bind_eq_bind, Option.bind_some]
  exact ⟨_, rfl⟩

/-- The task that waits for the process goes on when the process has ended. -/
lemma ended_of_stuck {code : Option Int} (hstuck : s.Stuck invocation)
    (hchild : s.child = .exited code) : ∃ processEnd, s.monitor = .ended processEnd := by
  cases hmonitor : s.monitor with
  | waiting =>
    have hexit := hstuck .monitorExit rfl
    simp [step, monitorStep, hmonitor, hchild] at hexit
  | terminating reason =>
    have hreap := hstuck .monitorReap rfl
    simp [step, monitorStep, hmonitor, hchild] at hreap
  | ended processEnd => exact ⟨processEnd, rfl⟩

/-- A loop that cannot go on waits for a pipe or for the process. -/
lemma waits_of_stuck {loop : Loop} (h : s.Sound invocation) (hstuck : s.Stuck invocation)
    (hmain : s.main = .looping loop) : (∃ pipe, s.reading pipe = true) ∨ s.child = .running := by
  by_contra hnone
  rw [not_or, not_exists] at hnone
  obtain ⟨hreading, hchild⟩ := hnone
  obtain ⟨code, hexited⟩ : ∃ code, s.child = .exited code := by
    cases hcase : s.child with
    | running => exact absurd hcase hchild
    | exited code => exact ⟨code, rfl⟩
  obtain ⟨processEnd, hended⟩ := ended_of_stuck hstuck hexited
  have hseen : loop.processEnd ≠ none := by
    intro hnone
    have hreceive := hstuck .receiveEnd rfl
    simp [step, loopStep, hmain, hnone, hended] at hreceive
  have hdone : loop.chunksDone = true := by
    by_contra hopen
    rw [Bool.not_eq_true] at hopen
    have hreceive := hstuck .receive rfl
    cases hchunks : s.chunks with
    | nil =>
      have hstdout : s.reading .stdout = false := Bool.not_eq_true _ ▸ hreading .stdout
      have hstderr : s.reading .stderr = false := Bool.not_eq_true _ ▸ hreading .stderr
      simp [step, loopStep, hmain, hopen, hchunks, hstdout, hstderr] at hreceive
    | cons first chunks =>
      obtain ⟨next, hnext⟩ := exists_handleChunk
        (h.tells.shows loop (by rw [hmain]; rfl)) first.1 first.2
      simp [step, loopStep, hmain, hopen, hchunks, hnext] at hreceive
  exact hseen (h.unsettled loop hmain hdone)

/-- When there was a reason to end a process that still runs, it has been told to. -/
lemma terminating_of_stuck (h : s.Sound invocation) (hstuck : s.Stuck invocation)
    (hchild : s.child = .running)
    (hreason : (∃ reason, s.HasReason reason) ∨ s.main = .dropped) :
    ∃ reason, s.monitor = .terminating reason := by
  have hended : ∀ processEnd, s.monitor ≠ .ended processEnd := by
    intro processEnd hended
    rw [(h.kills.ended processEnd hended).1] at hchild
    cases hchild
  cases hmonitor : s.monitor with
  | terminating reason => exact ⟨reason, rfl⟩
  | ended processEnd => exact absurd hmonitor (hended processEnd)
  | waiting =>
    exfalso
    have hkill := hstuck .monitorKill rfl
    have hempty : s.kill = .empty := by
      cases hcase : s.kill with
      | empty => rfl
      | sent reason => simp [step, monitorStep, hmonitor, hcase] at hkill
      | closed => simp [step, monitorStep, hmonitor, hcase] at hkill
    cases hmain : s.main with
    | dropped =>
      rcases h.kills.dropped hmain with hne | ⟨processEnd, hend⟩
      · exact hne hempty
      · exact hended processEnd hend
    | returned loop summary =>
      obtain ⟨now, processEnd, -, -, hend, -⟩ := h.tells.summary loop summary hmain
      exact hended processEnd (h.kills.seen loop (by rw [hmain]; rfl) processEnd hend)
    | looping loop =>
      have hloop : loop ∈ s.main.loop? := by
        rw [hmain]
        rfl
      have hnone : loop.processEnd = none := by
        cases hend : loop.processEnd with
        | none => rfl
        | some processEnd =>
          exact (hended processEnd (h.kills.seen loop hloop processEnd hend)).elim
      have htx : loop.killTx = true := by
        by_contra htx
        rw [Bool.not_eq_true] at htx
        rcases h.kills.given loop hloop htx with hsome | ⟨reason, hsent⟩
        · exact hsome hnone
        · rw [hempty] at hsent
          cases hsent
      obtain ⟨reason, hreason⟩ := hreason.resolve_right (by rw [hmain]; simp)
      cases reason with
      | cancelled =>
        have hcancelled : s.cancelled = true := hreason
        have hsend := hstuck .sendCancelled rfl
        simp [step, loopStep, sendKill, hmain, hcancelled, htx, hnone] at hsend
      | timedOut =>
        have htime : hardTimeout ≤ s.clock := hreason
        have hsend := hstuck .sendTimedOut rfl
        simp [step, loopStep, sendKill, hmain, htime, htx, hnone] at hsend

/-- From every state of a run the tasks take only so many steps by themselves.  When none of them
can go on, the run has returned or was dropped, or it waits for a pipe or for the process; and a
process that still runs has been told to end if the run was cancelled, dropped or took too long. -/
theorem work_bounded_and_waits {actions : List ShellAction}
    (hrun : Transition.run (step invocation) (start invocation) actions = some s) :
    (∀ actions' t, (∀ action ∈ actions', action.isInternal = true) →
        Transition.run (step invocation) s actions' = some t → actions'.length ≤ s.work) ∧
      (s.Stuck invocation →
        (∀ loop, s.main = .looping loop →
          (∃ pipe, s.reading pipe = true) ∨ s.child = .running) ∧
        (s.child = .running → (∃ reason, s.HasReason reason) ∨ s.main = .dropped →
          ∃ reason, s.monitor = .terminating reason)) := by
  have hsound := sound_of_run hrun
  refine ⟨fun actions' t hinternal hrun' => length_le_work hrun' hinternal, fun hstuck => ⟨?_, ?_⟩⟩
  · exact fun loop hmain => waits_of_stuck hsound hstuck hmain
  · exact fun hchild hreason => terminating_of_stuck hsound hstuck hchild hreason

/-- The run has been dropped, and its process told to end. -/
theorem work_bounded_and_waits_dropped :
    ∃ s, Transition.run (step slowCommand) (start slowCommand) [.drop, .monitorKill] = some s ∧
      ∃ reason, s.monitor = .terminating reason := by
  refine ⟨_, rfl, ((@work_bounded_and_waits slowCommand _ [.drop, .monitorKill] rfl).2
    fun action hinternal => ?_).2 rfl (Or.inr rfl)⟩
  cases action with
  | tick | cancel | exit | read | drop => cases hinternal
  | monitorExit | monitorKill | monitorReap => rfl
  | receive | receiveEnd | sendCancelled | sendTimedOut => rfl

end ShellRun

end RustyClaw.Shell
