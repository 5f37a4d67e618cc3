import Mathlib.Logic.Function.Basic

/-! Which files a command removes.

The file system is what stands at each directory entry. How system calls end is
given from outside, call by call, so that a command can fail at any step. What
a path names is a parameter: links and `..` are resolved outside of this model. A
relative path names another file once the server has gone to the root directory.
-/

set_option autoImplicit false

namespace Lich

/-! ## The file system -/

inductive FileKind where
  | socket
  | directory
  | regular
  /-- a link, a pipe or a device -/
  | other
  deriving DecidableEq

structure Node where
  inode : Nat
  kind : FileKind
  deriving DecidableEq

abbrev Files (Place : Type) := Place → Option Node

inductive FileOp (Place : Type) where
  /-- a file that is made where there is none: by `mkdir`, `bind` or `open` -/
  | make (place : Place) (node : Node)
  /-- `remove_file`, and whether it is allowed -/
  | remove (place : Place) (allowed : Bool)

section Operations

variable {Place : Type} [DecidableEq Place]

def FileOp.run : FileOp Place → Files Place → Files Place
  | .make place node, files =>
    if files place = none then Function.update files place (some node) else files
  | .remove place allowed, files =>
    -- `unlink` fails on a directory
    if allowed ∧ (files place).all (fun node => node.kind ≠ .directory) then
      Function.update files place none
    else files

def runOps (ops : List (FileOp Place)) (files : Files Place) : Files Place :=
  ops.foldl (fun files op => op.run files) files

end Operations

/-! ## The session path -/

abbrev FilePath := List Char

structure Env (Place : Type) where
  currentDir : Option FilePath
  hostname : List Char
  /-- USER, or the number of the user -/
  user : List Char
  socketDir : Option FilePath
  home : Option FilePath
  tmpdir : Option FilePath
  /-- the directory entry that a path names -/
  place : FilePath → Place
  /-- the same, with the root as the current directory -/
  serverPlace : FilePath → Place

/-- How `create_dir_all` ends. When it fails, some of the directories may be there. -/
structure MkdirAnswer (Place : Type) where
  ok : Bool
  made : List (Place × Nat)

variable {Place : Type}

def MkdirAnswer.ops (answer : MkdirAnswer Place) : List (FileOp Place) :=
  answer.made.map fun made => .make made.1 ⟨made.2, .directory⟩

def joinPath (base path : FilePath) : FilePath :=
  if path.head? = some '/' then path
  else if base = [] ∨ base.getLast? = some '/' then base ++ path
  else base ++ '/' :: path

def baseCandidates (env : Env Place) : List FilePath :=
  [env.socketDir, env.home.map (joinPath · ".lich".toList),
    env.tmpdir.map fun dir => joinPath (joinPath dir "lich".toList) env.user,
    some (joinPath (joinPath "/tmp".toList "lich".toList) env.user)].reduceOption

/-- The first of the directories that can be made. -/
def socketBaseDir : List FilePath → (Nat → MkdirAnswer Place) → List (FileOp Place) × Option FilePath
  | [], _ => ([], none)
  | dir :: dirs, answers =>
    if (answers 0).ok then ((answers 0).ops, some dir)
    else
      let (ops, base) := socketBaseDir dirs fun number => answers (number + 1)
      ((answers 0).ops ++ ops, base)

def sessionFile (env : Env Place) (name : List Char) : List Char := name ++ '@' :: env.hostname

def socketPath (env : Env Place) (answers : Nat → MkdirAnswer Place) (name : List Char) :
    List (FileOp Place) × Option FilePath :=
  if name.head? = some '/' then ([], some name)
  else if ['.', '/'].isPrefixOf name || ['.', '.', '/'].isPrefixOf name then
    ([], env.currentDir.map (joinPath · name))
  else
    let (ops, base) := socketBaseDir (baseCandidates env) answers
    (ops, base.map (joinPath · (sessionFile env name)))

/-! ## The commands -/

inductive ConnectResult where
  | connected
  | refused
  /-- any other error -/
  | failed
  deriving DecidableEq

section Commands

variable [DecidableEq Place]

/-- What `connect` answers. A regular file refuses, and where there is no file
nobody is connected or refused. -/
def connectResult (files : Files Place) (place : Place) (answer : ConnectResult) : ConnectResult :=
  match files place with
  | none => .failed
  | some ⟨_, .regular⟩ => .refused
  | some _ => answer

structure ConnectAnswers (Place : Type) where
  mkdirs : Nat → MkdirAnswer Place
  connect : ConnectResult
  removable : Bool

/-- Whether the session answered the connect, and the files after it. -/
def connectSession (env : Env Place) (answers : ConnectAnswers Place) (name : List Char)
    (files : Files Place) : Bool × Files Place :=
  match socketPath env answers.mkdirs name with
  | (ops, none) => (false, runOps ops files)
  | (ops, some path) =>
    let files := runOps ops files
    match connectResult files (env.place path) answers.connect with
    | .connected => (true, files)
    | .refused => (false, (FileOp.remove (env.place path) answers.removable).run files)
    | .failed => (false, files)

structure CreateAnswers (Place : Type) where
  probe : ConnectAnswers Place
  /-- a MSG_PID packet arrives -/
  pid : Bool
  mkdirs : Nat → MkdirAnswer Place
  parent : MkdirAnswer Place
  removable : Bool
  /-- the inode of the socket, unless `bind` fails on its own -/
  bound : Option Nat
  /-- `pipe` and `fork` succeed -/
  forks : Bool
  /-- `read_startup_status` returns Ok -/
  starts : Bool
  undoable : Bool
  /-- for each line of the server's log, the inode if it has to make the file -/
  logs : List Nat
  /-- `forkpty` succeeds, and then `set_current_dir` -/
  moves : Bool
  /-- the lines of the log behind that -/
  later : List Nat
  /-- whether the server gets to drop its guard, and may remove the file then -/
  dropped : Option Bool

def sessionAlive (env : Env Place) (answers : ConnectAnswers Place) (pid : Bool)
    (name : List Char) (files : Files Place) : Bool × Files Place :=
  let (connected, files) := connectSession env answers name files
  (connected && pid, files)

/-- `path.parent()` is there, for all but the root. -/
def hasParent (path : FilePath) : Bool := path.any fun char => char ≠ '/'

def createParent (answers : CreateAnswers Place) (path : FilePath) (files : Files Place) :
    Bool × Files Place :=
  if hasParent path then (answers.parent.ok, runOps answers.parent.ops files) else (true, files)

/-- `create_session` from `remove_file` to the fork: the path, if it got there. -/
def bindSession (env : Env Place) (answers : CreateAnswers Place) (path : FilePath)
    (files : Files Place) : Option FilePath × Files Place :=
  let files := (FileOp.remove (env.place path) answers.removable).run files
  match answers.bound with
  | none => (none, files)
  | some inode =>
    -- `bind` fails when there is a file
    if files (env.place path) = none then
      (if answers.forks then some path else none,
        (FileOp.make (env.place path) ⟨inode, .socket⟩).run files)
    else (none, files)

/-- `create_session` up to the fork. -/
def createSession (env : Env Place) (answers : CreateAnswers Place) (name : List Char)
    (files : Files Place) : Option FilePath × Files Place :=
  let (alive, files) := sessionAlive env answers.probe answers.pid name files
  if alive then (none, files)
  else match socketPath env answers.mkdirs name with
    | (ops, none) => (none, runOps ops files)
    | (ops, some path) =>
      let (made, files) := createParent answers path (runOps ops files)
      if made then bindSession env answers path files else (none, files)

/-- A path that was bound ends in a file name. -/
def deriveServerLogPath (path : FilePath) : FilePath := path ++ ['.', 'l', 'o', 'g']

def serverLog (place : Place) (inode : Nat) : Files Place → Files Place :=
  (FileOp.make place ⟨inode, .regular⟩).run

/-- What the server does to files until it ends. -/
def serverSteps (env : Env Place) (answers : CreateAnswers Place) (path : FilePath) :
    List (Files Place → Files Place) :=
  let place := if answers.moves then env.serverPlace else env.place
  answers.logs.map (serverLog (env.place (deriveServerLogPath path))) ++
    answers.later.map (serverLog (place (deriveServerLogPath path))) ++
    (answers.dropped.map fun removable => (FileOp.remove (place path) removable).run).toList

/-- What its parent does to files from the fork on. -/
def parentSteps (env : Env Place) (answers : CreateAnswers Place)
    (attach : Option (ConnectAnswers Place)) (name : List Char) (path : FilePath) :
    List (Files Place → Files Place) :=
  if answers.starts then
    (attach.map fun answers files => (connectSession env answers name files).2).toList
  else [(FileOp.remove (env.place path) answers.undoable).run]

def interleave {α : Type} : List Bool → List α → List α → List α
  | true :: schedule, first :: rest, second => first :: interleave schedule rest second
  | false :: schedule, first, second :: rest => second :: interleave schedule first rest
  | _, first, second => first ++ second

inductive Action where
  | attach
  | attachOrCreate
  | create
  | createAttach
  | dump
  | sendKeys
  deriving DecidableEq

def Action.creates : Action → Bool
  | .attachOrCreate | .create | .createAttach => true
  | .attach | .dump | .sendKeys => false

structure CommandAnswers (Place : Type) where
  /-- the probe of `-A` -/
  probe : ConnectAnswers Place
  pid : Bool
  create : CreateAnswers Place
  /-- the connect of an attach, a dump or of keys that are sent -/
  connect : ConnectAnswers Place
  /-- who goes first, after the fork -/
  schedule : List Bool

def creating (env : Env Place) (answers : CommandAnswers Place)
    (attach : Option (ConnectAnswers Place)) (name : List Char) (files : Files Place) : Files Place :=
  match createSession env answers.create name files with
  | (none, files) => files
  | (some path, files) =>
    (interleave answers.schedule (parentSteps env answers.create attach name path)
      (serverSteps env answers.create path)).foldl (fun files step => step files) files

/-- The files after a command, and after the server it may have started. -/
def command (env : Env Place) (answers : CommandAnswers Place) (action : Action)
    (name : List Char) (files : Files Place) : Files Place :=
  match action with
  | .attach | .dump | .sendKeys => (connectSession env answers.connect name files).2
  | .create => creating env answers none name files
  | .createAttach => creating env answers (some answers.connect) name files
  | .attachOrCreate =>
    let (alive, files) := sessionAlive env answers.probe answers.pid name files
    if alive then (connectSession env answers.connect name files).2
    else creating env answers (some answers.connect) name files

end Commands

/-! ## What must not go -/

/-- Files that are no sockets are where they were. -/
def Preserves (before after : Files Place) : Prop :=
  ∀ place node, before place = some node → node.kind ≠ .socket → after place = some node

/-- A `remove_file` here takes nothing but a socket. -/
def Expendable (files : Files Place) (place : Place) : Prop :=
  ∀ node, files place = some node → node.kind = .socket ∨ node.kind = .directory

/-- A socket can be bound there, once what stands there is removed. -/
def Bindable (files : Files Place) (place : Place) : Prop :=
  ∀ node, files place = some node → node.kind ≠ .directory

/-- Neither the command nor a server that it starts has a path removed that leads to
anything but a socket. -/
def Spares (env : Env Place) (files : Files Place) (action : Action) (path : FilePath) : Prop :=
  Expendable files (env.place path) ∧
    (action.creates = true → Bindable files (env.place path) →
      Expendable files (env.serverPlace path))

def sessionPaths (env : Env Place) (name : List Char) : List FilePath :=
  if name.head? = some '/' then [name]
  else if ['.', '/'].isPrefixOf name || ['.', '.', '/'].isPrefixOf name then
    (env.currentDir.map (joinPath · name)).toList
  else (baseCandidates env).map (joinPath · (sessionFile env name))

theorem Preserves.refl (files : Files Place) : Preserves files files :=
  fun _ _ found _ => found

def FileOp.Makes : FileOp Place → Prop
  | .make _ _ => True
  | .remove _ _ => False

section Frame

variable [DecidableEq Place] {before files : Files Place}

theorem Preserves.make (kept : Preserves before files) (place : Place) (node : Node) :
    Preserves before ((FileOp.make place node).run files) := by
  intro other old found kind
  have here := kept other old found kind
  rw [FileOp.run]
  split
  · next free =>
    have distinct : other ≠ place := by
      intro same
      rw [same, free] at here
      cases here
    rw [Function.update_of_ne distinct, here]
  · exact here

theorem Preserves.remove (kept : Preserves before files) {place : Place}
    (expendable : Expendable before place) (allowed : Bool) :
    Preserves before ((FileOp.remove place allowed).run files) := by
  intro other old found kind
  have here := kept other old found kind
  rw [FileOp.run]
  split
  · next removed =>
    have distinct : other ≠ place := by
      rintro rfl
      -- what is no socket here is a directory, and stays one
      have directory := (expendable old found).resolve_left kind
      have file := removed.2
      simp [here, directory] at file
    rw [Function.update_of_ne distinct, here]
  · exact here

theorem Preserves.ops (kept : Preserves before files) {ops : List (FileOp Place)}
    (makes : ∀ op ∈ ops, op.Makes) :
    Preserves before (runOps ops files) := by
  induction ops generalizing files with
  | nil => exact kept
  | cons op ops ih =>
    have later : ∀ op ∈ ops, op.Makes := fun op member => makes op (List.mem_cons_of_mem _ member)
    cases op with
    | make place node => exact ih (kept.make place node) later
    | remove place allowed => exact absurd (makes _ List.mem_cons_self) id

end Frame

/-! ## What the functions reach -/

theorem MkdirAnswer.makes (answer : MkdirAnswer Place) : ∀ op ∈ answer.ops, op.Makes := by
  intro op member
  obtain ⟨_, _, rfl⟩ := List.mem_map.mp member
  trivial

theorem socketBaseDir_makes (dirs : List FilePath) (answers : Nat → MkdirAnswer Place) :
    ∀ op ∈ (socketBaseDir dirs answers).1, op.Makes := by
  induction dirs generalizing answers with
  | nil =>
    intro op member
    cases member
  | cons dir dirs ih =>
    rw [socketBaseDir]
    split
    · exact (answers 0).makes
    · intro op member
      rcases List.mem_append.mp member with here | later
      · exact (answers 0).makes op here
      · exact ih _ op later

theorem socketBaseDir_mem {dirs : List FilePath} {answers : Nat → MkdirAnswer Place}
    {base : FilePath} (found : (socketBaseDir dirs answers).2 = some base) : base ∈ dirs := by
  induction dirs generalizing answers with
  | nil => cases found
  | cons dir dirs ih =>
    rw [socketBaseDir] at found
    split at found
    · rw [Option.some.inj found]
      exact List.mem_cons_self
    · exact List.mem_cons_of_mem _ (ih found)

theorem socketPath_makes (env : Env Place) (answers : Nat → MkdirAnswer Place) (name : List Char) :
    ∀ op ∈ (socketPath env answers name).1, op.Makes := by
  rw [socketPath]
  split
  · simp
  split
  · simp
  · exact socketBaseDir_makes _ _

theorem socketPath_mem {env : Env Place} {answers : Nat → MkdirAnswer Place} {name : List Char}
    {path : FilePath} (found : (socketPath env answers name).2 = some path) :
    path ∈ sessionPaths env name := by
  rw [socketPath] at found
  rw [sessionPaths]
  split at found
  · next absolute =>
    rw [if_pos absolute, Option.some.inj found]
    exact List.mem_singleton_self _
  split at found
  · next absolute relative =>
    rw [if_neg absolute, if_pos relative]
    exact Option.mem_toList.mpr found
  · next absolute relative =>
    rw [if_neg absolute, if_neg relative]
    obtain ⟨base, chosen, rfl⟩ := Option.map_eq_some_iff.mp found
    exact List.mem_map_of_mem (socketBaseDir_mem chosen)

/-- What `socket_path` does: it makes directories, and names a session path if it
names any. -/
theorem socketPath_cases (env : Env Place) (answers : Nat → MkdirAnswer Place) (name : List Char) :
    ∃ ops target, socketPath env answers name = (ops, target) ∧ (∀ op ∈ ops, op.Makes) ∧
      ∀ path, target = some path → path ∈ sessionPaths env name :=
  ⟨_, _, rfl, socketPath_makes env answers name, fun _ => socketPath_mem⟩

section Kept

variable [DecidableEq Place] {env : Env Place} {name : List Char} {before files : Files Place}

theorem Preserves.connectSession
    (expendable : ∀ path ∈ sessionPaths env name, Expendable before (env.place path))
    (kept : Preserves before files) (answers : ConnectAnswers Place) :
    Preserves before (connectSession env answers name files).2 := by
  obtain ⟨ops, target, reached, makes, member⟩ := socketPath_cases env answers.mkdirs name
  have made := kept.ops makes
  rw [Lich.connectSession, reached]
  cases target with
  | none => exact made
  | some path =>
    dsimp only
    cases connectResult (runOps ops files) (env.place path) answers.connect with
    | connected => exact made
    | refused => exact made.remove (expendable path (member path rfl)) answers.removable
    | failed => exact made

theorem bindSession_path {answers : CreateAnswers Place} {path target : FilePath}
    (forked : (bindSession env answers path files).1 = some target) : target = path := by
  rw [bindSession] at forked
  cases bound : answers.bound with
  | none =>
    rw [bound] at forked
    cases forked
  | some inode =>
    rw [bound] at forked
    dsimp only at forked
    split at forked
    · dsimp only at forked
      split at forked
      · exact (Option.some.inj forked).symm
      · cases forked
    · cases forked

theorem Preserves.createParent (kept : Preserves before files) (answers : CreateAnswers Place)
    (path : FilePath) : Preserves before (createParent answers path files).2 := by
  rw [Lich.createParent]
  split
  · exact kept.ops answers.parent.makes
  · exact kept

theorem Preserves.bindable (kept : Preserves before files) {answers : CreateAnswers Place}
    {path target : FilePath} (forked : (Lich.bindSession env answers path files).1 = some target) :
    Bindable before (env.place path) := by
  intro node found directory
  have here := kept (env.place path) node found (by rw [directory]; decide)
  have stays : (FileOp.remove (env.place path) answers.removable).run files (env.place path) =
      some node := by
    rw [FileOp.run, if_neg (by simp [here, directory]), here]
  rw [Lich.bindSession] at forked
  cases bound : answers.bound with
  | none =>
    rw [bound] at forked
    cases forked
  | some inode =>
    simp [bound, stays] at forked

theorem Preserves.createSession_mem
    (expendable : ∀ path ∈ sessionPaths env name, Expendable before (env.place path))
    (kept : Preserves before files) {answers : CreateAnswers Place} {path : FilePath}
    (forked : (createSession env answers name files).1 = some path) :
    path ∈ sessionPaths env name ∧ Bindable before (env.place path) := by
  have probe := kept.connectSession expendable answers.probe
  obtain ⟨ops, target, reached, makes, member⟩ := socketPath_cases env answers.mkdirs name
  rw [createSession, sessionAlive, reached] at forked
  dsimp only at forked
  split at forked
  · cases forked
  have made := probe.ops makes
  cases target with
  | none => cases forked
  | some target =>
    have parent := made.createParent answers target
    dsimp only at forked
    split at forked
    · have bindable := parent.bindable forked
      rw [bindSession_path forked]
      exact ⟨member target rfl, bindable⟩
    · cases forked

theorem Preserves.bindSession (kept : Preserves before files) {path : FilePath}
    (target : Expendable before (env.place path)) (answers : CreateAnswers Place) :
    Preserves before (bindSession env answers path files).2 := by
  have removed := kept.remove target answers.removable
  rw [Lich.bindSession]
  cases answers.bound with
  | none => exact removed
  | some inode =>
    dsimp only
    split
    · exact removed.make _ _
    · exact removed

theorem Preserves.createSession
    (expendable : ∀ path ∈ sessionPaths env name, Expendable before (env.place path))
    (kept : Preserves before files) (answers : CreateAnswers Place) :
    Preserves before (createSession env answers name files).2 := by
  have probe := kept.connectSession expendable answers.probe
  obtain ⟨ops, target, reached, makes, member⟩ := socketPath_cases env answers.mkdirs name
  rw [Lich.createSession, sessionAlive, reached]
  dsimp only
  split
  · exact probe
  have made := probe.ops makes
  cases target with
  | none => exact made
  | some path =>
    have parent := made.createParent answers path
    dsimp only
    split
    · exact parent.bindSession (expendable path (member path rfl)) answers
    · exact parent

theorem mem_interleave {α : Type} {schedule : List Bool} {first second : List α} {item : α}
    (member : item ∈ interleave schedule first second) : item ∈ first ∨ item ∈ second := by
  fun_induction interleave schedule first second with
  | case1 schedule head rest second ih =>
    rcases List.mem_cons.mp member with rfl | later
    · exact .inl List.mem_cons_self
    · exact (ih later).imp_left (List.mem_cons_of_mem _)
  | case2 schedule first head rest ih =>
    rcases List.mem_cons.mp member with rfl | later
    · exact .inr List.mem_cons_self
    · exact (ih later).imp_right (List.mem_cons_of_mem _)
  | case3 => exact List.mem_append.mp member

omit [DecidableEq Place] in
theorem Preserves.steps {steps : List (Files Place → Files Place)}
    (each : ∀ step ∈ steps, ∀ files, Preserves before files → Preserves before (step files))
    (kept : Preserves before files) :
    Preserves before (steps.foldl (fun files step => step files) files) := by
  induction steps generalizing files with
  | nil => exact kept
  | cons step steps ih =>
    exact ih (fun later member => each later (List.mem_cons_of_mem _ member))
      (each step List.mem_cons_self files kept)

theorem Preserves.creating
    (expendable : ∀ path ∈ sessionPaths env name, Expendable before (env.place path))
    (spared : ∀ path ∈ sessionPaths env name, Bindable before (env.place path) →
      Expendable before (env.serverPlace path))
    (kept : Preserves before files) (answers : CommandAnswers Place)
    (attach : Option (ConnectAnswers Place)) :
    Preserves before (creating env answers attach name files) := by
  have created := kept.createSession expendable answers.create
  rw [Lich.creating]
  cases forked : Lich.createSession env answers.create name files with
  | mk target files =>
    rw [forked] at created
    cases target with
    | none => exact created
    | some path =>
      obtain ⟨member, bindable⟩ := kept.createSession_mem expendable (congrArg Prod.fst forked)
      have target := expendable path member
      have behind : Expendable before
          ((if answers.create.moves then env.serverPlace else env.place) path) := by
        split
        · exact spared path member bindable
        · exact target
      refine Preserves.steps ?_ created
      intro step member files kept
      rcases mem_interleave member with parent | server
      · rw [parentSteps] at parent
        split at parent
        · cases attach with
          | none => cases parent
          | some answers =>
            rw [List.mem_singleton.mp parent]
            exact kept.connectSession expendable answers
        · rw [List.mem_singleton.mp parent]
          exact kept.remove target _
      · rcases List.mem_append.mp server with logs | dropped
        · rcases List.mem_append.mp logs with log | log
          · obtain ⟨inode, _, rfl⟩ := List.mem_map.mp log
            exact kept.make _ _
          · obtain ⟨inode, _, rfl⟩ := List.mem_map.mp log
            exact kept.make _ _
        · obtain ⟨removable, _, rfl⟩ := Option.map_eq_some_iff.mp (Option.mem_toList.mp dropped)
          exact kept.remove behind _

theorem Preserves.command {action : Action}
    (spares : ∀ path ∈ sessionPaths env name, Spares env before action path)
    (answers : CommandAnswers Place) :
    Preserves before (command env answers action name before) := by
  have kept := Preserves.refl before
  have expendable : ∀ path ∈ sessionPaths env name, Expendable before (env.place path) :=
    fun path member => (spares path member).1
  have spared (creates : action.creates = true) : ∀ path ∈ sessionPaths env name,
      Bindable before (env.place path) → Expendable before (env.serverPlace path) :=
    fun path member => (spares path member).2 creates
  cases action with
  | attach => exact kept.connectSession expendable answers.connect
  | dump => exact kept.connectSession expendable answers.connect
  | sendKeys => exact kept.connectSession expendable answers.connect
  | create => exact kept.creating expendable (spared rfl) answers none
  | createAttach => exact kept.creating expendable (spared rfl) answers (some answers.connect)
  | attachOrCreate =>
    have probe := kept.connectSession expendable answers.probe
    rw [Lich.command, sessionAlive]
    dsimp only
    split
    · exact probe.connectSession expendable answers.connect
    · exact probe.creating expendable (spared rfl) answers (some answers.connect)

end Kept

/-! ## Files that go -/

section Taken

variable [DecidableEq Place] {env : Env Place} {name : List Char} {files : Files Place}
  {mkdirs : Nat → MkdirAnswer Place} {path : FilePath}

def refusing (mkdirs : Nat → MkdirAnswer Place) : ConnectAnswers Place := ⟨mkdirs, .refused, true⟩

/-- A creation whose probe is refused, and whose bind fails. -/
def failing (mkdirs : Nat → MkdirAnswer Place) : CreateAnswers Place where
  probe := refusing mkdirs
  pid := false
  mkdirs := mkdirs
  parent := ⟨true, []⟩
  removable := true
  bound := none
  forks := false
  starts := false
  undoable := false
  logs := []
  moves := false
  later := []
  dropped := none

end Taken

/-! ## Files that a server removes -/

section Served

variable [DecidableEq Place] {env : Env Place} {name : List Char} {files : Files Place}
  {mkdirs : Nat → MkdirAnswer Place} {path : FilePath}

def serving (mkdirs : Nat → MkdirAnswer Place) : CreateAnswers Place :=
  { failing mkdirs with
    bound := some 0
    forks := true
    starts := true
    moves := true
    dropped := some true }

end Served

end Lich
