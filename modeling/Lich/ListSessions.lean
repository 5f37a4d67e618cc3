import Lich.OnlySockets
import Lich.Packet
import Lich.Foundation.Trimming

/-! The listing of the sessions, and the names in it.

A session's socket is named after the session with the host's name behind it, and the
listing trims that off again: as often as it stands there.
-/

set_option autoImplicit false

namespace Lich

open Foundation

variable {Place : Type}

def readU64 (bytes : List UInt8) : Option UInt64 :=
  if bytes.length ≥ 8 then some (UInt64.ofNat (fromLe (bytes.take 8))) else none

structure DirEntry where
  fileName : List Char
  /-- when the file was modified, as `format_iso_local` has it -/
  modified : Option (List Char)

inductive ListLine where
  | heading (host : List Char)
  | active (mtime : List Char) (pid : UInt64) (session : List Char)
  deriving DecidableEq

def ListLine.text : ListLine → List Char
  | .heading host => "Active sessions (on host ".toList ++ host ++ [')']
  | .active mtime pid session =>
    "  ?\t".toList ++ mtime ++ '\t' :: (toString pid.toNat).toList ++ '\t' :: session

inductive ListEnd where
  | done
  /-- the error "no socket directory" -/
  | noDirectory
  | failed (err : IoError)
  deriving DecidableEq

/-- The session that a file in the directory is taken for. -/
def sessionOf (host fileName : List Char) : Option (List Char) :=
  if '@' :: host <:+ fileName then some (trimEndMatches ('@' :: host) fileName) else none

/-- The line of an entry, with the packet that a connection to it brings. -/
def listEntry (host : List Char) (answer : Option Packet) (entry : DirEntry) : Option ListLine :=
  (sessionOf host entry.fileName).bind fun session =>
    match answer with
    | none => none
    | some pkt =>
      if pkt.typ = msgPid then
        some (.active (entry.modified.getD "unknown".toList) ((readU64 pkt.payload).getD 0) session)
      else none

def listEntries (host : List Char) (base : FilePath) (answer : FilePath → Option Packet) :
    List (Except IoError DirEntry) → List ListLine × ListEnd
  | [] => ([], .done)
  | .error err :: _ => ([], .failed err)
  | .ok entry :: entries =>
    let (lines, status) := listEntries host base answer entries
    ((listEntry host (answer (joinPath base entry.fileName)) entry).toList ++ lines, status)

def listSessions (env : Env Place) (mkdirs : Nat → MkdirAnswer Place)
    (readDir : FilePath → Except IoError (List (Except IoError DirEntry)))
    (answer : FilePath → Option Packet) : List ListLine × ListEnd :=
  match (socketBaseDir (baseCandidates env) mkdirs).2 with
  | none => ([], .noDirectory)
  | some base =>
    match readDir base with
    | .error err => ([.heading env.hostname], .failed err)
    | .ok entries =>
      let (lines, status) := listEntries env.hostname base answer entries
      (.heading env.hostname :: lines, status)

/-! ## The directory -/

def entryOf (base path : FilePath) : Option (List Char) :=
  if joinPath base [] <+: path then
    let fileName := path.drop (joinPath base []).length
    if fileName = [] ∨ '/' ∈ fileName then none else some fileName
  else none

/-- What `read_dir` yields of a directory, where these are all the files. -/
def directory (files : List FilePath) (modified : FilePath → Option (List Char)) (base : FilePath) :
    Except IoError (List (Except IoError DirEntry)) :=
  -- `create_dir_all` accepts the empty path, but here it is ENOENT
  if base = [] then .error (.os .other)
  else
    let entries := files.filterMap fun path =>
      (entryOf base path).map fun fileName => ⟨fileName, modified path⟩
    .ok (entries.map .ok)

def sockets (env : Env Place) (mkdirs : Nat → MkdirAnswer Place) (names : List (List Char)) :
    List FilePath :=
  names.filterMap fun name => (socketPath env mkdirs name).2

/-- The name under which a session is listed. -/
def listedAs (env : Env Place) (mkdirs : Nat → MkdirAnswer Place) (name : List Char) :
    Option (List Char) :=
  ((socketPath env mkdirs name).2.bind fun path =>
    (socketBaseDir (baseCandidates env) mkdirs).2.bind fun base =>
      if base = [] then none else entryOf base path).bind
        (sessionOf env.hostname)

def ListLine.name : ListLine → Option (List Char)
  | .heading _ => none
  | .active _ _ session => some session

/-- Sessions are listed by their names, and found again by what is listed. -/
structure InvertsNaming (env : Env Place) (mkdirs : Nat → MkdirAnswer Place)
    (modified : FilePath → Option (List Char)) (answer : FilePath → Option Packet)
    (names : List (List Char)) : Prop where
  listed : (listSessions env mkdirs (directory (sockets env mkdirs names) modified) answer).1.filterMap
    ListLine.name = names
  distinct : ∀ first ∈ names, ∀ second ∈ names, first ≠ second →
    listedAs env mkdirs first ≠ listedAs env mkdirs second
  resolves : ∀ name ∈ names, ∀ shown, listedAs env mkdirs name = some shown →
    (socketPath env mkdirs shown).2 = (socketPath env mkdirs name).2

/-! ## The name of a socket -/

section Names

variable {env : Env Place} {mkdirs : Nat → MkdirAnswer Place} {base : FilePath}
  {file name : List Char}

theorem joinPath_of_head (relative : file.head? ≠ some '/') :
    joinPath base file = joinPath base [] ++ file := by
  have empty : ([] : FilePath).head? ≠ some '/' := by simp
  rw [joinPath, if_neg relative, joinPath, if_neg empty]
  by_cases ends : base = [] ∨ base.getLast? = some '/'
  · rw [if_pos ends, if_pos ends, List.append_nil]
  · rw [if_neg ends, if_neg ends, List.append_assoc]
    rfl

theorem entryOf_joinPath (relative : file.head? ≠ some '/') :
    entryOf base (joinPath base file) =
      if file = [] ∨ '/' ∈ file then none else some file := by
  rw [joinPath_of_head relative, entryOf, if_pos (List.prefix_append _ file), List.drop_left]

theorem joinPath_entryOf {path : FilePath} (entry : entryOf base path = some file) :
    joinPath base file = path := by
  rw [entryOf] at entry
  by_cases front : joinPath base [] <+: path
  · obtain ⟨rest, rfl⟩ := front
    rw [if_pos (List.prefix_append _ rest), List.drop_left] at entry
    dsimp only at entry
    by_cases outside : rest = [] ∨ '/' ∈ rest
    · rw [if_pos outside] at entry
      cases entry
    · rw [if_neg outside] at entry
      cases entry
      exact joinPath_of_head fun head => outside (.inr (List.mem_of_head? head))
  · rw [if_neg front] at entry
    cases entry

theorem head_of_plain (plain : '/' ∉ name) : name.head? ≠ some '/' :=
  fun head => plain (List.mem_of_head? head)

theorem socketPath_plain (found : (socketBaseDir (baseCandidates env) mkdirs).2 = some base)
    (plain : '/' ∉ name) :
    (socketPath env mkdirs name).2 = some (joinPath base (sessionFile env name)) := by
  have relative : ¬ (['.', '/'].isPrefixOf name || ['.', '.', '/'].isPrefixOf name) = true := by
    rw [Bool.or_eq_true_iff, List.isPrefixOf_iff_prefix, List.isPrefixOf_iff_prefix]
    rintro (front | front) <;> exact plain (front.subset (by simp))
  rw [socketPath, if_neg (head_of_plain plain), if_neg relative]
  dsimp only
  rw [found]
  rfl

theorem sessionFile_head (plain : '/' ∉ name) : (sessionFile env name).head? ≠ some '/' := by
  rw [sessionFile]
  cases name with
  | nil => simp
  | cons first rest =>
    rw [List.cons_append]
    exact @head_of_plain (first :: rest) plain

theorem listedAs_plain (found : (socketBaseDir (baseCandidates env) mkdirs).2 = some base)
    (plain : '/' ∉ name) (named : base ≠ []) :
    listedAs env mkdirs name =
      if '/' ∈ env.hostname then none else some (trimEndMatches ('@' :: env.hostname) name) := by
  have slash : '/' ∈ sessionFile env name ↔ '/' ∈ env.hostname := by
    simp [sessionFile, plain]
  rw [listedAs, socketPath_plain found plain, found]
  dsimp only [Option.bind_some]
  rw [if_neg named, entryOf_joinPath (sessionFile_head plain)]
  have some : sessionFile env name ≠ [] := by simp [sessionFile]
  by_cases strange : '/' ∈ env.hostname
  · rw [if_pos (.inr (slash.mpr strange)), if_pos strange]
    rfl
  · rw [if_neg (by simp [some, slash, strange]), if_neg strange, Option.bind_some, sessionOf,
      sessionFile, if_pos (List.suffix_append _ _), trimEndMatches_append (List.cons_ne_nil _ _)]

theorem listedAs_self (found : (socketBaseDir (baseCandidates env) mkdirs).2 = some base)
    (plain : '/' ∉ name) :
    listedAs env mkdirs name = some name ↔
      base ≠ [] ∧ '/' ∉ env.hostname ∧ ¬ '@' :: env.hostname <:+ name := by
  by_cases named : base = []
  · rw [listedAs, socketPath_plain found plain, found]
    simp [named]
  · rw [listedAs_plain found plain named, and_iff_right named]
    by_cases strange : '/' ∈ env.hostname
    · simp [strange]
    · rw [if_neg strange, Option.some.injEq, trimEndMatches_eq_self (List.cons_ne_nil _ _),
        and_iff_right strange]

end Names

/-! ## The listing -/

theorem listEntries_ok (host : List Char) (base : FilePath) (answer : FilePath → Option Packet)
    (entries : List DirEntry) :
    listEntries host base answer (entries.map .ok) =
      (entries.filterMap fun entry => listEntry host (answer (joinPath base entry.fileName)) entry,
        .done) := by
  induction entries with
  | nil => rfl
  | cons entry entries ih =>
    rw [List.map_cons, listEntries, ih, List.filterMap_cons]
    cases listEntry host (answer (joinPath base entry.fileName)) entry <;> rfl

theorem filterMap_eq_self {α : Type} {f : α → Option α} {list : List α} :
    list.filterMap f = list ↔ ∀ item ∈ list, f item = some item := by
  induction list with
  | nil => simp
  | cons item list ih =>
    rw [List.forall_mem_cons]
    cases image : f item with
    | none =>
      have short := List.length_filterMap_le f list
      rw [List.filterMap_cons_none image]
      constructor
      · intro same
        rw [same, List.length_cons] at short
        omega
      · rintro ⟨⟨⟩, _⟩
    | some other =>
      rw [List.filterMap_cons_some image, List.cons.injEq, Option.some.injEq, ih]

section Listing

variable {env : Env Place} {mkdirs : Nat → MkdirAnswer Place} {base : FilePath}
  {modified : FilePath → Option (List Char)} {answer : FilePath → Option Packet}
  {names : List (List Char)}

/-- Every session answers with MSG_PID. -/
def Alive (env : Env Place) (mkdirs : Nat → MkdirAnswer Place) (answer : FilePath → Option Packet)
    (name : List Char) : Prop :=
  ∀ path, (socketPath env mkdirs name).2 = some path →
    ∃ payload, answer path = some ⟨msgPid, payload⟩

theorem listSessions_names (found : (socketBaseDir (baseCandidates env) mkdirs).2 = some base)
    (alive : ∀ name ∈ names, Alive env mkdirs answer name) :
    (listSessions env mkdirs (directory (sockets env mkdirs names) modified) answer).1.filterMap
      ListLine.name = names.filterMap (listedAs env mkdirs) := by
  rw [listSessions, found]
  dsimp only [directory]
  by_cases named : base = []
  · have unlisted (name : List Char) : listedAs env mkdirs name = none := by
      rw [listedAs, found]
      cases (socketPath env mkdirs name).2 <;> simp [named]
    rw [if_pos named]
    simp [unlisted, ListLine.name]
  rw [if_neg named]
  dsimp only
  rw [listEntries_ok, List.filterMap_cons_none rfl, sockets, List.filterMap_filterMap,
    List.filterMap_filterMap, List.filterMap_filterMap]
  apply List.filterMap_congr
  intro name member
  rw [listedAs, found]
  cases reaches : (socketPath env mkdirs name).2 with
  | none => rfl
  | some path =>
    obtain ⟨payload, answers⟩ := alive name member path reaches
    rw [Option.bind_some, Option.bind_some, Option.bind_some, if_neg named]
    cases entry : entryOf base path with
    | none => rfl
    | some fileName =>
      rw [Option.map_some, Option.bind_some, Option.bind_some, joinPath_entryOf entry, answers,
        listEntry]
      cases sessionOf env.hostname fileName with
      | none => rfl
      | some session => rfl

end Listing

-- The name of the host comes off as often as it stands at the end, however often it was put there.
theorem listing_inverts_naming (env : Env Place) (mkdirs : Nat → MkdirAnswer Place)
    (base : FilePath) (modified : FilePath → Option (List Char))
    (answer : FilePath → Option Packet) (names : List (List Char))
    (found : (socketBaseDir (baseCandidates env) mkdirs).2 = some base)
    (plain : ∀ name ∈ names, name ≠ [] ∧ '/' ∉ name)
    (alive : ∀ name ∈ names, Alive env mkdirs answer name) :
    InvertsNaming env mkdirs modified answer names ↔
      ∀ name ∈ names, base ≠ [] ∧ '/' ∉ env.hostname ∧ ¬ '@' :: env.hostname <:+ name := by
  have each : names.filterMap (listedAs env mkdirs) = names ↔
      ∀ name ∈ names, base ≠ [] ∧ '/' ∉ env.hostname ∧ ¬ '@' :: env.hostname <:+ name :=
    filterMap_eq_self.trans (forall₂_congr fun name member => listedAs_self found (plain name member).2)
  rw [← each]
  constructor
  · intro inverts
    rw [← listSessions_names found alive]
    exact inverts.listed
  · intro listed
    have self : ∀ name ∈ names, listedAs env mkdirs name = some name := filterMap_eq_self.mp listed
    refine ⟨(listSessions_names found alive).trans listed, ?_, ?_⟩
    · intro first here second there differ same
      rw [self first here, self second there] at same
      exact differ (Option.some.inj same)
    · intro name member shown as
      rw [self name member] at as
      rw [Option.some.inj as]

def plainHost : Env FilePath :=
  ⟨none, ['h'], [], some ['/', 's'], none, none, id, id⟩

def everyDir (_ : Nat) : MkdirAnswer FilePath := ⟨true, []⟩

def everyPid (_ : FilePath) : Option Packet := some ⟨msgPid, u64ToNeBytes 7⟩

theorem plainHost_found : (socketBaseDir (baseCandidates plainHost) everyDir).2 = some ['/', 's'] :=
  rfl

theorem listing_inverts_naming_two :
    InvertsNaming plainHost everyDir (fun _ => none) everyPid [['a'], ['a', '@', 'b']] :=
  (listing_inverts_naming plainHost everyDir ['/', 's'] (fun _ => none) everyPid _ plainHost_found
    (by decide) fun _ _ _ _ => ⟨_, rfl⟩).mpr (by decide)

theorem listed_alike :
    listedAs plainHost everyDir ['a'] = some ['a'] ∧
      listedAs plainHost everyDir ['a', '@', 'h'] = some ['a'] ∧
      ¬ ∀ (env : Env FilePath) (mkdirs : Nat → MkdirAnswer FilePath) (base : FilePath)
        (modified : FilePath → Option (List Char)) (answer : FilePath → Option Packet)
        (names : List (List Char)), (socketBaseDir (baseCandidates env) mkdirs).2 = some base →
        (∀ name ∈ names, name ≠ [] ∧ '/' ∉ name) →
        (∀ name ∈ names, Alive env mkdirs answer name) →
          InvertsNaming env mkdirs modified answer names := by
  have short : listedAs plainHost everyDir ['a'] = some ['a'] := by
    rw [listedAs_self plainHost_found (by decide)]
    decide
  have long : listedAs plainHost everyDir ['a', '@', 'h'] = some ['a'] := by
    rw [listedAs_plain plainHost_found (by decide) (by decide), if_neg (by decide)]
    have trimmed : trimEndMatches ['@', 'h'] (['a'] ++ ['@', 'h']) = ['a'] := by
      rw [trimEndMatches_append (by decide), trimEndMatches_of_not_suffix (by decide)]
    exact congrArg some trimmed
  refine ⟨short, long, fun always => ?_⟩
  have inverts := always plainHost everyDir ['/', 's'] (fun _ => none) everyPid
    [['a'], ['a', '@', 'h']] plainHost_found (by decide) fun _ _ _ _ => ⟨_, rfl⟩
  exact inverts.distinct ['a'] (by decide) ['a', '@', 'h'] (by decide) (by decide)
    (short.trans long.symm)

end Lich
