/-
**The calls to the operating system.**

A program runs in a `World`: the tree of files, and surroundings that it cannot influence. Before
each call the other processes take a `Turn`: they may change the tree, and the call may fail, before
or after a part of its effect. A run is therefore a function of the surroundings, and a statement
about all surroundings is a statement about every pattern of failures and of interference.

`Stands env fs` (the tree is `fs`) survives the calls that only look, as long as the other processes
change nothing.
-/

import SendRs.Library.Effect
import SendRs.Library.Pieces
import SendRs.Os.FileSystem

namespace SendRs

open Effect

/-- The messages of an error, outermost first (`anyhow::Error` and its contexts). -/
abbrev Error := List String

/-- How a call fails: before it had an effect, or when so many bytes of it were done. -/
inductive Fault where
  | before
  | after (bytes : Nat)
deriving DecidableEq

/-- What happens around one call. -/
structure Turn where
  /-- What the other processes do to the tree before the call. -/
  edit : FileSystem → FileSystem
  /-- Whether and how the call fails. -/
  fault : Option Fault
  /-- The most bytes that one read hands out. -/
  grant : Nat
  /-- The clock, in seconds. -/
  now : Int
  /-- The identifier that `Uuid::new_v4` draws. -/
  uuid : String

/-- Everything a program cannot influence. -/
structure Surroundings where
  cwd : Loc
  /-- The locations whose traversal fails: of a directory the listing, of anything else the entry. -/
  unlistable : Loc → Bool
  turns : Nat → Turn

/-- The state of the world in which a program runs. -/
structure World where
  env : Surroundings
  fs : FileSystem
  clock : Nat

/-- A program that calls the operating system. -/
abbrev Sys (α : Type) := Prog Error World α

/-- The error of a failed call. -/
def osError : Error := ["I/O error"]

/-- `.context(message)`. -/
def withContext {σ α : Type} (message : String) (prog : Prog Error σ α) : Prog Error σ α :=
  Effect.context (fun error => message :: error) prog

/-- The others take their turn. -/
def turn : Sys Turn := fun w =>
  let t := w.env.turns w.clock
  .ok t { w with fs := t.edit w.fs, clock := w.clock + 1 }

/-- A call that either fails without an effect or is carried out. -/
def call : Sys Turn := do
  let t ← turn
  if t.fault.isSome then throw osError else pure t

/-- The location that a path leads to now. -/
def resolveNow (path : Path) : Sys Loc := do
  let found ← observe fun w => w.fs.resolve w.env.cwd path
  match found with
  | some loc => pure loc
  | none => throw osError

/-- Put a node into the tree. -/
def putNode (loc : Loc) (new : Node) : Sys Unit := update fun w => { w with fs := w.fs.put loc new }

/-! ### Directories -/

/-- Create the missing directories along the pieces of a path. -/
def mkdirs : Loc → List Bytes → Sys Unit
  | _, [] => pure ()
  | cur, piece :: rest => do
    let _ ← call
    let fs ← observe World.fs
    if fs.IsDir cur then
      match cur.step piece with
      | none => throw osError
      | some next =>
        match fs.node next with
        | some .dir => mkdirs next rest
        | some (.file _ _) => throw osError
        | none => do
          putNode next .dir
          mkdirs next rest
    else throw osError

/-- `fs::create_dir_all`. -/
def createDirAll (path : Path) : Sys Unit := do
  let cwd ← observe fun w => w.env.cwd
  mkdirs (path.start cwd) path.pieces

/-- The location of something that exists. -/
def resolveExisting (path : Path) : Sys Loc := do
  let loc ← resolveNow path
  let there ← observe fun w => w.fs.node loc
  if there.isSome then pure loc else throw osError

/-- `Path::canonicalize`. -/
def canonicalize (path : Path) : Sys Loc := do
  let _ ← call
  resolveExisting path

/-- `Path::is_file`: false when the call fails. -/
def isFile (path : Path) : Sys Bool := do
  let t ← turn
  let found ← observe fun w => (w.fs.resolve w.env.cwd path).bind w.fs.content
  pure (t.fault.isNone && found.isSome)

/-- `Path::metadata`: the length and the time of modification. -/
def metadata (path : Path) : Sys (Nat × Int) := do
  let _ ← call
  let loc ← resolveNow path
  let there ← observe fun w => w.fs.node loc
  match there with
  | some (.file content modified) => pure (content.length, modified)
  | some .dir => pure (0, 0)
  | none => throw osError

/-- The locations below `root` that a directory walk reaches, and an error for each one on the way
whose traversal fails: a directory is still yielded, without what is in it, another entry is not. -/
def walkItems (env : Surroundings) (fs : FileSystem) (root : Loc) : List (Except Loc Loc) :=
  let hidden (loc : Loc) : Bool :=
    loc.inits.any fun above => above ≠ loc && root.isPrefixOf above && env.unlistable above
  (([] :: fs.nodes.keys).filter fun loc => root.isPrefixOf loc && !hidden loc).flatMap fun loc =>
    if env.unlistable loc then
      if loc = root ∨ fs.IsDir loc then [.ok loc, .error loc] else [.error loc]
    else [.ok loc]

/-- `WalkDir::new(root)`: the stream of entries and errors. -/
def walkDir (root : Loc) : Sys (List (Except Loc Loc)) := do
  let _ ← turn
  observe fun w => walkItems w.env w.fs root

/-! ### Files -/

/-- `File::open`. -/
def openRead (path : Path) : Sys Loc := do
  let _ ← call
  resolveExisting path

/-- `OpenOptions::new().create(true).read(true).write(true).truncate(false).open`. -/
def openWrite (path : Path) : Sys Loc := do
  let t ← call
  let loc ← resolveNow path
  let fs ← observe World.fs
  match fs.node loc with
  | some (.file _ _) => pure loc
  | some .dir => throw osError
  | none =>
    if fs.Free loc then do
      putNode loc (.file [] t.now)
      pure loc
    else throw osError

/-- `File::set_len`: cut, or fill up with zeros. -/
def setLen (loc : Loc) (size : Nat) : Sys Unit := do
  let t ← call
  let there ← observe fun w => w.fs.content loc
  match there with
  | some content => putNode loc (.file (content.takeD size 0) t.now)
  | none => throw osError

/-- One `Read::read` of at most `len` bytes, with `rest` still to come: how many bytes it returns.
It returns none only at the end of the file or into an empty buffer. -/
def read (rest : Bytes) (len : Nat) : Sys Nat := do
  let t ← call
  pure (min (max 1 t.grant) (min len rest.length))

/-- `File::seek`. The offset is an argument of the read or write that follows. -/
def seek : Sys Unit := do
  let _ ← call
  pure ()

/-- `read_exact` at an offset. -/
def readExact (loc : Loc) (offset len : Nat) : Sys Bytes := do
  let _ ← call
  let there ← observe fun w => w.fs.content loc
  match there with
  | some content =>
    if offset + len ≤ content.length then pure ((content.drop offset).take len)
    else throw ["failed to fill whole buffer"]
  | none => throw osError

/-- `write_all` at an offset: a gap is filled with zeros, and a failure may leave a part written. -/
def writeAll (loc : Loc) (offset : Nat) (bytes : Bytes) : Sys Unit := do
  let t ← turn
  let there ← observe fun w => w.fs.content loc
  match there, t.fault with
  | some content, none => putNode loc (.file (Pieces.patch 0 content offset bytes) t.now)
  | some content, some (.after n) => do
    putNode loc (.file (Pieces.patch 0 content offset (bytes.take n)) t.now)
    throw osError
  | _, _ => throw osError

/-- `fs::write`: create or truncate, then write. A failure may leave a part written. -/
def fsWrite (path : Path) (body : Bytes) : Sys Unit := do
  let t ← turn
  if t.fault = some .before then throw osError
  else do
    let loc ← resolveNow path
    let fs ← observe World.fs
    if fs.Free loc then
      match t.fault with
      | some (.after n) => do
        putNode loc (.file (body.take n) t.now)
        throw osError
      | _ => putNode loc (.file body t.now)
    else throw osError

/-! ### One turn -/

/-- Every read of at most `len` bytes fills its buffer, except at the end of the file. -/
def Surroundings.FillsBuffers (env : Surroundings) (len : Nat) : Prop :=
  ∀ k, len ≤ (env.turns k).grant

section Turn

variable {env : Surroundings} {inv : World → Prop}

/-- What is kept through a turn of the others is kept through a call, whose turn is one of those the
surroundings hold. -/
theorem call_spec (within : ∀ w, inv w → w.env = env) (keeps : Keeps inv turn) :
    Triple inv call (fun t w => (∃ k, t = env.turns k) ∧ inv w) (fun _ => inv) := by
  refine Triple.bind (M := fun t w => (∃ k, t = env.turns k) ∧ inv w) ?_ fun t => ?_
  · exact fun w holds => ⟨⟨w.clock, by rw [← within w holds]⟩, keeps w holds⟩
  · exact Triple.ite (fun _ => Triple.throw fun _ holds => holds.2) fun _ =>
      Triple.pure fun _ holds => holds

/-- What one read returns: nothing at the end of the file only, and all it can if it fills its
buffer. -/
theorem read_spec {failed : Error → World → Prop}
    (called : Triple inv call (fun t w => (∃ k, t = env.turns k) ∧ inv w) failed) {len : Nat}
    (positive : 0 < len) (rest : Bytes) :
    Triple inv (read rest len)
      (fun n w => ((n = 0 ↔ rest = []) ∧ n ≤ rest.length ∧
        (env.FillsBuffers len → n = min len rest.length)) ∧ inv w) failed := by
  refine Triple.bind called fun t => ?_
  refine Triple.given fun drawn => Triple.pure fun w holds => ⟨⟨?_, ?_, fun fills => ?_⟩, holds⟩
  · rw [← List.length_eq_zero_iff]
    omega
  · omega
  · obtain ⟨k, rfl⟩ := drawn
    have := fills k
    omega

end Turn

/-! ### Calls that only look, in a tree that stays as it is -/

/-- The other processes change nothing. -/
def Surroundings.Still (env : Surroundings) : Prop := ∀ k fs, (env.turns k).edit fs = fs

/-- No call fails. -/
def Surroundings.NoFaults (env : Surroundings) : Prop := ∀ k, (env.turns k).fault = none

/-- The tree is `fs`, in the surroundings `env`. -/
structure Stands (env : Surroundings) (fs : FileSystem) (w : World) : Prop where
  env_eq : w.env = env
  fs_eq : w.fs = fs

section Looking

variable {env : Surroundings} {fs : FileSystem}

theorem stands_turn (still : env.Still) : Keeps (Stands env fs) turn := by
  rintro w ⟨rfl, rfl⟩
  exact ⟨rfl, still w.clock w.fs⟩

theorem stands_call (still : env.Still) :
    Triple (Stands env fs) call (fun t w => (∃ k, t = env.turns k) ∧ Stands env fs w)
      (fun _ => Stands env fs) :=
  call_spec (fun _ stands => stands.env_eq) (stands_turn still)

/-- What is seen depends on the tree and the surroundings only. -/
theorem stands_observe {α : Type} {failed : Error → World → Prop} {f : World → α} {a : α}
    (seen : ∀ w, Stands env fs w → f w = a) :
    Triple (Stands env fs) (observe f : Sys α) (fun b w => b = a ∧ Stands env fs w) failed :=
  Triple.observe fun w stands => ⟨seen w stands, stands⟩

theorem stands_resolveNow (path : Path) :
    Triple (Stands env fs) (resolveNow path)
      (fun loc w => fs.resolve env.cwd path = some loc ∧ Stands env fs w)
      (fun _ => Stands env fs) := by
  refine Triple.bind (stands_observe (a := fs.resolve env.cwd path) ?_) fun found => ?_
  · rintro w ⟨rfl, rfl⟩
    rfl
  · refine Triple.given fun isFound => ?_
    subst isFound
    cases fs.resolve env.cwd path with
    | none => exact Triple.throw fun _ stands => stands
    | some loc => exact Triple.pure fun _ stands => ⟨rfl, stands⟩

theorem stands_resolveExisting (path : Path) :
    Triple (Stands env fs) (resolveExisting path)
      (fun loc w => fs.resolve env.cwd path = some loc ∧ (fs.node loc).isSome ∧ Stands env fs w)
      (fun _ => Stands env fs) := by
  refine Triple.bind (stands_resolveNow path) fun loc => Triple.given fun resolved => ?_
  refine Triple.bind (stands_observe (a := fs.node loc) ?_) fun there => ?_
  · rintro w ⟨rfl, rfl⟩
    rfl
  · refine Triple.given fun isThere => ?_
    subst isThere
    exact Triple.ite (fun found => Triple.pure fun _ stands => ⟨resolved, found, stands⟩)
      fun _ => Triple.throw fun _ stands => stands

theorem stands_canonicalize (still : env.Still) (path : Path) :
    Triple (Stands env fs) (canonicalize path)
      (fun loc w => fs.resolve env.cwd path = some loc ∧ (fs.node loc).isSome ∧ Stands env fs w)
      (fun _ => Stands env fs) :=
  Triple.bind (stands_call still) fun _ => Triple.given fun _ => stands_resolveExisting path

theorem stands_openRead (still : env.Still) (path : Path) :
    Triple (Stands env fs) (openRead path)
      (fun loc w => fs.resolve env.cwd path = some loc ∧ (fs.node loc).isSome ∧ Stands env fs w)
      (fun _ => Stands env fs) :=
  Triple.bind (stands_call still) fun _ => Triple.given fun _ => stands_resolveExisting path

/-- `is_file` says yes of files only, and of every file when no call fails. -/
theorem stands_isFile {failed : Error → World → Prop} (still : env.Still) (path : Path) :
    Triple (Stands env fs) (isFile path)
      (fun answer w => ((answer = true → ((fs.resolve env.cwd path).bind fs.content).isSome) ∧
        (env.NoFaults → answer = ((fs.resolve env.cwd path).bind fs.content).isSome)) ∧
          Stands env fs w) failed := by
  refine Triple.bind (M := fun t w => (∃ k, t = env.turns k) ∧ Stands env fs w) ?_ fun t => ?_
  · rintro w ⟨rfl, rfl⟩
    exact ⟨⟨w.clock, rfl⟩, rfl, still w.clock w.fs⟩
  · refine Triple.given fun drawn => ?_
    refine Triple.bind (stands_observe (a := (fs.resolve env.cwd path).bind fs.content) ?_)
      fun found => Triple.given fun seen => Triple.pure fun w stands => ⟨⟨fun yes => ?_, fun none => ?_⟩, stands⟩
    · rintro w ⟨rfl, rfl⟩
      rfl
    · rw [Bool.and_eq_true] at yes
      exact seen ▸ yes.2
    · obtain ⟨k, rfl⟩ := drawn
      rw [none k, seen]
      rfl

/-- The length of a file. -/
theorem stands_metadata (still : env.Still) {path : Path} {loc : Loc}
    (leads : fs.resolve env.cwd path = some loc) :
    Triple (Stands env fs) (metadata path)
      (fun info w => (∀ content, fs.content loc = some content → info.1 = content.length) ∧
        Stands env fs w)
      (fun _ => Stands env fs) := by
  refine Triple.bind (stands_call still) fun _ => Triple.given fun _ => ?_
  refine Triple.bind (stands_resolveNow path) fun target => Triple.given fun resolved => ?_
  obtain rfl : loc = target := Option.some.inj (leads.symm.trans resolved)
  refine Triple.bind (stands_observe (a := fs.node loc) ?_) fun there => ?_
  · rintro w ⟨rfl, rfl⟩
    rfl
  · refine Triple.given fun isThere => ?_
    subst isThere
    show Triple _ (match fs.node loc with
      | some (.file content modified) => pure (content.length, modified)
      | some .dir => pure (0, 0)
      | none => throw osError) _ _
    match found : fs.node loc with
    | some (.file content modified) =>
      refine Triple.pure fun _ stands => ⟨fun other seen => ?_, stands⟩
      rw [FileSystem.content, found] at seen
      rw [Option.some.inj seen]
    | some .dir =>
      refine Triple.pure fun _ stands => ⟨fun other seen => ?_, stands⟩
      rw [FileSystem.content, found] at seen
      cases seen
    | none => exact Triple.throw fun _ stands => stands

theorem stands_walkDir {failed : Error → World → Prop} (still : env.Still) (root : Loc) :
    Triple (Stands env fs) (walkDir root)
      (fun items w => items = walkItems env fs root ∧ Stands env fs w) failed := by
  refine Triple.bind (M := fun _ => Stands env fs) ?_ fun _ => stands_observe ?_
  · rintro w ⟨rfl, rfl⟩
    exact ⟨rfl, still w.clock w.fs⟩
  · rintro w ⟨rfl, rfl⟩
    rfl

end Looking

end SendRs
