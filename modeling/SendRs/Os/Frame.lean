/-
**What the calls leave alone.**

A `Frame` for a property of the world says where the program may create something, and which files
it may write, without breaking the property, and that the other processes do not break it. A file
that is written is stamped with the clock. Every call that stays within the frame keeps the
property, whether it returns or fails: there is one rule for each call.

`Holds env kept` (everything in `kept` is in its place) has a frame of its own: the program may write
to any location where nothing is kept, and create anything, since it only creates where nothing is.
-/

import SendRs.Os.System

namespace SendRs

open Effect

/-- The other processes keep `inv`, and so does what the program creates at a location of `places`
and writes to a location of `files`. -/
structure Frame (env : Surroundings) (inv : World → Prop) (places files : Loc → Prop) : Prop where
  env_eq : ∀ w, inv w → w.env = env
  turn : Keeps inv turn
  create : ∀ (w : World) (loc : Loc) (new : Node), places loc → w.fs.node loc = none → inv w →
    inv { w with fs := w.fs.put loc new }
  write : ∀ (w : World) (loc : Loc) (content : Bytes) (k : Nat), files loc → inv w →
    inv { w with fs := w.fs.put loc (.file content (env.turns k).now) }

namespace Frame

variable {env : Surroundings} {inv : World → Prop} {places files : Loc → Prop}

/-! ### Calls that only look -/

theorem call (frame : Frame env inv places files) : Keeps inv call :=
  Triple.bind frame.turn fun _ =>
    Triple.ite (fun _ => Triple.throw fun _ holds => holds) fun _ => Triple.pure fun _ holds => holds

/-- The turn of a call is one of those the surroundings hold. -/
theorem drawn (frame : Frame env inv places files) {failed : Error → World → Prop} :
    Triple inv SendRs.turn (fun t w => (∃ k, t = env.turns k) ∧ inv w) failed :=
  fun w holds => ⟨⟨w.clock, by rw [← frame.env_eq w holds]⟩, frame.turn w holds⟩

/-- A path that was resolved denotes the location it led to. -/
theorem resolveNow (frame : Frame env inv places files) (path : Path) :
    Triple inv (resolveNow path) (fun target w => path.lexical env.cwd = some target ∧ inv w)
      (fun _ => inv) := by
  refine Triple.bind (M := fun found w => (∀ target, found = some target →
    path.lexical env.cwd = some target) ∧ inv w) (Triple.observe fun w holds => ?_) fun found => ?_
  · refine ⟨fun target resolved => ?_, holds⟩
    rw [← frame.env_eq w holds]
    exact FileSystem.lexical_of_resolve resolved
  · cases found with
    | none => exact Triple.throw fun _ holds => holds.2
    | some target => exact Triple.pure fun _ holds => ⟨holds.1 target rfl, holds.2⟩

theorem isFile (frame : Frame env inv places files) (path : Path) : Keeps inv (isFile path) :=
  Triple.bind frame.turn fun _ => Triple.bind (Triple.observe fun _ holds => holds) fun _ =>
    Triple.pure fun _ holds => holds

/-- The handle of an open file is the location that the path denotes. -/
theorem openRead (frame : Frame env inv places files) (path : Path) :
    Triple inv (openRead path) (fun target w => path.lexical env.cwd = some target ∧ inv w)
      (fun _ => inv) := by
  refine Triple.bind frame.call fun _ => ?_
  refine Triple.bind (frame.resolveNow path) fun target => Triple.given fun lexical => ?_
  refine Triple.bind (M := fun _ => inv) (Triple.observe fun _ holds => holds) fun _ => ?_
  exact Triple.ite (fun _ => Triple.pure fun _ holds => ⟨lexical, holds⟩)
    fun _ => Triple.throw fun _ holds => holds

theorem seek (frame : Frame env inv places files) : Keeps inv seek :=
  Triple.bind frame.call fun _ => Triple.pure fun _ holds => holds

theorem read (frame : Frame env inv places files) (rest : Bytes) (len : Nat) :
    Keeps inv (read rest len) :=
  Triple.bind frame.call fun _ => Triple.pure fun _ holds => holds

theorem readExact (frame : Frame env inv places files) (target : Loc) (offset len : Nat) :
    Keeps inv (readExact target offset len) := by
  refine Triple.bind frame.call fun t => ?_
  refine Triple.bind (M := fun _ => inv) (Triple.observe fun _ holds => holds) fun found => ?_
  cases found with
  | none => exact Triple.throw fun _ holds => holds
  | some content =>
    exact Triple.ite (fun _ => Triple.pure fun _ holds => holds) fun _ =>
      Triple.throw fun _ holds => holds

/-! ### Calls that create and write -/

/-- Directories are only created where nothing was. -/
theorem mkdirs (frame : Frame env inv places files) (pieces : List Bytes) :
    ∀ cur, (∀ passed ∈ visited cur pieces, places passed) → Keeps inv (mkdirs cur pieces) := by
  induction pieces with
  | nil => exact fun _ _ => Triple.pure fun _ holds => holds
  | cons piece rest ih =>
    intro cur inside
    refine Triple.bind frame.call fun _ => ?_
    refine Triple.bind (M := fun fs w => fs = w.fs ∧ inv w)
      (Triple.observe fun w holds => ⟨rfl, holds⟩) fun fs => ?_
    refine Triple.ite (fun _ => ?_) fun _ => Triple.throw fun _ holds => holds.2
    cases step : cur.step piece with
    | none => exact Triple.throw fun _ holds => holds.2
    | some next =>
      rw [visited, step] at inside
      have onwards := ih next fun passed member => inside passed (List.mem_cons_of_mem _ member)
      dsimp only
      cases found : fs.node next with
      | some there =>
        cases there with
        | dir => exact onwards.pre fun _ holds => holds.2
        | file content modified => exact Triple.throw fun _ holds => holds.2
      | none =>
        refine Triple.bind (M := fun _ => inv) (Triple.update ?_) fun _ => onwards
        rintro w ⟨rfl, holds⟩
        exact frame.create w next .dir (inside next List.mem_cons_self) found holds

theorem createDirAll (frame : Frame env inv places files) {path : Path}
    (inside : ∀ passed ∈ visited (path.start env.cwd) path.pieces, places passed) :
    Keeps inv (createDirAll path) := by
  refine Triple.bind (M := fun cwd w => cwd = env.cwd ∧ inv w)
    (Triple.observe fun w holds => ⟨by rw [frame.env_eq w holds], holds⟩) fun cwd => ?_
  refine Triple.given fun same => ?_
  subst same
  exact frame.mkdirs path.pieces _ inside

/-- Opening for writing creates at most a file where nothing was; the handle is the location that
the path denotes. -/
theorem openWrite (frame : Frame env inv places files) {path : Path}
    (inside : ∀ loc, path.lexical env.cwd = some loc → places loc) :
    Triple inv (openWrite path) (fun target w => path.lexical env.cwd = some target ∧ inv w)
      (fun _ => inv) := by
  refine Triple.bind frame.call fun t => ?_
  refine Triple.bind (frame.resolveNow path) fun target => Triple.given fun lexical => ?_
  refine Triple.bind (M := fun fs w => fs = w.fs ∧ inv w)
    (Triple.observe fun w holds => ⟨rfl, holds⟩) fun fs => ?_
  cases found : fs.node target with
  | some there =>
    cases there with
    | file content modified => exact Triple.pure fun _ holds => ⟨lexical, holds.2⟩
    | dir => exact Triple.throw fun _ holds => holds.2
  | none =>
    refine Triple.ite (fun _ => ?_) fun _ => Triple.throw fun _ holds => holds.2
    refine Triple.bind (M := fun _ => inv) (Triple.update ?_) fun _ =>
      Triple.pure fun _ holds => ⟨lexical, holds⟩
    rintro w ⟨rfl, holds⟩
    exact frame.create w target _ (inside target lexical) found holds

/-- Setting the length of a file, by what it makes of the bytes that are there. -/
theorem setLen_of (frame : Frame env inv places files) {target : Loc} {size : Nat}
    (rewrites : ∀ (w : World) (content : Bytes) (k : Nat), inv w → w.fs.content target = some content →
      inv { w with fs := w.fs.put target (.file (content.takeD size 0) (env.turns k).now) }) :
    Keeps inv (setLen target size) := by
  refine Triple.bind (call_spec frame.env_eq frame.turn) fun t => Triple.given fun ⟨k, drawn⟩ => ?_
  subst drawn
  refine Triple.bind (M := fun found w => w.fs.content target = found ∧ inv w)
    (Triple.observe fun w holds => ⟨rfl, holds⟩) fun found => ?_
  cases found with
  | none => exact Triple.throw fun _ holds => holds.2
  | some content => exact Triple.update fun w holds => rewrites w content k holds.2 holds.1

theorem setLen (frame : Frame env inv places files) {target : Loc} (may : files target)
    (size : Nat) : Keeps inv (setLen target size) :=
  frame.setLen_of fun w _ k holds _ => frame.write w target _ k may holds

/-- Writing into a file, by what the part that is written makes of the bytes that are there. -/
theorem writeAll_of (frame : Frame env inv places files) {target : Loc} {offset : Nat} {bytes : Bytes}
    (rewrites : ∀ (w : World) (content part : Bytes) (k : Nat), inv w →
      w.fs.content target = some content → part <+: bytes → inv { w with
        fs := w.fs.put target (.file (Pieces.patch 0 content offset part) (env.turns k).now) }) :
    Keeps inv (writeAll target offset bytes) := by
  refine Triple.bind frame.drawn fun t => Triple.given fun ⟨k, drawn⟩ => ?_
  refine Triple.bind (M := fun found w => w.fs.content target = found ∧ inv w)
    (Triple.observe fun w holds => ⟨rfl, holds⟩) fun found => ?_
  have writes {content part : Bytes} (isPart : part <+: bytes) :
      Triple (fun w => w.fs.content target = some content ∧ inv w)
        (putNode target (.file (Pieces.patch 0 content offset part) t.now)) (fun _ => inv)
        fun _ => inv := by
    subst drawn
    exact Triple.update fun w holds => rewrites w content part k holds.2 holds.1 isPart
  cases found with
  | none => exact Triple.throw fun _ holds => holds.2
  | some content =>
    cases fault : t.fault with
    | none => exact writes (List.prefix_refl bytes)
    | some how =>
      cases how with
      | before => exact Triple.throw fun _ holds => holds.2
      | after n =>
        exact Triple.bind (writes (List.take_prefix n bytes)) fun _ =>
          Triple.throw fun _ holds => holds

theorem writeAll (frame : Frame env inv places files) {target : Loc} (may : files target)
    (offset : Nat) (bytes : Bytes) : Keeps inv (writeAll target offset bytes) :=
  frame.writeAll_of fun w _ _ k holds _ _ => frame.write w target _ k may holds

/-- Writing a whole file. -/
theorem fsWrite (frame : Frame env inv places files) {path : Path}
    (may : ∀ loc, path.lexical env.cwd = some loc → files loc) (body : Bytes) :
    Keeps inv (fsWrite path body) := by
  refine Triple.bind frame.drawn fun t => Triple.given fun ⟨k, drawn⟩ => ?_
  refine Triple.ite (fun _ => Triple.throw fun _ holds => holds) fun _ => ?_
  refine Triple.bind (frame.resolveNow path) fun target => Triple.given fun lexical => ?_
  refine Triple.bind (M := fun _ => inv) (Triple.observe fun _ holds => holds) fun fs => ?_
  have writes (content : Bytes) : Keeps inv (putNode target (.file content t.now)) := by
    subst drawn
    exact Triple.update fun w holds => frame.write w target content k (may target lexical) holds
  refine Triple.ite (fun _ => ?_) fun _ => Triple.throw fun _ holds => holds
  cases fault : t.fault with
  | none => exact writes _
  | some how =>
    cases how with
    | before => exact writes _
    | after n => exact Triple.bind (writes _) fun _ => Triple.throw fun _ holds => holds

end Frame

/-! ### What is in its place -/

/-- Every node of `kept` is in its place, in the surroundings `env`. -/
structure Holds (env : Surroundings) (kept : Loc → Node → Prop) (w : World) : Prop where
  env_eq : w.env = env
  node_eq : ∀ loc there, kept loc there → w.fs.node loc = some there

/-- The other processes never change what is at `loc`. -/
def Surroundings.SparesLoc (env : Surroundings) (loc : Loc) : Prop :=
  ∀ k fs, ((env.turns k).edit fs).node loc = fs.node loc

/-- The other processes never change what is in `kept`. -/
def Surroundings.Spares (env : Surroundings) (kept : Loc → Node → Prop) : Prop :=
  ∀ loc there, kept loc there → env.SparesLoc loc

/-- Nothing is kept at the location. -/
def Outside (kept : Loc → Node → Prop) (loc : Loc) : Prop := ∀ there, ¬ kept loc there

section Keeps

variable {env : Surroundings} {kept : Loc → Node → Prop}

theorem keeps_turn (spares : env.Spares kept) : Keeps (Holds env kept) turn := by
  rintro w ⟨rfl, held⟩
  exact ⟨rfl, fun loc there member =>
    (spares loc there member w.clock w.fs).trans (held loc there member)⟩

/-- What is kept survives a write elsewhere. -/
theorem Holds.put {w : World} (holds : Holds env kept w) {target : Loc}
    (outside : Outside kept target) (new : Node) :
    Holds env kept { w with fs := w.fs.put target new } := by
  refine ⟨holds.env_eq, fun loc there member => ?_⟩
  have different : loc ≠ target := fun same => outside there (same ▸ member)
  exact (FileSystem.node_put_ne w.fs different new).trans (holds.node_eq loc there member)

/-- Less is kept as well. -/
theorem Holds.mono {w : World} {less : Loc → Node → Prop} (holds : Holds env kept w)
    (fewer : ∀ loc there, less loc there → kept loc there) : Holds env less w :=
  ⟨holds.env_eq, fun loc there member => holds.node_eq loc there (fewer loc there member)⟩

/-- Where nothing is, nothing is kept. -/
theorem Holds.outside {w : World} (holds : Holds env kept w) {target : Loc}
    (absent : w.fs.node target = none) : Outside kept target := by
  intro there member
  have present := holds.node_eq target there member
  rw [absent] at present
  cases present

/-- **Anything may be created, and any file may be written where nothing is kept.** -/
theorem holds_frame (spares : env.Spares kept) :
    Frame env (Holds env kept) (fun _ => True) (Outside kept) :=
  ⟨fun _ holds => holds.env_eq, keeps_turn spares,
    fun _ _ new _ absent holds => holds.put (holds.outside absent) new,
    fun _ _ _ _ outside holds => holds.put outside _⟩

theorem keeps_call (spares : env.Spares kept) : Keeps (Holds env kept) call :=
  (holds_frame spares).call

theorem keeps_createDirAll (spares : env.Spares kept) (path : Path) :
    Keeps (Holds env kept) (createDirAll path) :=
  (holds_frame spares).createDirAll fun _ _ => trivial

theorem keeps_isFile (spares : env.Spares kept) (path : Path) :
    Keeps (Holds env kept) (isFile path) := (holds_frame spares).isFile path

theorem keeps_openRead (spares : env.Spares kept) (path : Path) :
    Triple (Holds env kept) (openRead path)
      (fun target w => path.lexical env.cwd = some target ∧ Holds env kept w)
      (fun _ => Holds env kept) := (holds_frame spares).openRead path

theorem keeps_openWrite (spares : env.Spares kept) (path : Path) :
    Triple (Holds env kept) (openWrite path)
      (fun target w => path.lexical env.cwd = some target ∧ Holds env kept w)
      (fun _ => Holds env kept) := (holds_frame spares).openWrite fun _ _ => trivial

theorem keeps_setLen (spares : env.Spares kept) {target : Loc} (outside : Outside kept target)
    (size : Nat) : Keeps (Holds env kept) (setLen target size) :=
  (holds_frame spares).setLen outside size

theorem keeps_seek (spares : env.Spares kept) : Keeps (Holds env kept) seek :=
  (holds_frame spares).seek

theorem keeps_readExact (spares : env.Spares kept) (target : Loc) (offset len : Nat) :
    Keeps (Holds env kept) (readExact target offset len) :=
  (holds_frame spares).readExact target offset len

theorem keeps_writeAll (spares : env.Spares kept) {target : Loc} (outside : Outside kept target)
    (offset : Nat) (bytes : Bytes) : Keeps (Holds env kept) (writeAll target offset bytes) :=
  (holds_frame spares).writeAll outside offset bytes

/-- Writing a whole file leaves what is elsewhere alone. -/
theorem keeps_fsWrite (spares : env.Spares kept) {path : Path}
    (elsewhere : ∀ loc, path.lexical env.cwd = some loc → Outside kept loc) (body : Bytes) :
    Keeps (Holds env kept) (fsWrite path body) := (holds_frame spares).fsWrite elsewhere body

end Keeps

end SendRs
