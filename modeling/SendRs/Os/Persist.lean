/-
**What is there stays there.**

Every call of a program creates something where nothing is, or writes a file. So while the other
processes change nothing, directories stay directories and files stay files: `Since env written fs` says
so of a world whose tree was `fs`, and that the bytes of the files outside of `written` are as they were.
Every call keeps it (`since_frame`), and a call that returns has done its work for good:

* `createDirAll_there`: the path leads through directories to a directory;
* `openWrite_there`: the path leads to a file; `setLen_there`: the file has the length;
* `fsWrite_there`: the path leads to the bytes that were written.

In calm surroundings a call whose work was done before changes nothing
(`calm_createDirAll_along`, `calm_openWrite_there`).
-/

import SendRs.Os.Calm

namespace SendRs

open Effect

/-! ### Paths and trees -/

theorem mem_visited_append (front rest : List Bytes) :
    ∀ {cur passed : Loc}, passed ∈ visited cur front → passed ∈ visited cur (front ++ rest) := by
  induction front with
  | nil => exact fun member => (List.not_mem_nil member).elim
  | cons piece front ih =>
    intro cur passed member
    rw [List.cons_append]
    rw [visited] at member ⊢
    cases step : cur.step piece with
    | none =>
      rw [step] at member
      exact (List.not_mem_nil member).elim
    | some next =>
      rw [step] at member
      rcases List.mem_cons.mp member with here | below
      · exact List.mem_cons.mpr (Or.inl here)
      · exact List.mem_cons_of_mem _ (ih below)

/-- The parent of a path is the front of the path. -/
theorem Path.parent_pieces {path parent : Path} (isParent : path.parent = some parent) :
    parent.absolute = path.absolute ∧ parent.pieces <+: path.pieces := by
  unfold Path.parent at isParent
  split at isParent
  · cases isParent
  · next last front cut =>
    obtain rfl := Option.some.inj isParent
    refine ⟨rfl, ?_⟩
    have suffix : last :: front <:+ path.pieces.reverse := cut ▸ List.dropWhile_suffix _
    have shorter : front <:+ path.pieces.reverse := (List.suffix_cons last front).trans suffix
    have reversed := List.reverse_prefix.mpr shorter
    rwa [List.reverse_reverse] at reversed

namespace FileSystem

theorem content_put_ne (fs : FileSystem) {loc other : Loc} (different : other ≠ loc) (new : Node) :
    (fs.put loc new).content other = fs.content other := by
  rw [content, node_put_ne fs different, ← content]

/-- A walk only looks at the locations it passes. -/
theorem walk_congr {fs fs' : FileSystem} (pieces : List Bytes) :
    ∀ {cur loc : Loc}, (∀ passed ∈ cur :: visited cur pieces, fs'.node passed = fs.node passed) →
      fs.walk cur pieces = some loc →
        fs'.walk cur pieces = some loc ∧ fs'.node loc = fs.node loc := by
  induction pieces with
  | nil =>
    intro cur loc same leads
    obtain rfl := Option.some.inj leads
    exact ⟨rfl, same cur List.mem_cons_self⟩
  | cons piece rest ih =>
    intro cur loc same leads
    rw [walk] at leads ⊢
    rw [visited] at same
    split at leads
    · next isDir =>
      have there : fs'.IsDir cur := (same cur List.mem_cons_self).trans isDir
      rw [if_pos there]
      cases step : cur.step piece with
      | none =>
        rw [step] at leads
        cases leads
      | some next =>
        rw [step] at leads same
        exact ih (fun passed member => same passed (List.mem_cons_of_mem _ member)) leads
    · cases leads

/-- The pieces lead through directories to a directory; no pieces lead anywhere. -/
def DirsAlong (fs : FileSystem) (cur : Loc) (pieces : List Bytes) : Prop :=
  ∃ loc, fs.walk cur pieces = some loc ∧ (pieces = [] ∨ fs.IsDir loc)

theorem DirsAlong.mono {fs fs' : FileSystem} {cur : Loc} {pieces : List Bytes}
    (along : fs.DirsAlong cur pieces) (kept : ∀ loc, fs.IsDir loc → fs'.IsDir loc) :
    fs'.DirsAlong cur pieces := by
  obtain ⟨loc, leads, last⟩ := along
  exact ⟨loc, walk_mono kept pieces leads, last.imp_right (kept loc)⟩

theorem DirsAlong.congr {fs fs' : FileSystem} {cur : Loc} {pieces : List Bytes}
    (along : fs.DirsAlong cur pieces)
    (same : ∀ passed ∈ cur :: visited cur pieces, fs'.node passed = fs.node passed) :
    fs'.DirsAlong cur pieces := by
  obtain ⟨loc, leads, last⟩ := along
  obtain ⟨leads', sameNode⟩ := walk_congr pieces same leads
  exact ⟨loc, leads', last.imp_right sameNode.trans⟩

/-- The first piece leads from a directory to a directory, and the others on from there. -/
theorem dirsAlong_cons {fs : FileSystem} {cur : Loc} {piece : Bytes} {rest : List Bytes} :
    fs.DirsAlong cur (piece :: rest) ↔ fs.IsDir cur ∧ ∃ next, cur.step piece = some next ∧
      fs.IsDir next ∧ fs.DirsAlong next rest := by
  unfold DirsAlong
  rw [walk]
  constructor
  · rintro ⟨loc, leads, last⟩
    have arrives : fs.IsDir loc := last.resolve_left (List.cons_ne_nil _ _)
    split at leads
    · next isDir =>
      cases step : cur.step piece with
      | none =>
        rw [step] at leads
        cases leads
      | some next =>
        rw [step] at leads
        change fs.walk next rest = some loc at leads
        refine ⟨isDir, next, rfl, ?_, loc, leads, Or.inr arrives⟩
        cases rest with
        | nil =>
          obtain rfl := Option.some.inj leads
          exact arrives
        | cons piece' rest' =>
          rw [walk] at leads
          split at leads
          · next isNext => exact isNext
          · cases leads
    · cases leads
  · rintro ⟨isDir, next, step, isNext, loc, leads, last⟩
    refine ⟨loc, ?_, Or.inr ?_⟩
    · rw [if_pos isDir, step]
      exact leads
    · rcases last with rfl | arrives
      · rwa [← Option.some.inj leads]
      · exact arrives

end FileSystem

/-! ### What persists -/

/-- Directories and files of the first tree are directories and files of the second, and outside of
`written` the files hold the same bytes. -/
structure Persists (written : Loc → Prop) (fs fs' : FileSystem) : Prop where
  dirs : ∀ loc, fs.IsDir loc → fs'.IsDir loc
  files : ∀ loc, (fs.content loc).isSome → (fs'.content loc).isSome
  contents : ∀ loc content, ¬ written loc → fs.content loc = some content →
    fs'.content loc = some content

/-- In the surroundings `env`, the tree is as `Q` says. -/
structure InTree (env : Surroundings) (Q : FileSystem → Prop) (w : World) : Prop where
  env_eq : w.env = env
  tree : Q w.fs

/-- In the surroundings `env`, what was in the tree `fs` persists. -/
abbrev Since (env : Surroundings) (written : Loc → Prop) (fs : FileSystem) : World → Prop :=
  InTree env (Persists written fs)

section Persists

variable {written more : Loc → Prop} {fs fs' fs'' : FileSystem} {env : Surroundings}

theorem Persists.refl (written : Loc → Prop) (fs : FileSystem) : Persists written fs fs :=
  ⟨fun _ isDir => isDir, fun _ isFile => isFile, fun _ _ _ found => found⟩

theorem Persists.trans (first : Persists written fs fs') (second : Persists written fs' fs'') :
    Persists written fs fs'' :=
  ⟨fun loc isDir => second.dirs loc (first.dirs loc isDir),
    fun loc isFile => second.files loc (first.files loc isFile), fun loc content outside found =>
      second.contents loc content outside (first.contents loc content outside found)⟩

theorem Persists.mono (persists : Persists written fs fs') (wider : ∀ loc, written loc → more loc) :
    Persists more fs fs' :=
  ⟨persists.dirs, persists.files, fun loc content outside =>
    persists.contents loc content fun inside => outside (wider loc inside)⟩

/-- A path that led somewhere still does. -/
theorem Persists.resolve (persists : Persists written fs fs') {cwd loc : Loc} {path : Path}
    (leads : fs.resolve cwd path = some loc) : fs'.resolve cwd path = some loc :=
  FileSystem.walk_mono persists.dirs _ leads

/-- Something is put where nothing was. -/
theorem persists_create {loc : Loc} (absent : fs.node loc = none) (new : Node) :
    Persists written fs (fs.put loc new) := by
  have different {other : Loc} {content : Bytes} (found : fs.content other = some content) :
      other ≠ loc := by
    rintro rfl
    rw [FileSystem.content, absent] at found
    cases found
  refine ⟨fun other => FileSystem.isDir_put, fun other isFile => ?_, fun other content _ found => ?_⟩
  · obtain ⟨content, found⟩ := Option.isSome_iff_exists.mp isFile
    rwa [FileSystem.content_put_ne fs (different found)]
  · rwa [FileSystem.content_put_ne fs (different found)]

/-- A file is written. -/
theorem persists_write {loc : Loc} (may : written loc) (content : Bytes) (modified : Int) :
    Persists written fs (fs.put loc (.file content modified)) := by
  refine ⟨fun other => FileSystem.isDir_put, fun other isFile => ?_, fun other bytes outside found => ?_⟩
  · by_cases same : other = loc
    · subst same
      obtain ⟨bytes, found⟩ := Option.isSome_iff_exists.mp isFile
      rw [FileSystem.content, FileSystem.node_put_same (free_of_content found)]
      rfl
    · rwa [FileSystem.content_put_ne fs same]
  · have different : other ≠ loc := fun same => outside (same ▸ may)
    rwa [FileSystem.content_put_ne fs different]

/-- From here on. -/
theorem since_now {w : World} (sameEnv : w.env = env) : Since env written w.fs w :=
  ⟨sameEnv, Persists.refl _ _⟩

/-- What persists from a tree in between persists from the first one. -/
theorem since_trans {w : World} (since : Since env written fs' w) (first : Persists written fs fs') :
    Since env written fs w := ⟨since.env_eq, first.trans since.tree⟩

/-- Calls that only look leave every property of the tree alone. -/
theorem inTree_frame (still : env.Still) (Q : FileSystem → Prop) :
    Frame env (InTree env Q) (fun _ => False) fun _ => False := by
  refine ⟨fun _ holds => holds.env_eq, ?_, fun _ _ _ impossible => impossible.elim,
    fun _ _ _ _ impossible => impossible.elim⟩
  rintro w ⟨rfl, holds⟩
  refine ⟨rfl, ?_⟩
  rwa [still w.clock w.fs]

/-- **Everything persists**, as long as the others change nothing and files are written in `written`
only. -/
theorem since_frame (still : env.Still) :
    Frame env (Since env written fs) (fun _ => True) written := by
  refine ⟨fun _ since => since.env_eq, ?_, ?_, ?_⟩
  · rintro w ⟨rfl, persists⟩
    refine ⟨rfl, ?_⟩
    rwa [still w.clock w.fs]
  · exact fun w loc new _ absent since => ⟨since.env_eq, since.tree.trans (persists_create absent new)⟩
  · exact fun w loc content k may since =>
      ⟨since.env_eq, since.tree.trans (persists_write may content _)⟩

end Persists

/-! ### What a call that returns has done -/

section There

variable {env : Surroundings} {written : Loc → Prop} {fs : FileSystem}

/-- After a look at the tree, the tree is known. -/
theorem since_seen {failed : Error → World → Prop} :
    Triple (Since env written fs) (observe World.fs)
      (fun seen w => Persists written fs seen ∧ Stands env seen w) failed :=
  Triple.observe fun _ since => ⟨since.tree, since.env_eq, rfl⟩

/-- The directories that `mkdirs` was to create are there. -/
theorem mkdirs_there (still : env.Still) (pieces : List Bytes) : ∀ (cur : Loc) (fs : FileSystem),
    Triple (Since env written fs) (mkdirs cur pieces)
      (fun _ w => w.fs.DirsAlong cur pieces ∧ Since env written fs w) (fun _ _ => True) := by
  induction pieces with
  | nil => exact fun cur fs => Triple.pure fun _ since => ⟨⟨cur, rfl, Or.inl rfl⟩, since⟩
  | cons piece rest ih =>
    intro cur fs
    refine Triple.bind (since_frame still).call.onSuccess fun _ => ?_
    refine Triple.bind since_seen fun seen => Triple.given fun persists => ?_
    refine Triple.ite (fun isDir => ?_) fun _ => Triple.throw fun _ _ => trivial
    cases step : cur.step piece with
    | none => exact Triple.throw fun _ _ => trivial
    | some next =>
      -- the rest, from a tree in which `next` is a directory
      have onwards {between : FileSystem} (kept : Persists written seen between)
          (there : between.IsDir next) : Triple (Stands env between) (mkdirs next rest)
          (fun _ w => w.fs.DirsAlong cur (piece :: rest) ∧ Since env written fs w)
          (fun _ _ => True) := by
        refine (ih next between).conseq ?_ ?_ fun _ _ _ => trivial
        · rintro w ⟨rfl, rfl⟩
          exact since_now rfl
        · rintro _ w ⟨along, since⟩
          have here := since.tree.dirs cur (kept.dirs cur isDir)
          refine ⟨FileSystem.dirsAlong_cons.mpr ⟨here, next, step, ?_, along⟩,
            since_trans since (persists.trans kept)⟩
          exact since.tree.dirs next there
      dsimp only
      cases found : seen.node next with
      | some there =>
        cases there with
        | dir => exact onwards (Persists.refl _ _) found
        | file content modified => exact Triple.throw fun _ _ => trivial
      | none =>
        refine Triple.bind (M := fun _ => Stands env (seen.put next .dir)) (Triple.update ?_) fun _ =>
          onwards (persists_create found _) (FileSystem.node_put_same (step_isDir isDir step found) _)
        rintro w ⟨rfl, rfl⟩
        exact ⟨rfl, rfl⟩

theorem createDirAll_there (still : env.Still) (path : Path) :
    Triple (Since env written fs) (createDirAll path)
      (fun _ w => w.fs.DirsAlong (path.start env.cwd) path.pieces ∧ Since env written fs w)
      (fun _ _ => True) := by
  refine Triple.bind (M := fun cwd w => cwd = env.cwd ∧ Since env written fs w)
    (Triple.observe fun w since => ⟨by rw [since.env_eq], since⟩) fun cwd => Triple.given fun same => ?_
  subst same
  exact mkdirs_there still path.pieces _ fs

/-- Where a path leads when it is resolved. -/
theorem resolveNow_there (path : Path) :
    Triple (Since env written fs) (resolveNow path)
      (fun loc w => w.fs.resolve env.cwd path = some loc ∧ Since env written fs w)
      (fun _ _ => True) := by
  refine Triple.bind (M := fun found w => w.fs.resolve env.cwd path = found ∧ Since env written fs w)
    (Triple.observe fun w since => ⟨by rw [since.env_eq], since⟩) fun found => ?_
  cases found with
  | none => exact Triple.throw fun _ _ => trivial
  | some loc => exact Triple.pure fun _ holds => holds

/-- What was opened for reading is there. -/
theorem openRead_there (still : env.Still) (path : Path) :
    Triple (Since env written fs) (openRead path)
      (fun opened w => (path.lexical env.cwd = some opened ∧ (w.fs.node opened).isSome) ∧
        Since env written fs w)
      (fun _ _ => True) := by
  refine Triple.bind (since_frame still).call.onSuccess fun _ => ?_
  refine Triple.bind (resolveNow_there path) fun opened => ?_
  refine Triple.bind (M := fun there w => w.fs.node opened = there ∧
    w.fs.resolve env.cwd path = some opened ∧ Since env written fs w)
    (Triple.observe fun _ holds => ⟨rfl, holds⟩) fun there => ?_
  refine Triple.ite (fun found => Triple.pure ?_) fun _ => Triple.throw fun _ _ => trivial
  rintro w ⟨rfl, leads, since⟩
  exact ⟨⟨FileSystem.lexical_of_resolve leads, found⟩, since⟩

/-- A file that was opened for writing is there. -/
theorem openWrite_there (still : env.Still) (path : Path) :
    Triple (Since env written fs) (openWrite path)
      (fun opened w => (w.fs.resolve env.cwd path = some opened ∧ (w.fs.content opened).isSome) ∧
        Since env written fs w)
      (fun _ _ => True) := by
  refine Triple.bind (since_frame still).call.onSuccess fun t => ?_
  refine Triple.bind (resolveNow_there path) fun opened => ?_
  refine Triple.bind (M := fun seen w => w.fs = seen ∧ seen.resolve env.cwd path = some opened ∧
    Since env written fs w) (Triple.observe fun w holds => ⟨rfl, holds⟩) fun seen => ?_
  cases found : seen.node opened with
  | some there =>
    cases there with
    | dir => exact Triple.throw fun _ _ => trivial
    | file content modified =>
      refine Triple.pure ?_
      rintro w ⟨rfl, leads, since⟩
      have there := FileSystem.content_eq_some.mpr ⟨modified, found⟩
      exact ⟨⟨leads, by rw [there]; rfl⟩, since⟩
  | none =>
    refine Triple.ite (fun free => ?_) fun _ => Triple.throw fun _ _ => trivial
    refine Triple.bind (M := fun _ w => (w.fs.resolve env.cwd path = some opened ∧
      (w.fs.content opened).isSome) ∧ Since env written fs w) (Triple.update ?_) fun _ =>
        Triple.pure fun _ holds => holds
    rintro w ⟨rfl, leads, since⟩
    have created : Persists written w.fs (w.fs.put opened (.file [] t.now)) := persists_create found _
    have there : (w.fs.put opened (.file [] t.now)).content opened = some [] :=
      FileSystem.content_eq_some.mpr ⟨t.now, FileSystem.node_put_same free _⟩
    exact ⟨⟨created.resolve leads, by rw [there]; rfl⟩, since.env_eq, since.tree.trans created⟩

/-- A file whose length was set has this length. -/
theorem setLen_there (still : env.Still) {loc : Loc} (may : written loc) (size : Nat) :
    Triple (Since env written fs) (setLen loc size)
      (fun _ w => (∃ content, w.fs.content loc = some content ∧ content.length = size) ∧
        Since env written fs w)
      (fun _ _ => True) := by
  refine Triple.bind (since_frame still).call.onSuccess fun t => ?_
  refine Triple.bind (M := fun there w => w.fs.content loc = there ∧ Since env written fs w)
    (Triple.observe fun _ since => ⟨rfl, since⟩) fun there => ?_
  cases there with
  | none => exact Triple.throw fun _ _ => trivial
  | some content =>
    refine Triple.update fun w ⟨found, since⟩ => ⟨⟨content.takeD size 0, ?_, List.takeD_length ..⟩,
      since.env_eq, since.tree.trans (persists_write may _ _)⟩
    exact FileSystem.content_eq_some.mpr ⟨t.now, FileSystem.node_put_same (free_of_content found) _⟩

/-- The bytes that were read are there. -/
theorem readExact_there (still : env.Still) {Q : FileSystem → Prop} (loc : Loc) (offset len : Nat) :
    Triple (InTree env Q) (readExact loc offset len)
      (fun buf w => (∃ content, w.fs.content loc = some content ∧ offset + len ≤ content.length ∧
        buf = (content.drop offset).take len) ∧ InTree env Q w)
      (fun _ => InTree env Q) := by
  refine Triple.bind (inTree_frame still Q).call fun _ => ?_
  refine Triple.bind (M := fun there w => w.fs.content loc = there ∧ InTree env Q w)
    (Triple.observe fun _ holds => ⟨rfl, holds⟩) fun there => ?_
  cases there with
  | none => exact Triple.throw fun _ holds => holds.2
  | some content =>
    exact Triple.ite (fun inside => Triple.pure fun _ ⟨found, holds⟩ =>
      ⟨⟨content, found, inside, rfl⟩, holds⟩) fun _ => Triple.throw fun _ holds => holds.2

/-- Writing all bytes leads from one property of the tree to another one, and writing a part of them
keeps the first. -/
theorem writeAll_there (still : env.Still) {Q Q' : FileSystem → Prop} {loc : Loc} {offset : Nat}
    {bytes : Bytes}
    (whole : ∀ fs content modified, Q fs → fs.content loc = some content →
      Q' (fs.put loc (.file (Pieces.patch 0 content offset bytes) modified)))
    (inPart : ∀ fs content part modified, Q fs → fs.content loc = some content → part <+: bytes →
      Q (fs.put loc (.file (Pieces.patch 0 content offset part) modified))) :
    Triple (InTree env Q) (writeAll loc offset bytes) (fun _ => InTree env Q')
      (fun _ => InTree env Q) := by
  refine Triple.bind (inTree_frame still Q).turn fun t => ?_
  refine Triple.bind (M := fun there w => w.fs.content loc = there ∧ InTree env Q w)
    (Triple.observe fun _ holds => ⟨rfl, holds⟩) fun there => ?_
  cases there with
  | none => exact Triple.throw fun _ holds => holds.2
  | some content =>
    cases t.fault with
    | none => exact Triple.update fun w ⟨found, holds⟩ =>
        ⟨holds.env_eq, whole w.fs content t.now holds.tree found⟩
    | some how =>
      cases how with
      | before => exact Triple.throw fun _ holds => holds.2
      | after n =>
        refine Triple.bind (M := fun _ => InTree env Q) (Triple.update fun w ⟨found, holds⟩ => ?_)
          fun _ => Triple.throw fun _ holds => holds
        exact ⟨holds.env_eq, inPart w.fs content _ t.now holds.tree found (List.take_prefix n bytes)⟩

/-- The bytes that were written are there. -/
theorem fsWrite_there (still : env.Still) {path : Path}
    (may : ∀ loc, path.lexical env.cwd = some loc → written loc) (body : Bytes) :
    Triple (Since env written fs) (fsWrite path body)
      (fun _ w => (∃ loc, w.fs.resolve env.cwd path = some loc ∧ w.fs.content loc = some body) ∧
        Since env written fs w)
      (fun _ _ => True) := by
  refine Triple.bind (since_frame still).turn.onSuccess fun t => ?_
  refine Triple.ite (fun _ => Triple.throw fun _ _ => trivial) fun notBefore => ?_
  refine Triple.bind (resolveNow_there path) fun loc => ?_
  refine Triple.bind (M := fun seen w => w.fs = seen ∧ seen.resolve env.cwd path = some loc ∧
    Since env written fs w) (Triple.observe fun w holds => ⟨rfl, holds⟩) fun seen => ?_
  refine Triple.ite (fun free => ?_) fun _ => Triple.throw fun _ _ => trivial
  cases fault : t.fault with
  | none =>
    refine Triple.update ?_
    rintro w ⟨rfl, leads, since⟩
    have wrote : Persists written w.fs (w.fs.put loc (.file body t.now)) :=
      persists_write (may loc (FileSystem.lexical_of_resolve leads)) _ _
    exact ⟨⟨loc, wrote.resolve leads, FileSystem.content_eq_some.mpr
      ⟨t.now, FileSystem.node_put_same free _⟩⟩, since.env_eq, since.tree.trans wrote⟩
  | some how =>
    cases how with
    | before => exact absurd fault notBefore
    | after n => exact Triple.bind (Triple.anything _).onSuccess fun _ => Triple.throw fun _ _ => trivial

end There

/-! ### What is there already -/

section Already

variable {env : Surroundings} {fs : FileSystem}

/-- No directory is created where all are there. -/
theorem calm_mkdirs_along (calm : env.Calm) (pieces : List Bytes) :
    ∀ {cur : Loc}, fs.DirsAlong cur pieces →
      Triple (Stands env fs) (mkdirs cur pieces) (fun _ => Stands env fs) Never := by
  induction pieces with
  | nil => exact fun _ => Triple.pure fun _ stands => stands
  | cons piece rest ih =>
    intro cur along
    obtain ⟨isDir, next, step, isNext, onwards⟩ := FileSystem.dirsAlong_cons.mp along
    refine Triple.bind (calm_call calm) fun _ => Triple.given fun _ => ?_
    refine Triple.bind (stands_observe (a := fs) fun _ stands => stands.fs_eq) fun seen => ?_
    refine Triple.given fun isSeen => ?_
    subst isSeen
    refine Triple.ite (fun _ => ?_) fun blocked => absurd isDir blocked
    have there : seen.node next = some .dir := isNext
    rw [step]
    dsimp only
    rw [there]
    exact ih onwards

theorem calm_createDirAll_along (calm : env.Calm) {path : Path}
    (along : fs.DirsAlong (path.start env.cwd) path.pieces) :
    Triple (Stands env fs) (createDirAll path) (fun _ => Stands env fs) Never := by
  refine Triple.bind (stands_observe (a := env.cwd) ?_) fun cwd => Triple.given fun same => ?_
  · rintro w ⟨rfl, rfl⟩
    rfl
  · subst same
    exact calm_mkdirs_along calm path.pieces along

/-- A file that is there is opened for writing as it is. -/
theorem calm_openWrite_there (calm : env.Calm) {path : Path} {loc : Loc} {content : Bytes}
    (leads : fs.resolve env.cwd path = some loc) (found : fs.content loc = some content) :
    Triple (Stands env fs) (openWrite path) (fun opened w => opened = loc ∧ Stands env fs w) Never := by
  obtain ⟨modified, there⟩ := FileSystem.content_eq_some.mp found
  refine Triple.bind (calm_call calm) fun t => Triple.given fun _ => ?_
  refine Triple.bind (calm_resolveNow leads) fun opened => Triple.given fun same => ?_
  subst same
  refine Triple.bind (stands_observe (a := fs) fun _ stands => stands.fs_eq) fun seen => ?_
  refine Triple.given fun isSeen => ?_
  subst isSeen
  rw [there]
  exact Triple.pure fun _ stands => ⟨rfl, stands⟩

end Already

end SendRs
