/-
**Removing files and directories.**

`erase` takes one entry out of a tree: a file, or a directory in which nothing is. `remove_file` is
one such step; `remove_dir_all` lists a directory, removes what it has listed, one entry after the
other, and then the directory itself. Each of these steps is a call that may fail, and then the rest
stays.

* `keeps_removeDirAll`: whatever fails, and whatever the others do elsewhere, nothing is lost but what
  is at or below the directory;
* `calm_removeDirAll`: in calm surroundings exactly that is gone.
-/

import Mathlib.Data.List.Perm.Subperm
import SendRs.Os.Calm

namespace SendRs

open Effect

namespace FileSystem

/-- What lies directly in a directory. -/
def children (fs : FileSystem) (loc : Loc) : List Loc :=
  fs.nodes.keys.filter fun below => below ≠ [] ∧ below.dropLast = loc

/-- An entry with nothing in it. -/
def Bare (fs : FileSystem) (loc : Loc) : Prop := loc ≠ [] ∧ fs.children loc = []

instance (fs : FileSystem) (loc : Loc) : Decidable (fs.Bare loc) :=
  inferInstanceAs (Decidable (_ ∧ _))

theorem mem_children {fs : FileSystem} {loc below : Loc} :
    below ∈ fs.children loc ↔ (fs.node below).isSome ∧ below ≠ [] ∧ below.dropLast = loc := by
  unfold children
  rw [List.mem_filter, decide_eq_true_iff]
  refine and_congr_left fun ⟨nonempty, _⟩ => ?_
  rw [node_of_ne_root fs nonempty, AList.lookup_isSome, AList.mem_keys]

theorem children_nodup (fs : FileSystem) (loc : Loc) : (fs.children loc).Nodup :=
  fs.nodes.keys_nodup.filter _

/-- Take out an entry with nothing in it; any other stays. -/
def erase (fs : FileSystem) (loc : Loc) : FileSystem :=
  if bare : fs.Bare loc then
    ⟨fs.nodes.erase loc, fun other member => by
      obtain ⟨different, member⟩ := AList.mem_erase.mp member
      rcases fs.rooted other member with root | isDir
      · exact Or.inl root
      · refine Or.inr ?_
        -- the parent of what stays is not the entry that goes, which has no children
        have apart : other.dropLast ≠ loc := by
          intro inside
          have nonempty : other ≠ [] := by
            intro root
            subst root
            exact bare.1 inside.symm
          have listed : other ∈ fs.children loc := by
            refine mem_children.mpr ⟨?_, nonempty, inside⟩
            rw [node_of_ne_root fs nonempty, AList.lookup_isSome]
            exact member
          rw [bare.2] at listed
          cases listed
        rw [AList.lookup_erase_ne apart]
        exact isDir⟩
  else fs

theorem node_erase_same {fs : FileSystem} {loc : Loc} (bare : fs.Bare loc) :
    (fs.erase loc).node loc = none := by
  rw [node_of_ne_root _ bare.1, erase, dif_pos bare]
  exact AList.lookup_erase _ _

theorem node_erase_ne (fs : FileSystem) {loc other : Loc} (different : other ≠ loc) :
    (fs.erase loc).node other = fs.node other := by
  unfold erase
  split
  · unfold node
    split
    · rfl
    · exact AList.lookup_erase_ne different
  · rfl

/-- There is nothing in a file. -/
theorem bare_of_file {fs : FileSystem} {loc : Loc} {content : Bytes} {modified : Int}
    (there : fs.node loc = some (.file content modified)) : fs.Bare loc := by
  refine ⟨(free_of_file there).ne_root, ?_⟩
  rw [List.eq_nil_iff_forall_not_mem]
  intro below member
  obtain ⟨found, _, rfl⟩ := mem_children.mp member
  obtain ⟨node, found⟩ := Option.isSome_iff_exists.mp found
  have isDir := isDir_dropLast found
  rw [IsDir, there] at isDir
  cases isDir

end FileSystem

/-! ### The calls -/

/-- Take an entry out of the tree. -/
def eraseNode (loc : Loc) : Sys Unit := update fun w => { w with fs := w.fs.erase loc }

/-- `unlink`: anything but a directory. -/
def unlink (loc : Loc) : Sys Unit := do
  let _ ← call
  let there ← observe fun w => w.fs.node loc
  match there with
  | some (.file _ _) => eraseNode loc
  | _ => throw osError

/-- `rmdir`: a directory with nothing in it. -/
def rmdir (loc : Loc) : Sys Unit := do
  let _ ← call
  let fs ← observe World.fs
  if fs.IsDir loc ∧ fs.Bare loc then eraseNode loc else throw osError

/-- `fs::remove_file`. -/
def removeFile (path : Path) : Sys Unit := do
  let loc ← resolveNow path
  unlink loc

/-- The recursion of `fs::remove_dir_all`, down to a depth: list the directory, remove each entry that
was listed, then the directory. -/
def removeTree : Nat → Loc → Sys Unit
  | 0, _ => throw osError
  | depth + 1, loc => do
    let _ ← call
    let fs ← observe World.fs
    if fs.IsDir loc then do
      (fs.children loc).forM fun child =>
        if fs.IsDir child then removeTree depth child else unlink child
      rmdir loc
    else throw osError

/-- `fs::remove_dir_all`. No tree is deeper than it has entries. -/
def removeDirAll (path : Path) : Sys Unit := do
  let loc ← resolveNow path
  let entries ← observe fun w => w.fs.nodes.keys.length
  removeTree (entries + 1) loc

/-- `fs::metadata(path)?.is_dir()`. -/
def metadataIsDir (path : Path) : Sys Bool := do
  let _ ← call
  let loc ← resolveExisting path
  observe fun w => decide (w.fs.IsDir loc)

/-! ### What stays, whatever happens -/

section Keeps

variable {env : Surroundings} {kept : Loc → Node → Prop}

/-- Nothing is kept at or below the location. -/
def Beyond (kept : Loc → Node → Prop) (root : Loc) : Prop :=
  ∀ loc there, kept loc there → ¬ root <+: loc

theorem Beyond.child {root child : Loc} (beyond : Beyond kept root) (below : root <+: child) :
    Beyond kept child := fun loc there member inside => beyond loc there member (below.trans inside)

/-- What is kept survives a removal elsewhere. -/
theorem Holds.erase {w : World} (holds : Holds env kept w) {target : Loc}
    (beyond : Beyond kept target) : Holds env kept { w with fs := w.fs.erase target } := by
  refine ⟨holds.env_eq, fun loc there member => ?_⟩
  have different : loc ≠ target := fun same => beyond loc there member (same ▸ List.prefix_refl _)
  exact (FileSystem.node_erase_ne w.fs different).trans (holds.node_eq loc there member)

theorem keeps_unlink (spares : env.Spares kept) {target : Loc} (beyond : Beyond kept target) :
    Keeps (Holds env kept) (unlink target) := by
  refine Triple.bind (keeps_call spares) fun _ => ?_
  refine Triple.bind (M := fun _ => Holds env kept) (Triple.observe fun _ holds => holds) fun there => ?_
  split
  · exact Triple.update fun _ holds => holds.erase beyond
  · exact Triple.throw fun _ holds => holds

theorem keeps_rmdir (spares : env.Spares kept) {target : Loc} (beyond : Beyond kept target) :
    Keeps (Holds env kept) (rmdir target) := by
  refine Triple.bind (keeps_call spares) fun _ => ?_
  refine Triple.bind (M := fun _ => Holds env kept) (Triple.observe fun _ holds => holds) fun fs => ?_
  exact Triple.ite (fun _ => Triple.update fun _ holds => holds.erase beyond)
    fun _ => Triple.throw fun _ holds => holds

/-- What is listed lies below. -/
theorem prefix_of_child {fs : FileSystem} {loc child : Loc} (member : child ∈ fs.children loc) :
    loc <+: child := by
  obtain ⟨_, _, rfl⟩ := FileSystem.mem_children.mp member
  exact List.dropLast_prefix child

theorem keeps_removeTree (spares : env.Spares kept) (depth : Nat) :
    ∀ {root : Loc}, Beyond kept root → Keeps (Holds env kept) (removeTree depth root) := by
  induction depth with
  | zero => exact fun _ => Triple.throw fun _ holds => holds
  | succ depth ih =>
    intro root beyond
    refine Triple.bind (keeps_call spares) fun _ => ?_
    refine Triple.bind (M := fun _ => Holds env kept) (Triple.observe fun _ holds => holds) fun fs => ?_
    refine Triple.ite (fun _ => ?_) fun _ => Triple.throw fun _ holds => holds
    refine Triple.bind (Triple.forM (fun _ => Holds env kept) fun i inside => ?_) fun _ =>
      keeps_rmdir spares beyond
    have further := beyond.child (prefix_of_child (List.getElem_mem inside))
    exact Triple.ite (fun _ => ih further) fun _ => keeps_unlink spares further

/-- What the calls on a path work on is where the path denotes. -/
theorem keeps_resolved {α : Type} (spares : env.Spares kept) {path : Path} {rest : Loc → Sys α}
    (keeps : ∀ loc, path.lexical env.cwd = some loc → Keeps (Holds env kept) (rest loc)) :
    Keeps (Holds env kept) (resolveNow path >>= rest) := by
  refine Triple.bind ((holds_frame spares).resolveNow path) fun loc => Triple.given fun lexical => ?_
  exact keeps loc lexical

theorem keeps_removeFile (spares : env.Spares kept) {path : Path}
    (elsewhere : ∀ loc, path.lexical env.cwd = some loc → Beyond kept loc) :
    Keeps (Holds env kept) (removeFile path) :=
  keeps_resolved spares fun loc lexical => keeps_unlink spares (elsewhere loc lexical)

/-- **Removing a directory leaves what is elsewhere alone.** -/
theorem keeps_removeDirAll (spares : env.Spares kept) {path : Path}
    (elsewhere : ∀ loc, path.lexical env.cwd = some loc → Beyond kept loc) :
    Keeps (Holds env kept) (removeDirAll path) := by
  refine keeps_resolved spares fun loc lexical => ?_
  refine Triple.bind (M := fun _ => Holds env kept) (Triple.observe fun _ holds => holds) fun _ => ?_
  exact keeps_removeTree spares _ (elsewhere loc lexical)

theorem keeps_metadataIsDir (spares : env.Spares kept) (path : Path) :
    Keeps (Holds env kept) (metadataIsDir path) := by
  refine Triple.bind (keeps_call spares) fun _ => ?_
  refine Triple.bind (M := fun _ => Holds env kept) ?_ fun _ => Triple.observe fun _ holds => holds
  refine keeps_resolved spares fun loc _ => ?_
  refine Triple.bind (M := fun _ => Holds env kept) (Triple.observe fun _ holds => holds) fun _ => ?_
  exact Triple.ite (fun _ => Triple.pure fun _ holds => holds) fun _ => Triple.throw fun _ holds => holds

end Keeps

/-! ### What goes, when nothing fails -/

/-- The tree is `fs`, but for the locations that are gone. -/
structure Cut (env : Surroundings) (fs : FileSystem) (gone : Loc → Prop) (w : World) : Prop where
  env_eq : w.env = env
  gone_eq : ∀ loc, gone loc → w.fs.node loc = none
  node_eq : ∀ loc, ¬ gone loc → w.fs.node loc = fs.node loc

section Calm

variable {env : Surroundings} {fs : FileSystem}

theorem Stands.cut {w : World} (stands : Stands env fs w) : Cut env fs (fun _ => False) w := by
  obtain ⟨rfl, rfl⟩ := stands
  exact ⟨rfl, fun _ none => none.elim, fun _ _ => rfl⟩

/-- Two cuts are one. -/
theorem Cut.trans {between : FileSystem} {first second : Loc → Prop} {w : World}
    (cut : ∀ loc, (first loc → between.node loc = none) ∧ (¬ first loc → between.node loc = fs.node loc))
    (further : Cut env between second w) : Cut env fs (fun loc => first loc ∨ second loc) w := by
  refine ⟨further.env_eq, fun loc gone => ?_, fun loc stays => ?_⟩
  · by_cases late : second loc
    · exact further.gone_eq loc late
    · rw [further.node_eq loc late]
      exact (cut loc).1 (gone.resolve_right late)
  · rw [not_or] at stays
    rw [further.node_eq loc stays.2]
    exact (cut loc).2 stays.1

/-- The same locations are gone. -/
theorem Cut.congr {gone others : Loc → Prop} {w : World} (cut : Cut env fs gone w)
    (same : ∀ loc, gone loc ↔ others loc) : Cut env fs others w :=
  ⟨cut.env_eq, fun loc isGone => cut.gone_eq loc ((same loc).mpr isGone),
    fun loc stays => cut.node_eq loc fun isGone => stays ((same loc).mp isGone)⟩

/-- Erasing an entry with nothing in it cuts off what is at or below it. -/
theorem cut_erase {w : World} (stands : Stands env fs w) {loc : Loc} (bare : fs.Bare loc) :
    Cut env fs (loc <+: ·) { w with fs := w.fs.erase loc } := by
  obtain ⟨rfl, rfl⟩ := stands
  refine ⟨rfl, fun other below => ?_, fun other elsewhere => ?_⟩
  · obtain ⟨rest, rfl⟩ := below
    by_cases here : rest = []
    · rw [here, List.append_nil]
      exact FileSystem.node_erase_same bare
    · show (w.fs.erase loc).node (loc ++ rest) = none
      rw [FileSystem.node_erase_ne _ (by simpa using here)]
      -- the first entry of the way down would be a child
      by_contra present
      obtain ⟨there, found⟩ := Option.ne_none_iff_exists'.mp present
      obtain ⟨name, rest, rfl⟩ := List.exists_cons_of_ne_nil here
      have child : (w.fs.node (loc ++ [name])).isSome := by
        by_cases last : rest = []
        · rw [last] at found
          rw [found]
          rfl
        · have split : loc ++ name :: rest = loc ++ [name] ++ rest := by simp
          rw [split] at found
          rw [FileSystem.isDir_prefix rest last found]
          rfl
      have listed : loc ++ [name] ∈ w.fs.children loc :=
        FileSystem.mem_children.mpr ⟨child, by simp, List.dropLast_concat⟩
      rw [bare.2] at listed
      cases listed
  · exact FileSystem.node_erase_ne _ fun same => elsewhere (same ▸ List.prefix_refl _)

theorem calm_unlink (calm : env.Calm) {loc : Loc} {content : Bytes}
    (found : fs.content loc = some content) :
    Triple (Stands env fs) (unlink loc) (fun _ => Cut env fs (loc <+: ·)) Never := by
  obtain ⟨modified, there⟩ := FileSystem.content_eq_some.mp found
  refine Triple.bind (calm_call calm) fun _ => Triple.given fun _ => ?_
  refine Triple.bind (stands_observe (a := fs.node loc) ?_) fun seen => Triple.given fun isSeen => ?_
  · rintro w ⟨rfl, rfl⟩
    rfl
  · rw [isSeen, there]
    exact Triple.update fun w stands => cut_erase stands (FileSystem.bare_of_file there)

theorem calm_rmdir (calm : env.Calm) {loc : Loc} (isDir : fs.IsDir loc) (bare : fs.Bare loc) :
    Triple (Stands env fs) (rmdir loc) (fun _ => Cut env fs (loc <+: ·)) Never := by
  refine Triple.bind (calm_call calm) fun _ => Triple.given fun _ => ?_
  refine Triple.bind (stands_observe (a := fs) fun _ stands => stands.fs_eq) fun seen => ?_
  refine Triple.given fun isSeen => ?_
  subst isSeen
  exact Triple.ite (fun _ => Triple.update fun w stands => cut_erase stands bare)
    fun blocked => absurd ⟨isDir, bare⟩ blocked

/-- The locations of a tree at or below one of them are less deep than this. -/
def FileSystem.DepthBelow (fs : FileSystem) (root : Loc) (depth : Nat) : Prop :=
  ∀ below, (fs.node (root ++ below)).isSome → below.length < depth

/-- What is cut off with some entries of a list. -/
def UnderOneOf (cut : List Loc) (loc : Loc) : Prop := ∃ entry ∈ cut, entry <+: loc

/-- What lies below one entry of a directory lies below no other. -/
theorem child_unique {seen : FileSystem} {root first second loc : Loc} (one : first ∈ seen.children root)
    (other : second ∈ seen.children root) (below : first <+: loc) (under : second <+: loc) :
    first = second := by
  obtain ⟨_, nonempty, isParent⟩ := FileSystem.mem_children.mp one
  obtain ⟨_, nonempty', isParent'⟩ := FileSystem.mem_children.mp other
  have size : first.length = second.length := by
    have drop := congrArg List.length (isParent.trans isParent'.symm)
    rw [List.length_dropLast, List.length_dropLast] at drop
    have := List.length_pos_of_ne_nil nonempty
    have := List.length_pos_of_ne_nil nonempty'
    omega
  exact (List.prefix_of_prefix_length_le below under (Nat.le_of_eq size)).eq_of_length size

/-- One entry of a directory, when those before it are gone. -/
theorem cut_child {root : Loc} {i : Nat} (inside : i < (fs.children root).length)
    {remove : Sys Unit}
    (removes : ∀ between : FileSystem,
      (∀ below, between.node ((fs.children root)[i] ++ below) = fs.node ((fs.children root)[i] ++ below)) →
        Triple (Stands env between) remove (fun _ => Cut env between ((fs.children root)[i] <+: ·)) Never) :
    Triple (Cut env fs (UnderOneOf ((fs.children root).take i))) remove
      (fun _ => Cut env fs (UnderOneOf ((fs.children root).take (i + 1)))) Never := by
  intro w cut
  have member : (fs.children root)[i] ∈ fs.children root := List.getElem_mem inside
  have apart (below : Loc) : ¬ UnderOneOf ((fs.children root).take i) ((fs.children root)[i] ++ below) := by
    rintro ⟨entry, earlier, under⟩
    have same := child_unique (List.mem_of_mem_take earlier) member under (List.prefix_append _ _)
    obtain ⟨j, less, isEntry⟩ := List.mem_take_iff_getElem.mp earlier
    have position := (fs.children_nodup root).getElem_inj_iff.mp (isEntry.trans same)
    omega
  refine ((removes w.fs fun below => cut.node_eq _ (apart below)).post fun _ w' further => ?_) w
    ⟨cut.env_eq, rfl⟩
  refine (Cut.trans (fun loc => ⟨cut.gone_eq loc, cut.node_eq loc⟩) further).congr fun loc => ?_
  rw [← List.take_concat_get' _ _ inside]
  simp only [UnderOneOf, List.mem_append, List.mem_singleton, or_and_right, exists_or, exists_eq_left]

/-- **Removing a tree** that is less deep than the recursion may go. -/
theorem calm_removeTree (calm : env.Calm) (depth : Nat) :
    ∀ {fs : FileSystem} {root : Loc}, root ≠ [] → fs.IsDir root → fs.DepthBelow root depth →
      Triple (Stands env fs) (removeTree depth root) (fun _ => Cut env fs (root <+: ·)) Never := by
  induction depth with
  | zero =>
    intro fs root _ isDir shallow
    have here : (fs.node (root ++ [])).isSome := by
      rw [List.append_nil, isDir]
      rfl
    exact absurd (shallow [] here) (Nat.lt_irrefl 0)
  | succ depth ih =>
    intro fs root nonempty isDir shallow
    refine Triple.bind (calm_call calm) fun _ => Triple.given fun _ => ?_
    refine Triple.bind (stands_observe (a := fs) fun _ stands => stands.fs_eq) fun seen => ?_
    refine Triple.given fun isSeen => ?_
    subst isSeen
    refine Triple.ite (fun _ => ?_) fun blocked => absurd isDir blocked
    refine Triple.bind (M := fun _ => Cut env seen (UnderOneOf (seen.children root))) ?_ fun _ => ?_
    · have loop : Triple (Cut env seen (UnderOneOf ((seen.children root).take 0)))
          ((seen.children root).forM fun child =>
            if seen.IsDir child then removeTree depth child else unlink child)
          (fun _ => Cut env seen (UnderOneOf ((seen.children root).take (seen.children root).length)))
          Never := by
        refine Triple.forM (fun i => Cut env seen (UnderOneOf ((seen.children root).take i)))
          fun i inside => cut_child inside fun between sameBelow => ?_
        obtain ⟨found, childNonempty, isParent⟩ :=
          FileSystem.mem_children.mp (List.getElem_mem inside)
        have sameHere : between.node (seen.children root)[i] = seen.node (seen.children root)[i] := by
          simpa using sameBelow []
        refine Triple.ite (fun childIsDir => ?_) fun noDir => ?_
        · refine ih childNonempty (sameHere.trans childIsDir) fun below present => ?_
          rw [sameBelow] at present
          have split : (seen.children root)[i] ++ below =
              root ++ ((seen.children root)[i].getLast childNonempty :: below) := by
            have whole := (seen.children root)[i].dropLast_append_getLast childNonempty
            rw [isParent] at whole
            rw [List.append_cons, whole]
          rw [split] at present
          exact Nat.lt_of_succ_lt_succ (shallow _ present)
        · obtain ⟨there, isThere⟩ := Option.isSome_iff_exists.mp found
          cases there with
          | dir => exact absurd isThere noDir
          | file content modified =>
            exact calm_unlink calm (FileSystem.content_eq_some.mpr ⟨modified, sameHere.trans isThere⟩)
      rw [List.take_length] at loop
      refine loop.pre fun w stands => stands.cut.congr fun loc => ?_
      simp [UnderOneOf]
    · -- nothing is left in the directory
      intro w cut
      have rootStays : ¬ UnderOneOf (seen.children root) root := by
        rintro ⟨entry, member, under⟩
        obtain ⟨_, entryNonempty, rfl⟩ := FileSystem.mem_children.mp member
        have size := under.length_le
        have := List.length_pos_of_ne_nil entryNonempty
        rw [List.length_dropLast] at size
        omega
      have isDirStill : w.fs.IsDir root := (cut.node_eq root rootStays).trans isDir
      have bare : w.fs.Bare root := by
        refine ⟨nonempty, List.eq_nil_iff_forall_not_mem.mpr fun entry member => ?_⟩
        obtain ⟨found, entryNonempty, isParent⟩ := FileSystem.mem_children.mp member
        by_cases under : UnderOneOf (seen.children root) entry
        · rw [cut.gone_eq entry under] at found
          cases found
        · rw [cut.node_eq entry under] at found
          exact under ⟨entry, FileSystem.mem_children.mpr ⟨found, entryNonempty, isParent⟩,
            List.prefix_refl _⟩
      refine ((calm_rmdir calm isDirStill bare).post fun _ w' further => ?_) w ⟨cut.env_eq, rfl⟩
      refine (Cut.trans (fun loc => ⟨cut.gone_eq loc, cut.node_eq loc⟩) further).congr fun loc => ?_
      refine ⟨fun gone => gone.elim (fun ⟨entry, member, under⟩ => ?_) id, Or.inr⟩
      exact (prefix_of_child member).trans under

/-- No location of a tree is deeper than the tree has entries. -/
theorem depthBelow_entries (fs : FileSystem) (root : Loc) :
    fs.DepthBelow root (fs.nodes.keys.length + 1) := by
  intro below present
  -- the locations on the way down are entries, and no two of them are the same
  have listed : ((List.range below.length).map fun k => root ++ below.take (k + 1)) ⊆ fs.nodes.keys := by
    intro loc member
    obtain ⟨k, inside, rfl⟩ := List.mem_map.mp member
    have inside := List.mem_range.mp inside
    obtain ⟨there, found⟩ := Option.isSome_iff_exists.mp present
    have nonempty : root ++ below.take (k + 1) ≠ [] := by
      intro empty
      have size := congrArg List.length empty
      rw [List.length_append, List.length_take, List.length_nil] at size
      omega
    rw [← AList.mem_keys, ← AList.lookup_isSome, ← fs.node_of_ne_root nonempty]
    by_cases all : below.drop (k + 1) = []
    · have whole : below.take (k + 1) = below := List.take_of_length_le (List.drop_eq_nil_iff.mp all)
      rw [whole, found]
      rfl
    · have split : root ++ below = root ++ below.take (k + 1) ++ below.drop (k + 1) := by
        rw [List.append_assoc, List.take_append_drop]
      rw [split] at found
      rw [FileSystem.isDir_prefix _ all found]
      rfl
  have distinct : ((List.range below.length).map fun k => root ++ below.take (k + 1)).Nodup := by
    refine List.Nodup.map_on (fun k inside l inside' same => ?_) List.nodup_range
    have inside := List.mem_range.mp inside
    have inside' := List.mem_range.mp inside'
    have size := congrArg List.length same
    simp only [List.length_append, List.length_take] at size
    omega
  have count := (List.subperm_of_subset distinct listed).length_le
  rw [List.length_map, List.length_range] at count
  exact Nat.lt_succ_of_le count

theorem calm_removeFile (calm : env.Calm) {path : Path} {loc : Loc} {content : Bytes}
    (leads : fs.resolve env.cwd path = some loc) (found : fs.content loc = some content) :
    Triple (Stands env fs) (removeFile path) (fun _ => Cut env fs (loc <+: ·)) Never := by
  refine Triple.bind (calm_resolveNow leads) fun target => Triple.given fun same => ?_
  subst same
  exact calm_unlink calm found

/-- **Removing a directory** removes what is at or below it. -/
theorem calm_removeDirAll (calm : env.Calm) {path : Path} {loc : Loc}
    (leads : fs.resolve env.cwd path = some loc) (below : loc ≠ []) (isDir : fs.IsDir loc) :
    Triple (Stands env fs) (removeDirAll path) (fun _ => Cut env fs (loc <+: ·)) Never := by
  refine Triple.bind (calm_resolveNow leads) fun target => Triple.given fun same => ?_
  subst same
  refine Triple.bind (stands_observe (a := fs.nodes.keys.length) ?_) fun entries =>
    Triple.given fun isCount => ?_
  · rintro w ⟨rfl, rfl⟩
    rfl
  · subst isCount
    exact calm_removeTree calm _ below isDir (depthBelow_entries fs target)

theorem calm_resolveExisting {path : Path} {loc : Loc} {there : Node}
    (leads : fs.resolve env.cwd path = some loc) (found : fs.node loc = some there) :
    Triple (Stands env fs) (resolveExisting path) (fun target w => target = loc ∧ Stands env fs w)
      Never := by
  refine Triple.bind (calm_resolveNow leads) fun target => Triple.given fun same => ?_
  subst same
  refine Triple.bind (stands_observe (a := some there) ?_) fun seen => Triple.given fun isSeen => ?_
  · rintro w ⟨rfl, rfl⟩
    exact found
  · subst isSeen
    exact Triple.pure fun _ stands => ⟨rfl, stands⟩

theorem calm_metadataIsDir (calm : env.Calm) {path : Path} {loc : Loc} {there : Node}
    (leads : fs.resolve env.cwd path = some loc) (found : fs.node loc = some there) :
    Triple (Stands env fs) (metadataIsDir path)
      (fun answer w => answer = decide (fs.IsDir loc) ∧ Stands env fs w) Never := by
  refine Triple.bind (calm_call calm) fun _ => Triple.given fun _ => ?_
  refine Triple.bind (calm_resolveExisting leads found) fun target => Triple.given fun same => ?_
  subst same
  refine stands_observe ?_
  rintro w ⟨rfl, rfl⟩
  rfl

end Calm

end SendRs
