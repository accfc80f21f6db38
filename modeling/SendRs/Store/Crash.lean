/-
**What a crash leaves of a saved value.**

`fs::write` truncates the file and then writes its bytes, so a process that is killed in between
leaves a part of them. `Surroundings.killedAt` kills the process at one of its calls, before the call
or after so many bytes of it. A `Saving` says what was completely written by then, and which write
had not returned.

Result: `savedJson_survives_iff`. After a run of `execute_local_transfer`, of `append_history` or of
`pair_peer` that was killed anywhere, the next load returns the value before or after the interrupted
save exactly when that save was not cut short (`Saving.Torn`).

* `fsWrite_onDisk` says what one write leaves on the disk;
* `watchedCheckpoint_onDisk` and the rule for whole runs (`RunFrame.watchedFiles`) carry it through a
  transfer, from one save to the next;
* `Saving.survives_iff` compares what is on the disk with what is loaded.
-/

import SendRs.Store.History
import SendRs.Store.Json
import SendRs.Transfer.Checkpoints
import SendRs.Transfer.Frame

namespace SendRs

open Effect Cli

/-- The process is killed at call `k`, and whatever it would call afterwards has no effect. -/
def Surroundings.killedAt (base : Surroundings) (k : Nat) (cut : Fault) : Surroundings :=
  { base with turns := fun j =>
      if j < k then base.turns j
      else { base.turns j with fault := some (if j = k then cut else .before) } }

/-- What was written of a value, and what was being written: `before` is the last value whose write
was completed, `pending` the one whose write has not returned, with the failure of its call. -/
structure Saving (α : Type) where
  before : Option α
  pending : Option (α × Option Fault)

section Saving

variable {α : Type} {codec : JsonCodec α}

/-- The write that had truncated the file when it was interrupted, and how many bytes it had
written. -/
def Saving.cut (saving : Saving α) : Option (α × Nat) :=
  match saving.pending with
  | some (next, some (.after n)) => some (next, n)
  | _ => none

/-- A write was cut short after it had truncated the file. -/
def Saving.Torn (codec : JsonCodec α) (saving : Saving α) : Prop :=
  ∃ next n, saving.cut = some (next, n) ∧ n < (codec.body next).length

/-- The value before or after the interrupted save is loaded. -/
def Saving.Survives (saving : Saving α) (loaded : Option α) : Prop :=
  loaded.isSome ∧ (loaded = saving.before ∨ loaded = saving.pending.map Prod.fst)

/-- The bytes that are on the disk, once a value was written. -/
def Saving.bytes (codec : JsonCodec α) (saving : Saving α) : Option Bytes :=
  saving.before.map fun value =>
    match saving.cut with
    | some (next, n) => (codec.body next).take n
    | none => codec.body value

/-- What the bytes of a file are read as. -/
def JsonCodec.parse (codec : JsonCodec α) (bytes : Bytes) : Option α :=
  (toStr bytes).bind codec.decode

theorem JsonCodec.Faithful.parse_body (faithful : codec.Faithful) (value : α) :
    codec.parse (codec.body value) = some value := by
  rw [JsonCodec.parse, JsonCodec.body, toStr_utf8]
  exact faithful.roundTrip value

theorem JsonCodec.Faithful.parse_torn (faithful : codec.Faithful) {value : α} {n : Nat}
    (short : n < (codec.body value).length) : codec.parse ((codec.body value).take n) = none := by
  unfold JsonCodec.parse
  cases spelled : toStr ((codec.body value).take n) with
  | none => rfl
  | some s => exact faithful.torn value n s short spelled

/-- What was cut is what was pending. -/
theorem Saving.pending_of_cut {saving : Saving α} {next : α} {n : Nat}
    (isCut : saving.cut = some (next, n)) : saving.pending = some (next, some (.after n)) := by
  unfold Saving.cut at isCut
  split at isCut
  · next isPending =>
    cases isCut
    exact isPending
  · cases isCut

/-- **What is loaded from what is on the disk** is the value before or after the interrupted save
exactly when that was not cut short. -/
theorem Saving.survives_iff (faithful : codec.Faithful) {saving : Saving α}
    (written : saving.before.isSome) :
    saving.Survives ((saving.bytes codec).bind codec.parse) ↔ ¬ saving.Torn codec := by
  obtain ⟨value, isBefore⟩ := Option.isSome_iff_exists.mp written
  rw [Saving.bytes, isBefore, Option.map_some, Option.bind_some]
  cases isCut : saving.cut with
  | none =>
    refine iff_of_true ?_ ?_
    · rw [faithful.parse_body]
      exact ⟨rfl, Or.inl isBefore.symm⟩
    · rintro ⟨next, n, isCut', _⟩
      rw [isCut] at isCut'
      cases isCut'
  | some cut =>
    obtain ⟨next, n⟩ := cut
    have isPending := Saving.pending_of_cut isCut
    by_cases short : n < (codec.body next).length
    · refine iff_of_false (fun outcome => ?_) fun whole => whole ⟨next, n, isCut, short⟩
      have nothing := outcome.1
      dsimp only at nothing
      rw [faithful.parse_torn short] at nothing
      cases nothing
    · refine iff_of_true ?_ ?_
      · dsimp only
        rw [List.take_of_length_le (Nat.le_of_not_lt short), faithful.parse_body]
        exact ⟨rfl, Or.inr (by rw [isPending]; rfl)⟩
      · rintro ⟨next', n', isCut', short'⟩
        rw [isCut] at isCut'
        cases isCut'
        exact short short'

end Saving

/-! ### Loading -/

section Loading

variable {α : Type} {codec : JsonCodec α} {env : Surroundings} {fs : FileSystem} {path : Path}
  {loc : Loc} {bytes : Bytes}

/-- What the three loads have in common: the text of a file is read and decoded. -/
def loadText (codec : JsonCodec α) (reading parsing : String) (path : Path) : Sys α := do
  let body ← withContext reading (readToString path)
  withContext parsing (fromStr codec body)

/-- A load in calm surroundings returns what the bytes are read as. -/
theorem calm_loadText (calm : env.Calm) (leads : fs.resolve env.cwd path = some loc)
    (found : fs.content loc = some bytes) (reading parsing : String) :
    Triple (Stands env fs) (loadText codec reading parsing path)
      (fun value _ => codec.parse bytes = some value) (fun _ _ => codec.parse bytes = none) := by
  have reads : Triple (Stands env fs) (readToString path)
      (fun s _ => toStr bytes = some s ∧ True) (fun _ _ => codec.parse bytes = none) := by
    refine Triple.bind ((calm_call calm).conseq (fun _ stands => stands) (fun _ _ holds => holds)
      fun _ _ impossible => impossible.elim) fun _ => Triple.given fun _ => ?_
    refine Triple.bind ((calm_resolveNow leads).conseq (fun _ stands => stands)
      (fun _ _ holds => holds) fun _ _ impossible => impossible.elim) fun target => ?_
    refine Triple.given fun same => ?_
    subst same
    refine Triple.bind (stands_observe (a := some bytes) ?_) fun there => Triple.given fun isThere => ?_
    · rintro w ⟨rfl, rfl⟩
      exact found
    · subst isThere
      dsimp only
      cases spelled : toStr bytes with
      | none => exact Triple.throw fun _ _ => by rw [JsonCodec.parse, spelled]; rfl
      | some s => exact Triple.pure fun _ _ => ⟨rfl, trivial⟩
  refine Triple.bind (Triple.context reads) fun s => Triple.given fun spelled => ?_
  have parsed : codec.parse bytes = codec.decode s := by
    rw [JsonCodec.parse, spelled]
    rfl
  rw [parsed, fromStr]
  cases codec.decode s with
  | none => exact Triple.context (Triple.throw fun _ _ => rfl)
  | some value => exact Triple.context (Triple.pure fun _ _ => rfl)

/-- A load that asks first whether there is a file. -/
theorem calm_loadIfThere (calm : env.Calm) (leads : fs.resolve env.cwd path = some loc)
    (found : fs.content loc = some bytes) {load : Sys α} {default : α} {after : α → World → Prop}
    {failed : Error → World → Prop} (loads : Triple (Stands env fs) load after failed) :
    Triple (Stands env fs)
      (do
        let there ← pathExists path
        if there then load else pure default) after failed := by
  refine Triple.bind ((calm_pathExists calm path).conseq (fun _ stands => stands)
    (fun _ _ holds => holds) fun _ _ impossible => impossible.elim) fun there => ?_
  refine Triple.given fun isThere => ?_
  obtain ⟨modified, node⟩ := FileSystem.content_eq_some.mp found
  rw [leads, Option.bind_some, node] at isThere
  rw [isThere]
  exact loads

/-- **`load_manifest`** returns what the bytes of the file are read as. -/
theorem loadManifest_returns {codec : JsonCodec TransferManifest} (calm : env.Calm)
    (leads : fs.resolve env.cwd path = some loc) (found : fs.content loc = some bytes) :
    returned (loadManifest codec path) ⟨env, fs, 0⟩ = codec.parse bytes :=
  returned_eq (calm_loadText calm leads found "read manifest" "parse manifest" _ ⟨rfl, rfl⟩)

/-- **`load_history`** returns what the bytes of the file are read as. -/
theorem loadHistory_returns {codec : JsonCodec (List TransferHistoryEntry)} (calm : env.Calm)
    (leads : fs.resolve env.cwd path = some loc) (found : fs.content loc = some bytes) :
    returned (loadHistory codec path) ⟨env, fs, 0⟩ = codec.parse bytes :=
  returned_eq (calm_loadIfThere calm leads found
    (calm_loadText calm leads found "read json" "parse json") _ ⟨rfl, rfl⟩)

/-- **`load_trust_store`** returns what the bytes of the file are read as. -/
theorem loadTrustStore_returns {codec : JsonCodec TrustStore} (calm : env.Calm)
    (leads : fs.resolve env.cwd path = some loc) (found : fs.content loc = some bytes) :
    returned (loadTrustStore codec path) ⟨env, fs, 0⟩ = codec.parse bytes :=
  returned_eq (calm_loadIfThere calm leads found
    (calm_loadText calm leads found "read trust store" "parse trust store") _ ⟨rfl, rfl⟩)

end Loading

/-! ### The file on the disk -/

/-- Nobody else writes the file that the path denotes, or moves a directory on its way. -/
structure Guarded (env : Surroundings) (path : Path) (loc : Loc) : Prop where
  lexical : path.lexical env.cwd = some loc
  spared : env.SparesLoc loc
  way : ∀ stop ∈ stops (path.start env.cwd) path.pieces, env.SparesLoc stop

/-- The path leads to a file with these bytes, if any are known. -/
structure OnDisk (env : Surroundings) (path : Path) (loc : Loc) (bytes : Option Bytes) (w : World) :
    Prop where
  env_eq : w.env = env
  way : ∀ content, bytes = some content →
    ∀ stop ∈ stops (path.start env.cwd) path.pieces, w.fs.IsDir stop
  there : ∀ content, bytes = some content → w.fs.content loc = some content

section OnDisk

variable {α : Type} {codec : JsonCodec α} {env : Surroundings} {path : Path} {loc : Loc}
  {bytes : Option Bytes}

theorem Guarded.killedAt (guarded : Guarded env path loc) (k : Nat) (cut : Fault) :
    Guarded (env.killedAt k cut) path loc := by
  have spares {other : Loc} (spared : env.SparesLoc other) : (env.killedAt k cut).SparesLoc other := by
    intro j fs
    unfold Surroundings.killedAt
    by_cases earlier : j < k
    · simp only [earlier, if_true]
      exact spared j fs
    · simp only [earlier, if_false]
      exact spared j fs
  exact ⟨guarded.lexical, spares guarded.spared, fun stop member => spares (guarded.way stop member)⟩

/-- Nothing is known of the file. -/
theorem onDisk_none {w : World} (sameEnv : w.env = env) : OnDisk env path loc none w :=
  ⟨sameEnv, fun _ impossible => (nomatch impossible), fun _ impossible => (nomatch impossible)⟩

/-- The path leads to the file. -/
theorem OnDisk.leads (guarded : Guarded env path loc) {w : World} {content : Bytes}
    (onDisk : OnDisk env path loc (some content) w) : w.fs.resolve env.cwd path = some loc :=
  (FileSystem.walk_eq_some path.pieces).mpr ⟨guarded.lexical, onDisk.way content rfl⟩

/-- A put leaves the directories on the way, and a put elsewhere leaves the file. -/
theorem OnDisk.put {w : World} (onDisk : OnDisk env path loc bytes w) {target : Loc} {new : Node}
    (elsewhere : target ≠ loc) : OnDisk env path loc bytes { w with fs := w.fs.put target new } := by
  refine ⟨onDisk.env_eq, fun content isContent stop member => ?_, fun content isContent => ?_⟩
  · exact FileSystem.isDir_put (onDisk.way content isContent stop member)
  · show FileSystem.content (w.fs.put target new) loc = _
    rw [FileSystem.content, FileSystem.node_put_ne _ (Ne.symm elsewhere), ← FileSystem.content]
    exact onDisk.there content isContent

theorem onDisk_turn (guarded : Guarded env path loc) : Keeps (OnDisk env path loc bytes) turn := by
  rintro w ⟨rfl, way, there⟩
  refine ⟨rfl, fun content isContent stop member => ?_, fun content isContent => ?_⟩
  · exact (guarded.way stop member w.clock w.fs).trans (way content isContent stop member)
  · show FileSystem.content ((w.env.turns w.clock).edit w.fs) loc = _
    rw [FileSystem.content, guarded.spared w.clock w.fs, ← FileSystem.content]
    exact there content isContent

/-- **Anything may be created, and any other file may be written.** -/
theorem onDisk_frame (guarded : Guarded env path loc) :
    Frame env (OnDisk env path loc bytes) (fun _ => True) (· ≠ loc) := by
  refine ⟨fun _ onDisk => onDisk.env_eq, onDisk_turn guarded, ?_, ?_⟩
  · intro w target new _ absent onDisk
    by_cases same : target = loc
    · -- nothing is known of a file that is not there
      subst same
      refine ⟨onDisk.env_eq, fun content isContent => ?_, fun content isContent => ?_⟩
      all_goals
        have there := onDisk.there content isContent
        rw [FileSystem.content, absent] at there
        cases there
    · exact onDisk.put same
  · exact fun w target content k elsewhere onDisk => onDisk.put elsewhere

/-- A file that is put where the path leads is on the disk. -/
theorem onDisk_put {w : World} (sameEnv : w.env = env) (leads : w.fs.resolve env.cwd path = some loc)
    (free : w.fs.Free loc) (content : Bytes) (modified : Int) :
    OnDisk env path loc (some content) { w with fs := w.fs.put loc (.file content modified) } := by
  refine ⟨sameEnv, fun _ _ stop member => ?_, fun other same => ?_⟩
  · exact FileSystem.isDir_put (((FileSystem.walk_eq_some path.pieces).mp leads).2 stop member)
  · cases same
    exact FileSystem.content_eq_some.mpr ⟨modified, FileSystem.node_put_same free _⟩

/-- **What one write leaves on the disk**, whether it returns or fails. -/
theorem fsWrite_onDisk (guarded : Guarded env path loc) (stored : Option α) (value : α)
    (clock : Nat) :
    Triple (fun w => w.clock = clock ∧ OnDisk env path loc (stored.map codec.body) w)
      (fsWrite path (codec.body value))
      (fun _ => OnDisk env path loc (some (codec.body value)))
      (fun _ => OnDisk env path loc
        (Saving.bytes codec ⟨stored, some (value, (env.turns clock).fault)⟩)) := by
  -- a write that had not truncated the file
  have untouched {fault : Option Fault} (whole : ∀ n, fault ≠ some (.after n)) :
      Saving.bytes codec ⟨stored, some (value, fault)⟩ = stored.map codec.body := by
    unfold Saving.bytes Saving.cut
    match fault with
    | some (.after n) => exact absurd rfl (whole n)
    | some .before => rfl
    | none => rfl
  refine Triple.bind (M := fun t w => t = env.turns clock ∧ OnDisk env path loc (stored.map codec.body) w)
    ?_ fun t => Triple.given fun drawn => ?_
  · rintro w ⟨rfl, onDisk⟩
    exact ⟨by rw [← onDisk.env_eq], onDisk_turn guarded w onDisk⟩
  subst drawn
  refine Triple.ite (fun early => Triple.throw fun w onDisk => ?_) fun _ => ?_
  · rwa [untouched fun n late => by rw [early] at late; cases late]
  -- where the path leads, if it does
  refine Triple.bind (M := fun target w => target = loc ∧ w.fs.resolve env.cwd path = some loc ∧
    OnDisk env path loc (stored.map codec.body) w) ?_ fun target => Triple.given fun same => ?_
  · refine Triple.bind (M := fun found w => found = w.fs.resolve env.cwd path ∧
      OnDisk env path loc (stored.map codec.body) w) (Triple.observe fun w onDisk =>
        ⟨by rw [onDisk.env_eq], onDisk⟩) fun found => ?_
    cases found with
    | none =>
      refine Triple.throw fun w ⟨nowhere, onDisk⟩ => ?_
      -- a file that is known is found
      cases stored with
      | none => exact onDisk_none onDisk.env_eq
      | some last =>
        rw [onDisk.leads guarded] at nowhere
        cases nowhere
    | some target =>
      refine Triple.pure fun w ⟨leads, onDisk⟩ => ?_
      have denotes : path.lexical env.cwd = some target := FileSystem.lexical_of_resolve leads.symm
      obtain rfl := Option.some.inj (denotes.symm.trans guarded.lexical)
      exact ⟨rfl, leads.symm, onDisk⟩
  subst same
  refine Triple.bind (M := fun fs w => fs = w.fs ∧ w.fs.resolve env.cwd path = some target ∧
    OnDisk env path target (stored.map codec.body) w)
    (Triple.observe fun w holds => ⟨rfl, holds⟩) fun fs => ?_
  refine Triple.ite (fun free => ?_) fun blocked => Triple.throw fun w ⟨isTree, _, onDisk⟩ => ?_
  · match fault : (env.turns clock).fault with
    | some (.after n) =>
      refine Triple.bind (M := fun _ => OnDisk env path target (some ((codec.body value).take n)))
        (Triple.update ?_) fun _ => Triple.throw fun w onDisk => ?_
      · rintro w ⟨rfl, leads, onDisk⟩
        exact onDisk_put onDisk.env_eq leads free _ _
      · cases stored with
        | none => exact onDisk_none onDisk.env_eq
        | some last => exact onDisk
    | some .before =>
      refine Triple.update ?_
      rintro w ⟨rfl, leads, onDisk⟩
      exact onDisk_put onDisk.env_eq leads free _ _
    | none =>
      refine Triple.update ?_
      rintro w ⟨rfl, leads, onDisk⟩
      exact onDisk_put onDisk.env_eq leads free _ _
  · -- what is known to be a file may be replaced
    cases stored with
    | none => exact onDisk_none onDisk.env_eq
    | some last =>
      subst isTree
      exact absurd (free_of_content (onDisk.there _ rfl)) blocked

end OnDisk

/-! ### Programs that save once -/

section Once

variable {α β : Type} {codec : JsonCodec α} {env : Surroundings} {path : Path} {loc : Loc}
  {bytes : Option Bytes}

/-- What is saved by a program that prepares a value and then writes it. -/
def savingOf (codec : JsonCodec α) (path : Path) (stored : Option α) (prepare : Sys β)
    (value : β → α) (w : World) : Saving α :=
  match prepare w with
  | .error _ _ => ⟨stored, none⟩
  | .ok b w' =>
    match fsWrite path (codec.body (value b)) w' with
    | .ok _ _ => ⟨some (value b), none⟩
    | .error _ _ => ⟨stored, some (value b, (w'.env.turns w'.clock).fault)⟩

/-- What such a program leaves on the disk. -/
theorem savingOf_onDisk (guarded : Guarded env path loc) {stored : Option α} {prepare : Sys β}
    (keeps : Keeps (OnDisk env path loc (stored.map codec.body)) prepare) {value : β → α}
    {w w' : World} (start : OnDisk env path loc (stored.map codec.body) w)
    (ends : (∃ e, prepare w = .error e w') ∨ ∃ b between, prepare w = .ok b between ∧
      Ends (fsWrite path (codec.body (value b))) between w') :
    OnDisk env path loc ((savingOf codec path stored prepare value w).bytes codec) w' := by
  have prepared := keeps w start
  unfold savingOf
  rcases ends with ⟨e, run⟩ | ⟨b, between, run, ends⟩
  · rw [run] at prepared ⊢
    exact prepared
  · rw [run] at prepared ⊢
    have written := fsWrite_onDisk guarded stored (value b) between.clock between ⟨rfl, prepared⟩
    have sameEnv : between.env = env := prepared.env_eq
    rcases ends with ⟨_, run⟩ | ⟨e, run⟩
    · simp only [run] at written ⊢
      exact written
    · simp only [run, sameEnv] at written ⊢
      exact written

/-- `append_history` up to the write. -/
def prepareHistory (codec : JsonCodec (List TransferHistoryEntry)) (path : Path)
    (entry : TransferHistoryEntry) : Sys (List TransferHistoryEntry) := do
  let entries ← loadHistory codec path
  createJsonParent path
  pure (entries ++ [entry])

theorem appendHistory_eq (codec : JsonCodec (List TransferHistoryEntry)) (path : Path)
    (entry : TransferHistoryEntry) : appendHistory codec path entry =
      prepareHistory codec path entry >>= fun entries =>
        withContext "write json" (fsWrite path (codec.body entries)) := by
  simp only [appendHistory, prepareHistory, writeJson, bind_assoc, pure_bind]

variable {inv : World → Prop} {places files : Loc → Prop}

/-- Loading keeps what only looking keeps. -/
theorem Frame.loadIfThere (frame : Frame env inv places files) {codec : JsonCodec α} {path : Path}
    {default : α} {reading parsing : String} :
    Keeps inv (do
      let there ← pathExists path
      if there then loadText codec reading parsing path else pure default) := by
  have reads : Keeps inv (readToString path) := by
    refine Triple.bind frame.call fun _ => ?_
    refine Triple.bind ((frame.resolveNow path).post fun _ _ holds => holds.2) fun loc => ?_
    refine Triple.bind (M := fun _ => inv) (Triple.observe fun _ holds => holds) fun there => ?_
    cases there with
    | none => exact Triple.throw fun _ holds => holds
    | some bytes =>
      dsimp only
      cases toStr bytes with
      | none => exact Triple.throw fun _ holds => holds
      | some s => exact Triple.pure fun _ holds => holds
  have parses (body : String) : Keeps inv (fromStr codec body) := by
    unfold fromStr
    cases codec.decode body with
    | none => exact Triple.throw fun _ holds => holds
    | some value => exact Triple.pure fun _ holds => holds
  have asks : Keeps inv (pathExists path) :=
    Triple.bind frame.turn fun _ => Triple.bind (Triple.observe fun _ holds => holds) fun _ =>
      Triple.pure fun _ holds => holds
  refine Triple.bind asks fun there => Triple.ite (fun _ => ?_) fun _ => Triple.pure fun _ holds => holds
  exact Triple.bind (Triple.context reads) fun body => Triple.context (parses body)

theorem Frame.prepareHistory (frame : Frame env inv (fun _ => True) files)
    {codec : JsonCodec (List TransferHistoryEntry)} {path : Path} {entry : TransferHistoryEntry} :
    Keeps inv (prepareHistory codec path entry) := by
  refine Triple.bind frame.loadIfThere fun entries => Triple.bind (M := fun _ => inv) ?_ fun _ =>
    Triple.pure fun _ holds => holds
  unfold createJsonParent
  cases path.parent with
  | none => exact Triple.pure fun _ holds => holds
  | some parent => exact Triple.context (frame.createDirAll fun _ _ => trivial)

theorem Frame.preparePairing (frame : Frame env inv (fun _ => True) files) {platform : Platform}
    {codec : JsonCodec TrustStore} {dataDir path : Path} {peerId shortCode : String} :
    Keeps inv (preparePairing platform codec dataDir path peerId shortCode) := by
  refine Triple.bind (Triple.context (frame.createDirAll fun _ _ => trivial)) fun _ => ?_
  refine Triple.bind frame.loadIfThere fun store => ?_
  exact Triple.bind frame.turn fun t => Triple.pure fun _ holds => holds

/-- What `append_history` leaves on the disk. -/
theorem appendHistory_onDisk {codec : JsonCodec (List TransferHistoryEntry)}
    (guarded : Guarded env path loc) {stored : Option (List TransferHistoryEntry)} {w w' : World}
    (start : OnDisk env path loc (stored.map codec.body) w) {entry : TransferHistoryEntry}
    (ends : Ends (appendHistory codec path entry) w w') :
    OnDisk env path loc
      ((savingOf codec path stored (prepareHistory codec path entry) id w).bytes codec) w' := by
  rw [appendHistory_eq] at ends
  refine savingOf_onDisk guarded (onDisk_frame guarded).prepareHistory start (ends.of_bind.imp id ?_)
  exact fun ⟨entries, between, run, ends⟩ => ⟨entries, between, run, ends.of_context⟩

/-- What `pair_peer` leaves on the disk. -/
theorem pairPeer_onDisk {platform : Platform} {codec : JsonCodec TrustStore}
    (guarded : Guarded env path loc) {stored : Option TrustStore} {w w' : World}
    (start : OnDisk env path loc (stored.map codec.body) w) {dataDir : Path}
    {peerId shortCode : String} (ends : Ends (pairPeer platform codec dataDir path peerId shortCode) w w') :
    OnDisk env path loc ((savingOf codec path stored
      (preparePairing platform codec dataDir path peerId shortCode) Prod.snd w).bytes codec) w' := by
  refine savingOf_onDisk guarded (onDisk_frame guarded).preparePairing start (ends.of_bind.imp id ?_)
  exact fun ⟨prepared, between, run, ends⟩ => ⟨prepared, between, run, ends.of_answer.of_context⟩

end Once

/-! ### The checkpoint of a transfer -/

/-- The last value of a sequence of saves. -/
def lastSaved (initial : Option TransferManifest) (saves : List Moment) : Option TransferManifest :=
  (initial.toList ++ saves.map fun moment => moment.run.manifest).getLast?

/-- The save of a moment: its value, and how its call fails. -/
def Moment.save (moment : Moment) : TransferManifest × Option Fault :=
  (moment.run.manifest, (moment.run.world.env.turns moment.run.world.clock).fault)

/-- What is saved by a transfer; `initial` is what the checkpoint held before it. -/
def Watch.saving (initial : Option TransferManifest) (watch : Watch) : Saving TransferManifest :=
  ⟨lastSaved initial (watch.saves.take watch.returned),
    watch.saves[watch.returned]?.map Moment.save⟩

section Checkpoint

variable {platform : Platform} {codec : JsonCodec TransferManifest} {env : Surroundings} {path : Path}
  {loc : Loc} {job : Job} {m : TransferManifest} {initial : Option TransferManifest}

/-- All saves have returned. -/
theorem saving_returned {watch : Watch} (all : watch.returned = watch.saves.length) :
    watch.saving initial = ⟨lastSaved initial watch.saves, none⟩ := by
  rw [Watch.saving, all, List.take_length, List.getElem?_eq_none (Nat.le_refl _), Option.map_none]

/-- The last save has not returned. -/
theorem saving_pending {watch : Watch} {front : List Moment} {last : Moment}
    (saves : watch.saves = front ++ [last]) (returned : watch.returned = front.length) :
    watch.saving initial = ⟨lastSaved initial front, some last.save⟩ := by
  rw [Watch.saving, saves, returned, List.take_left, List.getElem?_concat_length, Option.map_some]

theorem lastSaved_concat (front : List Moment) (last : Moment) :
    lastSaved initial (front ++ [last]) = some last.run.manifest := by
  rw [lastSaved, List.map_append, ← List.append_assoc]
  exact List.getLast?_concat

/-- The checkpoint holds the value of the last save, and all saves have returned. -/
def Checkpointed (env : Surroundings) (codec : JsonCodec TransferManifest) (path : Path) (loc : Loc)
    (initial : Option TransferManifest) (watch : Watch) (w : World) : Prop :=
  watch.returned = watch.saves.length ∧
    OnDisk env path loc ((watch.saving initial).bytes codec) w

/-- **One save**, whether it returns or fails. -/
theorem watchedCheckpoint_onDisk (guarded : Guarded env path loc)
    (encodes : ∀ m, platform.manifestJson m = codec.body m) (isPath : job.checkpoint = some path) :
    Triple (Under m (Checkpointed env codec path loc initial)) (watchedCheckpoint platform job)
      (fun _ => Under m (Checkpointed env codec path loc initial))
      (fun _ s => OnDisk env path loc ((s.ghost.saving initial).bytes codec) s.run.world) := by
  -- the save has begun
  refine Triple.bind (M := fun _ s => ∃ front place, s.ghost.saves = front ++ [⟨place, s.run⟩] ∧
    s.ghost.returned = front.length ∧ s.run.manifest.bare = m.bare ∧
    OnDisk env path loc ((lastSaved initial front).map codec.body) s.run.world)
    (Triple.update ?_) fun _ => ?_
  · rintro s ⟨⟨all, onDisk⟩, bare⟩
    refine ⟨s.ghost.saves, s.ghost.place, ?_, ?_, bare, ?_⟩
    · show (if job.checkpoint.isSome then _ else _ : Watch).saves = _
      rw [isPath]
      rfl
    · show (if job.checkpoint.isSome then _ else _ : Watch).returned = _
      rw [isPath]
      exact all
    · rwa [saving_returned all] at onDisk
  refine Triple.bind (M := fun _ s => ∃ front last, s.ghost.saves = front ++ [last] ∧
    s.run.manifest.bare = m.bare ∧
    OnDisk env path loc (some (codec.body last.run.manifest)) s.run.world) ?_ fun _ => ?_
  · -- the write itself
    refine Triple.zoom fun s ⟨front, place, saves, returned, bare, onDisk⟩ => ?_
    refine Triple.bind (M := fun manifest t => manifest = s.run.manifest ∧ t = s.run)
      (Triple.observe fun t here => ⟨by rw [here], here⟩) fun manifest => Triple.given fun same => ?_
    subst same
    rw [isPath]
    refine Triple.zoom fun t here => Triple.context ?_
    subst here
    rw [encodes]
    refine (fsWrite_onDisk guarded (lastSaved initial front) s.run.manifest s.run.world.clock).conseq
      (fun w here => by subst here; exact ⟨rfl, onDisk⟩) (fun _ w written => ?_) fun _ w left => ?_
    · exact ⟨front, ⟨place, s.run⟩, saves, bare, written⟩
    · show OnDisk env path loc (Saving.bytes codec (s.ghost.saving initial)) w
      rw [saving_pending saves returned, Moment.save, onDisk.env_eq]
      exact left
  · refine Triple.update ?_
    rintro s ⟨front, last, saves, bare, written⟩
    refine ⟨⟨rfl, ?_⟩, bare⟩
    rw [saving_returned rfl]
    show OnDisk env path loc (Saving.bytes codec ⟨lastSaved initial s.ghost.saves, none⟩) s.run.world
    rw [saves, lastSaved_concat]
    exact written

/-- No destination is the checkpoint. -/
def CheckpointElsewhere (cwd : Loc) (job : Job) (single : Bool) (m : TransferManifest) (loc : Loc) :
    Prop :=
  ∀ entry ∈ m.entries, destLoc cwd job.target m.rootName single entry ≠ some loc

/-- A transfer rewrites its checkpoint, and leaves it alone in between. -/
theorem checkpoint_runFrame (guarded : Guarded env path loc)
    (encodes : ∀ m, platform.manifestJson m = codec.body m) (isPath : job.checkpoint = some path)
    {single : Bool} (elsewhere : CheckpointElsewhere env.cwd job single m loc) :
    RunFrame platform env job single m (Checkpointed env codec path loc initial)
      (fun s => OnDisk env path loc ((s.ghost.saving initial).bytes codec) s.run.world)
      (fun _ => True) (· ≠ loc) where
  saves := by
    rintro watch watch' w saves returned ⟨all, onDisk⟩
    refine ⟨by rw [returned, saves, all], ?_⟩
    rw [Watch.saving, saves, returned]
    exact onDisk
  frame := fun watch => (onDisk_frame guarded).given _
  scope := ⟨fun _ _ _ _ _ _ => trivial, fun _ _ _ _ => trivial⟩
  fill := fun watch entry member other dest => by
    have apart : other ≠ loc := fun same => elsewhere entry member (same ▸ dest)
    exact ((onDisk_frame guarded).given _).fillable apart _ _
  save := watchedCheckpoint_onDisk guarded encodes isPath
  fails := fun _ holds => holds.1.2

/-- What a transfer leaves on the disk. -/
theorem executeLocalTransfer_onDisk (guarded : Guarded env path loc)
    (encodes : ∀ m, platform.manifestJson m = codec.body m) (isPath : job.checkpoint = some path)
    {t t' : Transfer} (start : OnDisk env path loc (initial.map codec.body) t.world)
    (elsewhere : ∀ single ∈ layout job t, CheckpointElsewhere env.cwd job single t.manifest loc)
    (ends : Ends (executeLocalTransfer platform job) t t') :
    OnDisk env path loc (((watchOf platform job t).saving initial).bytes codec) t'.world := by
  have nothing : (Watch.start.saving initial).bytes codec = initial.map codec.body := by
    cases initial with
    | none => rfl
    | some value => rfl
  refine RunFrame.of_ends ((onDisk_frame guarded).given _) (fun _ _ => trivial) (fun single isLayout =>
      checkpoint_runFrame guarded encodes isPath (elsewhere single isLayout))
    (fun t₁ _ holds => holds.2) ⟨rfl, ?_⟩ ends
  rw [nothing]
  exact start

end Checkpoint

/-! ### After the crash -/

/-- What is loaded after a crash, from what it left on the disk. -/
theorem survives_of_onDisk {α : Type} {codec : JsonCodec α} {env next : Surroundings} {path : Path}
    {loc : Loc} (guarded : Guarded env path loc) (sameCwd : next.cwd = env.cwd)
    (faithful : codec.Faithful) {saving : Saving α} (written : saving.before.isSome) {w : World}
    (onDisk : OnDisk env path loc (saving.bytes codec) w) {load : Sys α}
    (returns : ∀ bytes, w.fs.resolve next.cwd path = some loc → w.fs.content loc = some bytes →
      returned load ⟨next, w.fs, 0⟩ = codec.parse bytes) :
    saving.Survives (returned load ⟨next, w.fs, 0⟩) ↔ ¬ saving.Torn codec := by
  obtain ⟨bytes, isBytes⟩ : ∃ bytes, saving.bytes codec = some bytes :=
    Option.isSome_iff_exists.mp (by rw [Saving.bytes, Option.isSome_map]; exact written)
  rw [isBytes] at onDisk
  have loaded := returns bytes (sameCwd ▸ onDisk.leads guarded) (onDisk.there bytes rfl)
  rw [← Saving.survives_iff faithful written, isBytes, loaded, Option.bind_some]

/-- A history that is appended to. -/
theorem appendHistory_survives {base next : Surroundings} {k : Nat} {cut : Fault} {path : Path} {loc : Loc}
    (guarded : Guarded base path loc) (calm : next.Calm) (sameCwd : next.cwd = base.cwd)
    {codec : JsonCodec (List TransferHistoryEntry)} (faithful : codec.Faithful)
    {entry : TransferHistoryEntry} {stored : Option (List TransferHistoryEntry)} {w w' : World}
    (start : OnDisk (base.killedAt k cut) path loc (stored.map codec.body) w)
    (ends : Ends (appendHistory codec path entry) w w')
    (written : (savingOf codec path stored (prepareHistory codec path entry) id w).before.isSome) :
    (savingOf codec path stored (prepareHistory codec path entry) id w).Survives
        (returned (loadHistory codec path) ⟨next, w'.fs, 0⟩) ↔
      ¬ (savingOf codec path stored (prepareHistory codec path entry) id w).Torn codec :=
  survives_of_onDisk (guarded.killedAt k cut) sameCwd faithful written
    (appendHistory_onDisk (guarded.killedAt k cut) start ends) fun _ leads found =>
      loadHistory_returns calm leads found

/-- **What was saved survives a crash** exactly when no save was cut short: whenever a run of
`execute_local_transfer`, of `append_history` or of `pair_peer` is killed after the file was first
written completely, the next load returns the value before or after the interrupted save if and only
if the kill does not come between the truncation of the file and the last byte of a save. -/
theorem savedJson_survives_iff {base next : Surroundings} {k : Nat} {cut : Fault} {path : Path}
    {loc : Loc} (guarded : Guarded base path loc) (calm : next.Calm) (sameCwd : next.cwd = base.cwd) :
    (∀ (platform : Platform) (codec : JsonCodec TransferManifest) (job : Job)
        (initial : Option TransferManifest) (t t' : Transfer),
      codec.Faithful → (∀ m, platform.manifestJson m = codec.body m) → job.checkpoint = some path →
      OnDisk (base.killedAt k cut) path loc (initial.map codec.body) t.world →
      (∀ single ∈ layout job t, CheckpointElsewhere base.cwd job single t.manifest loc) →
      Ends (executeLocalTransfer platform job) t t' →
      ((watchOf platform job t).saving initial).before.isSome →
      (((watchOf platform job t).saving initial).Survives
          (returned (loadManifest codec path) ⟨next, t'.world.fs, 0⟩) ↔
        ¬ ((watchOf platform job t).saving initial).Torn codec)) ∧
    (∀ (codec : JsonCodec (List TransferHistoryEntry)) (entry : TransferHistoryEntry)
        (stored : Option (List TransferHistoryEntry)) (w w' : World),
      codec.Faithful → OnDisk (base.killedAt k cut) path loc (stored.map codec.body) w →
      Ends (appendHistory codec path entry) w w' →
      (savingOf codec path stored (prepareHistory codec path entry) id w).before.isSome →
      ((savingOf codec path stored (prepareHistory codec path entry) id w).Survives
          (returned (loadHistory codec path) ⟨next, w'.fs, 0⟩) ↔
        ¬ (savingOf codec path stored (prepareHistory codec path entry) id w).Torn codec)) ∧
    (∀ (platform : Platform) (codec : JsonCodec TrustStore) (dataDir : Path)
        (peerId shortCode : String) (stored : Option TrustStore) (w w' : World),
      codec.Faithful → OnDisk (base.killedAt k cut) path loc (stored.map codec.body) w →
      Ends (pairPeer platform codec dataDir path peerId shortCode) w w' →
      (savingOf codec path stored (preparePairing platform codec dataDir path peerId shortCode)
        Prod.snd w).before.isSome →
      ((savingOf codec path stored (preparePairing platform codec dataDir path peerId shortCode)
          Prod.snd w).Survives (returned (loadTrustStore codec path) ⟨next, w'.fs, 0⟩) ↔
        ¬ (savingOf codec path stored (preparePairing platform codec dataDir path peerId shortCode)
          Prod.snd w).Torn codec)) := by
  have guarded' : Guarded (base.killedAt k cut) path loc := guarded.killedAt k cut
  have sameCwd' : next.cwd = (base.killedAt k cut).cwd := sameCwd
  refine ⟨?_, ?_, ?_⟩
  · intro platform codec job initial t t' faithful encodes isPath start elsewhere ends written
    have onDisk := executeLocalTransfer_onDisk guarded' encodes isPath start elsewhere ends
    exact survives_of_onDisk guarded' sameCwd' faithful written onDisk fun bytes leads found =>
      loadManifest_returns calm leads found
  · intro codec entry stored w w' faithful start ends written
    exact appendHistory_survives guarded calm sameCwd faithful start ends written
  · intro platform codec dataDir peerId shortCode stored w w' faithful start ends written
    have onDisk := pairPeer_onDisk guarded' start ends
    exact survives_of_onDisk guarded' sameCwd' faithful written onDisk fun bytes leads found =>
      loadTrustStore_returns calm leads found

/-! ### A history that is cut short -/

/-- The checkpoints, as `serde_json` writes them. -/
def sampleManifests : JsonCodec TransferManifest := codecOf manifestFormat

def sampleHistories : JsonCodec (List TransferHistoryEntry) :=
  codecOf (Json.Format.many sessionEntryFormat .square)

def sampleStores : JsonCodec TrustStore := codecOf trustStoreFormat

theorem sampleManifests_faithful : sampleManifests.Faithful :=
  codecOf_faithful (Json.Format.closed_record _)

theorem sampleHistories_faithful : sampleHistories.Faithful :=
  codecOf_faithful (Json.Format.closed_many _ _)

theorem sampleStores_faithful : sampleStores.Faithful :=
  codecOf_faithful ((Json.Format.closed_object _).as _)

/-- Where the file of the example is. -/
def samplePath : Path := .ofString "/c"

theorem sampleName_proper : Name.Proper [99] := by decide

def sampleLoc : Loc := [⟨[99], sampleName_proper⟩]

/-- A device on which the history `/c` has one entry. The process is killed at its third call, when
the file is truncated. -/
def tornWorld : World where
  env := sampleEnv.killedAt 2 (.after 0)
  fs := FileSystem.empty.put sampleLoc (.file (sampleHistories.body [sampleEntry .send]) 1)
  clock := 0

/-- The small tree, with the manifest in `/c`. -/
def crashedTransfer : Transfer where
  world := ⟨sampleEnv.killedAt 2 (.after 0),
    sampleWorld.fs.put sampleLoc (.file (sampleManifests.body (sampleManifest [1])) 1), 0⟩
  manifest := sampleManifest [1]
  bytesDone := 0
  filesCompleted := 0
  events := []

def crashedStore : World where
  env := sampleEnv.killedAt 2 (.after 0)
  fs := FileSystem.empty.put sampleLoc (.file (sampleStores.body .default) 1)
  clock := 0

theorem sample_guarded : Guarded sampleEnv samplePath sampleLoc :=
  ⟨by decide +kernel, fun _ _ => rfl, fun _ _ _ _ => rfl⟩

/-- A value that is kept in the root directory is on the disk. -/
theorem sample_onDisk {α : Type} {fs : FileSystem} (free : fs.Free sampleLoc) (codec : JsonCodec α)
    (value : α) {w : World} (isTree : w.fs = fs.put sampleLoc (.file (codec.body value) 1))
    (sameEnv : w.env = sampleEnv.killedAt 2 (.after 0)) :
    OnDisk (sampleEnv.killedAt 2 (.after 0)) samplePath sampleLoc ((some value).map codec.body) w := by
  refine ⟨sameEnv, fun _ _ stop member => ?_, fun other same => ?_⟩
  · have root : stop = [] := by
      revert stop
      decide +kernel
    rw [root]
    rfl
  · rw [isTree, ← Option.some.inj same]
    exact FileSystem.content_eq_some.mpr ⟨1, FileSystem.node_put_same free _⟩

theorem empty_free : FileSystem.empty.Free sampleLoc := by decide +kernel

theorem crashedTransfer_onDisk : OnDisk (sampleEnv.killedAt 2 (.after 0)) samplePath sampleLoc
    ((some (sampleManifest [1])).map sampleManifests.body) crashedTransfer.world :=
  sample_onDisk (by decide +kernel : sampleWorld.fs.Free sampleLoc) _ _ rfl rfl

section Calls

variable {w : World} {path : Path} {loc : Loc}

theorem withContext_of_ok {α : Type} {message : String} {prog : Sys α} {a : α} {w' : World}
    (run : prog w = .ok a w') : withContext message prog w = .ok a w' := by
  rw [withContext, Effect.context, run]

/-- A call that works, when nobody interferes. -/
theorem call_of_works (works : (w.env.turns w.clock).fault = none)
    (still : (w.env.turns w.clock).edit w.fs = w.fs) :
    call w = .ok (w.env.turns w.clock) { w with clock := w.clock + 1 } := by
  have isTurn : turn w = .ok (w.env.turns w.clock) { w with clock := w.clock + 1 } := by
    show EStateM.Result.ok _ (World.mk w.env _ _) = _
    rw [still]
  rw [call, bind_of_ok isTurn, works]
  rfl

theorem resolveNow_of_leads (leads : w.fs.resolve w.env.cwd path = some loc) :
    resolveNow path w = .ok loc w := by
  rw [resolveNow, bind_of_ok (rfl : observe _ w = .ok _ w), leads]
  rfl

theorem readToString_of_works (works : (w.env.turns w.clock).fault = none)
    (still : (w.env.turns w.clock).edit w.fs = w.fs) (leads : w.fs.resolve w.env.cwd path = some loc)
    {s : String} (found : w.fs.content loc = some (utf8 s)) :
    readToString path w = .ok s { w with clock := w.clock + 1 } := by
  have leads' := resolveNow_of_leads (w := { w with clock := w.clock + 1 }) leads
  have seen : (observe fun w => w.fs.content loc : Sys (Option Bytes)) { w with clock := w.clock + 1 } =
      .ok (some (utf8 s)) { w with clock := w.clock + 1 } :=
    congrArg (EStateM.Result.ok · _) found
  rw [readToString, bind_of_ok (call_of_works works still), bind_of_ok leads', bind_of_ok seen]
  dsimp only
  rw [toStr_utf8]
  rfl

/-- A write that is cut short fails. -/
theorem fsWrite_of_cut {n : Nat} (cut : (w.env.turns w.clock).fault = some (.after n)) (path : Path)
    (body : Bytes) : ∃ e w', fsWrite path body w = .error e w' := by
  have never : Triple (fun s => s = w) (fsWrite path body) (fun _ _ => False) fun _ _ => True := by
    refine Triple.bind (M := fun t _ => t.fault = some (.after n) ∧ True) ?_ fun t =>
      Triple.given fun isCut => ?_
    · rintro s rfl
      exact ⟨cut, trivial⟩
    · refine Triple.ite (fun _ => Triple.throw fun _ _ => trivial) fun _ => ?_
      refine Triple.bind (Triple.anything _) fun loc => Triple.bind (Triple.anything _) fun fs => ?_
      refine Triple.ite (fun _ => ?_) fun _ => Triple.throw fun _ _ => trivial
      rw [isCut]
      exact Triple.bind (Triple.anything _) fun _ => Triple.throw fun _ _ => trivial
  have outcome := never w rfl
  cases run : fsWrite path body w with
  | ok a w' =>
    rw [run] at outcome
    exact outcome.elim
  | error e w' => exact ⟨e, w', rfl⟩

/-- What was being saved when the write was cut short. -/
theorem savingOf_of_cut {α β : Type} {codec : JsonCodec α} {stored : Option α} {prepare : Sys β}
    {value : β → α} {b : β} {w' : World} {n : Nat} (prepared : prepare w = .ok b w')
    (cut : (w'.env.turns w'.clock).fault = some (.after n)) :
    savingOf codec path stored prepare value w = ⟨stored, some (value b, some (.after n))⟩ := by
  obtain ⟨e, after, fails⟩ := fsWrite_of_cut cut path (codec.body (value b))
  rw [savingOf, prepared]
  dsimp only
  rw [fails, cut]

end Calls

theorem torn_content : tornWorld.fs.content sampleLoc = some (sampleHistories.body [sampleEntry .send]) :=
  FileSystem.content_eq_some.mpr ⟨1, FileSystem.node_put_same empty_free _⟩

theorem torn_leads : tornWorld.fs.resolve [] samplePath = some sampleLoc := by decide +kernel

/-- The stored entry is read before the process is killed. -/
theorem torn_prepared : prepareHistory sampleHistories samplePath (sampleEntry .receive) tornWorld =
    .ok [sampleEntry .send, sampleEntry .receive] { tornWorld with clock := 2 } := by
  have exist : pathExists samplePath tornWorld = .ok true { tornWorld with clock := 1 } := by
    have found : (tornWorld.fs.resolve [] samplePath).bind tornWorld.fs.node = some
        (.file (sampleHistories.body [sampleEntry .send]) 1) := by
      rw [torn_leads]
      exact FileSystem.node_put_same empty_free _
    show EStateM.Result.ok (_ && Option.isSome ((tornWorld.fs.resolve [] samplePath).bind tornWorld.fs.node))
      _ = _
    rw [found]
    rfl
  have text : readToString samplePath { tornWorld with clock := 1 } =
      .ok (sampleHistories.encode [sampleEntry .send]) { tornWorld with clock := 2 } :=
    readToString_of_works (w := { tornWorld with clock := 1 }) rfl rfl torn_leads torn_content
  have value : fromStr sampleHistories (sampleHistories.encode [sampleEntry .send])
      { tornWorld with clock := 2 } = .ok [sampleEntry .send] { tornWorld with clock := 2 } := by
    rw [fromStr, sampleHistories_faithful.roundTrip]
    rfl
  have load : loadHistory sampleHistories samplePath tornWorld =
      .ok [sampleEntry .send] { tornWorld with clock := 2 } := by
    rw [loadHistory, bind_of_ok exist, if_pos rfl, readJson, bind_of_ok (withContext_of_ok text)]
    exact withContext_of_ok value
  have parent : createJsonParent samplePath { tornWorld with clock := 2 } =
      .ok () { tornWorld with clock := 2 } := rfl
  rw [prepareHistory, bind_of_ok load, bind_of_ok parent]
  rfl

theorem torn_saving : savingOf sampleHistories samplePath (some [sampleEntry .send])
    (prepareHistory sampleHistories samplePath (sampleEntry .receive)) id tornWorld =
      ⟨some [sampleEntry .send], some ([sampleEntry .send, sampleEntry .receive], some (.after 0))⟩ :=
  savingOf_of_cut torn_prepared rfl

theorem torn_torn : Saving.Torn sampleHistories ⟨some [sampleEntry .send],
    some ([sampleEntry .send, sampleEntry .receive], some (.after 0))⟩ := by
  exact ⟨[sampleEntry .send, sampleEntry .receive], 0, rfl, codecOf_body_pos _ _⟩

theorem sample_encodes (m : TransferManifest) : samplePlatform.manifestJson m = sampleManifests.body m := by
  rw [samplePlatform, sampleManifests]

/-- Of three runs that are killed at their third call, the transfer and the pairing have not begun to
save by then. -/
theorem savedJson_survives_sample :
    ((watchOf samplePlatform checkpointJob crashedTransfer).saving (some (sampleManifest [1]))).Survives
      (returned (loadManifest sampleManifests samplePath) ⟨sampleEnv,
        (final (executeLocalTransfer samplePlatform checkpointJob) crashedTransfer).world.fs, 0⟩) ∧
    ¬ (savingOf sampleHistories samplePath (some [sampleEntry .send])
      (prepareHistory sampleHistories samplePath (sampleEntry .receive)) id tornWorld).Survives
        (returned (loadHistory sampleHistories samplePath) ⟨sampleEnv,
          (final (appendHistory sampleHistories samplePath (sampleEntry .receive)) tornWorld).fs, 0⟩) ∧
    (savingOf sampleStores samplePath (some .default)
      (preparePairing samplePlatform sampleStores (.ofString "/") samplePath "peer" "code") Prod.snd
        crashedStore).Survives (returned (loadTrustStore sampleStores samplePath) ⟨sampleEnv,
          (final (pairPeer samplePlatform sampleStores (.ofString "/") samplePath "peer" "code")
            crashedStore).fs, 0⟩) := by
  obtain ⟨transfers, histories, stores⟩ := @savedJson_survives_iff sampleEnv sampleEnv 2 (.after 0)
    samplePath sampleLoc sample_guarded ⟨fun _ _ => rfl, fun _ => rfl⟩ (rfl : sampleEnv.cwd = sampleEnv.cwd)
  refine ⟨?_, ?_, ?_⟩
  · have none : (watchOf samplePlatform checkpointJob crashedTransfer).saves = [] :=
      List.length_eq_zero_iff.mp (by decide +kernel)
    refine (transfers samplePlatform sampleManifests checkpointJob (some (sampleManifest [1]))
      crashedTransfer _ sampleManifests_faithful sample_encodes (by decide +kernel)
      crashedTransfer_onDisk
      (fun single isLayout => ?_) (ends_final _ _) ?_).mpr ?_
    · have isSingle : layout checkpointJob crashedTransfer = some true := by decide +kernel
      obtain rfl := Option.some.inj (isSingle.symm.trans isLayout)
      unfold CheckpointElsewhere
      decide +kernel
    · rw [Watch.saving, none]
      rfl
    · rintro ⟨next, n, isCut, _⟩
      rw [Watch.saving, none] at isCut
      cases isCut
  · refine (histories sampleHistories (sampleEntry .receive) (some [sampleEntry .send]) tornWorld _
      sampleHistories_faithful (sample_onDisk empty_free _ _ rfl rfl) (ends_final _ _)
      (by rw [torn_saving]; rfl)).not.mpr (not_not.mpr ?_)
    rw [torn_saving]
    exact torn_torn
  · have early : (returned (preparePairing samplePlatform sampleStores (.ofString "/") samplePath "peer"
        "code") crashedStore).isSome = false := by decide +kernel
    have isSaving : savingOf sampleStores samplePath (some .default)
        (preparePairing samplePlatform sampleStores (.ofString "/") samplePath "peer" "code") Prod.snd
          crashedStore = ⟨some .default, none⟩ := by
      unfold returned at early
      unfold savingOf
      split at early
      · cases early
      · next run => rw [run]
    refine (stores samplePlatform sampleStores (.ofString "/") "peer" "code" (some .default) crashedStore
      _ sampleStores_faithful (sample_onDisk empty_free _ _ rfl rfl)
      (ends_final _ _) ?_).mpr ?_
    · rw [isSaving]
      rfl
    · rw [isSaving]
      rintro ⟨next, n, isCut, _⟩
      cases isCut

/-- **A history is lost**: `append_history` is killed when it has truncated the file, and the next
load fails. -/
theorem savedHistory_torn :
    ∃ w', Ends (appendHistory sampleHistories samplePath (sampleEntry .receive)) tornWorld w' ∧
      tornWorld.fs.content sampleLoc = some (sampleHistories.body [sampleEntry .send]) ∧
      (savingOf sampleHistories samplePath (some [sampleEntry .send])
        (prepareHistory sampleHistories samplePath (sampleEntry .receive)) id tornWorld).before =
          some [sampleEntry .send] ∧
      ¬ (savingOf sampleHistories samplePath (some [sampleEntry .send])
        (prepareHistory sampleHistories samplePath (sampleEntry .receive)) id tornWorld).Survives
          (returned (loadHistory sampleHistories samplePath) ⟨sampleEnv, w'.fs, 0⟩) := by
  refine ⟨_, ends_final _ _, torn_content, by rw [torn_saving], ?_⟩
  have survives := appendHistory_survives sample_guarded ⟨fun _ _ => rfl, fun _ => rfl⟩ rfl
    sampleHistories_faithful (sample_onDisk empty_free _ _ rfl rfl)
    (ends_final (appendHistory sampleHistories samplePath (sampleEntry .receive)) tornWorld)
    (by rw [torn_saving]; rfl)
  refine survives.not.mpr (not_not.mpr ?_)
  rw [torn_saving]
  exact torn_torn

end SendRs
