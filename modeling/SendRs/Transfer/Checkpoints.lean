/-
**The bitmaps tell the truth at every save.**

The watched run collects the moments of its saves and of its reports. `Going` is a watched run that
goes on, at a place and with nothing but true moments collected; `Stopped` is one that may stop
there. One lemma for each part of `execute_local_transfer`, from the call to the entry loop, leads
to `watchedFiles_truthful`.

Result: `watch_bitmapsTrue`, for a manifest that was built from any tree that nobody changes
meanwhile, with any bits in it, and for every pattern of failures.
-/

import SendRs.Transfer.Completeness
import SendRs.Transfer.Resume

namespace SendRs

open Effect Pieces

/-- What was collected so far is true. -/
structure Collected (platform : Platform) (env : Surroundings) (m : TransferManifest) (job : Job)
    (single : Bool) (sure : Nat → Nat → Prop) (watch : Watch) : Prop where
  saves : ∀ moment ∈ watch.saves, Truthful platform env m job single sure moment.place 0 moment.run
  reports : ∀ moment ∈ watch.reports,
    Truthful platform env m job single sure moment.place 0 moment.run

/-- The watched run goes on at a place. -/
structure Going (platform : Platform) (env : Surroundings) (m : TransferManifest) (job : Job)
    (single : Bool) (sure : Nat → Nat → Prop) (place : Place) (watch : Watch) : Prop where
  place_eq : watch.place = place
  trying : watch.exhausted = false
  collected : Collected platform env m job single sure watch

/-- The watched run may stop. -/
structure Stopped (platform : Platform) (env : Surroundings) (m : TransferManifest) (job : Job)
    (single : Bool) (sure : Nat → Nat → Prop) (s : Traced Transfer Watch) : Prop where
  truthful : Truthful platform env m job single sure s.ghost.place 0 s.run
  clear : s.ghost.exhausted = true → BitClear s.ghost.place.entry s.ghost.place.chunk s.run
  collected : Collected platform env m job single sure s.ghost

section Watch

variable {platform : Platform} {env : Surroundings} {m : TransferManifest} {job : Job}
  {single : Bool} {sure : Nat → Nat → Prop} {file : OpenEntry} {place : Place} {bytesTotal : Nat}
  {inv : Transfer → Prop}

theorem Going.stopped {s : Traced Transfer Watch}
    (truthful : Truthful platform env m job single sure place 0 s.run)
    (going : Going platform env m job single sure place s.ghost) :
    Stopped platform env m job single sure s := by
  refine ⟨going.place_eq ▸ truthful, fun exhausted => ?_, going.collected⟩
  rw [going.trying] at exhausted
  cases exhausted

/-- The loops come to a place. -/
theorem arrive_going {failed : Error → Traced Transfer Watch → Prop} :
    Triple (fun s => inv s.run ∧ Collected platform env m job single sure s.ghost) (arrive place)
      (fun _ s => inv s.run ∧ Going platform env m job single sure place s.ghost) failed :=
  Triple.update fun _ ⟨holds, collected⟩ =>
    ⟨holds, rfl, rfl, collected.saves, collected.reports⟩

/-- A part of the run at a place: where it fails, the run may stop. -/
theorem lift_going {α : Type} {prog : Run α} {after : α → Transfer → Prop}
    {failed : Error → Transfer → Prop} (triple : Triple inv prog after failed)
    (fails : ∀ error t, failed error t → Truthful platform env m job single sure place 0 t) :
    Triple (fun s => inv s.run ∧ Going platform env m job single sure place s.ghost) (lift prog)
      (fun a s => after a s.run ∧ Going platform env m job single sure place s.ghost)
      (fun _ => Stopped platform env m job single sure) :=
  (Triple.lift triple (Going platform env m job single sure place)).conseq (fun _ holds => holds)
    (fun _ _ holds => holds) fun error s ⟨failure, going⟩ => going.stopped (fails error s.run failure)

/-- A part of the run that cannot fail. -/
theorem lift_surely {α : Type} {prog : Run α} {after : α → Transfer → Prop}
    (triple : Triple inv prog after Never) :
    Triple (fun s => inv s.run ∧ Going platform env m job single sure place s.ghost) (lift prog)
      (fun a s => after a s.run ∧ Going platform env m job single sure place s.ghost)
      (fun _ => Stopped platform env m job single sure) :=
  (Triple.lift triple (Going platform env m job single sure place)).conseq (fun _ holds => holds)
    (fun _ _ holds => holds) fun _ _ impossible => impossible.1.elim

/-! ### The checkpoint and the progress events -/

theorem watchedCheckpoint_going (orderly : Orderly platform env m job single)
    (on : OnDestinations env m job single inv)
    (truthful : ∀ t, inv t → Truthful platform env m job single sure place 0 t) :
    Triple (fun s => inv s.run ∧ Going platform env m job single sure place s.ghost)
      (watchedCheckpoint platform job)
      (fun _ s => inv s.run ∧ Going platform env m job single sure place s.ghost)
      (fun _ => Stopped platform env m job single sure) := by
  refine Triple.bind (M := fun _ s => inv s.run ∧ Going platform env m job single sure place s.ghost)
    (Triple.update fun s ⟨holds, going⟩ => ⟨holds, ?_⟩) fun _ =>
      Triple.bind (lift_going (on.saveCheckpoint orderly) fun _ => truthful) fun _ =>
        Triple.update fun s ⟨holds, going⟩ => ⟨holds, going.place_eq, going.trying,
          going.collected.saves, going.collected.reports⟩
  show Going platform env m job single sure place (if job.checkpoint.isSome then _ else _)
  split
  · refine ⟨going.place_eq, going.trying, fun moment member => ?_, going.collected.reports⟩
    rcases List.mem_append.mp member with earlier | isNew
    · exact going.collected.saves moment earlier
    · obtain rfl := List.mem_singleton.mp isNew
      exact going.place_eq.symm ▸ truthful s.run holds
  · exact going

theorem watchedProgress_going (currentFile : String)
    (truthful : ∀ t, inv t → Truthful platform env m job single sure place 0 t)
    (reported : ∀ t, inv t →
      inv { t with events := t.events ++ [⟨bytesTotal, t.bytesDone, currentFile⟩] }) :
    Triple (fun s => inv s.run ∧ Going platform env m job single sure place s.ghost)
      (watchedProgress bytesTotal currentFile)
      (fun _ s => inv s.run ∧ Going platform env m job single sure place s.ghost)
      (fun _ => Stopped platform env m job single sure) := by
  refine Triple.bind (M := fun _ s => inv s.run ∧ Going platform env m job single sure place s.ghost)
    (Triple.update fun s ⟨holds, going⟩ => ⟨holds, going.place_eq, going.trying,
      going.collected.saves, fun moment member => ?_⟩) fun _ =>
      lift_surely (Triple.update reported)
  rcases List.mem_append.mp member with earlier | isNew
  · exact going.collected.reports moment earlier
  · obtain rfl := List.mem_singleton.mp isNew
    exact going.place_eq.symm ▸ truthful s.run holds

/-! ### One chunk -/

/-- What follows a chunk that was copied. -/
theorem watchedCopied_going (orderly : Orderly platform env m job single)
    (valid : file.Valid env m job single) {k : Nat} (inside : k < file.entry.chunkCount) :
    Triple
      (fun s => Fresh platform env m job single sure file k s.run ∧
        Going platform env m job single sure ⟨file.idx, k, true⟩ s.ghost)
      (watchedCopied platform job bytesTotal file k
        (chunkLen platform file.entry.size k m.chunkSize))
      (fun _ s => InFile platform env m job single sure file ⟨file.idx, k + 1, false⟩ 0 s.run ∧
        Going platform env m job single sure ⟨file.idx, k, true⟩ s.ghost)
      (fun _ => Stopped platform env m job single sure) := by
  refine Triple.bind (lift_surely (mark_inFile orderly valid inside)) fun _ => ?_
  refine Triple.bind (lift_surely count_inFile) fun _ => ?_
  refine Triple.bind (watchedCheckpoint_going orderly (inFile_onDestinations valid)
    fun _ inFile => inFile.truthful.back) fun _ => ?_
  exact watchedProgress_going _ (fun _ inFile => inFile.truthful.back) fun _ inFile =>
    ⟨inFile.truthful.report _ _, inFile.there⟩

/-- The attempts at a chunk leave it behind, or its bit is still clear. -/
theorem watchedAttempts_going (orderly : Orderly platform env m job single)
    (valid : file.Valid env m job single) {k : Nat} {expected : String}
    (inside : k < file.entry.chunkCount)
    (nonempty : chunkLen platform file.entry.size k m.chunkSize ≠ 0)
    (hash : file.entry.chunkHashes[k]? = some expected) :
    ∀ attempts lastError, (lastError = none → attempts ≠ 0) →
      Triple
        (fun s => Pending platform env m job single sure file k s.run ∧
          Going platform env m job single sure ⟨file.idx, k, true⟩ s.ghost)
        (watchedAttempts platform job bytesTotal file k (chunkOffset platform k m.chunkSize)
          (chunkLen platform file.entry.size k m.chunkSize) expected attempts lastError)
        (fun last s => (last.elim
            (InFile platform env m job single sure file ⟨file.idx, k + 1, false⟩ 0 s.run)
            fun _ => Pending platform env m job single sure file k s.run) ∧
          Going platform env m job single sure ⟨file.idx, k, true⟩ s.ghost)
        (fun _ => Stopped platform env m job single sure) := by
  intro attempts
  induction attempts with
  | zero =>
    intro lastError tried
    cases lastError with
    | none => exact absurd rfl (tried rfl)
    | some err => exact Triple.pure fun _ holds => holds
  | succ attempts ih =>
    intro lastError _
    have copies : Triple (Pending platform env m job single sure file k)
        (sys (attempt (copyChunk platform file.src file.dst (chunkOffset platform k m.chunkSize)
          (chunkLen platform file.entry.size k m.chunkSize) expected)))
        (fun outcome t => outcome.toOption.elim (Pending platform env m job single sure file k t)
          fun _ => Fresh platform env m job single sure file k t) Never := by
      rw [sys, zoom_attempt]
      exact Triple.attempt (copyChunk_inFile orderly valid inside nonempty hash)
    refine Triple.bind (lift_surely copies) fun outcome => ?_
    cases outcome with
    | ok _ =>
      exact Triple.bind (watchedCopied_going orderly valid inside) fun _ =>
        Triple.pure fun _ holds => holds
    | error err => exact ih (some err) fun absurdity => by cases absurdity

/-- A chunk that has to be copied is left behind, or its bit is clear when the attempts are
exhausted. -/
theorem watchedRetries_going (orderly : Orderly platform env m job single)
    (valid : file.Valid env m job single) {k : Nat} {expected : String}
    (inside : k < file.entry.chunkCount)
    (nonempty : chunkLen platform file.entry.size k m.chunkSize ≠ 0)
    (hash : file.entry.chunkHashes[k]? = some expected) :
    Triple
      (fun s => Pending platform env m job single sure file k s.run ∧
        Going platform env m job single sure ⟨file.idx, k, true⟩ s.ghost)
      (watchedRetries platform job bytesTotal file k (chunkOffset platform k m.chunkSize)
        (chunkLen platform file.entry.size k m.chunkSize) expected)
      (fun _ s => InFile platform env m job single sure file ⟨file.idx, k + 1, false⟩ 0 s.run ∧
        Collected platform env m job single sure s.ghost)
      (fun _ => Stopped platform env m job single sure) := by
  have tried : max job.maxRetries 1 ≠ 0 := by omega
  refine Triple.bind (watchedAttempts_going orderly valid inside nonempty hash _ none fun _ => tried)
    fun lastError => ?_
  cases lastError with
  | none => exact Triple.pure fun _ holds => ⟨holds.1, holds.2.collected⟩
  | some err =>
    refine Triple.bind (M := fun _ => Stopped platform env m job single sure)
      (Triple.update fun s ⟨pending, going⟩ => ?_) fun _ => Triple.throw fun _ stopped => stopped
    refine ⟨?_, fun _ => ?_, going.collected.saves, going.collected.reports⟩
    · exact going.place_eq.symm ▸ pending.2.truthful
    · show BitClear s.ghost.place.entry s.ghost.place.chunk s.run
      rw [going.place_eq]
      exact pending.1

/-- **One round of the chunk loop.** -/
theorem watchedChunk_going (orderly : Orderly platform env m job single)
    (valid : file.Valid env m job single) {k : Nat} {expected : String}
    (inside : k < file.entry.chunkCount) (hash : file.entry.chunkHashes[k]? = some expected) :
    Triple
      (fun s => InFile platform env m job single sure file ⟨file.idx, k, false⟩ 0 s.run ∧
        Collected platform env m job single sure s.ghost)
      (watchedChunk platform job bytesTotal m.chunkSize file (expected, k))
      (fun _ s => InFile platform env m job single sure file ⟨file.idx, k + 1, false⟩ 0 s.run ∧
        Collected platform env m job single sure s.ghost)
      (fun _ => Stopped platform env m job single sure) := by
  refine Triple.bind (arrive_going.post fun _ _ holds => holds) fun _ => ?_
  refine Triple.ite (fun empty => Triple.pure fun s ⟨inFile, going⟩ => ?_) fun nonempty => ?_
  · -- an empty chunk is passed over
    refine ⟨⟨inFile.truthful.begin.pass fun entry found _ nonempty => absurd empty ?_, inFile.there⟩,
      going.collected⟩
    obtain ⟨entry', found', same⟩ := valid.current inFile.truthful
    obtain rfl := Option.some.inj (found.symm.trans found')
    rwa [size_bare same] at nonempty
  · refine Triple.bind (M := fun current s =>
      (∀ entry, s.run.manifest.entries[file.idx]? = some entry → current = some entry) ∧
        InFile platform env m job single sure file ⟨file.idx, k, true⟩ 0 s.run ∧
        Going platform env m job single sure ⟨file.idx, k, true⟩ s.ghost)
      (Triple.observe fun s ⟨inFile, going⟩ =>
        ⟨fun _ found => found, ⟨inFile.truthful.begin, inFile.there⟩, going⟩) fun current => ?_
    refine Triple.ite (fun set => ?_) fun unset => ?_
    · -- the bit was set before the run
      refine Triple.bind (M := fun intact s =>
        ((intact = true ↔ chunkIntact platform s.run.world.fs m.chunkSize file.dst file.entry k = true) ∧
          Claimed platform env m job single sure file k s.run) ∧
          Going platform env m job single sure ⟨file.idx, k, true⟩ s.ghost)
        ((lift_going (verify_inFile orderly valid hash) fun _ _ inFile => inFile.2.truthful).pre ?_)
        fun intact => ?_
      · rintro s ⟨same, inFile, going⟩
        refine ⟨⟨fun entry found => ?_, inFile⟩, going⟩
        rw [same entry found] at set
        exact Option.some.inj set
      · refine Triple.ite (fun yes => Triple.pure fun s ⟨⟨present, marked, inFile⟩, going⟩ => ?_)
          fun no => ?_
        · refine ⟨⟨inFile.truthful.pass fun entry found _ _ => ⟨marked entry found, ?_⟩, inFile.there⟩,
            going.collected⟩
          obtain ⟨entry', found', same⟩ := valid.current inFile.truthful
          obtain rfl := Option.some.inj (found'.symm.trans found)
          rw [chunkPresent_bare same]
          exact chunkPresent_iff.mpr ⟨file.dst, valid.dest, present.mp yes⟩
        · refine Triple.pre (?_ : Triple (fun s => (¬ ∀ i k, sure i k) ∧
            Claimed platform env m job single sure file k s.run ∧
            Going platform env m job single sure ⟨file.idx, k, true⟩ s.ghost) _ _ _)
            fun s holds => ⟨fun all => no (holds.1.1.mpr ?_), holds.1.2, holds.2⟩
          · refine Triple.given fun unsure => Triple.bind (lift_surely (clear_inFile orderly valid inside)) fun _ => ?_
            refine Triple.bind (lift_surely (discount_inFile unsure)) fun _ => ?_
            exact watchedRetries_going orderly valid inside nonempty hash
          · -- a bit that is sure tells the truth
            obtain ⟨marked, inFile⟩ := holds.1.2
            obtain ⟨entry, found, same⟩ := valid.current inFile.truthful
            have present := inFile.truthful.honest file.idx k entry found (chunkCount_bare same ▸ inside)
              (size_bare same ▸ nonempty) (Or.inl (all _ _)) (marked entry found)
            rw [chunkPresent_bare same] at present
            obtain ⟨loc, dest, intact⟩ := chunkPresent_iff.mp present
            obtain rfl := Option.some.inj (dest.symm.trans valid.dest)
            exact intact
    · refine (watchedRetries_going orderly valid inside nonempty hash).pre ?_
      rintro s ⟨same, inFile, going⟩
      refine ⟨⟨fun entry found => ?_, inFile⟩, going⟩
      rw [same entry found] at unset
      exact Bool.eq_false_iff.mpr fun done => unset (congrArg some done)

/-! ### The entry loop -/

/-- The chunk loop. -/
theorem watchedChunks_going (orderly : Orderly platform env m job single)
    (valid : file.Valid env m job single) :
    Triple
      (fun s => InFile platform env m job single sure file ⟨file.idx, 0, false⟩ 0 s.run ∧
        Collected platform env m job single sure s.ghost)
      (file.entry.chunkHashes.zipIdx.forM (watchedChunk platform job bytesTotal m.chunkSize file))
      (fun _ s =>
        InFile platform env m job single sure file ⟨file.idx, file.entry.chunkCount, false⟩ 0 s.run ∧
        Collected platform env m job single sure s.ghost)
      (fun _ => Stopped platform env m job single sure) := by
  rw [ManifestEntry.chunkCount, ← List.length_zipIdx (l := file.entry.chunkHashes)]
  refine Triple.forM (fun k (s : Traced Transfer Watch) =>
    InFile platform env m job single sure file ⟨file.idx, k, false⟩ 0 s.run ∧
      Collected platform env m job single sure s.ghost) fun k inside => ?_
  rw [List.length_zipIdx] at inside
  rw [List.getElem_zipIdx, Nat.zero_add]
  exact watchedChunk_going orderly valid inside (List.getElem?_eq_getElem inside)

/-- Hashing a destination leaves the destinations alone. -/
theorem keeps_hashFile (orderly : Orderly platform env m job single) {entry : ManifestEntry}
    (member : entry ∈ m.entries) {path : Path}
    (dest : path.lexical env.cwd = destLoc env.cwd job.target m.rootName single entry)
    {kept : Loc → Node → Prop} (among : Among env m job single kept) :
    Keeps (Holds env kept) (hashFile platform path m.chunkSize) :=
  (hashFile_settles (orderly.spares among) orderly.positive fun loc lexical =>
    orderly.alone entry member loc (dest.symm.trans lexical)).post
      fun _ _ ⟨_, _, _, _, _, holds⟩ => holds.mono fun _ _ member => Or.inl member

/-- **One round of the entry loop.** -/
theorem watchedEntry_going (orderly : Orderly platform env m job single) (idx : Nat) :
    Triple
      (fun s => Truthful platform env m job single sure ⟨idx, 0, false⟩ 0 s.run ∧
        Collected platform env m job single sure s.ghost)
      (watchedEntry platform job single bytesTotal m.chunkSize idx)
      (fun _ s => Truthful platform env m job single sure ⟨idx + 1, 0, false⟩ 0 s.run ∧
        Collected platform env m job single sure s.ghost)
      (fun _ => Stopped platform env m job single sure) := by
  refine Triple.bind arrive_going fun _ => ?_
  refine Triple.bind (M := fun manifest s => manifest.bare = m.bare ∧
    Truthful platform env m job single sure ⟨idx, 0, false⟩ 0 s.run ∧
      Going platform env m job single sure ⟨idx, 0, false⟩ s.ghost)
    (Triple.observe fun s holds => ⟨holds.1.bare_eq, holds⟩) fun manifest => ?_
  refine Triple.given fun same => ?_
  cases found : manifest.entries[idx]? with
  | none => exact Triple.throw fun s holds => holds.2.stopped holds.1
  | some entry =>
    have rootName := rootName_bare same
    obtain ⟨entry', found', sameEntry⟩ := entry_of_bare same found
    have on : OnDestinations env m job single
        (Truthful platform env m job single sure ⟨idx, 0, false⟩ 0) := truthful_onDestinations
    refine Triple.bind (lift_going (on.keeps_sys fun kept among =>
      keeps_isFile (orderly.spares among) _) fun _ _ fails => fails) fun sourceIsFile => ?_
    refine Triple.bind (lift_going (on.keeps_sys fun kept among =>
      settled_createParent (orderly.spares among) _) fun _ _ fails => fails) fun _ => ?_
    refine Triple.bind (lift_going (on.keeps_sys fun kept among =>
      Triple.context ((keeps_openRead (orderly.spares among) _).post fun _ _ opened => opened.2))
        fun _ _ fails => fails) fun src => ?_
    refine Triple.bind (M := fun dst s =>
      destLoc env.cwd job.target manifest.rootName single entry = some dst ∧
        Truthful platform env m job single sure ⟨idx, 0, false⟩ 0 s.run ∧
        Going platform env m job single sure ⟨idx, 0, false⟩ s.ghost)
      ((lift_going (on.sys fun kept among => Triple.context (keeps_openWrite (orderly.spares among) _))
        fun _ _ fails => fails).post fun dst s ⟨⟨opened, truthful⟩, going⟩ => ⟨opened, truthful, going⟩)
      fun dst => Triple.given fun opened => ?_
    rw [rootName] at opened
    have valid : OpenEntry.Valid env m job single ⟨idx, entry, src, dst⟩ :=
      ⟨⟨entry', found', sameEntry.symm⟩, opened⟩
    refine Triple.bind (lift_going (setLen_inFile orderly valid) fun _ _ fails => fails) fun _ => ?_
    refine Triple.bind (Triple.pre (watchedChunks_going orderly valid) fun s ⟨inFile, going⟩ =>
      ⟨inFile, going.collected⟩) fun _ => ?_
    refine Triple.bind (arrive_going) fun _ => ?_
    refine Triple.bind (lift_going ((inFile_onDestinations valid).keeps_sys fun kept among =>
      keeps_hashFile orderly (List.mem_of_getElem? found')
        ((congrArg (Path.lexical env.cwd) (by rw [rootName])).trans (destLoc_bare sameEntry)) among)
      fun _ _ inFile => inFile.truthful) fun hashes => ?_
    refine Triple.ite (fun _ => Triple.throw fun s holds => holds.2.stopped holds.1.truthful) fun _ => ?_
    refine (lift_surely (Triple.update fun t inFile => ?_)).post fun _ s holds =>
      ⟨holds.1, holds.2.collected⟩
    have past := inFile.truthful.nextEntry fun other seen => by
      obtain ⟨current, seen', same'⟩ := valid.current inFile.truthful
      obtain rfl := Option.some.inj (seen'.symm.trans seen)
      exact Nat.le_of_eq (chunkCount_bare same')
    exact ⟨past.env_eq, past.bare_eq, past.lengths, past.honest, past.marked, past.kept,
      past.counted.now, past.counted.events⟩

/-! ### The whole run -/

/-- **Everything after the start of a run.** -/
theorem watchedFiles_truthful (orderly : Orderly platform env m job single) :
    Triple
      (fun s => Truthful platform env m job single sure ⟨0, 0, false⟩ 0
        { s.run with bytesDone := 0 } ∧ s.ghost = .start)
      (watchedFiles platform job single) (fun _ => Stopped platform env m job single sure)
      (fun _ => Stopped platform env m job single sure) := by
  refine Triple.bind (M := fun manifest s => manifest.bare = m.bare ∧ (s.run.manifest = manifest ∧
    Truthful platform env m job single sure ⟨0, 0, false⟩ 0 { s.run with bytesDone := 0 }) ∧
      s.ghost = .start)
    (Triple.observe fun s ⟨truthful, fresh⟩ => ⟨truthful.bare_eq, ⟨rfl, truthful⟩, fresh⟩)
    fun manifest => ?_
  refine Triple.given fun same => ?_
  rw [chunkSize_bare same]
  refine Triple.bind (M := fun _ s =>
    Truthful platform env m job single sure ⟨0, 0, false⟩ 0 s.run ∧
      Going platform env m job single sure ⟨0, 0, false⟩ s.ghost) ?_ fun _ => ?_
  · refine Triple.zoom fun s ⟨⟨isManifest, truthful⟩, fresh⟩ => Triple.update fun t here => ?_
    subst here
    have counted : doneSize platform manifest ≤ doneBytes platform s.run.manifest + 0 := by
      rw [isManifest]
      exact doneSize_le platform manifest
    refine ⟨⟨truthful.env_eq, truthful.bare_eq, truthful.lengths, truthful.honest, truthful.marked,
      truthful.kept, counted, truthful.counted.events⟩, ?_⟩
    show Going platform env m job single sure ⟨0, 0, false⟩ s.ghost
    rw [fresh]
    exact ⟨rfl, rfl, fun _ member => absurd member List.not_mem_nil,
      fun _ member => absurd member List.not_mem_nil⟩
  refine Triple.bind (watchedProgress_going _ (fun _ holds => holds)
    fun _ truthful => truthful.report _ _) fun _ => ?_
  refine Triple.bind ((Triple.forM_range (fun idx (s : Traced Transfer Watch) =>
    Truthful platform env m job single sure ⟨idx, 0, false⟩ 0 s.run ∧
      Collected platform env m job single sure s.ghost) fun idx _ =>
        watchedEntry_going orderly idx).pre fun s holds => ⟨holds.1, holds.2.collected⟩) fun _ => ?_
  refine Triple.bind arrive_going fun _ => ?_
  refine Triple.bind (watchedCheckpoint_going orderly truthful_onDestinations fun _ holds => holds)
    fun _ => ?_
  exact Triple.observe fun s holds => holds.2.stopped holds.1

end Watch

/-! ### Manifests that were built -/

/-- A manifest is built with chunks that are not empty, and with a bit for each chunk that is clear. -/
theorem buildManifest_fresh (platform : Platform) (path : Path) (chunkSize : Nat) :
    Triple (fun _ => True) (buildManifest platform path chunkSize)
      (fun manifest _ => 0 < manifest.chunkSize ∧ ∀ entry ∈ manifest.entries,
        entry.resumeBitmap = List.replicate ((entry.chunkCount + 7) / 8) 0) fun _ _ => True := by
  have entry (file : Path) (relativePath : String) (size : Nat) :
      Triple (fun _ => True) (buildEntry platform file relativePath size)
        (fun entry _ => entry.resumeBitmap = List.replicate ((entry.chunkCount + 7) / 8) 0 ∧ True)
        fun _ _ => True :=
    (buildEntry_fresh platform file relativePath size).post fun _ _ bitmap => ⟨bitmap, trivial⟩
  refine Triple.bind (Triple.anything _) fun root => ?_
  refine Triple.bind (Triple.anything _) fun single => ?_
  refine Triple.bind (M := fun entries _ => (∀ entry ∈ entries,
    entry.resumeBitmap = List.replicate ((entry.chunkCount + 7) / 8) 0) ∧ True) ?_ fun entries =>
      Triple.given fun bitmaps => Triple.bind (Triple.anything _) fun t => Triple.pure fun _ _ =>
        ⟨effectiveChunkSize_pos chunkSize, bitmaps⟩
  refine Triple.ite (fun _ => ?_) fun _ => ?_
  · refine Triple.bind (entry _ _ _) fun built => Triple.given fun bitmap => Triple.pure fun _ _ => ?_
    refine ⟨fun other member => ?_, trivial⟩
    rw [List.mem_singleton.mp member]
    exact bitmap
  · refine Triple.bind (Triple.anything _) fun items => Triple.bind (Triple.anything _) fun fs => ?_
    refine (Triple.mapM _ fun file _ => entry _ _ _).post fun entries _ ⟨all, _⟩ => ?_
    refine ⟨fun entry member => ?_, trivial⟩
    obtain ⟨file, _, bitmap⟩ := forall₂_partner all.flip member
    exact bitmap

/-- The bitmaps have a bit for each chunk. -/
theorem buildManifest_shape (platform : Platform) (path : Path) (chunkSize : Nat) :
    Triple (fun _ => True) (buildManifest platform path chunkSize)
      (fun manifest _ => 0 < manifest.chunkSize ∧ ∀ entry ∈ manifest.entries,
        entry.resumeBitmap.length = (entry.chunkCount + 7) / 8) fun _ _ => True :=
  (buildManifest_fresh platform path chunkSize).post fun _ _ ⟨positive, bitmaps⟩ =>
    ⟨positive, fun entry member => by rw [bitmaps entry member, List.length_replicate]⟩

/-- The same manifest with other bits. -/
structure Rebitted (m m' : TransferManifest) : Prop where
  bare_eq : m'.bare = m.bare
  lengths : ∀ (i : Nat) (entry entry' : ManifestEntry), m.entries[i]? = some entry →
    m'.entries[i]? = some entry' → entry'.resumeBitmap.length = entry.resumeBitmap.length

theorem Rebitted.refl (m : TransferManifest) : Rebitted m m :=
  ⟨rfl, fun _ _ _ found found' => by rw [Option.some.inj (found.symm.trans found')]⟩

theorem Rebitted.trans {m m' m'' : TransferManifest} (first : Rebitted m m')
    (second : Rebitted m' m'') : Rebitted m m'' := by
  refine ⟨second.bare_eq.trans first.bare_eq, fun i entry entry'' found found'' => ?_⟩
  obtain ⟨entry', found', _⟩ := entry_of_bare second.bare_eq found''
  rw [second.lengths i entry' entry'' found' found'', first.lengths i entry entry' found found']

/-- The bitmaps have a bit for each chunk, whatever the bits are. -/
theorem Rebitted.reach {m m' : TransferManifest} (bits : Rebitted m m')
    (bitmaps : ∀ entry ∈ m.entries, entry.resumeBitmap.length = (entry.chunkCount + 7) / 8) :
    ∀ entry ∈ m'.entries, ∀ k < entry.chunkCount, k / 8 < entry.resumeBitmap.length := by
  intro entry member k inside
  obtain ⟨i, found⟩ := List.getElem?_of_mem member
  obtain ⟨entry', found', same⟩ := entry_of_bare bits.bare_eq found
  rw [bits.lengths i entry' entry found' found, bitmaps entry' (List.mem_of_getElem? found'),
    ← chunkCount_bare same]
  omega

/-- No offset overflows. -/
def OffsetsFit (platform : Platform) (m : TransferManifest) : Prop :=
  ∀ entry ∈ m.entries, ∀ k < entry.chunkCount, k * m.chunkSize < 2 ^ platform.pointerWidth

instance (platform : Platform) (m : TransferManifest) : Decidable (OffsetsFit platform m) :=
  inferInstanceAs (Decidable (∀ entry ∈ m.entries, _))

/-- No chunk of a manifest that was built is empty. -/
theorem ManifestOf.chunkLen_ne_zero {platform : Platform} {env : Surroundings} {fs : FileSystem}
    {chunkSize : Nat} {root : Loc} {single : Bool} {m : TransferManifest}
    (described : ManifestOf platform env fs chunkSize root single m)
    (fills : env.FillsBuffers (effectiveChunkSize chunkSize)) (offsets : OffsetsFit platform m) :
    ∀ entry ∈ m.entries, ∀ k < entry.chunkCount,
      chunkLen platform entry.size k m.chunkSize ≠ 0 := by
  intro entry member k inside
  obtain ⟨file, _, content, _, describes⟩ := forall₂_partner described.entries.flip member
  have fits := offsets entry member k inside
  have positive : 0 < m.chunkSize := described.chunkSize_eq ▸ effectiveChunkSize_pos chunkSize
  have count : entry.chunkCount = pieceCount m.chunkSize content.length := by
    rw [ManifestEntry.chunkCount, describes.chunkHashes_eq fills, List.length_map, pieces,
      List.length_map, List.length_range, described.chunkSize_eq]
  rw [count] at inside
  have before := mul_lt_of_lt_pieceCount inside
  rw [chunkLen, chunkOffset, Nat.mod_eq_of_lt fits, describes.size_eq]
  omega

/-! ### The bitmaps at every save -/

/-- The bitmaps tell the truth at a moment of a run that was called with the manifest `m`. -/
structure BitmapsTrue (platform : Platform) (cwd : Loc) (target : Path) (layout : Option Bool)
    (m : TransferManifest) (moment : Moment) : Prop where
  behind : ∀ (i k : Nat) (entry : ManifestEntry), moment.run.manifest.entries[i]? = some entry →
    k < entry.chunkCount → moment.place.Behind i k →
      isChunkDone entry k = true ∧ ∃ single ∈ layout, chunkPresent platform moment.run.world.fs cwd
        target m.rootName single m.chunkSize entry k = true
  ahead : ∀ (i k : Nat) (entry entry' : ManifestEntry), m.entries[i]? = some entry →
    moment.run.manifest.entries[i]? = some entry' → moment.place.Ahead i k →
      isChunkDone entry' k = isChunkDone entry k
  rest : moment.run.manifest.bare = m.bare

/-- What the invariant of a run says of a moment. -/
theorem Truthful.bitmapsTrue {platform : Platform} {env : Surroundings} {m : TransferManifest}
    {job : Job} {single : Bool} {sure : Nat → Nat → Prop} {owed : Nat} {moment : Moment}
    {layout : Option Bool} (started : layout = some single)
    (truthful : Truthful platform env m job single sure moment.place owed moment.run)
    (full : ∀ entry ∈ m.entries, ∀ k < entry.chunkCount,
      chunkLen platform entry.size k m.chunkSize ≠ 0) :
    BitmapsTrue platform env.cwd job.target layout m moment := by
  refine ⟨fun i k entry found inside left => ?_, truthful.kept, truthful.bare_eq⟩
  obtain ⟨entry', found', same⟩ := truthful.entry found
  have nonempty : chunkLen platform entry.size k m.chunkSize ≠ 0 := by
    rw [size_bare same]
    exact full entry' (List.mem_of_getElem? found') k (chunkCount_bare same ▸ inside)
  have set := truthful.marked i k entry found inside nonempty left
  exact ⟨set, single, started, truthful.honest i k entry found inside nonempty (Or.inr left) set⟩

/-- At the start of a run nothing was left behind. -/
theorem truthful_start {platform : Platform} {env : Surroundings} {job : Job} {single : Bool}
    {sure : Nat → Nat → Prop} {t : Transfer} (sameEnv : t.world.env = env)
    (honest : ∀ (i k : Nat) (entry : ManifestEntry), t.manifest.entries[i]? = some entry →
      k < entry.chunkCount → sure i k → isChunkDone entry k = true → chunkPresent platform t.world.fs
        env.cwd job.target t.manifest.rootName single t.manifest.chunkSize entry k = true)
    (fresh : (∀ i k, sure i k) → t.events = []) :
    Truthful platform env t.manifest job single sure ⟨0, 0, false⟩ 0 { t with bytesDone := 0 } := by
  have nothing {i k : Nat} : ¬ Place.Behind ⟨0, 0, false⟩ i k := by
    rintro (negative | ⟨_, negative⟩)
    · exact absurd negative (Nat.not_lt_zero _)
    · exact absurd negative (Nat.not_lt_zero _)
  refine ⟨sameEnv, rfl, ?_, fun i k entry found inside _ claimed => ?_,
    fun i k entry _ _ _ left => (nothing left).elim, ?_, Nat.zero_le _, fun all event member => ?_⟩
  · intro i entry entry' found found'
    rw [Option.some.inj (found.symm.trans found')]
  · exact honest i k entry found inside (claimed.resolve_right nothing)
  · intro i k entry entry' found found' _
    rw [Option.some.inj (found.symm.trans found')]
  · rw [show t.events = [] from fresh all] at member
    exact absurd member List.not_mem_nil

/-- What is said of a run before it counts only depends on the destinations. -/
theorem uncounted_onDestinations {platform : Platform} {env : Surroundings} {m : TransferManifest}
    {job : Job} {single : Bool} {sure : Nat → Nat → Prop} {place : Place} :
    OnDestinations env m job single fun t =>
      Truthful platform env m job single sure place 0 { t with bytesDone := 0 } :=
  ⟨fun _ truthful => truthful.env_eq, fun t w truthful sameEnv kept =>
    truthful_onDestinations.moved { t with bytesDone := 0 } w truthful sameEnv kept⟩

/-- The start of a run leaves the destinations alone. -/
theorem startTransfer_keeps {platform : Platform} {env : Surroundings} {m : TransferManifest}
    {job : Job} {single : Bool} {inv : Transfer → Prop} (orderly : Orderly platform env m job single)
    (on : OnDestinations env m job single inv) : Keeps inv (startTransfer job) := by
  refine Triple.bind (on.keeps_sys fun kept among =>
    Triple.context (keeps_createDirAll (orderly.spares among) _)) fun _ => ?_
  refine Triple.bind (on.keeps_sys fun kept among => keeps_isFile (orderly.spares among) _) fun _ => ?_
  exact Triple.bind (M := fun _ => inv) (Triple.observe fun _ holds => holds) fun _ =>
    Triple.pure fun _ holds => holds

/-- A call to the system changes nothing but the world. -/
theorem sys_worldOnly {α : Type} {inv : Transfer → Prop} (prog : Sys α)
    (moved : ∀ (t : Transfer) (w : World), inv t → inv { t with world := w }) :
    Keeps inv (sys prog) :=
  Triple.zoom fun t holds => (Triple.anything prog).conseq (fun _ start => start)
    (fun _ w _ => moved t w holds) fun _ w _ => moved t w holds

/-- The start of a run changes nothing but the world. -/
theorem startTransfer_worldOnly {inv : Transfer → Prop} (job : Job)
    (moved : ∀ (t : Transfer) (w : World), inv t → inv { t with world := w }) :
    Keeps inv (startTransfer job) := by
  refine Triple.bind (sys_worldOnly _ moved) fun _ => ?_
  refine Triple.bind (sys_worldOnly _ moved) fun sourceIsFile => ?_
  exact Triple.bind (M := fun _ => inv) (Triple.observe fun _ holds => holds)
    fun manifest => Triple.pure fun _ holds => holds

/-- Saving the checkpoint changes nothing but the world. -/
theorem saveCheckpoint_worldOnly {platform : Platform} {inv : Transfer → Prop} (job : Job)
    (moved : ∀ (t : Transfer) (w : World), inv t → inv { t with world := w }) :
    Keeps inv (saveCheckpoint platform job) := by
  refine Triple.bind (M := fun _ => inv) (Triple.observe fun _ holds => holds) fun manifest => ?_
  cases job.checkpoint with
  | none => exact Triple.pure fun _ holds => holds
  | some path => exact sys_worldOnly _ moved

/-- **The resume bitmap tells the truth**: at every save and at the end, whatever fails, the chunks
that were left behind are marked and in the target, and the rest of the manifest is as it was; a
chunk whose attempts are exhausted is not marked. -/
theorem watch_bitmapsTrue {platform : Platform} {path : Path} {chunkSize : Nat} {w w' : World}
    {m : TransferManifest} (still : w.env.Still)
    (fills : w.env.FillsBuffers (effectiveChunkSize chunkSize))
    (built : buildManifest platform path chunkSize w = .ok m w') {job : Job} {t t' : Transfer}
    (bits : Rebitted m t.manifest)
    (distinct : ∀ single ∈ layout job t,
      DistinctDestinations t.world.env.cwd job.target single t.manifest)
    (alone : ∀ single ∈ layout job t, WritesAlone t.world.env job.target single t.manifest)
    (apart : ∀ single ∈ layout job t, CheckpointApart t.world.env.cwd job single t.manifest)
    (offsets : OffsetsFit platform t.manifest)
    (ends : Ends (executeLocalTransfer platform job) t t') :
    (∀ moment ∈ (watchOf platform job t).saves,
      BitmapsTrue platform t.world.env.cwd job.target (layout job t) t.manifest moment) ∧
    BitmapsTrue platform t.world.env.cwd job.target (layout job t) t.manifest
      ⟨(watchOf platform job t).place, t'⟩ ∧
    ((watchOf platform job t).exhausted = true →
      BitClear (watchOf platform job t).place.entry (watchOf platform job t).place.chunk t') := by
  obtain ⟨⟨root, sourceIsFile, _, described⟩, _⟩ :=
    (buildManifest_stands still path chunkSize).of_ok ⟨rfl, rfl⟩ built
  obtain ⟨_, bitmaps⟩ := (buildManifest_shape platform path chunkSize).of_ok trivial built
  have described := described.of_bare bits.bare_eq
  have full := described.chunkLen_ne_zero fills offsets
  cases started : startTransfer job t with
  | error error t₁ =>
    obtain ⟨rfl, watched⟩ := watchOf_not_started started ends
    have same : t'.manifest = t.manifest := by
      have kept : Keeps (fun s => s.manifest = t.manifest) (startTransfer job) :=
        startTransfer_worldOnly job fun _ _ same => same
      exact (kept.of_ends rfl (Or.inr ⟨error, started⟩))
    rw [watched]
    refine ⟨fun moment member => absurd member List.not_mem_nil, ⟨?_, ?_, congrArg _ same⟩,
      fun exhausted => by cases exhausted⟩
    · rintro i k entry _ _ (negative | ⟨_, negative⟩)
      · exact absurd negative (Nat.not_lt_zero _)
      · exact absurd negative (Nat.not_lt_zero _)
    · intro i k entry entry' found found' _
      rw [Option.some.inj (found.symm.trans ((congrArg (·.entries[i]?) same).symm.trans found'))]
  | ok single t₁ =>
    have isLayout : layout job t = some single := by rw [layout, returned, started]
    have orderly : Orderly platform t.world.env t.manifest job single :=
      ⟨described.chunkSize_eq ▸ effectiveChunkSize_pos chunkSize, distinct single isLayout,
        alone single isLayout, apart single isLayout, offsets, bits.reach bitmaps⟩
    have begun : Truthful platform t.world.env t.manifest job single (fun _ _ => False) ⟨0, 0, false⟩ 0
        { t₁ with bytesDone := 0 } :=
      (startTransfer_keeps orderly uncounted_onDestinations).of_ok
        (truthful_start rfl (fun _ _ _ _ _ => False.elim) fun all => (all 0 0).elim) started
    have stopped := watched_ends_started started (watchedFiles_truthful orderly) ⟨begun, rfl⟩ ends
    refine ⟨fun moment member => ?_, ?_, stopped.clear⟩
    · exact (stopped.collected.saves moment member).bitmapsTrue isLayout full
    · exact Truthful.bitmapsTrue isLayout stopped.truthful full

/-! ### The run on the small tree, with a checkpoint -/

/-- The run saves its manifest to `/c`. -/
def checkpointJob : Job := { sampleJob with checkpoint := some (.ofString "/c") }

theorem checkpoint_layout : layout checkpointJob sampleTransfer = some true := by decide +kernel

theorem checkpoint_saves : (watchOf samplePlatform checkpointJob sampleTransfer).saves.length = 2 := by
  decide +kernel

/-- Both saves of the run on the small tree tell the truth. -/
theorem watch_bitmapsTrue_sample :
    (watchOf samplePlatform checkpointJob sampleTransfer).saves.length = 2 ∧
    ∀ moment ∈ (watchOf samplePlatform checkpointJob sampleTransfer).saves,
      BitmapsTrue samplePlatform [] checkpointJob.target (some true) (sampleManifest [1]) moment := by
  refine ⟨checkpoint_saves, ?_⟩
  obtain ⟨w', built⟩ := sample_built
  obtain ⟨t', run⟩ : ∃ t', executeLocalTransfer samplePlatform checkpointJob sampleTransfer =
      .ok ⟨2, 2, 1, 1⟩ t' := ok_of_returned (by decide +kernel)
  have place : destLoc [] checkpointJob.target "s" true (sampleManifest [1]).entries[0] =
      some [⟨[116], by decide⟩, ⟨[115], by decide⟩] := by decide +kernel
  have isLayout := checkpoint_layout
  have only {single : Bool} (member : single ∈ layout checkpointJob sampleTransfer) : single = true :=
    (Option.some.inj (isLayout.symm.trans member)).symm
  rw [← isLayout]
  refine (watch_bitmapsTrue (fun _ _ => rfl) (fun _ => (by decide : effectiveChunkSize 2 ≤ 1024))
    built ⟨rfl, ?_⟩ ?_ (fun _ _ _ _ _ _ _ _ => rfl) ?_ (by decide +kernel)
    (Or.inl ⟨_, run⟩)).1
  · intro i entry entry' found found'
    obtain rfl : i = 0 := Nat.lt_one_iff.mp (List.getElem?_eq_some_iff.mp found).1
    obtain rfl := Option.some.inj found
    obtain rfl := Option.some.inj found'
    rfl
  · exact fun single _ => distinctDestinations_of_nodup (List.nodup_singleton _)
  · intro single member path saved entry listed loc dest denotes
    obtain rfl := only member
    obtain rfl := List.mem_singleton.mp listed
    obtain rfl := Option.some.inj saved
    obtain rfl := Option.some.inj (place.symm.trans dest)
    revert denotes
    decide +kernel

/-! ### A source that grows while its manifest is built -/

/-- Somebody writes "hijk" to `/s` before the fourth call: `metadata` has returned, and the file is
opened. -/
def growingEnv : Surroundings :=
  { sampleEnv with
    turns := fun n =>
      let t := sampleEnv.turns n
      if n = 3 then { t with edit := fun fs => fs.put sampleRoot (.file [104, 105, 106, 107] 8) } else t }

def growingWorld : World := { sampleWorld with env := growingEnv }

/-- The size is that of "hi", and the hashes are those of "hijk". -/
def growingManifest : TransferManifest :=
  { sampleManifest [] with
    entries := [⟨"s", 2, 7, sampleHash [104, 105, 106, 107],
      [sampleHash [104, 105], sampleHash [106, 107]], [0]⟩] }

/-- The run finds the source as it has become. -/
def grownTransfer : Transfer where
  world := { sampleWorld with fs := sampleWorld.fs.put sampleRoot (.file [104, 105, 106, 107] 8) }
  manifest := growingManifest
  bytesDone := 0
  filesCompleted := 0
  events := []

/-- **A chunk is left behind and not marked**: the second chunk begins where the size ends, so that
the loop passes it by, and the run ends when the hash of the target is not the one in the manifest. -/
theorem watch_bitmapsTrue_grown :
    ∃ w' t', buildManifest samplePlatform (.ofString "/s") 2 growingWorld = .ok growingManifest w' ∧
      growingEnv.FillsBuffers (effectiveChunkSize 2) ∧
      Rebitted growingManifest grownTransfer.manifest ∧
      (∀ single ∈ layout sampleJob grownTransfer,
        DistinctDestinations [] sampleJob.target single growingManifest ∧
        WritesAlone sampleEnv sampleJob.target single growingManifest ∧
        CheckpointApart [] sampleJob single growingManifest) ∧
      OffsetsFit samplePlatform growingManifest ∧
      Ends (executeLocalTransfer samplePlatform sampleJob) grownTransfer t' ∧
      ¬ BitmapsTrue samplePlatform [] sampleJob.target (layout sampleJob grownTransfer)
        growingManifest ⟨(watchOf samplePlatform sampleJob grownTransfer).place, t'⟩ := by
  obtain ⟨w', built⟩ : ∃ w', buildManifest samplePlatform (.ofString "/s") 2 growingWorld =
      .ok growingManifest w' := ok_of_returned (by decide +kernel)
  have stopped : (watchOf samplePlatform sampleJob grownTransfer).place = ⟨0, 2, false⟩ := by
    decide +kernel
  have unmarked : (final (executeLocalTransfer samplePlatform sampleJob)
      grownTransfer).manifest.entries.map (fun entry => (entry.chunkCount, isChunkDone entry 1)) =
        [(2, false)] := by decide +kernel
  refine ⟨w', _, built, fun n => ?_, Rebitted.refl _, fun single _ => ⟨?_, ?_, ?_⟩, by decide +kernel,
    ends_final _ _, fun holds => ?_⟩
  · show effectiveChunkSize 2 ≤ (if n = 3 then _ else sampleEnv.turns n : Turn).grant
    rw [apply_ite Turn.grant, ite_self]
    exact (by decide : effectiveChunkSize 2 ≤ 1024)
  · exact distinctDestinations_of_nodup (List.nodup_singleton _)
  · exact fun _ _ _ _ _ _ => rfl
  · exact fun _ saved => by cases saved
  · obtain ⟨entry, single, marks⟩ := List.map_eq_singleton_iff.mp unmarked
    obtain ⟨count, unmarked⟩ := Prod.mk.inj marks
    have behind : Place.Behind ⟨0, 2, false⟩ 0 1 := Or.inr ⟨rfl, by decide⟩
    have marked := (holds.behind 0 1 entry (by rw [single]; rfl) (by rw [count]; decide)
      (stopped ▸ behind)).1
    rw [unmarked] at marked
    cases marked

end SendRs
