/-
**One manifest for all receivers.**

`cmd_send` serves one claim after the other with the same manifest in memory, so a transfer starts
with the bits that the receivers before have left behind. The machine `sharing` takes one step for
each claim that is served; `Record` is a number that is written about a claim, next to what is in its
target right then.

* `overReports`: a second receiver is told of bytes that only the first one has.
* `Honest` is what the steps have to meet: a set bit is true of the target of the claim.
* `progress_honest`: in runs of such steps no number is too large.
-/

import SendRs.Cli.Session
import SendRs.Transfer.Checkpoints

namespace SendRs.Cli

open Effect Machines

/-- A `bytes_done` that was written about a claim, to `state.json` and, when the transfer has failed,
to the history, with the bytes of the chunks that are in the target right then. -/
structure Record where
  state : Phase
  bytesDone : Nat
  present : Nat
deriving DecidableEq

/-- The sender between two claims. -/
structure Sharing where
  world : World
  manifest : TransferManifest
  records : List Record

/-- The next claim that is served, and what has happened to the files by then. -/
structure Visit where
  targetDir : String
  meanwhile : FileSystem → FileSystem

/-- What is in the target of a run. -/
def presentNow (platform : Platform) (job : Job) (single : Bool) (t : Transfer) : Nat :=
  presentBytes platform t.world.fs t.world.env.cwd job.target single t.manifest

/-- `last_print` after the events of a run. -/
def lastPrint (events : List ProgressEvent) : Nat :=
  events.foldl (fun last event => nextPrint last event.bytesDone event.bytesTotal) 0

/-- What is written about a claim: at every progress event, and when the transfer fails. -/
def recordsOf (platform : Platform) (job : Job) (t : Transfer) : List Record :=
  let single := (layout job t).getD false
  let during := (watchOf platform job t).reports.map fun moment =>
    ⟨.transferring, moment.run.bytesDone, presentNow platform job single moment.run⟩
  match executeLocalTransfer platform job t with
  | .ok _ _ => during
  | .error _ t' => during ++ [⟨.failed, lastPrint t'.events, presentNow platform job single t'⟩]

section Machine

variable (platform : Platform) (source manifestPath : Path)

/-- The arguments of `execute_local_transfer` for a claim. -/
def claimJob (visit : Visit) : Job :=
  ⟨source, .ofString visit.targetDir, some manifestPath, defaultMaxRetries⟩

/-- The start of the transfer for a claim. -/
def Sharing.begin (s : Sharing) (visit : Visit) : Transfer :=
  ⟨{ s.world with fs := visit.meanwhile s.world.fs }, s.manifest, 0, 0, []⟩

/-- Serving one claim. -/
def Sharing.serve (s : Sharing) (visit : Visit) : Sharing :=
  let t := s.begin visit
  let t' := final (executeLocalTransfer platform (claimJob source manifestPath visit)) t
  ⟨t'.world, t'.manifest, s.records ++ recordsOf platform (claimJob source manifestPath visit) t⟩

/-- `cmd_send`, from the manifest on. -/
def sharing : Machine Sharing Visit where
  initial s := s.records = [] ∧
    ∃ path w w', buildManifest platform path defaultChunkSize w = .ok s.manifest w'
  step s visit := some (s.serve platform source manifestPath visit)

/-- **What keeps the numbers true**: a set bit is true of the target of the claim, the destinations
are distinct, not the checkpoint and nobody else's, and no offset overflows. -/
structure Honest (s : Sharing) (visit : Visit) : Prop where
  bits : ∀ single ∈ layout (claimJob source manifestPath visit) (s.begin visit),
    ∀ entry ∈ s.manifest.entries, ∀ k < entry.chunkCount, isChunkDone entry k = true →
      chunkPresent platform (visit.meanwhile s.world.fs) s.world.env.cwd (.ofString visit.targetDir)
        s.manifest.rootName single s.manifest.chunkSize entry k = true
  distinct : ∀ single ∈ layout (claimJob source manifestPath visit) (s.begin visit),
    DistinctDestinations s.world.env.cwd (.ofString visit.targetDir) single s.manifest
  alone : ∀ single ∈ layout (claimJob source manifestPath visit) (s.begin visit),
    WritesAlone s.world.env (.ofString visit.targetDir) single s.manifest
  apart : ∀ single ∈ layout (claimJob source manifestPath visit) (s.begin visit),
    CheckpointApart s.world.env.cwd (claimJob source manifestPath visit) single s.manifest
  offsets : OffsetsFit platform s.manifest

end Machine

/-! ### One transfer -/

section Transfer

variable {platform : Platform} {env : Surroundings} {m : TransferManifest} {job : Job} {single : Bool}
  {place : Place} {owed : Nat} {t t' : Transfer}

/-- When every bit is sure, what the bits stand for is in the target. -/
theorem doneBytes_le_presentNow
    (truthful : Truthful platform env m job single (fun _ _ => True) place owed t) :
    doneBytes platform t.manifest ≤ presentNow platform job single t := by
  refine bytesWhere_le fun entry member k inside nonempty done => ?_
  obtain ⟨i, found⟩ := List.getElem?_of_mem member
  rw [truthful.chunkSize_eq] at nonempty
  rw [truthful.env_eq, truthful.rootName_eq, truthful.chunkSize_eq]
  exact truthful.honest i k entry found inside nonempty (Or.inl trivial) done

/-- `last_print` is one of the numbers that were reported, or zero. -/
theorem lastPrint_le {events : List ProgressEvent} {bound : Nat}
    (each : ∀ event ∈ events, event.bytesDone ≤ bound) : lastPrint events ≤ bound := by
  have general : ∀ last ≤ bound, events.foldl
      (fun last event => nextPrint last event.bytesDone event.bytesTotal) last ≤ bound := by
    induction events with
    | nil => exact fun last small => small
    | cons event events ih =>
      intro last small
      refine ih (fun other member => each other (List.mem_cons_of_mem _ member)) _ ?_
      show (if _ then event.bytesDone else last) ≤ bound
      split
      · exact each event List.mem_cons_self
      · exact small
  exact general 0 (Nat.zero_le _)

variable (platform job t) in
/-- **Serving a claim whose bits are all true**: no number is too large, and the manifest is the same
but for its bits. -/
theorem recordsOf_honest (fresh : t.events = [])
    (orderly : ∀ single ∈ layout job t, Orderly platform t.world.env t.manifest job single)
    (honest : ∀ single ∈ layout job t, ∀ entry ∈ t.manifest.entries, ∀ k < entry.chunkCount,
      isChunkDone entry k = true → chunkPresent platform t.world.fs t.world.env.cwd job.target
        t.manifest.rootName single t.manifest.chunkSize entry k = true) :
    (∀ record ∈ recordsOf platform job t, record.bytesDone ≤ record.present) ∧
      Rebitted t.manifest (final (executeLocalTransfer platform job) t).manifest := by
  have ends := ends_final (executeLocalTransfer platform job) t
  cases started : startTransfer job t with
  | error error t₁ =>
    -- nothing was reported
    obtain ⟨same, watched⟩ := watchOf_not_started started ends
    have stops : executeLocalTransfer platform job t = .error error t₁ := bind_of_error started
    have kept : Keeps (fun s => s.manifest = t.manifest ∧ s.events = []) (startTransfer job) :=
      startTransfer_worldOnly job fun _ _ holds => holds
    obtain ⟨sameManifest, noEvents⟩ := kept.of_ends ⟨rfl, fresh⟩ (Or.inr ⟨error, started⟩)
    refine ⟨fun record member => ?_, ?_⟩
    · rw [recordsOf, stops, watched] at member
      obtain rfl := List.mem_singleton.mp member
      rw [noEvents]
      exact Nat.zero_le _
    · rw [same, sameManifest]
      exact Rebitted.refl _
  | ok single t₁ =>
    have isLayout : layout job t = some single := by rw [layout, returned, started]
    have orderly := orderly single isLayout
    have begun : Truthful platform t.world.env t.manifest job single (fun _ _ => True) ⟨0, 0, false⟩ 0
        { t₁ with bytesDone := 0 } :=
      (startTransfer_keeps orderly uncounted_onDestinations).of_ok
        (truthful_start rfl (fun i k entry found inside _ => honest single isLayout entry
          (List.mem_of_getElem? found) k inside) fun _ => fresh) started
    have stopped := watched_ends_started started (watchedFiles_truthful orderly) ⟨begun, rfl⟩ ends
    have isSingle : (layout job t).getD false = single := by rw [isLayout, Option.getD_some]
    have during (moment : Moment) (member : moment ∈ (watchOf platform job t).reports) :
        moment.run.bytesDone ≤ presentNow platform job single moment.run :=
      have truthful := stopped.collected.reports moment member
      Nat.le_trans truthful.counted.now (doneBytes_le_presentNow truthful)
    refine ⟨fun record member => ?_, stopped.truthful.bare_eq, stopped.truthful.lengths⟩
    rw [recordsOf, isSingle] at member
    rcases ends with ⟨report, run⟩ | ⟨error, run⟩
    · rw [run] at member
      obtain ⟨moment, listed, rfl⟩ := List.mem_map.mp member
      exact during moment listed
    · rw [run] at member
      rcases List.mem_append.mp member with earlier | isLast
      · obtain ⟨moment, listed, rfl⟩ := List.mem_map.mp earlier
        exact during moment listed
      · obtain rfl := List.mem_singleton.mp isLast
        exact Nat.le_trans (lastPrint_le (stopped.truthful.counted.events fun _ _ => trivial))
          (doneBytes_le_presentNow stopped.truthful)

end Transfer

/-! ### Any number of claims -/

section Runs

variable {platform : Platform} {source manifestPath : Path}

/-- What every state keeps: the numbers are true, and the manifest is the one that was built but for
its bits. -/
structure Shared (platform : Platform) (s : Sharing) : Prop where
  records : ∀ record ∈ s.records, record.bytesDone ≤ record.present
  manifest : ∃ path w m w', buildManifest platform path defaultChunkSize w = .ok m w' ∧
    Rebitted m s.manifest

/-- Serving an honest claim keeps it. -/
theorem shared_serve {s : Sharing} {visit : Visit} (shared : Shared platform s)
    (honest : Honest platform source manifestPath s visit) :
    Shared platform (s.serve platform source manifestPath visit) := by
  obtain ⟨path, w, m, w', built, bits⟩ := shared.manifest
  obtain ⟨positive, bitmaps⟩ := (buildManifest_shape platform path _).of_ok trivial built
  have sameSize := chunkSize_bare bits.bare_eq
  have served := recordsOf_honest platform (claimJob source manifestPath visit) (s.begin visit) rfl
    (fun single isLayout => ⟨sameSize ▸ positive, honest.distinct single isLayout,
      honest.alone single isLayout, honest.apart single isLayout, honest.offsets, bits.reach bitmaps⟩)
    honest.bits
  refine ⟨fun record member => ?_, path, w, m, w', built, bits.trans served.2⟩
  rcases List.mem_append.mp member with earlier | isNew
  · exact shared.records record earlier
  · exact served.1 record isNew

/-- **Progress is not over-reported** when the bits are true of each target: every number that is
written while a claim is served, or when its transfer has failed, is at most what is in its target. -/
theorem progress_honest {s : Sharing}
    (reach : Reach (sharing platform source manifestPath) (Honest platform source manifestPath) s) :
    ∀ record ∈ s.records, record.bytesDone ≤ record.present := by
  have shared : Shared platform s := by
    refine reach.invariant ?_ fun s visit s' shared honest step => ?_
    · rintro s ⟨empty, path, w, w', built⟩
      refine ⟨fun record member => ?_, path, w, s.manifest, w', built, Rebitted.refl _⟩
      rw [empty] at member
      exact absurd member List.not_mem_nil
    · obtain rfl := Option.some.inj step
      exact shared_serve shared honest
  exact shared.records

end Runs

/-! ### Two receivers

The source `/s` holds the two bytes of "hi"; `/t` has an old file, and `/u` is empty. -/

def sharedWorld : World where
  env := sampleEnv
  fs := sampleWorld.fs.put [⟨[117], by decide⟩] .dir
  clock := 0

def sharedManifest : TransferManifest := { sampleManifest [0] with chunkSize := defaultChunkSize }

def sharedStart : Sharing := ⟨sharedWorld, sharedManifest, []⟩

theorem shared_built : ∃ w', buildManifest samplePlatform (.ofString "/s") defaultChunkSize sharedWorld =
    .ok sharedManifest w' := ok_of_returned (by decide +kernel)

/-- The sharing of `/s`. -/
def sharedMachine : Machine Sharing Visit := sharing samplePlatform (.ofString "/s") (.ofString "/m")

theorem sharedStart_initial : sharedMachine.initial sharedStart := by
  obtain ⟨w', built⟩ := shared_built
  exact ⟨rfl, _, _, w', built⟩

/-- After the first receiver has got everything, the second one is said to have it, too, before it has
anything. -/
theorem overReports : ∃ s, Reach sharedMachine Anything s ∧
    ∃ record ∈ s.records, record.state = .transferring ∧ record.present < record.bytesDone := by
  refine exists_reach_of_run sharedStart_initial [⟨"/t", id⟩, ⟨"/u", id⟩] ?_
  decide +kernel

/-- The first receiver alone is told the truth. -/
theorem progress_honest_sample : ∃ s, Reach sharedMachine
      (Honest samplePlatform (.ofString "/s") (.ofString "/m")) s ∧
    s.records = [⟨.transferring, 0, 0⟩, ⟨.transferring, 2, 2⟩] ∧
    ∀ record ∈ s.records, record.bytesDone ≤ record.present := by
  have place : destLoc [] (.ofString "/t") "s" true sharedManifest.entries[0] =
      some [⟨[116], by decide⟩, ⟨[115], by decide⟩] := by decide +kernel
  have isLayout : layout (claimJob (.ofString "/s") (.ofString "/m") ⟨"/t", id⟩)
      (sharedStart.begin ⟨"/t", id⟩) = some true := by decide +kernel
  have honest : Honest samplePlatform (.ofString "/s") (.ofString "/m") sharedStart ⟨"/t", id⟩ := by
    refine ⟨fun single _ entry listed k inside done => ?_, ?_, fun _ _ _ _ _ _ _ _ => rfl, ?_,
      by decide +kernel⟩
    · obtain rfl := List.mem_singleton.mp listed
      obtain rfl : k = 0 := Nat.lt_one_iff.mp inside
      exact absurd done (by decide)
    · exact fun single _ => distinctDestinations_of_nodup (List.nodup_singleton _)
    · intro single member path saved entry listed loc dest denotes
      obtain rfl := Option.some.inj (isLayout.symm.trans member)
      obtain rfl := List.mem_singleton.mp listed
      obtain rfl := Option.some.inj saved
      obtain rfl := Option.some.inj (place.symm.trans dest)
      revert denotes
      decide +kernel
  have reach := (Reach.start sharedStart_initial).next honest rfl
  exact ⟨_, reach, by decide +kernel, progress_honest reach⟩

end SendRs.Cli
