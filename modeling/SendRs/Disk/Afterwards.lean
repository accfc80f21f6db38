/-
**After a session.**

What the commands of the device say after a session on the disk, of whatever length: of whom
`is_trusted` returns true (`disk_trust`), and what `load_history` returns (`disk_history`). Both are read
off the session by `session_lockstep`.
-/

import SendRs.Cli.Trust
import SendRs.Cli.Truth
import SendRs.Disk.Follows

namespace SendRs.Disk

open Effect Cli Machines

variable {ι : Type} {host : Host} {serving : Serving ι} {env : Surroundings}

/-! ### What the commands say -/

/-- `is_trusted` returns true. -/
def Trusts (host : Host) (w : World) (peerId : String) : Prop := ∃ w', host.isTrusted peerId w = .ok true w'

/-- `is_trusted` tells what the session knows. -/
theorem trusts_iff (calm : env.Calm) (faithful : host.Faithful) {files : Files} {w : World}
    (now : Now host serving.code env files w) (peerId : String) :
    Trusts host w peerId ↔ peerId ∈ files.trust := by
  obtain ⟨trusted, w', ends, isTrusted, _⟩ :=
    (isTrusted_shared calm faithful now.shows peerId).returns (⟨now.env_eq, rfl⟩ : Stands env w.fs w)
  constructor
  · rintro ⟨w'', ends'⟩
    rw [ends] at ends'
    obtain ⟨rfl, rfl⟩ := EStateM.Result.ok.inj ends'
    exact isTrusted.mp rfl
  · intro member
    refine ⟨w', ?_⟩
    rw [ends, isTrusted.mpr member]

/-- An entry says one thing. -/
theorem TransferHistoryEntry.Tells.unique {entry : TransferHistoryEntry}
    {first second : Cli.TransferHistoryEntry} (one : entry.Tells first) (other : entry.Tells second) :
    first = second := by
  obtain ⟨role, status, target, peerId, peerName, bytesDone, bytesTotal, error⟩ := first
  obtain ⟨role', status', target', peerId', peerName', bytesDone', bytesTotal', error'⟩ := second
  obtain rfl := roleText_injective (one.role.symm.trans other.role)
  obtain rfl := phaseText_injective (one.status.symm.trans other.status)
  obtain rfl : target = target' := Option.some.inj (one.target.symm.trans other.target)
  obtain rfl : peerId = peerId' := Option.some.inj (one.peerId.symm.trans other.peerId)
  obtain rfl : peerName = peerName' := Option.some.inj (one.peerName.symm.trans other.peerName)
  obtain rfl : bytesDone = bytesDone' := one.bytesDone.symm.trans other.bytesDone
  obtain rfl : bytesTotal = bytesTotal' := one.bytesTotal.symm.trans other.bytesTotal
  obtain rfl : error = error' := one.error.symm.trans other.error
  rfl

variable [DecidableEq ι] {s s' : DiskState ι}

/-- **Trust needs a yes**: after any run, `is_trusted` says yes of everybody of whom it did so before,
and of nobody else but a receiver that the user of the sender has approved, and the sender if the user
of a receiver has. -/
theorem disk_trust (calm : env.Calm) (faithful : host.Faithful) (start : DiskStart host serving env s)
    (actions : List (DiskAction ι)) (considerate : ∀ a ∈ actions, Considerate host serving.code a)
    (ends : (diskMachine host serving env).run Anything s actions = some s') (peerId : String) :
    (Trusts host s.world peerId → Trusts host s'.world peerId) ∧
      (Trusts host s'.world peerId → Trusts host s.world peerId ∨
        (∃ claim, .approved claim ∈ s'.log ∧ claim.receiverId = peerId) ∨
        peerId = serving.offer.senderId ∧ ∃ i, (s'.receivers i).answer = some true) := by
  obtain ⟨t, initial, related⟩ := start.related
  obtain ⟨t', run, related'⟩ := (session_lockstep calm faithful).run_ends related considerate ends
  have trusting := trusting_of_run initial run
  rw [trusts_iff calm faithful related.now, trusts_iff calm faithful related'.now]
  refine ⟨trusting.trust.kept peerId, fun member => ?_⟩
  rcases trusting.trust.vouched peerId member with before | ⟨claim, approved, same⟩ | ⟨same, i, answered⟩
  · exact Or.inl before
  · rw [related'.log]
    exact Or.inr (Or.inl ⟨claim, approved, same⟩)
  · refine Or.inr (Or.inr ⟨same, i, ?_⟩)
    rw [related'.receivers i]
    exact answered

/-- Both users have typed yes: the device of both is trusted, and nobody else is. -/
theorem disk_trust_sample :
    ∃ s', (diskMachine sampleHost sampleServing quietEnv).run Anything sampleDisk sampleActions =
        some s' ∧ .approved sampleClaim.brief ∈ s'.log ∧
      ∀ peerId, Trusts sampleHost s'.world peerId ↔ peerId = sampleClaim.receiverId := by
  have before (peerId : String) : ¬ Trusts sampleHost sampleDisk.world peerId := by
    have now := (sampleDisk_start.related_new sampleDisk_trust sampleDisk_history .nil).now
    rw [trusts_iff quiet_calm sampleHost_faithful now]
    exact List.not_mem_nil
  obtain ⟨s', ends, atEnd⟩ := sampleActions_run
  refine ⟨s', ends, by rw [atEnd.log]; simp [sampleEnd], fun peerId => ⟨fun trusts => ?_, ?_⟩⟩
  · rcases (disk_trust quiet_calm sampleHost_faithful sampleDisk_start sampleActions
      sampleActions_considerate ends peerId).2 trusts with known | ⟨claim, approved, rfl⟩ | ⟨rfl, _⟩
    · exact absurd known (before peerId)
    · obtain rfl : claim = sampleClaim.brief := by
        rw [atEnd.log] at approved
        simpa [sampleEnd] using approved
      rfl
    · rfl
  · rintro rfl
    exact (trusts_iff quiet_calm sampleHost_faithful atEnd.now _).mpr List.mem_cons_self

end SendRs.Disk
